import PathGlob.Proofs.Behind
import PathGlob.Proofs.Matches

/-!
Walks over a volume that lists each directory itself and its parent as well. A wildcard may step
to one of the two, so that paths are no longer normalized and lead up again; but each such step
uses up a segment, and a globstar passes over the two, so that a walk still comes to its end.
-/
namespace PathGlob
variable {α : Type} {s : Char}
open Location

namespace Walk
variable {volume : Volume} {sep : Char}

theorem namesIn_withDots (volume : Volume) (path : Text) :
    ∃ dots, (∀ name ∈ dots, isSpecial name = true) ∧ dots.length ≤ 2 ∧
      (namesIn volume.withDots path).2 = (namesIn volume path).2.map (dots ++ ·) := by
  have asked : volume.withDots.hasDirectory path = volume.hasDirectory path := rfl
  have listed : volume.withDots.list path =
      (volume.list path).map fun names => current :: parent :: names := rfl
  unfold namesIn
  rw [asked, listed]
  cases volume.hasDirectory path with
  | error fault => exact ⟨[], by simp, by simp, rfl⟩
  | ok found =>
    cases found with
    | false => exact ⟨[], by simp, by simp, rfl⟩
    | true => exact ⟨[current, parent], by simp [isSpecial], by simp, rfl⟩

theorem seen_withDots (volume : Volume) (path : Text) :
    ∃ dots, (∀ name ∈ dots, isSpecial name = true) ∧ dots.length ≤ 2 ∧
      seen volume.withDots path = dots ++ seen volume path := by
  obtain ⟨dots, special, few, same⟩ := namesIn_withDots volume path
  unfold seen
  rw [same]
  cases (namesIn volume path).2 with
  | error fault => exact ⟨[], by simp, by simp, rfl⟩
  | ok names => exact ⟨dots, special, few, rfl⟩

theorem listable_withDots {path : Text} (listable : Listable volume path) :
    Listable volume.withDots path := by
  intro fault refused
  obtain ⟨dots, _, _, same⟩ := namesIn_withDots volume path
  rw [same] at refused
  apply listable
  cases listing : (namesIn volume path).2 with
  | error other => simpa [listing, Except.map] using refused
  | ok names => simp [listing, Except.map] at refused

theorem mem_seen_withDots {path name : Text} (usual : isSpecial name = false) :
    name ∈ seen volume.withDots path ↔ name ∈ seen volume path := by
  obtain ⟨dots, special, _, same⟩ := seen_withDots volume path
  have absent : name ∉ dots := by
    intro member
    simp [special name member] at usual
  simp [same, absent]

end Walk

structure Standing (s : Char) (frame : Frame) : Prop where
  absolute : isAbsolute [s] frame.path = true
  plain : ∀ segment ∈ frame.rest, segment.Plain s

theorem Placed.standing {frame : Frame} (placed : Placed s frame) : Standing s frame := by
  obtain ⟨place, resolved, here⟩ := placed.place
  exact ⟨here ▸ text_absolute resolved, placed.plain⟩

theorem Standing.rest {frame : Frame} {path : Text} {segment : Segment} {rest : List Segment}
    (standing : Standing s ⟨path, segment :: rest⟩) (absolute : isAbsolute [s] frame.path = true)
    (same : frame.rest = rest) : Standing s frame :=
  ⟨absolute, fun other member => standing.plain other (List.mem_cons_of_mem _ (same ▸ member))⟩

namespace Memory
variable {memory : Memory}

/-- What is left to do for a frame where segments count more than the levels below it, since with
each segment the path may lead up to any level. -/
def height (memory : Memory) (s : Char) (frame : Frame) : Nat :=
  frame.rest.length * (memory.nodes.length + 1) +
    (memory.nodes.length - (ofText [s] frame.path).names.length)

theorem height_shorter (memory : Memory) (s : Char) (path other : Text) (segment : Segment)
    (rest : List Segment) :
    memory.height s ⟨other, rest⟩ < memory.height s ⟨path, segment :: rest⟩ := by
  simp only [height, List.length_cons, Nat.succ_mul]
  omega

theorem Sound.seen_leads (sound : Sound s memory) {path name : Text}
    (absolute : isAbsolute [s] path = true) (visible : name ∈ Walk.seen memory.volume path) :
    IsName s name ∧ (memory.nodes.get (((ofText [s] path).down [name]).text [s])).isSome := by
  have resolved := ofText_absolute absolute
  rw [sound.seen_absolute absolute, ← sound.seen_text resolved] at visible
  exact ((sound.mem_seen_iff resolved name).mp visible).2

theorem Sound.seen_few (sound : Sound s memory) {path : Text}
    (absolute : isAbsolute [s] path = true) :
    (Walk.seen memory.volume path).length ≤ memory.nodes.length := by
  have resolved := ofText_absolute absolute
  rw [sound.seen_absolute absolute, ← sound.seen_text resolved]
  exact sound.seen_bound resolved

theorem Sound.sure_standing (sound : Sound s memory) {frame : Frame}
    (standing : Standing s frame) : Walk.Sure memory.volume.withDots s frame := by
  obtain ⟨path, rest⟩ := frame
  constructor
  case probe =>
    intro text more _
    exact ⟨_, sound.has_absolute (child_absolute standing.absolute text)⟩
  case listing => exact Walk.listable_withDots (sound.listable_absolute standing.absolute)
  case expression =>
    intro expression more same
    obtain rfl : rest = .wildcard expression :: more := same
    exact standing.plain (.wildcard expression) (by simp)

theorem Sound.after_standing (sound : Sound s memory) {frame after : Frame}
    (standing : Standing s frame)
    (follows : Walk.Follows memory.volume.withDots s frame after) :
    Standing s after ∧ memory.height s after < memory.height s frame := by
  have absolute := standing.absolute
  cases follows with
  | probe there =>
    exact ⟨standing.rest (child_absolute absolute _) rfl, memory.height_shorter s _ _ _ _⟩
  | choose visible _ _ =>
    exact ⟨standing.rest (child_absolute absolute _) rfl, memory.height_shorter s _ _ _ _⟩
  | skip => exact ⟨standing.rest absolute rfl, memory.height_shorter s _ _ _ _⟩
  | descend visible usual =>
    rename_i path name rest
    rw [Walk.mem_seen_withDots usual] at visible
    obtain ⟨named, there⟩ := sound.seen_leads absolute visible
    refine ⟨⟨child_absolute absolute name, standing.plain⟩, ?_⟩
    have below : Resolved s ((ofText [s] path).down [name]) :=
      (ofText_absolute absolute).down (by simpa using named)
    have depth := sound.tree.depth below there
    simp only [height, ofText_child_name named, down_names, List.length_append,
      List.length_singleton] at depth ⊢
    omega

theorem Sound.steady_withDots (sound : Sound s memory) (hooks : Hooks α) :
    Walk.Steady memory.volume.withDots hooks s (Standing s) (memory.height s)
      (memory.nodes.length + 3) := by
  constructor
  intro frame standing
  refine ⟨_, (sound.sure_standing standing).step_next, ?_, ?_⟩
  · have few := Walk.follow_length memory.volume.withDots s frame
    have bound := sound.seen_few standing.absolute
    obtain ⟨dots, _, two, same⟩ := Walk.seen_withDots memory.volume frame.path
    rw [same, List.length_append] at few
    omega
  · intro after member
    exact sound.after_standing standing (Walk.mem_follow member)

theorem enough_fuel_withDots (memory : Memory) (s : Char) (start : Text)
    (segments : List Segment) :
    Walk.cost (memory.height s) (memory.nodes.length + 3) [⟨start, segments⟩] ≤
      Walk.fuel memory.volume.withDots segments := by
  have low : memory.height s ⟨start, segments⟩ ≤
      (memory.nodes.length + 4) * (segments.length + 1) := by
    have levels : memory.height s ⟨start, segments⟩ ≤
        segments.length * (memory.nodes.length + 1) + memory.nodes.length :=
      Nat.add_le_add_left (Nat.sub_le _ _) _
    rw [Nat.mul_comm, Nat.succ_mul]
    have wider : segments.length * (memory.nodes.length + 1) ≤
        segments.length * (memory.nodes.length + 4) := Nat.mul_le_mul_left _ (by omega)
    omega
  calc Walk.cost (memory.height s) (memory.nodes.length + 3) [⟨start, segments⟩]
      = (memory.nodes.length + 4) ^ memory.height s ⟨start, segments⟩ := by simp [Walk.cost]
    _ ≤ (memory.nodes.length + 6) ^ memory.height s ⟨start, segments⟩ :=
        Nat.pow_le_pow_left (by omega) _
    _ ≤ (memory.nodes.length + 6) ^ ((memory.nodes.length + 4) * (segments.length + 1)) :=
        Nat.pow_le_pow_right (by omega) low

end Memory

namespace Glob
variable {memory : Memory} {glob : Glob}

theorem run_ended_withDots (sound : memory.Sound glob.pattern.sep)
    (plain : ∀ segment ∈ glob.pattern.segments, segment.Plain glob.pattern.sep)
    {place : Location} (resolved : Resolved glob.pattern.sep place)
    (begun : (glob.start memory.volume).2 = .ok (place.text [glob.pattern.sep]))
    (hooks : Hooks α) : (glob.run memory.volume.withDots hooks).outcome = .ended := by
  have begun : (glob.start memory.volume.withDots).2 = .ok (place.text [glob.pattern.sep]) := begun
  rw [run_begun begun]
  refine (sound.steady_withDots hooks).run_ended ?_ (memory.enough_fuel_withDots _ _ _)
  intro frame member
  exact (placed_start resolved plain frame member).standing

/-- A walk always ends, also where each listing shows the directory itself and its parent. -/
theorem always_ends {sep cwd source asked : Value} {directories files denied : List Value}
    {start : Text} (made : Memory.create sep cwd directories files denied = .ok memory)
    (compiled : Pattern.compile source asked = .ok glob.pattern)
    (same : memory.sep = [glob.pattern.sep])
    (begun : (glob.start memory.volume).2 = .ok start) (hooks : Hooks α) :
    (glob.run memory.volume hooks).outcome = .ended ∧
      (glob.run memory.volume.withDots hooks).outcome = .ended := by
  have sound := Memory.create_sound made same
  have plain := Pattern.segments_plain compiled
  obtain ⟨place, resolved, rfl⟩ := Walk.start_resolved begun
  exact ⟨run_ended sound plain resolved begun hooks,
    run_ended_withDots sound plain resolved begun hooks⟩

theorem always_ends_upwards :
    ∃ memory, Memory.create .null .null [] [.text ['/', 'a', '/', 'b']] [] = .ok memory ∧
      (Glob.run ⟨Pattern.ofText '/' ['*', '/', '*', '/', '*', '*'], ['/', 'a'], none⟩
        memory.volume.withDots .plain).outcome = .ended := by
  let memory : Memory := ⟨['/'], .text ['/'], [(['/'], .directory [['a']]),
    (['/', 'a'], .directory [['b']]), (['/', 'a', '/', 'b'], .file)], []⟩
  let glob : Glob := ⟨Pattern.ofText '/' ['*', '/', '*', '/', '*', '*'], ['/', 'a'], none⟩
  have made : Memory.create .null .null [] [.text ['/', 'a', '/', 'b']] [] = .ok memory := rfl
  have compiled : Pattern.compile (.text ['*', '/', '*', '/', '*', '*']) .null =
      .ok glob.pattern := rfl
  have begun : (glob.start memory.volume).2 = .ok ['/', 'a'] :=
    ok_of_toOption (by decide +kernel)
  exact ⟨memory, made, (always_ends made compiled rfl begun .plain).2⟩

end Glob

end PathGlob
