import PathGlob.Proofs.Dotted
import PathGlob.Proofs.Tally

/-!
What it changes that listings show a directory itself and its parent. A globstar passes over the
two, a wildcard does not: if one of them fits it, the walk goes on from there, and every path that
it comes to holds the special name and is not normalized. All other paths are yielded as without.
-/
namespace PathGlob
variable {s : Char}
open Location

namespace Location

def isNormal (sep path : Text) : Bool := (ofText sep path).text sep == path

theorem isNormal_text {place : Location} (resolved : Resolved s place) :
    isNormal [s] (place.text [s]) = true := by
  simp [isNormal, ofText_text resolved]

/-- Behind the drive a path names some directory itself, or its parent. -/
def Strays (s : Char) (path : Text) : Prop :=
  ∃ piece ∈ (Text.splitOn [s] path).tail, Walk.isSpecial piece = true

theorem Strays.not_normal {path : Text} (strays : Strays s path)
    (absolute : isAbsolute [s] path = true) : isNormal [s] path = false := by
  obtain ⟨piece, member, special⟩ := strays
  have resolved := ofText_absolute absolute
  rw [Bool.eq_false_iff]
  intro normal
  have same : (ofText [s] path).text [s] = path := by simpa [isNormal] using normal
  rw [← same, text_split resolved, List.tail_cons] at member
  split at member
  · obtain rfl := List.mem_singleton.mp member
    exact absurd special (by decide)
  · rw [(resolved.names piece member).usual] at special
    cases special

theorem Strays.child {path : Text} (strays : Strays s path) (name : Text) :
    Strays s (Walk.child s path name) := by
  obtain ⟨piece, member, special⟩ := strays
  obtain ⟨above, inhabited, same, pieces⟩ := child_pieces s path name
  refine ⟨piece, ?_, special⟩
  rw [pieces, List.tail_append_of_ne_nil inhabited]
  apply List.mem_append_left
  rcases same with same | same
  · rwa [same] at member
  · rw [same, List.tail_append_of_ne_nil inhabited] at member
    rcases List.mem_append.mp member with here | ending
    · exact here
    · obtain rfl := List.mem_singleton.mp ending
      exact absurd special (by decide)

theorem strays_special {name : Text} (special : Walk.isSpecial name = true) (apart : s ≠ '.')
    (path : Text) : Strays s (Walk.child s path name) := by
  have free : s ∉ name := by
    have either : name = current ∨ name = parent := by simpa [Walk.isSpecial] using special
    rcases either with rfl | rfl <;> simp [current, parent, apart]
  obtain ⟨above, inhabited, _, pieces⟩ := child_pieces s path name
  refine ⟨name, ?_, special⟩
  rw [pieces, List.tail_append_of_ne_nil inhabited, Text.split_free free]
  simp

end Location

/-- Some wildcard is fitted by the name of the directory itself or of its parent. -/
def TakesDots (segments : List Segment) : Prop :=
  ∃ expression regex name, .wildcard expression ∈ segments ∧
    Pattern.readExpression expression = .ok regex ∧ Walk.isSpecial name = true ∧
    regex.fullMatch name = true

namespace Walk
variable {volume : Volume} {sep : Char}

theorem targets_withDots (volume : Volume) (sep : Char) (path : Text) :
    targets volume.withDots sep path = targets volume sep path := by
  obtain ⟨dots, special, _, same⟩ := seen_withDots volume path
  have none : dots.filter (!isSpecial ·) = [] := by
    rw [List.filter_eq_nil_iff]
    intro name member
    simp [special name member]
  rw [targets, targets, same, List.filter_append, none, List.nil_append]

theorem found_withDots (volume : Volume) (sep : Char) (frame : Frame) :
    found volume.withDots sep frame = found volume sep frame := by
  unfold found
  split <;> simp only [targets_withDots]

theorem follow_withDots (volume : Volume) (sep : Char) (frame : Frame) :
    ∃ extra, follow volume.withDots sep frame = follow volume sep frame ++ extra ∧
      ∀ after ∈ extra, TakesDots frame.rest ∧
        ∃ name, isSpecial name = true ∧ after.path = child sep frame.path name := by
  obtain ⟨path, rest⟩ := frame
  have bare : ∀ frames : List Frame, ∃ extra, frames = frames ++ extra ∧
      ∀ after ∈ extra, TakesDots rest ∧
        ∃ name, isSpecial name = true ∧ after.path = child sep path name :=
    fun frames => ⟨[], by simp, by simp⟩
  cases rest with
  | nil => exact bare []
  | cons segment rest =>
    cases segment with
    | literal text => exact bare _
    | wildcard expression =>
      simp only [follow]
      cases read : Pattern.readExpression expression with
      | error fault => exact bare []
      | ok regex =>
        obtain ⟨dots, special, _, same⟩ := seen_withDots volume path
        refine ⟨push ((dots.filter regex.fullMatch).map fun name => ⟨child sep path name, rest⟩) [],
          by simp [same, push], ?_⟩
        intro after member
        simp only [push, List.append_nil, List.mem_reverse, List.mem_map, List.mem_filter] at member
        obtain ⟨name, ⟨here, fits⟩, rfl⟩ := member
        exact ⟨⟨expression, regex, name, by simp, read, special name here, fits⟩,
          name, special name here, rfl⟩
    | globstar =>
      cases rest with
      | nil =>
        simp only [follow, targets_withDots]
        exact bare _
      | cons next more =>
        simp only [follow, targets_withDots]
        exact bare _

theorem Follows.rest_subset {frame after : Frame} (follows : Follows volume sep frame after) :
    after.rest ⊆ frame.rest := by
  cases follows with
  | probe _ => exact List.subset_cons_self _ _
  | choose _ _ _ => exact List.subset_cons_self _ _
  | descend _ _ => exact List.Subset.refl _
  | skip => exact List.subset_cons_self _ _

theorem Follows.strays {frame after : Frame} (follows : Follows volume sep frame after)
    (strays : Strays sep frame.path) : Strays sep after.path := by
  cases follows with
  | probe _ => exact strays.child _
  | choose _ _ _ => exact strays.child _
  | descend _ _ => exact strays.child _
  | skip => exact strays

end Walk

namespace Memory
variable {memory : Memory}

def scattered (memory : Memory) (s : Char) (frame : Frame) : List Text :=
  Walk.harvest memory.volume.withDots .plain s (memory.height s) (memory.nodes.length + 3) frame

theorem Sound.scattered_eq (sound : Sound s memory) {frame : Frame}
    (standing : Standing s frame) :
    memory.scattered s frame = Walk.found memory.volume s frame ++
      (Walk.follow memory.volume.withDots s frame).flatMap (memory.scattered s) := by
  have sure := sound.sure_standing standing
  have gained := (sound.steady_withDots Hooks.plain).harvest_step standing sure.step_next
  rw [sure.step_yields, Walk.found_withDots] at gained
  exact gained

/-- A walk that has gone astray never comes to a normalized path again. -/
theorem Sound.scattered_strays (sound : Sound s memory) {frame : Frame}
    (standing : Standing s frame) (strays : Strays s frame.path) :
    ∀ path ∈ memory.scattered s frame, isNormal [s] path = false := by
  -- on the height, which is lower for every frame that follows
  induction level : memory.height s frame using Nat.strong_induction_on generalizing frame with
  | h level ih =>
    intro path member
    rw [sound.scattered_eq standing, List.mem_append, List.mem_flatMap] at member
    rcases member with here | ⟨after, next, member⟩
    · unfold Walk.found at here
      split at here
      · obtain rfl := List.mem_singleton.mp here
        exact strays.not_normal standing.absolute
      · obtain ⟨name, _, _, rfl⟩ := Walk.mem_targets.mp here
        exact (strays.child name).not_normal (child_absolute standing.absolute name)
      · cases here
    · have follows := Walk.mem_follow next
      obtain ⟨again, lower⟩ := sound.after_standing standing follows
      exact ih _ (level ▸ lower) again (follows.strays strays) rfl path member

theorem Sound.found_normal (sound : Sound s memory) {frame : Frame} (placed : Placed s frame) :
    ∀ path ∈ Walk.found memory.volume s frame, isNormal [s] path = true := by
  obtain ⟨place, resolved, here⟩ := placed.place
  intro path member
  unfold Walk.found at member
  split at member
  · obtain rfl := List.mem_singleton.mp member
    exact here ▸ isNormal_text resolved
  · rw [here, sound.targets_text resolved] at member
    obtain ⟨name, visible, rfl⟩ := List.mem_map.mp member
    have named := ((sound.mem_seen_iff resolved name).mp visible).2.1
    exact isNormal_text (resolved.down (by simpa using named))
  · cases member

theorem Sound.scattered_normal (sound : Sound s memory) (apart : s ≠ '.') {frame : Frame}
    (placed : Placed s frame) :
    (memory.scattered s frame).filter (isNormal [s]) = memory.gathered s frame := by
  induction level : memory.rank s frame using Nat.strong_induction_on generalizing frame with
  | h level ih =>
    have standing := placed.standing
    obtain ⟨extra, follows, special⟩ := Walk.follow_withDots memory.volume s frame
    have kept : (Walk.found memory.volume s frame).filter (isNormal [s]) =
        Walk.found memory.volume s frame := List.filter_eq_self.mpr (sound.found_normal placed)
    have onward : ∀ after ∈ Walk.follow memory.volume s frame,
        (memory.scattered s after).filter (isNormal [s]) = memory.gathered s after := by
      intro after member
      obtain ⟨again, lower⟩ := sound.after placed (Walk.mem_follow member)
      exact ih _ (level ▸ lower) again rfl
    have lost : ∀ after ∈ extra, (memory.scattered s after).filter (isNormal [s]) = [] := by
      intro after member
      obtain ⟨_, name, dots, leads⟩ := special after member
      have next : after ∈ Walk.follow memory.volume.withDots s frame := by simp [follows, member]
      have again := (sound.after_standing standing (Walk.mem_follow next)).1
      rw [List.filter_eq_nil_iff]
      intro path inside
      simp [sound.scattered_strays again (leads ▸ strays_special dots apart frame.path) path inside]
    rw [sound.scattered_eq standing, sound.gathered_eq placed, follows, List.flatMap_append,
      List.filter_append, List.filter_append, kept, List.filter_flatMap, List.filter_flatMap,
      List.flatMap_congr onward, List.flatMap_eq_nil_iff.mpr lost, List.append_nil]

theorem Sound.scattered_same (sound : Sound s memory) {frame : Frame} (placed : Placed s frame)
    (apart : ¬ TakesDots frame.rest) : memory.scattered s frame = memory.gathered s frame := by
  induction level : memory.rank s frame using Nat.strong_induction_on generalizing frame with
  | h level ih =>
    obtain ⟨extra, follows, special⟩ := Walk.follow_withDots memory.volume s frame
    have none : extra = [] := by
      apply List.eq_nil_iff_forall_not_mem.mpr
      intro after member
      exact apart (special after member).1
    have onward : ∀ after ∈ Walk.follow memory.volume s frame,
        memory.scattered s after = memory.gathered s after := by
      intro after member
      have next := Walk.mem_follow member
      obtain ⟨again, lower⟩ := sound.after placed next
      refine ih _ (level ▸ lower) again ?_ rfl
      intro h
      obtain ⟨expression, regex, name, inside, taken⟩ := h
      exact apart ⟨expression, regex, name, next.rest_subset inside, taken⟩
    rw [sound.scattered_eq placed.standing, sound.gathered_eq placed, follows, none,
      List.append_nil, List.flatMap_congr onward]

end Memory

namespace Glob
variable {memory : Memory} {glob : Glob} {place : Location}

theorem yields_scattered (sound : memory.Sound glob.pattern.sep)
    (plain : ∀ segment ∈ glob.pattern.segments, segment.Plain glob.pattern.sep)
    (resolved : Resolved glob.pattern.sep place)
    (begun : (glob.start memory.volume).2 = .ok (place.text [glob.pattern.sep])) :
    Walk.yields (glob.run memory.volume.withDots .plain).events =
      memory.scattered glob.pattern.sep ⟨place.text [glob.pattern.sep], glob.pattern.segments⟩ := by
  have ended := run_ended_withDots sound plain resolved begun Hooks.plain
  have begun : (glob.start memory.volume.withDots).2 = .ok (place.text [glob.pattern.sep]) := begun
  rw [run_begun begun] at ended
  rw [yields_begun begun,
    (sound.steady_withDots Hooks.plain).run_harvest
      (fun frame member => (placed_start resolved plain frame member).standing) ended,
    List.flatMap_singleton]
  rfl

theorem yields_refused {volume : Volume} {fault : Fault}
    (refused : (glob.start volume).2 = .error fault) :
    Walk.yields (glob.run volume .plain).events = [] := by
  refine List.eq_nil_iff_forall_not_mem.mpr fun path yielded => ?_
  obtain ⟨start, begun⟩ := begun_of_yielded yielded
  cases refused.symm.trans begun

/-- With dots a glob yields what it yields without them, in that order, and besides only paths
that are not normalized; and none of these where no special name fits a wildcard. -/
theorem yields_withDots (sound : memory.Sound glob.pattern.sep)
    (plain : ∀ segment ∈ glob.pattern.segments, segment.Plain glob.pattern.sep)
    (apart : glob.pattern.sep ≠ '.') :
    (Walk.yields (glob.run memory.volume.withDots .plain).events).filter
        (isNormal [glob.pattern.sep]) = Walk.yields (glob.run memory.volume .plain).events ∧
      (¬ TakesDots glob.pattern.segments →
        Walk.yields (glob.run memory.volume.withDots .plain).events =
          Walk.yields (glob.run memory.volume .plain).events) := by
  cases beginning : (glob.start memory.volume).2 with
  | error fault =>
    have dotted : (glob.start memory.volume.withDots).2 = .error fault := beginning
    rw [yields_refused dotted, yields_refused beginning]
    exact ⟨rfl, fun _ => rfl⟩
  | ok start =>
    obtain ⟨place, resolved, rfl⟩ := Walk.start_resolved beginning
    have placed : Placed glob.pattern.sep
        ⟨place.text [glob.pattern.sep], glob.pattern.segments⟩ :=
      placed_start resolved plain _ (List.mem_singleton_self _)
    rw [yields_scattered sound plain resolved beginning,
      yields_gathered sound plain resolved beginning]
    exact ⟨sound.scattered_normal apart placed, sound.scattered_same placed⟩

end Glob

end PathGlob
