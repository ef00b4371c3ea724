import PathGlob.Proofs.Behind
import PathGlob.Proofs.Matches

namespace PathGlob
variable {α : Type} {s : Char}
open Location

def Call.path : Call → Option Text
  | has path => some path
  | hasDirectory path => some path
  | list path => some path
  | workingDirectory _ => none

structure Confined (s : Char) (start path : Text) : Prop where
  absolute : isAbsolute [s] path = true
  normal : ∀ base here, normalize [s] path base here = .ok path
  inside : ∀ base here, within [s] path base (.ok (some start)) here = .ok true

theorem confined_down {place : Location} {names : List Text}
    (below : Resolved s (place.down names)) :
    Confined s (place.text [s]) ((place.down names).text [s]) := by
  have resolved := below.above
  refine ⟨text_absolute below, normalize_text below, ?_⟩
  intro base here
  have target := resolve_text below base here
  have top : reference [s] base (.ok (some (place.text [s]))) here = .ok place :=
    resolve_text resolved none here
  have held := (contains_iff resolved below).mpr ⟨names, rfl⟩
  simp [within, target, top, held, bind, Except.bind, pure, Except.pure]

namespace Walk
variable {volume : Volume} {hooks : Hooks α} {start : Text}

/-- Each listing follows at once on the answer that there is a directory. -/
def Guarded (volume : Volume) (events : List (Event α)) : Prop :=
  ∀ before path after, events = before ++ .call (.list path) :: after →
    ∃ earlier, before = earlier ++ [.call (.hasDirectory path)] ∧
      volume.hasDirectory path = .ok true

theorem Guarded.append {first rest : List (Event α)} (one : Guarded volume first)
    (two : Guarded volume rest) : Guarded volume (first ++ rest) := by
  intro before path after split
  rcases List.append_eq_append_iff.mp split with ⟨middle, rfl, tail⟩ | ⟨middle, front, tail⟩
  · obtain ⟨earlier, rfl, there⟩ := two middle path after tail
    exact ⟨first ++ earlier, by simp, there⟩
  · cases middle with
    | nil =>
      obtain ⟨earlier, none, there⟩ := two [] path after (by simpa using tail.symm)
      simp at none
    | cons event more =>
      obtain ⟨rfl, _⟩ := List.cons.inj tail
      exact one before path more front

theorem guarded_quiet {events : List (Event α)}
    (quiet : ∀ path, Event.call (.list path) ∉ events) : Guarded volume events := by
  intro before path after split
  exact absurd (split ▸ by simp) (quiet path)

structure Tame (volume : Volume) (s : Char) (start : Text) (events : List (Event α)) : Prop where
  asked : ∀ call path, Event.call call ∈ events → call.path = some path →
    Confined s start path
  guarded : Guarded volume events
  refused : ∀ path fault, Event.refused path fault ∈ events →
    fault = .refused .denied (.text path)

theorem tame_nil : Tame volume s start ([] : List (Event α)) :=
  ⟨by simp, guarded_quiet (by simp), by simp⟩

theorem Tame.append {first rest : List (Event α)} (one : Tame volume s start first)
    (two : Tame volume s start rest) : Tame volume s start (first ++ rest) := by
  refine ⟨?_, one.guarded.append two.guarded, ?_⟩
  · intro call path member
    rcases List.mem_append.mp member with front | back
    · exact one.asked call path front
    · exact two.asked call path back
  · intro path fault member
    rcases List.mem_append.mp member with front | back
    · exact one.refused path fault front
    · exact two.refused path fault back

theorem tame_values (values : List α) :
    Tame volume s start (values.map Event.yielded) :=
  ⟨by simp, guarded_quiet (by simp), by simp⟩

theorem tame_call {call : Call} {path : Text} (asks : call.path = some path)
    (other : ∀ path, call ≠ .list path) (confined : Confined s start path) :
    Tame volume s start ([.call call] : List (Event α)) := by
  refine ⟨?_, guarded_quiet fun path member => ?_, by simp⟩
  · intro found target member same
    obtain rfl : found = call := by simpa using member
    obtain rfl := Option.some.inj (same.symm.trans asks)
    exact confined
  · have same : Call.list path = call := by simpa using member
    exact other path same.symm

theorem tame_listing {path : Text} (confined : Confined s start path) :
    Tame volume s start ((namesIn volume path).1.map (Event.call (α := α))) := by
  have question : Tame volume s start ([.call (.hasDirectory path)] : List (Event α)) :=
    tame_call rfl (by simp) confined
  unfold namesIn
  split
  · exact question
  · exact question
  · rename_i there
    refine ⟨?_, ?_, by simp⟩
    · intro call target member same
      have about : call = .hasDirectory path ∨ call = .list path := by simpa using member
      rcases about with rfl | rfl <;> exact Option.some.inj same ▸ confined
    · intro before target after split
      cases before with
      | nil => simp at split
      | cons event more =>
        cases more with
        | nil =>
          obtain ⟨rfl, rfl, rfl⟩ : Event.call (.hasDirectory path) = event ∧ path = target ∧
              [] = after := by simpa using split
          exact ⟨[], rfl, there⟩
        | cons next others => simp at split

theorem tame_names {path : Text} (confined : Confined s start path)
    (denied : ∀ fault, (namesIn volume path).2 = .error fault →
      fault = .refused .denied (.text path)) (pending : List Frame)
    (expand : List Text → Except Fault (List α × List Frame)) :
    Tame volume s start (expandNames volume hooks path pending expand).1 := by
  have asked : Tame volume s start ((namesIn volume path).1.map (Event.call (α := α))) :=
    tame_listing confined
  unfold expandNames
  generalize namesIn volume path = listing at denied asked ⊢
  obtain ⟨calls, fault | names⟩ := listing
  · obtain rfl := denied fault rfl
    have refusal : Tame volume s start
        ([.refused path (.refused .denied (.text path))] : List (Event α)) :=
      ⟨by simp, guarded_quiet (by simp), by simp⟩
    have handled := refusal.append
      (tame_values (hooks.onRefusal path (.refused .denied (.text path))).toList)
    simpa [Fault.isRefusal] using asked.append handled
  · simp only
    cases expand names with
    | error fault => exact asked
    | ok expanded => exact asked.append (tame_values expanded.1)

def Under (s : Char) (place : Location) (frame : Frame) : Prop :=
  ∃ names, Resolved s (place.down names) ∧ frame.path = (place.down names).text [s]

/-- The start, with what is asked for a working directory before it. The directory of the volume
stands in for one that is not given, and does not count where the root is absolute. -/
theorem start_opened (volume : Volume) (s : Char) (root : Text) (cwd : Option Directory) :
    ∃ asked : List Call, (∀ call ∈ asked, ∃ sep, call = .workingDirectory sep) ∧
      Walk.start volume s root cwd =
        match normalize [s] root none
          ((cwd.getD (volume.workingDirectory s)).bind (checkDirectory [s])) with
        | .error fault => (asked, .error fault)
        | .ok base => (asked ++ [.hasDirectory base],
            (volume.hasDirectory base).map fun found =>
              if found then base else (ofText [s] (child s base parent)).text [s]) := by
  cases cwd with
  | some given => exact ⟨[], by simp, rfl⟩
  | none =>
    by_cases absolute : isAbsolute [s] root = true
    · have anywhere : Location.normalize [s] root none (checkDirectory [s] []) =
          Location.normalize [s] root none
            ((volume.workingDirectory s).bind (checkDirectory [s])) := by
        rw [Location.normalize, resolve_of_isAbsolute absolute, Location.normalize,
          resolve_of_isAbsolute absolute]
      refine ⟨[], by simp, ?_⟩
      unfold Walk.start
      rewrite [if_pos absolute, Option.getD_none, ← anywhere]
      rfl
    · refine ⟨[.workingDirectory s], by simp, ?_⟩
      unfold Walk.start
      rewrite [if_neg absolute]
      rfl

theorem start_tame {root : Text} {cwd : Option Directory}
    (begun : (Walk.start volume s root cwd).2 = .ok start) :
    Tame volume s start ((Walk.start volume s root cwd).1.map (Event.call (α := α))) := by
  obtain ⟨asked, silent, opened⟩ := start_opened volume s root cwd
  have before : Tame volume s start (asked.map (Event.call (α := α))) := by
    refine ⟨?_, guarded_quiet ?_, by simp⟩
    · intro call path member same
      obtain ⟨_, rfl⟩ := silent call (by simpa using member)
      cases same
    · intro path member
      obtain ⟨_, other⟩ := silent (.list path) (by simpa using member)
      cases other
  rw [opened] at begun ⊢
  cases normalized : normalize [s] root none
      ((cwd.getD (volume.workingDirectory s)).bind (checkDirectory [s])) with
  | error fault => simp [normalized] at begun
  | ok base =>
    simp only [normalized, List.map_append] at begun ⊢
    obtain ⟨place, resolved, rfl⟩ := normalize_resolved (checked_anchored _) normalized
    obtain ⟨found, _, chosen⟩ := map_ok_iff.mp begun
    refine before.append (tame_call rfl (by simp) ?_)
    cases found with
    | true =>
      obtain rfl : place.text [s] = start := by simpa using chosen
      have inside := confined_down ((down_nil place).symm ▸ resolved)
      rwa [down_nil] at inside
    | false =>
      obtain rfl : (ofText [s] (child s (place.text [s]) parent)).text [s] = start := by
        simpa using chosen
      obtain ⟨names, below⟩ := down_of_parent resolved
      have inside := confined_down (below ▸ resolved)
      rwa [← below] at inside

end Walk

namespace Memory
variable {memory : Memory}

theorem list_refused {path : Text} {fault : Fault} (there : memory.hasDirectory path = .ok true)
    (refused : memory.list path = .error fault) : fault = .refused .denied (.text path) := by
  obtain ⟨node, found, directory⟩ := map_ok_iff.mp there
  obtain ⟨key, keyed, held⟩ := map_ok_iff.mp found
  subst held
  simp only [list, keyed, bind, Except.bind] at refused
  split at refused
  · rename_i missing
    simp [missing] at directory
  · rename_i file
    simp [file, Node.isDirectory] at directory
  · split at refused
    · exact (Except.error.inj refused).symm
    · cases refused

theorem Sound.names_refused (sound : Sound s memory) {place : Location}
    (resolved : Resolved s place) {fault : Fault}
    (refused : (Walk.namesIn memory.volume (place.text [s])).2 = .error fault) :
    fault = .refused .denied (.text (place.text [s])) := by
  rw [sound.namesIn_text resolved] at refused
  split at refused
  · split at refused
    · exact (Except.error.inj refused).symm
    · cases refused
  · cases refused

theorem Sound.after_under (sound : Sound s memory) {place : Location} {frame after : Frame}
    (placed : Placed s frame) (under : Walk.Under s place frame)
    (follows : Walk.Follows memory.volume s frame after) : Walk.Under s place after := by
  obtain ⟨names, resolved, here⟩ := under
  have further : ∀ {name : Text}, IsName s name → Walk.Under s place
      ⟨Walk.child s ((place.down names).text [s]) name, after.rest⟩ := by
    intro name named
    refine ⟨names ++ [name], ?_, ?_⟩
    · rw [← down_down]
      exact resolved.down (by simpa using named)
    · rw [← down_down, child_text resolved]
  cases follows with
  | probe there =>
    obtain rfl : _ = (place.down names).text [s] := here
    exact further (placed.plain (.literal _) (by simp))
  | choose visible _ _ =>
    obtain rfl : _ = (place.down names).text [s] := here
    exact further ((sound.mem_seen_iff resolved _).mp visible).2.1
  | descend visible _ =>
    obtain rfl : _ = (place.down names).text [s] := here
    exact further ((sound.mem_seen_iff resolved _).mp visible).2.1
  | skip => exact ⟨names, resolved, here⟩

theorem Sound.step_tame (sound : Sound s memory) (hooks : Hooks α) {place : Location}
    {frame : Frame} (placed : Placed s frame) (under : Walk.Under s place frame) :
    Walk.Tame memory.volume s (place.text [s])
      (Walk.step memory.volume hooks s frame []).1 := by
  obtain ⟨path, rest⟩ := frame
  obtain ⟨names, resolved, rfl⟩ := under
  have confined := confined_down resolved
  have listing : ∀ pending expand, Walk.Tame memory.volume s (place.text [s])
      (Walk.expandNames memory.volume hooks ((place.down names).text [s]) pending expand).1 :=
    Walk.tame_names confined fun _ => sound.names_refused resolved
  cases rest with
  | nil => exact Walk.tame_values [hooks.onMatch ((place.down names).text [s])]
  | cons segment rest =>
    cases segment with
    | literal text =>
      have named : IsName s text := placed.plain (.literal text) (by simp)
      have below : Resolved s (place.down (names ++ [text])) := by
        rw [← down_down]
        exact resolved.down (by simpa using named)
      refine Walk.tame_call rfl (by simp) ?_
      rw [child_text resolved, down_down]
      exact confined_down below
    | wildcard expression => exact listing _ _
    | globstar =>
      cases rest with
      | nil => exact listing _ _
      | cons next more => exact listing _ _

end Memory

namespace Glob
variable {memory : Memory} {glob : Glob}

/-- A walk keeps to its start. Whatever the pattern, the root directory and the hooks, once a
start is found the walk ends; every path that it asks about, from the first question on, and every
path that it yields is absolute, normalized and within the start; each listing follows at once on
the answer that there is a directory, and is refused only where that is denied. -/
theorem run_confined {sep cwd source asked : Value} {directories files denied : List Value}
    {start : Text} (made : Memory.create sep cwd directories files denied = .ok memory)
    (compiled : Pattern.compile source asked = .ok glob.pattern)
    (same : memory.sep = [glob.pattern.sep])
    (begun : (glob.start memory.volume).2 = .ok start) (hooks : Hooks α) :
    (glob.run memory.volume hooks).outcome = .ended ∧
      (∀ call path, Event.call call ∈ (glob.run memory.volume hooks).events →
        call.path = some path → Confined glob.pattern.sep start path) ∧
      (∀ path ∈ Walk.yields (glob.run memory.volume .plain).events,
        Confined glob.pattern.sep start path) ∧
      Walk.Guarded memory.volume (glob.run memory.volume hooks).events ∧
      (∀ path fault, Event.call (.list path) ∈ (glob.run memory.volume hooks).events →
        memory.list path = .error fault → fault = .refused .denied (.text path)) ∧
      ∀ path fault, Event.refused path fault ∈ (glob.run memory.volume hooks).events →
        fault = .refused .denied (.text path) := by
  have sound := Memory.create_sound made same
  have plain := Pattern.segments_plain compiled
  obtain ⟨place, resolved, rfl⟩ := Walk.start_resolved begun
  have kept : ∀ frame next, Placed glob.pattern.sep frame →
      Walk.Under glob.pattern.sep place frame →
      (Walk.step memory.volume hooks glob.pattern.sep frame []).2 = .ok next →
      ∀ after ∈ next, Walk.Under glob.pattern.sep place after := by
    intro frame next placed under stepped after member
    obtain rfl := Except.ok.inj ((sound.sure placed).step_next.symm.trans stepped)
    exact sound.after_under placed under (Walk.mem_follow member)
  have steady := (sound.steady hooks).also kept
  have first : ∀ frame ∈ [Frame.mk (place.text [glob.pattern.sep]) glob.pattern.segments],
      Placed glob.pattern.sep frame ∧ Walk.Under glob.pattern.sep place frame := by
    intro frame member
    refine ⟨placed_start resolved plain frame member, [], ?_⟩
    obtain rfl := List.mem_singleton.mp member
    exact ⟨(down_nil place).symm ▸ resolved, by rw [down_nil]⟩
  have tame : Walk.Tame memory.volume glob.pattern.sep (place.text [glob.pattern.sep])
      (glob.run memory.volume hooks).events := by
    rw [run_begun begun]
    exact (Walk.start_tame begun).append (steady.run_keeps Walk.tame_nil (fun _ _ => .append)
      (fun frame both => sound.step_tame hooks both.1 both.2) first)
  refine ⟨run_ended sound plain resolved begun hooks, tame.asked, ?_, tame.guarded, ?_,
    tame.refused⟩
  · intro path yielded
    obtain ⟨blocks, below, _⟩ := (mem_yields_iff sound plain resolved begun path).mp yielded
    rw [below.leads]
    exact confined_down (resolved.down below.plain)
  · intro path fault listed refused
    obtain ⟨before, after, split⟩ := List.append_of_mem listed
    obtain ⟨_, _, there⟩ := tame.guarded before path after split
    exact Memory.list_refused there refused

/-- A root directory that is a file makes a walk start above it, and no higher for the dots. -/
theorem run_confined_above_file :
    ∃ (memory : Memory) (glob : Glob),
      Memory.create .null .null [] [.text ['/', 'a']] [] = .ok memory ∧
      Pattern.compile (.text ['.', '.', '/', '*', '*']) .null = .ok glob.pattern ∧
      glob.root = ['/', 'a'] ∧ (glob.start memory.volume).2 = .ok ['/'] ∧
      ['/', 'a'] ∈ Walk.yields (glob.run memory.volume .plain).events ∧
      Confined '/' ['/'] ['/', 'a'] := by
  let memory : Memory :=
    ⟨['/'], .text ['/'], [(['/'], .directory [['a']]), (['/', 'a'], .file)], []⟩
  let glob : Glob := ⟨Pattern.ofText '/' ['.', '.', '/', '*', '*'], ['/', 'a'], none⟩
  have made : Memory.create .null .null [] [.text ['/', 'a']] [] = .ok memory := rfl
  have compiled : Pattern.compile (.text ['.', '.', '/', '*', '*']) .null = .ok glob.pattern := rfl
  have begun : (glob.start memory.volume).2 = .ok ['/'] := ok_of_toOption (by decide +kernel)
  have yielded : ['/', 'a'] ∈ Walk.yields (glob.run memory.volume .plain).events := by
    decide +kernel
  obtain ⟨_, _, within, _⟩ := run_confined made compiled rfl begun Hooks.plain
  exact ⟨memory, glob, made, compiled, rfl, begun, yielded, within _ yielded⟩

end Glob

end PathGlob
