import PathGlob.Proofs.Confined
import PathGlob.Proofs.Listing

namespace PathGlob
variable {α β : Type} {s : Char}
open Location

/-- Each value with what it is for: a path that is matched, or a directory that may not be read. -/
def Hooks.marked (hooks : Hooks α) : Hooks (Text ⊕ α) where
  onMatch := .inl
  onRefusal path fault := (hooks.onRefusal path fault).map .inr

namespace Walk
variable {volume other : Volume} {hooks : Hooks α} {sep : Char}

theorem reports_marked (volume : Volume) (hooks : Hooks α) (frame : Frame) :
    reports volume hooks.marked frame = (reports volume hooks frame).map .inr := by
  unfold reports
  split
  · rfl
  · rfl
  · split
    · rename_i fault _
      simp only [Hooks.marked]
      cases hooks.onRefusal frame.path fault <;> rfl
    · rfl

theorem follow_same {frame : Frame} (has : volume.has = other.has)
    (same : seen volume frame.path = seen other frame.path) :
    follow volume sep frame = follow other sep frame := by
  unfold follow targets
  rw [has, same]

theorem found_same {frame : Frame} (same : seen volume frame.path = seen other frame.path) :
    found volume sep frame = found other sep frame := by
  unfold found targets
  rw [same]

theorem Steady.run_alike {good : Frame → Prop} {rank : Frame → Nat} {width : Nat}
    (steady : Steady volume hooks sep good rank width) {more : Hooks β} {kept : α → Option β}
    (alike : ∀ frame, good frame →
      (Walk.step other more sep frame []).2 = (Walk.step volume hooks sep frame []).2 ∧
        yields (Walk.step other more sep frame []).1 =
          (yields (Walk.step volume hooks sep frame []).1).filterMap kept)
    {fuel : Nat} {frames : List Frame} (start : ∀ frame ∈ frames, good frame) :
    (run other more sep fuel frames).outcome = (run volume hooks sep fuel frames).outcome ∧
      yields (run other more sep fuel frames).events =
        (yields (run volume hooks sep fuel frames).events).filterMap kept := by
  induction fuel generalizing frames with
  | zero => cases frames <;> exact ⟨rfl, rfl⟩
  | succ fuel ih =>
    cases frames with
    | nil => exact ⟨rfl, rfl⟩
    | cons frame pending =>
      obtain ⟨here, later⟩ := List.forall_mem_cons.mp start
      obtain ⟨next, stepped, _, after⟩ := steady.step frame here
      obtain ⟨same, values⟩ := alike frame here
      have onward : ∀ other ∈ next ++ pending, good other :=
        List.forall_mem_append.mpr ⟨fun other member => (after other member).1, later⟩
      obtain ⟨outcome, rest⟩ := ih onward
      rw [run_step stepped, run_step (same.trans stepped)]
      refine ⟨outcome, ?_⟩
      rw [yields_append, yields_append, List.filterMap_append, values, rest]

theorem step_refused {frame : Frame} {path : Text} {fault : Fault}
    (refused : Event.refused path fault ∈ (step volume hooks sep frame []).1) :
    path = frame.path ∧ (namesIn volume path).2 = .error fault := by
  have listing : ∀ {pending expand},
      Event.refused path fault ∈ (expandNames volume hooks frame.path pending expand).1 →
      path = frame.path ∧ (namesIn volume path).2 = .error fault := by
    intro pending expand member
    unfold expandNames at member
    generalize answer : namesIn volume frame.path = listing at member
    obtain ⟨calls, other | names⟩ := listing
    · by_cases refusal : other.isRefusal = true
      · obtain ⟨rfl, rfl⟩ : path = frame.path ∧ fault = other := by simpa [refusal] using member
        exact ⟨rfl, by rw [answer]⟩
      · simp [refusal] at member
    · simp only at member
      split at member <;> simp at member
  obtain ⟨place, rest⟩ := frame
  cases rest with
  | nil => simp [step] at refused
  | cons segment rest =>
    cases segment with
    | literal text => simp [step] at refused
    | wildcard expression => exact listing refused
    | globstar =>
      cases rest with
      | nil => exact listing refused
      | cons next more => exact listing refused

end Walk

namespace Memory
variable {memory : Memory}

def keysOf (memory : Memory) (values : List Value) : List Text :=
  values.filterMap fun value => (value.asText .path >>= memory.key).toOption

theorem mem_keysOf {values : List Value} {key : Text} :
    key ∈ memory.keysOf values ↔ ∃ value ∈ values, memory.Names value key := by
  simp only [keysOf, List.mem_filterMap, Names]
  refine exists_congr fun value => and_congr_right fun _ => ?_
  rw [← bind_ok_iff]
  cases value.asText .path >>= memory.key <;> simp [Except.toOption]

/-- The same tree, with nothing to be seen in the directories that these values name. -/
def veiled (memory : Memory) (denied : List Value) : Volume :=
  { memory.volume with
    list := fun path => do
      let names ← list { memory with denied := [] } path
      return if (memory.keysOf denied).contains (← memory.key path) then [] else names }

section Veiled
variable {denied : List Value}
  (named : ∀ key, key ∈ memory.denied ↔ ∃ value ∈ denied, memory.Names value key)
include named

theorem Sound.namesIn_veiled (sound : Sound s memory) {place : Location}
    (resolved : Resolved s place) :
    (Walk.namesIn (memory.veiled denied) (place.text [s])).2 =
      .ok (Walk.seen memory.volume (place.text [s])) := by
  have keyed := sound.key_text resolved
  have bare : key { memory with denied := [] } (place.text [s]) = .ok (place.text [s]) := keyed
  have answer : (memory.veiled denied).hasDirectory (place.text [s]) = _ :=
    sound.hasDirectory_text resolved
  have keys : place.text [s] ∈ memory.keysOf denied ↔ place.text [s] ∈ memory.denied :=
    mem_keysOf.trans (named _).symm
  rw [sound.seen_text resolved]
  cases held : memory.nodes.get (place.text [s]) with
  | none => simp [Walk.namesIn, answer, held]
  | some node =>
    cases node with
    | file => simp [Walk.namesIn, answer, held, Node.isDirectory]
    | directory names =>
      have listing : (memory.veiled denied).list (place.text [s]) =
          .ok (if place.text [s] ∈ memory.denied then [] else names) := by
        simp [veiled, list, bare, keyed, held, keys, bind, Except.bind, pure, Except.pure]
      simp [Walk.namesIn, answer, held, Node.isDirectory, listing]

theorem Sound.seen_veiled (sound : Sound s memory) {place : Location}
    (resolved : Resolved s place) :
    Walk.seen (memory.veiled denied) (place.text [s]) =
      Walk.seen memory.volume (place.text [s]) := by
  unfold Walk.seen
  rw [sound.namesIn_veiled named resolved]
  rfl

theorem Sound.sure_veiled (sound : Sound s memory) {frame : Frame} (placed : Placed s frame) :
    Walk.Sure (memory.veiled denied) s frame := by
  have sure := sound.sure placed
  refine ⟨sure.probe, ?_, sure.expression⟩
  obtain ⟨place, resolved, here⟩ := placed.place
  rw [here]
  intro fault answer
  rw [sound.namesIn_veiled named resolved] at answer
  cases answer

theorem Sound.step_veiled (sound : Sound s memory) (hooks : Hooks α) {frame : Frame}
    (placed : Placed s frame) :
    (Walk.step (memory.veiled denied) .plain s frame []).2 =
        (Walk.step memory.volume hooks.marked s frame []).2 ∧
      Walk.yields (Walk.step (memory.veiled denied) .plain s frame []).1 =
        (Walk.yields (Walk.step memory.volume hooks.marked s frame []).1).filterMap
          Sum.getLeft? := by
  have sure := sound.sure placed
  have veiled := sound.sure_veiled named placed
  have same : Walk.seen (memory.veiled denied) frame.path = Walk.seen memory.volume frame.path := by
    obtain ⟨place, resolved, here⟩ := placed.place
    rw [here, sound.seen_veiled named resolved]
  constructor
  · have has : (memory.veiled denied).has = memory.volume.has := rfl
    rw [veiled.step_next, sure.step_next, Walk.follow_same has same]
  · rw [veiled.step_yields, sure.step_values, Walk.reports_marked, Walk.found_same same]
    simp [Hooks.marked, Function.comp_def]

end Veiled

theorem Sound.step_marked (sound : Sound s memory) (hooks : Hooks α) {frame : Frame}
    (placed : Placed s frame) :
    (Walk.step memory.volume hooks s frame []).2 =
        (Walk.step memory.volume hooks.marked s frame []).2 ∧
      Walk.yields (Walk.step memory.volume hooks s frame []).1 =
        (Walk.yields (Walk.step memory.volume hooks.marked s frame []).1).filterMap
          (some ∘ Sum.elim hooks.onMatch id) := by
  have sure := sound.sure placed
  constructor
  · rw [sure.step_next, sure.step_next]
  · rw [sure.step_values, sure.step_values, Walk.reports_marked]
    simp [Hooks.marked, Function.comp_def]

structure Denial (memory : Memory) (s : Char) (start path : Text) (fault : Fault) : Prop where
  fault : fault = .refused .denied (.text path)
  directory : memory.hasDirectory path = .ok true
  denied : path ∈ memory.denied
  within : Confined s start path

def Refuses (memory : Memory) (s : Char) (start : Text) (events : List (Event α)) : Prop :=
  ∀ path fault, Event.refused path fault ∈ events → memory.Denial s start path fault

theorem Refuses.append {start : Text} {first rest : List (Event α)}
    (one : memory.Refuses s start first) (two : memory.Refuses s start rest) :
    memory.Refuses s start (first ++ rest) := by
  intro path fault member
  rcases List.mem_append.mp member with front | back
  · exact one path fault front
  · exact two path fault back

theorem refuses_calls {start : Text} (calls : List Call) :
    memory.Refuses s start (calls.map (Event.call (α := α))) := by
  intro path fault member
  simp at member

theorem Sound.step_denial (sound : Sound s memory) (hooks : Hooks α) {place : Location}
    {frame : Frame} (under : Walk.Under s place frame) {path : Text} {fault : Fault}
    (refused : Event.refused path fault ∈ (Walk.step memory.volume hooks s frame []).1) :
    memory.Denial s (place.text [s]) path fault := by
  obtain ⟨rfl, answer⟩ := Walk.step_refused refused
  obtain ⟨names, resolved, here⟩ := under
  rw [here] at answer ⊢
  have fault := sound.names_refused resolved answer
  rw [sound.namesIn_text resolved] at answer
  split at answer
  · rename_i listing held
    split at answer
    · rename_i denied
      exact ⟨fault, by rw [sound.hasDirectory_text resolved, held]; rfl, denied,
        confined_down resolved⟩
    · cases answer
  · cases answer

theorem Sound.steady_under (sound : Sound s memory) (hooks : Hooks α) (place : Location) :
    Walk.Steady memory.volume hooks s (fun frame => Placed s frame ∧ Walk.Under s place frame)
      (memory.rank s) (memory.nodes.length + 1) := by
  refine (sound.steady hooks).also fun frame next placed under stepped after member => ?_
  obtain rfl := Except.ok.inj ((sound.sure placed).step_next.symm.trans stepped)
  exact sound.after_under placed under (Walk.mem_follow member)

theorem Sound.run_refuses (sound : Sound s memory) (hooks : Hooks α) {place : Location} {fuel : Nat}
    {frames : List Frame} (start : ∀ frame ∈ frames, Placed s frame ∧ Walk.Under s place frame) :
    memory.Refuses s (place.text [s]) (Walk.run memory.volume hooks s fuel frames).events :=
  (sound.steady_under hooks place).run_keeps (refuses_calls []) (fun _ _ => .append)
    (fun _ both _ _ => sound.step_denial hooks both.2) start

end Memory

namespace Glob
variable {memory : Memory} {glob : Glob}

theorem under_start {place : Location} (resolved : Resolved s place) {segments : List Segment}
    (plain : ∀ segment ∈ segments, segment.Plain s) :
    ∀ frame ∈ [Frame.mk (place.text [s]) segments], Placed s frame ∧ Walk.Under s place frame := by
  intro frame member
  refine ⟨placed_start resolved plain frame member, [], ?_⟩
  obtain rfl := List.mem_singleton.mp member
  exact ⟨(down_nil place).symm ▸ resolved, by rw [down_nil]⟩

/-- A directory that may not be read is as good as an empty one. Whatever the hooks, once a start
is found the walk ends; what is yielded are the matches and what the hook has to say, and the
matches are in the order in which they come from the tree with nothing in the denied directories.
The hook only hears of denied directories within the start. -/
theorem unread_empty {sep cwd source asked : Value} {directories files denied : List Value}
    {start : Text} (made : Memory.create sep cwd directories files denied = .ok memory)
    (compiled : Pattern.compile source asked = .ok glob.pattern)
    (same : memory.sep = [glob.pattern.sep])
    (begun : (glob.start memory.volume).2 = .ok start) (hooks : Hooks α) :
    (glob.run memory.volume hooks).outcome = .ended ∧
      (glob.run (memory.veiled denied) .plain).outcome = .ended ∧
      Walk.yields (glob.run memory.volume hooks).events =
        (Walk.yields (glob.run memory.volume hooks.marked).events).map
          (Sum.elim hooks.onMatch id) ∧
      (Walk.yields (glob.run memory.volume hooks.marked).events).filterMap Sum.getLeft? =
        Walk.yields (glob.run (memory.veiled denied) .plain).events ∧
      ∀ path fault, Event.refused path fault ∈ (glob.run memory.volume hooks).events →
        memory.Denial glob.pattern.sep start path fault ∧
          ∃ value ∈ denied, memory.Names value path := by
  have sound := Memory.create_sound made same
  have plain := Pattern.segments_plain compiled
  obtain ⟨place, resolved, rfl⟩ := Walk.start_resolved begun
  have named := Memory.create_denied made
  have opened : (glob.start (memory.veiled denied)).2 = .ok (place.text [glob.pattern.sep]) := begun
  have first := placed_start resolved plain
  have steady := sound.steady hooks.marked
  have emptied := fun frame (placed : Placed glob.pattern.sep frame) =>
    sound.step_veiled named hooks placed
  refine ⟨run_ended sound plain resolved begun hooks, ?_, ?_, ?_, ?_⟩
  · have ended := run_ended sound plain resolved begun hooks.marked
    rw [run_begun begun] at ended
    rw [run_begun opened]
    exact (steady.run_alike emptied first).1.trans ended
  · rw [yields_begun begun, yields_begun begun, ← List.filterMap_eq_map]
    exact (steady.run_alike (fun _ placed => sound.step_marked hooks placed) first).2
  · rw [yields_begun begun, yields_begun opened]
    exact (steady.run_alike emptied first).2.symm
  · have heard : memory.Refuses glob.pattern.sep (place.text [glob.pattern.sep])
        (glob.run memory.volume hooks).events := by
      rw [run_begun begun]
      exact (Memory.refuses_calls _).append (sound.run_refuses hooks (under_start resolved plain))
    intro path fault refused
    have denial := heard path fault refused
    exact ⟨denial, (named path).mp denial.denied⟩

theorem unread_empty_below :
    ∃ (memory : Memory) (glob : Glob), Memory.create .null .null []
        [.text ['/', 'a', '/', 'b'], .text ['/', 'c']] [.text ['/', 'a']] = .ok memory ∧
      Pattern.compile (.text ['*', '*']) .null = .ok glob.pattern ∧
      (Walk.yields (glob.run memory.volume
        (Hooks.marked ⟨id, fun path _ => some path⟩)).events).filterMap Sum.getLeft? =
          [['/', 'a'], ['/', 'c']] := by
  let memory : Memory := ⟨['/'], .text ['/'], [(['/'], .directory [['a'], ['c']]),
    (['/', 'a'], .directory [['b']]), (['/', 'a', '/', 'b'], .file), (['/', 'c'], .file)],
    [['/', 'a']]⟩
  let glob : Glob := ⟨Pattern.ofText '/' ['*', '*'], ['/'], none⟩
  have made : Memory.create .null .null [] [.text ['/', 'a', '/', 'b'], .text ['/', 'c']]
      [.text ['/', 'a']] = .ok memory := rfl
  have compiled : Pattern.compile (.text ['*', '*']) .null = .ok glob.pattern := rfl
  have begun : (glob.start memory.volume).2 = .ok ['/'] := rfl
  obtain ⟨_, _, _, matched, _⟩ :=
    unread_empty made compiled rfl begun ⟨id, fun path _ => some path⟩
  exact ⟨memory, glob, made, compiled, matched.trans (by decide +kernel)⟩

end Glob

end PathGlob
