import PathGlob.Proofs.Harvest
import PathGlob.Proofs.Ways
import PathGlob.Volume.Memory

/-!
The walk as a recursion. What a pattern finds from a path on is put together from what the rest of
it finds from the paths that follow, with nothing that waits in between. The recursion comes to
its end exactly where the walk does, and then both give the same values in the same order.
-/
namespace PathGlob.Walk
variable {volume : Volume} {sep : Char}

def listing (volume : Volume) (path : Text) : Except Fault (List Text) := do
  if ← volume.hasDirectory path then volume.list path else return []

/-- The names in a directory that are kept. A refused listing has none, and where nothing is
listed it does not matter whether it is known what to keep. -/
def choices (volume : Volume) (path : Text) (keep : Except Fault (Text → Bool)) :
    Option (List Text) :=
  match listing volume path with
  | .error fault => if fault.isRefusal then some [] else none
  | .ok names => keep.toOption.map names.filter

def notDots (name : Text) : Bool := name != ['.'] && name != ['.', '.']

/-- What the segments find from a path on: the values of a recursion that comes to its end. It
goes down in the reverse order of the listing; the last globstar yields the children themselves
before that, and any other one tries the rest of the segments on the path itself after that. -/
inductive Explored (volume : Volume) (sep : Char) : Text → List Segment → List Text → Prop where
  | arrived {path : Text} : Explored volume sep path [] [path]
  | present {path text : Text} {rest : List Segment} {values : List Text}
      (there : volume.has (child sep path text) = .ok true)
      (more : Explored volume sep (child sep path text) rest values) :
      Explored volume sep path (.literal text :: rest) values
  | missing {path text : Text} {rest : List Segment}
      (absent : volume.has (child sep path text) = .ok false) :
      Explored volume sep path (.literal text :: rest) []
  | wildcard {path expression : Text} {rest : List Segment} {names : List Text}
      {parts : Text → List Text}
      (chosen : choices volume path ((Pattern.readExpression expression).map Regex.fullMatch) =
        some names)
      (each : ∀ name ∈ names, Explored volume sep (child sep path name) rest (parts name)) :
      Explored volume sep path (.wildcard expression :: rest) (names.reverse.flatMap parts)
  | last {path : Text} {names : List Text} {parts : Text → List Text}
      (chosen : choices volume path (.ok notDots) = some names)
      (each : ∀ name ∈ names, Explored volume sep (child sep path name) [.globstar] (parts name)) :
      Explored volume sep path [.globstar]
        (names.map (child sep path) ++ names.reverse.flatMap parts)
  | globstar {path : Text} {segment : Segment} {rest : List Segment} {names values : List Text}
      {parts : Text → List Text}
      (chosen : choices volume path (.ok notDots) = some names)
      (each : ∀ name ∈ names, Explored volume sep (child sep path name)
        (.globstar :: segment :: rest) (parts name))
      (here : Explored volume sep path (segment :: rest) values) :
      Explored volume sep path (.globstar :: segment :: rest)
        (names.reverse.flatMap parts ++ values)

def Steps (volume : Volume) (sep : Char) (frame : Frame) (own : List Text)
    (next : List Frame) : Prop :=
  (step volume .plain sep frame []).2 = .ok next ∧
    yields (step volume .plain sep frame []).1 = own

theorem namesIn_listing (volume : Volume) (path : Text) :
    (namesIn volume path).2 = listing volume path := by
  unfold namesIn listing
  cases volume.hasDirectory path with
  | error fault => rfl
  | ok directory => cases directory <;> rfl

theorem notDots_eq : notDots = (!isSpecial ·) := by
  funext name
  simp [notDots, isSpecial, current, parent, bne]

theorem expandNames_iff {path : Text} {pending next : List Frame} {own : List Text}
    {expand : List Text → Except Fault (List Text × List Frame)}
    {keep : Except Fault (Text → Bool)} (values : List Text → List Text)
    (frames : List Text → List Frame)
    (expanded : ∀ names, expand names =
      keep.map fun fits => (values (names.filter fits), frames (names.filter fits)))
    (noValues : values [] = []) (noFrames : frames [] = []) :
    ((expandNames volume .plain path pending expand).2 = .ok next ∧
        yields (expandNames volume .plain path pending expand).1 = own) ↔
      ∃ names, choices volume path keep = some names ∧ values names = own ∧
        push (frames names) pending = next := by
  unfold expandNames choices
  rw [← namesIn_listing]
  generalize namesIn volume path = answer
  obtain ⟨calls, fault | names⟩ := answer
  · cases refusal : fault.isRefusal
    · simp [refusal]
    · have quiet : yields (calls.map .call ++ .refused path fault ::
          (Hooks.plain.onRefusal path fault).toList.map .yielded) = ([] : List Text) := by
        rw [yields_append, yields_asked]
        rfl
      simp [refusal, quiet, noValues, noFrames, push, and_comm]
  · simp only [expanded]
    cases keep with
    | error fault => simp [Except.map, Except.toOption]
    | ok fits =>
      simp [Except.map, Except.toOption, yields_append, yields_asked, yields_values, and_comm]

theorem steps_nil {path : Text} {own : List Text} {next : List Frame} :
    Steps volume sep ⟨path, []⟩ own next ↔ own = [path] ∧ next = [] := by
  have yielded : yields [Event.yielded (Hooks.plain.onMatch path)] = [path] := rfl
  simp [Steps, step, yielded, eq_comm, and_comm]

theorem steps_literal {path text : Text} {rest : List Segment} {own : List Text}
    {next : List Frame} :
    Steps volume sep ⟨path, .literal text :: rest⟩ own next ↔ own = [] ∧
      (volume.has (child sep path text) = .ok true ∧ next = [⟨child sep path text, rest⟩] ∨
        volume.has (child sep path text) = .ok false ∧ next = []) := by
  have silent : yields [Event.call (α := Text) (.has (child sep path text))] = [] := rfl
  cases answer : volume.has (child sep path text) with
  | error fault => simp [Steps, step, answer, Except.map]
  | ok found => cases found <;> simp [Steps, step, answer, Except.map, silent, eq_comm, and_comm]

theorem steps_wildcard {path expression : Text} {rest : List Segment} {own : List Text}
    {next : List Frame} :
    Steps volume sep ⟨path, .wildcard expression :: rest⟩ own next ↔
      ∃ names, choices volume path ((Pattern.readExpression expression).map Regex.fullMatch) =
          some names ∧ [] = own ∧
        push (names.map fun name => ⟨child sep path name, rest⟩) [] = next := by
  simp only [Steps, step]
  refine expandNames_iff (fun _ => []) (fun names => names.map fun name =>
    ⟨child sep path name, rest⟩) (fun names => ?_) rfl rfl
  cases Pattern.readExpression expression <;> simp [Except.map]

theorem steps_last {path : Text} {own : List Text} {next : List Frame} :
    Steps volume sep ⟨path, [.globstar]⟩ own next ↔
      ∃ names, choices volume path (.ok notDots) = some names ∧
        names.map (child sep path) = own ∧
        push (names.map fun name => ⟨child sep path name, [.globstar]⟩) [] = next := by
  simp only [Steps, step]
  refine expandNames_iff (fun names => names.map (child sep path)) (fun names =>
    names.map fun name => ⟨child sep path name, [.globstar]⟩) (fun names => ?_) rfl rfl
  simp [Except.map, Hooks.plain, notDots_eq]

theorem steps_globstar {path : Text} {segment : Segment} {rest : List Segment} {own : List Text}
    {next : List Frame} :
    Steps volume sep ⟨path, .globstar :: segment :: rest⟩ own next ↔
      ∃ names, choices volume path (.ok notDots) = some names ∧ [] = own ∧
        push (names.map fun name => ⟨child sep path name, .globstar :: segment :: rest⟩)
          [⟨path, segment :: rest⟩] = next := by
  simp only [Steps, step]
  refine expandNames_iff (fun _ => []) (fun names => names.map fun name =>
    ⟨child sep path name, .globstar :: segment :: rest⟩) (fun names => ?_) rfl rfl
  simp [Except.map, notDots_eq]

def Finishes (volume : Volume) (sep : Char) (frames : List Frame) (values : List Text) : Prop :=
  ∃ fuel, (run volume .plain sep fuel frames).outcome = .ended ∧
    yields (run volume .plain sep fuel frames).events = values

theorem finishes_nil : Finishes volume sep [] [] := ⟨0, rfl, rfl⟩

theorem Finishes.append {first rest : List Frame} {values more : List Text}
    (one : Finishes volume sep first values) (two : Finishes volume sep rest more) :
    Finishes volume sep (first ++ rest) (values ++ more) := by
  obtain ⟨fuel, ended, rfl⟩ := one
  obtain ⟨extra, later, rfl⟩ := two
  refine ⟨fuel + extra, ?_⟩
  rw [run_append ended later, yields_append]
  exact ⟨rfl, rfl⟩

theorem Steps.finishes {frame : Frame} {own values : List Text} {next : List Frame}
    (steps : Steps volume sep frame own next) (after : Finishes volume sep next values) :
    Finishes volume sep [frame] (own ++ values) := by
  obtain ⟨stepped, rfl⟩ := steps
  obtain ⟨fuel, ended, rfl⟩ := after
  refine ⟨fuel + 1, ?_⟩
  rw [run_step stepped, List.append_nil, yields_append]
  exact ⟨ended, rfl⟩

theorem finishes_all {names : List Text} {put : Text → Frame} {parts : Text → List Text}
    (each : ∀ name ∈ names, Finishes volume sep [put name] (parts name)) :
    Finishes volume sep (names.map put) (names.flatMap parts) := by
  induction names with
  | nil => exact finishes_nil
  | cons name rest ih =>
    obtain ⟨here, later⟩ := List.forall_mem_cons.mp each
    exact here.append (ih later)

theorem Explored.finishes {path : Text} {segments : List Segment} {values : List Text}
    (explored : Explored volume sep path segments values) :
    Finishes volume sep [⟨path, segments⟩] values := by
  induction explored with
  | arrived => exact (steps_nil.mpr ⟨rfl, rfl⟩).finishes finishes_nil
  | present there _ ih => exact (steps_literal.mpr ⟨rfl, Or.inl ⟨there, rfl⟩⟩).finishes ih
  | missing absent => exact (steps_literal.mpr ⟨rfl, Or.inr ⟨absent, rfl⟩⟩).finishes finishes_nil
  | wildcard chosen _ ih =>
    refine (steps_wildcard.mpr ⟨_, chosen, rfl, rfl⟩).finishes ?_
    rw [push, List.append_nil, ← List.map_reverse]
    exact finishes_all fun name member => ih name (List.mem_reverse.mp member)
  | last chosen _ ih =>
    refine (steps_last.mpr ⟨_, chosen, rfl, rfl⟩).finishes ?_
    rw [push, List.append_nil, ← List.map_reverse]
    exact finishes_all fun name member => ih name (List.mem_reverse.mp member)
  | globstar chosen _ _ ih later =>
    refine (steps_globstar.mpr ⟨_, chosen, rfl, rfl⟩).finishes ?_
    rw [push, ← List.map_reverse]
    exact (finishes_all fun name member => ih name (List.mem_reverse.mp member)).append later

theorem run_ended_split {fuel : Nat} {first rest : List Frame}
    (ended : (run volume .plain sep fuel (first ++ rest)).outcome = .ended) :
    (run volume .plain sep fuel first).outcome = .ended ∧
      (run volume .plain sep fuel rest).outcome = .ended ∧
      yields (run volume .plain sep fuel (first ++ rest)).events =
        yields (run volume .plain sep fuel first).events ++
          yields (run volume .plain sep fuel rest).events := by
  induction fuel generalizing first with
  | zero =>
    cases first with
    | nil => exact ⟨rfl, ended, rfl⟩
    | cons frame pending => cases ended
  | succ fuel ih =>
    cases first with
    | nil => exact ⟨rfl, ended, rfl⟩
    | cons frame pending =>
      rw [List.cons_append] at ended ⊢
      obtain ⟨left, next, same, stepped, later⟩ := run_ended_cons ended
      obtain rfl : fuel = left := Nat.succ.inj same
      rw [← List.append_assoc] at later
      obtain ⟨walked, others, joined⟩ := ih later
      rw [run_step stepped, run_step stepped, run_more others 1, ← List.append_assoc,
        yields_append, yields_append, joined, List.append_assoc]
      exact ⟨walked, others, rfl⟩

theorem run_ended_all {names : List Text} {put : Text → Frame} {fuel : Nat}
    (ended : (run volume .plain sep fuel (names.map put)).outcome = .ended) :
    (∀ name ∈ names, (run volume .plain sep fuel [put name]).outcome = .ended) ∧
      yields (run volume .plain sep fuel (names.map put)).events =
        names.flatMap fun name => yields (run volume .plain sep fuel [put name]).events := by
  induction names with
  | nil =>
    rw [List.map_nil, run_nil]
    exact ⟨by simp, rfl⟩
  | cons name rest ih =>
    have split : (name :: rest).map put = [put name] ++ rest.map put := rfl
    rw [split] at ended ⊢
    obtain ⟨here, later, joined⟩ := run_ended_split ended
    obtain ⟨each, same⟩ := ih later
    rw [joined, same]
    exact ⟨List.forall_mem_cons.mpr ⟨here, each⟩, rfl⟩

theorem explored_run {fuel : Nat} {path : Text} {segments : List Segment}
    (ended : (run volume .plain sep fuel [⟨path, segments⟩]).outcome = .ended) :
    Explored volume sep path segments
      (yields (run volume .plain sep fuel [⟨path, segments⟩]).events) := by
  induction fuel generalizing path segments with
  | zero => cases ended
  | succ fuel ih =>
    obtain ⟨left, next, same, stepped, later⟩ := run_ended_cons ended
    obtain rfl : fuel = left := Nat.succ.inj same
    rw [run_step stepped, yields_append]
    rw [List.append_nil] at later ⊢
    generalize own : yields (step volume .plain sep ⟨path, segments⟩ []).1 = values
    have steps : Steps volume sep ⟨path, segments⟩ values next := ⟨stepped, own⟩
    cases segments with
    | nil =>
      obtain ⟨rfl, rfl⟩ := steps_nil.mp steps
      rw [run_nil]
      exact .arrived
    | cons segment rest =>
      cases segment with
      | literal text =>
        obtain ⟨rfl, ⟨there, rfl⟩ | ⟨absent, rfl⟩⟩ := steps_literal.mp steps
        · exact .present there (ih later)
        · rw [run_nil]
          exact .missing absent
      | wildcard expression =>
        obtain ⟨names, chosen, rfl, rfl⟩ := steps_wildcard.mp steps
        rw [push, List.append_nil, ← List.map_reverse] at later ⊢
        obtain ⟨each, same⟩ := run_ended_all later
        rw [same]
        exact .wildcard chosen fun name member => ih (each name (List.mem_reverse.mpr member))
      | globstar =>
        cases rest with
        | nil =>
          obtain ⟨names, chosen, rfl, rfl⟩ := steps_last.mp steps
          rw [push, List.append_nil, ← List.map_reverse] at later ⊢
          obtain ⟨each, same⟩ := run_ended_all later
          rw [same]
          exact .last chosen fun name member => ih (each name (List.mem_reverse.mpr member))
        | cons segment rest =>
          obtain ⟨names, chosen, rfl, rfl⟩ := steps_globstar.mp steps
          rw [push, ← List.map_reverse] at later ⊢
          obtain ⟨walked, here, joined⟩ := run_ended_split later
          obtain ⟨each, same⟩ := run_ended_all walked
          rw [joined, same]
          exact .globstar chosen (fun name member => ih (each name (List.mem_reverse.mpr member)))
            (ih here)

/-- The walk is a depth-first recursion. It comes to its end exactly if the recursion does, and
then it has yielded what that finds, in the same order. -/
theorem explored_iff_yielded (volume : Volume) (sep : Char) (start : Text)
    (segments : List Segment) (values : List Text) :
    Explored volume sep start segments values ↔
      ∃ fuel, (run volume .plain sep fuel [⟨start, segments⟩]).outcome = .ended ∧
        yields (run volume .plain sep fuel [⟨start, segments⟩]).events = values := by
  constructor
  · exact Explored.finishes
  · intro h
    obtain ⟨fuel, ended, rfl⟩ := h
    exact explored_run ended

theorem explored_iff_yielded_denied :
    ∃ memory, Memory.create .null .null []
        [.text "/a/x".toList, .text "/b/y".toList, .text "/c".toList] [.text "/b".toList] =
          .ok memory ∧
      Explored memory.volume '/' ['/'] (Pattern.ofText '/' "**/*".toList).segments
        ["/a/x".toList, "/c".toList, "/b".toList, "/a".toList] ∧
      Explored memory.volume '/' ['/'] (Pattern.ofText '/' "**".toList).segments
        ["/a".toList, "/b".toList, "/c".toList, "/a/x".toList] := by
  let memory : Memory := ⟨['/'], .text ['/'], [(['/'], .directory [['a'], ['b'], ['c']]),
    ("/a".toList, .directory [['x']]), ("/a/x".toList, .file),
    ("/b".toList, .directory [['y']]), ("/b/y".toList, .file), ("/c".toList, .file)],
    ["/b".toList]⟩
  refine ⟨memory, rfl, ?_, ?_⟩
  · exact (explored_iff_yielded ..).mpr ⟨20, rfl, by decide +kernel⟩
  · exact (explored_iff_yielded ..).mpr ⟨20, rfl, by decide +kernel⟩

theorem Explored.unique {path : Text} {segments : List Segment} {values others : List Text}
    (one : Explored volume sep path segments values)
    (two : Explored volume sep path segments others) : values = others := by
  obtain ⟨fuel, ended, rfl⟩ := one.finishes
  obtain ⟨extra, again, rfl⟩ := two.finishes
  rw [← run_more ended extra, ← run_more again fuel, Nat.add_comm]

end PathGlob.Walk
