import Mathlib.Logic.Basic
import PathGlob.Proofs.Steps

/-!
The ways that a walk can go. A path is reached from another one segment by segment: a literal is
probed, a name that fits a wildcard is chosen, and a globstar goes down through any names that are
seen. One step of the walk follows exactly the ways that begin at its frame.
-/
namespace PathGlob.Walk
variable {α : Type} {volume : Volume} {hooks : Hooks α} {sep : Char}

def seen (volume : Volume) (path : Text) : List Text :=
  match (namesIn volume path).2 with
  | .ok names => names
  | .error _ => []

def Listable (volume : Volume) (path : Text) : Prop :=
  ∀ fault, (namesIn volume path).2 = .error fault → fault.isRefusal = true

inductive Reaches (volume : Volume) (sep : Char) : Text → List Segment → Text → Prop where
  | here {path : Text} : Reaches volume sep path [] path
  | probe {path text goal : Text} {rest : List Segment}
      (there : volume.has (child sep path text) = .ok true)
      (more : Reaches volume sep (child sep path text) rest goal) :
      Reaches volume sep path (.literal text :: rest) goal
  | choose {path expression name goal : Text} {rest : List Segment} {regex : Regex}
      (visible : name ∈ seen volume path) (read : Pattern.readExpression expression = .ok regex)
      (fits : regex.fullMatch name = true)
      (more : Reaches volume sep (child sep path name) rest goal) :
      Reaches volume sep path (.wildcard expression :: rest) goal
  | settle {path name : Text} (visible : name ∈ seen volume path)
      (usual : isSpecial name = false) :
      Reaches volume sep path [.globstar] (child sep path name)
  | descend {path name goal : Text} {rest : List Segment} (visible : name ∈ seen volume path)
      (usual : isSpecial name = false)
      (more : Reaches volume sep (child sep path name) (.globstar :: rest) goal) :
      Reaches volume sep path (.globstar :: rest) goal
  | skip {path goal : Text} {rest : List Segment} (inhabited : rest ≠ [])
      (more : Reaches volume sep path rest goal) :
      Reaches volume sep path (.globstar :: rest) goal

theorem expandNames_next {path : Text} (listable : Listable volume path) (pending : List Frame)
    {expand : List Text → Except Fault (List α × List Frame)} {values : List Text → List α}
    {frames : List Text → List Frame}
    (expanded : ∀ names, expand names = .ok (values names, frames names))
    (empty : frames [] = []) :
    (expandNames volume hooks path pending expand).2 =
      .ok (push (frames (seen volume path)) pending) := by
  unfold expandNames seen
  unfold Listable at listable
  generalize namesIn volume path = listing at listable ⊢
  obtain ⟨calls, fault | names⟩ := listing
  · simp [listable fault rfl, empty, push]
  · simp [expanded]

theorem yields_asked (calls : List Call) : yields (calls.map (Event.call (α := α))) = [] := by
  simp [yields]

theorem yields_values (values : List α) : yields (values.map Event.yielded) = values := by
  induction values with
  | nil => rfl
  | cons value rest ih => exact congrArg (value :: ·) ih

theorem expandNames_yields {path : Text} (listable : Listable volume path) (pending : List Frame)
    {expand : List Text → Except Fault (List α × List Frame)} {values : List Text → List α}
    {frames : List Text → List Frame}
    (expanded : ∀ names, expand names = .ok (values names, frames names))
    (empty : values [] = []) :
    yields (expandNames volume hooks path pending expand).1 =
      values (seen volume path) ++
        match (namesIn volume path).2 with
        | .error fault => (hooks.onRefusal path fault).toList
        | .ok _ => [] := by
  unfold expandNames seen
  unfold Listable at listable
  generalize namesIn volume path = listing at listable ⊢
  obtain ⟨calls, fault | names⟩ := listing
  · have handled := yields_values (hooks.onRefusal path fault).toList
    simp only [listable fault rfl, ↓reduceIte, yields_append, yields_asked, empty, List.nil_append]
    exact handled
  · simp only [expanded, yields_append, yields_asked, yields_values, List.nil_append,
      List.append_nil]

theorem reaches_nil {path goal : Text} : Reaches volume sep path [] goal ↔ goal = path := by
  constructor
  · intro way
    cases way
    rfl
  · intro same
    exact same ▸ .here

theorem reaches_literal {path text goal : Text} {rest : List Segment} :
    Reaches volume sep path (.literal text :: rest) goal ↔
      volume.has (child sep path text) = .ok true ∧
        Reaches volume sep (child sep path text) rest goal := by
  constructor
  · intro way
    cases way with
    | probe there more => exact ⟨there, more⟩
  · intro h
    exact .probe h.1 h.2

theorem reaches_wildcard {path expression goal : Text} {rest : List Segment} {regex : Regex}
    (read : Pattern.readExpression expression = .ok regex) :
    Reaches volume sep path (.wildcard expression :: rest) goal ↔
      ∃ name ∈ seen volume path, regex.fullMatch name = true ∧
        Reaches volume sep (child sep path name) rest goal := by
  constructor
  · intro way
    cases way with
    | choose visible again fits more =>
      obtain rfl := Except.ok.inj (again.symm.trans read)
      exact ⟨_, visible, fits, more⟩
  · intro h
    obtain ⟨name, visible, fits, more⟩ := h
    exact .choose visible read fits more

theorem reaches_last {path goal : Text} :
    Reaches volume sep path [.globstar] goal ↔
      ∃ name ∈ seen volume path, isSpecial name = false ∧ (child sep path name = goal ∨
        Reaches volume sep (child sep path name) [.globstar] goal) := by
  constructor
  · intro way
    cases way with
    | settle visible usual => exact ⟨_, visible, usual, Or.inl rfl⟩
    | descend visible usual more => exact ⟨_, visible, usual, Or.inr more⟩
    | skip inhabited _ => contradiction
  · intro h
    obtain ⟨name, visible, usual, rfl | more⟩ := h
    · exact .settle visible usual
    · exact .descend visible usual more

theorem reaches_globstar {path goal : Text} {rest : List Segment} (inhabited : rest ≠ []) :
    Reaches volume sep path (.globstar :: rest) goal ↔
      Reaches volume sep path rest goal ∨ ∃ name ∈ seen volume path, isSpecial name = false ∧
        Reaches volume sep (child sep path name) (.globstar :: rest) goal := by
  constructor
  · intro way
    cases way with
    | settle _ _ => contradiction
    | descend visible usual more => exact Or.inr ⟨_, visible, usual, more⟩
    | skip _ more => exact Or.inl more
  · intro h
    rcases h with more | ⟨name, visible, usual, more⟩
    · exact .skip inhabited more
    · exact .descend visible usual more

def targets (volume : Volume) (sep : Char) (path : Text) : List Text :=
  ((seen volume path).filter (!isSpecial ·)).map (child sep path)

theorem mem_targets {path target : Text} :
    target ∈ targets volume sep path ↔
      ∃ name ∈ seen volume path, isSpecial name = false ∧ child sep path name = target := by
  simp [targets, and_assoc]

theorem exists_target {path : Text} {goal : Text → Prop} :
    (∃ target ∈ targets volume sep path, goal target) ↔
      ∃ name ∈ seen volume path, isSpecial name = false ∧ goal (child sep path name) := by
  constructor
  · intro h
    obtain ⟨_, member, reached⟩ := h
    obtain ⟨name, visible, usual, rfl⟩ := mem_targets.mp member
    exact ⟨name, visible, usual, reached⟩
  · intro h
    obtain ⟨name, visible, usual, reached⟩ := h
    exact ⟨_, mem_targets.mpr ⟨name, visible, usual, rfl⟩, reached⟩

theorem exists_pushed {texts : List Text} {put : Text → Frame} {pending : List Frame}
    {goal : Frame → Prop} :
    (∃ after ∈ push (texts.map put) pending, goal after) ↔
      (∃ text ∈ texts, goal (put text)) ∨ ∃ after ∈ pending, goal after := by
  simp [push, or_and_right, exists_or]

def follow (volume : Volume) (sep : Char) (frame : Frame) : List Frame :=
  match frame.rest with
  | [] => []
  | .literal text :: rest =>
      match volume.has (child sep frame.path text) with
      | .ok true => [⟨child sep frame.path text, rest⟩]
      | _ => []
  | .wildcard expression :: rest =>
      match Pattern.readExpression expression with
      | .ok regex => push (((seen volume frame.path).filter regex.fullMatch).map fun name =>
          ⟨child sep frame.path name, rest⟩) []
      | .error _ => []
  | [.globstar] =>
      push ((targets volume sep frame.path).map fun target => ⟨target, [.globstar]⟩) []
  | .globstar :: rest =>
      push ((targets volume sep frame.path).map fun target => ⟨target, .globstar :: rest⟩)
        [⟨frame.path, rest⟩]

/-- How one frame comes after another. -/
inductive Follows (volume : Volume) (sep : Char) : Frame → Frame → Prop where
  | probe {path text : Text} {rest : List Segment}
      (there : volume.has (child sep path text) = .ok true) :
      Follows volume sep ⟨path, .literal text :: rest⟩ ⟨child sep path text, rest⟩
  | choose {path expression name : Text} {rest : List Segment} {regex : Regex}
      (visible : name ∈ seen volume path) (read : Pattern.readExpression expression = .ok regex)
      (fits : regex.fullMatch name = true) :
      Follows volume sep ⟨path, .wildcard expression :: rest⟩ ⟨child sep path name, rest⟩
  | descend {path name : Text} {rest : List Segment} (visible : name ∈ seen volume path)
      (usual : isSpecial name = false) :
      Follows volume sep ⟨path, .globstar :: rest⟩ ⟨child sep path name, .globstar :: rest⟩
  | skip {path : Text} {rest : List Segment} :
      Follows volume sep ⟨path, .globstar :: rest⟩ ⟨path, rest⟩

theorem mem_follow {frame after : Frame} (member : after ∈ follow volume sep frame) :
    Follows volume sep frame after := by
  obtain ⟨path, rest⟩ := frame
  unfold follow at member
  split at member
  · cases member
  · rename_i text more same
    obtain rfl : rest = _ := same
    split at member
    · rename_i there
      obtain rfl := List.mem_singleton.mp member
      exact .probe there
    · cases member
  · rename_i expression more same
    obtain rfl : rest = _ := same
    split at member
    · rename_i regex read
      simp only [push, List.append_nil, List.mem_reverse, List.mem_map] at member
      obtain ⟨name, kept, rfl⟩ := member
      obtain ⟨visible, fits⟩ := List.mem_filter.mp kept
      exact .choose visible read fits
    · cases member
  · rename_i same
    obtain rfl : rest = _ := same
    simp only [push, List.append_nil, List.mem_reverse, List.mem_map] at member
    obtain ⟨target, below, rfl⟩ := member
    obtain ⟨name, visible, usual, rfl⟩ := mem_targets.mp below
    exact .descend visible usual
  · rename_i more _ same
    obtain rfl : rest = _ := same
    simp only [push, List.mem_append, List.mem_reverse, List.mem_map, List.mem_singleton]
      at member
    rcases member with ⟨target, below, rfl⟩ | rfl
    · obtain ⟨name, visible, usual, rfl⟩ := mem_targets.mp below
      exact .descend visible usual
    · exact .skip

theorem targets_length (volume : Volume) (sep : Char) (path : Text) :
    (targets volume sep path).length ≤ (seen volume path).length := by
  rw [targets, List.length_map]
  exact List.length_filter_le _ _

theorem follow_length (volume : Volume) (sep : Char) (frame : Frame) :
    (follow volume sep frame).length ≤ (seen volume frame.path).length + 1 := by
  have narrow := targets_length volume sep frame.path
  unfold follow
  split
  · simp
  · split <;> simp
  · split
    · rename_i regex _
      have kept := List.length_filter_le regex.fullMatch (seen volume frame.path)
      simp only [push, List.append_nil, List.length_reverse, List.length_map]
      omega
    · simp
  · simp only [push, List.append_nil, List.length_reverse, List.length_map]
    omega
  · simp only [push, List.length_append, List.length_reverse, List.length_map,
      List.length_singleton]
    omega

def found (volume : Volume) (sep : Char) (frame : Frame) : List Text :=
  match frame.rest with
  | [] => [frame.path]
  | [.globstar] => targets volume sep frame.path
  | _ => []

/-- What a frame asks for is answered: its probe, its listing and its expression. -/
structure Sure (volume : Volume) (sep : Char) (frame : Frame) : Prop where
  probe : ∀ text rest, frame.rest = .literal text :: rest →
    ∃ there, volume.has (child sep frame.path text) = .ok there
  listing : Listable volume frame.path
  expression : ∀ expression rest, frame.rest = .wildcard expression :: rest →
    ∃ regex, Pattern.readExpression expression = .ok regex

theorem Sure.step_next {frame : Frame} (sure : Sure volume sep frame) :
    (step volume hooks sep frame []).2 = .ok (follow volume sep frame) := by
  obtain ⟨path, rest⟩ := frame
  cases rest with
  | nil => rfl
  | cons segment rest =>
    cases segment with
    | literal text =>
      obtain ⟨there, answer⟩ := sure.probe text rest rfl
      have answer : volume.has (child sep path text) = .ok there := answer
      cases there <;> simp [step, follow, answer, Except.map]
    | wildcard expression =>
      obtain ⟨regex, read⟩ := sure.expression expression rest rfl
      simp only [step, follow, read]
      exact expandNames_next sure.listing [] (fun names => rfl) rfl
    | globstar =>
      cases rest with
      | nil =>
        simp only [step, follow]
        exact expandNames_next sure.listing [] (fun names => rfl) rfl
      | cons next more =>
        simp only [step, follow, targets, List.map_map]
        exact expandNames_next sure.listing [⟨path, next :: more⟩] (fun names => rfl) rfl

/-- What the hook makes of a listing that is refused in the step of a frame. -/
def reports (volume : Volume) (hooks : Hooks α) (frame : Frame) : List α :=
  match frame.rest with
  | [] => []
  | .literal _ :: _ => []
  | _ :: _ =>
      match (namesIn volume frame.path).2 with
      | .error fault => (hooks.onRefusal frame.path fault).toList
      | .ok _ => []

theorem reports_plain (volume : Volume) (frame : Frame) : reports volume .plain frame = [] := by
  unfold reports
  split
  · rfl
  · rfl
  · split <;> rfl

theorem Sure.step_values {frame : Frame} (sure : Sure volume sep frame) :
    yields (step volume hooks sep frame []).1 =
      (found volume sep frame).map hooks.onMatch ++ reports volume hooks frame := by
  obtain ⟨path, rest⟩ := frame
  cases rest with
  | nil => rfl
  | cons segment rest =>
    cases segment with
    | literal text => rfl
    | wildcard expression =>
      obtain ⟨regex, read⟩ := sure.expression expression rest rfl
      simp only [step, found, read, reports]
      exact expandNames_yields sure.listing [] (fun names => rfl) rfl
    | globstar =>
      cases rest with
      | nil =>
        simp only [step, found, reports]
        exact (expandNames_yields sure.listing [] (fun names => rfl) rfl).trans (by simp [targets])
      | cons next more =>
        simp only [step, found, reports]
        exact expandNames_yields sure.listing [⟨path, next :: more⟩] (fun names => rfl) rfl

theorem Sure.step_yields {frame : Frame} (sure : Sure volume sep frame) :
    yields (step volume .plain sep frame []).1 = found volume sep frame := by
  rw [sure.step_values, reports_plain, List.append_nil]
  exact List.map_id _

theorem Sure.leads {frame : Frame} (sure : Sure volume sep frame) :
    Leads volume .plain sep (fun frame goal => Reaches volume sep frame.path frame.rest goal)
      frame := by
  intro next stepped goal
  obtain rfl := Except.ok.inj (sure.step_next.symm.trans stepped)
  rw [sure.step_yields]
  dsimp only
  obtain ⟨path, rest⟩ := frame
  cases rest with
  | nil => simp [reaches_nil, found, follow]
  | cons segment rest =>
    cases segment with
    | literal text =>
      obtain ⟨there, answer⟩ := sure.probe text rest rfl
      have answer : volume.has (child sep path text) = .ok there := answer
      cases there <;> simp [reaches_literal, found, follow, answer]
    | wildcard expression =>
      obtain ⟨regex, read⟩ := sure.expression expression rest rfl
      rw [reaches_wildcard read]
      simp only [found, follow, read, exists_pushed]
      simp [and_assoc]
    | globstar =>
      cases rest with
      | nil =>
        rw [reaches_last]
        simp only [found, follow, exists_pushed, exists_target]
        simp [mem_targets, and_or_left, exists_or]
      | cons next more =>
        rw [reaches_globstar (List.cons_ne_nil next more)]
        simp only [found, follow, exists_pushed, exists_target]
        simp [or_comm]

end PathGlob.Walk
