import PathGlob.Pattern.Expression
import PathGlob.Volume

/-!
Walking a volume. Frames wait on a stack, last in first out; a frame is a path together with the
segments still to be matched below it, and one without segments is a match. Everything the walk
does is an event: the questions it asks the volume, in the order in which they are asked, the
listings refused to it, and the values it yields.
-/
namespace PathGlob

inductive Call where
  | has (path : Text)
  | hasDirectory (path : Text)
  | list (path : Text)
  | workingDirectory (sep : Char)
  deriving DecidableEq, Repr

inductive Event (α : Type) where
  | call (call : Call)
  | refused (path : Text) (fault : Fault)
  | yielded (value : α)

structure Hooks (α : Type) where
  onMatch : Text → α
  onRefusal : Text → Fault → Option α

def Hooks.plain : Hooks Text := ⟨id, fun _ _ => none⟩

structure Frame where
  path : Text
  rest : List Segment
  deriving DecidableEq, Repr

/-- How a walk comes to rest: its stack is empty, a fault stopped it, nobody asked for more, or
its fuel ran out. -/
inductive Outcome where
  | ended
  | raised (fault : Fault)
  | paused
  | unfinished

structure Run (α : Type) where
  events : List (Event α)
  outcome : Outcome

namespace Walk

variable {α : Type}

def child (sep : Char) (path name : Text) : Text :=
  if [sep].isSuffixOf path then path ++ name else path ++ sep :: name

def isSpecial (name : Text) : Bool := name == current || name == parent

def namesIn (volume : Volume) (path : Text) : List Call × Except Fault (List Text) :=
  match volume.hasDirectory path with
  | .error fault => ([.hasDirectory path], .error fault)
  | .ok false => ([.hasDirectory path], .ok [])
  | .ok true => ([.hasDirectory path, .list path], volume.list path)

def push (frames pending : List Frame) : List Frame := frames.reverse ++ pending

/-- The frames for the names in a directory, and the values that come with them. A refused listing
goes to the hook and leaves the stack alone; any other fault ends the walk. -/
def expandNames (volume : Volume) (hooks : Hooks α) (path : Text) (pending : List Frame)
    (expand : List Text → Except Fault (List α × List Frame)) :
    List (Event α) × Except Fault (List Frame) :=
  let (calls, answer) := namesIn volume path
  let asked := calls.map Event.call
  match answer with
  | .error fault =>
      if fault.isRefusal then
        (asked ++ .refused path fault :: (hooks.onRefusal path fault).toList.map .yielded,
          .ok pending)
      else (asked, .error fault)
  | .ok names =>
      match expand names with
      | .error fault => (asked, .error fault)
      | .ok (values, frames) => (asked ++ values.map .yielded, .ok (push frames pending))

/-- A literal is probed, a wildcard listed and matched. A globstar tries the other segments in the
same directory and goes down into each name; the last one also yields what it goes down to. -/
def step (volume : Volume) (hooks : Hooks α) (sep : Char) (frame : Frame)
    (pending : List Frame) : List (Event α) × Except Fault (List Frame) :=
  match frame.rest with
  | [] => ([.yielded (hooks.onMatch frame.path)], .ok pending)
  | .literal text :: rest =>
      let target := child sep frame.path text
      ([.call (.has target)],
        (volume.has target).map fun found =>
          if found then ⟨target, rest⟩ :: pending else pending)
  | .wildcard expression :: rest =>
      expandNames volume hooks frame.path pending fun names =>
        (Pattern.readExpression expression).map fun regex =>
          ([], (names.filter regex.fullMatch).map fun name =>
            ⟨child sep frame.path name, rest⟩)
  | [.globstar] =>
      expandNames volume hooks frame.path pending fun names =>
        let targets := (names.filter (!isSpecial ·)).map (child sep frame.path)
        .ok (targets.map hooks.onMatch, targets.map fun target => ⟨target, [.globstar]⟩)
  | .globstar :: rest =>
      expandNames volume hooks frame.path (⟨frame.path, rest⟩ :: pending) fun names =>
        .ok ([], (names.filter (!isSpecial ·)).map fun name =>
          ⟨child sep frame.path name, .globstar :: rest⟩)

def run (volume : Volume) (hooks : Hooks α) (sep : Char) : Nat → List Frame → Run α
  | _, [] => ⟨[], .ended⟩
  | 0, _ :: _ => ⟨[], .unfinished⟩
  | fuel + 1, frame :: pending =>
      match step volume hooks sep frame pending with
      | (events, .error fault) => ⟨events, .raised fault⟩
      | (events, .ok pending) =>
          let more := run volume hooks sep fuel pending
          ⟨events ++ more.events, more.outcome⟩

def takeYields : Nat → List (Event α) → List (Event α)
  | 0, _ => []
  | _, [] => []
  | count + 1, .yielded value :: rest => .yielded value :: takeYields count rest
  | count + 1, event :: rest => event :: takeYields (count + 1) rest

def yields (events : List (Event α)) : List α :=
  events.filterMap fun
    | .yielded value => some value
    | _ => none

def take (volume : Volume) (hooks : Hooks α) (sep : Char) :
    Nat → Nat → List Frame → Run α
  | _, 0, _ => ⟨[], .paused⟩
  | _, _, [] => ⟨[], .ended⟩
  | 0, _, _ :: _ => ⟨[], .unfinished⟩
  | fuel + 1, wanted, frame :: pending =>
      let (events, next) := step volume hooks sep frame pending
      let found := (yields events).length
      if wanted ≤ found then ⟨takeYields wanted events, .paused⟩
      else
        match next with
        | .error fault => ⟨events, .raised fault⟩
        | .ok pending =>
            let more := take volume hooks sep fuel (wanted - found) pending
            ⟨events ++ more.events, more.outcome⟩

@[simp] theorem takeYields_nil (count : Nat) :
    takeYields count ([] : List (Event α)) = [] := by
  cases count <;> rfl

theorem takeYields_append (count : Nat) (first rest : List (Event α)) :
    takeYields count (first ++ rest) =
      if count ≤ (yields first).length then takeYields count first
      else first ++ takeYields (count - (yields first).length) rest := by
  induction first generalizing count with
  | nil => cases count <;> simp [takeYields, yields]
  | cons event first ih =>
      cases count with
      | zero => simp [takeYields]
      | succ count =>
          cases event with
          | yielded value =>
              have h : (yields (.yielded value :: first)).length = (yields first).length + 1 := rfl
              simp only [List.cons_append, takeYields, ih, h, Nat.add_le_add_iff_right,
                Nat.add_sub_add_right, apply_ite (Event.yielded value :: ·)]
          | call call =>
              have h : yields (.call call :: first) = yields first := rfl
              simp only [List.cons_append, takeYields, ih, h, apply_ite (Event.call call :: ·)]
          | refused path fault =>
              have h : yields (.refused path fault :: first) = yields first := rfl
              simp only [List.cons_append, takeYields, ih, h,
                apply_ite (Event.refused path fault :: ·)]

theorem take_events (volume : Volume) (hooks : Hooks α) (sep : Char) (fuel wanted : Nat)
    (frames : List Frame) :
    (take volume hooks sep fuel wanted frames).events =
      takeYields wanted (run volume hooks sep fuel frames).events := by
  induction fuel generalizing wanted frames with
  | zero => cases wanted <;> cases frames <;> simp [take, run]
  | succ fuel ih =>
      cases wanted with
      | zero => simp [take, takeYields]
      | succ wanted =>
          cases frames with
          | nil => simp [take, run]
          | cons frame pending =>
              simp only [take, run]
              generalize step volume hooks sep frame pending = result
              obtain ⟨events, fault | pending⟩ := result
              · have cut := takeYields_append (wanted + 1) events ([] : List (Event α))
                simp only [List.append_nil, takeYields_nil] at cut
                rw [cut]
                split <;> rfl
              · simp only [takeYields_append, ih]
                split <;> rfl

/-- A frame lives at most through `extent + 2` levels for each of its segments and one more, and
puts at most `extent + 3` frames on the stack at each of them. -/
def fuel (volume : Volume) (segments : List Segment) : Nat :=
  (volume.extent + 4).pow ((volume.extent + 2) * (segments.length + 1))

/-- Where the walk starts: the root directory, or its parent if it is no directory. The volume is
asked for its working directory only where none is given and the root is relative. -/
def start (volume : Volume) (sep : Char) (root : Text) (cwd : Option Directory) :
    List Call × Except Fault Text :=
  let (asked, cwd) : List Call × Directory := match cwd with
    | some cwd => ([], cwd)
    | none =>
        if Location.isAbsolute [sep] root then ([], .ok [])
        else ([.workingDirectory sep], volume.workingDirectory sep)
  match Location.normalize [sep] root none (cwd.bind (Location.checkDirectory [sep])) with
  | .error fault => (asked, .error fault)
  | .ok base =>
      (asked ++ [.hasDirectory base],
        (volume.hasDirectory base).map fun found =>
          if found then base
          else (Location.ofText [sep] (child sep base parent)).text [sep])

end Walk

end PathGlob
