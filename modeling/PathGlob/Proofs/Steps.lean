import Mathlib.Algebra.Group.Nat.Defs
import PathGlob.Walk

/-!
Runs of a walk, frame by frame. A step looks at one frame and leaves the waiting ones alone. Where
each frame is followed by frames of a lower rank the walk ends, and what a walk to its end yields
is what its frames lead to.
-/
namespace PathGlob.Walk
variable {α : Type} {volume : Volume} {hooks : Hooks α} {sep : Char}

theorem expandNames_pending (path : Text) (extra pending : List Frame)
    (expand : List Text → Except Fault (List α × List Frame)) :
    expandNames volume hooks path (extra ++ pending) expand =
      ((expandNames volume hooks path extra expand).1,
        (expandNames volume hooks path extra expand).2.map (· ++ pending)) := by
  unfold expandNames
  generalize namesIn volume path = listing
  obtain ⟨calls, fault | names⟩ := listing
  · cases refusal : fault.isRefusal <;> simp [refusal, Except.map]
  · cases expanded : expand names <;> simp [expanded, push, Except.map]

theorem step_pending (frame : Frame) (pending : List Frame) :
    step volume hooks sep frame pending =
      ((step volume hooks sep frame []).1,
        (step volume hooks sep frame []).2.map (· ++ pending)) := by
  obtain ⟨path, rest⟩ := frame
  cases rest with
  | nil => rfl
  | cons segment rest =>
    cases segment with
    | literal text =>
      simp only [step]
      cases volume.has (child sep path text) with
      | error fault => rfl
      | ok found => cases found <;> rfl
    | wildcard expression => exact expandNames_pending path [] pending _
    | globstar =>
      cases rest with
      | nil =>
        simp only [step]
        exact expandNames_pending path [] pending _
      | cons next more =>
        simp only [step]
        exact expandNames_pending path [⟨path, next :: more⟩] pending _

theorem run_step {frame : Frame} {next : List Frame}
    (stepped : (step volume hooks sep frame []).2 = .ok next) (fuel : Nat)
    (pending : List Frame) :
    run volume hooks sep (fuel + 1) (frame :: pending) =
      ⟨(step volume hooks sep frame []).1 ++ (run volume hooks sep fuel (next ++ pending)).events,
        (run volume hooks sep fuel (next ++ pending)).outcome⟩ := by
  rw [run, step_pending, stepped]
  rfl

theorem yields_append (first rest : List (Event α)) :
    yields (first ++ rest) = yields first ++ yields rest := by
  simp [yields]

/-- A step from a good frame comes to a result: a bounded number of frames, all of them good and
of a lower rank. -/
structure Steady (volume : Volume) (hooks : Hooks α) (sep : Char) (good : Frame → Prop)
    (rank : Frame → Nat) (width : Nat) : Prop where
  step : ∀ frame, good frame → ∃ next, (step volume hooks sep frame []).2 = .ok next ∧
    next.length ≤ width ∧ ∀ after ∈ next, good after ∧ rank after < rank frame

/-- A bound on the steps that the frames take. -/
def cost (rank : Frame → Nat) (width : Nat) : List Frame → Nat
  | [] => 0
  | frame :: rest => (width + 1) ^ rank frame + cost rank width rest

theorem cost_append (rank : Frame → Nat) (width : Nat) (first second : List Frame) :
    cost rank width (first ++ second) = cost rank width first + cost rank width second := by
  induction first with
  | nil => simp [cost]
  | cons frame rest ih => rw [List.cons_append, cost, cost, ih, Nat.add_assoc]

theorem cost_le {rank : Frame → Nat} {width bound : Nat} {frames : List Frame}
    (low : ∀ frame ∈ frames, rank frame ≤ bound) :
    cost rank width frames ≤ frames.length * (width + 1) ^ bound := by
  induction frames with
  | nil => simp [cost]
  | cons frame rest ih =>
    have here : (width + 1) ^ rank frame ≤ (width + 1) ^ bound :=
      Nat.pow_le_pow_right (by omega) (low frame (by simp))
    have later := ih fun other member => low other (List.mem_cons_of_mem _ member)
    simp only [cost, List.length_cons, Nat.succ_mul] at later ⊢
    omega

theorem cost_decreases {rank : Frame → Nat} {width : Nat} {frame : Frame} {next : List Frame}
    (narrow : next.length ≤ width) (lower : ∀ after ∈ next, rank after < rank frame) :
    cost rank width next < (width + 1) ^ rank frame := by
  cases level : rank frame with
  | zero =>
    have none : next = [] := by
      apply List.eq_nil_iff_forall_not_mem.mpr
      intro after member
      have below := lower after member
      omega
    simp [none, cost]
  | succ bound =>
    have low : ∀ after ∈ next, rank after ≤ bound := by
      intro after member
      have below := lower after member
      omega
    have paid : cost rank width next ≤ next.length * (width + 1) ^ bound := cost_le low
    have narrowed := Nat.mul_le_mul_right ((width + 1) ^ bound) narrow
    have positive : 0 < (width + 1) ^ bound := Nat.pow_pos (by omega)
    rw [Nat.pow_succ, Nat.mul_add, Nat.mul_comm _ width]
    omega

theorem Steady.run_ended {good : Frame → Prop} {rank : Frame → Nat} {width : Nat}
    (steady : Steady volume hooks sep good rank width) {fuel : Nat} {frames : List Frame}
    (start : ∀ frame ∈ frames, good frame) (enough : cost rank width frames ≤ fuel) :
    (run volume hooks sep fuel frames).outcome = .ended := by
  induction fuel generalizing frames with
  | zero =>
    cases frames with
    | nil => rfl
    | cons frame pending =>
      have positive : 0 < (width + 1) ^ rank frame := Nat.pow_pos (by omega)
      rw [cost] at enough
      omega
  | succ fuel ih =>
    cases frames with
    | nil => rfl
    | cons frame pending =>
      obtain ⟨next, stepped, narrow, after⟩ := steady.step frame (start frame (by simp))
      have paid := cost_decreases narrow fun other member => (after other member).2
      rw [run_step stepped]
      apply ih
      · intro other member
        rcases List.mem_append.mp member with new | old
        · exact (after other new).1
        · exact start other (List.mem_cons_of_mem _ old)
      · rw [cost_append]
        rw [cost] at enough
        omega

/-- What a frame leads to is yielded by its own step or led to by a frame that follows. -/
def Leads (volume : Volume) (hooks : Hooks α) (sep : Char) (found : Frame → α → Prop)
    (frame : Frame) : Prop :=
  ∀ next, (step volume hooks sep frame []).2 = .ok next → ∀ value, found frame value ↔
    value ∈ yields (step volume hooks sep frame []).1 ∨ ∃ after ∈ next, found after value

theorem Steady.run_yields {good : Frame → Prop} {rank : Frame → Nat} {width : Nat}
    (steady : Steady volume hooks sep good rank width) {found : Frame → α → Prop}
    (leads : ∀ frame, good frame → Leads volume hooks sep found frame) {fuel : Nat}
    {frames : List Frame} (start : ∀ frame ∈ frames, good frame)
    (ended : (run volume hooks sep fuel frames).outcome = .ended) (value : α) :
    value ∈ yields (run volume hooks sep fuel frames).events ↔
      ∃ frame ∈ frames, found frame value := by
  induction fuel generalizing frames with
  | zero =>
    cases frames with
    | nil => simp [run, yields]
    | cons frame pending => cases ended
  | succ fuel ih =>
    cases frames with
    | nil => simp [run, yields]
    | cons frame pending =>
      obtain ⟨next, stepped, _, after⟩ := steady.step frame (start frame (by simp))
      rw [run_step stepped] at ended ⊢
      have later : ∀ other ∈ next ++ pending, good other := by
        intro other member
        rcases List.mem_append.mp member with new | old
        · exact (after other new).1
        · exact start other (List.mem_cons_of_mem _ old)
      have here := leads frame (start frame (by simp)) next stepped value
      have first : (∃ other ∈ frame :: pending, found other value) ↔
          found frame value ∨ ∃ other ∈ pending, found other value := by simp
      have second : (∃ other ∈ next ++ pending, found other value) ↔
          (∃ other ∈ next, found other value) ∨ ∃ other ∈ pending, found other value := by
        simp [or_and_right, exists_or]
      rw [yields_append, List.mem_append, ih later ended, first, second, here, or_assoc]

theorem Steady.also {good extra : Frame → Prop} {rank : Frame → Nat} {width : Nat}
    (steady : Steady volume hooks sep good rank width)
    (kept : ∀ frame next, good frame → extra frame →
      (Walk.step volume hooks sep frame []).2 = .ok next → ∀ after ∈ next, extra after) :
    Steady volume hooks sep (fun frame => good frame ∧ extra frame) rank width := by
  constructor
  intro frame both
  obtain ⟨next, stepped, narrow, after⟩ := steady.step frame both.1
  refine ⟨next, stepped, narrow, fun other member => ?_⟩
  obtain ⟨fine, lower⟩ := after other member
  exact ⟨⟨fine, kept frame next both.1 both.2 stepped other member⟩, lower⟩

/-- What the events of each step have, and events put together keep, the events of a walk have. -/
theorem Steady.run_keeps {good : Frame → Prop} {rank : Frame → Nat} {width : Nat}
    (steady : Steady volume hooks sep good rank width) {keep : List (Event α) → Prop}
    (empty : keep []) (together : ∀ first rest, keep first → keep rest → keep (first ++ rest))
    (each : ∀ frame, good frame → keep (Walk.step volume hooks sep frame []).1) {fuel : Nat}
    {frames : List Frame} (start : ∀ frame ∈ frames, good frame) :
    keep (run volume hooks sep fuel frames).events := by
  induction fuel generalizing frames with
  | zero => cases frames <;> exact empty
  | succ fuel ih =>
    cases frames with
    | nil => exact empty
    | cons frame pending =>
      obtain ⟨next, stepped, _, after⟩ := steady.step frame (start frame (by simp))
      rw [run_step stepped]
      refine together _ _ (each frame (start frame (by simp))) (ih ?_)
      intro other member
      rcases List.mem_append.mp member with new | old
      · exact (after other new).1
      · exact start other (List.mem_cons_of_mem _ old)

end PathGlob.Walk
