import PathGlob.Proofs.Steps

namespace PathGlob.Walk
variable {α : Type} {volume : Volume} {hooks : Hooks α} {sep : Char}

theorem run_nil (fuel : Nat) : run volume hooks sep fuel [] = ⟨[], .ended⟩ := by
  cases fuel <;> rfl

theorem run_ended_cons {fuel : Nat} {frame : Frame} {pending : List Frame}
    (ended : (run volume hooks sep fuel (frame :: pending)).outcome = .ended) :
    ∃ left next, fuel = left + 1 ∧ (step volume hooks sep frame []).2 = .ok next ∧
      (run volume hooks sep left (next ++ pending)).outcome = .ended := by
  cases fuel with
  | zero => cases ended
  | succ left =>
    cases stepped : (step volume hooks sep frame []).2 with
    | error fault =>
      rw [run, step_pending, stepped] at ended
      cases ended
    | ok next =>
      rw [run_step stepped] at ended
      exact ⟨left, next, rfl, rfl, ended⟩

theorem run_more {fuel : Nat} {frames : List Frame}
    (ended : (run volume hooks sep fuel frames).outcome = .ended) (more : Nat) :
    run volume hooks sep (fuel + more) frames = run volume hooks sep fuel frames := by
  induction fuel generalizing frames with
  | zero =>
    cases frames with
    | nil => rw [run_nil, run_nil]
    | cons frame pending => cases ended
  | succ fuel ih =>
    cases frames with
    | nil => rw [run_nil, run_nil]
    | cons frame pending =>
      obtain ⟨left, next, same, stepped, later⟩ := run_ended_cons ended
      obtain rfl : fuel = left := Nat.succ.inj same
      rw [Nat.succ_add, run_step stepped, run_step stepped, ih later]

theorem run_append {fuel extra : Nat} {first rest : List Frame}
    (one : (run volume hooks sep fuel first).outcome = .ended)
    (two : (run volume hooks sep extra rest).outcome = .ended) :
    run volume hooks sep (fuel + extra) (first ++ rest) =
      ⟨(run volume hooks sep fuel first).events ++ (run volume hooks sep extra rest).events,
        .ended⟩ := by
  induction fuel generalizing first with
  | zero =>
    cases first with
    | nil => rw [Nat.zero_add, List.nil_append, run_nil, List.nil_append, ← two]
    | cons frame pending => cases one
  | succ fuel ih =>
    cases first with
    | nil =>
      rw [List.nil_append, Nat.add_comm, run_more two, run_nil, List.nil_append, ← two]
    | cons frame pending =>
      obtain ⟨left, next, same, stepped, later⟩ := run_ended_cons one
      obtain rfl : fuel = left := Nat.succ.inj same
      rw [Nat.succ_add, List.cons_append, run_step stepped, run_step stepped, ← List.append_assoc,
        ih later, List.append_assoc]

/-- What a walk yields that has one frame, and the fuel that its rank asks for. -/
def harvest (volume : Volume) (hooks : Hooks α) (sep : Char) (rank : Frame → Nat) (width : Nat)
    (frame : Frame) : List α :=
  yields (run volume hooks sep ((width + 1) ^ rank frame) [frame]).events

variable {good : Frame → Prop} {rank : Frame → Nat} {width : Nat}

theorem Steady.one_ended (steady : Steady volume hooks sep good rank width) {frame : Frame}
    (fine : good frame) :
    (run volume hooks sep ((width + 1) ^ rank frame) [frame]).outcome = .ended :=
  steady.run_ended (by simpa using fine) (by simp [cost])

/-- A walk to its end yields what its frames bring in, one after another. -/
theorem Steady.run_harvest (steady : Steady volume hooks sep good rank width)
    {frames : List Frame} (start : ∀ frame ∈ frames, good frame) {fuel : Nat}
    (ended : (run volume hooks sep fuel frames).outcome = .ended) :
    yields (run volume hooks sep fuel frames).events =
      frames.flatMap (harvest volume hooks sep rank width) := by
  have paid : (run volume hooks sep (cost rank width frames) frames).outcome = .ended :=
    steady.run_ended start (Nat.le_refl _)
  have same : run volume hooks sep fuel frames =
      run volume hooks sep (cost rank width frames) frames := by
    rw [← run_more ended (cost rank width frames), Nat.add_comm, run_more paid]
  rw [same]
  clear same ended paid
  induction frames with
  | nil => rw [run_nil]; rfl
  | cons frame rest ih =>
    obtain ⟨here, later⟩ := List.forall_mem_cons.mp start
    have tail : (run volume hooks sep (cost rank width rest) rest).outcome = .ended :=
      steady.run_ended later (Nat.le_refl _)
    have both := run_append (steady.one_ended here) tail
    rw [List.singleton_append] at both
    rw [cost, both, yields_append, ih later, List.flatMap_cons]
    rfl

theorem Steady.harvest_step (steady : Steady volume hooks sep good rank width) {frame : Frame}
    (fine : good frame) {next : List Frame}
    (stepped : (Walk.step volume hooks sep frame []).2 = .ok next) :
    harvest volume hooks sep rank width frame =
      yields (Walk.step volume hooks sep frame []).1 ++
        next.flatMap (harvest volume hooks sep rank width) := by
  obtain ⟨left, again, enough, result, later⟩ := run_ended_cons (steady.one_ended fine)
  obtain rfl := Except.ok.inj (result.symm.trans stepped)
  obtain ⟨_, found, _, after⟩ := steady.step frame fine
  obtain rfl := Except.ok.inj (found.symm.trans result)
  rw [List.append_nil] at later
  rw [harvest, enough, run_step result, yields_append, List.append_nil,
    steady.run_harvest (fun other member => (after other member).1) later]

end PathGlob.Walk
