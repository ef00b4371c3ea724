import PathGlob.Fault

namespace PathGlob
variable {α β ε : Type}

theorem map_ok_iff {f : α → β} {given : Except ε α} {result : β} :
    given.map f = .ok result ↔ ∃ value, given = .ok value ∧ f value = result := by
  cases given <;> simp [Except.map]

theorem bind_ok_iff {f : α → Except ε β} {given : Except ε α} {result : β} :
    given >>= f = .ok result ↔ ∃ value, given = .ok value ∧ f value = .ok result := by
  cases given <;> simp [bind, Except.bind]

theorem bind_error_iff {f : α → Except ε β} {given : Except ε α} {fault : ε} :
    given >>= f = .error fault ↔
      given = .error fault ∨ ∃ value, given = .ok value ∧ f value = .error fault := by
  cases given <;> simp [bind, Except.bind]

theorem ok_of_toOption {given : Except ε α} {value : α} (found : given.toOption = some value) :
    given = .ok value := by
  cases given with
  | error fault => cases found
  | ok other => exact congrArg Except.ok (Option.some.inj found)

theorem foldlM_keeps {keep : β → Prop} {f : β → α → Except ε β}
    (step : ∀ before item after, keep before → f before item = .ok after → keep after)
    (items : List α) {before after : β} (start : keep before)
    (run : items.foldlM f before = .ok after) : keep after := by
  induction items generalizing before with
  | nil =>
    obtain rfl : before = after := by simpa [pure, Except.pure] using run
    exact start
  | cons item rest ih =>
    rw [List.foldlM_cons, bind_ok_iff] at run
    obtain ⟨next, first, more⟩ := run
    exact ih (step before item next start first) more

/-- A run over a list fails as one of its steps does, from what the steps before it kept. -/
theorem foldlM_fails {keep : β → Prop} {f : β → α → Except ε β}
    (step : ∀ before item after, keep before → f before item = .ok after → keep after)
    {items : List α} {before : β} {fault : ε} (start : keep before)
    (failed : items.foldlM f before = .error fault) :
    ∃ state item, item ∈ items ∧ keep state ∧ f state item = .error fault := by
  induction items generalizing before with
  | nil => cases failed
  | cons item rest ih =>
    rw [List.foldlM_cons, bind_error_iff] at failed
    obtain here | ⟨next, first, later⟩ := failed
    · exact ⟨before, item, List.mem_cons_self, start, here⟩
    · obtain ⟨state, other, member, kept, there⟩ := ih (step before item next start first) later
      exact ⟨state, other, List.mem_cons_of_mem _ member, kept, there⟩

end PathGlob
