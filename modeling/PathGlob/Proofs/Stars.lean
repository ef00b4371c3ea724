import PathGlob.Proofs.Blocks
import PathGlob.Proofs.Canonical

namespace PathGlob
variable {s : Char}

theorem hasGlobstar_iff (piece : Text) :
    hasGlobstar piece = true ↔ globstarText <:+: piece := by
  fun_induction hasGlobstar piece with
  | case1 rest => exact iff_of_true rfl ⟨[], rest, rfl⟩
  | case2 c rest apart ih =>
    have elsewhere : ¬ globstarText <+: c :: rest := by
      intro begins
      obtain ⟨more, same⟩ := begins
      obtain ⟨rfl, rfl⟩ := List.cons.inj same
      exact apart more rfl rfl
    rw [ih, List.infix_cons_iff]
    exact ⟨Or.inr, fun found => found.resolve_left elsewhere⟩
  | case3 => decide

def woven (parts runs : List Text) : Text :=
  (List.zipWith (· ++ ·) parts (runs ++ [[]])).flatten

theorem woven_single (part : Text) : woven [part] [] = part := by
  simp [woven]

theorem woven_cons (part run : Text) (parts runs : List Text) :
    woven (part :: parts) (run :: runs) = part ++ run ++ woven parts runs := by
  simp [woven]

theorem woven_char (c : Char) (part : Text) (parts runs : List Text) :
    woven ((c :: part) :: parts) runs = c :: woven (part :: parts) runs := by
  cases runs <;> simp [woven]

/-- The text is woven of the parts and of runs without the separator. -/
def Woven (s : Char) (parts : List Text) (text : Text) : Prop :=
  ∃ runs, runs.length + 1 = parts.length ∧ (∀ run ∈ runs, s ∉ run) ∧ text = woven parts runs

theorem woven_nil_iff (s : Char) (text : Text) : Woven s [[]] text ↔ text = [] := by
  constructor
  · intro h
    obtain ⟨runs, size, _, rfl⟩ := h
    obtain rfl : runs = [] := by simpa using size
    exact woven_single []
  · intro empty
    exact ⟨[], rfl, by simp, empty.trans (woven_single []).symm⟩

theorem woven_star_iff {parts : List Text} (inhabited : parts ≠ []) (text : Text) :
    Woven s ([] :: parts) text ↔
      ∃ front rest, text = front ++ rest ∧ s ∉ front ∧ Woven s parts rest := by
  constructor
  · intro h
    obtain ⟨runs, size, clear, rfl⟩ := h
    cases runs with
    | nil => exact absurd (by simpa using size.symm) inhabited
    | cons run runs =>
      obtain ⟨first, later⟩ := List.forall_mem_cons.mp clear
      refine ⟨run, woven parts runs, ?_, first, runs, Nat.succ.inj size, later, rfl⟩
      rw [woven_cons, List.nil_append]
  · intro h
    obtain ⟨front, _, rfl, first, runs, size, later, rfl⟩ := h
    refine ⟨front :: runs, congrArg (· + 1) size, List.forall_mem_cons.mpr ⟨first, later⟩, ?_⟩
    rw [woven_cons, List.nil_append]

theorem woven_char_iff (c : Char) (part : Text) (parts : List Text) (text : Text) :
    Woven s ((c :: part) :: parts) text ↔
      ∃ rest, text = c :: rest ∧ Woven s (part :: parts) rest := by
  constructor
  · intro h
    obtain ⟨runs, size, clear, rfl⟩ := h
    exact ⟨woven (part :: parts) runs, woven_char c part parts runs, runs, size, clear, rfl⟩
  · intro h
    obtain ⟨_, rfl, runs, size, clear, rfl⟩ := h
    exact ⟨runs, size, clear, (woven_char c part parts runs).symm⟩

theorem fills_iff_woven (s : Char) (piece text : Text) :
    Fills s piece text ↔ Woven s (List.splitOn '*' piece) text := by
  induction piece generalizing text with
  | nil => exact (woven_nil_iff s text).symm
  | cons c rest ih =>
    rw [List.splitOn_cons_eq_if_modifyHead, Fills]
    -- A star puts an empty part in front; any other character joins the first part.
    by_cases star : c = '*'
    · simp only [star, ↓reduceIte, BEq.rfl, woven_star_iff (List.splitOn_ne_nil '*' rest), ih]
    · cases parts : List.splitOn '*' rest with
      | nil => exact absurd parts (List.splitOn_ne_nil '*' rest)
      | cons part more =>
        simp only [star, ↓reduceIte, beq_iff_eq, List.modifyHead_cons, woven_char_iff, ih, parts]

namespace Segment

theorem ofPiece_starred (s : Char) {piece : Text} (starred : '*' ∈ piece)
    (apart : ¬ globstarText <:+: piece) :
    ∃ expression, ofPiece s piece = .wildcard expression := by
  have single : ¬ hasGlobstar piece = true := fun double =>
    apart ((hasGlobstar_iff piece).mp double)
  unfold ofPiece
  rw [if_neg single, if_pos (by simpa using starred)]
  exact ⟨_, rfl⟩

/-- A piece with stars, but no two side by side, becomes a wildcard. Its expression can be read,
and fits a name as a whole exactly if that is woven of the parts between the stars and of one run
without the separator for each star. -/
theorem wildcard_fits_iff (s : Char) {piece : Text} (starred : '*' ∈ piece)
    (apart : ¬ ['*', '*'] <:+: piece) :
    ∃ expression regex, ofPiece s piece = .wildcard expression ∧
      Pattern.readExpression expression = .ok regex ∧
      ∀ name, regex.fullMatch name = true ↔
        ∃ runs, runs.length + 1 = (List.splitOn '*' piece).length ∧ (∀ run ∈ runs, s ∉ run) ∧
          name = woven (List.splitOn '*' piece) runs := by
  obtain ⟨expression, made⟩ := ofPiece_starred s starred apart
  refine ⟨expression, _, made, (read_ofPiece made).2, fun name => ?_⟩
  rw [fullMatch_piece, fills_iff_woven]
  rfl

theorem wildcard_fits_operators :
    ∃ expression regex, ofPiece '^' "f(*)+*".toList = .wildcard expression ∧
      Pattern.readExpression expression = .ok regex ∧
      regex.fullMatch "f([*\n)+)+/".toList = true := by
  have starred : '*' ∈ "f(*)+*".toList := by decide
  have apart : ¬ ['*', '*'] <:+: "f(*)+*".toList := (hasGlobstar_iff _).not.mp (by decide)
  obtain ⟨expression, regex, made, reads, fits⟩ := wildcard_fits_iff '^' starred apart
  refine ⟨expression, regex, made, reads, (fits _).mpr ?_⟩
  exact ⟨["[*\n".toList, ")+/".toList], by decide, by decide, by decide⟩

end Segment

end PathGlob
