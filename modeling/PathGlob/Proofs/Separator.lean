import PathGlob.Text
import Mathlib.Data.List.DropRight

namespace PathGlob.Text
variable {s : Char}

theorem splitOn_char (s : Char) (text : Text) : splitOn [s] text = List.splitOn s text := by
  induction text with
  | nil => rfl
  | cons c rest ih =>
    rw [splitOn_char_cons, List.splitOn_cons_eq_if_modifyHead, ih]
    cases pieces : List.splitOn s rest with
    | nil => exact absurd pieces (List.splitOn_ne_nil s rest)
    | cons piece more => by_cases same : c = s <;> simp [same, pushFirst]

theorem split_append (s : Char) (left right : Text) :
    splitOn [s] (left ++ s :: right) = splitOn [s] left ++ splitOn [s] right := by
  simp only [splitOn_char, List.splitOn_append_cons_self]

theorem split_free {text : Text} (free : s ∉ text) : splitOn [s] text = [text] := by
  rw [splitOn_char, List.splitOn_eq_singleton free]

theorem split_glue {pieces : List Text} (inhabited : pieces ≠ [])
    (free : ∀ piece ∈ pieces, s ∉ piece) : splitOn [s] (glue [s] pieces) = pieces := by
  rw [splitOn_char, glue, List.splitOn_intercalate s free inhabited]

theorem piece_free {text piece : Text} (member : piece ∈ splitOn [s] text) : s ∉ piece := by
  induction text generalizing piece with
  | nil =>
    have empty : piece = [] := by simpa [splitOn_char_nil] using member
    simp [empty]
  | cons c rest ih =>
    rw [splitOn_char_cons] at member
    split at member
    · rcases List.mem_cons.mp member with first | later
      · simp [first]
      · exact ih later
    · rename_i other
      cases pieces : splitOn [s] rest with
      | nil => exact absurd pieces (splitOn_ne_nil _ _)
      | cons next more =>
        rw [pieces, pushFirst, List.mem_cons] at member
        rcases member with first | later
        · have tail : s ∉ next := ih (by simp [pieces])
          simp [first, tail, Ne.symm other]
        · exact ih (by simp [pieces, later])

theorem glue_singleton (sep piece : Text) : glue sep [piece] = piece := by
  simp [glue, List.intercalate]

theorem glue_append {left right : List Text} (hl : left ≠ []) (hr : right ≠ []) :
    glue [s] (left ++ right) = glue [s] left ++ s :: glue [s] right := by
  induction left with
  | nil => contradiction
  | cons piece rest ih =>
    cases rest with
    | nil => rw [List.singleton_append, glue_cons hr, glue_singleton]; simp
    | cons next more =>
      have split : glue [s] (piece :: next :: more) = piece ++ [s] ++ glue [s] (next :: more) :=
        glue_cons (by simp)
      rw [List.cons_append, glue_cons (by simp), ih (by simp), split]
      simp

theorem glue_eq_append_iff {pieces : List Text} {left right : Text} (inhabited : pieces ≠ [])
    (free : ∀ piece ∈ pieces, s ∉ piece) :
    glue [s] pieces = left ++ s :: right ↔
      ∃ front back, front ≠ [] ∧ back ≠ [] ∧ pieces = front ++ back ∧
        left = glue [s] front ∧ right = glue [s] back := by
  constructor
  · intro same
    refine ⟨splitOn [s] left, splitOn [s] right, splitOn_ne_nil _ _, splitOn_ne_nil _ _, ?_,
      (glue_splitOn _ _).symm, (glue_splitOn _ _).symm⟩
    rw [← split_glue inhabited free, same, split_append]
  · intro h
    obtain ⟨front, back, hf, hb, rfl, rfl, rfl⟩ := h
    exact glue_append hf hb

theorem glue_free {pieces : List Text} (inhabited : pieces ≠ []) (free : ∀ piece ∈ pieces, s ∉ piece)
    (freeGlued : s ∉ glue [s] pieces) : pieces = [glue [s] pieces] := by
  rw [← split_free freeGlued, split_glue inhabited free]

theorem glue_ne_nil {pieces : List Text} (inhabited : pieces ≠ [])
    (filled : ∀ piece ∈ pieces, piece ≠ []) (sep : Text) : glue sep pieces ≠ [] := by
  cases pieces with
  | nil => contradiction
  | cons piece rest =>
    have here := filled piece (by simp)
    cases rest with
    | nil => simpa [glue_singleton] using here
    | cons next more => simp [glue_cons, here]

theorem mem_glue {pieces : List Text} {c : Char} {sep : Text} (member : c ∈ glue sep pieces) :
    c ∈ sep ∨ ∃ piece ∈ pieces, c ∈ piece := by
  induction pieces with
  | nil => simp [glue, List.intercalate] at member
  | cons piece rest ih =>
    cases rest with
    | nil => exact Or.inr ⟨piece, by simp, by simpa [glue_singleton] using member⟩
    | cons next more =>
      rw [glue_cons (by simp), List.mem_append, List.mem_append] at member
      rcases member with (here | between) | later
      · exact Or.inr ⟨piece, by simp, here⟩
      · exact Or.inl between
      · rcases ih later with between | ⟨found, hf, hc⟩
        · exact Or.inl between
        · exact Or.inr ⟨found, List.mem_cons_of_mem _ hf, hc⟩

theorem mem_glue_of_mem {pieces : List Text} {piece : Text} {c : Char} {sep : Text}
    (inside : piece ∈ pieces) (member : c ∈ piece) : c ∈ glue sep pieces := by
  induction pieces with
  | nil => cases inside
  | cons first rest ih =>
    cases rest with
    | nil =>
      obtain rfl := List.mem_singleton.mp inside
      rw [glue_singleton]
      exact member
    | cons next more =>
      rw [glue_cons (by simp), List.mem_append, List.mem_append]
      rcases List.mem_cons.mp inside with rfl | later
      · exact Or.inl (Or.inl member)
      · exact Or.inr (ih later)

theorem first_append (left right : Text) :
    first [s] (left ++ s :: right) = first [s] left := by
  unfold first
  rw [split_append]
  cases pieces : splitOn [s] left with
  | nil => exact absurd pieces (splitOn_ne_nil _ _)
  | cons piece rest => rfl

theorem first_free {text : Text} (free : s ∉ text) : first [s] text = text := by
  rw [first, split_free free, List.headD_cons]

theorem ends_iff {text : Text} : [s].isSuffixOf text = true ↔ ∃ front, text = front ++ [s] := by
  rw [List.isSuffixOf_iff_suffix]
  exact ⟨fun ⟨front, same⟩ => ⟨front, same.symm⟩, fun ⟨front, same⟩ => ⟨front, same.symm⟩⟩

theorem trimRight_char (s : Char) (text : Text) :
    trimRight [s] text = text.rdropWhile (· == s) := by
  unfold trimRight List.rdropWhile
  congr 2
  funext c
  by_cases same : c = s <;> simp [same]

theorem trimLeft_free {text : Text} (free : s ∉ text) : trimLeft [s] text = text := by
  cases text with
  | nil => rfl
  | cons c rest =>
    have other : ¬ c = s := fun same => free (by simp [same])
    simp [trimLeft, other]

theorem glue_map_split (a : Char) (new : Text) (f : Char → Text) (text : Text) :
    glue new ((splitOn [a] text).map (·.flatMap f)) =
      text.flatMap fun c => if c = a then new else f c := by
  induction text with
  | nil => simp [splitOn_char_nil, glue, List.intercalate]
  | cons c rest ih =>
    rw [splitOn_char_cons, List.flatMap_cons, ← ih]
    have inhabited : (splitOn [a] rest).map (·.flatMap f) ≠ [] := by simp [splitOn_ne_nil]
    split
    · rw [List.map_cons, glue_cons inhabited]
      simp
    · cases pieces : splitOn [a] rest with
      | nil => exact absurd pieces (splitOn_ne_nil _ _)
      | cons piece more =>
        cases more with
        | nil => simp [pushFirst, glue_singleton]
        | cons next later => simp [pushFirst, glue_cons]

theorem replace_char (a : Char) (new text : Text) :
    replace [a] new text = text.flatMap fun c => if c = a then new else [c] := by
  rw [replace, ← glue_map_split]
  simp

end PathGlob.Text
