namespace PathGlob

abbrev Text := List Char

namespace Text

def pushFirst (c : Char) : List Text → List Text
  | [] => [[c]]
  | piece :: rest => (c :: piece) :: rest

/-- Pass over `skip` characters of a separator just seen, then cut at the next one. -/
def cutFrom (sep : Text) : Nat → Text → List Text
  | _, [] => [[]]
  | skip + 1, _ :: rest => cutFrom sep skip rest
  | 0, c :: rest =>
      if sep.isPrefixOf (c :: rest) then [] :: cutFrom sep (sep.length - 1) rest
      else pushFirst c (cutFrom sep 0 rest)

def splitOn (sep text : Text) : List Text :=
  if sep.isEmpty then [text] else cutFrom sep 0 text

def glue (sep : Text) (pieces : List Text) : Text := sep.intercalate pieces

def first (sep text : Text) : Text := (splitOn sep text).headD []

def replace (old new text : Text) : Text := glue new (splitOn old text)

def trimLeft (set text : Text) : Text := text.dropWhile set.contains

def trimRight (set text : Text) : Text := (text.reverse.dropWhile set.contains).reverse

/-- One character is dropped from a text that ends in the separator, however long that is. -/
def dropEnding (sep text : Text) : Text :=
  if sep.isSuffixOf text then text.dropLast else text

theorem pushFirst_ne_nil (c : Char) (pieces : List Text) : pushFirst c pieces ≠ [] := by
  cases pieces <;> simp [pushFirst]

theorem cutFrom_ne_nil (sep : Text) (skip : Nat) (text : Text) : cutFrom sep skip text ≠ [] := by
  fun_induction cutFrom sep skip text <;> simp_all [pushFirst_ne_nil]

theorem splitOn_ne_nil (sep text : Text) : splitOn sep text ≠ [] := by
  unfold splitOn
  split <;> simp [cutFrom_ne_nil]

theorem glue_cons {sep piece : Text} {pieces : List Text} (h : pieces ≠ []) :
    glue sep (piece :: pieces) = piece ++ sep ++ glue sep pieces := by
  cases pieces with
  | nil => contradiction
  | cons next rest => simp [glue, List.intercalate]

theorem glue_pushFirst {sep : Text} {c : Char} {pieces : List Text} (h : pieces ≠ []) :
    glue sep (pushFirst c pieces) = c :: glue sep pieces := by
  cases pieces with
  | nil => contradiction
  | cons piece rest =>
    cases rest with
    | nil => simp [pushFirst, glue, List.intercalate]
    | cons next rest => simp [pushFirst, glue, List.intercalate]

theorem glue_cutFrom {sep : Text} (h : sep ≠ []) (skip : Nat) (text : Text) :
    glue sep (cutFrom sep skip text) = text.drop skip := by
  fun_induction cutFrom sep skip text with
  | case1 => simp [glue, List.intercalate]
  | case2 skip c rest ih => simpa using ih
  | case3 c rest here ih =>
    obtain ⟨tail, eq⟩ := List.isPrefixOf_iff_prefix.mp here
    rw [glue_cons (cutFrom_ne_nil _ _ _), ih]
    cases sep with
    | nil => contradiction
    | cons s more =>
      simp only [List.cons_append, List.cons.injEq] at eq
      obtain ⟨rfl, rfl⟩ := eq
      simp
  | case4 c rest _ ih =>
    rw [glue_pushFirst (cutFrom_ne_nil _ _ _), ih]
    simp

theorem glue_splitOn (sep text : Text) : glue sep (splitOn sep text) = text := by
  unfold splitOn
  split
  · simp [glue, List.intercalate]
  · rename_i h
    rw [glue_cutFrom (by simpa using h)]
    rfl

theorem splitOn_char_nil (s : Char) : splitOn [s] [] = [[]] := rfl

theorem splitOn_char_cons (s c : Char) (text : Text) :
    splitOn [s] (c :: text) =
      if c = s then [] :: splitOn [s] text else pushFirst c (splitOn [s] text) := by
  by_cases h : c = s
  · simp [splitOn, cutFrom, h]
  · have : ¬ s = c := fun e => h e.symm
    simp [splitOn, cutFrom, h, this]

end Text

end PathGlob
