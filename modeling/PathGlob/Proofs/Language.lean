import PathGlob.Proofs.Reading
import PathGlob.Regex.Fits

/-!
The language of a pattern. Each piece stands for itself with some text for every star, and a
globstar for any number of directories. The expression of a pattern accepts exactly the names
that this language allows behind the base, or behind any separator where there is no base.
-/
namespace PathGlob
variable {s : Char}

def Fills (s : Char) : Text → Text → Prop
  | [], text => text = []
  | c :: piece, text =>
      if c = '*' then ∃ front rest, text = front ++ rest ∧ s ∉ front ∧ Fills s piece rest
      else ∃ rest, text = c :: rest ∧ Fills s piece rest

/-- What a globstar runs through: a line of text, and something at all. -/
def Crossed (text : Text) : Prop := text ≠ [] ∧ '\n' ∉ text

/-- The texts that a list of pieces stands for, where a globstar runs through what it `crosses`.
Between two pieces there is a separator; a globstar with more to come may be left out. -/
def Language (s : Char) (crosses : Text → Prop) : List Text → Text → Prop
  | [], text => text = []
  | [piece], text => if hasGlobstar piece then crosses text else Fills s piece text
  | piece :: next :: rest, text =>
      if hasGlobstar piece then
        Language s crosses (next :: rest) text ∨
          ∃ front more, text = front ++ s :: more ∧ crosses front ∧
            Language s crosses (next :: rest) more
      else ∃ front more, text = front ++ s :: more ∧ Fills s piece front ∧
        Language s crosses (next :: rest) more

def bareBase (s : Char) (base : Text) : Text :=
  (base.map fun c => if s = '\\' ∧ c = '/' then s else c).rdropWhile (· == s)

/-- The text, or the text with a newline at its end, is in the language. -/
def Closes (s : Char) (pieces : List Text) (text : Text) : Prop :=
  Language s Crossed pieces text ∨ ∃ line, text = line ++ ['\n'] ∧ Language s Crossed pieces line

def Behind (s : Char) (kind : Text → Prop) (name : Text) : Prop :=
  ∃ front rest, name = front ++ rest ∧ (front = [] ∨ ∃ above, front = above ++ [s]) ∧ kind rest

/-- The names that a pattern accepts: those behind the base, where there is one. -/
def Admits (s : Char) (pieces : List Text) (base : Option Text) (name : Text) : Prop :=
  match base with
  | none => Behind s (Closes s pieces) name
  | some base => ∃ rest, Language s Crossed pieces rest ∧
      (name = bareBase s base ++ s :: rest ∨ name = bareBase s base ++ s :: rest ++ ['\n'])

namespace Regex

theorem fits_append (xs ys : List Regex) (before middle after : Text) :
    (chain (xs ++ ys)).Fits before middle after ↔
      ∃ first second, middle = first ++ second ∧ (chain xs).Fits before first (second ++ after) ∧
        (chain ys).Fits (before ++ first) second after := by
  induction xs generalizing before middle with
  | nil =>
    constructor
    · intro fits
      exact ⟨[], middle, rfl, rfl, by simpa using fits⟩
    · intro h
      obtain ⟨first, second, rfl, none, fits⟩ := h
      have none : first = [] := none
      subst none
      simpa using fits
  | cons x xs ih =>
    simp only [List.cons_append, chain, List.foldr_cons, Fits]
    simp only [chain] at ih
    constructor
    · intro h
      obtain ⟨one, more, rfl, here, rest⟩ := h
      obtain ⟨two, last, rfl, inner, outer⟩ := (ih _ _).mp rest
      refine ⟨one ++ two, last, by simp, ⟨one, two, rfl, by simpa using here, inner⟩, ?_⟩
      simpa using outer
    · intro h
      obtain ⟨_, last, rfl, ⟨one, two, rfl, here, inner⟩, outer⟩ := h
      refine ⟨one, two ++ last, by simp, by simpa using here, (ih _ _).mpr ?_⟩
      exact ⟨two, last, rfl, inner, by simpa using outer⟩

theorem fits_single (x : Regex) (before middle after : Text) :
    (chain [x]).Fits before middle after ↔ x.Fits before middle after := by
  simp only [chain, List.foldr_cons, List.foldr_nil, Fits]
  constructor
  · intro h
    obtain ⟨first, second, rfl, here, rfl⟩ := h
    simpa using here
  · intro here
    exact ⟨middle, [], by simp, by simpa using here, rfl⟩

theorem fits_char (c : Char) (before middle after : Text) :
    (one (.char c)).Fits before middle after ↔ middle = [c] := by
  simp [Fits, Symbol.accepts]

theorem fits_text (text before middle after : Text) :
    (chain (text.map fun c => one (.char c))).Fits before middle after ↔ middle = text := by
  induction text generalizing before middle with
  | nil => rfl
  | cons c rest ih =>
    rw [List.map_cons, ← List.singleton_append, fits_append]
    simp only [fits_single, fits_char, ih]
    constructor
    · intro h
      obtain ⟨_, _, rfl, rfl, rfl⟩ := h
      rfl
    · intro same
      exact ⟨[c], rest, same, rfl, rfl⟩

theorem fits_piece (s : Char) (piece before middle after : Text) :
    (chain (piece.map (pieceItem s))).Fits before middle after ↔ Fills s piece middle := by
  induction piece generalizing before middle with
  | nil => rfl
  | cons c rest ih =>
    rw [List.map_cons, ← List.singleton_append, fits_append]
    simp only [ih, Fills, pieceItem]
    split
    · simp only [fits_single, Fits, Symbol.accepts]
      constructor
      · intro h
        obtain ⟨front, more, same, run, filled⟩ := h
        refine ⟨front, more, same, ?_, filled⟩
        intro member
        simpa using run s member
      · intro h
        obtain ⟨front, more, same, free, filled⟩ := h
        refine ⟨front, more, same, ?_, filled⟩
        intro c member
        have differ : c ≠ s := fun same => free (same ▸ member)
        simpa using differ
    · simp only [fits_single, fits_char]
      constructor
      · intro h
        obtain ⟨_, more, rfl, rfl, filled⟩ := h
        exact ⟨more, rfl, filled⟩
      · intro h
        obtain ⟨more, rfl, filled⟩ := h
        exact ⟨[c], more, rfl, rfl, filled⟩

theorem fits_rest (before middle after : Text) :
    (plus .anyButNewline).Fits before middle after ↔ Crossed middle := by
  simp only [Fits, Symbol.accepts, Crossed, bne_iff_ne]
  refine and_congr_right fun _ => ?_
  constructor
  · intro each member
    exact each '\n' member rfl
  · intro free c member same
    exact free (same ▸ member)

theorem fits_crossing (s : Char) (before middle after : Text) :
    (crossing s).Fits before middle after ↔
      middle = [] ∨ ∃ front, middle = front ++ [s] ∧ Crossed front := by
  have split : [plus .anyButNewline, one (.char s)] =
      [plus Symbol.anyButNewline] ++ [one (.char s)] := rfl
  change ((chain [plus .anyButNewline, one (.char s)]).Fits before middle after ∨ middle = []) ↔ _
  rw [split, fits_append]
  simp only [fits_char, fits_single, fits_rest]
  constructor
  · intro h
    rcases h with ⟨front, _, rfl, crossed, rfl⟩ | none
    · exact Or.inr ⟨front, rfl, crossed⟩
    · exact Or.inl none
  · intro h
    rcases h with none | ⟨front, rfl, crossed⟩
    · exact Or.inr none
    · exact Or.inl ⟨front, [s], rfl, crossed, rfl⟩

theorem fits_body (s : Char) (pieces : List Text) (before middle after : Text) :
    (chain (bodyItems s pieces)).Fits before middle after ↔ Language s Crossed pieces middle := by
  induction pieces generalizing before middle with
  | nil => rfl
  | cons piece rest ih =>
    cases rest with
    | nil =>
      simp only [bodyItems, finalItems, Language]
      split
      · rw [fits_single, fits_rest]
      · rw [fits_piece]
    | cons next more =>
      simp only [bodyItems, innerItems, Language, fits_append]
      simp only [ih]
      split
      · simp only [fits_single, fits_crossing]
        constructor
        · intro h
          obtain ⟨first, second, rfl, rfl | ⟨front, rfl, crossed⟩, tail⟩ := h
          · exact Or.inl tail
          · exact Or.inr ⟨front, second, by simp, crossed, tail⟩
        · intro h
          rcases h with tail | ⟨front, second, rfl, crossed, tail⟩
          · exact ⟨[], middle, rfl, Or.inl rfl, tail⟩
          · exact ⟨front ++ [s], second, by simp, Or.inr ⟨front, rfl, crossed⟩, tail⟩
      · simp only [fits_append, fits_piece, fits_single, fits_char]
        constructor
        · intro h
          obtain ⟨_, second, rfl, ⟨front, _, rfl, filled, rfl⟩, tail⟩ := h
          exact ⟨front, second, by simp, filled, tail⟩
        · intro h
          obtain ⟨front, second, rfl, filled, tail⟩ := h
          exact ⟨front ++ [s], second, by simp, ⟨front, [s], rfl, filled, rfl⟩, tail⟩

theorem fits_opening (s : Char) (before middle after : Text) :
    (opening s).Fits before middle after ↔ middle = [] ∧ before = [] ∨ middle = [s] := by
  change ((chain [start]).Fits before middle after ∨
    (chain [one (.char s)]).Fits before middle after) ↔ _
  rw [fits_single, fits_single, fits_char]
  rfl

theorem fits_start (before middle after : Text) :
    start.Fits before middle after ↔ middle = [] ∧ before = [] := Iff.rfl

theorem trimBase_bare (s : Char) (base : Text) : Pattern.trimBase s base = bareBase s base := by
  rw [Pattern.trimBase, bareBase, Text.trimRight_char]
  congr 1
  split
  · rename_i backslash
    subst backslash
    rw [Text.replace_char]
    induction base with
    | nil => rfl
    | cons c rest ih =>
      rw [List.flatMap_cons, List.map_cons, ih]
      split <;> simp_all
  · rename_i other
    simp [other]

theorem search_closed (items : List Regex) (name : Text) :
    (chain (items ++ [stop])).search name = true ↔
      ∃ before middle after, name = before ++ middle ++ after ∧
        (chain items).Fits before middle after ∧ (after = [] ∨ after = ['\n']) := by
  simp only [search_iff, fits_append, fits_single]
  constructor
  · intro h
    obtain ⟨before, _, after, rfl, middle, _, rfl, fits, rfl, ending⟩ := h
    exact ⟨before, middle, after, by simp, by simpa using fits, ending⟩
  · intro h
    obtain ⟨before, middle, after, rfl, fits, ending⟩ := h
    exact ⟨before, middle, after, rfl, middle, [], by simp, by simpa using fits, rfl, ending⟩

theorem search_open (s : Char) (pieces : List Text) (name : Text) :
    (chain (headItems s none ++ bodyItems s pieces ++ [stop])).search name = true ↔
      Admits s pieces none name := by
  simp only [search_closed, headItems, fits_append, fits_single, fits_opening, fits_body, Admits,
    Behind, Closes]
  constructor
  · intro h
    obtain ⟨before, _, after, rfl, ⟨first, middle, rfl, place, tail⟩, ending⟩ := h
    refine ⟨before ++ first, middle ++ after, by simp, ?_, ?_⟩
    · rcases place with ⟨rfl, rfl⟩ | rfl
      · exact Or.inl rfl
      · exact Or.inr ⟨before, rfl⟩
    · rcases ending with rfl | rfl
      · exact Or.inl (by simpa using tail)
      · exact Or.inr ⟨middle, rfl, tail⟩
  · intro h
    obtain ⟨front, rest, rfl, place, tail⟩ := h
    have begun : ∃ before first, front = before ++ first ∧
        (first = [] ∧ before = [] ∨ first = [s]) := by
      rcases place with rfl | ⟨above, rfl⟩
      · exact ⟨[], [], rfl, Or.inl ⟨rfl, rfl⟩⟩
      · exact ⟨above, [s], rfl, Or.inr rfl⟩
    obtain ⟨before, first, rfl, begins⟩ := begun
    rcases tail with tail | ⟨line, rfl, tail⟩
    · exact ⟨before, first ++ rest, [], by simp, ⟨first, rest, rfl, begins, tail⟩, Or.inl rfl⟩
    · exact ⟨before, first ++ line, ['\n'], by simp, ⟨first, line, rfl, begins, tail⟩, Or.inr rfl⟩

theorem search_based (s : Char) (pieces : List Text) (base name : Text) :
    (chain (headItems s (some base) ++ bodyItems s pieces ++ [stop])).search name = true ↔
      Admits s pieces (some base) name := by
  have head : headItems s (some base) =
      [start] ++ ((bareBase s base).map (fun c => one (.char c)) ++ [one (.char s)]) := by
    simp [headItems, trimBase_bare]
  simp only [search_closed, head, fits_append, fits_single, fits_start, fits_text, fits_char,
    fits_body, Admits]
  constructor
  · intro h
    obtain ⟨_, _, after, rfl, ⟨_, rest, rfl, ⟨_, _, rfl, ⟨rfl, rfl⟩, _, _, rfl, rfl, rfl⟩, tail⟩,
      ending⟩ := h
    refine ⟨rest, tail, ?_⟩
    rcases ending with rfl | rfl <;> simp
  · intro h
    obtain ⟨rest, tail, named⟩ := h
    have closed : ∃ after, name = bareBase s base ++ [s] ++ rest ++ after ∧
        (after = [] ∨ after = ['\n']) := by
      rcases named with rfl | rfl
      · exact ⟨[], by simp, Or.inl rfl⟩
      · exact ⟨['\n'], by simp, Or.inr rfl⟩
    obtain ⟨after, rfl, ending⟩ := closed
    exact ⟨[], bareBase s base ++ [s] ++ rest, after, rfl, ⟨bareBase s base ++ [s], rest, rfl,
      ⟨[], bareBase s base ++ [s], rfl, ⟨rfl, rfl⟩, bareBase s base, [s], rfl, rfl, rfl⟩, tail⟩,
      ending⟩

end Regex

namespace Pattern

theorem accepts_iff {p : Pattern} {pieces : List Text} (inhabited : pieces ≠ [])
    (segments : p.segments = pieces.map (Segment.ofPiece p.sep)) (base : Option Text)
    (name : Text) :
    ∃ accepted, p.accepts base name = .ok accepted ∧
      (accepted = true ↔ Admits p.sep pieces base name) := by
  rw [accepts, Regex.read_expression inhabited segments, Except.map]
  refine ⟨_, rfl, ?_⟩
  cases base with
  | none => exact Regex.search_open p.sep pieces name
  | some base => exact Regex.search_based p.sep pieces base name

end Pattern

end PathGlob
