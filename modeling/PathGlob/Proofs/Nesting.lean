import PathGlob.Proofs.Arguments
import Mathlib.Data.List.DropRight

namespace PathGlob

namespace Text

theorem trimLeft_cons (set : Text) (c : Char) (text : Text) :
    trimLeft set (c :: text) = if c ∈ set then trimLeft set text else c :: text := by
  simp [trimLeft, List.dropWhile_cons]

theorem trimLeft_append (set text more : Text) :
    trimLeft set (text ++ more) =
      if trimLeft set text = [] then trimLeft set more else trimLeft set text ++ more := by
  simp [trimLeft, List.dropWhile_append]

theorem trimRight_eq (set text : Text) :
    trimRight set text = (trimLeft set text.reverse).reverse := rfl

theorem trimRight_append (set text more : Text) :
    trimRight set (text ++ more) =
      if trimRight set more = [] then trimRight set text else text ++ trimRight set more := by
  simp only [trimRight_eq, List.reverse_append, trimLeft_append, List.reverse_eq_nil_iff]
  split
  · rfl
  · rw [List.reverse_append, List.reverse_reverse]

theorem trimLeft_trimLeft (set text : Text) :
    trimLeft set (trimLeft set text) = trimLeft set text :=
  List.dropWhile_idempotent _ text

theorem trimRight_trimRight (set text : Text) :
    trimRight set (trimRight set text) = trimRight set text :=
  List.rdropWhile_idempotent _ text

theorem trimLeft_self (set : Text) : trimLeft set set = [] := by
  simp [trimLeft, List.dropWhile_eq_nil_iff]

theorem trimRight_self (set : Text) : trimRight set set = [] := by
  simp [trimRight, List.dropWhile_eq_nil_iff]

theorem trimLeft_trimRight (set text : Text) :
    trimLeft set (trimRight set text) = trimRight set (trimLeft set text) := by
  induction text with
  | nil => rfl
  | cons c rest ih =>
    have cut := trimRight_append set [c] rest
    rw [List.singleton_append] at cut
    by_cases inside : c ∈ set
    · have vanished : trimRight set [c] = [] := by simp [trimRight_eq, inside, trimLeft]
      rw [trimLeft_cons, if_pos inside, ← ih, cut, vanished]
      split
      · rename_i none
        rw [none]
      · rw [List.singleton_append, trimLeft_cons, if_pos inside]
    · have kept : trimRight set [c] = [c] := by simp [trimRight_eq, trimLeft_cons, inside]
      rw [trimLeft_cons set c rest, if_neg inside, cut, kept]
      split
      · rw [trimLeft_cons, if_neg inside]
      · rw [List.singleton_append, trimLeft_cons, if_neg inside]

end Text

namespace Location

theorem joinPiece_assoc (sep first middle last : Text) :
    joinPiece sep (joinPiece sep first middle) last =
      joinPiece sep first (joinPiece sep middle last) := by
  have left : Text.trimRight sep (joinPiece sep first middle) =
      if Text.trimLeft sep (Text.trimRight sep middle) = [] then Text.trimRight sep first
      else Text.trimRight sep first ++ sep ++ Text.trimLeft sep (Text.trimRight sep middle) := by
    rw [joinPiece, Text.trimRight_append, Text.trimRight_append, if_pos (Text.trimRight_self sep),
      Text.trimRight_trimRight, Text.trimLeft_trimRight]
  have right : Text.trimLeft sep (joinPiece sep middle last) =
      if Text.trimLeft sep (Text.trimRight sep middle) = [] then Text.trimLeft sep last
      else Text.trimLeft sep (Text.trimRight sep middle) ++ sep ++ Text.trimLeft sep last := by
    rw [joinPiece, List.append_assoc, Text.trimLeft_append, Text.trimLeft_append,
      if_pos (Text.trimLeft_self sep), Text.trimLeft_trimLeft, List.append_assoc]
  rw [joinPiece.eq_def sep (joinPiece sep first middle), left,
    joinPiece.eq_def sep first (joinPiece sep middle last), right]
  split
  · rfl
  · simp only [List.append_assoc]

instance (sep : Text) : Std.Associative (joinPiece sep) := ⟨joinPiece_assoc sep⟩

theorem joinPiece_join (sep path first : Text) (others : List Text) :
    joinPiece sep path (join sep first others) = join sep path (first :: others) := by
  rw [join, join, List.foldl_cons, List.foldl_assoc]

end Location

/-- Pieces in brackets: a piece alone, or a first one and others joined to it. -/
inductive Nesting where
  | piece (text : Text)
  | joined (first : Nesting) (others : List Nesting)

namespace Nesting

mutual

def pieces : Nesting → List Text
  | piece text => [text]
  | joined first others => first.pieces ++ allPieces others

def allPieces : List Nesting → List Text
  | [] => []
  | nesting :: rest => nesting.pieces ++ allPieces rest

end

mutual

def value (sep : Value) : Nesting → Except Fault Text
  | piece text => .ok text
  | joined first others => do
      let path ← first.value sep
      let texts ← values sep others
      Paths.join (.text path) (texts.map .text) sep

def values (sep : Value) : List Nesting → Except Fault (List Text)
  | [] => .ok []
  | nesting :: rest => do
      let text ← nesting.value sep
      let texts ← values sep rest
      return text :: texts

end

variable {sep : Value} {s : Text}

mutual

theorem value_flat (usable : sep.asSeparator = some s) : ∀ nesting : Nesting,
    ∃ first others, nesting.pieces = first :: others ∧
      nesting.value sep = .ok (Location.join s first others)
  | piece text => ⟨text, [], rfl, rfl⟩
  | joined first others => by
    obtain ⟨start, more, flat, inner⟩ := value_flat usable first
    obtain ⟨texts, outer, same⟩ := values_flat usable others
    refine ⟨start, more ++ allPieces others, by rw [pieces, flat, List.cons_append], ?_⟩
    rw [Location.join_append, ← same, ← Paths.join_texts usable, value, inner, outer]
    rfl

theorem values_flat (usable : sep.asSeparator = some s) : ∀ nestings : List Nesting,
    ∃ texts, values sep nestings = .ok texts ∧
      ∀ path, Location.join s path texts = Location.join s path (allPieces nestings)
  | [] => ⟨[], rfl, fun _ => rfl⟩
  | nesting :: rest => by
    obtain ⟨start, more, flat, inner⟩ := value_flat usable nesting
    obtain ⟨texts, outer, same⟩ := values_flat usable rest
    refine ⟨Location.join s start more :: texts, by rw [values, inner, outer]; rfl, fun path => ?_⟩
    calc Location.join s path (Location.join s start more :: texts)
        = Location.join s (Location.joinPiece s path (Location.join s start more)) texts := rfl
      _ = Location.join s (Location.join s path (start :: more)) texts := by
          rw [Location.joinPiece_join]
      _ = Location.join s (Location.join s path (start :: more)) (allPieces rest) := same _
      _ = Location.join s path (allPieces (nesting :: rest)) := by
          rw [← Location.join_append, allPieces, flat]

end

end Nesting

namespace Paths

theorem separator_usable (sep : Text) : ∃ s, (Value.text sep).asSeparator = some s := by
  cases sep with
  | nil => exact ⟨['/'], rfl⟩
  | cons c rest => exact ⟨c :: rest, rfl⟩

/-- Joining is associative, whatever the separator: pieces that are joined in any brackets come to
what they come to when they are joined one after another. -/
theorem join_however_nested (sep : Text) :
    (∀ first middle last : Text, ∃ left right whole,
      join (.text first) [.text middle] (.text sep) = .ok left ∧
      join (.text middle) [.text last] (.text sep) = .ok right ∧
      join (.text left) [.text last] (.text sep) = .ok whole ∧
      join (.text first) [.text right] (.text sep) = .ok whole ∧
      join (.text first) [.text middle, .text last] (.text sep) = .ok whole) ∧
    ∀ nesting : Nesting, ∃ first others whole, nesting.pieces = first :: others ∧
      nesting.value (.text sep) = .ok whole ∧
      join (.text first) (others.map .text) (.text sep) = .ok whole := by
  obtain ⟨s, usable⟩ := separator_usable sep
  have called := join_texts usable
  constructor
  · intro first middle last
    refine ⟨_, _, _, called first [middle], called middle [last], called _ [last], ?_,
      called first [middle, last]⟩
    exact (called first [_]).trans (congrArg Except.ok (Location.joinPiece_assoc s _ _ _).symm)
  · intro nesting
    obtain ⟨first, others, flat, inner⟩ := Nesting.value_flat usable nesting
    exact ⟨first, others, _, flat, inner, called first others⟩

end Paths

end PathGlob
