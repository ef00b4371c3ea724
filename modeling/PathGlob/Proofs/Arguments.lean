import PathGlob.Path
import PathGlob.Proofs.Resolved

namespace PathGlob
open Location

namespace Paths

theorem workingDirectory_anchored (host : Text) (s : Char) (cwd : Value) :
    Anchored s (workingDirectory host [s] cwd) := by
  unfold workingDirectory
  split
  · exact checked_anchored (.ok (hostDirectory [s] host))
  · exact checked_anchored _

section
variable (host path : Text) (base : Option Text) (s : Char) (cwd : Value)

theorem expand_text :
    expand host (.text path) (base.elim .null .text) (.text [s]) cwd =
      Location.expand [s] path base (workingDirectory host [s] cwd) := by
  rcases base with _ | _ | ⟨c, rest⟩ <;> rfl

theorem normalize_text :
    normalize host (.text path) (base.elim .null .text) (.text [s]) cwd =
      Location.normalize [s] path base (workingDirectory host [s] cwd) := by
  rcases base with _ | _ | ⟨c, rest⟩ <;> rfl

theorem within_text (destination : Value) :
    within host (.text path) (base.elim .null .text) (.text [s]) destination cwd =
      Location.within [s] path base (destination.optionalText .destination)
        (workingDirectory host [s] cwd) := by
  rcases base with _ | _ | ⟨c, rest⟩ <;> rfl

theorem relative_text (destination : Value) :
    relative host (.text path) (base.elim .null .text) (.text [s]) destination cwd =
      Location.relative [s] path base (destination.optionalText .destination)
        (workingDirectory host [s] cwd) := by
  rcases base with _ | _ | ⟨c, rest⟩ <;> rfl

end

theorem mapM_texts (texts : List Text) :
    (texts.map Value.text).mapM (Value.asText .path) = .ok texts := by
  induction texts with
  | nil => rfl
  | cons text rest ih =>
    rw [List.map_cons, List.mapM_cons, ih]
    rfl

theorem join_texts {sep : Value} {s : Text} (usable : sep.asSeparator = some s) (path : Text)
    (texts : List Text) :
    join (.text path) (texts.map .text) sep = .ok (Location.join s path texts) := by
  simp only [join, usable, mapM_texts]
  rfl

theorem workingDirectory_given {s : Char} {directory : Text}
    (absolute : Location.isAbsolute [s] directory = true) (host : Text) :
    workingDirectory host [s] (.text directory) = .ok directory := by
  simp [workingDirectory, Value.asText, Except.bind, checkDirectory, absolute]

theorem normalize_found {s : Char} {directory path : Text} {base : Option Text}
    {location : Location} (absolute : Location.isAbsolute [s] directory = true)
    (found : resolve [s] path base (.ok directory) = .ok location) (host : Text) :
    normalize host (.text path) (base.elim .null .text) (.text [s]) (.text directory) =
      .ok (location.text [s]) := by
  rw [normalize_text, workingDirectory_given absolute, Location.normalize, found]
  rfl

theorem normalize_absolute {s : Char} {full : Text}
    (absolute : Location.isAbsolute [s] full = true) (host : Text) (cwd : Value) :
    normalize host (.text full) .null (.text [s]) cwd = .ok ((ofText [s] full).text [s]) := by
  refine (normalize_text host full none s cwd).trans ?_
  simp [Location.normalize, resolve_of_isAbsolute absolute, Except.map]

end Paths

namespace Path

theorem baseValue_eq (p : Path) : p.baseValue = p.base.elim .null .text := by
  unfold baseValue
  cases p.base <;> rfl

/-- The base of a path as it was given, and as the path keeps it. -/
inductive Bare (s : Char) : Option Text → Option Text → Prop where
  | same (base : Option Text) : Bare s base base
  | empty : Bare s (some []) none
  | trimmed {front : Text} (filled : front ≠ []) : Bare s (some (front ++ [s])) (some front)

theorem create_text (path : Text) (base : Option Text) (s : Char) (cwd : Value) :
    ∃ bare, create (.text path) (base.elim .null .text) (.text [s]) cwd =
      .ok ⟨path, bare, .text [s], cwd⟩ ∧ Bare s base bare := by
  rcases base with _ | _ | ⟨c, rest⟩
  · exact ⟨none, rfl, .same none⟩
  · exact ⟨none, rfl, .empty⟩
  · have made : create (.text path) (.text (c :: rest)) (.text [s]) cwd =
        .ok ⟨path, some (if c :: rest = [s] then c :: rest
          else Text.dropEnding [s] (c :: rest)), .text [s], cwd⟩ := rfl
    refine ⟨_, made, ?_⟩
    split
    · exact .same _
    · rename_i longer
      unfold Text.dropEnding
      split
      · rename_i ending
        obtain ⟨front, whole⟩ := Text.ends_iff.mp ending
        rw [whole, List.dropLast_concat]
        refine .trimmed fun none => longer ?_
        rw [whole, none, List.nil_append]
      · exact .same _

end Path

end PathGlob
