import PathGlob.Proofs.Arguments
import PathGlob.Proofs.Behind

namespace PathGlob.Location
variable {s : Char}

theorem ofText_concat (path : Text) : ofText [s] (path ++ [s]) = ofText [s] path :=
  (ofText_append path []).trans (behind_nil _)

theorem ofText_below (directory path : Text) :
    ofText [s] (below [s] directory path) = ofText [s] (directory ++ s :: path) := by
  unfold below Text.dropEnding
  split
  · rename_i ending
    obtain ⟨front, rfl⟩ := Text.ends_iff.mp ending
    obtain ⟨first, rest, pieces⟩ := List.exists_cons_of_ne_nil (Text.splitOn_ne_nil [s] front)
    simp [ofText, Text.split_append, Text.splitOn_char_cons, pieces, visit]
  · simp

theorem ofText_below_concat (directory path : Text) :
    ofText [s] (below [s] (directory ++ [s]) path) = ofText [s] (below [s] directory path) := by
  have closed : below [s] (directory ++ [s]) path = directory ++ s :: path := by
    have ending : [s].isSuffixOf (directory ++ [s]) = true := Text.ends_iff.mpr ⟨directory, rfl⟩
    simp [below, Text.dropEnding, ending]
  rw [closed, ofText_below]

theorem isAbsolute_append {path : Text} (filled : path ≠ []) (more : Text) :
    isAbsolute [s] (path ++ s :: more) = isAbsolute [s] path := by
  have short : path.isEmpty = false := by simpa using filled
  have long : (path ++ s :: more).isEmpty = false := by simp
  rw [isAbsolute, isAbsolute, Text.first_append, short, long]

theorem below_append (directory path more : Text) :
    below [s] directory (path ++ more) = below [s] directory path ++ more := by
  simp [below]

theorem anchor_concat {base : Text} (filled : base ≠ []) (here : Directory) :
    anchor [s] (some (base ++ [s])) here = (anchor [s] (some base) here).map (· ++ [s]) := by
  obtain ⟨c, rest, rfl⟩ := List.exists_cons_of_ne_nil filled
  have same := isAbsolute_append (s := s) filled []
  rw [List.cons_append] at same
  simp only [anchor, List.cons_append, same]
  split
  · rfl
  · cases here with
    | error fault => rfl
    | ok directory => exact congrArg Except.ok (below_append directory (c :: rest) [s])

theorem expand_filled {base : Text} (filled : base ≠ []) (here : Directory) :
    expand [s] base none here = anchor [s] (some base) here := by
  obtain ⟨c, rest, rfl⟩ := List.exists_cons_of_ne_nil filled
  rfl

theorem resolve_bare {base bare : Option Text} (trim : Path.Bare s base bare) (path : Text)
    (here : Directory) : resolve [s] path bare here = resolve [s] path base here := by
  cases trim with
  | same => rfl
  | empty => rfl
  | trimmed filled =>
    unfold resolve expand
    rw [anchor_concat filled]
    split
    · rfl
    · cases anchor [s] (some _) here with
      | error fault => rfl
      | ok directory => exact congrArg Except.ok (ofText_below_concat directory path).symm

theorem reference_bare {base bare : Option Text} (trim : Path.Bare s base bare)
    (destination : Except Fault (Option Text)) (here : Directory) :
    reference [s] bare destination here = reference [s] base destination here := by
  rcases destination with fault | _ | place
  · rfl
  · cases trim with
    | same => rfl
    | empty => rfl
    | @trimmed front filled =>
      have longer : front ++ [s] ≠ [] := by simp
      have read : ∀ text : Text, text ≠ [] →
          reference [s] (some text) (.ok none) here = resolve [s] text none here := by
        intro text filled
        obtain ⟨c, rest, rfl⟩ := List.exists_cons_of_ne_nil filled
        rfl
      rw [read _ filled, read _ longer, resolve, resolve, expand_filled filled,
        expand_filled longer, anchor_concat filled]
      cases anchor [s] (some front) here with
      | error fault => rfl
      | ok directory => exact congrArg Except.ok (ofText_concat directory).symm
  · rfl

end PathGlob.Location
