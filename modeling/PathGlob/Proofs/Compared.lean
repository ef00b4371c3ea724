import PathGlob.Proofs.Route
import PathGlob.Proofs.Arguments

namespace PathGlob
variable {s : Char}
open Location

namespace Paths

/-- The directory that a path is compared with: the first of the destination, the base and the
working directory that is given and not empty. -/
def standpoint (destination base : Option Text) (directory : Text) : Text :=
  ((destination.filter (· ≠ [])).or (base.filter (· ≠ []))).getD directory

theorem reference_standpoint {directory : Text}
    (absolute : Location.isAbsolute [s] directory = true) (base destination : Option Text) :
    reference [s] base ((destination.elim .null .text : Value).optionalText .destination)
        (.ok directory) =
      resolve [s] (standpoint destination base directory) none (.ok directory) := by
  have here := resolve_of_isAbsolute absolute none (.ok directory)
  rcases destination with _ | _ | ⟨c, rest⟩
  · rcases base with _ | _ | ⟨c, rest⟩
    · exact here.symm
    · exact here.symm
    · rfl
  · rcases base with _ | _ | ⟨c, rest⟩
    · exact here.symm
    · exact here.symm
    · rfl
  · rfl

theorem compared_places {directory : Text} (absolute : Location.isAbsolute [s] directory = true)
    (host path : Text) (base destination : Option Text) :
    ∃ target place, Resolved s target ∧ Resolved s place ∧
      normalize host (.text path) (base.elim .null .text) (.text [s]) (.text directory) =
        .ok (target.text [s]) ∧
      normalize host (.text (standpoint destination base directory)) .null (.text [s])
        (.text directory) = .ok (place.text [s]) ∧
      relative host (.text path) (base.elim .null .text) (.text [s])
        (destination.elim .null .text) (.text directory) = .ok (describe [s] target place) ∧
      within host (.text path) (base.elim .null .text) (.text [s])
        (destination.elim .null .text) (.text directory) =
          .ok (contains [s] (place.text [s]) (target.text [s])) := by
  have given := workingDirectory_given absolute host
  obtain ⟨target, found⟩ := resolve_total s directory path base
  obtain ⟨place, referred⟩ :=
    resolve_total s directory (standpoint destination base directory) none
  have same := (reference_standpoint absolute base destination).trans referred
  have goal := resolve_resolved (anchored_here absolute) found
  have resolved := resolve_resolved (anchored_here absolute) referred
  refine ⟨target, place, goal, resolved, normalize_found absolute found host,
    normalize_found absolute referred host, ?_, ?_⟩
  · rw [relative_text, given, Location.relative, found, same]
    rfl
  · rw [within_text, given, Location.within, found, same]
    rfl

end Paths

namespace Location

theorem exists_down_iff {target place : Location} :
    (∃ names, target = place.down names) ↔
      target.drive = place.drive ∧ place.names <+: target.names := by
  constructor
  · intro h
    obtain ⟨names, rfl⟩ := h
    exact ⟨rfl, List.prefix_append _ _⟩
  · intro h
    obtain ⟨same, names, further⟩ := h
    exact ⟨names, by rw [down, further, ← same]⟩

theorem parent_mem_route_iff {target reference : List Text}
    (plain : ∀ name ∈ target, IsName s name) :
    parent ∈ route target reference ↔ ¬ reference <+: target := by
  have named : ∀ rest, rest <:+ target → parent ∉ rest := fun rest suffix member =>
    (plain parent (suffix.mem member)).notParent rfl
  by_cases above : reference <+: target
  · obtain ⟨rest, rfl⟩ := above
    rw [route_down]
    exact iff_of_false (named rest (List.suffix_append _ _)) fun h => h (List.prefix_append _ _)
  · obtain ⟨common, up, rest, rfl, rfl, way⟩ := route_split target reference
    have climbed : up ≠ [] := by
      rintro rfl
      simp at above
    rw [way, iff_true_right above]
    exact List.mem_append_left _ (List.mem_replicate.mpr ⟨by simpa using climbed, rfl⟩)

end Location

namespace Paths

/-- A path lies within a directory exactly if the two are on the same drive and the names of the
directory begin those of the path, and exactly if the way from the directory never goes up. -/
theorem within_iff_never_up (dot : s ≠ '.') {directory : Text}
    (absolute : Location.isAbsolute [s] directory = true) (host path : Text)
    (base destination : Option Text) :
    ∃ target place contained way, Resolved s target ∧ Resolved s place ∧
      normalize host (.text path) (base.elim .null .text) (.text [s]) (.text directory) =
        .ok (target.text [s]) ∧
      normalize host (.text (standpoint destination base directory)) .null (.text [s])
        (.text directory) = .ok (place.text [s]) ∧
      within host (.text path) (base.elim .null .text) (.text [s])
        (destination.elim .null .text) (.text directory) = .ok contained ∧
      relative host (.text path) (base.elim .null .text) (.text [s])
        (destination.elim .null .text) (.text directory) = .ok way ∧
      (contained = true ↔ target.drive = place.drive ∧ place.names <+: target.names) ∧
      (contained = true ↔ target.drive = place.drive ∧ parent ∉ Text.splitOn [s] way) := by
  obtain ⟨target, place, goal, resolved, found, referred, told, asked⟩ :=
    compared_places absolute host path base destination
  have inside := (contains_iff resolved goal).trans exists_down_iff
  refine ⟨target, place, _, _, goal, resolved, found, referred, asked, told, inside, ?_⟩
  rw [inside]
  refine and_congr_right fun same => ?_
  have pieces : parent ∈ Text.splitOn [s] (describe [s] target place) ↔
      parent ∈ route target.names place.names := by
    rw [describe_split dot goal same]
    split
    · rename_i none
      simp [none, parent, current]
    · rfl
  rw [pieces, parent_mem_route_iff goal.names, not_not]

theorem within_iff_never_up_sibling :
    within [] (.text "/ab".toList) .null (.text ['/']) (.text "/a".toList) (.text "/w".toList) =
        .ok false ∧
      ∃ way, relative [] (.text "/ab".toList) .null (.text ['/']) (.text "/a".toList)
        (.text "/w".toList) = .ok way ∧ parent ∈ Text.splitOn ['/'] way := by
  have absolute : Location.isAbsolute ['/'] "/w".toList = true := rfl
  obtain ⟨target, place, contained, way, goal, resolved, found, referred, asked, told, _, inside⟩ :=
    within_iff_never_up (by decide) absolute [] "/ab".toList none (some "/a".toList)
  have outside : within [] (.text "/ab".toList) .null (.text ['/']) (.text "/a".toList)
      (.text "/w".toList) = .ok false := rfl
  have aim : target.text ['/'] = "/ab".toList := Except.ok.inj (found.symm.trans rfl)
  have stand : place.text ['/'] = "/a".toList := Except.ok.inj (referred.symm.trans rfl)
  obtain rfl : contained = false := Except.ok.inj (asked.symm.trans outside)
  refine ⟨outside, way, told, ?_⟩
  by_contra flat
  refine Bool.false_ne_true (inside.mpr ⟨?_, flat⟩)
  rw [← ofText_text goal, ← ofText_text resolved, aim, stand]
  rfl

end Paths

end PathGlob
