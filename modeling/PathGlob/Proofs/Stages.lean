import PathGlob.Proofs.Route
import PathGlob.Proofs.Trimmed

namespace PathGlob
variable {s : Char}
open Location

namespace Location

/-- A path is resolved from the place that its directory leads to. The pieces of the directory are
visited first, so nothing but that place is left of them when those of the path come. -/
theorem normalize_anchored {top : Text} {base : Option Text} {here : Directory}
    (drive : isDrive (Text.first [s] top) = true) (anchored : anchor [s] base here = .ok top)
    (path : Text) (elsewhere : Directory) :
    normalize [s] path (some ((ofText [s] top).text [s])) elsewhere =
      normalize [s] path base here := by
  cases absolute : isAbsolute [s] path with
  | true => simp only [normalize, resolve, expand_of_isAbsolute absolute]
  | false =>
    have expanded : expand [s] path base here = .ok (below [s] top path) := by
      simp [expand, absolute, anchored, Except.map]
    rw [normalize_behind (ofText_resolved drive) absolute, normalize, resolve, expanded,
      below_child]
    simp [Except.map, ofText_child, Location.behind]

theorem normalize_expanded {here : Directory} (anchored : Anchored s here) {path full : Text}
    {base : Option Text} (expanded : expand [s] path base here = .ok full)
    (other : Option Text) (elsewhere : Directory) :
    normalize [s] full other elsewhere = normalize [s] path base here := by
  have absolute := expand_absolute anchored expanded
  simp only [normalize, resolve, expanded, expand_of_isAbsolute absolute]

theorem normalize_stages {directory top : Text} {base : Option Text}
    (absolute : isAbsolute [s] directory = true)
    (anchored : anchor [s] base (.ok directory) = .ok top) (path : Text) :
    ∃ full answer, expand [s] path base (.ok directory) = .ok full ∧
      normalize [s] path base (.ok directory) = .ok answer ∧
      ∀ elsewhere,
        normalize [s] path (some ((ofText [s] top).text [s])) elsewhere = .ok answer ∧
        normalize [s] full none elsewhere = .ok answer := by
  have here := anchored_here absolute
  obtain ⟨full, expanded⟩ := expand_total s directory path base
  have answer : normalize [s] path base (.ok directory) = .ok ((ofText [s] full).text [s]) := by
    rw [normalize, resolve, expanded]
    rfl
  refine ⟨full, _, expanded, answer, fun elsewhere => ⟨?_, ?_⟩⟩
  · rw [normalize_anchored (anchor_anchored here base top anchored) anchored, answer]
  · rw [normalize_expanded here expanded, answer]

end Location

/-- A text that is written as a drive, or nothing in its place, and plain names behind it. -/
def Normalized (s : Char) (q : Text) : Prop :=
  ∃ (drive : Text) (names : List Text),
    (drive = [] ∨ ∃ letter : Char, letter.isAlpha = true ∧ drive = [letter, ':']) ∧ s ∉ drive ∧
    (∀ name ∈ names, name ≠ [] ∧ s ∉ name ∧ name ≠ ['.'] ∧ name ≠ ['.', '.']) ∧
    q = drive ++ s :: [s].intercalate names

theorem isDrive_iff (piece : Text) :
    isDrive piece = true ↔
      piece = [] ∨ ∃ letter : Char, letter.isAlpha = true ∧ piece = [letter, ':'] := by
  unfold isDrive
  split
  · simp
  · simp
  · rename_i filled other
    refine iff_of_false Bool.false_ne_true ?_
    intro drive
    rcases drive with none | ⟨letter, _, same⟩
    · exact filled none
    · exact other letter same

theorem normalized_iff (s : Char) (q : Text) :
    Normalized s q ↔ ∃ place, Resolved s place ∧ place.text [s] = q := by
  constructor
  · intro h
    obtain ⟨drive, names, known, free, plain, rfl⟩ := h
    exact ⟨⟨drive, names⟩, ⟨(isDrive_iff drive).mpr known, free,
      fun name member => isName_iff.mpr (plain name member)⟩, text_eq s _⟩
  · intro h
    obtain ⟨⟨drive, names⟩, resolved, rfl⟩ := h
    exact ⟨drive, names, (isDrive_iff drive).mp resolved.drive, resolved.driveFree,
      fun name member => isName_iff.mp (resolved.names name member), text_eq s _⟩

namespace Paths

theorem normalize_given {host q : Text} {path base cwd : Value}
    (found : normalize host path base (.text [s]) cwd = .ok q) :
    ∃ place, Resolved s place ∧ place.text [s] = q := by
  unfold normalize at found
  obtain ⟨path, _, found⟩ := bind_ok_iff.mp found
  obtain ⟨base, _, found⟩ := bind_ok_iff.mp found
  rw [Value.asSeparator_text (List.cons_ne_nil s [])] at found
  obtain ⟨place, resolved, same⟩ :=
    normalize_resolved (workingDirectory_anchored host s cwd) found
  exact ⟨place, resolved, same.symm⟩

theorem normalize_kept {place : Location} (resolved : Resolved s place) (host : Text)
    (base : Option Text) (cwd : Value) :
    normalize host (.text (place.text [s])) (base.elim .null .text) (.text [s]) cwd =
      .ok (place.text [s]) :=
  (normalize_text host _ base s cwd).trans (Location.normalize_text resolved base _)

/-- Normalizing gives the texts that are written so, and leaves just these as they are, whatever
base and working directory they are read with. So normalizing a result again changes nothing. -/
theorem normalized_iff_resolved (s : Char) (q : Text) :
    ((∃ (host path : Text) (base : Option Text) (directory : Text),
        Location.isAbsolute [s] directory = true ∧
        normalize host (.text path) (base.elim .null .text) (.text [s]) (.text directory) =
          .ok q) ↔ Normalized s q) ∧
    ((∀ (host : Text) (base : Option Text) (cwd : Value),
        normalize host (.text q) (base.elim .null .text) (.text [s]) cwd = .ok q) ↔
      Normalized s q) ∧
    ∀ (host : Text) (path base cwd : Value), normalize host path base (.text [s]) cwd = .ok q →
      ∀ (otherHost : Text) (otherBase : Option Text) (otherCwd : Value),
        normalize otherHost (.text q) (otherBase.elim .null .text) (.text [s]) otherCwd =
          .ok q := by
  rw [normalized_iff]
  refine ⟨⟨?_, ?_⟩, ⟨?_, ?_⟩, ?_⟩
  · intro h
    obtain ⟨host, path, base, directory, _, found⟩ := h
    exact normalize_given found
  · intro h
    obtain ⟨place, resolved, rfl⟩ := h
    exact ⟨[], _, none, [s], root_here s, normalize_kept resolved [] none _⟩
  · intro fixed
    exact normalize_given (fixed [] none (.text [s]))
  · intro h
    obtain ⟨place, resolved, rfl⟩ := h
    exact normalize_kept resolved
  · intro host path base cwd found
    obtain ⟨place, resolved, rfl⟩ := normalize_given found
    exact normalize_kept resolved

/-- A path with a drive, dots and a doubled separator, and one that is no result of normalizing. -/
theorem normalized_iff_resolved_drive :
    normalize [] (.text "../b//./c".toList) (.text "C:/a".toList) (.text ['/']) .null =
        .ok "C:/b/c".toList ∧
      Normalized '/' "C:/b/c".toList ∧
      normalize [] (.text "C:/b/c".toList) (.text "x".toList) (.text ['/']) (.text ['/']) =
        .ok "C:/b/c".toList ∧
      ¬ Normalized '/' "C:/b/".toList := by
  have found : normalize [] (.text "../b//./c".toList) (.text "C:/a".toList) (.text ['/'])
      (.text ['/']) = .ok "C:/b/c".toList := rfl
  obtain ⟨made, fixed, _⟩ := normalized_iff_resolved '/' "C:/b/c".toList
  have written := made.mp ⟨[], _, some "C:/a".toList, ['/'], rfl, found⟩
  refine ⟨rfl, written, fixed.mpr written [] (some ['x']) _, fun closed => ?_⟩
  have kept := (normalized_iff_resolved '/' "C:/b/".toList).2.1.mpr closed [] none .null
  exact absurd (Except.ok.inj kept) (by decide)

theorem normalize_from {directory top : Text} {base : Option Text}
    (absolute : Location.isAbsolute [s] directory = true)
    (anchored : anchor [s] base (.ok directory) = .ok top) (host path : Text) :
    ∃ full answer,
      expand host (.text path) (base.elim .null .text) (.text [s]) (.text directory) = .ok full ∧
      normalize host (.text path) (base.elim .null .text) (.text [s]) (.text directory) =
        .ok answer ∧
      ∀ (elsewhere : Text) (cwd : Value),
        normalize elsewhere (.text path) (.text ((ofText [s] top).text [s])) (.text [s]) cwd =
          .ok answer ∧
        normalize elsewhere (.text full) .null (.text [s]) cwd = .ok answer := by
  obtain ⟨full, answer, opened, whole, stages⟩ := normalize_stages absolute anchored path
  rw [← workingDirectory_given absolute host] at opened whole
  refine ⟨full, answer, (expand_text host path base s _).trans opened,
    (normalize_text host path base s _).trans whole, fun elsewhere cwd => ⟨?_, ?_⟩⟩
  · exact (normalize_text elsewhere path (some _) s cwd).trans (stages _).1
  · exact (normalize_text elsewhere full none s cwd).trans (stages _).2

/-- A path is normalized in one step or in two: against its base, against its base normalized, or
expanded first. Without a base the working directory stands for it. -/
theorem normalize_in_stages {directory : Text}
    (absolute : Location.isAbsolute [s] directory = true) (host path : Text) :
    (∀ base : Text, base ≠ [] → ∃ above full answer,
      normalize host (.text base) .null (.text [s]) (.text directory) = .ok above ∧
      expand host (.text path) (.text base) (.text [s]) (.text directory) = .ok full ∧
      normalize host (.text path) (.text base) (.text [s]) (.text directory) = .ok answer ∧
      ∀ (elsewhere : Text) (cwd : Value),
        normalize elsewhere (.text path) (.text above) (.text [s]) cwd = .ok answer ∧
        normalize elsewhere (.text full) .null (.text [s]) cwd = .ok answer) ∧
    ∃ above full answer,
      (∀ (elsewhere : Text) (cwd : Value),
        normalize elsewhere (.text directory) .null (.text [s]) cwd = .ok above) ∧
      expand host (.text path) .null (.text [s]) (.text directory) = .ok full ∧
      normalize host (.text path) .null (.text [s]) (.text directory) = .ok answer ∧
      ∀ (elsewhere : Text) (cwd : Value),
        normalize elsewhere (.text path) (.text above) (.text [s]) cwd = .ok answer ∧
        normalize elsewhere (.text full) .null (.text [s]) cwd = .ok answer := by
  constructor
  · intro base filled
    obtain ⟨top, expanded⟩ := expand_total s directory base none
    have anchored := (expand_filled filled (.ok directory)).symm.trans expanded
    have above : normalize host (.text base) .null (.text [s]) (.text directory) =
        .ok ((ofText [s] top).text [s]) := by
      refine (normalize_text host base none s _).trans ?_
      rw [workingDirectory_given absolute, Location.normalize, resolve, expanded]
      rfl
    obtain ⟨full, answer, opened, whole, stages⟩ := normalize_from absolute anchored host path
    exact ⟨_, full, answer, above, opened, whole, stages⟩
  · have anchored : anchor [s] none (.ok directory) = .ok directory := rfl
    obtain ⟨full, answer, opened, whole, stages⟩ := normalize_from absolute anchored host path
    exact ⟨_, full, answer, normalize_absolute absolute, opened, whole, stages⟩

theorem normalize_in_stages_clamped :
    ∃ above, normalize [] (.text "../../b/".toList) .null (.text ['/']) (.text "/w".toList) =
        .ok above ∧
      above = "/b".toList ∧
      normalize [] (.text "../../../c".toList) (.text above) (.text ['/']) .null =
        normalize [] (.text "../../../c".toList) (.text "../../b/".toList) (.text ['/'])
          (.text "/w".toList) := by
  have absolute : Location.isAbsolute ['/'] "/w".toList = true := rfl
  obtain ⟨based, _⟩ := normalize_in_stages absolute [] "../../../c".toList
  obtain ⟨above, _, answer, first, _, whole, stages⟩ := based "../../b/".toList (by decide)
  have known : normalize [] (.text "../../b/".toList) .null (.text ['/']) (.text "/w".toList) =
      .ok "/b".toList := rfl
  refine ⟨above, first, Except.ok.inj (first.symm.trans known), ?_⟩
  rw [(stages [] .null).1, whole]

end Paths

end PathGlob
