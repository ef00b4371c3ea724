import PathGlob.Proofs.Listing
import PathGlob.Proofs.Wanted

namespace PathGlob
variable {s : Char} {cwd : Text}
open Location

namespace Memory
variable {memory : Memory}

def Named (s : Char) (cwd : Text) (paths : List Text) (place : Location) : Prop :=
  ∃ path ∈ paths, resolve [s] path none (.ok cwd) = .ok place

/-- Some file that is no root is to be a directory, or to have something below it. -/
def Conflicting (s : Char) (cwd : Text) (directories files : List Text) : Prop :=
  ∃ file, Named s cwd files file ∧ file.names ≠ [] ∧
    ((∃ names, Named s cwd directories (file.down names)) ∨
      ∃ names, names ≠ [] ∧ Named s cwd files (file.down names))

section Wanted
variable (drive : Text) {directories files paths : List Text} {place : Location}

theorem named_iff : Named s cwd paths place ↔ ∃ path ∈ paths, reached [s] cwd path = place := by
  simp [Named, resolve_here]

theorem paths_want_iff {asDirectory directory : Bool} :
    (∃ entry ∈ paths.map (Entry.ofPath s cwd asDirectory), entry.Wants place directory) ↔
      ∃ names, Named s cwd paths (place.down names) ∧
        directory = (asDirectory || !names.isEmpty || place.names.isEmpty) := by
  constructor
  · intro h
    obtain ⟨_, member, names, leads, same⟩ := h
    obtain ⟨path, given, rfl⟩ := List.mem_map.mp member
    exact ⟨names, named_iff.mpr ⟨path, given, leads⟩, same⟩
  · intro h
    obtain ⟨names, named, same⟩ := h
    obtain ⟨path, given, leads⟩ := named_iff.mp named
    exact ⟨_, List.mem_map_of_mem given, names, leads, same⟩

theorem wanted_iff {directory : Bool} :
    (∃ entry ∈ wanted s cwd drive directories files, entry.Wants place directory) ↔
      (place = ⟨drive, []⟩ ∧ directory = true) ∨
      (∃ names, Named s cwd directories (place.down names) ∧ directory = true) ∨
      ∃ names, Named s cwd files (place.down names) ∧
        directory = (!names.isEmpty || place.names.isEmpty) := by
  have root : Entry.Wants ⟨⟨drive, []⟩, true⟩ place directory ↔
      place = ⟨drive, []⟩ ∧ directory = true := by
    simp [Entry.wants_iff, Nodes.passes_nil]
  have split : (∃ entry ∈ wanted s cwd drive directories files, entry.Wants place directory) ↔
      Entry.Wants ⟨⟨drive, []⟩, true⟩ place directory ∨
        (∃ entry ∈ directories.map (Entry.ofPath s cwd true), entry.Wants place directory) ∨
        ∃ entry ∈ files.map (Entry.ofPath s cwd false), entry.Wants place directory := by
    simp only [wanted, List.cons_append, List.mem_cons, List.mem_append, or_and_right, exists_or,
      exists_eq_left]
  rw [split, root, paths_want_iff, paths_want_iff]
  simp only [Bool.true_or, Bool.false_or]

theorem wanted_any_iff :
    (∃ directory, ∃ entry ∈ wanted s cwd drive directories files, entry.Wants place directory) ↔
      place = ⟨drive, []⟩ ∨ ∃ names, Named s cwd directories (place.down names) ∨
        Named s cwd files (place.down names) := by
  simp only [wanted_iff, exists_or]
  refine or_congr (by simp) (or_congr (by simp) ?_)
  rw [exists_comm]
  simp

theorem wanted_file_iff :
    (∃ entry ∈ wanted s cwd drive directories files, entry.Wants place false) ↔
      place.names ≠ [] ∧ Named s cwd files place := by
  rw [wanted_iff]
  constructor
  · intro h
    obtain ⟨_, same⟩ | ⟨_, _, same⟩ | ⟨names, named, same⟩ := h
    · cases same
    · cases same
    · obtain ⟨rfl, inner⟩ : names = [] ∧ place.names ≠ [] := by simpa using same.symm
      exact ⟨inner, by simpa using named⟩
  · intro h
    obtain ⟨inner, named⟩ := h
    exact Or.inr (Or.inr ⟨[], by simpa using named, by simp [inner]⟩)

theorem wanted_directory_iff (inner : place.names ≠ []) :
    (∃ entry ∈ wanted s cwd drive directories files, entry.Wants place true) ↔
      (∃ names, Named s cwd directories (place.down names)) ∨
        ∃ names, names ≠ [] ∧ Named s cwd files (place.down names) := by
  have below : place ≠ ⟨drive, []⟩ := fun same => inner (by rw [same])
  rw [wanted_iff]
  simp [below, inner, and_comm]

theorem clashing_iff : Clashing (wanted s cwd drive directories files) ↔
    Conflicting s cwd directories files := by
  constructor
  · intro clashing
    obtain ⟨file, directory, wants⟩ := clashing
    obtain ⟨inner, named⟩ := (wanted_file_iff drive).mp wants
    exact ⟨file, named, inner, (wanted_directory_iff drive inner).mp directory⟩
  · intro conflicting
    obtain ⟨file, named, inner, below⟩ := conflicting
    exact ⟨file, (wanted_directory_iff drive inner).mpr below,
      (wanted_file_iff drive).mpr ⟨inner, named⟩⟩

end Wanted

/-- Creating a volume fails exactly on conflicts. What is there afterwards is the root and what
lies on the way to a path that was given, and all of that is a directory but for the files. -/
theorem create_iff_conflicting (absolute : isAbsolute [s] cwd = true)
    (directories files denied : List Text) :
    ((∃ fault, fault.IsClash ∧ create (.text [s]) (.text cwd) (directories.map .text)
        (files.map .text) (denied.map .text) = .error fault) ↔
      Conflicting s cwd directories files) ∧
    ((∃ memory, create (.text [s]) (.text cwd) (directories.map .text) (files.map .text)
        (denied.map .text) = .ok memory) ↔ ¬ Conflicting s cwd directories files) ∧
    ∀ memory, create (.text [s]) (.text cwd) (directories.map .text) (files.map .text)
        (denied.map .text) = .ok memory →
      ∀ path, ∃ place there directory, resolve [s] path none (.ok cwd) = .ok place ∧
        memory.has path = .ok there ∧ memory.hasDirectory path = .ok directory ∧
        (there = true ↔ Location.root [s] (.ok cwd) = .ok (place.text [s]) ∨
          ∃ names, Named s cwd directories (place.down names) ∨
            Named s cwd files (place.down names)) ∧
        (directory = true ↔ there = true ∧ ¬ (place.names ≠ [] ∧ Named s cwd files place)) := by
  obtain ⟨drive, root, ⟨memory, made, holds⟩ | ⟨⟨fault, clash, failed⟩, clashing⟩⟩ :=
    create_holds absolute directories files denied
  · have calm : ¬ Conflicting s cwd directories files := by
      rw [← clashing_iff drive]
      exact holds.calm
    rw [made]
    refine ⟨by simp [calm], by simp [calm], ?_⟩
    intro other same path
    obtain rfl := Except.ok.inj same
    have rooted : Resolved s ⟨drive, []⟩ := holds.resolved ⟨⟨drive, []⟩, true⟩ (by simp [wanted])
    have inside := reached_resolved absolute path
    have kinds := fun directory => holds.kinds _ directory inside
    refine ⟨_, _, _, resolve_here [s] cwd path, holds.has path, holds.hasDirectory path, ?_, ?_⟩
    · have top : Location.root [s] (.ok cwd) = .ok ((reached [s] cwd path).text [s]) ↔
          reached [s] cwd path = ⟨drive, []⟩ := by
        rw [root, Except.ok.injEq]
        exact ⟨fun same => (text_injective rooted inside same).symm, fun same => by rw [same]⟩
      rw [top, ← wanted_any_iff drive]
      simp only [← kinds, Option.isSome_iff_exists]
    · rw [← wanted_file_iff drive, ← kinds]
      generalize memory.nodes.kind s (reached [s] cwd path) = kind
      cases kind with
      | none => simp
      | some directory => simp
  · have conflicting := (clashing_iff drive).mp clashing
    rw [failed]
    refine ⟨?_, by simp [conflicting], by simp⟩
    exact ⟨fun _ => conflicting, fun _ => ⟨fault, clash, rfl⟩⟩

/-- A path that leads through a file, even if that is added later. -/
theorem create_iff_conflicting_through_file :
    ∃ fault, fault.IsClash ∧ create (.text ['/']) (.text ['/']) [.text ['a', '/', 'b']]
      [.text ['c', '/', '.', '.', '/', 'a']] [] = .error fault := by
  have conflicting : Conflicting '/' ['/'] [['a', '/', 'b']] [['c', '/', '.', '.', '/', 'a']] :=
    ⟨⟨[], [['a']]⟩, ⟨_, List.mem_singleton_self _, rfl⟩, by simp,
      Or.inl ⟨[['b']], _, List.mem_singleton_self _, rfl⟩⟩
  exact (create_iff_conflicting (by decide) _ _ []).1.mpr conflicting

theorem create_calm (absolute : isAbsolute [s] cwd = true) {directories files : List Text}
    (calm : ¬ Conflicting s cwd directories files) :
    ∃ memory, create (.text [s]) (.text cwd) (directories.map .text) (files.map .text) [] =
        .ok memory ∧ memory.sep = [s] ∧ memory.denied = [] ∧
      ∀ place names, Resolved s place → Named s cwd directories (place.down names) ∨
        Named s cwd files (place.down names) → (memory.nodes.get (place.text [s])).isSome := by
  obtain ⟨drive, _, ⟨memory, made, holds⟩ | ⟨_, clashing⟩⟩ :=
    create_holds absolute directories files []
  · refine ⟨memory, made, holds.sound.sep, ?_, fun place names resolved named => ?_⟩
    · apply List.eq_nil_iff_forall_not_mem.mpr
      intro key
      simp [create_denied made key]
    · obtain ⟨directory, wants⟩ := (wanted_any_iff drive).mpr (Or.inr ⟨names, named⟩)
      obtain ⟨node, held, _⟩ :=
        Option.map_eq_some_iff.mp ((holds.kinds place directory resolved).mpr wants)
      simp [held]
  · exact absurd ((clashing_iff drive).mp clashing) calm

theorem named_text {place : Location} (resolved : Resolved s place) {paths : List Text}
    (given : place.text [s] ∈ paths) : Named s cwd paths place :=
  ⟨_, given, resolve_text resolved _ _⟩

theorem create_file {names : List Text} (plain : ∀ name ∈ names, IsName s name) :
    ∃ memory, create (.text [s]) (.text [s]) [] [.text ((Location.mk [] names).text [s])] [] =
        .ok memory ∧ memory.sep = [s] ∧ memory.denied = [] ∧
      (memory.nodes.get ((Location.mk [] names).text [s])).isSome := by
  have file : Resolved s ⟨[], names⟩ := ⟨rfl, by simp, plain⟩
  have only : ∀ place, Named s [s] [(Location.mk [] names).text [s]] place →
      place = ⟨[], names⟩ := by
    intro place named
    simpa [Named, resolve_text file, eq_comm] using named
  have calm : ¬ Conflicting s [s] [] [(Location.mk [] names).text [s]] := by
    intro conflicting
    obtain ⟨place, named, _, ⟨_, _, absent, _⟩ | ⟨below, inhabited, other⟩⟩ := conflicting
    · cases absent
    · have same := congrArg Location.names ((only _ other).trans (only _ named).symm)
      exact inhabited (by simpa using same)
  obtain ⟨memory, made, sep, allowed, there⟩ := create_calm (root_here s) calm
  refine ⟨memory, made, sep, allowed, there _ [] file (Or.inr ?_)⟩
  exact named_text (by simpa using file) (by simp)

end Memory

end PathGlob
