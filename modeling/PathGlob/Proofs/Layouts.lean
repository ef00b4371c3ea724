import PathGlob.Proofs.Wanted

/-!
What a volume in memory is created from, and what is found in it. A layout says of every place
whether a directory is there, or a file, or nothing, as a tree can have it. Adding a path leaves
the layouts that have it as it was asked for, so that a volume is created exactly if there is one
for all of its paths, and then has them itself. Only for a file that leads to a root nothing is
asked: it is accepted, and the root stays a directory.
-/
namespace PathGlob
variable {s : Char}
open Location

/-- What a tree of directories and files has at each place. A root is no file, and above anything
there is a directory. -/
structure Layout (s : Char) where
  kind : Location → Option Bool
  root : ∀ drive, kind ⟨drive, []⟩ ≠ some false
  above : ∀ place name, Resolved s (place.down [name]) → (kind (place.down [name])).isSome →
    kind place = some true

namespace Layout
variable {layout : Layout s}

structure Has (layout : Layout s) (here : Directory) (directories files : List Value) : Prop where
  directories : ∀ value ∈ directories, ∀ place, value.Leads s here place →
    layout.kind place = some true
  files : ∀ value ∈ files, ∀ place, value.Leads s here place → place.names ≠ [] →
    layout.kind place = some false

def Meets (layout : Layout s) (entry : Entry) : Prop :=
  layout.kind entry.place = some (entry.asDirectory || entry.place.names.isEmpty)

def MeetsAll (layout : Layout s) (here : Directory) (asDirectory : Bool) (values : List Value) :
    Prop :=
  ∀ value ∈ values, ∀ place, value.Leads s here place → layout.Meets ⟨place, asDirectory⟩

/-- What is in a volume is in the layout. -/
def Extends (layout : Layout s) (memory : Memory) : Prop :=
  ∀ place directory, Resolved s place → memory.nodes.kind s place = some directory →
    layout.kind place = some directory

theorem above_names {place : Location} {names : List Text} (resolved : Resolved s (place.down names))
    (inhabited : names ≠ []) (there : (layout.kind (place.down names)).isSome) :
    layout.kind place = some true := by
  induction names using List.reverseRecOn with
  | nil => exact absurd rfl inhabited
  | append_singleton front last ih =>
    rw [← down_down] at resolved there
    have directory := layout.above _ last resolved there
    by_cases done : front = []
    · simpa [done] using directory
    · exact ih resolved.above done (by simp [directory])

theorem meets_iff {entry : Entry} (resolved : Resolved s entry.place) :
    layout.Meets entry ↔
      ∀ place directory, entry.Wants place directory → layout.kind place = some directory := by
  constructor
  · intro meets place directory wants
    obtain ⟨names, below, rfl⟩ := wants
    rw [Meets, below] at meets
    rw [below] at resolved
    by_cases here : names = []
    · simpa [here] using meets
    · have there : (layout.kind (place.down names)).isSome := by
        rw [meets]
        rfl
      have deeper : names.isEmpty = false := by simpa using here
      simpa [deeper] using above_names resolved here there
  · intro wanted
    exact wanted entry.place (entry.asDirectory || entry.place.names.isEmpty)
      ⟨[], by simp, by simp⟩

def rooted (layout : Layout s) : Layout s where
  kind place := if place.names = [] then some true else layout.kind place
  root := by simp
  above := by
    intro place name resolved there
    split
    · rfl
    · exact layout.above place name resolved (by simpa using there)

theorem Has.rooted {here : Directory} {directories files : List Value}
    (has : layout.Has here directories files) :
    layout.rooted.MeetsAll here true directories ∧ layout.rooted.MeetsAll here false files := by
  constructor
  · intro value member place leads
    by_cases root : place.names = []
    · simp [Meets, Layout.rooted, root]
    · simpa [Meets, Layout.rooted, root] using has.directories value member place leads
  · intro value member place leads
    by_cases root : place.names = []
    · simp [Meets, Layout.rooted, root]
    · have inner : place.names.isEmpty = false := by simpa using root
      simpa [Meets, Layout.rooted, root, inner] using has.files value member place leads root

theorem MeetsAll.has {here : Directory} {directories files : List Value}
    (first : layout.MeetsAll here true directories) (second : layout.MeetsAll here false files) :
    layout.Has here directories files where
  directories value member place leads := by simpa [Meets] using first value member place leads
  files value member place leads root := by
    have inner : place.names.isEmpty = false := by simpa using root
    simpa [Meets, inner] using second value member place leads

end Layout

namespace Memory
variable {memory : Memory}

def layout (sound : Sound s memory) : Layout s where
  kind := memory.nodes.kind s
  root := by
    intro drive file
    obtain ⟨node, held, same⟩ := Option.map_eq_some_iff.mp file
    obtain ⟨names, rfl⟩ := sound.tree.roots drive node held
    cases same
  above := by
    intro place name resolved there
    obtain ⟨names, top, _⟩ := sound.tree.entered place name resolved (by simpa [Nodes.kind] using there)
    exact Nodes.kind_directory.mpr ⟨names, top⟩

theorem extends_layout (sound : Sound s memory) : (layout sound).Extends memory :=
  fun _ _ _ there => there

/-- One more path leaves the layouts that meet it, and clashes where there are none. -/
theorem add_leaves {value : Value} {place : Location} (sound : Sound s memory)
    (leads : value.Leads s memory.here place) (asDirectory : Bool) :
    (∃ after, add asDirectory memory value = .ok after ∧ Sound s after ∧
      after.here = memory.here ∧ ∀ layout : Layout s,
        layout.Extends after ↔ layout.Extends memory ∧ layout.Meets ⟨place, asDirectory⟩) ∨
    (∃ fault, fault.IsClash ∧ add asDirectory memory value = .error fault) ∧
      ∀ layout : Layout s, ¬ (layout.Extends memory ∧ layout.Meets ⟨place, asDirectory⟩) := by
  have resolved : Resolved s (Entry.mk place asDirectory).place := leads.resolved sound.anchored
  obtain ⟨nodes, added, whole, kinds⟩ | ⟨failed, other, directory, wants, taken⟩ :=
    add_cases sound leads asDirectory
  · refine Or.inl ⟨_, added, whole, rfl, fun layout => ?_⟩
    rw [Layout.meets_iff resolved]
    constructor
    · intro more
      refine ⟨fun other directory inside there => ?_, fun other directory wants => ?_⟩
      · exact more other directory inside ((kinds other directory inside).mpr (Or.inl there))
      · have inside := wants.resolved resolved
        exact more other directory inside ((kinds other directory inside).mpr (Or.inr wants))
    · intro h other directory inside there
      rcases (kinds other directory inside).mp there with old | wants
      · exact h.1 other directory inside old
      · exact h.2 other directory wants
  · refine Or.inr ⟨failed, fun layout h => ?_⟩
    have here := (Layout.meets_iff resolved).mp h.2 other directory wants
    rw [h.1 other _ (wants.resolved resolved) taken] at here
    simp at here

theorem addAll_leaves {values : List Value} (sound : Sound s memory)
    (leads : ∀ value ∈ values, ∃ place, value.Leads s memory.here place) (asDirectory : Bool) :
    (∃ after, values.foldlM (add asDirectory) memory = .ok after ∧ Sound s after ∧
      after.here = memory.here ∧ ∀ layout : Layout s, layout.Extends after ↔
        layout.Extends memory ∧ layout.MeetsAll memory.here asDirectory values) ∨
    (∃ fault, fault.IsClash ∧ values.foldlM (add asDirectory) memory = .error fault) ∧
      ∀ layout : Layout s, ¬ (layout.Extends memory ∧
        layout.MeetsAll memory.here asDirectory values) := by
  induction values generalizing memory with
  | nil => exact Or.inl ⟨memory, rfl, sound, rfl, by simp [Layout.MeetsAll]⟩
  | cons value rest ih =>
    obtain ⟨⟨place, here⟩, later⟩ := List.forall_mem_cons.mp leads
    have split : ∀ layout : Layout s, layout.MeetsAll memory.here asDirectory (value :: rest) ↔
        layout.Meets ⟨place, asDirectory⟩ ∧ layout.MeetsAll memory.here asDirectory rest := by
      intro layout
      refine List.forall_mem_cons.trans (and_congr_left fun _ => ⟨fun h => h place here, ?_⟩)
      intro meets other same
      rwa [same.unique here]
    rw [List.foldlM_cons]
    obtain ⟨next, added, whole, same, left⟩ | ⟨⟨fault, clash, failed⟩, none⟩ :=
      add_leaves sound here asDirectory
    · rw [added]
      rw [← same] at later
      have more := ih whole later
      rw [same] at more
      simp only [split, ← and_assoc, ← left] at more ⊢
      exact more
    · rw [failed]
      refine Or.inr ⟨⟨fault, clash, rfl⟩, fun layout h => none layout ⟨h.1, ?_⟩⟩
      exact ((split layout).mp h.2).1

theorem create_built (s : Char) (cwd : Value) :
    ∃ given, ∀ directories files denied, create (.text [s]) cwd directories files denied =
      build [s] given directories files denied := by
  cases cwd with
  | null => exact ⟨_, fun _ _ _ => rfl⟩
  | _ => exact ⟨_, fun _ _ _ => rfl⟩

theorem create_leaves {cwd : Value} {directories files denied : List Value} {empty : Memory}
    (opened : create (.text [s]) cwd [] [] [] = .ok empty)
    (leads : ∀ value ∈ directories ++ files ++ denied, ∃ place, value.Leads s empty.here place) :
    (∃ memory, create (.text [s]) cwd directories files denied = .ok memory ∧ Sound s memory ∧
      memory.here = empty.here ∧ ∀ layout : Layout s, layout.Extends memory ↔
        (layout.Extends empty ∧ layout.MeetsAll empty.here true directories) ∧
          layout.MeetsAll empty.here false files) ∨
    (∃ fault, fault.IsClash ∧ create (.text [s]) cwd directories files denied = .error fault) ∧
      ∀ layout : Layout s, ¬ ((layout.Extends empty ∧
        layout.MeetsAll empty.here true directories) ∧ layout.MeetsAll empty.here false files) := by
  obtain ⟨given, built⟩ := create_built s cwd
  rw [built] at opened ⊢
  have sound := build_sound opened
  obtain ⟨first, blanked, same⟩ := bind_ok_iff.mp opened
  obtain rfl : first = empty := Except.ok.inj same
  simp only [List.forall_mem_append] at leads
  rw [build, blanked]
  obtain ⟨second, entered, sound, here, left⟩ | ⟨⟨fault, clash, failed⟩, none⟩ :=
    addAll_leaves sound leads.1.1 true
  · rw [← here] at leads
    obtain ⟨third, filed, sound, here', left'⟩ | ⟨⟨fault, clash, failed⟩, none⟩ :=
      addAll_leaves sound leads.1.2 false
    · rw [← here'] at leads
      obtain ⟨keys, denying⟩ := denyAll_leads sound.sep leads.2
      refine Or.inl ⟨{ third with denied := keys },
        by simp [entered, filed, denying, bind, Except.bind], ⟨sound.sep, sound.tree⟩,
        here'.trans here, fun layout => ?_⟩
      rw [← left, ← here]
      exact left' layout
    · refine Or.inr ⟨⟨fault, clash, by simp [entered, failed, bind, Except.bind]⟩, fun layout => ?_⟩
      rw [← left, ← here]
      exact none layout
  · exact Or.inr ⟨⟨fault, clash, by simp [failed, bind, Except.bind]⟩,
      fun layout h => none layout h.1⟩

theorem addAll_led {values : List Value} {asDirectory : Bool} {after : Memory}
    (sound : Sound s memory) (added : values.foldlM (add asDirectory) memory = .ok after) :
    Sound s after ∧ after.here = memory.here ∧
      ∀ value ∈ values, ∃ place, value.Leads s memory.here place := by
  induction values generalizing memory with
  | nil =>
    obtain rfl := Except.ok.inj added
    exact ⟨sound, rfl, by simp⟩
  | cons value rest ih =>
    rw [List.foldlM_cons, bind_ok_iff] at added
    obtain ⟨next, first, more⟩ := added
    have whole := add_sound sound first
    obtain ⟨path, place, nodes, given, found, _, rfl⟩ := add_ok first
    obtain ⟨last, here, leads⟩ := ih whole more
    rw [sound.sep] at found
    exact ⟨last, here, List.forall_mem_cons.mpr ⟨⟨place, path, given, found⟩, leads⟩⟩

theorem denyAll_led {denied : List Value} {after : Memory} (sep : memory.sep = [s])
    (done : denied.foldlM deny memory = .ok after) :
    ∀ value ∈ denied, ∃ place, value.Leads s memory.here place := by
  induction denied generalizing memory with
  | nil => simp
  | cons value rest ih =>
    rw [List.foldlM_cons, bind_ok_iff] at done
    obtain ⟨next, first, more⟩ := done
    obtain ⟨path, key, given, keyed, rfl⟩ := deny_ok first
    obtain ⟨place, found, _⟩ := map_ok_iff.mp keyed
    rw [sep] at found
    exact List.forall_mem_cons.mpr ⟨⟨place, path, given, found⟩,
      @ih { memory with denied := memory.denied ++ [key] } sep more⟩

theorem create_led {cwd : Value} {directories files denied : List Value}
    (made : create (.text [s]) cwd directories files denied = .ok memory) :
    ∃ empty, create (.text [s]) cwd [] [] [] = .ok empty ∧
      ∀ value ∈ directories ++ files ++ denied, ∃ place, value.Leads s empty.here place := by
  obtain ⟨given, built⟩ := create_built s cwd
  rw [built] at made ⊢
  obtain ⟨first, blanked, made⟩ := bind_ok_iff.mp made
  obtain ⟨second, entered, made⟩ := bind_ok_iff.mp made
  obtain ⟨third, filed, denying⟩ := bind_ok_iff.mp made
  obtain ⟨sound, here, inside⟩ := addAll_led (blank_sound blanked) entered
  obtain ⟨sound, here', alongside⟩ := addAll_led sound filed
  have refused := denyAll_led sound.sep denying
  rw [here', here] at refused
  rw [here] at alongside
  refine ⟨first, by simp [build, blanked, bind, Except.bind, pure, Except.pure], ?_⟩
  simp only [List.forall_mem_append]
  exact ⟨⟨inside, alongside⟩, refused⟩

theorem Sound.found {value : Value} {place : Location} {asDirectory : Bool} (sound : Sound s memory)
    (leads : value.Leads s memory.here place)
    (meets : (layout sound).Meets ⟨place, asDirectory⟩) :
    ∃ path, value.asText .path = .ok path ∧ resolve [s] path none memory.here = .ok place ∧
      memory.has path = .ok true ∧
      memory.hasDirectory path = .ok (asDirectory || place.names.isEmpty) := by
  obtain ⟨path, given, found⟩ := leads
  obtain ⟨node, held, kind⟩ := Option.map_eq_some_iff.mp meets
  have look : memory.find path = .ok (some node) := by
    rw [find, key, Location.normalize, sound.sep, found]
    simpa [Except.map] using held
  refine ⟨path, given, found, by simp [has, look, Except.map], ?_⟩
  simpa [hasDirectory, look, Except.map] using kind

theorem opened_rooted {cwd : Value} (opened : create (.text [s]) cwd [] [] [] = .ok memory)
    (layout : Layout s) : layout.rooted.Extends memory := by
  obtain ⟨given, built⟩ := create_built s cwd
  rw [built] at opened
  obtain ⟨first, blanked, same⟩ := bind_ok_iff.mp opened
  obtain rfl : first = memory := Except.ok.inj same
  obtain ⟨top, found, made⟩ := bind_ok_iff.mp blanked
  obtain rfl := Except.ok.inj made
  obtain ⟨drive, resolved, rfl⟩ := root_resolved (checked_anchored _) found
  intro place directory inside there
  rw [Nodes.kind, Nodes.get_cons] at there
  split at there
  · rename_i same
    obtain rfl := text_injective inside resolved same
    obtain rfl : true = directory := Option.some.inj there
    simp [Layout.rooted]
  · cases there

theorem found_of_create {cwd : Value} {directories files denied : List Value}
    (made : create (.text [s]) cwd directories files denied = .ok memory) :
    (∀ value ∈ directories, ∃ path, value.asText .path = .ok path ∧
      memory.hasDirectory path = .ok true) ∧
    ∀ value ∈ files, ∃ path place, value.asText .path = .ok path ∧
      resolve [s] path none memory.here = .ok place ∧ memory.has path = .ok true ∧
      memory.hasDirectory path = .ok place.names.isEmpty := by
  obtain ⟨empty, opened, leads⟩ := create_led made
  obtain ⟨same, again, sound, here, left⟩ | ⟨⟨_, _, failed⟩, _⟩ := create_leaves opened leads
  · obtain rfl := Except.ok.inj (again.symm.trans made)
    obtain ⟨⟨_, entered⟩, filed⟩ := (left _).mp (extends_layout sound)
    simp only [List.forall_mem_append, ← here] at leads entered filed
    obtain ⟨⟨inside, alongside⟩, _⟩ := leads
    constructor
    · intro value member
      obtain ⟨place, there⟩ := inside value member
      obtain ⟨path, given, _, _, directory⟩ := sound.found there (entered value member place there)
      exact ⟨path, given, directory⟩
    · intro value member
      obtain ⟨place, there⟩ := alongside value member
      obtain ⟨path, found⟩ := sound.found there (filed value member place there)
      exact ⟨path, place, found⟩
  · rw [made] at failed
    cases failed

theorem create_iff_layout {cwd : Value} {directories files denied : List Value} {empty : Memory}
    (opened : create (.text [s]) cwd [] [] [] = .ok empty)
    (leads : ∀ value ∈ directories ++ files ++ denied, ∃ place, value.Leads s empty.here place) :
    ((∃ memory, create (.text [s]) cwd directories files denied = .ok memory) ↔
      ∃ layout : Layout s, layout.Has empty.here directories files) ∧
    ((∃ fault, fault.IsClash ∧ create (.text [s]) cwd directories files denied = .error fault) ↔
      ¬ ∃ layout : Layout s, layout.Has empty.here directories files) := by
  obtain ⟨memory, made, sound, here, left⟩ | ⟨⟨fault, clash, failed⟩, none⟩ :=
    create_leaves opened leads
  · have held : ∃ layout : Layout s, layout.Has empty.here directories files := by
      obtain ⟨⟨_, first⟩, second⟩ := (left _).mp (extends_layout sound)
      exact ⟨_, first.has second⟩
    rw [made]
    simp [held]
  · have lacking : ¬ ∃ layout : Layout s, layout.Has empty.here directories files := by
      intro h
      obtain ⟨layout, has⟩ := h
      exact none layout.rooted ⟨⟨opened_rooted opened layout, has.rooted.1⟩, has.rooted.2⟩
    rw [failed]
    simp [lacking, clash]

/-- What a volume is created from is found in it: each directory as one, and each file as one
unless it is a root. And where creating it can fail for nothing else, it fails exactly if no layout
has the directories, and the files that are no roots. -/
theorem create_found (cwd : Value) (directories files denied : List Value) :
    (∀ memory, create (.text [s]) cwd directories files denied = .ok memory →
      (∀ value ∈ directories, ∃ path, value.asText .path = .ok path ∧
        memory.hasDirectory path = .ok true) ∧
      ∀ value ∈ files, ∃ path place, value.asText .path = .ok path ∧
        resolve [s] path none memory.here = .ok place ∧ memory.has path = .ok true ∧
        memory.hasDirectory path = .ok place.names.isEmpty) ∧
    ∀ empty, create (.text [s]) cwd [] [] [] = .ok empty →
      (∀ value ∈ directories ++ files ++ denied, ∃ place, value.Leads s empty.here place) →
      ((∃ memory, create (.text [s]) cwd directories files denied = .ok memory) ↔
        ∃ layout : Layout s, layout.Has empty.here directories files) ∧
      ((∃ fault, fault.IsClash ∧ create (.text [s]) cwd directories files denied = .error fault) ↔
        ¬ ∃ layout : Layout s, layout.Has empty.here directories files) :=
  ⟨fun _ made => found_of_create made, fun _ opened leads => create_iff_layout opened leads⟩

theorem create_found_below :
    (∃ memory, create (.text ['/']) .null [.text ['a']] [.text ['a', '/', 'b']] [] = .ok memory ∧
      memory.hasDirectory ['a'] = .ok true) ∧
    ∃ fault, fault.IsClash ∧
      create (.text ['/']) .null [.text ['a', '/', 'b']] [.text ['a']] [] = .error fault := by
  have plain : ∀ name ∈ [['a'], ['b']], IsName '/' name := by
    intro name member
    rcases List.mem_pair.mp member with rfl | rfl
    · decide
    · decide
  constructor
  · have made : ∃ memory, create (.text ['/']) .null [.text ['a']] [.text ['a', '/', 'b']] [] =
        .ok memory := ⟨_, rfl⟩
    obtain ⟨memory, made⟩ := made
    obtain ⟨directories, _⟩ := (create_found .null _ _ _).1 memory made
    obtain ⟨path, given, directory⟩ := directories _ (List.mem_singleton_self _)
    obtain rfl : ['a'] = path := Except.ok.inj given
    exact ⟨memory, made, directory⟩
  · have leads : ∀ value ∈ [Value.text ['a', '/', 'b']] ++ [.text ['a']] ++ [], ∃ place,
        value.Leads '/' (.ok ['/']) place := by
      intro value member
      rcases List.mem_pair.mp member with rfl | rfl
      · exact ⟨_, _, rfl, rfl⟩
      · exact ⟨_, _, rfl, rfl⟩
    refine (((create_found .null _ _ _).2 _ rfl leads).2).mpr fun h => ?_
    obtain ⟨layout, directories, files⟩ := h
    have file := files _ (List.mem_singleton_self _) ⟨[], [['a']]⟩ ⟨_, rfl, rfl⟩ (by simp)
    have inner := directories _ (List.mem_singleton_self _) ((Location.mk [] [['a']]).down [['b']])
      ⟨_, rfl, rfl⟩
    have above := layout.above ⟨[], [['a']]⟩ ['b'] ⟨rfl, by simp, plain⟩ (by rw [inner]; rfl)
    rw [file] at above
    cases above

/-- A root is accepted as a file and is a directory all the same. -/
theorem root_filed_directory :
    ∃ memory, create (.text ['/']) .null [] [.text ['/']] [] = .ok memory ∧
      memory.hasDirectory ['/'] = .ok true :=
  ⟨_, rfl, rfl⟩

end Memory

end PathGlob
