import PathGlob.Proofs.Built

/-!
What a volume in memory is built from. Each path wants a directory at every place above its own,
and at its own place a directory or a file; a root is a directory whatever is wanted of it. Paths
are added as long as no place is wanted as both, and the volume holds what they want and nothing
else.
-/
namespace PathGlob
variable {s : Char} {cwd : Text}
open Location

namespace Location

def reached (sep cwd path : Text) : Location :=
  ofText sep (if isAbsolute sep path then path else below sep cwd path)

theorem resolve_here (sep cwd path : Text) :
    resolve sep path none (.ok cwd) = .ok (reached sep cwd path) := by
  unfold resolve expand reached
  split <;> rfl

theorem reached_resolved (absolute : isAbsolute [s] cwd = true) (path : Text) :
    Resolved s (reached [s] cwd path) :=
  resolve_resolved (anchored_here absolute) (resolve_here [s] cwd path)

end Location

def Value.Leads (s : Char) (here : Directory) (value : Value) (place : Location) : Prop :=
  ∃ path, value.asText .path = .ok path ∧ resolve [s] path none here = .ok place

theorem Value.Leads.unique {here : Directory} {value : Value} {place other : Location}
    (leads : value.Leads s here place) (again : value.Leads s here other) : place = other := by
  obtain ⟨path, given, found⟩ := leads
  obtain ⟨_, same, found'⟩ := again
  obtain rfl := Except.ok.inj (given.symm.trans same)
  exact Except.ok.inj (found.symm.trans found')

theorem Value.Leads.resolved {here : Directory} {value : Value} {place : Location}
    (leads : value.Leads s here place) (anchored : Anchored s here) : Resolved s place := by
  obtain ⟨_, _, found⟩ := leads
  exact resolve_resolved anchored found

structure Entry where
  place : Location
  asDirectory : Bool

def Entry.ofPath (s : Char) (cwd : Text) (asDirectory : Bool) (path : Text) : Entry :=
  ⟨reached [s] cwd path, asDirectory⟩

/-- What must be at a place for an entry that is there or further down. -/
def Entry.Wants (entry : Entry) (place : Location) (directory : Bool) : Prop :=
  ∃ names, entry.place = place.down names ∧
    directory = (entry.asDirectory || !names.isEmpty || place.names.isEmpty)

theorem Entry.wants_iff {entry : Entry} {place : Location} {directory : Bool} :
    entry.Wants place directory ↔ (place = ⟨entry.place.drive, []⟩ ∧ directory = true) ∨
      Nodes.Passes entry.asDirectory ⟨entry.place.drive, []⟩ entry.place.names place directory := by
  obtain ⟨⟨drive, names⟩, asDirectory⟩ := entry
  obtain ⟨other, front⟩ := place
  constructor
  · intro wants
    obtain ⟨back, same, rfl⟩ := wants
    obtain ⟨rfl, rfl⟩ := Location.mk.inj same
    by_cases root : front = []
    · exact Or.inl ⟨by simp [root], by simp [root]⟩
    · exact Or.inr ⟨front, back, rfl, root, by simp [down], by simp [root]⟩
  · intro h
    rcases h with ⟨same, rfl⟩ | ⟨front, back, split, inhabited, same, rfl⟩
    · obtain ⟨rfl, rfl⟩ := Location.mk.inj same
      exact ⟨names, by simp [down], by simp⟩
    · obtain ⟨rfl, rfl⟩ := Location.mk.inj same
      exact ⟨back, by simpa [down] using split, by simp [inhabited]⟩

theorem Entry.Wants.resolved {entry : Entry} {place : Location} {directory : Bool}
    (wants : entry.Wants place directory) (resolved : Resolved s entry.place) :
    Resolved s place := by
  obtain ⟨names, below, _⟩ := wants
  rw [below] at resolved
  exact resolved.above

/-- Some place is wanted as a directory and as a file. -/
def Clashing (entries : List Entry) : Prop :=
  ∃ place, (∃ entry ∈ entries, entry.Wants place true) ∧ ∃ entry ∈ entries, entry.Wants place false

theorem Clashing.mono {entries more : List Entry} (clashing : Clashing entries)
    (among : entries ⊆ more) : Clashing more := by
  obtain ⟨place, ⟨first, here, wants⟩, second, there, opposes⟩ := clashing
  exact ⟨place, ⟨first, among here, wants⟩, second, among there, opposes⟩

theorem clashing_of_opposite {entries : List Entry} {first second : Entry} {place : Location}
    {directory : Bool} (here : first ∈ entries) (there : second ∈ entries)
    (wants : first.Wants place directory) (opposes : second.Wants place !directory) :
    Clashing entries := by
  cases directory with
  | true => exact ⟨place, ⟨first, here, wants⟩, second, there, opposes⟩
  | false => exact ⟨place, ⟨second, there, opposes⟩, first, here, wants⟩

namespace Memory
variable {memory : Memory} {entries : List Entry}

structure Holds (s : Char) (cwd : Text) (entries : List Entry) (memory : Memory) : Prop where
  sound : Sound s memory
  here : memory.here = .ok cwd
  resolved : ∀ entry ∈ entries, Resolved s entry.place
  kinds : ∀ place directory, Resolved s place → (memory.nodes.kind s place = some directory ↔
    ∃ entry ∈ entries, entry.Wants place directory)

theorem Holds.calm (holds : Holds s cwd entries memory) : ¬ Clashing entries := by
  intro clashing
  obtain ⟨place, ⟨first, member, wants⟩, opposed⟩ := clashing
  have inside := wants.resolved (holds.resolved first member)
  have directory := (holds.kinds place true inside).mpr ⟨first, member, wants⟩
  have file := (holds.kinds place false inside).mpr opposed
  rw [directory] at file
  cases file

theorem add_cases {value : Value} {place : Location} (sound : Sound s memory)
    (leads : value.Leads s memory.here place) (asDirectory : Bool) :
    (∃ nodes, add asDirectory memory value = .ok { memory with nodes := nodes } ∧
      Sound s { memory with nodes := nodes } ∧
      ∀ other directory, Resolved s other → (nodes.kind s other = some directory ↔
        memory.nodes.kind s other = some directory ∨
          Entry.Wants ⟨place, asDirectory⟩ other directory)) ∨
    (∃ fault, fault.IsClash ∧ add asDirectory memory value = .error fault) ∧
      ∃ other directory, Entry.Wants ⟨place, asDirectory⟩ other directory ∧
        memory.nodes.kind s other = some !directory := by
  obtain ⟨path, given, found⟩ := leads
  have resolved := resolve_resolved sound.anchored found
  have rooted : Resolved s ⟨place.drive, []⟩ := ⟨resolved.drive, resolved.driveFree, by simp⟩
  have step : add asDirectory memory value =
      (Nodes.place [s] asDirectory (memory.nodes.planted s place.drive)
        ((Location.mk place.drive []).text [s]) place.names).map
          fun nodes => { memory with nodes := nodes } := by
    simp only [add, given, sound.sep, found, root_text, Nodes.planted, bind, Except.bind]
    split <;> simp_all [Except.map, pure, Except.pure]
  have planted : ∀ other directory, Resolved s other →
      ((memory.nodes.planted s place.drive).kind s other = some directory ↔
        memory.nodes.kind s other = some directory ∨
          (other = ⟨place.drive, []⟩ ∧ directory = true)) :=
    fun _ _ inside => sound.tree.kind_planted rooted inside
  obtain ⟨nodes, placed, tree, kinds⟩ | ⟨⟨fault, clash, failed⟩, other, directory, passes, taken⟩ :=
    Nodes.place_cases (sound.tree.planted rooted) rooted resolved.names
      (fun _ => (planted _ true rooted).mpr (Or.inr ⟨rfl, rfl⟩)) asDirectory
  · refine Or.inl ⟨nodes, by rw [step, placed]; rfl, ⟨sound.sep, tree⟩, ?_⟩
    intro other directory inside
    rw [kinds other directory inside, planted other directory inside, or_assoc, Entry.wants_iff]
  · have wants : Entry.Wants ⟨place, asDirectory⟩ other directory :=
      Entry.wants_iff.mpr (Or.inr passes)
    refine Or.inr ⟨⟨fault, clash, by rw [step, failed]; rfl⟩, other, directory, wants, ?_⟩
    rcases (planted other _ (wants.resolved resolved)).mp taken with old | ⟨root, _⟩
    · exact old
    · obtain ⟨front, _, _, inhabited, same, _⟩ := passes
      exact absurd (congrArg Location.names (same.symm.trans root)) (by simp [inhabited])

theorem Holds.leads (holds : Holds s cwd entries memory) (path : Text) :
    (Value.text path).Leads s memory.here (reached [s] cwd path) :=
  ⟨path, rfl, by rw [holds.here, resolve_here]⟩

theorem Holds.add (holds : Holds s cwd entries memory) (absolute : isAbsolute [s] cwd = true)
    (asDirectory : Bool) (path : Text) :
    (∃ after, Memory.add asDirectory memory (.text path) = .ok after ∧
      Holds s cwd (entries ++ [Entry.ofPath s cwd asDirectory path]) after) ∨
    (∃ fault, fault.IsClash ∧ Memory.add asDirectory memory (.text path) = .error fault) ∧
      Clashing (entries ++ [Entry.ofPath s cwd asDirectory path]) := by
  have resolved := reached_resolved absolute path
  obtain ⟨nodes, added, sound, kinds⟩ | ⟨failed, other, directory, wants, taken⟩ :=
    add_cases holds.sound (holds.leads path) asDirectory
  · refine Or.inl ⟨_, added, sound, holds.here, ?_, fun other directory inside => ?_⟩
    · intro entry member
      rcases List.mem_append.mp member with old | new
      · exact holds.resolved entry old
      · obtain rfl := List.mem_singleton.mp new
        exact resolved
    · rw [kinds other directory inside, holds.kinds other directory inside]
      simp [Entry.ofPath, or_and_right, exists_or]
  · refine Or.inr ⟨failed, ?_⟩
    obtain ⟨entry, member, opposes⟩ :=
      (holds.kinds other _ (wants.resolved resolved)).mp taken
    exact clashing_of_opposite (List.mem_append_right _ (List.mem_singleton_self _))
      (List.mem_append_left _ member) wants opposes

theorem Holds.addAll (holds : Holds s cwd entries memory) (absolute : isAbsolute [s] cwd = true)
    (asDirectory : Bool) (paths : List Text) :
    (∃ after, (paths.map Value.text).foldlM (Memory.add asDirectory) memory = .ok after ∧
      Holds s cwd (entries ++ paths.map (Entry.ofPath s cwd asDirectory)) after) ∨
    (∃ fault, fault.IsClash ∧
      (paths.map Value.text).foldlM (Memory.add asDirectory) memory = .error fault) ∧
      Clashing (entries ++ paths.map (Entry.ofPath s cwd asDirectory)) := by
  induction paths generalizing memory entries with
  | nil => exact Or.inl ⟨memory, rfl, by simpa using holds⟩
  | cons path rest ih =>
    rw [List.map_cons, List.map_cons, List.foldlM_cons, List.append_cons]
    obtain ⟨next, added, again⟩ | ⟨⟨fault, clash, failed⟩, clashing⟩ :=
      holds.add absolute asDirectory path
    · rw [added]
      exact ih again
    · rw [failed]
      exact Or.inr ⟨⟨fault, clash, rfl⟩, clashing.mono (List.subset_append_left _ _)⟩

theorem Holds.key (holds : Holds s cwd entries memory) (path : Text) :
    memory.key path = .ok ((reached [s] cwd path).text [s]) := by
  simp [Memory.key, Location.normalize, holds.sound.sep, holds.here, resolve_here, Except.map]

theorem denyAll_leads {denied : List Value} (sep : memory.sep = [s])
    (leads : ∀ value ∈ denied, ∃ place, value.Leads s memory.here place) :
    ∃ keys, denied.foldlM deny memory = .ok { memory with denied := keys } := by
  induction denied generalizing memory with
  | nil => exact ⟨memory.denied, rfl⟩
  | cons value rest ih =>
    obtain ⟨⟨place, path, given, found⟩, later⟩ := List.forall_mem_cons.mp leads
    have once : deny memory value =
        .ok { memory with denied := memory.denied ++ [place.text [s]] } := by
      simp [deny, given, key, Location.normalize, sep, found, Except.map, bind, Except.bind, pure,
        Except.pure]
    rw [List.foldlM_cons, once]
    exact ih sep later

theorem Holds.denyAll (holds : Holds s cwd entries memory) (denied : List Text) :
    ∃ after, (denied.map Value.text).foldlM deny memory = .ok after ∧
      Holds s cwd entries after := by
  obtain ⟨keys, done⟩ := denyAll_leads holds.sound.sep
    (List.forall_mem_map.mpr fun path _ => ⟨_, holds.leads path⟩)
  exact ⟨_, done, ⟨holds.sound.sep, holds.sound.tree⟩, holds.here, holds.resolved, holds.kinds⟩

theorem blank_holds (absolute : isAbsolute [s] cwd = true) :
    ∃ drive memory, Location.root [s] (.ok cwd) = .ok ((Location.mk drive []).text [s]) ∧
      blank [s] (.text cwd) = .ok memory ∧ Holds s cwd [⟨⟨drive, []⟩, true⟩] memory := by
  have here : ∀ nodes, Memory.here ⟨[s], .text cwd, nodes, []⟩ = .ok cwd := by
    simp [Memory.here, Value.asText, checkDirectory, absolute, Except.bind]
  obtain ⟨top, found⟩ : ∃ top, Location.root [s] (.ok cwd) = .ok top := by
    unfold Location.root
    split
    · exact ⟨_, rfl⟩
    · exact ⟨_, rfl⟩
  obtain ⟨drive, rooted, rfl⟩ := root_resolved (anchored_here absolute) found
  have made : blank [s] (.text cwd) =
      .ok ⟨[s], .text cwd, Nodes.planted s [] drive, []⟩ := by
    simp [blank, here, found, Nodes.planted, Nodes.get, bind, Except.bind, pure, Except.pure]
  refine ⟨drive, _, found, made, blank_sound made, here _, by simpa using rooted, ?_⟩
  intro place directory inside
  rw [(Nodes.empty_tree s).kind_planted rooted inside]
  simp [Entry.wants_iff, Nodes.passes_nil, Nodes.kind, Nodes.get]

theorem Holds.has (holds : Holds s cwd entries memory) (path : Text) :
    memory.has path = .ok (memory.nodes.kind s (reached [s] cwd path)).isSome := by
  simp [Memory.has, find, holds.key, Except.map, Nodes.kind]

theorem Holds.hasDirectory (holds : Holds s cwd entries memory) (path : Text) :
    memory.hasDirectory path =
      .ok (memory.nodes.kind s (reached [s] cwd path) == some true) := by
  simp only [Memory.hasDirectory, find, holds.key, Except.map, Nodes.kind]
  cases memory.nodes.get ((reached [s] cwd path).text [s]) <;> simp

def wanted (s : Char) (cwd drive : Text) (directories files : List Text) : List Entry :=
  ⟨⟨drive, []⟩, true⟩ :: directories.map (Entry.ofPath s cwd true) ++
    files.map (Entry.ofPath s cwd false)

/-- A volume is created and holds what is wanted, or some of that clashes. -/
theorem create_holds (absolute : isAbsolute [s] cwd = true) (directories files denied : List Text) :
    ∃ drive, Location.root [s] (.ok cwd) = .ok ((Location.mk drive []).text [s]) ∧
      ((∃ memory, create (.text [s]) (.text cwd) (directories.map .text) (files.map .text)
          (denied.map .text) = .ok memory ∧
        Holds s cwd (wanted s cwd drive directories files) memory) ∨
      (∃ fault, fault.IsClash ∧ create (.text [s]) (.text cwd) (directories.map .text)
          (files.map .text) (denied.map .text) = .error fault) ∧
        Clashing (wanted s cwd drive directories files)) := by
  have opened : create (.text [s]) (.text cwd) (directories.map .text) (files.map .text)
      (denied.map .text) = build [s] (.text cwd) (directories.map .text) (files.map .text)
      (denied.map .text) := rfl
  obtain ⟨drive, first, found, blanked, holds⟩ := blank_holds absolute
  rw [opened, build, blanked]
  refine ⟨drive, found, ?_⟩
  obtain ⟨second, entered, holds⟩ | ⟨⟨fault, clash, failed⟩, clashing⟩ :=
    holds.addAll absolute true directories
  · obtain ⟨third, filed, holds⟩ | ⟨⟨fault, clash, failed⟩, clashing⟩ :=
      holds.addAll absolute false files
    · obtain ⟨last, denying, holds⟩ := holds.denyAll denied
      exact Or.inl ⟨last, by simp [entered, filed, denying, bind, Except.bind], holds⟩
    · exact Or.inr ⟨⟨fault, clash, by simp [entered, failed, bind, Except.bind]⟩, clashing⟩
  · exact Or.inr ⟨⟨fault, clash, by simp [failed, bind, Except.bind]⟩,
      clashing.mono (List.subset_append_left _ _)⟩

end Memory

end PathGlob
