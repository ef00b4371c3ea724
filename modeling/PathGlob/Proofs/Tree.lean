import PathGlob.Volume.Memory
import PathGlob.Proofs.Fallible
import PathGlob.Proofs.Resolved
import Mathlib.Data.List.Nodup

namespace PathGlob
variable {s : Char}
open Location

namespace Nodes

/-- Listings and nodes describe the same tree. -/
structure Tree (s : Char) (nodes : Nodes) : Prop where
  resolved : ∀ key, (nodes.get key).isSome → ∃ place, Resolved s place ∧ key = place.text [s]
  roots : ∀ drive node, nodes.get ((Location.mk drive []).text [s]) = some node →
    ∃ names, node = .directory names
  entered : ∀ (place : Location) (name : Text), Resolved s (place.down [name]) →
    (nodes.get ((place.down [name]).text [s])).isSome →
    ∃ names, nodes.get (place.text [s]) = some (.directory names) ∧ name ∈ names
  listed : ∀ (place : Location) (names : List Text), Resolved s place →
    nodes.get (place.text [s]) = some (.directory names) →
    ∀ name ∈ names, IsName s name ∧ (nodes.get ((place.down [name]).text [s])).isSome
  distinct : ∀ (place : Location) (names : List Text), Resolved s place →
    nodes.get (place.text [s]) = some (.directory names) → names.Nodup

theorem get_cons (key other : Text) (node : Node) (rest : Nodes) :
    get ((key, node) :: rest) other = if other = key then some node else rest.get other := by
  unfold get
  rw [List.lookup_cons]
  by_cases same : other = key
  · simp [same]
  · have differ : (other == key) = false := beq_false_of_ne same
    simp [same, differ]

theorem get_append (nodes : Nodes) (key other : Text) (node : Node) :
    get (nodes ++ [(key, node)]) other =
      (nodes.get other).or (if other = key then some node else none) := by
  induction nodes with
  | nil => rw [List.nil_append, get_cons]; rfl
  | cons entry rest ih =>
    obtain ⟨first, held⟩ := entry
    rw [List.cons_append, get_cons, get_cons, ih]
    split <;> simp

theorem mem_of_get {nodes : Nodes} {key : Text} {node : Node}
    (held : nodes.get key = some node) : (key, node) ∈ nodes := by
  induction nodes with
  | nil => cases held
  | cons entry rest ih =>
    obtain ⟨first, here⟩ := entry
    rw [get_cons] at held
    split at held
    · rename_i same
      obtain rfl := Option.some.inj held
      simp [same]
    · exact List.mem_cons_of_mem _ (ih held)

def gain (name : Text) : Node → Node
  | .directory names => .directory (names ++ [name])
  | .file => .file

theorem addName_cons (key name first : Text) (held : Node) (rest : Nodes) :
    addName ((first, held) :: rest) key name =
      (first, if first = key then gain name held else held) :: rest.addName key name := by
  unfold addName
  rw [List.map_cons]
  congr 1
  by_cases here : first = key
  · cases held <;> simp [here, gain]
  · simp [here]

theorem get_addName (nodes : Nodes) (key name other : Text) :
    (nodes.addName key name).get other =
      (nodes.get other).map fun node => if other = key then gain name node else node := by
  induction nodes with
  | nil => rfl
  | cons entry rest ih =>
    obtain ⟨first, held⟩ := entry
    rw [addName_cons, get_cons, get_cons, ih]
    by_cases same : other = first
    · subst same; simp
    · simp [same]

theorem get_entered {nodes : Nodes} {above key : Text} {names : List Text}
    (top : nodes.get above = some (.directory names)) (fresh : nodes.get key = none)
    (name : Text) (node : Node) (other : Text) :
    get (nodes.addName above name ++ [(key, node)]) other =
      if other = key then some node
      else if other = above then some (.directory (names ++ [name]))
      else nodes.get other := by
  rw [get_append, get_addName]
  by_cases same : other = key
  · simp [same, fresh]
  · by_cases here : other = above
    · subst here; simp [top, gain, same]
    · simp [same, here]

theorem get_entered_isSome {nodes : Nodes} {above key : Text} {names : List Text}
    (top : nodes.get above = some (.directory names)) (fresh : nodes.get key = none)
    (name : Text) (node : Node) {other : Text} (there : (nodes.get other).isSome) :
    (get (nodes.addName above name ++ [(key, node)]) other).isSome := by
  rw [get_entered top fresh]
  split
  · rfl
  · split
    · rfl
    · exact there

theorem get_entered_directory {nodes : Nodes} {above key : Text} {names : List Text}
    (top : nodes.get above = some (.directory names)) (fresh : nodes.get key = none)
    (name : Text) (node : Node) {other : Text} {listing : List Text}
    (there : nodes.get other = some (.directory listing)) :
    ∃ more, get (nodes.addName above name ++ [(key, node)]) other = some (.directory more) ∧
      listing ⊆ more := by
  rw [get_entered top fresh]
  split
  · rename_i here
    rw [here, fresh] at there
    simp at there
  · split
    · rename_i here
      rw [here, top] at there
      obtain rfl : names = listing := by simpa using there
      exact ⟨_, rfl, List.subset_append_left _ _⟩
    · exact ⟨listing, there, List.Subset.refl _⟩

theorem get_entered_cases {nodes : Nodes} {above key name other : Text}
    {names listing : List Text} {node : Node}
    (top : nodes.get above = some (.directory names)) (fresh : nodes.get key = none)
    (empty : node = .file ∨ node = .directory [])
    (found : get (nodes.addName above name ++ [(key, node)]) other = some (.directory listing)) :
    listing = [] ∨ (other = above ∧ listing = names ++ [name]) ∨
      nodes.get other = some (.directory listing) := by
  rw [get_entered top fresh] at found
  split at found
  · rcases empty with file | directory
    · simp [file] at found
    · exact Or.inl (by simpa [directory] using found.symm)
  · split at found
    · rename_i here
      exact Or.inr (Or.inl ⟨here, by simpa using found.symm⟩)
    · exact Or.inr (Or.inr found)

theorem down_injective {place other : Location} {name next : Text}
    (same : place.down [name] = other.down [next]) : place = other ∧ name = next := by
  obtain ⟨drive, names⟩ := place
  obtain ⟨drive', names'⟩ := other
  simp only [Location.down, Location.mk.injEq] at same
  obtain ⟨sameDrive, sameNames⟩ := same
  obtain ⟨front, last⟩ := List.append_inj' sameNames rfl
  simp_all

theorem Tree.enter {nodes : Nodes} (tree : Tree s nodes) {above : Location} {name : Text}
    {names : List Text} {node : Node} (resolved : Resolved s above) (plain : IsName s name)
    (top : nodes.get (above.text [s]) = some (.directory names))
    (fresh : nodes.get ((above.down [name]).text [s]) = none)
    (empty : node = .file ∨ node = .directory []) :
    Tree s (nodes.addName (above.text [s]) name ++ [((above.down [name]).text [s], node)]) := by
  have below : Resolved s (above.down [name]) := resolved.down (by simpa using plain)
  have keep : ∀ other, (nodes.get other).isSome → _ :=
    fun _ there => get_entered_isSome top fresh name node there
  have look := get_entered top fresh name node
  have apart : above.text [s] ≠ (above.down [name]).text [s] := by
    intro same
    rw [← same, top] at fresh
    simp at fresh
  constructor
  case resolved =>
    intro key there
    rw [look] at there
    split at there
    · rename_i here; exact ⟨_, below, here⟩
    · split at there
      · rename_i here; exact ⟨_, resolved, here⟩
      · exact tree.resolved key there
  case roots =>
    intro drive found rooted
    rw [look] at rooted
    split at rooted
    · rename_i here
      have ending := Text.ends_iff.mpr ⟨drive, root_text s drive⟩
      rw [here, text_ends_iff below] at ending
      simp at ending
    · split at rooted
      · exact ⟨_, by simpa using rooted.symm⟩
      · exact tree.roots drive found rooted
  case entered =>
    intro place next inside there
    rw [look] at there
    split at there
    · rename_i here
      obtain ⟨rfl, rfl⟩ := down_injective (text_injective inside below here)
      exact ⟨names ++ [next], by rw [look]; simp [apart], by simp⟩
    · have old : (nodes.get ((place.down [next]).text [s])).isSome := by
        split at there
        · rename_i here; rw [here, top]; rfl
        · exact there
      obtain ⟨listing, found, member⟩ := tree.entered place next inside old
      obtain ⟨more, found', sub⟩ := get_entered_directory top fresh name node found
      exact ⟨more, found', sub member⟩
  case listed =>
    intro place listing inside found next member
    rcases get_entered_cases top fresh empty found with rfl | ⟨here, rfl⟩ | old
    · cases member
    · obtain rfl := text_injective inside resolved here
      rcases List.mem_append.mp member with old | new
      · obtain ⟨named, there⟩ := tree.listed place names inside top next old
        exact ⟨named, keep _ there⟩
      · obtain rfl := List.mem_singleton.mp new
        exact ⟨plain, by rw [look]; simp⟩
    · obtain ⟨named, there⟩ := tree.listed place listing inside old next member
      exact ⟨named, keep _ there⟩
  case distinct =>
    intro place listing inside found
    rcases get_entered_cases top fresh empty found with rfl | ⟨_, rfl⟩ | old
    · exact List.nodup_nil
    · have absent : name ∉ names := by
        intro member
        have there := (tree.listed above names resolved top name member).2
        simp [fresh] at there
      rw [List.nodup_append]
      refine ⟨tree.distinct above names resolved top, by simp, ?_⟩
      intro first old second new same
      rw [List.mem_singleton.mp new] at same
      exact absent (same ▸ old)
    · exact tree.distinct place listing inside old

theorem mem_keys {nodes : Nodes} {key : Text} (there : (nodes.get key).isSome) :
    key ∈ nodes.map Prod.fst := by
  obtain ⟨node, held⟩ := Option.isSome_iff_exists.mp there
  exact List.mem_map.mpr ⟨_, mem_of_get held, rfl⟩

theorem Tree.ascend {nodes : Nodes} (tree : Tree s nodes) {place : Location} {names : List Text}
    (resolved : Resolved s (place.down names))
    (there : (nodes.get ((place.down names).text [s])).isSome) :
    (nodes.get (place.text [s])).isSome := by
  induction names using List.reverseRecOn with
  | nil => simpa using there
  | append_singleton front last ih =>
    rw [← down_down] at resolved there
    obtain ⟨listing, top, _⟩ := tree.entered (place.down front) last resolved there
    exact ih resolved.above (by simp [top])

/-- A node lies no deeper than there are nodes: each place above it is a node of its own. -/
theorem Tree.depth {nodes : Nodes} (tree : Tree s nodes) {place : Location}
    (resolved : Resolved s place) (there : (nodes.get (place.text [s])).isSome) :
    place.names.length < nodes.length := by
  obtain ⟨drive, names⟩ := place
  have split : ∀ n, (Location.mk drive names) =
      (Location.mk drive (names.take n)).down (names.drop n) := by
    intro n
    simp [Location.down]
  have above : ∀ n, Resolved s ⟨drive, names.take n⟩ := by
    intro n
    rw [split n] at resolved
    exact resolved.above
  have distinct : ((List.range (names.length + 1)).map fun n =>
      (Location.mk drive (names.take n)).text [s]).Nodup := by
    refine List.Nodup.map_on ?_ List.nodup_range
    intro i hi j hj same
    have pieces := text_injective (above i) (above j) same
    have sizes := congrArg (fun place => place.names.length) pieces
    simp only [List.length_take] at sizes
    rw [List.mem_range] at hi hj
    omega
  have inside : ((List.range (names.length + 1)).map fun n =>
      (Location.mk drive (names.take n)).text [s]) ⊆ nodes.map Prod.fst := by
    intro key member
    obtain ⟨n, _, rfl⟩ := List.mem_map.mp member
    rw [split n] at resolved there
    exact mem_keys (tree.ascend resolved there)
  have bound := distinct.length_le_of_subset inside
  simp only [List.length_map, List.length_range] at bound
  exact bound

theorem Tree.width {nodes : Nodes} (tree : Tree s nodes) {place : Location} {names : List Text}
    (resolved : Resolved s place) (top : nodes.get (place.text [s]) = some (.directory names)) :
    names.length ≤ nodes.length := by
  have named := tree.listed place names resolved top
  have distinct : (names.map fun name => (place.down [name]).text [s]).Nodup := by
    refine List.Nodup.map_on ?_ (tree.distinct place names resolved top)
    intro first hf second hs same
    have plain : ∀ name ∈ names, Resolved s (place.down [name]) := fun name member =>
      resolved.down (by simpa using (named name member).1)
    exact (down_injective (text_injective (plain first hf) (plain second hs) same)).2
  have inside : (names.map fun name => (place.down [name]).text [s]) ⊆ nodes.map Prod.fst := by
    intro key member
    obtain ⟨name, hn, rfl⟩ := List.mem_map.mp member
    exact mem_keys (named name hn).2
  have bound := distinct.length_le_of_subset inside
  simpa using bound

end Nodes

end PathGlob
