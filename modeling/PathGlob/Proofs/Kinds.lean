import PathGlob.Proofs.Tree

namespace PathGlob
variable {s : Char}
open Location

/-- A file stands where a directory must be, or the other way round. -/
inductive Fault.IsClash : Fault → Prop where
  | file (path : Text) : IsClash (.fileInTheWay path)
  | directory (path : Text) : IsClash (.directoryInTheWay path)

namespace Nodes

def kind (s : Char) (nodes : Nodes) (place : Location) : Option Bool :=
  (nodes.get (place.text [s])).map Node.isDirectory

theorem kind_directory {nodes : Nodes} {place : Location} :
    nodes.kind s place = some true ↔
      ∃ names, nodes.get (place.text [s]) = some (.directory names) := by
  unfold kind
  cases nodes.get (place.text [s]) with
  | none => simp
  | some node => cases node <;> simp [Node.isDirectory]

/-- The places that names pass through below another one, each with what must be there. -/
def Passes (asDirectory : Bool) (above : Location) (names : List Text) (place : Location)
    (directory : Bool) : Prop :=
  ∃ front back, names = front ++ back ∧ front ≠ [] ∧ place = above.down front ∧
    directory = (asDirectory || !back.isEmpty)

theorem passes_nil {asDirectory directory : Bool} {above place : Location} :
    ¬ Passes asDirectory above [] place directory := by
  intro passes
  obtain ⟨front, back, split, inhabited, _⟩ := passes
  exact inhabited (List.append_eq_nil_iff.mp split.symm).1

theorem passes_cons {asDirectory directory : Bool} {above place : Location} {name : Text}
    {rest : List Text} : Passes asDirectory above (name :: rest) place directory ↔
      (place = above.down [name] ∧ directory = (asDirectory || !rest.isEmpty)) ∨
        Passes asDirectory (above.down [name]) rest place directory := by
  constructor
  · intro passes
    obtain ⟨front, back, split, inhabited, rfl, rfl⟩ := passes
    obtain ⟨first, front, rfl⟩ := List.exists_cons_of_ne_nil inhabited
    obtain ⟨rfl, rfl⟩ := List.cons.inj split
    cases front with
    | nil => exact Or.inl ⟨rfl, rfl⟩
    | cons next more =>
      exact Or.inr ⟨next :: more, back, rfl, List.cons_ne_nil _ _, by simp, rfl⟩
  · intro h
    rcases h with ⟨rfl, rfl⟩ | ⟨front, back, rfl, _, rfl, rfl⟩
    · exact ⟨[name], rest, rfl, List.cons_ne_nil _ _, rfl, rfl⟩
    · exact ⟨name :: front, back, rfl, List.cons_ne_nil _ _, by simp, rfl⟩

theorem kind_entered {nodes : Nodes} {above place : Location} {name : Text} {names : List Text}
    {node : Node} (resolved : Resolved s above) (plain : IsName s name)
    (top : nodes.get (above.text [s]) = some (.directory names))
    (fresh : nodes.get ((above.down [name]).text [s]) = none) (inside : Resolved s place) :
    kind s (nodes.addName (above.text [s]) name ++ [((above.down [name]).text [s], node)]) place =
      if place = above.down [name] then some node.isDirectory else nodes.kind s place := by
  have below : Resolved s (above.down [name]) := resolved.down (by simpa using plain)
  unfold kind
  rw [get_entered top fresh]
  by_cases here : place = above.down [name]
  · subst here
    simp
  · have apart : place.text [s] ≠ (above.down [name]).text [s] :=
      fun same => here (text_injective inside below same)
    rw [if_neg apart, if_neg here]
    split
    · rename_i same
      rw [same, top]
      rfl
    · rfl

theorem place_step {nodes : Nodes} {above : Location} {name : Text} (tree : Tree s nodes)
    (resolved : Resolved s above) (plain : IsName s name) (top : nodes.kind s above = some true)
    (asDirectory : Bool) (rest : List Text) :
    (∃ next, Tree s next ∧
      place [s] asDirectory nodes (above.text [s]) (name :: rest) =
        place [s] asDirectory next ((above.down [name]).text [s]) rest ∧
      ∀ other directory, Resolved s other → (next.kind s other = some directory ↔
        nodes.kind s other = some directory ∨
          (other = above.down [name] ∧ directory = (asDirectory || !rest.isEmpty)))) ∨
    (∃ fault, fault.IsClash ∧
      place [s] asDirectory nodes (above.text [s]) (name :: rest) = .error fault) ∧
      nodes.kind s (above.down [name]) = some !(asDirectory || !rest.isEmpty) := by
  obtain ⟨names, held⟩ := kind_directory.mp top
  simp only [place, joinPiece_text resolved plain]
  generalize (asDirectory || !rest.isEmpty) = role
  cases here : nodes.get ((above.down [name]).text [s]) with
  | none =>
    refine Or.inl ⟨_, tree.enter resolved plain held here ?_, rfl, ?_⟩
    · cases role
      · exact Or.inl rfl
      · exact Or.inr rfl
    · intro other directory inside
      rw [kind_entered resolved plain held here inside]
      split
      · rename_i same
        subst same
        cases role <;> simp [kind, here, Node.isDirectory, eq_comm]
      · rename_i apart
        simp [apart]
  | some node =>
    have settled : nodes.kind s (above.down [name]) = some node.isDirectory := by simp [kind, here]
    by_cases fits : node.isDirectory = role
    · refine Or.inl ⟨nodes, tree, ?_, ?_⟩
      · subst fits
        cases node <;> rfl
      · intro other directory _
        constructor
        · exact Or.inl
        · intro h
          rcases h with old | ⟨rfl, rfl⟩
          · exact old
          · rw [settled, fits]
    · refine Or.inr ⟨?_, by rw [settled, Bool.eq_not.mpr fits]⟩
      cases node with
      | file =>
        obtain rfl : role = true := by simpa [Node.isDirectory] using fits
        exact ⟨_, .file _, rfl⟩
      | directory names =>
        obtain rfl : role = false := by simpa [Node.isDirectory] using fits
        exact ⟨_, .directory _, rfl⟩

theorem place_cases {nodes : Nodes} {above : Location} {names : List Text} (tree : Tree s nodes)
    (resolved : Resolved s above) (plain : ∀ name ∈ names, IsName s name)
    (top : names ≠ [] → nodes.kind s above = some true) (asDirectory : Bool) :
    (∃ after, place [s] asDirectory nodes (above.text [s]) names = .ok after ∧ Tree s after ∧
      ∀ other directory, Resolved s other → (after.kind s other = some directory ↔
        nodes.kind s other = some directory ∨ Passes asDirectory above names other directory)) ∨
    (∃ fault, fault.IsClash ∧
      place [s] asDirectory nodes (above.text [s]) names = .error fault) ∧
      ∃ other directory, Passes asDirectory above names other directory ∧
        nodes.kind s other = some !directory := by
  induction names generalizing nodes above with
  | nil => exact Or.inl ⟨nodes, rfl, tree, by simp [passes_nil]⟩
  | cons name rest ih =>
    obtain ⟨here, later⟩ := List.forall_mem_cons.mp plain
    have below : Resolved s (above.down [name]) := resolved.down (by simpa using here)
    obtain ⟨next, again, placed, kinds⟩ | ⟨failed, taken⟩ :=
      place_step tree resolved here (top (List.cons_ne_nil _ _)) asDirectory rest
    · have inner : rest ≠ [] → next.kind s (above.down [name]) = some true := by
        intro inhabited
        rw [kinds _ _ below]
        exact Or.inr ⟨rfl, by simp [inhabited]⟩
      rw [placed]
      obtain ⟨after, done, whole, more⟩ | ⟨failed, other, directory, passes, taken⟩ :=
        ih again below later inner
      · refine Or.inl ⟨after, done, whole, fun other directory inside => ?_⟩
        rw [more other directory inside, kinds other directory inside, passes_cons, or_assoc]
      · refine Or.inr ⟨failed, other, directory, passes_cons.mpr (Or.inr passes), ?_⟩
        obtain ⟨front, back, rfl, inhabited, rfl, _⟩ := passes
        have inside : Resolved s ((above.down [name]).down front) :=
          below.down fun other member => later other (List.mem_append_left _ member)
        rcases (kinds _ _ inside).mp taken with old | ⟨same, _⟩
        · exact old
        · simp [Location.down, inhabited] at same
    · exact Or.inr ⟨failed, _, _, passes_cons.mpr (Or.inl ⟨rfl, rfl⟩), taken⟩

theorem place_tree {asDirectory : Bool} {nodes after : Nodes} {above : Location}
    {names listing : List Text} (tree : Tree s nodes) (resolved : Resolved s above)
    (plain : ∀ name ∈ names, IsName s name)
    (top : nodes.get (above.text [s]) = some (.directory listing))
    (placed : place [s] asDirectory nodes (above.text [s]) names = .ok after) : Tree s after := by
  obtain ⟨other, same, whole, _⟩ | ⟨⟨fault, _, failed⟩, _⟩ :=
    place_cases tree resolved plain (fun _ => kind_directory.mpr ⟨listing, top⟩) asDirectory
  · obtain rfl := Except.ok.inj (same.symm.trans placed)
    exact whole
  · rw [placed] at failed
    cases failed

end Nodes

end PathGlob
