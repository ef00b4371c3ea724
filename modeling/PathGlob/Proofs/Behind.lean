import PathGlob.Proofs.Resolved

namespace PathGlob.Location
variable {s : Char}

theorem glued_text {location : Location} (inhabited : location.names ≠ []) :
    location.text [s] = Text.glue [s] (location.drive :: location.names) := by
  rw [Text.glue_cons inhabited]
  rfl

theorem closed_text {location : Location} (resolved : Resolved s location) :
    (if [s].isSuffixOf (location.text [s]) then location.text [s]
      else location.text [s] ++ [s]) =
      Text.glue [s] (location.drive :: location.names) ++ [s] := by
  split
  · rename_i ending
    have none := (text_ends_iff resolved).mp ending
    rw [text_eq, none, Text.glue_singleton]
    rfl
  · rename_i inner
    rw [glued_text fun none => inner ((text_ends_iff resolved).mpr none)]

theorem dropEnding_text {location : Location} (resolved : Resolved s location) :
    Text.dropEnding [s] (location.text [s]) =
      Text.glue [s] (location.drive :: location.names) := by
  have closed := closed_text resolved
  unfold Text.dropEnding
  split
  · rename_i ending
    rw [if_pos ending] at closed
    rw [closed, List.dropLast_concat]
  · rename_i inner
    exact glued_text fun none => inner ((text_ends_iff resolved).mpr none)

theorem contains_iff {location target : Location} (resolved : Resolved s location)
    (goal : Resolved s target) :
    contains [s] (location.text [s]) (target.text [s]) = true ↔
      ∃ names, target = location.down names := by
  rw [contains, closed_text resolved, Bool.or_eq_true, beq_iff_eq, List.isPrefixOf_iff_prefix]
  constructor
  · intro h
    rcases h with same | ⟨rest, same⟩
    · exact ⟨[], by rw [down_nil, text_injective goal resolved same]⟩
    · rw [List.append_assoc, List.singleton_append] at same
      rcases text_beyond resolved goal same.symm with here | ⟨names, _, below, _⟩
      · exact ⟨[], by rw [down_nil, here]⟩
      · exact ⟨names, below⟩
  · intro h
    obtain ⟨names, rfl⟩ := h
    by_cases none : names = []
    · exact Or.inl (by rw [none, down_nil])
    · exact Or.inr ⟨Text.glue [s] names, by simp [down_text s location none]⟩

theorem visited_nothing {pieces : List Text} (above : List Text)
    (nothing : ∀ piece ∈ pieces, piece = [] ∨ piece = current ∨ piece = parent) :
    pieces.foldl visit above <:+ above := by
  induction pieces generalizing above with
  | nil => exact List.suffix_refl above
  | cons piece rest ih =>
    have later := ih (visit above piece) fun other member =>
      nothing other (List.mem_cons_of_mem _ member)
    have here : visit above piece <:+ above := by
      rcases nothing piece (by simp) with rfl | rfl | rfl
      · exact List.suffix_refl above
      · exact List.suffix_refl above
      · exact List.tail_suffix above
    exact later.trans here

/-- The place that a path leads to when it is read behind another place. -/
def behind (s : Char) (path : Text) (place : Location) : Location :=
  ⟨place.drive, ((Text.splitOn [s] path).foldl visit place.names.reverse).reverse⟩

theorem behind_nil (place : Location) : behind s [] place = place := by
  simp [behind, Text.splitOn_char_nil, visit]

theorem ofText_append (path more : Text) :
    ofText [s] (path ++ s :: more) = behind s more (ofText [s] path) := by
  obtain ⟨first, rest, pieces⟩ := List.exists_cons_of_ne_nil (Text.splitOn_ne_nil [s] path)
  simp [behind, ofText, Text.split_append, pieces]

theorem ofText_behind {location : Location} (resolved : Resolved s location) (path : Text) :
    ofText [s] (Text.glue [s] (location.drive :: location.names) ++ s :: path) =
      behind s path location := by
  have free : ∀ piece ∈ location.drive :: location.names, s ∉ piece :=
    List.forall_mem_cons.mpr
      ⟨resolved.driveFree, fun name member => (resolved.names name member).free⟩
  have visited := visited_names location.names [] resolved.names
  rw [List.append_nil] at visited
  simp only [behind, ofText, Text.split_append, Text.split_glue (List.cons_ne_nil _ _) free,
    List.cons_append, List.headD_cons, List.tail_cons, List.foldl_append, visited]

theorem below_child (directory path : Text) :
    below [s] directory path = Walk.child s directory path := by
  unfold below Text.dropEnding Walk.child
  split
  · rename_i ending
    obtain ⟨front, rfl⟩ := Text.ends_iff.mp ending
    simp
  · simp

/-- The pieces of a name stand behind those of the path, without the empty one that an ending
separator leaves. -/
theorem child_pieces (s : Char) (path name : Text) :
    ∃ above, above ≠ [] ∧
      (Text.splitOn [s] path = above ∨ Text.splitOn [s] path = above ++ [[]]) ∧
      Text.splitOn [s] (Walk.child s path name) = above ++ Text.splitOn [s] name := by
  unfold Walk.child
  split
  · rename_i ending
    obtain ⟨front, rfl⟩ := Text.ends_iff.mp ending
    refine ⟨_, Text.splitOn_ne_nil [s] front, Or.inr ?_, ?_⟩
    · rw [Text.split_append, Text.splitOn_char_nil]
    · rw [List.append_assoc, List.singleton_append, Text.split_append]
  · exact ⟨_, Text.splitOn_ne_nil [s] path, Or.inl rfl, Text.split_append s path name⟩

theorem ofText_child (s : Char) (path name : Text) :
    ofText [s] (Walk.child s path name) = behind s name (ofText [s] path) := by
  obtain ⟨above, inhabited, same, pieces⟩ := child_pieces s path name
  obtain ⟨first, rest, rfl⟩ := List.exists_cons_of_ne_nil inhabited
  rcases same with same | same <;> simp [behind, ofText, pieces, same, visit]

theorem ofText_child_name {name : Text} (named : IsName s name) (path : Text) :
    ofText [s] (Walk.child s path name) = (ofText [s] path).down [name] := by
  rw [ofText_child, behind, Text.split_free named.free, List.foldl_cons, List.foldl_nil,
    visit_name _ named, List.reverse_cons, List.reverse_reverse]
  rfl

theorem first_child (s : Char) (path name : Text) :
    Text.first [s] (Walk.child s path name) = Text.first [s] path := by
  obtain ⟨above, inhabited, same, pieces⟩ := child_pieces s path name
  obtain ⟨first, rest, rfl⟩ := List.exists_cons_of_ne_nil inhabited
  rcases same with same | same <;> simp [Text.first, pieces, same]

theorem child_absolute {path : Text} (absolute : isAbsolute [s] path = true) (name : Text) :
    isAbsolute [s] (Walk.child s path name) = true := by
  have filled : Walk.child s path name ≠ [] := by
    unfold Walk.child
    split
    · rename_i ending
      obtain ⟨front, rfl⟩ := Text.ends_iff.mp ending
      simp
    · simp
  simp [isAbsolute, filled, first_child, absolute_drive absolute]

/-- Two dots lead to a place that the names lead back from, whatever the separator makes of them. -/
theorem down_of_parent {location : Location} (resolved : Resolved s location) :
    ∃ names, location =
      (ofText [s] (Walk.child s (location.text [s]) parent)).down names := by
  have dots : ∀ piece ∈ Text.splitOn [s] parent,
      piece = [] ∨ piece = current ∨ piece = parent := by
    by_cases dot : s = '.'
    · subst dot
      decide
    · have free : s ∉ parent := by simp [parent, dot]
      simp [Text.split_free free]
  have above := List.reverse_prefix.mpr (visited_nothing location.names.reverse dots)
  rw [List.reverse_reverse] at above
  obtain ⟨names, whole⟩ := above
  rw [ofText_child, ofText_text resolved]
  exact ⟨names, by rw [behind, Location.down, whole]⟩

end PathGlob.Location
