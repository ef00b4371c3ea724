import PathGlob.Walk
import PathGlob.Proofs.Fallible
import PathGlob.Proofs.Separator

namespace PathGlob
variable {s : Char}

/-- What may stand between two separators of a resolved path. -/
structure IsName (s : Char) (name : Text) : Prop where
  filled : name ≠ []
  free : s ∉ name
  notCurrent : name ≠ current
  notParent : name ≠ parent

theorem isName_iff {name : Text} :
    IsName s name ↔ name ≠ [] ∧ s ∉ name ∧ name ≠ current ∧ name ≠ parent :=
  ⟨fun named => ⟨named.filled, named.free, named.notCurrent, named.notParent⟩,
    fun ⟨filled, free, notCurrent, notParent⟩ => ⟨filled, free, notCurrent, notParent⟩⟩

instance (s : Char) (name : Text) : Decidable (IsName s name) := decidable_of_iff' _ isName_iff

theorem IsName.usual {name : Text} (named : IsName s name) : Walk.isSpecial name = false := by
  simp [Walk.isSpecial, named.notCurrent, named.notParent]

namespace Location

structure Resolved (s : Char) (location : Location) : Prop where
  drive : isDrive location.drive = true
  driveFree : s ∉ location.drive
  names : ∀ name ∈ location.names, IsName s name

def down (location : Location) (names : List Text) : Location :=
  ⟨location.drive, location.names ++ names⟩

@[simp] theorem down_nil (location : Location) : location.down [] = location := by
  simp [down]

@[simp] theorem down_down (location : Location) (first second : List Text) :
    (location.down first).down second = location.down (first ++ second) := by
  simp [down]

@[simp] theorem down_names (location : Location) (names : List Text) :
    (location.down names).names = location.names ++ names := rfl

@[simp] theorem down_drive (location : Location) (names : List Text) :
    (location.down names).drive = location.drive := rfl

theorem Resolved.down {location : Location} (resolved : Resolved s location) {names : List Text}
    (plain : ∀ name ∈ names, IsName s name) : Resolved s (location.down names) := by
  refine ⟨resolved.drive, resolved.driveFree, ?_⟩
  intro name member
  rcases List.mem_append.mp member with above | below
  · exact resolved.names name above
  · exact plain name below

theorem Resolved.above {location : Location} {names : List Text}
    (resolved : Resolved s (location.down names)) : Resolved s location := by
  refine ⟨resolved.drive, resolved.driveFree, ?_⟩
  intro name member
  exact resolved.names name (List.mem_append_left _ member)

theorem text_eq (s : Char) (location : Location) :
    location.text [s] = location.drive ++ s :: Text.glue [s] location.names := by
  simp [text]

theorem visit_name (above : List Text) {name : Text} (plain : IsName s name) :
    visit above name = name :: above := by
  simp [visit, plain.filled, plain.notCurrent, plain.notParent]

theorem visited_names (names above : List Text) (plain : ∀ name ∈ names, IsName s name) :
    names.foldl visit above = names.reverse ++ above := by
  induction names generalizing above with
  | nil => rfl
  | cons name rest ih =>
    rw [List.foldl_cons, visit_name above (plain name (by simp)),
      ih _ fun other member => plain other (List.mem_cons_of_mem _ member)]
    simp

theorem text_split {location : Location} (resolved : Resolved s location) :
    Text.splitOn [s] (location.text [s]) =
      location.drive :: if location.names = [] then [[]] else location.names := by
  rw [text_eq, Text.split_append, Text.split_free resolved.driveFree, List.singleton_append]
  split
  · rename_i none
    simp [none, Text.glue, List.intercalate, Text.splitOn_char_nil]
  · rename_i inhabited
    rw [Text.split_glue inhabited fun name member => (resolved.names name member).free]

theorem ofText_text {location : Location} (resolved : Resolved s location) :
    ofText [s] (location.text [s]) = location := by
  obtain ⟨drive, names⟩ := location
  simp only [ofText, text_split resolved, List.headD_cons, List.tail_cons]
  split
  · rename_i none
    simp_all [visit]
  · rw [visited_names names [] resolved.names]
    simp

theorem text_injective {first second : Location} (hf : Resolved s first) (hs : Resolved s second)
    (same : first.text [s] = second.text [s]) : first = second := by
  rw [← ofText_text hf, same, ofText_text hs]

theorem first_text {location : Location} (resolved : Resolved s location) :
    Text.first [s] (location.text [s]) = location.drive := by
  rw [text_eq, Text.first_append, Text.first_free resolved.driveFree]

theorem text_absolute {location : Location} (resolved : Resolved s location) :
    isAbsolute [s] (location.text [s]) = true := by
  have filled : location.text [s] ≠ [] := by simp [text_eq]
  simp [isAbsolute, first_text resolved, resolved.drive, filled]

theorem resolve_of_isAbsolute {path : Text} (absolute : isAbsolute [s] path = true)
    (base : Option Text) (here : Directory) :
    resolve [s] path base here = .ok (ofText [s] path) := by
  simp [resolve, expand_of_isAbsolute absolute, Except.map]

theorem resolve_text {location : Location} (resolved : Resolved s location)
    (base : Option Text) (here : Directory) :
    resolve [s] (location.text [s]) base here = .ok location := by
  rw [resolve_of_isAbsolute (text_absolute resolved), ofText_text resolved]

theorem normalize_text {location : Location} (resolved : Resolved s location)
    (base : Option Text) (here : Directory) :
    normalize [s] (location.text [s]) base here = .ok (location.text [s]) := by
  rw [normalize, resolve_text resolved]
  rfl

theorem visited_plain (pieces above : List Text) (free : ∀ piece ∈ pieces, s ∉ piece)
    (plain : ∀ name ∈ above, IsName s name) :
    ∀ name ∈ pieces.foldl visit above, IsName s name := by
  induction pieces generalizing above with
  | nil => exact plain
  | cons piece rest ih =>
    refine ih _ (fun other member => free other (List.mem_cons_of_mem _ member)) ?_
    intro name member
    unfold visit at member
    split at member
    · exact plain name member
    · rename_i useful
      split at member
      · exact plain name (List.mem_of_mem_tail member)
      · rename_i notParent
        rcases List.mem_cons.mp member with here | later
        · subst here
          exact ⟨fun h => useful (Or.inl h), free _ (by simp), fun h => useful (Or.inr h), notParent⟩
        · exact plain name later

theorem ofText_resolved {full : Text} (drive : isDrive (Text.first [s] full) = true) :
    Resolved s (ofText [s] full) := by
  have free : ∀ piece ∈ Text.splitOn [s] full, s ∉ piece := fun _ member => Text.piece_free member
  unfold Text.first at drive
  unfold ofText
  cases pieces : Text.splitOn [s] full with
  | nil => exact absurd pieces (Text.splitOn_ne_nil _ _)
  | cons piece rest =>
    rw [pieces] at drive free
    refine ⟨drive, free piece (by simp), ?_⟩
    intro name member
    exact visited_plain rest [] (fun other h => free other (List.mem_cons_of_mem _ h)) (by simp)
      name (by simpa using member)

theorem root_here (s : Char) : isAbsolute [s] [s] = true := by
  have first : Text.first [s] [s] = [] := by simp [Text.first, Text.splitOn_char_cons]
  simp [isAbsolute, first, isDrive]

/-- A working directory, where there is one, is an absolute path. -/
def Anchored (s : Char) (here : Directory) : Prop :=
  ∀ directory, here = .ok directory → isDrive (Text.first [s] directory) = true

theorem absolute_drive {path : Text} (absolute : isAbsolute [s] path = true) :
    isDrive (Text.first [s] path) = true := by
  simp only [isAbsolute, Bool.and_eq_true] at absolute
  exact absolute.2

theorem ofText_absolute {path : Text} (absolute : isAbsolute [s] path = true) :
    Resolved s (ofText [s] path) := ofText_resolved (absolute_drive absolute)

theorem checked_anchored (given : Except Fault Text) :
    Anchored s (given.bind (checkDirectory [s])) := by
  intro directory found
  cases given with
  | error fault => simp [Except.bind] at found
  | ok text =>
    simp only [Except.bind, checkDirectory] at found
    split at found
    · rename_i absolute
      obtain rfl : text = directory := by simpa using found
      exact absolute_drive absolute
    · simp at found

theorem anchored_here {directory : Text} (absolute : isAbsolute [s] directory = true) :
    Anchored s (.ok directory) := by
  intro found same
  obtain rfl := Except.ok.inj same
  exact absolute_drive absolute

theorem first_below (directory path : Text) :
    Text.first [s] (below [s] directory path) = Text.first [s] directory := by
  have seam : below [s] directory path = Text.dropEnding [s] directory ++ s :: path := by
    simp [below]
  rw [seam, Text.first_append, Text.dropEnding]
  split
  · rename_i ending
    obtain ⟨front, rfl⟩ := Text.ends_iff.mp ending
    rw [List.dropLast_concat, Text.first_append]
  · rfl

theorem anchor_anchored {here : Directory} (anchored : Anchored s here) (base : Option Text) :
    Anchored s (anchor [s] base here) := by
  unfold anchor
  split
  · exact anchored
  · exact anchored
  · rename_i base _
    split
    · rename_i absolute
      intro directory found
      obtain rfl : base = directory := by simpa using found
      exact absolute_drive absolute
    · intro directory found
      cases here with
      | error fault => simp [Except.map] at found
      | ok top =>
        obtain rfl : below [s] top base = directory := by simpa [Except.map] using found
        rw [first_below]
        exact anchored top rfl

theorem expand_drive {here : Directory} (anchored : Anchored s here) {path full : Text}
    {base : Option Text} (expanded : expand [s] path base here = .ok full) :
    isDrive (Text.first [s] full) = true := by
  unfold expand at expanded
  split at expanded
  · rename_i absolute
    obtain rfl : path = full := by simpa using expanded
    exact absolute_drive absolute
  · cases top : anchor [s] base here with
    | error fault => simp [top, Except.map] at expanded
    | ok directory =>
      obtain rfl : below [s] directory path = full := by simpa [top, Except.map] using expanded
      rw [first_below]
      exact anchor_anchored anchored base directory top

theorem expand_absolute {here : Directory} (anchored : Anchored s here) {path full : Text}
    {base : Option Text} (expanded : expand [s] path base here = .ok full) :
    isAbsolute [s] full = true := by
  have drive := expand_drive anchored expanded
  have filled : full ≠ [] := by
    unfold expand at expanded
    split at expanded
    · rename_i absolute
      obtain rfl : path = full := by simpa using expanded
      intro empty
      simp [empty, isAbsolute] at absolute
    · obtain ⟨directory, _, rfl⟩ := map_ok_iff.mp expanded
      simp [below]
  simp [isAbsolute, drive, filled]

theorem resolve_resolved {here : Directory} (anchored : Anchored s here) {path : Text}
    {base : Option Text} {location : Location}
    (found : resolve [s] path base here = .ok location) : Resolved s location := by
  unfold resolve at found
  cases expanded : expand [s] path base here with
  | error fault => simp [expanded, Except.map] at found
  | ok full =>
    obtain rfl : ofText [s] full = location := by simpa [expanded, Except.map] using found
    exact ofText_resolved (expand_drive anchored expanded)

theorem normalize_resolved {here : Directory} (anchored : Anchored s here) {path q : Text}
    {base : Option Text} (found : normalize [s] path base here = .ok q) :
    ∃ location, Resolved s location ∧ q = location.text [s] := by
  unfold normalize at found
  cases result : resolve [s] path base here with
  | error fault => simp [result, Except.map] at found
  | ok location =>
    refine ⟨location, resolve_resolved anchored result, ?_⟩
    simpa [result, Except.map] using found.symm

theorem root_text (s : Char) (drive : Text) : (Location.mk drive []).text [s] = drive ++ [s] := by
  simp [text, Text.glue, List.intercalate]

theorem text_ends_iff {location : Location} (resolved : Resolved s location) :
    [s].isSuffixOf (location.text [s]) = true ↔ location.names = [] := by
  obtain ⟨drive, names⟩ := location
  constructor
  · intro ending
    obtain ⟨front, same⟩ := Text.ends_iff.mp ending
    have pieces := text_split resolved
    rw [same, Text.split_append, Text.splitOn_char_nil] at pieces
    by_contra inhabited
    have inhabited : names ≠ [] := inhabited
    simp only [inhabited, ↓reduceIte] at pieces
    have last : (Text.splitOn [s] front ++ [[]]).getLast? = (drive :: names).getLast? := by
      rw [pieces]
    have member : [] ∈ names := by
      apply List.mem_of_getLast?
      rw [List.getLast?_concat, List.getLast?_cons_of_ne_nil inhabited] at last
      exact last.symm
    exact (resolved.names [] member).filled rfl
  · intro none
    have none : names = [] := none
    subst none
    rw [root_text]
    exact Text.ends_iff.mpr ⟨drive, rfl⟩

theorem child_text {location : Location} (resolved : Resolved s location) (name : Text) :
    Walk.child s (location.text [s]) name = (location.down [name]).text [s] := by
  unfold Walk.child
  split
  · rename_i ending
    have none := (text_ends_iff resolved).mp ending
    simp [text_eq, none, Text.glue, List.intercalate]
  · rename_i inner
    have inhabited : location.names ≠ [] := fun none => inner ((text_ends_iff resolved).mpr none)
    have seam := Text.glue_append inhabited (List.cons_ne_nil name []) (s := s)
    simp [text_eq, seam, Text.glue_singleton]

theorem children_text {location : Location} (resolved : Resolved s location) {names : List Text}
    (plain : ∀ name ∈ names, IsName s name) :
    names.foldl (Walk.child s) (location.text [s]) = (location.down names).text [s] := by
  induction names generalizing location with
  | nil => simp
  | cons name rest ih =>
    have next : Resolved s (location.down [name]) := resolved.down fun other member => by
      rw [List.mem_singleton.mp member]
      exact plain name (by simp)
    rw [List.foldl_cons, child_text resolved,
      ih next fun other member => plain other (List.mem_cons_of_mem _ member)]
    simp

theorem down_text (s : Char) (location : Location) {names : List Text} (inhabited : names ≠ []) :
    (location.down names).text [s] =
      Text.glue [s] (location.drive :: location.names) ++ s :: Text.glue [s] names := by
  rw [← Text.glue_append (List.cons_ne_nil _ _) inhabited, List.cons_append,
    Text.glue_cons (List.append_ne_nil_of_right_ne_nil _ inhabited)]
  rfl

theorem trimmed_text {location : Location} (resolved : Resolved s location) :
    (location.text [s]).rdropWhile (· == s) =
      Text.glue [s] (location.drive :: location.names) := by
  by_cases none : location.names = []
  · have kept : location.drive.rdropWhile (· == s) = location.drive := by
      rw [List.rdropWhile_eq_self_iff]
      intro inhabited last
      exact resolved.driveFree (by
        rw [← beq_iff_eq.mp last]
        exact List.getLast_mem inhabited)
    rw [text_eq, none, Text.glue_singleton]
    simp [Text.glue, List.intercalate, kept]
  · have whole : location.text [s] = Text.glue [s] (location.drive :: location.names) := by
      rw [Text.glue_cons none]
      rfl
    rw [← whole, List.rdropWhile_eq_self_iff]
    intro inhabited last
    have parts := List.dropLast_append_getLast inhabited
    rw [beq_iff_eq.mp last] at parts
    exact none ((text_ends_iff resolved).mp (Text.ends_iff.mpr ⟨_, parts.symm⟩))

theorem joinPiece_text {location : Location} (resolved : Resolved s location) {name : Text}
    (plain : IsName s name) :
    joinPiece [s] (location.text [s]) name = (location.down [name]).text [s] := by
  rw [joinPiece, Text.trimLeft_free plain.free, Text.trimRight_char, trimmed_text resolved,
    down_text s location (List.cons_ne_nil name []), Text.glue_singleton]
  simp

/-- What a path is that goes on with a separator behind a place: the root that the place is, or
something further down. -/
theorem text_beyond {location target : Location} (resolved : Resolved s location)
    (goal : Resolved s target) {rest : Text}
    (same : target.text [s] =
      Text.glue [s] (location.drive :: location.names) ++ s :: rest) :
    target = location ∨ ∃ names, names ≠ [] ∧ target = location.down names ∧
      rest = Text.glue [s] names := by
  have free : ∀ piece ∈ location.drive :: location.names, s ∉ piece := by
    intro piece member
    rcases List.mem_cons.mp member with first | later
    · exact first ▸ resolved.driveFree
    · exact (resolved.names piece later).free
  have pieces := text_split goal
  rw [same, Text.split_append, Text.split_glue (List.cons_ne_nil _ _) free, List.cons_append]
    at pieces
  obtain ⟨drive, below⟩ := List.cons.inj pieces
  obtain ⟨targetDrive, targetNames⟩ := target
  have drive : location.drive = targetDrive := drive
  split at below
  · rename_i none
    have none : targetNames = [] := none
    rcases List.append_eq_singleton_iff.mp below with ⟨top, _⟩ | ⟨_, missing⟩
    · left
      rw [none, ← drive, ← top]
    · exact absurd missing (Text.splitOn_ne_nil _ _)
  · right
    refine ⟨Text.splitOn [s] rest, Text.splitOn_ne_nil _ _, ?_, (Text.glue_splitOn _ _).symm⟩
    rw [down, below, drive]

end Location

namespace Walk
open Location

theorem start_resolved {volume : Volume} {root : Text} {cwd : Option Directory} {start : Text}
    (begun : (Walk.start volume s root cwd).2 = .ok start) :
    ∃ place, Resolved s place ∧ start = place.text [s] := by
  unfold Walk.start at begun
  dsimp only at begun
  split at begun
  · cases begun
  · rename_i base normalized
    obtain ⟨place, resolved, rfl⟩ := normalize_resolved (checked_anchored _) normalized
    obtain ⟨found, _, chosen⟩ := map_ok_iff.mp begun
    split at chosen
    · exact ⟨place, resolved, chosen.symm⟩
    · refine ⟨_, ofText_resolved ?_, chosen.symm⟩
      obtain ⟨below, seam⟩ : ∃ below,
          Walk.child s (place.text [s]) parent = place.drive ++ s :: below := by
        unfold Walk.child
        rw [text_eq]
        split
        · exact ⟨Text.glue [s] place.names ++ parent, by simp⟩
        · exact ⟨Text.glue [s] place.names ++ s :: parent, by simp⟩
      rw [seam, Text.first_append, Text.first_free resolved.driveFree]
      exact resolved.drive

end Walk

end PathGlob
