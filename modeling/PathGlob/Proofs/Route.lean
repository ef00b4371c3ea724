import PathGlob.Proofs.Behind

namespace PathGlob.Location
variable {s : Char}

theorem route_split (target reference : List Text) :
    ∃ common up rest, target = common ++ rest ∧ reference = common ++ up ∧
      route target reference = List.replicate up.length parent ++ rest := by
  induction target generalizing reference with
  | nil => exact ⟨[], reference, [], rfl, rfl, by simp [route]⟩
  | cons name target ih =>
    cases reference with
    | nil => exact ⟨[], [], name :: target, rfl, rfl, by simp [route]⟩
    | cons other reference =>
      by_cases same : name = other
      · obtain ⟨common, up, rest, ht, hr, way⟩ := ih reference
        refine ⟨name :: common, up, rest, by simp [ht], by simp [same, hr], ?_⟩
        rw [route, if_pos same, way]
      · exact ⟨[], other :: reference, name :: target, rfl, rfl, by simp [route, same]⟩

theorem visited_parents (count : Nat) (above : List Text) :
    (List.replicate count parent).foldl visit above = above.drop count := by
  induction count generalizing above with
  | zero => rfl
  | succ count ih =>
    have up : visit above parent = above.tail := by simp [visit, parent, current]
    rw [List.replicate_succ, List.foldl_cons, up, ih, List.drop_tail]

theorem visited_route {target reference : List Text} (plain : ∀ name ∈ target, IsName s name) :
    (route target reference).foldl visit reference.reverse = target.reverse := by
  obtain ⟨common, up, rest, rfl, rfl, way⟩ := route_split target reference
  have later : ∀ name ∈ rest, IsName s name := fun name member =>
    plain name (List.mem_append_right _ member)
  have climbed : (common ++ up).reverse.drop up.length = common.reverse := by
    rw [List.reverse_append, List.drop_left' (List.length_reverse)]
  rw [way, List.foldl_append, visited_parents, climbed, visited_names rest _ later,
    List.reverse_append]

theorem expand_total (s : Char) (directory path : Text) (base : Option Text) :
    ∃ full, expand [s] path base (.ok directory) = .ok full := by
  unfold expand anchor
  split
  · exact ⟨_, rfl⟩
  · split
    · exact ⟨_, rfl⟩
    · exact ⟨_, rfl⟩
    · split <;> exact ⟨_, rfl⟩

theorem resolve_total (s : Char) (directory path : Text) (base : Option Text) :
    ∃ location, resolve [s] path base (.ok directory) = .ok location := by
  obtain ⟨full, expanded⟩ := expand_total s directory path base
  exact ⟨ofText [s] full, by rw [resolve, expanded]; rfl⟩

theorem reference_total (s : Char) (directory : Text) (base destination : Option Text) :
    ∃ location, reference [s] base (.ok destination) (.ok directory) = .ok location := by
  cases destination with
  | some place => exact resolve_total s directory place none
  | none =>
    cases base with
    | none => exact ⟨_, rfl⟩
    | some base =>
      cases base with
      | nil => exact ⟨_, rfl⟩
      | cons c rest => exact resolve_total s directory (c :: rest) none

theorem reference_resolved {here : Directory} (anchored : Anchored s here)
    {base destination : Option Text} {location : Location}
    (found : reference [s] base (.ok destination) here = .ok location) :
    Resolved s location := by
  cases destination with
  | some place => exact resolve_resolved anchored found
  | none =>
    cases base with
    | none =>
      obtain ⟨directory, given, rfl⟩ := map_ok_iff.mp found
      exact ofText_resolved (anchored directory given)
    | some base =>
      cases base with
      | nil =>
        obtain ⟨directory, given, rfl⟩ := map_ok_iff.mp found
        exact ofText_resolved (anchored directory given)
      | cons c rest => exact resolve_resolved anchored found

theorem normalize_behind {location : Location} (resolved : Resolved s location) {path : Text}
    (relative : isAbsolute [s] path = false) (here : Directory) :
    normalize [s] path (some (location.text [s])) here =
      .ok ((Location.mk location.drive
        ((Text.splitOn [s] path).foldl visit location.names.reverse).reverse).text [s]) := by
  have anchored : anchor [s] (some (location.text [s])) here = .ok (location.text [s]) := by
    have absolute := text_absolute resolved
    cases written : location.text [s] with
    | nil => simp [written, isAbsolute] at absolute
    | cons c rest =>
      rw [written] at absolute
      simp [anchor, absolute]
  simp [normalize, resolve, expand, relative, anchored, Except.map, below,
    dropEnding_text resolved, ofText_behind resolved, behind]

theorem route_down (names more : List Text) : route (names ++ more) names = more := by
  induction names with
  | nil => cases more <;> simp [route]
  | cons name rest ih => simpa [route] using ih

theorem describe_split (dot : s ≠ '.') {target place : Location} (goal : Resolved s target)
    (same : target.drive = place.drive) :
    Text.splitOn [s] (describe [s] target place) =
      if route target.names place.names = [] then [current]
      else route target.names place.names := by
  have free : ∀ piece ∈ route target.names place.names, s ∉ piece := by
    obtain ⟨common, up, rest, ht, _, way⟩ := route_split target.names place.names
    intro piece member
    rw [way] at member
    rcases List.mem_append.mp member with above | below
    · rw [List.eq_of_mem_replicate above]
      simp [parent, dot]
    · exact (goal.names piece (ht ▸ List.mem_append_right _ below)).free
  rw [describe, if_pos same]
  split
  · rename_i none
    rw [if_pos none, Text.split_free (by simp [current, dot])]
  · rename_i inhabited
    rw [if_neg inhabited, Text.split_glue inhabited free]

/-- A printed route is taken for an absolute path exactly if it only goes down, and first to a
name that looks like a drive. -/
theorem describe_absolute_iff (dot : s ≠ '.') {target place : Location}
    (goal : Resolved s target) (same : target.drive = place.drive) :
    isAbsolute [s] (describe [s] target place) = true ↔
      ∃ name rest, isDrive name = true ∧ target = place.down (name :: rest) := by
  have pieces := describe_split dot goal same
  constructor
  · intro absolute
    have first := absolute_drive absolute
    rw [Text.first, pieces] at first
    obtain ⟨common, up, rest, ht, hr, way⟩ := route_split target.names place.names
    rw [way] at first
    cases up with
    | cons other more =>
      simp [List.replicate_succ, parent, isDrive] at first
    | nil =>
      cases rest with
      | nil => simp [current, isDrive] at first
      | cons name more =>
        refine ⟨name, more, by simpa using first, ?_⟩
        rw [Location.down, hr, List.append_nil, ← ht, ← same]
  · intro h
    obtain ⟨name, rest, drive, rfl⟩ := h
    have named : IsName s name := goal.names name (by simp)
    rw [down_names, route_down] at pieces
    have filled : describe [s] (place.down (name :: rest)) place ≠ [] := by
      intro empty
      rw [empty, Text.splitOn_char_nil] at pieces
      simp only [List.cons_ne_nil, if_false, List.cons.injEq] at pieces
      exact named.filled pieces.1.symm
    simp [isAbsolute, Text.first, pieces, drive, filled]

theorem visited_describe (dot : s ≠ '.') {target place : Location} (goal : Resolved s target)
    (same : target.drive = place.drive) :
    (Text.splitOn [s] (describe [s] target place)).foldl visit place.names.reverse =
      target.names.reverse := by
  have way : (route target.names place.names).foldl visit place.names.reverse = _ :=
    visited_route goal.names
  rw [describe_split dot goal same, ← way]
  split
  · rename_i none
    simp [none, visit]
  · rfl

theorem describe_misread (dot : s ≠ '.') {target place : Location} (goal : Resolved s target)
    (same : target.drive = place.drive)
    (absolute : isAbsolute [s] (describe [s] target place) = true) :
    ofText [s] (describe [s] target place) ≠ target := by
  have pieces := describe_split dot goal same
  obtain ⟨name, rest, _, rfl⟩ := (describe_absolute_iff dot goal same).mp absolute
  rw [down_names, route_down, if_neg (List.cons_ne_nil name rest)] at pieces
  have plain : ∀ other ∈ rest, IsName s other := fun other member =>
    goal.names other (List.mem_append_right _ (List.mem_cons_of_mem _ member))
  intro back
  have names := congrArg (fun location => location.names.length) back
  simp only [ofText, pieces, List.tail_cons, visited_names rest [] plain, down_names,
    List.length_append, List.length_reverse, List.length_cons, List.append_nil] at names
  omega

/-- The way to a place, printed and read back at the reference, leads to the place, unless it only
goes down and begins with a name that looks like a drive. It always comes to a result. -/
theorem relative_leads_back_iff (dot : s ≠ '.') {directory : Text}
    (absolute : isAbsolute [s] directory = true) (path : Text) (base destination : Option Text) :
    ∃ target place text,
      resolve [s] path base (.ok directory) = .ok target ∧
      reference [s] base (.ok destination) (.ok directory) = .ok place ∧
      relative [s] path base (.ok destination) (.ok directory) = .ok text ∧
      ∀ here, normalize [s] text (some (place.text [s])) here =
          normalize [s] path base (.ok directory) ↔
        ¬ ∃ name rest, isDrive name = true ∧ target = place.down (name :: rest) := by
  have anchored : Anchored s (.ok directory) := by
    intro found given
    obtain rfl := Except.ok.inj given
    exact absolute_drive absolute
  obtain ⟨target, found⟩ := resolve_total s directory path base
  obtain ⟨place, referred⟩ := reference_total s directory base destination
  have goal := resolve_resolved anchored found
  have resolved := reference_resolved anchored referred
  refine ⟨target, place, describe [s] target place, found, referred, ?_, fun here => ?_⟩
  · simp [relative, found, referred, bind, Except.bind, pure, Except.pure]
  have answer : normalize [s] path base (.ok directory) = .ok (target.text [s]) := by
    rw [normalize, found]
    rfl
  rw [answer]
  by_cases same : target.drive = place.drive
  · rw [← describe_absolute_iff dot goal same]
    cases read : isAbsolute [s] (describe [s] target place) with
    | false =>
      rw [normalize_behind resolved read, visited_describe dot goal same, List.reverse_reverse,
        ← same]
      simp
    | true =>
      have elsewhere := describe_misread dot goal same read
      have drive := absolute_drive read
      have other : (ofText [s] (describe [s] target place)).text [s] ≠ target.text [s] :=
        fun back => elsewhere (text_injective (ofText_resolved drive) goal back)
      simp [normalize, resolve, expand_of_isAbsolute read, Except.map, other]
  · have apart : ¬ ∃ name rest, isDrive name = true ∧ target = place.down (name :: rest) := by
      intro h
      obtain ⟨name, rest, _, rfl⟩ := h
      exact same rfl
    rw [describe, if_neg same, normalize_text goal]
    exact iff_of_true rfl apart

theorem relative_leads_back_iff_sibling :
    ∃ text, relative ['/'] ['/', 'a', '/', 'c'] (some ['/', 'a', '/', 'b']) (.ok none)
        (.ok ['/']) = .ok text ∧
      normalize ['/'] text (some ['/', 'a', '/', 'b']) (.ok ['/']) = .ok ['/', 'a', '/', 'c'] := by
  obtain ⟨target, place, text, found, referred, told, back⟩ :=
    relative_leads_back_iff (by decide) (show isAbsolute ['/'] ['/'] = true from rfl)
      ['/', 'a', '/', 'c'] (some ['/', 'a', '/', 'b']) none
  obtain rfl : ⟨[], [['a'], ['c']]⟩ = target := Except.ok.inj found
  obtain rfl : ⟨[], [['a'], ['b']]⟩ = place := Except.ok.inj referred
  refine ⟨text, told, (back (.ok ['/'])).mpr ?_⟩
  intro h
  obtain ⟨name, rest, _, same⟩ := h
  have sizes := congrArg (fun location => location.names.length) same
  simp at sizes

/-- A name that looks like a drive is lost: the way to it is read as an absolute path. -/
theorem relative_strays :
    ∃ place text,
      reference ['/'] (some ['/']) (.ok none) (.ok ['/']) = .ok place ∧
      relative ['/'] ['/', 'C', ':', '/', 'x'] (some ['/']) (.ok none) (.ok ['/']) = .ok text ∧
      normalize ['/'] text (some (place.text ['/'])) (.ok ['/']) ≠
        normalize ['/'] ['/', 'C', ':', '/', 'x'] (some ['/']) (.ok ['/']) := by
  refine ⟨⟨[], []⟩, ['C', ':', '/', 'x'], rfl, rfl, ?_⟩
  have read : normalize ['/'] ['C', ':', '/', 'x'] (some ['/']) (.ok ['/']) =
      .ok ['C', ':', '/', 'x'] := rfl
  have target : normalize ['/'] ['/', 'C', ':', '/', 'x'] (some ['/']) (.ok ['/']) =
      .ok ['/', 'C', ':', '/', 'x'] := rfl
  rw [target]
  intro same
  exact absurd (Except.ok.inj (read.symm.trans same)) (by decide)

end PathGlob.Location
