import PathGlob.Proofs.Astray
import PathGlob.Proofs.Repeats

namespace PathGlob
variable {s : Char}
open Location

namespace Walk
variable {volume : Volume} {sep : Char}

theorem Reaches.append {path between goal : Text} {first rest : List Segment}
    (way : Reaches volume sep path first between) (inhabited : rest ≠ [])
    (more : Reaches volume sep between rest goal) :
    Reaches volume sep path (first ++ rest) goal := by
  induction way with
  | here => exact more
  | probe there _ ih => exact .probe there (ih more)
  | choose visible read fits _ ih => exact .choose visible read fits (ih more)
  | settle visible usual => exact .descend visible usual (.skip inhabited more)
  | descend visible usual _ ih => exact .descend visible usual (ih more)
  | skip _ _ ih => exact .skip (List.append_ne_nil_of_right_ne_nil _ inhabited) (ih more)

theorem special_seen {path name : Text} {names : List Text}
    (directory : volume.hasDirectory path = .ok true) (listing : volume.list path = .ok names)
    (special : isSpecial name = true) : name ∈ seen volume.withDots path := by
  have shown : seen volume.withDots path = current :: parent :: names := by
    simp [seen, namesIn, Volume.withDots, directory, listing, Except.map, current, parent]
  have either : name = current ∨ name = parent := by simpa [isSpecial] using special
  rcases either with rfl | rfl <;> simp [shown]

end Walk

theorem ofText_special {name : Text} (special : Walk.isSpecial name = true) (apart : s ≠ '.')
    (path : Text) :
    ofText [s] (Walk.child s path name) = ofText [s] path ∨
      ofText [s] (Walk.child s path name) =
        ⟨(ofText [s] path).drive, (ofText [s] path).names.dropLast⟩ := by
  have either : name = current ∨ name = parent := by simpa [Walk.isSpecial] using special
  rw [ofText_child, behind]
  rcases either with rfl | rfl
  · exact Or.inl (by simp [Text.split_free, current, apart, visit])
  · exact Or.inr (by simp [Text.split_free, parent, current, apart, visit])

/-- Two absolute paths to one place, which the special names in them may reach by detours. -/
structure SamePlace (s : Char) (path other : Text) : Prop where
  absolute : isAbsolute [s] path = true
  again : isAbsolute [s] other = true
  same : ofText [s] path = ofText [s] other

theorem SamePlace.child {path other : Text} (alike : SamePlace s path other) (name : Text) :
    SamePlace s (Walk.child s path name) (Walk.child s other name) :=
  ⟨child_absolute alike.absolute name, child_absolute alike.again name,
    by rw [ofText_child, ofText_child, alike.same]⟩

namespace Memory
variable {memory : Memory}

/-- There are arguments that give this memory, and this character is its separator. -/
def Made (s : Char) (memory : Memory) : Prop :=
  ∃ sep cwd directories files denied,
    create sep cwd directories files denied = .ok memory ∧ memory.sep = [s]

theorem Made.sound (made : memory.Made s) : memory.Sound s := by
  obtain ⟨_, _, _, _, _, created, same⟩ := made
  exact create_sound created same

theorem Sound.seen_alike (sound : Sound s memory) {path other : Text}
    (alike : SamePlace s path other) :
    Walk.seen memory.volume path ⊆ Walk.seen memory.volume.withDots other := by
  obtain ⟨dots, _, _, behind⟩ := Walk.seen_withDots memory.volume other
  rw [behind, sound.seen_absolute alike.absolute, alike.same, ← sound.seen_absolute alike.again]
  exact List.subset_append_right _ _

theorem Sound.has_alike (sound : Sound s memory) {path other : Text}
    (alike : SamePlace s path other) :
    memory.volume.withDots.has other = memory.volume.has path := by
  calc memory.volume.withDots.has other
      = .ok (memory.nodes.get ((ofText [s] other).text [s])).isSome :=
        sound.has_absolute alike.again
    _ = .ok (memory.nodes.get ((ofText [s] path).text [s])).isSome := by rw [alike.same]
    _ = memory.volume.has path := (sound.has_absolute alike.absolute).symm

theorem Sound.special_seen (sound : Sound s memory) (allowed : memory.denied = [])
    {path name : Text} {names : List Text} (absolute : isAbsolute [s] path = true)
    (held : memory.nodes.get ((ofText [s] path).text [s]) = some (.directory names))
    (special : Walk.isSpecial name = true) : name ∈ Walk.seen memory.volume.withDots path := by
  have directory : memory.volume.hasDirectory path = .ok true := by
    simp [volume, hasDirectory, find, sound.key_absolute absolute, held, Except.map,
      Node.isDirectory]
  have listed : memory.volume.list path = .ok names := by
    simp [volume, list, sound.key_absolute absolute, held, allowed, bind, Except.bind, pure,
      Except.pure]
  exact Walk.special_seen directory listed special

theorem Sound.reaches_withDots (sound : Sound s memory) {path other goal : Text}
    {segments : List Segment} (alike : SamePlace s path other)
    (way : Walk.Reaches memory.volume s path segments goal) :
    ∃ target, Walk.Reaches memory.volume.withDots s other segments target ∧
      SamePlace s goal target ∧ (Strays s other → Strays s target) := by
  induction way generalizing other with
  | here => exact ⟨other, .here, alike, id⟩
  | @probe path text _ _ there _ ih =>
    have below := alike.child text
    obtain ⟨target, way, ends, strays⟩ := ih below
    exact ⟨target, .probe ((sound.has_alike below).trans there) way, ends,
      fun astray => strays (astray.child text)⟩
  | @choose path _ name _ _ _ visible read fits _ ih =>
    obtain ⟨target, way, ends, strays⟩ := ih (alike.child name)
    exact ⟨target, .choose (sound.seen_alike alike visible) read fits way, ends,
      fun astray => strays (astray.child name)⟩
  | @settle path name visible usual =>
    exact ⟨_, .settle (sound.seen_alike alike visible) usual, alike.child name,
      fun astray => astray.child name⟩
  | @descend path name _ _ visible usual _ ih =>
    obtain ⟨target, way, ends, strays⟩ := ih (alike.child name)
    exact ⟨target, .descend (sound.seen_alike alike visible) usual way, ends,
      fun astray => strays (astray.child name)⟩
  | skip inhabited _ ih =>
    obtain ⟨target, way, ends⟩ := ih alike
    exact ⟨target, .skip inhabited way, ends⟩

theorem Sound.reaches_self (sound : Sound s memory) (allowed : memory.denied = [])
    {place : Location} (resolved : Resolved s place) {pieces : List Text}
    (plain : ∀ piece ∈ pieces, IsName s piece)
    (there : (memory.nodes.get ((place.down pieces).text [s])).isSome) :
    Walk.Reaches memory.volume s (place.text [s]) (pieces.map (Segment.ofPiece s))
      ((place.down pieces).text [s]) := by
  have flat : (pieces.map ([·])).flatten = pieces := List.flatMap_singleton' pieces
  have below : Below memory s place (pieces.map ([·])).flatten ((place.down pieces).text [s]) := by
    rw [flat]
    exact ⟨plain, rfl, fun _ => there⟩
  have readable : ∀ path, memory.Readable path := by
    intro path key _
    simp [allowed]
  have suited := suited_self (fun piece member => (plain piece member).free) readable
  exact sound.reaches_of_cut resolved below (suited.cut _)

theorem Sound.open_above (sound : Sound s memory) {place : Location} {names : List Text}
    (resolved : Resolved s (place.down names)) (inhabited : names ≠ [])
    (there : (memory.nodes.get ((place.down names).text [s])).isSome) :
    ∃ listing, memory.nodes.get (place.text [s]) = some (.directory listing) := by
  obtain ⟨name, rest, rfl⟩ := List.exists_cons_of_ne_nil inhabited
  have split : place.down (name :: rest) = (place.down [name]).down rest := by simp
  rw [split] at resolved there
  obtain ⟨listing, held, _⟩ :=
    sound.tree.entered place name resolved.above (sound.tree.ascend resolved there)
  exact ⟨listing, held⟩

/-- With dots the pieces lead to a path that is not normalized, if those in front of some wildcard
come to a directory, and those behind it are found from there and from one level up. -/
theorem Sound.reaches_stray (sound : Sound s memory) (allowed : memory.denied = [])
    {front back : List Text} {piece expression special : Text} {regex : Regex}
    (apart : s ≠ '.') (plain : ∀ name ∈ front ++ piece :: back, IsName s name)
    (wildcard : Segment.ofPiece s piece = .wildcard expression)
    (read : Pattern.readExpression expression = .ok regex)
    (dots : Walk.isSpecial special = true) (fits : regex.fullMatch special = true)
    {listing : List Text}
    (held : memory.nodes.get ((Location.mk [] front).text [s]) = some (.directory listing))
    (there : (memory.nodes.get ((Location.mk [] (front ++ back)).text [s])).isSome)
    (above : (memory.nodes.get ((Location.mk [] (front.dropLast ++ back)).text [s])).isSome) :
    ∃ goal, Walk.Reaches memory.volume.withDots s ((Location.mk [] []).text [s])
        ((front ++ piece :: back).map (Segment.ofPiece s)) goal ∧
      isAbsolute [s] goal = true ∧ Strays s goal := by
  have root : Resolved s ⟨[], []⟩ := ⟨rfl, by simp, by simp⟩
  have before : ∀ name ∈ front, IsName s name :=
    fun name member => plain name (List.mem_append_left _ member)
  have behind : ∀ name ∈ back, IsName s name :=
    fun name member => plain name (List.mem_append_right _ (List.mem_cons_of_mem _ member))
  have first := sound.reaches_self allowed root before (by simp [down, held])
  obtain ⟨between, way, ⟨_, absolute, leads⟩, _⟩ :=
    sound.reaches_withDots ⟨text_absolute root, text_absolute root, rfl⟩ first
  rw [ofText_text (root.down before)] at leads
  have leads : ofText [s] between = ⟨[], front⟩ := leads.symm
  have visible := sound.special_seen allowed absolute (leads ▸ held) dots
  have again := child_absolute absolute special
  have onward : ∃ names, (∀ name ∈ names, name ∈ front) ∧
      ofText [s] (Walk.child s between special) = ⟨[], names⟩ ∧
      (memory.nodes.get ((Location.mk [] (names ++ back)).text [s])).isSome := by
    rcases ofText_special dots apart between with same | up
    · exact ⟨front, fun _ member => member, same.trans leads, there⟩
    · exact ⟨front.dropLast, List.dropLast_subset front, by rw [up, leads], above⟩
  obtain ⟨names, among, same, node⟩ := onward
  have resolved : Resolved s ⟨[], names⟩ :=
    ⟨rfl, by simp, fun name member => before name (among name member)⟩
  have second := sound.reaches_self allowed resolved behind node
  obtain ⟨goal, rest, ends, strays⟩ := sound.reaches_withDots
    ⟨text_absolute resolved, again, (ofText_text resolved).trans same.symm⟩ second
  refine ⟨goal, ?_, ends.again, strays (strays_special dots apart between)⟩
  rw [List.map_append, List.map_cons, wildcard]
  exact way.append (List.cons_ne_nil _ _) (.choose visible read fits rest)

theorem exists_detour {front back : List Text} {piece : Text}
    (plain : ∀ name ∈ front ++ piece :: back, IsName s name) :
    ∃ memory, Made s memory ∧ memory.denied = [] ∧
      (∃ names, memory.nodes.get ((Location.mk [] []).text [s]) = some (.directory names)) ∧
      (∃ names, memory.nodes.get ((Location.mk [] front).text [s]) = some (.directory names)) ∧
      (memory.nodes.get ((Location.mk [] (front ++ back)).text [s])).isSome ∧
      (memory.nodes.get ((Location.mk [] (front.dropLast ++ back)).text [s])).isSome := by
  have resolved : ∀ names, names ⊆ front ++ piece :: back → Resolved s ⟨[], names⟩ :=
    fun names among => ⟨rfl, by simp, fun name member => plain name (among member)⟩
  have among : front.dropLast ⊆ front ++ piece :: back :=
    List.Subset.trans (List.dropLast_subset front) (List.subset_append_left _ _)
  -- One name more at the end makes directories of all that stands in front of it.
  have deep := resolved (front ++ (back ++ [piece])) (by simp)
  have high := resolved (front.dropLast ++ (back ++ [piece])) (by simp [among])
  have calm : ¬ Conflicting s [s]
      [(Location.mk [] (front ++ (back ++ [piece]))).text [s],
        (Location.mk [] (front.dropLast ++ (back ++ [piece]))).text [s]] [] := by
    intro conflicting
    obtain ⟨_, ⟨_, absent, _⟩, _⟩ := conflicting
    cases absent
  obtain ⟨memory, made, sep, allowed, there⟩ := create_calm (root_here s) calm
  have sound := create_sound made sep
  have node := there _ [] deep (Or.inl (named_text (by simpa using deep) (by simp)))
  have near := there ⟨[], front ++ back⟩ [piece] (resolved _ (by simp))
    (Or.inl (named_text (by simpa [down] using deep) (by simp [down])))
  have far := there ⟨[], front.dropLast ++ back⟩ [piece] (resolved _ (by simp [among]))
    (Or.inl (named_text (by simpa [down] using high) (by simp [down])))
  exact ⟨memory, ⟨_, _, _, _, _, made, sep⟩, allowed, sound.open_above deep (by simp) node,
    sound.open_above deep (by simp) node, near, far⟩

end Memory

namespace Glob
variable {memory : Memory} {pattern : Pattern}

theorem mem_yields_withDots {glob : Glob} {place : Location}
    (sound : memory.Sound glob.pattern.sep)
    (plain : ∀ segment ∈ glob.pattern.segments, segment.Plain glob.pattern.sep)
    (resolved : Resolved glob.pattern.sep place)
    (begun : (glob.start memory.volume).2 = .ok (place.text [glob.pattern.sep])) (path : Text) :
    path ∈ Walk.yields (glob.run memory.volume.withDots .plain).events ↔
      Walk.Reaches memory.volume.withDots glob.pattern.sep (place.text [glob.pattern.sep])
        glob.pattern.segments path := by
  have ended := run_ended_withDots sound plain resolved begun Hooks.plain
  have begun : (glob.start memory.volume.withDots).2 = .ok (place.text [glob.pattern.sep]) := begun
  rw [run_begun begun] at ended
  rw [yields_begun begun,
    (sound.steady_withDots Hooks.plain).run_yields
      (fun frame standing => (sound.sure_standing standing).leads)
      (fun frame member => (placed_start resolved plain frame member).standing) ended]
  simp

theorem dots_add_some {source asked : Value}
    (compiled : Pattern.compile source asked = .ok pattern) (apart : pattern.sep ≠ '.')
    (takes : TakesDots pattern.segments) :
    ∃ (memory : Memory) (path : Text), memory.Made pattern.sep ∧
      path ∈ Walk.yields (Glob.run ⟨pattern, [pattern.sep], none⟩
        memory.volume.withDots .plain).events ∧
      path ∉ Walk.yields (Glob.run ⟨pattern, [pattern.sep], none⟩ memory.volume .plain).events := by
  have segments := Pattern.compile_ok compiled
  have plain := Pattern.segments_plain compiled
  obtain ⟨expression, regex, special, member, read, dots, fits⟩ := takes
  rw [segments] at member
  obtain ⟨piece, inside, wildcard⟩ := List.mem_map.mp member
  obtain ⟨front, back, split⟩ := List.append_of_mem inside
  have named : ∀ name ∈ front ++ piece :: back, IsName pattern.sep name :=
    split ▸ pattern.settled_plain
  have root : Resolved pattern.sep ⟨[], []⟩ := ⟨rfl, by simp, by simp⟩
  obtain ⟨memory, made, allowed, ⟨_, top⟩, ⟨_, held⟩, near, far⟩ := Memory.exists_detour named
  have sound := made.sound
  have begun : (Glob.start ⟨pattern, [pattern.sep], none⟩ memory.volume).2 =
      .ok ((Location.mk [] []).text [pattern.sep]) := sound.start_text root top
  obtain ⟨goal, way, absolute, strays⟩ :=
    sound.reaches_stray allowed apart named wildcard read dots fits held near far
  refine ⟨memory, goal, made, ?_, ?_⟩
  · rw [mem_yields_withDots sound plain root begun, segments, split]
    exact way
  · have placed : Placed pattern.sep
        ⟨(Location.mk [] []).text [pattern.sep], pattern.segments⟩ :=
      placed_start root plain _ (List.mem_singleton_self _)
    rw [yields_gathered sound plain root begun, ← sound.scattered_normal apart placed,
      List.mem_filter]
    simp [strays.not_normal absolute]

/-- For every separator apart from a dot, the walks with dots yield what those without them yield,
in that order, and besides only paths that are not normalized. They yield the same wherever they
start and whatever they find exactly if no special name fits one of the wildcards. -/
theorem dots_add_strays {source asked : Value}
    (compiled : Pattern.compile source asked = .ok pattern) (apart : pattern.sep ≠ '.') :
    (∀ (memory : Memory) (root : Text) (here : Option Directory), memory.Made pattern.sep →
      (Walk.yields (Glob.run ⟨pattern, root, here⟩ memory.volume.withDots .plain).events).filter
          (isNormal [pattern.sep]) =
        Walk.yields (Glob.run ⟨pattern, root, here⟩ memory.volume .plain).events) ∧
    ((∀ (memory : Memory) (root : Text) (here : Option Directory), memory.Made pattern.sep →
      Walk.yields (Glob.run ⟨pattern, root, here⟩ memory.volume.withDots .plain).events =
        Walk.yields (Glob.run ⟨pattern, root, here⟩ memory.volume .plain).events) ↔
      ¬ TakesDots pattern.segments) := by
  have plain := Pattern.segments_plain compiled
  refine ⟨fun memory root here made => ?_, fun alike takes => ?_,
    fun avoids memory root here made => ?_⟩
  · exact (@yields_withDots memory ⟨pattern, root, here⟩ made.sound plain apart).1
  · obtain ⟨memory, path, made, dotted, bare⟩ := dots_add_some compiled apart takes
    exact bare (alike memory [pattern.sep] none made ▸ dotted)
  · exact (@yields_withDots memory ⟨pattern, root, here⟩ made.sound plain apart).2 avoids

/-- Two levels below `/r` there is one file. The special names lead to eight paths more, none of
them normalized. -/
theorem dots_add_strays_above :
    ∃ memory, Memory.create .null .null [] [.text "/r/a/b".toList] [] = .ok memory ∧
      Walk.yields (Glob.run ⟨Pattern.ofText '/' ['*', '/', '*'], ['/', 'r'], none⟩
          memory.volume.withDots .plain).events =
        ["/r/a/b", "/r/a/..", "/r/a/.", "/r/../r", "/r/../..", "/r/../.", "/r/./a", "/r/./..",
          "/r/./."].map String.toList ∧
      (Walk.yields (Glob.run ⟨Pattern.ofText '/' ['*', '/', '*'], ['/', 'r'], none⟩
          memory.volume.withDots .plain).events).filter (isNormal ['/']) = ["/r/a/b".toList] := by
  let memory : Memory := ⟨['/'], .text ['/'], [(['/'], .directory [['r']]),
    (['/', 'r'], .directory [['a']]), (['/', 'r', '/', 'a'], .directory [['b']]),
    (['/', 'r', '/', 'a', '/', 'b'], .file)], []⟩
  let glob : Glob := ⟨Pattern.ofText '/' ['*', '/', '*'], ['/', 'r'], none⟩
  have made : Memory.create .null .null [] [.text "/r/a/b".toList] [] = .ok memory := rfl
  have compiled : Pattern.compile (.text ['*', '/', '*']) .null = .ok glob.pattern := rfl
  have without : Walk.yields (glob.run memory.volume .plain).events = ["/r/a/b".toList] := by
    decide +kernel
  have strays := (dots_add_strays compiled (by decide)).1 memory ['/', 'r'] none
    ⟨_, _, _, _, _, made, rfl⟩
  exact ⟨memory, made, by decide +kernel, strays.trans without⟩

/-- Below `/r` there is one name, but a star takes the special names as well. -/
theorem dots_yield_more :
    ∃ memory, Memory.create .null .null [] [.text ['/', 'r', '/', 'a']] [] = .ok memory ∧
      Walk.yields (Glob.run ⟨Pattern.ofText '/' ['*'], ['/', 'r'], none⟩
        memory.volume .plain).events = [['/', 'r', '/', 'a']] ∧
      Walk.yields (Glob.run ⟨Pattern.ofText '/' ['*'], ['/', 'r'], none⟩
        memory.volume.withDots .plain).events =
        [['/', 'r', '/', 'a'], ['/', 'r', '/', '.', '.'], ['/', 'r', '/', '.']] := by
  refine ⟨⟨['/'], .text ['/'], [(['/'], .directory [['r']]), (['/', 'r'], .directory [['a']]),
    (['/', 'r', '/', 'a'], .file)], []⟩, rfl, ?_, ?_⟩ <;> decide +kernel

end Glob

end PathGlob
