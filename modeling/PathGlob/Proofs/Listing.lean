import PathGlob.Proofs.Built

namespace PathGlob
variable {s : Char}
open Location

namespace Memory
variable {memory : Memory}

/-- The value names a node: it is a path, and this is its key. -/
def Names (memory : Memory) (value : Value) (key : Text) : Prop :=
  ∃ path, value.asText .path = .ok path ∧ memory.key path = .ok key

theorem denied_entries {denied : List Value} {before after : Memory}
    (done : denied.foldlM deny before = .ok after) :
    after = { before with denied := after.denied } ∧ ∀ key,
      key ∈ after.denied ↔ key ∈ before.denied ∨ ∃ value ∈ denied, before.Names value key := by
  induction denied generalizing before with
  | nil =>
    obtain rfl : before = after := by simpa [pure, Except.pure] using done
    exact ⟨rfl, by simp⟩
  | cons value rest ih =>
    rw [List.foldlM_cons, bind_ok_iff] at done
    obtain ⟨next, first, more⟩ := done
    obtain ⟨path, added, given, keyed, rfl⟩ := deny_ok first
    obtain ⟨same, later⟩ := ih more
    refine ⟨same, fun key => ?_⟩
    have here : before.Names value key ↔ key = added := by
      constructor
      · intro named
        obtain ⟨again, given', keyed'⟩ := named
        obtain rfl := Except.ok.inj (given'.symm.trans given)
        exact Except.ok.inj (keyed'.symm.trans keyed)
      · intro same
        exact ⟨path, given, same ▸ keyed⟩
    have rest_same : (∃ value ∈ rest, Names { before with denied := before.denied ++ [added] }
        value key) ↔ ∃ value ∈ rest, before.Names value key := Iff.rfl
    rw [later key, rest_same]
    simp [here, or_assoc]

theorem denied_named {denied : List Value} {before after : Memory} (none : before.denied = [])
    (done : denied.foldlM deny before = .ok after) (key : Text) :
    key ∈ after.denied ↔ ∃ value ∈ denied, after.Names value key := by
  obtain ⟨same, entries⟩ := denied_entries done
  have names : ∀ value, before.Names value key ↔ after.Names value key := by
    intro value
    rw [same]
    exact Iff.rfl
  rw [entries key, none]
  simp [names]

theorem create_denied {sep cwd : Value} {directories files denied : List Value}
    (made : create sep cwd directories files denied = .ok memory) (key : Text) :
    key ∈ memory.denied ↔ ∃ value ∈ denied, memory.Names value key := by
  rcases create_cases made with ⟨given, here, built⟩ | ⟨fault, here, empty⟩
  · unfold build at built
    obtain ⟨first, blanked, built⟩ := bind_ok_iff.mp built
    obtain ⟨second, entered, built⟩ := bind_ok_iff.mp built
    obtain ⟨third, filed, built⟩ := bind_ok_iff.mp built
    unfold blank at blanked
    obtain ⟨top, _, blanked⟩ := bind_ok_iff.mp blanked
    have start : first.denied = [] := by
      obtain rfl := Except.ok.inj blanked
      rfl
    have adds : ∀ asDirectory before (item : Value) after, before.denied = [] →
        add asDirectory before item = .ok after → after.denied = [] := by
      intro asDirectory before item after kept step
      obtain ⟨_, _, _, _, _, _, rfl⟩ := add_ok step
      exact kept
    exact denied_named (foldlM_keeps (adds false) files
      (foldlM_keeps (adds true) directories start entered) filed) built key
  · unfold buildEmpty at empty
    cases names : directories ++ files with
    | nil =>
      rw [names] at empty
      exact denied_named rfl empty key
    | cons name rest =>
      rw [names] at empty
      obtain ⟨path, _, empty⟩ := bind_ok_iff.mp empty
      obtain ⟨_, _, empty⟩ := bind_ok_iff.mp empty
      simp [throw, throwThe, MonadExceptOf.throw] at empty

/-- A directory that none of these values names. -/
def Spared (memory : Memory) (denied : List Value) (path : Text) : Prop :=
  ∀ key, memory.key path = .ok key → ∀ value ∈ denied, ¬ memory.Names value key

theorem readable_eq_spared {sep cwd : Value} {directories files denied : List Value}
    (made : create sep cwd directories files denied = .ok memory) :
    memory.Readable = memory.Spared denied := by
  funext path
  simp only [Readable, Spared, create_denied made, not_exists, not_and]

theorem Sound.key_resolved (sound : Sound s memory) {path key : Text}
    (keyed : memory.key path = .ok key) : ∃ place, Resolved s place ∧ key = place.text [s] := by
  rw [Memory.key, sound.sep] at keyed
  exact normalize_resolved sound.anchored keyed

theorem hasDirectory_held {path key : Text} (keyed : memory.key path = .ok key)
    (there : memory.hasDirectory path = .ok true) :
    ∃ names, memory.nodes.get key = some (.directory names) := by
  simp only [hasDirectory, find, keyed, Except.map, Except.ok.injEq, Option.any_eq_true] at there
  obtain ⟨node, held, directory⟩ := there
  cases node with
  | file => cases directory
  | directory names => exact ⟨names, held⟩

theorem has_held {path : Text} (there : memory.has path = .ok true) :
    ∃ key, memory.key path = .ok key ∧ (memory.nodes.get key).isSome := by
  obtain ⟨node, found, some⟩ := map_ok_iff.mp there
  obtain ⟨key, keyed, rfl⟩ := map_ok_iff.mp found
  exact ⟨key, keyed, some⟩

theorem Sound.parent_held (sound : Sound s memory) {place : Location} (resolved : Resolved s place)
    (inner : place.names ≠ []) (there : (memory.nodes.get (place.text [s])).isSome) :
    ∃ above name, Resolved s above ∧ IsName s name ∧ place = above.down [name] ∧
      memory.hasDirectory (above.text [s]) = .ok true := by
  have whole : place = (Location.mk place.drive place.names.dropLast).down
      [place.names.getLast inner] := by
    rw [Location.down, List.dropLast_concat_getLast inner]
  have below := whole ▸ resolved
  obtain ⟨names, held, _⟩ := sound.tree.entered _ _ below (whole ▸ there)
  refine ⟨_, _, below.above, below.names _ (by simp), whole, ?_⟩
  rw [sound.hasDirectory_text below.above, held]
  rfl

/-- Listings and probes describe one tree. A listing has no name twice and holds nothing but names;
in a directory that is not denied it holds exactly the names under which something is found; and
what is found is a root or is in a directory. -/
theorem listed_iff_found {sep cwd : Value} {directories files denied : List Value}
    (made : create sep cwd directories files denied = .ok memory) (same : memory.sep = [s]) :
    (∀ path names, memory.list path = .ok names →
      names.Nodup ∧ ∀ name ∈ names, IsName s name) ∧
    (∀ path key, memory.key path = .ok key → memory.hasDirectory path = .ok true →
      (∀ value ∈ denied, ¬ memory.Names value key) →
      ∃ names, memory.list path = .ok names ∧ ∀ name, IsName s name →
        (name ∈ names ↔ memory.has (Walk.child s key name) = .ok true)) ∧
    ∀ path, memory.has path = .ok true → ∃ key, memory.key path = .ok key ∧
      ((∃ drive, isDrive drive = true ∧ key = drive ++ [s]) ∨
        ∃ above name, memory.key above = .ok above ∧ memory.hasDirectory above = .ok true ∧
          IsName s name ∧ key = Walk.child s above name) := by
  have sound := create_sound made same
  refine ⟨?_, ?_, ?_⟩
  · intro path names listing
    obtain ⟨key, keyed, held⟩ := list_held listing
    obtain ⟨place, resolved, rfl⟩ := sound.key_resolved keyed
    refine ⟨sound.tree.distinct place names resolved held, fun name member => ?_⟩
    exact (sound.tree.listed place names resolved held name member).1
  · intro path key keyed there allowed
    obtain ⟨names, held⟩ := hasDirectory_held keyed there
    have open_key : key ∉ memory.denied := by
      rw [create_denied made]
      intro h
      obtain ⟨value, member, named⟩ := h
      exact allowed value member named
    refine ⟨names, ?_, fun name plain => ?_⟩
    · simp [list, keyed, held, open_key, bind, Except.bind, pure, Except.pure]
    · obtain ⟨place, resolved, rfl⟩ := sound.key_resolved keyed
      have below : Resolved s (place.down [name]) := resolved.down (by simpa using plain)
      rw [child_text resolved, sound.has_iff below]
      constructor
      · intro member
        exact (sound.tree.listed place names resolved held name member).2
      · intro found
        obtain ⟨others, again, member⟩ := sound.tree.entered place name below found
        obtain ⟨rfl⟩ := Option.some.inj (again.symm.trans held)
        exact member
  · intro path there
    obtain ⟨key, keyed, found⟩ := has_held there
    refine ⟨key, keyed, ?_⟩
    obtain ⟨place, resolved, rfl⟩ := sound.key_resolved keyed
    by_cases top : place.names = []
    · exact Or.inl ⟨place.drive, resolved.drive, by rw [← root_text, ← top]⟩
    · obtain ⟨above, name, higher, plain, rfl, directory⟩ := sound.parent_held resolved top found
      exact Or.inr ⟨_, name, sound.key_text higher, directory, plain,
        (child_text higher name).symm⟩

theorem listed_iff_found_below_denied :
    ∃ memory names, create .null .null [] [.text ['/', 'a', '/', 'b']] [.text ['/']] = .ok memory ∧
      memory.list ['/', 'a', '/', '.'] = .ok names ∧
      (['b'] ∈ names ↔ memory.has ['/', 'a', '/', 'b'] = .ok true) := by
  let memory : Memory := ⟨['/'], .text ['/'], [(['/'], .directory [['a']]),
    (['/', 'a'], .directory [['b']]), (['/', 'a', '/', 'b'], .file)], [['/']]⟩
  have made : create .null .null [] [.text ['/', 'a', '/', 'b']] [.text ['/']] = .ok memory := rfl
  have keyed : memory.key ['/', 'a', '/', '.'] = .ok ['/', 'a'] := rfl
  have open_key : ∀ value ∈ [Value.text ['/']], ¬ memory.Names value ['/', 'a'] := by
    intro value member named
    obtain rfl := List.mem_singleton.mp member
    obtain ⟨path, given, found⟩ := named
    obtain rfl := Except.ok.inj given
    have root : memory.key ['/'] = .ok ['/'] := rfl
    simp [root] at found
  obtain ⟨_, agree, _⟩ := listed_iff_found made rfl
  obtain ⟨names, listing, exactly⟩ := agree _ _ keyed rfl open_key
  exact ⟨memory, names, made, listing, exactly ['b'] (by decide)⟩

end Memory

end PathGlob
