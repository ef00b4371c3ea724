import PathGlob.Proofs.Kinds

namespace PathGlob
variable {s : Char}
open Location

namespace Nodes

theorem empty_tree (s : Char) : Tree s [] where
  resolved := by simp [get]
  roots := by simp [get]
  entered := by simp [get]
  listed := by simp [get]
  distinct := by simp [get]

theorem Tree.plant {nodes : Nodes} (tree : Tree s nodes) {drive : Text}
    (resolved : Resolved s ⟨drive, []⟩) :
    Tree s (nodes ++ [((Location.mk drive []).text [s], .directory [])]) := by
  have keep : ∀ {other node}, nodes.get other = some node →
      get (nodes ++ [((Location.mk drive []).text [s], .directory [])]) other = some node := by
    intro other node there
    rw [get_append, there, Option.some_or]
  have cases : ∀ {other node},
      get (nodes ++ [((Location.mk drive []).text [s], .directory [])]) other = some node →
      nodes.get other = some node ∨
        other = (Location.mk drive []).text [s] ∧ node = .directory [] := by
    intro other node there
    rw [get_append] at there
    cases old : nodes.get other with
    | some found =>
      rw [old, Option.some_or] at there
      exact Or.inl there
    | none =>
      rw [old, Option.none_or] at there
      split at there
      · rename_i here
        exact Or.inr ⟨here, by simpa using there.symm⟩
      · simp at there
  constructor
  case resolved =>
    intro key there
    obtain ⟨node, found⟩ := Option.isSome_iff_exists.mp there
    rcases cases found with old | ⟨here, _⟩
    · exact tree.resolved key (by simp [old])
    · exact ⟨_, resolved, here⟩
  case roots =>
    intro other node found
    rcases cases found with old | ⟨_, new⟩
    · exact tree.roots other node old
    · exact ⟨[], new⟩
  case entered =>
    intro place name inside there
    obtain ⟨node, found⟩ := Option.isSome_iff_exists.mp there
    rcases cases found with old | ⟨here, _⟩
    · obtain ⟨names, top, member⟩ := tree.entered place name inside (by simp [old])
      exact ⟨names, keep top, member⟩
    · have same := text_injective inside resolved here
      simp [Location.down] at same
  case listed =>
    intro place names inside found name member
    rcases cases found with old | ⟨_, new⟩
    · obtain ⟨named, there⟩ := tree.listed place names inside old name member
      obtain ⟨node, below⟩ := Option.isSome_iff_exists.mp there
      exact ⟨named, by simp [keep below]⟩
    · obtain rfl : names = [] := by simpa using new
      simp at member
  case distinct =>
    intro place names inside found
    rcases cases found with old | ⟨_, new⟩
    · exact tree.distinct place names inside old
    · obtain rfl : names = [] := by simpa using new
      exact List.nodup_nil

def planted (s : Char) (nodes : Nodes) (drive : Text) : Nodes :=
  if (nodes.get ((Location.mk drive []).text [s])).isSome then nodes
  else nodes ++ [((Location.mk drive []).text [s], .directory [])]

theorem Tree.planted {nodes : Nodes} (tree : Tree s nodes) {drive : Text}
    (rooted : Resolved s ⟨drive, []⟩) : Tree s (nodes.planted s drive) := by
  unfold Nodes.planted
  split
  · exact tree
  · exact tree.plant rooted

theorem Tree.kind_planted {nodes : Nodes} (tree : Tree s nodes) {drive : Text} {place : Location}
    {directory : Bool} (rooted : Resolved s ⟨drive, []⟩) (inside : Resolved s place) :
    (nodes.planted s drive).kind s place = some directory ↔
      nodes.kind s place = some directory ∨ (place = ⟨drive, []⟩ ∧ directory = true) := by
  unfold Nodes.planted
  split
  · rename_i there
    obtain ⟨node, held⟩ := Option.isSome_iff_exists.mp there
    obtain ⟨names, rfl⟩ := tree.roots drive node held
    constructor
    · exact Or.inl
    · intro h
      rcases h with old | ⟨rfl, rfl⟩
      · exact old
      · exact kind_directory.mpr ⟨names, held⟩
  · rename_i absent
    have none := Option.not_isSome_iff_eq_none.mp absent
    unfold kind
    rw [get_append]
    by_cases same : place = ⟨drive, []⟩
    · subst same
      simp [none, Node.isDirectory, eq_comm]
    · have apart : place.text [s] ≠ (Location.mk drive []).text [s] :=
        fun equal => same (text_injective inside rooted equal)
      simp [apart, same]

end Nodes

namespace Memory

/-- A volume for the separator whose nodes are a tree. -/
structure Sound (s : Char) (memory : Memory) : Prop where
  sep : memory.sep = [s]
  tree : memory.nodes.Tree s

theorem Sound.anchored {memory : Memory} (sound : Sound s memory) : Anchored s memory.here := by
  rw [here, sound.sep]
  exact checked_anchored _

theorem root_resolved {here : Directory} (anchored : Anchored s here) {top : Text}
    (found : Location.root [s] here = .ok top) :
    ∃ drive, Resolved s ⟨drive, []⟩ ∧ top = (Location.mk drive []).text [s] := by
  unfold Location.root at found
  split at found
  · rename_i slash
    obtain rfl : [s] = top := by simpa using found
    exact ⟨[], ⟨rfl, by simp, by simp⟩, by rw [root_text]; rfl⟩
  · obtain ⟨directory, given, rfl⟩ := map_ok_iff.mp found
    have first := ofText_resolved (anchored directory given)
    exact ⟨_, ⟨first.drive, first.driveFree, by simp⟩, by rw [root_text]; rfl⟩

theorem blank_sound {cwd : Value} {memory : Memory} (made : blank [s] cwd = .ok memory) :
    Sound s memory := by
  unfold blank at made
  obtain ⟨top, found, made⟩ := bind_ok_iff.mp made
  have same : memory = ⟨[s], cwd, [(top, .directory [])], []⟩ := by
    simpa [pure, Except.pure] using made.symm
  subst same
  obtain ⟨drive, resolved, rfl⟩ := root_resolved (checked_anchored _) found
  exact ⟨rfl, (Nodes.empty_tree s).plant resolved⟩

theorem add_ok {asDirectory : Bool} {memory after : Memory} {name : Value}
    (added : add asDirectory memory name = .ok after) :
    ∃ path place nodes, name.asText .path = .ok path ∧
      resolve memory.sep path none memory.here = .ok place ∧
      Nodes.place memory.sep asDirectory
        (if (memory.nodes.get (place.drive ++ memory.sep)).isSome then memory.nodes
          else memory.nodes ++ [(place.drive ++ memory.sep, .directory [])])
        (place.drive ++ memory.sep) place.names = .ok nodes ∧
      after = { memory with nodes := nodes } := by
  unfold add at added
  obtain ⟨path, given, added⟩ := bind_ok_iff.mp added
  obtain ⟨place, found, added⟩ := bind_ok_iff.mp added
  obtain ⟨nodes, placed, made⟩ := bind_ok_iff.mp added
  exact ⟨path, place, nodes, given, found, placed, by simpa [pure, Except.pure] using made.symm⟩

theorem deny_ok {memory after : Memory} {name : Value} (done : deny memory name = .ok after) :
    ∃ path key, name.asText .path = .ok path ∧ memory.key path = .ok key ∧
      after = { memory with denied := memory.denied ++ [key] } := by
  unfold deny at done
  obtain ⟨path, given, done⟩ := bind_ok_iff.mp done
  obtain ⟨key, found, made⟩ := bind_ok_iff.mp done
  exact ⟨path, key, given, found, by simpa [pure, Except.pure] using made.symm⟩

theorem add_sound {asDirectory : Bool} {memory after : Memory} {name : Value}
    (sound : Sound s memory) (added : add asDirectory memory name = .ok after) :
    Sound s after := by
  obtain ⟨path, place, nodes, _, found, placed, rfl⟩ := add_ok added
  rw [sound.sep] at found placed
  have resolved := resolve_resolved sound.anchored found
  have rooted : Resolved s ⟨place.drive, []⟩ := ⟨resolved.drive, resolved.driveFree, by simp⟩
  rw [← root_text s place.drive] at placed
  have top := (sound.tree.kind_planted rooted rooted).mpr (Or.inr ⟨rfl, rfl⟩)
  obtain ⟨listing, held⟩ := Nodes.kind_directory.mp top
  exact ⟨sound.sep,
    Nodes.place_tree (sound.tree.planted rooted) rooted resolved.names held placed⟩

theorem deny_sound {memory after : Memory} {name : Value} (sound : Sound s memory)
    (done : deny memory name = .ok after) : Sound s after := by
  obtain ⟨path, key, _, _, rfl⟩ := deny_ok done
  exact ⟨sound.sep, sound.tree⟩

theorem denied_sound {memory after : Memory} {denied : List Value} (sound : Sound s memory)
    (done : denied.foldlM deny memory = .ok after) : Sound s after :=
  foldlM_keeps (fun _ _ _ before step => deny_sound before step) denied sound done

theorem build_keeps (keep : Memory → Prop) {sep : Text} {cwd : Value}
    {directories files denied : List Value} {memory : Memory}
    (blanked : ∀ first, blank sep cwd = .ok first → keep first)
    (adds : ∀ asDirectory before item after, keep before →
      add asDirectory before item = .ok after → keep after)
    (denies : ∀ before item after, keep before → deny before item = .ok after → keep after)
    (made : build sep cwd directories files denied = .ok memory) : keep memory := by
  unfold build at made
  obtain ⟨first, begun, made⟩ := bind_ok_iff.mp made
  obtain ⟨second, entered, made⟩ := bind_ok_iff.mp made
  obtain ⟨third, filed, made⟩ := bind_ok_iff.mp made
  have withDirectories := foldlM_keeps (adds true) directories (blanked first begun) entered
  have withFiles := foldlM_keeps (adds false) files withDirectories filed
  exact foldlM_keeps denies denied withFiles made

theorem build_sound {cwd : Value} {directories files denied : List Value} {memory : Memory}
    (made : build [s] cwd directories files denied = .ok memory) : Sound s memory :=
  build_keeps (Sound s) (fun _ => blank_sound) (fun _ _ _ _ before => add_sound before)
    (fun _ _ _ before => deny_sound before) made

theorem buildEmpty_sound {fault : Fault} {cwd : Value} {names denied : List Value}
    {memory : Memory} (made : buildEmpty fault cwd names denied = .ok memory) :
    Sound '/' memory := by
  unfold buildEmpty at made
  cases names with
  | nil =>
    refine denied_sound ⟨rfl, ?_⟩ made
    have bare : Resolved '/' ⟨[], []⟩ := ⟨rfl, by simp, by simp⟩
    exact (Nodes.empty_tree '/').plant bare
  | cons name rest =>
    obtain ⟨path, _, made⟩ := bind_ok_iff.mp made
    obtain ⟨_, _, made⟩ := bind_ok_iff.mp made
    simp [throw, throwThe, MonadExceptOf.throw] at made

theorem build_sep {sep : Text} {cwd : Value} {directories files denied : List Value}
    {memory : Memory} (made : build sep cwd directories files denied = .ok memory) :
    memory.sep = sep := by
  refine build_keeps (·.sep = sep) ?_ ?_ ?_ made
  · intro first blanked
    obtain ⟨top, _, blanked⟩ := bind_ok_iff.mp blanked
    obtain rfl := Except.ok.inj blanked
    rfl
  · intro asDirectory before item after kept added
    obtain ⟨_, _, _, _, _, _, rfl⟩ := add_ok added
    exact kept
  · intro before item after kept done
    obtain ⟨_, _, _, _, rfl⟩ := deny_ok done
    exact kept

/-- What a volume is created from: names added one by one, or nothing that could be added. -/
theorem create_cases {sep cwd : Value} {directories files denied : List Value} {memory : Memory}
    (made : create sep cwd directories files denied = .ok memory) :
    (∃ given here, build given here directories files denied = .ok memory) ∨
      ∃ fault here, buildEmpty fault here (directories ++ files) denied = .ok memory := by
  unfold create at made
  split at made
  · exact Or.inl ⟨_, _, made⟩
  · exact Or.inl ⟨_, _, made⟩
  · exact Or.inr ⟨_, _, made⟩
  · exact Or.inr ⟨_, _, made⟩
  · exact Or.inl ⟨_, _, made⟩
  · exact Or.inl ⟨_, _, made⟩
  · simp at made
  · split at made
    · simp at made
    · exact Or.inr ⟨_, _, made⟩

theorem create_sound {sep cwd : Value} {directories files denied : List Value} {memory : Memory}
    (made : create sep cwd directories files denied = .ok memory) (same : memory.sep = [s]) :
    Sound s memory := by
  rcases create_cases made with ⟨given, here, built⟩ | ⟨fault, here, empty⟩
  · have kept := build_sep built
    rw [same] at kept
    subst kept
    exact build_sound built
  · have sound := buildEmpty_sound empty
    have slash : '/' = s := by simpa [sound.sep] using same
    exact slash ▸ sound

theorem Sound.key_absolute {memory : Memory} (sound : Sound s memory) {path : Text}
    (absolute : isAbsolute [s] path = true) :
    memory.key path = .ok ((ofText [s] path).text [s]) := by
  simp [key, sound.sep, Location.normalize, resolve_of_isAbsolute absolute, Except.map]

theorem Sound.has_absolute {memory : Memory} (sound : Sound s memory) {path : Text}
    (absolute : isAbsolute [s] path = true) :
    memory.has path = .ok (memory.nodes.get ((ofText [s] path).text [s])).isSome := by
  simp [has, find, sound.key_absolute absolute, Except.map]

theorem Sound.key_text {memory : Memory} (sound : Sound s memory) {place : Location}
    (resolved : Resolved s place) : memory.key (place.text [s]) = .ok (place.text [s]) := by
  rw [sound.key_absolute (text_absolute resolved), ofText_text resolved]

theorem Sound.has_text {memory : Memory} (sound : Sound s memory) {place : Location}
    (resolved : Resolved s place) :
    memory.has (place.text [s]) = .ok (memory.nodes.get (place.text [s])).isSome := by
  rw [sound.has_absolute (text_absolute resolved), ofText_text resolved]

theorem Sound.has_iff {memory : Memory} (sound : Sound s memory) {place : Location}
    (resolved : Resolved s place) :
    memory.has (place.text [s]) = .ok true ↔ (memory.nodes.get (place.text [s])).isSome := by
  rw [sound.has_text resolved, Except.ok.injEq]

theorem Sound.hasDirectory_text {memory : Memory} (sound : Sound s memory) {place : Location}
    (resolved : Resolved s place) :
    memory.hasDirectory (place.text [s]) =
      .ok ((memory.nodes.get (place.text [s])).any Node.isDirectory) := by
  simp [hasDirectory, find, sound.key_text resolved, Except.map]

theorem list_held {memory : Memory} {path : Text} {names : List Text}
    (listing : memory.list path = .ok names) :
    ∃ key, memory.key path = .ok key ∧ memory.nodes.get key = some (.directory names) := by
  unfold list at listing
  obtain ⟨key, keyed, listing⟩ := bind_ok_iff.mp listing
  refine ⟨key, keyed, ?_⟩
  split at listing
  · cases listing
  · cases listing
  · rename_i entries held
    split at listing
    · cases listing
    · obtain rfl := Except.ok.inj listing
      exact held

def Readable (memory : Memory) (path : Text) : Prop :=
  ∀ key, memory.key path = .ok key → key ∉ memory.denied

theorem Sound.readable_iff {memory : Memory} (sound : Sound s memory) {place : Location}
    (resolved : Resolved s place) :
    memory.Readable (place.text [s]) ↔ place.text [s] ∉ memory.denied := by
  simp [Readable, sound.key_text resolved]

theorem Sound.namesIn_absolute {memory : Memory} (sound : Sound s memory) {path : Text}
    (absolute : isAbsolute [s] path = true) :
    (Walk.namesIn memory.volume path).2 =
      match memory.nodes.get ((ofText [s] path).text [s]) with
      | some (.directory names) =>
          if (ofText [s] path).text [s] ∈ memory.denied then
            .error (.refused .denied (.text path))
          else .ok names
      | _ => .ok [] := by
  have answer : memory.volume.hasDirectory path =
      .ok ((memory.nodes.get ((ofText [s] path).text [s])).any Node.isDirectory) := by
    simp [volume, hasDirectory, find, sound.key_absolute absolute, Except.map]
  cases found : memory.nodes.get ((ofText [s] path).text [s]) with
  | none => simp [Walk.namesIn, answer, found]
  | some node =>
    cases node with
    | file => simp [Walk.namesIn, answer, found, Node.isDirectory]
    | directory names =>
      simp only [Walk.namesIn, answer, found, Node.isDirectory, Option.any_some]
      simp only [volume, list, sound.key_absolute absolute, found, bind, Except.bind]
      split <;> simp_all [throw, throwThe, MonadExceptOf.throw, pure, Except.pure]

theorem Sound.namesIn_text {memory : Memory} (sound : Sound s memory) {place : Location}
    (resolved : Resolved s place) :
    (Walk.namesIn memory.volume (place.text [s])).2 =
      match memory.nodes.get (place.text [s]) with
      | some (.directory names) =>
          if place.text [s] ∈ memory.denied then
            .error (.refused .denied (.text (place.text [s])))
          else .ok names
      | _ => .ok [] := by
  rw [sound.namesIn_absolute (text_absolute resolved), ofText_text resolved]

end Memory

end PathGlob
