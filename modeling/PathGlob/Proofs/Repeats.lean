import PathGlob.Proofs.Tally
import PathGlob.Proofs.Agreement
import PathGlob.Proofs.Conflicts

namespace PathGlob
variable {s : Char} {readable : Text → Prop}
open Location

theorem Segment.Takes.single {segment : Segment} {place : Text} {final : Bool}
    {block : List Text} (takes : segment.Takes s readable place final block)
    (usual : segment ≠ .globstar) : ∃ name, block = [name] := by
  cases segment with
  | literal text => exact ⟨text, takes⟩
  | wildcard expression =>
    obtain ⟨name, _, taken, _⟩ := takes
    exact ⟨name, taken⟩
  | globstar => contradiction

theorem Cut.length {place : Text} {segments : List Segment} {blocks : List (List Text)}
    (cut : Cut s readable place segments blocks) (usual : .globstar ∉ segments) :
    blocks.flatten.length = segments.length := by
  induction segments generalizing place blocks with
  | nil =>
    obtain rfl : blocks = [] := cut
    rfl
  | cons segment rest ih =>
    obtain ⟨other, later⟩ := not_or.mp (List.mem_cons.not.mp usual)
    obtain ⟨block, more, rfl, takes, cut⟩ := cut
    obtain ⟨name, rfl⟩ := takes.single (Ne.symm other)
    rw [List.flatten_cons, List.length_append, ih cut later, List.length_singleton,
      List.length_cons, Nat.add_comm]

theorem Cut.unique {place : Text} {segments : List Segment} {blocks others : List (List Text)}
    (few : segments.count .globstar ≤ 1) (cut : Cut s readable place segments blocks)
    (again : Cut s readable place segments others) (same : blocks.flatten = others.flatten) :
    blocks = others := by
  induction segments generalizing place blocks others with
  | nil => exact cut.trans again.symm
  | cons segment rest ih =>
    obtain ⟨block, more, rfl, takes, cut⟩ := cut
    obtain ⟨other, later, rfl, takes', again⟩ := again
    rw [List.flatten_cons, List.flatten_cons] at same
    have front : block = other ∧ more.flatten = later.flatten := by
      by_cases globstar : segment = .globstar
      -- what is left behind the only globstar has a fixed length, and so has its block
      · have usual : .globstar ∉ rest := by
          rw [globstar, List.count_cons_self] at few
          exact List.count_eq_zero.mp (by omega)
        exact List.append_inj' same ((cut.length usual).trans (again.length usual).symm)
      · obtain ⟨_, rfl⟩ := takes.single globstar
        obtain ⟨_, rfl⟩ := takes'.single globstar
        exact List.append_inj same rfl
    obtain ⟨rfl, below⟩ := front
    have fewer : rest.count .globstar ≤ 1 :=
      Nat.le_trans (List.count_le_count_cons ..) few
    rw [ih fewer cut again below]

theorem fills_self {piece : Text} (free : s ∉ piece) : Fills s piece piece := by
  induction piece with
  | nil => rfl
  | cons c rest ih =>
    obtain ⟨other, later⟩ := not_or.mp (List.mem_cons.not.mp free)
    unfold Fills
    split
    · rename_i star
      exact ⟨[c], rest, rfl, by simpa using other, ih later⟩
    · exact ⟨rest, rfl, ih later⟩

theorem takes_globstar {piece : Text} (globstar : hasGlobstar piece = true)
    (allowed : ∀ place, readable place) (place : Text) (final : Bool) {block : List Text}
    (filled : block ≠ []) : (Segment.ofPiece s piece).Takes s readable place final block := by
  rw [(Segment.ofPiece_globstar_iff s piece).mpr globstar]
  exact ⟨fun _ => filled, fun _ _ _ _ => allowed _⟩

theorem takes_self {piece : Text} (free : s ∉ piece) (allowed : ∀ place, readable place)
    (place : Text) (final : Bool) :
    (Segment.ofPiece s piece).Takes s readable place final [piece] := by
  by_cases globstar : hasGlobstar piece = true
  · exact takes_globstar globstar allowed place final (List.cons_ne_nil piece [])
  · exact (takes_piece globstar place final _).mpr
      ⟨piece, rfl, fills_self free, fun _ => allowed place⟩

/-- Blocks that the segments take wherever they are, the last one included. -/
def Suited (s : Char) (readable : Text → Prop) (pieces : List Text)
    (blocks : List (List Text)) : Prop :=
  List.Forall₂ (fun piece block => ∀ place final,
    (Segment.ofPiece s piece).Takes s readable place final block) pieces blocks

theorem Suited.cut {pieces : List Text} {blocks : List (List Text)}
    (suited : Suited s readable pieces blocks) (place : Text) :
    Cut s readable place (pieces.map (Segment.ofPiece s)) blocks := by
  induction suited generalizing place with
  | nil => rfl
  | cons takes _ ih => exact ⟨_, _, rfl, takes place _, ih _⟩

theorem suited_self {pieces : List Text} (free : ∀ piece ∈ pieces, s ∉ piece)
    (allowed : ∀ place, readable place) :
    Suited s readable pieces (pieces.map ([·])) := by
  induction pieces with
  | nil => exact List.Forall₂.nil
  | cons piece rest ih =>
    obtain ⟨here, later⟩ := List.forall_mem_cons.mp free
    exact List.Forall₂.cons (takes_self here allowed) (ih later)

theorem split_twice {pieces : List Text}
    (many : 2 ≤ (pieces.map (Segment.ofPiece s)).count .globstar) :
    ∃ front first mid second back, pieces = front ++ first :: (mid ++ second :: back) ∧
      hasGlobstar first = true ∧ hasGlobstar second = true := by
  induction pieces with
  | nil => simp at many
  | cons piece rest ih =>
    rw [List.map_cons] at many
    by_cases globstar : hasGlobstar piece = true
    · rw [(Segment.ofPiece_globstar_iff s piece).mpr globstar, List.count_cons_self] at many
      have member : .globstar ∈ rest.map (Segment.ofPiece s) := List.count_pos_iff.mp (by omega)
      obtain ⟨second, inside, same⟩ := List.mem_map.mp member
      obtain ⟨mid, back, rfl⟩ := List.append_of_mem inside
      exact ⟨[], piece, mid, second, back, rfl, globstar,
        (Segment.ofPiece_globstar_iff s second).mp same⟩
    · have other : Segment.ofPiece s piece ≠ .globstar :=
        fun same => globstar ((Segment.ofPiece_globstar_iff s piece).mp same)
      rw [List.count_cons_of_ne other] at many
      obtain ⟨front, first, mid, second, back, rfl, both⟩ := ih many
      exact ⟨piece :: front, first, mid, second, back, rfl, both⟩

theorem Suited.between {front mid back : List Text} {first second : Text}
    (free : ∀ piece ∈ front ++ first :: (mid ++ second :: back), s ∉ piece)
    (allowed : ∀ place, readable place) (globstar : hasGlobstar first = true)
    (another : hasGlobstar second = true) {block other : List Text} (filled : block ≠ [])
    (inhabited : other ≠ []) :
    Suited s readable (front ++ first :: (mid ++ second :: back))
      (front.map ([·]) ++ block :: (mid.map ([·]) ++ other :: back.map ([·]))) := by
  have usual : ∀ names : List Text, names ⊆ front ++ first :: (mid ++ second :: back) →
      Suited s readable names (names.map ([·])) :=
    fun names inside => suited_self (fun name member => free name (inside member)) allowed
  have here : ∀ place final, (Segment.ofPiece s first).Takes s readable place final block :=
    fun place final => takes_globstar globstar allowed place final filled
  have there : ∀ place final, (Segment.ofPiece s second).Takes s readable place final other :=
    fun place final => takes_globstar another allowed place final inhabited
  exact List.rel_append (usual front fun _ member => by simp [member])
    (.cons here (List.rel_append (usual mid fun _ member => by simp [member])
      (.cons there (usual back fun _ member => by simp [member]))))

theorem flatten_between (front mid back block other : List Text) :
    (front.map ([·]) ++ block :: (mid.map ([·]) ++ other :: back.map ([·]))).flatten =
      front ++ (block ++ (mid ++ (other ++ back))) := by
  have single : ∀ names : List Text, (names.map ([·])).flatten = names :=
    fun names => List.flatMap_singleton' names
  simp [single]

theorem exists_commuting (first : Text) (mid : List Text) :
    ∃ extra : List Text, extra ≠ [] ∧ mid ++ extra = extra ++ mid ∧ extra ⊆ first :: mid := by
  cases mid with
  | nil => exact ⟨[first], by simp⟩
  | cons name rest => exact ⟨name :: rest, by simp, rfl, by simp⟩

/-- Two globstars share the names between them out in two ways. -/
theorem two_cuts {pieces : List Text} (free : ∀ piece ∈ pieces, s ∉ piece)
    (many : 2 ≤ (pieces.map (Segment.ofPiece s)).count .globstar) :
    ∃ one two, one ≠ two ∧ one.flatten = two.flatten ∧ one.flatten ⊆ pieces ∧
      ∀ readable place, (∀ place, readable place) →
        Cut s readable place (pieces.map (Segment.ofPiece s)) one ∧
        Cut s readable place (pieces.map (Segment.ofPiece s)) two := by
  obtain ⟨front, first, mid, second, back, rfl, globstar, another⟩ := split_twice many
  obtain ⟨extra, filled, commutes, inside⟩ := exists_commuting first mid
  -- `extra` is taken by the second globstar, or by the first
  refine ⟨front.map ([·]) ++ [first] :: (mid.map ([·]) ++ (extra ++ [second]) :: back.map ([·])),
    front.map ([·]) ++ (first :: extra) :: (mid.map ([·]) ++ [second] :: back.map ([·])),
    ?_, ?_, ?_, fun readable place allowed => ⟨?_, ?_⟩⟩
  · intro same
    have blocks := (List.cons.inj (List.append_cancel_left same)).1
    exact filled (List.cons.inj blocks).2.symm
  · rw [flatten_between, flatten_between]
    simp only [List.append_assoc, List.cons_append, List.nil_append]
    rw [← List.append_assoc mid, commutes, List.append_assoc]
  · rw [flatten_between]
    intro name member
    have sub := @inside name
    simp only [List.mem_append, List.mem_cons] at member sub ⊢
    tauto
  · exact (Suited.between free allowed globstar another (List.cons_ne_nil first [])
      (List.append_ne_nil_of_right_ne_nil extra (List.cons_ne_nil second []))).cut place
  · exact (Suited.between free allowed globstar another (List.cons_ne_nil first extra)
      (List.cons_ne_nil second [])).cut place

namespace Memory

theorem Sound.start_text {memory : Memory} (sound : Sound s memory) {place : Location}
    (resolved : Resolved s place) {names : List Text}
    (held : memory.nodes.get (place.text [s]) = some (.directory names)) :
    (Walk.start memory.volume s (place.text [s]) none).2 = .ok (place.text [s]) := by
  have directory : memory.volume.hasDirectory (place.text [s]) = .ok true := by
    rw [show memory.volume.hasDirectory (place.text [s]) = _ from sound.hasDirectory_text resolved,
      held]
    rfl
  simp [Walk.start, text_absolute resolved, normalize_text resolved, directory, Except.map]

end Memory

namespace Glob
variable {memory : Memory} {pattern : Pattern}

theorem yields_nodup (sound : memory.Sound pattern.sep)
    (plain : ∀ segment ∈ pattern.segments, segment.Plain pattern.sep)
    (few : pattern.segments.count .globstar ≤ 1) (root : Text) (here : Option Directory) :
    (Walk.yields (Glob.run ⟨pattern, root, here⟩ memory.volume .plain).events).Nodup := by
  by_cases none : Walk.yields (Glob.run ⟨pattern, root, here⟩ memory.volume .plain).events = []
  · rw [none]
    exact List.nodup_nil
  · obtain ⟨path, yielded⟩ := List.exists_mem_of_ne_nil _ none
    obtain ⟨start, begun⟩ := begun_of_yielded yielded
    obtain ⟨place, resolved, rfl⟩ := Walk.start_resolved begun
    refine (yields_tallied sound plain resolved begun).nodup ?_
    intro one two first second same
    have places := text_injective (resolved.down first.1.plain) (resolved.down second.1.plain) same
    exact first.2.unique few second.2 (by simpa [Location.down] using places)

/-- How often a path is yielded. With one globstar at most every path comes once, whatever the
volume, the root directory and the working directory; with two of them there is a volume, of one
file and the directories above it, in which that file comes twice. -/
theorem yields_once_or_twice {source asked : Value}
    (compiled : Pattern.compile source asked = .ok pattern) :
    (pattern.segments.count .globstar ≤ 1 →
      ∀ (memory : Memory) (sep cwd : Value) (directories files denied : List Value) (root : Text)
        (here : Option Directory),
        Memory.create sep cwd directories files denied = .ok memory →
        memory.sep = [pattern.sep] →
        (Walk.yields (Glob.run ⟨pattern, root, here⟩ memory.volume .plain).events).Nodup) ∧
      (2 ≤ pattern.segments.count .globstar →
        ∃ (memory : Memory) (path : Text),
          Memory.create (.text [pattern.sep]) (.text [pattern.sep]) [] [.text path] [] =
            .ok memory ∧
          memory.sep = [pattern.sep] ∧
          2 ≤ (Walk.yields (Glob.run ⟨pattern, [pattern.sep], none⟩
            memory.volume .plain).events).count path) := by
  have plain := Pattern.segments_plain compiled
  have segments := Pattern.compile_ok compiled
  constructor
  · intro few memory sep cwd directories files denied root here made same
    exact yields_nodup (Memory.create_sound made same) plain few root here
  · intro many
    rw [segments] at many
    obtain ⟨one, two, differ, same, inside, cuts⟩ :=
      two_cuts (fun piece member => (pattern.settled_plain piece member).free) many
    have named : ∀ name ∈ one.flatten, IsName pattern.sep name :=
      fun name member => pattern.settled_plain name (inside member)
    obtain ⟨memory, made, sep, allowed, there⟩ := Memory.create_file named
    have sound := Memory.create_sound made sep
    have root : Resolved pattern.sep ⟨[], []⟩ := ⟨rfl, by simp, by simp⟩
    have above : (memory.nodes.get ((Location.mk [] []).text [pattern.sep])).isSome :=
      sound.tree.ascend (root.down named) there
    obtain ⟨node, top⟩ := Option.isSome_iff_exists.mp above
    obtain ⟨listing, rfl⟩ := sound.tree.roots [] node top
    have begun : (Glob.start ⟨pattern, [pattern.sep], none⟩ memory.volume).2 =
        .ok ((Location.mk [] []).text [pattern.sep]) := sound.start_text root top
    have below : memory.Below pattern.sep ⟨[], []⟩ one.flatten
        ((Location.mk [] one.flatten).text [pattern.sep]) := ⟨named, rfl, fun _ => there⟩
    obtain ⟨first, second⟩ := cuts memory.Readable ((Location.mk [] []).text [pattern.sep])
      fun path key _ => by simp [allowed]
    rw [← segments] at first second
    have tally := yields_tallied sound plain root begun
    exact ⟨memory, _, made, sep, tally.twice ⟨below, first⟩ ⟨same ▸ below, second⟩ differ same⟩

theorem yields_once_or_twice_around_name :
    (Walk.yields (Glob.run ⟨Pattern.ofText '/' ['*', '*'], ['/'], none⟩
        Memory.single.volume .plain).events).Nodup ∧
      ∃ (memory : Memory) (path : Text),
        Memory.create (.text ['/']) (.text ['/']) [] [.text path] [] = .ok memory ∧
        2 ≤ (Walk.yields (Glob.run ⟨Pattern.ofText '/' "**/a/**".toList, ['/'], none⟩
          memory.volume .plain).events).count path := by
  have one : Pattern.compile (.text ['*', '*']) .null = .ok (Pattern.ofText '/' ['*', '*']) := rfl
  have two : Pattern.compile (.text "**/a/**".toList) .null =
      .ok (Pattern.ofText '/' "**/a/**".toList) := rfl
  obtain ⟨memory, path, made, _, twice⟩ := (yields_once_or_twice two).2 (by decide)
  have once := (yields_once_or_twice one).1 (by decide) Memory.single .null .null [] _ [] ['/'] none
    Memory.single_made rfl
  exact ⟨once, memory, path, made, twice⟩

end Glob

end PathGlob
