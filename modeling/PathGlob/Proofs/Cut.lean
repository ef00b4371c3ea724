import PathGlob.Proofs.Built
import PathGlob.Proofs.Compiled
import PathGlob.Proofs.Ways

/-!
What the matches of a glob are, said without a walk. The names below the start are cut into
blocks, one for each segment, and each segment says which blocks it takes; directories in which a
name is found by listing must not be denied.
-/
namespace PathGlob
variable {s : Char}
open Location

/-- Which names, one below the other, a segment takes at a place. The last globstar takes some. -/
def Segment.Takes (s : Char) (readable : Text → Prop) (place : Text) (final : Bool) :
    Segment → List Text → Prop
  | .literal text, block => block = [text]
  | .wildcard expression, block => ∃ name regex, block = [name] ∧
      Pattern.readExpression expression = .ok regex ∧ regex.fullMatch name = true ∧ readable place
  | .globstar, block => (final = true → block ≠ []) ∧
      ∀ above name below, block = above ++ name :: below →
        readable (above.foldl (Walk.child s) place)

/-- One block for each segment, each of them below the blocks before it. -/
def Cut (s : Char) (readable : Text → Prop) : Text → List Segment → List (List Text) → Prop
  | _, [], blocks => blocks = []
  | place, segment :: rest, blocks => ∃ block more, blocks = block :: more ∧
      segment.Takes s readable place rest.isEmpty block ∧
      Cut s readable (block.foldl (Walk.child s) place) rest more

def Segment.Plain (s : Char) : Segment → Prop
  | .literal text => IsName s text
  | .wildcard expression => ∃ regex, Pattern.readExpression expression = .ok regex
  | .globstar => True

theorem Segment.ofPiece_plain {piece : Text} (plain : IsName s piece) :
    (Segment.ofPiece s piece).Plain s := by
  unfold Segment.ofPiece
  split
  · trivial
  · split
    · exact ⟨_, Regex.read_wildcard s piece⟩
    · exact plain

theorem Pattern.segments_plain {source sep : Value} {p : Pattern}
    (compiled : Pattern.compile source sep = .ok p) :
    ∀ segment ∈ p.segments, segment.Plain p.sep := by
  rw [Pattern.compile_ok compiled]
  intro segment member
  obtain ⟨piece, here, rfl⟩ := List.mem_map.mp member
  exact Segment.ofPiece_plain (p.settled_plain piece here)

theorem Cut.filled {readable : Text → Prop} {place : Text} {segments : List Segment}
    {blocks : List (List Text)} (inhabited : segments ≠ [])
    (cut : Cut s readable place segments blocks) : blocks.flatten ≠ [] := by
  induction segments generalizing place blocks with
  | nil => contradiction
  | cons segment rest ih =>
    obtain ⟨block, more, rfl, takes, later⟩ := cut
    cases rest with
    | nil =>
      have some_name : block ≠ [] := by
        cases segment with
        | literal text =>
          have taken : block = [text] := takes
          simp [taken]
        | wildcard expression =>
          obtain ⟨name, _, rfl, _⟩ := takes
          simp
        | globstar => exact takes.1 rfl
      simp [some_name]
    | cons next others =>
      have below := ih (by simp) later
      rw [List.flatten_cons]
      exact fun none => below (List.append_eq_nil_iff.mp none).2

namespace Memory

theorem Sound.seen_absolute {memory : Memory} (sound : Sound s memory) {path : Text}
    (absolute : isAbsolute [s] path = true) :
    Walk.seen memory.volume path =
      match memory.nodes.get ((ofText [s] path).text [s]) with
      | some (.directory names) =>
          if (ofText [s] path).text [s] ∈ memory.denied then [] else names
      | _ => [] := by
  rw [Walk.seen, sound.namesIn_absolute absolute]
  cases memory.nodes.get ((ofText [s] path).text [s]) with
  | none => rfl
  | some node =>
    cases node with
    | file => rfl
    | directory names =>
      by_cases denied : (ofText [s] path).text [s] ∈ memory.denied
      · simp only [denied, if_true]
      · simp only [denied, if_false]

theorem Sound.seen_text {memory : Memory} (sound : Sound s memory) {place : Location}
    (resolved : Resolved s place) :
    Walk.seen memory.volume (place.text [s]) =
      match memory.nodes.get (place.text [s]) with
      | some (.directory names) => if place.text [s] ∈ memory.denied then [] else names
      | _ => [] := by
  rw [sound.seen_absolute (text_absolute resolved), ofText_text resolved]

theorem Sound.mem_seen_iff {memory : Memory} (sound : Sound s memory) {place : Location}
    (resolved : Resolved s place) (name : Text) :
    name ∈ Walk.seen memory.volume (place.text [s]) ↔
      memory.Readable (place.text [s]) ∧ IsName s name ∧
        (memory.nodes.get ((place.down [name]).text [s])).isSome := by
  rw [sound.seen_text resolved, sound.readable_iff resolved]
  constructor
  · intro visible
    split at visible
    · rename_i names held
      split at visible
      · cases visible
      · rename_i allowed
        exact ⟨allowed, sound.tree.listed place names resolved held name visible⟩
    · cases visible
  · intro h
    obtain ⟨allowed, plain, there⟩ := h
    have below : Resolved s (place.down [name]) := resolved.down (by simpa using plain)
    obtain ⟨names, held, member⟩ := sound.tree.entered place name below there
    simp only [held, allowed, if_false]
    exact member

theorem Sound.listable_absolute {memory : Memory} (sound : Sound s memory) {path : Text}
    (absolute : isAbsolute [s] path = true) : Walk.Listable memory.volume path := by
  intro fault answer
  rw [sound.namesIn_absolute absolute] at answer
  split at answer
  · split at answer
    · obtain rfl := Except.error.inj answer
      rfl
    · cases answer
  · cases answer

theorem Sound.listable {memory : Memory} (sound : Sound s memory) {place : Location}
    (resolved : Resolved s place) : Walk.Listable memory.volume (place.text [s]) :=
  sound.listable_absolute (text_absolute resolved)

end Memory

end PathGlob
