import PathGlob.Proofs.Cut

namespace PathGlob
variable {s : Char} {readable : Text → Prop} {crosses : Text → Prop}

theorem Fills.free {piece text : Text} (free : s ∉ piece) (filled : Fills s piece text) :
    s ∉ text := by
  induction piece generalizing text with
  | nil =>
    obtain rfl : text = [] := filled
    simp
  | cons c rest ih =>
    obtain ⟨other, later⟩ := not_or.mp (List.mem_cons.not.mp free)
    unfold Fills at filled
    split at filled
    · obtain ⟨front, more, rfl, clear, filled⟩ := filled
      intro member
      rcases List.mem_append.mp member with first | second
      · exact clear first
      · exact ih later filled second
    · obtain ⟨more, rfl, filled⟩ := filled
      intro member
      rcases List.mem_cons.mp member with first | second
      · exact other first
      · exact ih later filled second

theorem fills_starless {piece : Text} (starless : '*' ∉ piece) (text : Text) :
    Fills s piece text ↔ text = piece := by
  induction piece generalizing text with
  | nil => rfl
  | cons c rest ih =>
    obtain ⟨usual, later⟩ := not_or.mp (List.mem_cons.not.mp starless)
    have usual : ¬ c = '*' := fun same => usual same.symm
    simp only [Fills, usual, if_false, ih later]
    exact ⟨fun h => h.choose_spec.2 ▸ h.choose_spec.1, fun same => ⟨rest, same, rfl⟩⟩

theorem fullMatch_piece (s : Char) (piece name : Text) :
    (Regex.chain (piece.map (Regex.pieceItem s))).fullMatch name = true ↔ Fills s piece name := by
  rw [Regex.fullMatch_iff, Regex.fits_piece]

theorem takes_piece {piece : Text} (usual : ¬ hasGlobstar piece = true) (place : Text)
    (final : Bool) (block : List Text) :
    (Segment.ofPiece s piece).Takes s readable place final block ↔
      ∃ name, block = [name] ∧ Fills s piece name ∧ ('*' ∈ piece → readable place) := by
  unfold Segment.ofPiece
  rw [if_neg usual]
  split
  · rename_i starred
    have starred : '*' ∈ piece := by simpa using starred
    constructor
    · intro takes
      obtain ⟨name, regex, rfl, read, fits, allowed⟩ := takes
      rw [Regex.read_wildcard] at read
      obtain rfl := Except.ok.inj read
      exact ⟨name, rfl, (fullMatch_piece s piece name).mp fits, fun _ => allowed⟩
    · intro h
      obtain ⟨name, rfl, filled, allowed⟩ := h
      exact ⟨name, _, rfl, Regex.read_wildcard s piece, (fullMatch_piece s piece name).mpr filled,
        allowed starred⟩
  · rename_i starless
    have starless : '*' ∉ piece := by simpa using starless
    constructor
    · intro takes
      obtain rfl : block = [piece] := takes
      exact ⟨piece, rfl, (fills_starless starless piece).mpr rfl,
        fun starred => absurd starred starless⟩
    · intro h
      obtain ⟨name, rfl, filled, _⟩ := h
      obtain rfl := (fills_starless starless name).mp filled
      rfl

/-- The names of a cut, glued, are in the language, if globstars may cross their blocks. -/
theorem Cut.language {place : Text} {pieces : List Text} {blocks : List (List Text)}
    (inhabited : pieces ≠ []) (cut : Cut s readable place (pieces.map (Segment.ofPiece s)) blocks)
    (cross : ∀ block ∈ blocks, block ≠ [] → crosses (Text.glue [s] block)) :
    Language s crosses pieces (Text.glue [s] blocks.flatten) := by
  induction pieces generalizing place blocks with
  | nil => contradiction
  | cons piece rest ih =>
    obtain ⟨block, more, rfl, takes, later⟩ := cut
    cases rest with
    | nil =>
      obtain rfl : more = [] := later
      have whole : [block].flatten = block := by simp
      rw [whole, Language]
      split
      · rename_i globstar
        rw [(Segment.ofPiece_globstar_iff s piece).mpr globstar] at takes
        exact cross block (by simp) (takes.1 rfl)
      · rename_i usual
        obtain ⟨name, rfl, filled, _⟩ := (takes_piece usual _ _ _).mp takes
        rw [Text.glue_singleton]
        exact filled
    | cons next others =>
      have below : more.flatten ≠ [] := later.filled (by simp)
      have tail := ih (by simp) later fun other member =>
        cross other (List.mem_cons_of_mem _ member)
      rw [List.flatten_cons, Language]
      split
      · by_cases none : block = []
        · rw [none, List.nil_append]
          exact Or.inl tail
        · exact Or.inr ⟨_, _, Text.glue_append none below, cross block (by simp) none, tail⟩
      · rename_i usual
        obtain ⟨name, rfl, filled, _⟩ := (takes_piece usual _ _ _).mp takes
        refine ⟨name, _, ?_, filled, tail⟩
        rw [Text.glue_append (by simp) below, Text.glue_singleton]

/-- A text of the language is cut at its separators, where nothing is denied. -/
theorem cut_of_language (place : Text) {pieces names : List Text} (inhabited : pieces ≠ [])
    (freePieces : ∀ piece ∈ pieces, s ∉ piece) (named : names ≠ [])
    (free : ∀ name ∈ names, s ∉ name) (allowed : ∀ place, readable place)
    (language : Language s crosses pieces (Text.glue [s] names)) :
    ∃ blocks, blocks.flatten = names ∧
      Cut s readable place (pieces.map (Segment.ofPiece s)) blocks := by
  induction pieces generalizing place names with
  | nil => contradiction
  | cons piece rest ih =>
    obtain ⟨freePiece, freeRest⟩ := List.forall_mem_cons.mp freePieces
    -- a block of one name, where that name is in front of a separator or all there is
    have single : ∀ {block : List Text}, block ≠ [] → (∀ name ∈ block, s ∉ name) →
        ¬ hasGlobstar piece = true → Fills s piece (Text.glue [s] block) → ∀ place final,
        (Segment.ofPiece s piece).Takes s readable place final block := by
      intro block filled clear usual fills place final
      rw [takes_piece usual]
      exact ⟨_, Text.glue_free filled clear (fills.free freePiece), fills, fun _ => allowed place⟩
    cases rest with
    | nil =>
      refine ⟨[names], by simp, names, [], rfl, ?_, rfl⟩
      rw [Language] at language
      split at language
      · rename_i globstar
        rw [(Segment.ofPiece_globstar_iff s piece).mpr globstar]
        exact ⟨fun _ => named, fun _ _ _ _ => allowed _⟩
      · rename_i usual
        exact single named free usual language _ _
    | cons next others =>
      rw [Language] at language
      split at language
      · rename_i globstar
        have goes : ∀ block place, (Segment.ofPiece s piece).Takes s readable place false block := by
          intro block place
          rw [(Segment.ofPiece_globstar_iff s piece).mpr globstar]
          exact ⟨by simp, fun _ _ _ _ => allowed _⟩
        rcases language with tail | ⟨front, text, seam, _, tail⟩
        · obtain ⟨blocks, rfl, cut⟩ := ih place (by simp) freeRest named free tail
          exact ⟨[] :: blocks, rfl, [], blocks, rfl, goes _ _, cut⟩
        · obtain ⟨block, below, _, filled, rfl, rfl, rfl⟩ :=
            (Text.glue_eq_append_iff named free).mp seam
          obtain ⟨blocks, rfl, cut⟩ := ih (block.foldl (Walk.child s) place) (by simp) freeRest
            filled (fun name member => free name (List.mem_append_right _ member)) tail
          exact ⟨block :: blocks, rfl, block, blocks, rfl, goes _ _, cut⟩
      · rename_i usual
        obtain ⟨front, text, seam, fills, tail⟩ := language
        obtain ⟨block, below, begun, filled, rfl, rfl, rfl⟩ :=
          (Text.glue_eq_append_iff named free).mp seam
        obtain ⟨blocks, rfl, cut⟩ := ih (block.foldl (Walk.child s) place) (by simp) freeRest
          filled (fun name member => free name (List.mem_append_right _ member)) tail
        have clear : ∀ name ∈ block, s ∉ name := fun name member =>
          free name (List.mem_append_left _ member)
        exact ⟨block :: blocks, rfl, block, blocks, rfl, single begun clear usual fills _ _, cut⟩

end PathGlob
