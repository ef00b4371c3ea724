import Mathlib.Data.List.Chain
import PathGlob.Proofs.Canonical

namespace PathGlob
variable {s : Char}

theorem settle_apart (pieces : List Text) :
    (settle pieces).IsChain fun piece next =>
      ¬ (hasGlobstar piece = true ∧ hasGlobstar next = true) := by
  induction pieces with
  | nil => exact List.isChain_nil
  | cons piece rest ih =>
    unfold settle
    split
    · exact ih
    · rename_i alone
      refine List.isChain_cons.mpr ⟨fun next first both => alone ⟨both.1, ?_⟩, ih⟩
      rw [Option.mem_def.mp first]
      exact both.2

namespace Segment

structure WellFormed (s : Char) (segment : Segment) : Prop where
  literal : segment.isLiteral = true → IsName s segment.text ∧ '*' ∉ segment.text
  wildcard : segment.isWildcard = true →
    ∃ regex, Pattern.readExpression segment.text = .ok regex
  globstar : segment.isGlobstar = true → segment.text = globstarText

theorem ofPiece_wellFormed {piece : Text} (plain : IsName s piece) :
    (ofPiece s piece).WellFormed s := by
  cases made : ofPiece s piece with
  | literal text =>
    have starless : '*' ∉ piece := by
      intro starred
      unfold ofPiece at made
      split at made
      · cases made
      · simp [starred] at made
    obtain rfl := ofPiece_literal made
    exact ⟨fun _ => ⟨plain, starless⟩, nofun, nofun⟩
  | wildcard expression => exact ⟨nofun, fun _ => ⟨_, (read_ofPiece made).2⟩, nofun⟩
  | globstar => exact ⟨nofun, nofun, fun _ => rfl⟩

theorem isGlobstar_ofPiece (s : Char) (piece : Text) :
    (ofPiece s piece).isGlobstar = hasGlobstar piece := by
  rw [Bool.eq_iff_iff, ← ofPiece_globstar_iff s]
  cases ofPiece s piece <;> simp [isGlobstar]

end Segment

namespace Pattern

structure WellFormed (p : Pattern) : Prop where
  each : ∀ segment ∈ p.segments, segment.WellFormed p.sep
  apart : p.segments.IsChain fun segment next =>
    ¬ (segment.isGlobstar = true ∧ next.isGlobstar = true)

theorem ofText_wellFormed (s : Char) (source : Text) : (ofText s source).WellFormed := by
  have segments : (ofText s source).segments =
      (ofText s source).settled.map (Segment.ofPiece s) := Segment.merge_map _ _
  constructor
  · rw [segments]
    intro segment member
    obtain ⟨piece, inside, rfl⟩ := List.mem_map.mp member
    exact Segment.ofPiece_wellFormed (settled_plain _ piece inside)
  · rw [segments, List.isChain_map]
    simp only [Segment.isGlobstar_ofPiece]
    exact settle_apart _

theorem resolve_pieces (s : Char) (source : Text) :
    ∃ place, place.names = pieces s source ∧ ∀ here,
      Location.resolve [s] (shortenStars 0 source) (some [s]) here = .ok place := by
  refine ⟨_, rfl, fun here => ?_⟩
  have top : Location.anchor [s] (some [s]) here = .ok [s] := if_pos (Location.root_here s)
  unfold Location.resolve Location.expand
  rw [top]
  split <;> rfl

/-- A text that is not empty is compiled with any separator. It is resolved alike in every working
directory and without one, and its segments, one for each name that it comes to and of globstars in
a row only one, are well formed. -/
theorem compile_wellFormed {source sep : Value} {text : Text}
    (given : source.asText .pattern = .ok text) (filled : text ≠ [])
    (single : sep.orSlash = .text [s]) :
    ∃ p place, compile source sep = .ok p ∧ p.source = text ∧ p.sep = s ∧
      (∀ here, Location.resolve [s] (shortenStars 0 text) (some [s]) here = .ok place) ∧
      p.segments = Segment.merge (place.names.map (Segment.ofPiece s)) ∧ p.WellFormed := by
  obtain ⟨place, names, resolved⟩ := resolve_pieces s text
  refine ⟨ofText s text, place, compile_given given filled single, rfl, rfl, resolved, ?_,
    ofText_wellFormed s text⟩
  rw [names]
  rfl

theorem compile_wellFormed_joined :
    ∃ p, compile (.text "***/a/../b**/./c".toList) .null = .ok p ∧
      p.segments = [.globstar, .literal ['c']] ∧ p.WellFormed := by
  have given : (Value.text "***/a/../b**/./c".toList).asText .pattern =
      .ok "***/a/../b**/./c".toList := rfl
  have single : Value.null.orSlash = .text ['/'] := rfl
  obtain ⟨p, _, compiled, _, _, _, _, formed⟩ := compile_wellFormed given (by decide) single
  obtain rfl : ofText '/' "***/a/../b**/./c".toList = p := Except.ok.inj compiled
  exact ⟨_, compiled, by decide, formed⟩

end Pattern

end PathGlob
