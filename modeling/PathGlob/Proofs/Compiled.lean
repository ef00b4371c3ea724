import PathGlob.Proofs.Fallible
import PathGlob.Proofs.Language
import PathGlob.Proofs.Resolved

namespace PathGlob
variable {s : Char}

/-- Of pieces with a globstar that follow each other the last one is kept. -/
def settle : List Text → List Text
  | [] => []
  | piece :: rest =>
      if hasGlobstar piece ∧ (settle rest).head?.any hasGlobstar then settle rest
      else piece :: settle rest

theorem settle_sublist (pieces : List Text) : (settle pieces).Sublist pieces := by
  induction pieces with
  | nil => exact List.Sublist.slnil
  | cons piece rest ih =>
    unfold settle
    split
    · exact ih.cons piece
    · exact ih.cons_cons piece

namespace Segment

theorem ofPiece_globstar_iff (s : Char) (piece : Text) :
    ofPiece s piece = .globstar ↔ hasGlobstar piece := by
  unfold ofPiece
  split
  · simp_all
  · split <;> simp_all

theorem merge_cons_globstar (segments : List Segment) :
    merge (.globstar :: segments) =
      if (merge segments).head? = some .globstar then merge segments
      else .globstar :: merge segments := by
  cases found : merge segments with
  | nil => simp [merge, found]
  | cons next more => cases next <;> simp [merge, found]

theorem merge_cons_other {segment : Segment} (other : segment ≠ .globstar)
    (segments : List Segment) : merge (segment :: segments) = segment :: merge segments := by
  cases segment with
  | literal text => simp [merge]
  | wildcard expression => simp [merge]
  | globstar => contradiction

theorem merge_map (s : Char) (pieces : List Text) :
    merge (pieces.map (ofPiece s)) = (settle pieces).map (ofPiece s) := by
  induction pieces with
  | nil => rfl
  | cons piece rest ih =>
    have follows : (merge (rest.map (ofPiece s))).head? = some .globstar ↔
        (settle rest).head?.any hasGlobstar = true := by
      rw [ih, List.head?_map]
      cases (settle rest).head? with
      | none => simp
      | some next => simp [ofPiece_globstar_iff]
    rw [List.map_cons, settle]
    by_cases globstar : hasGlobstar piece = true
    · rw [(ofPiece_globstar_iff s piece).mpr globstar, merge_cons_globstar]
      by_cases another : (settle rest).head?.any hasGlobstar = true
      · rw [if_pos (follows.mpr another), if_pos ⟨globstar, another⟩, ih]
      · rw [if_neg fun h => another (follows.mp h), if_neg fun h => another h.2, List.map_cons,
          (ofPiece_globstar_iff s piece).mpr globstar, ih]
    · have other : ofPiece s piece ≠ .globstar :=
        fun h => globstar ((ofPiece_globstar_iff s piece).mp h)
      rw [merge_cons_other other, if_neg fun h => globstar h.1, List.map_cons, ih]

end Segment

namespace Pattern

/-- The pieces that the segments of a compiled pattern come from. -/
def settled (p : Pattern) : List Text := settle (pieces p.sep p.source)

theorem pieces_plain (s : Char) (source : Text) : ∀ piece ∈ pieces s source, IsName s piece := by
  have resolved : Location.Resolved s (Location.ofText [s]
      (if Location.isAbsolute [s] (shortenStars 0 source) then shortenStars 0 source
        else Location.below [s] [s] (shortenStars 0 source))) := by
    apply Location.ofText_resolved
    split
    · rename_i absolute
      exact Location.absolute_drive absolute
    · rw [Location.first_below]
      simp [Text.first, Text.splitOn_char_cons, Location.isDrive]
  exact resolved.names

theorem settled_plain (p : Pattern) : ∀ piece ∈ p.settled, IsName p.sep piece := by
  intro piece member
  exact pieces_plain p.sep p.source piece ((settle_sublist _).subset member)

theorem compile_ok {source sep : Value} {p : Pattern} (compiled : compile source sep = .ok p) :
    p.segments = p.settled.map (Segment.ofPiece p.sep) := by
  unfold compile at compiled
  obtain ⟨text, _, compiled⟩ := bind_ok_iff.mp compiled
  simp only [bind, Except.bind, throw, throwThe, MonadExceptOf.throw, List.isEmpty_iff]
    at compiled
  split at compiled
  · cases compiled
  · split at compiled
    · obtain rfl := Except.ok.inj compiled
      exact Segment.merge_map _ _
    · cases compiled

theorem compile_given {source sep : Value} {text : Text}
    (given : source.asText .pattern = .ok text) (filled : text ≠ [])
    (single : sep.orSlash = .text [s]) : compile source sep = .ok (ofText s text) := by
  simp [compile, given, filled, single, bind, Except.bind, pure, Except.pure]

theorem globMatch_accepts {p : Pattern} {pattern asked : Value}
    (given : obtain pattern asked = .ok p) (base : Option Text) (name : Text) :
    globMatch (.text name) pattern asked (base.elim .null .text) = p.accepts base name := by
  have based : givenBase (base.elim .null .text) = .ok base := by
    cases base <;> rfl
  rw [globMatch, given, based]
  rfl

theorem settled_inhabited {source sep : Value} {p : Pattern}
    (compiled : compile source sep = .ok p) (inhabited : p.segments ≠ []) : p.settled ≠ [] :=
  fun none => inhabited (by simp [compile_ok compiled, none])

/-- The segments come from the settled pieces, one from each, and matching by name accepts what
these stand for, no more and no less: behind the base, or behind any separator where there is no
base. It always comes to a result. -/
theorem globMatch_language {p : Pattern} {source sep pattern asked : Value}
    (compiled : compile source sep = .ok p) (inhabited : p.segments ≠ [])
    (given : obtain pattern asked = .ok p) (base : Option Text) (name : Text) :
    p.segments = p.settled.map (Segment.ofPiece p.sep) ∧
      ∃ accepted,
        globMatch (.text name) pattern asked (base.elim .null .text) = .ok accepted ∧
          (accepted = true ↔ Admits p.sep p.settled base name) := by
  have segments := compile_ok compiled
  refine ⟨segments, ?_⟩
  rw [globMatch_accepts given]
  exact accepts_iff (settled_inhabited compiled inhabited) segments base name

theorem globMatch_language_star :
    globMatch (.text ['a', '/', 'b', 'c']) (.text ['b', '*']) .null .null = .ok true ∧
      globMatch (.text ['/', 'a', '/', 'b', 'c']) (.text ['b', '*']) .null (.text ['/', 'r']) =
        .ok false := by
  have compiled : compile (.text ['b', '*']) .null = .ok (ofText '/' ['b', '*']) := rfl
  have given : obtain (.text ['b', '*']) .null = .ok (ofText '/' ['b', '*']) := rfl
  obtain ⟨_, first, answer, meaning⟩ :=
    globMatch_language compiled (by decide) given none ['a', '/', 'b', 'c']
  obtain ⟨_, second, other, strays⟩ :=
    globMatch_language compiled (by decide) given (some ['/', 'r']) ['/', 'a', '/', 'b', 'c']
  have fills : Fills '/' ['b', '*'] ['b', 'c'] := ⟨_, rfl, ['c'], [], rfl, by decide, rfl⟩
  have behind : Admits '/' [['b', '*']] none ['a', '/', 'b', 'c'] :=
    ⟨['a', '/'], ['b', 'c'], rfl, Or.inr ⟨['a'], rfl⟩, Or.inl fills⟩
  have elsewhere : ¬ Admits '/' [['b', '*']] (some ['/', 'r']) ['/', 'a', '/', 'b', 'c'] := by
    intro h
    have base : bareBase '/' ['/', 'r'] = ['/', 'r'] := by decide
    obtain ⟨rest, _, seam | seam⟩ := h <;> simp [base] at seam
  refine ⟨answer.trans (congrArg _ (meaning.mpr behind)), other.trans (congrArg _ ?_)⟩
  exact Bool.eq_false_iff.mpr fun accepted => elsewhere (strays.mp accepted)

end Pattern

end PathGlob
