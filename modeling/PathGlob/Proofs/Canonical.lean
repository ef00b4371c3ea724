import Mathlib.Data.List.Forall2
import PathGlob.Proofs.Compiled

/-!
When two patterns are the same. All that is kept of a pattern are its canonical pieces: those
behind a drive or a separator that it begins with, resolved, where a piece with two stars side by
side is nothing but these, and of such pieces in a row there is one. And all of that is kept, since
the expression of a piece can be read back as the piece.
-/
namespace PathGlob
variable {s : Char}
open Location

theorem hasGlobstar_cons (c : Char) {text : Text} (later : hasGlobstar text = true) :
    hasGlobstar (c :: text) = true := by
  unfold hasGlobstar
  split
  · rfl
  · rename_i same
    obtain ⟨_, rfl⟩ := List.cons.inj same
    exact later
  · contradiction

theorem shortenStars_free {text : Text} (free : '*' ∉ text) (run : Nat) :
    shortenStars run text = text := by
  induction text generalizing run with
  | nil => rfl
  | cons c rest ih =>
    simp only [List.mem_cons, not_or] at free
    simp [shortenStars, Ne.symm free.1, ih free.2]

theorem mem_shortenStars {text : Text} (member : '*' ∈ text) : '*' ∈ shortenStars 0 text := by
  induction text with
  | nil => cases member
  | cons c rest ih =>
    by_cases star : c = '*'
    · simp [shortenStars, star]
    · have later : '*' ∈ rest := by simpa [Ne.symm star] using member
      simp [shortenStars, star, ih later]

theorem shortenStars_eq_iff {text plain : Text} (free : '*' ∉ plain) :
    shortenStars 0 text = plain ↔ text = plain := by
  constructor
  · intro same
    have starless : '*' ∉ text := fun member => free (same ▸ mem_shortenStars member)
    rw [← same, shortenStars_free starless]
  · intro same
    rw [same, shortenStars_free free]

theorem shortenStars_run {text : Text} (begins : ∀ rest, text ≠ '*' :: rest) (run : Nat) :
    shortenStars run text = shortenStars 0 text := by
  cases text with
  | nil => rfl
  | cons c rest =>
    have other : c ≠ '*' := fun star => begins rest (by rw [star])
    simp [shortenStars, other]

theorem shortenStars_single {text : Text} (single : hasGlobstar text = false) :
    shortenStars 0 text = text := by
  fun_induction hasGlobstar text with
  | case1 => contradiction
  | case2 c rest apart ih =>
    by_cases star : c = '*'
    · have alone : shortenStars 1 rest = rest := by
        rw [shortenStars_run (fun more => apart more star), ih single]
      simp [shortenStars, star, alone]
    · simp [shortenStars, star, ih single]
  | case3 => rfl

theorem shortenStars_globstar {text : Text} (double : hasGlobstar text = true) :
    hasGlobstar (shortenStars 0 text) = true := by
  fun_induction hasGlobstar text with
  | case1 rest => simp [shortenStars, hasGlobstar]
  | case2 c rest apart ih =>
    by_cases star : c = '*'
    · have same := shortenStars_run (fun more => apart more star) 1
      simpa [shortenStars, star, same] using hasGlobstar_cons '*' (ih double)
    · simpa [shortenStars, star] using hasGlobstar_cons c (ih double)
  | case3 => contradiction

/-- A piece as it counts: of one with two stars side by side nothing else does. -/
def standard (piece : Text) : Text := if hasGlobstar piece then globstarText else piece

def thinned : List Text → List Text
  | [] => []
  | piece :: rest =>
      if piece = globstarText ∧ rest.head? = some globstarText then thinned rest
      else piece :: thinned rest

def relativePieces (s : Char) (source : Text) : List Text :=
  if isDrive (Text.first [s] source) then (Text.splitOn [s] source).tail
  else Text.splitOn [s] source

/-- The names that are left of pieces which are read from the last one on. Two dots take away the
name in front of them, whatever stands between; `up` names are still to be taken away. -/
def remaining : Nat → List Text → List Text
  | _, [] => []
  | up, piece :: above =>
      if piece = [] ∨ piece = ['.'] then remaining up above
      else if piece = ['.', '.'] then remaining (up + 1) above
      else if up = 0 then piece :: remaining 0 above
      else remaining (up - 1) above

/-- What a pattern comes to as a list of pieces. -/
def canonical (s : Char) (source : Text) : List Text :=
  thinned ((remaining 0 (relativePieces s source).reverse).reverse.map standard)

theorem standard_globstar_iff (piece : Text) :
    standard piece = globstarText ↔ hasGlobstar piece = true := by
  unfold standard
  split
  · rename_i double
    simp [double]
  · rename_i other
    constructor
    · intro same
      exact absurd (same ▸ rfl) other
    · intro double
      exact absurd double other

theorem hasGlobstar_standard (piece : Text) : hasGlobstar (standard piece) = hasGlobstar piece := by
  unfold standard
  split
  · rename_i double
    rw [double]
    rfl
  · rfl

theorem standard_standard (piece : Text) : standard (standard piece) = standard piece := by
  rw [standard, hasGlobstar_standard]
  unfold standard
  split <;> rfl

theorem standard_shortenStars (piece : Text) :
    standard (shortenStars 0 piece) = standard piece := by
  cases double : hasGlobstar piece with
  | true => simp [standard, double, shortenStars_globstar double]
  | false => rw [shortenStars_single double]

theorem visit_shortenStars (above : List Text) (piece : Text) :
    visit (above.map (shortenStars 0)) (shortenStars 0 piece) =
      (visit above piece).map (shortenStars 0) := by
  have empty : shortenStars 0 piece = [] ↔ piece = [] := shortenStars_eq_iff (by simp)
  have here : shortenStars 0 piece = current ↔ piece = current := shortenStars_eq_iff (by decide)
  have up : shortenStars 0 piece = parent ↔ piece = parent := shortenStars_eq_iff (by decide)
  simp only [visit, empty, here, up, apply_ite (List.map (shortenStars 0)), List.map_tail,
    List.map_cons]

theorem visited_shortenStars (pieces above : List Text) :
    (pieces.map (shortenStars 0)).foldl visit (above.map (shortenStars 0)) =
      (pieces.foldl visit above).map (shortenStars 0) := by
  induction pieces generalizing above with
  | nil => rfl
  | cons piece rest ih =>
    rw [List.map_cons, List.foldl_cons, visit_shortenStars, ih, List.foldl_cons]

theorem starless_of_isDrive {piece : Text} (drive : isDrive piece = true) : '*' ∉ piece := by
  unfold isDrive at drive
  split at drive
  · simp
  · rename_i letter
    intro member
    have star : letter = '*' := by simpa [eq_comm] using member
    rw [star] at drive
    exact absurd drive (by decide)
  · cases drive

theorem isDrive_shortenStars (piece : Text) :
    isDrive (shortenStars 0 piece) = isDrive piece := by
  rw [Bool.eq_iff_iff]
  constructor
  · intro drive
    have same := (shortenStars_eq_iff (starless_of_isDrive drive)).mp rfl
    exact same ▸ drive
  · intro drive
    rw [shortenStars_free (starless_of_isDrive drive)]
    exact drive

theorem split_first (s : Char) (text : Text) :
    Text.splitOn [s] text = Text.first [s] text :: (Text.splitOn [s] text).tail := by
  cases pieces : Text.splitOn [s] text with
  | nil => exact absurd pieces (Text.splitOn_ne_nil _ _)
  | cons first rest => simp [Text.first, pieces]

theorem split_other {c : Char} (other : c ≠ s) (text : Text) :
    Text.splitOn [s] (c :: text) =
      (c :: Text.first [s] text) :: (Text.splitOn [s] text).tail := by
  rw [Text.splitOn_char_cons, if_neg other, split_first s text]
  rfl

theorem first_other {c : Char} (other : c ≠ s) (text : Text) :
    Text.first [s] (c :: text) = c :: Text.first [s] text := by
  rw [Text.first, split_other other, List.headD_cons]

theorem first_cut (s : Char) (text : Text) : Text.first [s] (s :: text) = [] := by
  rw [Text.first, Text.splitOn_char_cons, if_pos rfl, List.headD_cons]

theorem split_shortenStars (apart : s ≠ '*') (text : Text) (run : Nat) :
    Text.splitOn [s] (shortenStars run text) =
      shortenStars run (Text.first [s] text) ::
        (Text.splitOn [s] text).tail.map (shortenStars 0) := by
  induction text generalizing run with
  | nil => rfl
  | cons c rest ih =>
    by_cases star : c = '*'
    · subst star
      rw [first_other (Ne.symm apart), split_other (Ne.symm apart), List.tail_cons]
      by_cases few : run < 2
      · simp only [shortenStars, few, ↓reduceIte]
        rw [split_other (Ne.symm apart), Text.first, ih, List.headD_cons, List.tail_cons]
      · simp only [shortenStars, few, ↓reduceIte]
        exact ih run
    · simp only [shortenStars, star, ↓reduceIte]
      by_cases same : c = s
      · subst same
        rw [first_cut, Text.splitOn_char_cons, if_pos rfl, Text.splitOn_char_cons, if_pos rfl, ih,
          List.tail_cons, split_first c rest]
        rfl
      · rw [first_other same, split_other same, split_other same, Text.first, ih, List.headD_cons,
          List.tail_cons, List.tail_cons]
        simp [shortenStars, star]

theorem filled_shortenStars (front text : Text) (run : Nat) (begins : run < 2 ∨ front = []) :
    (Text.splitOn ['*'] (front ++ shortenStars run text)).filter (· ≠ []) =
      (Text.splitOn ['*'] (front ++ text)).filter (· ≠ []) := by
  induction text generalizing front run with
  | nil => rfl
  | cons c rest ih =>
    by_cases star : c = '*'
    · subst star
      have later := fun run => ih [] run (Or.inr rfl)
      simp only [List.nil_append] at later
      by_cases few : run < 2
      · simp only [shortenStars, few, ↓reduceIte]
        rw [Text.split_append, Text.split_append, List.filter_append, List.filter_append, later]
      · obtain rfl : front = [] := begins.resolve_left few
        simp only [shortenStars, few, ↓reduceIte]
        rw [List.nil_append, List.nil_append, later, Text.splitOn_char_cons, if_pos rfl]
        simp
    · simp only [shortenStars, star, ↓reduceIte]
      simpa using ih (front ++ [c]) 0 (Or.inl Nat.zero_lt_two)

theorem first_shortenStars (text : Text) {run : Nat} (few : run < 2) :
    Text.first ['*'] (shortenStars run text) = Text.first ['*'] text := by
  induction text generalizing run with
  | nil => rfl
  | cons c rest ih =>
    by_cases star : c = '*'
    · simp only [shortenStars, star, few, ↓reduceIte, first_cut]
    · simp only [shortenStars, star, ↓reduceIte]
      rw [first_other star, first_other star, ih Nat.zero_lt_two]

theorem visited_filled (pieces above : List Text) :
    (pieces.filter (· ≠ [])).foldl visit above = pieces.foldl visit above := by
  induction pieces generalizing above with
  | nil => rfl
  | cons piece rest ih =>
    by_cases empty : piece = []
    · simpa [empty, visit] using ih above
    · simpa [empty] using ih (visit above piece)

theorem remaining_reverse (pieces : List Text) (up : Nat) :
    remaining up pieces.reverse = (pieces.foldl visit []).drop up := by
  induction pieces using List.reverseRecOn generalizing up with
  | nil => simp [remaining]
  | append_singleton front piece ih =>
    rw [List.reverse_concat, List.foldl_append, List.foldl_cons, List.foldl_nil]
    by_cases skipped : piece = [] ∨ piece = ['.']
    · have stays : visit (front.foldl visit []) piece = front.foldl visit [] := if_pos skipped
      rw [remaining, if_pos skipped, stays, ih]
    by_cases dots : piece = ['.', '.']
    · have leaves : visit (front.foldl visit []) piece = (front.foldl visit []).tail :=
        (if_neg skipped).trans (if_pos dots)
      rw [remaining, if_neg skipped, if_pos dots, leaves, ih, List.drop_tail]
    · have enters : visit (front.foldl visit []) piece = piece :: front.foldl visit [] :=
        (if_neg skipped).trans (if_neg dots)
      rw [remaining, if_neg skipped, if_neg dots, enters]
      cases up with
      | zero => rw [if_pos rfl, ih, List.drop_zero, List.drop_zero]
      | succ up => rw [if_neg (Nat.succ_ne_zero up), ih, Nat.add_sub_cancel, List.drop_succ_cons]

theorem relativePieces_free (s : Char) (source : Text) :
    ∀ piece ∈ relativePieces s source, s ∉ piece := by
  intro piece member
  unfold relativePieces at member
  split at member
  · exact Text.piece_free (List.mem_of_mem_tail member)
  · exact Text.piece_free member

theorem relativePieces_shortenStars (apart : s ≠ '*') (source : Text) :
    relativePieces s (shortenStars 0 source) =
      (relativePieces s source).map (shortenStars 0) := by
  have first : Text.first [s] (shortenStars 0 source) = shortenStars 0 (Text.first [s] source) := by
    rw [Text.first, split_shortenStars apart, List.headD_cons]
  rw [relativePieces, first, isDrive_shortenStars, split_shortenStars apart, relativePieces]
  split
  · rfl
  · rw [← List.map_cons, ← split_first]

theorem relativePieces_filled (source : Text) :
    (relativePieces '*' (shortenStars 0 source)).filter (· ≠ []) =
      (relativePieces '*' source).filter (· ≠ []) := by
  have first := first_shortenStars source Nat.zero_lt_two
  have filled := filled_shortenStars [] source 0 (Or.inr rfl)
  simp only [List.nil_append] at filled
  unfold relativePieces
  rw [first]
  split
  · rw [split_first '*' (shortenStars 0 source), split_first '*' source, first] at filled
    by_cases empty : Text.first ['*'] source = [] <;> simpa [empty] using filled
  · exact filled

theorem visited_relative (s : Char) (source : Text) :
    (relativePieces s (shortenStars 0 source)).foldl visit [] =
      ((relativePieces s source).foldl visit []).map (shortenStars 0) := by
  by_cases star : s = '*'
  · subst star
    -- The star separates, so that none is left in a piece.
    have plain := visited_plain _ [] (relativePieces_free '*' source) (by simp)
    rw [← visited_filled, relativePieces_filled, visited_filled]
    refine ((List.map_congr_left fun name member => ?_).trans (List.map_id _)).symm
    exact shortenStars_free (plain name member).free 0
  · rw [relativePieces_shortenStars star, ← visited_shortenStars, List.map_nil]

namespace Regex

theorem chain_injective {items others : List Regex} (same : chain items = chain others) :
    items = others := by
  induction items generalizing others with
  | nil =>
    cases others with
    | nil => rfl
    | cons other rest => cases same
  | cons item more ih =>
    cases others with
    | nil => cases same
    | cons other rest =>
      obtain ⟨rfl, later⟩ := Regex.seq.inj same
      rw [ih later]

theorem pieceItem_injective (s : Char) : Function.Injective (pieceItem s) := by
  intro c d same
  unfold pieceItem at same
  by_cases hc : c = '*' <;> by_cases hd : d = '*' <;> simp_all

end Regex

namespace Segment

theorem ofPiece_standard (s : Char) (piece : Text) :
    ofPiece s (standard piece) = ofPiece s piece := by
  cases double : hasGlobstar piece with
  | true =>
    have globstar := (hasGlobstar_standard piece).trans double
    rw [(ofPiece_globstar_iff s piece).mpr double, (ofPiece_globstar_iff s _).mpr globstar]
  | false => simp [standard, double]

theorem read_ofPiece {piece expression : Text} (made : ofPiece s piece = .wildcard expression) :
    '*' ∈ piece ∧
      Pattern.readExpression expression = .ok (Regex.chain (piece.map (Regex.pieceItem s))) := by
  unfold ofPiece at made
  split at made
  · cases made
  · split at made
    · rename_i starred
      rw [← Segment.wildcard.inj made, Regex.read_wildcard]
      exact ⟨by simpa using starred, rfl⟩
    · cases made

/-- An expression comes from one piece only, with one separator: it is read back as that piece, and
a star in it as a run without that separator. -/
theorem wildcard_injective {t : Char} {one two expression : Text}
    (first : ofPiece s one = .wildcard expression)
    (second : ofPiece t two = .wildcard expression) : s = t ∧ one = two := by
  obtain ⟨starred, reads⟩ := read_ofPiece first
  obtain ⟨_, readsToo⟩ := read_ofPiece second
  have items := Regex.chain_injective (Except.ok.inj (reads.symm.trans readsToo))
  have item : Regex.pieceItem s '*' ∈ two.map (Regex.pieceItem t) := by
    rw [← items]
    exact List.mem_map_of_mem starred
  obtain ⟨c, _, same⟩ := List.mem_map.mp item
  have star : c = '*' := by
    by_contra other
    simp [Regex.pieceItem, other] at same
  obtain rfl : t = s := by simpa [Regex.pieceItem, star] using same
  exact ⟨rfl, List.map_injective_iff.mpr (Regex.pieceItem_injective t) items⟩

theorem ofPiece_literal {piece text : Text} (made : ofPiece s piece = .literal text) :
    piece = text := by
  unfold ofPiece at made
  split at made
  · cases made
  · split at made
    · cases made
    · exact Segment.literal.inj made

theorem ofPiece_eq_iff (s : Char) (one two : Text) :
    ofPiece s one = ofPiece s two ↔ standard one = standard two := by
  constructor
  · intro same
    have stars : hasGlobstar one = hasGlobstar two := by
      rw [Bool.eq_iff_iff, ← ofPiece_globstar_iff s, ← ofPiece_globstar_iff s, same]
    cases made : ofPiece s two with
    | globstar =>
      have double := (ofPiece_globstar_iff s two).mp made
      simp [standard, double, stars]
    | wildcard expression => rw [(wildcard_injective (same.trans made) made).2]
    | literal text => rw [ofPiece_literal (same.trans made), ofPiece_literal made]
  · intro same
    rw [← ofPiece_standard s one, same, ofPiece_standard]

theorem map_ofPiece_eq_iff (s : Char) (pieces others : List Text) :
    pieces.map (ofPiece s) = others.map (ofPiece s) ↔
      pieces.map standard = others.map standard := by
  rw [← List.forall₂_eq_eq_eq, ← List.forall₂_eq_eq_eq, List.forall₂_map_left_iff,
    List.forall₂_map_left_iff]
  simp only [List.forall₂_map_right_iff, ofPiece_eq_iff]

end Segment

theorem thinned_head (pieces : List Text) : (thinned pieces).head? = pieces.head? := by
  induction pieces with
  | nil => rfl
  | cons piece rest ih =>
    unfold thinned
    split
    · rename_i double
      rw [ih, double.1, double.2, List.head?_cons]
    · rfl

theorem thinned_standard (pieces : List Text) :
    thinned (pieces.map standard) = (settle pieces).map standard := by
  induction pieces with
  | nil => rfl
  | cons piece rest ih =>
    have follows : (rest.map standard).head? = some globstarText ↔
        (settle rest).head?.any hasGlobstar = true := by
      rw [← thinned_head, ih, List.head?_map]
      cases (settle rest).head? <;> simp [standard_globstar_iff]
    rw [List.map_cons, thinned, settle]
    by_cases both : hasGlobstar piece = true ∧ (settle rest).head?.any hasGlobstar = true
    · rw [if_pos both, if_pos ⟨(standard_globstar_iff piece).mpr both.1, follows.mpr both.2⟩, ih]
    · rw [if_neg both, if_neg fun h => both ⟨(standard_globstar_iff piece).mp h.1, follows.mp h.2⟩,
        ih, List.map_cons]

namespace Pattern

theorem pieces_relative (s : Char) (source : Text) :
    pieces s source =
      ((relativePieces s (shortenStars 0 source)).foldl visit []).reverse := by
  rw [pieces]
  generalize shortenStars 0 source = path
  by_cases absolute : isAbsolute [s] path = true
  · simp [absolute, Location.ofText, relativePieces, absolute_drive absolute]
  · have rooted : below [s] [s] path = s :: path := by simp [below, Text.dropEnding]
    by_cases empty : path = []
    · subst empty
      simp [Location.ofText, rooted, relativePieces, Text.splitOn_char_cons, Text.splitOn_char_nil,
        Text.first, isDrive, visit, isAbsolute]
    · have usual : isDrive (Text.first [s] path) = false := by
        simpa [isAbsolute, empty] using absolute
      simp [absolute, Location.ofText, rooted, relativePieces, Text.splitOn_char_cons, usual]

theorem settled_standard (s : Char) (source : Text) :
    (settle (pieces s source)).map standard = canonical s source := by
  have same : standard ∘ shortenStars 0 = standard := funext standard_shortenStars
  rw [canonical, remaining_reverse, List.drop_zero, ← thinned_standard, pieces_relative,
    visited_relative, ← List.map_reverse, List.map_map, same]

theorem ofText_segments (s : Char) (source : Text) :
    (ofText s source).segments = (canonical s source).map (Segment.ofPiece s) := by
  rw [ofText, Segment.merge_map, ← settled_standard, List.map_map]
  exact (List.map_congr_left fun piece _ => Segment.ofPiece_standard s piece).symm

theorem canonical_standard (s : Char) (source : Text) :
    (canonical s source).map standard = canonical s source := by
  rw [← settled_standard, List.map_map]
  exact List.map_congr_left fun piece _ => standard_standard piece

theorem compile_text (s : Char) {source : Text} (filled : source ≠ []) :
    compile (.text source) (.text [s]) = .ok (ofText s source) :=
  compile_given rfl filled rfl

/-- Compiling comes to a result, and two results are the same exactly if the separators and the
canonical pieces are. No two pieces have the same expression, be it with two separators. -/
theorem same_iff_canonical (s t : Char) {p q : Text} (filled : p ≠ []) (other : q ≠ []) :
    (∃ one two, compile (.text p) (.text [s]) = .ok one ∧ compile (.text q) (.text [t]) = .ok two ∧
      (one.same two = true ↔ s = t ∧ canonical s p = canonical t q)) ∧
    ∀ first second expression, Segment.ofPiece s first = .wildcard expression →
      Segment.ofPiece t second = .wildcard expression → s = t ∧ first = second := by
  refine ⟨⟨_, _, compile_text s filled, compile_text t other, ?_⟩,
    fun _ _ _ => Segment.wildcard_injective⟩
  have same : (ofText s p).same (ofText t q) = true ↔
      (ofText s p).segments = (ofText t q).segments ∧ s = t := by
    simp [Pattern.same, ofText]
  rw [same, ofText_segments, ofText_segments, and_comm]
  refine and_congr_right fun sep => ?_
  subst sep
  rw [Segment.map_ofPiece_eq_iff, canonical_standard, canonical_standard]

/-- Drives, dots, empty pieces and further stars are lost, and the pieces that are left agree. A
name that no dots take away counts, and so does the separator. -/
theorem same_iff_canonical_rewritten :
    (∃ one two, compile (.text "C:/a/../b**x//***/c.*".toList) (.text ['/']) = .ok one ∧
      compile (.text "/b/../**/./**x/c.*".toList) (.text ['/']) = .ok two ∧
      one.same two = true) ∧
    (∃ one two, compile (.text "a/../b/c.*".toList) (.text ['/']) = .ok one ∧
      compile (.text "a/b/c.*".toList) (.text ['/']) = .ok two ∧ one.same two = false) ∧
    ∃ one two, compile (.text "c.*".toList) (.text ['/']) = .ok one ∧
      compile (.text "c.*".toList) (.text [':']) = .ok two ∧ one.same two = false := by
  obtain ⟨⟨one, two, first, second, same⟩, _⟩ := same_iff_canonical '/' '/'
    (p := "C:/a/../b**x//***/c.*".toList) (q := "/b/../**/./**x/c.*".toList)
    (by decide) (by decide)
  obtain ⟨⟨short, long, third, fourth, apart⟩, _⟩ := same_iff_canonical '/' '/'
    (p := "a/../b/c.*".toList) (q := "a/b/c.*".toList) (by decide) (by decide)
  obtain ⟨⟨slash, colon, fifth, sixth, parted⟩, _⟩ := same_iff_canonical '/' ':'
    (p := "c.*".toList) (q := "c.*".toList) (by decide) (by decide)
  refine ⟨⟨one, two, first, second, same.mpr ⟨rfl, by decide⟩⟩,
    ⟨short, long, third, fourth, ?_⟩, ⟨slash, colon, fifth, sixth, ?_⟩⟩
  · exact Bool.eq_false_iff.mpr fun equal => absurd (apart.mp equal).2 (by decide)
  · exact Bool.eq_false_iff.mpr fun equal => absurd (parted.mp equal).1 (by decide)

end Pattern

end PathGlob
