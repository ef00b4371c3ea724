import PathGlob.Proofs.Trimmed

/-!
Separators of any length. A text that goes on behind another one is cut as it is by itself, as long
as no separator straddles the seam. From a base that ends in a separator one character is dropped,
whatever the length of the separator: with one character the base is as good as before, with more
of them what is left is read as part of a name.
-/
namespace PathGlob
variable {sep : Text}

namespace Text

/-- No separator begins in the text and ends behind it. -/
def Parted (sep text more : Text) : Prop :=
  ∀ front back, text = front ++ back → back ≠ [] → sep <+: back ++ more → sep <+: back

theorem Parted.tail {c : Char} {rest more : Text} (parted : Parted sep (c :: rest) more) :
    Parted sep rest more :=
  fun front back same => parted (c :: front) back (by rw [same, List.cons_append])

theorem cutFrom_append {text more first : Text} {others : List Text} {skip : Nat}
    (parted : Parted sep text more) (inside : skip ≤ text.length)
    (next : cutFrom sep 0 more = first :: others) :
    ∃ front last, cutFrom sep skip text = front ++ [last] ∧
      cutFrom sep skip (text ++ more) = front ++ (last ++ first) :: others := by
  fun_induction cutFrom sep skip text with
  | case1 skip =>
    obtain rfl : skip = 0 := by simpa using inside
    exact ⟨[], [], rfl, next⟩
  | case2 skip c rest ih =>
    exact ih parted.tail (by simpa using inside)
  | case3 c rest here ih =>
    have long : sep.length ≤ rest.length + 1 := (List.isPrefixOf_iff_prefix.mp here).length_le
    obtain ⟨front, last, cut, more_cut⟩ := ih parted.tail (by omega)
    have further : sep.isPrefixOf (c :: (rest ++ more)) = true :=
      List.isPrefixOf_iff_prefix.mpr
        ((List.isPrefixOf_iff_prefix.mp here).trans (List.prefix_append _ _))
    refine ⟨[] :: front, last, by rw [cut, List.cons_append], ?_⟩
    rw [List.cons_append, cutFrom, if_pos further, more_cut, List.cons_append]
  | case4 c rest absent ih =>
    obtain ⟨front, last, cut, more_cut⟩ := ih parted.tail (Nat.zero_le _)
    have further : ¬ sep.isPrefixOf (c :: (rest ++ more)) = true := fun there =>
      absent (List.isPrefixOf_iff_prefix.mpr
        (parted [] (c :: rest) rfl (by simp) (List.isPrefixOf_iff_prefix.mp there)))
    rw [List.cons_append, cutFrom, if_neg further, cut, more_cut]
    cases front with
    | nil => exact ⟨[], c :: last, rfl, rfl⟩
    | cons piece pieces => exact ⟨(c :: piece) :: pieces, last, rfl, rfl⟩

theorem cutFrom_over (sep text more : Text) :
    cutFrom sep text.length (text ++ more) = cutFrom sep 0 more := by
  induction text with
  | nil => rfl
  | cons c rest ih => exact ih

theorem cutFrom_sep (filled : sep ≠ []) (more : Text) :
    cutFrom sep 0 (sep ++ more) = [] :: cutFrom sep 0 more := by
  obtain ⟨c, rest, rfl⟩ := List.exists_cons_of_ne_nil filled
  have here : (c :: rest).isPrefixOf (c :: (rest ++ more)) = true :=
    List.isPrefixOf_iff_prefix.mpr (List.prefix_append _ _)
  rw [List.cons_append, cutFrom, if_pos here]
  exact congrArg ([] :: ·) (cutFrom_over _ rest more)

theorem splitOn_eq (filled : sep ≠ []) (text : Text) : splitOn sep text = cutFrom sep 0 text :=
  if_neg (by simpa using filled)

theorem splitOn_parted (filled : sep ≠ []) {text more : Text} (parted : Parted sep text (sep ++ more)) :
    splitOn sep (text ++ (sep ++ more)) = splitOn sep text ++ splitOn sep more := by
  obtain ⟨front, last, cut, whole⟩ :=
    cutFrom_append parted (Nat.zero_le _) (cutFrom_sep filled more)
  simp [splitOn_eq filled, cut, whole]

theorem splitOn_absent {text : Text} (absent : ¬ sep <:+: text) : splitOn sep text = [text] := by
  have filled : sep ≠ [] := by
    intro none
    exact absent (none ▸ List.nil_infix)
  rw [splitOn_eq filled]
  induction text with
  | nil => rfl
  | cons c rest ih =>
    have here : ¬ sep.isPrefixOf (c :: rest) = true := fun there =>
      absent (List.isPrefixOf_iff_prefix.mp there).isInfix
    rw [cutFrom, if_neg here, ih fun later => absent (later.trans (List.suffix_cons c rest).isInfix)]
    rfl

theorem splitOn_lengthened {text more : Text} (parted : Parted sep text more)
    (absent : ¬ sep <:+: more) :
    ∃ front last, splitOn sep text = front ++ [last] ∧
      splitOn sep (text ++ more) = front ++ [last ++ more] := by
  have filled : sep ≠ [] := by
    intro none
    exact absent (none ▸ List.nil_infix)
  have alone := splitOn_absent absent
  rw [splitOn_eq filled] at alone
  simp only [splitOn_eq filled]
  exact cutFrom_append parted (Nat.zero_le _) alone

/-- The text does not end in a separator, nor in the beginning of one. -/
def Loose (sep text : Text) : Prop := ∀ front, front ≠ [] → front <+: sep → ¬ front <:+ text

theorem Loose.parted {text : Text} (loose : Loose sep text) (more : Text) : Parted sep text more := by
  intro front back same inhabited there
  rcases List.prefix_or_prefix_of_prefix there (List.prefix_append back more) with inside | begun
  · exact inside
  · exact absurd ⟨front, same.symm⟩ (loose back inhabited begun)

theorem loose_concat {c : Char} (free : c ∉ sep) (text : Text) : Loose sep (text ++ [c]) := by
  intro front inhabited begun ends
  obtain ⟨last, inside, ending⟩ : ∃ last ∈ front, last = c := by
    refine ⟨front.getLast inhabited, List.getLast_mem inhabited, ?_⟩
    obtain ⟨rest, same⟩ := ends
    have last := congrArg List.getLast? same
    rw [List.getLast?_append_of_ne_nil _ inhabited, List.getLast?_concat,
      List.getLast?_eq_some_getLast inhabited] at last
    exact Option.some.inj last
  exact free (ending ▸ begun.subset inside)

/-- A separator begins again within itself, and not at its last character, only if it ends with the
character that it begins with. -/
theorem head_eq_getLast {front back more : Text} (inner : sep.dropLast = front ++ back)
    (inhabited : back ≠ []) (there : sep <+: back ++ (sep ++ more)) : sep.head? = sep.getLast? := by
  have filled : sep ≠ [] := by
    intro none
    simp [none, inhabited] at inner
  obtain ⟨b, tail, rfl⟩ := List.exists_cons_of_ne_nil inhabited
  obtain ⟨rest, same⟩ := there
  have whole : sep = front ++ (b :: tail) ++ [sep.getLast filled] := by
    rw [← inner, List.dropLast_concat_getLast]
  have long : sep.length = front.length + tail.length + 2 := by
    rw [whole]
    simp
    omega
  have first : sep.head? = some b := by
    have begun := congrArg List.head? same
    rwa [List.head?_append_of_ne_nil _ filled] at begun
  -- the last character of the first occurrence stands where the second one has its `front` behind it
  have middle : sep[front.length]? = some b := by
    rw [whole]
    simp
  have last : sep[front.length + tail.length + 1]? = sep[front.length]? := by
    have here : (sep ++ rest)[front.length + tail.length + 1]? =
        (b :: tail ++ (sep ++ more))[front.length + tail.length + 1]? := by rw [same]
    rw [List.getElem?_append_left (by omega), List.getElem?_append_right (by simp)] at here
    have back : front.length + tail.length + 1 - (b :: tail).length = front.length := by
      simp
    rwa [back, List.getElem?_append_left (by omega)] at here
  have ending : front.length + tail.length + 1 = sep.length - 1 := by omega
  rw [first, List.getLast?_eq_getElem?, ← ending, last, middle]

theorem Loose.parted_dropLast {text : Text} (loose : Loose sep text)
    (differ : sep.head? ≠ sep.getLast?) (more : Text) :
    Parted sep (text ++ sep.dropLast) (sep ++ more) := by
  intro front back same inhabited there
  rcases List.append_eq_append_iff.mp same with ⟨begun, _, inner⟩ | ⟨begun, split, rfl⟩
  · exact absurd (head_eq_getLast inner inhabited there) differ
  · by_cases none : begun = []
    · subst none
      have whole : sep.dropLast = [] ++ ([] ++ sep.dropLast) := rfl
      exact absurd (head_eq_getLast whole inhabited there) differ
    · rw [List.append_assoc] at there
      exact (loose.parted _ front begun split none there).trans (List.prefix_append _ _)

theorem dropLast_append_self (filled : sep ≠ []) (same : sep.head? = sep.getLast?) :
    sep.dropLast ++ sep = sep ++ sep.tail := by
  obtain ⟨c, rest, rfl⟩ := List.exists_cons_of_ne_nil filled
  have last : (c :: rest).getLast filled = c := by
    rw [List.head?_cons, List.getLast?_eq_some_getLast filled] at same
    exact (Option.some.inj same).symm
  calc (c :: rest).dropLast ++ c :: rest
      = (c :: rest).dropLast ++ [(c :: rest).getLast filled] ++ rest := by simp [last]
    _ = c :: rest ++ rest := by rw [List.dropLast_concat_getLast]

theorem glue_ends {front : List Text} (inhabited : front ≠ []) (last : Text) :
    sep ++ last <:+ glue sep (front ++ [last]) := by
  induction front with
  | nil => contradiction
  | cons piece rest ih =>
    rw [List.cons_append, glue_cons (by simp), List.append_assoc]
    refine List.IsSuffix.trans ?_ (List.suffix_append piece _)
    by_cases only : rest = []
    · simp [only, glue_singleton]
    · exact (ih only).trans (List.suffix_append sep _)

end Text

namespace Location

/-- The room that names take in a text, each with a separator. -/
def room (sep : Text) : List Text → Nat
  | [] => 0
  | name :: names => name.length + sep.length + room sep names

theorem room_append (sep : Text) (names more : List Text) :
    room sep (names ++ more) = room sep names + room sep more := by
  induction names with
  | nil => simp [room]
  | cons name rest ih =>
    simp only [List.cons_append, room, ih]
    omega

theorem room_reverse (sep : Text) (names : List Text) : room sep names.reverse = room sep names := by
  induction names with
  | nil => rfl
  | cons name rest ih =>
    simp only [List.reverse_cons, room_append, room, ih]
    omega

theorem glue_length {names : List Text} (inhabited : names ≠ []) :
    (Text.glue sep names).length + sep.length = room sep names := by
  induction names with
  | nil => contradiction
  | cons name rest ih =>
    by_cases last : rest = []
    · simp [last, Text.glue_singleton, room]
    · rw [Text.glue_cons last, room, ← ih last]
      simp
      omega

theorem text_length (sep drive : Text) (above : List Text) :
    ((Location.mk drive above.reverse).text sep).length =
      drive.length + if above = [] then sep.length else room sep above := by
  by_cases root : above = []
  · simp [root, text, Text.glue, List.intercalate]
  · have inhabited : above.reverse ≠ [] := by simpa using root
    rw [if_neg root, ← room_reverse, ← glue_length inhabited]
    simp [text]
    omega

theorem room_visit (sep : Text) (above : List Text) (piece : Text) :
    room sep (visit above piece) = room sep (piece :: above) ∨
      room sep (visit above piece) + sep.length ≤ room sep (piece :: above) := by
  rw [room]
  unfold visit
  split
  · exact Or.inr (by omega)
  · split
    · have above_less : room sep above.tail ≤ room sep above := by
        cases above with
        | nil => exact Nat.le_refl _
        | cons name rest => exact Nat.le_add_left _ _
      exact Or.inr (by omega)
    · exact Or.inl rfl

theorem room_visited (sep : Text) (pieces above : List Text) :
    room sep (pieces.foldl visit above) = room sep pieces + room sep above ∨
      room sep (pieces.foldl visit above) + sep.length ≤ room sep pieces + room sep above := by
  induction pieces generalizing above with
  | nil => exact Or.inl (Nat.zero_add _).symm
  | cons piece rest ih =>
    have here := room_visit sep above piece
    have later := ih (visit above piece)
    rw [room] at here ⊢
    rw [List.foldl_cons]
    omega

theorem length_ofText {full first : Text} {others : List Text}
    (cut : Text.splitOn sep full = first :: others) :
    ((ofText sep full).text sep).length =
      first.length + if others.foldl visit [] = [] then sep.length
        else room sep (others.foldl visit []) := by
  simp [ofText, cut, text_length]

section
variable {base path : Text}

theorem below_closed (filled : sep ≠ []) (base path : Text) :
    below sep (base ++ sep) path = base ++ sep.dropLast ++ (sep ++ path) := by
  have ending : sep.isSuffixOf (base ++ sep) = true :=
    List.isSuffixOf_iff_suffix.mpr (List.suffix_append base sep)
  rw [below, Text.dropEnding, if_pos ending, List.dropLast_append_of_ne_nil filled,
    List.append_assoc]

theorem below_loose (filled : sep ≠ []) (loose : Text.Loose sep base) (path : Text) :
    below sep base path = base ++ (sep ++ path) := by
  have ending : ¬ sep.isSuffixOf base = true := fun ending =>
    loose sep filled List.prefix_rfl (List.isSuffixOf_iff_suffix.mp ending)
  rw [below, Text.dropEnding, if_neg ending, List.append_assoc]

theorem splitOn_base {front : Text} (filled : sep ≠ []) (free : ¬ sep <:+: path)
    (parted : Text.Parted sep front (sep ++ path)) :
    Text.splitOn sep (front ++ (sep ++ path)) = Text.splitOn sep front ++ [path] := by
  rw [Text.splitOn_parted filled parted, Text.splitOn_absent free]

theorem visit_plain (inhabited : path ≠ []) (other : path ≠ current) (inner : path ≠ parent)
    (above : List Text) : visit above path = path :: above := by
  simp [visit, inhabited, other, inner]

theorem visit_lengthened (long : 1 < sep.length) (loose : Text.Loose sep base) {last : Text}
    (ends : sep ++ last <:+ base) (above : List Text) :
    visit above (last ++ sep.dropLast) = (last ++ sep.dropLast) :: above := by
  have filled : sep ≠ [] := List.ne_nil_of_length_pos (by omega)
  have tail : last <:+ base := (List.suffix_append sep last).trans ends
  have some_last : 0 < last.length := by
    refine List.length_pos_of_ne_nil fun none => ?_
    rw [none, List.append_nil] at ends
    exact loose sep filled List.prefix_rfl ends
  have some_left : 0 < sep.dropLast.length := by
    rw [List.length_dropLast]
    omega
  have wide : (last ++ sep.dropLast).length = last.length + sep.dropLast.length :=
    List.length_append
  refine visit_plain ?_ ?_ ?_ above
  · intro same
    simp only [same, List.length_nil] at wide
    omega
  · intro same
    simp only [same, current, List.length_singleton] at wide
    omega
  · intro same
    obtain ⟨c, rfl⟩ : ∃ c, last = [c] := by
      refine List.length_eq_one_iff.mp ?_
      simp only [same, parent, List.length_cons, List.length_nil] at wide
      omega
    have dots : c = '.' ∧ sep.dropLast = ['.'] := by simpa [parent] using same
    refine loose sep.dropLast (List.ne_nil_of_length_pos some_left) (List.dropLast_prefix sep) ?_
    rw [dots.2, ← dots.1]
    exact tail

variable (long : 1 < sep.length) (loose : Text.Loose sep base) (free : ¬ sep <:+: path)
  (inhabited : path ≠ []) (other : path ≠ current) (inner : path ≠ parent)
include long loose free inhabited other inner

theorem text_closed_ne_of_same (same : sep.head? = sep.getLast?) :
    (ofText sep (base ++ sep.dropLast ++ (sep ++ path))).text sep ≠
      (ofText sep (base ++ (sep ++ path))).text sep := by
  have filled : sep ≠ [] := List.ne_nil_of_length_pos (by omega)
  have again : base ++ sep.dropLast ++ (sep ++ path) = base ++ (sep ++ (sep.tail ++ path)) := by
    rw [List.append_assoc, ← List.append_assoc sep.dropLast, Text.dropLast_append_self filled same,
      List.append_assoc]
  have bare := splitOn_base filled free (loose.parted _)
  have closed := Text.splitOn_parted filled (loose.parted (sep ++ (sep.tail ++ path)))
  obtain ⟨first, others, cut⟩ := List.exists_cons_of_ne_nil (Text.splitOn_ne_nil sep base)
  rw [cut, List.cons_append] at bare closed
  -- none of the pieces can make up for the room that the rest of the separator takes
  have taken := @glue_length sep _ (Text.splitOn_ne_nil sep (sep.tail ++ path))
  rw [Text.glue_splitOn, List.length_append, List.length_tail] at taken
  have bound := room_visited sep (Text.splitOn sep (sep.tail ++ path)) (others.foldl visit [])
  have positive := List.length_pos_of_ne_nil inhabited
  intro equal
  have lengths := congrArg List.length equal
  rw [again, length_ofText bare, length_ofText closed, List.foldl_append, List.foldl_append,
    List.foldl_cons, List.foldl_nil, visit_plain inhabited other inner,
    if_neg (List.cons_ne_nil _ _), room] at lengths
  split at lengths <;> omega

theorem text_closed_ne_of_differ (differ : sep.head? ≠ sep.getLast?) :
    (ofText sep (base ++ sep.dropLast ++ (sep ++ path))).text sep ≠
      (ofText sep (base ++ (sep ++ path))).text sep := by
  have filled : sep ≠ [] := List.ne_nil_of_length_pos (by omega)
  have few : sep.dropLast.length + 1 = sep.length := by
    rw [List.length_dropLast]
    omega
  have short : ¬ sep <:+: sep.dropLast := by
    intro inside
    have := inside.length_le
    omega
  obtain ⟨front, last, cut, longer⟩ :=
    Text.splitOn_lengthened (loose.parted sep.dropLast) short
  have bare := splitOn_base filled free (loose.parted _)
  have closed := splitOn_base filled free (loose.parted_dropLast differ path)
  rw [cut] at bare
  rw [longer] at closed
  intro equal
  have lengths := congrArg List.length equal
  cases front with
  | nil =>
    rw [length_ofText bare, length_ofText closed, List.length_append] at lengths
    omega
  | cons first others =>
    have ends : sep ++ last <:+ base := by
      rw [← Text.glue_splitOn sep base, cut]
      exact Text.glue_ends (List.cons_ne_nil _ _) last
    have least := room_visit sep (others.foldl visit []) last
    simp only [List.cons_append] at bare closed
    rw [length_ofText bare, length_ofText closed] at lengths
    simp only [List.foldl_append, List.foldl_cons, List.foldl_nil,
      visit_plain inhabited other inner, visit_lengthened long loose ends, if_neg (List.cons_ne_nil _ _),
      room, List.length_append] at lengths least
    omega

end

theorem isAbsolute_closed (filled : sep ≠ []) {base : Text} (loose : Text.Loose sep base)
    (absolute : isAbsolute sep base = true) : isAbsolute sep (base ++ sep) = true := by
  have cut := Text.splitOn_parted filled (loose.parted (sep ++ []))
  obtain ⟨first, others, pieces⟩ := List.exists_cons_of_ne_nil (Text.splitOn_ne_nil sep base)
  rw [List.append_nil, pieces, List.cons_append] at cut
  simp only [isAbsolute, Text.first, pieces, cut, List.headD_cons, Bool.and_eq_true] at absolute ⊢
  exact ⟨by simp [filled], absolute.2⟩

end Location

namespace Paths
open Location

theorem normalize_based (filled : sep ≠ []) {base path : Text}
    (absolute : Location.isAbsolute sep base = true)
    (relative : Location.isAbsolute sep path = false) (host : Text) (cwd : Value) :
    normalize host (.text path) (.text base) (.text sep) cwd =
      .ok ((ofText sep (below sep base path)).text sep) := by
  have given : base ≠ [] := by
    intro none
    simp [none, isAbsolute_nil] at absolute
  obtain ⟨c, rest, rfl⟩ := List.exists_cons_of_ne_nil given
  have called : normalize host (.text path) (.text (c :: rest)) (.text sep) cwd =
      Location.normalize sep path (some (c :: rest)) (workingDirectory host sep cwd) := by
    simp only [normalize, Value.asText, Value.asSeparator_text filled]
    rfl
  rw [called, Location.normalize, resolve, Location.expand, if_neg (by simp [relative]), anchor,
    if_pos absolute]
  · rfl
  · simp

/-- A separator at the end of a base. If it is one character it does not matter; if it is longer,
every name below the base is resolved to something else than without it. -/
theorem normalize_closed_iff {base path : Text} (filled : sep ≠ [])
    (absolute : Location.isAbsolute sep base = true) (loose : Text.Loose sep base)
    (relative : Location.isAbsolute sep path = false) (free : ¬ sep <:+: path) (host : Text)
    (cwd : Value) :
    ∃ closed bare,
      normalize host (.text path) (.text (base ++ sep)) (.text sep) cwd = .ok closed ∧
      normalize host (.text path) (.text base) (.text sep) cwd = .ok bare ∧
      (sep.length = 1 → closed = bare) ∧
      (path ≠ [] → path ≠ current → path ≠ parent → (closed = bare ↔ sep.length = 1)) := by
  have one : sep.length = 1 → (ofText sep (below sep (base ++ sep) path)).text sep =
      (ofText sep (below sep base path)).text sep := by
    intro single
    obtain ⟨s, rfl⟩ := List.length_eq_one_iff.mp single
    rw [ofText_below_concat]
  refine ⟨_, _, normalize_based filled (isAbsolute_closed filled loose absolute) relative host cwd,
    normalize_based filled absolute relative host cwd, one, ?_⟩
  intro inhabited other inner
  refine ⟨fun same => ?_, one⟩
  by_contra several
  have long : 1 < sep.length := by
    have := List.length_pos_of_ne_nil filled
    omega
  rw [below_closed filled, below_loose filled loose] at same
  by_cases ends : sep.head? = sep.getLast?
  · exact text_closed_ne_of_same long loose free inhabited other inner ends same
  · exact text_closed_ne_of_differ long loose free inhabited other inner ends same

theorem normalize_closed_iff_letters :
    ∃ closed bare,
      normalize ['/'] (.text ['p']) (.text ['a', 'b', 'x', 'a', 'b']) (.text ['a', 'b']) .null =
        .ok closed ∧
      normalize ['/'] (.text ['p']) (.text ['a', 'b', 'x']) (.text ['a', 'b']) .null = .ok bare ∧
      closed ≠ bare := by
  have loose : Text.Loose ['a', 'b'] ['a', 'b', 'x'] := Text.loose_concat (by decide) ['a', 'b']
  obtain ⟨closed, bare, one, two, _, names⟩ := @normalize_closed_iff ['a', 'b'] ['a', 'b', 'x']
    ['p'] (by decide) (by decide) loose (by decide) (by decide) ['/'] .null
  refine ⟨closed, bare, one, two, fun same => ?_⟩
  exact absurd ((names (by decide) (by decide) (by decide)).mp same) (by decide)

/-- A base in which nothing else is special, and what becomes of a name below it. -/
theorem normalize_closed_strays :
    (Location.isAbsolute [':', ':'] [':', ':', 'a'] = true ∧
      Text.Loose [':', ':'] [':', ':', 'a'] ∧
      Location.isAbsolute [':', ':'] ['p'] = false ∧ ¬ [':', ':'] <:+: ['p']) ∧
    normalize ['/'] (.text ['p']) (.text [':', ':', 'a', ':', ':']) (.text [':', ':']) .null =
      .ok [':', ':', 'a', ':', ':', ':', 'p'] ∧
    normalize ['/'] (.text ['p']) (.text [':', ':', 'a']) (.text [':', ':']) .null =
      .ok [':', ':', 'a', ':', ':', 'p'] :=
  ⟨⟨by decide, Text.loose_concat (by decide) [':', ':'], by decide, by decide⟩, rfl, rfl⟩

end Paths

end PathGlob
