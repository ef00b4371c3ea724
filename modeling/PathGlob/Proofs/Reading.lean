import PathGlob.Pattern.Expression
import PathGlob.Proofs.Separator

namespace PathGlob.Regex
variable {s : Char}

def chain (items : List Regex) : Regex := items.foldr seq nothing

theorem sequence_reverse (items : List Regex) : sequence items.reverse = chain items := by
  rw [sequence, chain, List.foldl_reverse]

def Reader.gather (reader : Reader) (items : List Regex) : Reader :=
  ⟨.plain, ⟨reader.level.before, items.reverse ++ reader.level.items⟩, reader.outer⟩

/-- Outside of groups and sets the text is read as the items. -/
def Spells (text : Text) (items : List Regex) : Prop :=
  ∀ before found outer, Reader.feed ⟨.plain, ⟨before, found⟩, outer⟩ text =
    some (Reader.gather ⟨.plain, ⟨before, found⟩, outer⟩ items)

theorem feed_cons (reader : Reader) (c : Char) (rest : Text) :
    reader.feed (c :: rest) = (reader.step c).bind fun reader => reader.feed rest := by
  simp [Reader.feed]

theorem spells_nil : Spells [] [] := fun _ _ _ => rfl

theorem spells_append {left right : Text} {first second : List Regex} (hl : Spells left first)
    (hr : Spells right second) : Spells (left ++ right) (first ++ second) := by
  intro before found outer
  rw [Reader.feed_append, hl, Option.bind_some, Reader.gather, hr]
  simp [Reader.gather]

theorem spells_flatMap {write : Char → Text} {item : Char → Regex} {text : Text}
    (each : ∀ c ∈ text, Spells (write c) [item c]) :
    Spells (text.flatMap write) (text.map item) := by
  induction text with
  | nil => exact spells_nil
  | cons c rest ih =>
    rw [List.flatMap_cons, List.map_cons, ← List.singleton_append]
    exact spells_append (each c (by simp))
      (ih fun other member => each other (List.mem_cons_of_mem _ member))

theorem read_spelled {text : Text} {items : List Regex} (spelled : Spells text items) :
    read text = some (chain items) := by
  have fed : Reader.blank.feed text = some (Reader.blank.gather items) := spelled _ _ _
  rw [read, fed, ← sequence_reverse]
  simp [Reader.gather, Reader.finish, Reader.blank, Level.blank, Level.close]

theorem listed_not_alphanum {marks : List Char} (plain : marks.all (!·.isAlphanum) = true)
    {c : Char} (member : marks.contains c = true) : c.isAlphanum = false := by
  have here := List.all_eq_true.mp plain c (List.contains_iff_mem.mp member)
  simpa using here

theorem special_not_alphanum {c : Char} (special : isSpecial c = true) : c.isAlphanum = false :=
  listed_not_alphanum (by decide) special

theorem guarded_not_alphanum {c : Char} (guarded : isGuarded c = true) :
    c.isAlphanum = false := by
  rcases (Bool.or_eq_true _ _).mp guarded with special | mark
  · exact special_not_alphanum special
  · exact listed_not_alphanum (by decide) mark

theorem step_plain_char {c : Char} (usual : isSpecial c = false) (reader : Reader) :
    reader.stepPlain c = some (reader.put (one (.char c))) := by
  simp only [isSpecial, List.contains_eq_mem, decide_eq_false_iff_not, List.mem_cons,
    not_or] at usual
  unfold Reader.stepPlain
  split <;> simp_all

theorem spells_escapeIf {test : Char → Bool} {c : Char} (operators : isSpecial c → test c)
    (plain : test c → c.isAlphanum = false) : Spells (escapeIf test c) [one (.char c)] := by
  intro before found outer
  unfold escapeIf
  split
  · rename_i marked
    have begun : Reader.step ⟨.plain, ⟨before, found⟩, outer⟩ '\\' =
        some ⟨.escape, ⟨before, found⟩, outer⟩ := rfl
    rw [feed_cons, begun, Option.bind_some, feed_cons]
    simp only [Reader.step, Reader.stepEscape, plain marked]
    rfl
  · rename_i unmarked
    have usual : isSpecial c = false := by
      by_contra special
      exact unmarked (operators (by simpa using special))
    rw [feed_cons]
    simp only [Reader.step, step_plain_char usual, Option.bind_some]
    rfl

def isMarked (c : Char) : Bool := c == '/' || isGuarded c

theorem escapeSep_char (s : Char) : escapeSep [s] = escapeIf isMarked s := by
  unfold escapeSep startsSpecial escapeIf isMarked isGuarded
  by_cases special : isSpecial s
  · simp [special]
  · by_cases slash : s = '/'
    · simp [slash]
    · simp [special, slash]

theorem marked_not_alphanum {c : Char} (marked : isMarked c = true) : c.isAlphanum = false := by
  simp only [isMarked, Bool.or_eq_true, beq_iff_eq] at marked
  rcases marked with rfl | guarded
  · decide
  · exact guarded_not_alphanum guarded

theorem special_marked {c : Char} (special : isSpecial c = true) : isMarked c = true := by
  simp [isMarked, isGuarded, special]

theorem spells_sep (s : Char) : Spells (escapeSep [s]) [one (.char s)] := by
  rw [escapeSep_char]
  exact spells_escapeIf special_marked marked_not_alphanum

def writeChar (s c : Char) : Text := if c = s then escapeSep [s] else escapeIf isSpecial c

theorem escape_chars (s : Char) (text : Text) : escape [s] text = text.flatMap (writeChar s) := by
  unfold escape
  by_cases special : isSpecial s
  · simp only [startsSpecial, special, ↓reduceIte]
    congr 1
    funext c
    unfold writeChar
    split
    · rename_i same
      simp [same, escapeSep_char, escapeIf, special, special_marked special]
    · rfl
  · simp only [startsSpecial, special, Bool.false_eq_true, ↓reduceIte, Text.replace_char,
      List.flatMap_assoc]
    congr 1
    funext c
    have notSlash : ¬ '\\' = s := fun same => special (by rw [← same]; decide)
    unfold writeChar escapeIf
    split
    · rename_i operator
      have differ : ¬ c = s := fun same => special (same ▸ operator)
      simp [notSlash, differ]
    · simp

theorem spells_writeChar (s c : Char) : Spells (writeChar s c) [one (.char c)] := by
  unfold writeChar
  split
  · rename_i same
    exact same ▸ spells_sep s
  · exact spells_escapeIf id special_not_alphanum

theorem spells_escape (s : Char) (text : Text) :
    Spells (escape [s] text) (text.map fun c => one (.char c)) := by
  rw [escape_chars]
  exact spells_flatMap fun c _ => spells_writeChar s c

theorem feed_sep_in_set (s : Char) (level : Level) (outer : List Level) :
    Reader.feed ⟨.noneOf [], level, outer⟩ (escapeSep [s]) = some ⟨.noneOf [s], level, outer⟩ := by
  rw [escapeSep_char]
  unfold escapeIf
  split
  · rename_i marked
    have begun : Reader.step ⟨.noneOf [], level, outer⟩ '\\' =
        some ⟨.escapeInSet [], level, outer⟩ := rfl
    rw [feed_cons, begun, Option.bind_some, feed_cons]
    simp only [Reader.step, marked_not_alphanum marked]
    rfl
  · rename_i unmarked
    have put : Reader.stepSet ⟨.noneOf [], level, outer⟩ [] s =
        some ⟨.noneOf [s], level, outer⟩ := by
      simp only [isMarked, isGuarded, isSpecial, List.contains_eq_mem, Bool.or_eq_true,
        decide_eq_true_eq, beq_iff_eq, List.mem_cons, not_or] at unmarked
      unfold Reader.stepSet
      split <;> simp_all [Reader.turn]
    rw [feed_cons]
    simp only [Reader.step, put, Option.bind_some]
    rfl

theorem spells_star (s : Char) : Spells (starExpression s) [star (.noneOf [s])] := by
  intro before found outer
  have opened : Reader.feed ⟨.plain, ⟨before, found⟩, outer⟩ ['[', '^'] =
      some ⟨.noneOf [], ⟨before, found⟩, outer⟩ := rfl
  have whole : starExpression s = ['[', '^'] ++ escapeSep [s] ++ [']', '*'] := rfl
  rw [whole, Reader.feed_append, Reader.feed_append, opened, Option.bind_some, feed_sep_in_set,
    Option.bind_some]
  rfl

def pieceItem (s c : Char) : Regex := if c = '*' then star (.noneOf [s]) else one (.char c)

theorem spells_wildcard (s : Char) (piece : Text) :
    Spells (Text.glue (starExpression s) ((Text.splitOn ['*'] piece).map (escape [s])))
      (piece.map (pieceItem s)) := by
  have write : escape [s] = fun text => text.flatMap (writeChar s) := by
    funext text
    exact escape_chars s text
  rw [write, Text.glue_map_split]
  refine spells_flatMap fun c _ => ?_
  unfold pieceItem
  split
  · exact spells_star s
  · exact spells_writeChar s c

theorem spells_literal {piece : Text} (starless : '*' ∉ piece) :
    Spells (escape [s] piece) (piece.map (pieceItem s)) := by
  have items : piece.map (pieceItem s) = piece.map fun c => one (.char c) := by
    refine List.map_congr_left fun c member => ?_
    have differ : ¬ c = '*' := fun same => starless (same ▸ member)
    simp [pieceItem, differ]
  rw [items]
  exact spells_escape s piece

def crossing (s : Char) : Regex := maybe (chain [plus .anyButNewline, one (.char s)])

theorem spells_crossing (s : Char) :
    Spells ("(.+".toList ++ escapeSep [s] ++ ")?".toList) [crossing s] := by
  intro before found outer
  have opened : Reader.feed ⟨.plain, ⟨before, found⟩, outer⟩ "(.+".toList =
      some ⟨.plain, ⟨none, [plus .anyButNewline]⟩, ⟨before, found⟩ :: outer⟩ := rfl
  rw [Reader.feed_append, Reader.feed_append, opened, Option.bind_some, spells_sep,
    Option.bind_some]
  rfl

theorem spells_rest : Spells ".+".toList [plus .anyButNewline] := fun _ _ _ => rfl

theorem spells_stop : Spells ['$'] [stop] := fun _ _ _ => rfl

theorem spells_start : Spells ['^'] [start] := fun _ _ _ => rfl

def opening (s : Char) : Regex := either (chain [start]) (chain [one (.char s)])

theorem spells_opening (s : Char) : Spells (Pattern.opening (escapeSep [s])) [opening s] := by
  intro before found outer
  have opened : Reader.feed ⟨.plain, ⟨before, found⟩, outer⟩ "(?:^|".toList =
      some ⟨.plain, ⟨some (chain [start]), []⟩, ⟨before, found⟩ :: outer⟩ := rfl
  have whole : Pattern.opening (escapeSep [s]) = "(?:^|".toList ++ (escapeSep [s] ++ [')']) :=
    List.append_assoc _ _ _
  rw [whole, Reader.feed_append, opened, Option.bind_some, Reader.feed_append, spells_sep,
    Option.bind_some]
  rfl

def innerItems (s : Char) (piece : Text) : List Regex :=
  if hasGlobstar piece then [crossing s] else piece.map (pieceItem s) ++ [one (.char s)]

def finalItems (s : Char) (piece : Text) : List Regex :=
  if hasGlobstar piece then [plus .anyButNewline] else piece.map (pieceItem s)

def bodyItems (s : Char) : List Text → List Regex
  | [] => []
  | [piece] => finalItems s piece
  | piece :: rest => innerItems s piece ++ bodyItems s rest

theorem spells_final (s : Char) (piece : Text) :
    Spells (Pattern.final s (Segment.ofPiece s piece)) (finalItems s piece) := by
  unfold Segment.ofPiece finalItems
  split
  · exact spells_rest
  · split
    · exact spells_wildcard s piece
    · rename_i starless
      exact spells_literal (by simpa using starless)

theorem spells_inner (s : Char) (piece : Text) :
    Spells (Pattern.inner s (Segment.ofPiece s piece)) (innerItems s piece) := by
  unfold Segment.ofPiece innerItems
  split
  · exact spells_crossing s
  · split
    · exact spells_append (spells_wildcard s piece) (spells_sep s)
    · rename_i starless
      exact spells_append (spells_literal (by simpa using starless)) (spells_sep s)

theorem spells_body (s : Char) (pieces : List Text) :
    Spells (Pattern.body s (pieces.map (Segment.ofPiece s))) (bodyItems s pieces) := by
  induction pieces with
  | nil => exact spells_nil
  | cons piece rest ih =>
    cases rest with
    | nil => exact spells_final s piece
    | cons next more => exact spells_append (spells_inner s piece) ih

def headItems (s : Char) (base : Option Text) : List Regex :=
  match base with
  | none => [opening s]
  | some base =>
      start :: (Pattern.trimBase s base).map (fun c => one (.char c)) ++ [one (.char s)]

/-- The expression of a pattern with at least one segment is read item by item. -/
theorem read_expression {p : Pattern} {pieces : List Text} (inhabited : pieces ≠ [])
    (segments : p.segments = pieces.map (Segment.ofPiece p.sep)) (base : Option Text) :
    Pattern.readExpression (p.expression base) =
      .ok (chain (headItems p.sep base ++ bodyItems p.sep pieces ++ [stop])) := by
  have more : p.segments.isEmpty = false := by simp [segments, inhabited]
  have spelled : Spells (p.expression base)
      (headItems p.sep base ++ bodyItems p.sep pieces ++ [stop]) := by
    refine spells_append (spells_append ?_ ?_) spells_stop
    · cases base with
      | none => exact spells_opening p.sep
      | some base =>
        simp only [Pattern.baseExpression, more, Bool.false_and, Bool.false_eq_true, ↓reduceIte]
        exact spells_append (spells_append spells_start (spells_escape p.sep _)) (spells_sep p.sep)
    · rw [segments]
      exact spells_body p.sep pieces
  rw [Pattern.readExpression, read_spelled spelled]

theorem read_wildcard (s : Char) (piece : Text) :
    Pattern.readExpression
        (Text.glue (starExpression s) ((Text.splitOn ['*'] piece).map (escape [s]))) =
      .ok (chain (piece.map (pieceItem s))) := by
  rw [Pattern.readExpression, read_spelled (spells_wildcard s piece)]

end PathGlob.Regex
