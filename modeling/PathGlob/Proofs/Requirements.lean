import PathGlob.Release
import PathGlob.Proofs.Separator

namespace PathGlob

inductive LineEnding where
  | newline
  | carriageReturn
  | both
  deriving DecidableEq, Repr

def LineEnding.text : LineEnding → Text
  | newline => ['\n']
  | carriageReturn => ['\r']
  | both => ['\r', '\n']

namespace Text

theorem plainNewlines_free {text : Text} (free : '\r' ∉ text) : plainNewlines text = text := by
  fun_induction plainNewlines text with
  | case1 => rfl
  | case2 rest ih => simp at free
  | case3 c rest _ ih =>
    simp only [List.mem_cons, not_or] at free
    rw [ih free.2, if_neg (Ne.symm free.1)]

theorem plainNewlines_append {text more : Text}
    (apart : text.getLast? = some '\r' → more.head? ≠ some '\n') :
    plainNewlines (text ++ more) = plainNewlines text ++ plainNewlines more := by
  fun_induction plainNewlines text with
  | case1 => rfl
  | case2 rest ih =>
    have later : rest.getLast? = some '\r' → more.head? ≠ some '\n' := by
      intro ending
      exact apart (by simp [List.getLast?_cons, ending])
    simp [plainNewlines, ih later]
  | case3 c rest single ih =>
    have later : rest.getLast? = some '\r' → more.head? ≠ some '\n' := by
      intro ending
      exact apart (by simp [List.getLast?_cons, ending])
    have alone : ∀ tail, c = '\r' → rest ++ more ≠ '\n' :: tail := by
      intro tail back same
      cases rest with
      | nil => exact apart (by simp [back]) (by simpa using congrArg List.head? same)
      | cons next others => exact single others back (by simp_all)
    rw [List.cons_append, plainNewlines, ih later, List.cons_append]
    exact alone

theorem strip_begins (text : Text) : strip text <+: text.dropWhile isBlank :=
  List.rdropWhile_prefix isBlank _

theorem strip_subset (text : Text) : strip text ⊆ text :=
  List.Subset.trans (strip_begins text).subset (List.dropWhile_subset isBlank)

theorem strip_strip (text : Text) : strip (strip text) = strip text := by
  have right : (strip text).rdropWhile isBlank = strip text :=
    List.rdropWhile_idempotent isBlank (text.dropWhile isBlank)
  have left : (strip text).dropWhile isBlank = strip text := by
    obtain ⟨back, whole⟩ := strip_begins text
    have first := List.head?_dropWhile_not isBlank text
    cases stripped : strip text with
    | nil => rfl
    | cons c rest =>
      rw [← whole, stripped] at first
      have kept : isBlank c = false := by simpa using first
      simp [kept]
  rw [strip, left]
  exact right

end Text

namespace Release
open Text

def entriesOf (text : Text) : List Text := ((splitOn ['\n'] text).map strip).filter isRequirement

theorem requirements_eq (text : Text) : requirements text = entriesOf (plainNewlines text) := rfl

theorem entriesOf_append (text more : Text) :
    entriesOf (text ++ '\n' :: more) = entriesOf text ++ entriesOf more := by
  simp [entriesOf, split_append]

theorem requirements_newline (text more : Text) :
    requirements (text ++ '\n' :: more) = requirements text ++ requirements more := by
  have line : plainNewlines ('\n' :: more) = '\n' :: plainNewlines more := by simp [plainNewlines]
  by_cases ending : text.getLast? = some '\r'
  · obtain ⟨front, rfl⟩ := List.getLast?_eq_some_iff.mp ending
    have one : plainNewlines (front ++ '\r' :: '\n' :: more) =
        plainNewlines front ++ plainNewlines ('\r' :: '\n' :: more) :=
      plainNewlines_append (by simp)
    have other : plainNewlines (front ++ ['\r']) = plainNewlines front ++ plainNewlines ['\r'] :=
      plainNewlines_append (by simp)
    have first : requirements (front ++ ['\r']) = requirements front := by
      rw [requirements_eq, other]
      exact (entriesOf_append _ []).trans (List.append_nil _)
    rw [List.append_assoc, first, requirements_eq, List.singleton_append, one]
    exact entriesOf_append _ _
  · rw [requirements_eq, plainNewlines_append (fun back => absurd back ending), line]
    exact entriesOf_append _ _

theorem requirements_blank (text : Text) : requirements ('\n' :: text) = requirements text :=
  requirements_newline [] text

theorem requirements_return (text more : Text) :
    requirements (text ++ '\r' :: more) = requirements text ++ requirements more := by
  have one : plainNewlines (text ++ '\r' :: more) =
      plainNewlines text ++ plainNewlines ('\r' :: more) := plainNewlines_append (by simp)
  rw [requirements_eq, one]
  by_cases ending : more.head? = some '\n'
  · obtain ⟨rest, rfl⟩ := List.head?_eq_some_iff.mp ending
    rw [requirements_blank]
    exact entriesOf_append _ _
  · have line : plainNewlines ('\r' :: more) = '\n' :: plainNewlines more := by
      rw [plainNewlines]
      · simp
      · intro rest _ same
        exact ending (by simp [same])
    rw [line]
    exact entriesOf_append _ _

theorem requirements_ending (ending : LineEnding) (text more : Text) :
    requirements (text ++ ending.text ++ more) = requirements text ++ requirements more := by
  rw [List.append_assoc]
  cases ending with
  | newline => exact requirements_newline text more
  | carriageReturn => exact requirements_return text more
  | both =>
    calc requirements (text ++ '\r' :: '\n' :: more)
        = requirements text ++ requirements ('\n' :: more) := requirements_return text _
      _ = requirements text ++ requirements more := by rw [requirements_blank]

/-- What can be read as a requirement: a line that is not blank, no comment and stripped. -/
structure Clean (entry : Text) : Prop where
  required : isRequirement entry = true
  stripped : strip entry = entry
  newline : '\n' ∉ entry
  carriageReturn : '\r' ∉ entry

theorem clean_of_mem {entry text : Text} (member : entry ∈ requirements text) : Clean entry := by
  obtain ⟨inside, required⟩ := List.mem_filter.mp member
  obtain ⟨line, cut, rfl⟩ := List.mem_map.mp inside
  refine ⟨required, strip_strip line, ?_, ?_⟩
  · exact fun ending => piece_free cut (strip_subset line ending)
  · intro ending
    have whole : '\r' ∈ glue ['\n'] (lines text) := mem_glue_of_mem cut (strip_subset line ending)
    rw [lines, glue_splitOn] at whole
    exact not_mem_plainNewlines text whole

theorem requirements_single {entry : Text} (clean : Clean entry) :
    requirements entry = [entry] := by
  simp [requirements, lines, plainNewlines_free clean.carriageReturn, split_free clean.newline,
    clean.stripped, clean.required]

theorem requirements_written (ending : LineEnding) {entries : List Text}
    (clean : ∀ entry ∈ entries, Clean entry) :
    requirements (entries.flatMap (· ++ ending.text)) = entries := by
  induction entries with
  | nil => rfl
  | cons entry rest ih =>
    obtain ⟨here, later⟩ := List.forall_mem_cons.mp clean
    rw [List.flatMap_cons, requirements_ending, requirements_single here, ih later,
      List.singleton_append]

theorem requirements_glued (ending : LineEnding) {entries : List Text}
    (clean : ∀ entry ∈ entries, Clean entry) :
    requirements (glue ending.text entries) = entries := by
  induction entries with
  | nil => rfl
  | cons entry rest ih =>
    obtain ⟨here, later⟩ := List.forall_mem_cons.mp clean
    by_cases last : rest = []
    · rw [last, glue_singleton, requirements_single here]
    · rw [glue_cons last, requirements_ending, requirements_single here, ih later,
        List.singleton_append]

/-- Reading requirements is compositional: texts on lines of their own bring in their requirements
one after another, whichever way the line between them ends. And it is canonical: a list is read
back from its lines, with or without an ending behind the last one, exactly if each of its entries
can be read as a requirement, as all those do that are read. -/
theorem requirements_compositional (ending : LineEnding) :
    (∀ text more : Text,
      requirements (text ++ ending.text ++ more) = requirements text ++ requirements more) ∧
    (∀ text, requirements ((requirements text).flatMap (· ++ ending.text)) = requirements text ∧
      requirements (glue ending.text (requirements text)) = requirements text) ∧
    ∀ entries : List Text,
      (requirements (entries.flatMap (· ++ ending.text)) = entries ↔
        ∀ entry ∈ entries, Clean entry) ∧
      (requirements (glue ending.text entries) = entries ↔ ∀ entry ∈ entries, Clean entry) := by
  have read : ∀ text, ∀ entry ∈ requirements text, Clean entry :=
    fun text entry member => clean_of_mem member
  refine ⟨requirements_ending ending, fun text => ⟨?_, ?_⟩, fun entries => ⟨⟨?_, ?_⟩, ⟨?_, ?_⟩⟩⟩
  · exact requirements_written ending (read text)
  · exact requirements_glued ending (read text)
  · exact fun same => same ▸ read _
  · exact requirements_written ending
  · exact fun same => same ▸ read _
  · exact requirements_glued ending

end Release

end PathGlob
