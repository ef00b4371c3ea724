import PathGlob.Proofs.Agreement
import PathGlob.Proofs.Stages

namespace PathGlob
variable {s : Char}
open Location

/-- What a pattern without segments stands for: the base without a separator at its end, or the
separator where nothing else is left. -/
def soleText (s : Char) (base : Text) : Text :=
  if bareBase s base = [] then [s] else bareBase s base

theorem soleText_text {place : Location} (resolved : Resolved s place)
    (slash : s = '\\' → '/' ∉ place.text [s]) :
    soleText s (place.text [s]) =
      if place.names = [] ∧ place.drive ≠ [] then place.drive else place.text [s] := by
  rw [soleText, bareBase_text resolved slash]
  by_cases root : place.names = []
  · by_cases bare : place.drive = []
    · simp [root, bare, text_eq, Text.glue]
    · simp [root, bare, Text.glue_singleton]
  · have filled : place.text [s] ≠ [] := by simp [text_eq]
    rw [← glued_text root, if_neg filled, if_neg fun h => root h.1]

namespace Regex

theorem writeChar_ne_nil (s c : Char) : writeChar s c ≠ [] := by
  unfold writeChar
  rw [escapeSep_char]
  unfold escapeIf
  split <;> split <;> simp

theorem escape_eq_nil_iff (s : Char) (text : Text) : escape [s] text = [] ↔ text = [] := by
  rw [escape_chars]
  cases text with
  | nil => simp
  | cons c rest => simp [writeChar_ne_nil]

theorem spells_sole (s : Char) (base : Text) :
    Spells (Pattern.baseExpression s [] base)
      ([start] ++ (soleText s base).map fun c => one (.char c)) := by
  rw [Pattern.baseExpression, trimBase_bare, soleText]
  by_cases empty : bareBase s base = []
  · rw [empty, (escape_eq_nil_iff s []).mpr rfl, if_pos rfl]
    exact spells_append spells_start (spells_sep s)
  · have written : escape [s] (bareBase s base) ≠ [] := mt (escape_eq_nil_iff s _).mp empty
    rw [if_pos (by simpa using written), if_neg empty, List.append_nil]
    exact spells_append spells_start (spells_escape s _)

theorem spells_alone {p : Pattern} (none : p.segments = []) (base : Text) :
    Spells (p.expression (some base))
      ([start] ++ (soleText p.sep base).map (fun c => one (.char c)) ++ [stop]) := by
  refine spells_append ?_ spells_stop
  simp only [none, Pattern.body, List.append_nil]
  exact spells_sole p.sep base

theorem search_alone (text name : Text) :
    (chain ([start] ++ text.map (fun c => one (.char c)) ++ [stop])).search name = true ↔
      name = text ∨ name = text ++ ['\n'] := by
  simp only [search_closed, fits_append, fits_single, fits_start, fits_text]
  constructor
  · intro h
    obtain ⟨_, _, after, rfl, ⟨_, _, rfl, ⟨rfl, rfl⟩, rfl⟩, ending⟩ := h
    rcases ending with rfl | rfl <;> simp
  · intro h
    rcases h with rfl | rfl
    · exact ⟨[], name, [], by simp, ⟨[], name, rfl, ⟨rfl, rfl⟩, rfl⟩, Or.inl rfl⟩
    · exact ⟨[], text, ['\n'], rfl, ⟨[], text, rfl, ⟨rfl, rfl⟩, rfl⟩, Or.inr rfl⟩

end Regex

namespace Pattern

theorem accepts_alone_iff {p : Pattern} (none : p.segments = []) (base name : Text) :
    ∃ accepted, p.accepts (some base) name = .ok accepted ∧
      (accepted = true ↔ name = soleText p.sep base ∨ name = soleText p.sep base ++ ['\n']) := by
  rw [accepts, readExpression, Regex.read_spelled (Regex.spells_alone none base)]
  exact ⟨_, rfl, Regex.search_alone _ name⟩

end Pattern

namespace Glob

theorem run_ended_alone {α : Type} {glob : Glob} {volume : Volume} {start : Text}
    (none : glob.pattern.segments = []) (begun : (glob.start volume).2 = .ok start)
    (hooks : Hooks α) : (glob.run volume hooks).outcome = .ended := by
  have positive : Walk.fuel volume [] ≠ 0 :=
    Nat.pos_iff_ne_zero.mp (Nat.pow_pos (Nat.succ_pos _))
  obtain ⟨fuel, enough⟩ := Nat.exists_eq_succ_of_ne_zero positive
  rw [run_begun begun, none, enough]
  cases fuel <;> rfl

/-- For a pattern without segments a walk yields where it starts and nothing else, whatever the
volume. Behind a normalized base the expression accepts a single line: the base, as a walk yields
it, unless that is the root of a drive. Of that the drive alone is accepted, without a separator. -/
theorem accepted_at_base_iff {p : Pattern} {pattern asked cwd : Value} {host base : Text}
    (none : p.segments = []) (obtained : Pattern.obtain pattern asked = .ok p)
    (normal : Paths.normalize host (.text base) .null (.text [p.sep]) cwd = .ok base)
    (slash : p.sep = '\\' → '/' ∉ base) :
    ∃ place, Resolved p.sep place ∧ place.text [p.sep] = base ∧
      (∀ name, '\n' ∉ name → ∃ accepted,
        Pattern.globMatch (.text name) pattern asked (.text base) = .ok accepted ∧
          (accepted = true ↔
            name = if place.names = [] ∧ place.drive ≠ [] then place.drive else base)) ∧
      ∀ (glob : Glob) (volume : Volume), glob.pattern = p → (glob.start volume).2 = .ok base →
        Walk.yields (glob.run volume .plain).events = [base] := by
  obtain ⟨place, resolved, rfl⟩ := Paths.normalize_given normal
  refine ⟨place, resolved, rfl, ?_, ?_⟩
  · intro name line
    obtain ⟨accepted, answer, meaning⟩ :=
      Pattern.accepts_alone_iff none (place.text [p.sep]) name
    refine ⟨accepted, (Pattern.globMatch_accepts obtained (some _) name).trans answer, ?_⟩
    rw [meaning, ← soleText_text resolved slash]
    -- With a newline at its end the name would hold one.
    refine or_iff_left fun longer => line ?_
    rw [longer]
    exact List.mem_append_right _ (List.mem_singleton.mpr rfl)
  · intro glob volume same begun
    have bare : glob.pattern.segments = [] := same ▸ none
    exact yields_start bare begun (run_ended_alone bare begun Hooks.plain)

theorem accepted_at_base_iff_drive :
    Pattern.globMatch (.text ['C', ':']) (.text ['a', '/', '.', '.']) .null
      (.text ['C', ':', '/']) = .ok true := by
  have none : (Pattern.ofText '/' ['a', '/', '.', '.']).segments = [] := rfl
  have obtained : Pattern.obtain (.text ['a', '/', '.', '.']) .null =
      .ok (Pattern.ofText '/' ['a', '/', '.', '.']) := rfl
  have normal : Paths.normalize [] (.text ['C', ':', '/']) .null (.text ['/']) .null =
      .ok ['C', ':', '/'] := rfl
  obtain ⟨place, resolved, same, accepts, _⟩ :=
    accepted_at_base_iff none obtained normal (by decide)
  obtain rfl : ⟨['C', ':'], []⟩ = place := by
    rw [← ofText_text resolved, same]
    rfl
  obtain ⟨accepted, answer, meaning⟩ := accepts ['C', ':'] (by decide)
  rw [answer, meaning.mpr rfl]

/-- The root of a drive is yielded, and it is not accepted behind itself. -/
theorem drive_root_unaccepted :
    ∃ (memory : Memory) (glob : Glob),
      Memory.create .null .null [.text ['C', ':', '/']] [] [] = .ok memory ∧
      Pattern.compile (.text ['.']) .null = .ok glob.pattern ∧ glob.pattern.segments = [] ∧
      Paths.normalize [] (.text ['C', ':', '/']) .null (.text ['/']) .null =
        .ok ['C', ':', '/'] ∧
      (glob.start memory.volume).2 = .ok ['C', ':', '/'] ∧
      Walk.yields (glob.run memory.volume .plain).events = [['C', ':', '/']] ∧
      Pattern.globMatch (.text ['C', ':', '/']) (.text ['.']) .null (.text ['C', ':', '/']) =
        .ok false := by
  refine ⟨⟨['/'], .text ['/'], [(['/'], .directory []), (['C', ':', '/'], .directory [])], []⟩,
    ⟨Pattern.ofText '/' ['.'], ['C', ':', '/'], none⟩, rfl, rfl, rfl, rfl, rfl, ?_, rfl⟩
  decide +kernel

end Glob

end PathGlob
