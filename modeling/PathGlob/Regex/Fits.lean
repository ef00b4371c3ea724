import PathGlob.Regex

/-!
What a regular expression means, apart from how a match is found. `Regex.Fits` says when it fits a
part of a text, given what stands before and after that part. Main statements: the search finds a
match exactly if some part of the text fits (`search_iff`), and the full match asks the same of the
whole text (`fullMatch_iff`).
-/
namespace PathGlob

/-- The expression fits `middle` where that stands between `before` and `after`. -/
def Regex.Fits : Regex → Text → Text → Text → Prop
  | nothing, _, middle, _ => middle = []
  | one symbol, _, middle, _ => ∃ c, middle = [c] ∧ symbol.accepts c
  | star symbol, _, middle, _ => ∀ c ∈ middle, symbol.accepts c
  | plus symbol, _, middle, _ => middle ≠ [] ∧ ∀ c ∈ middle, symbol.accepts c
  | maybe inner, before, middle, after => inner.Fits before middle after ∨ middle = []
  | seq left right, before, middle, after =>
      ∃ first second, middle = first ++ second ∧ left.Fits before first (second ++ after) ∧
        right.Fits (before ++ first) second after
  | either left right, before, middle, after =>
      left.Fits before middle after ∨ right.Fits before middle after
  | start, before, middle, _ => middle = [] ∧ before = []
  | stop, _, middle, after => middle = [] ∧ (after = [] ∨ after = ['\n'])

namespace Marks

def At (marks : Marks) (place : Nat) : Prop := marks[place]? = some true

@[simp] theorem not_at_nil (place : Nat) : ¬ At [] place := by simp [At]

@[simp] theorem at_mark_zero (mark : Bool) (marks : Marks) : At (mark :: marks) 0 ↔ mark := by
  simp [At]

@[simp] theorem at_mark_succ (mark : Bool) (marks : Marks) (place : Nat) :
    At (mark :: marks) (place + 1) ↔ At marks place := by
  simp [At]

@[simp] theorem at_cons_zero (mark : Bool) (marks : Marks) : At (cons mark marks) 0 ↔ mark := by
  cases mark <;> cases marks <;> simp [cons]

@[simp] theorem at_cons_succ (mark : Bool) (marks : Marks) (place : Nat) :
    At (cons mark marks) (place + 1) ↔ At marks place := by
  cases mark <;> cases marks <;> simp [cons]

theorem at_zero_iff (marks : Marks) : At marks 0 ↔ marks.headD false := by
  cases marks <;> simp

theorem at_tail (marks : Marks) (place : Nat) : At marks.tail place ↔ At marks (place + 1) := by
  cases marks <;> simp

theorem at_union (left right : Marks) (place : Nat) :
    At (union left right) place ↔ At left place ∨ At right place := by
  induction left, right using union.induct generalizing place with
  | case1 right => simp [union]
  | case2 left => simp [union]
  | case3 a left b right ih => cases place <;> simp [union, ih]

theorem at_advance (symbol : Symbol) (reached : Bool) (text : Text) (marks : Marks)
    (place : Nat) :
    At (advance symbol reached text marks) place ↔
      (place = 0 ∧ reached) ∨
      ∃ before c after, text = before ++ c :: after ∧ place = before.length + 1 ∧
        At marks before.length ∧ symbol.accepts c := by
  induction text generalizing reached marks place with
  | nil => cases place <;> simp [advance]
  | cons c text ih =>
      cases marks with
      | nil => cases place <;> simp [advance]
      | cons mark marks =>
          cases place with
          | zero => simp [advance]
          | succ place =>
              simp only [advance, at_cons_succ, ih]
              constructor
              · rintro (⟨rfl, h⟩ | ⟨before, d, after, rfl, rfl, marked, accepted⟩)
                · rw [Bool.and_eq_true] at h
                  exact .inr ⟨[], c, text, rfl, rfl, by simpa using h.1, h.2⟩
                · exact .inr ⟨c :: before, d, after, rfl, rfl, by simpa using marked, accepted⟩
              · rintro (⟨h, _⟩ | ⟨before, d, after, split, size, marked, accepted⟩)
                · simp at h
                · cases before with
                  | nil =>
                      simp only [List.nil_append, List.cons.injEq] at split
                      obtain ⟨rfl, rfl⟩ := split
                      refine .inl ⟨by simpa using size, ?_⟩
                      simp_all
                  | cons e before =>
                      simp only [List.cons_append, List.cons.injEq] at split
                      obtain ⟨rfl, rfl⟩ := split
                      exact .inr ⟨before, d, after, rfl, by simpa using size,
                        by simpa using marked, accepted⟩

theorem at_sweep (symbol : Symbol) (reached : Bool) (text : Text) (marks : Marks)
    (place : Nat) :
    At (sweep symbol reached text marks) place ↔
      ∃ before middle after, text = before ++ middle ++ after ∧
        place = (before ++ middle).length ∧
        (At marks before.length ∨ reached ∧ before = []) ∧ ∀ c ∈ middle, symbol.accepts c := by
  induction text generalizing reached marks place with
  | nil =>
      cases place with
      | zero =>
          simp only [sweep, at_cons_zero, Bool.or_eq_true, ← at_zero_iff]
          constructor
          · intro h
            exact ⟨[], [], [], rfl, rfl, by simpa [or_comm] using h, by simp⟩
          · rintro ⟨before, middle, after, split, _, h, _⟩
            obtain ⟨rfl, rfl, rfl⟩ : before = [] ∧ middle = [] ∧ after = [] := by simpa using split
            simpa [or_comm] using h
      | succ place =>
          simp only [sweep, at_cons_succ, not_at_nil, false_iff]
          rintro ⟨before, middle, after, split, size, _⟩
          simp_all
  | cons c text ih =>
      have here : (reached || marks.headD false) = true ↔ At marks 0 ∨ reached = true := by
        rw [Bool.or_eq_true, at_zero_iff, or_comm]
      simp only [sweep]
      split
      · rename_i none
        simp only [Bool.and_eq_true, Bool.not_eq_true', Bool.or_eq_false_iff,
          List.isEmpty_iff] at none
        obtain ⟨⟨rfl, _⟩, rfl⟩ := none
        simp
      · cases place with
        | zero =>
            rw [at_cons_zero, here]
            constructor
            · intro h
              exact ⟨[], [], c :: text, rfl, rfl, by simpa using h, by simp⟩
            · rintro ⟨before, middle, after, _, size, h, _⟩
              obtain ⟨rfl, rfl⟩ : before = [] ∧ middle = [] := by simpa using size.symm
              simpa using h
        | succ place =>
            rw [at_cons_succ, ih]
            constructor
            · rintro ⟨before, middle, after, rfl, rfl, marked | ⟨h, rfl⟩, accepted⟩
              · exact ⟨c :: before, middle, after, rfl, rfl,
                  .inl ((at_tail ..).1 marked), accepted⟩
              · rw [Bool.and_eq_true, here] at h
                refine ⟨[], c :: middle, after, rfl, rfl, by simpa using h.1, ?_⟩
                simpa using ⟨h.2, accepted⟩
            · rintro ⟨before, middle, after, split, size, h, accepted⟩
              cases before with
              | nil =>
                  cases middle with
                  | nil => simp at size
                  | cons d middle =>
                      simp only [List.nil_append, List.cons_append, List.cons.injEq] at split
                      obtain ⟨rfl, rfl⟩ := split
                      simp only [List.mem_cons, forall_eq_or_imp] at accepted
                      refine ⟨[], middle, after, rfl, by simpa using size, .inr ⟨?_, rfl⟩,
                        accepted.2⟩
                      rw [Bool.and_eq_true, here]
                      exact ⟨by simpa using h, accepted.1⟩
              | cons d before =>
                  simp only [List.cons_append, List.cons.injEq] at split
                  obtain ⟨rfl, rfl⟩ := split
                  exact ⟨before, middle, after, rfl, by simpa using size,
                    .inl ((at_tail ..).2 (by simpa using h)), accepted⟩

theorem at_atStop (text : Text) (marks : Marks) (place : Nat) :
    At (atStop text marks) place ↔
      At marks place ∧ ∃ before after, text = before ++ after ∧ place = before.length ∧
        (after = [] ∨ after = ['\n']) := by
  induction text generalizing marks place with
  | nil =>
      cases marks with
      | nil => simp [atStop]
      | cons mark marks =>
          cases place with
          | zero =>
              simp only [atStop, at_cons_zero, at_mark_zero, List.nil_eq, List.append_eq_nil_iff]
              exact ⟨fun marked => ⟨marked, [], [], ⟨rfl, rfl⟩, rfl, .inl rfl⟩, And.left⟩
          | succ place =>
              simp only [atStop, at_cons_succ, not_at_nil, false_iff]
              rintro ⟨_, before, after, split, size, _⟩
              simp_all
  | cons c text ih =>
      cases marks with
      | nil => simp [atStop]
      | cons mark marks =>
          cases place with
          | zero =>
              simp only [atStop, at_cons_zero, at_mark_zero, Bool.and_eq_true, beq_iff_eq,
                List.isEmpty_iff]
              constructor
              · rintro ⟨⟨marked, rfl⟩, rfl⟩
                exact ⟨marked, [], ['\n'], rfl, rfl, .inr rfl⟩
              · rintro ⟨marked, before, after, split, size, ending⟩
                obtain rfl : before = [] := by simpa using size.symm
                obtain rfl | rfl := ending
                · simp at split
                · simpa [marked] using split
          | succ place =>
              simp only [atStop, at_cons_succ, at_mark_succ, ih]
              refine and_congr_right fun _ => ⟨?_, ?_⟩
              · rintro ⟨before, after, rfl, rfl, ending⟩
                exact ⟨c :: before, after, rfl, rfl, ending⟩
              · rintro ⟨before, after, split, size, ending⟩
                cases before with
                | nil => simp at size
                | cons d before =>
                    simp only [List.cons_append, List.cons.injEq] at split
                    exact ⟨before, after, split.2, by simpa using size, ending⟩

theorem at_all (text : Text) (place : Nat) : At (all text) place ↔ place ≤ text.length := by
  cases place with
  | zero => simp [all]
  | succ place =>
      rw [all, at_mark_succ, At, List.getElem?_map, Option.map_eq_some_iff]
      exact ⟨fun ⟨_, found, _⟩ => (List.getElem?_eq_some_iff.1 found).1,
        fun h => ⟨_, List.getElem?_eq_getElem h, rfl⟩⟩

theorem ends_iff (text : Text) (marks : Marks) : ends text marks ↔ At marks text.length := by
  induction text generalizing marks with
  | nil => cases marks <;> simp [ends]
  | cons c text ih => cases marks <;> simp [ends, ih]

theorem any_iff (marks : Marks) : marks.any id ↔ ∃ place, At marks place := by
  simp [At, List.mem_iff_getElem?]

end Marks

namespace Regex

open Marks

/-- The places reached are the ends of the parts that fit and begin at a marked place. -/
theorem at_spread (regex : Regex) (text : Text) (marks : Marks)
    (inside : ∀ place, At marks place → place ≤ text.length) (place : Nat) :
    At (regex.spread text marks) place ↔
      ∃ before middle after, text = before ++ middle ++ after ∧
        place = (before ++ middle).length ∧ At marks before.length ∧
        regex.Fits before middle after := by
  induction regex generalizing marks place with
  | nothing =>
      simp only [spread, Fits]
      constructor
      · intro marked
        have size := inside place marked
        exact ⟨text.take place, [], text.drop place, by simp, by simp [size],
          by simpa [List.length_take, Nat.min_eq_left size] using marked, rfl⟩
      · rintro ⟨before, _, after, _, rfl, marked, rfl⟩
        rwa [List.append_nil]
  | one symbol =>
      simp only [spread, at_advance, Bool.false_eq_true, and_false, false_or, Fits]
      constructor
      · rintro ⟨before, c, after, rfl, rfl, marked, accepted⟩
        exact ⟨before, [c], after, by simp, by simp, marked, c, rfl, accepted⟩
      · rintro ⟨before, _, after, rfl, rfl, marked, c, rfl, accepted⟩
        exact ⟨before, c, after, by simp, by simp, marked, accepted⟩
  | star symbol => simp [spread, at_sweep, Fits]
  | plus symbol =>
      simp only [spread, at_sweep, at_advance, Bool.false_eq_true, and_false, false_and, false_or,
        or_false, Fits]
      constructor
      · rintro ⟨reached, middle, after, rfl, rfl, ⟨before, c, rest, split, size, marked, first⟩,
          others⟩
        obtain ⟨rfl, _⟩ : reached = before ++ [c] ∧ middle ++ after = rest := by
          apply List.append_inj
          · simpa using split
          · simp [size]
        exact ⟨before, c :: middle, after, by simp, by simp, marked, by simp,
          by simpa using ⟨first, others⟩⟩
      · rintro ⟨before, middle, after, rfl, rfl, marked, notEmpty, accepted⟩
        cases middle with
        | nil => exact absurd rfl notEmpty
        | cons c middle =>
            simp only [List.mem_cons, forall_eq_or_imp] at accepted
            exact ⟨before ++ [c], middle, after, by simp, by simp,
              ⟨before, c, middle ++ after, by simp, by simp, marked, accepted.1⟩, accepted.2⟩
  | maybe inner ih =>
      simp only [spread, at_union, Fits, ih marks inside]
      constructor
      · rintro (⟨before, middle, after, split, size, marked, fits⟩ | marked)
        · exact ⟨before, middle, after, split, size, marked, .inl fits⟩
        · have size := inside place marked
          exact ⟨text.take place, [], text.drop place, by simp, by simp [size],
            by simpa [List.length_take, Nat.min_eq_left size] using marked, .inr rfl⟩
      · rintro ⟨before, middle, after, split, size, marked, fits | rfl⟩
        · exact .inl ⟨before, middle, after, split, size, marked, fits⟩
        · rw [List.append_nil] at size
          exact .inr (size ▸ marked)
  | seq left right ihl ihr =>
      have within : ∀ place, At (left.spread text marks) place → place ≤ text.length := by
        intro place marked
        obtain ⟨before, middle, after, rfl, rfl, _⟩ := (ihl marks inside place).1 marked
        simp
      have unfolded : At ((seq left right).spread text marks) place ↔
          At (right.spread text (left.spread text marks)) place := by
        simp only [spread]
        split
        · rename_i none
          simp [none, ihr]
        · rfl
      rw [unfolded, ihr _ within]
      simp only [Fits]
      constructor
      · rintro ⟨reached, second, after, split, rfl, arrived, fits⟩
        obtain ⟨before, first, rest, split', size, marked, fits'⟩ :=
          (ihl marks inside _).1 arrived
        obtain ⟨rfl, rfl⟩ : reached = before ++ first ∧ second ++ after = rest := by
          apply List.append_inj
          · simpa [split] using split'
          · exact size
        exact ⟨before, first ++ second, after, by simp [split], by simp, marked, first, second,
          rfl, fits', fits⟩
      · rintro ⟨before, _, after, split, rfl, marked, first, second, rfl, fits, fits'⟩
        refine ⟨before ++ first, second, after, by simp [split], by simp, ?_, fits'⟩
        exact (ihl marks inside _).2
          ⟨before, first, second ++ after, by simp [split], rfl, marked, fits⟩
  | either left right ihl ihr =>
      simp only [spread, at_union, Fits, ihl marks inside, ihr marks inside]
      constructor
      · rintro (⟨before, middle, after, split, size, marked, fits⟩ |
          ⟨before, middle, after, split, size, marked, fits⟩)
        · exact ⟨before, middle, after, split, size, marked, .inl fits⟩
        · exact ⟨before, middle, after, split, size, marked, .inr fits⟩
      · rintro ⟨before, middle, after, split, size, marked, fits | fits⟩
        · exact .inl ⟨before, middle, after, split, size, marked, fits⟩
        · exact .inr ⟨before, middle, after, split, size, marked, fits⟩
  | start =>
      simp only [spread, Fits]
      cases place with
      | zero =>
          rw [at_cons_zero, ← at_zero_iff]
          constructor
          · intro marked
            exact ⟨[], [], text, rfl, rfl, marked, rfl, rfl⟩
          · rintro ⟨_, _, _, _, _, marked, rfl, rfl⟩
            exact marked
      | succ place =>
          simp only [at_cons_succ, not_at_nil, false_iff]
          rintro ⟨_, _, _, _, size, _, rfl, rfl⟩
          simp at size
  | stop =>
      simp only [spread, at_atStop, Fits]
      constructor
      · rintro ⟨marked, before, after, rfl, rfl, ending⟩
        exact ⟨before, [], after, by simp, by simp, marked, rfl, ending⟩
      · rintro ⟨before, _, after, rfl, rfl, marked, rfl, ending⟩
        exact ⟨by simpa using marked, before, after, by simp, by simp, ending⟩

theorem search_iff (regex : Regex) (text : Text) :
    regex.search text ↔
      ∃ before middle after, text = before ++ middle ++ after ∧
        regex.Fits before middle after := by
  simp only [search, any_iff, at_spread regex text _ fun place => (at_all text place).1]
  constructor
  · rintro ⟨_, before, middle, after, split, _, _, fits⟩
    exact ⟨before, middle, after, split, fits⟩
  · rintro ⟨before, middle, after, rfl, fits⟩
    exact ⟨_, before, middle, after, rfl, rfl, (at_all ..).2 (by simp), fits⟩

theorem fullMatch_iff (regex : Regex) (text : Text) :
    regex.fullMatch text ↔ regex.Fits [] text [] := by
  have only (place : Nat) : At [true] place ↔ place = 0 := by cases place <;> simp
  rw [fullMatch, ends_iff, at_spread regex text _ (by simp [only])]
  simp only [only]
  constructor
  · rintro ⟨before, middle, after, rfl, size, start, fits⟩
    obtain rfl : before = [] := by simpa using start
    obtain rfl : after = [] := by simpa using size
    simpa using fits
  · intro fits
    exact ⟨[], text, [], by simp, by simp, rfl, fits⟩

end Regex

end PathGlob
