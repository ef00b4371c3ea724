import PathGlob.Proofs.Interchange

namespace PathGlob
variable {s : Char}

namespace Path

/-- The base that is left when a path is made again from its base. -/
def remade (s : Char) : Option Text → Option Text
  | none => none
  | some base =>
      if base = [] then none
      else some (if base = [s] then base else Text.dropEnding [s] base)

theorem create_remade (path : Text) (base : Option Text) (s : Char) (cwd : Value) :
    create (.text path) (base.elim .null .text) (.text [s]) cwd =
      .ok ⟨path, remade s base, .text [s], cwd⟩ := by
  rcases base with _ | _ | ⟨c, rest⟩ <;> rfl

theorem join_made {p : Path} (separator : p.sep = .text [s]) (pieces : List Text) :
    p.join (pieces.map .text) =
      .ok ⟨Location.join [s] p.path pieces, remade s p.base, .text [s], p.cwd⟩ := by
  have usable : p.sep.asSeparator = some [s] := by rw [separator]; rfl
  rw [join, Paths.join_texts usable, baseValue_eq, separator]
  exact create_remade _ _ _ _

theorem remade_bare (s : Char) (base : Option Text) : Bare s base (remade s base) := by
  obtain ⟨bare, made, trim⟩ := create_text [] base s .null
  rw [create_remade] at made
  have same : remade s base = bare := by simpa using made
  rwa [same]

def Closed (s : Char) (base : Option Text) : Prop := ∃ front, front ≠ [] ∧ base = some (front ++ [s])

theorem remade_cases (s : Char) (base : Option Text) :
    (∃ front, front ≠ [] ∧ base = some (front ++ [s]) ∧ remade s base = some front) ∨
      (base = some [] ∧ remade s base = none) ∨
      base ≠ some [] ∧ ¬ Closed s base ∧ remade s base = base := by
  rcases base with _ | base
  · exact Or.inr (Or.inr ⟨by simp, by simp [Closed], rfl⟩)
  · by_cases empty : base = []
    · exact Or.inr (Or.inl ⟨by rw [empty], by rw [empty]; rfl⟩)
    · by_cases closed : Closed s (some base)
      · obtain ⟨front, filled, same⟩ := closed
        obtain rfl := Option.some.inj same
        have ending : [s].isSuffixOf (front ++ [s]) = true := Text.ends_iff.mpr ⟨front, rfl⟩
        exact Or.inl ⟨front, filled, rfl, by simp [remade, filled, Text.dropEnding, ending]⟩
      · refine Or.inr (Or.inr ⟨by simpa using empty, closed, ?_⟩)
        have kept : base ≠ [s] → Text.dropEnding [s] base = base := by
          intro longer
          refine if_neg fun ending => ?_
          obtain ⟨front, rfl⟩ := Text.ends_iff.mp ending
          exact closed ⟨front, fun none => longer (by rw [none]; rfl), rfl⟩
        by_cases root : base = [s]
        · simp [remade, root]
        · simp [remade, empty, root, kept root]

theorem remade_fixed_iff {base : Option Text} :
    remade s base = base ↔ base ≠ some [] ∧ ¬ Closed s base := by
  rcases remade_cases s base with ⟨front, filled, rfl, made⟩ | ⟨rfl, made⟩ | ⟨given, open_, made⟩
  · rw [made]
    have closed : Closed s (some (front ++ [s])) := ⟨front, filled, rfl⟩
    simp [closed]
  · simp [made]
  · exact ⟨fun _ => ⟨given, open_⟩, fun _ => made⟩

theorem remade_twice_iff {base : Option Text} :
    remade s (remade s base) = remade s base ↔
      ¬ ∃ front, front ≠ [] ∧ base = some (front ++ [s, s]) := by
  rw [remade_fixed_iff]
  rcases remade_cases s base with ⟨front, filled, rfl, made⟩ | ⟨rfl, made⟩ | ⟨given, open_, made⟩
  · rw [made]
    have doubled : ∀ other, some (front ++ [s]) = some (other ++ [s, s]) ↔
        some front = some (other ++ [s]) := by
      intro other
      rw [Option.some.injEq, Option.some.injEq, List.append_cons other s [s]]
      exact List.append_left_inj [s]
    simp only [doubled]
    exact ⟨fun h => h.2, fun h => ⟨by simpa using filled, h⟩⟩
  · simp [made, Closed]
  · rw [made]
    refine ⟨fun _ h => ?_, fun _ => ⟨given, open_⟩⟩
    obtain ⟨front, _, same⟩ := h
    exact open_ ⟨front ++ [s], by simp, by rw [same, List.append_assoc]; rfl⟩

theorem same_iff {path other : Text} {base more : Option Text} {cwd again : Value} :
    (⟨path, base, .text [s], cwd⟩ : Path).same (value ⟨other, more, .text [s], again⟩) = true ↔
      path = other ∧ base = more := by
  simp [Path.same, value, Value.same]

/-- Joining nothing gives the same path back exactly if its base is not empty and has no separator
to lose, and joining in two goes gives what joining at once gives exactly if it does not have two of
them; either way both lead to the same place. -/
theorem joins_regrouped_iff (p : Path) (separator : p.sep = .text [s]) :
    (∃ again, p.join [] = .ok again ∧
      (again.same p.value = true ↔ p.base ≠ some [] ∧
        ¬ ∃ front, front ≠ [] ∧ p.base = some (front ++ [s])) ∧
      ∀ host, (Session.fresh host again).normalize.1 = (Session.fresh host p).normalize.1) ∧
    ∀ pieces more : List Text, ∃ first second whole, p.join (pieces.map .text) = .ok first ∧
      first.join (more.map .text) = .ok second ∧
      p.join ((pieces ++ more).map .text) = .ok whole ∧
      (second.same whole.value = true ↔
        ¬ ∃ front, front ≠ [] ∧ p.base = some (front ++ [s, s])) ∧
      ∀ host, (Session.fresh host second).normalize.1 =
        (Session.fresh host whole).normalize.1 := by
  have leads : ∀ (path : Text) (base : Option Text) host,
      (Session.fresh host ⟨path, remade s base, .text [s], p.cwd⟩).normalize.1 =
        (Session.fresh host ⟨path, base, .text [s], p.cwd⟩).normalize.1 := by
    intro path base host
    have one := (Session.fresh_faithful (p := ⟨path, remade s base, .text [s], p.cwd⟩) rfl
      host).normalize_fst
    have other := (Session.fresh_faithful (p := ⟨path, base, .text [s], p.cwd⟩) rfl
      host).normalize_fst
    rw [one, other, Location.normalize, Location.normalize,
      Location.resolve_bare (remade_bare s base)]
  have whole : p = ⟨p.path, p.base, .text [s], p.cwd⟩ := by rw [← separator]
  constructor
  · refine ⟨_, join_made separator [], ?_, fun host => ?_⟩
    · rw [whole, same_iff]
      exact ⟨fun h => remade_fixed_iff.mp h.2, fun h => ⟨rfl, remade_fixed_iff.mpr h⟩⟩
    · exact (leads p.path p.base host).trans (by rw [← whole])
  · intro pieces more
    refine ⟨_, _, _, join_made separator pieces, join_made rfl more,
      join_made separator (pieces ++ more), ?_, fun host => ?_⟩
    · rw [same_iff, Location.join_append, remade_twice_iff]
      simp
    · rw [← Location.join_append]
      exact leads _ _ host

theorem joins_regrouped_iff_doubled :
    ∃ p, create (.text ['a']) (.text ['b', '/', '/']) (.text ['/']) .null = .ok p ∧
      (∃ again, p.join [] = .ok again ∧ ¬ again.same p.value = true) ∧
      ∃ first second whole, p.join [.text ['x']] = .ok first ∧
        first.join [.text ['y']] = .ok second ∧ p.join [.text ['x'], .text ['y']] = .ok whole ∧
        second.same whole.value = true := by
  obtain ⟨⟨again, made, fixed, _⟩, grouped⟩ :=
    joins_regrouped_iff (s := '/') ⟨['a'], some ['b', '/'], .text ['/'], .null⟩ rfl
  obtain ⟨first, second, whole, one, two, both, equal, _⟩ := grouped [['x']] [['y']]
  refine ⟨_, rfl, ⟨again, made, fun same => ?_⟩, first, second, whole, one, two, both, ?_⟩
  · exact (fixed.mp same).2 ⟨['b'], by simp, rfl⟩
  · refine equal.mpr fun h => ?_
    obtain ⟨front, filled, same⟩ := h
    have short : front.length = 0 := by simpa using congrArg List.length (Option.some.inj same)
    exact filled (List.eq_nil_of_length_eq_zero short)

/-- With three separators at the end of a base neither join gives an equal path. -/
theorem joins_apart :
    ∃ p again first second whole,
      create (.text ['a']) (.text ['b', '/', '/', '/']) (.text ['/']) .null = .ok p ∧
      p.join [] = .ok again ∧ again.same p.value = false ∧
      p.join [.text ['x']] = .ok first ∧ first.join [.text ['y']] = .ok second ∧
      p.join [.text ['x'], .text ['y']] = .ok whole ∧ second.same whole.value = false :=
  ⟨_, _, _, _, _, rfl, rfl, by decide, rfl, rfl, rfl, by decide⟩

end Path

end PathGlob
