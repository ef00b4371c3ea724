import PathGlob.Proofs.Route
import PathGlob.Proofs.Trimmed

namespace PathGlob
variable {s : Char}
open Location

namespace Location

theorem isAbsolute_cons (more : Text) : isAbsolute [s] (s :: more) = true := by
  simp [isAbsolute, Text.first, Text.splitOn_char_cons, isDrive]

theorem resolve_append {path : Text} (filled : path ≠ []) (more : Text) (base : Option Text)
    (here : Directory) :
    resolve [s] (path ++ s :: more) base here =
      (resolve [s] path base here).map (behind s more) := by
  unfold resolve expand
  rw [isAbsolute_append filled]
  split
  · exact congrArg Except.ok (ofText_append path more)
  · cases anchor [s] base here with
    | error fault => rfl
    | ok directory => simp only [Except.map, below_append, ofText_append]

theorem resolve_concat {path : Text} (filled : path ≠ []) (base : Option Text) (here : Directory) :
    resolve [s] (path ++ [s]) base here = resolve [s] path base here := by
  rw [resolve_append filled]
  cases resolve [s] path base here with
  | error fault => rfl
  | ok place => exact congrArg Except.ok (behind_nil place)

theorem resolve_cons (more : Text) (base : Option Text) (here : Directory) :
    resolve [s] (s :: more) base here = (resolve [s] [s] base here).map (behind s more) := by
  have root : ofText [s] [s] = ofText [s] [] := (ofText_append [] []).trans (behind_nil _)
  have below : ofText [s] (s :: more) = behind s more (ofText [s] []) := ofText_append [] more
  rw [resolve_of_isAbsolute (isAbsolute_cons more), resolve_of_isAbsolute (isAbsolute_cons []),
    below, root]
  rfl

theorem trimLeft_relative {rest : Text} (relative : isAbsolute [s] rest = false) :
    Text.trimLeft [s] rest = rest := by
  cases rest with
  | nil => rfl
  | cons c rest =>
    have other : c ≠ s := by
      rintro rfl
      simp [isAbsolute_cons] at relative
    simp [Text.trimLeft, other]

theorem joinPiece_concat (path rest : Text) :
    joinPiece [s] (path ++ [s]) rest = joinPiece [s] path rest := by
  simp [joinPiece, Text.trimRight_char]

theorem resolve_joinPiece {path rest : Text} (filled : path ≠ [])
    (relative : isAbsolute [s] rest = false) (base : Option Text) (here : Directory) :
    resolve [s] (joinPiece [s] path rest) base here =
      (resolve [s] path base here).map (behind s rest) := by
  -- Separators at the end of the path are trimmed one by one. They lead nowhere, but where the path
  -- has nothing else, the last of them is its root.
  induction path using List.reverseRecOn with
  | nil => contradiction
  | append_singleton front c ih =>
    by_cases same : c = s
    · subst same
      rw [joinPiece_concat]
      by_cases none : front = []
      · subst none
        have joined : joinPiece [c] [] rest = c :: rest := by
          simp [joinPiece, Text.trimRight, trimLeft_relative relative]
        rw [joined, resolve_cons, List.nil_append]
      · rw [ih none, resolve_concat none]
    · have kept : joinPiece [s] (front ++ [c]) rest = (front ++ [c]) ++ s :: rest := by
        simp [joinPiece, Text.trimRight_char, trimLeft_relative relative, same]
      rw [kept, resolve_append filled]

end Location

namespace Paths

/-- A relative path that is joined to another one comes to what it comes to with the other one for a
base. An empty path counts as the root there, since it has a separator put behind it. -/
theorem normalize_join {directory rest : Text}
    (absolute : Location.isAbsolute [s] directory = true)
    (relative : isAbsolute (.text rest) (.text [s]) = .ok false) (host path : Text)
    (base : Option Text) :
    ∃ joined above answer, join (.text path) [.text rest] (.text [s]) = .ok joined ∧
      normalize host (.text (if path = [] then [s] else path)) (base.elim .null .text)
        (.text [s]) (.text directory) = .ok above ∧
      normalize host (.text joined) (base.elim .null .text) (.text [s]) (.text directory) =
        .ok answer ∧
      ∀ (elsewhere : Text) (cwd : Value),
        normalize elsewhere (.text rest) (.text above) (.text [s]) cwd = .ok answer := by
  have relative : Location.isAbsolute [s] rest = false := Except.ok.inj relative
  have seam : joinPiece [s] (if path = [] then [s] else path) rest = joinPiece [s] path rest := by
    split
    · rename_i none
      rw [none]
      exact joinPiece_concat [] rest
    · rfl
  have filled : (if path = [] then [s] else path) ≠ [] := by
    split
    · simp
    · assumption
  generalize (if path = [] then [s] else path) = front at seam filled
  obtain ⟨place, found⟩ := resolve_total s directory front base
  have resolved := resolve_resolved (anchored_here absolute) found
  have joined := resolve_joinPiece filled relative base (.ok directory)
  rw [seam, found] at joined
  refine ⟨joinPiece [s] path rest, place.text [s], (behind s rest place).text [s], rfl,
    normalize_found absolute found host, normalize_found absolute joined host, ?_⟩
  intro elsewhere cwd
  exact (normalize_text elsewhere rest (some _) s cwd).trans
    (normalize_behind resolved relative _)

theorem normalize_join_closed :
    ∃ joined above answer,
      join (.text "a//".toList) [.text "../c".toList] (.text ['/']) = .ok joined ∧
      normalize [] (.text "a//".toList) (.text ['b']) (.text ['/']) (.text "/w".toList) =
        .ok above ∧
      normalize [] (.text joined) (.text ['b']) (.text ['/']) (.text "/w".toList) = .ok answer ∧
      normalize [] (.text "../c".toList) (.text above) (.text ['/']) .null = .ok answer := by
  have absolute : Location.isAbsolute ['/'] "/w".toList = true := rfl
  have relative : isAbsolute (.text "../c".toList) (.text ['/']) = .ok false := rfl
  obtain ⟨joined, above, answer, made, found, whole, behind⟩ :=
    normalize_join absolute relative [] "a//".toList (some ['b'])
  exact ⟨joined, above, answer, made, found, whole, behind [] .null⟩

/-- A path joined to the empty path is absolute, so that the base is lost. -/
theorem normalize_join_empty :
    Location.isAbsolute ['/'] "/w".toList = true ∧
      isAbsolute (.text ['a']) (.text ['/']) = .ok false ∧
      ∃ joined above answer other,
        join (.text []) [.text ['a']] (.text ['/']) = .ok joined ∧
        normalize [] (.text []) (.text "/b".toList) (.text ['/']) (.text "/w".toList) =
          .ok above ∧
        normalize [] (.text joined) (.text "/b".toList) (.text ['/']) (.text "/w".toList) =
          .ok answer ∧
        normalize [] (.text ['a']) (.text above) (.text ['/']) (.text "/w".toList) =
          .ok other ∧
        answer ≠ other :=
  ⟨rfl, rfl, "/a".toList, "/b".toList, "/a".toList, "/b/a".toList, rfl, rfl, rfl, rfl, by decide⟩

end Paths

end PathGlob
