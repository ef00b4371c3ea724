import PathGlob.Proofs.Compared

namespace PathGlob
variable {s : Char}
open Location

namespace Location

theorem route_concat_length (target reference : List Text) (name : Text) :
    (route target reference).length ≤ (route target (reference ++ [name])).length + 1 ∧
      (route target (reference ++ [name])).length ≤ (route target reference).length + 1 := by
  induction target generalizing reference with
  | nil =>
    simp only [route, List.append_nil, List.length_replicate, List.length_append,
      List.length_singleton]
    omega
  | cons first target ih =>
    cases reference with
    | nil =>
      by_cases same : first = name
      · cases target <;> simp [route, same]
      · simp [route, same]
    | cons other reference =>
      by_cases same : first = other
      · simpa [route, same] using ih reference
      · simp [route, same]
        omega

/-- No piece brings the target nearer by more than one step. -/
theorem route_visit_length (target above : List Text) (piece : Text) :
    (route target above.reverse).length ≤
      (route target (visit above piece).reverse).length + 1 := by
  unfold visit
  split
  · omega
  · split
    · cases above with
      | nil => exact Nat.le_succ _
      | cons name above =>
        rw [List.reverse_cons]
        exact (route_concat_length target above.reverse name).2
    · rw [List.reverse_cons]
      exact (route_concat_length target above.reverse piece).1

theorem route_visited_length (target pieces above : List Text) :
    (route target above.reverse).length ≤
      pieces.length + (route target (pieces.foldl visit above).reverse).length := by
  induction pieces generalizing above with
  | nil => simp
  | cons piece pieces ih =>
    have here := route_visit_length target above piece
    have later := ih (visit above piece)
    rw [List.foldl_cons, List.length_cons]
    omega

theorem route_shortest {target reference pieces : List Text}
    (arrives : pieces.foldl visit reference.reverse = target.reverse) :
    (route target reference).length ≤ pieces.length := by
  have bound := route_visited_length target pieces reference.reverse
  rw [arrives, List.reverse_reverse, List.reverse_reverse, route_self] at bound
  exact bound

end Location

namespace Paths

/-- On one drive the way that is written leads from the directory to the target, in the fewest
steps, and goes up before it goes down. A way without steps is written as a dot. -/
theorem relative_shortest (dot : s ≠ '.') {directory : Text}
    (absolute : Location.isAbsolute [s] directory = true) (host path : Text)
    (base destination : Option Text) :
    ∃ target place, Resolved s target ∧ Resolved s place ∧
      normalize host (.text path) (base.elim .null .text) (.text [s]) (.text directory) =
        .ok (target.text [s]) ∧
      normalize host (.text (standpoint destination base directory)) .null (.text [s])
        (.text directory) = .ok (place.text [s]) ∧
      (target.drive = place.drive → ∃ steps way, steps = route target.names place.names ∧
        relative host (.text path) (base.elim .null .text) (.text [s])
          (destination.elim .null .text) (.text directory) = .ok way ∧
        way = (if steps = [] then current else Text.glue [s] steps) ∧
        Text.splitOn [s] way = (if steps = [] then [current] else steps) ∧
        steps.foldl visit place.names.reverse = target.names.reverse ∧
        (∀ pieces : List Text, pieces.foldl visit place.names.reverse = target.names.reverse →
          steps.length ≤ pieces.length) ∧
        ∃ up names, steps = List.replicate up parent ++ names ∧ parent ∉ names) := by
  obtain ⟨target, place, goal, resolved, found, referred, told, _⟩ :=
    compared_places absolute host path base destination
  refine ⟨target, place, goal, resolved, found, referred, fun same => ?_⟩
  have written : describe [s] target place =
      if route target.names place.names = [] then current
      else Text.glue [s] (route target.names place.names) := by
    rw [describe, if_pos same]
    split
    · rename_i none
      rw [if_pos none]
    · rename_i inhabited
      rw [if_neg inhabited]
  obtain ⟨common, up, rest, whole, _, way⟩ := route_split target.names place.names
  have named : parent ∉ rest := fun member =>
    (goal.names parent (whole ▸ List.mem_append_right _ member)).notParent rfl
  exact ⟨_, _, rfl, told, written, describe_split dot goal same, visited_route goal.names,
    fun pieces arrives => route_shortest arrives, up.length, rest, way, named⟩

/-- From `/another/work` to `/work/my.file` it takes four steps, though both lie close to the root,
where steps up are for nothing. -/
theorem relative_shortest_above :
    relative [] (.text "../my.file".toList) (.text "/work/temp".toList) (.text ['/'])
        (.text "/another/work".toList) (.text "/w".toList) = .ok "../../work/my.file".toList ∧
      ∀ pieces : List Text,
        pieces.foldl visit ["work".toList, "another".toList] =
            ["my.file".toList, "work".toList] → 4 ≤ pieces.length := by
  have absolute : Location.isAbsolute ['/'] "/w".toList = true := rfl
  obtain ⟨target, place, goal, resolved, found, referred, along⟩ :=
    relative_shortest (by decide) absolute [] "../my.file".toList (some "/work/temp".toList)
      (some "/another/work".toList)
  have aim : target.text ['/'] = "/work/my.file".toList := Except.ok.inj (found.symm.trans rfl)
  have stand : place.text ['/'] = "/another/work".toList :=
    Except.ok.inj (referred.symm.trans rfl)
  obtain rfl : target = ⟨[], ["work".toList, "my.file".toList]⟩ := by
    rw [← ofText_text goal, aim]
    rfl
  obtain rfl : place = ⟨[], ["another".toList, "work".toList]⟩ := by
    rw [← ofText_text resolved, stand]
    rfl
  obtain ⟨steps, way, rfl, told, written, _, _, fewest, _⟩ := along rfl
  exact ⟨told.trans (congrArg Except.ok (written.trans rfl)), fewest⟩

end Paths

end PathGlob
