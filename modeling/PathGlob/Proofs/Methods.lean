import PathGlob.Proofs.Remembered
import PathGlob.Proofs.Trimmed

namespace PathGlob
variable {s : Char}
open Location

namespace Location

theorem resolve_again {α : Type} {here : Directory} (anchored : Anchored s here) (path : Text)
    (base : Option Text) (compare : Location → Except Fault α) :
    ((normalize [s] path base here).bind fun found => (resolve [s] found base here).bind compare) =
      (resolve [s] path base here).bind compare := by
  unfold normalize
  cases result : resolve [s] path base here with
  | error fault => rfl
  | ok target =>
    have again := resolve_text (resolve_resolved anchored result) base here
    exact congrArg (Except.bind · compare) again

theorem within_normalized {here : Directory} (anchored : Anchored s here) (path : Text)
    (base : Option Text) (destination : Except Fault (Option Text)) :
    ((normalize [s] path base here).bind fun found => within [s] found base destination here) =
      within [s] path base destination here :=
  resolve_again anchored path base _

theorem relative_normalized {here : Directory} (anchored : Anchored s here) (path : Text)
    (base : Option Text) (destination : Except Fault (Option Text)) :
    ((normalize [s] path base here).bind fun found => relative [s] found base destination here) =
      relative [s] path base destination here :=
  resolve_again anchored path base _

end Location

namespace Session

/-- What is known of a path is what its host's working directory, which has stayed, makes of it. -/
structure Faithful (s : Char) (host : Text) (p : Path) (session : Session) : Prop where
  consistent : Consistent s session
  stays : session.host = host
  same : session.path = p
  known : ∀ full, session.expanded = some full → p.expand host = .ok full

variable {host : Text} {p : Path} {session : Session}

theorem fresh_faithful (separator : p.sep = .text [s]) (host : Text) :
    Faithful s host p (fresh host p) :=
  ⟨fresh_consistent separator host, rfl, rfl, by simp [fresh]⟩

theorem Faithful.separator (faithful : Faithful s host p session) : p.sep = .text [s] :=
  faithful.same ▸ faithful.consistent.separator

theorem Faithful.expand_fst (faithful : Faithful s host p session) :
    session.expand.1 = p.expand host := by
  cases known : session.expanded with
  | some full => rw [expand_kept known, faithful.known full known]
  | none => rw [expand_new known, faithful.same, faithful.stays]

theorem Faithful.after (faithful : Faithful s host p session) {request : Request}
    (unmoved : ∀ directory, request = .changeDirectory directory → directory = host) :
    Faithful s host p (session.after request) := by
  have consistent := faithful.consistent.after request
  rcases faithful.consistent.after_cases request with finds | same | ⟨directory, moved, next⟩
  · refine ⟨consistent, finds.place.1.trans faithful.stays, finds.place.2.trans faithful.same, ?_⟩
    intro full kept
    have settled : ∀ found, session.expand.1 = .ok found →
        (session.after request).expanded = some found := fun _ => finds.expanded
    rcases finds with ⟨_, _, same⟩ | ⟨other, found, _⟩
    · exact faithful.known full (same ▸ kept)
    · rw [settled other found] at kept
      rw [← faithful.expand_fst, found, Option.some.inj kept]
  · rwa [same]
  · refine ⟨consistent, ?_, ?_, ?_⟩
    · rw [next, unmoved directory moved]
    · rw [next, faithful.same]
    · rw [next]
      exact faithful.known

theorem Faithful.afterAll (faithful : Faithful s host p session) {requests : List Request}
    (unmoved : ∀ directory, .changeDirectory directory ∈ requests → directory = host) :
    Faithful s host p (session.afterAll requests) := by
  induction requests generalizing session with
  | nil => exact faithful
  | cons request rest ih =>
    have next := faithful.after fun directory same => unmoved directory (same ▸ List.mem_cons_self)
    exact ih next fun directory member => unmoved directory (List.mem_cons_of_mem _ member)

theorem Faithful.normalize_fst (faithful : Faithful s host p session) :
    session.normalize.1 =
      Location.normalize [s] p.path p.base (Paths.workingDirectory host [s] p.cwd) := by
  rw [faithful.consistent.normalize_fst, faithful.expand_fst,
    Path.expand_eq faithful.separator]
  unfold Location.normalize resolve
  cases Location.expand [s] p.path p.base (Paths.workingDirectory host [s] p.cwd) <;> rfl

theorem Faithful.compared_fst {α : Type} (faithful : Faithful s host p session)
    (compare : Text → Except Fault α) :
    (session.compared compare).1 =
      (Location.normalize [s] p.path p.base (Paths.workingDirectory host [s] p.cwd)).bind
        compare := by
  rw [← faithful.normalize_fst]
  rfl

theorem Faithful.within_fst (faithful : Faithful s host p session) (destination : Value) :
    (session.within destination).1 =
      Location.within [s] p.path p.base (destination.optionalText .destination)
        (Paths.workingDirectory host [s] p.cwd) := by
  rw [within, faithful.compared_fst, faithful.stays, faithful.same, Path.baseValue_eq,
    faithful.separator]
  simp only [Paths.within_text]
  exact within_normalized (Paths.workingDirectory_anchored host s p.cwd) _ _ _

theorem Faithful.relative_fst (faithful : Faithful s host p session) (destination : Value) :
    (session.relative destination).1 =
      Location.relative [s] p.path p.base (destination.optionalText .destination)
        (Paths.workingDirectory host [s] p.cwd) := by
  rw [relative, faithful.compared_fst, faithful.stays, faithful.same, Path.baseValue_eq,
    faithful.separator]
  simp only [Paths.relative_text]
  exact relative_normalized (Paths.workingDirectory_anchored host s p.cwd) _ _ _

/-- A path is made from any text, with a base or without one, and whatever was asked of it before,
it answers as the functions do, with the same results and the same faults. -/
theorem answers_like_functions (host path : Text) (base : Option Text) (s : Char) (cwd : Value)
    (before : List Request)
    (unmoved : ∀ directory, .changeDirectory directory ∈ before → directory = host) :
    ∃ p, Path.create (.text path) (base.elim .null .text) (.text [s]) cwd = .ok p ∧
      let session := (fresh host p).afterAll before
      session.normalize.1 =
        Paths.normalize host (.text path) (base.elim .null .text) (.text [s]) cwd ∧
      ∀ destination,
        (session.within destination).1 = Paths.within host (.text path) (base.elim .null .text)
          (.text [s]) destination cwd ∧
        (session.relative destination).1 = Paths.relative host (.text path)
          (base.elim .null .text) (.text [s]) destination cwd := by
  obtain ⟨bare, created, trim⟩ := Path.create_text path base s cwd
  have faithful : Faithful s host ⟨path, bare, .text [s], cwd⟩ _ :=
    (fresh_faithful rfl host).afterAll unmoved
  have resolved := fun here => resolve_bare trim path here
  have referred := fun destination here => reference_bare trim destination here
  refine ⟨_, created, ?_, fun destination => ⟨?_, ?_⟩⟩
  · rw [faithful.normalize_fst, Paths.normalize_text, Location.normalize, resolved,
      Location.normalize]
  · rw [faithful.within_fst, Paths.within_text, Location.within, resolved, Location.within]
    simp only [referred]
  · rw [faithful.relative_fst, Paths.relative_text, Location.relative, resolved,
      Location.relative]
    simp only [referred]

theorem answers_like_functions_doubled :
    ∃ p, Path.create (.text ['a']) (.text ['b', '/', '/']) (.text ['/']) .null = .ok p ∧
      ((fresh ['/', 'w'] p).afterAll [.within (.int 3), .assign]).normalize.1 =
        .ok ['/', 'w', '/', 'b', '/', 'a'] := by
  have still : ∀ directory, Request.changeDirectory directory ∈ [.within (.int 3), .assign] →
      directory = ['/', 'w'] := by simp
  obtain ⟨p, created, normal, _⟩ := answers_like_functions ['/', 'w'] ['a'] (some ['b', '/', '/'])
    '/' .null _ still
  exact ⟨p, created, normal.trans rfl⟩

end Session

end PathGlob
