import PathGlob.Path.Session
import PathGlob.Proofs.Arguments

namespace PathGlob
variable {s : Char}
open Location

def Request.expands : Request → Bool
  | .expand | .normalize | .within _ | .relative _ => true
  | _ => false

theorem Path.expand_eq {p : Path} (separator : p.sep = .text [s]) (host : Text) :
    p.expand host = Location.expand [s] p.path p.base (Paths.workingDirectory host [s] p.cwd) := by
  rw [Path.expand, baseValue_eq, separator, Paths.expand_text]

theorem Path.expand_absolute {p : Path} (separator : p.sep = .text [s]) {host full : Text}
    (found : p.expand host = .ok full) : Location.isAbsolute [s] full = true := by
  rw [Path.expand_eq separator] at found
  exact Location.expand_absolute (Paths.workingDirectory_anchored host s p.cwd) found

namespace Session

def after (session : Session) (request : Request) : Session :=
  match request with
  | .join _ => session
  | request => (session.answer request).2

def afterAll (session : Session) (requests : List Request) : Session :=
  requests.foldl after session

/-- A kept expanded form is absolute, and a kept normalized form is that of the expanded one. -/
structure Consistent (s : Char) (session : Session) : Prop where
  separator : session.path.sep = .text [s]
  absolute : ∀ full, session.expanded = some full → isAbsolute [s] full = true
  derived : ∀ found, session.normalized = some found →
    ∃ full, session.expanded = some full ∧ found = (ofText [s] full).text [s]

variable {session : Session}

theorem fresh_consistent {p : Path} (separator : p.sep = .text [s]) (host : Text) :
    Consistent s (fresh host p) :=
  ⟨separator, by simp [fresh], by simp [fresh]⟩

theorem expand_kept {full : Text} (known : session.expanded = some full) :
    session.expand = (.ok full, session) := by
  simp [expand, known]

theorem expand_new (unknown : session.expanded = none) :
    session.expand.1 = session.path.expand session.host := by
  simp only [expand, unknown]
  split <;> simp_all

theorem expand_ok {full : Text} (found : session.expand.1 = .ok full) :
    session.expand = (.ok full, { session with expanded := some full }) := by
  obtain ⟨host, path, expanded, normalized⟩ := session
  cases expanded with
  | some known =>
    obtain rfl : known = full := Except.ok.inj found
    rfl
  | none =>
    simp only [expand] at found ⊢
    cases result : path.expand host with
    | ok other =>
      rw [result] at found
      obtain rfl : other = full := Except.ok.inj found
      rfl
    | error fault =>
      rw [result] at found
      cases found

theorem expand_error {fault : Fault} (missed : session.expand.1 = .error fault) :
    session.expand = (.error fault, session) := by
  obtain ⟨host, path, expanded, normalized⟩ := session
  cases expanded with
  | some known => cases missed
  | none =>
    simp only [expand] at missed ⊢
    cases result : path.expand host with
    | ok other =>
      rw [result] at missed
      cases missed
    | error other =>
      rw [result] at missed
      obtain rfl : other = fault := Except.error.inj missed
      rfl

theorem Consistent.found_absolute (consistent : Consistent s session) {full : Text}
    (found : session.expand.1 = .ok full) : isAbsolute [s] full = true := by
  cases known : session.expanded with
  | some other =>
    rw [expand_kept known] at found
    exact consistent.absolute full (by rw [known, Except.ok.inj found])
  | none =>
    rw [expand_new known] at found
    exact Path.expand_absolute consistent.separator found

theorem Consistent.normalize_ok (consistent : Consistent s session) {full : Text}
    (found : session.expand.1 = .ok full) :
    session.normalize = (.ok ((ofText [s] full).text [s]),
      { session with expanded := some full, normalized := some ((ofText [s] full).text [s]) }) := by
  have expanded := expand_ok found
  have absolute := consistent.found_absolute found
  have separator := consistent.separator
  have derived := consistent.derived
  obtain ⟨host, path, known, normalized⟩ := session
  cases normalized with
  | some other =>
    obtain ⟨source, rfl, rfl⟩ := derived other rfl
    obtain rfl : source = full := Except.ok.inj found
    rfl
  | none =>
    have separator : path.sep = .text [s] := separator
    simp only [normalize, expanded, separator, Paths.normalize_absolute absolute]

theorem Consistent.normalize_error (consistent : Consistent s session) {fault : Fault}
    (missed : session.expand.1 = .error fault) : session.normalize = (.error fault, session) := by
  have result := expand_error missed
  have derived := consistent.derived
  obtain ⟨host, path, known, normalized⟩ := session
  cases normalized with
  | some other =>
    obtain ⟨source, rfl, _⟩ := derived other rfl
    cases missed
  | none => simp only [normalize, result]

theorem Consistent.normalize_fst (consistent : Consistent s session) :
    session.normalize.1 = session.expand.1.map fun full => (ofText [s] full).text [s] := by
  cases result : session.expand.1 with
  | ok full =>
    rw [consistent.normalize_ok result]
    rfl
  | error fault =>
    rw [consistent.normalize_error result]
    rfl

/-- What becomes of a path that looks for its expanded form: nothing where there is none, else the
form is kept, with the normalized one or without it. -/
def Finds (s : Char) (session next : Session) : Prop :=
  (∃ fault, session.expand.1 = .error fault ∧ next = session) ∨
    ∃ full, session.expand.1 = .ok full ∧
      (next = { session with expanded := some full } ∨
        next = { session with
          expanded := some full, normalized := some ((ofText [s] full).text [s]) })

variable {next : Session}

theorem Finds.place (finds : Finds s session next) :
    next.host = session.host ∧ next.path = session.path := by
  rcases finds with ⟨_, _, rfl⟩ | ⟨_, _, rfl | rfl⟩
  · exact ⟨rfl, rfl⟩
  · exact ⟨rfl, rfl⟩
  · exact ⟨rfl, rfl⟩

theorem Finds.expanded (finds : Finds s session next) {full : Text}
    (found : session.expand.1 = .ok full) : next.expanded = some full := by
  rcases finds with ⟨fault, missed, _⟩ | ⟨other, again, kept⟩
  · rw [found] at missed
    cases missed
  · rw [found] at again
    obtain rfl : full = other := Except.ok.inj again
    rcases kept with rfl | rfl
    · rfl
    · rfl

theorem expand_finds (s : Char) (session : Session) : Finds s session session.expand.2 := by
  cases result : session.expand.1 with
  | error fault => exact Or.inl ⟨fault, result, by rw [expand_error result]⟩
  | ok full => exact Or.inr ⟨full, result, Or.inl (by rw [expand_ok result])⟩

theorem Consistent.normalize_finds (consistent : Consistent s session) :
    Finds s session session.normalize.2 := by
  cases result : session.expand.1 with
  | error fault => exact Or.inl ⟨fault, result, by rw [consistent.normalize_error result]⟩
  | ok full => exact Or.inr ⟨full, result, Or.inr (by rw [consistent.normalize_ok result])⟩

theorem Consistent.after_finds (consistent : Consistent s session) {request : Request}
    (expands : request.expands = true) : Finds s session (session.after request) := by
  cases request with
  | expand => exact expand_finds s session
  | normalize => exact consistent.normalize_finds
  | within => exact consistent.normalize_finds
  | relative => exact consistent.normalize_finds
  | _ => cases expands

theorem after_other (session : Session) {request : Request} (other : request.expands = false) :
    session.after request = session ∨ ∃ directory, request = .changeDirectory directory ∧
      session.after request = { session with host := directory } := by
  cases request with
  | changeDirectory directory => exact Or.inr ⟨directory, rfl, rfl⟩
  | expand => cases other
  | normalize => cases other
  | within => cases other
  | relative => cases other
  | _ => exact Or.inl rfl

theorem Consistent.finds (consistent : Consistent s session) (finds : Finds s session next) :
    Consistent s next := by
  rcases finds with ⟨_, _, rfl⟩ | ⟨full, found, rfl | rfl⟩
  · exact consistent
  · have absolute := consistent.found_absolute found
    refine ⟨consistent.separator, fun other same => Option.some.inj same ▸ absolute, ?_⟩
    intro other same
    obtain ⟨source, known, derived⟩ := consistent.derived other same
    rw [expand_kept known] at found
    exact ⟨full, rfl, Except.ok.inj found ▸ derived⟩
  · have absolute := consistent.found_absolute found
    refine ⟨consistent.separator, fun other same => Option.some.inj same ▸ absolute, ?_⟩
    intro other same
    exact ⟨full, rfl, (Option.some.inj same).symm⟩

theorem Consistent.after_cases (consistent : Consistent s session) (request : Request) :
    Finds s session (session.after request) ∨ session.after request = session ∨
      ∃ directory, request = .changeDirectory directory ∧
        session.after request = { session with host := directory } := by
  cases expands : request.expands with
  | true => exact Or.inl (consistent.after_finds expands)
  | false => exact Or.inr (after_other session expands)

theorem Consistent.after (consistent : Consistent s session) (request : Request) :
    Consistent s (session.after request) := by
  rcases consistent.after_cases request with finds | same | ⟨directory, _, moved⟩
  · exact consistent.finds finds
  · rwa [same]
  · rw [moved]
    exact ⟨consistent.separator, consistent.absolute, consistent.derived⟩

theorem Consistent.after_path (consistent : Consistent s session) (request : Request) :
    (session.after request).path = session.path := by
  rcases consistent.after_cases request with finds | same | ⟨directory, _, moved⟩
  · exact finds.place.2
  · rw [same]
  · rw [moved]

theorem Consistent.after_expanded (consistent : Consistent s session) {full : Text}
    (known : session.expanded = some full) (request : Request) :
    (session.after request).expanded = some full := by
  rcases consistent.after_cases request with finds | same | ⟨directory, _, moved⟩
  · exact finds.expanded (by rw [expand_kept known])
  · rw [same, known]
  · rw [moved, known]

theorem afterAll_keeps (keep : Session → Prop)
    (step : ∀ session request, keep session → keep (session.after request))
    (requests : List Request) (start : keep session) : keep (session.afterAll requests) := by
  induction requests generalizing session with
  | nil => exact start
  | cons request rest ih => exact ih (step session request start)

theorem Consistent.afterAll (consistent : Consistent s session) (requests : List Request) :
    Consistent s (session.afterAll requests) :=
  afterAll_keeps (Consistent s) (fun _ request known => known.after request) requests consistent

theorem Consistent.afterAll_path (consistent : Consistent s session) (requests : List Request) :
    (session.afterAll requests).path = session.path := by
  have both := afterAll_keeps
    (fun next => Consistent s next ∧ next.path = session.path)
    (fun next request known => ⟨known.1.after request, (known.1.after_path request).trans known.2⟩)
    requests ⟨consistent, rfl⟩
  exact both.2

theorem Consistent.afterAll_expanded (consistent : Consistent s session) {full : Text}
    (known : session.expanded = some full) (requests : List Request) :
    (session.afterAll requests).expanded = some full := by
  have both := afterAll_keeps
    (fun next => Consistent s next ∧ next.expanded = some full)
    (fun next request known => ⟨known.1.after request, known.1.after_expanded known.2 request⟩)
    requests ⟨consistent, known⟩
  exact both.2

/-- Through any requests a path stays the same. Each request that needs the expanded form keeps it
as soon as there is one, also where the request fails afterwards; and from then on it is the form
that is found, and what it normalizes to anywhere is the normalized form, whatever is asked and
wherever the host goes. -/
theorem remembers {p : Path} (separator : p.sep = .text [s]) (host : Text)
    (before : List Request) :
    let session := (fresh host p).afterAll before
    session.path = p ∧
    (∀ request full, request.expands = true → session.expand.1 = .ok full →
      (session.after request).expanded = some full) ∧
    ∀ full, session.expanded = some full → ∀ later,
      (session.afterAll later).expand.1 = .ok full ∧
      ∃ found, (session.afterAll later).normalize.1 = .ok found ∧
        ∀ elsewhere cwd, Paths.normalize elsewhere (.text full) .null p.sep cwd = .ok found := by
  intro session
  have start := fresh_consistent separator host
  have consistent : Consistent s session := start.afterAll before
  refine ⟨start.afterAll_path before, ?_, ?_⟩
  · intro request full expands found
    exact (consistent.after_finds expands).expanded found
  · intro full known later
    have found := congrArg Prod.fst (expand_kept (consistent.afterAll_expanded known later))
    refine ⟨found, _, by rw [(consistent.afterAll later).normalize_ok found], ?_⟩
    intro elsewhere cwd
    rw [separator]
    exact Paths.normalize_absolute (consistent.absolute full known) elsewhere cwd

theorem remembers_elsewhere :
    ((fresh ['/', 'w'] ⟨['a', '/', '.'], none, .text ['/'], .null⟩).afterAll
      [.expand, .changeDirectory ['x']]).normalize.1 = .ok ['/', 'w', '/', 'a'] := by
  obtain ⟨_, _, kept⟩ := remembers (p := ⟨['a', '/', '.'], none, .text ['/'], .null⟩) rfl
    ['/', 'w'] [.expand]
  obtain ⟨_, found, normal, everywhere⟩ := kept ['/', 'w', '/', 'a', '/', '.'] rfl
    [.changeDirectory ['x']]
  exact normal.trans ((everywhere ['/'] .null).symm.trans rfl)

end Session

end PathGlob
