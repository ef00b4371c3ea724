import PathGlob.Proofs.Methods

namespace PathGlob
variable {α β : Type} {s : Char}

inductive Agree : Except Fault α → Except Fault α → Prop where
  | found (value : α) : Agree (.ok value) (.ok value)
  | missed (fault other : Fault) : Agree (.error fault) (.error other)

namespace Agree

theorem refl (given : Except Fault α) : Agree given given := by
  cases given with
  | ok value => exact .found value
  | error fault => exact .missed fault fault

variable {one other : Except Fault α}

theorem map (agree : Agree one other) (f : α → β) : Agree (one.map f) (other.map f) := by
  cases agree with
  | found value => exact .found (f value)
  | missed fault second => exact .missed fault second

theorem bind (agree : Agree one other) {f g : α → Except Fault β}
    (next : ∀ value, Agree (f value) (g value)) : Agree (one >>= f) (other >>= g) := by
  cases agree with
  | found value => exact next value
  | missed fault second => exact .missed fault second

theorem value_eq {value again : α} (agree : Agree (.ok value) (.ok again)) : value = again := by
  cases agree
  rfl

theorem map_injective {f : α → β} (injective : Function.Injective f)
    (agree : Agree (one.map f) (other.map f)) : Agree one other := by
  rcases one with fault | value <;> rcases other with second | again
  · exact .missed fault second
  · nomatch agree
  · nomatch agree
  · rw [injective agree.value_eq]
    exact .found again

end Agree

namespace Location

/-- Working directories that are the same but for one separator at the end, or both missing. -/
def SameDirectory (s : Char) (here there : Directory) : Prop :=
  Agree (here.map (Text.dropEnding [s])) (there.map (Text.dropEnding [s]))

theorem ofText_dropEnding (full : Text) :
    ofText [s] (Text.dropEnding [s] full) = ofText [s] full := by
  unfold Text.dropEnding
  split
  · rename_i ending
    obtain ⟨front, rfl⟩ := Text.ends_iff.mp ending
    rw [List.dropLast_concat, ofText_concat]
  · rfl

variable {here there : Directory}

theorem map_dropEnding (here : Directory) (f : Text → α) :
    (here.map (Text.dropEnding [s])).map f =
      here.map fun directory => f (Text.dropEnding [s] directory) := by
  cases here <;> rfl

theorem SameDirectory.through (alike : SameDirectory s here there) (f : Text → α) :
    Agree (here.map fun directory => f (Text.dropEnding [s] directory))
      (there.map fun directory => f (Text.dropEnding [s] directory)) := by
  rw [← map_dropEnding, ← map_dropEnding]
  exact alike.map f

theorem SameDirectory.below (alike : SameDirectory s here there) (path : Text) :
    Agree (here.map fun directory => below [s] directory path)
      (there.map fun directory => below [s] directory path) :=
  alike.through fun directory => directory ++ [s] ++ path

theorem SameDirectory.place (alike : SameDirectory s here there) :
    Agree (here.map (ofText [s])) (there.map (ofText [s])) := by
  simpa only [ofText_dropEnding] using alike.through (ofText [s])

theorem SameDirectory.expand (alike : SameDirectory s here there) (path : Text)
    (base : Option Text) :
    Agree (expand [s] path base here) (expand [s] path base there) := by
  unfold Location.expand anchor
  split
  · exact .refl _
  · split
    · exact alike.below path
    · exact alike.below path
    · split
      · exact .refl _
      · exact (alike.below _).map _

theorem SameDirectory.resolve (alike : SameDirectory s here there) (path : Text)
    (base : Option Text) :
    Agree (resolve [s] path base here) (resolve [s] path base there) :=
  (alike.expand path base).map _

theorem SameDirectory.reference (alike : SameDirectory s here there) (base : Option Text)
    (destination : Except Fault (Option Text)) :
    Agree (reference [s] base destination here) (reference [s] base destination there) := by
  refine (Agree.refl destination).bind fun place => ?_
  rcases place with _ | place
  · rcases base with _ | _ | ⟨c, rest⟩
    · exact alike.place
    · exact alike.place
    · exact alike.resolve (c :: rest) none
  · exact alike.resolve place none

theorem SameDirectory.within (alike : SameDirectory s here there) (path : Text) (base : Option Text)
    (destination : Except Fault (Option Text)) :
    Agree (within [s] path base destination here)
      (within [s] path base destination there) := by
  refine (alike.resolve path base).bind fun target => ?_
  exact (alike.reference base destination).bind fun _ => .refl _

theorem SameDirectory.relative (alike : SameDirectory s here there) (path : Text)
    (base : Option Text) (destination : Except Fault (Option Text)) :
    Agree (relative [s] path base destination here)
      (relative [s] path base destination there) := by
  refine (alike.resolve path base).bind fun target => ?_
  exact (alike.reference base destination).bind fun _ => .refl _

theorem alike_of_expand (agree : Agree (expand [s] [] none here) (expand [s] [] none there)) :
    SameDirectory s here there := by
  have closed : ∀ known, expand [s] [] none known =
      (known.map (Text.dropEnding [s])).map fun directory => directory ++ [s] ++ [] :=
    fun known => (map_dropEnding known fun directory => directory ++ [s] ++ []).symm
  rw [closed, closed] at agree
  refine Agree.map_injective (fun one other same => ?_) agree
  simpa using same

end Location

theorem Value.same_text {text : Text} {other : Value} (same : (Value.text text).same other = true) :
    other = .text text := by
  cases other <;> simp_all [Value.same, asNumber]

namespace Path

/-- Either path answers each request as the other does, when nothing was asked of them before. -/
structure Interchangeable (host : Text) (a b : Path) : Prop where
  expand : Agree (Session.fresh host a).expand.1 (Session.fresh host b).expand.1
  normalize : Agree (Session.fresh host a).normalize.1 (Session.fresh host b).normalize.1
  within : ∀ destination, Agree ((Session.fresh host a).within destination).1
    ((Session.fresh host b).within destination).1
  relative : ∀ destination, Agree ((Session.fresh host a).relative destination).1
    ((Session.fresh host b).relative destination).1

variable {a b : Path}

theorem same_fields (separator : a.sep = .text [s]) (same : a.same b.value = true) :
    b.path = a.path ∧ b.base = a.base ∧ b.sep = .text [s] := by
  have fields : (a.path = b.path ∧ a.base = b.base) ∧ a.sep.same b.sep = true := by
    simpa [Path.same, value, Value.same] using same
  rw [separator] at fields
  exact ⟨fields.1.1.symm, fields.1.2.symm, Value.same_text fields.2⟩

theorem interchangeable_of_alike {host : Text} (separator : a.sep = .text [s])
    (same : a.same b.value = true)
    (alike : Location.SameDirectory s (Paths.workingDirectory host [s] a.cwd)
      (Paths.workingDirectory host [s] b.cwd)) : Interchangeable host a b := by
  obtain ⟨path, base, separator'⟩ := same_fields separator same
  have first := Session.fresh_faithful separator host
  have second := Session.fresh_faithful separator' host
  refine ⟨?_, ?_, fun destination => ?_, fun destination => ?_⟩
  · rw [first.expand_fst, second.expand_fst, expand_eq separator, expand_eq separator', path, base]
    exact alike.expand _ _
  · rw [first.normalize_fst, second.normalize_fst, path, base]
    exact (alike.resolve _ _).map _
  · rw [first.within_fst, second.within_fst, path, base]
    exact alike.within _ _ _
  · rw [first.relative_fst, second.relative_fst, path, base]
    exact alike.relative _ _ _

/-- All equal paths with two given working directories are interchangeable exactly if the two are
the same directory, but for a separator at the end, or both none. -/
theorem equal_interchangeable_iff (host : Text) (s : Char) (one other : Value) :
    (∀ a b : Path, a.sep = .text [s] → a.cwd = one → b.cwd = other → a.same b.value = true →
      Interchangeable host a b) ↔
      Location.SameDirectory s (Paths.workingDirectory host [s] one)
        (Paths.workingDirectory host [s] other) := by
  constructor
  · intro interchangeable
    have same : (⟨[], none, .text [s], one⟩ : Path).same (.path [] none (.text [s])) = true := by
      simp [Path.same, value, Value.same]
    have empty := (interchangeable ⟨[], none, .text [s], one⟩ ⟨[], none, .text [s], other⟩ rfl rfl
      rfl same).expand
    rw [(Session.fresh_faithful rfl host).expand_fst, (Session.fresh_faithful rfl host).expand_fst,
      expand_eq rfl, expand_eq rfl] at empty
    exact Location.alike_of_expand empty
  · rintro alike a b separator rfl rfl same
    exact interchangeable_of_alike separator same alike

theorem equal_interchangeable_iff_ending :
    Interchangeable ['/'] ⟨['a'], none, .text ['/'], .text ['/', 'x']⟩
      ⟨['a'], none, .text ['/'], .text ['/', 'x', '/']⟩ := by
  have alike := (equal_interchangeable_iff ['/'] '/' (.text ['/', 'x']) (.text ['/', 'x', '/'])).mpr
    (.found ['/', 'x'])
  exact alike _ _ rfl rfl rfl (by decide)

/-- Two paths that are equal lead to two places. -/
theorem equal_apart :
    ∃ a b, create (.text ['a']) .null (.text ['/']) (.text ['/', 'x']) = .ok a ∧
      create (.text ['a']) .null (.text ['/']) (.text ['/', 'y']) = .ok b ∧
      a.same b.value = true ∧
      (Session.fresh ['/'] a).expand.1 = .ok ['/', 'x', '/', 'a'] ∧
      (Session.fresh ['/'] b).expand.1 = .ok ['/', 'y', '/', 'a'] :=
  ⟨_, _, rfl, rfl, by decide, rfl, rfl⟩

end Path

end PathGlob
