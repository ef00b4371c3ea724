import PathGlob.Proofs.Wanted

namespace PathGlob
variable {s : Char}
open Location

/-- A text is read, but it does not fit: the directory is relative, or a file stands against a
directory. -/
inductive Fault.IsUnfit : Fault → Prop where
  | relative (directory : Text) : IsUnfit (.relativeDirectory directory)
  | clash {fault : Fault} (clash : fault.IsClash) : IsUnfit fault

def Value.Reads (argument : Argument) (value : Value) : Prop :=
  ∃ text, value.asText argument = .ok text

theorem resolve_fault {sep path : Text} {here : Directory} {fault : Fault}
    (failed : resolve sep path none here = .error fault) : here = .error fault := by
  unfold resolve expand anchor at failed
  split at failed
  · cases failed
  · cases here with
    | error other => simpa [Except.map] using failed
    | ok directory => cases failed

namespace Memory
variable {memory again : Memory}

theorem here_unfit {fault : Fault} (reads : memory.cwd.Reads .cwd)
    (failed : memory.here = .error fault) : fault.IsUnfit := by
  obtain ⟨directory, given⟩ := reads
  rw [here, given] at failed
  change checkDirectory memory.sep directory = .error fault at failed
  unfold checkDirectory at failed
  split at failed
  · cases failed
  · obtain rfl := Except.error.inj failed
    exact .relative directory

theorem blank_unfit {cwd : Value} {fault : Fault} (reads : cwd.Reads .cwd)
    (failed : blank [s] cwd = .error fault) : fault.IsUnfit := by
  unfold blank at failed
  rcases bind_error_iff.mp failed with root | ⟨_, _, made⟩
  · unfold Location.root at root
    split at root
    · cases root
    · refine @here_unfit ⟨[s], cwd, [], []⟩ fault reads ?_
      generalize Memory.here ⟨[s], cwd, [], []⟩ = directory at root ⊢
      cases directory with
      | error other => simpa [Except.map] using root
      | ok text => cases root
  · cases made

structure Begun (s : Char) (cwd : Value) (memory : Memory) : Prop where
  sound : Sound s memory
  cwd : memory.cwd = cwd

theorem blank_begun {cwd : Value} (made : blank [s] cwd = .ok memory) : Begun s cwd memory := by
  refine ⟨blank_sound made, ?_⟩
  obtain ⟨_, _, made⟩ := bind_ok_iff.mp made
  obtain rfl := Except.ok.inj made
  rfl

theorem Begun.add {cwd name : Value} {asDirectory : Bool} (begun : Begun s cwd memory)
    (added : add asDirectory memory name = .ok again) : Begun s cwd again := by
  refine ⟨add_sound begun.sound added, ?_⟩
  obtain ⟨_, _, _, _, _, _, rfl⟩ := add_ok added
  exact begun.cwd

theorem Begun.deny {cwd name : Value} (begun : Begun s cwd memory)
    (done : deny memory name = .ok again) : Begun s cwd again := by
  refine ⟨deny_sound begun.sound done, ?_⟩
  obtain ⟨_, _, _, _, rfl⟩ := deny_ok done
  exact begun.cwd

theorem Begun.add_unfit {cwd name : Value} {asDirectory : Bool} {fault : Fault}
    (begun : Begun s cwd memory) (reads : cwd.Reads .cwd) (named : name.Reads .path)
    (failed : Memory.add asDirectory memory name = .error fault) : fault.IsUnfit := by
  obtain ⟨path, given⟩ := named
  cases found : resolve [s] path none memory.here with
  | error other =>
    have same : Memory.add asDirectory memory name = .error other := by
      simp [Memory.add, given, begun.sound.sep, found, bind, Except.bind]
    obtain rfl := Except.error.inj (same.symm.trans failed)
    exact here_unfit (begun.cwd ▸ reads) (resolve_fault found)
  | ok place =>
    obtain ⟨nodes, added, _⟩ | ⟨⟨other, clash, same⟩, _⟩ :=
      add_cases begun.sound ⟨path, given, found⟩ asDirectory
    · rw [failed] at added
      cases added
    · obtain rfl := Except.error.inj (same.symm.trans failed)
      exact .clash clash

theorem Begun.deny_unfit {cwd name : Value} {fault : Fault} (begun : Begun s cwd memory)
    (reads : cwd.Reads .cwd) (named : name.Reads .path)
    (failed : Memory.deny memory name = .error fault) : fault.IsUnfit := by
  obtain ⟨path, given⟩ := named
  cases found : resolve [s] path none memory.here with
  | error other =>
    have same : Memory.deny memory name = .error other := by
      simp [Memory.deny, given, key, Location.normalize, begun.sound.sep, found, bind, Except.bind,
        Except.map]
    obtain rfl := Except.error.inj (same.symm.trans failed)
    exact here_unfit (begun.cwd ▸ reads) (resolve_fault found)
  | ok place =>
    simp [Memory.deny, given, key, Location.normalize, begun.sound.sep, found, bind, Except.bind,
      Except.map, pure, Except.pure] at failed

theorem Begun.addAll {cwd : Value} {names : List Value} {asDirectory : Bool}
    (begun : Begun s cwd memory) (added : names.foldlM (Memory.add asDirectory) memory = .ok again) :
    Begun s cwd again :=
  foldlM_keeps (fun _ _ _ before step => before.add step) names begun added

theorem Begun.addAll_unfit {cwd : Value} {names : List Value} {asDirectory : Bool} {fault : Fault}
    (begun : Begun s cwd memory) (reads : cwd.Reads .cwd) (named : ∀ name ∈ names, name.Reads .path)
    (failed : names.foldlM (Memory.add asDirectory) memory = .error fault) : fault.IsUnfit := by
  obtain ⟨state, name, member, kept, step⟩ :=
    foldlM_fails (fun _ _ _ before step => Begun.add before step) begun failed
  exact kept.add_unfit reads (named name member) step

def directoryIn (s : Char) : Value → Value
  | .null => .text (defaultDirectory [s])
  | cwd => cwd

theorem create_eq (s : Char) (cwd : Value) (directories files denied : List Value) :
    create (.text [s]) cwd directories files denied =
      build [s] (directoryIn s cwd) directories files denied := by
  cases cwd <;> rfl

/-- Nothing but texts that do not fit keeps a volume from being created from texts. -/
theorem create_unfit {cwd : Value} {directories files denied : List Value} {fault : Fault}
    (reads : cwd = .null ∨ cwd.Reads .cwd)
    (named : ∀ value ∈ directories ++ files ++ denied, value.Reads .path)
    (failed : create (.text [s]) cwd directories files denied = .error fault) :
    fault.IsUnfit := by
  have reads : (directoryIn s cwd).Reads .cwd := by
    rcases reads with rfl | reads
    · exact ⟨_, rfl⟩
    · cases cwd with
      | null => exact ⟨_, rfl⟩
      | _ => exact reads
  simp only [List.forall_mem_append] at named
  obtain ⟨⟨inside, alongside⟩, refused⟩ := named
  rw [create_eq, build] at failed
  obtain blanked | ⟨first, blanked, failed⟩ := bind_error_iff.mp failed
  · exact blank_unfit reads blanked
  have begun := blank_begun blanked
  obtain failed | ⟨second, entered, failed⟩ := bind_error_iff.mp failed
  · exact begun.addAll_unfit reads inside failed
  have begun := begun.addAll entered
  obtain failed | ⟨third, filed, failed⟩ := bind_error_iff.mp failed
  · exact begun.addAll_unfit reads alongside failed
  obtain ⟨state, name, member, kept, step⟩ :=
    foldlM_fails (fun _ _ _ before step => Begun.deny before step) (begun.addAll filed) failed
  exact kept.deny_unfit reads (refused name member) step

theorem create_begun {cwd : Value} {directories files denied : List Value}
    (made : create (.text [s]) cwd directories files denied = .ok memory) :
    Begun s (directoryIn s cwd) memory := by
  rw [create_eq] at made
  exact build_keeps (Begun s _) (fun _ => blank_begun) (fun _ _ _ _ before => before.add)
    (fun _ _ _ before => before.deny) made

end Memory

end PathGlob
