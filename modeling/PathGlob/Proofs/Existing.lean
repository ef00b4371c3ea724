import PathGlob.Proofs.Confined
import PathGlob.Proofs.Trimmed

namespace PathGlob
variable {s : Char}
open Location

namespace Memory
variable {memory : Memory}

theorem has_of_directory {path : Text} (directory : memory.hasDirectory path = .ok true) :
    memory.has path = .ok true := by
  obtain ⟨node, found, kind⟩ := map_ok_iff.mp directory
  cases node with
  | none => cases kind
  | some node => exact map_ok_iff.mpr ⟨_, found, rfl⟩

theorem Sound.has_parent (sound : Sound s memory) {place : Location}
    (resolved : Resolved s place) (there : memory.has (place.text [s]) = .ok true) :
    memory.has (Walk.child s (place.text [s]) parent) = .ok true := by
  have absolute := child_absolute (text_absolute resolved) parent
  obtain ⟨names, below⟩ := down_of_parent resolved
  rw [sound.has_iff resolved, below] at there
  rw [sound.has_absolute absolute, sound.tree.ascend (below ▸ resolved) there]

theorem Sound.has_above (sound : Sound s memory) {place : Location} (resolved : Resolved s place) :
    memory.has (place.text [s] ++ s :: parent) =
      memory.has (Walk.child s (place.text [s]) parent) := by
  have absolute := text_absolute resolved
  have filled : place.text [s] ≠ [] := by simp [text_eq]
  rw [sound.has_absolute ((isAbsolute_append filled parent).trans absolute),
    sound.has_absolute (child_absolute absolute parent), ofText_append, ofText_child]

theorem Sound.start_found (sound : Sound s memory) {root start : Text} {cwd : Option Directory}
    (begun : (Walk.start memory.volume s root cwd).2 = .ok start) :
    ∃ base, normalize [s] root none
        ((cwd.getD (memory.volume.workingDirectory s)).bind (checkDirectory [s])) = .ok base ∧
      (memory.has start = .ok true ↔
        memory.has base = .ok true ∨ memory.has (base ++ s :: parent) = .ok true) := by
  obtain ⟨asked, _, opened⟩ := Walk.start_opened memory.volume s root cwd
  rw [opened] at begun
  cases normalized : normalize [s] root none
      ((cwd.getD (memory.volume.workingDirectory s)).bind (checkDirectory [s])) with
  | error fault => simp [normalized] at begun
  | ok base =>
    simp only [normalized] at begun
    obtain ⟨place, resolved, rfl⟩ := normalize_resolved (checked_anchored _) normalized
    obtain ⟨found, answer, chosen⟩ := map_ok_iff.mp begun
    refine ⟨place.text [s], rfl, ?_⟩
    rw [sound.has_above resolved]
    cases found with
    | true =>
      obtain rfl : place.text [s] = start := by simpa using chosen
      simp [has_of_directory answer]
    | false =>
      obtain rfl : (ofText [s] (Walk.child s (place.text [s]) parent)).text [s] = start := by
        simpa using chosen
      have absolute := child_absolute (text_absolute resolved) parent
      rw [sound.has_text (ofText_absolute absolute), ← sound.has_absolute absolute]
      exact ⟨Or.inr, fun either => either.elim (sound.has_parent resolved) id⟩

end Memory

namespace Glob
variable {memory : Memory} {glob : Glob}

/-- Whatever a walk yields is there, but for the one path that it yields without segments. That is
its start, and it is there exactly if the normalized root directory is or the directory above
that. -/
theorem yielded_exists {sep cwd source asked : Value} {directories files denied : List Value}
    {path : Text} (made : Memory.create sep cwd directories files denied = .ok memory)
    (compiled : Pattern.compile source asked = .ok glob.pattern)
    (same : memory.sep = [glob.pattern.sep])
    (yielded : path ∈ Walk.yields (glob.run memory.volume .plain).events) :
    (glob.pattern.segments ≠ [] → memory.has path = .ok true) ∧
      (glob.pattern.segments = [] → (glob.start memory.volume).2 = .ok path ∧
        ∃ base, normalize [glob.pattern.sep] glob.root none
            ((glob.cwd.getD (memory.volume.workingDirectory glob.pattern.sep)).bind
              (checkDirectory [glob.pattern.sep])) = .ok base ∧
          (memory.has path = .ok true ↔ memory.has base = .ok true ∨
            memory.has (base ++ glob.pattern.sep :: parent) = .ok true)) := by
  have sound := Memory.create_sound made same
  have plain := Pattern.segments_plain compiled
  obtain ⟨start, begun⟩ := begun_of_yielded yielded
  obtain ⟨place, resolved, rfl⟩ := Walk.start_resolved begun
  constructor
  · intro inhabited
    obtain ⟨blocks, below, cut⟩ := (mem_yields_iff sound plain resolved begun path).mp yielded
    have node := below.node (cut.filled inhabited)
    rw [below.leads] at node ⊢
    exact (sound.has_iff (resolved.down below.plain)).mpr node
  · intro none
    rw [yields_start none begun (run_ended sound plain resolved begun _)] at yielded
    obtain rfl := List.mem_singleton.mp yielded
    exact ⟨begun, sound.start_found begun⟩

/-- With a file for a root directory a walk starts above it, and finds what is beside the file.
Below the file nothing is there, but the directory above that is the file, and yielded without
segments. -/
theorem yielded_exists_above :
    ∃ memory, Memory.create .null .null [] [.text ['/', 'a'], .text ['/', 'c']] [] = .ok memory ∧
      (∃ star : Glob, Pattern.compile (.text ['*']) .null = .ok star.pattern ∧
        star.root = ['/', 'a'] ∧ ['/', 'c'] ∈ Walk.yields (star.run memory.volume .plain).events ∧
        memory.has ['/', 'c'] = .ok true) ∧
      ∃ dot : Glob, Pattern.compile (.text ['.']) .null = .ok dot.pattern ∧
        dot.root = ['/', 'a', '/', 'b'] ∧
        ['/', 'a'] ∈ Walk.yields (dot.run memory.volume .plain).events ∧
        memory.has ['/', 'a', '/', 'b'] = .ok false ∧ memory.has ['/', 'a'] = .ok true := by
  let memory : Memory := ⟨['/'], .text ['/'], [(['/'], .directory [['a'], ['c']]),
    (['/', 'a'], .file), (['/', 'c'], .file)], []⟩
  let star : Glob := ⟨Pattern.ofText '/' ['*'], ['/', 'a'], none⟩
  let dot : Glob := ⟨Pattern.ofText '/' ['.'], ['/', 'a', '/', 'b'], none⟩
  have made : Memory.create .null .null [] [.text ['/', 'a'], .text ['/', 'c']] [] =
      .ok memory := rfl
  have compiled : Pattern.compile (.text ['*']) .null = .ok star.pattern := rfl
  have beside : ['/', 'c'] ∈ Walk.yields (star.run memory.volume .plain).events := by
    decide +kernel
  have emptied : Pattern.compile (.text ['.']) .null = .ok dot.pattern := rfl
  have start : ['/', 'a'] ∈ Walk.yields (dot.run memory.volume .plain).events := by
    decide +kernel
  obtain ⟨_, base, normalized, there⟩ := (yielded_exists made emptied rfl start).2 rfl
  obtain rfl : ['/', 'a', '/', 'b'] = base := Except.ok.inj normalized
  exact ⟨memory, made,
    ⟨star, compiled, rfl, beside, (yielded_exists made compiled rfl beside).1 (by decide)⟩,
    dot, emptied, rfl, start, rfl, there.mpr (Or.inr rfl)⟩

/-- Without segments a start is yielded that is not there. -/
theorem missing_yielded :
    ∃ memory, Memory.create .null .null [] [.text ['/', 'a']] [] = .ok memory ∧
      ['/', 'b'] ∈ Walk.yields
        (runAll memory.volume (.text ['.']) (.text ['/', 'b', '/', 'c']) .null .null).events ∧
      memory.has ['/', 'b'] = .ok false := by
  refine ⟨_, rfl, ?_, rfl⟩
  decide +kernel

end Glob

end PathGlob
