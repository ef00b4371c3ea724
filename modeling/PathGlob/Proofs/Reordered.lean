import PathGlob.Proofs.Layouts
import PathGlob.Proofs.Listing
import PathGlob.Proofs.Tally
import PathGlob.Proofs.Unfit

namespace PathGlob
variable {s : Char}
open Location

theorem Tallied.perm {place : Location} {fits : List (List Text) → Prop} {paths more : List Text}
    (tally : Tallied s place fits paths) (again : Tallied s place fits more) : paths.Perm more := by
  obtain ⟨cuts, distinct, member, rfl⟩ := tally
  obtain ⟨others, distinct', member', rfl⟩ := again
  have same : cuts.Perm others := (List.perm_ext_iff_of_nodup distinct distinct').mpr fun blocks =>
    (member blocks).trans (member' blocks).symm
  exact same.map _

namespace Memory
variable {memory again : Memory}

structure Twin (s : Char) (memory again : Memory) : Prop where
  first : Sound s memory
  second : Sound s again
  cwd : memory.cwd = again.cwd
  kinds : ∀ place, Resolved s place → memory.nodes.kind s place = again.nodes.kind s place
  denied : ∀ key, key ∈ memory.denied ↔ key ∈ again.denied

theorem Twin.symm (twin : Twin s memory again) : Twin s again memory where
  first := twin.second
  second := twin.first
  cwd := twin.cwd.symm
  kinds place resolved := (twin.kinds place resolved).symm
  denied key := (twin.denied key).symm

theorem key_congr (sep : memory.sep = again.sep) (cwd : memory.cwd = again.cwd) :
    memory.key = again.key := by
  funext path
  simp only [key, here, sep, cwd]

theorem Twin.key (twin : Twin s memory again) : memory.key = again.key :=
  key_congr (twin.first.sep.trans twin.second.sep.symm) twin.cwd

theorem Twin.readable (twin : Twin s memory again) : memory.Readable = again.Readable := by
  funext path
  simp only [Readable, twin.key, twin.denied]

theorem Twin.held (twin : Twin s memory again) {place : Location} (resolved : Resolved s place) :
    (memory.nodes.get (place.text [s])).isSome = (again.nodes.get (place.text [s])).isSome := by
  have same := congrArg Option.isSome (twin.kinds place resolved)
  simpa only [Nodes.kind, Option.isSome_map] using same

theorem Twin.hasDirectory (twin : Twin s memory again) :
    memory.hasDirectory = again.hasDirectory := by
  funext path
  simp only [Memory.hasDirectory, find, twin.key]
  cases keyed : again.key path with
  | error fault => rfl
  | ok key =>
    obtain ⟨place, resolved, rfl⟩ := twin.second.key_resolved keyed
    have same := congrArg (Option.any id) (twin.kinds place resolved)
    simpa [Except.map, Nodes.kind, Option.any_map] using same

theorem Twin.start (twin : Twin s memory again) :
    Walk.start memory.volume = Walk.start again.volume := by
  have directory : memory.volume.hasDirectory = again.volume.hasDirectory := twin.hasDirectory
  have working : memory.volume.workingDirectory = again.volume.workingDirectory := by
    simp only [volume, twin.cwd]
  funext sep root cwd
  simp only [Walk.start, directory, working]

theorem Twin.below (twin : Twin s memory again) {place : Location} (resolved : Resolved s place)
    {names : List Text} {goal : Text} (below : Below memory s place names goal) :
    Below again s place names goal := by
  refine ⟨below.plain, below.leads, fun inhabited => ?_⟩
  have node := below.node inhabited
  rw [below.leads] at node ⊢
  rwa [← twin.held (resolved.down below.plain)]

theorem Twin.fitting (twin : Twin s memory again) {place : Location}
    (resolved : Resolved s place) (segments : List Segment) (blocks : List (List Text)) :
    Fitting memory s place segments blocks ↔ Fitting again s place segments blocks := by
  have below : ∀ goal, Below memory s place blocks.flatten goal ↔
      Below again s place blocks.flatten goal :=
    fun _ => ⟨twin.below resolved, twin.symm.below resolved⟩
  rw [Fitting, Fitting, below, twin.readable]

theorem create_twin {cwd : Value} {directories others files more denied : List Value}
    (inner : ∀ value, value ∈ directories ↔ value ∈ others)
    (outer : ∀ value, value ∈ files ↔ value ∈ more)
    (made : create (.text [s]) cwd directories files denied = .ok memory) :
    ∃ again, create (.text [s]) cwd others more denied = .ok again ∧ Twin s memory again := by
  obtain ⟨empty, opened, leads⟩ := create_led made
  have leads' : ∀ value ∈ others ++ more ++ denied, ∃ place, value.Leads s empty.here place := by
    simpa only [List.mem_append, inner, outer] using leads
  have met : ∀ layout : Layout s,
      ((layout.Extends empty ∧ layout.MeetsAll empty.here true directories) ∧
        layout.MeetsAll empty.here false files) ↔
      ((layout.Extends empty ∧ layout.MeetsAll empty.here true others) ∧
        layout.MeetsAll empty.here false more) := by
    simp only [Layout.MeetsAll, inner, outer, implies_true]
  obtain ⟨first, same, sound, _, left⟩ | ⟨⟨_, _, failed⟩, _⟩ := create_leaves opened leads
  · obtain rfl := Except.ok.inj (same.symm.trans made)
    have own := (met _).mp ((left _).mp (extends_layout sound))
    obtain ⟨again, remade, sound', _, left'⟩ | ⟨_, none⟩ := create_leaves opened leads'
    · have forth := (left' _).mpr own
      have back := (left _).mpr ((met _).mpr ((left' _).mp (extends_layout sound')))
      have cwd := (create_begun made).cwd.trans (create_begun remade).cwd.symm
      have keys := key_congr (sound.sep.trans sound'.sep.symm) cwd
      refine ⟨again, remade, sound, sound', cwd, fun place resolved => ?_, fun key => ?_⟩
      · exact Option.ext fun directory =>
          ⟨back place directory resolved, forth place directory resolved⟩
      · rw [create_denied made, create_denied remade]
        simp only [Names, keys]
    · exact absurd own (none _)
  · rw [made] at failed
    cases failed

end Memory

/-- Both fail for the same reason, or both end and each value is yielded by both as often. -/
def Run.Reordered {α : Type} (run again : Run α) : Prop :=
  (∃ fault, run.outcome = .raised fault ∧ again.outcome = .raised fault) ∨
    run.outcome = .ended ∧ again.outcome = .ended ∧
      (Walk.yields run.events).Perm (Walk.yields again.events)

namespace Glob
variable {memory again : Memory} {glob : Glob}

theorem run_twin (twin : Memory.Twin glob.pattern.sep memory again)
    (plain : ∀ segment ∈ glob.pattern.segments, segment.Plain glob.pattern.sep) :
    (glob.run memory.volume .plain).Reordered (glob.run again.volume .plain) := by
  have same : glob.start memory.volume = glob.start again.volume := by
    rw [start, start, twin.start]
  cases begun : (glob.start memory.volume).2 with
  | error fault =>
    have unbegun := same ▸ begun
    exact Or.inl ⟨fault, by rw [run_unbegun begun], by rw [run_unbegun unbegun]⟩
  | ok text =>
    obtain ⟨place, resolved, rfl⟩ := Walk.start_resolved begun
    have begun' := same ▸ begun
    have tally := yields_tallied twin.first plain resolved begun
    have tally' := yields_tallied twin.second plain resolved begun'
    exact Or.inr ⟨run_ended twin.first plain resolved begun Hooks.plain,
      run_ended twin.second plain resolved begun' Hooks.plain,
      (tally.congr (twin.fitting resolved _)).perm tally'⟩

/-- The order of the paths that a volume is created from does not matter. Both orders are refused,
and where all that is given are texts this is for one that does not fit; or a volume is created
from both, and each glob with a pattern for their separator fails over both for the same reason, or
ends over both and yields each path as often. -/
theorem matches_reordered {directories others files more : List Value}
    (inner : directories.Perm others) (outer : files.Perm more) (cwd : Value)
    (denied : List Value) :
    (∃ fault fault', Memory.create (.text [s]) cwd directories files denied = .error fault ∧
      Memory.create (.text [s]) cwd others more denied = .error fault' ∧
      ((cwd = .null ∨ cwd.Reads .cwd) →
        (∀ value ∈ directories ++ files ++ denied, value.Reads .path) →
        fault.IsUnfit ∧ fault'.IsUnfit)) ∨
    ∃ memory again, Memory.create (.text [s]) cwd directories files denied = .ok memory ∧
      Memory.create (.text [s]) cwd others more denied = .ok again ∧
      ∀ pattern root sep here : Value,
        (∀ p, Pattern.obtain pattern sep = .ok p →
          p.sep = s ∧ ∃ source asked, Pattern.compile source asked = .ok p) →
        (runAll memory.volume pattern root sep here).Reordered
          (runAll again.volume pattern root sep here) := by
  cases made : Memory.create (.text [s]) cwd directories files denied with
  | error fault =>
    cases remade : Memory.create (.text [s]) cwd others more denied with
    | error fault' =>
      refine Or.inl ⟨fault, fault', rfl, rfl, fun reads named => ?_⟩
      refine ⟨Memory.create_unfit reads named made, Memory.create_unfit reads ?_ remade⟩
      intro value member
      exact named value (((inner.append outer).append_right denied).mem_iff.mpr member)
    | ok again =>
      obtain ⟨memory, first, _⟩ := Memory.create_twin (fun _ => inner.mem_iff.symm)
        (fun _ => outer.mem_iff.symm) remade
      rw [made] at first
      cases first
  | ok memory =>
    obtain ⟨again, remade, twin⟩ := Memory.create_twin (fun _ => inner.mem_iff)
      (fun _ => outer.mem_iff) made
    refine Or.inr ⟨memory, again, rfl, remade, fun pattern root sep here compiled => ?_⟩
    unfold runAll
    cases created : create pattern root sep here with
    | error fault => exact Or.inl ⟨fault, rfl, rfl⟩
    | ok glob =>
      obtain ⟨p, obtained, created⟩ := bind_ok_iff.mp created
      obtain ⟨rfl, source, asked, compiled⟩ := compiled p obtained
      obtain ⟨_, _, created⟩ := bind_ok_iff.mp created
      obtain rfl := Except.ok.inj created
      exact run_twin twin (Pattern.segments_plain compiled)

theorem matches_reordered_pair :
    ∃ memory again,
      Memory.create (.text ['/']) .null [] [.text ['a', '/', 'b'], .text ['c']] [] = .ok memory ∧
      Memory.create (.text ['/']) .null [] [.text ['c'], .text ['a', '/', 'b']] [] = .ok again ∧
      (Walk.yields (runAll memory.volume (.text ['*', '*']) .null .null .null).events).Perm
        (Walk.yields (runAll again.volume (.text ['*', '*']) .null .null .null).events) := by
  let held : Memory := ⟨['/'], .text ['/'], [(['/'], .directory [['a'], ['c']]),
    (['/', 'a'], .directory [['b']]), (['/', 'a', '/', 'b'], .file), (['/', 'c'], .file)], []⟩
  have own : Memory.create (.text ['/']) .null [] [.text ['a', '/', 'b'], .text ['c']] [] =
      .ok held := rfl
  have answered : (matchesOf (runAll held.volume (.text ['*', '*']) .null .null
      .null)).toOption.isSome = true := by decide +kernel
  have compiled : ∀ p, Pattern.obtain (.text ['*', '*']) .null = .ok p →
      p.sep = '/' ∧ ∃ source asked, Pattern.compile source asked = .ok p := by
    intro p obtained
    obtain rfl : Pattern.ofText '/' ['*', '*'] = p := Except.ok.inj obtained
    exact ⟨rfl, .text ['*', '*'], .null, rfl⟩
  rcases matches_reordered (s := '/') (List.Perm.refl [])
      (List.Perm.swap (.text ['c']) (.text ['a', '/', 'b']) []) .null [] with
    ⟨_, _, failed, _⟩ | ⟨memory, again, made, remade, agree⟩
  · cases failed
  · obtain rfl : held = memory := Except.ok.inj (own.symm.trans made)
    rcases agree (.text ['*', '*']) .null .null .null compiled with
      ⟨_, failed, _⟩ | ⟨_, _, perm⟩
    · simp [matchesOf, failed, Except.toOption] at answered
    · exact ⟨held, again, made, remade, perm⟩

end Glob

end PathGlob
