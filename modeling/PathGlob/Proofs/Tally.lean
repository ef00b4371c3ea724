import Mathlib.Data.List.Perm.Subperm
import PathGlob.Proofs.Harvest
import PathGlob.Proofs.Matches

/-!
How often a path is yielded. A walk over a volume in memory yields a path once for each way to cut
its names for the segments, so a path that can be cut in one way only is yielded once.
-/
namespace PathGlob
variable {s : Char}
open Location

/-- The paths below a place that the lists of blocks lead to which fit, each list taken once. -/
def Tallied (s : Char) (place : Location) (fits : List (List Text) → Prop)
    (paths : List Text) : Prop :=
  ∃ cuts : List (List (List Text)), cuts.Nodup ∧ (∀ blocks, blocks ∈ cuts ↔ fits blocks) ∧
    paths = cuts.map fun blocks => (place.down blocks.flatten).text [s]

namespace Tallied
variable {place : Location} {fits others : List (List Text) → Prop} {paths more : List Text}

theorem congr (tally : Tallied s place fits paths) (same : ∀ blocks, fits blocks ↔ others blocks) :
    Tallied s place others paths := by
  obtain ⟨cuts, distinct, member, told⟩ := tally
  exact ⟨cuts, distinct, fun blocks => (member blocks).trans (same blocks), told⟩

theorem none : Tallied s place (fun _ => False) [] :=
  ⟨[], List.nodup_nil, by simp, rfl⟩

theorem one (blocks : List (List Text)) :
    Tallied s place (· = blocks) [(place.down blocks.flatten).text [s]] :=
  ⟨[blocks], List.nodup_singleton blocks, by simp, rfl⟩

theorem append (first : Tallied s place fits paths) (second : Tallied s place others more)
    (apart : ∀ blocks, fits blocks → ¬ others blocks) :
    Tallied s place (fun blocks => fits blocks ∨ others blocks) (paths ++ more) := by
  obtain ⟨front, distinct, member, rfl⟩ := first
  obtain ⟨back, distinct', member', rfl⟩ := second
  refine ⟨front ++ back, ?_, fun blocks => ?_, List.map_append.symm⟩
  · rw [List.nodup_append]
    refine ⟨distinct, distinct', ?_⟩
    intro one here two there same
    exact apart one ((member one).mp here) ((member' one).mp (same ▸ there))
  · rw [List.mem_append, member, member']

theorem flatMap {names : List Text} {fits : Text → List (List Text) → Prop}
    {paths : Text → List Text} (distinct : names.Nodup)
    (each : ∀ name ∈ names, Tallied s place (fits name) (paths name))
    (apart : ∀ one two blocks, fits one blocks → fits two blocks → one = two) :
    Tallied s place (fun blocks => ∃ name ∈ names, fits name blocks) (names.flatMap paths) := by
  induction names with
  | nil => exact none.congr (by simp)
  | cons name rest ih =>
    obtain ⟨here, later⟩ := List.forall_mem_cons.mp each
    obtain ⟨absent, distinct⟩ := List.nodup_cons.mp distinct
    refine (here.append (ih distinct later) ?_).congr (by simp)
    intro blocks fit found
    obtain ⟨other, member, fit'⟩ := found
    exact absent (apart name other blocks fit fit' ▸ member)

theorem wrap {names : List Text} (tally : Tallied s (place.down names) fits paths)
    (put : List (List Text) → List (List Text))
    (flat : ∀ blocks, fits blocks → (put blocks).flatten = names ++ blocks.flatten)
    (injective : ∀ one two, fits one → fits two → put one = put two → one = two) :
    Tallied s place (fun blocks => ∃ inner, fits inner ∧ blocks = put inner) paths := by
  obtain ⟨cuts, distinct, member, rfl⟩ := tally
  refine ⟨cuts.map put, ?_, fun blocks => ?_, ?_⟩
  · refine List.Nodup.map_on ?_ distinct
    intro one here two there
    exact injective one two ((member one).mp here) ((member two).mp there)
  · rw [List.mem_map]
    constructor
    · intro h
      obtain ⟨inner, here, rfl⟩ := h
      exact ⟨inner, (member inner).mp here, rfl⟩
    · intro h
      obtain ⟨inner, here, rfl⟩ := h
      exact ⟨inner, (member inner).mpr here, rfl⟩
  · rw [List.map_map]
    refine List.map_congr_left fun blocks here => ?_
    rw [Function.comp, flat blocks ((member blocks).mp here), down_down]

theorem nodup (tally : Tallied s place fits paths)
    (apart : ∀ one two, fits one → fits two →
      (place.down one.flatten).text [s] = (place.down two.flatten).text [s] → one = two) :
    paths.Nodup := by
  obtain ⟨cuts, distinct, member, rfl⟩ := tally
  refine distinct.map_on ?_
  intro one here two there
  exact apart one two ((member one).mp here) ((member two).mp there)

theorem twice (tally : Tallied s place fits paths) {one two : List (List Text)}
    (first : fits one) (second : fits two) (differ : one ≠ two)
    (same : one.flatten = two.flatten) :
    2 ≤ paths.count ((place.down one.flatten).text [s]) := by
  obtain ⟨cuts, _, member, rfl⟩ := tally
  have both : [one, two] ⊆ cuts := by
    simp [(member one).mpr first, (member two).mpr second]
  have distinct : [one, two].Nodup := by simpa using differ
  have counted := (distinct.subperm both).countP_le
    fun blocks => (place.down blocks.flatten).text [s] == (place.down one.flatten).text [s]
  rw [List.count_eq_countP, List.countP_map]
  simpa [same, Function.comp_def] using counted

end Tallied

theorem takes_descended {readable : Text → Prop} {place name : Text} {final : Bool}
    {block : List Text} : Segment.globstar.Takes s readable place final (name :: block) ↔
      readable place ∧ Segment.globstar.Takes s readable (Walk.child s place name) false block := by
  constructor
  · intro takes
    refine ⟨takes.2 [] name block rfl, by simp, fun above other below same => ?_⟩
    exact takes.2 (name :: above) other below (by rw [same, List.cons_append])
  · intro h
    obtain ⟨allowed, takes⟩ := h
    refine ⟨by simp, fun above other below same => ?_⟩
    cases above with
    | nil => exact allowed
    | cons first front =>
      obtain ⟨rfl, tail⟩ := List.cons.inj same
      exact takes.2 front other below tail

namespace Memory
variable {memory : Memory}

def Fitting (memory : Memory) (s : Char) (place : Location) (segments : List Segment)
    (blocks : List (List Text)) : Prop :=
  Below memory s place blocks.flatten ((place.down blocks.flatten).text [s]) ∧
    Cut s memory.Readable (place.text [s]) segments blocks

theorem fitting_nil {place : Location} {blocks : List (List Text)} :
    Fitting memory s place [] blocks ↔ blocks = [] := by
  constructor
  · exact fun fit => fit.2
  · intro none
    subst none
    exact ⟨⟨by simp, rfl, by simp⟩, rfl⟩

theorem Sound.fitting_single (sound : Sound s memory) {place : Location}
    (resolved : Resolved s place) {segment : Segment} {chosen : Text → Prop}
    (takes : ∀ final block, segment.Takes s memory.Readable (place.text [s]) final block ↔
      ∃ name, block = [name] ∧ chosen name) {rest : List Segment} {blocks : List (List Text)} :
    Fitting memory s place (segment :: rest) blocks ↔
      ∃ name, (chosen name ∧ IsName s name ∧
        (memory.nodes.get ((place.down [name]).text [s])).isSome) ∧
        ∃ more, Fitting memory s (place.down [name]) rest more ∧ blocks = [name] :: more := by
  have below : ∀ name (more : List (List Text)),
      Below memory s place (name :: more.flatten) ((place.down (name :: more.flatten)).text [s]) ↔
        IsName s name ∧ (memory.nodes.get ((place.down [name]).text [s])).isSome ∧
          Below memory s (place.down [name]) more.flatten
            (((place.down [name]).down more.flatten).text [s]) := by
    intro name more
    rw [sound.below_cons_iff resolved, down_down]
    rfl
  constructor
  · intro fit
    obtain ⟨lead, block, more, rfl, taken, cut⟩ := fit
    obtain ⟨name, rfl, choice⟩ := (takes _ _).mp taken
    obtain ⟨named, there, lead⟩ := (below name more).mp lead
    rw [List.foldl_cons, List.foldl_nil, child_text resolved] at cut
    exact ⟨name, ⟨choice, named, there⟩, more, ⟨lead, cut⟩, rfl⟩
  · intro h
    obtain ⟨name, ⟨choice, named, there⟩, more, ⟨lead, cut⟩, rfl⟩ := h
    refine ⟨(below name more).mpr ⟨named, there, lead⟩, [name], more, rfl,
      (takes _ _).mpr ⟨name, rfl, choice⟩, ?_⟩
    rwa [List.foldl_cons, List.foldl_nil, child_text resolved]

theorem Sound.fitting_descended (sound : Sound s memory) {place : Location}
    (resolved : Resolved s place) {rest : List Segment} {name : Text} {block : List Text}
    {more : List (List Text)} :
    Fitting memory s place (.globstar :: rest) ((name :: block) :: more) ↔
      name ∈ Walk.seen memory.volume (place.text [s]) ∧
        (Fitting memory s (place.down [name]) (.globstar :: rest) (block :: more) ∨
          rest = [] ∧ block = [] ∧ more = []) := by
  rw [sound.mem_seen_iff resolved]
  simp only [Fitting, Cut, List.flatten_cons, List.cons_append, sound.below_cons_iff resolved,
    down_down]
  constructor
  · intro h
    obtain ⟨⟨named, there, lead⟩, _, _, same, takes, cut⟩ := h
    obtain ⟨rfl, rfl⟩ := List.cons.inj same
    obtain ⟨allowed, takes⟩ := takes_descended.mp takes
    rw [List.foldl_cons] at cut
    rw [child_text resolved] at takes cut
    refine ⟨⟨allowed, named, there⟩, ?_⟩
    by_cases last : rest = [] ∧ block = []
    · obtain ⟨rfl, rfl⟩ := last
      exact Or.inr ⟨rfl, rfl, cut⟩
    · refine Or.inl ⟨lead, block, more, rfl, ⟨fun final none => ?_, takes.2⟩, cut⟩
      exact last ⟨by simpa using final, none⟩
  · intro h
    obtain ⟨⟨allowed, named, there⟩, ⟨lead, _, _, same, takes, cut⟩ | ⟨rfl, rfl, rfl⟩⟩ := h
    · obtain ⟨rfl, rfl⟩ := List.cons.inj same
      refine ⟨⟨named, there, lead⟩, _, _, rfl, takes_descended.mpr ⟨allowed, ?_⟩, ?_⟩
      · rw [child_text resolved]
        exact ⟨by simp, takes.2⟩
      · rwa [List.foldl_cons, child_text resolved]
    · refine ⟨⟨named, there, by simp, by simp, by simp⟩, _, _, rfl,
        takes_descended.mpr ⟨allowed, by simp, by simp⟩, rfl⟩

theorem fitting_skipped {place : Location} {rest : List Segment} {more : List (List Text)} :
    Fitting memory s place (.globstar :: rest) ([] :: more) ↔
      rest ≠ [] ∧ Fitting memory s place rest more := by
  constructor
  · intro h
    obtain ⟨lead, _, _, same, takes, cut⟩ := h
    obtain ⟨rfl, rfl⟩ := List.cons.inj same
    exact ⟨fun none => takes.1 (by simp [none]) rfl, lead, cut⟩
  · intro h
    obtain ⟨inhabited, lead, cut⟩ := h
    exact ⟨lead, [], more, rfl, ⟨by simp [inhabited], by simp⟩, cut⟩

def grow (name : Text) : List (List Text) → List (List Text)
  | [] => []
  | block :: more => (name :: block) :: more

theorem Sound.fitting_globstar (sound : Sound s memory) {place : Location}
    (resolved : Resolved s place) {rest : List Segment} {blocks : List (List Text)} :
    Fitting memory s place (.globstar :: rest) blocks ↔
      (∃ name ∈ Walk.seen memory.volume (place.text [s]),
        (∃ inner, Fitting memory s (place.down [name]) (.globstar :: rest) inner ∧
          blocks = grow name inner) ∨ rest = [] ∧ blocks = [[name]]) ∨
      rest ≠ [] ∧ ∃ more, Fitting memory s place rest more ∧ blocks = [] :: more := by
  constructor
  · intro fit
    obtain ⟨block, more, rfl, _⟩ := fit.2
    cases block with
    | nil =>
      obtain ⟨inhabited, fit⟩ := fitting_skipped.mp fit
      exact Or.inr ⟨inhabited, more, fit, rfl⟩
    | cons name block =>
      obtain ⟨visible, deeper | ⟨last, rfl, rfl⟩⟩ := (sound.fitting_descended resolved).mp fit
      · exact Or.inl ⟨name, visible, Or.inl ⟨_, deeper, rfl⟩⟩
      · exact Or.inl ⟨name, visible, Or.inr ⟨last, rfl⟩⟩
  · intro h
    obtain ⟨name, visible, ⟨inner, deeper, rfl⟩ | ⟨last, rfl⟩⟩ | ⟨inhabited, more, fit, rfl⟩ := h
    · obtain ⟨block, more, rfl, _⟩ := deeper.2
      exact (sound.fitting_descended resolved).mpr ⟨visible, Or.inl deeper⟩
    · exact (sound.fitting_descended resolved).mpr ⟨visible, Or.inr ⟨last, rfl, rfl⟩⟩
    · exact fitting_skipped.mpr ⟨inhabited, fit⟩

theorem Sound.seen_nodup (sound : Sound s memory) {place : Location}
    (resolved : Resolved s place) : (Walk.seen memory.volume (place.text [s])).Nodup := by
  rw [sound.seen_text resolved]
  split
  · rename_i names held
    split
    · exact List.nodup_nil
    · exact sound.tree.distinct place names resolved held
  · exact List.nodup_nil

theorem Sound.targets_text (sound : Sound s memory) {place : Location}
    (resolved : Resolved s place) : Walk.targets memory.volume s (place.text [s]) =
      (Walk.seen memory.volume (place.text [s])).map fun name => (place.down [name]).text [s] := by
  have usual : (Walk.seen memory.volume (place.text [s])).filter (!Walk.isSpecial ·) =
      Walk.seen memory.volume (place.text [s]) := by
    rw [List.filter_eq_self]
    intro name visible
    rw [((sound.mem_seen_iff resolved name).mp visible).2.1.usual]
    rfl
  rw [Walk.targets, usual]
  exact List.map_congr_left fun name _ => child_text resolved name

def gathered (memory : Memory) (s : Char) (frame : Frame) : List Text :=
  Walk.harvest memory.volume .plain s (memory.rank s) (memory.nodes.length + 1) frame

theorem Sound.gathered_eq (sound : Sound s memory) {frame : Frame} (placed : Placed s frame) :
    memory.gathered s frame = Walk.found memory.volume s frame ++
      (Walk.follow memory.volume s frame).flatMap (memory.gathered s) := by
  have sure := sound.sure placed
  have gained := (sound.steady Hooks.plain).harvest_step placed sure.step_next
  rw [sure.step_yields] at gained
  exact gained

def Onward (memory : Memory) (s : Char) (place : Location) (segments : List Segment) : Prop :=
  ∀ other rest, Resolved s other →
    Walk.Follows memory.volume s ⟨place.text [s], segments⟩ ⟨other.text [s], rest⟩ →
    Tallied s other (Fitting memory s other rest) (memory.gathered s ⟨other.text [s], rest⟩)

theorem Onward.child {place : Location} {segments rest : List Segment} {name : Text}
    (onward : Onward memory s place segments) (resolved : Resolved s place)
    (named : IsName s name)
    (follows : Walk.Follows memory.volume s ⟨place.text [s], segments⟩
      ⟨Walk.child s (place.text [s]) name, rest⟩) :
    Tallied s (place.down [name]) (Fitting memory s (place.down [name]) rest)
      (memory.gathered s ⟨(place.down [name]).text [s], rest⟩) := by
  rw [child_text resolved] at follows
  exact onward _ _ (resolved.down (by simpa using named)) follows

theorem Sound.tally_single (sound : Sound s memory) {place : Location}
    (resolved : Resolved s place) {segment : Segment} {rest : List Segment} {names : List Text}
    {chosen : Text → Prop} (onward : Onward memory s place (segment :: rest))
    (takes : ∀ final block, segment.Takes s memory.Readable (place.text [s]) final block ↔
      ∃ name, block = [name] ∧ chosen name)
    (distinct : names.Nodup)
    (member : ∀ name, name ∈ names ↔ chosen name ∧ IsName s name ∧
      (memory.nodes.get ((place.down [name]).text [s])).isSome)
    (follows : ∀ name ∈ names, Walk.Follows memory.volume s ⟨place.text [s], segment :: rest⟩
      ⟨Walk.child s (place.text [s]) name, rest⟩) :
    Tallied s place (Fitting memory s place (segment :: rest))
      (names.flatMap fun name => memory.gathered s ⟨(place.down [name]).text [s], rest⟩) := by
  have branches := Tallied.flatMap distinct (fun name here =>
    (onward.child resolved ((member name).mp here).2.1 (follows name here)).wrap ([name] :: ·)
      (fun _ _ => List.flatten_cons) fun _ _ _ _ same => (List.cons.inj same).2) ?_
  · refine branches.congr fun blocks => ?_
    rw [sound.fitting_single resolved takes]
    simp only [member]
  · intro one two blocks first second
    obtain ⟨_, _, rfl⟩ := first
    obtain ⟨_, _, same⟩ := second
    simpa using (List.cons.inj same).1

theorem grow_injective {one two : Text} {blocks others : List (List Text)} (filled : blocks ≠ [])
    (inhabited : others ≠ []) (same : grow one blocks = grow two others) :
    one = two ∧ blocks = others := by
  obtain ⟨block, more, rfl⟩ := List.exists_cons_of_ne_nil filled
  obtain ⟨other, later, rfl⟩ := List.exists_cons_of_ne_nil inhabited
  simp only [grow, List.cons.injEq] at same
  obtain ⟨⟨rfl, rfl⟩, rfl⟩ := same
  exact ⟨rfl, rfl⟩

theorem Fitting.filled {place : Location} {segment : Segment} {rest : List Segment}
    {blocks : List (List Text)} (fit : Fitting memory s place (segment :: rest) blocks) :
    blocks ≠ [] := by
  obtain ⟨block, more, rfl, _⟩ := fit.2
  exact List.cons_ne_nil block more

theorem Sound.tally_literal (sound : Sound s memory) {place : Location} {text : Text}
    {rest : List Segment} (resolved : Resolved s place)
    (placed : Placed s ⟨place.text [s], .literal text :: rest⟩)
    (onward : Onward memory s place (.literal text :: rest)) :
    Tallied s place (Fitting memory s place (.literal text :: rest))
      (memory.gathered s ⟨place.text [s], .literal text :: rest⟩) := by
  have named : IsName s text := placed.plain (.literal text) (by simp)
  have answer : memory.volume.has (Walk.child s (place.text [s]) text) =
      .ok (memory.nodes.get ((place.down [text]).text [s])).isSome := by
    rw [child_text resolved]
    exact sound.has_text (resolved.down (by simpa using named))
  have takes : ∀ final block, (Segment.literal text).Takes s memory.Readable (place.text [s])
      final block ↔ ∃ name, block = [name] ∧ name = text := by
    simp [Segment.Takes]
  rw [sound.gathered_eq placed]
  simp only [Walk.found, Walk.follow, answer, List.nil_append]
  cases there : (memory.nodes.get ((place.down [text]).text [s])).isSome with
  | false =>
    refine sound.tally_single resolved onward takes List.nodup_nil (fun name => ?_) (by simp)
    constructor
    · simp
    · intro h
      obtain ⟨rfl, _, node⟩ := h
      exact absurd node (by simp [there])
  | true =>
    have branches := sound.tally_single resolved onward takes (List.nodup_singleton text) ?_ ?_
    · rw [child_text resolved]
      exact branches
    · intro name
      rw [List.mem_singleton]
      constructor
      · intro same
        exact ⟨same, same ▸ named, same ▸ there⟩
      · exact fun h => h.1
    · intro name member
      obtain rfl := List.mem_singleton.mp member
      exact .probe (there ▸ answer)

theorem Sound.tally_wildcard (sound : Sound s memory) {place : Location} {expression : Text}
    {rest : List Segment} (resolved : Resolved s place)
    (placed : Placed s ⟨place.text [s], .wildcard expression :: rest⟩)
    (onward : Onward memory s place (.wildcard expression :: rest)) :
    Tallied s place (Fitting memory s place (.wildcard expression :: rest))
      (memory.gathered s ⟨place.text [s], .wildcard expression :: rest⟩) := by
  obtain ⟨regex, read⟩ := placed.plain (.wildcard expression) (by simp)
  have takes : ∀ final block, (Segment.wildcard expression).Takes s memory.Readable
      (place.text [s]) final block ↔ ∃ name, block = [name] ∧
        regex.fullMatch name = true ∧ memory.Readable (place.text [s]) := by
    simp [Segment.Takes, read]
  have distinct := (sound.seen_nodup resolved).filter regex.fullMatch
  have branches := sound.tally_single resolved onward takes (List.nodup_reverse.mpr distinct) ?_ ?_
  · rw [sound.gathered_eq placed]
    simpa [Walk.found, Walk.follow, read, Walk.push, ← List.map_reverse, List.flatMap_map,
      child_text resolved] using branches
  · intro name
    rw [List.mem_reverse, List.mem_filter, sound.mem_seen_iff resolved]
    tauto
  · intro name member
    obtain ⟨visible, fits⟩ := List.mem_filter.mp (List.mem_reverse.mp member)
    exact .choose visible read fits

theorem tally_nil {place : Location} :
    Tallied s place (Fitting memory s place []) [place.text [s]] := by
  have one : Tallied s place (· = []) [(place.down []).text [s]] := Tallied.one []
  rw [down_nil] at one
  exact one.congr fun _ => fitting_nil.symm

theorem tally_settled {place : Location} {names : List Text} (distinct : names.Nodup) :
    Tallied s place (fun blocks => ∃ name ∈ names, blocks = [[name]])
      (names.map fun name => (place.down [name]).text [s]) := by
  refine ⟨names.map fun name => [[name]], ?_, by simp [eq_comm], by simp⟩
  exact distinct.map fun one two same => by simpa using same

theorem tally_skipped {place : Location} {fits : List (List Text) → Prop} {paths : List Text}
    (tally : Tallied s place fits paths) :
    Tallied s place (fun blocks => ∃ inner, fits inner ∧ blocks = [] :: inner) paths := by
  have here : Tallied s (place.down []) fits paths := by rwa [down_nil]
  exact here.wrap ([] :: ·) (fun _ _ => rfl) fun _ _ _ _ same => (List.cons.inj same).2

theorem Sound.tally_descended (sound : Sound s memory) {place : Location} {rest : List Segment}
    (resolved : Resolved s place) (onward : Onward memory s place (.globstar :: rest)) :
    Tallied s place (fun blocks => ∃ name ∈ Walk.seen memory.volume (place.text [s]), ∃ inner,
        Fitting memory s (place.down [name]) (.globstar :: rest) inner ∧ blocks = grow name inner)
      ((Walk.seen memory.volume (place.text [s])).reverse.flatMap fun name =>
        memory.gathered s ⟨(place.down [name]).text [s], .globstar :: rest⟩) := by
  have follows : ∀ name ∈ (Walk.seen memory.volume (place.text [s])).reverse, IsName s name ∧
      Walk.Follows memory.volume s ⟨place.text [s], .globstar :: rest⟩
        ⟨Walk.child s (place.text [s]) name, .globstar :: rest⟩ := by
    intro name here
    have visible := List.mem_reverse.mp here
    have named := ((sound.mem_seen_iff resolved name).mp visible).2.1
    exact ⟨named, .descend visible named.usual⟩
  have branches := Tallied.flatMap (List.nodup_reverse.mpr (sound.seen_nodup resolved))
    (fun name here => (onward.child resolved (follows name here).1 (follows name here).2).wrap
      (grow name) ?_ ?_) ?_
  · simpa only [List.mem_reverse] using branches
  · intro blocks fit
    obtain ⟨block, more, rfl, _⟩ := fit.2
    rfl
  · intro one two first second same
    exact (grow_injective first.filled second.filled same).2
  · intro one two blocks first second
    obtain ⟨_, first, rfl⟩ := first
    obtain ⟨_, second, same⟩ := second
    exact (grow_injective first.filled second.filled same).1

theorem Sound.tally_globstar (sound : Sound s memory) {place : Location} {rest : List Segment}
    (resolved : Resolved s place) (placed : Placed s ⟨place.text [s], .globstar :: rest⟩)
    (onward : Onward memory s place (.globstar :: rest)) :
    Tallied s place (Fitting memory s place (.globstar :: rest))
      (memory.gathered s ⟨place.text [s], .globstar :: rest⟩) := by
  have deeper := sound.tally_descended resolved onward
  rw [sound.gathered_eq placed]
  cases rest with
  | nil =>
    have both := (tally_settled (sound.seen_nodup resolved)).append deeper ?_
    · have all : Tallied s place (Fitting memory s place [.globstar]) _ := both.congr ?_
      · simpa [Walk.found, Walk.follow, Walk.push, sound.targets_text resolved,
          ← List.map_reverse, List.flatMap_map] using all
      · intro blocks
        rw [sound.fitting_globstar resolved]
        simp [exists_or, and_or_left, or_comm]
    · intro blocks first second
      obtain ⟨name, _, rfl⟩ := first
      obtain ⟨other, _, inner, fit, same⟩ := second
      obtain ⟨block, more, rfl, takes, _⟩ := fit.2
      -- the last globstar takes a name below `other`, so that there are two of them
      exact takes.1 rfl (by simpa using (List.cons.inj (List.cons.inj same).1).2.symm)
  | cons next more =>
    have both := deeper.append (tally_skipped (onward place (next :: more) resolved .skip)) ?_
    · have all : Tallied s place (Fitting memory s place (.globstar :: next :: more)) _ :=
        both.congr ?_
      · simpa [Walk.found, Walk.follow, Walk.push, sound.targets_text resolved,
          ← List.map_reverse, List.flatMap_map] using all
      · intro blocks
        rw [sound.fitting_globstar resolved]
        simp
    · intro blocks first second
      obtain ⟨name, _, inner, fit, rfl⟩ := first
      obtain ⟨_, _, same⟩ := second
      obtain ⟨block, more, rfl, _⟩ := fit.2
      cases same

/-- A frame brings in one path for each cut that fits below its place. -/
theorem Sound.tally (sound : Sound s memory) {place : Location} {segments : List Segment}
    (resolved : Resolved s place) (plain : ∀ segment ∈ segments, segment.Plain s) :
    Tallied s place (Fitting memory s place segments)
      (memory.gathered s ⟨place.text [s], segments⟩) := by
  -- on the rank, which is lower for every frame that follows
  induction level : memory.rank s ⟨place.text [s], segments⟩ using Nat.strong_induction_on
    generalizing place segments with
  | h level ih =>
    have placed : Placed s ⟨place.text [s], segments⟩ := ⟨⟨place, resolved, rfl⟩, plain⟩
    have onward : Onward memory s place segments := by
      intro other rest inside follows
      obtain ⟨again, lower⟩ := sound.after placed follows
      exact ih _ (level ▸ lower) inside again.plain rfl
    cases segments with
    | nil =>
      rw [sound.gathered_eq placed]
      simpa [Walk.found, Walk.follow] using tally_nil
    | cons segment rest =>
      cases segment with
      | literal text => exact sound.tally_literal resolved placed onward
      | wildcard expression => exact sound.tally_wildcard resolved placed onward
      | globstar => exact sound.tally_globstar resolved placed onward

end Memory

namespace Glob
variable {memory : Memory} {glob : Glob} {place : Location}

theorem yields_gathered (sound : memory.Sound glob.pattern.sep)
    (plain : ∀ segment ∈ glob.pattern.segments, segment.Plain glob.pattern.sep)
    (resolved : Resolved glob.pattern.sep place)
    (begun : (glob.start memory.volume).2 = .ok (place.text [glob.pattern.sep])) :
    Walk.yields (glob.run memory.volume .plain).events =
      memory.gathered glob.pattern.sep ⟨place.text [glob.pattern.sep], glob.pattern.segments⟩ := by
  have ended := run_ended sound plain resolved begun Hooks.plain
  rw [run_begun begun] at ended
  rw [yields_begun begun,
    (sound.steady Hooks.plain).run_harvest (placed_start resolved plain) ended,
    List.flatMap_singleton]
  rfl

theorem yields_tallied (sound : memory.Sound glob.pattern.sep)
    (plain : ∀ segment ∈ glob.pattern.segments, segment.Plain glob.pattern.sep)
    (resolved : Resolved glob.pattern.sep place)
    (begun : (glob.start memory.volume).2 = .ok (place.text [glob.pattern.sep])) :
    Tallied glob.pattern.sep place
      (memory.Fitting glob.pattern.sep place glob.pattern.segments)
      (Walk.yields (glob.run memory.volume .plain).events) := by
  rw [yields_gathered sound plain resolved begun]
  exact sound.tally resolved plain

end Glob

end PathGlob
