import PathGlob.Glob
import PathGlob.Proofs.Cut
import PathGlob.Proofs.Listing

namespace PathGlob
variable {α : Type} {s : Char}
open Location

structure Placed (s : Char) (frame : Frame) : Prop where
  place : ∃ place, Resolved s place ∧ frame.path = place.text [s]
  plain : ∀ segment ∈ frame.rest, segment.Plain s

namespace Memory
variable {memory : Memory}

/-- What is left to do for a frame: its segments, and the levels below it. -/
def rank (memory : Memory) (s : Char) (frame : Frame) : Nat :=
  frame.rest.length + (memory.nodes.length - (ofText [s] frame.path).names.length)

theorem rank_text {place : Location} (resolved : Resolved s place) (rest : List Segment) :
    memory.rank s ⟨place.text [s], rest⟩ =
      rest.length + (memory.nodes.length - place.names.length) := by
  rw [rank, ofText_text resolved]

theorem Sound.seen_bound (sound : Sound s memory) {place : Location}
    (resolved : Resolved s place) :
    (Walk.seen memory.volume (place.text [s])).length ≤ memory.nodes.length := by
  rw [sound.seen_text resolved]
  split
  · rename_i names held
    split
    · simp
    · exact sound.tree.width resolved held
  · simp

theorem Sound.sure (sound : Sound s memory) {frame : Frame} (placed : Placed s frame) :
    Walk.Sure memory.volume s frame := by
  obtain ⟨path, rest⟩ := frame
  obtain ⟨place, resolved, rfl⟩ := placed.place
  constructor
  case probe =>
    intro text more same
    obtain rfl : rest = .literal text :: more := same
    have named : IsName s text := placed.plain (.literal text) (by simp)
    rw [child_text resolved]
    exact ⟨_, sound.has_text (resolved.down (by simpa using named))⟩
  case listing => exact sound.listable resolved
  case expression =>
    intro expression more same
    obtain rfl : rest = .wildcard expression :: more := same
    exact placed.plain (.wildcard expression) (by simp)

theorem Sound.below (sound : Sound s memory) {place : Location} {name : Text}
    {rest : List Segment} (resolved : Resolved s place) (named : IsName s name)
    (there : (memory.nodes.get ((place.down [name]).text [s])).isSome)
    (plain : ∀ segment ∈ rest, segment.Plain s) :
    Placed s ⟨Walk.child s (place.text [s]) name, rest⟩ ∧
      memory.rank s ⟨Walk.child s (place.text [s]) name, rest⟩ <
        rest.length + (memory.nodes.length - place.names.length) := by
  have under : Resolved s (place.down [name]) := resolved.down (by simpa using named)
  have depth := sound.tree.depth under there
  rw [child_text resolved, rank_text under]
  refine ⟨⟨⟨_, under, rfl⟩, plain⟩, ?_⟩
  simp only [down_names, List.length_append, List.length_singleton] at depth ⊢
  omega

theorem Sound.after (sound : Sound s memory) {frame after : Frame} (placed : Placed s frame)
    (follows : Walk.Follows memory.volume s frame after) :
    Placed s after ∧ memory.rank s after < memory.rank s frame := by
  obtain ⟨place, resolved, here⟩ := placed.place
  have plain := placed.plain
  cases follows with
  | probe there =>
    obtain rfl : _ = place.text [s] := here
    rename_i text rest
    have named : IsName s text := plain (.literal text) (by simp)
    rw [child_text resolved] at there
    have node := (sound.has_iff (resolved.down (by simpa using named))).mp there
    have below := sound.below resolved named node fun other member =>
      plain other (List.mem_cons_of_mem _ member)
    rw [rank_text resolved, List.length_cons]
    exact ⟨below.1, by omega⟩
  | choose visible _ _ =>
    obtain rfl : _ = place.text [s] := here
    obtain ⟨_, named, node⟩ := (sound.mem_seen_iff resolved _).mp visible
    have below := sound.below resolved named node fun other member =>
      plain other (List.mem_cons_of_mem _ member)
    rw [rank_text resolved, List.length_cons]
    exact ⟨below.1, by omega⟩
  | descend visible _ =>
    obtain rfl : _ = place.text [s] := here
    obtain ⟨_, named, node⟩ := (sound.mem_seen_iff resolved _).mp visible
    rw [rank_text resolved]
    exact sound.below resolved named node plain
  | skip =>
    obtain rfl : _ = place.text [s] := here
    rw [rank_text resolved, rank_text resolved, List.length_cons]
    refine ⟨⟨⟨place, resolved, rfl⟩, ?_⟩, by omega⟩
    exact fun other member => plain other (List.mem_cons_of_mem _ member)

theorem Sound.steady (sound : Sound s memory) (hooks : Hooks α) :
    Walk.Steady memory.volume hooks s (Placed s) (memory.rank s) (memory.nodes.length + 1) := by
  constructor
  intro frame placed
  refine ⟨_, (sound.sure placed).step_next, ?_, ?_⟩
  · obtain ⟨place, resolved, here⟩ := placed.place
    have few := Walk.follow_length memory.volume s frame
    have bound := sound.seen_bound resolved
    rw [here] at few
    omega
  · intro after member
    exact sound.after placed (Walk.mem_follow member)

/-- The names lead from the place to the goal; where there are any, something is there. -/
structure Below (memory : Memory) (s : Char) (place : Location) (names : List Text)
    (goal : Text) : Prop where
  plain : ∀ name ∈ names, IsName s name
  leads : goal = (place.down names).text [s]
  node : names ≠ [] → (memory.nodes.get goal).isSome

theorem below_nil {place : Location} : Below memory s place [] (place.text [s]) :=
  ⟨by simp, by simp, by simp⟩

theorem Sound.below_cons_iff (sound : Sound s memory) {place : Location}
    (resolved : Resolved s place) {name goal : Text} {names : List Text} :
    Below memory s place (name :: names) goal ↔
      IsName s name ∧ (memory.nodes.get ((place.down [name]).text [s])).isSome ∧
        Below memory s (place.down [name]) names goal := by
  have split : place.down (name :: names) = (place.down [name]).down names := by simp
  constructor
  · intro below
    have plain := List.forall_mem_cons.mp below.plain
    have leads := below.leads
    have node := below.node (by simp)
    rw [split] at leads
    rw [leads] at node
    have under : Resolved s (place.down [name]) := resolved.down (by simpa using plain.1)
    refine ⟨plain.1, sound.tree.ascend (under.down plain.2) node, plain.2, leads, ?_⟩
    exact fun _ => leads ▸ node
  · intro h
    obtain ⟨named, there, below⟩ := h
    refine ⟨List.forall_mem_cons.mpr ⟨named, below.plain⟩, split ▸ below.leads, ?_⟩
    intro _
    by_cases none : names = []
    · rw [below.leads, none, down_nil]
      exact there
    · exact below.node none

theorem Sound.cut_of_reaches (sound : Sound s memory) {place : Location} {goal : Text}
    {segments : List Segment} (resolved : Resolved s place)
    (plain : ∀ segment ∈ segments, segment.Plain s)
    (way : Walk.Reaches memory.volume s (place.text [s]) segments goal) :
    ∃ blocks, Below memory s place blocks.flatten goal ∧
      Cut s memory.Readable (place.text [s]) segments blocks := by
  generalize here : place.text [s] = path at way
  induction way generalizing place with
  | here =>
    subst here
    exact ⟨[], below_nil, rfl⟩
  | probe there more ih =>
    subst here
    rename_i text goal rest
    obtain ⟨named, later⟩ := List.forall_mem_cons.mp plain
    have under : Resolved s (place.down [text]) :=
      resolved.down (by simpa using (show IsName s text from named))
    rw [child_text resolved] at there
    have node := (sound.has_iff under).mp there
    obtain ⟨blocks, below, cut⟩ := ih under later (child_text resolved text).symm
    exact ⟨[text] :: blocks, (sound.below_cons_iff resolved).mpr ⟨named, node, below⟩,
      [text], blocks, rfl, rfl, cut⟩
  | choose visible read fits more ih =>
    subst here
    rename_i expression name goal rest regex
    obtain ⟨_, later⟩ := List.forall_mem_cons.mp plain
    obtain ⟨allowed, named, node⟩ := (sound.mem_seen_iff resolved name).mp visible
    have under : Resolved s (place.down [name]) := resolved.down (by simpa using named)
    obtain ⟨blocks, below, cut⟩ := ih under later (child_text resolved name).symm
    exact ⟨[name] :: blocks, (sound.below_cons_iff resolved).mpr ⟨named, node, below⟩,
      [name], blocks, rfl, ⟨name, regex, rfl, read, fits, allowed⟩, cut⟩
  | settle visible usual =>
    subst here
    rename_i name
    obtain ⟨allowed, named, node⟩ := (sound.mem_seen_iff resolved name).mp visible
    have below : Below memory s (place.down [name]) [] (Walk.child s (place.text [s]) name) :=
      child_text resolved name ▸ below_nil
    refine ⟨[[name]], (sound.below_cons_iff resolved).mpr ⟨named, node, below⟩,
      [name], [], rfl, ⟨by simp, ?_⟩, rfl⟩
    intro above other rest same
    obtain rfl : above = [] := by
      cases above <;> simp_all
    exact allowed
  | descend visible usual more ih =>
    subst here
    rename_i name goal rest
    obtain ⟨allowed, named, node⟩ := (sound.mem_seen_iff resolved name).mp visible
    have under : Resolved s (place.down [name]) := resolved.down (by simpa using named)
    obtain ⟨_, below, block, others, rfl, takes, cut⟩ :=
      ih under plain (child_text resolved name).symm
    refine ⟨(name :: block) :: others, (sound.below_cons_iff resolved).mpr ⟨named, node, below⟩,
      name :: block, others, rfl, ⟨by simp, ?_⟩, cut⟩
    intro above other rest same
    cases above with
    | nil => exact allowed
    | cons first front =>
      obtain ⟨rfl, tail⟩ := List.cons.inj same
      exact takes.2 front other rest tail
  | skip inhabited more ih =>
    subst here
    obtain ⟨_, later⟩ := List.forall_mem_cons.mp plain
    obtain ⟨blocks, below, cut⟩ := ih resolved later rfl
    exact ⟨[] :: blocks, below, [], blocks, rfl, ⟨by simp [inhabited], by simp⟩, cut⟩

theorem Sound.reaches_globstar (sound : Sound s memory) {place : Location} {goal : Text}
    {rest : List Segment} {block : List Text} {more : List (List Text)}
    (resolved : Resolved s place)
    (takes : Segment.globstar.Takes s memory.Readable (place.text [s]) rest.isEmpty block)
    (below : Below memory s place (block ++ more.flatten) goal)
    (cut : Cut s memory.Readable (block.foldl (Walk.child s) (place.text [s])) rest more)
    (onward : ∀ {place}, Resolved s place → Below memory s place more.flatten goal →
      Cut s memory.Readable (place.text [s]) rest more →
      Walk.Reaches memory.volume s (place.text [s]) rest goal) :
    Walk.Reaches memory.volume s (place.text [s]) (.globstar :: rest) goal := by
  induction block generalizing place with
  | nil =>
    have inhabited : rest ≠ [] := by
      intro none
      exact takes.1 (by simp [none]) rfl
    exact .skip inhabited (onward resolved below cut)
  | cons name tail ih =>
    obtain ⟨named, node, below⟩ := (sound.below_cons_iff resolved).mp below
    have under : Resolved s (place.down [name]) := resolved.down (by simpa using named)
    have visible := (sound.mem_seen_iff resolved name).mpr ⟨takes.2 [] name tail rfl, named, node⟩
    rw [List.foldl_cons] at cut
    by_cases last : tail = [] ∧ rest = []
    · obtain ⟨rfl, rfl⟩ := last
      obtain rfl : more = [] := cut
      have leads : goal = ((place.down [name]).down []).text [s] := below.leads
      rw [leads, down_nil, ← child_text resolved]
      exact .settle visible named.usual
    · have deeper : Segment.globstar.Takes s memory.Readable ((place.down [name]).text [s])
          rest.isEmpty tail := by
        rw [← child_text resolved]
        constructor
        · intro final none
          exact last ⟨none, by simpa using final⟩
        · intro above other after same
          exact takes.2 (name :: above) other after (by rw [same, List.cons_append])
      rw [child_text resolved] at cut
      have way := ih under deeper below cut
      rw [← child_text resolved] at way
      exact .descend visible named.usual way

theorem Sound.reaches_of_cut (sound : Sound s memory) {place : Location} {goal : Text}
    {segments : List Segment} {blocks : List (List Text)} (resolved : Resolved s place)
    (below : Below memory s place blocks.flatten goal)
    (cut : Cut s memory.Readable (place.text [s]) segments blocks) :
    Walk.Reaches memory.volume s (place.text [s]) segments goal := by
  induction segments generalizing place blocks with
  | nil =>
    obtain rfl : blocks = [] := cut
    have leads : goal = (place.down []).text [s] := below.leads
    rw [leads, down_nil]
    exact .here
  | cons segment rest ih =>
    obtain ⟨block, more, rfl, takes, cut⟩ := cut
    cases segment with
    | literal text =>
      obtain rfl : block = [text] := takes
      obtain ⟨named, node, below⟩ := (sound.below_cons_iff resolved).mp below
      have under : Resolved s (place.down [text]) := resolved.down (by simpa using named)
      rw [List.foldl_cons, List.foldl_nil, child_text resolved] at cut
      have there := (sound.has_iff under).mpr node
      have way := ih under below cut
      rw [← child_text resolved] at there way
      exact .probe there way
    | wildcard expression =>
      obtain ⟨name, regex, rfl, read, fits, allowed⟩ := takes
      obtain ⟨named, node, below⟩ := (sound.below_cons_iff resolved).mp below
      have under : Resolved s (place.down [name]) := resolved.down (by simpa using named)
      have visible := (sound.mem_seen_iff resolved name).mpr ⟨allowed, named, node⟩
      rw [List.foldl_cons, List.foldl_nil, child_text resolved] at cut
      have way := ih under below cut
      rw [← child_text resolved] at way
      exact .choose visible read fits way
    | globstar => exact sound.reaches_globstar resolved takes below cut ih

theorem enough_fuel (memory : Memory) (s : Char) (start : Text) (segments : List Segment) :
    Walk.cost (memory.rank s) (memory.nodes.length + 1) [⟨start, segments⟩] ≤
      Walk.fuel memory.volume segments := by
  have low : memory.rank s ⟨start, segments⟩ ≤
      (memory.nodes.length + 2) * (segments.length + 1) := by
    have levels : memory.rank s ⟨start, segments⟩ ≤ segments.length + memory.nodes.length :=
      Nat.add_le_add_left (Nat.sub_le _ _) _
    have each : segments.length ≤ (memory.nodes.length + 2) * segments.length :=
      Nat.le_mul_of_pos_left _ (by omega)
    rw [Nat.mul_succ]
    omega
  calc Walk.cost (memory.rank s) (memory.nodes.length + 1) [⟨start, segments⟩]
      = (memory.nodes.length + 2) ^ memory.rank s ⟨start, segments⟩ := by simp [Walk.cost]
    _ ≤ (memory.nodes.length + 4) ^ memory.rank s ⟨start, segments⟩ :=
        Nat.pow_le_pow_left (by omega) _
    _ ≤ (memory.nodes.length + 4) ^ ((memory.nodes.length + 2) * (segments.length + 1)) :=
        Nat.pow_le_pow_right (by omega) low

end Memory

namespace Glob

theorem run_begun {volume : Volume} {hooks : Hooks α} {glob : Glob} {start : Text}
    (begun : (glob.start volume).2 = .ok start) :
    glob.run volume hooks =
      ⟨(glob.start volume).1.map Event.call ++ (Walk.run volume hooks glob.pattern.sep
          (Walk.fuel volume glob.pattern.segments) [⟨start, glob.pattern.segments⟩]).events,
        (Walk.run volume hooks glob.pattern.sep (Walk.fuel volume glob.pattern.segments)
          [⟨start, glob.pattern.segments⟩]).outcome⟩ := by
  unfold run launch
  generalize glob.start volume = beginning at begun ⊢
  obtain ⟨calls, base⟩ := beginning
  obtain rfl : base = .ok start := begun
  rfl

theorem run_unbegun {volume : Volume} {hooks : Hooks α} {glob : Glob} {fault : Fault}
    (unbegun : (glob.start volume).2 = .error fault) :
    glob.run volume hooks = ⟨(glob.start volume).1.map Event.call, .raised fault⟩ := by
  unfold run launch
  generalize glob.start volume = beginning at unbegun ⊢
  obtain ⟨calls, base⟩ := beginning
  obtain rfl : base = .error fault := unbegun
  rfl

theorem yields_begun {volume : Volume} {hooks : Hooks α} {glob : Glob} {start : Text}
    (begun : (glob.start volume).2 = .ok start) :
    Walk.yields (glob.run volume hooks).events =
      Walk.yields (Walk.run volume hooks glob.pattern.sep
        (Walk.fuel volume glob.pattern.segments) [⟨start, glob.pattern.segments⟩]).events := by
  rw [run_begun begun, Walk.yields_append, Walk.yields_asked, List.nil_append]

variable {memory : Memory} {glob : Glob} {place : Location}

theorem begun_of_yielded {volume : Volume} {path : Text}
    (yielded : path ∈ Walk.yields (glob.run volume .plain).events) :
    ∃ start, (glob.start volume).2 = .ok start := by
  cases begun : (glob.start volume).2 with
  | error fault => simp [run_unbegun begun, Walk.yields_asked] at yielded
  | ok start => exact ⟨start, rfl⟩

theorem placed_start (resolved : Resolved s place) {segments : List Segment}
    (plain : ∀ segment ∈ segments, segment.Plain s) :
    ∀ frame ∈ [Frame.mk (place.text [s]) segments], Placed s frame := by
  intro frame member
  obtain rfl := List.mem_singleton.mp member
  exact ⟨⟨place, resolved, rfl⟩, plain⟩

theorem run_ended (sound : memory.Sound glob.pattern.sep)
    (plain : ∀ segment ∈ glob.pattern.segments, segment.Plain glob.pattern.sep)
    (resolved : Resolved glob.pattern.sep place)
    (begun : (glob.start memory.volume).2 = .ok (place.text [glob.pattern.sep]))
    (hooks : Hooks α) : (glob.run memory.volume hooks).outcome = .ended := by
  rw [run_begun begun]
  exact (sound.steady hooks).run_ended (placed_start resolved plain) (memory.enough_fuel _ _ _)

theorem mem_yields_reaches (sound : memory.Sound glob.pattern.sep)
    (plain : ∀ segment ∈ glob.pattern.segments, segment.Plain glob.pattern.sep)
    (resolved : Resolved glob.pattern.sep place)
    (begun : (glob.start memory.volume).2 = .ok (place.text [glob.pattern.sep])) (path : Text) :
    path ∈ Walk.yields (glob.run memory.volume .plain).events ↔
      Walk.Reaches memory.volume glob.pattern.sep (place.text [glob.pattern.sep])
        glob.pattern.segments path := by
  have ended := run_ended sound plain resolved begun Hooks.plain
  rw [run_begun begun] at ended
  rw [yields_begun begun,
    (sound.steady Hooks.plain).run_yields (fun frame good => (sound.sure good).leads)
      (placed_start resolved plain) ended]
  simp only [List.mem_singleton, exists_eq_left]

theorem mem_yields_iff (sound : memory.Sound glob.pattern.sep)
    (plain : ∀ segment ∈ glob.pattern.segments, segment.Plain glob.pattern.sep)
    (resolved : Resolved glob.pattern.sep place)
    (begun : (glob.start memory.volume).2 = .ok (place.text [glob.pattern.sep])) (path : Text) :
    path ∈ Walk.yields (glob.run memory.volume .plain).events ↔
      ∃ blocks, memory.Below glob.pattern.sep place blocks.flatten path ∧
        Cut glob.pattern.sep memory.Readable (place.text [glob.pattern.sep])
          glob.pattern.segments blocks := by
  rw [mem_yields_reaches sound plain resolved begun]
  constructor
  · exact sound.cut_of_reaches resolved plain
  · intro h
    obtain ⟨blocks, below, cut⟩ := h
    exact sound.reaches_of_cut resolved below cut

theorem yields_start {volume : Volume} {start : Text} (none : glob.pattern.segments = [])
    (begun : (glob.start volume).2 = .ok start)
    (ended : (glob.run volume .plain).outcome = .ended) :
    Walk.yields (glob.run volume .plain).events = [start] := by
  rw [run_begun begun, none] at ended
  rw [yields_begun begun, none]
  cases enough : Walk.fuel volume [] with
  | zero =>
    rw [enough] at ended
    cases ended
  | succ fuel => cases fuel <;> rfl

/-- The matches of a glob over a volume in memory, for any arguments that both can be made from.
The walk ends. Without segments it yields its start; with segments it yields the paths that are
there and whose names below the start can be cut into blocks, one for each segment; where a
wildcard or a globstar takes a name, none of the values that were denied names the directory. -/
theorem matches_exactly {sep cwd source asked : Value} {directories files denied : List Value}
    {start : Text} (made : Memory.create sep cwd directories files denied = .ok memory)
    (compiled : Pattern.compile source asked = .ok glob.pattern)
    (same : memory.sep = [glob.pattern.sep])
    (begun : (glob.start memory.volume).2 = .ok start) :
    (glob.run memory.volume .plain).outcome = .ended ∧
      (glob.pattern.segments = [] →
        Walk.yields (glob.run memory.volume .plain).events = [start]) ∧
      (glob.pattern.segments ≠ [] → ∀ path,
        path ∈ Walk.yields (glob.run memory.volume .plain).events ↔
          memory.has path = .ok true ∧ ∃ blocks : List (List Text),
            (∀ name ∈ blocks.flatten, IsName glob.pattern.sep name) ∧
            path = blocks.flatten.foldl (Walk.child glob.pattern.sep) start ∧
            Cut glob.pattern.sep (memory.Spared denied) start glob.pattern.segments blocks) := by
  have sound := Memory.create_sound made same
  have plain := Pattern.segments_plain compiled
  obtain ⟨place, resolved, rfl⟩ := Walk.start_resolved begun
  have ended := run_ended sound plain resolved begun Hooks.plain
  refine ⟨ended, fun none => yields_start none begun ended, ?_⟩
  intro inhabited path
  rw [mem_yields_iff sound plain resolved begun, ← Memory.readable_eq_spared made]
  constructor
  · intro h
    obtain ⟨blocks, below, cut⟩ := h
    have node := below.node (cut.filled inhabited)
    have leads := below.leads
    refine ⟨?_, blocks, below.plain, ?_, cut⟩
    · rw [leads] at node ⊢
      exact (sound.has_iff (resolved.down below.plain)).mpr node
    · rw [children_text resolved below.plain, leads]
  · intro h
    obtain ⟨there, blocks, named, leads, cut⟩ := h
    rw [children_text resolved named] at leads
    refine ⟨blocks, ⟨named, leads, fun _ => ?_⟩, cut⟩
    rw [leads] at there ⊢
    exact (sound.has_iff (resolved.down named)).mp there

/-- A directory that is denied is found all the same, by a globstar that stops there, and what is
in it is not, although it is there. -/
theorem matches_exactly_at_denied :
    ∃ (memory : Memory) (glob : Glob), Memory.create .null .null []
        [.text ['/', 'a', '/', 'b'], .text ['/', 'c', '/', 'd']] [.text ['/', 'a']] = .ok memory ∧
      Pattern.compile (.text ['*', '*']) .null = .ok glob.pattern ∧
      (glob.start memory.volume).2 = .ok ['/'] ∧
      ['/', 'a'] ∈ Walk.yields (glob.run memory.volume .plain).events ∧
      ['/', 'c', '/', 'd'] ∈ Walk.yields (glob.run memory.volume .plain).events ∧
      memory.has ['/', 'a', '/', 'b'] = .ok true ∧
      ['/', 'a', '/', 'b'] ∉ Walk.yields (glob.run memory.volume .plain).events := by
  let memory : Memory := ⟨['/'], .text ['/'],
    [(['/'], .directory [['a'], ['c']]), (['/', 'a'], .directory [['b']]),
      (['/', 'a', '/', 'b'], .file), (['/', 'c'], .directory [['d']]),
      (['/', 'c', '/', 'd'], .file)], [['/', 'a']]⟩
  let glob : Glob := ⟨Pattern.ofText '/' ['*', '*'], ['/'], none⟩
  have made : Memory.create .null .null []
      [.text ['/', 'a', '/', 'b'], .text ['/', 'c', '/', 'd']] [.text ['/', 'a']] =
      .ok memory := rfl
  have compiled : Pattern.compile (.text ['*', '*']) .null = .ok glob.pattern := rfl
  have begun : (glob.start memory.volume).2 = .ok ['/'] := rfl
  obtain ⟨_, _, found⟩ := matches_exactly made compiled rfl begun
  refine ⟨memory, glob, made, compiled, begun, by decide +kernel, by decide +kernel, rfl, ?_⟩
  intro yielded
  obtain ⟨_, blocks, named, leads, block, more, whole, takes, ended⟩ :=
    (found (by decide) _).mp yielded
  obtain rfl : more = [] := ended
  subst whole
  have top : Resolved '/' ⟨[], []⟩ := ⟨rfl, by simp, by simp⟩
  have inner : Resolved '/' ⟨[], [['a'], ['b']]⟩ := ⟨rfl, by simp, by decide⟩
  have places := leads.trans (children_text top named)
  have names : [['a'], ['b']] = block := by
    simpa using congrArg Location.names (text_injective inner (top.down named) places)
  exact takes.2 [['a']] ['b'] [] names.symm _ rfl _ (List.mem_singleton.mpr rfl) ⟨_, rfl, rfl⟩

end Glob

end PathGlob
