import PathGlob.Proofs.Blocks
import PathGlob.Proofs.Matches

/-!
The walk against the expression. What a walk finds can be read as a text of its pattern; the
expression accepts it unless each reading takes a globstar across a newline. In a tree without
newlines and without denied directories the two agree below the start, where a name is matched
with the start as its base.
-/
namespace PathGlob
variable {s : Char}
open Location

theorem bareBase_text {place : Location} (resolved : Resolved s place)
    (slash : s = '\\' → '/' ∉ place.text [s]) :
    bareBase s (place.text [s]) = Text.glue [s] (place.drive :: place.names) := by
  have kept : ((place.text [s]).map fun c => if s = '\\' ∧ c = '/' then s else c) =
      place.text [s] := by
    refine (List.map_congr_left ?_).trans (List.map_id _)
    intro c member
    split
    · rename_i h
      exact absurd (h.2 ▸ member) (slash h.1)
    · rfl
  rw [bareBase, kept, trimmed_text resolved]

theorem drive_line {drive : Text} (valid : isDrive drive = true) : '\n' ∉ drive := by
  unfold isDrive at valid
  split at valid
  · simp
  · rename_i letter
    intro member
    have here : '\n' = letter := by simpa using member
    rw [← here] at valid
    exact absurd valid (by decide)
  · cases valid

theorem glue_line {names : List Text} (separator : s ≠ '\n')
    (lines : ∀ name ∈ names, '\n' ∉ name) : '\n' ∉ Text.glue [s] names := by
  intro member
  rcases Text.mem_glue member with between | ⟨name, inside, here⟩
  · exact separator (List.mem_singleton.mp between).symm
  · exact lines name inside here

theorem text_line {place : Location} (resolved : Resolved s place) (separator : s ≠ '\n')
    (lines : ∀ name ∈ place.names, '\n' ∉ name) : '\n' ∉ place.text [s] := by
  rw [text_eq]
  intro member
  rcases List.mem_append.mp member with first | later
  · exact drive_line resolved.drive first
  · rcases List.mem_cons.mp later with between | below
    · exact separator between.symm
    · exact glue_line separator lines below

theorem crossed_blocks {blocks : List (List Text)} (separator : s ≠ '\n')
    (named : ∀ name ∈ blocks.flatten, IsName s name)
    (lines : ∀ name ∈ blocks.flatten, '\n' ∉ name) :
    ∀ block ∈ blocks, block ≠ [] → Crossed (Text.glue [s] block) := by
  intro block member filled
  have inside : ∀ name ∈ block, name ∈ blocks.flatten :=
    fun name inner => List.mem_flatten.mpr ⟨block, member, inner⟩
  exact ⟨Text.glue_ne_nil filled (fun name inner => (named name (inside name inner)).filled) [s],
    glue_line separator fun name inner => lines name (inside name inner)⟩

namespace Memory
variable {memory : Memory}

theorem Sound.list_text (sound : Sound s memory) {place : Location} (resolved : Resolved s place)
    {names : List Text} (held : memory.nodes.get (place.text [s]) = some (.directory names))
    (allowed : place.text [s] ∉ memory.denied) : memory.list (place.text [s]) = .ok names := by
  simp [list, sound.key_text resolved, held, allowed, bind, Except.bind, pure, Except.pure]

theorem Sound.names_listed (sound : Sound s memory) (allowed : memory.denied = [])
    {place : Location} {names : List Text} (resolved : Resolved s (place.down names))
    (there : (memory.nodes.get ((place.down names).text [s])).isSome) :
    ∀ name ∈ names, ∃ path entries, memory.list path = .ok entries ∧ name ∈ entries := by
  intro name member
  obtain ⟨front, back, rfl⟩ := List.append_of_mem member
  have split : place.down (front ++ name :: back) =
      ((place.down front).down [name]).down back := by simp
  rw [split] at resolved there
  obtain ⟨entries, held, listed⟩ := sound.tree.entered (place.down front) name resolved.above
    (sound.tree.ascend resolved there)
  exact ⟨_, entries, sound.list_text resolved.above.above held (by simp [allowed]), listed⟩

theorem Sound.names_line (sound : Sound s memory) (allowed : memory.denied = [])
    (lines : ∀ directory names, memory.list directory = .ok names → ∀ name ∈ names, '\n' ∉ name)
    {place : Location} (resolved : Resolved s place)
    (there : (memory.nodes.get (place.text [s])).isSome) : ∀ name ∈ place.names, '\n' ∉ name := by
  have whole : place = (Location.mk place.drive []).down place.names := rfl
  intro name member
  obtain ⟨directory, names, listing, entry⟩ :=
    sound.names_listed allowed (whole ▸ resolved) (whole ▸ there) name member
  exact lines directory names listing name entry

theorem Below.reading {crosses : Text → Prop} {readable : Text → Prop} {place : Location}
    {pieces : List Text} {blocks : List (List Text)} {path : Text} (settled : pieces ≠ [])
    (below : Below memory s place blocks.flatten path)
    (cut : Cut s readable (place.text [s]) (pieces.map (Segment.ofPiece s)) blocks)
    (cross : ∀ block ∈ blocks, block ≠ [] → crosses (Text.glue [s] block)) :
    ∃ rest, path = Text.glue [s] (place.drive :: place.names) ++ s :: rest ∧
      Language s crosses pieces rest := by
  have some_name := cut.filled (by simpa using settled)
  refine ⟨_, ?_, cut.language settled cross⟩
  rw [below.leads, down_text s place some_name]

theorem below_of_reading {crosses : Text → Prop} (allowed : memory.denied = [])
    {place target : Location} {pieces : List Text} {rest : Text}
    (settled : pieces ≠ []) (plain : ∀ piece ∈ pieces, IsName s piece)
    (resolved : Resolved s place) (goal : Resolved s target)
    (there : (memory.nodes.get (target.text [s])).isSome)
    (same : target.text [s] = Text.glue [s] (place.drive :: place.names) ++ s :: rest)
    (language : Language s crosses pieces rest) :
    target = place ∨ ∃ blocks, Below memory s place blocks.flatten (target.text [s]) ∧
      Cut s memory.Readable (place.text [s]) (pieces.map (Segment.ofPiece s)) blocks := by
  rcases text_beyond resolved goal same with here | ⟨names, some_name, rfl, rfl⟩
  · exact Or.inl here
  · right
    have named : ∀ name ∈ names, IsName s name := fun name member =>
      goal.names name (List.mem_append_right _ member)
    have readable : ∀ path, memory.Readable path := fun path key _ => by simp [allowed]
    obtain ⟨blocks, rfl, cut⟩ := cut_of_language (place.text [s]) settled
      (fun piece member => (plain piece member).free) some_name
      (fun name member => (named name member).free) readable language
    exact ⟨blocks, ⟨named, rfl, fun _ => there⟩, cut⟩

theorem list_entry {path : Text} {names : List Text} (listing : memory.list path = .ok names) :
    ∃ key, (key, Node.directory names) ∈ memory.nodes := by
  obtain ⟨key, _, held⟩ := list_held listing
  exact ⟨key, Nodes.mem_of_get held⟩

def single : Memory :=
  ⟨['/'], .text ['/'], [(['/'], .directory [['a']]), (['/', 'a'], .file)], []⟩

theorem single_made : create .null .null [] [.text ['/', 'a']] [] = .ok single := rfl

theorem single_lines {directory : Text} {names : List Text}
    (listing : single.list directory = .ok names) : ∀ name ∈ names, '\n' ∉ name := by
  obtain ⟨key, held⟩ := list_entry listing
  obtain ⟨_, rfl⟩ : key = ['/'] ∧ names = [['a']] := by simpa [single] using held
  decide

end Memory

namespace Glob
variable {memory : Memory} {glob : Glob}

/-- Whatever is yielded can be read as a text of the pattern, if a globstar may run through any
text. The expression accepts it exactly if there is a reading whose globstars keep to one line,
and so it does in any case where there is no newline. -/
theorem yielded_accepted_iff {sep cwd source given pattern asked : Value}
    {directories files denied : List Value} {path : Text}
    (made : Memory.create sep cwd directories files denied = .ok memory)
    (compiled : Pattern.compile source given = .ok glob.pattern)
    (obtained : Pattern.obtain pattern asked = .ok glob.pattern)
    (same : memory.sep = [glob.pattern.sep]) (inhabited : glob.pattern.segments ≠ [])
    (yielded : path ∈ Walk.yields (glob.run memory.volume .plain).events) :
    Behind glob.pattern.sep (Language glob.pattern.sep (· ≠ []) glob.pattern.settled) path ∧
      ∃ accepted, Pattern.globMatch (.text path) pattern asked .null = .ok accepted ∧
        (accepted = true ↔
          Behind glob.pattern.sep (Closes glob.pattern.sep glob.pattern.settled) path) ∧
        (glob.pattern.sep ≠ '\n' → '\n' ∉ path → accepted = true) := by
  have sound := Memory.create_sound made same
  have settled := Pattern.settled_inhabited compiled inhabited
  obtain ⟨start, begun⟩ := begun_of_yielded yielded
  obtain ⟨place, resolved, rfl⟩ := Walk.start_resolved begun
  rw [mem_yields_iff sound (Pattern.segments_plain compiled) resolved begun] at yielded
  obtain ⟨blocks, below, cut⟩ := yielded
  rw [Pattern.compile_ok compiled] at cut
  have read : ∀ {crosses : Text → Prop}, (∀ block ∈ blocks, block ≠ [] →
      crosses (Text.glue [glob.pattern.sep] block)) →
      Behind glob.pattern.sep (Language glob.pattern.sep crosses glob.pattern.settled) path := by
    intro crosses cross
    obtain ⟨rest, seam, language⟩ := below.reading settled cut cross
    exact ⟨_, rest, seam.trans (List.append_cons _ _ _), Or.inr ⟨_, rfl⟩, language⟩
  obtain ⟨accepted, answer, meaning⟩ :=
    Pattern.accepts_iff settled (Pattern.compile_ok compiled) none path
  refine ⟨read ?_, accepted, (Pattern.globMatch_accepts obtained none path).trans answer,
    meaning, ?_⟩
  · intro block member filled
    refine Text.glue_ne_nil filled (fun name inner => ?_) _
    exact (below.plain name (List.mem_flatten.mpr ⟨block, member, inner⟩)).filled
  · intro separator line
    have lines : ∀ name ∈ blocks.flatten, '\n' ∉ name := by
      intro name member newline
      rw [below.leads, text_eq] at line
      exact line (List.mem_append_right _ (List.mem_cons_of_mem _
        (Text.mem_glue_of_mem (List.mem_append_right _ member) newline)))
    obtain ⟨front, rest, split, opening, reading⟩ :=
      read (crossed_blocks separator below.plain lines)
    exact meaning.mpr ⟨front, rest, split, opening, Or.inl reading⟩

theorem yielded_accepted_iff_line :
    Pattern.globMatch (.text ['/', 'a']) (.text ['*', '*']) .null .null = .ok true := by
  let glob : Glob := ⟨Pattern.ofText '/' ['*', '*'], ['/'], none⟩
  have compiled : Pattern.compile (.text ['*', '*']) .null = .ok glob.pattern := rfl
  have obtained : Pattern.obtain (.text ['*', '*']) .null = .ok glob.pattern := rfl
  have yielded : ['/', 'a'] ∈ Walk.yields (glob.run Memory.single.volume .plain).events := by
    decide +kernel
  obtain ⟨_, accepted, answer, _, always⟩ :=
    yielded_accepted_iff Memory.single_made compiled obtained rfl (by decide) yielded
  rw [answer, always (by decide) (by decide)]

/-- A name with a newline is found by a globstar, and no text that its expression accepts. -/
theorem newline_yielded_unaccepted :
    ∃ (memory : Memory) (glob : Glob),
      Memory.create .null .null [] [.text ['/', 'a', '\n', 'b']] [] = .ok memory ∧
      Pattern.compile (.text ['*', '*']) .null = .ok glob.pattern ∧
      glob.pattern.segments ≠ [] ∧
      ['/', 'a', '\n', 'b'] ∈ Walk.yields (glob.run memory.volume .plain).events ∧
      Pattern.globMatch (.text ['/', 'a', '\n', 'b']) (.text ['*', '*']) .null .null =
        .ok false := by
  refine ⟨⟨['/'], .text ['/'], [(['/'], .directory [['a', '\n', 'b']]),
    (['/', 'a', '\n', 'b'], .file)], []⟩, ⟨Pattern.ofText '/' ['*', '*'], ['/'], none⟩, rfl, rfl,
    by decide, by decide +kernel, rfl⟩

/-- The walk and the expression agree where nothing is denied and no name has a newline: a path
that is there is yielded exactly if it matches behind the start and is not the start itself. -/
theorem yielded_iff_accepted {sep cwd source given pattern asked : Value}
    {directories files denied : List Value} {start path : Text}
    (made : Memory.create sep cwd directories files denied = .ok memory)
    (compiled : Pattern.compile source given = .ok glob.pattern)
    (obtained : Pattern.obtain pattern asked = .ok glob.pattern)
    (same : memory.sep = [glob.pattern.sep]) (inhabited : glob.pattern.segments ≠ [])
    (begun : (glob.start memory.volume).2 = .ok start) (allowed : memory.denied = [])
    (separator : glob.pattern.sep ≠ '\n') (slash : glob.pattern.sep = '\\' → '/' ∉ start)
    (lines : ∀ directory names, memory.list directory = .ok names → ∀ name ∈ names, '\n' ∉ name)
    (there : memory.has path = .ok true) (normal : memory.key path = .ok path) :
    path ∈ Walk.yields (glob.run memory.volume .plain).events ↔
      Pattern.globMatch (.text path) pattern asked (.text start) = .ok true ∧ path ≠ start := by
  have sound := Memory.create_sound made same
  have settled := Pattern.settled_inhabited compiled inhabited
  have segments := Pattern.compile_ok compiled
  obtain ⟨place, resolved, rfl⟩ := Walk.start_resolved begun
  rw [Memory.key, same] at normal
  obtain ⟨target, goal, rfl⟩ := normalize_resolved sound.anchored normal
  have node := (sound.has_iff goal).mp there
  have named := sound.names_line allowed lines goal node
  obtain ⟨accepted, answer, meaning⟩ := Pattern.accepts_iff settled segments
    (some (place.text [glob.pattern.sep])) (target.text [glob.pattern.sep])
  have matched := (Pattern.globMatch_accepts obtained (some (place.text [glob.pattern.sep]))
    (target.text [glob.pattern.sep])).trans answer
  simp only [Option.elim] at matched
  rw [matched, Except.ok.injEq, meaning, Admits, bareBase_text resolved slash,
    mem_yields_iff sound (Pattern.segments_plain compiled) resolved begun, segments]
  constructor
  · intro h
    obtain ⟨blocks, below, cut⟩ := h
    have here := text_injective goal (resolved.down below.plain) below.leads
    have inside : ∀ name ∈ blocks.flatten, '\n' ∉ name := fun name member =>
      named name (here ▸ List.mem_append_right _ member)
    obtain ⟨rest, seam, language⟩ :=
      below.reading settled cut (crossed_blocks separator below.plain inside)
    refine ⟨⟨rest, language, Or.inl seam⟩, fun back => ?_⟩
    have top := congrArg Location.names (here.symm.trans (text_injective goal resolved back))
    exact cut.filled (by simpa using settled) (by simpa using top)
  · intro h
    obtain ⟨⟨rest, language, exactly | newline⟩, differ⟩ := h
    · rcases Memory.below_of_reading allowed settled glob.pattern.settled_plain resolved goal node
        exactly language with here | found
      · exact absurd (congrArg (Location.text [glob.pattern.sep]) here) differ
      · exact found
    · have line := text_line goal separator named
      rw [newline] at line
      exact absurd (List.mem_append_right _ (List.mem_singleton.mpr rfl)) line

theorem yielded_iff_accepted_file :
    ∃ glob : Glob, Pattern.compile (.text ['*']) .null = .ok glob.pattern ∧
      (glob.start Memory.single.volume).2 = .ok ['/'] ∧
      ['/', 'a'] ∈ Walk.yields (glob.run Memory.single.volume .plain).events := by
  let glob : Glob := ⟨Pattern.ofText '/' ['*'], ['/'], none⟩
  have compiled : Pattern.compile (.text ['*']) .null = .ok glob.pattern := rfl
  have obtained : Pattern.obtain (.text ['*']) .null = .ok glob.pattern := rfl
  have begun : (glob.start Memory.single.volume).2 = .ok ['/'] := rfl
  have agree : ['/', 'a'] ∈ Walk.yields (glob.run Memory.single.volume .plain).events ↔ _ :=
    yielded_iff_accepted Memory.single_made compiled obtained rfl (by decide) begun rfl (by decide)
      (by decide) (fun _ _ => Memory.single_lines) rfl rfl
  exact ⟨glob, compiled, begun, agree.mpr ⟨rfl, by decide⟩⟩

/-- The start itself is the exception: where it is a root, a lone star accepts it behind itself,
with nothing in the place of the star. -/
theorem root_accepted_unyielded :
    ∃ (memory : Memory) (glob : Glob),
      Memory.create .null .null [] [.text ['/', 'a']] [] = .ok memory ∧
      Pattern.compile (.text ['*']) .null = .ok glob.pattern ∧
      glob.pattern.segments ≠ [] ∧ memory.denied = [] ∧
      (glob.start memory.volume).2 = .ok ['/'] ∧
      (∀ directory names, memory.list directory = .ok names → ∀ name ∈ names, '\n' ∉ name) ∧
      memory.has ['/'] = .ok true ∧ memory.key ['/'] = .ok ['/'] ∧
      ¬ (['/'] ∈ Walk.yields (glob.run memory.volume .plain).events ↔
        Pattern.globMatch (.text ['/']) (.text ['*']) .null (.text ['/']) = .ok true) := by
  let glob : Glob := ⟨Pattern.ofText '/' ['*'], ['/'], none⟩
  have unyielded : ['/'] ∉ Walk.yields (glob.run Memory.single.volume .plain).events := by
    decide +kernel
  have accepted : Pattern.globMatch (.text ['/']) (.text ['*']) .null (.text ['/']) =
      .ok true := rfl
  refine ⟨Memory.single, glob, rfl, rfl, by decide, rfl, rfl, fun _ _ => Memory.single_lines, rfl,
    rfl, ?_⟩
  exact fun agree => unyielded (agree.mpr accepted)

end Glob

end PathGlob
