import PathGlob.Proofs.Agreement

namespace PathGlob
variable {s : Char}
open Location

namespace Walk
variable {volume : Volume} {sep : Char}

theorem Reaches.instead {first second : List Segment} (inhabited : second ≠ [])
    (other : ∀ path goal, Reaches volume sep path first goal →
      Reaches volume sep path second goal) {front : List Segment} {path goal : Text}
    (way : Reaches volume sep path (front ++ first) goal) :
    Reaches volume sep path (front ++ second) goal := by
  generalize whole : front ++ first = segments at way
  induction way generalizing front with
  | here =>
    obtain ⟨rfl, rfl⟩ := List.append_eq_nil_iff.mp whole
    exact other _ _ .here
  | probe there more ih =>
    cases front with
    | nil =>
      obtain rfl : first = _ := whole
      exact other _ _ (.probe there more)
    | cons segment front =>
      obtain ⟨rfl, rest⟩ := List.cons.inj whole
      exact .probe there (ih rest)
  | choose visible read fits more ih =>
    cases front with
    | nil =>
      obtain rfl : first = _ := whole
      exact other _ _ (.choose visible read fits more)
    | cons segment front =>
      obtain ⟨rfl, rest⟩ := List.cons.inj whole
      exact .choose visible read fits (ih rest)
  | settle visible usual =>
    cases front with
    | nil =>
      obtain rfl : first = _ := whole
      exact other _ _ (.settle visible usual)
    | cons segment front =>
      -- the globstar is no longer the last one, so it goes down first and is left behind then
      obtain ⟨rfl, none⟩ := List.cons.inj whole
      obtain ⟨rfl, rfl⟩ := List.append_eq_nil_iff.mp none
      exact .descend visible usual (.skip inhabited (other _ _ .here))
  | descend visible usual more ih =>
    cases front with
    | nil =>
      obtain rfl : first = _ := whole
      exact other _ _ (.descend visible usual more)
    | cons segment front =>
      obtain ⟨rfl, rfl⟩ := List.cons.inj whole
      exact .descend visible usual (@ih (.globstar :: front) rfl)
  | skip _ more ih =>
    cases front with
    | nil =>
      obtain rfl : first = _ := whole
      exact other _ _ (.skip ‹_› more)
    | cons segment front =>
      obtain ⟨rfl, rest⟩ := List.cons.inj whole
      exact .skip (List.append_ne_nil_of_right_ne_nil _ inhabited) (ih rest)

theorem reaches_twice {path goal : Text} {rest : List Segment} :
    Reaches volume sep path (.globstar :: .globstar :: rest) goal ↔
      Reaches volume sep path (.globstar :: rest) goal := by
  constructor
  · intro way
    generalize whole : Segment.globstar :: .globstar :: rest = segments at way
    induction way with
    | here => cases whole
    | probe => cases whole
    | choose => cases whole
    | settle => cases whole
    | descend visible usual _ ih =>
      obtain rfl := (List.cons.inj whole).2
      exact .descend visible usual (ih rfl)
    | skip _ more =>
      obtain rfl := (List.cons.inj whole).2
      exact more
  · exact .skip (List.cons_ne_nil _ _)

theorem reaches_absorbed {path goal : Text} {front back : List Segment} :
    Reaches volume sep path (front ++ .globstar :: .globstar :: back) goal ↔
      Reaches volume sep path (front ++ .globstar :: back) goal :=
  ⟨.instead (List.cons_ne_nil _ _) fun _ _ => reaches_twice.mp,
    .instead (List.cons_ne_nil _ _) fun _ _ => reaches_twice.mpr⟩

end Walk

section Language
variable {crosses : Text → Prop}

theorem language_cons {piece : Text} {rest : List Text} (inhabited : rest ≠ []) (text : Text) :
    Language s crosses (piece :: rest) text ↔
      if hasGlobstar piece then
        Language s crosses rest text ∨
          ∃ front more, text = front ++ s :: more ∧ crosses front ∧ Language s crosses rest more
      else ∃ front more, text = front ++ s :: more ∧ Fills s piece front ∧
        Language s crosses rest more := by
  cases rest with
  | nil => contradiction
  | cons next others => rfl

theorem language_front {first second : List Text} (inhabited : first ≠ [])
    (filled : second ≠ [])
    (same : ∀ text, Language s crosses first text ↔ Language s crosses second text)
    (front : List Text) (text : Text) :
    Language s crosses (front ++ first) text ↔ Language s crosses (front ++ second) text := by
  induction front generalizing text with
  | nil => exact same text
  | cons piece front ih =>
    rw [List.cons_append, List.cons_append,
      language_cons (List.append_ne_nil_of_right_ne_nil _ inhabited),
      language_cons (List.append_ne_nil_of_right_ne_nil _ filled)]
    simp only [ih]

theorem language_twice (joined : ∀ one two, crosses one → crosses two → crosses (one ++ s :: two))
    {first second : Text} (globstar : hasGlobstar first = true)
    (another : hasGlobstar second = true) (rest : List Text) (text : Text) :
    Language s crosses (first :: second :: rest) text ↔
      Language s crosses (second :: rest) text := by
  rw [language_cons (List.cons_ne_nil _ _), if_pos globstar]
  refine ⟨fun h => ?_, Or.inl⟩
  rcases h with whole | ⟨one, more, rfl, crossed, later⟩
  · exact whole
  · cases rest with
    | nil =>
      simp only [Language, another, ↓reduceIte] at later ⊢
      exact joined one more crossed later
    | cons next others =>
      rw [language_cons (List.cons_ne_nil _ _), if_pos another] at later ⊢
      rcases later with later | ⟨two, more, rfl, again, later⟩
      · exact Or.inr ⟨one, more, rfl, crossed, later⟩
      · exact Or.inr ⟨one ++ s :: two, more, by simp, joined one two crossed again, later⟩

theorem crossed_joined (newline : s ≠ '\n') {one two : Text} (first : Crossed one)
    (second : Crossed two) : Crossed (one ++ s :: two) := by
  refine ⟨by simp, fun member => ?_⟩
  rcases List.mem_append.mp member with here | later
  · exact first.2 here
  · rcases List.mem_cons.mp later with between | behind
    · exact newline between.symm
    · exact second.2 behind

theorem admits_congr {pieces others : List Text}
    (same : ∀ text, Language s Crossed pieces text ↔ Language s Crossed others text)
    (base : Option Text) (name : Text) :
    Admits s pieces base name ↔ Admits s others base name := by
  cases base <;> simp only [Admits, Behind, Closes, same]

end Language

namespace Pattern

theorem exists_globstar_piece {pieces : List Text} {front back : List Segment}
    (made : pieces.map (Segment.ofPiece s) = front ++ .globstar :: back) :
    ∃ before piece after, pieces = before ++ piece :: after ∧ hasGlobstar piece = true ∧
      before.map (Segment.ofPiece s) = front ∧ after.map (Segment.ofPiece s) = back := by
  obtain ⟨before, rest, rfl, first, later⟩ := List.map_eq_append_iff.mp made
  obtain ⟨piece, after, rfl, globstar, last⟩ := List.map_eq_cons_iff.mp later
  exact ⟨before, piece, after, rfl, (Segment.ofPiece_globstar_iff s piece).mp globstar, first, last⟩

theorem accepts_congr {p q : Pattern} {pieces others : List Text} (sep : p.sep = q.sep)
    (inhabited : pieces ≠ []) (filled : others ≠ [])
    (first : p.segments = pieces.map (Segment.ofPiece p.sep))
    (second : q.segments = others.map (Segment.ofPiece q.sep))
    (same : ∀ text, Language p.sep Crossed pieces text ↔ Language p.sep Crossed others text)
    (base : Option Text) (name : Text) : p.accepts base name = q.accepts base name := by
  obtain ⟨accepted, answer, meaning⟩ := accepts_iff inhabited first base name
  obtain ⟨again, other, agreed⟩ := accepts_iff filled second base name
  rw [← sep, ← admits_congr same, ← meaning] at agreed
  rw [answer, other, Bool.eq_iff_iff.mpr agreed]

theorem globMatch_congr {p q : Pattern} (sep : p.sep = q.sep)
    (same : ∀ base name, p.accepts base name = q.accepts base name) (name asked base : Value) :
    globMatch name (.pattern p) asked base = globMatch name (.pattern q) asked base := by
  have accepted : p.accepts = q.accepts := by
    funext base name
    exact same base name
  simp only [globMatch, obtain, sep]
  split
  · rfl
  · simp [bind, Except.bind, accepted]

theorem globMatch_absorbed (newline : s ≠ '\n') {pieces : List Text} {front back : List Segment}
    (made : pieces.map (Segment.ofPiece s) = front ++ .globstar :: back) (source other : Text)
    (name asked base : Value) :
    globMatch name (.pattern ⟨other, front ++ .globstar :: .globstar :: back, s⟩) asked base =
      globMatch name (.pattern ⟨source, front ++ .globstar :: back, s⟩) asked base := by
  obtain ⟨before, piece, after, rfl, globstar, rfl, rfl⟩ := exists_globstar_piece made
  have first := (Segment.ofPiece_globstar_iff s piece).mpr globstar
  have twice : ∀ text, Language s Crossed (piece :: piece :: after) text ↔
      Language s Crossed (piece :: after) text :=
    language_twice (fun _ _ => crossed_joined newline) globstar globstar after
  have language := language_front (List.cons_ne_nil _ _) (List.cons_ne_nil _ _) twice before
  have doubled : before.map (Segment.ofPiece s) ++ .globstar :: .globstar ::
      after.map (Segment.ofPiece s) =
        (before ++ piece :: piece :: after).map (Segment.ofPiece s) := by simp [first]
  apply globMatch_congr
  · rfl
  · exact accepts_congr rfl (by simp) (by simp) doubled made.symm language

end Pattern

namespace Glob

theorem run_absorbed {memory : Memory} (sound : memory.Sound s) {front back : List Segment}
    (plain : ∀ segment ∈ front ++ .globstar :: back, segment.Plain s) (source other root : Text)
    (here : Option Directory) :
    let single : Glob := ⟨⟨source, front ++ .globstar :: back, s⟩, root, here⟩
    let double : Glob := ⟨⟨other, front ++ .globstar :: .globstar :: back, s⟩, root, here⟩
    (double.run memory.volume .plain).outcome = (single.run memory.volume .plain).outcome ∧
      ∀ path, path ∈ Walk.yields (double.run memory.volume .plain).events ↔
        path ∈ Walk.yields (single.run memory.volume .plain).events := by
  intro single double
  have also : ∀ segment ∈ double.pattern.segments, segment.Plain s := by
    intro segment member
    refine plain segment ?_
    simpa [double] using member
  cases begun : (Walk.start memory.volume s root here).2 with
  | error fault =>
    have first : (single.start memory.volume).2 = .error fault := begun
    have second : (double.start memory.volume).2 = .error fault := begun
    rw [run_unbegun first, run_unbegun second]
    exact ⟨rfl, fun _ => Iff.rfl⟩
  | ok start =>
    obtain ⟨place, resolved, rfl⟩ := Walk.start_resolved begun
    have first : (single.start memory.volume).2 = .ok (place.text [s]) := begun
    have second : (double.start memory.volume).2 = .ok (place.text [s]) := begun
    refine ⟨?_, fun path => ?_⟩
    · rw [run_ended sound plain resolved first, run_ended sound also resolved second]
    · rw [mem_yields_reaches sound plain resolved first,
        mem_yields_reaches sound also resolved second]
      exact Walk.reaches_absorbed

/-- Beside a globstar another one makes no difference, neither to the paths that a walk finds nor
to the names that are matched, whatever they are matched with. -/
theorem globstar_absorbed {front back : List Segment} {pieces : List Text} (newline : s ≠ '\n')
    (named : ∀ piece ∈ pieces, IsName s piece)
    (made : pieces.map (Segment.ofPiece s) = front ++ .globstar :: back) (source other : Text) :
    let single : Pattern := ⟨source, front ++ .globstar :: back, s⟩
    let double : Pattern := ⟨other, front ++ .globstar :: .globstar :: back, s⟩
    (∀ sep cwd directories files denied memory,
      Memory.create sep cwd directories files denied = .ok memory → memory.sep = [s] →
      ∀ root here,
        ((Glob.mk double root here).run memory.volume .plain).outcome =
            ((Glob.mk single root here).run memory.volume .plain).outcome ∧
          ∀ path, path ∈ Walk.yields ((Glob.mk double root here).run memory.volume .plain).events ↔
            path ∈ Walk.yields ((Glob.mk single root here).run memory.volume .plain).events) ∧
    ∀ name asked base, Pattern.globMatch name (.pattern double) asked base =
      Pattern.globMatch name (.pattern single) asked base := by
  intro single double
  constructor
  · intro sep cwd directories files denied memory created same root here
    have plain : ∀ segment ∈ front ++ .globstar :: back, segment.Plain s := by
      intro segment member
      rw [← made] at member
      obtain ⟨piece, inside, rfl⟩ := List.mem_map.mp member
      exact Segment.ofPiece_plain (named piece inside)
    exact run_absorbed (Memory.create_sound created same) plain source other root here
  · exact Pattern.globMatch_absorbed newline made source other

theorem globstar_absorbed_denied :
    ∃ memory, Memory.create .null .null [] [.text ['/', 'a', '/', 'b']] [.text ['/', 'a']] =
        .ok memory ∧
      (∀ path,
        path ∈ Walk.yields ((Glob.mk ⟨[], [.globstar, .globstar, .literal ['b']], '/'⟩ ['/']
          none).run memory.volume .plain).events ↔
        path ∈ Walk.yields ((Glob.mk ⟨[], [.globstar, .literal ['b']], '/'⟩ ['/']
          none).run memory.volume .plain).events) ∧
      Pattern.globMatch (.text ['x', '/', 'b'])
        (.pattern ⟨[], [.globstar, .globstar, .literal ['b']], '/'⟩) .null .null = .ok true := by
  have named : ∀ piece ∈ [['*', '*', 'x'], ['b']], IsName '/' piece := by
    intro piece member
    rcases List.mem_pair.mp member with rfl | rfl
    · decide
    · decide
  have made : [['*', '*', 'x'], ['b']].map (Segment.ofPiece '/') =
      [] ++ .globstar :: [.literal ['b']] := rfl
  obtain ⟨walked, matched⟩ := globstar_absorbed (by decide) named made [] []
  have created : ∃ memory, Memory.create .null .null [] [.text ['/', 'a', '/', 'b']]
      [.text ['/', 'a']] = .ok memory ∧ memory.sep = ['/'] := ⟨_, rfl, rfl⟩
  obtain ⟨memory, created, same⟩ := created
  exact ⟨memory, created, (walked _ _ _ _ _ memory created same ['/'] none).2,
    (matched (.text ['x', '/', 'b']) .null .null).trans rfl⟩

end Glob

end PathGlob
