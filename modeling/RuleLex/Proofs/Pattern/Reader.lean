/-
The reader of byte patterns follows the grammar.

`parse_ok_iff_derives` says that a pattern is accepted exactly when the grammar
derives it, with the elements of the derivation, and that no turn of the reader
stands inside more alternations than the limit allows.

The reader is a loop over a stack, so neither direction is an induction on the
code alone.  What a turn does is said once, by `Moves`.  From an accepting run a
derivation is put together backwards: `Completes` says what the open alternations
still ask of the text, and every move keeps it.  In the other direction a
derivation drives the reader from its first byte to its last, whatever stands
on the stack below.
-/
import Mathlib.Logic.Relation
import RuleLex.Proofs.Pattern.Grammar

namespace RuleLex
namespace Pattern

theorem gathered_cons (l : Located) (sequence : List Located) :
    gathered (l :: sequence) = gathered sequence ++ [l.element] := by
  simp [gathered]

theorem gathered_ne_nil {sequence : List Located} (h : sequence ≠ []) :
    gathered sequence ≠ [] := by
  simpa [gathered] using h

namespace Reading

/-! ## One turn -/

/-- What a turn does when it goes on.  An element it takes whole has no
alternation in it. -/
inductive Moves : Reading → Reading → Prop
  | bar {frame : Frame} {outer : List Frame} {started s t : List UInt8} {sequence : List Located}
    (skips : Trivia s (Ascii.bar :: t)) (nonempty : sequence ≠ []) :
    Moves { stack := frame :: outer, started := started, sequence := sequence, rest := s }
      { stack := { frame with closed := gathered sequence :: frame.closed } :: outer,
        started := t, sequence := [], rest := t }
  | close {frame : Frame} {outer : List Frame} {started s t : List UInt8}
    {sequence : List Located} (skips : Trivia s (Ascii.closeParen :: t))
    (nonempty : sequence ≠ []) :
    Moves { stack := frame :: outer, started := started, sequence := sequence, rest := s }
      { stack := outer, started := frame.started,
        sequence :=
          { place := frame.opening,
            element := .alternation (gathered sequence :: frame.closed).reverse } ::
          frame.before,
        rest := t }
  | enter {stack : List Frame} {started s t : List UInt8} {sequence : List Located}
    (skips : Trivia s (Ascii.openParen :: t)) (fits : stack.length < limits.maxNestingDepth) :
    Moves { stack := stack, started := started, sequence := sequence, rest := s }
      { stack :=
          { opening := Ascii.openParen :: t, before := sequence, closed := [],
            started := started } :: stack,
        started := t, sequence := [], rest := t }
  | element {stack : List Frame} {started s t u : List UInt8} {sequence : List Located}
    {e : Element} (skips : Trivia s t) (first : ElementText t e u) (flat : e.nesting = 0) :
    Moves { stack := stack, started := started, sequence := sequence, rest := s }
      { stack := stack, started := started,
        sequence := { place := t, element := e } :: sequence, rest := u }

theorem moves_of_turnClose {r r' : Reading} {b : UInt8} {t : List UInt8}
    (skips : Trivia r.rest (b :: t)) (hb : b = Ascii.bar ∨ b = Ascii.closeParen)
    (h : r.turnClose b t = .goOn r') : Moves r r' := by
  obtain ⟨stack, started, sequence, s⟩ := r
  unfold turnClose at h
  split at h
  · cases h
  · rename_i frame outer hstack
    cases hstack
    split at h
    · cases h
    · rename_i nonempty
      simp only at h
      split at h
      · rename_i hbar
        subst hbar
        cases h
        exact .bar skips nonempty
      · rename_i hbar
        obtain rfl := hb.resolve_left hbar
        cases h
        exact .close skips nonempty

theorem moves_of_turnOpen {r r' : Reading} {t : List UInt8}
    (skips : Trivia r.rest (Ascii.openParen :: t)) (h : r.turnOpen Ascii.openParen t = .goOn r') :
    Moves r r' := by
  unfold turnOpen at h
  split at h
  · cases h
  · rename_i fits
    cases h
    exact .enter skips (Nat.lt_of_not_le fits)

theorem moves_of_turnJump {r r' : Reading} {t : List UInt8}
    (skips : Trivia r.rest (Ascii.openBracket :: t))
    (h : r.turnJump Ascii.openBracket t = .goOn r') : Moves r r' := by
  unfold turnJump at h
  split at h
  · cases h
  · cases h
  · rename_i jump after hjump
    cases h
    obtain ⟨text, htext, hjumpText⟩ := jumpText_of_readJump hjump
    exact .element skips (htext ▸ .jump hjumpText) hjumpText.nesting_eq

theorem moves_of_turnByte {r r' : Reading} {b : UInt8} {t : List UInt8}
    (skips : Trivia r.rest (b :: t)) (h : r.turnByte b t = .goOn r') : Moves r r' := by
  unfold turnByte at h
  split at h
  · cases h
  · rename_i high hhigh
    split at h
    · cases h
    · rename_i c after
      split at h
      · cases h
      · rename_i low hlow
        cases h
        exact .element skips
          (.byte (nibbleText_of_ofByte hhigh) (nibbleText_of_ofByte hlow)) rfl

theorem moves_of_turn {r r' : Reading} (h : r.turn = .goOn r') : Moves r r' := by
  unfold turn at h
  split at h
  · cases h
  · exact absurd h (turnEnd_ne_goOn r r')
  · rename_i b t hskip
    have skips := trivia_of_skipTrivia hskip
    split at h
    · rename_i hb
      exact moves_of_turnClose skips hb h
    · split at h
      · rename_i hb
        subst hb
        exact moves_of_turnOpen skips h
      · split at h
        · rename_i hb
          subst hb
          exact moves_of_turnJump skips h
        · exact moves_of_turnByte skips h

/-! ### Turns at known text -/

theorem turn_congr {s t : List UInt8} (h : Trivia s t) (stack : List Frame)
    (started : List UInt8) (sequence : List Located) :
    turn { stack := stack, started := started, sequence := sequence, rest := s } =
      turn { stack := stack, started := started, sequence := sequence, rest := t } := by
  unfold turn
  simp only [skipTrivia_congr h]
  rfl

theorem turn_cons {b : UInt8} (hblank : Ascii.isBlank b = false) (hslash : b ≠ Ascii.slash)
    (stack : List Frame) (started s : List UInt8) (sequence : List Located) :
    turn { stack := stack, started := started, sequence := sequence, rest := b :: s } =
      (let r : Reading :=
        { stack := stack, started := started, sequence := sequence, rest := b :: s }
      if b = Ascii.bar ∨ b = Ascii.closeParen then r.turnClose b s
      else if b = Ascii.openParen then r.turnOpen b s
      else if b = Ascii.openBracket then r.turnJump b s
      else r.turnByte b s) := by
  rw [turn]
  simp only [skipTrivia_cons hblank hslash]

/-- A nibble is no delimiter and begins no white space or comment. -/
theorem isBlank_of_ofByte {b : UInt8} {n : Nibble} (h : Nibble.ofByte? b = some n) :
    Ascii.isBlank b = false ∧ b ≠ Ascii.slash ∧ ¬ (b = Ascii.bar ∨ b = Ascii.closeParen) ∧
      b ≠ Ascii.openParen ∧ b ≠ Ascii.openBracket := by
  have refused (c : UInt8) (hc : Nibble.ofByte? c = none) : b ≠ c := by
    intro e
    rw [e, hc] at h
    cases h
  refine ⟨?_, refused _ rfl, ?_, refused _ rfl, refused _ rfl⟩
  · cases hblank : Ascii.isBlank b with
    | false => rfl
    | true =>
      simp only [Ascii.isBlank, Bool.or_eq_true, beq_iff_eq] at hblank
      rcases hblank with ((hb | hb) | hb) | hb
      · exact absurd hb (refused _ rfl)
      · exact absurd hb (refused _ rfl)
      · exact absurd hb (refused _ rfl)
      · exact absurd hb (refused _ rfl)
  · intro hb
    rcases hb with hb | hb
    · exact refused _ rfl hb
    · exact refused _ rfl hb

theorem turn_of_moves {r r' : Reading} (h : Moves r r') : r.turn = .goOn r' := by
  cases h with
  | bar skips nonempty =>
    rw [turn_congr skips, turn_cons (by decide) (by decide), if_pos (.inl rfl), turnClose]
    simp only [if_neg nonempty, if_true]
  | close skips nonempty =>
    rw [turn_congr skips, turn_cons (by decide) (by decide), if_pos (.inr rfl), turnClose]
    simp only
    rw [if_neg nonempty, if_neg (by decide)]
  | enter skips fits =>
    rw [turn_congr skips, turn_cons (by decide) (by decide), if_neg (by decide), if_pos rfl,
      turnOpen, if_neg (Nat.not_le.2 fits)]
  | element skips first flat =>
    rw [turn_congr skips]
    cases first with
    | byte hhigh hlow =>
      have high := ofByte_of_nibbleText hhigh
      obtain ⟨hblank, hslash, hclose, hopen, hjump⟩ := isBlank_of_ofByte high
      rw [turn_cons hblank hslash, if_neg hclose, if_neg hopen, if_neg hjump, turnByte]
      simp only [high, ofByte_of_nibbleText hlow]
      rfl
    | jump hjump =>
      obtain ⟨inner, rfl, hread⟩ := readJump_of_jumpText hjump
      rw [List.cons_append, turn_cons (by decide) (by decide), if_neg (by decide),
        if_neg (by decide), if_pos rfl, turnJump]
      simp only [hread]
      rfl
    | alternation _ => exact absurd flat (Nat.succ_ne_zero _)

theorem turnClose_ne_ok (r : Reading) (b : UInt8) (t : List UInt8) (result : List Located) :
    r.turnClose b t ≠ .stop (.ok result) := by
  intro h
  unfold turnClose at h
  split at h
  · cases h
  · split at h
    · cases h
    · simp only at h
      split at h <;> cases h

theorem turnOpen_ne_ok (r : Reading) (b : UInt8) (t : List UInt8) (result : List Located) :
    r.turnOpen b t ≠ .stop (.ok result) := by
  intro h
  unfold turnOpen at h
  split at h <;> cases h

theorem turnJump_ne_ok (r : Reading) (b : UInt8) (t : List UInt8) (result : List Located) :
    r.turnJump b t ≠ .stop (.ok result) := by
  intro h
  unfold turnJump at h
  split at h <;> cases h

theorem turnByte_ne_ok (r : Reading) (b : UInt8) (t : List UInt8) (result : List Located) :
    r.turnByte b t ≠ .stop (.ok result) := by
  intro h
  unfold turnByte at h
  split at h
  · cases h
  · split at h
    · cases h
    · split at h <;> cases h

/-- The reader accepts at the end of the text, outside all alternations. -/
theorem turn_eq_stop_ok_iff {r : Reading} {result : List Located} :
    r.turn = .stop (.ok result) ↔
      Trivia r.rest [] ∧ r.stack = [] ∧ result = r.sequence.reverse := by
  obtain ⟨stack, started, sequence, s⟩ := r
  constructor
  · intro h
    unfold turn at h
    split at h
    · cases h
    · rename_i hskip
      unfold turnEnd at h
      split at h
      · rename_i hstack
        cases h
        exact ⟨trivia_of_skipTrivia hskip, hstack, rfl⟩
      · cases h
    · split at h
      · exact absurd h (turnClose_ne_ok _ _ _ _)
      · split at h
        · exact absurd h (turnOpen_ne_ok _ _ _ _)
        · split at h
          · exact absurd h (turnJump_ne_ok _ _ _ _)
          · exact absurd h (turnByte_ne_ok _ _ _ _)
  · intro h
    obtain ⟨skips, hstack, rfl⟩ := h
    rw [turn_congr skips, turn]
    simp only [skipTrivia_nil, turnEnd]
    rw [show stack = [] from hstack]

/-! ## Runs -/

/-- A run of the reader is a chain of moves to the turn that gives its outcome. -/
theorem exists_last_turn (r : Reading) :
    ∃ r', Relation.ReflTransGen Moves r r' ∧ r'.turn = .stop (readSequence r) := by
  fun_induction readSequence r with
  | case1 r next hturn ih =>
    obtain ⟨r', hmoves, hstop⟩ := ih
    exact ⟨r', .head (moves_of_turn hturn) hmoves, hstop⟩
  | case2 r outcome hturn => exact ⟨r, .refl, hturn⟩

theorem readSequence_of_moves {r r' : Reading} (h : Moves r r') :
    readSequence r = readSequence r' := by
  rw [readSequence.eq_def]
  split
  · rename_i next hturn
    rw [turn_of_moves h] at hturn
    cases hturn
    rfl
  · rename_i outcome hturn
    rw [turn_of_moves h] at hturn
    cases hturn

theorem readSequence_congr {s t : List UInt8} (h : Trivia s t) (stack : List Frame)
    (started : List UInt8) (sequence : List Located) :
    readSequence { stack := stack, started := started, sequence := sequence, rest := s } =
      readSequence { stack := stack, started := started, sequence := sequence, rest := t } := by
  rw [readSequence.eq_def, turn_congr h, readSequence.eq_def]

theorem readSequence_of_stop {r : Reading} {outcome : Except (Flaw (List UInt8)) (List Located)}
    (h : r.turn = .stop outcome) : readSequence r = outcome := by
  rw [readSequence.eq_def]
  split
  · rename_i next hturn
    rw [h] at hturn
    cases hturn
  · rename_i outcome' hturn
    rw [h] at hturn
    cases hturn
    rfl

/-! ## Depth -/

/-- What the open alternations hold nests no deeper than the limit. -/
def StackFits : List Frame → Prop
  | [] => True
  | frame :: outer =>
    outer.length + 1 + alternativesNesting frame.closed ≤ limits.maxNestingDepth ∧
      outer.length + nesting (gathered frame.before) ≤ limits.maxNestingDepth ∧ StackFits outer

/-- What has been read nests no deeper than the limit. -/
structure Fits (r : Reading) : Prop where
  depth : r.stack.length ≤ limits.maxNestingDepth
  stack : StackFits r.stack
  sequence : r.stack.length + nesting (gathered r.sequence) ≤ limits.maxNestingDepth

theorem fits_start (text : List UInt8) : Fits (start text) := by
  constructor
  · exact Nat.zero_le _
  · exact trivial
  · exact Nat.zero_le _

theorem fits_of_moves {r r' : Reading} (hfits : Fits r) (h : Moves r r') : Fits r' := by
  cases h with
  | @bar frame outer started s t sequence skips nonempty =>
    obtain ⟨hdepth, ⟨hclosed, hbefore, houter⟩, hsequence⟩ := hfits
    simp only [List.length_cons] at hdepth hsequence
    constructor
    · exact hdepth
    · refine ⟨?_, hbefore, houter⟩
      rw [alternativesNesting]
      omega
    · exact hdepth
  | @close frame outer started s t sequence skips nonempty =>
    obtain ⟨hdepth, ⟨hclosed, hbefore, houter⟩, hsequence⟩ := hfits
    simp only [List.length_cons] at hdepth hsequence
    constructor
    · exact Nat.le_of_succ_le hdepth
    · exact houter
    · simp only [gathered_cons, nesting_append, nesting, Element.nesting,
        alternativesNesting_reverse, alternativesNesting]
      omega
  | @enter stack started s t sequence skips fits =>
    obtain ⟨hdepth, hstack, hsequence⟩ := hfits
    constructor
    · exact fits
    · exact ⟨fits, hsequence, hstack⟩
    · exact fits
  | @element stack started s t u sequence e skips first flat =>
    obtain ⟨hdepth, hstack, hsequence⟩ := hfits
    refine ⟨hdepth, hstack, ?_⟩
    simp only [gathered_cons, nesting_append, nesting, flat] at hsequence ⊢
    omega

theorem fits_of_reachable {r r' : Reading} (hfits : Fits r)
    (h : Relation.ReflTransGen Moves r r') : Fits r' := by
  induction h with
  | refl => exact hfits
  | tail _ hmove ih => exact fits_of_moves ih hmove

/-! ## From a run to a derivation -/

/-- The alternatives of an alternation from within the first of them, of which
the elements `acc` have been read. -/
def Continues (acc : List Element) (s : List UInt8) (alternatives : List (List Element))
    (r : List UInt8) : Prop :=
  ∃ es, acc ++ es ≠ [] ∧
    ((Sequence s es (Ascii.closeParen :: r) ∧ alternatives = [acc ++ es]) ∨
      ∃ t rest, Sequence s es (Ascii.bar :: t) ∧ Alternatives t rest r ∧
        alternatives = (acc ++ es) :: rest)

/-- What the open alternations ask of the text behind the elements `acc`, for
the whole to have the elements `result`. -/
def Completes : List Frame → List Element → List UInt8 → List Element → Prop
  | [], acc, s, result => ∃ es, Sequence s es [] ∧ result = acc ++ es
  | frame :: outer, acc, s, result =>
    ∃ alternatives r, Continues acc s alternatives r ∧
      Completes outer
        (gathered frame.before ++ [.alternation (frame.closed.reverse ++ alternatives)]) r result

theorem alternatives_of_continues {s r : List UInt8} {alternatives : List (List Element)}
    (h : Continues [] s alternatives r) : Alternatives s alternatives r := by
  obtain ⟨es, nonempty, h⟩ := h
  rcases h with ⟨hes, rfl⟩ | ⟨t, rest, hes, hrest, rfl⟩
  · exact .last hes nonempty
  · exact .more hes nonempty hrest

theorem continues_cons {acc : List Element} {s t u r : List UInt8} {e : Element}
    {alternatives : List (List Element)} (skips : Trivia s t) (first : ElementText t e u)
    (h : Continues (acc ++ [e]) u alternatives r) : Continues acc s alternatives r := by
  obtain ⟨es, nonempty, h⟩ := h
  rw [List.append_assoc, List.singleton_append] at nonempty h
  rcases h with ⟨hes, halt⟩ | ⟨t', rest, hes, hrest, halt⟩
  · exact ⟨e :: es, nonempty, .inl ⟨.cons skips first hes, halt⟩⟩
  · exact ⟨e :: es, nonempty, .inr ⟨t', rest, .cons skips first hes, hrest, halt⟩⟩

theorem completes_cons {stack : List Frame} {acc result : List Element} {s t u : List UInt8}
    {e : Element} (skips : Trivia s t) (first : ElementText t e u)
    (h : Completes stack (acc ++ [e]) u result) : Completes stack acc s result := by
  cases stack with
  | nil =>
    obtain ⟨es, hes, hresult⟩ := h
    exact ⟨e :: es, .cons skips first hes, by rw [hresult]; simp⟩
  | cons frame outer =>
    obtain ⟨alternatives, r, hcontinues, houter⟩ := h
    exact ⟨alternatives, r, continues_cons skips first hcontinues, houter⟩

theorem completes_of_moves {r r' : Reading} {result : List Element} (hmoves : Moves r r')
    (h : Completes r'.stack (gathered r'.sequence) r'.rest result) :
    Completes r.stack (gathered r.sequence) r.rest result := by
  cases hmoves with
  | @bar frame outer started s t sequence skips nonempty =>
    obtain ⟨alternatives, r, hcontinues, houter⟩ := h
    refine ⟨gathered sequence :: alternatives, r, ?_, ?_⟩
    · refine ⟨[], by simpa using gathered_ne_nil nonempty, .inr ⟨t, alternatives, .nil skips,
        alternatives_of_continues hcontinues, by simp⟩⟩
    · simpa using houter
  | @close frame outer started s t sequence skips nonempty =>
    refine ⟨[gathered sequence], t, ?_, ?_⟩
    · exact ⟨[], by simpa using gathered_ne_nil nonempty, .inl ⟨.nil skips, by simp⟩⟩
    · rw [gathered_cons, List.reverse_cons] at h
      exact h
  | @enter stack started s t sequence skips fits =>
    obtain ⟨alternatives, r, hcontinues, houter⟩ := h
    rw [List.reverse_nil, List.nil_append] at houter
    exact completes_cons skips (.alternation (alternatives_of_continues hcontinues)) houter
  | @element stack started s t u sequence e skips first flat =>
    rw [gathered_cons] at h
    exact completes_cons skips first h

theorem completes_of_reachable {r r' : Reading} {result : List Element}
    (hmoves : Relation.ReflTransGen Moves r r')
    (h : Completes r'.stack (gathered r'.sequence) r'.rest result) :
    Completes r.stack (gathered r.sequence) r.rest result := by
  induction hmoves using Relation.ReflTransGen.head_induction_on with
  | refl => exact h
  | head hmove _ ih => exact completes_of_moves hmove ih

theorem sequence_of_readSequence {text : List UInt8} {located : List Located}
    (h : readSequence (start text) = .ok located) :
    Sequence text (located.map Located.element) [] ∧
      nesting (located.map Located.element) ≤ limits.maxNestingDepth := by
  obtain ⟨r, hmoves, hstop⟩ := exists_last_turn (start text)
  rw [h, turn_eq_stop_ok_iff] at hstop
  obtain ⟨skips, hstack, rfl⟩ := hstop
  have elements : gathered r.sequence = r.sequence.reverse.map Located.element := by
    rw [gathered, List.map_reverse]
  constructor
  · have last : Completes r.stack (gathered r.sequence) r.rest (gathered r.sequence) := by
      rw [hstack]
      exact ⟨[], .nil skips, by simp⟩
    obtain ⟨es, hes, hresult⟩ := completes_of_reachable hmoves last
    rw [← elements, hresult]
    exact hes
  · have fits := fits_of_reachable (fits_start text) hmoves
    rw [← elements]
    have := fits.sequence
    omega

/-! ## From a derivation to a run -/

mutual

/-- A derived sequence takes the reader over its text, with its elements on top
of those before. -/
theorem readSequence_of_sequence {s r : List UInt8} {es : List Element} (h : Sequence s es r)
    (stack : List Frame) (started : List UInt8)
    (fits : stack.length + nesting es ≤ limits.maxNestingDepth) :
    ∃ located : List Located, located.map Located.element = es ∧ ∀ before,
      readSequence { stack := stack, started := started, sequence := before, rest := s } =
        readSequence
          { stack := stack, started := started, sequence := located.reverse ++ before,
            rest := r } :=
  match h with
  | .nil skips => ⟨[], rfl, readSequence_congr skips stack started⟩
  | @Sequence.cons s t u r e es skips first rest => by
    rw [nesting] at fits
    obtain ⟨located, hlocated, hrest⟩ :=
      readSequence_of_sequence rest stack started (by omega)
    refine ⟨{ place := t, element := e } :: located, by rw [List.map_cons, hlocated], ?_⟩
    intro before
    rw [readSequence_congr skips, readSequence_of_element first stack started (by omega), hrest]
    simp

theorem readSequence_of_element {t u : List UInt8} {e : Element} (h : ElementText t e u)
    (stack : List Frame) (started : List UInt8)
    (fits : stack.length + e.nesting ≤ limits.maxNestingDepth) (before : List Located) :
    readSequence { stack := stack, started := started, sequence := before, rest := t } =
      readSequence
        { stack := stack, started := started,
          sequence := { place := t, element := e } :: before, rest := u } :=
  match h with
  | .byte hhigh hlow => readSequence_of_moves (.element .done (.byte hhigh hlow) rfl)
  | .jump hjump => readSequence_of_moves (.element .done (.jump hjump) hjump.nesting_eq)
  | .alternation halternatives => by
    rw [Element.nesting] at fits
    rw [readSequence_of_moves (.enter .done (by omega)),
      readSequence_of_alternatives halternatives _ _ _ (by omega)]
    rfl

theorem readSequence_of_alternatives {s r : List UInt8} {alternatives : List (List Element)}
    (h : Alternatives s alternatives r) (frame : Frame) (outer : List Frame)
    (started : List UInt8)
    (fits : outer.length + 1 + alternativesNesting alternatives ≤ limits.maxNestingDepth) :
    readSequence { stack := frame :: outer, started := started, sequence := [], rest := s } =
      readSequence
        { stack := outer, started := frame.started,
          sequence :=
            { place := frame.opening,
              element := .alternation (frame.closed.reverse ++ alternatives) } :: frame.before,
          rest := r } :=
  match h with
  | @Alternatives.last s r es first nonempty => by
    rw [alternativesNesting] at fits
    obtain ⟨located, rfl, hread⟩ :=
      readSequence_of_sequence first (frame :: outer) started
        (by rw [List.length_cons]; omega)
    rw [hread, List.append_nil, readSequence_of_moves (.close .done (by simpa using nonempty))]
    simp [gathered]
  | @Alternatives.more s t r es alternatives first nonempty rest => by
    rw [alternativesNesting] at fits
    obtain ⟨located, rfl, hread⟩ :=
      readSequence_of_sequence first (frame :: outer) started
        (by rw [List.length_cons]; omega)
    rw [hread, List.append_nil, readSequence_of_moves (.bar .done (by simpa using nonempty)),
      readSequence_of_alternatives rest _ _ _ (by omega)]
    simp [gathered]

end

theorem readSequence_start_of_sequence {text : List UInt8} {es : List Element}
    (h : Sequence text es []) (fits : nesting es ≤ limits.maxNestingDepth) :
    ∃ located : List Located, readSequence (start text) = .ok located ∧
      located.map Located.element = es := by
  obtain ⟨located, helements, hread⟩ :=
    readSequence_of_sequence h [] text (by rw [List.length_nil]; omega)
  refine ⟨located, ?_, helements⟩
  rw [start, hread, List.append_nil]
  apply readSequence_of_stop
  rw [turn_eq_stop_ok_iff]
  exact ⟨.done, rfl, by simp⟩

end Reading

/-! ## Whole patterns -/

/-- The text between one pair of braces around it, or the whole text where there
is no such pair. -/
def IsBody (text inner : List UInt8) : Prop :=
  text = Ascii.openBrace :: (inner ++ [Ascii.closeBrace]) ∨
    (inner = text ∧ ∀ t, text ≠ Ascii.openBrace :: (t ++ [Ascii.closeBrace]))

/-- The elements of a text that the grammar derives, that neither starts nor
ends with a jump, holds something and nests within the limit. -/
structure Derives (text : List UInt8) (es : List Element) : Prop where
  derivation : Sequence text es []
  nonempty : es ≠ []
  first : ∀ e, es.head? = some e → e.isJump = false
  last : ∀ e, es.getLast? = some e → e.isJump = false
  shallow : nesting es ≤ limits.maxNestingDepth

theorem body_append (inner : List UInt8) :
    body (Ascii.openBrace :: (inner ++ [Ascii.closeBrace])) = inner := by
  simp [body]

theorem body_of_ne {text : List UInt8}
    (h : ∀ t, text ≠ Ascii.openBrace :: (t ++ [Ascii.closeBrace])) : body text = text := by
  unfold body
  split
  · rfl
  · rename_i b rest
    split
    · rename_i hbraces
      obtain ⟨rfl, hlast⟩ := hbraces
      obtain ⟨t, rfl⟩ := List.getLast?_eq_some_iff.1 hlast
      exact absurd rfl (h t)
    · rfl

theorem isBody_iff {text inner : List UInt8} : IsBody text inner ↔ inner = body text := by
  constructor
  · intro h
    rcases h with rfl | ⟨rfl, hbraces⟩
    · exact (body_append inner).symm
    · exact (body_of_ne hbraces).symm
  · intro h
    subst h
    by_cases hbraces : ∃ t, text = Ascii.openBrace :: (t ++ [Ascii.closeBrace])
    · obtain ⟨t, rfl⟩ := hbraces
      left
      rw [body_append]
    · have unbraced : ∀ t, text ≠ Ascii.openBrace :: (t ++ [Ascii.closeBrace]) :=
        fun t ht => hbraces ⟨t, ht⟩
      exact .inr ⟨body_of_ne unbraced, unbraced⟩

theorem checkBoundaries_eq_ok_iff {located : List Located} {es : List Element} :
    checkBoundaries located = .ok es ↔
      located.map Located.element = es ∧ es ≠ [] ∧ (∀ e, es.head? = some e → e.isJump = false) ∧
        ∀ e, es.getLast? = some e → e.isJump = false := by
  have boundary (o : Option Located) :
      o.filter (·.element.isJump) = none ↔
        ∀ e, o.map Located.element = some e → e.isJump = false := by
    cases o <;> simp
  rw [show located.map Located.element = es ↔ es = located.map Located.element from eq_comm]
  unfold checkBoundaries
  split
  · rename_i jump other hjump
    constructor
    · intro h
      cases h
    · intro h
      obtain ⟨rfl, -, first, -⟩ := h
      rw [List.head?_map, ← boundary, hjump] at first
      cases first
  · rename_i jump hfirst hjump
    constructor
    · intro h
      cases h
    · intro h
      obtain ⟨rfl, -, -, last⟩ := h
      rw [List.getLast?_map, ← boundary, hjump] at last
      cases last
  · rename_i hfirst hlast
    split
    · rename_i hempty
      constructor
      · intro h
        cases h
      · intro h
        obtain ⟨rfl, nonempty, -, -⟩ := h
        exact absurd (by rw [hempty]; rfl) nonempty
    · rename_i hempty
      rw [boundary, ← List.head?_map] at hfirst
      rw [boundary, ← List.getLast?_map] at hlast
      constructor
      · intro h
        cases h
        exact ⟨rfl, by simpa using hempty, hfirst, hlast⟩
      · intro h
        obtain ⟨rfl, -, -, -⟩ := h
        rfl

theorem parse_eq_ok_iff {text : List UInt8} {es : List Element} :
    parse text = .ok es ↔
      ∃ located, readSequence (.start (body text)) = .ok located ∧
        checkBoundaries located = .ok es := by
  unfold parse
  simp only
  split
  · rename_i flaw hread
    simp [hread]
  · rename_i located hread
    split
    · rename_i flaw hcheck
      simp [hread, hcheck]
    · rename_i elements hcheck
      simp [hread, hcheck]

/-- A pattern is accepted exactly when the grammar derives its text between the
braces, and its elements are those of the derivation.  Whatever the text, the
reader is never inside more alternations than the limit. -/
theorem parse_ok_iff_derives (text : List UInt8) :
    (∀ es, parse text = .ok es ↔ ∃ inner, IsBody text inner ∧ Derives inner es) ∧
      ∀ inner r, IsBody text inner →
        Relation.ReflTransGen (fun a b => a.turn = .goOn b) (Reading.start inner) r →
          r.stack.length ≤ limits.maxNestingDepth := by
  refine ⟨fun es => ?_, fun inner r _ hreach => ?_⟩
  · rw [parse_eq_ok_iff]
    constructor
    · intro h
      obtain ⟨located, hread, hcheck⟩ := h
      obtain ⟨rfl, nonempty, first, last⟩ := checkBoundaries_eq_ok_iff.1 hcheck
      obtain ⟨derivation, shallow⟩ := Reading.sequence_of_readSequence hread
      exact ⟨body text, isBody_iff.2 rfl, derivation, nonempty, first, last, shallow⟩
    · intro h
      obtain ⟨inner, hbody, derivation, nonempty, first, last, shallow⟩ := h
      rw [isBody_iff] at hbody
      subst hbody
      obtain ⟨located, hread, helements⟩ :=
        Reading.readSequence_start_of_sequence derivation shallow
      exact ⟨located, hread, checkBoundaries_eq_ok_iff.2 ⟨helements, nonempty, first, last⟩⟩
  · have moves : Relation.ReflTransGen Reading.Moves (Reading.start inner) r :=
      Relation.ReflTransGen.mono (fun _ _ h => Reading.moves_of_turn h) _ _ hreach
    exact (Reading.fits_of_reachable (Reading.fits_start inner) moves).depth

theorem parse_alternation_ok :
    parse (Ascii.bytes "\x7b(4?)\x7d") = .ok [.alternation [[.byte (.literal 4) .wildcard]]] ∧
      ∃ r, Relation.ReflTransGen (fun a b => a.turn = .goOn b)
        (Reading.start (Ascii.bytes "(4?)")) r ∧ r.stack.length = 1 ∧
          r.stack.length ≤ limits.maxNestingDepth := by
  have hbody : IsBody (Ascii.bytes "\x7b(4?)\x7d") (Ascii.bytes "(4?)") := .inl (by decide)
  have nibbles : ElementText (Ascii.bytes "4?)") (.byte (.literal 4) .wildcard)
      (Ascii.bytes ")") := .byte (by decide) (by decide)
  have alternatives : Alternatives (Ascii.bytes "4?)") [[.byte (.literal 4) .wildcard]] [] :=
    .last (.cons .done nibbles (.nil .done)) (by simp)
  have derived : Derives (Ascii.bytes "(4?)")
      [.alternation [[.byte (.literal 4) .wildcard]]] :=
    { derivation := .cons .done (.alternation alternatives) (.nil .done)
      nonempty := by simp
      first := by simp [Element.isJump]
      last := by simp [Element.isJump]
      shallow := by decide }
  refine ⟨((parse_ok_iff_derives _).1 _).2 ⟨_, hbody, derived⟩, ?_⟩
  have enters : Reading.Moves (Reading.start (Ascii.bytes "(4?)"))
      { stack :=
          [{ opening := Ascii.bytes "(4?)", before := [], closed := [],
             started := Ascii.bytes "(4?)" }],
        started := Ascii.bytes "4?)", sequence := [], rest := Ascii.bytes "4?)" } :=
    .enter .done (by decide)
  have entered := Relation.ReflTransGen.single (r := fun a b => Reading.turn a = .goOn b)
    (Reading.turn_of_moves enters)
  exact ⟨_, entered, rfl, (parse_ok_iff_derives _).2 _ _ hbody entered⟩

end Pattern
end RuleLex
