/-
Reading a byte pattern by indices.

`Pattern.parse` works on the text that is left.  The reader here keeps the whole
text and an index into it, looks bytes up there and cuts slices out of it, and
every slice is checked: behind the opener of a block comment, and around the
digits of a bound.  Turn by turn it does what the other reader does,
`Scanning.turn_eq`, so no slice it asks for is ever out of range: `parse_eq`.

A place is the text from there on, as in the other reader.
-/
import RuleLex.Proofs.Checked.Basic
import RuleLex.Proofs.Pattern.Reader

namespace RuleLex
namespace Pattern
namespace Indexed

open Checked (slice sliceFrom slice_eq sliceFrom_eq ok_bind drop_runLength drop_eq_cons
  drop_eq_nil)

/-! ## White space and comments -/

theorem lt_length_of_some {bytes : List UInt8} {pos : Nat} {b : UInt8}
    (h : bytes[pos]? = some b) : pos < bytes.length :=
  (List.getElem?_eq_some_iff.1 h).1

theorem runLength_pos_of_slash {bytes : List UInt8} {pos : Nat}
    (h : bytes[pos]? = some Ascii.slash) :
    0 < Ascii.runLength (· != Ascii.newline) (bytes.drop pos) := by
  rw [drop_eq_cons h]
  exact Ascii.runLength_pos (by decide)

/-- The index behind white space and comments.  The error is the index of a
block comment that never closes. -/
def skipTrivia (bytes : List UInt8) (pos : Nat) : Checked (Except Nat Nat) :=
  match _here : bytes[pos]? with
  | none => pure (.ok pos)
  | some b =>
    if Ascii.isBlank b then skipTrivia bytes (pos + 1)
    else if _slash : b = Ascii.slash then
      match bytes[pos + 1]? with
      | none => pure (.ok pos)
      | some c =>
        if c = Ascii.slash then
          skipTrivia bytes (pos + Ascii.runLength (· != Ascii.newline) (bytes.drop pos))
        else if c = Ascii.star then do
          let inner ← sliceFrom bytes (pos + 2)
          match Comment.closingLength? inner with
          | some n => skipTrivia bytes (pos + 2 + n)
          | none => pure (.error pos)
        else pure (.ok pos)
    else pure (.ok pos)
termination_by bytes.length - pos
decreasing_by
  · have := lt_length_of_some _here
    omega
  · have := lt_length_of_some _here
    have := runLength_pos_of_slash (_slash ▸ _here)
    omega
  · have := lt_length_of_some _here
    omega

/-- The text at the index that has been found. -/
def textAt (bytes : List UInt8) : Except Nat Nat → Except (List UInt8) (List UInt8)
  | .ok pos => .ok (bytes.drop pos)
  | .error pos => .error (bytes.drop pos)

theorem skipTrivia_slash {s : List UInt8} (hslash : s.head? ≠ some Ascii.slash)
    (hstar : s.head? ≠ some Ascii.star) :
    Pattern.skipTrivia (Ascii.slash :: s) = .ok (Ascii.slash :: s) := by
  have blank : Ascii.isBlank Ascii.slash = false := by decide
  rw [Pattern.skipTrivia.eq_def]
  cases s with
  | nil => simp [blank]
  | cons c inner =>
    have apart : ¬ c = Ascii.slash := fun h => hslash (congrArg some h)
    have apart' : ¬ c = Ascii.star := fun h => hstar (congrArg some h)
    simp [blank, apart, apart']

theorem skipTrivia_unclosed {s : List UInt8} (h : afterComment? s = none) :
    Pattern.skipTrivia (Ascii.slash :: Ascii.star :: s) =
      .error (Ascii.slash :: Ascii.star :: s) := by
  rw [Pattern.skipTrivia, if_neg (by decide), if_pos rfl]
  have apart : ¬ Ascii.star = Ascii.slash := by decide
  simp only [apart, if_false, if_true]
  split
  · rename_i htail
    rw [htail] at h
    cases h
  · rfl

/-- Behind the opener of a line comment both readers look for the end of the
line. -/
theorem drop_line {bytes : List UInt8} {pos : Nat} (here : bytes[pos]? = some Ascii.slash)
    (next : bytes[pos + 1]? = some Ascii.slash) :
    bytes.drop (pos + Ascii.runLength (· != Ascii.newline) (bytes.drop pos)) =
      (bytes.drop (pos + 2)).dropWhile (· != Ascii.newline) := by
  rw [← List.drop_drop, drop_runLength, drop_eq_cons here, drop_eq_cons next]
  rfl

theorem skipTrivia_eq (bytes : List UInt8) (pos : Nat) :
    ∃ found, skipTrivia bytes pos = .ok found ∧
      Pattern.skipTrivia (bytes.drop pos) = textAt bytes found := by
  fun_induction skipTrivia bytes pos with
  | case1 pos here => exact ⟨_, rfl, by rw [textAt, drop_eq_nil here, skipTrivia_nil]⟩
  | case2 pos b here blank ih =>
    rw [drop_eq_cons here, skipTrivia_blank blank]
    exact ih
  | case3 pos next here =>
    refine ⟨_, rfl, ?_⟩
    rw [textAt, drop_eq_cons here]
    exact skipTrivia_slash (by rw [List.head?_drop, next]; nofun)
      (by rw [List.head?_drop, next]; nofun)
  | case4 pos here _ next ih =>
    have line : Pattern.skipTrivia (bytes.drop pos) =
        Pattern.skipTrivia ((bytes.drop (pos + 2)).dropWhile (· != Ascii.newline)) := by
      rw [drop_eq_cons here, drop_eq_cons next, skipTrivia_line]
    rw [drop_line here next] at ih
    rw [line]
    exact ih
  | case5 pos here _ next _ ih =>
    -- The opener takes two bytes, so the text behind it begins within the text.
    have inside : pos + 2 ≤ bytes.length := lt_length_of_some next
    rw [sliceFrom_eq inside, ok_bind, drop_eq_cons here, drop_eq_cons next]
    cases hclosing : Comment.closingLength? (bytes.drop (pos + 2)) with
    | some n =>
      have after : afterComment? (bytes.drop (pos + 2)) = some (bytes.drop (pos + 2 + n)) := by
        rw [afterComment?, hclosing, Option.map_some, List.drop_drop]
      rw [skipTrivia_block after]
      exact ih n
    | none =>
      refine ⟨_, rfl, ?_⟩
      rw [textAt, drop_eq_cons here, drop_eq_cons next]
      exact skipTrivia_unclosed (by rw [afterComment?, hclosing, Option.map_none])
  | case6 pos c next hslash hstar here =>
    refine ⟨_, rfl, ?_⟩
    rw [textAt, drop_eq_cons here]
    exact skipTrivia_slash (by rw [List.head?_drop, next]; exact fun h => hslash (Option.some.inj h))
      (by rw [List.head?_drop, next]; exact fun h => hstar (Option.some.inj h))
  | case7 pos b here blank hslash =>
    refine ⟨_, rfl, ?_⟩
    rw [textAt, drop_eq_cons here]
    exact skipTrivia_cons (Bool.eq_false_iff.2 blank) hslash

/-! ## Jumps -/

/-- The index behind white space. -/
def skipBlank (bytes : List UInt8) (pos : Nat) : Nat :=
  pos + Ascii.runLength Ascii.isBlank (bytes.drop pos)

/-- An optional decimal bound and the index behind it. -/
def readBound (bytes : List UInt8) (pos : Nat) : Checked (Option (Option UInt32 × Nat)) :=
  let stop := pos + Ascii.runLength Ascii.isDigit (bytes.drop pos)
  if stop = pos then pure (some (none, pos))
  else do
    let digits ← slice bytes pos stop
    let value := Ascii.numeral 10 digits
    pure (if value < UInt32.size then some (some value.toUInt32, stop) else none)

/-- The index behind the closing bracket, after white space. -/
def closeBracket (bytes : List UInt8) (pos : Nat) : Except JumpFlaw Nat :=
  let next := skipBlank bytes pos
  if bytes[next]? = some Ascii.closeBracket then .ok (next + 1) else .error .malformed

/-- The bounds of a jump, read after its opening bracket, and the index behind
it. -/
def readJump (bytes : List UInt8) (pos : Nat) : Checked (Except JumpFlaw (Element × Nat)) := do
  match ← readBound bytes (skipBlank bytes pos) with
  | none => pure (.error .malformed)
  | some (low, afterLow) =>
    let next := skipBlank bytes afterLow
    if bytes[next]? = some Ascii.minus then
      match ← readBound bytes (skipBlank bytes (next + 1)) with
      | none => pure (.error .malformed)
      | some (high, afterHigh) =>
        match closeBracket bytes afterHigh with
        | .error flaw => pure (.error flaw)
        | .ok after =>
          let min := low.getD 0
          match high with
          | none => pure (.ok (.jump min none, after))
          | some max =>
            pure (if max < min then .error (.inverted min max)
              else .ok (.jump min (some max), after))
    else
      match closeBracket bytes next, low with
      | .error flaw, _ => pure (.error flaw)
      | .ok _, none => pure (.error .malformed)
      | .ok after, some n => pure (.ok (.jump n (some n), after))

theorem skipBlank_eq (bytes : List UInt8) (pos : Nat) :
    Pattern.skipBlank (bytes.drop pos) = bytes.drop (skipBlank bytes pos) := by
  rw [skipBlank, ← List.drop_drop, drop_runLength, Pattern.skipBlank]

theorem readBound_eq (bytes : List UInt8) (pos : Nat) :
    ∃ found, readBound bytes pos = .ok found ∧
      Pattern.readBound (bytes.drop pos) = found.map fun x => (x.1, bytes.drop x.2) := by
  have behind : (bytes.drop pos).dropWhile Ascii.isDigit =
      bytes.drop (pos + Ascii.runLength Ascii.isDigit (bytes.drop pos)) := by
    rw [← drop_runLength, List.drop_drop]
  have run := Ascii.runLength_le_length Ascii.isDigit (bytes.drop pos)
  simp only [readBound, Pattern.readBound, behind]
  by_cases hdigits : (bytes.drop pos).takeWhile Ascii.isDigit = []
  · have none_taken : Ascii.runLength Ascii.isDigit (bytes.drop pos) = 0 := by
      rw [Ascii.runLength, hdigits, List.length_nil]
    rw [if_pos hdigits, if_pos (by omega), none_taken]
    exact ⟨_, rfl, rfl⟩
  · have some_taken : 0 < Ascii.runLength Ascii.isDigit (bytes.drop pos) :=
      List.length_pos_iff.2 hdigits
    -- The run of digits ends within the text.
    rw [List.length_drop] at run
    rw [if_neg hdigits, if_neg (by omega), slice_eq (Nat.le_add_right _ _) (by omega), ok_bind,
      Nat.add_sub_cancel_left, Ascii.take_runLength]
    refine ⟨_, rfl, ?_⟩
    split <;> rfl

theorem closeBracket_eq (bytes : List UInt8) (pos : Nat) :
    Pattern.closeBracket (bytes.drop pos) = (closeBracket bytes pos).map bytes.drop := by
  rw [Pattern.closeBracket, closeBracket, skipBlank_eq]
  generalize skipBlank bytes pos = next
  cases here : bytes[next]? with
  | none =>
    rw [drop_eq_nil here]
    rfl
  | some b =>
    rw [drop_eq_cons here]
    by_cases hb : b = Ascii.closeBracket
    · simp [hb, Except.map]
    · simp [hb, Except.map]

theorem readJump_eq (bytes : List UInt8) (pos : Nat) :
    ∃ found, readJump bytes pos = .ok found ∧
      Pattern.readJump (bytes.drop pos) = found.map fun x => (x.1, bytes.drop x.2) := by
  obtain ⟨low?, hlow, lowText⟩ := readBound_eq bytes (skipBlank bytes pos)
  rw [readJump, Pattern.readJump, skipBlank_eq, hlow, lowText, ok_bind]
  cases low? with
  | none => exact ⟨_, rfl, rfl⟩
  | some bound =>
    obtain ⟨low, afterLow⟩ := bound
    simp only [Option.map_some, skipBlank_eq, List.head?_drop, List.tail_drop]
    generalize skipBlank bytes afterLow = next
    split
    · obtain ⟨high?, hhigh, highText⟩ := readBound_eq bytes (skipBlank bytes (next + 1))
      rw [hhigh, highText, ok_bind]
      cases high? with
      | none => exact ⟨_, rfl, rfl⟩
      | some bound =>
        obtain ⟨high, afterHigh⟩ := bound
        simp only [Option.map_some, closeBracket_eq]
        cases closeBracket bytes afterHigh with
        | error flaw => exact ⟨_, rfl, rfl⟩
        | ok after =>
          cases high with
          | none => exact ⟨_, rfl, rfl⟩
          | some max =>
            refine ⟨_, rfl, ?_⟩
            simp only [Except.map]
            split <;> rfl
    · rw [closeBracket_eq]
      cases closeBracket bytes next with
      | error flaw => exact ⟨_, rfl, rfl⟩
      | ok after =>
        cases low with
        | none => exact ⟨_, rfl, rfl⟩
        | some n => exact ⟨_, rfl, rfl⟩

/-! ## Sequences and alternations -/

/-- Where the reader is, with an index in the place of the text that is left. -/
structure Scanning where
  stack : List Frame
  started : List UInt8
  sequence : List Located
  pos : Nat

/-- How a turn of the reader ends. -/
inductive Turn where
  | goOn (scanning : Scanning)
  | stop (outcome : Except (Flaw (List UInt8)) (List Located))

namespace Scanning

variable (bytes : List UInt8)

/-- Where the other reader is. -/
def reading (s : Scanning) : Reading where
  stack := s.stack
  started := s.started
  sequence := s.sequence
  rest := bytes.drop s.pos

/-- Before the first element. -/
def start : Scanning := { stack := [], started := bytes, sequence := [], pos := 0 }

/-- One more element of the current alternative, read from one index up to
another. -/
def add (s : Scanning) (pos : Nat) (element : Element) (after : Nat) : Scanning :=
  { s with
    sequence := { place := bytes.drop pos, element := element } :: s.sequence,
    pos := after }

def turnByte (s : Scanning) (b : UInt8) (pos : Nat) : Turn :=
  match Nibble.ofByte? b with
  | none => .stop (.error (.unexpectedCharacter b (bytes.drop pos)))
  | some high =>
    match bytes[pos + 1]?.bind Nibble.ofByte? with
    | none => .stop (.error (.incompleteByte (bytes.drop pos)))
    | some low => .goOn (s.add bytes pos (.byte high low) (pos + 2))

def turnJump (s : Scanning) (pos : Nat) : Checked Turn := do
  match ← readJump bytes (pos + 1) with
  | .error .malformed => pure (.stop (.error (.malformedJump (bytes.drop pos))))
  | .error (.inverted min max) =>
    pure (.stop (.error (.invertedJumpRange min max (bytes.drop pos))))
  | .ok (jump, after) => pure (.goOn (s.add bytes pos jump after))

def turnOpen (s : Scanning) (pos : Nat) : Turn :=
  if limits.maxNestingDepth ≤ s.stack.length then
    .stop (.error (.nestingTooDeep (bytes.drop pos)))
  else
    let frame : Frame :=
      { opening := bytes.drop pos, before := s.sequence, closed := [], started := s.started }
    .goOn
      { stack := frame :: s.stack, started := bytes.drop (pos + 1), sequence := [],
        pos := pos + 1 }

def turnClose (s : Scanning) (b : UInt8) (pos : Nat) : Turn :=
  match s.stack with
  | [] => .stop (.error (.unbalancedAlternation (bytes.drop pos)))
  | frame :: outer =>
    if s.sequence = [] then .stop (.error (.emptyAlternative s.started))
    else
      let closed := gathered s.sequence :: frame.closed
      if b = Ascii.bar then
        .goOn
          { stack := { frame with closed := closed } :: outer,
            started := bytes.drop (pos + 1), sequence := [], pos := pos + 1 }
      else
        .goOn
          { stack := outer,
            started := frame.started,
            sequence :=
              { place := frame.opening, element := .alternation closed.reverse } :: frame.before,
            pos := pos + 1 }

def turnEnd (s : Scanning) : Turn :=
  match s.stack with
  | [] => .stop (.ok s.sequence.reverse)
  | frame :: _ => .stop (.error (.unbalancedAlternation frame.opening))

/-- One turn of the reader. -/
def turn (s : Scanning) : Checked Turn := do
  match ← skipTrivia bytes s.pos with
  | .error pos => pure (.stop (.error (.unexpectedCharacter Ascii.slash (bytes.drop pos))))
  | .ok pos =>
    match bytes[pos]? with
    | none => pure s.turnEnd
    | some b =>
      if b = Ascii.bar ∨ b = Ascii.closeParen then pure (s.turnClose bytes b pos)
      else if b = Ascii.openParen then pure (s.turnOpen bytes pos)
      else if b = Ascii.openBracket then s.turnJump bytes pos
      else pure (s.turnByte bytes b pos)

end Scanning

/-- The turn of the other reader. -/
def Turn.text (bytes : List UInt8) : Turn → Pattern.Turn
  | .goOn s => .goOn (s.reading bytes)
  | .stop outcome => .stop outcome

namespace Scanning

variable {bytes : List UInt8} {pos : Nat} {b : UInt8}

theorem turnByte_eq (s : Scanning) (here : bytes[pos]? = some b) :
    (s.reading bytes).turnByte b (bytes.drop (pos + 1)) = (s.turnByte bytes b pos).text bytes := by
  rw [Reading.turnByte, turnByte, ← drop_eq_cons here]
  cases Nibble.ofByte? b with
  | none => rfl
  | some high =>
    cases next : bytes[pos + 1]? with
    | none => rw [drop_eq_nil next]; rfl
    | some c =>
      rw [drop_eq_cons next]
      simp only [Option.bind_some]
      cases Nibble.ofByte? c <;> rfl

theorem turnJump_eq (s : Scanning) (here : bytes[pos]? = some b) :
    ∃ t, s.turnJump bytes pos = .ok t ∧
      (s.reading bytes).turnJump b (bytes.drop (pos + 1)) = t.text bytes := by
  obtain ⟨found, hfound, text⟩ := readJump_eq bytes (pos + 1)
  rw [turnJump, Reading.turnJump, hfound, text, ok_bind, ← drop_eq_cons here]
  cases found with
  | error fault => cases fault <;> exact ⟨_, rfl, rfl⟩
  | ok read =>
    obtain ⟨jump, after⟩ := read
    exact ⟨_, rfl, rfl⟩

theorem turnOpen_eq (s : Scanning) (here : bytes[pos]? = some b) :
    (s.reading bytes).turnOpen b (bytes.drop (pos + 1)) = (s.turnOpen bytes pos).text bytes := by
  rw [Reading.turnOpen, turnOpen, ← drop_eq_cons here]
  by_cases deep : limits.maxNestingDepth ≤ s.stack.length
  · rw [if_pos deep, if_pos (show _ ≤ (s.reading bytes).stack.length from deep)]
    rfl
  · rw [if_neg deep, if_neg (show ¬ _ ≤ (s.reading bytes).stack.length from deep)]
    rfl

theorem turnClose_eq (s : Scanning) (here : bytes[pos]? = some b) :
    (s.reading bytes).turnClose b (bytes.drop (pos + 1)) =
      (s.turnClose bytes b pos).text bytes := by
  obtain ⟨stack, started, sequence, p⟩ := s
  cases stack with
  | nil =>
    rw [Reading.turnClose, turnClose, ← drop_eq_cons here]
    rfl
  | cons frame outer =>
    cases sequence with
    | nil => rfl
    | cons last sequence =>
      by_cases hbar : b = Ascii.bar
      · subst hbar
        rfl
      · simp [Reading.turnClose, turnClose, reading, Turn.text, hbar]

theorem turnEnd_eq (s : Scanning) : (s.reading bytes).turnEnd = s.turnEnd.text bytes := by
  obtain ⟨stack, started, sequence, p⟩ := s
  cases stack <;> rfl

/-- A turn by indices never traps and does what a turn on the text does. -/
theorem turn_eq (bytes : List UInt8) (s : Scanning) :
    ∃ t, s.turn bytes = .ok t ∧ (s.reading bytes).turn = t.text bytes := by
  obtain ⟨found, hfound, text⟩ := skipTrivia_eq bytes s.pos
  have skipped : Pattern.skipTrivia (s.reading bytes).rest = textAt bytes found := text
  rw [turn, Reading.turn, hfound, skipped, ok_bind]
  cases found with
  | error pos => exact ⟨_, rfl, rfl⟩
  | ok pos =>
    simp only
    cases here : bytes[pos]? with
    | none =>
      rw [textAt, drop_eq_nil here]
      exact ⟨_, rfl, turnEnd_eq s⟩
    | some b =>
      rw [textAt, drop_eq_cons here]
      simp only
      by_cases hclose : b = Ascii.bar ∨ b = Ascii.closeParen
      · rw [if_pos hclose, if_pos hclose]
        exact ⟨_, rfl, turnClose_eq s here⟩
      rw [if_neg hclose, if_neg hclose]
      by_cases hopen : b = Ascii.openParen
      · rw [if_pos hopen, if_pos hopen]
        exact ⟨_, rfl, turnOpen_eq s here⟩
      rw [if_neg hopen, if_neg hopen]
      by_cases hjump : b = Ascii.openBracket
      · rw [if_pos hjump, if_pos hjump]
        exact turnJump_eq s here
      rw [if_neg hjump, if_neg hjump]
      exact ⟨_, rfl, turnByte_eq s here⟩

theorem length_turn_lt {s next : Scanning} (h : s.turn bytes = .ok (.goOn next)) :
    (bytes.drop next.pos).length < (bytes.drop s.pos).length := by
  obtain ⟨t, ht, text⟩ := s.turn_eq bytes
  rw [h] at ht
  cases ht
  exact Reading.length_turn_lt text

end Scanning

/-- Reads on to the end of the text, turn by turn. -/
def readSequence (bytes : List UInt8) (s : Scanning) :
    Checked (Except (Flaw (List UInt8)) (List Located)) :=
  match _turns : s.turn bytes with
  | .error trap => .error trap
  | .ok (.goOn next) => readSequence bytes next
  | .ok (.stop outcome) => .ok outcome
termination_by (bytes.drop s.pos).length
decreasing_by exact Scanning.length_turn_lt _turns

theorem readSequence_eq (bytes : List UInt8) (s : Scanning) :
    readSequence bytes s = .ok (Pattern.readSequence (s.reading bytes)) := by
  fun_induction readSequence bytes s with
  | case1 s trap hturn =>
    obtain ⟨t, ht, -⟩ := s.turn_eq bytes
    rw [hturn] at ht
    cases ht
  | case2 s next hturn ih =>
    obtain ⟨t, ht, text⟩ := s.turn_eq bytes
    rw [hturn] at ht
    cases ht
    rw [ih, Reading.readSequence_of_moves (Reading.moves_of_turn text)]
  | case3 s outcome hturn =>
    obtain ⟨t, ht, text⟩ := s.turn_eq bytes
    rw [hturn] at ht
    cases ht
    rw [Reading.readSequence_of_stop text]

/-! ## Whole patterns -/

/-- What comes of a pattern whose sequence has been read. -/
def conclude (text : List UInt8) (outcome : Except (Flaw (List UInt8)) (List Located)) :
    Except Error (List Element) :=
  let inner := body text
  let base := if inner.length < text.length then 1 else 0
  let offset (place : List UInt8) : Nat := base + (inner.length - place.length)
  match outcome with
  | .error flaw => .error (flaw.map offset)
  | .ok sequence =>
    match checkBoundaries sequence with
    | .error flaw => .error (flaw.map offset)
    | .ok elements => .ok elements

/-- The elements of a pattern, read by indices. -/
def parse (text : List UInt8) : Checked (Except Error (List Element)) := do
  let outcome ← readSequence (body text) (.start (body text))
  pure (conclude text outcome)

/-- No access by an index traps, whatever the text, and the answer is that of the
reader on the text. -/
theorem parse_eq (text : List UInt8) : parse text = .ok (Pattern.parse text) := by
  rw [parse, readSequence_eq, ok_bind]
  rfl

end Indexed
end Pattern
end RuleLex
