/-
Reading a byte pattern.

The text of a pattern, without its braces, is a sequence of bytes, jumps and
alternations with white space and comments anywhere between them.  Alternations
nest, and the reader keeps the open ones on a stack of its own, so its depth is
the length of that stack and the text is read in a single pass.

Every function here works on the text that is left.  A place is likewise the
text from there on; `parse` turns it into an offset at the end, by the length
of what is left.

`Reading.turn` takes one element or one delimiter and `readSequence` repeats it,
so what holds of every turn holds of everything the reader does.
-/
import RuleLex.Ascii
import RuleLex.Comment
import RuleLex.Limits
import RuleLex.Pattern.Element
import RuleLex.Pattern.Flaw

namespace RuleLex
namespace Pattern

/-! ## White space and comments -/

/-- The text after the first `*/`. -/
def afterComment? (s : List UInt8) : Option (List UInt8) :=
  (Comment.closingLength? s).map fun n => s.drop n

theorem length_afterComment_lt {s r : List UInt8} (h : afterComment? s = some r) :
    r.length < s.length := by
  obtain ⟨n, hn, rfl⟩ := Option.map_eq_some_iff.1 h
  have := Comment.closingLength_bounds hn
  rw [List.length_drop]
  omega

/-- The text after white space and comments.  The error is the text from a
block comment on that never closes. -/
def skipTrivia (s : List UInt8) : Except (List UInt8) (List UInt8) :=
  match s with
  | [] => .ok []
  | b :: rest =>
    if Ascii.isBlank b then skipTrivia rest
    else if b = Ascii.slash then
      match rest with
      | [] => .ok s
      | c :: inner =>
        if c = Ascii.slash then skipTrivia (inner.dropWhile (· != Ascii.newline))
        else if c = Ascii.star then
          match _closes : afterComment? inner with
          | some tail => skipTrivia tail
          | none => .error s
        else .ok s
    else .ok s
termination_by s.length
decreasing_by
  · simp
  · have := (List.dropWhile_sublist (· != Ascii.newline) (l := inner)).length_le
    simp only [List.length_cons]
    omega
  · have := length_afterComment_lt _closes
    simp only [List.length_cons]
    omega

theorem length_skipTrivia_le {s r : List UInt8} (h : skipTrivia s = .ok r) :
    r.length ≤ s.length := by
  fun_induction skipTrivia s with
  | case1 => cases h; simp
  | case2 b rest hb ih =>
    have := ih h
    simp only [List.length_cons]
    omega
  | case3 => cases h; simp
  | case4 inner _ ih =>
    have := ih h
    have := (List.dropWhile_sublist (· != Ascii.newline) (l := inner)).length_le
    simp only [List.length_cons]
    omega
  | case5 inner tail ht _ _ ih =>
    have := ih h
    have := length_afterComment_lt ht
    simp only [List.length_cons]
    omega
  | case6 => cases h
  | case7 => cases h; simp
  | case8 => cases h; simp

/-! ## Jumps -/

/-- The text after white space.  Inside brackets there are no comments. -/
def skipBlank (s : List UInt8) : List UInt8 := s.dropWhile Ascii.isBlank

/-- An optional decimal bound.  Nothing is answered when the number does not fit
a bound. -/
def readBound (s : List UInt8) : Option (Option UInt32 × List UInt8) :=
  let digits := s.takeWhile Ascii.isDigit
  let rest := s.dropWhile Ascii.isDigit
  if digits = [] then some (none, rest)
  else
    let value := Ascii.numeral 10 digits
    if value < UInt32.size then some (some value.toUInt32, rest) else none

/-- What can be wrong inside brackets. -/
inductive JumpFlaw where
  | malformed
  | inverted (min max : UInt32)
deriving DecidableEq, Repr

/-- The closing bracket, after white space. -/
def closeBracket (s : List UInt8) : Except JumpFlaw (List UInt8) :=
  match skipBlank s with
  | b :: rest => if b = Ascii.closeBracket then .ok rest else .error .malformed
  | [] => .error .malformed

/-- The bounds of a jump, read after its opening bracket. -/
def readJump (s : List UInt8) : Except JumpFlaw (Element × List UInt8) :=
  match readBound (skipBlank s) with
  | none => .error .malformed
  | some (low, afterLow) =>
    let next := skipBlank afterLow
    if next.head? = some Ascii.minus then
      match readBound (skipBlank next.tail) with
      | none => .error .malformed
      | some (high, afterHigh) =>
        match closeBracket afterHigh with
        | .error flaw => .error flaw
        | .ok rest =>
          let min := low.getD 0
          match high with
          | none => .ok (.jump min none, rest)
          | some max =>
            if max < min then .error (.inverted min max) else .ok (.jump min (some max), rest)
    else
      match closeBracket next, low with
      | .error flaw, _ => .error flaw
      | .ok _, none => .error .malformed
      | .ok rest, some n => .ok (.jump n (some n), rest)

/-! ## Sequences and alternations -/

/-- An element with the text it was read from. -/
structure Located where
  place : List UInt8
  element : Element

/-- An alternation that is still open: the text from its parenthesis on, the
elements before it in the enclosing sequence, the alternatives already closed,
both last first, and where the enclosing alternative started. -/
structure Frame where
  opening : List UInt8
  before : List Located
  closed : List (List Element)
  started : List UInt8

/-- The elements of a sequence that was gathered last first. -/
def gathered (sequence : List Located) : List Element :=
  (sequence.map Located.element).reverse

theorem length_skipBlank_le (s : List UInt8) : (skipBlank s).length ≤ s.length :=
  (List.dropWhile_sublist _).length_le

theorem length_readBound_le {s r : List UInt8} {bound : Option UInt32}
    (h : readBound s = some (bound, r)) : r.length ≤ s.length := by
  have drop := (List.dropWhile_sublist Ascii.isDigit (l := s)).length_le
  unfold readBound at h
  simp only at h
  split at h
  · cases h; exact drop
  · split at h
    · cases h; exact drop
    · cases h

theorem length_closeBracket_lt {s r : List UInt8} (h : closeBracket s = .ok r) :
    r.length < s.length := by
  have blank := length_skipBlank_le s
  unfold closeBracket at h
  split at h
  · rename_i b rest hs
    split at h
    · cases h
      rw [hs, List.length_cons] at blank
      omega
    · cases h
  · cases h

theorem length_readJump_lt {s r : List UInt8} {e : Element} (h : readJump s = .ok (e, r)) :
    r.length < s.length := by
  have blank := length_skipBlank_le s
  unfold readJump at h
  split at h
  · cases h
  · rename_i low afterLow hlow
    have lowLe := length_readBound_le hlow
    have nextLe := length_skipBlank_le afterLow
    simp only at h
    split at h
    · split at h
      · cases h
      · rename_i high afterHigh hhigh
        have highLe := length_readBound_le hhigh
        have tailLe := length_skipBlank_le (skipBlank afterLow).tail
        have dropLe : (skipBlank afterLow).tail.length ≤ (skipBlank afterLow).length := by
          simp
        split at h
        · cases h
        · rename_i rest hrest
          have := length_closeBracket_lt hrest
          split at h
          · cases h; omega
          · split at h
            · cases h
            · cases h; omega
    · split at h
      · cases h
      · cases h
      · rename_i rest n hrest
        have := length_closeBracket_lt hrest
        cases h
        omega

/-- Where the reader is: the open alternations, the innermost first, the text
where the current alternative starts, its elements so far, last first, and the
text that is left. -/
structure Reading where
  stack : List Frame
  started : List UInt8
  sequence : List Located
  rest : List UInt8

/-- How a turn of the reader ends: further on in the text, or with the outcome. -/
inductive Turn where
  | goOn (reading : Reading)
  | stop (outcome : Except (Flaw (List UInt8)) (List Located))

namespace Reading

/-- Before the first element of a text. -/
def start (text : List UInt8) : Reading :=
  { stack := [], started := text, sequence := [], rest := text }

/-- One more element of the current alternative. -/
def add (r : Reading) (place : List UInt8) (element : Element) (rest : List UInt8) : Reading :=
  { r with sequence := { place := place, element := element } :: r.sequence, rest := rest }

/-- The byte of two nibbles that `b` begins. -/
def turnByte (r : Reading) (b : UInt8) (rest : List UInt8) : Turn :=
  match Nibble.ofByte? b with
  | none => .stop (.error (.unexpectedCharacter b (b :: rest)))
  | some high =>
    match rest with
    | [] => .stop (.error (.incompleteByte (b :: rest)))
    | c :: after =>
      match Nibble.ofByte? c with
      | none => .stop (.error (.incompleteByte (b :: rest)))
      | some low => .goOn (r.add (b :: rest) (.byte high low) after)

/-- The jump behind an opening bracket. -/
def turnJump (r : Reading) (b : UInt8) (rest : List UInt8) : Turn :=
  match readJump rest with
  | .error .malformed => .stop (.error (.malformedJump (b :: rest)))
  | .error (.inverted min max) => .stop (.error (.invertedJumpRange min max (b :: rest)))
  | .ok (jump, after) => .goOn (r.add (b :: rest) jump after)

/-- The alternation behind an opening parenthesis, up to the nesting limit. -/
def turnOpen (r : Reading) (b : UInt8) (rest : List UInt8) : Turn :=
  if limits.maxNestingDepth ≤ r.stack.length then .stop (.error (.nestingTooDeep (b :: rest)))
  else
    let frame : Frame :=
      { opening := b :: rest, before := r.sequence, closed := [], started := r.started }
    .goOn { stack := frame :: r.stack, started := rest, sequence := [], rest := rest }

/-- A bar or a closing parenthesis, which ends the current alternative. -/
def turnClose (r : Reading) (b : UInt8) (rest : List UInt8) : Turn :=
  match r.stack with
  | [] => .stop (.error (.unbalancedAlternation (b :: rest)))
  | frame :: outer =>
    if r.sequence = [] then .stop (.error (.emptyAlternative r.started))
    else
      let closed := gathered r.sequence :: frame.closed
      if b = Ascii.bar then
        .goOn
          { stack := { frame with closed := closed } :: outer,
            started := rest, sequence := [], rest := rest }
      else
        .goOn
          { stack := outer,
            started := frame.started,
            sequence :=
              { place := frame.opening, element := .alternation closed.reverse } :: frame.before,
            rest := rest }

/-- The end of the text. -/
def turnEnd (r : Reading) : Turn :=
  match r.stack with
  | [] => .stop (.ok r.sequence.reverse)
  | frame :: _ => .stop (.error (.unbalancedAlternation frame.opening))

/-- One turn of the reader: white space and comments, then one element or one
delimiter. -/
def turn (r : Reading) : Turn :=
  match skipTrivia r.rest with
  | .error place => .stop (.error (.unexpectedCharacter Ascii.slash place))
  | .ok [] => r.turnEnd
  | .ok (b :: rest) =>
    if b = Ascii.bar ∨ b = Ascii.closeParen then r.turnClose b rest
    else if b = Ascii.openParen then r.turnOpen b rest
    else if b = Ascii.openBracket then r.turnJump b rest
    else r.turnByte b rest

/-! ### Every turn that goes on takes text -/

theorem length_turnByte_le {r r' : Reading} {b : UInt8} {rest : List UInt8}
    (h : r.turnByte b rest = .goOn r') : r'.rest.length ≤ rest.length := by
  unfold turnByte at h
  split at h
  · cases h
  · split at h
    · cases h
    · split at h
      · cases h
      · cases h
        simp [add]

theorem length_turnJump_le {r r' : Reading} {b : UInt8} {rest : List UInt8}
    (h : r.turnJump b rest = .goOn r') : r'.rest.length ≤ rest.length := by
  unfold turnJump at h
  split at h
  · cases h
  · cases h
  · rename_i jump after hjump
    cases h
    exact Nat.le_of_lt (length_readJump_lt hjump)

theorem length_turnOpen_le {r r' : Reading} {b : UInt8} {rest : List UInt8}
    (h : r.turnOpen b rest = .goOn r') : r'.rest.length ≤ rest.length := by
  unfold turnOpen at h
  split at h
  · cases h
  · cases h
    exact Nat.le_refl _

theorem length_turnClose_le {r r' : Reading} {b : UInt8} {rest : List UInt8}
    (h : r.turnClose b rest = .goOn r') : r'.rest.length ≤ rest.length := by
  unfold turnClose at h
  split at h
  · cases h
  · split at h
    · cases h
    · simp only at h
      split at h
      · cases h
        exact Nat.le_refl _
      · cases h
        exact Nat.le_refl _

theorem turnEnd_ne_goOn (r r' : Reading) : r.turnEnd ≠ .goOn r' := by
  unfold turnEnd
  split <;> exact Turn.noConfusion

theorem length_turn_lt {r r' : Reading} (h : r.turn = .goOn r') :
    r'.rest.length < r.rest.length := by
  unfold turn at h
  split at h
  · cases h
  · exact absurd h (turnEnd_ne_goOn r r')
  · rename_i b rest hskip
    have shorter := length_skipTrivia_le hskip
    rw [List.length_cons] at shorter
    have bound : r'.rest.length ≤ rest.length := by
      split at h
      · exact length_turnClose_le h
      · split at h
        · exact length_turnOpen_le h
        · split at h
          · exact length_turnJump_le h
          · exact length_turnByte_le h
    omega

end Reading

/-- Reads on to the end of the text, turn by turn. -/
def readSequence (r : Reading) : Except (Flaw (List UInt8)) (List Located) :=
  match _turns : r.turn with
  | .goOn next => readSequence next
  | .stop outcome => outcome
termination_by r.rest.length
decreasing_by exact Reading.length_turn_lt _turns

/-! ## Whole patterns -/

/-- The text between the braces, when there are two of them around it. -/
def body (text : List UInt8) : List UInt8 :=
  match text with
  | [] => text
  | b :: rest =>
    if b = Ascii.openBrace ∧ rest.getLast? = some Ascii.closeBrace then rest.dropLast else text

/-- A pattern starts and ends with something other than a jump, and holds
something. -/
def checkBoundaries (sequence : List Located) : Except (Flaw (List UInt8)) (List Element) :=
  match sequence.head?.filter (·.element.isJump), sequence.getLast?.filter (·.element.isJump) with
  | some jump, _ => .error (.jumpAtBoundary jump.place)
  | none, some jump => .error (.jumpAtBoundary jump.place)
  | none, none =>
    if sequence = [] then .error .emptyPattern
    else .ok (sequence.map Located.element)

/-- The elements of a pattern.  The offset of a place counts the braces: what
is left of the body after the place is followed by the closing brace, if any. -/
def parse (text : List UInt8) : Except Error (List Element) :=
  let inner := body text
  let base := if inner.length < text.length then 1 else 0
  let offset (place : List UInt8) : Nat := base + (inner.length - place.length)
  match readSequence (.start inner) with
  | .error flaw => .error (flaw.map offset)
  | .ok sequence =>
    match checkBoundaries sequence with
    | .error flaw => .error (flaw.map offset)
    | .ok elements => .ok elements

end Pattern
end RuleLex
