/-
Tokens under a cursor.

A stream holds the tokens the cursor has passed, the last one first, and the
tokens ahead of it.  `tokens` puts both together again and `position` counts
the passed ones, so no operation can leave the cursor outside the list.
-/
import RuleLex.Token.Basic

namespace RuleLex

/-- A list of tokens with a cursor between two of them or at an end. -/
structure TokenStream where
  passed : List Token
  ahead : List Token
deriving Repr

namespace TokenStream

/-- The cursor before the first token. -/
def ofList (tokens : List Token) : TokenStream := { passed := [], ahead := tokens }

/-- All tokens, wherever the cursor is. -/
def tokens (s : TokenStream) : List Token := s.passed.reverse ++ s.ahead

/-- The number of tokens before the cursor. -/
def position (s : TokenStream) : Nat := s.passed.length

def length (s : TokenStream) : Nat := s.passed.length + s.ahead.length

def isEmpty (s : TokenStream) : Bool := s.passed.isEmpty && s.ahead.isEmpty

/-! ## Looking -/

/-- The token at the cursor. -/
def current? (s : TokenStream) : Option Token := s.ahead.head?

/-- The token `n` places after the cursor. -/
def peek? (s : TokenStream) (n : Nat) : Option Token := s.ahead[n]?

def isAtEnd (s : TokenStream) : Bool := s.ahead.isEmpty

def currentKind? (s : TokenStream) : Option TokenKind := s.current?.map Token.kind

def currentSpan? (s : TokenStream) : Option Span := s.current?.map Token.span

def isCurrent (s : TokenStream) (kind : TokenKind) : Bool := s.currentKind? == some kind

/-- The tokens from the cursor on. -/
def remaining (s : TokenStream) : List Token := s.ahead

/-- The last token ends the source. -/
def hasEof (s : TokenStream) : Bool := s.tokens.getLast?.any Token.isEof

/-! ## Moving -/

/-- The cursor one token further, or where it is at the end. -/
def advance (s : TokenStream) : TokenStream :=
  match s.ahead with
  | [] => s
  | t :: rest => { passed := t :: s.passed, ahead := rest }

/-- The token at the cursor and the cursor after it, when the token passes a
test. -/
def consumeIf? (s : TokenStream) (test : Token → Bool) : Option (Token × TokenStream) :=
  match s.current? with
  | some t => if test t then some (t, s.advance) else none
  | none => none

/-- What stood in the place of an expected kind. -/
inductive Mismatch where
  | token (expected : TokenKind) (found : String) (line : Nat)
  | endOfStream (expected : TokenKind)
deriving DecidableEq, Repr

def Mismatch.message : Mismatch → String
  | .token expected found line => s!"Expected {expected.name}, found '{found}' on line {line}"
  | .endOfStream expected => s!"Expected {expected.name}, but reached end of input"

/-- The token at the cursor, which has to be of the given kind, and the cursor
after it. -/
def expect (s : TokenStream) (kind : TokenKind) : Except Mismatch (Token × TokenStream) :=
  match s.current? with
  | some t =>
    if t.kind = kind then .ok (t, s.advance) else .error (.token kind t.sourceText t.line)
  | none => .error (.endOfStream kind)

/-- The cursor at a saved position, or at the end when there are fewer tokens. -/
def restore (s : TokenStream) (position : Nat) : TokenStream :=
  let all := s.tokens
  { passed := (all.take position).reverse, ahead := all.drop position }

/-! ## Spans -/

/-- The span of the token at a position. -/
def spanAt? (s : TokenStream) (position : Nat) : Option Span :=
  s.tokens[position]?.map Token.span

/-- The span that covers the tokens at two positions, or the one there is. -/
def spanRange? (s : TokenStream) (a b : Nat) : Option Span :=
  match s.spanAt? a, s.spanAt? b with
  | some x, some y => some (x.join y)
  | some x, none => some x
  | none, other => other

/-- Two neighbours whose spans overlap. -/
structure Overlap where
  stop : Nat
  start : Nat
deriving DecidableEq, Repr

def Overlap.message (o : Overlap) : String :=
  s!"Span order violation: token ending at {o.stop} overlaps next token at {o.start}"

/-- The first overlap between neighbours of a list of tokens. -/
def firstOverlap? : List Token → Option Overlap
  | [] => none
  | [_] => none
  | t :: u :: rest =>
    if u.span.start.offset < t.span.stop.offset then
      some { stop := t.span.stop.offset, start := u.span.start.offset }
    else firstOverlap? (u :: rest)

/-- The first overlap in the stream. -/
def overlap? (s : TokenStream) : Option Overlap := firstOverlap? s.tokens

/-- One line that says where the cursor is. -/
def diagnostic (s : TokenStream) : String :=
  let shown :=
    match s.current? with
    | some t => s!"'{t.sourceText}' at {t.span.text}"
    | none => "<EOF>"
  s!"TokenStream(pos: {s.position}/{s.length}, current: {shown})"

/-! ## The list behind the cursor -/

theorem tokens_ofList (ts : List Token) : (ofList ts).tokens = ts := rfl

theorem tokens_advance (s : TokenStream) : s.advance.tokens = s.tokens := by
  unfold advance
  split
  · rfl
  · rename_i t rest h
    simp [tokens, h]

theorem tokens_restore (s : TokenStream) (p : Nat) : (s.restore p).tokens = s.tokens := by
  simp only [restore, tokens, List.reverse_reverse]
  exact List.take_append_drop p _

theorem length_tokens (s : TokenStream) : s.tokens.length = s.length := by
  simp [tokens, length]

end TokenStream
end RuleLex
