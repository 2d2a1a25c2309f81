/-
Reading JSON.

The reader is a machine over the characters that are left.  Open arrays and
objects wait on a stack; `readValue` reads the head of the next value and
`deliver` hands a finished value to the innermost open container, so nothing
but the stack grows with the depth of the text.

Integers are exact.  Other numbers are read in the arithmetic of their format,
a few roundings long, and may come out as a neighbour of the nearest one.
-/
import RuleLex.Binary64.Scale
import RuleLex.Json.Basic
import RuleLex.Text.Digit

namespace RuleLex
namespace Json

/-! ## White space and strings -/

def isSpace (c : Char) : Bool := c == ' ' || c == '\t' || c == '\n' || c == '\r'

def skipSpace (s : List Char) : List Char := s.dropWhile isSpace

/-- The value of four hexadecimal digits and the text after them. -/
def hexQuad? (s : List Char) : Option (Nat × List Char) :=
  match s with
  | a :: b :: c :: d :: rest =>
    match Text.hexValue? a, Text.hexValue? b, Text.hexValue? c, Text.hexValue? d with
    | some a, some b, some c, some d => some (((a * 16 + b) * 16 + c) * 16 + d, rest)
    | _, _, _, _ => none
  | _ => none

/-- A second `\u` form, which only a surrogate pair asks for. -/
def nextQuad? (s : List Char) : Option (Nat × List Char) :=
  match s with
  | a :: b :: rest => if a = '\\' ∧ b = 'u' then hexQuad? rest else none
  | _ => none

/-- The character that a single letter after a backslash stands for. -/
def unescape? (c : Char) : Option Char :=
  match c with
  | '"' => some '"'
  | '\\' => some '\\'
  | '/' => some '/'
  | 'b' => some '\x08'
  | 'f' => some '\x0c'
  | 'n' => some '\n'
  | 'r' => some '\r'
  | 't' => some '\t'
  | _ => none

/-- The character of a `\u` form and the text after it.  A high surrogate needs
a low one in a second form right behind it; a surrogate alone is no character. -/
def unicode? (s : List Char) : Option (Char × List Char) :=
  match hexQuad? s with
  | none => none
  | some (unit, rest) =>
    if 0xD800 ≤ unit ∧ unit < 0xDC00 then
      match nextQuad? rest with
      | none => none
      | some (low, after) =>
        if 0xDC00 ≤ low ∧ low < 0xE000 then
          some (Char.ofNat (0x10000 + (unit - 0xD800) * 0x400 + (low - 0xDC00)), after)
        else none
    else if 0xDC00 ≤ unit ∧ unit < 0xE000 then none
    else some (Char.ofNat unit, rest)

theorem length_hexQuad_lt {s rest : List Char} {n : Nat} (h : hexQuad? s = some (n, rest)) :
    rest.length < s.length := by
  unfold hexQuad? at h
  split at h
  · split at h
    · cases h
      simp only [List.length_cons]
      omega
    · cases h
  · cases h

theorem length_nextQuad_lt {s rest : List Char} {n : Nat} (h : nextQuad? s = some (n, rest)) :
    rest.length < s.length := by
  unfold nextQuad? at h
  split at h
  · split at h
    · have := length_hexQuad_lt h
      simp only [List.length_cons]
      omega
    · cases h
  · cases h

theorem length_unicode_lt {s rest : List Char} {c : Char} (h : unicode? s = some (c, rest)) :
    rest.length < s.length := by
  unfold unicode? at h
  split at h
  · cases h
  · rename_i unit after hquad
    have first := length_hexQuad_lt hquad
    split at h
    · split at h
      · cases h
      · rename_i low last hnext
        have second := length_nextQuad_lt hnext
        split at h
        · obtain ⟨_, rfl⟩ := Prod.mk.inj (Option.some.inj h)
          omega
        · cases h
    · split at h
      · cases h
      · cases h
        exact first

/-- The content of a string and the text after its closing quote.  `read` holds
the characters already read, last first. -/
def readString (read : List Char) (s : List Char) : Option (String × List Char) :=
  match s with
  | [] => none
  | c :: rest =>
    if c = '"' then some (String.ofList read.reverse, rest)
    else if c = '\\' then
      match rest with
      | [] => none
      | e :: after =>
        if e = 'u' then
          match _reads : unicode? after with
          | some (c, after) => readString (c :: read) after
          | none => none
        else
          match unescape? e with
          | some c => readString (c :: read) after
          | none => none
    else if c.toNat < 0x20 then none
    else readString (c :: read) rest
termination_by s.length
decreasing_by
  · have := length_unicode_lt _reads
    simp only [List.length_cons]
    omega
  · simp only [List.length_cons]
    omega
  · simp

theorem length_readString_lt {read s rest : List Char} {content : String}
    (h : readString read s = some (content, rest)) : rest.length < s.length := by
  fun_induction readString read s with
  | case1 => cases h
  | case2 => cases h; simp
  | case3 => cases h
  | case4 read after c after' hu _ ih =>
    have := ih h
    have := length_unicode_lt hu
    simp only [List.length_cons]
    omega
  | case5 => cases h
  | case6 read e after _ c' hu _ ih =>
    have := ih h
    simp only [List.length_cons]
    omega
  | case7 => cases h
  | case8 => cases h
  | case9 read c rest hc hb hs ih =>
    have := ih h
    simp only [List.length_cons]
    omega

/-! ## Numbers -/

def isDigit (c : Char) : Bool := '0' ≤ c && c ≤ '9'

/-- The characters a number may consist of.  No number is followed by one of
them, so a number is the whole run. -/
def isNumberChar (c : Char) : Bool :=
  isDigit c || c == '-' || c == '+' || c == '.' || c == 'e' || c == 'E'

def decimal (digits : List Char) : Nat :=
  digits.foldl (fun n c => n * 10 + (c.toNat - '0'.toNat)) 0

/-- Some digits. -/
def digits? (s : List Char) : Option (List Char) :=
  if s ≠ [] ∧ s.all isDigit then some s else none

/-- Digits without a leading zero. -/
def whole? (s : List Char) : Option (List Char) :=
  if s.head? = some '0' ∧ s.length ≠ 1 then none else digits? s

/-- An exponent: an optional sign and digits. -/
def power? (s : List Char) : Option Int :=
  match s with
  | [] => none
  | c :: rest =>
    if c = '-' then (digits? rest).map fun d => -(decimal d : Int)
    else if c = '+' then (digits? rest).map fun d => (decimal d : Int)
    else (digits? s).map fun d => (decimal d : Int)

/-- The text before and after the first character that passes a test, the latter
only when there is one. -/
def breakAt (test : Char → Bool) (s : List Char) : List Char × Option (List Char) :=
  let before := s.takeWhile fun c => !test c
  match s.dropWhile fun c => !test c with
  | [] => (before, none)
  | _ :: after => (before, some after)

/-- A word with as many of the digits appended as it can take, and how many
those are. -/
def appendDigits (word : Nat) : List Char → Nat × Nat
  | [] => (word, 0)
  | c :: rest =>
    let next := word * 10 + (c.toNat - '0'.toNat)
    if next < UInt64.size then
      let (final, taken) := appendDigits next rest
      (final, taken + 1)
    else (word, 0)

/-- The floating point number of digits, places and an exponent, when it is
finite.  The digits are gathered in a word of 64 bits; the word, as a floating
point number, is then scaled.  Digits that the word cannot take count as zeros
before the point and not at all behind it. -/
def float? (negative : Bool) (whole places : List Char) (power : Int) : Option Json :=
  let (head, wholeTaken) := appendDigits 0 whole
  let (word, placesTaken) := appendDigits head places
  let k := power + (whole.length - wholeTaken : Nat) - placesTaken
  let x := (Binary64.ofRatio word 1).scale k
  if x.isFinite then some (.float (.withSign negative x.bits.toNat)) else none

/-- A number without its sign.  Without places and exponent it is an integer,
unless it leaves the words or is a negative zero. -/
def unsigned? (negative : Bool) (s : List Char) : Option Json :=
  let (mantissa, exponent) := breakAt (fun c => c == 'e' || c == 'E') s
  let (whole, places) := breakAt (· == '.') mantissa
  match whole? whole, places.map digits?, exponent.map power? with
  | some whole, none, none =>
    let magnitude := decimal whole
    let value : Int := if negative then -(magnitude : Int) else magnitude
    if isWord value ∧ !(negative ∧ magnitude = 0) then some (.integer value)
    else float? negative whole [] 0
  | some whole, some (some places), none => float? negative whole places 0
  | some whole, none, some (some power) => float? negative whole [] power
  | some whole, some (some places), some (some power) => float? negative whole places power
  | _, _, _ => none

/-- The number that a whole run of characters spells. -/
def number? (s : List Char) : Option Json :=
  match s with
  | [] => none
  | c :: rest => if c = '-' then unsigned? true rest else unsigned? false s

/-- A number and the text after it. -/
def readNumber (s : List Char) : Option (Json × List Char) :=
  (number? (s.takeWhile isNumberChar)).map fun v => (v, s.dropWhile isNumberChar)

theorem length_readNumber_lt {s rest : List Char} {v : Json}
    (h : readNumber s = some (v, rest)) : rest.length < s.length := by
  have split := List.takeWhile_append_dropWhile (p := isNumberChar) (l := s)
  have lengths := congrArg List.length split
  rw [List.length_append] at lengths
  unfold readNumber at h
  cases run : s.takeWhile isNumberChar with
  | nil => rw [run] at h; cases h
  | cons c tail =>
    obtain ⟨v', _, hv⟩ := Option.map_eq_some_iff.1 h
    cases hv
    rw [run, List.length_cons] at lengths
    omega

/-! ## The machine -/

/-- A container that is still open, with what it holds so far, last first, and
for an object the name whose value is being read. -/
inductive Frame where
  | array (items : List Json)
  | object (members : List (String × Json)) (name : String)

theorem length_skipSpace_le (s : List Char) : (skipSpace s).length ≤ s.length :=
  (List.dropWhile_sublist _).length_le

/-- The name of a member with its colon, and the text after it. -/
def readName (s : List Char) : Option (String × List Char) :=
  match skipSpace s with
  | [] => none
  | c :: rest =>
    if c = '"' then
      match readString [] rest with
      | none => none
      | some (name, after) =>
        match skipSpace after with
        | [] => none
        | c :: rest => if c = ':' then some (name, rest) else none
    else none

theorem length_readName_lt {s rest : List Char} {name : String}
    (h : readName s = some (name, rest)) : rest.length < s.length := by
  have blank := length_skipSpace_le s
  unfold readName at h
  split at h
  · cases h
  · rename_i c tail hs
    rw [hs, List.length_cons] at blank
    split at h
    · split at h
      · cases h
      · rename_i name' after hname
        have := length_readString_lt hname
        have := length_skipSpace_le after
        split at h
        · cases h
        · rename_i c' tail' hafter
          rw [hafter, List.length_cons] at this
          split at h
          · cases h
            omega
          · cases h
    · cases h

/-- The literal names and their values. -/
def literals : List (List Char × Json) :=
  [(['n', 'u', 'l', 'l'], .null), (['t', 'r', 'u', 'e'], .bool true),
   (['f', 'a', 'l', 's', 'e'], .bool false)]

/-- A literal name at the head of the text, and the text after it. -/
def readLiteral (s : List Char) : Option (Json × List Char) :=
  literals.findSome? fun l =>
    if l.1 = s.take l.1.length then some (l.2, s.drop l.1.length) else none

/-- A value that holds no others, and the text after it. -/
def readScalar (s : List Char) : Option (Json × List Char) :=
  match s with
  | [] => none
  | c :: rest =>
    if c = '"' then (readString [] rest).map fun (content, after) => (.string content, after)
    else (readLiteral s).or (readNumber s)

theorem length_readLiteral_lt {s rest : List Char} {v : Json}
    (h : readLiteral s = some (v, rest)) : rest.length < s.length := by
  obtain ⟨l, hl, hread⟩ := List.exists_of_findSome?_eq_some h
  split at hread
  · rename_i heads
    cases hread
    have positive : 0 < l.1.length := by
      simp only [literals, List.mem_cons, List.not_mem_nil, or_false] at hl
      rcases hl with rfl | rfl | rfl <;> decide
    have taken := congrArg List.length heads
    rw [List.length_take] at taken
    rw [List.length_drop]
    omega
  · cases hread

theorem length_readScalar_lt {s rest : List Char} {v : Json}
    (h : readScalar s = some (v, rest)) : rest.length < s.length := by
  unfold readScalar at h
  split at h
  · cases h
  · split at h
    · obtain ⟨⟨content, after⟩, hread, hv⟩ := Option.map_eq_some_iff.1 h
      cases hv
      have := length_readString_lt hread
      simp only [List.length_cons]
      omega
    · rcases Option.or_eq_some_iff.1 h with h | ⟨_, h⟩
      · exact length_readLiteral_lt h
      · exact length_readNumber_lt h

mutual

/-- Reads the next value inside the open containers, and then the rest of the
text. -/
def readValue (stack : List Frame) (s : List Char) : Option Json :=
  match _skips : skipSpace s with
  | [] => none
  | c :: rest =>
    if c = '[' then
      match _opens : skipSpace rest with
      | [] => none
      | d :: after =>
        if d = ']' then deliver stack (.array []) after
        else readValue (.array [] :: stack) rest
    else if c = '\x7b' then
      match _opens : skipSpace rest with
      | [] => none
      | d :: after =>
        if d = '\x7d' then deliver stack (.object []) after
        else
          match _names : readName rest with
          | none => none
          | some (name, after) => readValue (.object [] name :: stack) after
    else
      match _reads : readScalar (c :: rest) with
      | none => none
      | some (v, after) => deliver stack v after
termination_by s.length
decreasing_by
  all_goals
    have skipped := length_skipSpace_le s
    rw [_skips, List.length_cons] at skipped
  · have opened := length_skipSpace_le rest
    rw [_opens, List.length_cons] at opened
    omega
  · omega
  · have opened := length_skipSpace_le rest
    rw [_opens, List.length_cons] at opened
    omega
  · have := length_readName_lt _names
    omega
  · have := length_readScalar_lt _reads
    rw [List.length_cons] at this
    omega

/-- Hands a value to the innermost open container and goes on with the text
after it.  With no container open the text has to end. -/
def deliver (stack : List Frame) (v : Json) (s : List Char) : Option Json :=
  match stack, _skips : skipSpace s with
  | [], [] => some v
  | [], _ :: _ => none
  | _ :: _, [] => none
  | .array items :: outer, c :: rest =>
    if c = ',' then readValue (.array (v :: items) :: outer) rest
    else if c = ']' then deliver outer (.array (v :: items).reverse) rest
    else none
  | .object members name :: outer, c :: rest =>
    if c = ',' then
      match _names : readName rest with
      | none => none
      | some (next, after) => readValue (.object ((name, v) :: members) next :: outer) after
    else if c = '\x7d' then deliver outer (.object ((name, v) :: members).reverse) rest
    else none
termination_by s.length
decreasing_by
  all_goals
    have skipped := length_skipSpace_le s
    rw [_skips, List.length_cons] at skipped
  · omega
  · omega
  · have := length_readName_lt _names
    omega
  · omega

end

/-- The value that a whole text spells. -/
def parse? (s : String) : Option Json := readValue [] s.toList

end Json
end RuleLex
