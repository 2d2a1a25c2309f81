/-
Tokens there and back.

A stored token has its kind, line, payload and span side by side, each as JSON of its own.
What is written of each is read back, whatever stands in the others: a payload need not
agree with its kind, nor a line with its span.  Elements of byte patterns nest, so theirs is
an induction over elements, sequences and alternatives.

Two things are not read back.  A number that is not finite has no JSON, `IsFinite`, and
positions are words, `Fits`.  A token that was read has only positions that fit, so it is
read again unless its number is not finite: `tokens_read_back`.
-/
import RuleLex.Proofs.Json.Members
import RuleLex.Proofs.Stored.Modifiers
import RuleLex.Stored.Token

namespace RuleLex
namespace Stored

/-- A value is read back from its stored form. -/
def ReadsBack {α : Type} [Stored α] (a : α) : Prop := ofJson? (toJson a) = some a

/-! ## Numbers and lists -/

theorem below_natural {bound n : Nat} (h : n < bound) : below? bound (.integer n) = some n := by
  rw [below?, if_pos (by omega), Int.toNat_natCast]

theorem lt_of_below {bound n : Nat} {v : Json} (h : below? bound v = some n) : n < bound := by
  cases v with
  | integer m =>
    obtain ⟨hm, hn⟩ := Option.ite_none_right_eq_some.1 h
    have value : m.toNat = n := Option.some.inj hn
    omega
  | _ => cases h

theorem byte_toNat (b : UInt8) : byte? (.integer b.toNat) = some b := by
  rw [byte?, below_natural b.toNat_lt, Option.map_some]
  exact congrArg some UInt8.ofNat_toNat

theorem word32_toNat (n : UInt32) : word32? (.integer n.toNat) = some n := by
  rw [word32?, below_natural n.toNat_lt, Option.map_some]
  exact congrArg some UInt32.ofNat_toNat

theorem optionalWord32_read (n : Option UInt32) : optionalWord32? (optionalWord32 n) = some n := by
  cases n with
  | none => rfl
  | some n => simp only [optionalWord32, optionalWord32?, word32_toNat, Option.map_some]

theorem signed64_toInt (n : Int64) : signed64? (.integer n.toInt) = some n := by
  have low := n.le_toInt
  have high := n.toInt_lt
  rw [signed64?, if_pos (by omega), Int64.ofInt_toInt]

/-- A list is read back where each of its values is. -/
theorem all_map {α : Type} {read : Json → Option α} {write : α → Json}
    (h : ∀ a, read (write a) = some a) (as : List α) : all? read (as.map write) = some as := by
  induction as with
  | nil => rfl
  | cons a as ih => simp only [List.map_cons, all?, h, ih]

theorem bytes_read (bs : List UInt8) : bytes? (bytes bs) = some bs := all_map byte_toNat bs

theorem binary64_read {x : Binary64} (h : x.isFinite = true) : binary64? (binary64 x) = some x := by
  rw [binary64, if_pos h, binary64?]

end Stored

open Stored

/-! ## Kinds -/

theorem Keyword.ofJson_toJson (k : Keyword) : Stored.ofJson? (Stored.toJson k) = some k := by
  have names : (all.map name).Nodup := by decide
  exact (find_name_eq_some_iff names).2 ⟨k.mem_all, rfl⟩

namespace TokenKind

/-- A kind that is no keyword and no symbol is stored as its name. -/
theorem ofJson_name {kind : TokenKind} (h : kind ∈ plain) :
    ofJson? (.string kind.name) = some kind := by
  have names : (plain.map name).Nodup := by decide
  have others : ∀ kind ∈ plain, kind.name ≠ "Keyword" ∧ kind.name ≠ "Symbol" := by decide
  obtain ⟨keyword, symbol⟩ := others kind h
  simp only [ofJson?, variant?, unitVariant?, if_neg keyword, if_neg symbol, Option.bind_some]
  exact (find_name_eq_some_iff names).2 ⟨h, rfl⟩

theorem ofJson_toJson (kind : TokenKind) : ofJson? kind.toJson = some kind := by
  cases kind with
  | keyword k =>
    simp only [toJson, ofJson?, variant?, if_true, Option.bind_some, k.ofJson_toJson,
      Option.map_some]
  | symbol b =>
    have other : "Symbol" ≠ "Keyword" := by decide
    simp only [toJson, ofJson?, variant?, if_neg other, if_true, Option.bind_some, byte_toNat,
      Option.map_some]
  | operator op => exact ofJson_name (by cases op <;> decide)
  | naming n => exact ofJson_name (by cases n <;> decide)
  | literal l => exact ofJson_name (by cases l <;> decide)
  | eof => exact ofJson_name (by decide)

end TokenKind

/-! ## Elements of byte patterns -/

namespace Pattern

theorem Nibble.ofJson_toJson (n : Nibble) : ofJson? n.toJson = some n := by
  cases n with
  | literal v =>
    simp only [toJson, ofJson?, variant?, if_true, Option.bind_some, byte_toNat, Option.map_some]
  | wildcard => rfl

/-! What is read of a structure follows from its fields.  The fields are variables here, so
that no reader is run on a number that is one. -/

theorem byteOfJson_of_fields {v x y : Json} {high low : Nibble}
    (h : fields? ["high", "low"] v = some [some x, some y])
    (hhigh : Nibble.ofJson? x = some high) (hlow : Nibble.ofJson? y = some low) :
    byteOfJson? v = some (.byte high low) := by
  simp only [byteOfJson?, h, hhigh, hlow]

theorem jumpOfJson_of_fields {v x y : Json} {min : UInt32} {max : Option UInt32}
    (h : fields? ["min", "max"] v = some [some x, some y])
    (hmin : word32? x = some min) (hmax : optionalWord32? y = some max) :
    jumpOfJson? v = some (.jump min max) := by
  simp only [jumpOfJson?, h, hmin, Option.getD_some, hmax]

mutual

theorem Element.ofJson_toJson : (e : Element) → Element.ofJson? e.toJson = some e
  | .byte high low => by
    have fields : fields? ["high", "low"] (.object [("high", high.toJson), ("low", low.toJson)]) =
        some [some high.toJson, some low.toJson] := by simp [fields?, members?, Json.member?]
    have read := byteOfJson_of_fields fields high.ofJson_toJson low.ofJson_toJson
    simp only [Element.toJson, Element.ofJson?, if_true, read]
  | .alternation alternatives => by
    have byte : "Alternation" ≠ "Byte" := by decide
    have jump : "Alternation" ≠ "Jump" := by decide
    have read := alternatives_read alternatives
    simp only [Element.toJson, Element.ofJson?, if_neg byte, if_neg jump, if_true,
      alternativesOfJson?, read, Option.map_some]
  | .jump min max => by
    have byte : "Jump" ≠ "Byte" := by decide
    have fields : fields? ["min", "max"]
        (.object [("max", optionalWord32 max), ("min", .integer min.toNat)]) =
          some [some (.integer min.toNat), some (optionalWord32 max)] := by
      simp [fields?, members?, Json.member?]
    have read := jumpOfJson_of_fields fields (word32_toNat min) (optionalWord32_read max)
    simp only [Element.toJson, Element.ofJson?, if_neg byte, if_true, read]

theorem sequence_read : (s : List Element) → sequenceOfItems? (sequenceToJson s) = some s
  | [] => rfl
  | e :: rest => by
    simp only [sequenceToJson, sequenceOfItems?, e.ofJson_toJson, sequence_read rest]

theorem alternatives_read :
    (ss : List (List Element)) → alternativesOfItems? (alternativesToJson ss) = some ss
  | [] => rfl
  | s :: rest => by
    simp only [alternativesToJson, alternativesOfItems?, sequenceOfJson?, sequence_read s,
      alternatives_read rest]

end

end Pattern

/-! ## Places -/

namespace Position

/-- Offsets are words of 64 bits, lines and columns words of 32. -/
structure Fits (p : Position) : Prop where
  offset_lt : p.offset < UInt64.size
  line_lt : p.line < UInt32.size
  column_lt : p.column < UInt32.size

variable {v x y z : Json} {p : Position}

theorem ofJson_of_fields
    (h : fields? ["offset", "line", "column"] v = some [some x, some y, some z])
    (hoffset : below? UInt64.size x = some p.offset) (hline : below? UInt32.size y = some p.line)
    (hcolumn : below? UInt32.size z = some p.column) : ofJson? v = some p := by
  simp only [ofJson?, h, hoffset, hline, hcolumn]

theorem ofJson_toJson (h : p.Fits) : ofJson? p.toJson = some p :=
  ofJson_of_fields (by simp [toJson, fields?, members?, Json.member?])
    (below_natural h.offset_lt) (below_natural h.line_lt) (below_natural h.column_lt)

theorem fits_of_ofJson (h : ofJson? v = some p) : p.Fits := by
  unfold ofJson? at h
  split at h
  · split at h
    next hoffset hline hcolumn =>
      cases h
      exact ⟨lt_of_below hoffset, lt_of_below hline, lt_of_below hcolumn⟩
    next => cases h
  · cases h

end Position

namespace Span

/-- Both ends of the span fit. -/
structure Fits (s : Span) : Prop where
  start : s.start.Fits
  stop : s.stop.Fits

variable {v x y : Json} {s : Span}

theorem ofJson_of_fields (h : fields? ["start", "end"] v = some [some x, some y])
    (hstart : Position.ofJson? x = some s.start) (hstop : Position.ofJson? y = some s.stop) :
    ofJson? v = some s := by
  simp only [ofJson?, h, hstart, hstop]

theorem ofJson_toJson (h : s.Fits) : ofJson? s.toJson = some s :=
  ofJson_of_fields (by simp [toJson, fields?, members?, Json.member?])
    (Position.ofJson_toJson h.start) (Position.ofJson_toJson h.stop)

theorem fits_of_ofJson (h : ofJson? v = some s) : s.Fits := by
  unfold ofJson? at h
  split at h
  · split at h
    next hstart hstop =>
      cases h
      exact ⟨Position.fits_of_ofJson hstart, Position.fits_of_ofJson hstop⟩
    next => cases h
  · cases h

end Span

/-! ## Payloads -/

namespace TokenValue

/-- The payload is no floating point number without JSON. -/
def IsFinite : TokenValue → Prop
  | .float x => x.isFinite = true
  | _ => True

theorem regexOfJson_of_fields {v x y : Json} {pattern : List UInt8} {modifiers : Modifiers}
    (h : fields? ["pattern", "modifiers"] v = some [some x, some y])
    (hpattern : bytes? x = some pattern) (hmodifiers : Stored.ofJson? y = some modifiers) :
    regexOfJson? v = some (.regex pattern modifiers) := by
  simp only [regexOfJson?, h, hpattern, hmodifiers]

theorem ofJson_toJson {value : TokenValue} (h : value.IsFinite) :
    ofJson? value.toJson = some value := by
  cases value with
  | none => rfl
  | text content => simp [toJson, ofJson?, variant?, bytes_read]
  | integer n => simp [toJson, ofJson?, variant?, signed64_toInt]
  | float x => simp [toJson, ofJson?, variant?, binary64_read h]
  | regex pattern modifiers =>
    have flags : Stored.ofJson? (Stored.toJson modifiers) = some modifiers :=
      Modifiers.ofStored_stored modifiers
    have fields : fields? ["pattern", "modifiers"]
        (.object [("modifiers", Stored.toJson modifiers), ("pattern", bytes pattern)]) =
          some [some (bytes pattern), some (Stored.toJson modifiers)] := by
      simp [fields?, members?, Json.member?]
    have read := regexOfJson_of_fields fields (bytes_read pattern) flags
    simp [toJson, ofJson?, variant?, read]
  | hexPattern elements =>
    have read := Pattern.sequence_read elements
    simp [toJson, ofJson?, variant?, Pattern.sequenceOfJson?, read]

end TokenValue

/-! ## Tokens -/

namespace Token

/-- The line and the span of the token fit. -/
structure Fits (t : Token) : Prop where
  line_lt : t.line < UInt32.size
  span : t.span.Fits

variable {v x y z w : Json} {t : Token}

theorem ofJson_of_fields
    (h : fields? ["kind", "line", "value", "span"] v = some [some x, some y, some z, some w])
    (hkind : TokenKind.ofJson? x = some t.kind) (hline : below? UInt32.size y = some t.line)
    (hvalue : TokenValue.ofJson? z = some t.value) (hspan : Span.ofJson? w = some t.span) :
    ofJson? v = some t := by
  simp only [ofJson?, h, hkind, hline, hvalue, hspan]

theorem ofJson_toJson (h : t.Fits) (hvalue : t.value.IsFinite) : ofJson? t.toJson = some t :=
  ofJson_of_fields (by simp [toJson, fields?, members?, Json.member?])
    t.kind.ofJson_toJson (below_natural h.line_lt) (TokenValue.ofJson_toJson hvalue)
    (Span.ofJson_toJson h.span)

/-- A token that was read has only positions that fit. -/
theorem fits_of_ofJson (h : ofJson? v = some t) : t.Fits := by
  unfold ofJson? at h
  split at h
  · split at h
    next hkind hline hvalue hspan =>
      cases h
      exact ⟨lt_of_below hline, Span.fits_of_ofJson hspan⟩
    next => cases h
  · cases h

end Token

/-- Kinds, elements, payloads and tokens are read back from what is written of them, and
whatever JSON is read as one is read again from what is written of it.  A number has to be
finite for that, and the positions of a token that was not read have to be words. -/
theorem tokens_read_back :
    ((∀ kind : TokenKind, ReadsBack kind) ∧
      (∀ e : Pattern.Element, ReadsBack e) ∧
      (∀ value : TokenValue, value.IsFinite → ReadsBack value) ∧
      ∀ t : Token, t.Fits → t.value.IsFinite → ReadsBack t) ∧
    ∀ v : Json,
      (∀ kind : TokenKind, Stored.ofJson? v = some kind → ReadsBack kind) ∧
      (∀ e : Pattern.Element, Stored.ofJson? v = some e → ReadsBack e) ∧
      (∀ value : TokenValue, Stored.ofJson? v = some value → value.IsFinite → ReadsBack value) ∧
      ∀ t : Token, Stored.ofJson? v = some t → t.value.IsFinite → ReadsBack t := by
  refine ⟨⟨TokenKind.ofJson_toJson, Pattern.Element.ofJson_toJson,
    fun _ => TokenValue.ofJson_toJson, fun _ => Token.ofJson_toJson⟩, fun v => ?_⟩
  exact ⟨fun kind _ => kind.ofJson_toJson, fun e _ => e.ofJson_toJson,
    fun _ _ => TokenValue.ofJson_toJson,
    fun _ read => Token.ofJson_toJson (Token.fits_of_ofJson read)⟩

/-- A token with nested alternations and the largest positions, and a token that is read
from arrays, with flags that nothing has declared and a member that a span has not. -/
theorem tokens_read_back_nested :
    let far : Position := ⟨18446744073709551615, 4294967295, 4294967295⟩
    let t : Token :=
      { kind := .symbol 0xFF, line := 4294967295, span := ⟨far, .zero⟩,
        value := .hexPattern
          [.alternation
            [[.alternation [[], [.jump 0 none]], .byte .wildcard (.literal 0xFF)], []]] }
    let zero : Json := .array [.integer 0, .integer 0, .integer 0]
    let v : Json := .array
      [.object [("Symbol", .integer 10)], .integer 7,
       .object [("Regex", .array [.array [.integer 0xFF], .string " 0xF0|CASE_INSENSITIVE"])],
       .object [("start", zero), ("end", zero), ("source", .null)]]
    ReadsBack t ∧
      ∃ read : Token, Stored.ofJson? v = some read ∧ read.value = .regex [0xFF] ⟨0xF1⟩ ∧
        ReadsBack read := by
  intro far t zero v
  have fits : t.Fits :=
    { line_lt := by decide
      span := { start := ⟨by decide, by decide, by decide⟩,
                stop := ⟨by decide, by decide, by decide⟩ } }
  have read : Stored.ofJson? v =
      some ({ kind := .symbol 10, line := 7, value := .regex [0xFF] ⟨0xF1⟩,
              span := ⟨.zero, .zero⟩ } : Token) := rfl
  exact ⟨tokens_read_back.1.2.2.2 t fits trivial, _, read, rfl,
    (tokens_read_back.2 v).2.2.2 _ read trivial⟩

end RuleLex
