/-
Tokens written and read again.

The text that a token of a source is written as is read as that token.  A word,
a name behind a sigil, an operator and a symbol are written as they stood and do
not need what stood behind them, `Lexeme.first_slice`; an integer is written in
decimal digits whatever it was spelled as, a literal with its content as it was,
and a byte pattern by its elements.
-/
import RuleLex.Proofs.Lexer.Course
import RuleLex.Proofs.Lexer.Lookahead
import RuleLex.Proofs.Utf8

namespace RuleLex

open Lexer (munch_first)

/-! ## Slices by themselves -/

namespace Lexeme

variable {b : UInt8} {s rest : List UInt8} {kind : TokenKind} {value : TokenValue}

/-- What a sigil makes of the name behind it, by what stands behind the name. -/
theorem ofSigil_name {name after : List UInt8} (hname : ∀ c ∈ name, Ascii.isWordByte c = true)
    (stops : Ascii.Stops Ascii.isWordByte after) (b : UInt8) :
    ofSigil b (name ++ after) =
      if limits.maxIdentifierLength < name.length then
        (.refused (.identifierTooLong name.length), name.length + 1)
      else if b == Ascii.dollar && after.head? == some Ascii.star then
        (.token (.naming (naming b true)) (.text (b :: name ++ [Ascii.star])), name.length + 1 + 1)
      else (.token (.naming (naming b false)) (.text (b :: name ++ [])), name.length + 1) := by
  have behind : (name ++ after)[name.length]? = after.head? := by
    rw [List.getElem?_append_right (Nat.le_refl _), Nat.sub_self, List.head?_eq_getElem?]
  unfold ofSigil
  simp only [Ascii.takeWhile_append_of_stops hname stops, behind]
  cases b == Ascii.dollar && after.head? == some Ascii.star <;> rfl

/-- A sigil needs its name and the star behind it. -/
theorem ofSigil_slice (h : ofSigil b (s ++ rest) = (.token kind value, s.length + 1)) :
    ofSigil b s = (.token kind value, s.length + 1) := by
  obtain ⟨name, after, split, hname, stops, -, -⟩ :=
    Ascii.exists_run Ascii.isWordByte (s ++ rest)
  rw [split, ofSigil_name hname stops] at h
  split at h
  · cases h
  · rename_i short
    split at h
    · rename_i starred
      obtain ⟨dollar, star⟩ := Bool.and_eq_true_iff.1 starred
      obtain ⟨tail, rfl⟩ := List.head?_eq_some_iff.1 (eq_of_beq star)
      have length_eq : s.length = (name ++ [Ascii.star]).length := by
        have := (Prod.mk.inj h).2
        simp only [List.length_append, List.length_singleton]
        omega
      rw [List.append_cons] at split
      have own : s = name ++ [Ascii.star] := List.append_inj_left split length_eq
      have star_stops : Ascii.Stops Ascii.isWordByte [Ascii.star] :=
        Ascii.stops_cons_iff.2 (by decide)
      rw [← h, own, ofSigil_name hname star_stops, if_neg short, if_pos (by rw [dollar]; rfl)]
    · have length_eq : s.length = name.length := by
        have := (Prod.mk.inj h).2
        omega
      have own : s = name ++ [] := by
        rw [List.append_nil]
        exact List.append_inj_left split length_eq
      rw [← h, own, ofSigil_name hname (Ascii.stops_nil _), if_neg short,
        if_neg (by rw [List.head?_nil, Bool.and_eq_true]; exact fun both => nomatch both.2)]

theorem ofPunctuation_slice (h : ofPunctuation b (s ++ rest) = (.token kind value, s.length + 1)) :
    ofPunctuation b s = (.token kind value, s.length + 1) := by
  cases s with
  | nil =>
    unfold ofPunctuation at h ⊢
    split at h
    · cases h
    · exact h
  | cons c s => exact h

theorem ofBrace_slice (h : ofBrace (s ++ rest) = (.token kind value, s.length + 1)) :
    ofBrace s = (.token kind value, s.length + 1) := by
  unfold ofBrace at h
  split at h
  · cases h
  · -- The symbol is one byte long.
    have single : s = [] := List.length_eq_zero_iff.1 (Nat.succ.inj (Prod.mk.inj h).2.symm)
    subst single
    exact h

/-- A word that is all of a slice is the word of the slice. -/
theorem takeWhile_slice
    (h : ((s ++ rest).takeWhile Ascii.isWordByte).length = s.length) :
    (s ++ rest).takeWhile Ascii.isWordByte = s.takeWhile Ascii.isWordByte := by
  obtain ⟨-, stops⟩ := Ascii.runLength_eq_length_iff.1 h
  exact stops.takeWhile_append s

theorem ofNumber_ne_token (hkind : ∀ form, kind ≠ .literal form) (s : List UInt8) (n : Nat) :
    ofNumber s ≠ (.token kind value, n) := by
  intro h
  unfold ofNumber at h
  split at h
  · cases h
    exact hkind _ rfl
  · cases h

/-- A token that is no number is read from its slice alone. -/
theorem first_slice (hkind : ∀ form, kind ≠ .literal form)
    (h : first? (b :: s ++ rest) = some (.token kind value, s.length + 1)) :
    first? (b :: s) = some (.token kind value, s.length + 1) := by
  rw [List.cons_append, first?, startingWith] at h
  rw [first?, startingWith]
  by_cases hblank : Ascii.isBlank b = true
  · rw [if_pos hblank] at h
    cases h
  rw [if_neg hblank] at h ⊢
  by_cases hslash : b = Ascii.slash
  · rw [if_pos hslash, ofSlash] at h
    split at h
    · cases h
    · split at h <;> cases h
  rw [if_neg hslash] at h ⊢
  by_cases hquote : b = Ascii.quote
  · rw [if_pos hquote] at h
    cases h
  rw [if_neg hquote] at h ⊢
  by_cases hbrace : b = Ascii.openBrace
  · rw [if_pos hbrace] at h ⊢
    exact congrArg some (ofBrace_slice (Option.some.inj h))
  rw [if_neg hbrace] at h ⊢
  by_cases hdigit : Ascii.isDigit b = true
  · rw [if_pos hdigit] at h
    exact absurd (Option.some.inj h) (ofNumber_ne_token hkind _ _)
  rw [if_neg hdigit] at h ⊢
  by_cases hword : Ascii.isWordStart b = true
  · rw [if_pos hword] at h ⊢
    have run : ((b :: s ++ rest).takeWhile Ascii.isWordByte).length = (b :: s).length :=
      (Prod.mk.inj (Option.some.inj h)).2
    have same := takeWhile_slice run
    rw [List.cons_append] at same
    rw [← same]
    exact h
  rw [if_neg hword] at h ⊢
  by_cases hsigil : b = Ascii.dollar ∨ b = Ascii.hash ∨ b = Ascii.atSign
  · rw [if_pos hsigil] at h ⊢
    exact congrArg some (ofSigil_slice (Option.some.inj h))
  rw [if_neg hsigil] at h ⊢
  by_cases hbang : b = Ascii.bang ∧ (s ++ rest).head? ≠ some Ascii.equals
  · have own_bang : b = Ascii.bang ∧ s.head? ≠ some Ascii.equals := by
      refine ⟨hbang.1, fun hhead => hbang.2 ?_⟩
      rw [List.head?_append, hhead]
      rfl
    rw [if_pos hbang] at h
    rw [if_pos own_bang]
    exact congrArg some (ofSigil_slice (Option.some.inj h))
  rw [if_neg hbang] at h
  by_cases hprintable : Ascii.isPrintable b = true
  · rw [if_pos hprintable] at h
    have whole : ofPunctuation b (s ++ rest) = (.token kind value, s.length + 1) :=
      Option.some.inj h
    have own_bang : ¬ (b = Ascii.bang ∧ s.head? ≠ some Ascii.equals) := by
      rintro ⟨rfl, hhead⟩
      refine hbang ⟨rfl, fun equals => ?_⟩
      cases s with
      | nil =>
        -- Both bytes of `!=` would have been taken.
        obtain ⟨tail, rfl⟩ := List.head?_eq_some_iff.1 equals
        have inequality : ofPunctuation Ascii.bang (Ascii.equals :: tail) =
            (.token (.operator .ne) .none, 2) := rfl
        rw [List.nil_append, inequality] at whole
        cases whole
      | cons c s => exact hhead equals
    rw [if_neg own_bang, if_pos hprintable, ofPunctuation_slice whole]
  rw [if_neg hprintable] at h
  cases h

/-- A symbol is a printable byte. -/
theorem printable_of_symbol {b : UInt8} {s : List UInt8} {value : TokenValue} {n : Nat}
    (h : first? s = some (.token (.symbol b) value, n)) : b.toNat < 128 := by
  cases munch_first h with
  | selected selects yields =>
    cases yields with
    | symbol text =>
      obtain ⟨c, printable, own⟩ := selects.own
      obtain rfl : b = c := (List.cons.inj (text.symm.trans own)).1
      have upper : b ≤ 0x7E := (by simpa [Ascii.isPrintable] using printable : _ ∧ _).2
      have : b.toNat ≤ 0x7E := UInt8.le_iff_toNat_le.1 upper
      omega

/-- A literal that is a token at once is a number. -/
theorem number_of_literal {form : Literal} {s : List UInt8} {value : TokenValue} {n : Nat}
    (h : first? s = some (.token (.literal form) value, n)) :
    form = .integer ∨ form = .float := by
  cases munch_first h with
  | selected _ yields =>
    cases yields with
    | number _ hvalue => exact Number.literal_of_evaluate hvalue

end Lexeme

/-! ## Numbers in decimal digits -/

namespace Number

/-- Decimal digits alone are a number of one form only. -/
theorem form_of_digits {form : Form} {text : List UInt8} (h : FormText form text)
    (hdigits : ∀ b ∈ text, Ascii.isDigit b = true) : form = .decimal 1 := by
  have other {b : UInt8} (hb : Ascii.isDigit b = false) : b ∉ text := by
    intro hmem
    rw [hdigits b hmem] at hb
    cases hb
  cases h with
  | plain => rfl
  | kilobytes => exact absurd (by simp) (other (b := Ascii.upperK) (by decide))
  | megabytes => exact absurd (by simp) (other (b := Ascii.upperM) (by decide))
  | float h => exact absurd (by rw [h.text_eq]; simp) (other (b := Ascii.dot) (by decide))
  | hex => exact absurd (by simp) (other (b := Ascii.lowerX) (by decide))
  | octal => exact absurd (by simp) (other (b := Ascii.lowerO) (by decide))

theorem scan_numeral {digits : List UInt8} {n : Nat} (h : Ascii.Numeral digits n)
    (hn : n < bound) :
    scan digits = (.ok (.integer, .integer (Int64.ofNat n)), digits.length) := by
  have own := length_le_longest (.plain h.nonempty h.digit) []
  rw [List.append_nil] at own
  have length_eq : (longest digits).2 = digits.length :=
    Nat.le_antisymm (longest_le_length digits) own
  have form_eq : (longest digits).1 = .decimal 1 := by
    obtain ⟨b, s, rfl⟩ := List.exists_cons_of_ne_nil h.nonempty
    have text := formText_longest (s := s) (h.digit b List.mem_cons_self)
    rw [length_eq, List.take_length] at text
    exact form_of_digits text h.digit
  have value : Ascii.numeral 10 digits = n := by
    rw [Ascii.numeral_eq_ofDigits]
    exact h.value_eq
  have whole : digits.takeWhile Ascii.isDigit = digits := by
    have taken := Ascii.takeWhile_append_of_stops h.digit (Ascii.stops_nil _)
    rw [List.append_nil] at taken
    exact taken
  have fits : ¬ (bound - 1) / 1 < n := by
    rw [Nat.div_one]
    omega
  have reading : scan digits =
      (evaluate (longest digits).1 (digits.take (longest digits).2), (longest digits).2) := rfl
  rw [reading, form_eq, length_eq, List.take_length]
  simp only [evaluate, whole, value, if_neg (Nat.not_le.2 hn), if_neg fits, Nat.mul_one]

end Number

namespace Lexeme

theorem first_digit {b : UInt8} (hb : Ascii.isDigit b = true) (s : List UInt8) :
    first? (b :: s) = some (ofNumber (b :: s)) := by
  have other {c : UInt8} (hc : Ascii.isDigit c = false) : b ≠ c := by
    rintro rfl
    rw [hb] at hc
    cases hc
  have blank : ¬ Ascii.isBlank b = true := by
    simp only [Ascii.isBlank, Bool.or_eq_true, beq_iff_eq, not_or]
    exact ⟨⟨⟨other (by decide), other (by decide)⟩, other (by decide)⟩, other (by decide)⟩
  rw [first?, startingWith, if_neg blank, if_neg (other (by decide)), if_neg (other (by decide)),
    if_neg (other (by decide)), if_pos hb]

/-- An integer of a token is read from its decimal digits. -/
theorem first_numeral {digits : List UInt8} {n : Nat} {v : Int64} (h : Ascii.Numeral digits n)
    (hv : v.toInt = n) :
    first? digits = some (.token (.literal .integer) (.integer v), digits.length) := by
  have hn : n < Number.bound := by
    have := v.toInt_lt
    rw [hv] at this
    have : Number.bound = 2 ^ 63 := rfl
    omega
  have value : Int64.ofNat n = v := by
    rw [← Int64.toInt_inj, hv]
    exact Int64.toInt_ofNat_of_lt hn
  obtain ⟨b, s, rfl⟩ := List.exists_cons_of_ne_nil h.nonempty
  rw [first_digit (h.digit b List.mem_cons_self), ofNumber, Number.scan_numeral h hn, value]

end Lexeme

/-! ## What is written -/

namespace Modifiers

/-- The flags of a run are written as a run with those flags. -/
theorem ofRun_text {run : List UInt8} {modifiers : Modifiers} (h : Flags run modifiers) :
    (∀ b ∈ Ascii.bytes modifiers.text, Ascii.isWordByte b = true) ∧
      ofRun (Ascii.bytes modifiers.text) = .ok modifiers ∧
      Text.toBytes modifiers.text = Ascii.bytes modifiers.text := by
  obtain rfl : modifiers = { bits := runBits run } := by rw [← h.bits_eq]
  unfold runBits
  split <;> split <;>
    exact ⟨List.all_eq_true.1 (by decide +kernel), rfl, by decide +kernel⟩

end Modifiers

/-- The text that a payload keeps.  Only names, strings and regular expressions
keep any. -/
def TokenValue.kept : TokenValue → List UInt8
  | .text content => content
  | .regex pattern _ => pattern
  | _ => []

namespace Keyword

theorem toBytes_spelling (k : Keyword) : Text.toBytes k.spelling = k.bytes := by
  have ascii : k.spelling.toList.all (fun c => c.toNat < 128) = true := by
    cases k <;> decide +kernel
  exact Text.toBytes_eq_bytes fun c hc => of_decide_eq_true (List.all_eq_true.1 ascii c hc)

end Keyword

theorem Operator.toBytes_spelling (op : Operator) :
    Text.toBytes op.spelling = Ascii.bytes op.spelling := by
  cases op <;> decide +kernel

theorem toBytes_symbol {b : UInt8} (h : b.toNat < 128) :
    Text.toBytes (String.ofList [Char.ofNat b.toNat]) = [b] := by
  have all : ∀ i : Fin 128,
      Text.toBytes (String.ofList [Char.ofNat i.1]) = [UInt8.ofNat i.1] := by decide +kernel
  rw [all ⟨b.toNat, h⟩, UInt8.ofNat_toNat]

theorem toBytes_numeral (n : Nat) :
    Text.toBytes (toString n) = Ascii.ofChars (toString n).toList := by
  have ascii : Pattern.letters.all (fun c => c.toNat < 128) = true := by decide
  exact Text.toBytes_eq_bytes fun c hc =>
    of_decide_eq_true (List.all_eq_true.1 ascii c (Pattern.letters_numeral n c hc))

/-- A written pattern is between braces with items in between. -/
theorem Pattern.braced_render {es : List Element} (h : WellFormed es) :
    Braced (Ascii.bytes (render es)) := by
  have read := parse_render h
  rw [bytes_render] at read ⊢
  exact braced_of_parse read

theorem toBytes_string (content : List UInt8)
    (utf8 : Text.toBytes (Text.ofBytes content) = content) :
    Text.toBytes (Token.valueText (.literal .textString) (.text content)) =
      Ascii.quote :: (content ++ [Ascii.quote]) := by
  have delimiter : Text.toBytes "\"" = [Ascii.quote] := by decide +kernel
  rw [Token.valueText, if_pos rfl, Text.toBytes_append, Text.toBytes_append, utf8, delimiter]
  rfl

theorem toBytes_regex (pattern : List UInt8) (modifiers : Modifiers)
    (utf8 : Text.toBytes (Text.ofBytes pattern) = pattern) :
    Text.toBytes (Token.valueText (.literal .regex) (.regex pattern modifiers)) =
      Ascii.slash :: (pattern ++ Ascii.slash :: Text.toBytes modifiers.text) := by
  have delimiter : Text.toBytes "/" = [Ascii.slash] := by decide +kernel
  rw [Token.valueText, Text.toBytes_append, Text.toBytes_append, Text.toBytes_append, utf8,
    delimiter, List.append_assoc]
  rfl

/-- A literal may be closed in other words that say the same. -/
theorem Scans.closed_by (service : PatternService) {form : Quoted}
    {rest other content ending closing : List UInt8} {modifiers : Modifiers}
    (hopen : Lexeme.first? (form.delimiter :: (content ++ (ending ++ rest))) =
      some (.literalOpening form, 1))
    (gathers : Gathers form (ending ++ rest) [] content)
    (closes : Closes rest form ending modifiers) (closes' : Closes other form closing modifiers) :
    Scans service other (form.delimiter :: (content ++ closing))
      (.literal (Piece.finish form content modifiers).1)
      (Piece.finish form content modifiers).2 := by
  have same := (closes.head_append rest).trans (closes'.head_append other).symm
  exact .literal (Lexeme.literalOpening_congr (head_append content same) hopen)
    (gathers.congr same) closes'

/-- What is no literal is written as it stood, an integer in decimal digits. -/
theorem Lexeme.reprinted {rest slice : List UInt8} {kind : TokenKind} {value : TokenValue}
    (h : first? (slice ++ rest) = some (.token kind value, slice.length))
    (hfloat : kind ≠ .literal .float) (utf8 : Text.toBytes (Text.ofBytes value.kept) = value.kept)
    (span : Span) :
    let text := Text.toBytes (Token.ofSpan kind value span).sourceText
    first? text = some (.token kind value, text.length) := by
  intro text
  have alone (hkind : ∀ form, kind ≠ .literal form) (htext : text = slice) :
      first? text = some (.token kind value, text.length) := by
    obtain ⟨b, s, rfl⟩ : ∃ b s, slice = b :: s :=
      List.exists_cons_of_ne_nil (List.length_pos_iff.1 (first_pos h))
    rw [htext]
    exact first_slice hkind h
  have takes := first_takes Pattern.parse h
  rw [List.take_left] at takes
  cases takes with
  | keyword k => exact alone nofun k.toBytes_spelling
  | operator op => exact alone nofun op.toBytes_spelling
  | symbol b => exact alone nofun (toBytes_symbol (printable_of_symbol h))
  | naming n => exact alone nofun utf8
  | textString | regex | hexString =>
    rcases number_of_literal h with other | other <;> cases other
  | float => exact absurd rfl hfloat
  | @integer _ n v _ hv =>
    have written : text = Ascii.ofChars (toString n).toList := by
      show Text.toBytes (toString v.toInt) = _
      rw [hv]
      exact toBytes_numeral n
    rw [written]
    exact first_numeral (Ascii.numeral_toString n) hv

/-- What a token is read from may be written as its source text. -/
theorem Scans.reprinted {rest slice : List UInt8} {kind : TokenKind} {value : TokenValue}
    (h : Scans Pattern.parse rest slice kind value) (hfloat : kind ≠ .literal .float)
    (utf8 : Text.toBytes (Text.ofBytes value.kept) = value.kept) (span : Span) :
    Scans Pattern.parse [] (Text.toBytes (Token.ofSpan kind value span).sourceText) kind value := by
  cases h with
  | token h =>
    refine .token ?_
    rw [List.append_nil]
    exact Lexeme.reprinted h hfloat utf8 span
  | @hexString _ elements _ hread =>
    have wellFormed := Pattern.wellFormed_of_parse hread
    have written : Text.toBytes (Pattern.render elements) = Ascii.bytes (Pattern.render elements) :=
      Text.toBytes_eq_bytes (Pattern.render_ascii elements)
    show Scans Pattern.parse [] (Text.toBytes (Pattern.render elements)) _ _
    rw [written]
    refine .hexString ?_ (Pattern.parse_render wellFormed)
    rw [List.append_nil]
    exact Pattern.extent_of_braced (Pattern.braced_render wellFormed)
  | @literal form content ending modifiers hopen gathers closes =>
    have own {closing : List UInt8} (closes' : Closes [] form closing modifiers) :=
      Scans.closed_by Pattern.parse hopen gathers closes closes'
    cases closes with
    | string =>
      show Scans Pattern.parse [] (Text.toBytes (Token.valueText (.literal .textString)
        (.text content))) (.literal .textString) (.text content)
      rw [toBytes_string content utf8]
      exact own .string
    | regex hrun stops hmodifiers =>
      obtain ⟨word, read, flags⟩ := Modifiers.ofRun_text (Modifiers.flags_of_ofRun hmodifiers)
      show Scans Pattern.parse [] (Text.toBytes (Token.valueText (.literal .regex)
        (.regex content modifiers))) (.literal .regex) (.regex content modifiers)
      rw [toBytes_regex content modifiers utf8, flags]
      exact own (.regex word (Ascii.stops_nil _) read)

namespace Lexer

/-- Every token of a course is read from its slice. -/
theorem Course.scans {service : PatternService} {rest : List UInt8} {p : Position}
    {cells : List Cell} (h : Course service rest p cells) {c : Cell} (hc : c ∈ cells) :
    ∃ after, Scans service after c.slice c.token.kind c.token.value := by
  induction h with
  | nil => cases hc
  | cons _ scans _ ih =>
    rcases List.mem_cons.1 hc with rfl | hc
    · exact ⟨_, scans⟩
    · exact ih hc

/-- A text that a token is read from is a source with that token only. -/
theorem tokenize_of_scans {text : List UInt8} {kind : TokenKind} {value : TokenValue}
    {service : PatternService} (h : Scans service [] text kind value)
    (preferences : LexicalPreferences) :
    (new text preferences service).tokenize.result =
      .ok [Token.ofSpan kind value
          { start := Position.start, stop := Position.start.advanceBytes text },
        Token.atEnd (Position.start.advanceBytes text)] := by
  let lx := new text preferences service
  let cell : Cell :=
    { gap := [], slice := text,
      token := Token.ofSpan kind value
        { start := Position.start, stop := Position.start.advanceBytes text } }
  have course : Course lx.service [] lx.position [cell] := .cons .nil h (.nil _)
  have rest_eq : lx.rest = [cell].flatMap Cell.text ++ [] := by
    simp [lx, cell, new, Cell.text]
  exact course.tokenize_eq .nil rfl rest_eq

/-- Tokens written as source text are read back.  Of the tokens of a source
without errors all but floats and the end token come back, if what they keep of
the source is a text. -/
theorem tokenize_sourceText {source : List UInt8} {preferences : LexicalPreferences}
    {tokens : List Token} {t : Token}
    (h : (new source preferences Pattern.parse).tokenize.result = .ok tokens) (ht : t ∈ tokens)
    (heof : t.kind ≠ .eof) (hfloat : t.kind ≠ .literal .float)
    (utf8 : ∃ s : String, Text.toBytes s = t.value.kept) (others : LexicalPreferences) :
    let text := Text.toBytes t.sourceText
    (new text others Pattern.parse).tokenize.result =
      .ok [Token.ofSpan t.kind t.value
          { start := Position.start, stop := Position.start.advanceBytes text },
        Token.atEnd (Position.start.advanceBytes text)] := by
  obtain ⟨cells, last, -, course, -, rfl⟩ := course_of_tokenize rfl h
  obtain ⟨c, hc, rfl⟩ : ∃ c ∈ cells, c.token = t := by
    rcases List.mem_append.1 ht with hcell | hend
    · exact List.mem_map.1 hcell
    · rw [List.mem_singleton.1 hend] at heof
      exact absurd rfl heof
  obtain ⟨after, scans⟩ := course.scans hc
  have kept := Text.toBytes_ofBytes (Text.isUtf8_iff.2 utf8)
  exact tokenize_of_scans (scans.reprinted hfloat kept c.token.span) others

theorem tokenize_sourceText_flags :
    let source := Ascii.bytes "$a = /b+/sis"
    let regex : TokenValue := .regex (Ascii.bytes "b+") { bits := 3 }
    let t := Token.ofSpan (.literal .regex) regex
      { start := { offset := 5, line := 1, column := 6 },
        stop := { offset := 12, line := 1, column := 13 } }
    let text := Ascii.bytes "/b+/is"
    (∃ tokens, (new source .builtin Pattern.parse).tokenize.result = .ok tokens ∧ t ∈ tokens) ∧
      Text.toBytes t.sourceText = text ∧
      (new text .builtin Pattern.parse).tokenize.result =
        .ok [Token.ofSpan (.literal .regex) regex
            { start := Position.start, stop := Position.start.advanceBytes text },
          Token.atEnd (Position.start.advanceBytes text)] := by
  intro source regex t text
  have read : (new source .builtin Pattern.parse).tokenize.result = .ok
      [Token.ofSpan (.naming .stringIdentifier) (.text (Ascii.bytes "$a"))
          { start := { offset := 0, line := 1, column := 1 },
            stop := { offset := 2, line := 1, column := 3 } },
        Token.ofSpan (.symbol Ascii.equals) .none
          { start := { offset := 3, line := 1, column := 4 },
            stop := { offset := 4, line := 1, column := 5 } },
        t, Token.atEnd { offset := 12, line := 1, column := 13 }] := by
    with_unfolding_all rfl
  have written : Text.toBytes t.sourceText = text := by decide +kernel
  have back := tokenize_sourceText read (t := t) (by simp) nofun nofun
    ⟨"b+", by decide +kernel⟩ .builtin
  rw [written] at back
  exact ⟨⟨_, read, by simp⟩, written, back⟩

end Lexer
end RuleLex
