/-
Steps of the lexer by indices.

Outside block comments the lexer by indices scans without a trap and comes to the
step of the lexer at the same place: `scanInitial_eq`, `scanString_eq` and
`scanRegex_eq`.  They are put together from one lemma for each way a lexeme or a
piece of a literal is scanned.  What was looked at ahead of a cut bounds the cut,
and what was measured bounds the product.

The mode, the buffer and the delimiter stay in step with what `Lexer` keeps in its
mode because each opening overwrites the delimiter and each exit empties the buffer,
`beginLiteral_eq` and `clear_eq`.

A block comment is taken star by star here and all at once there.  Both come to
the same answer, `reaches_of_chunk`.
-/
import RuleLex.Proofs.Checked.Cursor
import RuleLex.Proofs.Comment
import RuleLex.Proofs.Lexer.Munch

namespace RuleLex

open Checked (ok_bind)
open Lexeme (ofSlash ofBrace ofNumber ofWord ofSigil ofPunctuation startingWith first?)

theorem Piece.startsWithHexPair_iff (s : List UInt8) :
    Piece.startsWithHexPair s = true ↔
      s[0]?.any Ascii.isHexDigit = true ∧ s[1]?.any Ascii.isHexDigit = true := by
  match s with
  | [] => simp [Piece.startsWithHexPair]
  | [_] => simp [Piece.startsWithHexPair]
  | _ :: _ :: _ => simp [Piece.startsWithHexPair]

namespace Lexer

/-! ## Numbers -/

namespace Indexed

/-- The product of the digits and the multiplier is only taken where it fits. -/
theorem evaluate_decimal {text : List UInt8} {multiplier : Nat} (hpos : 0 < multiplier)
    (h : decimalDigits multiplier text = .ok (text.takeWhile Ascii.isDigit)) :
    evaluate (.decimal multiplier) text = .ok (Number.evaluate (.decimal multiplier) text) := by
  simp only [evaluate, Number.evaluate, h, ok_bind]
  split
  · rfl
  · split
    · rfl
    · rename_i small
      have product : Ascii.numeral 10 (text.takeWhile Ascii.isDigit) * multiplier ≤
          Number.bound - 1 := (Nat.le_div_iff_mul_le hpos).1 (Nat.not_lt.1 small)
      have pos : 0 < Number.bound := by decide
      rw [Checked.mulBelow_eq (by omega)]
      rfl

theorem decimalDigits_suffixed {digits : List UInt8} {a : UInt8} {multiplier : Nat}
    (hdigits : ∀ b ∈ digits, Ascii.isDigit b = true) (ha : Ascii.isDigit a = false)
    (hsuffix : multiplier ≠ 1) :
    decimalDigits multiplier (digits ++ [a, Ascii.upperB]) =
      .ok ((digits ++ [a, Ascii.upperB]).takeWhile Ascii.isDigit) := by
  have length : (digits ++ [a, Ascii.upperB]).length = digits.length + 2 := by simp
  rw [decimalDigits, if_neg hsuffix, Checked.sub_eq (by omega), ok_bind,
    Checked.slice_eq (Nat.zero_le _) (by omega), length, List.drop_zero,
    Ascii.takeWhile_append_of_stops hdigits (Ascii.stops_cons_iff.2 ha)]
  exact congrArg _ List.take_left

/-- A number is as long as its mark and its suffix need it to be. -/
theorem evaluate_eq {form : Number.Form} {text : List UInt8} (h : Number.FormText form text) :
    evaluate form text = .ok (Number.evaluate form text) := by
  have marked (a b : UInt8) (digits : List UInt8) :
      Checked.slice (a :: b :: digits) 2 (a :: b :: digits).length = .ok digits := by
    rw [Checked.slice_eq (by simp) (Nat.le_refl _)]
    simp
  cases h with
  | plain nonempty hdigits =>
    refine evaluate_decimal Nat.one_pos ?_
    rw [decimalDigits, if_pos rfl, List.takeWhile_eq_self_iff.2 hdigits]
    rfl
  | kilobytes nonempty hdigits =>
    exact evaluate_decimal (by decide) (decimalDigits_suffixed hdigits (by decide) (by decide))
  | megabytes nonempty hdigits =>
    exact evaluate_decimal (by decide) (decimalDigits_suffixed hdigits (by decide) (by decide))
  | float => rfl
  | hex =>
    simp only [evaluate, marked, ok_bind]
    rfl
  | octal =>
    simp only [evaluate, marked, ok_bind]
    rfl

end Indexed

variable {source s : List UInt8} {lx : Lexer} {old : Position} {n : Nat} {b : UInt8}

/-! ## What a change of mode comes to -/

/-- Opening a literal empties a buffer that is empty, and overwrites the delimiter. -/
theorem beginLiteral_eq (hm : lx.mode = .initial) (form : Quoted) (start : Position) :
    ((lx.consume n).indexed source old).beginLiteral form start =
      ((lx.consume n).enter (.quoted form start [])).indexed source old := by
  have kind : (lx.consume n).mode.kind = .initial := congrArg Mode.kind hm
  have other : ¬ (lx.consume n).mode.kind = .quoted form := by simp [kind]
  exact if_neg other

/-- Opening a comment leaves the buffer alone, which is empty. -/
theorem beginComment_eq (hm : lx.mode = .initial) (start : Position) :
    ((lx.consume n).indexed source old).beginComment start =
      ((lx.consume n).enter (.comment start)).indexed source old := by
  have kind : (lx.consume n).mode.kind = .initial := congrArg Mode.kind hm
  have empty : (lx.consume n).mode.gathered = [] := congrArg Mode.gathered hm
  have other : ¬ (lx.consume n).mode.kind = .comment := by simp [kind]
  refine (if_neg other).trans ?_
  simp only [indexed, empty]
  rfl

theorem delimiter_eq {opening : Position} (hopen : lx.mode.opening? = some opening) :
    lx.delimiter old = opening := by
  rw [delimiter, hopen]
  rfl

/-- What is open is left with an empty buffer; its delimiter stays where it is. -/
theorem clear_eq {opening : Position} (hopen : lx.mode.opening? = some opening) :
    { lx.indexed source old with buffer := [] }.enterMode .initial =
      (lx.enter .initial).indexed source opening := by
  have other : ¬ lx.mode.kind = .initial := by
    rw [Mode.kind_eq_initial]
    intro hm
    rw [hm] at hopen
    cases hopen
  refine (if_neg other).trans ?_
  rw [← delimiter_eq hopen]
  rfl

/-! ## What a lexeme comes to -/

theorem indexed_token {kind : TokenKind} {value : TokenValue}
    (hfirst : first? lx.rest = some (.token kind value, n)) :
    lx.stepInitial.indexed source old =
      .answer ((lx.consume n).indexed source old)
        (.ok (Token.ofSpan kind value
          { start := lx.position, stop := (lx.consume n).position })) := by
  rw [stepInitial, hfirst]
  rfl

theorem indexed_refused {fault : Fault} (hfirst : first? lx.rest = some (.refused fault, n)) :
    lx.stepInitial.indexed source old =
      .answer ((lx.consume n).indexed source old)
        (.error { line := lx.position.line, fault := fault }) := by
  rw [stepInitial, hfirst]
  rfl

theorem indexed_hexPattern (hfirst : first? lx.rest = some (.hexPattern, n)) :
    lx.stepInitial.indexed source old =
      .answer ((lx.consume n).indexed source old)
        (match lx.service (lx.rest.take n) with
        | .ok elements =>
          .ok (Token.ofSpan (.literal .hexString) (.hexPattern elements)
            { start := lx.position, stop := (lx.consume n).position })
        | .error e => .error { line := lx.position.line, fault := .hexPattern e }) := by
  have service : (lx.consume n).service = lx.service := rfl
  rw [stepInitial, hfirst]
  simp only [consult, service]
  cases lx.service (lx.rest.take n) <;> rfl

namespace Placed

theorem second_eq (h : Placed source lx) (hrest : lx.rest = b :: s) :
    (lx.indexed source old).peekAt 1 = s.head? := by
  rw [h.peekAt_eq, hrest, List.getElem?_cons_succ, List.head?_eq_getElem?]

theorem peek_consume (h : Placed source lx) (n : Nat) :
    ((lx.consume n).indexed source old).peek = lx.rest[n]? := by
  rw [(h.consume n).peek_eq]
  exact List.head?_drop

theorem spanFrom_consume (h : Placed source lx) (n : Nat) :
    ((lx.consume n).indexed source old).spanFrom lx.position =
      .ok { start := lx.position, stop := (lx.consume n).position } :=
  (h.consume n).spanFrom_eq (h.offset_le (consumes_consume lx n))

/-- A run behind the first byte. -/
theorem eatWhile_consume (h : Placed source lx) (hrest : lx.rest = b :: s)
    (test : UInt8 → Bool) :
    ((lx.consume 1).indexed source old).eatWhile test =
      .ok (s.takeWhile test, (lx.consume ((s.takeWhile test).length + 1)).indexed source old) := by
  have left : (lx.consume 1).rest = s := by simp [Lexer.consume, hrest]
  rw [(h.consume 1).eatWhile_eq, left, consume_consume, Nat.add_comm]
  rfl

/-! ## One kind of lexeme after the other -/

theorem scanNumber_eq (h : Placed source lx) (hrest : lx.rest = b :: s)
    (hb : Ascii.isDigit b = true) (hfirst : first? lx.rest = some (ofNumber lx.rest)) :
    (lx.indexed source old).scanNumber = .ok (lx.stepInitial.indexed source old) := by
  -- The text cut out is as long as was measured, so it has the form that was found.
  rcases hlongest : Number.longest lx.rest with ⟨form, n⟩
  have length : n ≤ lx.rest.length := by
    have := Number.longest_le_length lx.rest
    rwa [hlongest] at this
  have text : Number.FormText form (lx.rest.take n) := by
    have := Number.formText_longest (s := s) hb
    rwa [← hrest, hlongest] at this
  have left : (lx.indexed source old).source.drop (lx.indexed source old).pos = lx.rest := h.rest_eq.symm
  rw [Indexed.scanNumber, h.position_eq, ok_bind, left, hlongest]
  simp only [h.bumpN_eq, ok_bind, h.spanFrom_consume]
  show (Indexed.textFrom ((lx.consume n).indexed source old) lx.cursor.offset >>= _) = _
  rw [h.textFrom_eq length, ok_bind, Indexed.evaluate_eq text, ok_bind]
  simp only [ofNumber, Number.scan, hlongest] at hfirst
  cases hvalue : Number.evaluate form (lx.rest.take n) with
  | ok value =>
    rw [hvalue] at hfirst
    rw [indexed_token hfirst]
    rfl
  | error fault =>
    rw [hvalue] at hfirst
    rw [indexed_refused hfirst]
    rfl

theorem scanWord_eq (h : Placed source lx)
    (hfirst : first? lx.rest = some (ofWord (lx.rest.takeWhile Ascii.isWordByte),
      (lx.rest.takeWhile Ascii.isWordByte).length)) :
    (lx.indexed source old).scanWord lx.position = .ok (lx.stepInitial.indexed source old) := by
  rw [Indexed.scanWord, h.eatWhile_eq, ok_bind]
  simp only [h.spanFrom_consume, ok_bind]
  simp only [ofWord] at hfirst
  cases hkeyword : Keyword.ofBytes? (lx.rest.takeWhile Ascii.isWordByte) with
  | some k =>
    simp only [hkeyword] at hfirst
    rw [indexed_token hfirst]
    rfl
  | none =>
    simp only [hkeyword] at hfirst
    simp only
    split
    · rename_i long
      rw [if_pos long] at hfirst
      rw [indexed_refused hfirst]
      rfl
    · rename_i short
      rw [if_neg short] at hfirst
      split at hfirst
      · rename_i sized
        rw [indexed_token hfirst, if_pos sized]
        rfl
      · rename_i plain
        rw [indexed_token hfirst, if_neg plain]
        rfl

theorem answerName_eq (h : Placed source lx) {kind : Naming} (hn : n ≤ lx.rest.length)
    (hfirst : first? lx.rest = some (.token (.naming kind) (.text (lx.rest.take n)), n)) :
    ((lx.consume n).indexed source old).answerName (.naming kind) lx.position =
      .ok (lx.stepInitial.indexed source old) := by
  unfold Indexed.answerName
  show (Indexed.textFrom ((lx.consume n).indexed source old) lx.cursor.offset >>= _) = _
  rw [h.textFrom_eq hn, ok_bind, h.spanFrom_consume, ok_bind, indexed_token hfirst]
  rfl

theorem scanSigil_eq (h : Placed source lx) (hrest : lx.rest = b :: s)
    (hfirst : first? lx.rest = some (ofSigil b s)) :
    (lx.indexed source old).scanSigil b lx.position = .ok (lx.stepInitial.indexed source old) := by
  rw [Indexed.scanSigil, h.bump_eq, ok_bind, h.eatWhile_consume hrest, ok_bind]
  simp only [ofSigil] at hfirst
  simp only
  split
  · rename_i long
    rw [if_pos long] at hfirst
    rw [indexed_refused hfirst]
    rfl
  · rename_i short
    rw [if_neg short] at hfirst
    have star : ((lx.consume ((s.takeWhile Ascii.isWordByte).length + 1)).indexed source old).peek =
        s[(s.takeWhile Ascii.isWordByte).length]? := by
      rw [h.peek_consume, hrest, List.getElem?_cons_succ]
    rw [star]
    by_cases starred : (b == Ascii.dollar &&
        s[(s.takeWhile Ascii.isWordByte).length]? == some Ascii.star) = true
    · simp only [starred, if_true] at hfirst ⊢
      rw [(h.consume _).bump_eq, ok_bind, consume_consume]
      rw [Bool.and_eq_true, beq_iff_eq, beq_iff_eq] at starred
      obtain ⟨rfl, hstar⟩ := starred
      have length : (s.takeWhile Ascii.isWordByte).length + 2 ≤ lx.rest.length := by
        rw [hrest]
        exact Nat.succ_le_succ (List.getElem?_eq_some_iff.1 hstar).1
      have text := take_starred hstar
      rw [← hrest] at text
      refine h.answerName_eq length ?_
      rw [hfirst, List.cons_append, ← text]
      rfl
    · rw [Bool.not_eq_true] at starred
      simp only [starred, Bool.false_eq_true, if_false, List.append_nil] at hfirst ⊢
      have length : (s.takeWhile Ascii.isWordByte).length + 1 ≤ lx.rest.length := by
        rw [hrest]
        exact Nat.succ_le_succ (Ascii.runLength_le_length Ascii.isWordByte s)
      have text := take_sigil b s
      rw [← hrest] at text
      refine h.answerName_eq length ?_
      rw [hfirst, ← text]
      rfl

theorem scanPunctuation_eq (h : Placed source lx) (hrest : lx.rest = b :: s)
    (hfirst : first? lx.rest = some (ofPunctuation b s)) :
    (lx.indexed source old).scanPunctuation b lx.position = .ok (lx.stepInitial.indexed source old) := by
  rw [Indexed.scanPunctuation, h.second_eq hrest]
  cases hop : s.head?.bind (Operator.ofBytes? b) with
  | some op =>
    simp only [ofPunctuation, hop] at hfirst
    simp only [h.bumpN_eq, h.spanFrom_consume, ok_bind]
    rw [indexed_token hfirst]
    rfl
  | none =>
    simp only [ofPunctuation, hop] at hfirst
    simp only [h.bump_eq, h.spanFrom_consume, ok_bind]
    rw [indexed_token hfirst]
    rfl

theorem scanBrace_eq (h : Placed source lx) (hrest : lx.rest = Ascii.openBrace :: s)
    (hfirst : first? lx.rest = some (ofBrace s)) :
    (lx.indexed source old).scanBrace lx.position = .ok (lx.stepInitial.indexed source old) := by
  rw [Indexed.scanBrace, h.rest_indexed, ok_bind]
  rw [ofBrace, ← hrest] at hfirst
  cases hextent : Pattern.extent? lx.rest with
  | none =>
    simp only [hextent] at hfirst
    simp only [h.bump_eq, h.spanFrom_consume, ok_bind]
    rw [indexed_token hfirst]
    rfl
  | some n =>
    simp only [hextent] at hfirst
    have length : n ≤ lx.rest.length := (Pattern.isLongest_of_extent hextent).1
    simp only [Checked.slice_eq (Nat.zero_le _) length, h.bumpN_eq, h.spanFrom_consume, ok_bind,
      List.drop_zero, Nat.sub_zero]
    rw [indexed_hexPattern hfirst]
    show (match lx.service (lx.rest.take n) with | .ok _ => _ | .error _ => _) = _
    cases lx.service (lx.rest.take n) <;> rfl

theorem scanSlash_eq (h : Placed source lx) (hm : lx.mode = .initial)
    (hrest : lx.rest = Ascii.slash :: s) (hfirst : first? lx.rest = some (ofSlash s)) :
    (lx.indexed source old).scanSlash lx.position = .ok (lx.stepInitial.indexed source old) := by
  rw [Indexed.scanSlash, h.second_eq hrest]
  rw [ofSlash] at hfirst
  by_cases hstar : s.head? = some Ascii.star
  · rw [if_pos hstar] at hfirst ⊢
    rw [h.bumpN_eq, ok_bind, beginComment_eq hm, stepInitial, hfirst]
    rfl
  · rw [if_neg hstar] at hfirst ⊢
    by_cases hslash : s.head? = some Ascii.slash
    · have run : Ascii.runLength (· != Ascii.newline) lx.rest =
          1 + Ascii.runLength (· != Ascii.newline) s := by
        rw [hrest, Nat.add_comm]
        rfl
      rw [if_pos hslash] at hfirst ⊢
      rw [h.eatWhile_eq, ok_bind, run, stepInitial, hfirst]
      rfl
    · rw [if_neg hslash] at hfirst ⊢
      rw [h.bump_eq, ok_bind, beginLiteral_eq hm, stepInitial, hfirst]
      rfl

theorem scanInitial_eq (h : Placed source lx) (hm : lx.mode = .initial) :
    (lx.indexed source old).scanInitial = .ok (lx.stepInitial.indexed source old) := by
  rw [Indexed.scanInitial, h.position_eq, ok_bind, h.peek_eq]
  cases hrest : lx.rest with
  | nil =>
    rw [stepInitial, hrest]
    rfl
  | cons b s =>
    have first : first? lx.rest = some (startingWith b s) := by rw [hrest]; rfl
    rw [startingWith] at first
    simp only [List.head?_cons]
    by_cases hblank : Ascii.isBlank b = true
    · rw [if_pos hblank] at first ⊢
      rw [h.eatWhile_eq, ok_bind, stepInitial, first, hrest]
      rfl
    rw [if_neg hblank] at first ⊢
    by_cases hslash : b = Ascii.slash
    · subst hslash
      rw [if_pos rfl] at first ⊢
      exact h.scanSlash_eq hm hrest first
    rw [if_neg hslash] at first ⊢
    by_cases hquote : b = Ascii.quote
    · rw [if_pos hquote] at first ⊢
      rw [h.bump_eq, ok_bind, beginLiteral_eq hm, stepInitial, first]
      rfl
    rw [if_neg hquote] at first ⊢
    by_cases hbrace : b = Ascii.openBrace
    · subst hbrace
      rw [if_pos rfl] at first ⊢
      exact h.scanBrace_eq hrest first
    rw [if_neg hbrace] at first ⊢
    by_cases hdigit : Ascii.isDigit b = true
    · rw [if_pos hdigit, ← hrest] at first
      rw [if_pos hdigit]
      exact h.scanNumber_eq hrest hdigit first
    rw [if_neg hdigit] at first ⊢
    by_cases hword : Ascii.isWordStart b = true
    · rw [if_pos hword, ← hrest] at first
      rw [if_pos hword]
      exact h.scanWord_eq first
    rw [if_neg hword] at first ⊢
    by_cases hsigil : b = Ascii.dollar ∨ b = Ascii.hash ∨ b = Ascii.atSign
    · rw [if_pos hsigil] at first ⊢
      exact h.scanSigil_eq hrest first
    rw [if_neg hsigil, ← h.second_eq hrest] at first
    rw [if_neg hsigil]
    by_cases hbang : b = Ascii.bang ∧ (lx.indexed source old).peekAt 1 ≠ some Ascii.equals
    · rw [if_pos hbang] at first ⊢
      exact h.scanSigil_eq hrest first
    rw [if_neg hbang] at first ⊢
    by_cases hprintable : Ascii.isPrintable b = true
    · rw [if_pos hprintable] at first ⊢
      exact h.scanPunctuation_eq hrest first
    · rw [if_neg hprintable] at first ⊢
      rw [h.bump_eq, ok_bind, indexed_refused first]
      rfl

end Placed

/-! ## What a piece of a literal comes to -/

variable {form : Quoted} {opening : Position} {content : List UInt8}

theorem indexed_breakOff (hm : lx.mode = .quoted form opening content) (e : LexError) :
    (lx.breakOff form opening e).indexed source opening =
      (lx.indexed source old).literalError e := by
  have delimiter : lx.delimiter old = opening := delimiter_eq (congrArg Mode.opening? hm)
  have kind : lx.mode.kind = .quoted form := congrArg Mode.kind hm
  unfold breakOff Indexed.literalError
  show _ = Indexed.Step.answer (if lx.preferences.resetModeOnError = true then _ else _) _
  split
  · rw [clear_eq (congrArg Mode.opening? hm)]
    rfl
  · simp only [indexed, delimiter, kind]
    rfl

theorem indexed_answerInitial (hm : lx.mode = .quoted form opening content)
    (result : Except LexError Token) :
    (lx.answerInitial result).indexed source opening =
      .answer ({ lx.indexed source old with buffer := [] }.enterMode .initial) result := by
  rw [clear_eq (congrArg Mode.opening? hm)]
  rfl

theorem indexed_content (hm : lx.mode = .quoted form opening content)
    (hpiece : Piece.first form lx.rest = (.content, n)) :
    (lx.stepQuoted form opening content).indexed source opening =
      ((lx.consume n).indexed source old).push (lx.rest.take n) := by
  have inside : (lx.consume n).mode = .quoted form opening content := hm
  have kind : (lx.consume n).mode.kind = .quoted form := congrArg Mode.kind inside
  have buffer : (lx.consume n).mode.gathered = content := congrArg Mode.gathered inside
  have delimiter : (lx.consume n).delimiter old = opening :=
    delimiter_eq (congrArg Mode.opening? inside)
  rw [stepQuoted, hpiece]
  unfold Indexed.push
  -- Clearing the buffer makes up for what is pushed before the length is looked at.
  show _ = if limits.maxLiteralSize < ((lx.consume n).mode.gathered ++ lx.rest.take n).length
    then ((lx.consume n).indexed source old).literalError
      { line := ((lx.consume n).delimiter old).line,
        fault := .literalTooLong ((lx.consume n).mode.gathered ++ lx.rest.take n).length }
    else .goOn { (lx.consume n).indexed source old with
      buffer := (lx.consume n).mode.gathered ++ lx.rest.take n }
  rw [buffer, delimiter]
  simp only
  split
  · exact indexed_breakOff inside _
  · simp only [indexed, kind, delimiter]
    rfl

theorem indexed_broken {fault : Fault} (hm : lx.mode = .quoted form opening content)
    (hpiece : Piece.first form lx.rest = (.broken fault, n)) :
    (lx.stepQuoted form opening content).indexed source opening =
      ((lx.consume n).indexed source old).literalError { line := lx.line, fault := fault } := by
  have inside : (lx.consume n).mode = .quoted form opening content := hm
  rw [stepQuoted, hpiece]
  exact indexed_breakOff inside _

theorem indexed_exhausted (hm : lx.mode = .quoted form opening content)
    (hpiece : Piece.first form lx.rest = (.exhausted, n)) :
    (lx.stepQuoted form opening content).indexed source opening =
      ((lx.consume n).indexed source old).leave
        { line := ((lx.consume n).delimiter old).line, fault := Piece.unterminated form } := by
  have inside : (lx.consume n).mode = .quoted form opening content := hm
  rw [stepQuoted, hpiece, delimiter_eq (congrArg Mode.opening? inside)]
  exact indexed_answerInitial inside _

theorem indexed_badModifier (hm : lx.mode = .quoted form opening content)
    (hpiece : Piece.first form lx.rest = (.badModifier b, n)) :
    (lx.stepQuoted form opening content).indexed source opening =
      ((lx.consume n).indexed source old).leave
        { line := lx.line, fault := .invalidRegexModifier b } := by
  have inside : (lx.consume n).mode = .quoted form opening content := hm
  rw [stepQuoted, hpiece]
  exact indexed_answerInitial inside _

namespace Placed

/-- The opening of a literal is behind the lexer, so its span is one. -/
theorem finishLiteral_eq (h : Placed source lx) (hm : lx.mode = .quoted form opening content)
    (hopening : opening.offset ≤ lx.cursor.offset) :
    (lx.indexed source old).finishLiteral =
      .ok (content, { start := opening, stop := lx.position },
        (lx.enter .initial).indexed source opening) := by
  have gathered : lx.mode.gathered = content := congrArg Mode.gathered hm
  have outside : Placed source (lx.enter .initial) :=
    h.of_consumes (n := 0) ⟨rfl, rfl, rfl, rfl⟩
  have span : ((lx.enter .initial).indexed source opening).spanFrom opening =
      .ok { start := opening, stop := lx.position } := outside.spanFrom_eq hopening
  unfold Indexed.finishLiteral
  rw [clear_eq (congrArg Mode.opening? hm)]
  show (((lx.enter .initial).indexed source opening).spanFrom opening >>= _) = _
  rw [span, ← gathered]
  rfl

theorem close_eq {modifiers : Modifiers} (h : Placed source lx)
    (hm : lx.mode = .quoted form opening content) (hopening : opening.offset ≤ lx.cursor.offset)
    (hpiece : Piece.first form lx.rest = (.closing modifiers, n)) :
    ((lx.consume n).indexed source old).close form modifiers =
      .ok ((lx.stepQuoted form opening content).indexed source opening) := by
  have forward := Nat.le_trans hopening (h.offset_le (consumes_consume lx n))
  have inside : (lx.consume n).mode = .quoted form opening content := hm
  rw [stepQuoted, hpiece, Indexed.close, (h.consume n).finishLiteral_eq inside forward, ok_bind]
  rfl

theorem pushEscape_eq (h : Placed source lx) (hm : lx.mode = .quoted form opening content)
    (hpiece : Piece.first form lx.rest = (.content, n)) :
    (lx.indexed source old).pushEscape n =
      .ok ((lx.stepQuoted form opening content).indexed source opening) := by
  have length : n ≤ lx.rest.length := Piece.content_le_length hpiece
  rw [Indexed.pushEscape, h.rest_indexed, ok_bind, Checked.slice_eq (Nat.zero_le _) length,
    ok_bind, h.bumpN_eq, ok_bind, List.drop_zero, Nat.sub_zero, indexed_content hm hpiece]
  rfl

/-- A run of plain bytes. -/
theorem pushRun_eq (h : Placed source lx) (hm : lx.mode = .quoted form opening content)
    (test : UInt8 → Bool)
    (hpiece : Piece.first form lx.rest = (.content, Ascii.runLength test lx.rest)) :
    (do
      let (run, after) ← (lx.indexed source old).eatWhile test
      pure (after.push run)) =
      .ok ((lx.stepQuoted form opening content).indexed source opening) := by
  rw [h.eatWhile_eq, ok_bind, indexed_content hm hpiece, Ascii.take_runLength]
  rfl

/-! ## Strings -/

theorem scanStringEscape_eq (h : Placed source lx) (hm : lx.mode = .quoted .string opening content)
    (hrest : lx.rest = b :: s)
    (hpiece : Piece.first .string lx.rest = Piece.stringEscape s) :
    (lx.indexed source old).scanStringEscape =
      .ok ((lx.stepQuoted .string opening content).indexed source opening) := by
  rw [Indexed.scanStringEscape, h.second_eq hrest]
  cases s with
  | nil =>
    rw [h.bump_eq, ok_bind, indexed_exhausted hm hpiece]
    rfl
  | cons c t =>
    have pair : ((lx.indexed source old).peekAt 2).any Ascii.isHexDigit = true ∧
        ((lx.indexed source old).peekAt 3).any Ascii.isHexDigit = true ↔
          Piece.startsWithHexPair t = true := by
      rw [h.peekAt_eq, h.peekAt_eq, hrest]
      exact (Piece.startsWithHexPair_iff t).symm
    simp only [List.head?_cons, pair]
    rw [Piece.stringEscape] at hpiece
    by_cases hsimple : Piece.isSimpleEscape c = true
    · rw [if_pos hsimple] at hpiece ⊢
      exact h.pushEscape_eq hm hpiece
    rw [if_neg hsimple] at hpiece ⊢
    by_cases hcode : c = Ascii.lowerX ∧ Piece.startsWithHexPair t = true
    · rw [if_pos hcode] at hpiece ⊢
      exact h.pushEscape_eq hm hpiece
    rw [if_neg hcode] at hpiece ⊢
    rw [h.bumpN_eq, ok_bind]
    by_cases hnewline : c = Ascii.newline
    · rw [if_pos hnewline] at hpiece ⊢
      rw [indexed_broken hm hpiece]
      rfl
    · rw [if_neg hnewline] at hpiece ⊢
      rw [indexed_broken hm hpiece]
      rfl

theorem scanString_eq (h : Placed source lx) (hm : lx.mode = .quoted .string opening content)
    (hopening : opening.offset ≤ lx.cursor.offset) :
    (lx.indexed source old).scanString =
      .ok ((lx.stepQuoted .string opening content).indexed source opening) := by
  rw [Indexed.scanString, h.peek_eq]
  cases hrest : lx.rest with
  | nil =>
    have hpiece : Piece.first .string lx.rest = (.exhausted, 0) := congrArg Piece.ofString hrest
    rw [indexed_exhausted hm hpiece]
    rfl
  | cons b s =>
    have hpiece : Piece.first .string lx.rest = Piece.ofString (b :: s) := congrArg Piece.ofString hrest
    rw [Piece.ofString] at hpiece
    simp only [List.head?_cons]
    by_cases hquote : b = Ascii.quote
    · rw [if_pos hquote] at hpiece ⊢
      rw [h.bump_eq, ok_bind]
      exact h.close_eq hm hopening hpiece
    rw [if_neg hquote] at hpiece ⊢
    by_cases hnewline : b = Ascii.newline
    · rw [if_pos hnewline] at hpiece ⊢
      rw [h.bump_eq, ok_bind, indexed_broken hm hpiece]
      rfl
    rw [if_neg hnewline] at hpiece ⊢
    by_cases hbackslash : b = Ascii.backslash
    · rw [if_pos hbackslash] at hpiece ⊢
      exact h.scanStringEscape_eq hm hrest hpiece
    · rw [if_neg hbackslash, ← hrest] at hpiece
      rw [if_neg hbackslash]
      exact h.pushRun_eq hm _ hpiece

/-! ## Regular expressions -/

theorem scanRegexEscape_eq (h : Placed source lx) (hm : lx.mode = .quoted .regex opening content)
    (hrest : lx.rest = b :: s)
    (hpiece : Piece.first .regex lx.rest = Piece.regexEscape s) :
    (lx.indexed source old).scanRegexEscape =
      .ok ((lx.stepQuoted .regex opening content).indexed source opening) := by
  rw [Indexed.scanRegexEscape, h.second_eq hrest]
  cases s with
  | nil =>
    rw [h.bump_eq, ok_bind, indexed_exhausted hm hpiece]
    rfl
  | cons c t =>
    rw [Piece.regexEscape] at hpiece
    simp only [List.head?_cons]
    by_cases hnewline : c = Ascii.newline
    · rw [if_pos hnewline] at hpiece ⊢
      rw [h.bumpN_eq, ok_bind, indexed_broken hm hpiece]
      rfl
    · rw [if_neg hnewline] at hpiece ⊢
      exact h.pushEscape_eq hm hpiece

theorem closeRegex_eq (h : Placed source lx) (hm : lx.mode = .quoted .regex opening content)
    (hopening : opening.offset ≤ lx.cursor.offset) (hrest : lx.rest = b :: s)
    (hpiece : Piece.first .regex lx.rest = Piece.regexClosing s) :
    ((lx.consume 1).indexed source old).closeRegex lx.line =
      .ok ((lx.stepQuoted .regex opening content).indexed source opening) := by
  rw [Indexed.closeRegex, h.eatWhile_consume hrest, ok_bind]
  rw [Piece.regexClosing] at hpiece
  simp only at hpiece ⊢
  cases hrun : Modifiers.ofRun (s.takeWhile Ascii.isWordByte) with
  | ok modifiers =>
    rw [hrun] at hpiece
    exact h.close_eq hm hopening hpiece
  | error b =>
    rw [hrun] at hpiece
    rw [indexed_badModifier hm hpiece]
    rfl

theorem scanRegex_eq (h : Placed source lx) (hm : lx.mode = .quoted .regex opening content)
    (hopening : opening.offset ≤ lx.cursor.offset) :
    (lx.indexed source old).scanRegex =
      .ok ((lx.stepQuoted .regex opening content).indexed source opening) := by
  rw [Indexed.scanRegex, h.peek_eq]
  cases hrest : lx.rest with
  | nil =>
    have hpiece : Piece.first .regex lx.rest = (.exhausted, 0) := congrArg Piece.ofRegex hrest
    rw [indexed_exhausted hm hpiece]
    rfl
  | cons b s =>
    have hpiece : Piece.first .regex lx.rest = Piece.ofRegex (b :: s) := congrArg Piece.ofRegex hrest
    rw [Piece.ofRegex] at hpiece
    simp only [List.head?_cons]
    by_cases hslash : b = Ascii.slash
    · rw [if_pos hslash] at hpiece ⊢
      rw [h.bump_eq, ok_bind]
      exact h.closeRegex_eq hm hopening hrest hpiece
    rw [if_neg hslash] at hpiece ⊢
    by_cases hnewline : b = Ascii.newline
    · rw [if_pos hnewline] at hpiece ⊢
      rw [h.bump_eq, ok_bind, indexed_broken hm hpiece]
      rfl
    rw [if_neg hnewline] at hpiece ⊢
    by_cases hbackslash : b = Ascii.backslash
    · rw [if_pos hbackslash] at hpiece ⊢
      exact h.scanRegexEscape_eq hm hrest hpiece
    · rw [if_neg hbackslash, ← hrest] at hpiece
      rw [if_neg hbackslash]
      exact h.pushRun_eq hm _ hpiece

end Placed

/-! ## Block comments -/

/-- Nothing has been gathered in a comment, so nothing has to be cleared behind it. -/
theorem enterInitial_comment (hm : lx.mode = .comment opening) :
    (lx.indexed source old).enterMode .initial = (lx.enter .initial).indexed source opening := by
  have cleared : lx.indexed source old = { lx.indexed source old with buffer := [] } := by
    simp only [indexed, hm]
    rfl
  rw [cleared, clear_eq (congrArg Mode.opening? hm)]

theorem scan_comment (hm : lx.mode = .comment opening) :
    (lx.indexed source old).scan = (lx.indexed source old).scanComment := by
  have mode : (lx.indexed source old).mode = .comment := congrArg Mode.kind hm
  rw [Indexed.scan, mode]

theorem step_closes (hm : lx.mode = .comment opening)
    (h : Comment.closingLength? lx.rest = some n) :
    lx.step = (lx.consume n).goOnIn .initial := by
  have nonempty : lx.rest ≠ [] := by
    intro hrest
    rw [hrest] at h
    cases h
  rw [step, hm]
  simp only [stepComment, if_neg nonempty, h]

theorem step_drains (hm : lx.mode = .comment opening) (nonempty : lx.rest ≠ [])
    (h : Comment.closingLength? lx.rest = none) :
    lx.step = .goOn (lx.consume lx.rest.length) [] := by
  rw [step, hm]
  simp only [stepComment, if_neg nonempty, h]

/-- Where a comment does not close, it might as well go on behind the next star. -/
theorem reaches_of_chunk (hm : lx.mode = .comment opening) (hrest : lx.rest = b :: s)
    (hopen : ¬ (b = Ascii.star ∧ s.head? = some Ascii.slash))
    (hn : n = Ascii.runLength (· != Ascii.star) s + 1) : Reaches lx n (lx.consume n) := by
  have nonempty : lx.rest ≠ [] := by rw [hrest]; exact List.cons_ne_nil _ _
  have left : (lx.consume n).rest = s.drop (Ascii.runLength (· != Ascii.star) s) := by
    rw [hn]
    simp [consume, hrest]
  have closing : Comment.closingLength? lx.rest =
      (Comment.closingLength? (lx.consume n).rest).map (n + ·) := by
    rw [hrest, Comment.closingLength_chunk hopen, left, hn]
  have consumes := consumes_consume lx n
  -- Both take the same step, unless the comment has just been taken to its end.
  have both {after : Lexer} {reports : List Log.Event} (here : lx.step = .goOn after reports)
      (there : (lx.consume n).step = .goOn after reports) : Reaches lx n (lx.consume n) := by
    have same : lx.next = (lx.consume n).next :=
      (nextFrom_of_goOn here []).trans (nextFrom_of_goOn there []).symm
    exact ⟨consumes, congrArg Answer.result same, congrArg Answer.lexer same⟩
  cases hlater : Comment.closingLength? (lx.consume n).rest with
  | some k =>
    rw [hlater] at closing
    have there : (lx.consume n).step = ((lx.consume n).consume k).goOnIn .initial :=
      step_closes hm hlater
    rw [consume_consume] at there
    exact both (step_closes hm closing) there
  | none =>
    rw [hlater] at closing
    have here := step_drains hm nonempty closing
    have whole : n + (lx.consume n).rest.length = lx.rest.length := by
      have := Ascii.runLength_le_length (· != Ascii.star) s
      rw [left, hrest, hn, List.length_drop, List.length_cons]
      omega
    by_cases ended : (lx.consume n).rest = []
    · rw [ended, List.length_nil, Nat.add_zero] at whole
      rw [← whole] at here
      exact reaches_of_goesOn ⟨[], here⟩ consumes
    · have there : (lx.consume n).step =
          .goOn ((lx.consume n).consume (lx.consume n).rest.length) [] :=
        step_drains hm ended hlater
      rw [consume_consume, whole] at there
      exact both here there

namespace Placed

/-- At the closer the comment is left. -/
theorem scanComment_closer (h : Placed source lx) (hm : lx.mode = .comment opening)
    (hrest : lx.rest = b :: s) (hcloser : b = Ascii.star ∧ s.head? = some Ascii.slash) :
    (lx.indexed source old).scanComment =
      .ok (.goOn (((lx.consume 2).enter .initial).indexed source opening)) := by
  have inside : (lx.consume 2).mode = .comment opening := hm
  rw [Indexed.scanComment, h.peek_eq, hrest]
  simp only [List.head?_cons, h.second_eq hrest]
  rw [if_pos hcloser, h.bumpN_eq, ok_bind, enterInitial_comment inside]
  rfl

/-- Elsewhere a byte is taken and the run of other bytes than stars behind it. -/
theorem scanComment_chunk (h : Placed source lx) (hrest : lx.rest = b :: s)
    (hopen : ¬ (b = Ascii.star ∧ s.head? = some Ascii.slash)) :
    (lx.indexed source old).scanComment =
      .ok (.goOn ((lx.consume (Ascii.runLength (· != Ascii.star) s + 1)).indexed source old)) := by
  rw [Indexed.scanComment, h.peek_eq, hrest]
  simp only [List.head?_cons, h.second_eq hrest]
  rw [if_neg hopen, h.bump_eq, ok_bind, h.eatWhile_consume hrest, ok_bind]
  rfl

/-- A comment is left where it closes or the source ends, and else taken up to the
next star. -/
theorem scanComment_eq (h : Placed source lx) (hm : lx.mode = .comment opening) :
    (lx.indexed source old).scanComment = .ok (lx.step.indexed source opening) ∨
      ∃ n, 0 < n ∧ lx.rest ≠ [] ∧ Reaches lx n (lx.consume n) ∧
        (lx.indexed source old).scanComment = .ok (.goOn ((lx.consume n).indexed source old)) := by
  cases hrest : lx.rest with
  | nil =>
    refine .inl ?_
    rw [Indexed.scanComment, h.peek_eq, hrest, step, hm]
    simp only [stepComment, if_pos hrest, List.head?_nil]
    show Except.ok (Indexed.Step.answer
      ({ lx.indexed source old with buffer := [] }.enterMode .initial)
      (.error { line := (lx.delimiter old).line, fault := .unterminatedComment })) = _
    rw [clear_eq (congrArg Mode.opening? hm), delimiter_eq (congrArg Mode.opening? hm)]
    rfl
  | cons b s =>
    by_cases hcloser : b = Ascii.star ∧ s.head? = some Ascii.slash
    · refine .inl ?_
      have closing : Comment.closingLength? lx.rest = some 2 := by
        rw [hrest]
        exact if_pos hcloser
      rw [h.scanComment_closer hm hrest hcloser, step_closes hm closing]
      rfl
    · exact .inr ⟨_, Nat.succ_pos _, List.cons_ne_nil _ _, reaches_of_chunk hm hrest hcloser rfl,
        h.scanComment_chunk hrest hcloser⟩

end Placed
end Lexer
end RuleLex
