/-
The way of a lexer through a source.

A lexer in front of a gap comes past it without an answer, and in front of a
slice that a token is read from it answers that token; `Reaches` and `Gives` say
so.  The other way round nothing else leads to a token, `scans_of_next`.

`Course` strings gaps and slices together to cells that lead from one place of a
source to the rest of it.  `Course.tokenize` and `course_of_tokenize` say that
the tokens of a source are those of its cells.
-/
import RuleLex.Proofs.Lexer.Logged
import RuleLex.Proofs.Lexer.Scan
import RuleLex.Proofs.Lexer.Service

namespace RuleLex
namespace Lexer

/-! ## Coming along without an answer -/

theorem consumes_consume (lx : Lexer) (n : Nat) : Consumes lx n (lx.consume n) :=
  ⟨rfl, rfl, rfl, rfl⟩

theorem consume_consume (lx : Lexer) (m n : Nat) :
    (lx.consume m).consume n = lx.consume (m + n) := by
  simp only [consume, List.drop_drop, List.take_add, Cursor.bumpAll, List.foldl_append]

theorem Consumes.refl (lx : Lexer) : Consumes lx 0 lx := ⟨rfl, rfl, rfl, rfl⟩

theorem Consumes.trans {a b c : Lexer} {m n : Nat} (hab : Consumes a m b) (hbc : Consumes b n c) :
    Consumes a (m + n) c := by
  constructor
  · rw [hbc.rest_eq, hab.rest_eq, List.drop_drop]
  · rw [hbc.cursor_eq, hab.cursor_eq, hab.rest_eq, List.take_add, Cursor.bumpAll,
      Cursor.bumpAll, Cursor.bumpAll, List.foldl_append]
  · rw [hbc.service_eq, hab.service_eq]
  · rw [hbc.preferences_eq, hab.preferences_eq]

theorem Consumes.append {lx after : Lexer} {text rest : List UInt8}
    (h : Consumes lx text.length after) (hrest : lx.rest = text ++ rest) :
    after.rest = rest ∧ after.position = lx.position.advanceBytes text := by
  constructor
  · rw [h.rest_eq, hrest, List.drop_left]
  · rw [h.position_eq, hrest, List.take_left]

/-- What was reported before a call stands in front of its own reports. -/
theorem nextFrom_eq (reports : List Log.Event) (lx : Lexer) :
    nextFrom reports lx = { lx.next with reports := reports ++ lx.next.reports } := by
  have behind (old reports : List Log.Event) :
      nextFrom (old ++ reports) lx =
        { nextFrom reports lx with reports := old ++ (nextFrom reports lx).reports } := by
    fun_induction nextFrom reports lx with
    | case1 reports lx after new hstep ih =>
      rw [nextFrom_of_goOn hstep, List.append_assoc]
      exact ih
    | case2 reports lx after result new hstep =>
      rw [nextFrom_of_answer hstep, List.append_assoc, Logged.settle_append]
  have := behind reports []
  rw [List.append_nil] at this
  exact this

/-- The next answer of the first lexer is that of the second, which is `n` bytes
further on. -/
structure Reaches (lx : Lexer) (n : Nat) (after : Lexer) : Prop where
  consumes : Consumes lx n after
  result_eq : lx.next.result = after.next.result
  lexer_eq : lx.next.lexer = after.next.lexer

theorem Reaches.refl (lx : Lexer) : Reaches lx 0 lx := ⟨.refl lx, rfl, rfl⟩

theorem Reaches.trans {a b c : Lexer} {m n : Nat} (hab : Reaches a m b) (hbc : Reaches b n c) :
    Reaches a (m + n) c :=
  ⟨hab.consumes.trans hbc.consumes, hab.result_eq.trans hbc.result_eq,
    hab.lexer_eq.trans hbc.lexer_eq⟩

theorem reaches_of_goesOn {lx after : Lexer} {n : Nat} (h : GoesOn lx after)
    (hn : Consumes lx n after) : Reaches lx n after := by
  obtain ⟨reports, hstep⟩ := h
  have same : lx.next = nextFrom reports after := nextFrom_of_goOn hstep []
  rw [nextFrom_eq] at same
  exact ⟨hn, by rw [same], by rw [same]⟩

section Steps

variable {lx : Lexer} {n : Nat}

theorem step_blank (hm : lx.mode = .initial) (h : Lexeme.first? lx.rest = some (.blank, n)) :
    GoesOn lx (lx.consume n) := by
  refine ⟨[], ?_⟩
  rw [step, hm]
  simp only [stepInitial, h]

theorem step_lineComment (hm : lx.mode = .initial)
    (h : Lexeme.first? lx.rest = some (.lineComment, n)) :
    ∃ after, GoesOn lx after ∧ Consumes lx n after ∧ after.mode = .initial := by
  have hstep : lx.step =
      .goOn { lx.consume n with metrics := (lx.consume n).metrics.addComment } [] := by
    rw [step, hm]
    simp only [stepInitial, h]
  exact ⟨_, ⟨_, hstep⟩, ⟨rfl, rfl, rfl, rfl⟩, hm⟩

theorem step_commentOpening (hm : lx.mode = .initial)
    (h : Lexeme.first? lx.rest = some (.commentOpening, n)) :
    ∃ after, GoesOn lx after ∧ Consumes lx n after ∧ after.mode = .comment lx.position := by
  have hstep : lx.step =
      { lx.consume n with metrics := (lx.consume n).metrics.addComment }.goOnIn
        (.comment lx.position) := by
    rw [step, hm]
    simp only [stepInitial, h]
  exact ⟨_, ⟨_, hstep⟩, ⟨rfl, rfl, rfl, rfl⟩, rfl⟩

theorem step_literalOpening {form : Quoted} (hm : lx.mode = .initial)
    (h : Lexeme.first? lx.rest = some (.literalOpening form, n)) :
    ∃ after, GoesOn lx after ∧ Consumes lx n after ∧
      after.mode = .quoted form lx.position [] := by
  have hstep : lx.step = (lx.consume n).goOnIn (.quoted form lx.position []) := by
    rw [step, hm]
    simp only [stepInitial, h]
  exact ⟨_, ⟨_, hstep⟩, ⟨rfl, rfl, rfl, rfl⟩, rfl⟩

theorem step_closeComment {opening : Position} (hm : lx.mode = .comment opening)
    (h : Comment.closingLength? lx.rest = some n) :
    ∃ after, GoesOn lx after ∧ Consumes lx n after ∧ after.mode = .initial := by
  have nonempty : lx.rest ≠ [] := by
    intro hrest
    rw [hrest] at h
    cases h
  have hstep : lx.step = (lx.consume n).goOnIn .initial := by
    rw [step, hm]
    simp only [stepComment, if_neg nonempty, h]
  exact ⟨_, ⟨_, hstep⟩, ⟨rfl, rfl, rfl, rfl⟩, rfl⟩

theorem step_content {form : Quoted} {opening : Position} {before : List UInt8}
    (hm : lx.mode = .quoted form opening before)
    (h : Piece.first form lx.rest = (.content, n))
    (fits : (before ++ lx.rest.take n).length ≤ limits.maxLiteralSize) :
    ∃ after, GoesOn lx after ∧ Consumes lx n after ∧
      after.mode = .quoted form opening (before ++ lx.rest.take n) := by
  refine ⟨{ lx.consume n with mode := .quoted form opening (before ++ lx.rest.take n) },
    ⟨[], ?_⟩, ⟨rfl, rfl, rfl, rfl⟩, rfl⟩
  rw [step, hm]
  simp only [stepQuoted, h, if_neg (Nat.not_lt.2 fits)]

theorem step_closing {form : Quoted} {opening : Position} {content : List UInt8}
    {modifiers : Modifiers} (hm : lx.mode = .quoted form opening content)
    (h : Piece.first form lx.rest = (.closing modifiers, n)) :
    ∃ after, Consumes lx n after ∧ after.mode = .initial ∧ ∃ reports,
      lx.step = .answer after (.ok (tokenBetween opening after
        (.literal (Piece.finish form content modifiers).1)
        (Piece.finish form content modifiers).2)) reports := by
  refine ⟨{ lx.consume n with metrics := (lx.consume n).metrics.addLiteral content.length }.enter
    .initial, ⟨rfl, rfl, rfl, rfl⟩, rfl, (lx.consume n).transitionReports .initial, ?_⟩
  rw [step, hm]
  simp only [stepQuoted, h]
  rfl

end Steps

/-- A run of blanks is one step; its first byte alone might as well be one. -/
theorem reaches_of_blank {text : List UInt8} {lx : Lexer} {b : UInt8} (hm : lx.mode = .initial)
    (hrest : lx.rest = b :: text) (hb : Ascii.isBlank b = true) :
    Reaches lx 1 (lx.consume 1) := by
  have first : Lexeme.first? lx.rest =
      some (.blank, 1 + Ascii.runLength Ascii.isBlank text) := by
    rw [hrest, Lexeme.first_blank hb, Ascii.runLength, List.takeWhile_cons_of_pos hb, Nat.add_comm]
    rfl
  have whole := step_blank hm first
  -- A run of two bytes or more is a run again behind its first byte, and both end alike.
  by_cases stops : Ascii.Stops Ascii.isBlank text
  · rw [Ascii.runLength, Ascii.takeWhile_of_stops stops] at whole
    exact reaches_of_goesOn whole (consumes_consume lx 1)
  · obtain ⟨c, rest, rfl, hc⟩ : ∃ c rest, text = c :: rest ∧ Ascii.isBlank c = true := by
      cases text with
      | nil => exact absurd (Ascii.stops_nil _) stops
      | cons c rest =>
        exact ⟨c, rest, rfl, by simpa [Ascii.stops_cons_iff] using stops⟩
    have rest_one : (lx.consume 1).rest = c :: rest := by
      rw [consume, hrest]
      rfl
    have first_one : Lexeme.first? (lx.consume 1).rest =
        some (.blank, Ascii.runLength Ascii.isBlank (c :: rest)) := by
      rw [rest_one]
      exact Lexeme.first_blank hc rest
    have mode_one : (lx.consume 1).mode = .initial := hm
    have part := step_blank mode_one first_one
    rw [← consume_consume] at whole
    have own := reaches_of_goesOn whole ((consumes_consume lx 1).trans (consumes_consume _ _))
    have other := reaches_of_goesOn part (consumes_consume _ _)
    exact ⟨consumes_consume lx 1, own.result_eq.trans other.result_eq.symm,
      own.lexer_eq.trans other.lexer_eq.symm⟩

/-- A lexer comes past a gap. -/
theorem reaches_of_padding {text gap : List UInt8} (h : Padding text gap) {lx : Lexer}
    (hm : lx.mode = .initial) (hrest : lx.rest = gap ++ text) :
    ∃ after, Reaches lx gap.length after ∧ after.mode = .initial := by
  induction h generalizing lx with
  | nil => exact ⟨lx, .refl lx, hm⟩
  | @blank b gap hb padding ih =>
    have first := reaches_of_blank hm hrest hb
    have rest_eq : (lx.consume 1).rest = gap ++ text := by
      rw [consume, hrest]
      rfl
    have mode_eq : (lx.consume 1).mode = .initial := hm
    obtain ⟨after, later, hafter⟩ := ih mode_eq rest_eq
    rw [List.length_cons, Nat.add_comm]
    exact ⟨after, first.trans later, hafter⟩
  | @line body gap hbody ends padding ih =>
    have body_line : ∀ b ∈ body, (b != Ascii.newline) = true := by
      rintro b hb
      rw [bne_iff_ne]
      rintro rfl
      exact hbody hb
    have run : Ascii.runLength (· != Ascii.newline) (body ++ (gap ++ text)) = body.length := by
      rw [Ascii.runLength, Ascii.takeWhile_append_of_stops body_line ends]
    have comment : lx.rest = (Ascii.slash :: Ascii.slash :: body) ++ (gap ++ text) := by
      simpa using hrest
    have first := Lexeme.first_lineComment (body ++ (gap ++ text))
    rw [run] at first
    obtain ⟨middle, hstep, hn, hmode⟩ := step_lineComment hm (by rw [comment]; exact first)
    obtain ⟨after, later, hafter⟩ := ih hmode (hn.append comment).1
    have length_eq : (Ascii.slash :: Ascii.slash :: (body ++ gap)).length =
        body.length + 2 + gap.length := by
      simp only [List.length_cons, List.length_append]
      omega
    rw [length_eq]
    exact ⟨after, (reaches_of_goesOn hstep hn).trans later, hafter⟩
  | @block body gap hbody padding ih =>
    have comment : lx.rest = [Ascii.slash, Ascii.star] ++ (body ++ (gap ++ text)) := by
      simpa using hrest
    have first := Lexeme.first_commentOpening (body ++ (gap ++ text))
    obtain ⟨inside, opened, hinside, hmode⟩ :=
      step_commentOpening hm (by rw [comment]; exact first)
    have inside_rest := (hinside.append comment).1
    obtain ⟨middle, closed, hmiddle, hmode⟩ := step_closeComment hmode
      (by rw [inside_rest]; exact Comment.closingLength_append hbody _)
    obtain ⟨after, later, hafter⟩ := ih hmode (hmiddle.append inside_rest).1
    have length_eq : (Ascii.slash :: Ascii.star :: (body ++ gap)).length =
        2 + body.length + gap.length := by
      simp only [List.length_cons, List.length_append]
      omega
    rw [length_eq]
    exact ⟨after, ((reaches_of_goesOn opened hinside).trans
      (reaches_of_goesOn closed hmiddle)).trans later, hafter⟩

/-- A lexer takes the content of an open literal. -/
theorem reaches_of_gathers {form : Quoted} {tail before content : List UInt8}
    (h : Gathers form tail before content) {lx : Lexer} {opening : Position}
    (hm : lx.mode = .quoted form opening before) (hrest : lx.rest = content ++ tail) :
    ∃ after, Reaches lx content.length after ∧
      after.mode = .quoted form opening (before ++ content) := by
  induction h generalizing lx with
  | nil before =>
    rw [List.append_nil]
    exact ⟨lx, .refl lx, hm⟩
  | @cons before piece content hfirst fits gathers ih =>
    have split : lx.rest = piece ++ (content ++ tail) := by
      rw [hrest, List.append_assoc]
    have taken : lx.rest.take piece.length = piece := by rw [split, List.take_left]
    rw [← split] at hfirst
    obtain ⟨middle, hstep, hn, hmode⟩ := step_content hm hfirst (by rw [taken]; exact fits)
    rw [taken] at hmode
    obtain ⟨after, later, hafter⟩ := ih hmode (hn.append split).1
    rw [List.length_append, ← List.append_assoc]
    exact ⟨after, (reaches_of_goesOn hstep hn).trans later, hafter⟩

/-! ## Coming to an answer -/

/-- The next answer is the token of a slice, which the lexer takes. -/
structure Gives (lx : Lexer) (slice : List UInt8) (kind : TokenKind) (value : TokenValue) :
    Prop where
  result_eq : lx.next.result = .ok (Token.ofSpan kind value
    { start := lx.position, stop := lx.position.advanceBytes slice })
  consumes : Consumes lx slice.length lx.next.lexer
  mode_eq : lx.next.lexer.mode = .initial

theorem gives_of_answer {lx after : Lexer} {kind : TokenKind} {value : TokenValue}
    {start : Position} {reports : List Log.Event}
    (hstep : lx.step = .answer after (.ok (tokenBetween start after kind value)) reports)
    {first : Lexer} {n k : Nat} (h : Reaches first n lx) (hk : Consumes lx k after)
    (hmode : after.mode = .initial) (hstart : start = first.position) {slice rest : List UInt8}
    (hrest : first.rest = slice ++ rest) (hlength : n + k = slice.length) :
    Gives first slice kind value := by
  have answer : lx.next = settle lx.position after _ _ := nextFrom_of_answer hstep []
  have whole := h.consumes.trans hk
  rw [hlength] at whole
  refine ⟨?_, ?_, ?_⟩
  · rw [h.result_eq, answer, result_settle, tokenBetween, (whole.append hrest).2, hstart]
  · rw [h.lexer_eq, answer, lexer_settle]
    exact ⟨whole.rest_eq, whole.cursor_eq, whole.service_eq, whole.preferences_eq⟩
  · rw [h.lexer_eq, answer, lexer_settle]
    exact hmode

/-- In front of a slice that a token is read from, a lexer answers that token. -/
theorem gives_of_scans {rest slice : List UInt8} {kind : TokenKind} {value : TokenValue}
    {lx : Lexer} (h : Scans lx.service rest slice kind value) (hm : lx.mode = .initial)
    (hrest : lx.rest = slice ++ rest) : Gives lx slice kind value := by
  generalize hservice : lx.service = service at h
  cases h with
  | token h =>
    rw [← hrest] at h
    have hstep : lx.step = .answer (lx.consume slice.length)
        (.ok (tokenBetween lx.position (lx.consume slice.length) kind value)) [] := by
      rw [step, hm]
      simp only [stepInitial, h]
    exact gives_of_answer hstep (.refl lx) (consumes_consume lx _) hm rfl hrest (Nat.zero_add _)
  | @hexString _ elements h hread =>
    rw [← hrest] at h
    have taken : lx.rest.take slice.length = slice := by rw [hrest, List.take_left]
    have hstep := step_hexString hm h (by rw [taken, hservice]; exact hread)
    exact gives_of_answer hstep (.refl lx) ⟨rfl, rfl, rfl, rfl⟩ hm rfl hrest (Nat.zero_add _)
  | @literal form content ending modifiers hopen gathers closes =>
    have split : lx.rest = [form.delimiter] ++ (content ++ (ending ++ rest)) := by
      rw [hrest]
      simp
    obtain ⟨opened, opens, hopened, hmode⟩ :=
      step_literalOpening hm (by rw [split]; exact hopen)
    have opened_rest := (hopened.append split).1
    obtain ⟨filled, fills, hfilled⟩ := reaches_of_gathers gathers hmode opened_rest
    have closing := closes.first
    rw [← (fills.consumes.append opened_rest).1] at closing
    obtain ⟨after, hn, hafter, reports, hstep⟩ := step_closing hfilled closing
    refine gives_of_answer hstep ((reaches_of_goesOn opens hopened).trans fills) hn hafter rfl
      hrest ?_
    simp only [List.length_cons, List.length_append]
    omega

/-! ### What comes to a token -/

theorem next_of_answer {lx after : Lexer} {result : Except LexError Token}
    {reports : List Log.Event} (h : lx.step = .answer after result reports) :
    lx.next.result = result := by
  rw [next, nextFrom_of_answer h, result_settle]

theorem not_token_of_lost {lx : Lexer} (h : Lost lx) (t : Token) : lx.next.result ≠ .ok t :=
  nextFrom_of_lost h [] t

/-- A comment that never closes comes to no token. -/
theorem not_token_of_open {lx : Lexer} {opening : Position} (hm : lx.mode = .comment opening)
    (h : Comment.closingLength? lx.rest = none) (t : Token) : lx.next.result ≠ .ok t := by
  by_cases hrest : lx.rest = []
  · exact not_token_of_lost ⟨⟨opening, hm⟩, hrest⟩ t
  · have drained : GoesOn lx (lx.consume lx.rest.length) := by
      refine ⟨[], ?_⟩
      rw [step, hm]
      simp only [stepComment, if_neg hrest, h]
    rw [(reaches_of_goesOn drained (consumes_consume lx _)).result_eq]
    have lost : Lost (lx.consume lx.rest.length) := ⟨⟨opening, hm⟩, List.drop_length⟩
    exact not_token_of_lost lost t

/-- A literal that comes to a token is closed. -/
theorem closes_of_next {lx : Lexer} {form : Quoted} {opening : Position} {before : List UInt8}
    {t : Token} (hm : lx.mode = .quoted form opening before)
    (full : ∀ n, Piece.first form lx.rest = (.content, n) →
      limits.maxLiteralSize < (before ++ lx.rest.take n).length)
    (h : lx.next.result = .ok t) :
    ∃ ending rest modifiers, lx.rest = ending ++ rest ∧ Closes rest form ending modifiers := by
  have outcome := outcome_step lx
  generalize hstep : lx.step = step at outcome
  cases outcome with
  | finish hm' | blank hm' | lineComment hm' | openComment hm' | openLiteral hm' | token hm'
  | refused hm' | hexString hm' | hexRefused hm' | closeComment hm' | drainComment hm'
  | openAtEnd hm' =>
    rw [hm] at hm'
    cases hm'
  | content hm' hfirst fits =>
    rw [hm] at hm'
    cases hm'
    exact absurd (full _ hfirst) (Nat.not_lt.2 fits)
  | closing hm' hfirst =>
    rw [hm] at hm'
    cases hm'
    obtain ⟨ending, rest, hrest, -, closes⟩ := closes_of_first hfirst
    exact ⟨ending, rest, _, hrest, closes⟩
  | breakAndReset | breakAndStay | badModifier | exhausted =>
    rw [next_of_answer hstep] at h
    cases h

/-- Where no gap begins, a token is read from a slice, or it is the end of the
source. -/
theorem scans_of_next {lx : Lexer} {t : Token} (hm : lx.mode = .initial) (bare : Bare lx.rest)
    (h : lx.next.result = .ok t) :
    lx.rest = [] ∨ ∃ slice rest kind value, lx.rest = slice ++ rest ∧
      Scans lx.service rest slice kind value := by
  cases hfirst : Lexeme.first? lx.rest with
  | none =>
    cases hrest : lx.rest with
    | nil => exact .inl rfl
    | cons b s =>
      rw [hrest] at hfirst
      cases hfirst
  | some found =>
    obtain ⟨lexeme, n⟩ := found
    have cut : lx.rest = lx.rest.take n ++ lx.rest.drop n :=
      (List.take_append_drop n lx.rest).symm
    right
    cases lexeme with
    | blank => exact absurd rfl (bare _ _ hfirst).1
    | lineComment => exact absurd rfl (bare _ _ hfirst).2.1
    | commentOpening =>
      -- The comment would be a gap if it closed.
      obtain ⟨inside, opened, hinside, hmode⟩ := step_commentOpening hm hfirst
      rw [(reaches_of_goesOn opened hinside).result_eq] at h
      have unclosed := (bare _ _ hfirst).2.2 rfl
      rw [← hinside.rest_eq] at unclosed
      exact absurd h (not_token_of_open hmode unclosed t)
    | literalOpening form =>
      obtain ⟨rfl, behind, hbehind⟩ := Lexeme.literalOpening_text hfirst
      obtain ⟨opened, opens, hopened, hmode⟩ := step_literalOpening hm hfirst
      have split : lx.rest = [form.delimiter] ++ behind := hbehind
      have opened_rest := (hopened.append split).1
      obtain ⟨content, tail, rfl, gathers, full⟩ := exists_gathers form [] behind
      obtain ⟨filled, fills, hfilled⟩ := reaches_of_gathers gathers hmode opened_rest
      have filled_rest := (fills.consumes.append opened_rest).1
      rw [((reaches_of_goesOn opens hopened).trans fills).result_eq] at h
      obtain ⟨ending, rest, modifiers, hclose, closes⟩ :=
        closes_of_next hfilled (by rw [filled_rest]; exact full) h
      rw [filled_rest] at hclose
      subst hclose
      refine ⟨form.delimiter :: (content ++ ending), rest, _, _, ?_,
        .literal (by rw [← hbehind]; exact hfirst) gathers closes⟩
      rw [hbehind]
      simp
    | hexPattern =>
      have effect := effect_step hm hfirst
      generalize hstep : lx.step = step at effect
      cases effect with
      | hexString hread =>
        refine ⟨_, _, _, _, cut, .hexString ?_ hread⟩
        rw [← cut, List.length_take_of_le (Lexeme.le_length_of_first hfirst nofun)]
        exact extent_of_first hfirst
      | hexRefused =>
        rw [next_of_answer hstep] at h
        cases h
    | token kind value =>
      refine ⟨_, _, kind, value, cut, .token ?_⟩
      rw [← cut, List.length_take_of_le (Lexeme.le_length_of_first hfirst nofun)]
      exact hfirst
    | refused fault =>
      have effect := effect_step hm hfirst
      generalize hstep : lx.step = step at effect
      cases effect
      rw [next_of_answer hstep] at h
      cases h

/-! ## Whole sources -/

theorem tokenize_of_error {lx : Lexer} {e : LexError} (h : lx.next.result = .error e) :
    lx.tokenize.result = .error e := by
  rw [result_tokenize, follow_of_error h]
  simp only [gathered, List.head?_cons, Option.map_some, h]

theorem tokenize_of_end {lx : Lexer} {t : Token} (h : lx.next.result = .ok t)
    (ht : t.isEof = true) : lx.tokenize.result = .ok [t] := by
  rw [result_tokenize, follow_of_end h ht]
  simp only [gathered, List.head?_cons, Option.map_some, h]
  rw [tokensOf_reverse_token h]
  rfl

theorem tokenize_of_token {lx : Lexer} {t : Token} (h : lx.next.result = .ok t)
    (ht : t.isEof = false) :
    lx.tokenize.result = lx.next.lexer.tokenize.result.map (t :: ·) := by
  have hmore : lx.next.isEnd = false := by
    rw [Answer.isEnd, h]
    exact ht
  obtain ⟨answers, run⟩ := exists_run lx.next.lexer
  rw [(Run.more hmore run).result_tokenize, run.result_tokenize, List.map_cons, List.mapM_cons, h]
  cases (answers.map Answer.result).mapM id <;> rfl

theorem Reaches.tokenize_eq {lx after : Lexer} {n : Nat} (h : Reaches lx n after) :
    lx.tokenize.result = after.tokenize.result := by
  cases hresult : after.next.result with
  | error e => rw [tokenize_of_error hresult, tokenize_of_error (h.result_eq.trans hresult)]
  | ok t =>
    have own := h.result_eq.trans hresult
    by_cases ht : t.isEof = true
    · rw [tokenize_of_end hresult ht, tokenize_of_end own ht]
    · rw [Bool.not_eq_true] at ht
      rw [tokenize_of_token hresult ht, tokenize_of_token own ht, h.lexer_eq]

/-- Cells that lead from a place up to the rest of a source. -/
inductive Course (service : PatternService) (rest : List UInt8) : Position → List Cell → Prop
  | nil (p : Position) : Course service rest p []
  | cons {p : Position} {gap slice : List UInt8} {kind : TokenKind} {value : TokenValue}
    {cells : List Cell}
    (padding : Padding (slice ++ (cells.flatMap Cell.text ++ rest)) gap)
    (scans : Scans service (cells.flatMap Cell.text ++ rest) slice kind value)
    (later : Course service rest (p.advanceBytes (gap ++ slice)) cells) :
    Course service rest p
      ({ gap := gap, slice := slice,
         token := Token.ofSpan kind value
           { start := p.advanceBytes gap, stop := p.advanceBytes (gap ++ slice) } } :: cells)

theorem isEof_ofSpan {kind : TokenKind} (h : kind ≠ .eof) (value : TokenValue) (span : Span) :
    (Token.ofSpan kind value span).isEof = false := by
  simpa [Token.isEof, Token.ofSpan] using h

theorem map_nil_append (r : Except LexError (List Token)) : r.map ([] ++ ·) = r := by
  cases r <;> rfl

/-- A lexer takes the cells in front of it and goes on with the rest. -/
theorem Course.tokenize {rest : List UInt8} {p : Position} {cells : List Cell} {lx : Lexer}
    (h : Course lx.service rest p cells) (hm : lx.mode = .initial) (hp : lx.position = p)
    (hrest : lx.rest = cells.flatMap Cell.text ++ rest) :
    ∃ after, Consumes lx (cells.flatMap Cell.text).length after ∧ after.mode = .initial ∧
      lx.tokenize.result = after.tokenize.result.map (cells.map Cell.token ++ ·) := by
  generalize hservice : lx.service = service at h
  induction h generalizing lx with
  | nil => exact ⟨lx, .refl lx, hm, (map_nil_append _).symm⟩
  | @cons p gap slice kind value cells padding scans later ih =>
    have split : lx.rest = gap ++ (slice ++ (cells.flatMap Cell.text ++ rest)) := by
      rw [hrest]
      simp [Cell.text]
    obtain ⟨front, reaches, hfront⟩ := reaches_of_padding padding hm split
    obtain ⟨front_rest, front_position⟩ := reaches.consumes.append split
    rw [← hservice, ← reaches.consumes.service_eq] at scans
    have gives := gives_of_scans scans hfront front_rest
    obtain ⟨behind_rest, behind_position⟩ := gives.consumes.append front_rest
    have place : front.next.lexer.position = p.advanceBytes (gap ++ slice) := by
      rw [behind_position, front_position, hp, Position.advanceBytes_append]
    have service_eq : front.next.lexer.service = service := by
      rw [gives.consumes.service_eq, reaches.consumes.service_eq, hservice]
    obtain ⟨after, consumes, hafter, tokens⟩ := ih gives.mode_eq place behind_rest service_eq
    have length_eq : (List.flatMap Cell.text (⟨gap, slice, Token.ofSpan kind value
        { start := p.advanceBytes gap, stop := p.advanceBytes (gap ++ slice) }⟩ :: cells)).length =
        gap.length + slice.length + (cells.flatMap Cell.text).length := by
      simp [Cell.text, Nat.add_assoc]
    refine ⟨after, ?_, hafter, ?_⟩
    · rw [length_eq]
      exact (reaches.consumes.trans gives.consumes).trans consumes
    · have own := gives.result_eq
      rw [front_position, hp, ← Position.advanceBytes_append] at own
      rw [reaches.tokenize_eq, tokenize_of_token own (isEof_ofSpan scans.kind_ne_eof _ _), tokens]
      cases after.tokenize.result <;> rfl

/-- In front of a last gap a lexer answers the end of the source. -/
theorem tokenize_of_padding {lx : Lexer} (h : Padding [] lx.rest) (hm : lx.mode = .initial) :
    lx.tokenize.result = .ok [Token.atEnd (lx.position.advanceBytes lx.rest)] := by
  have split : lx.rest = lx.rest ++ [] := (List.append_nil _).symm
  obtain ⟨after, reaches, hafter⟩ := reaches_of_padding h hm split
  obtain ⟨after_rest, after_position⟩ := reaches.consumes.append split
  rw [reaches.tokenize_eq, tokenize_of_end (next_of_end hafter after_rest) rfl, after_position]

/-- The tokens of a text are those of its cells, and the end token behind. -/
theorem Course.tokenize_eq {last : List UInt8} {cells : List Cell} {lx : Lexer}
    (h : Course lx.service last lx.position cells) (hlast : Padding [] last)
    (hm : lx.mode = .initial) (hrest : lx.rest = cells.flatMap Cell.text ++ last) :
    lx.tokenize.result =
      .ok (cells.map Cell.token ++ [Token.atEnd (lx.position.advanceBytes lx.rest)]) := by
  obtain ⟨after, consumes, hafter, tokens⟩ := h.tokenize hm rfl hrest
  obtain ⟨after_rest, after_position⟩ := consumes.append hrest
  rw [tokens, tokenize_of_padding (by rw [after_rest]; exact hlast) hafter, after_position,
    after_rest, ← Position.advanceBytes_append, ← hrest]
  rfl

/-- Where there is no error the source is cells and a last gap. -/
theorem course_of_tokenize {lx : Lexer} {tokens : List Token} (hm : lx.mode = .initial)
    (h : lx.tokenize.result = .ok tokens) :
    ∃ cells last, lx.rest = cells.flatMap Cell.text ++ last ∧
      Course lx.service last lx.position cells ∧ Padding [] last ∧
      tokens = cells.map Cell.token ++ [Token.atEnd (lx.position.advanceBytes lx.rest)] := by
  -- One gap and one token at a time; the lexer behind them has less text in front of it.
  induction hlength : lx.rest.length using Nat.strong_induction_on generalizing lx tokens with
  | _ length ih =>
    subst hlength
    obtain ⟨gap, text, split, padding, bare⟩ := exists_padding lx.rest
    obtain ⟨front, reaches, hfront⟩ := reaches_of_padding padding hm split
    obtain ⟨front_rest, front_position⟩ := reaches.consumes.append split
    rw [reaches.tokenize_eq] at h
    obtain ⟨t, ht⟩ : ∃ t, front.next.result = .ok t := by
      cases hresult : front.next.result with
      | ok t => exact ⟨t, rfl⟩
      | error e =>
        rw [tokenize_of_error hresult] at h
        cases h
    rcases scans_of_next hfront (by rw [front_rest]; exact bare) ht with
      hend | ⟨slice, rest, kind, value, front_split, scans⟩
    · rw [front_rest] at hend
      subst hend
      have own := next_of_end hfront front_rest
      rw [tokenize_of_end own rfl, front_position] at h
      cases h
      rw [List.append_nil] at split
      exact ⟨[], gap, split, .nil _, padding, by rw [split]; rfl⟩
    · have gives := gives_of_scans scans hfront front_split
      obtain ⟨behind_rest, behind_position⟩ := gives.consumes.append front_split
      rw [tokenize_of_token gives.result_eq (isEof_ofSpan scans.kind_ne_eof _ _)] at h
      obtain ⟨later, hlater, htokens⟩ : ∃ later, front.next.lexer.tokenize.result = .ok later ∧
          Token.ofSpan kind value
            { start := front.position, stop := front.position.advanceBytes slice } :: later =
            tokens := by
        generalize front.next.lexer.tokenize.result = result at h
        cases result with
        | error e => cases h
        | ok later => exact ⟨later, rfl, Except.ok.inj h⟩
      have shorter : front.next.lexer.rest.length < lx.rest.length := by
        have pos := scans.length_pos
        rw [split, ← front_rest, front_split, behind_rest]
        simp only [List.length_append]
        omega
      obtain ⟨cells, last, hrest, course, hlast, hcells⟩ :=
        ih _ shorter gives.mode_eq hlater rfl
      rw [behind_rest] at hrest
      have place : front.next.lexer.position = lx.position.advanceBytes (gap ++ slice) := by
        rw [behind_position, front_position, Position.advanceBytes_append]
      rw [place, gives.consumes.service_eq, reaches.consumes.service_eq] at course
      rw [reaches.consumes.service_eq, hrest] at scans
      rw [← front_rest, front_split, hrest] at padding split
      refine ⟨_, last, ?_, .cons padding scans course, hlast, ?_⟩
      · rw [split]
        simp [Cell.text]
      · rw [← htokens, hcells, place, behind_rest, hrest, front_position,
          ← Position.advanceBytes_append, ← Position.advanceBytes_append, split,
          List.append_assoc]
        rfl

end Lexer
end RuleLex
