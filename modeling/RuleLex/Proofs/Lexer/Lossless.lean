/-
Tokens account for every byte of their source.

`tokenize_lossless` says that a source without errors is the gaps and the texts
of its tokens one after the other, and that every token spells its text.

In between a lexer has taken bytes it has not answered for: the delimiter and
the content of an open literal, or the opener of a comment.  `Mode.held` is this
text and `origin` the place it begins at.  What is pending, held or still left,
loses a gap with every step that goes on and the text of a token with every
answer, so the pieces of a run add up to the source.
-/
import RuleLex.Proofs.Lexer.Consume
import RuleLex.Proofs.Lexer.Spelling

namespace RuleLex

/-- The text that has been taken without an answer. -/
def Mode.held : Mode → List UInt8
  | .initial => []
  | .quoted form _ content => form.delimiter :: content
  | .comment _ => [Ascii.slash, Ascii.star]

namespace Lexer

/-- The place where the held text begins. -/
def origin (lx : Lexer) : Position :=
  match lx.mode with
  | .initial => lx.position
  | .quoted _ opening _ => opening
  | .comment opening => opening

/-- The text there is no answer for yet. -/
def pending (lx : Lexer) : List UInt8 := lx.mode.held ++ lx.rest

/-- The held text ends where the lexer is. -/
def Coherent (lx : Lexer) : Prop := lx.position = lx.origin.advanceBytes lx.mode.held

/-- The source has ended in a comment, which leaves nothing but an error. -/
def Lost (lx : Lexer) : Prop := (∃ opening, lx.mode = .comment opening) ∧ lx.rest = []

theorem coherent_of_initial {lx : Lexer} (h : lx.mode = .initial) : Coherent lx := by
  simp only [Coherent, origin, h, Mode.held]
  rfl

theorem pending_of_initial {lx : Lexer} (h : lx.mode = .initial) : lx.pending = lx.rest := by
  simp only [pending, h, Mode.held, List.nil_append]

theorem origin_of_initial {lx : Lexer} (h : lx.mode = .initial) : lx.origin = lx.position := by
  simp only [origin, h]

/-! ## One step -/

/-- A step that goes on takes a gap off what is pending. -/
structure Skips (lx : Lexer) (gap : List UInt8) (after : Lexer) : Prop where
  isGap : Gap gap
  pending_eq : lx.pending = gap ++ after.pending
  origin_eq : after.origin = lx.origin.advanceBytes gap
  coherent : Coherent after
  service_eq : after.service = lx.service

/-- An answer takes a gap and the text of its token off what is pending.  The
end of the source takes no text and leaves none. -/
structure Reads (lx : Lexer) (gap slice : List UInt8) (t : Token) (after : Lexer) : Prop where
  isGap : Gap gap
  pending_eq : lx.pending = gap ++ (slice ++ after.rest)
  mode_eq : after.mode = .initial
  position_eq : after.position = (lx.origin.advanceBytes gap).advanceBytes slice
  service_eq : after.service = lx.service
  token_eq : t = Token.ofSpan t.kind t.value
    { start := lx.origin.advanceBytes gap, stop := after.position }
  spells : Spells lx.service slice t.kind t.value ∨
    (t.kind = .eof ∧ t.value = .none ∧ slice = [] ∧ after.rest = [])

theorem skips_of_consumes {lx after : Lexer} {n : Nat} {gap : List UInt8} (hc : Coherent lx)
    (hn : Consumes lx n after) (isGap : Gap gap)
    (hheld : lx.mode.held ++ lx.rest.take n = gap ++ after.mode.held)
    (horigin : after.origin = lx.origin.advanceBytes gap) : Skips lx gap after := by
  refine ⟨isGap, ?_, horigin, ?_, hn.service_eq⟩
  · rw [pending, pending, ← List.append_assoc, ← hheld, List.append_assoc, hn.rejoin]
  · rw [Coherent, hn.position_eq, hc, horigin, ← Position.advanceBytes_append,
      ← Position.advanceBytes_append, hheld]

theorem reads_of_consumes {lx after : Lexer} {n : Nat} {kind : TokenKind} {value : TokenValue}
    (hc : Coherent lx) (hn : Consumes lx n after) (hmode : after.mode = .initial)
    (spells : Spells lx.service (lx.mode.held ++ lx.rest.take n) kind value) :
    Reads lx [] (lx.mode.held ++ lx.rest.take n) (tokenBetween lx.origin after kind value)
      after := by
  refine ⟨gap_nil, ?_, hmode, ?_, hn.service_eq, rfl, .inl spells⟩
  · rw [List.nil_append, List.append_assoc, hn.rejoin, pending]
  · rw [hn.position_eq, Position.advanceBytes_nil, Position.advanceBytes_append, ← hc]

theorem skips_of_ignored {lx after : Lexer} {n : Nat} (hm : lx.mode = .initial)
    (hn : Consumes lx n after) (hafter : after.mode = .initial) (h : Ignored (lx.rest.take n)) :
    Skips lx (lx.rest.take n) after := by
  refine skips_of_consumes (coherent_of_initial hm) hn (gap_of_ignored h) ?_ ?_
  · rw [hm, hafter, Mode.held, List.nil_append, List.append_nil]
  · rw [origin_of_initial hm, origin_of_initial hafter, hn.position_eq]

theorem skips_of_opening {lx after : Lexer} {n : Nat} (hm : lx.mode = .initial)
    (hn : Consumes lx n after) (horigin : after.origin = lx.position)
    (hheld : lx.rest.take n = after.mode.held) : Skips lx [] after := by
  refine skips_of_consumes (coherent_of_initial hm) hn gap_nil ?_ ?_
  · rw [hm, hheld]
    rfl
  · rw [origin_of_initial hm, horigin]
    rfl

/-- A step that goes on takes a gap, or is in a comment that never closes. -/
theorem step_goOn {lx after : Lexer} {reports : List Log.Event} (hc : Coherent lx)
    (h : lx.step = .goOn after reports) : (∃ gap, Skips lx gap after) ∨ Lost after := by
  have outcome := outcome_step lx
  rw [h] at outcome
  cases outcome with
  | blank hm hfirst =>
    have takes := Lexeme.first_takes lx.service hfirst
    exact .inl ⟨_, skips_of_ignored hm ⟨rfl, rfl, rfl, rfl⟩ hm takes⟩
  | lineComment hm hfirst =>
    have takes := Lexeme.first_takes lx.service hfirst
    exact .inl ⟨_, skips_of_ignored hm ⟨rfl, rfl, rfl, rfl⟩ hm takes⟩
  | openComment hm hfirst =>
    have takes := Lexeme.first_takes lx.service hfirst
    exact .inl ⟨[], skips_of_opening hm ⟨rfl, rfl, rfl, rfl⟩ rfl takes⟩
  | openLiteral hm hfirst =>
    have takes := Lexeme.first_takes lx.service hfirst
    exact .inl ⟨[], skips_of_opening hm ⟨rfl, rfl, rfl, rfl⟩ rfl takes⟩
  | @content n form opening content hm hfirst fits =>
    have horigin : lx.origin = opening := by simp only [origin, hm]
    refine .inl ⟨[], skips_of_consumes hc ⟨rfl, rfl, rfl, rfl⟩ gap_nil ?_ ?_⟩
    · rw [hm]
      rfl
    · rw [horigin]
      rfl
  | @closeComment n opening hm hn =>
    have closed := Comment.isClosed_of_closingLength hn
    refine .inl ⟨_, skips_of_consumes hc ⟨rfl, rfl, rfl, rfl⟩ (gap_of_ignored (.block closed))
      ?_ ?_⟩
    · rw [hm]
      exact (List.append_nil _).symm
    · show (lx.consume n).position = _
      rw [position_consume, hc, ← Position.advanceBytes_append, hm]
      rfl
  | drainComment hm hrest hnone => exact .inr ⟨⟨_, hm⟩, List.drop_length⟩

/-- A token is the text between its origin and the lexer. -/
theorem step_ok {lx after : Lexer} {t : Token} {reports : List Log.Event} (hc : Coherent lx)
    (h : lx.step = .answer after (.ok t) reports) : ∃ slice, Reads lx [] slice t after := by
  have outcome := outcome_step lx
  rw [h] at outcome
  cases outcome with
  | finish hm hrest =>
    refine ⟨[], gap_nil, pending_of_initial hm, hm, ?_, rfl, ?_, .inr ⟨rfl, rfl, rfl, hrest⟩⟩
    · rw [origin_of_initial hm]
      rfl
    · rw [origin_of_initial hm]
      rfl
  | token hm hfirst =>
    have takes := Lexeme.first_takes lx.service hfirst
    rw [← origin_of_initial hm]
    refine ⟨_, reads_of_consumes hc ⟨rfl, rfl, rfl, rfl⟩ hm ?_⟩
    rw [hm]
    exact takes
  | @hexString n elements hm hfirst hread =>
    let consulted := lx.rest.take n :: lx.consulted
    have hn : Consumes lx n { lx.consume n with consulted := consulted } := ⟨rfl, rfl, rfl, rfl⟩
    have spells : Spells lx.service (lx.mode.held ++ lx.rest.take n) (.literal .hexString)
        (.hexPattern elements) := by
      rw [hm]
      exact .hexString hread
    have reads := reads_of_consumes hc hn hm spells
    rw [origin_of_initial hm] at reads
    exact ⟨_, reads⟩
  | @closing n form opening content modifiers hm hfirst =>
    let metrics := lx.metrics.addLiteral content.length
    have hn : Consumes lx n ({ lx.consume n with metrics := metrics }.enter .initial) :=
      ⟨rfl, rfl, rfl, rfl⟩
    have spells : Spells lx.service (lx.mode.held ++ lx.rest.take n)
        (.literal (Piece.finish form content modifiers).1)
        (Piece.finish form content modifiers).2 := by
      rw [hm]
      exact Piece.spells_of_closing lx.service content hfirst
    have reads := reads_of_consumes hc hn rfl spells
    rw [show lx.origin = opening by simp only [origin, hm]] at reads
    exact ⟨_, reads⟩

/-! ## One answer -/

theorem Skips.reads {lx mid after : Lexer} {gap rest slice : List UInt8} {t : Token}
    (hs : Skips lx gap mid) (hr : Reads mid rest slice t after) :
    Reads lx (gap ++ rest) slice t after := by
  constructor
  · exact gap_append hs.isGap hr.isGap
  · rw [hs.pending_eq, hr.pending_eq, List.append_assoc]
  · exact hr.mode_eq
  · rw [Position.advanceBytes_append, ← hs.origin_eq, hr.position_eq]
  · rw [hr.service_eq, hs.service_eq]
  · rw [Position.advanceBytes_append, ← hs.origin_eq]
    exact hr.token_eq
  · rw [← hs.service_eq]
    exact hr.spells

theorem Reads.settle {lx after : Lexer} {gap slice : List UInt8} {t : Token}
    (h : Reads lx gap slice t after) (start : Position) (reports : List Log.Event) :
    Reads lx gap slice t (settle start after (.ok t) reports).lexer :=
  ⟨h.isGap, h.pending_eq, h.mode_eq, h.position_eq, h.service_eq, h.token_eq, h.spells⟩

theorem step_of_lost {lx : Lexer} (h : Lost lx) :
    ∃ after e reports, lx.step = .answer after (.error e) reports := by
  obtain ⟨⟨opening, hm⟩, hrest⟩ := h
  rw [step, hm]
  simp only [stepComment, if_pos hrest]
  exact ⟨_, _, _, rfl⟩

theorem nextFrom_of_lost {lx : Lexer} (h : Lost lx) (reports : List Log.Event) (t : Token) :
    (nextFrom reports lx).result ≠ .ok t := by
  obtain ⟨after, e, new, hstep⟩ := step_of_lost h
  rw [nextFrom_of_answer hstep, result_settle]
  intro hok
  cases hok

theorem reads_of_nextFrom {lx : Lexer} {t : Token} {reports : List Log.Event}
    (hc : Coherent lx) (h : (nextFrom reports lx).result = .ok t) :
    ∃ gap slice, Reads lx gap slice t (nextFrom reports lx).lexer := by
  fun_induction nextFrom reports lx with
  | case1 reports lx after new hstep ih =>
    rcases step_goOn hc hstep with ⟨gap, hskips⟩ | hlost
    · obtain ⟨rest, slice, hreads⟩ := ih hskips.coherent h
      exact ⟨gap ++ rest, slice, hskips.reads hreads⟩
    · exact absurd h (nextFrom_of_lost hlost _ t)
  | case2 reports lx after result new hstep =>
    cases result with
    | error e => cases h
    | ok t' =>
      cases h
      obtain ⟨slice, hreads⟩ := step_ok hc hstep
      exact ⟨[], slice, hreads.settle _ _⟩

theorem reads_of_next {lx : Lexer} {t : Token} (hm : lx.mode = .initial)
    (h : lx.next.result = .ok t) : ∃ gap slice, Reads lx gap slice t lx.next.lexer :=
  reads_of_nextFrom (coherent_of_initial hm) h

end Lexer

/-! ## Whole sources -/

/-- A token with its text and the gap before it. -/
structure Cell where
  gap : List UInt8
  slice : List UInt8
  token : Token

/-- The text of a cell. -/
def Cell.text (c : Cell) : List UInt8 := c.gap ++ c.slice

/-- The token that ends a source. -/
def Token.atEnd (p : Position) : Token := Token.ofSpan .eof .none (.emptyAt p)

/-- A text from the place `p` on is cells and a last gap.  Every token spells its
slice and spans it, and the end token behind them stands where the text ends. -/
structure Layout (service : PatternService) (p : Position) (text : List UInt8)
    (tokens : List Token) (cells : List Cell) (last : List UInt8) : Prop where
  text_eq : text = cells.flatMap Cell.text ++ last
  tokens_eq : tokens = cells.map Cell.token ++ [Token.atEnd (p.advanceBytes text)]
  gap : ∀ c ∈ cells, Gap c.gap
  last_gap : Gap last
  spells : ∀ c ∈ cells, Spells service c.slice c.token.kind c.token.value
  line_eq : ∀ c ∈ cells, c.token.line = c.token.span.start.line
  span_eq : ∀ before c after, cells = before ++ c :: after →
    c.token.span =
      { start := p.advanceBytes (before.flatMap Cell.text ++ c.gap),
        stop := p.advanceBytes (before.flatMap Cell.text ++ c.text) }

theorem Spells.kind_ne_eof {service : PatternService} {text : List UInt8} {kind : TokenKind}
    {value : TokenValue} (h : Spells service text kind value) : kind ≠ .eof := by
  cases h <;> exact TokenKind.noConfusion

theorem layout_nil {p : Position} {last : List UInt8} (service : PatternService) (h : Gap last) :
    Layout service p last [Token.atEnd (p.advanceBytes last)] [] last := by
  refine ⟨rfl, rfl, by simp, h, by simp, by simp, ?_⟩
  intro before c after hcells
  simp at hcells

theorem layout_cons {service : PatternService} {p : Position} {text : List UInt8}
    {tokens : List Token} {cells : List Cell} {last : List UInt8} {c : Cell} (hgap : Gap c.gap)
    (hspells : Spells service c.slice c.token.kind c.token.value)
    (hline : c.token.line = c.token.span.start.line)
    (hspan : c.token.span = { start := p.advanceBytes c.gap, stop := p.advanceBytes c.text })
    (h : Layout service (p.advanceBytes c.text) text tokens cells last) :
    Layout service p (c.text ++ text) (c.token :: tokens) (c :: cells) last := by
  constructor
  · rw [h.text_eq, List.flatMap_cons, List.append_assoc]
  · rw [h.tokens_eq, Position.advanceBytes_append]
    rfl
  · exact List.forall_mem_cons.2 ⟨hgap, h.gap⟩
  · exact h.last_gap
  · exact List.forall_mem_cons.2 ⟨hspells, h.spells⟩
  · exact List.forall_mem_cons.2 ⟨hline, h.line_eq⟩
  · intro before d after hcells
    cases before with
    | nil =>
      obtain ⟨rfl, -⟩ := List.cons.inj hcells
      exact hspan
    | cons b before =>
      obtain ⟨rfl, hrest⟩ := List.cons.inj hcells
      rw [h.span_eq before d after hrest, List.flatMap_cons, List.append_assoc,
        List.append_assoc, Position.advanceBytes_append p, Position.advanceBytes_append p]

namespace Lexer

theorem Reads.rest_eq {lx after : Lexer} {gap slice : List UInt8} {t : Token}
    (h : Reads lx gap slice t after) (hm : lx.mode = .initial) :
    lx.rest = gap ++ (slice ++ after.rest) := by
  rw [← pending_of_initial hm]
  exact h.pending_eq

theorem layout_of_end {lx after : Lexer} {gap slice : List UInt8} {t : Token}
    (h : Reads lx gap slice t after) (hm : lx.mode = .initial) (ht : t.isEof = true) :
    Layout lx.service lx.position lx.rest [t] [] gap := by
  have hkind : t.kind = .eof := by simpa [Token.isEof] using ht
  rcases h.spells with spells | ⟨-, hvalue, rfl, hrest⟩
  · exact absurd hkind spells.kind_ne_eof
  · have htoken := h.token_eq
    rw [hkind, hvalue, h.position_eq, origin_of_initial hm, Position.advanceBytes_nil] at htoken
    rw [h.rest_eq hm, hrest, List.append_nil, List.append_nil, htoken]
    exact layout_nil _ h.isGap

theorem layout_of_token {lx after : Lexer} {gap slice last : List UInt8} {t : Token}
    {tokens : List Token} {cells : List Cell} (h : Reads lx gap slice t after)
    (hm : lx.mode = .initial) (ht : ¬ t.isEof = true)
    (hafter : Layout after.service after.position after.rest tokens cells last) :
    Layout lx.service lx.position lx.rest (t :: tokens)
      ({ gap := gap, slice := slice, token := t } :: cells) last := by
  have hkind : t.kind ≠ .eof := by simpa [Token.isEof] using ht
  have hposition : after.position = lx.position.advanceBytes (gap ++ slice) := by
    rw [h.position_eq, origin_of_initial hm, Position.advanceBytes_append]
  have htoken := h.token_eq
  rw [origin_of_initial hm, hposition] at htoken
  rw [h.service_eq, hposition] at hafter
  rcases h.spells with spells | ⟨hend, -⟩
  · rw [h.rest_eq hm, ← List.append_assoc]
    let cell : Cell := { gap := gap, slice := slice, token := t }
    refine layout_cons (c := cell) h.isGap spells ?_ ?_ hafter
    · show t.line = t.span.start.line
      rw [htoken]
      rfl
    · show t.span = _
      rw [htoken]
      rfl
  · exact absurd hend hkind

theorem tokensOf_reverse_cons (a : Answer) (done : List Answer) :
    tokensOf (a :: done).reverse = tokensOf done.reverse ++ tokensOf [a] := by
  rw [List.reverse_cons, tokensOf, List.filterMap_append]
  rfl

/-- A run that gives up at the first error either ends with one or lays out the
whole text. -/
theorem layout_of_follow {lx : Lexer} {done : List Answer} (hm : lx.mode = .initial)
    (h : ∀ e, (follow false done lx).head?.map Answer.result ≠ some (.error e)) :
    ∃ tokens cells last,
      tokensOf (follow false done lx).reverse = tokensOf done.reverse ++ tokens ∧
        Layout lx.service lx.position lx.rest tokens cells last := by
  fun_induction follow false done lx with
  | case1 done lx e after reports hnext answers past ih => cases past
  | case2 done lx e after reports hnext answers past => exact absurd rfl (h e)
  | case3 done lx t after reports hnext answers ends =>
    obtain ⟨gap, slice, reads⟩ := reads_of_next hm (congrArg Answer.result hnext)
    exact ⟨[t], [], gap, tokensOf_reverse_cons _ done, layout_of_end reads hm ends⟩
  | case4 done lx t after reports hnext answers goesOn ih =>
    obtain ⟨gap, slice, reads⟩ := reads_of_next hm (congrArg Answer.result hnext)
    rw [hnext] at reads
    obtain ⟨tokens, cells, last, htokens, hlayout⟩ := ih reads.mode_eq h
    refine ⟨t :: tokens, _, last, ?_, layout_of_token reads hm goesOn hlayout⟩
    rw [htokens, tokensOf_reverse_cons, List.append_assoc]
    rfl

theorem layout_of_tokenize {source : List UInt8} {preferences : LexicalPreferences}
    {service : PatternService} {tokens : List Token}
    (h : (new source preferences service).tokenize.result = .ok tokens) :
    ∃ cells last, Layout service .start source tokens cells last := by
  unfold tokenize at h
  simp only at h
  split at h
  · cases h
  · rename_i noError
    have hm : (new source preferences service).mode = .initial := rfl
    obtain ⟨tokens', cells, last, htokens, hlayout⟩ := layout_of_follow hm noError
    cases h
    rw [htokens]
    exact ⟨cells, last, hlayout⟩

end Lexer

theorem Position.offset_start_advanceBytes (text : List UInt8) :
    (Position.start.advanceBytes text).offset = text.length := by
  rw [offset_advanceBytes]
  exact Nat.zero_add _

theorem Span.slice_append (before slice after : List UInt8) :
    slice? { start := Position.start.advanceBytes before,
             stop := Position.start.advanceBytes (before ++ slice) }
      (before ++ slice ++ after) = some slice := by
  have bounds : before.length ≤ (before ++ slice).length ∧
      (before ++ slice).length ≤ (before ++ slice ++ after).length := by simp
  simp only [slice?, length, Position.offset_start_advanceBytes]
  rw [if_pos bounds, List.append_assoc, List.drop_left, List.length_append,
    Nat.add_sub_cancel_left, List.take_left]

theorem Layout.slice_eq {service : PatternService} {source : List UInt8} {tokens : List Token}
    {cells : List Cell} {last : List UInt8} (h : Layout service .start source tokens cells last)
    {c : Cell} (hc : c ∈ cells) : c.token.span.slice? source = some c.slice := by
  obtain ⟨before, after, hcells⟩ := List.append_of_mem hc
  have htext : source = before.flatMap Cell.text ++ c.gap ++ c.slice ++
      (after.flatMap Cell.text ++ last) := by
    rw [h.text_eq, hcells]
    simp [Cell.text]
  rw [h.span_eq before c after hcells, htext, Cell.text, ← List.append_assoc]
  exact Span.slice_append _ _ _

namespace Lexer

/-- Where there is no error, the source is the gaps and the slices of the tokens
in their order, up to a last gap and the end token.  Every slice is cut out by
the span of its token and spells its kind and its payload. -/
theorem tokenize_lossless {source : List UInt8} {preferences : LexicalPreferences}
    {service : PatternService} {tokens : List Token}
    (h : (new source preferences service).tokenize.result = .ok tokens) :
    ∃ cells last, Layout service .start source tokens cells last ∧
      (∀ c ∈ cells, c.token.isEof = false ∧ c.token.span.slice? source = some c.slice) ∧
      (Position.start.advanceBytes source).offset = source.length := by
  obtain ⟨cells, last, hlayout⟩ := layout_of_tokenize h
  refine ⟨cells, last, hlayout, ?_, Position.offset_start_advanceBytes source⟩
  intro c hc
  constructor
  · have := (hlayout.spells c hc).kind_ne_eof
    simpa [Token.isEof] using this
  · exact hlayout.slice_eq hc

theorem tokenize_lossless_literals :
    let source := Ascii.bytes "$a = \"x\" /* y */ /z/is 2KB \x7b 4? \x7d // end"
    ∃ tokens cells last,
      (new source LexicalPreferences.builtin Pattern.parse).tokenize.result = .ok tokens ∧
        tokens.map Token.kind =
          [.naming .stringIdentifier, .symbol Ascii.equals, .literal .textString,
            .literal .regex, .literal .integer, .literal .hexString, .eof] ∧
        Layout Pattern.parse .start source tokens cells last := by
  intro source
  have kinds : (new source LexicalPreferences.builtin Pattern.parse).tokenize.result.toOption.map
      (List.map Token.kind) =
      some [.naming .stringIdentifier, .symbol Ascii.equals, .literal .textString,
        .literal .regex, .literal .integer, .literal .hexString, .eof] := by decide +kernel
  cases hresult : (new source LexicalPreferences.builtin Pattern.parse).tokenize.result with
  | error e =>
    rw [hresult] at kinds
    cases kinds
  | ok tokens =>
    rw [hresult] at kinds
    obtain ⟨cells, last, hlayout, -⟩ := tokenize_lossless hresult
    exact ⟨tokens, cells, last, rfl, Option.some.inj kinds, hlayout⟩

end Lexer
end RuleLex
