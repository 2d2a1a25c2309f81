/-
The three ways past a block comment.

A lexer by indices takes a comment star by star, over as many steps as there are stars
before the closer.  The reader of byte patterns looks for the closer in one search, and
the recognizer of byte patterns follows the comment with two of its readings.
`comment_skipped_alike` says that they stop at the same byte: behind the first `*/`, and
without one none of them comes past the opener.

`Leaves` is the run of steps of the lexer by indices.  A step that takes a chunk leaves the
closer where it was, `closingLength_chunk`, which carries the induction.  For the
recognizer every pattern that begins with a comment splits behind a closed text,
`exists_closed_of_braced`, and a text has only one closed head.
-/
import RuleLex.Proofs.Checked.Safety
import RuleLex.Proofs.Lexer.Approach

namespace RuleLex

open Checked (ok_bind)

/-- A block comment with its delimiters. -/
def Comment.text (inner : List UInt8) : List UInt8 :=
  Ascii.slash :: Ascii.star :: (inner ++ [Ascii.star, Ascii.slash])

theorem Comment.text_append (inner rest : List UInt8) :
    text inner ++ rest =
      Ascii.slash :: Ascii.star :: ((inner ++ [Ascii.star, Ascii.slash]) ++ rest) := rfl

theorem Comment.length_text (inner : List UInt8) :
    (text inner).length = (inner ++ [Ascii.star, Ascii.slash]).length + 2 := rfl

/-! ## The lexer -/

namespace Lexer

/-- Steps inside a comment lead out of it, none of them with a trap. -/
inductive Indexed.Leaves : Indexed → Indexed → Prop
  | last {c after : Indexed} (h : c.step = .ok (.goOn after)) (outside : after.mode = .initial) :
    Leaves c after
  | more {c next after : Indexed} (h : c.step = .ok (.goOn next)) (inside : next.mode = c.mode)
    (rest : Leaves next after) : Leaves c after

/-- The lexer takes a comment of `n` bytes: one step opens it and another leads out of it.
The lexer by indices opens it as well, and comes out at the same place after some steps. -/
structure PassesComment (lx : Lexer) (n : Nat) (after : Lexer) : Prop where
  steps : ∃ inside, GoesOn lx inside ∧ inside.mode = .comment lx.position ∧ GoesOn inside after
  consumes : Consumes lx n after
  mode_eq : after.mode = .initial
  indexed : ∀ source old, Placed source lx → ∃ inside,
    (lx.indexed source old).step = .ok (.goOn inside) ∧ inside.mode = .comment ∧
      inside.openDelimiter = lx.position ∧ inside.Leaves (after.indexed source lx.position)

variable {source inner rest : List UInt8} {lx : Lexer} {n : Nat} {old opening : Position}

/-- A lexer outside literals and comments has nothing open. -/
theorem Placed.stands (h : Placed source lx) (hm : lx.mode = .initial) : Stands source lx :=
  ⟨h, fun p hp => by rw [hm] at hp; cases hp⟩

theorem Placed.step_of_chunk (h : Placed source lx) (hm : lx.mode = .comment opening)
    {after : Indexed} (hscan : (lx.indexed source old).scanComment = .ok (.goOn after)) :
    (lx.indexed source old).step = .ok (.goOn after) := by
  rw [Indexed.step, h.position_eq, ok_bind, scan_comment hm, hscan]
  rfl

/-- Chunk by chunk a comment is left behind its first closer. -/
theorem Placed.leaves (h : Placed source lx) (hm : lx.mode = .comment opening)
    (hn : Comment.closingLength? lx.rest = some n) :
    (lx.indexed source old).Leaves (((lx.consume n).enter .initial).indexed source opening) := by
  -- On what is left; a chunk that is not the closer leaves less, with the same closer.
  induction hk : lx.rest.length using Nat.strong_induction_on generalizing lx n with
  | _ k ih =>
    cases hrest : lx.rest with
    | nil =>
      rw [hrest] at hn
      cases hn
    | cons b s =>
      rw [hrest] at hn
      by_cases hcloser : b = Ascii.star ∧ s.head? = some Ascii.slash
      · have two : Comment.closingLength? (b :: s) = some 2 := if_pos hcloser
        rw [two] at hn
        cases hn
        exact .last (h.step_of_chunk hm (h.scanComment_closer hm hrest hcloser)) rfl
      · rw [Comment.closingLength_chunk hcloser] at hn
        obtain ⟨m, hm', rfl⟩ := Option.map_eq_some_iff.1 hn
        have left : (lx.consume (Ascii.runLength (· != Ascii.star) s + 1)).rest =
            s.drop (Ascii.runLength (· != Ascii.star) s) := by
          rw [(consumes_consume lx _).rest_eq, hrest, List.drop_succ_cons]
        have shorter : (lx.consume (Ascii.runLength (· != Ascii.star) s + 1)).rest.length < k := by
          rw [left, ← hk, hrest, List.length_drop, List.length_cons]
          omega
        rw [← left] at hm'
        have leaves := ih _ shorter (h.consume _) hm hm' rfl
        rw [consume_consume] at leaves
        exact .more (h.step_of_chunk hm (h.scanComment_chunk hrest hcloser)) rfl leaves

/-- A lexer at the opener of a comment passes the comment. -/
theorem exists_passesComment (closed : Comment.IsClosed (inner ++ [Ascii.star, Ascii.slash]))
    (hm : lx.mode = .initial) (hrest : lx.rest = Comment.text inner ++ rest) :
    ∃ after, PassesComment lx (Comment.text inner).length after ∧ after.rest = rest ∧
      after.position = lx.position.advanceBytes (Comment.text inner) := by
  have first : Lexeme.first? lx.rest = some (.commentOpening, 2) := by
    rw [hrest, Comment.text_append]
    exact Lexeme.first_commentOpening _
  obtain ⟨inside, opened, hinside, hmode⟩ := step_commentOpening hm first
  have inside_rest : inside.rest = (inner ++ [Ascii.star, Ascii.slash]) ++ rest := by
    rw [hinside.rest_eq, hrest]
    rfl
  have closing := Comment.closingLength_append closed rest
  rw [← inside_rest] at closing
  let after := (inside.consume (inner ++ [Ascii.star, Ascii.slash]).length).enter .initial
  have left : GoesOn inside after := ⟨_, step_closes hmode closing⟩
  have behind : Consumes inside (inner ++ [Ascii.star, Ascii.slash]).length after :=
    ⟨rfl, rfl, rfl, rfl⟩
  have consumes := hinside.trans behind
  rw [Nat.add_comm, ← Comment.length_text] at consumes
  refine ⟨after, ⟨⟨inside, opened, hmode, left⟩, consumes, rfl, fun source old h => ?_⟩,
    (consumes.append hrest).1, (consumes.append hrest).2⟩
  have step : (lx.indexed source old).step = .ok (lx.step.indexed source (lx.delimiter old)) :=
    (h.stands hm).step_of_scan
      ((h.stands hm).scan_eq fun opening comment => by rw [hm] at comment; cases comment)
  obtain ⟨reports, hstep⟩ := opened
  rw [hstep] at step
  exact ⟨_, step, congrArg Mode.kind hmode, delimiter_eq (congrArg Mode.opening? hmode),
    (h.of_consumes hinside).leaves hmode closing⟩

/-- A comment that never closes is refused at its opener, with all that is left taken. -/
theorem answers_of_unclosed (hm : lx.mode = .initial)
    (hrest : lx.rest = Ascii.slash :: Ascii.star :: inner)
    (unclosed : Comment.closingLength? inner = none) :
    Answers lx (.error { line := lx.line, fault := .unterminatedComment }) lx.rest.length
      .initial := by
  have first : Lexeme.first? lx.rest = some (.commentOpening, 2) := by
    rw [hrest]
    exact Lexeme.first_commentOpening _
  obtain ⟨inside, opened, hinside, hmode⟩ := step_commentOpening hm first
  have inside_rest : inside.rest = inner := by
    rw [hinside.rest_eq, hrest]
    rfl
  rw [← inside_rest] at unclosed
  have answers := (reaches_of_goesOn opened hinside).answers (answers_of_open hmode unclosed)
  have length_eq : 2 + inside.rest.length = lx.rest.length := by
    rw [inside_rest, hrest, List.length_cons, List.length_cons]
    omega
  rwa [length_eq] at answers

end Lexer

/-! ## The reader of byte patterns -/

namespace Pattern

variable {inner rest bytes s : List UInt8} {pos n : Nat}

theorem skipTrivia_text (closed : Comment.IsClosed (inner ++ [Ascii.star, Ascii.slash]))
    (rest : List UInt8) : skipTrivia (Comment.text inner ++ rest) = skipTrivia rest :=
  skipTrivia_block (afterComment_append closed rest)

namespace Indexed

/-- At the opener of a comment the reader by indices searches for the closer. -/
theorem skipTrivia_opener (h : bytes.drop pos = Ascii.slash :: Ascii.star :: s) :
    skipTrivia bytes pos =
      match Comment.closingLength? s with
      | some n => skipTrivia bytes (pos + 2 + n)
      | none => .ok (.error pos) := by
  have here : bytes[pos]? = some Ascii.slash := by
    rw [← List.head?_drop, h]
    rfl
  have next : bytes[pos + 1]? = some Ascii.star := by
    rw [← List.head?_drop, ← List.drop_drop, h]
    rfl
  have behind : bytes.drop (pos + 2) = s := by
    rw [← List.drop_drop, h]
    rfl
  have inside : pos + 2 ≤ bytes.length := lt_length_of_some next
  have apart : ¬ Ascii.star = Ascii.slash := by decide
  have blank : ¬ Ascii.isBlank Ascii.slash = true := by decide
  rw [skipTrivia.eq_def]
  split
  · rename_i hnone
    rw [here] at hnone
    cases hnone
  · rename_i b hb
    rw [here] at hb
    cases hb
    simp only [blank, if_false, dif_pos, next, apart, if_true, Bool.false_eq_true,
      Checked.sliceFrom_eq inside, ok_bind, behind]
    rfl

theorem skipTrivia_text (closed : Comment.IsClosed (inner ++ [Ascii.star, Ascii.slash]))
    (h : bytes.drop pos = Comment.text inner ++ rest) :
    skipTrivia bytes pos = skipTrivia bytes (pos + (Comment.text inner).length) := by
  rw [Comment.text_append] at h
  have length : pos + (Comment.text inner).length =
      pos + 2 + (inner ++ [Ascii.star, Ascii.slash]).length := by
    rw [Comment.length_text]
    omega
  rw [skipTrivia_opener h, Comment.closingLength_append closed rest, length]

end Indexed

/-- An unclosed comment ends every reading, wherever it stands. -/
theorem readSequence_of_unclosed {r : Reading}
    (hrest : r.rest = Ascii.slash :: Ascii.star :: s)
    (unclosed : Comment.closingLength? s = none) :
    readSequence r = .error (.unexpectedCharacter Ascii.slash r.rest) := by
  have skip : skipTrivia r.rest = .error r.rest := by
    rw [hrest]
    exact Indexed.skipTrivia_unclosed (by rw [afterComment?, unclosed, Option.map_none])
  apply Reading.readSequence_of_stop
  rw [Reading.turn, skip]

theorem exists_parse_error {text : List UInt8} {flaw : Flaw (List UInt8)}
    (h : readSequence (.start (body text)) = .error flaw) : ∃ e, parse text = .error e := by
  simp only [parse, h]
  exact ⟨_, rfl⟩

theorem parse_of_unclosed (unclosed : Comment.closingLength? s = none) :
    parse (Ascii.slash :: Ascii.star :: s) = .error (.unexpectedCharacter Ascii.slash 0) := by
  have apart : ¬ Ascii.slash = Ascii.openBrace := by decide
  have bare : body (Ascii.slash :: Ascii.star :: s) = Ascii.slash :: Ascii.star :: s := by
    rw [body, if_neg fun h => apart h.1]
  have read : readSequence (.start (Ascii.slash :: Ascii.star :: s)) =
      .error (.unexpectedCharacter Ascii.slash (Ascii.slash :: Ascii.star :: s)) :=
    readSequence_of_unclosed rfl unclosed
  simp [parse, bare, read, Flaw.map]

/-- An opening brace in front does not help, whether the text ends with the brace that
goes with it or not. -/
theorem parse_braced_of_unclosed (unclosed : ¬ [Ascii.star, Ascii.slash] <:+: s) :
    ∃ e, parse (Ascii.openBrace :: Ascii.slash :: Ascii.star :: s) = .error e := by
  by_cases hlast : (Ascii.slash :: Ascii.star :: s).getLast? = some Ascii.closeBrace
  · have body_eq : body (Ascii.openBrace :: Ascii.slash :: Ascii.star :: s) =
        (Ascii.slash :: Ascii.star :: s).dropLast := if_pos ⟨rfl, hlast⟩
    cases s with
    | nil => exact absurd hlast (by decide)
    | cons c t =>
      have inner : body (Ascii.openBrace :: Ascii.slash :: Ascii.star :: c :: t) =
          Ascii.slash :: Ascii.star :: (c :: t).dropLast := body_eq
      have still : Comment.closingLength? (c :: t).dropLast = none := by
        rw [Comment.closingLength_eq_none_iff]
        exact fun h => unclosed (h.trans (List.dropLast_prefix _).isInfix)
      refine exists_parse_error (readSequence_of_unclosed (s := (c :: t).dropLast) ?_ still)
      rw [inner]
      rfl
  · have body_eq : body (Ascii.openBrace :: Ascii.slash :: Ascii.star :: s) =
        Ascii.openBrace :: Ascii.slash :: Ascii.star :: s := if_neg fun h => hlast h.2
    have stopped : (Reading.start (Ascii.openBrace :: Ascii.slash :: Ascii.star :: s)).turn =
        .stop (.error (.unexpectedCharacter Ascii.openBrace
          (Ascii.openBrace :: Ascii.slash :: Ascii.star :: s))) := by
      rw [Reading.start, Reading.turn_cons (by decide) (by decide)]
      rfl
    rw [← body_eq] at stopped
    exact exists_parse_error (Reading.readSequence_of_stop stopped)

/-! ## The recognizer of byte patterns -/

theorem braced_block_iff :
    Braced (Ascii.openBrace :: Ascii.slash :: Ascii.star :: s) ↔
      Finishes [Ascii.slash, Ascii.star] s := by
  have apart : ¬ Ascii.star = Ascii.slash := by decide
  rw [braced_cons_iff, finishes_start_cons, finishes_slash_cons]
  simp [slash_not_mem_alphabet, apart]

/-- A pattern at the head of a text that begins with a comment goes beyond the closer. -/
theorem exists_closed_of_braced {x : List UInt8}
    (hx : x <+: Ascii.openBrace :: Ascii.slash :: Ascii.star :: s) (h : Braced x) :
    ∃ closed after, x = Ascii.openBrace :: Ascii.slash :: Ascii.star :: (closed ++ after) ∧
      Comment.IsClosed closed ∧ Closing after ∧ closed ++ after <+: s := by
  -- A pattern has items between its braces, so it is longer than the opener.
  match x, hx, h with
  | [], _, h => exact absurd h not_braced_nil
  | [b], _, h => exact absurd (braced_cons_iff.1 h).2 (not_finishes_nil _)
  | [b, c], _, h =>
    rcases finishes_start_cons.1 (braced_cons_iff.1 h).2 with ⟨-, closing⟩ | ⟨-, finishes⟩
    · exact absurd closing not_closing_nil
    · exact absurd finishes (not_finishes_nil _)
  | b :: c :: d :: t, hx, h =>
    obtain ⟨rfl, behindBrace⟩ := List.cons_prefix_cons.1 hx
    obtain ⟨rfl, behindSlash⟩ := List.cons_prefix_cons.1 behindBrace
    obtain ⟨rfl, behindOpener⟩ := List.cons_prefix_cons.1 behindSlash
    obtain ⟨closed, after, item, closing, rfl⟩ := braced_block_iff.1 h
    exact ⟨closed, after, rfl, item_block_iff.1 item, closing, behindOpener⟩

/-- The closing brace ends a pattern where an item could begin. -/
theorem eq_closeBrace_of_closing {after : List UInt8} (h : Closing after)
    (hafter : after <+: Ascii.closeBrace :: rest) : after = [Ascii.closeBrace] := by
  cases after with
  | nil => exact absurd h not_closing_nil
  | cons b t =>
    obtain ⟨rfl, -⟩ := List.cons_prefix_cons.1 hafter
    rcases closing_cons.1 h with ⟨-, rfl⟩ | ⟨member, -⟩ | ⟨slash, -⟩
    · rfl
    · exact absurd member (by decide)
    · exact absurd slash (by decide)

/-- A comment in braces is the only pattern at the head of a text that begins with it. -/
theorem braced_prefix_iff (closed : Comment.IsClosed (inner ++ [Ascii.star, Ascii.slash]))
    {x : List UInt8}
    (hx : x <+: Ascii.openBrace :: (Comment.text inner ++ Ascii.closeBrace :: rest)) :
    Braced x ↔ x = Ascii.openBrace :: (Comment.text inner ++ [Ascii.closeBrace]) := by
  constructor
  · intro h
    obtain ⟨closed', after, rfl, hclosed', closing, hprefix⟩ := exists_closed_of_braced hx h
    obtain ⟨u, hu⟩ := hprefix
    rw [List.append_assoc] at hu
    obtain ⟨rfl, tail⟩ := hclosed'.append_inj closed hu
    rw [eq_closeBrace_of_closing closing ⟨u, tail⟩]
    rfl
  · intro h
    rw [h, Comment.text_append, braced_block_iff]
    exact ⟨_, [Ascii.closeBrace], item_block_iff.2 closed, closing_iff.2 (.inl rfl), rfl⟩

theorem length_braced (inner : List UInt8) :
    (Ascii.openBrace :: (Comment.text inner ++ [Ascii.closeBrace])).length =
      (Comment.text inner).length + 2 := by
  rw [List.length_cons, List.length_append, List.length_singleton]

theorem extent_text (closed : Comment.IsClosed (inner ++ [Ascii.star, Ascii.slash]))
    (rest : List UInt8) :
    extent? (Ascii.openBrace :: (Comment.text inner ++ Ascii.closeBrace :: rest)) =
      some ((Comment.text inner).length + 2) := by
  have split : Ascii.openBrace :: (Comment.text inner ++ Ascii.closeBrace :: rest) =
      (Ascii.openBrace :: (Comment.text inner ++ [Ascii.closeBrace])) ++ rest := by simp
  have whole := length_braced inner
  apply extent_of_isLongest
  refine ⟨?_, ?_, fun m hm braced => ?_⟩
  · rw [split, List.length_append]
    omega
  · rw [braced_prefix_iff closed (List.take_prefix _ _), split, ← whole]
    exact List.take_left
  · have text := (braced_prefix_iff closed (List.take_prefix _ _)).1 braced
    have length := congrArg List.length text
    rw [List.length_take_of_le hm, whole] at length
    exact Nat.le_of_eq length

/-- Nothing shorter than the whole comment in braces is taken for a pattern. -/
theorem extent_of_proper_prefix (closed : Comment.IsClosed (inner ++ [Ascii.star, Ascii.slash]))
    {x : List UInt8} (hx : x <+: Ascii.openBrace :: (Comment.text inner ++ [Ascii.closeBrace]))
    (proper : x ≠ Ascii.openBrace :: (Comment.text inner ++ [Ascii.closeBrace])) :
    extent? x = none := by
  refine extent_of_none fun n hn braced => proper ?_
  have head := (List.take_prefix n x).trans hx
  have whole := (braced_prefix_iff closed head).1 braced
  exact hx.eq_of_length_le (whole ▸ (List.take_prefix n x).length_le)

theorem extent_of_unclosed (unclosed : ¬ [Ascii.star, Ascii.slash] <:+: s) :
    extent? (Ascii.openBrace :: Ascii.slash :: Ascii.star :: s) = none := by
  refine extent_of_none fun n hn braced => unclosed ?_
  obtain ⟨closed, after, -, ⟨⟨inner, rfl⟩, -⟩, -, hprefix⟩ :=
    exists_closed_of_braced (List.take_prefix _ _) braced
  exact (List.infix_append inner _ after).trans hprefix.isInfix

end Pattern

/-! ## All three -/

namespace Comment

open Lexer (Placed)

/-- A comment in front of a text is passed by the lexer and by the reader of byte patterns,
both by indices too, and in braces it is a pattern of which no shorter head is one. -/
structure SkippedAlike (inner rest : List UInt8) : Prop where
  lexer : ∀ lx : Lexer, lx.mode = .initial → lx.rest = text inner ++ rest →
    ∃ after, lx.PassesComment (text inner).length after ∧ after.rest = rest ∧
      after.position = lx.position.advanceBytes (text inner)
  reader : Pattern.skipTrivia (text inner ++ rest) = Pattern.skipTrivia rest
  readerByIndices : ∀ bytes pos, bytes.drop pos = text inner ++ rest →
    Pattern.Indexed.skipTrivia bytes pos =
      Pattern.Indexed.skipTrivia bytes (pos + (text inner).length)
  recognizer : Pattern.extent? (Ascii.openBrace :: (text inner ++ Ascii.closeBrace :: rest)) =
    some ((text inner).length + 2)
  shorter : ∀ head, head <+: Ascii.openBrace :: (text inner ++ [Ascii.closeBrace]) →
    head ≠ Ascii.openBrace :: (text inner ++ [Ascii.closeBrace]) → Pattern.extent? head = none

/-- An opener that no closer follows is an error to the lexer, which takes everything that
is left, and to the reader, and no pattern begins with it. -/
structure RefusedAlike (inner : List UInt8) : Prop where
  lexer : ∀ lx : Lexer, lx.mode = .initial → lx.rest = Ascii.slash :: Ascii.star :: inner →
    lx.Answers (.error { line := lx.line, fault := .unterminatedComment }) lx.rest.length .initial
  lexerByIndices : ∀ (source : List UInt8) (old : Position) (lx : Lexer), Placed source lx →
    lx.mode = .initial → lx.rest = Ascii.slash :: Ascii.star :: inner →
    ∃ left, (lx.indexed source old).Answers
      (.error { line := lx.line, fault := .unterminatedComment })
      (lx.next.lexer.indexed source left)
  reader : ∀ r : Pattern.Reading, r.rest = Ascii.slash :: Ascii.star :: inner →
    Pattern.readSequence r = .error (.unexpectedCharacter Ascii.slash r.rest)
  pattern : Pattern.parse (Ascii.slash :: Ascii.star :: inner) =
    .error (.unexpectedCharacter Ascii.slash 0)
  bracedPattern : ∃ e,
    Pattern.parse (Ascii.openBrace :: Ascii.slash :: Ascii.star :: inner) = .error e
  recognizer : Pattern.extent? (Ascii.openBrace :: Ascii.slash :: Ascii.star :: inner) = none

/-- The lexer, the reader and the recognizer agree on where a comment ends: at the first
`*/` behind its opener, whatever follows, and nowhere if there is none. -/
theorem comment_skipped_alike (inner : List UInt8) :
    (IsClosed (inner ++ [Ascii.star, Ascii.slash]) → ∀ rest, SkippedAlike inner rest) ∧
      (¬ [Ascii.star, Ascii.slash] <:+: inner → RefusedAlike inner) := by
  constructor
  · intro closed rest
    exact
      { lexer := fun lx hm hrest => Lexer.exists_passesComment closed hm hrest
        reader := Pattern.skipTrivia_text closed rest
        readerByIndices := fun bytes pos h => Pattern.Indexed.skipTrivia_text closed h
        recognizer := Pattern.extent_text closed rest
        shorter := fun head hhead proper => Pattern.extent_of_proper_prefix closed hhead proper }
  · intro unclosed
    have none_found := closingLength_eq_none_iff.2 unclosed
    exact
      { lexer := fun lx hm hrest => Lexer.answers_of_unclosed hm hrest none_found
        lexerByIndices := fun source old lx h hm hrest => by
          obtain ⟨left, answers⟩ := (h.stands hm).answers old
          rw [(Lexer.answers_of_unclosed hm hrest none_found).result_eq] at answers
          exact ⟨left, answers⟩
        reader := fun r hrest => Pattern.readSequence_of_unclosed hrest none_found
        pattern := Pattern.parse_of_unclosed none_found
        bracedPattern := Pattern.parse_braced_of_unclosed unclosed
        recognizer := Pattern.extent_of_unclosed unclosed }

/-- A slash behind the opener, openers inside and stars before both closers. -/
theorem comment_skipped_alike_stars :
    let inner := Ascii.bytes "/ **x/* *"
    let source := Ascii.bytes "/*/ **x/* **/*/"
    let start := Lexer.Indexed.start source LexicalPreferences.builtin Pattern.parse
    IsClosed (inner ++ [Ascii.star, Ascii.slash]) ∧
      (∃ inside after, start.step = .ok (.goOn inside) ∧ inside.Leaves after ∧ after.pos = 13) ∧
      Pattern.extent? (Ascii.bytes "\x7b/*/ **x/* **/\x7d*/") = some 15 ∧
      ¬ [Ascii.star, Ascii.slash] <:+: inner ∧
      Pattern.parse (Ascii.bytes "/*/ **x/* *") = .error (.unexpectedCharacter Ascii.slash 0) := by
  intro inner source start
  have closed : IsClosed (inner ++ [Ascii.star, Ascii.slash]) :=
    isClosed_of_closingLength (s := inner ++ [Ascii.star, Ascii.slash]) (n := 11) (by decide)
  have unclosed : ¬ [Ascii.star, Ascii.slash] <:+: inner :=
    closingLength_eq_none_iff.1 (by decide)
  have skipped := (comment_skipped_alike inner).1 closed (Ascii.bytes "*/")
  have refused := (comment_skipped_alike inner).2 unclosed
  have small : source.length < UInt32.size - 1 := by decide
  have placed := (Lexer.Stands.new small LexicalPreferences.builtin Pattern.parse).toPlaced
  obtain ⟨after, passes, -, position⟩ :=
    skipped.lexer (Lexer.new source LexicalPreferences.builtin Pattern.parse) rfl rfl
  obtain ⟨inside, opened, -, -, leaves⟩ := passes.indexed source .start placed
  have place : after.cursor.offset = 13 := congrArg Position.offset position
  exact ⟨closed, ⟨inside, _, opened, leaves, place⟩, skipped.recognizer, unclosed,
    refused.pattern⟩

end Comment
end RuleLex
