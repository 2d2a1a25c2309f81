/-
Sources put under each other.

Behind a line of its own a source comes to the tokens it comes to alone, further
down, and neither changes those of the text in front nor is changed by it.  A
line break is enough because no token but a byte pattern looks past one:
`Course.beyond` puts the cells of the first source in front of the second, and
from there on the lexer tracks a new one.
-/
import RuleLex.Proofs.Lexer.Course
import RuleLex.Proofs.Lexer.Lookahead
import RuleLex.Proofs.Lexer.Restart

namespace RuleLex

/-! ## Places further down -/

/-- The place some bytes and some whole lines further down. -/
def Position.below (bytes lines : Nat) (p : Position) : Position :=
  { offset := p.offset + bytes, line := p.line + lines, column := p.column }

def Token.below (bytes lines : Nat) (t : Token) : Token :=
  { t with
    line := t.line + lines,
    span := { start := t.span.start.below bytes lines, stop := t.span.stop.below bytes lines } }

def LexError.below (lines : Nat) (e : LexError) : LexError := { e with line := e.line + lines }

/-- Behind whole lines every place is further down. -/
theorem Position.moved_newline (text : List UInt8) (p : Position) :
    p.moved (text ++ [Ascii.newline]) =
      p.below (text.length + 1) (text.count Ascii.newline + 1) := by
  have columns : ((text ++ [Ascii.newline]).reverse.takeWhile (· != Ascii.newline)) = [] := by
    simp
  rw [moved, below, List.count_append, List.count_singleton_self, columns, List.length_append,
    List.length_nil, Nat.zero_add, ite_self, Nat.add_comm p.offset, Nat.add_comm p.line]
  rfl

theorem Token.moved_newline (text : List UInt8) (t : Token) :
    t.moved (text ++ [Ascii.newline]) =
      t.below (text.length + 1) (text.count Ascii.newline + 1) := by
  rw [moved, below, Span.moved, Position.moved_newline, Position.moved_newline,
    List.count_append, List.count_singleton_self, Nat.add_comm t.line]

theorem LexError.moved_newline (text : List UInt8) (e : LexError) :
    e.moved (text ++ [Ascii.newline]) = e.below (text.count Ascii.newline + 1) := by
  rw [moved, below, List.count_append, List.count_singleton_self, Nat.add_comm e.line]

/-! ## Gaps and cells in front of more text -/

theorem Padding.congr {text other gap : List UInt8} (hhead : text.head? = other.head?)
    (h : Padding text gap) : Padding other gap := by
  induction h with
  | nil => exact .nil
  | blank hb _ ih => exact .blank hb ih
  | line hbody ends _ ih =>
    exact .line hbody (fun b hb => ends b ((head_append _ hhead).trans hb)) ih
  | block hbody _ ih => exact .block hbody ih

/-- A last gap is a gap in front of any text once its line is ended. -/
theorem Padding.ended {gap : List UInt8} (h : Padding [] gap) (text : List UInt8) :
    Padding text (gap ++ [Ascii.newline]) := by
  induction h with
  | nil => exact .blank (by decide) .nil
  | blank hb _ ih => exact .blank hb ih
  | @line body gap hbody ends _ ih =>
    have ends' : Ascii.Stops (· != Ascii.newline) (gap ++ [Ascii.newline] ++ text) := by
      cases gap with
      | nil => exact Ascii.stops_cons_iff.2 (by decide)
      | cons b gap => exact fun c hc => ends c hc
    have whole := Padding.line hbody ends' ih
    rw [← List.append_assoc] at whole
    exact whole
  | block hbody _ ih =>
    have whole := Padding.block hbody ih
    rw [← List.append_assoc] at whole
    exact whole

namespace Lexer

variable {service : PatternService} {rest other : List UInt8} {p : Position} {cells : List Cell}

/-- Cells stay as they are when the text behind the next boundary changes. -/
theorem Course.beyond (hrest : Boundary rest) (hother : Boundary other)
    (h : Course service rest p cells) (plain : ∀ c ∈ cells, c.token.kind.isBraced = false) :
    Course service other p cells := by
  induction h with
  | nil p => exact .nil p
  | @cons p gap slice kind value cells padding scans later ih =>
    obtain ⟨own, others⟩ := List.forall_mem_cons.1 plain
    have nonempty : slice ≠ [] := List.length_pos_iff.1 scans.length_pos
    exact .cons (padding.congr (Lexeme.head_append_of_ne_nil nonempty _ _))
      (scans.beyond hrest hother own) (ih others)

/-! ## Lexers that track each other -/

/-- The outcome for a whole source, moved behind a text. -/
def tokensMoved (before : List UInt8) : Except LexError (List Token) → Except LexError (List Token)
  | .ok tokens => .ok (tokens.map (Token.moved before))
  | .error e => .error (e.moved before)

theorem tokensMoved_cons (before : List UInt8) (t : Token) (r : Except LexError (List Token)) :
    tokensMoved before (r.map (t :: ·)) = (tokensMoved before r).map (t.moved before :: ·) := by
  cases r <;> rfl

theorem Tracks.tokenize {before : List UInt8} {a b : Lexer} (h : Tracks before a b) :
    b.tokenize.result = tokensMoved before a.tokenize.result := by
  obtain ⟨answers, run⟩ := exists_run a
  induction run generalizing b with
  | @last a hend =>
    have own : b.next.result = _ := (h.nextFrom [] []).1
    cases hresult : a.next.result with
    | error e =>
      rw [Answer.isEnd, hresult] at hend
      cases hend
    | ok t =>
      rw [← next, hresult] at own
      rw [Answer.isEnd, hresult] at hend
      rw [tokenize_of_end hresult hend, tokenize_of_end own hend]
      rfl
  | @more a answers hmore run ih =>
    obtain ⟨own, later⟩ := h.nextFrom [] []
    cases hresult : a.next.result with
    | error e =>
      rw [← next, ← next, hresult] at own
      rw [tokenize_of_error hresult, tokenize_of_error own]
      rfl
    | ok t =>
      rw [← next, ← next, hresult] at own
      rw [Answer.isEnd, hresult] at hmore
      have rest_moved := ih later
      rw [← next] at rest_moved
      rw [tokenize_of_token hresult hmore, tokenize_of_token own hmore, rest_moved,
        tokensMoved_cons]

/-- In front of cells and a last gap with its line ended a lexer comes to what is
behind the line. -/
theorem Course.ended {last text : List UInt8} {lx : Lexer}
    (h : Course lx.service last lx.position cells) (hlast : Padding [] last)
    (plain : ∀ c ∈ cells, c.token.kind.isBraced = false) (hm : lx.mode = .initial)
    (hrest : lx.rest = cells.flatMap Cell.text ++ last ++ [Ascii.newline] ++ text) :
    ∃ after, Consumes lx (cells.flatMap Cell.text ++ last ++ [Ascii.newline]).length after ∧
      after.mode = .initial ∧
      lx.tokenize.result = after.tokenize.result.map (cells.map Cell.token ++ ·) := by
  have last_boundary : Boundary last := by
    have := hlast.boundary Boundary.nil
    rw [List.append_nil] at this
    exact this
  have line_boundary : Boundary (last ++ Ascii.newline :: text) :=
    hlast.boundary (Boundary.cons_iff.2 (.inl (by decide)))
  have split : lx.rest = cells.flatMap Cell.text ++ (last ++ Ascii.newline :: text) := by
    rw [hrest]
    simp
  obtain ⟨front, consumes, hfront, tokens_eq⟩ :=
    (h.beyond last_boundary line_boundary plain).tokenize hm rfl split
  have front_rest : front.rest = (last ++ [Ascii.newline]) ++ text := by
    rw [(consumes.append split).1]
    simp
  obtain ⟨after, reaches, hafter⟩ := reaches_of_padding (hlast.ended text) hfront front_rest
  refine ⟨after, ?_, hafter, ?_⟩
  · rw [List.append_assoc, List.length_append]
    exact consumes.trans reaches.consumes
  · rw [tokens_eq, reaches.tokenize_eq]

/-- A source without errors and without braces, and another one under it, come to
the tokens of the first without its end and those of the second further down, or
to the first error of the second. -/
theorem tokenize_lines {a : List UInt8} {preferences : LexicalPreferences}
    {service : PatternService} {tokens : List Token}
    (h : (new a preferences service).tokenize.result = .ok tokens)
    (plain : ∀ t ∈ tokens, t.kind.isBraced = false) (b : List UInt8) :
    let lines := a.count Ascii.newline + 1
    tokens.getLast? = some (Token.atEnd (Position.start.advanceBytes a)) ∧
      (new (a ++ Ascii.newline :: b) preferences service).tokenize.result =
        match (new b preferences service).tokenize.result with
        | .ok later => .ok (tokens.dropLast ++ later.map (Token.below (a.length + 1) lines))
        | .error e => .error (e.below lines) := by
  intro lines
  have hm : (new a preferences service).mode = .initial := rfl
  obtain ⟨cells, last, ha, course, hlast, rfl⟩ := course_of_tokenize hm h
  have source_eq : a = cells.flatMap Cell.text ++ last := ha
  have plain_cells : ∀ c ∈ cells, c.token.kind.isBraced = false := fun c hc =>
    plain c.token (List.mem_append_left _ (List.mem_map_of_mem hc))
  have start := behind_new (a ++ Ascii.newline :: b) preferences service
  generalize hlx : new (a ++ Ascii.newline :: b) preferences service = lx at start
  have initial : lx.mode = .initial := by rw [← hlx]; rfl
  have rest_eq : lx.rest = a ++ [Ascii.newline] ++ b := by
    rw [← hlx, List.append_assoc]
    rfl
  have course_lx : Course lx.service last lx.position cells := by
    rw [start.service_eq, start.position_eq]
    exact course
  obtain ⟨after, consumes, hafter, tokens_eq⟩ :=
    course_lx.ended hlast plain_cells initial (by rw [← source_eq]; exact rest_eq)
  rw [← source_eq] at consumes
  have behind := start.consumes consumes
  rw [List.nil_append, rest_eq, List.take_left] at behind
  have tracks := behind.tracks_new hafter
  rw [(consumes.append rest_eq).1] at tracks
  refine ⟨by simp [new, position, Cursor.position_start], ?_⟩
  rw [tokens_eq, tracks.tokenize, List.dropLast_concat]
  cases (new b preferences service).tokenize.result with
  | error e => exact congrArg Except.error (e.moved_newline a)
  | ok later =>
    refine congrArg Except.ok (congrArg (cells.map Cell.token ++ ·) ?_)
    exact List.map_congr_left fun t _ => t.moved_newline a

/-- A comment at the end of the first source ends with its line, and the second
source has an error on its second line. -/
theorem tokenize_lines_error :
    let a := Ascii.bytes "$a matches /x/i // y"
    let b := Ascii.bytes "2\n\"z"
    let run s := (new s LexicalPreferences.builtin Pattern.parse).tokenize.result
    ∃ tokens e, run a = .ok tokens ∧ (∀ t ∈ tokens, t.kind.isBraced = false) ∧
      run b = .error e ∧ e.line = 2 ∧
      run (a ++ Ascii.newline :: b) = .error { e with line := 3 } := by
  intro a b run
  have plain_kinds : (run a).toOption.map (fun tokens => tokens.all fun t => !t.kind.isBraced) =
      some true := by decide +kernel
  have error_lines : (match run b with | .ok _ => none | .error e => some e.line) = some 2 := by
    decide +kernel
  obtain ⟨tokens, htokens⟩ : ∃ tokens, run a = .ok tokens := by
    cases hresult : run a with
    | ok tokens => exact ⟨tokens, rfl⟩
    | error e =>
      rw [hresult] at plain_kinds
      cases plain_kinds
  obtain ⟨e, he⟩ : ∃ e, run b = .error e := by
    cases hresult : run b with
    | error e => exact ⟨e, rfl⟩
    | ok later =>
      rw [hresult] at error_lines
      cases error_lines
  rw [htokens] at plain_kinds
  rw [he] at error_lines
  have plain : ∀ t ∈ tokens, t.kind.isBraced = false := by
    simpa using Option.some.inj plain_kinds
  have line_eq : e.line = 2 := Option.some.inj error_lines
  have joined := (tokenize_lines htokens plain b).2
  rw [show (new b LexicalPreferences.builtin Pattern.parse).tokenize.result = .error e from he]
    at joined
  refine ⟨tokens, e, htokens, plain, he, line_eq, joined.trans ?_⟩
  have lines : a.count Ascii.newline = 0 := by decide
  rw [lines]
  show Except.error { e with line := e.line + (0 + 1) } = _
  rw [line_eq]

end Lexer
end RuleLex
