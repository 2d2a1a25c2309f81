/-
Comments and layout carry no meaning.

A source without errors is gaps and slices.  Other gaps in their places, as long
as slices that touch still touch and slices apart stay apart, leave every token
its kind and its payload.  What stands behind a slice changes with the gaps, but
up to the next gap it is the same, `Course.parallel`, and no token but a byte
pattern looks further.
-/
import RuleLex.Proofs.Lexer.Course
import RuleLex.Proofs.Lexer.Lookahead

namespace RuleLex

/-! ## Spacing -/

/-- White space, closed block comments and line comments with their line ends, in
any order. -/
inductive Spacing : List UInt8 → Prop
  | nil : Spacing []
  | blank {b : UInt8} {gap : List UInt8} (hb : Ascii.isBlank b = true) (rest : Spacing gap) :
    Spacing (b :: gap)
  | line {body gap : List UInt8} (h : Ascii.newline ∉ body) (rest : Spacing gap) :
    Spacing (Ascii.slash :: Ascii.slash :: (body ++ Ascii.newline :: gap))
  | block {body gap : List UInt8} (h : Comment.IsClosed body) (rest : Spacing gap) :
    Spacing (Ascii.slash :: Ascii.star :: (body ++ gap))

/-- Spacing that ends a source: a last line comment needs no line end. -/
def FinalSpacing (text : List UInt8) : Prop :=
  Spacing text ∨ ∃ gap body, Spacing gap ∧ Ascii.newline ∉ body ∧
    text = gap ++ Ascii.slash :: Ascii.slash :: body

theorem Padding.append {text tail gap : List UInt8} (h : Padding (tail ++ text) gap)
    (htail : Padding text tail) : Padding text (gap ++ tail) := by
  induction h with
  | nil => exact htail
  | blank hb _ ih => exact .blank hb ih
  | line hbody ends _ ih =>
    rw [List.cons_append, List.cons_append, List.append_assoc]
    rw [← List.append_assoc] at ends
    exact .line hbody ends ih
  | block hbody _ ih =>
    rw [List.cons_append, List.cons_append, List.append_assoc]
    exact .block hbody ih

theorem Spacing.padding {gap : List UInt8} (h : Spacing gap) (text : List UInt8) :
    Padding text gap := by
  induction h with
  | nil => exact .nil
  | blank hb _ ih => exact .blank hb ih
  | line hbody _ ih =>
    exact .line hbody (Ascii.stops_cons_iff.2 (by decide)) (.blank (by decide) ih)
  | block hbody _ ih => exact .block hbody ih

theorem FinalSpacing.padding {text : List UInt8} (h : FinalSpacing text) : Padding [] text := by
  rcases h with h | ⟨gap, body, hgap, hbody, rfl⟩
  · exact h.padding []
  · refine (hgap.padding _).append ?_
    have whole := Padding.line hbody (Ascii.stops_nil _) (Padding.nil : Padding [] [])
    rw [List.append_nil] at whole
    exact whole

/-! ## A layout is the only one -/

variable {service : PatternService} {p : Position} {text : List UInt8} {tokens : List Token}
  {cells others : List Cell} {last : List UInt8}

theorem Layout.tail {c : Cell} (h : Layout service p text tokens (c :: cells) last) :
    Layout service (p.advanceBytes c.text) (cells.flatMap Cell.text ++ last)
      (cells.map Cell.token ++ [Token.atEnd (p.advanceBytes text)]) cells last := by
  have text_eq : text = c.text ++ (cells.flatMap Cell.text ++ last) := by
    rw [h.text_eq, List.flatMap_cons, List.append_assoc]
  constructor
  · rfl
  · rw [text_eq, Position.advanceBytes_append]
  · exact (List.forall_mem_cons.1 h.gap).2
  · exact h.last_gap
  · exact (List.forall_mem_cons.1 h.spells).2
  · exact (List.forall_mem_cons.1 h.line_eq).2
  · intro before d after hcells
    rw [h.span_eq (c :: before) d after (by rw [hcells]; rfl), List.flatMap_cons,
      List.append_assoc, List.append_assoc, Position.advanceBytes_append p,
      Position.advanceBytes_append p]

namespace Lexer

/-- The spans of its tokens lay a text out in one way. -/
theorem Course.layout_eq {rest : List UInt8} (h : Course service rest p cells)
    (hlayout : Layout service p (cells.flatMap Cell.text ++ rest) tokens others last)
    (htokens : tokens.dropLast = cells.map Cell.token) : others = cells ∧ last = rest := by
  induction h generalizing tokens others with
  | nil p =>
    have none : others = [] := by
      rw [hlayout.tokens_eq, List.dropLast_concat] at htokens
      exact List.map_eq_nil_iff.1 htokens
    subst none
    exact ⟨rfl, hlayout.text_eq.symm⟩
  | @cons p gap slice kind value cells padding scans later ih =>
    have tokens_eq := htokens
    rw [hlayout.tokens_eq, List.dropLast_concat] at tokens_eq
    obtain ⟨c, others, rfl⟩ : ∃ c tail, others = c :: tail := by
      cases others with
      | nil => cases tokens_eq
      | cons c tail => exact ⟨c, tail, rfl⟩
    obtain ⟨token_eq, tail_eq⟩ := List.cons.inj tokens_eq
    have span_eq := hlayout.span_eq [] c others rfl
    rw [token_eq] at span_eq
    have start_eq := congrArg (fun s => s.start.offset) span_eq
    have stop_eq := congrArg (fun s => s.stop.offset) span_eq
    simp only [Token.ofSpan, List.flatMap_nil, List.nil_append, Position.offset_advanceBytes,
      Nat.add_left_cancel_iff] at start_eq stop_eq
    have whole := hlayout.text_eq
    simp only [List.flatMap_cons, List.append_assoc] at whole
    obtain ⟨text_eq, rest_eq⟩ := List.append_inj whole stop_eq
    obtain ⟨gap_eq, slice_eq⟩ : gap = c.gap ∧ slice = c.slice := List.append_inj text_eq start_eq
    have same : c = { gap := gap, slice := slice, token := c.token } := by
      rw [gap_eq, slice_eq]
    rw [token_eq] at same
    subst same
    have tail := hlayout.tail
    rw [← rest_eq] at tail
    obtain ⟨rfl, rfl⟩ := ih tail (by rw [List.dropLast_concat, tail_eq])
    exact ⟨rfl, rfl⟩

/-! ## Other gaps -/

/-- A source of the same slices with other gaps and another end. -/
def respaced (gaps : List (List UInt8)) (cells : List Cell) (trail : List UInt8) : List UInt8 :=
  (List.zipWith (fun gap (c : Cell) => gap ++ c.slice) gaps cells).flatten ++ trail

/-- Slices touch where they touched before and nowhere else. -/
def SameBreaks (gaps : List (List UInt8)) (cells : List Cell) : Prop :=
  List.Forall₂ (fun gap c => gap = [] ↔ c.gap = []) gaps cells

variable {gaps : List (List UInt8)} {trail : List UInt8}

/-- Up to the next gap the two sources go on alike. -/
theorem Course.parallel (h : Course service last p cells) (hlast : Padding [] last)
    (htrail : Padding [] trail) (hgaps : ∀ gap ∈ gaps, Spacing gap)
    (breaks : SameBreaks gaps cells) :
    ∃ w rest other, cells.flatMap Cell.text ++ last = w ++ rest ∧
      respaced gaps cells trail = w ++ other ∧ Boundary rest ∧ Boundary other := by
  induction h generalizing gaps with
  | nil =>
    cases breaks
    have own := hlast.boundary Boundary.nil
    have other := htrail.boundary Boundary.nil
    rw [List.append_nil] at own other
    exact ⟨[], last, trail, rfl, rfl, own, other⟩
  | @cons p gap slice kind value cells padding scans later ih =>
    cases breaks with
    | @cons new _ gaps _ touch breaks =>
      obtain ⟨spacing, spacings⟩ := List.forall_mem_cons.1 hgaps
      -- The common text goes on over slices that touch and ends at the next gap.
      by_cases hgap : gap = []
      · have hnew : new = [] := touch.2 hgap
        subst hgap hnew
        obtain ⟨w, rest, other, own_eq, other_eq, hrest, hother⟩ := ih spacings breaks
        refine ⟨slice ++ w, rest, other, ?_, ?_, hrest, hother⟩
        · rw [List.flatMap_cons, List.append_assoc, own_eq, List.append_assoc]
          rfl
        · rw [respaced, List.append_assoc, ← other_eq]
          simp [respaced]
      · have hnew : new ≠ [] := fun h => hgap (touch.1 h)
        have own := padding.boundary_append hgap
        have other := (spacing.padding []).boundary_append hnew
        refine ⟨[], _, _, rfl, rfl, ?_, ?_⟩
        · have := own (slice ++ (cells.flatMap Cell.text ++ last))
          simpa [Cell.text] using this
        · have := other (slice ++ respaced gaps cells trail)
          simpa [respaced] using this

/-- The cells of a source with other gaps. -/
theorem Course.respaced (h : Course service last p cells) (hlast : Padding [] last)
    (htrail : Padding [] trail) (plain : ∀ c ∈ cells, c.token.kind.isBraced = false)
    (hlength : gaps.length = cells.length) (hgaps : ∀ gap ∈ gaps, Spacing gap)
    (breaks : SameBreaks gaps.tail cells.tail) (q : Position) :
    ∃ others, Course service trail q others ∧
      others.flatMap Cell.text ++ trail = Lexer.respaced gaps cells trail ∧
      others.map (fun c => (c.token.kind, c.token.value)) =
        cells.map fun c => (c.token.kind, c.token.value) := by
  induction h generalizing gaps q with
  | nil =>
    have none : gaps = [] := List.length_eq_zero_iff.1 hlength
    subst none
    exact ⟨[], .nil q, rfl, rfl⟩
  | @cons p gap slice kind value cells padding scans later ih =>
    obtain ⟨new, gaps, rfl⟩ := List.exists_cons_of_length_eq_add_one hlength
    obtain ⟨own_plain, plain⟩ := List.forall_mem_cons.1 plain
    obtain ⟨spacing, spacings⟩ := List.forall_mem_cons.1 hgaps
    have tail_breaks : SameBreaks gaps.tail cells.tail := by
      have inner : SameBreaks gaps cells := breaks
      cases inner with
      | nil => exact .nil
      | cons _ inner => exact inner
    obtain ⟨others, course, text_eq, same⟩ :=
      ih plain (Nat.succ.inj hlength) spacings tail_breaks (q.advanceBytes (new ++ slice))
    obtain ⟨w, rest, other, own_eq, other_eq, hrest, hother⟩ :=
      later.parallel hlast htrail spacings breaks
    rw [own_eq] at scans
    have scans' := scans.beyond hrest hother own_plain
    rw [← other_eq, ← text_eq] at scans'
    refine ⟨_, .cons (spacing.padding _) scans' course, ?_, ?_⟩
    · rw [List.flatMap_cons, List.append_assoc, text_eq]
      simp [Lexer.respaced, Cell.text]
    · rw [List.map_cons, List.map_cons, same]
      rfl

/-- Whatever white space and comments stand between its slices, a source without
errors and without braces comes to tokens of the same kinds and payloads, as
long as slices that touch still touch and slices apart stay apart. -/
theorem tokenize_respaced {source : List UInt8} {preferences : LexicalPreferences}
    (h : (new source preferences service).tokenize.result = .ok tokens)
    (plain : ∀ t ∈ tokens, t.kind.isBraced = false)
    (layout : Layout service .start source tokens cells last)
    (hlength : gaps.length = cells.length) (hgaps : ∀ gap ∈ gaps, Spacing gap)
    (htrail : FinalSpacing trail) (breaks : SameBreaks gaps.tail cells.tail) :
    ∃ others,
      (new (respaced gaps cells trail) preferences service).tokenize.result = .ok others ∧
        others.map (fun t => (t.kind, t.value)) = tokens.map fun t => (t.kind, t.value) := by
  have hm : (new source preferences service).mode = .initial := rfl
  obtain ⟨own, rest, source_eq, course, hlast, tokens_eq⟩ := course_of_tokenize hm h
  have source_text : source = own.flatMap Cell.text ++ rest := source_eq
  rw [source_text] at layout
  obtain ⟨rfl, rfl⟩ := course.layout_eq layout (by rw [tokens_eq, List.dropLast_concat])
  have plain_cells : ∀ c ∈ cells, c.token.kind.isBraced = false := fun c hc =>
    plain c.token (by rw [tokens_eq]; exact List.mem_append_left _ (List.mem_map_of_mem hc))
  obtain ⟨others, course', text_eq, same⟩ :=
    course.respaced hlast htrail.padding plain_cells hlength hgaps breaks .start
  generalize hlx : new (respaced gaps cells trail) preferences service = lx
  have start : Course lx.service trail lx.position others := by
    rw [← hlx]
    exact course'
  have text : lx.rest = others.flatMap Cell.text ++ trail := by
    rw [← hlx]
    exact text_eq.symm
  have initial : lx.mode = .initial := by rw [← hlx]; rfl
  refine ⟨_, start.tokenize_eq htrail.padding initial text, ?_⟩
  rw [tokens_eq, List.map_append, List.map_append, List.map_map, List.map_map]
  exact congrArg (· ++ _) same

/-- A comment between two names gives way to a tab, and comments come in front and
behind; the parenthesis still touches the second name. -/
theorem tokenize_respaced_comments :
    let source := Ascii.bytes "a /*x*/b("
    let gaps := ["// y\n", "\t", ""].map Ascii.bytes
    let trail := Ascii.bytes "// z"
    let run s := (new s LexicalPreferences.builtin Pattern.parse).tokenize.result
    ∃ tokens cells others, run source = .ok tokens ∧
      Layout Pattern.parse .start source tokens cells [] ∧ SameBreaks gaps.tail cells.tail ∧
      respaced gaps cells trail = Ascii.bytes "// y\na\tb(// z" ∧
      run (respaced gaps cells trail) = .ok others ∧
      others.map Token.kind =
        [.naming .identifier, .naming .identifier, .symbol Ascii.openParen, .eof] := by
  intro source gaps trail run
  let place (n : Nat) : Position := { offset := n, line := 1, column := n + 1 }
  let token kind value i j := Token.ofSpan kind value { start := place i, stop := place j }
  let first : Cell := { gap := [], slice := Ascii.bytes "a",
                        token := token (.naming .identifier) (.text (Ascii.bytes "a")) 0 1 }
  let second : Cell := { gap := Ascii.bytes " /*x*/", slice := Ascii.bytes "b",
                         token := token (.naming .identifier) (.text (Ascii.bytes "b")) 7 8 }
  let third : Cell := { gap := [], slice := Ascii.bytes "(",
                        token := token (.symbol Ascii.openParen) .none 8 9 }
  let cells := [first, second, third]
  let tokens := cells.map Cell.token ++ [Token.atEnd (place 9)]
  have htokens : run source = .ok tokens := by with_unfolding_all rfl
  have second_gap : Gap second.gap := by
    have closed : Comment.IsClosed (Ascii.bytes "x*/") :=
      Comment.isClosed_of_closingLength (s := Ascii.bytes "x*/") (n := 3) rfl
    have space : Ignored [Ascii.space] := .blank (by simp) (List.forall_mem_singleton.2 rfl)
    exact gap_append (gap_of_ignored space) (gap_of_ignored (.block closed))
  have layout : Layout Pattern.parse .start source tokens cells [] := by
    have last := layout_nil (p := place 9) Pattern.parse gap_nil
    have third_layout := layout_cons (p := place 8) (c := third) gap_nil (.symbol _) rfl rfl last
    have second_layout := layout_cons (p := place 1) (c := second) second_gap (.naming _ _) rfl rfl
      third_layout
    exact layout_cons (p := .start) (c := first) gap_nil (.naming _ _) rfl rfl second_layout
  have comment : Spacing (Ascii.bytes "// y\n") :=
    .line (by decide : Ascii.newline ∉ Ascii.bytes " y") .nil
  have tab : Spacing (Ascii.bytes "\t") := .blank (by decide) .nil
  have spacings : ∀ gap ∈ gaps, Spacing gap := by
    intro gap hgap
    simp only [gaps, List.map_cons, List.map_nil, List.mem_cons, List.not_mem_nil, or_false]
      at hgap
    rcases hgap with rfl | rfl | rfl
    · exact comment
    · exact tab
    · exact .nil
  have final : FinalSpacing trail := .inr ⟨[], Ascii.bytes " z", .nil, by decide, rfl⟩
  have breaks : SameBreaks gaps.tail cells.tail :=
    .cons (iff_of_false (by decide) (by decide)) (.cons (iff_of_true rfl rfl) .nil)
  have plain : ∀ t ∈ tokens, t.kind.isBraced = false := by decide
  obtain ⟨others, hothers, same⟩ :=
    tokenize_respaced htokens plain layout rfl spacings final breaks
  refine ⟨tokens, cells, others, htokens, layout, breaks, by decide +kernel, hothers, ?_⟩
  have kinds := congrArg (List.map Prod.fst) same
  rw [List.map_map, List.map_map] at kinds
  exact kinds

end Lexer
end RuleLex
