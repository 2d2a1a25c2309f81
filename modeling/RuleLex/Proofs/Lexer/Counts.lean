/-
Counts and what they count.

A lexer counts comments and literals while it steps, tokens and errors when it
answers.  `Noted` says what one call adds to the counts, by the lexers it takes
its steps from and by its answer; `Counts` is what follows for everything that
any requests have asked for, whichever way.

A literal counts when it closes, so one that ends in an error leaves no trace,
and a comment counts where it opens outside literals and byte patterns.
-/
import RuleLex.Proofs.Lexer.Munch
import RuleLex.Proofs.Lexer.Observation
import RuleLex.Proofs.Lexer.Requests

namespace RuleLex

/-- How much content a string or a regular expression has. -/
def Token.contentLength? (t : Token) : Option Nat :=
  match t.kind, t.value with
  | .literal .textString, .text content => some content.length
  | .literal .regex, .regex pattern _ => some pattern.length
  | _, _ => none

/-! ## Comments by their first two bytes -/

/-- The text begins with a line comment or with the opening of a block comment. -/
def Comment.opens (s : List UInt8) : Bool :=
  [Ascii.slash, Ascii.slash].isPrefixOf s || [Ascii.slash, Ascii.star].isPrefixOf s

namespace Lexeme

def isComment : Lexeme → Bool
  | .lineComment | .commentOpening => true
  | _ => false

/-- Two bytes tell a comment from any other lexeme. -/
theorem opens_eq_isComment {s : List UInt8} {lexeme : Lexeme} {n : Nat}
    (h : first? s = some (lexeme, n)) : Comment.opens s = lexeme.isComment := by
  cases hcomment : lexeme.isComment with
  | true =>
    -- The table has a rule for either kind, and its texts begin with the two bytes.
    cases Lexer.munch_first h with
    | selected hselects yields =>
      have own := hselects.own
      have split := List.take_append_drop n s
      cases yields with
      | lineComment =>
        obtain ⟨body, -, htext⟩ := own
        rw [← split, htext]
        rfl
      | blockComment =>
        rw [← split, show s.take n = _ from own]
        rfl
      | _ => cases hcomment
    | tooLong => cases hcomment
    | unmatched => cases hcomment
  | false =>
    rw [Bool.eq_false_iff]
    intro opens
    rcases Bool.or_eq_true_iff.1 opens with line | block
    · obtain ⟨t, rfl⟩ := List.isPrefixOf_iff_prefix.1 line
      cases h
      cases hcomment
    · obtain ⟨t, rfl⟩ := List.isPrefixOf_iff_prefix.1 block
      cases h
      cases hcomment

end Lexeme

namespace Lexer

/-- A comment opens where the lexer is. -/
def atComment (lx : Lexer) : Bool := lx.mode == .initial && Comment.opens lx.rest

variable {lx after : Lexer} {reports : List Log.Event}

theorem atComment_of_first {lexeme : Lexeme} {n : Nat} (hm : lx.mode = .initial)
    (h : Lexeme.first? lx.rest = some (lexeme, n)) : lx.atComment = lexeme.isComment := by
  rw [atComment, hm, Lexeme.opens_eq_isComment h]
  rfl

theorem atComment_of_open (hm : lx.mode ≠ .initial) : lx.atComment = false := by
  rw [atComment, beq_false_of_ne hm]
  rfl

/-! ## One call -/

/-- The lexers that a call takes its steps from, the first one first. -/
def trail (lx : Lexer) : List Lexer :=
  match _steps : lx.step with
  | .goOn after _ => lx :: trail after
  | .answer _ _ _ => [lx]
termination_by lx.weight
decreasing_by
  have := weight_step lx
  rw [_steps] at this
  simpa [Step.isEnd, Step.lexer] using this

theorem trail_of_goOn (h : lx.step = .goOn after reports) : lx.trail = lx :: after.trail := by
  rw [trail.eq_def]
  split
  · rename_i hgoOn
    rw [h] at hgoOn
    cases hgoOn
    rfl
  · rename_i hanswer
    rw [h] at hanswer
    cases hanswer

theorem trail_of_answer {result : Except LexError Token}
    (h : lx.step = .answer after result reports) : lx.trail = [lx] := by
  rw [trail.eq_def]
  split
  · rename_i hgoOn
    rw [h] at hgoOn
    cases hgoOn
  · rfl

theorem comments_step (lx : Lexer) :
    lx.step.lexer.metrics.comments = lx.metrics.comments + if lx.atComment then 1 else 0 := by
  have outcome := outcome_step lx
  generalize lx.step = step at outcome ⊢
  cases outcome with
  | finish hm hrest =>
    have none_opens : lx.atComment = false := by
      rw [atComment, hrest]
      exact Bool.and_false _
    rw [none_opens]
    rfl
  | blank hm h | lineComment hm h | openComment hm h | openLiteral hm h | token hm h
  | refused hm h | hexString hm h | hexRefused hm h =>
    rw [atComment_of_first hm h]
    rfl
  | content hm | breakAndReset hm | breakAndStay hm | closing hm | badModifier hm | exhausted hm
  | closeComment hm | drainComment hm | openAtEnd hm =>
    rw [atComment_of_open (by rw [hm]; nofun)]
    rfl

/-- The longest literal with one more answer. -/
def longestWith (longest : Nat) : Except LexError Token → Nat
  | .ok t => max longest (t.contentLength?.getD 0)
  | .error _ => longest

/-- No lexeme is a string or a regular expression. -/
theorem contentLength_of_first {s : List UInt8} {kind : TokenKind} {value : TokenValue} {n : Nat}
    (h : Lexeme.first? s = some (.token kind value, n)) (span : Span) :
    (Token.ofSpan kind value span).contentLength? = none := by
  cases munch_first h with
  | selected _ yields =>
    cases yields with
    | number _ hvalue => rcases Number.literal_of_evaluate hvalue with rfl | rfl <;> rfl
    | _ => rfl

theorem contentLength_of_finish (form : Quoted) (content : List UInt8) (modifiers : Modifiers)
    (span : Span) :
    (Token.ofSpan (.literal (Piece.finish form content modifiers).1)
      (Piece.finish form content modifiers).2 span).contentLength? = some content.length := by
  cases form <;> rfl

theorem longest_goOn (h : lx.step = .goOn after reports) :
    after.metrics.maxLiteralLength = lx.metrics.maxLiteralLength := by
  have outcome := outcome_step lx
  rw [h] at outcome
  cases outcome <;> rfl

theorem longest_answer {result : Except LexError Token}
    (h : lx.step = .answer after result reports) :
    after.metrics.maxLiteralLength = longestWith lx.metrics.maxLiteralLength result := by
  have outcome := outcome_step lx
  rw [h] at outcome
  cases outcome with
  | finish => exact (Nat.max_zero _).symm
  | hexString => exact (Nat.max_zero _).symm
  | token hm hfirst =>
    rw [longestWith, tokenBetween, contentLength_of_first hfirst]
    exact (Nat.max_zero _).symm
  | closing =>
    rw [longestWith, tokenBetween, contentLength_of_finish]
    rfl
  | refused | hexRefused | breakAndReset | breakAndStay | badModifier | exhausted | openAtEnd => rfl

/-- The counts by class with one more answer. -/
def classesWith (detailed : Bool) (classes : ClassCounts) : Except LexError Token → ClassCounts
  | .ok t => if detailed then classes.add t.tokenClass else classes
  | .error _ => classes

theorem classes_step (lx : Lexer) : lx.step.lexer.metrics.classes = lx.metrics.classes := by
  have outcome := outcome_step lx
  generalize lx.step = step at outcome ⊢
  cases outcome <;> rfl

/-- What a call adds to the counts of a lexer. -/
structure Noted (lx : Lexer) (result : Except LexError Token) (m : Metrics) : Prop where
  comments_eq : m.comments = lx.metrics.comments + lx.trail.countP atComment
  longest_eq : m.maxLiteralLength = longestWith lx.metrics.maxLiteralLength result
  classes_eq : m.classes =
    classesWith lx.preferences.collectDetailedMetrics lx.metrics.classes result

theorem noted_nextFrom (reports : List Log.Event) (lx : Lexer) :
    Noted lx (nextFrom reports lx).result (nextFrom reports lx).lexer.metrics := by
  fun_induction nextFrom reports lx with
  | case1 reports lx after new hstep ih =>
    obtain ⟨n, hn⟩ := consumes_step lx
    have comments := comments_step lx
    have classes := classes_step lx
    have longest := longest_goOn hstep
    have preferences := hn.preferences_eq
    rw [hstep] at preferences comments classes
    simp only [Step.lexer] at preferences comments classes
    refine ⟨?_, ?_, ?_⟩
    · rw [ih.comments_eq, comments, trail_of_goOn hstep, List.countP_cons]
      omega
    · rw [ih.longest_eq, longest]
    · rw [ih.classes_eq, preferences, classes]
  | case2 reports lx after result new hstep =>
    obtain ⟨n, hn⟩ := consumes_step lx
    have comments := comments_step lx
    have classes := classes_step lx
    have longest := longest_answer hstep
    have preferences := hn.preferences_eq
    rw [hstep] at preferences comments classes
    rw [result_settle]
    refine ⟨?_, ?_, ?_⟩
    · rw [trail_of_answer hstep, List.countP_singleton, ← comments]
      cases result <;> rfl
    · rw [← longest]
      cases result <;> rfl
    · rw [← preferences, ← classes]
      cases result <;> rfl

end Lexer

/-! ## Many answers -/

namespace ClassCounts

/-- All classes together. -/
def sum (c : ClassCounts) : Nat :=
  c.keyword + c.operator + c.identifier + c.literal + c.punctuation + c.finish

theorem sum_add (c : ClassCounts) (k : TokenClass) : (c.add k).sum = c.sum + 1 := by
  cases k <;> simp only [add, sum] <;> omega

/-- A class that does not occur adds nothing. -/
theorem foldl_filter_ne_zero (entries : List (TokenClass × Nat)) (n : Nat) :
    (entries.filter fun e => e.2 != 0).foldl (fun n e => n + e.2) n =
      entries.foldl (fun n e => n + e.2) n := by
  induction entries generalizing n with
  | nil => rfl
  | cons e entries ih =>
    rw [List.filter_cons]
    split
    · rw [List.foldl_cons, List.foldl_cons, ih]
    · rename_i hzero
      have zero : e.2 = 0 := by simpa using hzero
      rw [List.foldl_cons, ih, zero, Nat.add_zero]

theorem foldl_occurring (c : ClassCounts) :
    c.occurring.foldl (fun n e => n + e.2) 0 = c.sum := by
  rw [occurring, foldl_filter_ne_zero]
  simp only [TokenClass.all, List.map, List.foldl, count, sum, Nat.zero_add]

theorem occurring_zero : zero.occurring = [] := rfl

end ClassCounts

namespace Lexer

/-- The tokens among some results. -/
def tokensIn (results : List (Except LexError Token)) : List Token :=
  results.filterMap Except.toOption

theorem tokensIn_ok (t : Token) (results : List (Except LexError Token)) :
    tokensIn (.ok t :: results) = t :: tokensIn results := rfl

theorem foldl_oneMore (results : List (Except LexError Token)) (counts : Nat × Nat) :
    results.foldl oneMore counts =
      (counts.1 + (tokensIn results).length, counts.2 + results.countP fun r => !r.isOk) := by
  induction results generalizing counts with
  | nil => rfl
  | cons r results ih =>
    rw [List.foldl_cons, ih, List.countP_cons]
    cases r with
    | ok t =>
      rw [tokensIn_ok, List.length_cons]
      exact Prod.ext (Nat.succ_add _ _) rfl
    | error e => exact Prod.ext rfl (Nat.succ_add _ _)

theorem foldl_longestWith (results : List (Except LexError Token)) (longest : Nat) :
    results.foldl longestWith longest =
      ((tokensIn results).filterMap Token.contentLength?).foldl max longest := by
  induction results generalizing longest with
  | nil => rfl
  | cons r results ih =>
    rw [List.foldl_cons, ih]
    cases r with
    | ok t =>
      rw [tokensIn_ok, List.filterMap_cons]
      cases hlength : t.contentLength? with
      | none => rw [longestWith, hlength, Option.getD_none, Nat.max_zero]
      | some n => rw [longestWith, hlength, Option.getD_some, List.foldl_cons]
    | error e => rfl

theorem foldl_classesWith_false (results : List (Except LexError Token))
    (classes : ClassCounts) : results.foldl (classesWith false) classes = classes := by
  induction results with
  | nil => rfl
  | cons r results ih =>
    rw [List.foldl_cons]
    cases r <;> exact ih

theorem count_foldl_classesWith (results : List (Except LexError Token)) (classes : ClassCounts)
    (c : TokenClass) :
    (results.foldl (classesWith true) classes).count c =
      classes.count c + (tokensIn results).countP fun t => t.tokenClass == c := by
  induction results generalizing classes with
  | nil => rfl
  | cons r results ih =>
    rw [List.foldl_cons, ih]
    cases r with
    | ok t =>
      rw [classesWith, if_pos rfl, ClassCounts.count_add, tokensIn_ok, List.countP_cons]
      simp only [beq_iff_eq]
      omega
    | error e => rfl

theorem sum_foldl_classesWith (results : List (Except LexError Token)) (classes : ClassCounts) :
    (results.foldl (classesWith true) classes).sum =
      classes.sum + (tokensIn results).length := by
  induction results generalizing classes with
  | nil => rfl
  | cons r results ih =>
    rw [List.foldl_cons, ih]
    cases r with
    | ok t =>
      rw [classesWith, if_pos rfl, ClassCounts.sum_add, tokensIn_ok, List.length_cons]
      omega
    | error e => rfl

/-! ## Any requests -/

/-- What some calls answer. -/
def results (told : List Lexer) : List (Except LexError Token) := told.map fun l => l.next.result

/-- A lexer has counted the calls made before, one answer after the other. -/
structure Counts (detailed : Bool) (told : List Lexer) (lx : Lexer) : Prop where
  answered_eq : lx.metrics.answered = (results told).foldl oneMore (0, 0)
  longest_eq : lx.metrics.maxLiteralLength = (results told).foldl longestWith 0
  comments_eq : lx.metrics.comments = (told.flatMap trail).countP atComment
  classes_eq : lx.metrics.classes = (results told).foldl (classesWith detailed) .zero
  preferences_eq : lx.preferences.collectDetailedMetrics = detailed

theorem counts_new (source : List UInt8) (preferences : LexicalPreferences)
    (service : PatternService) :
    Counts preferences.collectDetailedMetrics [] (new source preferences service) :=
  ⟨rfl, rfl, rfl, rfl, rfl⟩

theorem results_concat (told : List Lexer) (lx : Lexer) :
    results (told ++ [lx]) = results told ++ [lx.next.result] := List.map_append

theorem Counts.next {detailed : Bool} {told : List Lexer} (h : Counts detailed told lx) :
    Counts detailed (told ++ [lx]) lx.next.lexer := by
  have noted : Noted lx lx.next.result lx.next.lexer.metrics := noted_nextFrom [] lx
  have answered : lx.next.lexer.metrics.answered = oneMore lx.metrics.answered lx.next.result :=
    answered_nextFrom [] lx
  have preferences : lx.next.lexer.preferences = lx.preferences := preferences_nextFrom [] lx
  refine ⟨?_, ?_, ?_, ?_, ?_⟩
  · rw [answered, h.answered_eq, results_concat, List.foldl_concat]
  · rw [noted.longest_eq, h.longest_eq, results_concat, List.foldl_concat]
  · rw [noted.comments_eq, h.comments_eq, List.flatMap_append, List.flatMap_singleton,
      List.countP_append]
  · rw [noted.classes_eq, h.classes_eq, h.preferences_eq, results_concat, List.foldl_concat]
  · rw [preferences, h.preferences_eq]

/-- After any requests the counts are those of what the calls made for them came
to: the tokens and the errors, the longest string or regular expression among
the tokens, and the comments that opened outside literals and byte patterns.
With detailed metrics every class is counted and together they are all tokens;
without, no class occurs. -/
theorem counts_served (source : List UInt8) (preferences : LexicalPreferences)
    (service : PatternService) (requests : List Request) :
    let run := new source preferences service
    let told := run.asked requests
    let tokens := tokensIn (results told)
    let m := (run.serveAll requests).metrics
    m.total = tokens.length ∧
    m.errors = ((results told).countP fun r => !r.isOk) ∧
    m.maxLiteralLength = (tokens.filterMap Token.contentLength?).foldl max 0 ∧
    m.comments = (told.flatMap trail).countP atComment ∧
    (preferences.collectDetailedMetrics = true →
      (∀ c, m.classes.count c = tokens.countP fun t => t.tokenClass == c) ∧
      m.classes.occurring.foldl (fun n e => n + e.2) 0 = m.total) ∧
    (preferences.collectDetailedMetrics = false → m.classes.occurring = []) := by
  intro run told tokens m
  have counts := serveAll_keeps (P := Counts preferences.collectDetailedMetrics)
    (fun _ _ h => h.next)
    (fun _ _ _ h => ⟨h.answered_eq, h.longest_eq, h.comments_eq, h.classes_eq, h.preferences_eq⟩)
    [] run (counts_new source preferences service) requests
  have answered := counts.answered_eq
  rw [foldl_oneMore, Nat.zero_add, Nat.zero_add] at answered
  obtain ⟨total, errors⟩ := Prod.mk.inj answered
  have longest := counts.longest_eq
  rw [foldl_longestWith] at longest
  have classes := counts.classes_eq
  refine ⟨total, errors, longest, counts.comments_eq, fun hdetailed => ?_, fun hplain => ?_⟩
  · rw [hdetailed] at classes
    refine ⟨fun c => ?_, ?_⟩
    · rw [classes, count_foldl_classesWith]
      cases c <;> exact Nat.zero_add _
    · rw [ClassCounts.foldl_occurring, classes, sum_foldl_classesWith, total]
      exact Nat.zero_add _
  · rw [hplain, foldl_classesWith_false] at classes
    rw [classes, ClassCounts.occurring_zero]

/-- A turn, the whole rest and a turn too many over a source with a comment, a
string and a regular expression that breaks off. -/
theorem counts_served_mixed :
    let source := Ascii.bytes "a // b\n\"//\" /cde\n"
    let requests := [Request.item, .all, .next, .item, .item]
    let run := new source LexicalPreferences.builtin Pattern.parse
    let m := (run.serveAll requests).metrics
    LexicalPreferences.builtin.collectDetailedMetrics = true ∧
      m.total = 4 ∧ m.errors = 1 ∧ m.comments = 1 ∧ m.maxLiteralLength = 2 ∧
      m.classes.count .finish = 2 ∧ m.classes.occurring.foldl (fun n e => n + e.2) 0 = 4 := by
  intro source requests run m
  have detailed : LexicalPreferences.builtin.collectDetailedMetrics = true := rfl
  obtain ⟨-, -, -, -, classes, -⟩ :=
    counts_served source LexicalPreferences.builtin Pattern.parse requests
  have total : m.total = 4 := by decide +kernel
  refine ⟨detailed, total, by decide +kernel, by decide +kernel, by decide +kernel,
    by decide +kernel, ?_⟩
  rw [(classes detailed).2]
  exact total

end Lexer
end RuleLex
