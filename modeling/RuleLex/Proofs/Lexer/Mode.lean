/-
The modes of a lexer.

Every way from one mode to another leads through the initial one, so the number
of changes tells on which side a lexer is, and the traced changes join up to one
path.  `ModeStep` says what a step does to the mode, what it counts and what it
tells; `Accounted` is what follows for a whole run.

Between two calls a lexer is in the initial mode or, without a reset after
errors, in a literal that an error has broken off before the end of the source:
`settled_calls`, and call by call `mode_of_token` and `mode_of_error`.
-/
import Mathlib.Algebra.Group.Nat.Even
import RuleLex.Proofs.Lexer.Munch
import RuleLex.Proofs.Lexer.Observation
import RuleLex.Proofs.Lexer.Places

namespace RuleLex

/-- What an open literal has gathered so far. -/
def Mode.gathered : Mode → List UInt8
  | .quoted _ _ content => content
  | _ => []

/-- The faults that may leave their literal open. -/
def Fault.staysOpen : Fault → Bool
  | .unterminatedString | .illegalEscapeSequence _ | .unterminatedRegex | .literalTooLong _ => true
  | _ => false

theorem Mode.name_eq_initial {mode : Mode} : mode.name = Mode.initial.name ↔ mode = .initial := by
  constructor
  · intro h
    match mode with
    | .initial => rfl
    | .quoted .string _ _ => exact absurd (show "InQuotedString" = "Initial" from h) (by decide)
    | .quoted .regex _ _ => exact absurd (show "InRegexPattern" = "Initial" from h) (by decide)
    | .comment _ => exact absurd (show "InBlockComment" = "Initial" from h) (by decide)
  · rintro rfl
    rfl

/-! ## The end of the source inside a literal -/

namespace Piece

/-- No text is left for a literal, or a backslash with nothing behind it. -/
def AtEnd (s : List UInt8) : Prop := s = [] ∨ s = [Ascii.backslash]

/-- The text is at its end where a piece says so, and what breaks a literal is a
fault of literals. -/
def Apt (s : List UInt8) : Piece → Prop
  | .exhausted => AtEnd s
  | .broken fault => fault.staysOpen = true
  | _ => True

theorem apt_stringEscape (s : List UInt8) : Apt (Ascii.backslash :: s) (stringEscape s).1 := by
  unfold stringEscape
  split
  · exact .inr rfl
  · split
    · trivial
    · split
      · trivial
      · split
        · rfl
        · rfl

theorem apt_regexEscape (s : List UInt8) : Apt (Ascii.backslash :: s) (regexEscape s).1 := by
  unfold regexEscape
  split
  · exact .inr rfl
  · split
    · rfl
    · trivial

theorem apt_regexClosing (s t : List UInt8) : Apt s (regexClosing t).1 := by
  simp only [regexClosing]
  split <;> trivial

theorem apt_ofString (s : List UInt8) : Apt s (ofString s).1 := by
  unfold ofString
  split
  · exact .inl rfl
  · split
    · trivial
    · split
      · rfl
      · split
        · rename_i hb
          rw [hb]
          exact apt_stringEscape _
        · trivial

theorem apt_ofRegex (s : List UInt8) : Apt s (ofRegex s).1 := by
  unfold ofRegex
  split
  · exact .inl rfl
  · split
    · exact apt_regexClosing _ _
    · split
      · rfl
      · split
        · rename_i hb
          rw [hb]
          exact apt_regexEscape _
        · trivial

theorem apt_first {form : Quoted} {s : List UInt8} {piece : Piece} {n : Nat}
    (h : first form s = (piece, n)) : Apt s piece := by
  have piece_eq : piece = (first form s).1 := (congrArg Prod.fst h).symm
  rw [piece_eq]
  cases form with
  | string => exact apt_ofString s
  | regex => exact apt_ofRegex s

/-- At the end of the source there is no other piece. -/
theorem not_atEnd_of_first {form : Quoted} {s : List UInt8} {piece : Piece} {n : Nat}
    (h : first form s = (piece, n)) (hpiece : piece ≠ .exhausted) : ¬ AtEnd s := by
  rintro (rfl | rfl)
  · rw [first_nil] at h
    exact hpiece (Prod.mk.inj h).1.symm
  · have exhausted : first form [Ascii.backslash] = (.exhausted, 1) := by cases form <;> rfl
    rw [exhausted] at h
    exact hpiece (Prod.mk.inj h).1.symm

end Piece

/-- No lexeme outside a literal is refused for a fault of literals. -/
theorem Lexeme.staysOpen_of_refused {s : List UInt8} {fault : Fault} {n : Nat}
    (h : first? s = some (.refused fault, n)) : fault.staysOpen = false := by
  cases Lexer.munch_first h with
  | selected _ yields =>
    cases yields with
    | badNumber _ hvalue =>
      rcases Number.fault_of_evaluate hvalue with rfl | rfl
      · rfl
      · rfl
  | tooLong => rfl
  | unmatched => rfl

/-! ## Events that tell of a change -/

namespace Log

/-- The event tells of a change of mode. -/
def Event.tellsMode (e : Event) : Bool :=
  e.isDebug && e.message == "Lexical mode transition"

/-- A logger for every event, which keeps them in their order. -/
def keepAll : Sink (List Event) where
  level := .debug
  record := fun kept e => kept ++ [e]

/-- The events lead from one mode to another, each beginning where the one before
has ended. -/
inductive ModePath : String → List Event → String → Prop
  | nil (a : String) : ModePath a [] a
  | cons {a b c : String} {e : Event} {events : List Event}
    (hfrom : e.context.lookup "from" = some a) (hto : e.context.lookup "to" = some b)
    (rest : ModePath b events c) : ModePath a (e :: events) c

theorem ModePath.snoc {a b c : String} {events : List Event} {e : Event}
    (h : ModePath a events b) (hfrom : e.context.lookup "from" = some b)
    (hto : e.context.lookup "to" = some c) : ModePath a (events ++ [e]) c := by
  induction h with
  | nil => exact .cons hfrom hto (.nil c)
  | cons hfrom' hto' _ ih => exact .cons hfrom' hto' (ih hfrom)

theorem deliver_keepAll (kept : List Event) (e : Event) :
    deliver (some keepAll) kept e = kept ++ [e] := by
  have admits : keepAll.level.admits e.level = true := by
    cases hlevel : e.level <;> rfl
  exact if_pos admits

theorem foldl_keepAll (kept events : List Event) :
    events.foldl (deliver (some keepAll)) kept = kept ++ events := by
  induction events generalizing kept with
  | nil => exact (List.append_nil kept).symm
  | cons e events ih => rw [List.foldl_cons, ih, deliver_keepAll, List.append_assoc]; rfl

end Log

namespace Lexer

/-! ## One step -/

/-- The event that a change from one mode to another is told with. -/
def transitionEvent (lx : Lexer) (mode : Mode) : Log.Event :=
  (Log.Event.debug "Lexical mode transition").withContext
    [("from", lx.mode.name), ("to", mode.name), ("line", toString lx.line)]

theorem context_transitionEvent (lx : Lexer) (mode : Mode) :
    (lx.transitionEvent mode).context =
      [("from", lx.mode.name), ("line", toString lx.line), ("to", mode.name)] := by
  have line_from : ¬ "line" < "from" := by decide +kernel
  have to_from : ¬ "to" < "from" := by decide +kernel
  have line_to : "line" < "to" := by decide +kernel
  simp only [transitionEvent, Log.Event.withContext, Log.Event.debug, Log.Event.make, List.foldl,
    Log.Context.insert, if_neg line_from, if_neg to_from, if_pos line_to, String.reduceEq, if_false]

theorem from_transitionEvent (lx : Lexer) (mode : Mode) :
    (lx.transitionEvent mode).context.lookup "from" = some lx.mode.name := by
  rw [context_transitionEvent]
  rfl

theorem to_transitionEvent (lx : Lexer) (mode : Mode) :
    (lx.transitionEvent mode).context.lookup "to" = some mode.name := by
  rw [context_transitionEvent]
  rfl

theorem tellsMode_transitionEvent (lx : Lexer) (mode : Mode) :
    (lx.transitionEvent mode).tellsMode = true := by
  have message : (Log.Event.debug "Lexical mode transition").message =
      "Lexical mode transition" := by decide +kernel
  exact congrArg (fun m => true && m == "Lexical mode transition") message

/-- What a step does to the mode, with what it counts and tells of that. -/
inductive ModeStep (lx after : Lexer) : List Log.Event → Prop
  | kept (side : after.mode = .initial ↔ lx.mode = .initial)
    (name_eq : after.mode.name = lx.mode.name)
    (transitions_eq : after.metrics.transitions = lx.metrics.transitions) : ModeStep lx after []
  | changed {leaving : Lexer} (sides : Xor (lx.mode = .initial) (after.mode = .initial))
    (transitions_eq : after.metrics.transitions = lx.metrics.transitions + 1)
    (mode_eq : leaving.mode = lx.mode) (preferences_eq : leaving.preferences = lx.preferences) :
    ModeStep lx after (leaving.transitionReports after.mode)

theorem ModeStep.opened {lx after leaving : Lexer} (hm : lx.mode = .initial)
    (hafter : after.mode ≠ .initial)
    (transitions_eq : after.metrics.transitions = lx.metrics.transitions + 1)
    (mode_eq : leaving.mode = lx.mode) (preferences_eq : leaving.preferences = lx.preferences) :
    ModeStep lx after (leaving.transitionReports after.mode) :=
  .changed (.inl ⟨hm, hafter⟩) transitions_eq mode_eq preferences_eq

theorem ModeStep.left {lx after leaving : Lexer} (hm : lx.mode ≠ .initial)
    (hafter : after.mode = .initial)
    (transitions_eq : after.metrics.transitions = lx.metrics.transitions + 1)
    (mode_eq : leaving.mode = lx.mode) (preferences_eq : leaving.preferences = lx.preferences) :
    ModeStep lx after (leaving.transitionReports .initial) :=
  hafter ▸ .changed (.inr ⟨hafter, hm⟩) transitions_eq mode_eq preferences_eq

theorem modeStep_step (lx : Lexer) : ModeStep lx lx.step.lexer lx.step.reports := by
  have outcome := outcome_step lx
  generalize lx.step = step at outcome ⊢
  cases outcome with
  | finish | blank | lineComment | token | refused | hexString | hexRefused | drainComment =>
    exact .kept Iff.rfl rfl rfl
  | openComment hm | openLiteral hm => exact .opened hm nofun rfl rfl rfl
  | breakAndReset hm | closing hm | badModifier hm | exhausted hm | closeComment hm
  | openAtEnd hm =>
    exact .left (by rw [hm]; nofun) rfl rfl rfl rfl
  | @content _ form _ _ hm | @breakAndStay _ form _ _ _ hm =>
    refine .kept ?_ ?_ rfl
    · rw [hm]
      exact iff_of_false nofun nofun
    · rw [hm]
      cases form <;> rfl

/-- Every change of mode is counted, and it has the initial mode on one side. -/
theorem ModeStep.counted {lx after : Lexer} {reports : List Log.Event}
    (h : ModeStep lx after reports) :
    (after.mode.name ≠ lx.mode.name → Xor (lx.mode = .initial) (after.mode = .initial)) ∧
      after.metrics.transitions =
        lx.metrics.transitions + if after.mode.name = lx.mode.name then 0 else 1 := by
  cases h with
  | kept side name_eq transitions_eq =>
    rw [if_pos name_eq]
    exact ⟨fun differs => absurd name_eq differs, transitions_eq⟩
  | changed sides transitions_eq =>
    have differs : after.mode.name ≠ lx.mode.name := by
      intro same
      rcases sides with ⟨own, other⟩ | ⟨other, own⟩
      · exact other (Mode.name_eq_initial.1 (same.trans (Mode.name_eq_initial.2 own)))
      · exact own (Mode.name_eq_initial.1 (same.symm.trans (Mode.name_eq_initial.2 other)))
    rw [if_neg differs]
    exact ⟨fun _ => sides, transitions_eq⟩

/-! ## What has been counted and told -/

/-- How the count of changes and the told ones stand to the mode. -/
structure Accounted (lx : Lexer) (told : List Log.Event) : Prop where
  even_iff : Even lx.metrics.transitions ↔ lx.mode = .initial
  path : lx.preferences.traceModes = true →
    Log.ModePath Mode.initial.name (told.filter Log.Event.tellsMode) lx.mode.name
  length_eq : lx.preferences.traceModes = true →
    (told.filter Log.Event.tellsMode).length = lx.metrics.transitions

theorem accounted_new (source : List UInt8) (preferences : LexicalPreferences)
    (service : PatternService) : Accounted (new source preferences service) [] :=
  ⟨iff_of_true Even.zero rfl, fun _ => .nil _, fun _ => rfl⟩

variable {lx after : Lexer} {told reports : List Log.Event}

theorem Accounted.step (h : Accounted lx told) (hstep : ModeStep lx after reports)
    (hpreferences : after.preferences = lx.preferences) : Accounted after (told ++ reports) := by
  cases hstep with
  | kept side name_eq transitions_eq =>
    rw [List.append_nil]
    refine ⟨?_, fun traced => ?_, fun traced => ?_⟩
    · rw [transitions_eq, side]
      exact h.even_iff
    · rw [name_eq]
      exact h.path (hpreferences ▸ traced)
    · rw [transitions_eq]
      exact h.length_eq (hpreferences ▸ traced)
  | @changed leaving sides transitions_eq mode_eq preferences_eq =>
    have one (traced : after.preferences.traceModes = true) :
        (told ++ leaving.transitionReports after.mode).filter Log.Event.tellsMode =
          told.filter Log.Event.tellsMode ++ [leaving.transitionEvent after.mode] := by
      have reported : leaving.transitionReports after.mode =
          [leaving.transitionEvent after.mode] :=
        if_pos (by rw [preferences_eq, ← hpreferences]; exact traced)
      rw [reported, List.filter_append,
        List.filter_cons_of_pos (tellsMode_transitionEvent leaving after.mode), List.filter_nil]
    refine ⟨?_, fun traced => ?_, fun traced => ?_⟩
    · rw [transitions_eq, Nat.even_add_one, h.even_iff]
      rcases sides with ⟨own, other⟩ | ⟨other, own⟩
      · exact iff_of_false (fun left => left own) other
      · exact iff_of_true own other
    · rw [one traced]
      refine (h.path (hpreferences ▸ traced)).snoc ?_ (to_transitionEvent leaving after.mode)
      rw [from_transitionEvent, mode_eq]
    · rw [one traced, List.length_append, h.length_eq (hpreferences ▸ traced), transitions_eq]
      rfl

theorem Accounted.settle (h : Accounted after (told ++ reports)) (start : Position)
    (result : Except LexError Token) :
    Accounted (settle start after result reports).lexer
      (told ++ (Lexer.settle start after result reports).reports) := by
  cases result with
  | ok t => exact ⟨h.even_iff, h.path, h.length_eq⟩
  | error e =>
    -- The report of an error tells no change.
    have silent : (told ++ (reports ++ [errorReport e start after])).filter
        Log.Event.tellsMode = (told ++ reports).filter Log.Event.tellsMode := by
      have other : ¬ (errorReport e start after).tellsMode = true := nofun
      rw [← List.append_assoc, List.filter_append (told ++ reports),
        List.filter_cons_of_neg other, List.filter_nil, List.append_nil]
    refine ⟨h.even_iff, fun traced => ?_, fun traced => ?_⟩
    · exact silent ▸ h.path traced
    · exact silent ▸ h.length_eq traced

theorem Accounted.nextFrom (h : Accounted lx (told ++ reports)) :
    Accounted (nextFrom reports lx).lexer (told ++ (Lexer.nextFrom reports lx).reports) := by
  fun_induction Lexer.nextFrom reports lx with
  | case1 reports lx after new hstep ih =>
    obtain ⟨n, hn⟩ := consumes_step lx
    have modes := modeStep_step lx
    rw [hstep] at hn modes
    apply ih
    rw [← List.append_assoc]
    exact h.step modes hn.preferences_eq
  | case2 reports lx after result new hstep =>
    obtain ⟨n, hn⟩ := consumes_step lx
    have modes := modeStep_step lx
    rw [hstep] at hn modes
    apply Accounted.settle
    rw [← List.append_assoc]
    exact h.step modes hn.preferences_eq

theorem Accounted.next {s : Logged (List Log.Event)} (h : Accounted s.lexer s.written) :
    let t := (Logged.next (Log.deliver (some Log.keepAll)) s).2
    Accounted t.lexer t.written := by
  rw [Logged.next_eq]
  simp only [Log.foldl_keepAll]
  rw [← List.append_nil s.written] at h
  exact h.nextFrom

theorem accounted_calls (source : List UInt8) (preferences : LexicalPreferences)
    (service : PatternService) (n : Nat) :
    let s := Logged.calls (Log.deliver (some Log.keepAll)) n
      { lexer := new source preferences service, written := [] }
    Accounted s.lexer s.written := by
  induction n with
  | zero => exact accounted_new source preferences service
  | succ n ih =>
    simp only [Logged.calls, Function.iterate_succ_apply']
    exact ih.next

/-! ## Between two calls -/

/-- Where an answer leaves the mode. -/
inductive Left (lx after : Lexer) : Except LexError Token → Prop
  | initial {result : Except LexError Token} (hm : after.mode = .initial)
    (closed : ∀ e, result = .error e →
      ¬ (lx.preferences.resetModeOnError = false ∧ e.fault.staysOpen = true ∧
        ¬ Piece.AtEnd lx.rest)) : Left lx after result
  | inside {form : Quoted} {opening : Position} {e : LexError}
    (hm : after.mode = .quoted form opening [])
    (hstay : lx.preferences.resetModeOnError = false) (stays : e.fault.staysOpen = true)
    (before : ¬ Piece.AtEnd lx.rest) : Left lx after (.error e)

theorem Breaks.staysOpen {form : Quoted} {opening : Position} {content : List UInt8} {n : Nat}
    {e : LexError} (h : Breaks lx form opening content n e) :
    e.fault.staysOpen = true ∧ ¬ Piece.AtEnd lx.rest := by
  cases h with
  | tooLong hfirst => exact ⟨rfl, Piece.not_atEnd_of_first hfirst nofun⟩
  | broken hfirst => exact ⟨Piece.apt_first hfirst, Piece.not_atEnd_of_first hfirst nofun⟩

theorem left_answer {result : Except LexError Token} (h : lx.step = .answer after result reports) :
    Left lx after result := by
  have outcome := outcome_step lx
  rw [h] at outcome
  cases outcome with
  | finish hm | token hm | hexString hm => exact .initial hm nofun
  | closing => exact .initial rfl nofun
  -- Outside literals no fault leaves anything open.
  | refused hm hfirst =>
    refine .initial hm ?_
    rintro e ⟨⟩ ⟨-, stays, -⟩
    rw [Lexeme.staysOpen_of_refused hfirst] at stays
    cases stays
  | hexRefused hm =>
    refine .initial hm ?_
    rintro e ⟨⟩ ⟨-, stays, -⟩
    cases stays
  | badModifier | openAtEnd =>
    refine .initial rfl ?_
    rintro e ⟨⟩ ⟨-, stays, -⟩
    cases stays
  | breakAndReset hm hbreaks hreset =>
    refine .initial rfl ?_
    rintro e - ⟨hstay, -, -⟩
    rw [hreset] at hstay
    cases hstay
  | exhausted hm hfirst =>
    -- The fault may be the same as that of a broken literal; the place is not.
    refine .initial rfl ?_
    rintro e - ⟨-, -, before⟩
    exact before (Piece.apt_first hfirst)
  | breakAndStay hm hbreaks hstay =>
    exact .inside rfl hstay hbreaks.staysOpen.1 hbreaks.staysOpen.2

/-- Some step of a call has raised its answer. -/
theorem exists_left (reports : List Log.Event) (lx : Lexer) :
    ∃ raised after new, Relation.ReflTransGen GoesOn lx raised ∧
      raised.step = .answer after (nextFrom reports lx).result new ∧
      raised.preferences = lx.preferences ∧
      (nextFrom reports lx).lexer.mode = after.mode := by
  fun_induction nextFrom reports lx with
  | case1 reports lx after new hstep ih =>
    obtain ⟨raised, final, told, hsteps, hanswer, hpreferences, hmode⟩ := ih
    obtain ⟨n, hn⟩ := consumes_step lx
    rw [hstep] at hn
    exact ⟨raised, final, told, .head ⟨new, hstep⟩ hsteps, hanswer,
      hpreferences.trans hn.preferences_eq, hmode⟩
  | case2 reports lx after result new hstep =>
    refine ⟨lx, after, new, .refl, ?_, rfl, ?_⟩
    · rw [result_settle]
      exact hstep
    · rw [lexer_settle]

/-- Where a lexer is between two calls. -/
inductive Settled (lx : Lexer) : Prop
  | initial (hm : lx.mode = .initial)
  | inside {form : Quoted} {opening : Position} (hm : lx.mode = .quoted form opening [])
    (hstay : lx.preferences.resetModeOnError = false)

theorem settled_nextFrom (reports : List Log.Event) (lx : Lexer) :
    Settled (nextFrom reports lx).lexer := by
  obtain ⟨raised, after, new, -, hanswer, hpreferences, hmode⟩ := exists_left reports lx
  generalize hresult : (nextFrom reports lx).result = result at hanswer
  cases left_answer hanswer with
  | initial hm => exact .initial (hmode.trans hm)
  | inside hm hstay =>
    refine .inside (hmode.trans hm) ?_
    rw [preferences_nextFrom, ← hpreferences]
    exact hstay

theorem settled_calls (source : List UInt8) (preferences : LexicalPreferences)
    (service : PatternService) (n : Nat) :
    Settled ((new source preferences service).calls n) := by
  cases n with
  | zero => exact .initial rfl
  | succ n =>
    rw [calls_succ]
    exact settled_nextFrom [] _

theorem Settled.ne_comment {lx : Lexer} (h : Settled lx) (opening : Position) :
    lx.mode ≠ .comment opening := by
  cases h with
  | initial hm => simp [hm]
  | inside hm => simp [hm]

theorem Settled.initial_of_reset {lx : Lexer} (h : Settled lx)
    (reset : lx.preferences.resetModeOnError = true) : lx.mode = .initial := by
  cases h with
  | initial hm => exact hm
  | inside hm hstay =>
    rw [reset] at hstay
    cases hstay

/-- A token leaves the lexer in the initial mode. -/
theorem mode_of_token {lx : Lexer} {t : Token} (h : lx.next.result = .ok t) :
    lx.next.lexer.mode = .initial := by
  obtain ⟨raised, after, reports, -, hanswer, -, hmode⟩ := exists_left [] lx
  rw [← next, h] at hanswer
  cases left_answer hanswer with
  | initial hm => exact hmode.trans hm

/-- An error leaves the lexer elsewhere just when there is no reset, the fault is
one that stays open and the source was not at its end. -/
theorem mode_of_error {lx : Lexer} {e : LexError} (h : lx.next.result = .error e) :
    ∃ raised after reports,
      Relation.ReflTransGen GoesOn lx raised ∧ raised.step = .answer after (.error e) reports ∧
      (lx.next.lexer.mode ≠ .initial ↔
        lx.preferences.resetModeOnError = false ∧ e.fault.staysOpen = true ∧
          ¬ Piece.AtEnd raised.rest) := by
  obtain ⟨raised, after, reports, hsteps, hanswer, kept, hmode⟩ := exists_left [] lx
  rw [← next, h] at hanswer
  refine ⟨raised, after, reports, hsteps, hanswer, ?_⟩
  show (nextFrom [] lx).lexer.mode ≠ .initial ↔ _
  rw [hmode, ← kept]
  cases left_answer hanswer with
  | initial hm closed => exact iff_of_false (fun differs => differs hm) (closed e rfl)
  | inside hm hstay stays before =>
    refine iff_of_true (fun initial => ?_) ⟨hstay, stays, before⟩
    rw [hm] at initial
    cases initial

end Lexer
end RuleLex
