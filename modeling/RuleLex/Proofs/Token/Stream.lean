/-
A stream of tokens is a list with a place in it.

A stream keeps the tokens before its cursor apart from those behind it.  A parser
thinks of one list that never changes and of an index into it, which is a
`Bookmark` here: looking reads at the index and moving changes the index alone.
`perform_bookmark` says that one operation on a stream is the same operation on
its bookmark, with the same response, and the run of any operations follows.

`behaves_as_list` collects what a parser relies on: where the cursor can be, what
looking ahead finds, that an attempt that fails leaves the stream as it was, and
that going back to a saved position undoes whatever was done since.
-/
import RuleLex.Token.Stream

namespace RuleLex
namespace TokenStream

/-- What a parser does with a stream. -/
inductive Operation where
  | advance
  | consumeIf (test : Token → Bool)
  | advanceIf (kind : TokenKind)
  | expect (kind : TokenKind)
  | save
  | restore (position : Nat)

/-- What a parser is told. -/
inductive Response where
  | found (token : Option Token)
  | moved (matched : Bool)
  | expected (result : Except Mismatch Token)
  | saved (position : Nat)
  | restored

/-- One operation: what the parser is told, and the stream after it. -/
def perform (s : TokenStream) : Operation → Response × TokenStream
  | .advance => (.found s.advance.current?, s.advance)
  | .consumeIf test =>
    match s.consumeIf? test with
    | some (t, after) => (.found (some t), after)
    | none => (.found none, s)
  | .advanceIf kind =>
    match s.consumeIf? fun t => t.kind == kind with
    | some (_, after) => (.moved true, after)
    | none => (.moved false, s)
  | .expect kind =>
    match s.expect kind with
    | .ok (t, after) => (.expected (.ok t), after)
    | .error mismatch => (.expected (.error mismatch), s)
  | .save => (.saved s.position, s)
  | .restore position => (.restored, s.restore position)

/-- The stream after some operations. -/
def after (s : TokenStream) (operations : List Operation) : TokenStream :=
  operations.foldl (fun s op => (s.perform op).2) s

/-- What the parser is told by some operations. -/
def responses (s : TokenStream) : List Operation → List Response
  | [] => []
  | op :: operations => (s.perform op).1 :: (s.perform op).2.responses operations

/-! ## A list with an index -/

/-- A list of tokens and a place in it. -/
structure Bookmark where
  tokens : List Token
  position : Nat

namespace Bookmark

def current? (b : Bookmark) : Option Token := b.tokens[b.position]?

/-- One place further, but not beyond the end. -/
def advance (b : Bookmark) : Bookmark :=
  if b.position < b.tokens.length then { b with position := b.position + 1 } else b

def perform (b : Bookmark) : Operation → Response × Bookmark
  | .advance => (.found b.advance.current?, b.advance)
  | .consumeIf test =>
    match b.current?.filter test with
    | some t => (.found (some t), b.advance)
    | none => (.found none, b)
  | .advanceIf kind =>
    if b.current?.map Token.kind = some kind then (.moved true, b.advance) else (.moved false, b)
  | .expect kind =>
    match b.current? with
    | some t =>
      if t.kind = kind then (.expected (.ok t), b.advance)
      else (.expected (.error (.token kind t.sourceText t.line)), b)
    | none => (.expected (.error (.endOfStream kind)), b)
  | .save => (.saved b.position, b)
  | .restore position => (.restored, { b with position := min position b.tokens.length })

def after (b : Bookmark) (operations : List Operation) : Bookmark :=
  operations.foldl (fun b op => (b.perform op).2) b

def responses (b : Bookmark) : List Operation → List Response
  | [] => []
  | op :: operations => (b.perform op).1 :: (b.perform op).2.responses operations

end Bookmark

/-- The list and the place that a stream stands for. -/
def bookmark (s : TokenStream) : Bookmark := { tokens := s.tokens, position := s.position }

/-! ## Looking -/

variable (s : TokenStream)

theorem position_le : s.position ≤ s.tokens.length := by
  rw [length_tokens]
  exact Nat.le_add_right _ _

theorem peek_eq (n : Nat) : s.peek? n = s.tokens[s.position + n]? := by
  have passed : s.passed.reverse.length = s.position := List.length_reverse
  rw [peek?, tokens, List.getElem?_append_right (by omega), passed, Nat.add_sub_cancel_left]

theorem current_eq : s.current? = s.tokens[s.position]? := by
  rw [current?, List.head?_eq_getElem?]
  exact s.peek_eq 0

theorem remaining_eq : s.remaining = s.tokens.drop s.position := by
  have passed : s.passed.reverse.length = s.position := List.length_reverse
  rw [remaining, tokens, ← passed, List.drop_left]

/-- A stream is known by its list and its place. -/
theorem eq_of_bookmark {s t : TokenStream} (h : s.bookmark = t.bookmark) : s = t := by
  have tokens_eq : s.tokens = t.tokens := congrArg Bookmark.tokens h
  have position_eq : s.position = t.position := congrArg Bookmark.position h
  have ahead_eq : s.ahead = t.ahead := by
    have := s.remaining_eq
    rw [tokens_eq, position_eq, ← t.remaining_eq] at this
    exact this
  have passed_eq : s.passed = t.passed := by
    rw [tokens, tokens, ahead_eq, List.append_left_inj, List.reverse_inj] at tokens_eq
    exact tokens_eq
  obtain ⟨passed, ahead⟩ := s
  obtain ⟨passed', ahead'⟩ := t
  cases passed_eq
  cases ahead_eq
  rfl

/-! ## Moving -/

theorem position_advance : s.advance.position = min (s.position + 1) s.tokens.length := by
  have length : s.tokens.length = s.position + s.ahead.length := s.length_tokens
  cases hahead : s.ahead with
  | nil =>
    have stays : s.advance = s := by simp only [advance, hahead]
    rw [hahead, List.length_nil] at length
    rw [stays]
    omega
  | cons t rest =>
    have moves : s.advance.position = s.position + 1 := by
      simp only [position, advance, hahead, List.length_cons]
    rw [hahead, List.length_cons] at length
    rw [moves]
    omega

theorem bookmark_advance : s.advance.bookmark = s.bookmark.advance := by
  have le : s.position ≤ s.tokens.length := s.position_le
  rw [bookmark, tokens_advance, position_advance]
  by_cases room : s.position < s.tokens.length
  · rw [Nat.min_eq_left room]
    exact (if_pos room).symm
  · rw [Nat.min_eq_right (by omega), show s.tokens.length = s.position by omega]
    exact (if_neg room).symm

theorem bookmark_restore (p : Nat) :
    (s.restore p).bookmark = { s.bookmark with position := min p s.tokens.length } := by
  have place : (s.restore p).position = min p s.tokens.length := by
    simp only [position, restore, List.length_reverse, List.length_take]
  rw [bookmark, tokens_restore, place]
  rfl

theorem consumeIf_eq (test : Token → Bool) :
    s.consumeIf? test = (s.current?.filter test).map fun t => (t, s.advance) := by
  rw [consumeIf?]
  cases s.current? with
  | none => rfl
  | some t => cases htest : test t <;> simp [Option.filter, htest]

/-- One operation on a stream is the same operation on its bookmark. -/
theorem perform_bookmark (op : Operation) :
    s.bookmark.perform op = ((s.perform op).1, (s.perform op).2.bookmark) := by
  have current : s.bookmark.current? = s.current? := s.current_eq.symm
  cases op with
  | advance =>
    have next : s.bookmark.advance.current? = s.advance.current? := by
      rw [← bookmark_advance]
      exact s.advance.current_eq.symm
    rw [Bookmark.perform, next, ← bookmark_advance]
    rfl
  | consumeIf test =>
    rw [Bookmark.perform, perform, current, consumeIf_eq, ← bookmark_advance]
    cases s.current?.filter test <;> rfl
  | advanceIf kind =>
    rw [Bookmark.perform, perform, current, consumeIf_eq, ← bookmark_advance]
    cases s.current? with
    | none => rfl
    | some t =>
      by_cases hkind : t.kind = kind
      · simp [Option.filter, hkind]
      · simp [Option.filter, hkind]
  | expect kind =>
    rw [Bookmark.perform, perform, expect, current, ← bookmark_advance]
    cases s.current? with
    | none => rfl
    | some t =>
      by_cases hkind : t.kind = kind
      · simp only [if_pos hkind]
      · simp only [if_neg hkind]
  | save => rfl
  | restore p =>
    rw [Bookmark.perform, perform, bookmark_restore]
    rfl

theorem after_bookmark (operations : List Operation) :
    (s.after operations).bookmark = s.bookmark.after operations := by
  induction operations generalizing s with
  | nil => rfl
  | cons op operations ih =>
    have step := congrArg Prod.snd (s.perform_bookmark op)
    show ((s.perform op).2.after operations).bookmark =
      (s.bookmark.perform op).2.after operations
    rw [ih, step]

theorem responses_bookmark (operations : List Operation) :
    s.responses operations = s.bookmark.responses operations := by
  induction operations generalizing s with
  | nil => rfl
  | cons op operations ih =>
    rw [responses, Bookmark.responses, perform_bookmark, ih]

/-! ## What no operation does -/

theorem Bookmark.tokens_perform (b : Bookmark) (op : Operation) :
    (b.perform op).2.tokens = b.tokens := by
  have advanced : b.advance.tokens = b.tokens := by
    unfold Bookmark.advance
    split <;> rfl
  cases op with
  | advance => exact advanced
  | consumeIf test =>
    simp only [perform]
    split
    · exact advanced
    · rfl
  | advanceIf kind =>
    simp only [perform]
    split
    · exact advanced
    · rfl
  | expect kind =>
    simp only [perform]
    split
    · split
      · exact advanced
      · rfl
    · rfl
  | save => rfl
  | restore p => rfl

theorem tokens_perform (op : Operation) : (s.perform op).2.tokens = s.tokens := by
  have kept := s.bookmark.tokens_perform op
  rw [perform_bookmark] at kept
  exact kept

theorem tokens_after (operations : List Operation) : (s.after operations).tokens = s.tokens := by
  induction operations generalizing s with
  | nil => rfl
  | cons op operations ih => exact (ih (s.perform op).2).trans (s.tokens_perform op)

/-! ## Looking ahead and going back -/

theorem position_after_advances (n : Nat) :
    (s.after (List.replicate n .advance)).position = min (s.position + n) s.tokens.length := by
  induction n generalizing s with
  | zero => exact (Nat.min_eq_left s.position_le).symm
  | succ n ih =>
    have step : (s.after (List.replicate (n + 1) .advance)) =
        s.advance.after (List.replicate n .advance) := rfl
    rw [step, ih, position_advance, tokens_advance]
    omega

/-- Looking ahead finds what is current after so many steps, at the end and past
it too. -/
theorem peek_eq_current_after (n : Nat) :
    s.peek? n = (s.after (List.replicate n .advance)).current? := by
  rw [current_eq, tokens_after, position_after_advances, peek_eq]
  rcases Nat.lt_or_ge (s.position + n) s.tokens.length with inside | past
  · rw [Nat.min_eq_left (Nat.le_of_lt inside)]
  · rw [Nat.min_eq_right past, List.getElem?_eq_none (Nat.le_refl _), List.getElem?_eq_none past]

/-- Going back to the position of a stream gives that stream again, whatever was
done since. -/
theorem restore_position_after (between : List Operation) :
    (s.after between).restore s.position = s := by
  apply eq_of_bookmark
  rw [bookmark_restore, tokens_after, Nat.min_eq_left s.position_le]
  have tokens_eq : (s.after between).tokens = s.tokens := s.tokens_after between
  simp only [bookmark, tokens_eq]

/-! ## Attempts -/

/-- What an attempt asks of the current token.  The other operations are not
attempts. -/
def Operation.test? : Operation → Option (Token → Bool)
  | .consumeIf test => some test
  | .advanceIf kind => some fun t => t.kind == kind
  | .expect kind => some fun t => t.kind == kind
  | _ => none

/-- The parser is told that an attempt was successful. -/
def Response.succeeded : Response → Bool
  | .found token => token.isSome
  | .moved matched => matched
  | .expected result => result.isOk
  | _ => false

/-- An attempt is successful when the current token passes, and moves past that
token; otherwise nothing happens. -/
theorem perform_attempt {op : Operation} {test : Token → Bool} (h : op.test? = some test) :
    (s.perform op).1.succeeded = s.current?.any test ∧
      (s.perform op).2 = if s.current?.any test then s.advance else s := by
  cases op with
  | consumeIf test' =>
    cases h
    rw [perform, consumeIf_eq]
    cases s.current? with
    | none => exact ⟨rfl, rfl⟩
    | some t => cases htest : test t <;> simp [Option.filter, htest, Response.succeeded]
  | advanceIf kind =>
    cases h
    rw [perform, consumeIf_eq]
    cases s.current? with
    | none => exact ⟨rfl, rfl⟩
    | some t => by_cases hkind : t.kind = kind <;> simp [Option.filter, hkind, Response.succeeded]
  | expect kind =>
    cases h
    rw [perform, expect]
    cases s.current? with
    | none => exact ⟨rfl, rfl⟩
    | some t =>
      by_cases hkind : t.kind = kind <;>
        simp [hkind, Response.succeeded, Except.isOk, Except.toBool]
  | _ => cases h

theorem position_advance_of_current {t : Token} (h : s.current? = some t) :
    s.advance.position = s.position + 1 := by
  have inside : s.position < s.tokens.length := by
    rw [current_eq] at h
    exact (List.getElem?_eq_some_iff.1 h).1
  rw [position_advance]
  omega

/-! ## A stream for a parser -/

/-- The stream stands for a list of tokens with a place in it. -/
structure StandsFor (ts : List Token) (s : TokenStream) : Prop where
  tokens_eq : s.tokens = ts
  position_le : s.position ≤ ts.length
  current_eq : s.current? = ts[s.position]?
  atEnd_iff : s.isAtEnd = true ↔ s.current? = none
  remaining_eq : s.remaining = ts.drop s.position
  remaining_length : s.remaining.length = ts.length - s.position
  peek_eq : ∀ n, s.peek? n = (s.after (List.replicate n .advance)).current?
  /-- A successful attempt moves by one token. -/
  success : ∀ op test, op.test? = some test → (s.perform op).1.succeeded = true →
    s.current?.any test = true ∧ (s.perform op).2.tokens = s.tokens ∧
      (s.perform op).2.position = s.position + 1
  /-- An attempt that fails is as if it had not been made. -/
  failure : ∀ op test, op.test? = some test → (s.perform op).1.succeeded = false →
    s.current?.any test = false ∧ (s.perform op).2 = s
  /-- A position saved now brings the stream back later. -/
  checkpoint : ∀ p, s.perform .save = (.saved p, s) → ∀ between further,
    let back := ((s.after between).perform (.restore p)).2
    back.responses further = s.responses further ∧ back.after further = s.after further

theorem standsFor {ts : List Token} (h : s.tokens = ts) : StandsFor ts s := by
  subst h
  constructor
  · rfl
  · exact s.position_le
  · exact s.current_eq
  · rw [isAtEnd, current?, List.isEmpty_iff, List.head?_eq_none_iff]
  · exact s.remaining_eq
  · rw [remaining_eq, List.length_drop]
  · exact s.peek_eq_current_after
  · intro op test htest hsuccess
    obtain ⟨succeeded, moved⟩ := s.perform_attempt htest
    rw [hsuccess] at succeeded
    rw [← succeeded, if_pos rfl] at moved
    obtain ⟨t, ht⟩ : ∃ t, s.current? = some t := by
      cases hcurrent : s.current? with
      | none =>
        rw [hcurrent] at succeeded
        cases succeeded
      | some t => exact ⟨t, rfl⟩
    rw [moved]
    exact ⟨succeeded.symm, s.tokens_advance, s.position_advance_of_current ht⟩
  · intro op test htest hfailure
    obtain ⟨succeeded, moved⟩ := s.perform_attempt htest
    rw [hfailure] at succeeded
    rw [← succeeded] at moved
    exact ⟨succeeded.symm, moved⟩
  · intro p hsave between further
    have place : s.position = p := by
      have := congrArg Prod.fst hsave
      cases this
      rfl
    have back : ((s.after between).perform (.restore p)).2 = s := by
      rw [← place]
      exact s.restore_position_after between
    show _ = s.responses further ∧ _ = s.after further
    rw [back]
    exact ⟨rfl, rfl⟩

/-- Whatever a parser does with a stream, it is told what a list with an index
would tell it, and the stream stands for that list all the time. -/
theorem behaves_as_list (ts : List Token) (operations : List Operation) :
    let s := (ofList ts).after operations
    let b := (Bookmark.mk ts 0).after operations
    (ofList ts).responses operations = (Bookmark.mk ts 0).responses operations ∧
      s.position = b.position ∧ s.current? = b.current? ∧ StandsFor ts s := by
  intro s b
  have start : (ofList ts).bookmark = Bookmark.mk ts 0 := rfl
  have same : s.bookmark = b := after_bookmark (ofList ts) operations
  refine ⟨?_, ?_, ?_, ?_⟩
  · rw [responses_bookmark, start]
  · rw [← same]
    rfl
  · rw [← same]
    exact s.current_eq
  · exact standsFor s ((tokens_after _ operations).trans (tokens_ofList ts))

end TokenStream
end RuleLex
