/-
Where the errors of a byte pattern point.

While a pattern is being read a flaw is told by the text from its place on.  What
stands there follows from what every move of the reader keeps, `Traced`: the open
alternations and the jumps read so far are known by their first bytes, an
alternative without elements goes on where it started, and the reader stands inside
as many alternations as its stack is high, `OpenAt`.

An offset counts from the first byte of the pattern as it was handed over, braces
included; `PlacedAt` ties the two together.  `error_points_at` says of every error
what stands at its offset.
-/
import RuleLex.Proofs.Pattern.Reader

namespace RuleLex
namespace Pattern

/-! ## Open alternations -/

/-- The bytes that are more than themselves to the nesting: parentheses, and the
slash that may begin a comment. -/
def structural : List UInt8 := [Ascii.openParen, Ascii.closeParen, Ascii.slash]

/-- Reading the text up to a place leaves `n` alternations open.  White space and
comments are passed over whole, so the parentheses in them do not count. -/
inductive OpenAt (text : List UInt8) : Nat → List UInt8 → Prop
  | start : OpenAt text 0 text
  | skip {n : Nat} {s r : List UInt8} (h : OpenAt text n s) (skips : Trivia s r) : OpenAt text n r
  | enter {n : Nat} {s : List UInt8} (h : OpenAt text n (Ascii.openParen :: s)) :
    OpenAt text (n + 1) s
  | leave {n : Nat} {s : List UInt8} (h : OpenAt text (n + 1) (Ascii.closeParen :: s)) :
    OpenAt text n s
  | other {n : Nat} {b : UInt8} {s : List UInt8} (h : OpenAt text n (b :: s))
    (hb : b ∉ structural) : OpenAt text n s

theorem Trivia.suffix {s r : List UInt8} (h : Trivia s r) : r <:+ s := by
  induction h with
  | done => exact List.suffix_rfl
  | blank _ _ ih => exact ih.trans (List.suffix_cons _ _)
  | line _ _ _ ih | block _ _ ih =>
    exact ih.trans ((List.suffix_append _ _).trans
      ((List.suffix_cons _ _).trans (List.suffix_cons _ _)))

variable {text inner place s t : List UInt8} {n : Nat} {b : UInt8}

theorem OpenAt.suffix (h : OpenAt text n s) : s <:+ text := by
  induction h with
  | start => exact List.suffix_rfl
  | skip _ skips ih => exact skips.suffix.trans ih
  | enter _ ih | leave _ ih | other _ _ ih => exact (List.suffix_cons _ _).trans ih

/-- How many more alternations are opened than closed in what is left. -/
def level (s : List UInt8) : Int :=
  match _skips : skipTrivia s with
  | .ok (b :: r) =>
    (if b = Ascii.openParen then 1 else if b = Ascii.closeParen then -1 else 0) + level r
  | _ => 0
termination_by s.length
decreasing_by
  have := length_skipTrivia_le _skips
  rw [List.length_cons] at this
  omega

theorem level_eq (s : List UInt8) : level s =
    match skipTrivia s with
    | .ok (b :: r) =>
      (if b = Ascii.openParen then 1 else if b = Ascii.closeParen then -1 else 0) + level r
    | _ => 0 := by
  rw [level.eq_def]
  split
  · rename_i hskip
    rw [hskip]
  · rename_i hskip
    split
    · rename_i b r h
      exact absurd h (hskip b r)
    · rfl

theorem level_congr (h : Trivia s t) : level s = level t := by
  rw [level_eq, level_eq t, skipTrivia_congr h]

theorem level_cons (hslash : b ≠ Ascii.slash) : level (b :: s) =
    (if b = Ascii.openParen then 1 else if b = Ascii.closeParen then -1 else 0) + level s := by
  cases hblank : Ascii.isBlank b with
  | true =>
    have other (c : UInt8) (hc : Ascii.isBlank c = false) : b ≠ c := by
      rintro rfl
      rw [hc] at hblank
      cases hblank
    rw [level_congr (.blank hblank .done), if_neg (other _ rfl), if_neg (other _ rfl), Int.zero_add]
  | false => rw [level_eq, skipTrivia_cons hblank hslash]

theorem OpenAt.level_eq (h : OpenAt text n s) : level text = n + level s := by
  induction h with
  | start => exact (Int.zero_add _).symm
  | skip _ skips ih => rw [ih, level_congr skips]
  | enter _ ih =>
    rw [ih, level_cons (by decide), if_pos rfl]
    omega
  | leave _ ih =>
    rw [ih, level_cons (by decide), if_neg (by decide), if_pos rfl]
    omega
  | other _ hb ih =>
    simp only [structural, List.mem_cons, List.not_mem_nil, or_false, not_or] at hb
    rw [ih, level_cons hb.2.2, if_neg hb.1, if_neg hb.2.1, Int.zero_add]

/-- A place is inside one number of alternations. -/
theorem OpenAt.unique {m : Nat} (h : OpenAt text n s) (h' : OpenAt text m s) : n = m := by
  have levels := h.level_eq.symm.trans h'.level_eq
  omega

theorem not_structural_of_test (test : UInt8 → Bool) (hnone : structural.any test = false)
    (hb : test b = true) : b ∉ structural := by
  intro hmem
  have some_passes : structural.any test = true := List.any_eq_true.2 ⟨b, hmem, hb⟩
  rw [hnone] at some_passes
  cases some_passes

theorem OpenAt.bytes {r : List UInt8} (h : OpenAt text n (s ++ r))
    (hs : ∀ b ∈ s, b ∉ structural) : OpenAt text n r := by
  induction s with
  | nil => exact h
  | cons b s ih =>
    obtain ⟨hb, hrest⟩ := List.forall_mem_cons.1 hs
    exact ih (h.other hb) hrest

theorem not_structural_of_blank (h : Blank s) : ∀ b ∈ s, b ∉ structural :=
  fun b hb => not_structural_of_test Ascii.isBlank rfl (h b hb)

theorem not_structural_of_bound {bound : Option UInt32} (h : Bound s bound) :
    ∀ b ∈ s, b ∉ structural := by
  cases bound with
  | none =>
    rw [show s = [] from h]
    nofun
  | some n => exact fun b hb => not_structural_of_test Ascii.isDigit rfl (h.digit b hb)

theorem not_structural_of_jumpText {e : Element} (h : JumpText s e) :
    ∀ b ∈ s, b ∉ structural := by
  have opening : Ascii.openBracket ∉ structural := by decide
  have minus : Ascii.minus ∉ structural := by decide
  have closing : Ascii.closeBracket ∉ structural := by decide
  cases h with
  | @exact before digits after n hbefore hdigits hafter =>
    have bound : Bound digits (some n) := hdigits
    simp only [List.forall_mem_cons, List.forall_mem_append]
    exact ⟨opening, ⟨⟨not_structural_of_blank hbefore, not_structural_of_bound bound⟩,
      not_structural_of_blank hafter⟩, closing, by simp⟩
  | range hbefore hlow hafter hbefore' hhigh hafter' _ =>
    simp only [List.forall_mem_cons, List.forall_mem_append]
    exact ⟨opening, ⟨⟨not_structural_of_blank hbefore, not_structural_of_bound hlow⟩,
      not_structural_of_blank hafter⟩, minus, ⟨⟨not_structural_of_blank hbefore',
      not_structural_of_bound hhigh⟩, not_structural_of_blank hafter'⟩, closing, by simp⟩

theorem not_structural_of_nibbleText {nibble : Nibble} (h : NibbleText b nibble) :
    b ∉ structural :=
  not_structural_of_test (fun b => (Nibble.ofByte? b).isSome) rfl
    (by rw [ofByte_of_nibbleText h]; rfl)

/-- An element without alternations leaves as many open as there were. -/
theorem OpenAt.element {u : List UInt8} {e : Element} (h : OpenAt text n t)
    (first : ElementText t e u) (flat : e.nesting = 0) : OpenAt text n u := by
  cases first with
  | byte hhigh hlow =>
    exact (h.other (not_structural_of_nibbleText hhigh)).other (not_structural_of_nibbleText hlow)
  | jump hjump => exact h.bytes (not_structural_of_jumpText hjump)
  | alternation => exact absurd flat (Nat.succ_ne_zero _)

/-! ## What the reader knows of its places -/

/-- A jump was read from its bracket. -/
def JumpPlaced (inner : List UInt8) (l : Located) : Prop :=
  l.element.isJump = true → ∃ t, l.place = Ascii.openBracket :: t ∧ l.place <:+ inner

/-- An open alternation was read from its parenthesis. -/
structure FramePlaced (inner : List UInt8) (frame : Frame) : Prop where
  opening : ∃ t, frame.opening = Ascii.openParen :: t ∧ frame.opening <:+ inner
  before : ∀ l ∈ frame.before, JumpPlaced inner l

/-- The byte opens an alternative. -/
def OpensAlternative (b : UInt8) : Prop := b = Ascii.openParen ∨ b = Ascii.bar

/-- The byte ends an alternative. -/
def EndsAlternative (b : UInt8) : Prop := b = Ascii.bar ∨ b = Ascii.closeParen

/-- What is known of the places that a reader of `inner` holds. -/
structure Traced (inner : List UInt8) (r : Reading) : Prop where
  opened : OpenAt inner r.stack.length r.rest
  frames : ∀ frame ∈ r.stack, FramePlaced inner frame
  sequence : ∀ l ∈ r.sequence, JumpPlaced inner l
  /-- Before its first element an alternative is right behind the byte that opens it. -/
  fresh : r.sequence = [] → r.rest = r.started ∧
    (r.stack ≠ [] → ∃ b, OpensAlternative b ∧ b :: r.rest <:+ inner)

theorem traced_start (inner : List UInt8) : Traced inner (.start inner) where
  opened := .start
  frames := nofun
  sequence := nofun
  fresh := fun _ => ⟨rfl, fun h => absurd rfl h⟩

theorem jumpPlaced_of_elementText {u : List UInt8} {e : Element} (first : ElementText t e u)
    (h : t <:+ inner) : JumpPlaced inner { place := t, element := e } := by
  intro isJump
  cases first with
  | byte | alternation => cases isJump
  | jump hjump => cases hjump with
    | exact | range => exact ⟨_, rfl, h⟩

theorem Traced.moves {r r' : Reading} (h : Traced inner r) (hmove : Reading.Moves r r') :
    Traced inner r' := by
  cases hmove with
  | bar skips nonempty =>
    have here := h.opened.skip skips
    obtain ⟨frame, outer⟩ := List.forall_mem_cons.1 h.frames
    exact {
      opened := here.other (by decide)
      frames := List.forall_mem_cons.2 ⟨⟨frame.opening, frame.before⟩, outer⟩
      sequence := nofun
      fresh := fun _ => ⟨rfl, fun _ => ⟨_, .inr rfl, here.suffix⟩⟩ }
  | close skips nonempty =>
    obtain ⟨frame, outer⟩ := List.forall_mem_cons.1 h.frames
    exact {
      opened := (h.opened.skip skips).leave
      frames := outer
      sequence := List.forall_mem_cons.2 ⟨nofun, frame.before⟩
      fresh := nofun }
  | enter skips fits =>
    have here := h.opened.skip skips
    exact {
      opened := here.enter
      frames := List.forall_mem_cons.2 ⟨⟨⟨_, rfl, here.suffix⟩, h.sequence⟩, h.frames⟩
      sequence := nofun
      fresh := fun _ => ⟨rfl, fun _ => ⟨_, .inl rfl, here.suffix⟩⟩ }
  | element skips first flat =>
    have here := h.opened.skip skips
    exact {
      opened := here.element first flat
      frames := h.frames
      sequence := List.forall_mem_cons.2
        ⟨jumpPlaced_of_elementText first here.suffix, h.sequence⟩
      fresh := nofun }

theorem Traced.reachable {r r' : Reading} (h : Traced inner r)
    (hmoves : Relation.ReflTransGen Reading.Moves r r') : Traced inner r' := by
  induction hmoves with
  | refl => exact h
  | tail _ hmove ih => exact ih.moves hmove

/-! ## Flaws -/

/-- What stands at the place of a flaw, told by the text from there on. -/
inductive Blames (inner : List UInt8) : Flaw (List UInt8) → Prop
  | empty (h : Trivia inner []) : Blames inner .emptyPattern
  | unexpected {b : UInt8} {s : List UInt8} (h : b :: s <:+ inner) :
    Blames inner (.unexpectedCharacter b (b :: s))
  | incomplete {b : UInt8} {s : List UInt8} {nibble : Nibble} (h : b :: s <:+ inner)
    (hb : NibbleText b nibble) (alone : ∀ c, s.head? = some c → ∀ other, ¬ NibbleText c other) :
    Blames inner (.incompleteByte (b :: s))
  | malformed {s : List UInt8} (h : Ascii.openBracket :: s <:+ inner) :
    Blames inner (.malformedJump (Ascii.openBracket :: s))
  | inverted {s : List UInt8} (min max : UInt32) (h : Ascii.openBracket :: s <:+ inner) :
    Blames inner (.invertedJumpRange min max (Ascii.openBracket :: s))
  | boundary {s : List UInt8} (h : Ascii.openBracket :: s <:+ inner) :
    Blames inner (.jumpAtBoundary (Ascii.openBracket :: s))
  | tooDeep {s : List UInt8} (h : OpenAt inner limits.maxNestingDepth (Ascii.openParen :: s)) :
    Blames inner (.nestingTooDeep (Ascii.openParen :: s))
  | unbalanced {b : UInt8} {s : List UInt8} (h : b :: s <:+ inner)
    (hb : OpensAlternative b ∨ EndsAlternative b) : Blames inner (.unbalancedAlternation (b :: s))
  | emptyAlternative {n : Nat} {b c : UInt8} {s t : List UInt8} (h : b :: s <:+ inner)
    (hb : OpensAlternative b) (opened : OpenAt inner (n + 1) s) (skips : Trivia s (c :: t))
    (hc : EndsAlternative c) : Blames inner (.emptyAlternative s)

section Turn

variable {r : Reading} {flaw : Flaw (List UInt8)}

theorem blames_of_turnEnd (h : Traced inner r) (hstop : r.turnEnd = .stop (.error flaw)) :
    Blames inner flaw := by
  unfold Reading.turnEnd at hstop
  split at hstop
  · cases hstop
  · rename_i frame outer hstack
    cases hstop
    obtain ⟨s, hopening, suffix⟩ := (h.frames frame (hstack ▸ List.mem_cons_self)).opening
    rw [hopening] at suffix ⊢
    exact .unbalanced suffix (.inl (.inl rfl))

theorem blames_of_turnClose (h : Traced inner r) (skips : Trivia r.rest (b :: s))
    (hb : EndsAlternative b) (hstop : r.turnClose b s = .stop (.error flaw)) :
    Blames inner flaw := by
  unfold Reading.turnClose at hstop
  split at hstop
  · cases hstop
    exact .unbalanced (h.opened.skip skips).suffix (.inr hb)
  · rename_i frame outer hstack
    have opened := h.opened
    rw [hstack, List.length_cons] at opened
    split at hstop
    · rename_i hempty
      cases hstop
      obtain ⟨started, opener⟩ := h.fresh hempty
      obtain ⟨c, hc, suffix⟩ := opener (by rw [hstack]; exact List.cons_ne_nil _ _)
      rw [← started]
      exact .emptyAlternative suffix hc opened skips hb
    · simp only at hstop
      split at hstop <;> cases hstop

theorem blames_of_turnOpen (h : Traced inner r)
    (fits : r.stack.length ≤ limits.maxNestingDepth)
    (skips : Trivia r.rest (Ascii.openParen :: s))
    (hstop : r.turnOpen Ascii.openParen s = .stop (.error flaw)) : Blames inner flaw := by
  unfold Reading.turnOpen at hstop
  split at hstop
  · rename_i full
    cases hstop
    have here := h.opened.skip skips
    rw [Nat.le_antisymm fits full] at here
    exact .tooDeep here
  · cases hstop

theorem blames_of_turnJump (h : Traced inner r) (skips : Trivia r.rest (Ascii.openBracket :: s))
    (hstop : r.turnJump Ascii.openBracket s = .stop (.error flaw)) : Blames inner flaw := by
  have here := (h.opened.skip skips).suffix
  unfold Reading.turnJump at hstop
  split at hstop
  · cases hstop
    exact .malformed here
  · cases hstop
    exact .inverted _ _ here
  · cases hstop

theorem blames_of_turnByte (h : Traced inner r) (skips : Trivia r.rest (b :: s))
    (hstop : r.turnByte b s = .stop (.error flaw)) : Blames inner flaw := by
  have here := (h.opened.skip skips).suffix
  unfold Reading.turnByte at hstop
  cases hhigh : Nibble.ofByte? b with
  | none =>
    rw [hhigh] at hstop
    cases hstop
    exact .unexpected here
  | some high =>
    rw [hhigh] at hstop
    have first := nibbleText_of_ofByte hhigh
    cases s with
    | nil =>
      cases hstop
      refine .incomplete here first fun c hc => ?_
      cases hc
    | cons c after =>
      cases hlow : Nibble.ofByte? c with
      | none =>
        simp only [hlow] at hstop
        cases hstop
        refine .incomplete here first fun d hd other hother => ?_
        cases hd
        rw [ofByte_of_nibbleText hother] at hlow
        cases hlow
      | some low =>
        simp only [hlow] at hstop
        cases hstop

theorem blames_of_turn (h : Traced inner r) (fits : r.stack.length ≤ limits.maxNestingDepth)
    (hstop : r.turn = .stop (.error flaw)) : Blames inner flaw := by
  unfold Reading.turn at hstop
  split at hstop
  · rename_i place hskip
    cases hstop
    obtain ⟨skips, s, rfl, -⟩ := unclosed_of_skipTrivia hskip
    exact .unexpected (h.opened.skip skips).suffix
  · exact blames_of_turnEnd h hstop
  · rename_i b s hskip
    have skips := trivia_of_skipTrivia hskip
    split at hstop
    · rename_i hb
      exact blames_of_turnClose h skips hb hstop
    · split at hstop
      · rename_i hb
        subst hb
        exact blames_of_turnOpen h fits skips hstop
      · split at hstop
        · rename_i hb
          subst hb
          exact blames_of_turnJump h skips hstop
        · exact blames_of_turnByte h skips hstop

end Turn

theorem blames_of_readSequence {flaw : Flaw (List UInt8)}
    (h : readSequence (.start inner) = .error flaw) : Blames inner flaw := by
  obtain ⟨r, hmoves, hstop⟩ := Reading.exists_last_turn (.start inner)
  rw [h] at hstop
  have fits := Reading.fits_of_reachable (Reading.fits_start inner) hmoves
  exact blames_of_turn ((traced_start inner).reachable hmoves) fits.depth hstop

theorem blames_of_checkBoundaries {located : List Located} {flaw : Flaw (List UInt8)}
    (hread : readSequence (.start inner) = .ok located)
    (h : checkBoundaries located = .error flaw) : Blames inner flaw := by
  obtain ⟨r, hmoves, hstop⟩ := Reading.exists_last_turn (.start inner)
  rw [hread, Reading.turn_eq_stop_ok_iff] at hstop
  have traced := (traced_start inner).reachable hmoves
  have placed : ∀ l ∈ located, JumpPlaced inner l := by
    obtain ⟨-, -, rfl⟩ := hstop
    exact fun l hl => traced.sequence l (List.mem_reverse.1 hl)
  have jump {l : Located} (hl : l ∈ located) (isJump : l.element.isJump = true) :
      Blames inner (.jumpAtBoundary l.place) := by
    obtain ⟨s, hplace, suffix⟩ := placed l hl isJump
    rw [hplace] at suffix ⊢
    exact .boundary suffix
  unfold checkBoundaries at h
  split at h
  · rename_i l _ hfirst
    cases h
    obtain ⟨hhead, isJump⟩ := Option.filter_eq_some_iff.1 hfirst
    exact jump (List.mem_of_head? hhead) isJump
  · rename_i l _ hlast
    cases h
    obtain ⟨hlast, isJump⟩ := Option.filter_eq_some_iff.1 hlast
    exact jump (List.mem_of_getLast? hlast) isJump
  · split at h
    · rename_i hempty
      cases h
      have derivation := (Reading.sequence_of_readSequence hread).1
      rw [hempty] at derivation
      cases derivation with
      | nil trivia => exact .empty trivia
    · cases h

/-- A flaw without a place is that of a pattern with nothing in it; any other place
is a byte of the body. -/
theorem Blames.exists_place {flaw : Flaw (List UInt8)} (h : Blames inner flaw) :
    flaw = .emptyPattern ∨
      ∃ place, flaw.place? = some place ∧ place <:+ inner ∧ place ≠ [] := by
  cases h with
  | empty => exact .inl rfl
  | unexpected h | incomplete h | malformed h | inverted _ _ h | boundary h | unbalanced h =>
    exact .inr ⟨_, rfl, h, List.cons_ne_nil _ _⟩
  | tooDeep h => exact .inr ⟨_, rfl, h.suffix, List.cons_ne_nil _ _⟩
  | emptyAlternative h _ _ skips =>
    refine .inr ⟨_, rfl, (List.suffix_cons _ _).trans h, ?_⟩
    rintro rfl
    exact absurd (List.suffix_nil.1 skips.suffix) (List.cons_ne_nil _ _)

theorem Flaw.place?_map {Place Other : Type} (f : Place → Other) (flaw : Flaw Place) :
    (flaw.map f).place? = flaw.place?.map f := by
  cases flaw <;> rfl

/-! ## Offsets -/

/-- Behind `before` the body of the pattern goes on with `place`, whose first byte has
the offset `k` in the pattern as it was handed over. -/
inductive PlacedAt (text : List UInt8) : Nat → List UInt8 → List UInt8 → Prop
  | braced {before place : List UInt8}
    (h : text = Ascii.openBrace :: (before ++ place ++ [Ascii.closeBrace])) :
    PlacedAt text (before.length + 1) before place
  | bare {before place : List UInt8} (h : text = before ++ place)
    (unbraced : ∀ t, text ≠ Ascii.openBrace :: (t ++ [Ascii.closeBrace])) :
    PlacedAt text before.length before place

/-- The offset that an answer tells for a place. -/
def offset (text place : List UInt8) : Nat :=
  (if (body text).length < text.length then 1 else 0) + ((body text).length - place.length)

theorem placedAt_offset {before : List UInt8} (h : before ++ place = body text) :
    PlacedAt text (offset text place) before place := by
  have length : (body text).length - place.length = before.length := by
    rw [← h, List.length_append]
    omega
  rw [offset, length]
  rcases isBody_iff.2 h with braced | ⟨bare, unbraced⟩
  · have shorter : (body text).length < text.length := by
      rw [← h, braced]
      simp only [List.length_cons, List.length_append]
      omega
    rw [if_pos shorter, Nat.add_comm]
    exact .braced braced
  · have whole : ¬ (body text).length < text.length := by
      rw [← h, bare]
      exact Nat.lt_irrefl _
    rw [if_neg whole, Nat.zero_add]
    exact .bare bare.symm unbraced

theorem exists_placedAt (h : place <:+ body text) :
    ∃ before, before ++ place = body text ∧ PlacedAt text (offset text place) before place := by
  obtain ⟨before, hbefore⟩ := h
  exact ⟨before, hbefore, placedAt_offset hbefore⟩

section PlacedAt

variable {before : List UInt8} {k : Nat}

theorem PlacedAt.drop_eq (h : PlacedAt text k before place) :
    ∃ closing, (closing = [] ∨ closing = [Ascii.closeBrace]) ∧ text.drop k = place ++ closing := by
  cases h with
  | braced h =>
    refine ⟨_, .inr rfl, ?_⟩
    rw [h, List.drop_succ_cons, List.append_assoc, List.drop_left]
  | bare h => exact ⟨[], .inl rfl, by rw [h, List.drop_left, List.append_nil]⟩

theorem PlacedAt.getElem? {c : UInt8} (h : PlacedAt text k before (c :: s)) :
    text[k]? = some c := by
  obtain ⟨closing, -, hdrop⟩ := h.drop_eq
  rw [← List.head?_drop, hdrop]
  rfl

/-- Behind the last byte of the body there is the closing brace, or nothing. -/
theorem PlacedAt.next {c d : UInt8} (h : PlacedAt text k before (c :: s))
    (hd : text[k + 1]? = some d) : s.head? = some d ∨ d = Ascii.closeBrace := by
  obtain ⟨closing, hclosing, hdrop⟩ := h.drop_eq
  have behind : text.drop (k + 1) = s ++ closing := by
    rw [← List.drop_drop, hdrop]
    rfl
  rw [← List.head?_drop, behind] at hd
  cases s with
  | cons => exact .inl hd
  | nil =>
    rcases hclosing with rfl | rfl
    · cases hd
    · exact .inr (Option.some.inj hd).symm

theorem PlacedAt.lt (h : PlacedAt text k before place) (nonempty : place ≠ []) :
    k < text.length := by
  obtain ⟨c, s, rfl⟩ := List.exists_cons_of_ne_nil nonempty
  exact (List.getElem?_eq_some_iff.1 h.getElem?).1

end PlacedAt

/-- At offset `k` begins a parenthesis inside as many alternations as are allowed. -/
inductive TooDeepAt (text : List UInt8) : Nat → Prop
  | intro {k : Nat} {before s : List UInt8}
    (placed : PlacedAt text k before (Ascii.openParen :: s))
    (depth : ∀ n, OpenAt (before ++ Ascii.openParen :: s) n (Ascii.openParen :: s) ↔
      n = limits.maxNestingDepth) : TooDeepAt text k

/-- Right before offset `k` an alternative is opened, and nothing but white space and
comments stands between there and the byte that ends it. -/
inductive EmptyAt (text : List UInt8) : Nat → Prop
  | intro {j n : Nat} {b c : UInt8} {before place rest : List UInt8} (opener : text[j]? = some b)
    (hb : OpensAlternative b) (placed : PlacedAt text (j + 1) before place)
    (opened : OpenAt (before ++ place) (n + 1) place) (skips : Trivia place (c :: rest))
    (hc : EndsAlternative c) : EmptyAt text (j + 1)

/-- What an error says of the pattern as it was handed over. -/
def PointsAt (text : List UInt8) : Error → Prop
  | .emptyPattern => ∃ inner, IsBody text inner ∧ Trivia inner []
  | .unexpectedCharacter b k => text[k]? = some b
  | .incompleteByte k =>
    ∃ b nibble, text[k]? = some b ∧ NibbleText b nibble ∧
      ∀ c, text[k + 1]? = some c → ∀ other, ¬ NibbleText c other
  | .malformedJump k | .invertedJumpRange _ _ k | .jumpAtBoundary k =>
    text[k]? = some Ascii.openBracket
  | .nestingTooDeep k => text[k]? = some Ascii.openParen ∧ TooDeepAt text k
  | .unbalancedAlternation k =>
    ∃ b, text[k]? = some b ∧ (OpensAlternative b ∨ EndsAlternative b)
  | .emptyAlternative k => EmptyAt text k

theorem Blames.pointsAt {flaw : Flaw (List UInt8)} (h : Blames (body text) flaw) :
    PointsAt text (flaw.map (offset text)) := by
  have here {c : UInt8} {s : List UInt8} (hs : c :: s <:+ body text) :
      text[offset text (c :: s)]? = some c := by
    obtain ⟨before, -, placed⟩ := exists_placedAt hs
    exact placed.getElem?
  cases h with
  | empty h => exact ⟨_, isBody_iff.2 rfl, h⟩
  | unexpected h | malformed h | inverted _ _ h | boundary h => exact here h
  | incomplete h hb alone =>
    refine ⟨_, _, here h, hb, fun c hc other hother => ?_⟩
    obtain ⟨before, -, placed⟩ := exists_placedAt h
    rcases placed.next hc with hnext | rfl
    · exact alone c hnext other hother
    · exact absurd (ofByte_of_nibbleText hother) nofun
  | tooDeep h =>
    obtain ⟨before, hbefore, placed⟩ := exists_placedAt h.suffix
    refine ⟨here h.suffix, .intro placed fun n => ?_⟩
    rw [hbefore]
    exact ⟨fun other => other.unique h, fun hn => hn ▸ h⟩
  | unbalanced h hb => exact ⟨_, here h, hb⟩
  | @emptyAlternative n b c s t h hb opened skips hc =>
    obtain ⟨before, hbefore, placed⟩ := exists_placedAt ((List.suffix_cons b s).trans h)
    have step : offset text s = offset text (b :: s) + 1 := by
      have fits := h.length_le
      rw [offset, offset]
      rw [List.length_cons] at fits ⊢
      omega
    rw [← hbefore] at opened
    show EmptyAt text (offset text s)
    rw [step] at placed ⊢
    exact .intro (here h) hb placed opened skips hc

theorem exists_of_parse_error {e : Error} (h : parse text = .error e) :
    ∃ flaw, e = flaw.map (offset text) ∧ Blames (body text) flaw := by
  unfold parse at h
  simp only at h
  split at h
  · rename_i flaw hread
    exact ⟨flaw, (Except.error.inj h).symm, blames_of_readSequence hread⟩
  · rename_i located hread
    split at h
    · rename_i flaw hcheck
      exact ⟨flaw, (Except.error.inj h).symm, blames_of_checkBoundaries hread hcheck⟩
    · cases h

theorem parse_of_trivia (hbody : IsBody text inner) (h : Trivia inner []) :
    parse text = .error .emptyPattern := by
  rw [isBody_iff] at hbody
  subst hbody
  have read : readSequence (.start (body text)) = .ok [] :=
    Reading.readSequence_of_stop (Reading.turn_eq_stop_ok_iff.2 ⟨h, rfl, rfl⟩)
  unfold parse
  simp only [read]
  rfl

/-- A pattern is refused for nothing in it, exactly if its body is white space and
comments, or at the offset of a byte of the pattern as it was handed over, where the
culprit stands. -/
theorem error_points_at (text : List UInt8) :
    (∀ e, parse text = .error e →
      (e = .emptyPattern ∨ ∃ k, e.place? = some k ∧ k < text.length) ∧ PointsAt text e) ∧
    (parse text = .error .emptyPattern ↔ ∃ inner, IsBody text inner ∧ Trivia inner []) := by
  have points {e : Error} (h : parse text = .error e) : PointsAt text e := by
    obtain ⟨flaw, rfl, blames⟩ := exists_of_parse_error h
    exact blames.pointsAt
  refine ⟨fun e h => ⟨?_, points h⟩, points, fun h => ?_⟩
  · obtain ⟨flaw, rfl, blames⟩ := exists_of_parse_error h
    rcases blames.exists_place with rfl | ⟨place, hplace, suffix, nonempty⟩
    · exact .inl rfl
    · obtain ⟨before, -, placed⟩ := exists_placedAt suffix
      refine .inr ⟨offset text place, ?_, placed.lt nonempty⟩
      rw [Flaw.place?_map, hplace, Option.map_some]
  · obtain ⟨inner, hbody, trivia⟩ := h
    exact parse_of_trivia hbody trivia

/-- An alternative with nothing in it but a comment. -/
theorem error_points_at_comment :
    let text := Ascii.bytes "\x7b (/* */| AA) \x7d"
    parse text = .error (.emptyAlternative 3) ∧ 3 < text.length ∧ EmptyAt text 3 ∧
      ¬ ∃ inner, IsBody text inner ∧ Trivia inner [] := by
  intro text
  have refused : parse text = .error (.emptyAlternative 3) := by with_unfolding_all rfl
  obtain ⟨points, empty⟩ := error_points_at text
  refine ⟨refused, by decide, (points _ refused).2, fun h => ?_⟩
  cases refused.symm.trans (empty.2 h)

end Pattern
end RuleLex
