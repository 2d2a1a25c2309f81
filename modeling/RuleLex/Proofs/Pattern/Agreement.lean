/-
The recognizer and the reader of byte patterns on the same text.

What the reader accepts between braces the recognizer accepts in full,
`braced_of_parse`, and where there are no slashes it goes no further in whatever
text follows, `extent_append`.

The converse is about comments.  To the recognizer a line comment may stop
anywhere on its line, to the reader it goes up to the end.  The two part only
where the recognizer opens a block comment on the rest of such a line and follows
it into the next one; as long as it does not, the reader stands at the beginning
of one of the recognizer's items at every turn, `InStep`.
-/
import RuleLex.Proofs.Pattern.Extent
import RuleLex.Proofs.Pattern.Render

namespace RuleLex
namespace Pattern

/-! ## What the recognizer answers -/

theorem isLongest_of_extent {text : List UInt8} {n : Nat} (h : extent? text = some n) :
    IsLongest Braced text n := by
  by_cases hsome : ∃ k, k ≤ text.length ∧ Braced (text.take k)
  · obtain ⟨k, hk, hbraced⟩ := hsome
    obtain ⟨m, hm⟩ := exists_isLongest hk hbraced
    rw [extent_of_isLongest hm] at h
    cases h
    exact hm
  · rw [extent_of_none fun k hk hbraced => hsome ⟨k, hk, hbraced⟩] at h
    cases h

theorem not_braced_of_extent {text : List UInt8} (h : extent? text = none) {n : Nat}
    (hn : n ≤ text.length) : ¬ Braced (text.take n) := by
  intro hbraced
  obtain ⟨m, hm⟩ := exists_isLongest hn hbraced
  rw [extent_of_isLongest hm] at h
  cases h

theorem braced_of_extent {text : List UInt8} (h : extent? text = some text.length) :
    Braced text := by
  have longest := isLongest_of_extent h
  rw [← List.take_length (l := text)]
  exact longest.2.1

theorem extent_of_braced {text : List UInt8} (h : Braced text) :
    extent? text = some text.length := by
  refine extent_of_isLongest ⟨Nat.le_refl _, ?_, fun m hm _ => hm⟩
  rw [List.take_length]
  exact h

/-- Outside comments the first closing brace is the last byte of a pattern. -/
theorem closing_append {s t : List UInt8} (hs : Ascii.slash ∉ s)
    (h : Closing (s ++ Ascii.closeBrace :: t)) : t = [] := by
  induction s with
  | nil =>
    rcases closing_cons.1 h with ⟨-, ht⟩ | ⟨hmem, -⟩ | ⟨heq, -⟩
    · exact ht
    · exact absurd hmem (by decide)
    · exact absurd heq (by decide)
  | cons b s ih =>
    have hb : b ≠ Ascii.slash := fun e => hs (e ▸ List.mem_cons_self)
    have tail : Ascii.slash ∉ s := fun hmem => hs (List.mem_cons_of_mem b hmem)
    rcases closing_cons.1 h with ⟨-, hnil⟩ | ⟨-, hrest⟩ | ⟨heq, -⟩
    · simp at hnil
    · exact ih tail hrest
    · exact absurd heq hb

theorem extent_append {text : List UInt8} (h : Braced text) (hslash : Ascii.slash ∉ text)
    (rest : List UInt8) : extent? (text ++ rest) = some text.length := by
  apply extent_of_isLongest
  refine ⟨by simp, by rw [List.take_left]; exact h, fun m hm hlonger => ?_⟩
  obtain ⟨items, nonempty, hitems, rfl⟩ := h
  generalize hinner : items.flatten = inner at *
  rcases Nat.le_total m (Ascii.openBrace :: (inner ++ [Ascii.closeBrace])).length with hle | hge
  · exact hle
  · -- A longer head would be closed by the same brace, and so is not longer.
    obtain ⟨k, rfl⟩ := Nat.exists_eq_add_of_le hge
    rw [List.take_length_add_append, List.cons_append, List.append_assoc, List.singleton_append,
      braced_cons_iff] at hlonger
    have inside : Ascii.slash ∉ inner := fun hmem => hslash (by simp [hmem])
    have excess : rest.take k = [] := closing_append inside (closing_iff.2 (.inr hlonger.2))
    have hk : k ≤ rest.length := by
      rw [List.length_append] at hm
      omega
    have length := congrArg List.length excess
    rw [List.length_take_of_le hk, List.length_nil] at length
    omega

/-! ## What the reader accepts -/

/-- The text from `s` up to `r` is items. -/
def Itemized (s r : List UInt8) : Prop :=
  ∃ items : List (List UInt8), (∀ i ∈ items, Item i) ∧ s = items.flatten ++ r

theorem itemized_self (s : List UInt8) : Itemized s s := ⟨[], by simp, rfl⟩

theorem itemized_cons {i s r : List UInt8} (hi : Item i) (h : Itemized s r) :
    Itemized (i ++ s) r := by
  obtain ⟨items, hitems, rfl⟩ := h
  exact ⟨i :: items, List.forall_mem_cons.2 ⟨hi, hitems⟩, by simp⟩

theorem itemized_byte {b : UInt8} {s r : List UInt8} (hb : b ∈ alphabet) (h : Itemized s r) :
    Itemized (b :: s) r := by
  have item : Item [b] := .byte hb
  exact itemized_cons item h

theorem itemized_append {text s r : List UInt8} (htext : ∀ b ∈ text, b ∈ alphabet)
    (h : Itemized s r) : Itemized (text ++ s) r := by
  induction text with
  | nil => exact h
  | cons b text ih =>
    obtain ⟨hb, hrest⟩ := List.forall_mem_cons.1 htext
    exact itemized_byte hb (ih hrest)

theorem itemized_trans {s t r : List UInt8} (h : Itemized s t) (h' : Itemized t r) :
    Itemized s r := by
  obtain ⟨items, hitems, rfl⟩ := h
  obtain ⟨others, hothers, rfl⟩ := h'
  refine ⟨items ++ others, ?_, by simp⟩
  intro i hi
  rcases List.mem_append.1 hi with hi | hi
  · exact hitems i hi
  · exact hothers i hi

theorem mem_alphabet_of_isBlank {b : UInt8} (h : Ascii.isBlank b = true) : b ∈ alphabet := by
  rw [← isPatternByte_iff, isPatternByte, h, Bool.or_true]

theorem mem_alphabet_of_isDigit {b : UInt8} (h : Ascii.isDigit b = true) : b ∈ alphabet := by
  rw [← isPatternByte_iff]
  simp [isPatternByte, Ascii.isHexDigit, h]

theorem mem_alphabet_of_nibbleText {b : UInt8} {n : Nibble} (h : NibbleText b n) :
    b ∈ alphabet := by
  have hread := ofByte_of_nibbleText h
  rw [← isPatternByte_iff]
  unfold Nibble.ofByte? at hread
  split at hread
  · rename_i hb
    simp [isPatternByte, hb]
  · split at hread
    · rename_i hb
      simp [isPatternByte, hb]
    · cases hread

theorem mem_alphabet_of_blank {s : List UInt8} (h : Blank s) : ∀ b ∈ s, b ∈ alphabet :=
  fun b hb => mem_alphabet_of_isBlank (h b hb)

theorem mem_alphabet_of_bound {digits : List UInt8} {bound : Option UInt32}
    (h : Bound digits bound) : ∀ b ∈ digits, b ∈ alphabet := by
  cases bound with
  | none =>
    rw [show digits = [] from h]
    simp
  | some n => exact fun b hb => mem_alphabet_of_isDigit (h.digit b hb)

theorem mem_alphabet_of_jumpText {text : List UInt8} {e : Element} (h : JumpText text e) :
    ∀ b ∈ text, b ∈ alphabet := by
  have opening : Ascii.openBracket ∈ alphabet := by decide
  have minus : Ascii.minus ∈ alphabet := by decide
  have closing : Ascii.closeBracket ∈ alphabet := by decide
  cases h with
  | @exact before digits after n hbefore hdigits hafter =>
    have bound : Bound digits (some n) := hdigits
    simp only [List.forall_mem_cons, List.forall_mem_append]
    exact ⟨opening, ⟨⟨mem_alphabet_of_blank hbefore, mem_alphabet_of_bound bound⟩,
      mem_alphabet_of_blank hafter⟩, closing, by simp⟩
  | range hbefore hlow hafter hbefore' hhigh hafter' _ =>
    simp only [List.forall_mem_cons, List.forall_mem_append]
    exact ⟨opening, ⟨⟨mem_alphabet_of_blank hbefore, mem_alphabet_of_bound hlow⟩,
      mem_alphabet_of_blank hafter⟩, minus, ⟨⟨mem_alphabet_of_blank hbefore',
      mem_alphabet_of_bound hhigh⟩, mem_alphabet_of_blank hafter'⟩, closing, by simp⟩

theorem itemized_of_trivia {s r : List UInt8} (h : Trivia s r) : Itemized s r := by
  induction h with
  | done => exact itemized_self _
  | blank hb _ ih => exact itemized_byte (mem_alphabet_of_isBlank hb) ih
  | line hbody _ _ ih => exact itemized_cons (.line hbody) ih
  | block hbody _ ih => exact itemized_cons (.block hbody) ih

mutual

theorem itemized_of_sequence {s r : List UInt8} {es : List Element} (h : Sequence s es r) :
    Itemized s r :=
  match h with
  | .nil trivia => itemized_of_trivia trivia
  | .cons trivia first rest =>
    itemized_trans (itemized_of_trivia trivia)
      (itemized_trans (itemized_of_elementText first) (itemized_of_sequence rest))

theorem itemized_of_elementText {s r : List UInt8} {e : Element} (h : ElementText s e r) :
    Itemized s r :=
  match h with
  | .byte hhigh hlow =>
    itemized_byte (mem_alphabet_of_nibbleText hhigh)
      (itemized_byte (mem_alphabet_of_nibbleText hlow) (itemized_self _))
  | .jump hjump => itemized_append (mem_alphabet_of_jumpText hjump) (itemized_self _)
  | .alternation halternatives =>
    itemized_byte (by decide) (itemized_of_alternatives halternatives)

theorem itemized_of_alternatives {s r : List UInt8} {alternatives : List (List Element)}
    (h : Alternatives s alternatives r) : Itemized s r :=
  match h with
  | .last first _ =>
    itemized_trans (itemized_of_sequence first)
      (itemized_byte (by decide) (itemized_self _))
  | .more first _ rest =>
    itemized_trans (itemized_of_sequence first)
      (itemized_byte (by decide) (itemized_of_alternatives rest))

end

theorem not_elementText_nil {e : Element} {r : List UInt8} : ¬ ElementText [] e r := by
  intro h
  generalize hs : ([] : List UInt8) = s at h
  cases h with
  | byte => cases hs
  | jump hjump => cases hjump <;> cases hs
  | alternation => cases hs

theorem braced_of_parse {inner : List UInt8} {es : List Element}
    (h : parse (Ascii.openBrace :: (inner ++ [Ascii.closeBrace])) = .ok es) :
    Braced (Ascii.openBrace :: (inner ++ [Ascii.closeBrace])) := by
  obtain ⟨derivation, nonempty, -, -, -⟩ := parse_ok_iff.1 h
  rw [body_append] at derivation
  obtain ⟨items, hitems, hinner⟩ := itemized_of_sequence derivation
  rw [List.append_nil] at hinner
  refine ⟨items, ?_, hitems, by rw [hinner]⟩
  intro hempty
  rw [hempty, List.flatten_nil] at hinner
  subst hinner
  cases derivation with
  | nil => exact nonempty rfl
  | cons trivia first _ =>
    cases trivia
    exact not_elementText_nil first

/-! ## Readings of the recognizer -/

/-- A way to read a text as one or more items in braces. -/
structure IsReading (text : List UInt8) (items : List (List UInt8)) : Prop where
  nonempty : items ≠ []
  item : ∀ i ∈ items, Item i
  text_eq : text = Ascii.openBrace :: (items.flatten ++ [Ascii.closeBrace])

/-- A line comment stops before the end of its line, and behind it on that line a
block comment begins that goes over the end of the line. -/
def Overruns (items : List (List UInt8)) : Prop :=
  ∃ before body between block after,
    items = before ++ (Ascii.slash :: Ascii.slash :: body) ::
      (between ++ (Ascii.slash :: Ascii.star :: block) :: after) ∧
    Ascii.newline ∉ between.flatten ∧ Ascii.newline ∈ block

/-- The text begins where an item begins. -/
def InStep (items : List (List UInt8)) (s : List UInt8) : Prop :=
  ∃ earlier later, items = earlier ++ later ∧ s = later.flatten

/-- The first newline of some items stands alone or in a block comment. -/
theorem newline_of_items {items : List (List UInt8)} {body s : List UInt8}
    (hitems : ∀ i ∈ items, Item i) (h : items.flatten = body ++ Ascii.newline :: s)
    (hbody : Ascii.newline ∉ body) :
    (∃ between after, items = between ++ after ∧ Ascii.newline :: s = after.flatten) ∨
      ∃ between block after,
        items = between ++ (Ascii.slash :: Ascii.star :: block) :: after ∧
        Ascii.newline ∉ between.flatten ∧ Ascii.newline ∈ block := by
  induction items generalizing body with
  | nil => simp at h
  | cons i items ih =>
    obtain ⟨hi, hrest⟩ := List.forall_mem_cons.1 hitems
    rw [List.flatten_cons] at h
    by_cases hnewline : Ascii.newline ∈ i
    · cases hi with
      | @byte b hb =>
        obtain rfl : b = Ascii.newline := (List.mem_singleton.1 hnewline).symm
        cases body with
        | nil => exact .inl ⟨[], [Ascii.newline] :: items, rfl, by rw [List.flatten_cons, h]; rfl⟩
        | cons c body =>
          obtain ⟨rfl, -⟩ := List.cons.inj h
          exact absurd List.mem_cons_self hbody
      | line hline =>
        have inside := hnewline
        simp only [List.mem_cons, show Ascii.newline ≠ Ascii.slash from by decide, false_or]
          at inside
        exact absurd inside hline
      | @block block hblock =>
        have inside := hnewline
        simp only [List.mem_cons, show Ascii.newline ≠ Ascii.slash from by decide,
          show Ascii.newline ≠ Ascii.star from by decide, false_or] at inside
        exact .inr ⟨[], block, items, rfl, by simp, inside⟩
    · -- The item ends before the newline, so the rest of the text is behind it.
      have split : ∃ body', Ascii.newline ∉ body' ∧
          items.flatten = body' ++ Ascii.newline :: s := by
        rcases List.append_eq_append_iff.1 h with ⟨body', rfl, hbody'⟩ | ⟨excess, rfl, hexcess⟩
        · exact ⟨body', fun hmem => hbody (List.mem_append_right i hmem), hbody'⟩
        · cases excess with
          | nil => exact ⟨[], by simp, hexcess.symm⟩
          | cons c excess =>
            obtain ⟨rfl, -⟩ := List.cons.inj hexcess
            exact absurd (List.mem_append_right body List.mem_cons_self) hnewline
      obtain ⟨body', hbody', hflatten⟩ := split
      rcases ih hrest hflatten hbody' with ⟨between, after, rfl, hs⟩ |
        ⟨between, block, after, rfl, hbetween, hblock⟩
      · exact .inl ⟨i :: between, after, rfl, hs⟩
      · refine .inr ⟨i :: between, block, after, rfl, ?_, hblock⟩
        rw [List.flatten_cons, List.mem_append]
        exact fun hmem => hmem.elim hnewline hbetween

section Steps

variable {items : List (List UInt8)} {s : List UInt8}

theorem inStep_flatten (items : List (List UInt8)) : InStep items items.flatten :=
  ⟨[], items, rfl, rfl⟩

/-- What begins where an item begins begins with that item. -/
theorem InStep.cons {b : UInt8} (hitems : ∀ i ∈ items, Item i) (h : InStep items (b :: s)) :
    ∃ earlier i later, items = earlier ++ i :: later ∧ Item i ∧ b :: s = i ++ later.flatten := by
  obtain ⟨earlier, later, rfl, hs⟩ := h
  cases later with
  | nil => cases hs
  | cons i later =>
    exact ⟨earlier, i, later, rfl, hitems i (by simp), by rw [hs, List.flatten_cons]⟩

theorem inStep_later {earlier later : List (List UInt8)} {i : List UInt8}
    (h : items = earlier ++ i :: later) : InStep items later.flatten :=
  ⟨earlier ++ [i], later, by rw [h, List.append_assoc]; rfl, rfl⟩

/-- A byte that begins no comment is an item. -/
theorem InStep.byte {b : UInt8} (hitems : ∀ i ∈ items, Item i) (h : InStep items (b :: s))
    (hb : b ≠ Ascii.slash) : b ∈ alphabet ∧ InStep items s := by
  obtain ⟨earlier, i, later, heq, hi, hs⟩ := h.cons hitems
  cases hi with
  | byte hmem =>
    obtain ⟨rfl, rfl⟩ := List.cons.inj hs
    exact ⟨hmem, inStep_later heq⟩
  | line => exact absurd (List.cons.inj hs).1 hb
  | block => exact absurd (List.cons.inj hs).1 hb

theorem InStep.bytes {text : List UInt8} (hitems : ∀ i ∈ items, Item i)
    (h : InStep items (text ++ s)) (htext : ∀ b ∈ text, b ∈ alphabet) : InStep items s := by
  induction text with
  | nil => exact h
  | cons b text ih =>
    obtain ⟨hb, hrest⟩ := List.forall_mem_cons.1 htext
    have noSlash : b ≠ Ascii.slash := fun e => slash_not_mem_alphabet (e ▸ hb)
    exact ih (h.byte hitems noSlash).2 hrest

/-- A slash that begins an item begins a comment. -/
theorem InStep.comment (hitems : ∀ i ∈ items, Item i) (h : InStep items (Ascii.slash :: s)) :
    s.head? = some Ascii.slash ∨
      ∃ body rest, Comment.IsClosed body ∧ s = Ascii.star :: (body ++ rest) ∧
        InStep items rest := by
  obtain ⟨earlier, i, later, heq, hi, hs⟩ := h.cons hitems
  cases hi with
  | byte hmem => exact absurd ((List.cons.inj hs).1 ▸ hmem) slash_not_mem_alphabet
  | line =>
    rw [(List.cons.inj hs).2]
    exact .inl rfl
  | block hbody => exact .inr ⟨_, _, hbody, (List.cons.inj hs).2, inStep_later heq⟩

theorem InStep.block {body : List UInt8} (hitems : ∀ i ∈ items, Item i)
    (hbody : Comment.IsClosed body)
    (h : InStep items (Ascii.slash :: Ascii.star :: (body ++ s))) : InStep items s := by
  rcases h.comment hitems with hslash | ⟨body', rest, hbody', heq, hrest⟩
  · exact absurd (Option.some.inj hslash) (by decide)
  · -- Both comments end with the first closer.
    have same : body ++ s = body' ++ rest := (List.cons.inj heq).2
    have length : body.length = body'.length := by
      have first := Comment.closingLength_append hbody s
      rw [same, Comment.closingLength_append hbody' rest] at first
      exact (Option.some.inj first).symm
    rw [(List.append_inj same length).2]
    exact hrest

theorem InStep.line {body : List UInt8} (hitems : ∀ i ∈ items, Item i)
    (hover : ¬ Overruns items) (hbody : Ascii.newline ∉ body)
    (ends : s = [] ∨ s.head? = some Ascii.newline)
    (h : InStep items (Ascii.slash :: Ascii.slash :: (body ++ s))) : InStep items s := by
  rcases ends with rfl | hs
  · exact ⟨items, [], by simp, rfl⟩
  obtain ⟨tail, rfl⟩ := List.head?_eq_some_iff.1 hs
  obtain ⟨earlier, i, later, heq, hi, htext⟩ := h.cons hitems
  have hlater : ∀ j ∈ later, Item j := fun j hj => hitems j (by rw [heq]; simp [hj])
  cases hi with
  | byte hmem => exact absurd ((List.cons.inj htext).1 ▸ hmem) slash_not_mem_alphabet
  | block hblock =>
    have second := (List.cons.inj (List.cons.inj htext).2).1
    exact absurd second (by decide)
  | @line own hown =>
    have rest : body ++ Ascii.newline :: tail = own ++ later.flatten :=
      (List.cons.inj (List.cons.inj htext).2).2
    -- The recognizer's line comment stops somewhere on the line.
    obtain ⟨more, hmore, hflatten⟩ : ∃ more, Ascii.newline ∉ more ∧
        later.flatten = more ++ Ascii.newline :: tail := by
      rcases List.append_eq_append_iff.1 rest with ⟨excess, rfl, hflat⟩ | ⟨more, rfl, hflat⟩
      · cases excess with
        | nil => exact ⟨[], by simp, hflat.symm⟩
        | cons c excess =>
          obtain ⟨rfl, -⟩ := List.cons.inj hflat
          exact absurd (List.mem_append_right body List.mem_cons_self) hown
      · exact ⟨more, fun hmem => hbody (List.mem_append_right own hmem), hflat⟩
    rcases newline_of_items hlater hflatten hmore with ⟨between, after, rfl, hafter⟩ |
      ⟨between, block, after, rfl, hbetween, hblock⟩
    · rw [hafter]
      exact ⟨earlier ++ (Ascii.slash :: Ascii.slash :: own) :: between, after, by simp [heq], rfl⟩
    · exact absurd ⟨earlier, own, between, block, after, heq, hbetween, hblock⟩ hover

theorem InStep.trivia {r : List UInt8} (hitems : ∀ i ∈ items, Item i) (hover : ¬ Overruns items)
    (h : InStep items s) (skips : Trivia s r) : InStep items r := by
  induction skips with
  | done => exact h
  | @blank b s r hb _ ih =>
    have noSlash : b ≠ Ascii.slash := fun e => by
      rw [e] at hb
      cases hb
    exact ih (h.byte hitems noSlash).2
  | line hbody ends _ ih => exact ih (h.line hitems hover hbody ends)
  | block hbody _ ih => exact ih (h.block hitems hbody)

theorem InStep.elementText {r : List UInt8} {e : Element} (hitems : ∀ i ∈ items, Item i)
    (h : InStep items s) (first : ElementText s e r) (flat : e.nesting = 0) : InStep items r := by
  cases first with
  | @byte b c r high low hhigh hlow =>
    have bytes : ∀ x ∈ [b, c], x ∈ alphabet := by
      simp [mem_alphabet_of_nibbleText hhigh, mem_alphabet_of_nibbleText hlow]
    have here : InStep items ([b, c] ++ r) := h
    exact here.bytes hitems bytes
  | jump hjump => exact h.bytes hitems (mem_alphabet_of_jumpText hjump)
  | alternation => exact absurd flat (Nat.succ_ne_zero _)

theorem InStep.moves {r r' : Reading} (hitems : ∀ i ∈ items, Item i) (hover : ¬ Overruns items)
    (h : InStep items r.rest) (hmoves : Reading.Moves r r') : InStep items r'.rest := by
  cases hmoves with
  | bar skips => exact ((h.trivia hitems hover skips).byte hitems (by decide)).2
  | close skips => exact ((h.trivia hitems hover skips).byte hitems (by decide)).2
  | enter skips => exact ((h.trivia hitems hover skips).byte hitems (by decide)).2
  | element skips first flat => exact (h.trivia hitems hover skips).elementText hitems first flat

theorem InStep.reachable {r r' : Reading} (hitems : ∀ i ∈ items, Item i)
    (hover : ¬ Overruns items) (h : InStep items r.rest)
    (hmoves : Relation.ReflTransGen Reading.Moves r r') : InStep items r'.rest := by
  induction hmoves with
  | refl => exact h
  | tail _ hmove ih => exact ih.moves hitems hover hmove

end Steps

/-! ## Unexpected characters -/

/-- A turn meets an unexpected character at a comment that never closes or at a
byte that begins no element and no delimiter. -/
theorem unexpected_of_turn {r : Reading} {b : UInt8} {place : List UInt8}
    (h : r.turn = .stop (.error (.unexpectedCharacter b place))) :
    skipTrivia r.rest = .error place ∨
      ∃ rest, skipTrivia r.rest = .ok (b :: rest) ∧ Nibble.ofByte? b = none ∧
        ¬ (b = Ascii.bar ∨ b = Ascii.closeParen) ∧ b ≠ Ascii.openParen ∧
        b ≠ Ascii.openBracket := by
  unfold Reading.turn at h
  split at h
  · rename_i place' hskip
    cases h
    exact .inl hskip
  · unfold Reading.turnEnd at h
    split at h <;> cases h
  · rename_i c rest hskip
    refine .inr ?_
    by_cases hclose : c = Ascii.bar ∨ c = Ascii.closeParen
    · rw [if_pos hclose, Reading.turnClose] at h
      split at h
      · cases h
      · split at h
        · cases h
        · simp only at h
          split at h <;> cases h
    by_cases hopen : c = Ascii.openParen
    · rw [if_neg hclose, if_pos hopen, Reading.turnOpen] at h
      split at h <;> cases h
    by_cases hjump : c = Ascii.openBracket
    · rw [if_neg hclose, if_neg hopen, if_pos hjump, Reading.turnJump] at h
      split at h <;> cases h
    rw [if_neg hclose, if_neg hopen, if_neg hjump, Reading.turnByte] at h
    split at h
    · rename_i hnibble
      cases h
      exact ⟨rest, hskip, hnibble, hclose, hopen, hjump⟩
    · split at h
      · cases h
      · split at h <;> cases h

theorem checkBoundaries_ne_unexpected {sequence : List Located} (b : UInt8)
    (place : List UInt8) : checkBoundaries sequence ≠ .error (.unexpectedCharacter b place) := by
  intro h
  unfold checkBoundaries at h
  split at h
  · cases h
  · cases h
  · split at h <;> cases h

theorem exists_of_parse_unexpected {text : List UInt8} {b : UInt8} {k : Nat}
    (h : parse text = .error (.unexpectedCharacter b k)) :
    ∃ place, readSequence (.start (body text)) = .error (.unexpectedCharacter b place) := by
  unfold parse at h
  simp only at h
  split at h
  · rename_i flaw hread
    cases flaw with
    | unexpectedCharacter c place =>
      cases h
      exact ⟨place, hread⟩
    | _ => cases h
  · split at h
    · rename_i flaw hcheck
      cases flaw with
      | unexpectedCharacter c place => exact absurd hcheck (checkBoundaries_ne_unexpected c place)
      | _ => cases h
    · cases h

/-- Where items begin, only a minus or a closing bracket is unexpected. -/
theorem InStep.unexpected {items : List (List UInt8)} {r : Reading} {b : UInt8}
    {place : List UInt8} (hitems : ∀ i ∈ items, Item i) (hover : ¬ Overruns items)
    (hstep : InStep items r.rest)
    (h : r.turn = .stop (.error (.unexpectedCharacter b place))) :
    b = Ascii.minus ∨ b = Ascii.closeBracket := by
  rcases unexpected_of_turn h with hskip | ⟨rest, hskip, hnibble, hclose, hopen, hjump⟩
  · obtain ⟨skips, inner, rfl, unclosed⟩ := unclosed_of_skipTrivia hskip
    have here := hstep.trivia hitems hover skips
    rcases here.comment hitems with hslash | ⟨body, rest, hbody, heq, -⟩
    · exact absurd (Option.some.inj hslash) (by decide)
    · have closed : afterComment? inner = some rest := by
        rw [(List.cons.inj heq).2, afterComment_append hbody]
      rw [closed] at unclosed
      cases unclosed
  · have skips := trivia_of_skipTrivia hskip
    obtain ⟨hblank, hslash⟩ := stops_of_skipTrivia hskip
    have here := hstep.trivia hitems hover skips
    have noSlash : b ≠ Ascii.slash := by
      intro hb
      subst hb
      rcases here.comment hitems with hline | ⟨body, after, -, rfl, -⟩
      · exact (hslash rfl).1 hline
      · exact (hslash rfl).2 rfl
    have hmem : b ∈ alphabet := (here.byte hitems noSlash).1
    have left : ∀ c ∈ alphabet, Ascii.isBlank c = false → Nibble.ofByte? c = none →
        ¬ (c = Ascii.bar ∨ c = Ascii.closeParen) → c ≠ Ascii.openParen →
        c ≠ Ascii.openBracket → c = Ascii.minus ∨ c = Ascii.closeBracket := by
      decide +kernel
    exact left b hmem hblank hnibble hclose hopen hjump

/-- In a text that the recognizer accepts in full the reader finds no unexpected
character but a minus or a closing bracket, unless every way to read the text as
items overruns the line of a line comment. -/
theorem unexpected_of_extent {text : List UInt8} {b : UInt8} {k : Nat}
    (hextent : extent? text = some text.length)
    (h : parse text = .error (.unexpectedCharacter b k)) :
    b = Ascii.minus ∨ b = Ascii.closeBracket ∨
      (∃ items, IsReading text items) ∧ ∀ items, IsReading text items → Overruns items := by
  by_cases hover : ∀ items, IsReading text items → Overruns items
  · obtain ⟨items, nonempty, hitems, htext⟩ := braced_of_extent hextent
    exact .inr (.inr ⟨⟨items, nonempty, hitems, htext⟩, hover⟩)
  · have kept : ∃ items, IsReading text items ∧ ¬ Overruns items := by
      by_contra hnone
      exact hover fun items hreading => by_contra fun hkept => hnone ⟨items, hreading, hkept⟩
    obtain ⟨items, ⟨-, hitems, rfl⟩, hkept⟩ := kept
    obtain ⟨place, hread⟩ := exists_of_parse_unexpected h
    rw [body_append] at hread
    obtain ⟨r, hmoves, hstop⟩ := Reading.exists_last_turn (.start items.flatten)
    rw [hread] at hstop
    have last := (inStep_flatten items).reachable hitems hkept hmoves
    rcases last.unexpected hitems hkept hstop with hminus | hbracket
    · exact .inl hminus
    · exact .inr (.inl hbracket)

theorem unexpected_of_extent_overrun :
    let text := Ascii.bytes "\x7b AA // /*\n z */ \x7d"
    extent? text = some text.length ∧
      parse text = .error (.unexpectedCharacter 0x7A 12) ∧
      (∃ items, IsReading text items) ∧ ∀ items, IsReading text items → Overruns items := by
  intro text
  have hextent : extent? text = some text.length := by decide +kernel
  have hparse : parse text = .error (.unexpectedCharacter 0x7A 12) := by
    with_unfolding_all rfl
  refine ⟨hextent, hparse, ?_⟩
  rcases unexpected_of_extent hextent hparse with hminus | hbracket | hover
  · exact absurd hminus (by decide)
  · exact absurd hbracket (by decide)
  · exact hover

/-- The two do not read comments the same way in general. -/
theorem unexpected_of_extent_unrestricted :
    ¬ ∀ (text : List UInt8) (b : UInt8) (k : Nat), extent? text = some text.length →
      parse text = .error (.unexpectedCharacter b k) →
      b = Ascii.minus ∨ b = Ascii.closeBracket := by
  intro same
  have hextent : extent? (Ascii.bytes "\x7b AA // /*\n z */ \x7d") =
      some (Ascii.bytes "\x7b AA // /*\n z */ \x7d").length := by decide +kernel
  have hparse : parse (Ascii.bytes "\x7b AA // /*\n z */ \x7d") =
      .error (.unexpectedCharacter 0x7A 12) := by with_unfolding_all rfl
  exact absurd (same _ _ _ hextent hparse) (by decide)

end Pattern
end RuleLex
