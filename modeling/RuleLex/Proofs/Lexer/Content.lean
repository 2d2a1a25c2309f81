/-
The content of a string or a regular expression.

`Quoted.Item` lists what a literal may hold: bytes that stand for themselves and
escapes.  No item is the head of another, so a text can be cut into items in one
way only, and the longest content in front of a text ends where no item begins:
`Quoted.Content.isLongest`.

The scanner takes a run of plain bytes at once and an escape at a time.  Its
pieces are content in this sense, it stops only where no item begins, and what it
finds there is one of four things: the closing delimiter, a run behind it that
holds a byte which is no flag, a break inside the literal, or the end of the
source.
-/
import RuleLex.Proofs.Lexer.Mode
import RuleLex.Proofs.Lexer.Scan

namespace RuleLex

open Pattern (IsLongest)

namespace Quoted

/-- One item of the content of a literal. -/
inductive Item : Quoted → List UInt8 → Prop
  | plain {form : Quoted} {b : UInt8} (hdelimiter : b ≠ form.delimiter)
    (hbackslash : b ≠ Ascii.backslash) (hnewline : b ≠ Ascii.newline) : Item form [b]
  | letter {b : UInt8} (h : b ∈ [Ascii.lowerT, Ascii.lowerN, Ascii.quote, Ascii.backslash]) :
    Item .string [Ascii.backslash, b]
  | hex {high low : UInt8} (hhigh : Ascii.isHexDigit high = true)
    (hlow : Ascii.isHexDigit low = true) :
    Item .string [Ascii.backslash, Ascii.lowerX, high, low]
  | escaped {b : UInt8} (h : b ≠ Ascii.newline) : Item .regex [Ascii.backslash, b]

/-- Any number of items one after the other. -/
inductive Content (form : Quoted) : List UInt8 → Prop
  | nil : Content form []
  | cons {item content : List UInt8} (h : Item form item) (rest : Content form content) :
    Content form (item ++ content)

/-- No item stands at the head of the text. -/
def Bare (form : Quoted) (tail : List UInt8) : Prop :=
  ∀ item rest, Item form item → tail ≠ item ++ rest

variable {form : Quoted} {item content tail : List UInt8}

theorem Item.ne_nil (h : Item form item) : item ≠ [] := by
  cases h <;> exact List.cons_ne_nil _ _

/-- No item is the head of another one. -/
theorem Item.eq_of_append {other s t : List UInt8} (h : Item form item) (hother : Item form other)
    (heq : item ++ s = other ++ t) : item = other := by
  cases h with
  | plain _ hbackslash =>
    cases hother with
    | plain => rw [(List.cons.inj heq).1]
    | letter | hex | escaped => exact absurd (List.cons.inj heq).1 hbackslash
  | letter hletter =>
    cases hother with
    | plain _ hbackslash => exact absurd (List.cons.inj heq).1.symm hbackslash
    | letter => rw [(List.cons.inj (List.cons.inj heq).2).1]
    | hex =>
      rw [(List.cons.inj (List.cons.inj heq).2).1] at hletter
      exact absurd hletter (by decide)
  | hex =>
    cases hother with
    | plain _ hbackslash => exact absurd (List.cons.inj heq).1.symm hbackslash
    | letter hletter =>
      rw [← (List.cons.inj (List.cons.inj heq).2).1] at hletter
      exact absurd hletter (by decide)
    | hex =>
      obtain ⟨rfl, digits⟩ := List.cons.inj (List.cons.inj (List.cons.inj heq).2).2
      rw [(List.cons.inj digits).1]
  | escaped =>
    cases hother with
    | plain _ hbackslash => exact absurd (List.cons.inj heq).1.symm hbackslash
    | escaped => rw [(List.cons.inj (List.cons.inj heq).2).1]

theorem Item.newline_not_mem (h : Item form item) : Ascii.newline ∉ item := by
  cases h with
  | plain _ _ hnewline => simpa using hnewline.symm
  | letter hletter =>
    have other : Ascii.newline ≠ Ascii.backslash := by decide
    have apart : Ascii.newline ∉ [Ascii.lowerT, Ascii.lowerN, Ascii.quote, Ascii.backslash] := by
      decide
    simp only [List.mem_cons, List.not_mem_nil, or_false, not_or]
    exact ⟨other, fun same => apart (same ▸ hletter)⟩
  | hex hhigh hlow =>
    have digit {b : UInt8} (hb : Ascii.isHexDigit b = true) : Ascii.newline ≠ b := by
      rintro rfl
      exact absurd hb (by decide)
    have backslash : Ascii.newline ≠ Ascii.backslash := by decide
    have letter : Ascii.newline ≠ Ascii.lowerX := by decide
    simp only [List.mem_cons, List.not_mem_nil, or_false, not_or]
    exact ⟨backslash, letter, digit hhigh, digit hlow⟩
  | escaped hb =>
    have other : Ascii.newline ≠ Ascii.backslash := by decide
    simp only [List.mem_cons, List.not_mem_nil, or_false, not_or]
    exact ⟨other, hb.symm⟩

theorem content_of_item (h : Item form item) : Content form item := by
  have single := Content.cons h .nil
  rwa [List.append_nil] at single

theorem Content.append {other : List UInt8} (h : Content form content)
    (hother : Content form other) : Content form (content ++ other) := by
  induction h with
  | nil => exact hother
  | cons hitem _ ih =>
    rw [List.append_assoc]
    exact .cons hitem ih

/-- A literal stays on its line as long as it goes on. -/
theorem Content.newline_not_mem (h : Content form content) : Ascii.newline ∉ content := by
  induction h with
  | nil => exact List.not_mem_nil
  | cons hitem _ ih =>
    rw [List.mem_append, not_or]
    exact ⟨hitem.newline_not_mem, ih⟩

/-- Content that ends where no item begins is as long as any other. -/
theorem Content.length_le {other rest : List UInt8} (h : Content form content)
    (bare : Bare form tail) (hother : Content form other)
    (heq : content ++ tail = other ++ rest) : other.length ≤ content.length := by
  induction h generalizing other with
  | nil =>
    cases hother with
    | nil => exact Nat.le_refl 0
    | @cons item others hitem _ =>
      rw [List.append_assoc] at heq
      exact absurd heq (bare item (others ++ rest) hitem)
  | @cons item content hitem _ ih =>
    cases hother with
    | nil => exact Nat.zero_le _
    | @cons first others hfirst hothers =>
      rw [List.append_assoc, List.append_assoc] at heq
      obtain rfl := hitem.eq_of_append hfirst heq
      have later := ih hothers (List.append_cancel_left heq)
      rw [List.length_append, List.length_append]
      omega

theorem Content.isLongest (h : Content form content) (bare : Bare form tail) :
    IsLongest (Content form) (content ++ tail) content.length := by
  refine ⟨by simp, by rwa [List.take_left], fun m hm hother => ?_⟩
  have longest := h.length_le bare hother (List.take_append_drop m (content ++ tail)).symm
  rwa [List.length_take_of_le hm] at longest

/-- All the content at the head of a text, and what stands behind it. -/
structure Splits (form : Quoted) (s content tail : List UInt8) : Prop where
  eq_append : s = content ++ tail
  content : Content form content
  bare : Bare form tail

theorem Splits.isLongest {s : List UInt8} (h : Splits form s content tail) :
    IsLongest (Content form) s content.length := by
  rw [h.eq_append]
  exact h.content.isLongest h.bare

theorem content_of_isLongest {s : List UInt8} (hs : s = content ++ tail)
    (h : IsLongest (Content form) s content.length) : Content form content := by
  have taken := h.2.1
  rwa [hs, List.take_left] at taken

theorem exists_splits (form : Quoted) (s : List UInt8) :
    ∃ content tail, Splits form s content tail := by
  -- On the length: an escape takes several bytes off the text at once.
  induction hlength : s.length using Nat.strong_induction_on generalizing s with
  | _ length ih =>
    by_cases bare : Bare form s
    · exact ⟨[], s, rfl, .nil, bare⟩
    · obtain ⟨item, rest, hitem, rfl⟩ : ∃ item rest, Item form item ∧ s = item ++ rest := by
        simpa [Bare] using bare
      have pos := List.length_pos_iff.2 hitem.ne_nil
      have shorter : rest.length < length := by
        rw [← hlength, List.length_append]
        omega
      obtain ⟨content, tail, rfl, hcontent, hbare⟩ := ih rest.length shorter rest rfl
      exact ⟨item ++ content, tail, (List.append_assoc ..).symm, .cons hitem hcontent, hbare⟩

end Quoted

/-! ## Pieces of content -/

namespace Piece

variable {s : List UInt8} {n : Nat}

open Quoted (Item Content content_of_item)

theorem mem_simpleEscapes {b : UInt8} :
    isSimpleEscape b = true ↔
      b ∈ [Ascii.lowerT, Ascii.lowerN, Ascii.quote, Ascii.backslash] := by
  simp [isSimpleEscape, or_assoc]

theorem content_of_run {form : Quoted} {test : UInt8 → Bool}
    (htest : ∀ b, test b = true →
      b ≠ form.delimiter ∧ b ≠ Ascii.backslash ∧ b ≠ Ascii.newline) (s : List UInt8) :
    Content form (s.takeWhile test) := by
  induction s with
  | nil => exact .nil
  | cons b s ih =>
    by_cases hb : test b = true
    · obtain ⟨hdelimiter, hbackslash, hnewline⟩ := htest b hb
      rw [List.takeWhile_cons_of_pos hb]
      exact .cons (.plain hdelimiter hbackslash hnewline) ih
    · rw [List.takeWhile_cons_of_neg hb]
      exact .nil

theorem plain_of_isStringByte {b : UInt8} (h : isStringByte b = true) :
    b ≠ Quoted.string.delimiter ∧ b ≠ Ascii.backslash ∧ b ≠ Ascii.newline := by
  simpa [isStringByte, Quoted.delimiter, and_assoc] using h

theorem plain_of_isRegexByte {b : UInt8} (h : isRegexByte b = true) :
    b ≠ Quoted.regex.delimiter ∧ b ≠ Ascii.backslash ∧ b ≠ Ascii.newline := by
  simpa [isRegexByte, Quoted.delimiter, and_assoc] using h

theorem content_of_stringEscape (h : stringEscape s = (.content, n)) :
    Content .string ((Ascii.backslash :: s).take n) := by
  unfold stringEscape at h
  split at h
  · cases h
  · rename_i b rest
    split at h
    · rename_i hb
      cases h
      exact content_of_item (.letter (mem_simpleEscapes.1 hb))
    · split at h
      · rename_i hhex
        cases h
        obtain ⟨rfl, hpair⟩ := hhex
        unfold startsWithHexPair at hpair
        split at hpair
        · obtain ⟨hhigh, hlow⟩ := Bool.and_eq_true_iff.1 hpair
          exact content_of_item (.hex hhigh hlow)
        · cases hpair
      · split at h <;> cases h

theorem content_of_regexEscape (h : regexEscape s = (.content, n)) :
    Content .regex ((Ascii.backslash :: s).take n) := by
  unfold regexEscape at h
  split at h
  · cases h
  · split at h
    · cases h
    · rename_i hb
      cases h
      exact content_of_item (.escaped hb)

/-- A piece of content is items. -/
theorem content_of_first {form : Quoted} (h : first form s = (.content, n)) :
    Content form (s.take n) := by
  cases s with
  | nil =>
    rw [first_nil] at h
    cases h
  | cons b s =>
    cases form with
    | string =>
      simp only [first, ofString] at h
      split at h
      · cases h
      · split at h
        · cases h
        · split at h
          · rename_i hb
            rw [hb]
            exact content_of_stringEscape h
          · cases h
            rw [Ascii.take_runLength]
            exact content_of_run (fun _ => plain_of_isStringByte) _
    | regex =>
      simp only [first, ofRegex] at h
      split at h
      · simp only [regexClosing] at h
        split at h <;> cases h
      · split at h
        · cases h
        · split at h
          · rename_i hb
            rw [hb]
            exact content_of_regexEscape h
          · cases h
            rw [Ascii.take_runLength]
            exact content_of_run (fun _ => plain_of_isRegexByte) _

/-- In front of an item the scanner finds content. -/
theorem first_item {form : Quoted} {item : List UInt8} (h : Item form item) (rest : List UInt8) :
    (first form (item ++ rest)).1 = .content := by
  cases h with
  | @plain _ b hdelimiter hbackslash hnewline =>
    cases form with
    | string =>
      have hquote : b ≠ Ascii.quote := hdelimiter
      show (ofString (b :: rest)).1 = .content
      rw [ofString, if_neg hquote, if_neg hnewline, if_neg hbackslash]
    | regex =>
      have hslash : b ≠ Ascii.slash := hdelimiter
      show (ofRegex (b :: rest)).1 = .content
      rw [ofRegex, if_neg hslash, if_neg hnewline, if_neg hbackslash]
  | letter hletter =>
    have simple := mem_simpleEscapes.2 hletter
    show (stringEscape (_ :: rest)).1 = .content
    rw [stringEscape, if_pos simple]
  | hex hhigh hlow =>
    have pair : startsWithHexPair (_ :: _ :: rest) = true := Bool.and_eq_true_iff.2 ⟨hhigh, hlow⟩
    show (stringEscape (Ascii.lowerX :: _)).1 = .content
    rw [stringEscape, if_neg (by decide), if_pos ⟨rfl, pair⟩]
  | escaped hb =>
    show (regexEscape (_ :: rest)).1 = .content
    rw [regexEscape, if_neg hb]

/-- Where the scanner finds anything else no item begins. -/
theorem bare_of_first {form : Quoted} {piece : Piece} (h : first form s = (piece, n))
    (hpiece : piece ≠ .content) : Quoted.Bare form s := by
  rintro item rest hitem rfl
  have found := first_item hitem rest
  rw [h] at found
  exact hpiece found

end Piece

theorem Gathers.content {form : Quoted} {tail before content : List UInt8}
    (h : Gathers form tail before content) : form.Content content := by
  induction h with
  | nil => exact .nil
  | @cons before piece content hfirst fits rest ih =>
    have own := Piece.content_of_first hfirst
    rw [List.take_left] at own
    exact own.append ih

theorem Gathers.fits {form : Quoted} {tail before content : List UInt8}
    (h : Gathers form tail before content) (hbefore : before.length ≤ limits.maxLiteralSize) :
    (before ++ content).length ≤ limits.maxLiteralSize := by
  induction h with
  | nil => rwa [List.append_nil]
  | cons _ fits _ ih =>
    rw [← List.append_assoc]
    exact ih fits

/-! ## What stands behind the content -/

/-- What breaks a literal off before its closing delimiter. -/
inductive Interrupts : Quoted → List UInt8 → Fault → Prop
  | newline (form : Quoted) : Interrupts form [Ascii.newline] (Piece.unterminated form)
  | escapedNewline (form : Quoted) :
    Interrupts form [Ascii.backslash, Ascii.newline] (Piece.unterminated form)
  | escape {b : UInt8} (hb : b ≠ Ascii.newline) :
    Interrupts .string [Ascii.backslash, b] (.illegalEscapeSequence b)

/-- A run of word bytes behind the closing slash whose first byte that is no flag
is `b`. -/
structure Misflagged (rest run : List UInt8) (b : UInt8) : Prop where
  word : ∀ c ∈ run, Ascii.isWordByte c = true
  stops : Ascii.Stops Ascii.isWordByte rest
  first : ∃ flags later, run = flags ++ b :: later ∧
    (∀ c ∈ flags, c = Ascii.lowerI ∨ c = Ascii.lowerS) ∧ b ≠ Ascii.lowerI ∧ b ≠ Ascii.lowerS

namespace Modifiers

theorem ofByte_eq_none {b : UInt8} (h : ofByte? b = none) :
    b ≠ Ascii.lowerI ∧ b ≠ Ascii.lowerS := by
  unfold ofByte? at h
  split at h
  · cases h
  · rename_i hi
    split at h
    · cases h
    · rename_i hs
      exact ⟨hi, hs⟩

/-- A run is refused for its first byte that is no flag. -/
theorem first_of_ofRun {run : List UInt8} {b : UInt8} (h : ofRun run = .error b) :
    ∃ flags later, run = flags ++ b :: later ∧
      (∀ c ∈ flags, c = Ascii.lowerI ∨ c = Ascii.lowerS) ∧ b ≠ Ascii.lowerI ∧ b ≠ Ascii.lowerS := by
  unfold ofRun at h
  generalize empty = before at h
  induction run generalizing before with
  | nil => cases h
  | cons c run ih =>
    rw [List.foldlM_cons] at h
    cases hflag : ofByte? c with
    | none =>
      rw [hflag] at h
      cases h
      exact ⟨[], run, rfl, by simp, ofByte_eq_none hflag⟩
    | some flag =>
      rw [hflag] at h
      obtain ⟨flags, later, rfl, hflags, hb⟩ := ih _ h
      refine ⟨c :: flags, later, rfl, ?_, hb⟩
      exact List.forall_mem_cons.2 ⟨(ofByte_eq_some hflag).imp And.left And.left, hflags⟩

end Modifiers

theorem Flags.contains_iff {run : List UInt8} {modifiers : Modifiers} (h : Flags run modifiers) :
    (modifiers.contains .caseInsensitive = true ↔ Ascii.lowerI ∈ run) ∧
      (modifiers.contains .dotMatchesNewline = true ↔ Ascii.lowerS ∈ run) := by
  obtain rfl : modifiers = { bits := Modifiers.runBits run } := by rw [← h.bits_eq]
  unfold Modifiers.runBits
  split <;> rename_i hi <;> split <;> rename_i hs
  · exact ⟨iff_of_true rfl hi, iff_of_true rfl hs⟩
  · exact ⟨iff_of_true rfl hi, iff_of_false nofun hs⟩
  · exact ⟨iff_of_false nofun hi, iff_of_true rfl hs⟩
  · exact ⟨iff_of_false nofun hi, iff_of_false nofun hs⟩

theorem find_eq_none_of_flags {run : List UInt8}
    (h : ∀ b ∈ run, b = Ascii.lowerI ∨ b = Ascii.lowerS) :
    run.find? (fun c => c != Ascii.lowerI && c != Ascii.lowerS) = none := by
  apply List.find?_eq_none.2
  intro b hb
  simpa [or_iff_not_imp_left] using h b hb

theorem Misflagged.find_eq_some {rest run : List UInt8} {b : UInt8} (h : Misflagged rest run b) :
    run.find? (fun c => c != Ascii.lowerI && c != Ascii.lowerS) = some b := by
  obtain ⟨flags, later, rfl, hflags, hi, hs⟩ := h.first
  apply List.find?_eq_some_iff_append.2
  refine ⟨by simp [hi, hs], flags, later, rfl, fun c hc => ?_⟩
  rcases hflags c hc with rfl | rfl <;> rfl

namespace Piece

variable {form : Quoted} {s : List UInt8} {n : Nat}

theorem interrupts_of_stringEscape {fault : Fault} (h : stringEscape s = (.broken fault, n)) :
    ∃ b rest, s = b :: rest ∧ n = 2 ∧ Interrupts .string [Ascii.backslash, b] fault := by
  unfold stringEscape at h
  split at h
  · cases h
  · rename_i b rest
    split at h
    · cases h
    · split at h
      · cases h
      · split at h
        · rename_i hb
          cases h
          exact ⟨b, rest, rfl, rfl, by rw [hb]; exact .escapedNewline .string⟩
        · rename_i hb
          cases h
          exact ⟨b, rest, rfl, rfl, .escape hb⟩

theorem interrupts_of_regexEscape {fault : Fault} (h : regexEscape s = (.broken fault, n)) :
    ∃ b rest, s = b :: rest ∧ n = 2 ∧ Interrupts .regex [Ascii.backslash, b] fault := by
  unfold regexEscape at h
  split at h
  · cases h
  · rename_i b rest
    split at h
    · rename_i hb
      cases h
      exact ⟨b, rest, rfl, rfl, by rw [hb]; exact .escapedNewline .regex⟩
    · cases h

theorem interrupts_of_first {fault : Fault} (h : first form s = (.broken fault, n)) :
    ∃ ending rest, s = ending ++ rest ∧ n = ending.length ∧ Interrupts form ending fault := by
  cases s with
  | nil =>
    rw [first_nil] at h
    cases h
  | cons b s =>
    cases form with
    | string =>
      simp only [first, ofString] at h
      split at h
      · cases h
      · split at h
        · rename_i hb
          cases h
          exact ⟨[b], s, rfl, rfl, by rw [hb]; exact .newline .string⟩
        · split at h
          · rename_i hb
            obtain ⟨c, rest, rfl, rfl, interrupts⟩ := interrupts_of_stringEscape h
            exact ⟨[b, c], rest, rfl, rfl, by rw [hb]; exact interrupts⟩
          · cases h
    | regex =>
      simp only [first, ofRegex] at h
      split at h
      · simp only [regexClosing] at h
        split at h <;> cases h
      · split at h
        · rename_i hb
          cases h
          exact ⟨[b], s, rfl, rfl, by rw [hb]; exact .newline .regex⟩
        · split at h
          · rename_i hb
            obtain ⟨c, rest, rfl, rfl, interrupts⟩ := interrupts_of_regexEscape h
            exact ⟨[b, c], rest, rfl, rfl, by rw [hb]; exact interrupts⟩
          · cases h

theorem misflagged_of_first {b : UInt8} (h : first form s = (.badModifier b, n)) :
    form = .regex ∧ ∃ run rest, s = Ascii.slash :: (run ++ rest) ∧ n = run.length + 1 ∧
      Misflagged rest run b := by
  cases s with
  | nil =>
    rw [first_nil] at h
    cases h
  | cons c s =>
    cases form with
    -- A string has no modifiers.
    | string =>
      simp only [first, ofString] at h
      split at h
      · cases h
      · split at h
        · cases h
        · split at h
          · exact absurd rfl (not_delimiter_of_stringEscape h)
          · cases h
    | regex =>
      simp only [first, ofRegex] at h
      split at h
      · rename_i hc
        subst hc
        obtain ⟨run, rest, rfl, hrun, stops, htake, -⟩ := Ascii.exists_run Ascii.isWordByte s
        simp only [regexClosing, htake] at h
        split at h
        · cases h
        · rename_i refused
          cases h
          exact ⟨rfl, run, rest, rfl, rfl, hrun, stops, Modifiers.first_of_ofRun refused⟩
      · split at h
        · cases h
        · split at h
          · exact absurd rfl (not_delimiter_of_regexEscape h)
          · cases h

/-- At the end of the source the rest of it is taken. -/
theorem atEnd_of_first (h : first form s = (.exhausted, n)) : AtEnd s ∧ n = s.length := by
  have atEnd : AtEnd s := apt_first h
  refine ⟨atEnd, ?_⟩
  rcases atEnd with rfl | rfl
  · rw [first_nil] at h
    exact (Prod.mk.inj h).2.symm
  · have exhausted : first form [Ascii.backslash] = (.exhausted, 1) := by cases form <;> rfl
    rw [exhausted] at h
    exact (Prod.mk.inj h).2.symm

end Piece
end RuleLex
