/-
The longest match.

The scanners look at the first byte and decide from there which forms are
possible.  `munch_first` says that the lexeme they find is the one that the table
of lexical rules selects; a byte that begins no text of any rule is refused.

The proof goes by first bytes too.  Behind each of them only a few rules compete,
and for each of these the scanner's length bounds every head the rule describes.
-/
import RuleLex.Proofs.Lexer.Number
import RuleLex.Proofs.Pattern.Agreement

namespace RuleLex
namespace Lexer

open Lexeme (ofSlash ofBrace ofNumber ofWord ofSigil ofPunctuation startingWith first?)

/-- A name over the limit is refused with the head that the table selects, except
that the star behind a dollar name is left. -/
inductive Overlong (s : List UInt8) : Nat → Prop
  | whole {name : Naming} {n : Nat} (h : Selects s (.naming name) n)
    (plain : name ≠ .stringIdentifierWithWildcard) : Overlong s n
  | starred {n : Nat} (h : Selects s (.naming .stringIdentifierWithWildcard) (n + 1)) :
    Overlong s n

/-- What the lexeme at the head of a text says of the table. -/
inductive Munch (s : List UInt8) : Lexeme → Nat → Prop
  | selected {rule : Rule} {lexeme : Lexeme} {n : Nat} (h : Selects s rule n)
    (yields : rule.Yields (s.take n) lexeme) : Munch s lexeme n
  | tooLong {length n : Nat} (h : Overlong s n) :
    Munch s (.refused (.identifierTooLong length)) n
  | unmatched {b : UInt8} (hb : s.head? = some b)
    (h : ∀ (rule : Rule) m, ¬ rule.Matches (s.take m)) :
    Munch s (.refused (.nonAsciiByte b)) 1

theorem Overlong.exists_selects {s : List UInt8} {n : Nat} (h : Overlong s n) :
    ∃ rule m, Selects s rule m := by
  cases h with
  | whole h => exact ⟨_, _, h⟩
  | starred h => exact ⟨_, _, h⟩

/-! ## Short heads -/

theorem head_of_take {s t : List UInt8} {c : UInt8} {k : Nat} (h : s.take k = c :: t) :
    s.head? = some c := by
  cases s with
  | nil => simp at h
  | cons d s =>
    cases k with
    | zero => cases h
    | succ k => rw [(List.cons.inj h).1, List.head?_cons]

/-! ## One class of first bytes after the other

Every selection below lists the rivals behind the first byte and bounds each of
them, in the order of the list.
-/

theorem munch_blank {b : UInt8} {s : List UInt8} (hb : Ascii.isBlank b = true) :
    Munch (b :: s) .blank (Ascii.runLength Ascii.isBlank (b :: s)) := by
  have own : Rule.blank.Matches ((b :: s).take (Ascii.runLength Ascii.isBlank (b :: s))) := by
    rw [Ascii.take_runLength]
    refine ⟨?_, fun c hc => List.mem_takeWhile_imp hc⟩
    rw [List.takeWhile_cons_of_pos hb]
    exact List.cons_ne_nil _ _
  refine .selected (selects_cons [.blank] (Ascii.runLength_le_length _ _) own
    (mem_rivals_of_class Ascii.isBlank (by decide +kernel) hb) ?_) .blank
  simp only [List.forall_mem_singleton]
  intro k hk h
  have run : k + 1 ≤ Ascii.runLength Ascii.isBlank (b :: s) :=
    Ascii.le_runLength (by simpa using hk) h.2
  exact prevails_of_rank run (Nat.le_refl _)

theorem munch_quote (s : List UInt8) : Munch (Ascii.quote :: s) (.literalOpening .string) 1 := by
  have own : Rule.quote.Matches ((Ascii.quote :: s).take 1) := rfl
  refine .selected (selects_cons [.quote] (by simp) own (mem_rivals (by decide)) ?_) .quote
  simp only [List.forall_mem_singleton]
  intro k hk h
  have zero : k = 0 := eq_length_of_take hk (List.cons.inj h).2
  exact prevails_of_rank (by omega) (Nat.le_refl _)

/-! ### Slashes -/

section Slash

variable {s : List UInt8} {k : Nat}

theorem slash_rivals : ∀ r : Rule, r.starts Ascii.slash = true →
    r ∈ [Rule.symbol, .lineComment, .blockComment, .slash] :=
  mem_rivals (by decide)

theorem head_of_lineComment (h : Rule.lineComment.Matches (Ascii.slash :: s.take k)) :
    s.head? = some Ascii.slash := by
  obtain ⟨body, -, heq⟩ := h
  exact head_of_take (List.cons.inj heq).2

theorem head_of_blockComment (h : Rule.blockComment.Matches (Ascii.slash :: s.take k)) :
    s.head? = some Ascii.star :=
  head_of_take (List.cons.inj h).2

theorem eq_zero_of_slash (hk : k ≤ s.length) (h : Rule.slash.Matches (Ascii.slash :: s.take k)) :
    k = 0 :=
  eq_length_of_take hk (List.cons.inj h).2

theorem selects_blockComment (hstar : s.head? = some Ascii.star) :
    Selects (Ascii.slash :: s) .blockComment 2 := by
  obtain ⟨tail, rfl⟩ := List.head?_eq_some_iff.1 hstar
  have own : Rule.blockComment.Matches ((Ascii.slash :: Ascii.star :: tail).take 2) := rfl
  have apart : some Ascii.star ≠ some Ascii.slash := by decide
  refine selects_cons _ (by simp) own slash_rivals ?_
  simp only [List.forall_mem_cons]
  refine ⟨fun k hk h => absurd (head_of_lineComment h) apart, fun k hk h => ?_, fun k hk h => ?_,
    by simp⟩
  · have one : k = 1 := eq_length_of_take hk (List.cons.inj h).2
    exact prevails_of_rank (by omega) (Nat.le_refl _)
  · have zero := eq_zero_of_slash hk h
    exact prevails_of_lt (by omega)

theorem selects_lineComment (hslash : s.head? = some Ascii.slash) :
    Selects (Ascii.slash :: s) .lineComment (1 + Ascii.runLength (· != Ascii.newline) s) := by
  obtain ⟨tail, rfl⟩ := List.head?_eq_some_iff.1 hslash
  let run := Ascii.runLength (· != Ascii.newline) (Ascii.slash :: tail)
  have pos : 0 < run := Ascii.runLength_pos (by decide)
  have fits : 1 + run ≤ (Ascii.slash :: Ascii.slash :: tail).length := by
    have bound : run ≤ _ := Ascii.runLength_le_length (· != Ascii.newline) (Ascii.slash :: tail)
    rw [List.length_cons]
    omega
  have own : Rule.lineComment.Matches ((Ascii.slash :: Ascii.slash :: tail).take (1 + run)) := by
    rw [Nat.add_comm, List.take_succ_cons, Ascii.take_runLength,
      List.takeWhile_cons_of_pos (by decide)]
    refine ⟨_, ?_, rfl⟩
    intro hmem
    simpa using List.mem_takeWhile_imp hmem
  have apart : some Ascii.slash ≠ some Ascii.star := by decide
  refine selects_cons _ fits own slash_rivals ?_
  simp only [List.forall_mem_cons]
  refine ⟨fun k hk h => ?_, fun k hk h => absurd (head_of_blockComment h) apart,
    fun k hk h => ?_, by simp⟩
  · obtain ⟨body, hbody, heq⟩ := h
    have bound : k ≤ run := by
      refine Ascii.le_runLength hk ?_
      rw [(List.cons.inj heq).2]
      intro c hc
      rcases List.mem_cons.1 hc with rfl | hc
      · rfl
      · exact bne_iff_ne.2 fun e => hbody (e ▸ hc)
    exact prevails_of_rank (by omega) (Nat.le_refl _)
  · have zero := eq_zero_of_slash hk h
    exact prevails_of_lt (by omega)

theorem selects_slash (hstar : s.head? ≠ some Ascii.star) (hslash : s.head? ≠ some Ascii.slash) :
    Selects (Ascii.slash :: s) .slash 1 := by
  have own : Rule.slash.Matches ((Ascii.slash :: s).take 1) := rfl
  refine selects_cons _ (by simp) own slash_rivals ?_
  simp only [List.forall_mem_cons]
  refine ⟨fun k hk h => absurd (head_of_lineComment h) hslash,
    fun k hk h => absurd (head_of_blockComment h) hstar, fun k hk h => ?_, by simp⟩
  have zero := eq_zero_of_slash hk h
  exact prevails_of_rank (by omega) (Nat.le_refl _)

theorem munch_slash (s : List UInt8) : Munch (Ascii.slash :: s) (ofSlash s).1 (ofSlash s).2 := by
  unfold ofSlash
  by_cases hstar : s.head? = some Ascii.star
  · rw [if_pos hstar]
    exact .selected (selects_blockComment hstar) .blockComment
  rw [if_neg hstar]
  by_cases hslash : s.head? = some Ascii.slash
  · rw [if_pos hslash]
    exact .selected (selects_lineComment hslash) .lineComment
  rw [if_neg hslash]
  exact .selected (selects_slash hstar hslash) .slash

end Slash

/-! ### Braces -/

theorem munch_brace (s : List UInt8) :
    Munch (Ascii.openBrace :: s) (ofBrace s).1 (ofBrace s).2 := by
  have rivals : ∀ r : Rule, r.starts Ascii.openBrace = true → r ∈ [Rule.symbol, .bytePattern] :=
    mem_rivals (by decide)
  unfold ofBrace
  cases hextent : Pattern.extent? (Ascii.openBrace :: s) with
  | some n =>
    obtain ⟨fits, braced, longest⟩ := Pattern.isLongest_of_extent hextent
    have own : Rule.bytePattern.Matches ((Ascii.openBrace :: s).take n) := braced
    show Munch _ .hexPattern n
    refine .selected (selects_cons _ fits own rivals ?_) .bytePattern
    simp only [List.forall_mem_singleton]
    intro k hk h
    have bound : k + 1 ≤ n := longest (k + 1) (by simpa using hk) h
    exact prevails_of_rank bound (Nat.le_refl _)
  | none =>
    have own : Rule.symbol.Matches ((Ascii.openBrace :: s).take 1) :=
      ⟨Ascii.openBrace, by decide, rfl⟩
    show Munch _ (.token (.symbol Ascii.openBrace) .none) 1
    refine .selected (selects_cons _ (by simp) own rivals ?_) (.symbol rfl)
    simp only [List.forall_mem_singleton]
    intro k hk h
    have fits : k + 1 ≤ (Ascii.openBrace :: s).length := by simpa using hk
    exact absurd h (Pattern.not_braced_of_extent hextent fits)

/-! ### Numbers -/

theorem matches_ofForm {form : Number.Form} {text : List UInt8} (h : Number.FormText form text) :
    (Rule.ofForm form).Matches text := by
  cases form with
  | decimal multiplier => exact ⟨multiplier, h⟩
  | float | hex | octal => exact h

theorem munch_number {b : UInt8} {s : List UInt8} (hb : Ascii.isDigit b = true) :
    Munch (b :: s) (ofNumber (b :: s)).1 (ofNumber (b :: s)).2 := by
  let form := (Number.longest (b :: s)).1
  let n := (Number.longest (b :: s)).2
  have text : Number.FormText form ((b :: s).take n) := Number.formText_longest hb
  -- Whichever form a rival has, the scanner has weighed it.
  have number (other : Number.Form) {k : Nat} (hk : k ≤ s.length)
      (h : Number.FormText other (b :: s.take k)) :
      Prevails (Rule.ofForm form) n (Rule.ofForm other) (k + 1) := by
    have bound := Number.length_le_longest h (s.drop k)
    rw [List.cons_append, List.take_append_drop, List.length_cons, List.length_take_of_le hk]
      at bound
    refine ⟨bound, fun heq => ?_⟩
    rw [← heq] at text
    rw [Number.ofForm_unique text h]
  have selection : Selects (b :: s) (Rule.ofForm form) n := by
    refine selects_cons [.decimal, .hex, .octal, .float] (Number.longest_le_length _)
      (matches_ofForm text) (mem_rivals_of_class Ascii.isDigit (by decide +kernel) hb) ?_
    simp only [List.forall_mem_cons]
    refine ⟨fun k hk h => ?_, fun k hk h => ?_, fun k hk h => ?_, fun k hk h => ?_, by simp⟩
    · obtain ⟨multiplier, h⟩ := h
      exact number _ hk h
    · exact number .hex hk h
    · exact number .octal hk h
    · exact number .float hk h
  have evaluation : Number.scan (b :: s) = (Number.evaluate form ((b :: s).take n), n) := rfl
  unfold ofNumber
  rw [evaluation]
  cases hvalue : Number.evaluate form ((b :: s).take n) with
  | ok result => exact .selected selection (.number text hvalue)
  | error fault => exact .selected selection (.badNumber text hvalue)

/-! ### Words -/

theorem isWordByte_of_isWordStart {b : UInt8} (h : Ascii.isWordStart b = true) :
    Ascii.isWordByte b = true := by
  rw [Ascii.isWordByte, h, Bool.true_or]

theorem keyword_of_ofBytes {word : List UInt8} {k : Keyword} (h : Keyword.ofBytes? word = some k) :
    word = k.bytes := by
  have spelled : k.bytes = word := by simpa using List.find?_some h
  exact spelled.symm

theorem not_keyword_of_ofBytes {word : List UInt8} (h : Keyword.ofBytes? word = none) :
    ¬ Rule.keyword.Matches word := by
  intro hmatches
  obtain ⟨k, rfl⟩ := hmatches
  have apart := List.find?_eq_none.1 h k k.mem_all
  exact apart (beq_self_eq_true _)

section Word

variable {b : UInt8} {s : List UInt8} {k : Nat}

theorem isWord_takeWhile (hb : Ascii.isWordStart b = true) :
    IsWord ((b :: s).takeWhile Ascii.isWordByte) := by
  rw [List.takeWhile_cons_of_pos (isWordByte_of_isWordStart hb)]
  exact Rule.isWord_cons_iff.2 ⟨hb, fun c hc => List.mem_takeWhile_imp hc⟩

theorem length_le_of_isWord (hk : k ≤ s.length) (h : IsWord (b :: s.take k)) :
    k + 1 ≤ ((b :: s).takeWhile Ascii.isWordByte).length := by
  refine Ascii.le_runLength (by simpa using hk) ?_
  obtain ⟨hstart, hrest⟩ := Rule.isWord_cons_iff.1 h
  exact List.forall_mem_cons.2 ⟨isWordByte_of_isWordStart hstart, hrest⟩

/-- A rule for whole words is selected unless one before it has the same word. -/
theorem selects_word {rule : Rule} (hb : Ascii.isWordStart b = true)
    (own : rule.Matches ((b :: s).takeWhile Ascii.isWordByte))
    (hkeyword : Rule.keyword.Matches ((b :: s).takeWhile Ascii.isWordByte) →
      rule.rank ≤ Rule.keyword.rank)
    (hfunction : (Rule.naming .integerFunction).Matches ((b :: s).takeWhile Ascii.isWordByte) →
      rule.rank ≤ (Rule.naming .integerFunction).rank)
    (hidentifier : rule.rank ≤ (Rule.naming .identifier).rank) :
    Selects (b :: s) rule ((b :: s).takeWhile Ascii.isWordByte).length := by
  have text : (b :: s).take ((b :: s).takeWhile Ascii.isWordByte).length =
      (b :: s).takeWhile Ascii.isWordByte := Ascii.take_runLength Ascii.isWordByte (b :: s)
  -- A rival that is as long has the same word.
  have whole {k : Nat} (h : k + 1 = ((b :: s).takeWhile Ascii.isWordByte).length) :
      b :: s.take k = (b :: s).takeWhile Ascii.isWordByte := by
    rw [← List.take_succ_cons, h, text]
  refine selects_cons [.keyword, .naming .integerFunction, .naming .identifier]
    (Ascii.runLength_le_length _ _) (by rw [text]; exact own)
    (mem_rivals_of_class Ascii.isWordStart (by decide +kernel) hb) ?_
  simp only [List.forall_mem_cons]
  refine ⟨fun k hk h => ?_, fun k hk h => ?_, fun k hk h => ?_, by simp⟩
  · have isWord : IsWord (b :: s.take k) := by
      obtain ⟨keyword, hkeyword⟩ := h
      rw [hkeyword]
      exact Rule.isWord_keyword keyword
    refine ⟨length_le_of_isWord hk isWord, fun heq => hkeyword ?_⟩
    rw [← whole heq]
    exact h
  · refine ⟨length_le_of_isWord hk (Rule.isWord_integerFunction h), fun heq => hfunction ?_⟩
    rw [← whole heq]
    exact h
  · exact prevails_of_rank (length_le_of_isWord hk h) hidentifier

/-- The names of the sized read functions are within the limit. -/
theorem length_integerFunction {word : List UInt8} (h : word ∈ integerFunctionNames) :
    word.length ≤ limits.maxIdentifierLength := by
  have all : ∀ word ∈ integerFunctionNames, word.length ≤ limits.maxIdentifierLength := by decide
  exact all word h

theorem munch_word (hb : Ascii.isWordStart b = true) :
    let word := (b :: s).takeWhile Ascii.isWordByte
    Munch (b :: s) (ofWord word) word.length := by
  intro word
  have text : (b :: s).take word.length = word := Ascii.take_runLength Ascii.isWordByte (b :: s)
  have isWord : IsWord word := isWord_takeWhile hb
  unfold ofWord
  cases hkeyword : Keyword.ofBytes? word with
  | some k =>
    have own := keyword_of_ofBytes hkeyword
    have selection : Selects (b :: s) .keyword word.length :=
      selects_word hb ⟨k, own⟩ (fun _ => Nat.le_refl _) (fun _ => by decide) (by decide)
    exact .selected selection (.keyword (text.trans own))
  | none =>
    have notKeyword := not_keyword_of_ofBytes hkeyword
    have identifier (other : word ∉ integerFunctionNames) :
        Selects (b :: s) (.naming .identifier) word.length :=
      selects_word hb isWord (fun h => absurd h notKeyword) (fun h => absurd h other)
        (Nat.le_refl _)
    show Munch _ (if _ then _ else _) _
    split
    · rename_i long
      have other : word ∉ integerFunctionNames := fun h =>
        absurd (length_integerFunction h) (Nat.not_le.2 long)
      exact .tooLong (.whole (identifier other) nofun)
    · split
      · rename_i hfunction
        have own : word ∈ integerFunctionNames := by simpa [isIntegerFunction] using hfunction
        have selection : Selects (b :: s) (.naming .integerFunction) word.length :=
          selects_word hb own (fun h => absurd h notKeyword) (fun _ => Nat.le_refl _) (by decide)
        exact .selected selection (by rw [text]; exact .naming _)
      · rename_i hfunction
        have other : word ∉ integerFunctionNames := by simpa [isIntegerFunction] using hfunction
        exact .selected (identifier other) (by rw [text]; exact .naming _)

end Word

/-! ### Sigils -/

/-- The byte is the sigil of a name.  An exclamation mark is none in front of an
equals sign. -/
def IsSigil (b : UInt8) (s : List UInt8) : Prop :=
  b = Ascii.dollar ∨ b = Ascii.hash ∨ b = Ascii.atSign ∨
    (b = Ascii.bang ∧ s.head? ≠ some Ascii.equals)

section Sigil

variable {b : UInt8} {s : List UInt8} {k : Nat}

theorem matches_sigil_iff (hb : IsSigil b s) (text : List UInt8) :
    (Rule.naming (Lexeme.naming b false)).Matches text ↔
      ∃ word, (∀ c ∈ word, Ascii.isWordByte c = true) ∧ text = b :: word := by
  rcases hb with rfl | rfl | rfl | ⟨rfl, -⟩ <;> exact Iff.rfl

theorem length_le_of_sigil (hb : IsSigil b s) (hk : k ≤ s.length)
    (h : (Rule.naming (Lexeme.naming b false)).Matches (b :: s.take k)) :
    k ≤ Ascii.runLength Ascii.isWordByte s := by
  obtain ⟨word, hword, heq⟩ := (matches_sigil_iff hb _).1 h
  exact Ascii.le_runLength hk ((List.cons.inj heq).2 ▸ hword)

theorem not_operator_of_sigil (hb : IsSigil b s) : ¬ Rule.operator.Matches (b :: s.take k) := by
  intro h
  obtain ⟨op, heq⟩ := h
  have spelled : ∀ op ∈ Operator.all,
      (Ascii.bytes op.spelling).head? ∉ [some Ascii.dollar, some Ascii.hash, some Ascii.atSign] ∧
        ((Ascii.bytes op.spelling).head? = some Ascii.bang →
          (Ascii.bytes op.spelling)[1]? = some Ascii.equals) := by decide
  obtain ⟨other, bang⟩ := spelled op (by cases op <;> decide)
  rw [← heq, List.head?_cons] at other bang
  rcases hb with rfl | rfl | rfl | ⟨rfl, hequals⟩
  · exact other (by decide)
  · exact other (by decide)
  · exact other (by decide)
  · have second := bang rfl
    rw [List.getElem?_cons_succ, ← List.head?_eq_getElem?] at second
    obtain ⟨tail, htail⟩ := List.head?_eq_some_iff.1 second
    exact hequals (head_of_take htail)

/-- A name with a star takes the whole run of word bytes in front of the star. -/
theorem starred_of_wildcard (hk : k ≤ s.length)
    (h : (Rule.naming .stringIdentifierWithWildcard).Matches (b :: s.take k)) :
    b = Ascii.dollar ∧ k = Ascii.runLength Ascii.isWordByte s + 1 ∧
      s[Ascii.runLength Ascii.isWordByte s]? = some Ascii.star := by
  obtain ⟨word, hword, heq⟩ := h
  obtain ⟨rfl, htext⟩ := List.cons.inj heq
  have split : s = word ++ Ascii.star :: s.drop k := by
    have whole := List.take_append_drop k s
    rw [htext, List.append_assoc, List.singleton_append] at whole
    exact whole.symm
  have run : Ascii.runLength Ascii.isWordByte s = word.length := by
    rw [split, Ascii.runLength,
      Ascii.takeWhile_append_of_stops hword (Ascii.stops_cons_iff.2 (by decide))]
  refine ⟨rfl, ?_, ?_⟩
  · rw [eq_length_of_take hk htext, run, List.length_append, List.length_singleton]
  · rw [run, split, List.getElem?_append_right (Nat.le_refl _), Nat.sub_self]
    rfl

theorem sigil_rivals (hb : IsSigil b s) : ∀ r : Rule, r.starts b = true →
    r ∈ [Rule.symbol, .naming (Lexeme.naming b false), .naming .stringIdentifierWithWildcard,
      .operator] := by
  rcases hb with rfl | rfl | rfl | ⟨rfl, -⟩ <;> exact mem_rivals (by decide)

theorem take_sigil (b : UInt8) (s : List UInt8) :
    (b :: s).take (Ascii.runLength Ascii.isWordByte s + 1) = b :: s.takeWhile Ascii.isWordByte := by
  rw [List.take_succ_cons, Ascii.take_runLength]

theorem matches_sigil (hb : IsSigil b s) : (Rule.naming (Lexeme.naming b false)).Matches
    ((b :: s).take (Ascii.runLength Ascii.isWordByte s + 1)) := by
  rw [take_sigil, matches_sigil_iff hb]
  exact ⟨_, fun c hc => List.mem_takeWhile_imp hc, rfl⟩

theorem selects_sigil (hb : IsSigil b s)
    (hplain : ¬ (b = Ascii.dollar ∧ s[Ascii.runLength Ascii.isWordByte s]? = some Ascii.star)) :
    Selects (b :: s) (.naming (Lexeme.naming b false))
      (Ascii.runLength Ascii.isWordByte s + 1) := by
  have fits := Nat.succ_le_succ (Ascii.runLength_le_length Ascii.isWordByte s)
  refine selects_cons _ fits (matches_sigil hb) (sigil_rivals hb) ?_
  simp only [List.forall_mem_cons]
  refine ⟨fun k hk h => ?_, fun k hk h => ?_, fun k hk h => absurd h (not_operator_of_sigil hb),
    by simp⟩
  · have bound := length_le_of_sigil hb hk h
    exact prevails_of_rank (by omega) (Nat.le_refl _)
  · obtain ⟨hdollar, -, hstar⟩ := starred_of_wildcard hk h
    exact absurd ⟨hdollar, hstar⟩ hplain

theorem take_starred (hstar : s[Ascii.runLength Ascii.isWordByte s]? = some Ascii.star) :
    (Ascii.dollar :: s).take (Ascii.runLength Ascii.isWordByte s + 2) =
      Ascii.dollar :: (s.takeWhile Ascii.isWordByte ++ [Ascii.star]) := by
  rw [List.take_succ_cons, List.take_add_one, Ascii.take_runLength, hstar]
  rfl

theorem selects_starred (hstar : s[Ascii.runLength Ascii.isWordByte s]? = some Ascii.star) :
    Selects (Ascii.dollar :: s) (.naming .stringIdentifierWithWildcard)
      (Ascii.runLength Ascii.isWordByte s + 2) := by
  have sigil : IsSigil Ascii.dollar s := .inl rfl
  have fits : Ascii.runLength Ascii.isWordByte s + 2 ≤ (Ascii.dollar :: s).length :=
    Nat.succ_le_succ (List.getElem?_eq_some_iff.1 hstar).1
  have own : (Rule.naming .stringIdentifierWithWildcard).Matches
      ((Ascii.dollar :: s).take (Ascii.runLength Ascii.isWordByte s + 2)) := by
    rw [take_starred hstar]
    exact ⟨_, fun c hc => List.mem_takeWhile_imp hc, rfl⟩
  refine selects_cons _ fits own (sigil_rivals sigil) ?_
  simp only [List.forall_mem_cons]
  refine ⟨fun k hk h => ?_, fun k hk h => ?_, fun k hk h => absurd h (not_operator_of_sigil sigil),
    by simp⟩
  · have bound := length_le_of_sigil sigil hk h
    exact prevails_of_lt (by omega)
  · obtain ⟨-, reach, -⟩ := starred_of_wildcard hk h
    exact prevails_of_rank (by omega) (Nat.le_refl _)

theorem naming_ne_wildcard (b : UInt8) :
    Lexeme.naming b false ≠ .stringIdentifierWithWildcard := by
  unfold Lexeme.naming
  simp only [Bool.false_eq_true, if_false]
  split
  · nofun
  · split
    · nofun
    · split <;> nofun

theorem munch_sigil (hb : IsSigil b s) : Munch (b :: s) (ofSigil b s).1 (ofSigil b s).2 := by
  unfold ofSigil
  show Munch _ (if _ then _ else _ : Lexeme × Nat).1 (if _ then _ else _ : Lexeme × Nat).2
  by_cases starred : b = Ascii.dollar ∧
      s[(s.takeWhile Ascii.isWordByte).length]? = some Ascii.star
  · obtain ⟨rfl, hstar⟩ := starred
    split
    · exact .tooLong (.starred (selects_starred hstar))
    have yields : Rule.Yields
        ((Ascii.dollar :: s).take (Ascii.runLength Ascii.isWordByte s + 2))
        (.naming .stringIdentifierWithWildcard)
        (.token (.naming .stringIdentifierWithWildcard)
          (.text (Ascii.dollar :: (s.takeWhile Ascii.isWordByte ++ [Ascii.star])))) := by
      rw [take_starred hstar]
      exact .naming _
    simp only [hstar, beq_self_eq_true, Bool.and_self, if_true]
    exact .selected (selects_starred hstar) yields
  · split
    · exact .tooLong (.whole (selects_sigil hb starred) (naming_ne_wildcard b))
    have yields : Rule.Yields ((b :: s).take (Ascii.runLength Ascii.isWordByte s + 1))
        (.naming (Lexeme.naming b false))
        (.token (.naming (Lexeme.naming b false))
          (.text (b :: s.takeWhile Ascii.isWordByte))) := by
      rw [take_sigil]
      exact .naming _
    have flag : (b == Ascii.dollar &&
        s[(s.takeWhile Ascii.isWordByte).length]? == some Ascii.star) = false := by
      simpa using starred
    simp only [flag, Bool.false_eq_true, if_false, List.append_nil]
    exact .selected (selects_sigil hb starred) yields

end Sigil

/-! ### Punctuation -/

/-- The printable bytes that begin nothing longer than an operator. -/
def isPunctuation (b : UInt8) : Bool :=
  Ascii.isPrintable b && !Ascii.isBlank b && b != Ascii.slash && b != Ascii.quote &&
    b != Ascii.openBrace && !Ascii.isDigit b && !Ascii.isWordStart b && b != Ascii.dollar &&
    b != Ascii.hash && b != Ascii.atSign

theorem isPrintable_of_isPunctuation {b : UInt8} (h : isPunctuation b = true) :
    Ascii.isPrintable b = true := by
  by_contra hb
  simp [isPunctuation, hb] at h

theorem length_of_operator {op : Operator} : (Ascii.bytes op.spelling).length = 2 := by
  cases op <;> decide

/-- An operator that begins with a byte has one more. -/
theorem operator_rival {b : UInt8} {s : List UInt8} {k : Nat} (hk : k ≤ s.length)
    (h : Rule.operator.Matches (b :: s.take k)) :
    ∃ (op : Operator) (c : UInt8),
      Ascii.bytes op.spelling = [b, c] ∧ s.head? = some c ∧ k = 1 := by
  obtain ⟨op, heq⟩ := h
  have length := congrArg List.length heq
  rw [length_of_operator, List.length_cons, List.length_take_of_le hk] at length
  obtain rfl : k = 1 := by omega
  cases s with
  | nil => simp at hk
  | cons c s => exact ⟨op, c, heq.symm, rfl, rfl⟩

theorem munch_punctuation {b : UInt8} {s : List UInt8} (hb : isPunctuation b = true)
    (hbang : b = Ascii.bang → s.head? = some Ascii.equals) :
    Munch (b :: s) (ofPunctuation b s).1 (ofPunctuation b s).2 := by
  have rivals : ∀ r : Rule, r.starts b = true →
      r ∈ [Rule.symbol, .operator, .naming .stringLength] :=
    mem_rivals_of_class isPunctuation (by decide +kernel) hb
  -- An exclamation mark stands in front of an equals sign here, so no name goes on behind it.
  have alone {k : Nat} (h : (Rule.naming .stringLength).Matches (b :: s.take k)) :
      b = Ascii.bang ∧ k = 0 := by
    obtain ⟨word, hword, heq⟩ := h
    obtain ⟨rfl, htext⟩ := List.cons.inj heq
    obtain ⟨tail, rfl⟩ := List.head?_eq_some_iff.1 (hbang rfl)
    cases k with
    | zero => exact ⟨rfl, rfl⟩
    | succ k =>
      have equals := hword Ascii.equals (by rw [← htext]; simp)
      exact absurd equals (by decide)
  unfold ofPunctuation
  cases hop : s.head?.bind (Operator.ofBytes? b) with
  | some op =>
    obtain ⟨c, hc, hop⟩ := Option.bind_eq_some_iff.1 hop
    obtain ⟨tail, rfl⟩ := List.head?_eq_some_iff.1 hc
    have spelled : Ascii.bytes op.spelling = [b, c] := by simpa using List.find?_some hop
    have own : Rule.operator.Matches ((b :: c :: tail).take 2) := ⟨op, spelled.symm⟩
    refine .selected (selects_cons _ (by simp) own rivals ?_) (.operator spelled.symm)
    simp only [List.forall_mem_cons]
    refine ⟨fun k hk h => ?_, fun k hk h => ?_, by simp⟩
    · obtain ⟨_, _, -, -, one⟩ := operator_rival hk h
      exact prevails_of_rank (by omega) (Nat.le_refl _)
    · have zero := (alone h).2
      exact prevails_of_lt (by omega)
  | none =>
    have own : Rule.symbol.Matches ((b :: s).take 1) := ⟨b, isPrintable_of_isPunctuation hb, rfl⟩
    have noOperator (op : Operator) (c : UInt8) (hc : s.head? = some c) :
        Ascii.bytes op.spelling ≠ [b, c] := by
      intro spelled
      rw [hc] at hop
      have apart := List.find?_eq_none.1 hop op (by cases op <;> decide)
      exact apart (beq_iff_eq.2 spelled)
    refine .selected (selects_cons _ (by simp) own rivals ?_) (.symbol rfl)
    simp only [List.forall_mem_cons]
    refine ⟨fun k hk h => ?_, fun k hk h => ?_, by simp⟩
    · obtain ⟨op, c, spelled, hc, -⟩ := operator_rival hk h
      exact absurd spelled (noOperator op c hc)
    · obtain ⟨rfl, -⟩ := alone h
      exact absurd rfl (noOperator .ne Ascii.equals (hbang rfl))

theorem munch_unmatched {b : UInt8} {s : List UInt8} (hblank : Ascii.isBlank b = false)
    (hprintable : Ascii.isPrintable b = false) :
    Munch (b :: s) (.refused (.nonAsciiByte b)) 1 := by
  have outside : (!Ascii.isBlank b && !Ascii.isPrintable b) = true := by
    rw [hblank, hprintable]
    rfl
  have rivals : ∀ r : Rule, r.starts b = true → r ∈ [] :=
    mem_rivals_of_class (fun b => !Ascii.isBlank b && !Ascii.isPrintable b) (by decide +kernel)
      outside
  refine .unmatched rfl fun rule m h => ?_
  obtain ⟨starts, -⟩ := h.take_cons
  cases rivals rule starts

theorem munch_startingWith (b : UInt8) (s : List UInt8) :
    Munch (b :: s) (startingWith b s).1 (startingWith b s).2 := by
  rw [startingWith]
  by_cases hblank : Ascii.isBlank b = true
  · rw [if_pos hblank]
    exact munch_blank hblank
  rw [if_neg hblank]
  by_cases hslash : b = Ascii.slash
  · rw [if_pos hslash, hslash]
    exact munch_slash s
  rw [if_neg hslash]
  by_cases hquote : b = Ascii.quote
  · rw [if_pos hquote, hquote]
    exact munch_quote s
  rw [if_neg hquote]
  by_cases hbrace : b = Ascii.openBrace
  · rw [if_pos hbrace, hbrace]
    exact munch_brace s
  rw [if_neg hbrace]
  by_cases hdigit : Ascii.isDigit b = true
  · rw [if_pos hdigit]
    exact munch_number hdigit
  rw [if_neg hdigit]
  by_cases hword : Ascii.isWordStart b = true
  · rw [if_pos hword]
    exact munch_word hword
  rw [if_neg hword]
  by_cases hsigil : b = Ascii.dollar ∨ b = Ascii.hash ∨ b = Ascii.atSign
  · rw [if_pos hsigil]
    apply munch_sigil
    rcases hsigil with hb | hb | hb
    · exact .inl hb
    · exact .inr (.inl hb)
    · exact .inr (.inr (.inl hb))
  rw [if_neg hsigil]
  by_cases hbang : b = Ascii.bang ∧ s.head? ≠ some Ascii.equals
  · rw [if_pos hbang]
    exact munch_sigil (.inr (.inr (.inr hbang)))
  rw [if_neg hbang]
  by_cases hprintable : Ascii.isPrintable b = true
  · rw [if_pos hprintable]
    have punctuation : isPunctuation b = true := by
      simp only [not_or] at hsigil
      simp [isPunctuation, hprintable, hblank, hslash, hquote, hbrace, hdigit, hword, hsigil]
    have equals : b = Ascii.bang → s.head? = some Ascii.equals := fun hb =>
      by_contra fun hs => hbang ⟨hb, hs⟩
    exact munch_punctuation punctuation equals
  rw [if_neg hprintable]
  exact munch_unmatched (by simpa using hblank) (by simpa using hprintable)

theorem munch_first {s : List UInt8} {lexeme : Lexeme} {n : Nat}
    (h : first? s = some (lexeme, n)) : Munch s lexeme n := by
  cases s with
  | nil => cases h
  | cons b s =>
    have munch := munch_startingWith b s
    rw [show startingWith b s = (lexeme, n) from Option.some.inj h] at munch
    exact munch

end Lexer
end RuleLex
