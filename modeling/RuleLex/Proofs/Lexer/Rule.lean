/-
The table of lexical rules.

Outside literals and comments the lexer is meant to behave like a table of rules:
each describes a set of texts, `Rule.Matches`, the longest head that any of them
describes is taken, and of the rules that describe it the first of the table
counts, `Selects`.  Nothing here mentions how the lexer finds it.

`Rule.starts` tells from one byte which rules describe any text that begins with
it, so that behind a known byte only a few rules compete.
-/
import RuleLex.Proofs.Lexer.Spelling
import RuleLex.Proofs.Pattern.Extent

namespace RuleLex
namespace Lexer

open Pattern (IsLongest)

/-- A rule for the text at the head of what is left. -/
inductive Rule where
  | blank | lineComment | blockComment | bytePattern | quote | slash | operator | keyword
  | naming (n : Naming)
  | decimal | hex | octal | float | symbol
deriving DecidableEq, Repr

/-- A letter or an underscore and any number of word bytes. -/
def IsWord (text : List UInt8) : Prop :=
  ∃ b word, Ascii.isWordStart b = true ∧ (∀ c ∈ word, Ascii.isWordByte c = true) ∧
    text = b :: word

/-- The texts of a name: the bare ones begin with a letter or are those of the
sized read functions, the others have a sigil before a word that may be empty. -/
def NamingText (text : List UInt8) : Naming → Prop
  | .integerFunction => text ∈ integerFunctionNames
  | .identifier => IsWord text
  | .stringIdentifier =>
    ∃ word, (∀ c ∈ word, Ascii.isWordByte c = true) ∧ text = Ascii.dollar :: word
  | .stringIdentifierWithWildcard =>
    ∃ word, (∀ c ∈ word, Ascii.isWordByte c = true) ∧
      text = Ascii.dollar :: (word ++ [Ascii.star])
  | .stringCount => ∃ word, (∀ c ∈ word, Ascii.isWordByte c = true) ∧ text = Ascii.hash :: word
  | .stringOffset =>
    ∃ word, (∀ c ∈ word, Ascii.isWordByte c = true) ∧ text = Ascii.atSign :: word
  | .stringLength => ∃ word, (∀ c ∈ word, Ascii.isWordByte c = true) ∧ text = Ascii.bang :: word

namespace Rule

/-- The rules in the order in which they count. -/
def table : List Rule :=
  [.blank, .lineComment, .blockComment, .bytePattern, .quote, .slash, .operator, .keyword,
   .naming .integerFunction, .naming .identifier, .naming .stringIdentifier,
   .naming .stringIdentifierWithWildcard, .naming .stringCount, .naming .stringOffset,
   .naming .stringLength, .decimal, .hex, .octal, .float, .symbol]

/-- The place of a rule in the table. -/
def rank (rule : Rule) : Nat := table.idxOf rule

/-- The texts that a rule describes. -/
def Matches (text : List UInt8) : Rule → Prop
  | .blank => text ≠ [] ∧ ∀ b ∈ text, Ascii.isBlank b = true
  | .lineComment => ∃ body, Ascii.newline ∉ body ∧ text = Ascii.slash :: Ascii.slash :: body
  | .blockComment => text = [Ascii.slash, Ascii.star]
  | .bytePattern => Pattern.Braced text
  | .quote => text = [Ascii.quote]
  | .slash => text = [Ascii.slash]
  | .operator => ∃ op : Operator, text = Ascii.bytes op.spelling
  | .keyword => ∃ k : Keyword, text = k.bytes
  | .naming n => NamingText text n
  | .decimal => ∃ multiplier, Number.FormText (.decimal multiplier) text
  | .hex => Number.FormText .hex text
  | .octal => Number.FormText .octal text
  | .float => Number.FormText .float text
  | .symbol => ∃ b, Ascii.isPrintable b = true ∧ text = [b]

/-- The rule for the numbers of a form. -/
def ofForm : Number.Form → Rule
  | .decimal _ => .decimal
  | .float => .float
  | .hex => .hex
  | .octal => .octal

theorem mem_table (rule : Rule) : rule ∈ table := by
  cases rule with
  | naming n => cases n <;> decide
  | _ => decide

theorem eq_of_rank {r r' : Rule} (h : r.rank = r'.rank) : r = r' :=
  (List.idxOf_inj (mem_table r)).1 h

/-- Any other rule counts before the one for symbols. -/
theorem rank_le_symbol (rule : Rule) : rule.rank ≤ symbol.rank := by
  have all : ∀ r ∈ table, r.rank ≤ symbol.rank := by decide
  exact all rule (mem_table rule)

/-- What a rule makes of a text that it describes. -/
inductive Yields (text : List UInt8) : Rule → Lexeme → Prop
  | blank : Yields text .blank .blank
  | lineComment : Yields text .lineComment .lineComment
  | blockComment : Yields text .blockComment .commentOpening
  | bytePattern : Yields text .bytePattern .hexPattern
  | quote : Yields text .quote (.literalOpening .string)
  | slash : Yields text .slash (.literalOpening .regex)
  | operator {op : Operator} (h : text = Ascii.bytes op.spelling) :
    Yields text .operator (.token (.operator op) .none)
  | keyword {k : Keyword} (h : text = k.bytes) : Yields text .keyword (.token (.keyword k) .none)
  | naming (n : Naming) : Yields text (.naming n) (.token (.naming n) (.text text))
  | number {form : Number.Form} {literal : Literal} {value : TokenValue}
    (h : Number.FormText form text) (hvalue : Number.evaluate form text = .ok (literal, value)) :
    Yields text (ofForm form) (.token (.literal literal) value)
  | badNumber {form : Number.Form} {fault : Fault} (h : Number.FormText form text)
    (hvalue : Number.evaluate form text = .error fault) : Yields text (ofForm form) (.refused fault)
  | symbol {b : UInt8} (h : text = [b]) : Yields text .symbol (.token (.symbol b) .none)

theorem Yields.kind_ne_eof {text : List UInt8} {rule : Rule} {kind : TokenKind}
    {value : TokenValue} (h : Yields text rule (.token kind value)) : kind ≠ .eof := by
  cases h <;> exact TokenKind.noConfusion

/-! ## First bytes -/

/-- Whether a rule describes any text that begins with a byte. -/
def starts (b : UInt8) : Rule → Bool
  | .blank => Ascii.isBlank b
  | .lineComment | .blockComment | .slash => b == Ascii.slash
  | .bytePattern => b == Ascii.openBrace
  | .quote => b == Ascii.quote
  | .operator => Operator.all.any fun op => (Ascii.bytes op.spelling).head? == some b
  | .keyword | .naming .integerFunction | .naming .identifier => Ascii.isWordStart b
  | .naming .stringIdentifier | .naming .stringIdentifierWithWildcard => b == Ascii.dollar
  | .naming .stringCount => b == Ascii.hash
  | .naming .stringOffset => b == Ascii.atSign
  | .naming .stringLength => b == Ascii.bang
  | .decimal | .float => Ascii.isDigit b
  | .hex | .octal => b == Ascii.zero
  | .symbol => Ascii.isPrintable b

theorem isWord_cons_iff {b : UInt8} {word : List UInt8} :
    IsWord (b :: word) ↔
      Ascii.isWordStart b = true ∧ ∀ c ∈ word, Ascii.isWordByte c = true := by
  constructor
  · intro h
    obtain ⟨c, word', hc, hword, heq⟩ := h
    obtain ⟨rfl, rfl⟩ := List.cons.inj heq
    exact ⟨hc, hword⟩
  · intro h
    exact ⟨b, word, h.1, h.2, rfl⟩

instance (text : List UInt8) : Decidable (IsWord text) :=
  match text with
  | [] => .isFalse fun ⟨_, _, _, _, h⟩ => nomatch h
  | b :: word =>
    decidable_of_iff ((Ascii.isWordStart b && word.all Ascii.isWordByte) = true)
      (by rw [isWord_cons_iff, Bool.and_eq_true, List.all_eq_true])

theorem isWord_keyword (k : Keyword) : IsWord k.bytes := by
  have all : ∀ k ∈ Keyword.all, IsWord k.bytes := by decide +kernel
  exact all k (Keyword.mem_all k)

theorem isWord_integerFunction {text : List UInt8} (h : text ∈ integerFunctionNames) :
    IsWord text := by
  have all : ∀ text ∈ integerFunctionNames, IsWord text := by decide +kernel
  exact all text h

/-- Digits in front of anything else give a number its first byte. -/
theorem isDigit_of_append {digits suffix text : List UInt8} {b : UInt8} (nonempty : digits ≠ [])
    (hdigits : ∀ c ∈ digits, Ascii.isDigit c = true) (h : b :: text = digits ++ suffix) :
    Ascii.isDigit b = true := by
  obtain ⟨c, more, rfl⟩ := List.exists_cons_of_ne_nil nonempty
  obtain ⟨rfl, -⟩ := List.cons.inj h
  exact hdigits b List.mem_cons_self

theorem starts_of_formText {form : Number.Form} {b : UInt8} {text : List UInt8}
    (h : Number.FormText form (b :: text)) :
    Ascii.isDigit b = true ∧ (form = .hex ∨ form = .octal → b = Ascii.zero) := by
  generalize hs : b :: text = s at h
  cases h with
  | plain nonempty hdigits =>
    rw [← List.append_nil s] at hs
    exact ⟨isDigit_of_append nonempty hdigits hs, by simp⟩
  | kilobytes nonempty hdigits => exact ⟨isDigit_of_append nonempty hdigits hs, by simp⟩
  | megabytes nonempty hdigits => exact ⟨isDigit_of_append nonempty hdigits hs, by simp⟩
  | float hpointed =>
    rw [hpointed.text_eq] at hs
    exact ⟨isDigit_of_append hpointed.whole_nonempty hpointed.whole_digit hs, by simp⟩
  | hex =>
    obtain ⟨rfl, -⟩ := List.cons.inj hs
    exact ⟨by decide, fun _ => rfl⟩
  | octal =>
    obtain ⟨rfl, -⟩ := List.cons.inj hs
    exact ⟨by decide, fun _ => rfl⟩

theorem starts_of_namingText {n : Naming} {b : UInt8} {text : List UInt8}
    (h : NamingText (b :: text) n) : (naming n).starts b = true := by
  cases n with
  | integerFunction => exact (isWord_cons_iff.1 (isWord_integerFunction h)).1
  | identifier => exact (isWord_cons_iff.1 h).1
  | _ =>
    obtain ⟨word, -, heq⟩ := h
    exact beq_iff_eq.2 (List.cons.inj heq).1

theorem starts_of_matches {rule : Rule} {b : UInt8} {text : List UInt8}
    (h : rule.Matches (b :: text)) : rule.starts b = true := by
  cases rule with
  | blank => exact h.2 b List.mem_cons_self
  | lineComment =>
    obtain ⟨body, -, heq⟩ := h
    exact beq_iff_eq.2 (List.cons.inj heq).1
  | blockComment | quote | slash => exact beq_iff_eq.2 (List.cons.inj h).1
  | bytePattern => exact beq_iff_eq.2 (Pattern.braced_cons_iff.1 h).1
  | operator =>
    obtain ⟨op, heq⟩ := h
    refine List.any_eq_true.2 ⟨op, by cases op <;> decide, ?_⟩
    rw [← heq]
    exact beq_self_eq_true _
  | keyword =>
    obtain ⟨k, heq⟩ := h
    have word := isWord_keyword k
    rw [← heq] at word
    exact (isWord_cons_iff.1 word).1
  | naming n => exact starts_of_namingText h
  | decimal =>
    obtain ⟨multiplier, htext⟩ := h
    exact (starts_of_formText htext).1
  | float => exact (starts_of_formText h).1
  | hex => exact beq_iff_eq.2 ((starts_of_formText h).2 (.inl rfl))
  | octal => exact beq_iff_eq.2 ((starts_of_formText h).2 (.inr rfl))
  | symbol =>
    obtain ⟨c, hc, heq⟩ := h
    obtain ⟨rfl, -⟩ := List.cons.inj heq
    exact hc

theorem not_formText_nil (form : Number.Form) : ¬ Number.FormText form [] := by
  intro h
  generalize hs : ([] : List UInt8) = s at h
  cases h with
  | plain nonempty => exact nonempty hs.symm
  | float hpointed =>
    rw [hpointed.text_eq] at hs
    simp at hs
  | _ => simp at hs

theorem not_matches_nil (rule : Rule) : ¬ rule.Matches [] := by
  intro h
  cases rule with
  | blank => exact h.1 rfl
  | lineComment =>
    obtain ⟨body, -, heq⟩ := h
    cases heq
  | blockComment | quote | slash => cases h
  | bytePattern => exact Pattern.not_braced_nil h
  | operator =>
    obtain ⟨op, heq⟩ := h
    cases op <;> cases heq
  | keyword =>
    obtain ⟨k, heq⟩ := h
    obtain ⟨b, word, -, -, hword⟩ := isWord_keyword k
    rw [← heq] at hword
    cases hword
  | naming n =>
    cases n with
    | integerFunction =>
      have outside : [] ∉ integerFunctionNames := by decide
      exact outside h
    | _ =>
      simp only [Matches, NamingText, IsWord] at h
      simp at h
  | decimal =>
    obtain ⟨multiplier, htext⟩ := h
    exact not_formText_nil _ htext
  | hex | octal | float => exact not_formText_nil _ h
  | symbol =>
    obtain ⟨b, -, heq⟩ := h
    cases heq

/-- Of a text that begins with `b`, a rule describes only heads that hold that byte. -/
theorem Matches.take_cons {rule : Rule} {b : UInt8} {s : List UInt8} {m : Nat}
    (h : rule.Matches ((b :: s).take m)) :
    rule.starts b = true ∧ ∃ k, m = k + 1 ∧ rule.Matches (b :: s.take k) := by
  cases m with
  | zero => exact absurd h (not_matches_nil rule)
  | succ k => exact ⟨starts_of_matches h, k, rfl, h⟩

end Rule

/-! ## Selection -/

/-- The head of `n` bytes is the longest that any rule describes, and the rule is
the first that describes it. -/
structure Selects (s : List UInt8) (rule : Rule) (n : Nat) : Prop where
  longest : IsLongest (fun text => ∃ r : Rule, r.Matches text) s n
  own : rule.Matches (s.take n)
  first : ∀ other : Rule, other.Matches (s.take n) → rule.rank ≤ other.rank

theorem Selects.unique {s : List UInt8} {rule rule' : Rule} {n n' : Nat}
    (h : Selects s rule n) (h' : Selects s rule' n') : rule = rule' ∧ n = n' := by
  obtain rfl : n = n' := by
    have le := h'.longest.2.2 n h.longest.1 ⟨rule, h.own⟩
    have ge := h.longest.2.2 n' h'.longest.1 ⟨rule', h'.own⟩
    omega
  have rank : rule.rank = rule'.rank :=
    Nat.le_antisymm (h.first rule' h'.own) (h'.first rule h.own)
  exact ⟨Rule.eq_of_rank rank, rfl⟩

/-- Where a rule describes any head of a text, some rule is selected. -/
theorem exists_selects {s : List UInt8} {rule : Rule} {n : Nat} (h : rule.Matches (s.take n)) :
    ∃ rule n, Selects s rule n := by
  obtain ⟨m, hm, hmatches⟩ : ∃ m, m ≤ s.length ∧ rule.Matches (s.take m) := by
    rcases Nat.le_total n s.length with hn | hn
    · exact ⟨n, hn, h⟩
    · rw [List.take_of_length_le hn] at h
      exact ⟨s.length, Nat.le_refl _, by rwa [List.take_length]⟩
  obtain ⟨m, longest⟩ :=
    Pattern.exists_isLongest (P := fun text => ∃ r : Rule, r.Matches text) hm ⟨rule, hmatches⟩
  have ranked : ∃ k, ∃ r : Rule, r.Matches (s.take m) ∧ r.rank = k := by
    obtain ⟨r, hr⟩ := longest.2.1
    exact ⟨r.rank, r, hr, rfl⟩
  classical
  obtain ⟨r, hr, hrank⟩ := Nat.find_spec ranked
  refine ⟨r, m, longest, hr, fun other hother => ?_⟩
  rw [hrank]
  exact Nat.find_min' ranked ⟨other, hother, rfl⟩

/-- A rule with a head of `n` bytes counts before a rival with a head of `m`. -/
def Prevails (rule : Rule) (n : Nat) (rival : Rule) (m : Nat) : Prop :=
  m ≤ n ∧ (m = n → rule.rank ≤ rival.rank)

theorem prevails_of_lt {rule rival : Rule} {n m : Nat} (h : m < n) : Prevails rule n rival m :=
  ⟨Nat.le_of_lt h, fun e => absurd e (Nat.ne_of_lt h)⟩

theorem prevails_of_rank {rule rival : Rule} {n m : Nat} (h : m ≤ n)
    (hrank : rule.rank ≤ rival.rank) : Prevails rule n rival m :=
  ⟨h, fun _ => hrank⟩

theorem eq_length_of_take {s text : List UInt8} {k : Nat} (hk : k ≤ s.length)
    (h : s.take k = text) : k = text.length := by
  rw [← h, List.length_take_of_le hk]

/-- The head of a symbol is no longer than any other, and its rule is the last. -/
theorem prevails_symbol {b : UInt8} {s : List UInt8} (rule : Rule) {n k : Nat} (hn : 0 < n)
    (hk : k ≤ s.length) (h : Rule.symbol.Matches (b :: s.take k)) :
    Prevails rule n .symbol (k + 1) := by
  obtain ⟨c, -, heq⟩ := h
  have zero : k = 0 := eq_length_of_take hk (List.cons.inj heq).2
  exact prevails_of_rank (by omega) rule.rank_le_symbol

/-- Behind a known first byte it is enough to prevail over the rivals that it
leaves; over a symbol every rule prevails. -/
theorem selects_cons {b : UInt8} {s : List UInt8} {rule : Rule} {n : Nat} (rivals : List Rule)
    (hn : n ≤ (b :: s).length) (own : rule.Matches ((b :: s).take n))
    (hrivals : ∀ r : Rule, r.starts b = true → r ∈ Rule.symbol :: rivals)
    (h : ∀ r ∈ rivals, ∀ k ≤ s.length, r.Matches (b :: s.take k) →
      Prevails rule n r (k + 1)) : Selects (b :: s) rule n := by
  have pos : 0 < n := by
    obtain ⟨-, k, rfl, -⟩ := own.take_cons
    exact Nat.succ_pos k
  have prevails {r : Rule} {k : Nat} (starts : r.starts b = true) (hk : k ≤ s.length)
      (hr : r.Matches (b :: s.take k)) : Prevails rule n r (k + 1) := by
    rcases List.mem_cons.1 (hrivals r starts) with rfl | hmem
    · exact prevails_symbol rule pos hk hr
    · exact h r hmem k hk hr
  refine ⟨⟨hn, ⟨rule, own⟩, fun m hm hmatches => ?_⟩, own, fun r hr => ?_⟩
  · obtain ⟨r, hr⟩ := hmatches
    obtain ⟨starts, k, rfl, hr⟩ := hr.take_cons
    exact (prevails starts (by simpa using hm) hr).1
  · obtain ⟨starts, k, rfl, hr⟩ := hr.take_cons
    exact (prevails starts (by simpa using hn) hr).2 rfl

/-- The rivals of a byte are found by trying them all. -/
theorem mem_rivals {b : UInt8} {rivals : List Rule}
    (all : ∀ r ∈ Rule.table, r.starts b = true → r ∈ rivals) (r : Rule)
    (hr : r.starts b = true) : r ∈ rivals :=
  all r r.mem_table hr

/-- The rivals of a class of bytes are found by trying every byte. -/
theorem mem_rivals_of_class (test : UInt8 → Bool) {rivals : List Rule}
    (all : ∀ v : BitVec 8, test ⟨v⟩ = true →
      ∀ r ∈ Rule.table, r.starts ⟨v⟩ = true → r ∈ rivals)
    {b : UInt8} (hb : test b = true) : ∀ r : Rule, r.starts b = true → r ∈ rivals :=
  mem_rivals (all b.toBitVec hb)

end Lexer
end RuleLex
