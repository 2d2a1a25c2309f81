/-
Writing a byte pattern and reading it back.

`WellFormed es` says which lists of elements have a written form: what the
reader hands out is well formed, `wellFormed_of_parse`, and the written form of
what is well formed is read back as it was, `parse_render`.

A written sequence is derived by the grammar from the inside out.  Each rule
takes the text up to the white space or the delimiter behind it, so the lemmas
are stated with any text `t` behind the written one that trivia lead on from.
-/
import RuleLex.Proofs.Pattern.Extent
import RuleLex.Proofs.Pattern.Reader

namespace RuleLex
namespace Pattern

/-! ## Well-formed elements -/

/-- A fixed nibble is a single digit. -/
def Nibble.IsDigit : Nibble → Prop
  | .literal v => v.toNat < 16
  | .wildcard => True

mutual

/-- Nibbles are digits, alternations and their alternatives hold something, and
no jump has its bounds the wrong way round. -/
def Element.Sound : Element → Prop
  | .byte high low => high.IsDigit ∧ low.IsDigit
  | .alternation alternatives => alternatives ≠ [] ∧ SoundAlternatives alternatives
  | .jump min max => ∀ m, max = some m → min ≤ m

def Sound : List Element → Prop
  | [] => True
  | e :: es => e.Sound ∧ Sound es

def SoundAlternatives : List (List Element) → Prop
  | [] => True
  | es :: rest => es ≠ [] ∧ Sound es ∧ SoundAlternatives rest

end

/-- The elements of a pattern: at least one, all of them sound, no jump at
either end, and no deeper than the nesting limit. -/
structure WellFormed (es : List Element) : Prop where
  nonempty : es ≠ []
  sound : Sound es
  first : ∀ e, es.head? = some e → e.isJump = false
  last : ∀ e, es.getLast? = some e → e.isJump = false
  shallow : nesting es ≤ limits.maxNestingDepth

/-! ## What is read is well formed -/

theorem isDigit_of_nibbleText {b : UInt8} {n : Nibble} (h : NibbleText b n) : n.IsDigit := by
  cases n with
  | wildcard => trivial
  | literal v =>
    have bound {digits : List UInt8} (hlength : digits.length = 16)
        (hget : digits[v.toNat]? = some b) : v.toNat < 16 := by
      obtain ⟨hlt, -⟩ := List.getElem?_eq_some_iff.1 hget
      omega
    rcases h with h | h
    · exact bound rfl h
    · exact bound rfl h

theorem sound_of_jumpText {text : List UInt8} {e : Element} (h : JumpText text e) : e.Sound := by
  cases h with
  | exact =>
    intro m hm
    cases hm
    exact UInt32.le_refl _
  | range _ _ _ _ _ _ ordered => exact ordered

mutual

theorem sound_of_sequence {s r : List UInt8} {es : List Element} (h : Sequence s es r) :
    Sound es :=
  match h with
  | .nil _ => trivial
  | .cons _ first rest => ⟨sound_of_elementText first, sound_of_sequence rest⟩

theorem sound_of_elementText {s r : List UInt8} {e : Element} (h : ElementText s e r) :
    e.Sound :=
  match h with
  | .byte hhigh hlow => ⟨isDigit_of_nibbleText hhigh, isDigit_of_nibbleText hlow⟩
  | .jump hjump => sound_of_jumpText hjump
  | .alternation halternatives => sound_of_alternatives halternatives

theorem sound_of_alternatives {s r : List UInt8} {alternatives : List (List Element)}
    (h : Alternatives s alternatives r) : alternatives ≠ [] ∧ SoundAlternatives alternatives :=
  match h with
  | .last first nonempty => ⟨List.cons_ne_nil _ _, nonempty, sound_of_sequence first, trivial⟩
  | .more first nonempty rest =>
    ⟨List.cons_ne_nil _ _, nonempty, sound_of_sequence first, (sound_of_alternatives rest).2⟩

end

theorem parse_ok_iff {text : List UInt8} {es : List Element} :
    parse text = .ok es ↔ Derives (body text) es := by
  rw [parse_eq_ok_iff]
  constructor
  · intro h
    obtain ⟨located, hread, hcheck⟩ := h
    obtain ⟨rfl, nonempty, first, last⟩ := checkBoundaries_eq_ok_iff.1 hcheck
    obtain ⟨derivation, shallow⟩ := Reading.sequence_of_readSequence hread
    exact ⟨derivation, nonempty, first, last, shallow⟩
  · intro h
    obtain ⟨derivation, nonempty, first, last, shallow⟩ := h
    obtain ⟨located, hread, helements⟩ := Reading.readSequence_start_of_sequence derivation shallow
    exact ⟨located, hread, checkBoundaries_eq_ok_iff.2 ⟨helements, nonempty, first, last⟩⟩

theorem wellFormed_of_parse {text : List UInt8} {es : List Element} (h : parse text = .ok es) :
    WellFormed es := by
  obtain ⟨derivation, nonempty, first, last, shallow⟩ := parse_ok_iff.1 h
  exact ⟨nonempty, sound_of_sequence derivation, first, last, shallow⟩

/-! ## What is written is derived -/

theorem trivia_trans {s t r : List UInt8} (h : Trivia s t) (h' : Trivia t r) : Trivia s r := by
  induction h with
  | done => exact h'
  | blank hb _ ih => exact .blank hb (ih h')
  | line hbody ends _ ih => exact .line hbody ends (ih h')
  | block hbody _ ih => exact .block hbody (ih h')

theorem trivia_space (r : List UInt8) : Trivia (Ascii.space :: r) r := .blank rfl .done

theorem sequence_of_trivia {s t r : List UInt8} {es : List Element} (h : Trivia s t)
    (hes : Sequence t es r) : Sequence s es r := by
  cases hes with
  | nil trivia => exact .nil (trivia_trans h trivia)
  | cons trivia first rest => exact .cons (trivia_trans h trivia) first rest

theorem alternatives_of_trivia {s t r : List UInt8} {alternatives : List (List Element)}
    (h : Trivia s t) (halternatives : Alternatives t alternatives r) :
    Alternatives s alternatives r := by
  cases halternatives with
  | last first nonempty => exact .last (sequence_of_trivia h first) nonempty
  | more first nonempty rest => exact .more (sequence_of_trivia h first) nonempty rest

theorem nibbleText_chars {n : Nibble} (h : n.IsDigit) :
    ∃ b, Ascii.ofChars n.chars = [b] ∧ NibbleText b n := by
  cases n with
  | wildcard => exact ⟨Ascii.question, rfl, rfl⟩
  | literal v =>
    have all : ∀ i : Fin 16, (Ascii.bytes "0123456789ABCDEF")[i.1]? =
        some (Ascii.upperHexDigit i.1).toNat.toUInt8 := by decide
    have hv : v.toNat < 16 := h
    refine ⟨(Ascii.upperHexDigit v.toNat).toNat.toUInt8, ?_, .inl (all ⟨v.toNat, hv⟩)⟩
    rw [Nibble.chars, if_pos hv]
    rfl

theorem jumpText_chars {min : UInt32} {max : Option UInt32} (h : ∀ m, max = some m → min ≤ m) :
    JumpText (Ascii.ofChars (Element.jumpChars min max)) (.jump min max) := by
  have missing : Bound [] none := rfl
  have low : Bound (Ascii.ofChars (toString min.toNat).toList) (some min) :=
    Ascii.numeral_toString min.toNat
  cases max with
  | none =>
    have unbounded : ∀ m, (none : Option UInt32) = some m → min ≤ m := by simp
    unfold Element.jumpChars
    simp only
    split
    · rename_i hzero
      subst hzero
      exact .range blank_nil missing blank_nil blank_nil missing blank_nil unbounded
    · have range := JumpText.range blank_nil low blank_nil blank_nil missing blank_nil unbounded
      simpa [Ascii.ofChars] using range
  | some m =>
    have high : Bound (Ascii.ofChars (toString m.toNat).toList) (some m) :=
      Ascii.numeral_toString m.toNat
    unfold Element.jumpChars
    simp only
    split
    · rename_i hexact
      subst hexact
      have exact_ := JumpText.exact blank_nil high blank_nil
      simpa [Ascii.ofChars] using exact_
    · have range := JumpText.range blank_nil low blank_nil blank_nil high blank_nil h
      simpa [Ascii.ofChars] using range

mutual

/-- One space apart, the elements of a sequence are derived up to where the
trivia behind them end. -/
theorem sequence_chars (es : List Element) (h : Sound es) {t r : List UInt8} (skips : Trivia t r) :
    Sequence (Ascii.ofChars (sequenceChars es) ++ t) es r :=
  match es, h with
  | [], _ => .nil skips
  | [e], ⟨he, _⟩ => .cons .done (elementText_chars e he t) (.nil skips)
  | e :: f :: rest, ⟨he, hrest⟩ => by
    have tail := sequence_of_trivia (trivia_space _) (sequence_chars (f :: rest) hrest skips)
    have head := elementText_chars e he
      (Ascii.space :: (Ascii.ofChars (sequenceChars (f :: rest)) ++ t))
    rw [sequenceChars, Ascii.ofChars_append, List.append_assoc]
    exact .cons .done head tail

theorem elementText_chars (e : Element) (h : e.Sound) (r : List UInt8) :
    ElementText (Ascii.ofChars e.chars ++ r) e r :=
  match e, h with
  | .byte high low, ⟨hhigh, hlow⟩ => by
    obtain ⟨b, hb, hhigh⟩ := nibbleText_chars hhigh
    obtain ⟨c, hc, hlow⟩ := nibbleText_chars hlow
    rw [Element.chars, Ascii.ofChars_append, hb, hc]
    exact .byte hhigh hlow
  | .jump min max, hjump => by
    rw [Element.chars]
    exact .jump (jumpText_chars hjump)
  | .alternation alternatives, ⟨nonempty, halternatives⟩ => by
    have inner := alternatives_chars alternatives nonempty halternatives r
    rw [Element.chars]
    simp only [Ascii.ofChars, List.map_cons, List.map_append, List.map_nil, List.cons_append,
      List.append_assoc, List.nil_append] at inner ⊢
    exact .alternation inner

theorem alternatives_chars (alternatives : List (List Element)) (nonempty : alternatives ≠ [])
    (h : SoundAlternatives alternatives) (r : List UInt8) :
    Alternatives (Ascii.ofChars (alternativesChars alternatives) ++ Ascii.closeParen :: r)
      alternatives r :=
  match alternatives, h with
  | [], _ => absurd rfl nonempty
  | [es], ⟨hne, hes, _⟩ => .last (sequence_chars es hes .done) hne
  | es :: fs :: rest, ⟨hne, hes, hrest⟩ => by
    have tail := alternatives_of_trivia (trivia_space _)
      (alternatives_chars (fs :: rest) (List.cons_ne_nil _ _) hrest r)
    have head := sequence_chars es hes (trivia_space
      (Ascii.bar :: Ascii.space ::
        (Ascii.ofChars (alternativesChars (fs :: rest)) ++ Ascii.closeParen :: r)))
    rw [alternativesChars, Ascii.ofChars_append, List.append_assoc]
    exact .more head hne tail

end

/-! ## What is written is plain -/

/-- The characters of a written sequence: no slash and nothing beyond ASCII. -/
def letters : List Char := "0123456789ABCDEF?()[]|- ".toList

theorem mem_letters_of_isDigit {c : Char} (h : c.isDigit = true) : c ∈ letters := by
  have bounds : 48 ≤ c.toNat ∧ c.toNat ≤ 57 := by
    simp only [Char.isDigit, ge_iff_le, Bool.and_eq_true, decide_eq_true_eq] at h
    exact h
  have all : ∀ i : Fin 10, Char.ofNat (48 + i.1) ∈ letters := by decide
  obtain ⟨k, hk⟩ := Nat.exists_eq_add_of_le bounds.1
  rw [← Char.ofNat_toNat c, hk]
  exact all ⟨k, by omega⟩

theorem letters_numeral (n : Nat) : ∀ c ∈ (toString n).toList, c ∈ letters := by
  intro c hc
  rw [show (toString n).toList = Nat.toDigits 10 n from Nat.toList_repr] at hc
  exact mem_letters_of_isDigit (Nat.isDigit_of_mem_toDigits (by decide) (by decide) hc)

theorem letters_nibble (n : Nibble) : ∀ c ∈ n.chars, c ∈ letters := by
  have digit : ∀ i : Fin 16, Ascii.upperHexDigit i.1 ∈ letters := by decide
  cases n with
  | wildcard =>
    have question : '?' ∈ letters := by decide
    simpa [Nibble.chars] using question
  | literal v =>
    have small : v.toNat < 256 := v.toNat_lt
    rw [Nibble.chars]
    split
    · rename_i hv
      simpa using digit ⟨v.toNat, hv⟩
    · have high := digit ⟨v.toNat / 16, by omega⟩
      have low := digit ⟨v.toNat % 16, by omega⟩
      simpa using ⟨high, low⟩

theorem letters_jump (min : UInt32) (max : Option UInt32) :
    ∀ c ∈ Element.jumpChars min max, c ∈ letters := by
  have opening : '[' ∈ letters := by decide
  have minus : '-' ∈ letters := by decide
  have closing : ']' ∈ letters := by decide
  have low := letters_numeral min.toNat
  unfold Element.jumpChars
  cases max with
  | none =>
    simp only
    split
    · simp [opening, minus, closing]
    · simp only [List.forall_mem_cons, List.forall_mem_append]
      exact ⟨⟨opening, low⟩, minus, closing, by simp⟩
  | some m =>
    have high := letters_numeral m.toNat
    simp only
    split
    · simp only [List.forall_mem_cons, List.forall_mem_append]
      exact ⟨⟨opening, low⟩, closing, by simp⟩
    · simp only [List.forall_mem_cons, List.forall_mem_append]
      exact ⟨⟨⟨opening, low⟩, minus, high⟩, closing, by simp⟩

mutual

theorem letters_sequence (es : List Element) : ∀ c ∈ sequenceChars es, c ∈ letters :=
  match es with
  | [] => by simp [sequenceChars]
  | [e] => letters_element e
  | e :: f :: rest => by
    have space : ' ' ∈ letters := by decide
    rw [sequenceChars]
    exact List.forall_mem_append.2
      ⟨letters_element e, List.forall_mem_cons.2 ⟨space, letters_sequence (f :: rest)⟩⟩

theorem letters_element (e : Element) : ∀ c ∈ e.chars, c ∈ letters :=
  match e with
  | .byte high low => List.forall_mem_append.2 ⟨letters_nibble high, letters_nibble low⟩
  | .jump min max => letters_jump min max
  | .alternation alternatives => by
    have opening : '(' ∈ letters := by decide
    have closing : ')' ∈ letters := by decide
    rw [Element.chars]
    simp only [List.forall_mem_cons, List.forall_mem_append]
    exact ⟨opening, letters_alternatives alternatives, closing, by simp⟩

theorem letters_alternatives (alternatives : List (List Element)) :
    ∀ c ∈ alternativesChars alternatives, c ∈ letters :=
  match alternatives with
  | [] => by simp [alternativesChars]
  | [es] => letters_sequence es
  | es :: fs :: rest => by
    have space : ' ' ∈ letters := by decide
    have bar : '|' ∈ letters := by decide
    rw [alternativesChars]
    simp only [List.forall_mem_cons, List.forall_mem_append]
    exact ⟨letters_sequence es, space, bar, space, letters_alternatives (fs :: rest)⟩

end

theorem letters_render (es : List Element) :
    ∀ c ∈ (render es).toList, c ∈ '\x7b' :: '\x7d' :: letters := by
  have space : ' ' ∈ letters := by decide
  intro c hc
  rw [render, String.toList_ofList, renderChars] at hc
  simp only [List.mem_cons, List.mem_append, List.not_mem_nil, or_false] at hc ⊢
  rcases hc with hopen | rfl | hwritten | rfl | hclose
  · exact .inl hopen
  · exact .inr (.inr space)
  · exact .inr (.inr (letters_sequence es c hwritten))
  · exact .inr (.inr space)
  · exact .inr (.inl hclose)

theorem render_ascii (es : List Element) : ∀ c ∈ (render es).toList, c.toNat < 128 := by
  have all : ('\x7b' :: '\x7d' :: letters).all (fun c => c.toNat < 128) = true := by decide
  exact fun c hc => of_decide_eq_true (List.all_eq_true.1 all c (letters_render es c hc))

theorem slash_not_mem_render (es : List Element) : Ascii.slash ∉ Ascii.bytes (render es) := by
  have all : ('\x7b' :: '\x7d' :: letters).all
      (fun c => c.toNat.toUInt8 ≠ Ascii.slash) = true := by decide
  intro hmem
  obtain ⟨c, hc, heq⟩ := List.mem_map.1 hmem
  exact of_decide_eq_true (List.all_eq_true.1 all c (letters_render es c hc)) heq

/-! ## Whole patterns -/

theorem bytes_render (es : List Element) :
    Ascii.bytes (render es) =
      Ascii.openBrace ::
        (Ascii.space :: (Ascii.ofChars (sequenceChars es) ++ [Ascii.space]) ++
          [Ascii.closeBrace]) := by
  rw [render, Ascii.bytes_ofList]
  simp [renderChars, Ascii.ofChars]

theorem parse_render {es : List Element} (h : WellFormed es) :
    parse (Ascii.bytes (render es)) = .ok es := by
  rw [parse_ok_iff, bytes_render, body_append]
  have written := sequence_chars es h.sound (trivia_space [])
  exact ⟨sequence_of_trivia (trivia_space _) written, h.nonempty, h.first, h.last, h.shallow⟩

end Pattern
end RuleLex
