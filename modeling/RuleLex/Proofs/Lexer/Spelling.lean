/-
What a token says of the text it was read from.

`Spells service text kind value` relates a text to the kind and the payload of
its token, case by case, and `Gap` describes the text between tokens.  Neither
mentions the lexer.  The scanners of lexemes and of pieces of literals are shown
here to take exactly such texts; how they follow each other is the business of
the lexer.
-/
import RuleLex.Lexer.Basic
import RuleLex.Proofs.Comment
import RuleLex.Proofs.Text

namespace RuleLex

/-! ## Texts between tokens -/

/-- A run of white space or a comment. -/
inductive Ignored : List UInt8 → Prop
  | blank {run : List UInt8} (nonempty : run ≠ []) (h : ∀ b ∈ run, Ascii.isBlank b = true) :
    Ignored run
  | line {body : List UInt8} (h : Ascii.newline ∉ body) :
    Ignored (Ascii.slash :: Ascii.slash :: body)
  | block {body : List UInt8} (h : Comment.IsClosed body) :
    Ignored (Ascii.slash :: Ascii.star :: body)

/-- Any number of runs of white space and comments. -/
def Gap (text : List UInt8) : Prop :=
  ∃ items : List (List UInt8), (∀ item ∈ items, Ignored item) ∧ text = items.flatten

theorem gap_nil : Gap [] := ⟨[], by simp, rfl⟩

theorem gap_of_ignored {text : List UInt8} (h : Ignored text) : Gap text :=
  ⟨[text], by simpa using h, by simp⟩

theorem gap_append {s t : List UInt8} (hs : Gap s) (ht : Gap t) : Gap (s ++ t) := by
  obtain ⟨items, hitems, rfl⟩ := hs
  obtain ⟨others, hothers, rfl⟩ := ht
  refine ⟨items ++ others, ?_, by simp⟩
  intro item hitem
  rcases List.mem_append.1 hitem with hitem | hitem
  · exact hitems item hitem
  · exact hothers item hitem

/-! ## Texts of tokens -/

/-- A numeral with its suffix or its mark, and the value. -/
inductive IntegerText : List UInt8 → Nat → Prop
  | plain {digits : List UInt8} {n : Nat} (h : Ascii.Numeral digits n) : IntegerText digits n
  | kilobytes {digits : List UInt8} {n : Nat} (h : Ascii.Numeral digits n) :
    IntegerText (digits ++ [Ascii.upperK, Ascii.upperB]) (n * 1024)
  | megabytes {digits : List UInt8} {n : Nat} (h : Ascii.Numeral digits n) :
    IntegerText (digits ++ [Ascii.upperM, Ascii.upperB]) (n * (1024 * 1024))
  | hex {digits : List UInt8} (nonempty : digits ≠ [])
    (h : ∀ b ∈ digits, Ascii.isHexDigit b = true) :
    IntegerText (Ascii.zero :: Ascii.lowerX :: digits)
      (Nat.ofDigits 16 (digits.reverse.map Ascii.hexValue))
  | octal {digits : List UInt8} (nonempty : digits ≠ [])
    (h : ∀ b ∈ digits, Ascii.isOctalDigit b = true) :
    IntegerText (Ascii.zero :: Ascii.lowerO :: digits)
      (Nat.ofDigits 8 (digits.reverse.map Ascii.hexValue))

/-- Decimal digits on both sides of a point. -/
structure PointedText (text whole places : List UInt8) : Prop where
  text_eq : text = whole ++ Ascii.dot :: places
  whole_nonempty : whole ≠ []
  places_nonempty : places ≠ []
  whole_digit : ∀ b ∈ whole, Ascii.isDigit b = true
  places_digit : ∀ b ∈ places, Ascii.isDigit b = true

/-- The bits of the flags that occur in a run. -/
def Modifiers.runBits (run : List UInt8) : UInt8 :=
  (if Ascii.lowerI ∈ run then 1 else 0) ||| (if Ascii.lowerS ∈ run then 2 else 0)

/-- The flags behind a regular expression, in any order and any number. -/
structure Flags (run : List UInt8) (modifiers : Modifiers) : Prop where
  flag : ∀ b ∈ run, b = Ascii.lowerI ∨ b = Ascii.lowerS
  bits_eq : modifiers.bits = Modifiers.runBits run

/-- The text of a token, by its kind and its payload.  The end of the source
has no text. -/
inductive Spells (service : PatternService) : List UInt8 → TokenKind → TokenValue → Prop
  | keyword (k : Keyword) : Spells service k.bytes (.keyword k) .none
  | operator (op : Operator) : Spells service (Ascii.bytes op.spelling) (.operator op) .none
  | symbol (b : UInt8) : Spells service [b] (.symbol b) .none
  | naming (n : Naming) (text : List UInt8) : Spells service text (.naming n) (.text text)
  | textString (content : List UInt8) :
    Spells service (Ascii.quote :: (content ++ [Ascii.quote])) (.literal .textString)
      (.text content)
  | regex {run : List UInt8} {modifiers : Modifiers} (pattern : List UInt8)
    (h : Flags run modifiers) :
    Spells service (Ascii.slash :: (pattern ++ Ascii.slash :: run)) (.literal .regex)
      (.regex pattern modifiers)
  | integer {text : List UInt8} {n : Nat} {v : Int64} (h : IntegerText text n)
    (value_eq : v.toInt = n) : Spells service text (.literal .integer) (.integer v)
  | float {text whole places : List UInt8} (h : PointedText text whole places)
    (finite : (Binary64.ofPointed whole places).isFinite = true) :
    Spells service text (.literal .float) (.float (Binary64.ofPointed whole places))
  | hexString {text : List UInt8} {elements : List Pattern.Element}
    (h : service text = .ok elements) :
    Spells service text (.literal .hexString) (.hexPattern elements)

/-! ## Numbers -/

namespace Number

/-- The text of a number, by the form it is written in. -/
inductive FormText : Form → List UInt8 → Prop
  | plain {digits : List UInt8} (nonempty : digits ≠ [])
    (h : ∀ b ∈ digits, Ascii.isDigit b = true) : FormText (.decimal 1) digits
  | kilobytes {digits : List UInt8} (nonempty : digits ≠ [])
    (h : ∀ b ∈ digits, Ascii.isDigit b = true) :
    FormText (.decimal 1024) (digits ++ [Ascii.upperK, Ascii.upperB])
  | megabytes {digits : List UInt8} (nonempty : digits ≠ [])
    (h : ∀ b ∈ digits, Ascii.isDigit b = true) :
    FormText (.decimal (1024 * 1024)) (digits ++ [Ascii.upperM, Ascii.upperB])
  | float {text whole places : List UInt8} (h : PointedText text whole places) :
    FormText .float text
  | hex {digits : List UInt8} (nonempty : digits ≠ [])
    (h : ∀ b ∈ digits, Ascii.isHexDigit b = true) :
    FormText .hex (Ascii.zero :: Ascii.lowerX :: digits)
  | octal {digits : List UInt8} (nonempty : digits ≠ [])
    (h : ∀ b ∈ digits, Ascii.isOctalDigit b = true) :
    FormText .octal (Ascii.zero :: Ascii.lowerO :: digits)

theorem multiplier_eq_some {s : List UInt8} {m : Nat} (h : multiplier? s = some m) :
    ∃ rest, (s = Ascii.upperK :: Ascii.upperB :: rest ∧ m = 1024) ∨
      (s = Ascii.upperM :: Ascii.upperB :: rest ∧ m = 1024 * 1024) := by
  unfold multiplier? at h
  split at h
  · rename_i a b rest
    split at h
    · rename_i hb
      subst hb
      split at h
      · rename_i ha
        cases h
        exact ⟨rest, .inl ⟨by rw [ha], rfl⟩⟩
      · split at h
        · rename_i ha
          cases h
          exact ⟨rest, .inr ⟨by rw [ha], rfl⟩⟩
        · cases h
    · cases h
  · cases h

theorem formText_decimalCandidate {b : UInt8} {s : List UInt8} (hb : Ascii.isDigit b = true) :
    FormText (decimalCandidate (b :: s)).1 ((b :: s).take (decimalCandidate (b :: s)).2) := by
  obtain ⟨digits, rest, hs, hdigits, -, htake, -⟩ := Ascii.exists_run Ascii.isDigit (b :: s)
  have nonempty : digits ≠ [] := by
    rw [← htake]
    simp [hb]
  rw [hs] at htake ⊢
  unfold decimalCandidate
  simp only [Ascii.runLength, htake, List.drop_left]
  split
  · rename_i m hm
    obtain ⟨tail, ⟨rfl, rfl⟩ | ⟨rfl, rfl⟩⟩ := multiplier_eq_some hm
    · rw [List.take_length_add_append]
      exact .kilobytes nonempty hdigits
    · rw [List.take_length_add_append]
      exact .megabytes nonempty hdigits
  · rw [List.take_left]
    exact .plain nonempty hdigits

theorem formText_floatCandidate {s : List UInt8} (hpos : 0 < (floatCandidate s).2)
    (hs : ¬ Ascii.Stops Ascii.isDigit s) :
    FormText (floatCandidate s).1 (s.take (floatCandidate s).2) := by
  obtain ⟨whole, rest, rfl, hwhole, hrest, htake, -⟩ := Ascii.exists_run Ascii.isDigit s
  have nonempty : whole ≠ [] := by
    intro h
    subst h
    exact hs hrest
  unfold floatCandidate at hpos ⊢
  simp only [Ascii.runLength, htake, List.drop_left] at hpos ⊢
  cases rest with
  | nil => exact absurd hpos (Nat.lt_irrefl 0)
  | cons c tail =>
    obtain ⟨places, after, rfl, hplaces, -, htake', -⟩ := Ascii.exists_run Ascii.isDigit tail
    simp only [htake'] at hpos ⊢
    split at hpos
    · rename_i hc
      subst hc
      unfold markedLength at hpos ⊢
      split at hpos
      · exact absurd hpos (Nat.lt_irrefl 0)
      · rename_i hplaces_pos
        rw [if_pos rfl, if_neg hplaces_pos]
        have places_nonempty : places ≠ [] := by
          intro h
          rw [h] at hplaces_pos
          exact hplaces_pos rfl
        have text_eq : (whole ++ Ascii.dot :: (places ++ after)).take
            (whole.length + 1 + places.length) = whole ++ Ascii.dot :: places := by
          simp [Nat.add_assoc, List.take_length_add_append, Nat.add_comm 1]
        exact .float ⟨text_eq, nonempty, places_nonempty, hwhole, hplaces⟩
    · exact absurd hpos (Nat.lt_irrefl 0)

/-- A marked form that matches at all is its mark with a run of digits behind it. -/
theorem radixCandidate_text {form : Form} {letter : UInt8} {test : UInt8 → Bool} {s : List UInt8}
    (hpos : 0 < (radixCandidate form letter test s).2) :
    (radixCandidate form letter test s).1 = form ∧
      ∃ digits, digits ≠ [] ∧ (∀ b ∈ digits, test b = true) ∧
        s.take (radixCandidate form letter test s).2 = Ascii.zero :: letter :: digits := by
  unfold radixCandidate at hpos ⊢
  split at hpos
  · rename_i a b rest
    split at hpos
    · rename_i hmark
      obtain ⟨digits, after, rfl, hdigits, -, htake, -⟩ := Ascii.exists_run test rest
      simp only [Ascii.runLength, htake, markedLength] at hpos ⊢
      split at hpos
      · exact absurd hpos (Nat.lt_irrefl 0)
      · rename_i hlength
        rw [if_pos hmark, if_neg hlength]
        refine ⟨rfl, digits, ?_, hdigits, ?_⟩
        · intro h
          rw [h] at hlength
          exact hlength rfl
        · rw [hmark.1, hmark.2, Nat.add_comm, List.take_succ_cons, List.take_succ_cons,
            List.take_left]
    · exact absurd hpos (Nat.lt_irrefl 0)
  · exact absurd hpos (Nat.lt_irrefl 0)

theorem formText_longest {b : UInt8} {s : List UInt8} (hb : Ascii.isDigit b = true) :
    FormText (longest (b :: s)).1 ((b :: s).take (longest (b :: s)).2) := by
  have decimal := formText_decimalCandidate (s := s) hb
  have float (h : 0 < (floatCandidate (b :: s)).2) :=
    formText_floatCandidate h fun stops => by
      rw [Ascii.stops_cons_iff.1 stops] at hb
      cases hb
  have hex (h : 0 < (radixCandidate .hex Ascii.lowerX Ascii.isHexDigit (b :: s)).2) :
      FormText (radixCandidate .hex Ascii.lowerX Ascii.isHexDigit (b :: s)).1
        ((b :: s).take (radixCandidate .hex Ascii.lowerX Ascii.isHexDigit (b :: s)).2) := by
    obtain ⟨hform, digits, nonempty, hdigits, htext⟩ := radixCandidate_text h
    rw [hform, htext]
    exact .hex nonempty hdigits
  have octal (h : 0 < (radixCandidate .octal Ascii.lowerO Ascii.isOctalDigit (b :: s)).2) :
      FormText (radixCandidate .octal Ascii.lowerO Ascii.isOctalDigit (b :: s)).1
        ((b :: s).take (radixCandidate .octal Ascii.lowerO Ascii.isOctalDigit (b :: s)).2) := by
    obtain ⟨hform, digits, nonempty, hdigits, htext⟩ := radixCandidate_text h
    rw [hform, htext]
    exact .octal nonempty hdigits
  -- A form that wins is longer than the best before it and so not empty.
  have step (best c : Form × Nat) (hbest : FormText best.1 ((b :: s).take best.2))
      (hc : 0 < c.2 → FormText c.1 ((b :: s).take c.2)) :
      FormText (if best.2 < c.2 then c else best).1
        ((b :: s).take (if best.2 < c.2 then c else best).2) := by
    split
    · rename_i hlt
      exact hc (Nat.zero_lt_of_lt hlt)
    · exact hbest
  exact step _ _ (step _ _ (step _ _ decimal float) hex) octal

theorem integer_spells {text : List UInt8} {n : Nat} {literal : Literal} {value : TokenValue}
    (service : PatternService) (htext : IntegerText text n)
    (h : integer text n = .ok (literal, value)) :
    Spells service text (.literal literal) value := by
  unfold integer at h
  split at h
  · rename_i hbound
    cases h
    exact .integer htext (Int64.toInt_ofNat_of_lt hbound)
  · cases h

theorem evaluate_decimal_spells {digits suffix : List UInt8} {m : Nat} {literal : Literal}
    {value : TokenValue} (service : PatternService)
    (hdigits : ∀ b ∈ digits, Ascii.isDigit b = true) (hsuffix : Ascii.Stops Ascii.isDigit suffix)
    (htext : IntegerText (digits ++ suffix) (Ascii.numeral 10 digits * m)) (hm : 0 < m)
    (h : evaluate (.decimal m) (digits ++ suffix) = .ok (literal, value)) :
    Spells service (digits ++ suffix) (.literal literal) value := by
  unfold evaluate at h
  simp only [Ascii.takeWhile_append_of_stops hdigits hsuffix] at h
  split at h
  · cases h
  · split at h
    · cases h
    · rename_i hfits
      cases h
      have inRange : Ascii.numeral 10 digits * m ≤ bound - 1 :=
        (Nat.le_div_iff_mul_le hm).1 (Nat.le_of_not_lt hfits)
      refine .integer htext (Int64.toInt_ofNat_of_lt ?_)
      have : bound = 2 ^ 63 := rfl
      omega

theorem evaluate_spells {form : Form} {text : List UInt8} {literal : Literal}
    {value : TokenValue} (service : PatternService) (hform : FormText form text)
    (h : evaluate form text = .ok (literal, value)) :
    Spells service text (.literal literal) value := by
  cases hform with
  | @plain digits nonempty hdigits =>
    rw [← List.append_nil text] at h ⊢
    refine evaluate_decimal_spells service hdigits (Ascii.stops_nil _) ?_ Nat.one_pos h
    rw [List.append_nil, Nat.mul_one]
    exact .plain ⟨nonempty, hdigits, (Ascii.numeral_eq_ofDigits 10 _).symm⟩
  | kilobytes nonempty hdigits =>
    refine evaluate_decimal_spells service hdigits (Ascii.stops_cons_iff.2 (by decide)) ?_
      (by decide) h
    exact .kilobytes ⟨nonempty, hdigits, (Ascii.numeral_eq_ofDigits 10 _).symm⟩
  | megabytes nonempty hdigits =>
    refine evaluate_decimal_spells service hdigits (Ascii.stops_cons_iff.2 (by decide)) ?_
      (by decide) h
    exact .megabytes ⟨nonempty, hdigits, (Ascii.numeral_eq_ofDigits 10 _).symm⟩
  | @float _ whole places hpointed =>
    have stops : Ascii.Stops Ascii.isDigit (Ascii.dot :: places) :=
      Ascii.stops_cons_iff.2 (by decide)
    unfold evaluate at h
    simp only [hpointed.text_eq, Ascii.takeWhile_append_of_stops hpointed.whole_digit stops,
      Ascii.dropWhile_append_of_stops hpointed.whole_digit stops, List.drop_succ_cons,
      List.drop_zero] at h
    split at h
    · rename_i finite
      cases h
      exact .float hpointed finite
    · cases h
  | hex nonempty hdigits =>
    refine integer_spells service (.hex nonempty hdigits) ?_
    rw [← Ascii.numeral_eq_ofDigits]
    exact h
  | octal nonempty hdigits =>
    refine integer_spells service (.octal nonempty hdigits) ?_
    rw [← Ascii.numeral_eq_ofDigits]
    exact h

end Number

/-! ## Lexemes -/

/-- The byte that opens a literal and closes it. -/
def Quoted.delimiter : Quoted → UInt8
  | .string => Ascii.quote
  | .regex => Ascii.slash

namespace Lexeme

/-- The text that a lexeme takes.  A byte pattern is read by the service, and
what is refused may be any text. -/
def Takes (service : PatternService) (text : List UInt8) : Lexeme → Prop
  | .blank => Ignored text
  | .lineComment => Ignored text
  | .commentOpening => text = [Ascii.slash, Ascii.star]
  | .literalOpening form => text = [form.delimiter]
  | .hexPattern => True
  | .token kind value => Spells service text kind value
  | .refused _ => True

theorem ofWord_takes (service : PatternService) (word : List UInt8) :
    (ofWord word).Takes service word := by
  unfold ofWord
  split
  · rename_i k hk
    have spelled : k.bytes = word := by simpa using List.find?_some hk
    rw [← spelled]
    exact .keyword k
  · split
    · exact trivial
    · split
      · exact .naming _ word
      · exact .naming _ word

theorem ofSigil_takes (service : PatternService) (sigil : UInt8) (rest : List UInt8) :
    (ofSigil sigil rest).1.Takes service ((sigil :: rest).take (ofSigil sigil rest).2) := by
  obtain ⟨name, after, rfl, -, -, htake, -⟩ := Ascii.exists_run Ascii.isWordByte rest
  unfold ofSigil
  simp only [htake]
  split
  · exact trivial
  · split
    · rename_i starred
      obtain ⟨-, hstar⟩ := Bool.and_eq_true_iff.1 starred
      rw [List.getElem?_append_right (Nat.le_refl _), Nat.sub_self, beq_iff_eq] at hstar
      obtain ⟨tail, rfl⟩ : ∃ tail, after = Ascii.star :: tail := by
        cases after with
        | nil => cases hstar
        | cons c tail => exact ⟨tail, by rw [Option.some.inj hstar]⟩
      have text : (sigil :: (name ++ Ascii.star :: tail)).take (name.length + 1 + 1) =
          sigil :: name ++ [Ascii.star] := by
        rw [List.take_succ_cons, List.take_length_add_append]
        rfl
      rw [text]
      exact .naming _ _
    · rw [List.take_succ_cons, List.take_left, List.append_nil]
      exact .naming _ _

theorem ofPunctuation_takes (service : PatternService) (b : UInt8) (rest : List UInt8) :
    (ofPunctuation b rest).1.Takes service ((b :: rest).take (ofPunctuation b rest).2) := by
  unfold ofPunctuation
  split
  · rename_i op hop
    obtain ⟨c, hc, hop⟩ := Option.bind_eq_some_iff.1 hop
    obtain ⟨tail, rfl⟩ := List.head?_eq_some_iff.1 hc
    have spelled : Ascii.bytes op.spelling = [b, c] := by simpa using List.find?_some hop
    show Spells service [b, c] (.operator op) .none
    rw [← spelled]
    exact .operator op
  · exact .symbol b

theorem ofSlash_takes (service : PatternService) (rest : List UInt8) :
    (ofSlash rest).1.Takes service ((Ascii.slash :: rest).take (ofSlash rest).2) := by
  unfold ofSlash
  split
  · rename_i hstar
    obtain ⟨tail, rfl⟩ := List.head?_eq_some_iff.1 hstar
    rfl
  · split
    · rename_i hslash
      obtain ⟨tail, rfl⟩ := List.head?_eq_some_iff.1 hslash
      rw [Nat.add_comm, List.take_succ_cons, Ascii.take_runLength,
        List.takeWhile_cons_of_pos (by decide)]
      refine .line ?_
      intro hmem
      simpa using List.mem_takeWhile_imp hmem
    · rfl

theorem ofBrace_takes (service : PatternService) (rest : List UInt8) :
    (ofBrace rest).1.Takes service ((Ascii.openBrace :: rest).take (ofBrace rest).2) := by
  unfold ofBrace
  split
  · exact trivial
  · exact .symbol _

theorem ofNumber_takes (service : PatternService) {b : UInt8} (rest : List UInt8)
    (hb : Ascii.isDigit b = true) :
    (ofNumber (b :: rest)).1.Takes service ((b :: rest).take (ofNumber (b :: rest)).2) := by
  have form := Number.formText_longest (s := rest) hb
  unfold ofNumber
  split
  · rename_i literal value n hscan
    have hevaluate := congrArg Prod.fst hscan
    have hlength : (Number.longest (b :: rest)).2 = n := congrArg Prod.snd hscan
    rw [hlength] at form
    show Spells service ((b :: rest).take n) (.literal literal) value
    refine Number.evaluate_spells service form ?_
    rw [← hlength]
    exact hevaluate
  · exact trivial

theorem startingWith_takes (service : PatternService) {b : UInt8} {rest : List UInt8}
    {lexeme : Lexeme} {n : Nat} (h : startingWith b rest = (lexeme, n)) :
    lexeme.Takes service ((b :: rest).take n) := by
  have reader {r : Lexeme × Nat} (hr : r = (lexeme, n))
      (takes : r.1.Takes service ((b :: rest).take r.2)) :
      lexeme.Takes service ((b :: rest).take n) := by
    rw [hr] at takes
    exact takes
  rw [startingWith] at h
  by_cases hblank : Ascii.isBlank b = true
  · rw [if_pos hblank] at h
    refine reader h ?_
    show Ignored ((b :: rest).take (Ascii.runLength Ascii.isBlank (b :: rest)))
    rw [Ascii.take_runLength]
    refine .blank ?_ fun c hc => List.mem_takeWhile_imp hc
    rw [List.takeWhile_cons_of_pos hblank]
    exact List.cons_ne_nil _ _
  rw [if_neg hblank] at h
  by_cases hslash : b = Ascii.slash
  · rw [if_pos hslash] at h
    subst hslash
    exact reader h (ofSlash_takes service rest)
  rw [if_neg hslash] at h
  by_cases hquote : b = Ascii.quote
  · rw [if_pos hquote] at h
    subst hquote
    exact reader h rfl
  rw [if_neg hquote] at h
  by_cases hbrace : b = Ascii.openBrace
  · rw [if_pos hbrace] at h
    subst hbrace
    exact reader h (ofBrace_takes service rest)
  rw [if_neg hbrace] at h
  by_cases hdigit : Ascii.isDigit b = true
  · rw [if_pos hdigit] at h
    exact reader h (ofNumber_takes service rest hdigit)
  rw [if_neg hdigit] at h
  by_cases hword : Ascii.isWordStart b = true
  · rw [if_pos hword] at h
    refine reader h ?_
    show (ofWord _).Takes service
      ((b :: rest).take (Ascii.runLength Ascii.isWordByte (b :: rest)))
    rw [Ascii.take_runLength]
    exact ofWord_takes service _
  rw [if_neg hword] at h
  by_cases hsigil : b = Ascii.dollar ∨ b = Ascii.hash ∨ b = Ascii.atSign
  · rw [if_pos hsigil] at h
    exact reader h (ofSigil_takes service b rest)
  rw [if_neg hsigil] at h
  by_cases hbang : b = Ascii.bang ∧ rest.head? ≠ some Ascii.equals
  · rw [if_pos hbang] at h
    exact reader h (ofSigil_takes service b rest)
  rw [if_neg hbang] at h
  by_cases hprintable : Ascii.isPrintable b = true
  · rw [if_pos hprintable] at h
    exact reader h (ofPunctuation_takes service b rest)
  rw [if_neg hprintable] at h
  exact reader h trivial

theorem first_takes (service : PatternService) {s : List UInt8} {lexeme : Lexeme} {n : Nat}
    (h : first? s = some (lexeme, n)) : lexeme.Takes service (s.take n) := by
  cases s with
  | nil => cases h
  | cons b rest => exact startingWith_takes service (Option.some.inj h)

end Lexeme

/-! ## Pieces of literals -/

namespace Modifiers

theorem ofByte_eq_some {b : UInt8} {flag : Modifiers} (h : ofByte? b = some flag) :
    (b = Ascii.lowerI ∧ flag = caseInsensitive) ∨
      (b = Ascii.lowerS ∧ flag = dotMatchesNewline) := by
  unfold ofByte? at h
  split at h
  · rename_i hb
    cases h
    exact .inl ⟨hb, rfl⟩
  · split at h
    · rename_i hb
      cases h
      exact .inr ⟨hb, rfl⟩
    · cases h

theorem runBits_cons {b : UInt8} {flag : Modifiers} (h : ofByte? b = some flag)
    (run : List UInt8) : runBits (b :: run) = flag.bits ||| runBits run := by
  have apart : Ascii.lowerI ≠ Ascii.lowerS := by decide
  obtain ⟨rfl, rfl⟩ | ⟨rfl, rfl⟩ := ofByte_eq_some h
  · have hs : Ascii.lowerS ∈ Ascii.lowerI :: run ↔ Ascii.lowerS ∈ run := by
      rw [List.mem_cons, or_iff_right apart.symm]
    rw [runBits, runBits, caseInsensitive, if_pos List.mem_cons_self, if_congr hs rfl rfl]
    by_cases hi : Ascii.lowerI ∈ run
    · rw [if_pos hi, ← UInt8.or_assoc 1 1, UInt8.or_self]
    · rw [if_neg hi, UInt8.zero_or]
  · have hi : Ascii.lowerI ∈ Ascii.lowerS :: run ↔ Ascii.lowerI ∈ run := by
      rw [List.mem_cons, or_iff_right apart]
    rw [runBits, runBits, dotMatchesNewline, if_pos List.mem_cons_self, if_congr hi rfl rfl]
    by_cases hs : Ascii.lowerS ∈ run
    · rw [if_pos hs, UInt8.or_comm _ 2, ← UInt8.or_assoc, UInt8.or_self]
    · rw [if_neg hs, UInt8.or_zero, UInt8.or_comm]

/-- The union of the flags is gathered from the left, onto those before. -/
theorem flags_of_foldlM {run : List UInt8} {before modifiers : Modifiers}
    (h : run.foldlM (fun m b =>
      match ofByte? b with
      | some flag => .ok (m.union flag)
      | none => .error b) before = (.ok modifiers : Except UInt8 Modifiers)) :
    (∀ b ∈ run, b = Ascii.lowerI ∨ b = Ascii.lowerS) ∧
      modifiers.bits = before.bits ||| runBits run := by
  induction run generalizing before with
  | nil =>
    cases h
    exact ⟨by simp, by simp [runBits]⟩
  | cons b run ih =>
    rw [List.foldlM_cons] at h
    cases hflag : ofByte? b with
    | none =>
      rw [hflag] at h
      cases h
    | some flag =>
      rw [hflag] at h
      obtain ⟨hrun, hbits⟩ := ih h
      constructor
      · intro c hc
        rcases List.mem_cons.1 hc with rfl | hc
        · exact (ofByte_eq_some hflag).imp And.left And.left
        · exact hrun c hc
      · rw [hbits, runBits_cons hflag, ← UInt8.or_assoc]
        rfl

theorem flags_of_ofRun {run : List UInt8} {modifiers : Modifiers}
    (h : ofRun run = .ok modifiers) : Flags run modifiers := by
  obtain ⟨hflags, hbits⟩ := flags_of_foldlM h
  refine ⟨hflags, ?_⟩
  rw [hbits, empty, UInt8.zero_or]

end Modifiers

namespace Piece

/-- The piece is the closing delimiter, with right modifiers or with wrong ones. -/
def isDelimiter : Piece → Bool
  | .closing _ | .badModifier _ => true
  | _ => false

theorem isDelimiter_stringEscape (s : List UInt8) : (stringEscape s).1.isDelimiter = false := by
  unfold stringEscape
  split
  · rfl
  · split
    · rfl
    · split
      · rfl
      · split <;> rfl

theorem isDelimiter_regexEscape (s : List UInt8) : (regexEscape s).1.isDelimiter = false := by
  unfold regexEscape
  split
  · rfl
  · split <;> rfl

variable {piece : Piece} {s : List UInt8} {n : Nat}

/-- No escape closes a string. -/
theorem not_delimiter_of_stringEscape (h : stringEscape s = (piece, n)) :
    ¬ piece.isDelimiter = true := by
  have escape := isDelimiter_stringEscape s
  rw [h] at escape
  exact Bool.eq_false_iff.1 escape

/-- No escape closes a regular expression. -/
theorem not_delimiter_of_regexEscape (h : regexEscape s = (piece, n)) :
    ¬ piece.isDelimiter = true := by
  have escape := isDelimiter_regexEscape s
  rw [h] at escape
  exact Bool.eq_false_iff.1 escape

theorem ofString_closing {s : List UInt8} {modifiers : Modifiers} {n : Nat}
    (h : ofString s = (.closing modifiers, n)) : s.take n = [Ascii.quote] := by
  unfold ofString at h
  split at h
  · cases h
  · split at h
    · rename_i hb
      subst hb
      cases h
      rfl
    · split at h
      · cases h
      · split at h
        · exact absurd rfl (not_delimiter_of_stringEscape h)
        · cases h

theorem ofRegex_closing {s : List UInt8} {modifiers : Modifiers} {n : Nat}
    (h : ofRegex s = (.closing modifiers, n)) :
    ∃ run, s.take n = Ascii.slash :: run ∧ Flags run modifiers := by
  unfold ofRegex at h
  split at h
  · cases h
  · rename_i b rest
    split at h
    · rename_i hb
      subst hb
      unfold regexClosing at h
      simp only at h
      split at h
      · rename_i modifiers hrun
        cases h
        refine ⟨rest.takeWhile Ascii.isWordByte, ?_, Modifiers.flags_of_ofRun hrun⟩
        rw [List.take_succ_cons]
        exact congrArg (Ascii.slash :: ·) (Ascii.take_runLength Ascii.isWordByte rest)
      · cases h
    · split at h
      · cases h
      · split at h
        · exact absurd rfl (not_delimiter_of_regexEscape h)
        · cases h

theorem spells_of_closing (service : PatternService) {form : Quoted} {s : List UInt8}
    {modifiers : Modifiers} {n : Nat} (content : List UInt8)
    (h : first form s = (.closing modifiers, n)) :
    Spells service (form.delimiter :: (content ++ s.take n))
      (.literal (finish form content modifiers).1) (finish form content modifiers).2 := by
  cases form with
  | string =>
    rw [ofString_closing h]
    exact .textString content
  | regex =>
    obtain ⟨run, htake, hflags⟩ := ofRegex_closing h
    rw [htake]
    exact .regex content hflags

end Piece
end RuleLex
