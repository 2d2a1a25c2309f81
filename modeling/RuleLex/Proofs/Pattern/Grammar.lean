/-
The grammar of byte patterns.

The rules relate a text to what it stands for and to the text behind it, because
one of them looks ahead: a line comment goes up to the end of its line or the
end of the whole text.  `Sequence s es r` is the rule for a sequence: the text
from `s` up to `r` spells the elements `es` with white space and comments in
between.

The leaves of the grammar are read by functions without memory.  Each is shown
here to read its rule and nothing else; the rules that nest are read by a loop,
which has a module of its own.
-/
import RuleLex.Pattern.Reader
import RuleLex.Proofs.Comment
import RuleLex.Proofs.Text

namespace RuleLex
namespace Pattern

/-! ## Rules -/

/-- White space and comments from one text up to another. -/
inductive Trivia : List UInt8 → List UInt8 → Prop
  | done {s : List UInt8} : Trivia s s
  | blank {b : UInt8} {s r : List UInt8} (h : Ascii.isBlank b = true) (rest : Trivia s r) :
    Trivia (b :: s) r
  | line {body s r : List UInt8} (h : Ascii.newline ∉ body)
    (ends : s = [] ∨ s.head? = some Ascii.newline) (rest : Trivia s r) :
    Trivia (Ascii.slash :: Ascii.slash :: (body ++ s)) r
  | block {body s r : List UInt8} (h : Comment.IsClosed body) (rest : Trivia s r) :
    Trivia (Ascii.slash :: Ascii.star :: (body ++ s)) r

/-- The byte that spells a nibble: a digit of either case, or a question mark. -/
def NibbleText (b : UInt8) : Nibble → Prop
  | .literal v =>
    (Ascii.bytes "0123456789ABCDEF")[v.toNat]? = some b ∨
      (Ascii.bytes "0123456789abcdef")[v.toNat]? = some b
  | .wildcard => b = Ascii.question

/-- White space alone. -/
def Blank (s : List UInt8) : Prop := ∀ b ∈ s, Ascii.isBlank b = true

/-- A bound of a jump, which may be missing. -/
def Bound (digits : List UInt8) : Option UInt32 → Prop
  | none => digits = []
  | some n => Ascii.Numeral digits n.toNat

/-- A jump in brackets: one number, or two bounds of which either may be
missing and the second is not below the first. -/
inductive JumpText : List UInt8 → Element → Prop
  | exact {before digits after : List UInt8} {n : UInt32} (hbefore : Blank before)
    (hdigits : Ascii.Numeral digits n.toNat) (hafter : Blank after) :
    JumpText (Ascii.openBracket :: (before ++ digits ++ after ++ [Ascii.closeBracket]))
      (.jump n (some n))
  | range {before digits after before' digits' after' : List UInt8} {low high : Option UInt32}
    (hbefore : Blank before) (hlow : Bound digits low) (hafter : Blank after)
    (hbefore' : Blank before') (hhigh : Bound digits' high) (hafter' : Blank after')
    (ordered : ∀ m, high = some m → low.getD 0 ≤ m) :
    JumpText
      (Ascii.openBracket ::
        (before ++ digits ++ after ++ Ascii.minus ::
          (before' ++ digits' ++ after' ++ [Ascii.closeBracket])))
      (.jump (low.getD 0) high)

mutual

/-- The text of a sequence, up to where its last white space ends. -/
inductive Sequence : List UInt8 → List Element → List UInt8 → Prop
  | nil {s r : List UInt8} (trivia : Trivia s r) : Sequence s [] r
  | cons {s t u r : List UInt8} {e : Element} {es : List Element} (trivia : Trivia s t)
    (first : ElementText t e u) (rest : Sequence u es r) : Sequence s (e :: es) r

/-- The text of one element. -/
inductive ElementText : List UInt8 → Element → List UInt8 → Prop
  | byte {b c : UInt8} {r : List UInt8} {high low : Nibble} (hhigh : NibbleText b high)
    (hlow : NibbleText c low) : ElementText (b :: c :: r) (.byte high low) r
  | jump {text r : List UInt8} {e : Element} (h : JumpText text e) : ElementText (text ++ r) e r
  | alternation {s r : List UInt8} {alternatives : List (List Element)}
    (h : Alternatives s alternatives r) :
    ElementText (Ascii.openParen :: s) (.alternation alternatives) r

/-- The text of the alternatives of an alternation with its closing parenthesis. -/
inductive Alternatives : List UInt8 → List (List Element) → List UInt8 → Prop
  | last {s r : List UInt8} {es : List Element} (first : Sequence s es (Ascii.closeParen :: r))
    (nonempty : es ≠ []) : Alternatives s [es] r
  | more {s t r : List UInt8} {es : List Element} {alternatives : List (List Element)}
    (first : Sequence s es (Ascii.bar :: t)) (nonempty : es ≠ [])
    (rest : Alternatives t alternatives r) : Alternatives s (es :: alternatives) r

end

/-! ### Depth of nesting -/

mutual

/-- How many alternations of an element lie within each other. -/
def Element.nesting : Element → Nat
  | .byte _ _ => 0
  | .alternation alternatives => alternativesNesting alternatives + 1
  | .jump _ _ => 0

/-- The deepest nesting in a sequence. -/
def nesting : List Element → Nat
  | [] => 0
  | e :: es => max e.nesting (nesting es)

/-- The deepest nesting in the alternatives of an alternation. -/
def alternativesNesting : List (List Element) → Nat
  | [] => 0
  | es :: rest => max (nesting es) (alternativesNesting rest)

end

theorem nesting_append (es fs : List Element) :
    nesting (es ++ fs) = max (nesting es) (nesting fs) := by
  induction es with
  | nil => simp [nesting]
  | cons e es ih => rw [List.cons_append, nesting, nesting, ih, Nat.max_assoc]

theorem alternativesNesting_append (xs ys : List (List Element)) :
    alternativesNesting (xs ++ ys) = max (alternativesNesting xs) (alternativesNesting ys) := by
  induction xs with
  | nil => simp [alternativesNesting]
  | cons x xs ih =>
    rw [List.cons_append, alternativesNesting, alternativesNesting, ih, Nat.max_assoc]

theorem alternativesNesting_reverse (xs : List (List Element)) :
    alternativesNesting xs.reverse = alternativesNesting xs := by
  induction xs with
  | nil => rfl
  | cons x xs ih =>
    rw [List.reverse_cons, alternativesNesting_append, ih, alternativesNesting,
      alternativesNesting, alternativesNesting, Nat.max_zero, Nat.max_comm]

theorem JumpText.nesting_eq {text : List UInt8} {e : Element} (h : JumpText text e) :
    e.nesting = 0 := by
  cases h <;> rfl

/-! ## White space and comments -/

theorem skipTrivia_nil : skipTrivia [] = .ok [] := by
  rw [skipTrivia.eq_def]

theorem skipTrivia_blank {b : UInt8} {s : List UInt8} (h : Ascii.isBlank b = true) :
    skipTrivia (b :: s) = skipTrivia s := by
  rw [skipTrivia.eq_def]
  exact if_pos h

theorem skipTrivia_cons {b : UInt8} {s : List UInt8} (hblank : Ascii.isBlank b = false)
    (hslash : b ≠ Ascii.slash) : skipTrivia (b :: s) = .ok (b :: s) := by
  rw [skipTrivia.eq_def]
  simp [hblank, hslash]

theorem skipTrivia_line (s : List UInt8) :
    skipTrivia (Ascii.slash :: Ascii.slash :: s) =
      skipTrivia (s.dropWhile (· != Ascii.newline)) := by
  rw [skipTrivia, if_neg (by decide), if_pos rfl, if_pos rfl]

theorem skipTrivia_block {s r : List UInt8} (h : afterComment? s = some r) :
    skipTrivia (Ascii.slash :: Ascii.star :: s) = skipTrivia r := by
  rw [skipTrivia, if_neg (by decide), if_pos rfl]
  have apart : ¬ Ascii.star = Ascii.slash := by decide
  simp only [apart, if_false, if_true]
  split
  · rename_i tail htail
    rw [htail] at h
    cases h
    rfl
  · rename_i hnone
    rw [hnone] at h
    cases h

theorem afterComment_append {body : List UInt8} (h : Comment.IsClosed body) (s : List UInt8) :
    afterComment? (body ++ s) = some s := by
  rw [afterComment?, Comment.closingLength_append h, Option.map_some, List.drop_left]

theorem exists_of_afterComment {s r : List UInt8} (h : afterComment? s = some r) :
    ∃ body, Comment.IsClosed body ∧ s = body ++ r := by
  obtain ⟨n, hn, rfl⟩ := Option.map_eq_some_iff.1 h
  exact ⟨s.take n, Comment.isClosed_of_closingLength hn, (List.take_append_drop n s).symm⟩

/-- A line comment goes up to the end of its line. -/
theorem trivia_line {inner r : List UInt8}
    (rest : Trivia (inner.dropWhile (· != Ascii.newline)) r) :
    Trivia (Ascii.slash :: Ascii.slash :: inner) r := by
  obtain ⟨body, after, rfl, hbody, hafter, -, hdrop⟩ :=
    Ascii.exists_run (· != Ascii.newline) inner
  rw [hdrop] at rest
  refine .line ?_ ?_ rest
  · intro hmem
    simpa using hbody _ hmem
  · cases after with
    | nil => exact .inl rfl
    | cons b after => exact .inr (by simpa using Ascii.stops_cons_iff.1 hafter)

theorem trivia_of_skipTrivia {s r : List UInt8} (h : skipTrivia s = .ok r) : Trivia s r := by
  fun_induction skipTrivia s with
  | case1 => cases h; exact .done
  | case2 b s hb ih => exact .blank hb (ih h)
  | case3 => cases h; exact .done
  | case4 inner _ ih => exact trivia_line (ih h)
  | case5 inner tail ht _ _ ih =>
    obtain ⟨body, hbody, rfl⟩ := exists_of_afterComment ht
    exact .block hbody (ih h)
  | case6 => cases h
  | case7 => cases h; exact .done
  | case8 => cases h; exact .done

/-- White space and comments end in an error only at a comment that never closes. -/
theorem unclosed_of_skipTrivia {s p : List UInt8} (h : skipTrivia s = .error p) :
    Trivia s p ∧ ∃ inner, p = Ascii.slash :: Ascii.star :: inner ∧ afterComment? inner = none := by
  fun_induction skipTrivia s with
  | case1 => cases h
  | case2 b s hb ih =>
    obtain ⟨skips, unclosed⟩ := ih h
    exact ⟨.blank hb skips, unclosed⟩
  | case3 => cases h
  | case4 inner _ ih =>
    obtain ⟨skips, unclosed⟩ := ih h
    exact ⟨trivia_line skips, unclosed⟩
  | case5 inner tail ht _ _ ih =>
    obtain ⟨body, hbody, rfl⟩ := exists_of_afterComment ht
    obtain ⟨skips, unclosed⟩ := ih h
    exact ⟨.block hbody skips, unclosed⟩
  | case6 inner hnone =>
    cases h
    exact ⟨.done, inner, rfl, hnone⟩
  | case7 => cases h
  | case8 => cases h

/-- The text after white space and comments does not go on with either. -/
theorem stops_of_skipTrivia {s r : List UInt8} {b : UInt8} (h : skipTrivia s = .ok (b :: r)) :
    Ascii.isBlank b = false ∧
      (b = Ascii.slash → r.head? ≠ some Ascii.slash ∧ r.head? ≠ some Ascii.star) := by
  fun_induction skipTrivia s with
  | case1 => cases h
  | case2 _ _ _ ih => exact ih h
  | case3 =>
    cases h
    exact ⟨rfl, fun _ => ⟨by simp, by simp⟩⟩
  | case4 _ _ ih => exact ih h
  | case5 _ _ _ _ _ ih => exact ih h
  | case6 => cases h
  | case7 c inner hslash hstar =>
    cases h
    exact ⟨rfl, fun _ => ⟨by simpa using hslash, by simpa using hstar⟩⟩
  | case8 b rest hblank hslash =>
    cases h
    exact ⟨by simpa using hblank, fun e => absurd e hslash⟩

theorem skipTrivia_congr {s r : List UInt8} (h : Trivia s r) : skipTrivia s = skipTrivia r := by
  induction h with
  | done => rfl
  | blank hb _ ih => rw [skipTrivia_blank hb, ih]
  | @line body s r hbody ends _ ih =>
    have inside : ∀ b ∈ body, (b != Ascii.newline) = true := by
      intro b hb
      have : b ≠ Ascii.newline := fun e => hbody (e ▸ hb)
      simpa using this
    have stops : Ascii.Stops (· != Ascii.newline) s := by
      intro b hb
      rcases ends with rfl | hs
      · cases hb
      · rw [hs] at hb
        cases hb
        rfl
    rw [skipTrivia_line, Ascii.dropWhile_append_of_stops inside stops, ih]
  | block hbody _ ih => rw [skipTrivia_block (afterComment_append hbody _), ih]

/-! ## Nibbles -/

instance (b : UInt8) (n : Nibble) : Decidable (NibbleText b n) :=
  match n with
  | .literal _ => inferInstanceAs (Decidable (_ ∨ _))
  | .wildcard => inferInstanceAs (Decidable (_ = _))

theorem nibbleText_of_ofByte {b : UInt8} {n : Nibble} (h : Nibble.ofByte? b = some n) :
    NibbleText b n := by
  have all : ∀ v : BitVec 8, (Nibble.ofByte? ⟨v⟩).all (NibbleText ⟨v⟩ ·) = true := by
    decide +kernel
  have := all b.toBitVec
  rw [show (⟨b.toBitVec⟩ : UInt8) = b from rfl, h] at this
  simpa using this

theorem ofByte_of_nibbleText {b : UInt8} {n : Nibble} (h : NibbleText b n) :
    Nibble.ofByte? b = some n := by
  cases n with
  | wildcard =>
    rw [show b = Ascii.question from h]
    rfl
  | literal v =>
    have upper : ∀ i : Fin 16, (Ascii.bytes "0123456789ABCDEF")[i.1]?.bind Nibble.ofByte? =
        some (.literal (UInt8.ofNat i.1)) := by decide
    have lower : ∀ i : Fin 16, (Ascii.bytes "0123456789abcdef")[i.1]?.bind Nibble.ofByte? =
        some (.literal (UInt8.ofNat i.1)) := by decide
    have bound {text : List UInt8} (hlen : text.length = 16) (hget : text[v.toNat]? = some b) :
        v.toNat < 16 := by
      obtain ⟨hlt, -⟩ := List.getElem?_eq_some_iff.1 hget
      omega
    rcases h with h | h
    · have := upper ⟨v.toNat, bound (by decide) h⟩
      simpa [h] using this
    · have := lower ⟨v.toNat, bound (by decide) h⟩
      simpa [h] using this


/-! ## Jumps -/

theorem isDigit_of_isBlank {b : UInt8} (h : Ascii.isBlank b = true) :
    Ascii.isDigit b = false := by
  simp only [Ascii.isBlank, Bool.or_eq_true, beq_iff_eq] at h
  rcases h with ((rfl | rfl) | rfl) | rfl <;> rfl

theorem blank_nil : Blank [] := by
  intro b hb
  cases hb

theorem exists_blank (s : List UInt8) :
    ∃ w, Blank w ∧ s = w ++ skipBlank s ∧ Ascii.Stops Ascii.isBlank (skipBlank s) := by
  obtain ⟨w, r, hs, hw, hr, -, hdrop⟩ := Ascii.exists_run Ascii.isBlank s
  rw [skipBlank, hdrop]
  exact ⟨w, hw, hs, hr⟩

theorem skipBlank_append {w s : List UInt8} (h : Blank w) : skipBlank (w ++ s) = skipBlank s :=
  List.dropWhile_append_of_pos h

theorem skipBlank_of_stops {s : List UInt8} (h : Ascii.Stops Ascii.isBlank s) :
    skipBlank s = s :=
  Ascii.dropWhile_of_stops h

theorem bound_of_readBound {s r : List UInt8} {bound : Option UInt32}
    (h : readBound s = some (bound, r)) :
    ∃ digits, s = digits ++ r ∧ Bound digits bound := by
  obtain ⟨digits, rest, hs, hdigits, -, htake, hdrop⟩ := Ascii.exists_run Ascii.isDigit s
  unfold readBound at h
  simp only [htake, hdrop] at h
  split at h
  · rename_i hempty
    cases h
    exact ⟨digits, hs, hempty⟩
  · rename_i hnonempty
    split at h
    · rename_i hfits
      cases h
      refine ⟨digits, hs, hnonempty, hdigits, ?_⟩
      rw [← Ascii.numeral_eq_ofDigits, Nat.toUInt32, UInt32.toNat_ofNat_of_lt' hfits]
    · cases h

theorem readBound_append {digits r : List UInt8} {bound : Option UInt32} (h : Bound digits bound)
    (hr : Ascii.Stops Ascii.isDigit r) : readBound (digits ++ r) = some (bound, r) := by
  cases bound with
  | none =>
    rw [show digits = [] from h]
    rw [List.nil_append, readBound, Ascii.takeWhile_of_stops hr, Ascii.dropWhile_of_stops hr]
    rfl
  | some n =>
    obtain ⟨nonempty, hdigits, hvalue⟩ := h
    rw [← Ascii.numeral_eq_ofDigits] at hvalue
    unfold readBound
    simp only [Ascii.takeWhile_append_of_stops hdigits hr,
      Ascii.dropWhile_append_of_stops hdigits hr, if_neg nonempty, hvalue]
    rw [if_pos n.toNat_lt, Nat.toUInt32, UInt32.ofNat_toNat]

theorem exists_of_closeBracket {s r : List UInt8} (h : closeBracket s = .ok r) :
    ∃ w, Blank w ∧ s = w ++ Ascii.closeBracket :: r := by
  obtain ⟨w, hw, hs, -⟩ := exists_blank s
  unfold closeBracket at h
  split at h
  · rename_i b rest hskip
    split at h
    · rename_i hb
      cases h
      rw [hskip, hb] at hs
      exact ⟨w, hw, hs⟩
    · cases h
  · cases h

theorem closeBracket_append {w r : List UInt8} (h : Blank w) :
    closeBracket (w ++ Ascii.closeBracket :: r) = .ok r := by
  have stops : Ascii.Stops Ascii.isBlank (Ascii.closeBracket :: r) :=
    Ascii.stops_cons_iff.2 (by decide)
  rw [closeBracket, skipBlank_append h, skipBlank_of_stops stops]
  rfl

theorem jumpText_of_readJump {s r : List UInt8} {e : Element} (h : readJump s = .ok (e, r)) :
    ∃ text, Ascii.openBracket :: s = text ++ r ∧ JumpText text e := by
  obtain ⟨before, hbefore, hs, -⟩ := exists_blank s
  unfold readJump at h
  split at h
  · cases h
  · rename_i low afterLow hlow
    obtain ⟨digits, hdigits, hbound⟩ := bound_of_readBound hlow
    obtain ⟨after, hafter, hnext, -⟩ := exists_blank afterLow
    simp only at h
    split at h
    · rename_i hminus
      obtain ⟨tail, htail⟩ := List.head?_eq_some_iff.1 hminus
      rw [htail, List.tail_cons] at h
      obtain ⟨before', hbefore', hs', -⟩ := exists_blank tail
      split at h
      · cases h
      · rename_i high afterHigh hhigh
        obtain ⟨digits', hdigits', hbound'⟩ := bound_of_readBound hhigh
        split at h
        · cases h
        · rename_i rest hclose
          obtain ⟨after', hafter', hend⟩ := exists_of_closeBracket hclose
          have range (ordered : ∀ m, high = some m → low.getD 0 ≤ m) :=
            JumpText.range hbefore hbound hafter hbefore' hbound' hafter' ordered
          have spelled : Ascii.openBracket :: s =
              (Ascii.openBracket ::
                (before ++ digits ++ after ++ Ascii.minus ::
                  (before' ++ digits' ++ after' ++ [Ascii.closeBracket]))) ++ rest := by
            rw [hs, hdigits, hnext, htail, hs', hdigits', hend]
            simp
          split at h
          · cases h
            exact ⟨_, spelled, range (by simp)⟩
          · rename_i max
            split at h
            · cases h
            · rename_i hle
              cases h
              refine ⟨_, spelled, range fun m hm => ?_⟩
              cases hm
              exact UInt32.not_lt.1 hle
    · split at h
      · cases h
      · cases h
      · rename_i rest n hclose
        obtain ⟨after', hafter', hend⟩ := exists_of_closeBracket hclose
        cases h
        have both : Blank (after ++ after') := by
          intro b hb
          rcases List.mem_append.1 hb with hb | hb
          · exact hafter b hb
          · exact hafter' b hb
        refine ⟨_, ?_, JumpText.exact hbefore hbound both⟩
        rw [hs, hdigits, hnext, hend]
        simp

/-- Behind its digits a bound is followed by white space or a byte that is no digit. -/
theorem stops_isDigit_append {w r : List UInt8} {c : UInt8} (hw : Blank w)
    (hc : Ascii.isDigit c = false) : Ascii.Stops Ascii.isDigit (w ++ c :: r) := by
  cases w with
  | nil => exact Ascii.stops_cons_iff.2 hc
  | cons b w => exact Ascii.stops_cons_iff.2 (isDigit_of_isBlank (hw b List.mem_cons_self))

theorem stops_isBlank_append {digits s : List UInt8} {n : Nat} (h : Ascii.Numeral digits n) :
    Ascii.Stops Ascii.isBlank (digits ++ s) := by
  obtain ⟨b, tail, rfl⟩ := List.exists_cons_of_ne_nil h.nonempty
  rw [List.cons_append, Ascii.stops_cons_iff]
  have digit := h.digit b List.mem_cons_self
  cases hblank : Ascii.isBlank b with
  | false => rfl
  | true =>
    rw [isDigit_of_isBlank hblank] at digit
    cases digit

/-- A bound is read over the white space before it.  Where it is missing, the
white space behind it is skipped too. -/
theorem readBound_skipBlank {before digits after r : List UInt8} {c : UInt8}
    {bound : Option UInt32} (hbefore : Blank before) (hdigits : Bound digits bound)
    (hafter : Blank after) (hblank : Ascii.isBlank c = false) (hdigit : Ascii.isDigit c = false) :
    ∃ w, Blank w ∧
      readBound (skipBlank (before ++ (digits ++ (after ++ c :: r)))) =
        some (bound, w ++ c :: r) := by
  rw [skipBlank_append hbefore]
  cases bound with
  | none =>
    have missing : Bound [] none := rfl
    rw [show digits = [] from hdigits, List.nil_append, skipBlank_append hafter,
      skipBlank_of_stops (Ascii.stops_cons_iff.2 hblank)]
    exact ⟨[], blank_nil,
      readBound_append missing (Ascii.stops_cons_iff.2 hdigit)⟩
  | some n =>
    rw [skipBlank_of_stops (stops_isBlank_append hdigits)]
    exact ⟨after, hafter, readBound_append hdigits (stops_isDigit_append hafter hdigit)⟩

theorem readJump_of_jumpText {text : List UInt8} {e : Element} (h : JumpText text e) :
    ∃ s, text = Ascii.openBracket :: s ∧ ∀ r, readJump (s ++ r) = .ok (e, r) := by
  cases h with
  | @exact before digits after n hbefore hdigits hafter =>
    refine ⟨_, rfl, fun r => ?_⟩
    have bound : Bound digits (some n) := hdigits
    obtain ⟨w, hw, hread⟩ := readBound_skipBlank (r := r) (c := Ascii.closeBracket) hbefore bound
      hafter (by decide) (by decide)
    have spelled : before ++ digits ++ after ++ [Ascii.closeBracket] ++ r =
        before ++ (digits ++ (after ++ Ascii.closeBracket :: r)) := by simp
    have next : skipBlank (w ++ Ascii.closeBracket :: r) = Ascii.closeBracket :: r := by
      rw [skipBlank_append hw, skipBlank_of_stops (Ascii.stops_cons_iff.2 (by decide))]
    have close : closeBracket (Ascii.closeBracket :: r) = .ok r := closeBracket_append blank_nil
    rw [spelled, readJump, hread]
    simp only [next, List.head?_cons]
    rw [if_neg (by decide), close]
  | @range before digits after before' digits' after' low high hbefore hlow hafter hbefore'
      hhigh hafter' ordered =>
    refine ⟨_, rfl, fun r => ?_⟩
    let tail := before' ++ (digits' ++ (after' ++ Ascii.closeBracket :: r))
    obtain ⟨w, hw, hread⟩ := readBound_skipBlank (r := tail) (c := Ascii.minus) hbefore hlow
      hafter (by decide) (by decide)
    obtain ⟨w', hw', hread'⟩ := readBound_skipBlank (r := r) (c := Ascii.closeBracket) hbefore'
      hhigh hafter' (by decide) (by decide)
    have spelled :
        before ++ digits ++ after ++ Ascii.minus ::
            (before' ++ digits' ++ after' ++ [Ascii.closeBracket]) ++ r =
          before ++ (digits ++ (after ++ Ascii.minus :: tail)) := by simp [tail]
    have next : skipBlank (w ++ Ascii.minus :: tail) = Ascii.minus :: tail := by
      rw [skipBlank_append hw, skipBlank_of_stops (Ascii.stops_cons_iff.2 (by decide))]
    rw [spelled, readJump, hread]
    simp only [next, List.head?_cons, if_true, List.tail_cons, tail, hread',
      closeBracket_append hw']
    cases high with
    | none => rfl
    | some m => simp [UInt32.not_lt.2 (ordered m rfl)]

end Pattern
end RuleLex
