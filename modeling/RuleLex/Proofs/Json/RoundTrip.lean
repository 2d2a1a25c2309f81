/-
JSON there and back.

What the printer writes the reader reads back, `parse_render`, for every value whose
numbers are integers of a word.  The reader does not call itself on the parts of a value:
it goes from one to the next with what is open on a stack.  So the statement that carries
the induction has the text behind the value and the stack in it, `readValue_chars`: behind
the text of a value the reader delivers the value.

A number is read as the longest run it can be, and what follows it must not go on with
another of its characters, `Ends`.

`visible_chars` says that no control character is written, so what is printed stays on one
line.
-/
import RuleLex.Json.Printer
import RuleLex.Json.Reader
import RuleLex.Proofs.Text

namespace RuleLex
namespace Json

/-! ## Values that are written exactly -/

mutual

/-- All numbers in a value are integers of a word. -/
def isExact : Json → Bool
  | .integer n => isWord n
  | .float _ => false
  | .array items => itemsExact items
  | .object members => membersExact members
  | .null | .bool _ | .string _ => true

def itemsExact : List Json → Bool
  | [] => true
  | v :: rest => v.isExact && itemsExact rest

def membersExact : List (String × Json) → Bool
  | [] => true
  | (_, v) :: rest => v.isExact && membersExact rest

end

/-! ## Integers -/

theorem isDigit_eq (c : Char) : isDigit c = c.isDigit := rfl

/-- No character of a number begins the text. -/
def Ends (s : List Char) : Prop := ∀ c, s.head? = some c → isNumberChar c = false

theorem ends_nil : Ends [] := nofun

theorem ends_cons {c : Char} {s : List Char} (h : isNumberChar c = false) : Ends (c :: s) := by
  rintro d hd
  cases hd
  exact h

theorem isDigit_of_mem_toDigits {n : Nat} {c : Char} (h : c ∈ Nat.toDigits 10 n) :
    isDigit c = true :=
  (isDigit_eq c).trans (Nat.isDigit_of_mem_toDigits (by decide) (by decide) h)

/-- Only zero is written with a leading zero. -/
theorem head_toDigits {n : Nat} (hn : 0 < n) : (Nat.toDigits 10 n).head? ≠ some '0' := by
  induction n using Nat.strong_induction_on with
  | _ n ih =>
    by_cases small : n < 10
    · have digits : ∀ d : Fin 10, 0 < d.1 → [Nat.digitChar d.1].head? ≠ some '0' := by decide
      rw [Nat.toDigits_of_lt_base small]
      exact digits ⟨n, small⟩ hn
    · have large := Nat.not_lt.1 small
      rw [Nat.toDigits_of_base_le (by decide) large, List.head?_append_of_ne_nil _
        Nat.toDigits_ne_nil]
      exact ih (n / 10) (by omega) (by omega)

theorem decimal_toDigits (n : Nat) : decimal (Nat.toDigits 10 n) = n := by
  have value : Nat.ofDigitChars 10 (Nat.toDigits 10 n) 0 = n :=
    Nat.ofDigitChars_toDigits (by decide) (by decide)
  have same : (fun (value : Nat) (c : Char) => value * 10 + (c.toNat - '0'.toNat)) =
      fun (value : Nat) (c : Char) => 10 * value + (c.toNat - '0'.toNat) := by
    funext value c
    rw [Nat.mul_comm]
  rw [decimal, same]
  exact value

theorem whole_toDigits (n : Nat) : whole? (Nat.toDigits 10 n) = some (Nat.toDigits 10 n) := by
  have leading : ¬ ((Nat.toDigits 10 n).head? = some '0' ∧ (Nat.toDigits 10 n).length ≠ 1) := by
    rintro ⟨zero, several⟩
    rcases Nat.eq_zero_or_pos n with rfl | hn
    · exact several rfl
    · exact head_toDigits hn zero
  have digits : (Nat.toDigits 10 n).all isDigit = true :=
    List.all_eq_true.2 fun c hc => isDigit_of_mem_toDigits hc
  rw [whole?, if_neg leading, digits?, if_pos ⟨Nat.toDigits_ne_nil, digits⟩]

theorem breakAt_of_none {test : Char → Bool} {s : List Char} (h : ∀ c ∈ s, test c = false) :
    breakAt test s = (s, none) := by
  have all : ∀ c ∈ s, (!test c) = true := fun c hc => by rw [h c hc]; rfl
  simp only [breakAt, List.takeWhile_eq_self_iff.2 all, List.dropWhile_eq_nil_iff.2 all]

/-- Digits have neither a point nor an exponent among them. -/
theorem unsigned_toDigits (negative : Bool) {n : Nat}
    (word : isWord (if negative then -(n : Int) else n) = true)
    (zero : negative = true → 0 < n) :
    unsigned? negative (Nat.toDigits 10 n) =
      some (.integer (if negative then -(n : Int) else n)) := by
  have plain (test : Char → Bool) (h : ∀ d : Char, isDigit d = true → test d = false) :
      breakAt test (Nat.toDigits 10 n) = (Nat.toDigits 10 n, none) :=
    breakAt_of_none fun c hc => h c (isDigit_of_mem_toDigits hc)
  have marks (m d : Char) (hm : isDigit m = false) (hd : isDigit d = true) : (d == m) = false := by
    refine beq_eq_false_iff_ne.2 ?_
    rintro rfl
    rw [hm] at hd
    cases hd
  have exponent := plain (fun c => c == 'e' || c == 'E') fun d hd => by
    rw [marks 'e' d (by decide) hd, marks 'E' d (by decide) hd]
    rfl
  have point := plain (· == '.') fun d hd => marks '.' d (by decide) hd
  have signed : (!(decide (negative = true ∧ n = 0))) = true := by
    cases negative with
    | false => rfl
    | true => simpa using Nat.ne_of_gt (zero rfl)
  simp only [unsigned?, exponent, point, Option.map_none, whole_toDigits, decimal_toDigits]
  rw [if_pos ⟨word, by simpa using signed⟩]

theorem toList_ofNat (m : Nat) : (toString (Int.ofNat m)).toList = Nat.toDigits 10 m :=
  Nat.toList_repr

theorem toList_negSucc (m : Nat) :
    (toString (Int.negSucc m)).toList = '-' :: Nat.toDigits 10 (m + 1) := by
  show ("-" ++ (m + 1).repr).toList = _
  rw [String.toList_append, Nat.toList_repr]
  rfl

/-- An integer of a word is read back as it is. -/
theorem number_toString {n : Int} (h : isWord n = true) :
    number? (toString n).toList = some (.integer n) := by
  cases n with
  | ofNat m =>
    have read := unsigned_toDigits false (n := m) h nofun
    rw [toList_ofNat]
    cases hdigits : Nat.toDigits 10 m with
    | nil => exact absurd hdigits Nat.toDigits_ne_nil
    | cons c rest =>
      have digit : isDigit c = true := isDigit_of_mem_toDigits (hdigits ▸ List.mem_cons_self ..)
      have unsigned : c ≠ '-' := by
        rintro rfl
        cases digit
      rw [hdigits] at read
      rw [number?, if_neg unsigned]
      exact read
  | negSucc m =>
    rw [toList_negSucc, number?, if_pos rfl]
    exact unsigned_toDigits true h fun _ => Nat.succ_pos m

theorem isNumberChar_of_mem {n : Int} {c : Char} (h : c ∈ (toString n).toList) :
    isNumberChar c = true := by
  have digit {m : Nat} (hc : c ∈ Nat.toDigits 10 m) : isNumberChar c = true := by
    simp [isNumberChar, isDigit_of_mem_toDigits hc]
  cases n with
  | ofNat m => exact digit (toList_ofNat m ▸ h)
  | negSucc m =>
    rcases List.mem_cons.1 (toList_negSucc m ▸ h) with rfl | hc
    · rfl
    · exact digit hc

theorem readNumber_toString {n : Int} (h : isWord n = true) {rest : List Char} (ends : Ends rest) :
    readNumber ((toString n).toList ++ rest) = some (.integer n, rest) := by
  have run : ∀ c ∈ (toString n).toList, isNumberChar c = true := fun c => isNumberChar_of_mem
  have stop : rest.takeWhile isNumberChar = [] ∧ rest.dropWhile isNumberChar = rest := by
    cases rest with
    | nil => exact ⟨rfl, rfl⟩
    | cons d rest =>
      have hd := ends d rfl
      exact ⟨List.takeWhile_cons_of_neg (by simp [hd]), List.dropWhile_cons_of_neg (by simp [hd])⟩
  rw [readNumber, List.takeWhile_append_of_pos run, List.dropWhile_append_of_pos run, stop.1,
    stop.2, List.append_nil, number_toString h, Option.map_some]

/-! ## Strings -/

variable {c d : Char} {read s rest after : List Char} {name : String}

theorem readString_close (read rest : List Char) :
    readString read ('"' :: rest) = some (String.ofList read.reverse, rest) := by
  rw [readString.eq_def]
  exact if_pos rfl

theorem readString_short (hd : d ≠ 'u') (h : unescape? d = some c) :
    readString read ('\\' :: d :: rest) = readString (c :: read) rest := by
  rw [readString, if_neg (by decide), if_pos rfl]
  simp only [if_neg hd, h]

theorem readString_unicode (h : unicode? s = some (c, rest)) :
    readString read ('\\' :: 'u' :: s) = readString (c :: read) rest := by
  rw [readString, if_neg (by decide), if_pos rfl]
  simp only [if_true]
  split
  · rename_i hread
    rw [h] at hread
    cases hread
    rfl
  · rename_i hread
    rw [h] at hread
    cases hread

theorem readString_plain (hquote : c ≠ '"') (hbackslash : c ≠ '\\') (visible : ¬ c.toNat < 0x20) :
    readString read (c :: rest) = readString (c :: read) rest := by
  rw [readString.eq_def]
  simp only [if_neg hquote, if_neg hbackslash, if_neg visible]

/-- A control character is written with four digits that spell it. -/
theorem unicode_control (h : c.toNat < 0x20) :
    unicode? ('0' :: '0' :: Ascii.hexDigit (c.toNat / 16) :: Ascii.hexDigit (c.toNat % 16) :: rest) =
      some (c, rest) := by
  have digits : ∀ d : Fin 16, Text.hexValue? (Ascii.hexDigit d.1) = some d.1 := by decide
  have zero : Text.hexValue? '0' = some 0 := by decide
  have high := digits ⟨c.toNat / 16, by omega⟩
  have low := digits ⟨c.toNat % 16, by omega⟩
  have whole : ((0 * 16 + 0) * 16 + c.toNat / 16) * 16 + c.toNat % 16 = c.toNat := by omega
  simp only [unicode?, hexQuad?, zero, high, low, whole]
  rw [if_neg (by omega), if_neg (by omega), Char.ofNat_toNat]

/-- The three forms of a character in a string. -/
inductive Escaped (c : Char) : List Char → Prop
  | short {d : Char} (hd : d ≠ 'u') (visible : 0x20 ≤ d.toNat) (h : unescape? d = some c) :
    Escaped c ['\\', d]
  | control (h : c.toNat < 0x20) :
    Escaped c ['\\', 'u', '0', '0', Ascii.hexDigit (c.toNat / 16), Ascii.hexDigit (c.toNat % 16)]
  | plain (hquote : c ≠ '"') (hbackslash : c ≠ '\\') (visible : ¬ c.toNat < 0x20) : Escaped c [c]

theorem escaped_escapeChar (c : Char) : Escaped c (escapeChar c) := by
  unfold escapeChar
  -- The seven characters that have a letter of their own come first.
  iterate 7
    split
    · subst c
      exact .short (by decide) (by decide) rfl
  split
  · exact .control ‹_›
  · exact .plain ‹_› ‹_› ‹_›

/-- A character is read back from its escaped form. -/
theorem readString_escapeChar (read : List Char) (c : Char) (rest : List Char) :
    readString read (escapeChar c ++ rest) = readString (c :: read) rest := by
  have escaped := escaped_escapeChar c
  generalize escapeChar c = form at escaped ⊢
  cases escaped with
  | short hd _ h => exact readString_short hd h
  | control h => exact readString_unicode (unicode_control h)
  | plain hquote hbackslash visible => exact readString_plain hquote hbackslash visible

theorem readString_flatMap (read cs rest : List Char) :
    readString read (cs.flatMap escapeChar ++ '"' :: rest) =
      some (String.ofList (read.reverse ++ cs), rest) := by
  induction cs generalizing read with
  | nil => rw [List.append_nil]; exact readString_close read rest
  | cons c cs ih =>
    rw [List.flatMap_cons, List.append_assoc, readString_escapeChar, ih, List.reverse_cons,
      List.append_assoc]
    rfl

/-- What stands behind the opening quote of a string. -/
theorem stringChars_append (s : String) (rest : List Char) :
    stringChars s ++ rest = '"' :: (s.toList.flatMap escapeChar ++ '"' :: rest) := by
  simp [stringChars]

theorem readString_toList (s : String) (rest : List Char) :
    readString [] (s.toList.flatMap escapeChar ++ '"' :: rest) = some (s, rest) := by
  rw [readString_flatMap, List.reverse_nil, List.nil_append, String.ofList_toList]

theorem skipSpace_cons (h : isSpace c = false) : skipSpace (c :: s) = c :: s :=
  List.dropWhile_cons_of_neg (by simp [h])

theorem readName_stringChars (name : String) (rest : List Char) :
    readName (stringChars name ++ ':' :: rest) = some (name, rest) := by
  rw [readName, stringChars_append, skipSpace_cons (by decide)]
  simp only [if_true, readString_toList, skipSpace_cons (show isSpace ':' = false by decide)]

/-! ## Steps of the reader -/

variable {v : Json}

theorem readValue_eq (stack : List Frame) (h : isSpace c = false) (rest : List Char) :
    readValue stack (c :: rest) =
      if c = '[' then
        match skipSpace rest with
        | [] => none
        | d :: after =>
          if d = ']' then deliver stack (.array []) after else readValue (.array [] :: stack) rest
      else if c = '\x7b' then
        match skipSpace rest with
        | [] => none
        | d :: after =>
          if d = '\x7d' then deliver stack (.object []) after
          else
            match readName rest with
            | none => none
            | some (name, after) => readValue (.object [] name :: stack) after
      else
        match readScalar (c :: rest) with
        | none => none
        | some (v, after) => deliver stack v after := by
  have head := skipSpace_cons (s := rest) h
  rw [readValue.eq_def]
  generalize skipSpace (c :: rest) = t at head
  subst head
  dsimp only
  congr 1
  · generalize skipSpace rest = t
    cases t <;> rfl
  · congr 1
    · generalize skipSpace rest = t
      cases t with
      | nil => rfl
      | cons d after =>
        dsimp only
        congr 1
        generalize readName rest = found
        cases found <;> rfl
    · generalize readScalar (c :: rest) = found
      cases found <;> rfl

theorem deliver_end (v : Json) : deliver [] v [] = some v := by
  rw [deliver.eq_def]
  rfl

theorem deliver_array (items : List Json) (stack : List Frame) (v : Json)
    (h : isSpace c = false) (rest : List Char) :
    deliver (.array items :: stack) v (c :: rest) =
      if c = ',' then readValue (.array (v :: items) :: stack) rest
      else if c = ']' then deliver stack (.array (v :: items).reverse) rest
      else none := by
  have head := skipSpace_cons (s := rest) h
  rw [deliver.eq_def]
  generalize skipSpace (c :: rest) = t at head
  subst head
  rfl

theorem deliver_object (members : List (String × Json)) (name : String) (stack : List Frame)
    (v : Json) (h : isSpace c = false) (rest : List Char) :
    deliver (.object members name :: stack) v (c :: rest) =
      if c = ',' then
        match readName rest with
        | none => none
        | some (next, after) => readValue (.object ((name, v) :: members) next :: stack) after
      else if c = '\x7d' then deliver stack (.object ((name, v) :: members).reverse) rest
      else none := by
  have head := skipSpace_cons (s := rest) h
  rw [deliver.eq_def]
  generalize skipSpace (c :: rest) = t at head
  subst head
  dsimp only
  congr 1
  generalize readName rest = found
  cases found <;> rfl

theorem readValue_emptyArray (stack : List Frame) (rest : List Char) :
    readValue stack ('[' :: ']' :: rest) = deliver stack (.array []) rest := by
  rw [readValue_eq stack (by decide), if_pos rfl, skipSpace_cons (by decide)]
  exact if_pos rfl

theorem readValue_array (stack : List Frame) (h : isSpace d = false) (hd : d ≠ ']')
    (rest : List Char) :
    readValue stack ('[' :: d :: rest) = readValue (.array [] :: stack) (d :: rest) := by
  rw [readValue_eq stack (by decide), if_pos rfl, skipSpace_cons h]
  exact if_neg hd

theorem readValue_emptyObject (stack : List Frame) (rest : List Char) :
    readValue stack ('\x7b' :: '\x7d' :: rest) = deliver stack (.object []) rest := by
  rw [readValue_eq stack (by decide), if_neg (by decide), if_pos rfl, skipSpace_cons (by decide)]
  exact if_pos rfl

theorem readValue_object (stack : List Frame) (name : String) (rest : List Char) :
    readValue stack ('\x7b' :: (stringChars name ++ ':' :: rest)) =
      readValue (.object [] name :: stack) rest := by
  have quote : skipSpace (stringChars name ++ ':' :: rest) = stringChars name ++ ':' :: rest :=
    skipSpace_cons (by decide)
  rw [readValue_eq stack (by decide), if_neg (by decide), if_pos rfl, quote,
    readName_stringChars, stringChars_append]
  exact if_neg (by decide)

theorem readValue_scalar (stack : List Frame) (h : isSpace c = false) (harray : c ≠ '[')
    (hobject : c ≠ '\x7b') (hread : readScalar (c :: rest) = some (v, after)) :
    readValue stack (c :: rest) = deliver stack v after := by
  rw [readValue_eq stack h, if_neg harray, if_neg hobject, hread]

/-! ## Values -/

/-- Items behind a first one. -/
def itemsTail : List Json → List Char
  | [] => []
  | v :: rest => ',' :: itemsChars (v :: rest)

/-- Members behind a first one. -/
def membersTail : List (String × Json) → List Char
  | [] => []
  | m :: rest => ',' :: membersChars (m :: rest)

theorem itemsChars_cons (v : Json) (rest : List Json) :
    itemsChars (v :: rest) = v.chars ++ itemsTail rest := by
  cases rest with
  | nil => rw [itemsChars, itemsTail, List.append_nil]
  | cons w rest => rw [itemsChars, itemsTail]

theorem membersChars_cons (name : String) (v : Json) (rest : List (String × Json)) :
    membersChars ((name, v) :: rest) = stringChars name ++ ':' :: (v.chars ++ membersTail rest) := by
  cases rest with
  | nil => rw [membersChars, membersTail, List.append_nil]
  | cons m rest => rw [membersChars, membersTail]

theorem ends_itemsTail (items : List Json) (rest : List Char) :
    Ends (itemsTail items ++ ']' :: rest) := by
  cases items with
  | nil => exact ends_cons (by decide)
  | cons v items => exact ends_cons (by decide)

theorem ends_membersTail (members : List (String × Json)) (rest : List Char) :
    Ends (membersTail members ++ '\x7d' :: rest) := by
  cases members with
  | nil => exact ends_cons (by decide)
  | cons m members => exact ends_cons (by decide)

/-- An integer begins with a digit or a sign. -/
theorem exists_head_toString (n : Int) :
    ∃ c rest, (toString n).toList = c :: rest ∧ isNumberChar c = true := by
  cases hchars : (toString n).toList with
  | nil =>
    cases n with
    | ofNat m =>
      rw [toList_ofNat] at hchars
      exact absurd hchars Nat.toDigits_ne_nil
    | negSucc m =>
      rw [toList_negSucc] at hchars
      cases hchars
  | cons c rest => exact ⟨c, rest, rfl, isNumberChar_of_mem (hchars ▸ List.mem_cons_self ..)⟩

theorem ne_of_isNumberChar (h : isNumberChar c = true) (hd : isNumberChar d = false) : c ≠ d := by
  rintro rfl
  rw [hd] at h
  cases h

theorem isSpace_of_isNumberChar (h : isNumberChar c = true) : isSpace c = false := by
  have apart (d : Char) (hd : isNumberChar d = false) : (c == d) = false :=
    beq_eq_false_iff_ne.2 (ne_of_isNumberChar h hd)
  rw [isSpace, apart ' ' (by decide), apart '\t' (by decide), apart '\n' (by decide),
    apart '\r' (by decide)]
  rfl

theorem readLiteral_of_isNumberChar (h : isNumberChar c = true) (rest : List Char) :
    readLiteral (c :: rest) = none := by
  have apart (d : Char) (hd : isNumberChar d = false) : ¬ d = c :=
    (ne_of_isNumberChar h hd).symm
  simp [readLiteral, literals, apart 'n' (by decide), apart 't' (by decide), apart 'f' (by decide)]

theorem readValue_integer (stack : List Frame) {n : Int} (h : isWord n = true) (ends : Ends rest) :
    readValue stack ((toString n).toList ++ rest) = deliver stack (.integer n) rest := by
  obtain ⟨c, more, hchars, hc⟩ := exists_head_toString n
  have number := readNumber_toString h ends
  rw [hchars, List.cons_append] at number ⊢
  refine readValue_scalar stack (isSpace_of_isNumberChar hc)
    (ne_of_isNumberChar hc (by decide)) (ne_of_isNumberChar hc (by decide)) ?_
  have quote : c ≠ '"' := ne_of_isNumberChar hc (by decide)
  rw [readScalar, if_neg quote, readLiteral_of_isNumberChar hc, number]
  rfl

/-- No value begins with white space or a closing bracket. -/
theorem exists_head (h : v.isExact = true) :
    ∃ c rest, v.chars = c :: rest ∧ isSpace c = false ∧ c ≠ ']' := by
  cases v with
  | null => exact ⟨'n', _, rfl, by decide, by decide⟩
  | bool b => cases b <;> exact ⟨_, _, rfl, by decide, by decide⟩
  | integer n =>
    obtain ⟨c, rest, hchars, hc⟩ := exists_head_toString n
    exact ⟨c, rest, hchars, isSpace_of_isNumberChar hc, ne_of_isNumberChar hc (by decide)⟩
  | float x => cases h
  | string s => exact ⟨'"', _, rfl, by decide, by decide⟩
  | array items => exact ⟨'[', _, rfl, by decide, by decide⟩
  | object members => exact ⟨'\x7b', _, rfl, by decide, by decide⟩

mutual

/-- Behind the text of a value the reader delivers the value. -/
theorem readValue_chars (v : Json) (h : v.isExact = true) (stack : List Frame) {rest : List Char}
    (ends : Ends rest) : readValue stack (v.chars ++ rest) = deliver stack v rest := by
  match v, h with
  | .null, _ => exact readValue_scalar stack (by decide) (by decide) (by decide) rfl
  | .bool true, _ => exact readValue_scalar stack (by decide) (by decide) (by decide) rfl
  | .bool false, _ => exact readValue_scalar stack (by decide) (by decide) (by decide) rfl
  | .integer n, h => exact readValue_integer stack h ends
  | .string s, _ =>
    rw [chars, stringChars_append]
    refine readValue_scalar stack (by decide) (by decide) (by decide) ?_
    rw [readScalar, if_pos rfl, readString_toList]
    rfl
  | .array [], _ => exact readValue_emptyArray stack rest
  | .array (w :: items), h =>
    obtain ⟨hw, hitems⟩ := Bool.and_eq_true_iff.1 h
    obtain ⟨c, more, hhead, hspace, hclose⟩ := exists_head hw
    have tail := ends_itemsTail items rest
    have opened : chars (.array (w :: items)) ++ rest =
        '[' :: (w.chars ++ (itemsTail items ++ ']' :: rest)) := by
      simp [chars, itemsChars_cons]
    rw [opened, hhead, List.cons_append, readValue_array stack hspace hclose, ← List.cons_append,
      ← hhead, readValue_chars w hw _ tail]
    exact deliver_items items hitems w [] stack rest
  | .object [], _ => exact readValue_emptyObject stack rest
  | .object ((name, w) :: members), h =>
    obtain ⟨hw, hmembers⟩ := Bool.and_eq_true_iff.1 h
    have tail := ends_membersTail members rest
    have opened : chars (.object ((name, w) :: members)) ++ rest =
        '\x7b' :: (stringChars name ++ ':' :: (w.chars ++ (membersTail members ++ '\x7d' :: rest))) := by
      simp [chars, membersChars_cons]
    rw [opened, readValue_object, readValue_chars w hw _ tail]
    exact deliver_members members hmembers name w [] stack rest

/-- Behind the text of the other items an array is delivered with all of them. -/
theorem deliver_items (items : List Json) (h : itemsExact items = true) (v : Json)
    (done : List Json) (stack : List Frame) (rest : List Char) :
    deliver (.array done :: stack) v (itemsTail items ++ ']' :: rest) =
      deliver stack (.array (done.reverse ++ v :: items)) rest := by
  match items, h with
  | [], _ =>
    show deliver (.array done :: stack) v (']' :: rest) = _
    rw [deliver_array _ _ _ (by decide), if_neg (by decide), if_pos rfl, List.reverse_cons]
  | w :: items, h =>
    obtain ⟨hw, hitems⟩ := Bool.and_eq_true_iff.1 h
    have tail := ends_itemsTail items rest
    rw [itemsTail, itemsChars_cons, List.cons_append, List.append_assoc,
      deliver_array _ _ _ (by decide), if_pos rfl, readValue_chars w hw _ tail,
      deliver_items items hitems, List.reverse_cons, List.append_assoc]
    rfl

/-- Behind the text of the other members an object is delivered with all of them. -/
theorem deliver_members (members : List (String × Json)) (h : membersExact members = true)
    (name : String) (v : Json) (done : List (String × Json)) (stack : List Frame)
    (rest : List Char) :
    deliver (.object done name :: stack) v (membersTail members ++ '\x7d' :: rest) =
      deliver stack (.object (done.reverse ++ (name, v) :: members)) rest := by
  match members, h with
  | [], _ =>
    show deliver (.object done name :: stack) v ('\x7d' :: rest) = _
    rw [deliver_object _ _ _ _ (by decide), if_neg (by decide), if_pos rfl, List.reverse_cons]
  | (next, w) :: members, h =>
    obtain ⟨hw, hmembers⟩ := Bool.and_eq_true_iff.1 h
    have tail := ends_membersTail members rest
    rw [membersTail, membersChars_cons, List.cons_append, List.append_assoc, List.cons_append,
      List.append_assoc, deliver_object _ _ _ _ (by decide), if_pos rfl, readName_stringChars]
    simp only
    rw [readValue_chars w hw _ tail, deliver_members members hmembers, List.reverse_cons,
      List.append_assoc]
    rfl

end

theorem toList_render (v : Json) : v.render.toList = v.chars := String.toList_ofList

/-- What is printed is read back. -/
theorem parse_render {v : Json} (h : v.isExact = true) : parse? v.render = some v := by
  have whole := readValue_chars v h [] ends_nil
  rw [List.append_nil] at whole
  rw [parse?, toList_render, whole, deliver_end]

/-! ## One line -/

/-- No character of the text is a control character. -/
def Visible (s : List Char) : Prop := ∀ c ∈ s, 0x20 ≤ c.toNat

instance (s : List Char) : Decidable (Visible s) :=
  decidable_of_iff (s.all fun c => 0x20 ≤ c.toNat) (by simp [Visible])

theorem visible_append {t : List Char} (hs : Visible s) (ht : Visible t) : Visible (s ++ t) :=
  fun c hc => (List.mem_append.1 hc).elim (hs c) (ht c)

theorem visible_cons (h : 0x20 ≤ c.toNat) (hs : Visible s) : Visible (c :: s) :=
  List.forall_mem_cons.2 ⟨h, hs⟩

theorem visible_nil : Visible [] := nofun

theorem visible_escapeChar (c : Char) : Visible (escapeChar c) := by
  have digits : ∀ d : Fin 16, 0x20 ≤ (Ascii.hexDigit d.1).toNat := by decide
  have escaped := escaped_escapeChar c
  generalize escapeChar c = form at escaped ⊢
  cases escaped with
  | short _ visible => exact visible_cons (by decide) (visible_cons visible visible_nil)
  | control h =>
    have high := digits ⟨c.toNat / 16, by omega⟩
    have low := digits ⟨c.toNat % 16, by omega⟩
    exact visible_cons (by decide) <| visible_cons (by decide) <| visible_cons (by decide) <|
      visible_cons (by decide) <| visible_cons high <| visible_cons low visible_nil
  | plain _ _ visible => exact visible_cons (Nat.not_lt.1 visible) visible_nil

theorem visible_stringChars (s : String) : Visible (stringChars s) := by
  refine visible_cons (by decide) (visible_append ?_ (visible_cons (by decide) visible_nil))
  intro c hc
  obtain ⟨d, -, hd⟩ := List.mem_flatMap.1 hc
  exact visible_escapeChar d c hd

theorem visible_toString (n : Int) : Visible (toString n).toList := by
  intro c hc
  have number := isNumberChar_of_mem hc
  by_contra low
  have control : ∀ k : Fin 0x20, isNumberChar (Char.ofNat k.1) = false := by decide
  have none_there := control ⟨c.toNat, by omega⟩
  rw [Char.ofNat_toNat, number] at none_there
  cases none_there

mutual

/-- The text of a value has no control character. -/
theorem visible_chars (v : Json) (h : v.isExact = true) : Visible v.chars := by
  match v, h with
  | .null, _ => decide
  | .bool true, _ => decide
  | .bool false, _ => decide
  | .integer n, _ => exact visible_toString n
  | .string s, _ => exact visible_stringChars s
  | .array items, h =>
    exact visible_cons (by decide)
      (visible_append (visible_itemsChars items h) (visible_cons (by decide) visible_nil))
  | .object members, h =>
    exact visible_cons (by decide)
      (visible_append (visible_membersChars members h) (visible_cons (by decide) visible_nil))

theorem visible_itemsChars (items : List Json) (h : itemsExact items = true) :
    Visible (itemsChars items) := by
  match items, h with
  | [], _ => exact visible_nil
  | [v], h => exact visible_chars v (Bool.and_eq_true_iff.1 h).1
  | v :: w :: rest, h =>
    obtain ⟨hv, hrest⟩ := Bool.and_eq_true_iff.1 h
    exact visible_append (visible_chars v hv)
      (visible_cons (by decide) (visible_itemsChars (w :: rest) hrest))

theorem visible_membersChars (members : List (String × Json)) (h : membersExact members = true) :
    Visible (membersChars members) := by
  match members, h with
  | [], _ => exact visible_nil
  | [(name, v)], h =>
    exact visible_append (visible_stringChars name)
      (visible_cons (by decide) (visible_chars v (Bool.and_eq_true_iff.1 h).1))
  | (name, v) :: m :: rest, h =>
    obtain ⟨hv, hrest⟩ := Bool.and_eq_true_iff.1 h
    exact visible_append (visible_stringChars name) (visible_cons (by decide)
      (visible_append (visible_chars v hv)
        (visible_cons (by decide) (visible_membersChars (m :: rest) hrest))))

end

end Json
end RuleLex
