/-
The wording of errors.

A message is made of fixed words, numerals, bytes in escaped or hexadecimal form,
and the text of a refused number, which is the one piece of source that gets into
it as it stands.  Whatever the source holds, `messages_printable` says that every
byte of a message is printable ASCII, so that a message is one line.

The wording itself is safe for every fault that keeps nothing but printable bytes,
`Fault.printable_message`.  That faults are like this is a fact about a single
step, and about lexers in any state: a number has only the bytes its forms allow.
-/
import RuleLex.Proofs.Lexer.Approach
import RuleLex.Proofs.Lexer.Requests
import RuleLex.Proofs.Utf8

namespace RuleLex

/-! ## Printable text -/

namespace Text

/-- Every character of the text is printable ASCII. -/
def Printable (s : String) : Prop := ∀ c ∈ s.toList, 0x20 ≤ c.toNat ∧ c.toNat ≤ 0x7E

instance (s : String) : Decidable (Printable s) := List.decidableBAll _ s.toList

theorem printable_append_iff {s t : String} : Printable (s ++ t) ↔ Printable s ∧ Printable t := by
  simp only [Printable, String.toList_append, List.forall_mem_append]

theorem printable_ofList_iff {cs : List Char} :
    Printable (String.ofList cs) ↔ ∀ c ∈ cs, 0x20 ≤ c.toNat ∧ c.toNat ≤ 0x7E := by
  rw [Printable, String.toList_ofList]

theorem printable_toString (n : Nat) : Printable (toString n) := by
  intro c hc
  have chars : (toString n).toList = Nat.toDigits 10 n := Nat.toList_repr
  rw [chars] at hc
  have digit := Nat.isDigit_of_mem_toDigits (by decide) (by decide) hc
  have bounds : 48 ≤ c.toNat ∧ c.toNat ≤ 57 := by
    simp only [Char.isDigit, ge_iff_le, Bool.and_eq_true, decide_eq_true_eq] at digit
    exact digit
  omega

/-- Printable text is a byte for each character, and these are printable, too. -/
theorem Printable.toBytes {s : String} (h : Printable s) {b : UInt8} (hb : b ∈ toBytes s) :
    0x20 ≤ b ∧ b ≤ 0x7E := by
  rw [toBytes_eq_bytes fun c hc => by have := h c hc; omega] at hb
  obtain ⟨c, hc, rfl⟩ := List.mem_map.1 hb
  obtain ⟨low, high⟩ := h c hc
  have value : c.toNat.toUInt8.toNat = c.toNat := toNat_byte (by omega)
  exact ⟨UInt8.le_iff_toNat_le.2 (value.symm ▸ low), UInt8.le_iff_toNat_le.2 (value.symm ▸ high)⟩

end Text

/-! ## Bytes of the source in a message -/

namespace Ascii

open Text (Printable printable_ofList_iff)

variable {b : UInt8}

theorem isPrintable_iff : isPrintable b = true ↔ 0x20 ≤ b.toNat ∧ b.toNat ≤ 0x7E := by
  simp only [isPrintable, Bool.and_eq_true, decide_eq_true_eq, UInt8.le_iff_toNat_le]
  rfl

theorem toNat_char (b : UInt8) : (Char.ofNat b.toNat).toNat = b.toNat := by
  have small := b.toNat_lt
  have valid : b.toNat.isValidChar := .inl (by omega)
  rw [Char.ofNat, dif_pos valid]
  rfl

theorem printable_text {bs : List UInt8} (h : ∀ b ∈ bs, isPrintable b = true) :
    Printable (text bs) := by
  rw [text, printable_ofList_iff]
  intro c hc
  obtain ⟨b, hb, rfl⟩ := List.mem_map.1 hc
  rw [toNat_char]
  exact isPrintable_iff.1 (h b hb)

/-- Both hexadecimal digits of a byte are printable. -/
theorem printable_of_mem_hexPair {c : Char} (h : c ∈ hexPair b) :
    0x20 ≤ c.toNat ∧ c.toNat ≤ 0x7E := by
  have digits : ∀ d : Fin 16, 0x20 ≤ (hexDigit d.1).toNat ∧ (hexDigit d.1).toNat ≤ 0x7E := by
    decide
  have small := b.toNat_lt
  simp only [hexPair, List.mem_cons, List.not_mem_nil, or_false] at h
  rcases h with rfl | rfl
  · exact digits ⟨b.toNat / 16, by omega⟩
  · exact digits ⟨b.toNat % 16, by omega⟩

/-- Whatever the byte, its escape is printable. -/
theorem printable_escape (b : UInt8) : Printable (escape b) := by
  unfold escape
  -- Six bytes have an escape of their own.
  iterate 6 (split; · decide)
  split
  · rename_i printable
    have one : Printable (text [b]) := printable_text (by simpa using printable)
    exact one
  · rw [printable_ofList_iff, List.forall_mem_cons, List.forall_mem_cons]
    exact ⟨by decide, by decide, fun c => printable_of_mem_hexPair⟩

end Ascii

/-! ## Wording -/

open Text (Printable printable_append_iff printable_toString)

/-- The wording of a flaw is printable, whatever byte it complains of. -/
theorem Pattern.Flaw.printable_message (e : Pattern.Error) : Printable e.message := by
  have escaped (b : UInt8) : Printable (toString (Ascii.escape b)) := Ascii.printable_escape b
  -- What is left between numerals and escapes are fixed words.
  cases e <;> unfold message <;>
    simp only [printable_append_iff, printable_toString, escaped, and_true] <;> decide

namespace Fault

/-- What the fault keeps of the source as it stands is printable. -/
def IsReadable : Fault → Prop
  | .numberConversion literal | .integerOverflow literal =>
    ∀ b ∈ literal, Ascii.isPrintable b = true
  | _ => True

/-- The wording of a fault is printable if what it shows as it stands is. -/
theorem printable_message {fault : Fault} (h : fault.IsReadable) : Printable fault.message := by
  have escaped (b : UInt8) : Printable (toString (Ascii.escape b)) := Ascii.printable_escape b
  have flawed (e : Pattern.Error) : Printable (toString e.message) := e.printable_message
  have hex (b : UInt8) : Printable (toString (String.ofList (Ascii.hexPair b))) :=
    Text.printable_ofList_iff.2 fun c => Ascii.printable_of_mem_hexPair
  have shown {literal : List UInt8} (h : ∀ b ∈ literal, Ascii.isPrintable b = true) :
      Printable (toString (Ascii.text literal)) := Ascii.printable_text h
  cases fault with
  | numberConversion literal | integerOverflow literal =>
    have literal_shown := shown h
    unfold message
    simp only [printable_append_iff, literal_shown, and_true]
    decide
  | _ =>
    unfold message
    simp only [printable_append_iff, printable_toString, escaped, hex, flawed, and_true]
    decide

end Fault

/-- An error is printable if its fault is. -/
theorem LexError.printable_message {e : LexError} (h : e.fault.IsReadable) :
    Printable e.message := by
  have fault : Printable (toString e.fault.message) := Fault.printable_message h
  unfold message
  simp only [printable_append_iff, printable_toString, fault, and_true]
  decide

/-! ## Faults -/

namespace Ascii

variable {b : UInt8}

theorem isPrintable_of_isHexDigit (h : isHexDigit b = true) : isPrintable b = true := by
  simp only [isHexDigit, isDigit, Bool.or_eq_true, Bool.and_eq_true, decide_eq_true_eq,
    UInt8.le_iff_toNat_le, UInt8.reduceToNat] at h
  rw [isPrintable_iff]
  omega

theorem isHexDigit_of_isDigit (h : isDigit b = true) : isHexDigit b = true := by
  rw [isHexDigit, h, Bool.true_or, Bool.true_or]

theorem isDigit_of_isOctalDigit (h : isOctalDigit b = true) : isDigit b = true := by
  simp only [isOctalDigit, isDigit, Bool.and_eq_true, decide_eq_true_eq,
    UInt8.le_iff_toNat_le, UInt8.reduceToNat] at h ⊢
  omega

end Ascii

/-- The forms of numbers allow digits, a point and a few letters. -/
theorem Number.FormText.isPrintable {form : Number.Form} {text : List UInt8}
    (h : Number.FormText form text) : ∀ b ∈ text, Ascii.isPrintable b = true := by
  have digits {bs : List UInt8} (h : ∀ b ∈ bs, Ascii.isDigit b = true) :
      ∀ b ∈ bs, Ascii.isPrintable b = true := fun b hb =>
    Ascii.isPrintable_of_isHexDigit (Ascii.isHexDigit_of_isDigit (h b hb))
  cases h with
  | plain _ h => exact digits h
  | kilobytes _ h | megabytes _ h => exact List.forall_mem_append.2 ⟨digits h, List.all_eq_true.1 (by decide)⟩
  | float h =>
    rw [h.text_eq, List.forall_mem_append, List.forall_mem_cons]
    exact ⟨digits h.whole_digit, by decide, digits h.places_digit⟩
  | hex _ h =>
    rw [List.forall_mem_cons, List.forall_mem_cons]
    exact ⟨by decide, by decide, fun b hb => Ascii.isPrintable_of_isHexDigit (h b hb)⟩
  | octal _ h =>
    rw [List.forall_mem_cons, List.forall_mem_cons]
    exact ⟨by decide, by decide, digits fun b hb => Ascii.isDigit_of_isOctalDigit (h b hb)⟩

/-- A refused lexeme is shown as it stands only if it is a number. -/
theorem Refused.isReadable {service : PatternService} {fault : Fault} {text : List UInt8}
    (h : Refused service fault text) : fault.IsReadable := by
  cases h with
  | number form hvalue =>
    rcases Number.fault_of_evaluate hvalue with rfl | rfl
    · exact form.isPrintable
    · exact form.isPrintable
  | word | sigil | byte | pattern => trivial

/-- What breaks a literal off shows nothing of it as it stands. -/
theorem Fault.isReadable_of_staysOpen {fault : Fault} (h : fault.staysOpen = true) :
    fault.IsReadable := by
  cases fault with
  | numberConversion | integerOverflow => cases h
  | _ => trivial

namespace Lexer

variable {lx : Lexer} {e : LexError}

/-- Whatever the state of the lexer, a step that fails has a readable fault. -/
theorem isReadable_of_answer {after : Lexer} {reports : List Log.Event}
    (h : lx.step = .answer after (.error e) reports) : e.fault.IsReadable := by
  have outcome := outcome_step lx
  rw [h] at outcome
  cases outcome with
  | refused _ hfirst => exact (Lexeme.refused_of_first lx.service hfirst).isReadable
  | hexRefused => trivial
  | breakAndReset _ breaks | breakAndStay _ breaks =>
    cases breaks with
    | tooLong => trivial
    | broken hfirst => exact Fault.isReadable_of_staysOpen (Piece.apt_first hfirst)
  | badModifier => trivial
  | @exhausted _ form => cases form <;> trivial
  | openAtEnd => trivial

theorem isReadable_of_nextFrom (reports : List Log.Event)
    (h : (nextFrom reports lx).result = .error e) : e.fault.IsReadable := by
  fun_induction nextFrom reports lx with
  | case1 reports lx after new hstep ih => exact ih h
  | case2 reports lx after result new hstep =>
    rw [result_settle] at h
    subst h
    exact isReadable_of_answer hstep

end Lexer

/-! ## Runs -/

/-- The error that is handed out, if there is one. -/
def Reply.error? : Reply → Option LexError
  | .next (.error e) | .item (some (.error e)) | .all (.error e) => some e
  | _ => none

namespace Reply

variable {e : LexError}

theorem error?_next {result : Except LexError Token} :
    (next result).error? = some e ↔ result = .error e := by
  cases result <;> simp [error?]

theorem error?_item {result : Except LexError Token} :
    (item (some result)).error? = some e ↔ result = .error e := by
  cases result <;> simp [error?]

theorem error?_all {result : Except LexError (List Token)} :
    (all result).error? = some e ↔ result = .error e := by
  cases result <;> simp [error?]

end Reply

namespace Lexer

variable {lx : Lexer} {e : LexError}

/-- A source is given up for the error of one of the calls made for it. -/
theorem exists_untilError_of_error (h : lx.tokenize.result = .error e) :
    ∃ l ∈ lx.untilError, l.next.result = .error e := by
  unfold tokenize at h
  simp only [head?_follow] at h
  split at h
  · rename_i other hother
    cases h
    rw [Option.map_map, Option.map_eq_some_iff] at hother
    obtain ⟨l, hl, hresult⟩ := hother
    exact ⟨l, List.mem_of_getLast? hl, hresult⟩
  · cases h

/-- An error that a request hands out is the answer of a call made for it. -/
theorem exists_asks_of_error {r : Request} (h : (lx.serve r).reply.error? = some e) :
    ∃ l ∈ lx.asks r, l.next.result = .error e := by
  cases r with
  | next => exact ⟨lx, List.mem_singleton_self lx, Reply.error?_next.1 h⟩
  | item =>
    cases hfinished : lx.finished with
    | true =>
      rw [serve_item_finished hfinished] at h
      cases h
    | false =>
      rw [serve_item_unfinished hfinished] at h
      rw [asks, if_neg (by simp [hfinished])]
      exact ⟨lx, List.mem_singleton_self lx, Reply.error?_item.1 h⟩
  | all => exact exists_untilError_of_error (Reply.error?_all.1 h)

theorem exists_serve_of_mem_replies {reply : Reply} {requests : List Request}
    (h : reply ∈ lx.replies requests) : ∃ (l : Lexer) (r : Request), reply = (l.serve r).reply := by
  induction requests generalizing lx with
  | nil => cases h
  | cons r requests ih =>
    rcases List.mem_cons.1 h with rfl | later
    · exact ⟨lx, r, rfl⟩
    · exact ih later

/-- Whatever a caller asks for, over any source, with any preferences and any
service, every byte of the message of an error is printable ASCII. -/
theorem messages_printable (source : List UInt8) (preferences : LexicalPreferences)
    (service : PatternService) (requests : List Request) {reply : Reply} {e : LexError}
    (hreply : reply ∈ (new source preferences service).replies requests)
    (he : reply.error? = some e) : ∀ b ∈ Text.toBytes e.message, 0x20 ≤ b ∧ b ≤ 0x7E := by
  obtain ⟨l, r, rfl⟩ := exists_serve_of_mem_replies hreply
  obtain ⟨asked, -, hresult⟩ := exists_asks_of_error he
  have printable := LexError.printable_message (isReadable_of_nextFrom [] hresult)
  exact fun b => printable.toBytes

/-- A number out of range, an escape that is the control character of a terminal,
and a byte beyond ASCII, met by three kinds of request. -/
theorem messages_printable_control :
    let source := Ascii.bytes "9999999999999999999 \"\\" ++ [0x1B, 0x0A, 0xC3]
    let run := new source LexicalPreferences.builtin Pattern.parse
    let replies := run.replies [.next, .item, .all]
    let e : LexError := { line := 1, fault := .illegalEscapeSequence 0x1B }
    replies.map Reply.error? =
        [some { line := 1, fault := .numberConversion (Ascii.bytes "9999999999999999999") },
          some e, some { line := 2, fault := .nonAsciiByte 0xC3 }] ∧
      e.message = "line 1: illegal escape sequence '\\\\x1b'" ∧
        ∀ b ∈ Text.toBytes e.message, 0x20 ≤ b ∧ b ≤ 0x7E := by
  intro source run replies e
  have errors : replies.map Reply.error? =
      [some { line := 1, fault := .numberConversion (Ascii.bytes "9999999999999999999") },
        some e, some { line := 2, fault := .nonAsciiByte 0xC3 }] := by decide +kernel
  have found : some e ∈ replies.map Reply.error? := by
    rw [errors]
    decide
  obtain ⟨reply, hreply, he⟩ := List.mem_map.1 found
  exact ⟨errors, by decide +kernel,
    messages_printable source LexicalPreferences.builtin Pattern.parse [.next, .item, .all] hreply
      he⟩

end Lexer
end RuleLex
