/-
What an event says.

Every constructor of an event keeps a message that is within the limit and cuts a longer
one: `message_cut` says which part of it is kept, by its characters and by its bytes.
-/
import RuleLex.Log.Event
import RuleLex.Proofs.Text.Cut

namespace RuleLex
namespace Log
namespace Event

/-- An event made of a message, by any of the constructors. -/
inductive Tells (message : String) : Event → Prop
  | error (code : String) : Tells message (error code message)
  | success (code : String) : Tells message (success code message)
  | warning : Tells message (warning message)
  | info : Tells message (info message)
  | debug : Tells message (debug message)

variable {message : String} {e : Event}

theorem Tells.message_eq (h : Tells message e) :
    e.message = Text.cut limits.maxLogMessageLength message := by
  cases h <;> rfl

/-- A message within the limit is told as it is.  Of a longer one the longest head of whole
characters within the limit is told, and three dots: it ends at the last boundary that the
search backwards from the limit can find, which is at most three bytes below it.  Cutting
the bytes there never traps and leaves UTF-8 that is at most the dots over the limit. -/
theorem message_cut (h : Tells message e) :
    let limit := limits.maxLogMessageLength
    let bytes := Text.toBytes message
    (bytes.length ≤ limit → e.message = message) ∧
    (limit < bytes.length → ∃ p : String, e.message = p ++ "..." ∧
      p.toList <+: message.toList ∧ Text.toBytes p = bytes.take (Text.toBytes p).length ∧
      (Text.toBytes p).length ≤ limit ∧ limit ≤ (Text.toBytes p).length + 3 ∧
      (∀ q : String, q.toList <+: message.toList → (Text.toBytes q).length ≤ limit →
        q.toList <+: p.toList) ∧
      Text.isBoundary bytes (Text.toBytes p).length = true ∧
      (∀ m, Text.isBoundary bytes m = true → m ≤ limit → m ≤ (Text.toBytes p).length) ∧
      Text.boundaryFrom bytes limit = .ok (Text.toBytes p).length) ∧
    ∃ out, Text.cutBytes limit bytes = .ok out ∧ out = Text.toBytes e.message ∧
      Text.isUtf8 out = true ∧ out.length ≤ limit + 3 := by
  intro limit bytes
  have told : e.message = Text.cut limit message := h.message_eq
  refine ⟨fun short => told.trans (Text.cut_of_fits short), fun long => ?_,
    _, Text.cutBytes_eq limit message, congrArg Text.toBytes told.symm,
    Text.isUtf8_iff.2 ⟨_, rfl⟩, Text.length_cut_le limit message⟩
  have head := Text.fitting_prefix limit message.toList
  have length : (Text.toBytes (String.ofList (Text.fitting limit message.toList))).length =
      Text.byteCount (Text.fitting limit message.toList) := by
    rw [Text.length_toBytes, String.toList_ofList]
  obtain ⟨boundary, last⟩ := Text.last_boundary limit message.toList
  refine ⟨String.ofList (Text.fitting limit message.toList),
    told.trans (Text.cut_of_long long), ?_⟩
  rw [length, String.toList_ofList]
  refine ⟨head, ?_, Text.byteCount_fitting_le limit _, ?_, fun q hq fits => ?_, boundary, last,
    Text.boundaryFrom_encode limit _⟩
  · show _ = (Text.encode message.toList).take _
    rw [Text.take_encode head, Text.toBytes, String.toList_ofList]
  · rw [Text.length_toBytes] at long
    exact Text.le_byteCount_fitting long
  · rw [Text.length_toBytes] at fits
    exact Text.prefix_fitting hq fits

/-- A character of four bytes that begins one byte below the limit is left out whole. -/
theorem message_cut_wide :
    let head := String.ofList (List.replicate 4095 'x')
    let message := head ++ "😀y"
    Tells message (debug message) ∧ (debug message).message = head ++ "..." := by
  intro head message
  have head_list : head.toList = List.replicate 4095 'x' := String.toList_ofList
  have length : (Text.toBytes head).length = 4095 := by
    rw [Text.length_toBytes, head_list]
    have run (n : Nat) : Text.byteCount (List.replicate n 'x') = n := by
      induction n with
      | zero => rfl
      | succ n ih =>
        rw [List.replicate_succ, Text.byteCount, ih]
        exact Nat.add_comm 1 n
    exact run 4095
  have wide : (Text.toBytes "😀y").length = 5 := by decide
  have long : limits.maxLogMessageLength < (Text.toBytes message).length := by
    rw [Text.toBytes_append, List.length_append, length, wide]
    decide
  obtain ⟨p, told, ⟨rest, hrest⟩, -, fits, -, longest, -⟩ := (message_cut .debug).2.1 long
  have whole : head.toList <+: p.toList := by
    refine longest head ?_ (by rw [length]; decide)
    rw [String.toList_append]
    exact List.prefix_append _ _
  obtain ⟨more, hmore⟩ := whole
  have tail : more ++ rest = ['😀', 'y'] := by
    rw [← hmore, String.toList_append, List.append_assoc] at hrest
    exact List.append_cancel_left hrest
  obtain rfl : more = [] := by
    cases more with
    | nil => rfl
    | cons c more =>
      obtain ⟨rfl, -⟩ := List.cons.inj tail
      have four : '😀'.utf8Size = 4 := by decide
      rw [Text.length_toBytes, ← hmore, Text.byteCount_append, ← Text.length_toBytes, length,
        Text.byteCount, four] at fits
      exact absurd fits (by have : limits.maxLogMessageLength = 4096 := rfl; omega)
  rw [List.append_nil] at hmore
  rw [String.toList_inj.1 hmore]
  exact ⟨.debug, told⟩

end Event
end Log
end RuleLex
