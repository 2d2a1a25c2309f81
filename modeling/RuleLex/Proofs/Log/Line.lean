/-
What a structured log says.

The line of an event is an object whose names are sorted, so each stands in it once and can
be looked up whatever the order.  `Shows` lists what a line says of an event, and when.
`line_decodes` is that reading a line gives what `Shows` lists and nothing else, whatever
texts the event holds: quotes, backslashes and control characters are written so that they
come back, and none of them is in the line itself.

So a stream falls into lines where it has line ends, one line for each event that went to
it, in the order of the events: `splitOn_logAll`.
-/
import RuleLex.Log.Service
import RuleLex.Proofs.Json.Members
import RuleLex.Proofs.Json.RoundTrip
import RuleLex.Proofs.Text.Cut

namespace RuleLex
namespace Json

variable {members : List (String × Json)}

theorem membersExact_iff : membersExact members = true ↔ ∀ m ∈ members, m.2.isExact = true := by
  induction members with
  | nil => exact iff_of_true rfl nofun
  | cons m members ih => rw [membersExact, Bool.and_eq_true, ih, List.forall_mem_cons]

end Json

namespace Log
namespace Event

/-! ## One line -/

/-- What the line of an event says, by name. -/
inductive Shows (seconds : Nat) (e : Event) : String → Json → Prop
  | timestamp : Shows seconds e "timestamp" (.integer seconds)
  | level : Shows seconds e "level" (.string e.level.label)
  | code : Shows seconds e "code" (.string e.code)
  | message : Shows seconds e "message" (.string e.message)
  | category : Shows seconds e "category" (.string (Code.category e.code))
  | severity : Shows seconds e "severity" (.string (Code.severity e.code).name)
  | errorMetadata : e.level = .error → Shows seconds e "error_metadata" (.object
      [("description", .string (Code.description e.code)),
       ("recommended_action", .string (Code.action e.code)),
       ("requires_halt", .bool (Code.requiresHalt e.code))])
  | span (s : Span) : e.span = some s → Shows seconds e "span" (.object
      [("end_column", .integer s.stop.column), ("end_line", .integer s.stop.line),
       ("start_column", .integer s.start.column), ("start_line", .integer s.start.line)])
  | context : e.context ≠ [] → Shows seconds e "context" (.object
      (e.context.map fun entry => (entry.1, .string entry.2)))

variable {seconds : Nat} {e : Event}

/-- The time and the place of an event are counted in words. -/
structure OfWords (seconds : Nat) (e : Event) : Prop where
  seconds_lt : seconds < UInt64.size
  place_lt : ∀ s, e.span = some s →
    ∀ n ∈ [s.start.line, s.start.column, s.stop.line, s.stop.column], n < UInt64.size

/-- The names that a line may have, in their order. -/
def names : List String :=
  ["category", "code", "context", "error_metadata", "level", "message", "severity", "span",
   "timestamp"]

theorem isError_iff : e.isError = true ↔ e.level = .error := beq_iff_eq

/-- The members of the line of an event. -/
def members (seconds : Nat) (e : Event) : List (String × Json) :=
  [("category", .string e.category), ("code", .string e.code)]
    ++ (if e.context = [] then [] else [("context", contextJson e.context)])
    ++ (if e.isError then [("error_metadata", e.metadataJson)] else [])
    ++ [("level", .string e.level.label), ("message", .string e.message),
        ("severity", .string (Code.severity e.code).name)]
    ++ (e.span.toList.map fun s => ("span", spanJson s))
    ++ [("timestamp", .integer seconds)]

theorem toJson_eq (seconds : Nat) (e : Event) : e.toJson seconds = .object (e.members seconds) := by
  rw [toJson, members]
  cases e.span <;> rfl

theorem sorted_members (seconds : Nat) (e : Event) :
    ((e.members seconds).map Prod.fst).Pairwise (· < ·) := by
  have sorted : names.Pairwise (· < ·) := by decide
  have details : ((if e.context = [] then [] else [("context", contextJson e.context)]).map
      Prod.fst).Sublist ["context"] := by split <;> simp
  have metadata : ((if e.isError then [("error_metadata", e.metadataJson)] else []).map
      Prod.fst).Sublist ["error_metadata"] := by split <;> simp
  have place : ((e.span.toList.map fun s => ("span", spanJson s)).map Prod.fst).Sublist ["span"] := by
    cases e.span <;> simp
  simp only [members, List.map_append]
  exact sorted.sublist <| (((((List.Sublist.refl _).append details).append metadata).append
    (List.Sublist.refl _)).append place).append (List.Sublist.refl _)

theorem mem_members {name : String} {v : Json} :
    (name, v) ∈ e.members seconds ↔ Shows seconds e name v := by
  simp only [members, List.mem_append, List.mem_ite_nil_left, List.mem_ite_nil_right,
    List.mem_cons, List.not_mem_nil, or_false, List.mem_map, Option.mem_toList, isError_iff,
    Prod.mk.injEq, or_assoc]
  -- The cases stand in the order of the members.
  constructor
  · rintro (⟨rfl, rfl⟩ | ⟨rfl, rfl⟩ | ⟨details, rfl, rfl⟩ | ⟨failed, rfl, rfl⟩ | ⟨rfl, rfl⟩ |
      ⟨rfl, rfl⟩ | ⟨rfl, rfl⟩ | ⟨s, hs, rfl, rfl⟩ | ⟨rfl, rfl⟩)
    · exact .category
    · exact .code
    · exact .context details
    · exact .errorMetadata failed
    · exact .level
    · exact .message
    · exact .severity
    · exact .span s hs
    · exact .timestamp
  · intro shown
    cases shown <;> simp_all [category, metadataJson, spanJson, contextJson]

/-- What a line says can be read back. -/
theorem Shows.isExact {name : String} {v : Json} (hwords : OfWords seconds e)
    (h : Shows seconds e name v) : v.isExact = true := by
  have word {n : Nat} (hn : n < UInt64.size) : Json.isWord n = true := by
    simp only [Json.isWord, Bool.and_eq_true, decide_eq_true_iff]
    omega
  cases h with
  | timestamp => exact word hwords.seconds_lt
  | span s hs =>
    have place {n : Nat} (hn : n ∈ [s.start.line, s.start.column, s.stop.line, s.stop.column]) :=
      word (hwords.place_lt s hs n hn)
    refine Json.membersExact_iff.2 fun m hm => ?_
    simp only [List.mem_cons, List.not_mem_nil, or_false] at hm
    rcases hm with rfl | rfl | rfl | rfl <;> exact place (by simp)
  | context =>
    refine Json.membersExact_iff.2 fun m hm => ?_
    obtain ⟨entry, -, rfl⟩ := List.mem_map.1 hm
    rfl
  | _ => rfl

theorem isExact_toJson (hwords : OfWords seconds e) : (e.toJson seconds).isExact = true := by
  rw [toJson_eq]
  exact Json.membersExact_iff.2 fun m hm => (mem_members.1 hm).isExact hwords

theorem visible_render (hwords : OfWords seconds e) : Json.Visible (e.render seconds).toList := by
  rw [render, Json.toList_render]
  exact Json.visible_chars _ (isExact_toJson hwords)

/-- The line of an event holds no control character, so it is one line.  Read as JSON it is
an object with sorted names that has what the line shows and nothing else. -/
theorem line_decodes (hwords : OfWords seconds e) :
    let line := e.render seconds
    Backend.structured.write seconds e = .line e.level line ∧
    (∀ b ∈ Text.toBytes line, 0x20 ≤ b) ∧
    ∃ members, Json.parse? line = some (.object members) ∧
      (members.map Prod.fst).Pairwise (· < ·) ∧
      ∀ name v, Json.member? members name = some v ↔ Shows seconds e name v := by
  intro line
  have sorted := sorted_members seconds e
  refine ⟨rfl, fun b hb => UInt8.le_iff_toNat_le.2 ?_, e.members seconds, ?_, sorted,
    fun name v => ?_⟩
  · exact Text.le_of_mem_encode (by decide) (visible_render hwords) hb
  · rw [← toJson_eq]
    exact Json.parse_render (isExact_toJson hwords)
  · rw [Json.member?_eq_some_iff sorted.nodup, mem_members]

/-- Quotes, backslashes, line ends and other control characters in every text of an event
come back, and so does what is not ASCII. -/
theorem line_decodes_escapes :
    let e : Event :=
      { level := .error, code := Code.illegalEscapeSequence,
        message := "a \"b\" \\n\n\x01 é😀",
        span := some ⟨⟨4, 2, 1⟩, ⟨9, 2, 6⟩⟩,
        context := [("\t\"", "\\"), ("kéy\n", "\x1f\r\n")] }
    OfWords 1700000000 e ∧
    ∃ members, Json.parse? (e.render 1700000000) = some (.object members) ∧
      Json.member? members "message" = some (.string "a \"b\" \\n\n\x01 é😀") ∧
      Json.member? members "context" =
        some (.object [("\t\"", .string "\\"), ("kéy\n", .string "\x1f\r\n")]) ∧
      Json.member? members "span" = some (.object
        [("end_column", .integer 6), ("end_line", .integer 2), ("start_column", .integer 1),
         ("start_line", .integer 2)]) ∧
      Json.member? members "level" = some (.string "ERROR") ∧
      Json.member? members "severity" = some (.string "High") := by
  intro e
  have words : OfWords 1700000000 e := by
    refine ⟨by decide, ?_⟩
    rintro s ⟨⟩
    decide
  obtain ⟨-, -, members, hparse, -, hmember⟩ := line_decodes words
  exact ⟨words, members, hparse, (hmember _ _).2 .message, (hmember _ _).2 (.context (by decide)),
    (hmember _ _).2 (.span ⟨⟨4, 2, 1⟩, ⟨9, 2, 6⟩⟩ rfl), (hmember _ _).2 .level,
    (hmember _ _).2 .severity⟩

end Event

/-! ## A stream of lines -/

theorem splitOn_lines {lines : List (List Char)} (h : ∀ l ∈ lines, '\n' ∉ l) :
    (lines.flatMap (· ++ ['\n'])).splitOn '\n' = lines ++ [[]] := by
  -- A line end behind every line is one between them with an empty line at the end.
  have ended : ∀ ls : List (List Char),
      ls.flatMap (· ++ ['\n']) = ['\n'].intercalate (ls ++ [[]]) := by
    intro ls
    induction ls with
    | nil => rfl
    | cons l ls ih =>
      rw [List.flatMap_cons, ih, List.cons_append,
        List.intercalate_cons_of_ne_nil (by simp)]
  rw [ended]
  refine List.splitOn_intercalate '\n' (fun l hl => ?_) (by simp)
  rcases List.mem_append.1 hl with hl | hl
  · exact h l hl
  · obtain rfl := List.mem_singleton.1 hl
    exact List.not_mem_nil

namespace Service

/-- A service writes the text of one event behind that of the others, on each stream. -/
theorem logAll_eq (s : Service) (seconds : Nat) (events : List Event) :
    (s.logAll seconds events).stdout.toList =
        events.flatMap (fun e => (s.log seconds e).stdout.toList) ∧
      (s.logAll seconds events).stderr.toList =
        events.flatMap (fun e => (s.log seconds e).stderr.toList) := by
  induction events using List.reverseRecOn with
  | nil => exact ⟨rfl, rfl⟩
  | append_singleton events e ih =>
    have step : s.logAll seconds (events ++ [e]) = s.logAll seconds events ++ s.log seconds e :=
      List.foldl_concat ..
    rw [step, List.flatMap_append, List.flatMap_append, List.flatMap_singleton,
      List.flatMap_singleton, ← ih.1, ← ih.2]
    exact ⟨String.toList_append, String.toList_append⟩

/-- The lines of some events. -/
def lines (seconds : Nat) (events : List Event) : List (List Char) :=
  events.map fun e => (e.render seconds).toList

/-- Texts that are a line for some events and nothing for the others. -/
theorem flatMap_lines {seconds : Nat} {test : Event → Bool} {text : Event → List Char}
    (h : ∀ e, text e = if test e then (e.render seconds).toList ++ ['\n'] else [])
    (events : List Event) :
    events.flatMap text = (lines seconds (events.filter test)).flatMap (· ++ ['\n']) := by
  induction events with
  | nil => rfl
  | cons e events ih =>
    rw [List.flatMap_cons, ih, h, List.filter_cons]
    split
    · rfl
    · rfl

/-- A service at level `threshold` writes a line for an event that it takes, on the stream
where the event belongs. -/
theorem log_structured (threshold : Level) (seconds : Nat) (e : Event) :
    let out := log ⟨threshold, .structured⟩ seconds e
    (out.stdout.toList =
        if threshold.admits e.level && !e.isError then (e.render seconds).toList ++ ['\n'] else []) ∧
      out.stderr.toList =
        if threshold.admits e.level && e.isError then (e.render seconds).toList ++ ['\n'] else [] := by
  intro out
  have text : out =
      if threshold.admits e.level then .line e.level (e.render seconds) else .nothing := rfl
  rw [text]
  cases threshold.admits e.level with
  | false => exact ⟨rfl, rfl⟩
  | true =>
    by_cases failed : e.level = .error
    · simp [Output.line, failed, Event.isError]
    · simp [Output.line, failed, Event.isError]

/-- The streams of a structured log are the lines of the events that the service takes, each
behind the other and in their order, errors apart from the rest. -/
theorem splitOn_logAll {seconds : Nat} {events : List Event}
    (hwords : ∀ e ∈ events, Event.OfWords seconds e) (threshold : Level) :
    let out := logAll ⟨threshold, .structured⟩ seconds events
    let taken := events.filter fun e => threshold.admits e.level && !e.isError
    let failed := events.filter fun e => threshold.admits e.level && e.isError
    out.stdout.toList.splitOn '\n' = lines seconds taken ++ [[]] ∧
      out.stderr.toList.splitOn '\n' = lines seconds failed ++ [[]] := by
  intro out taken failed
  have ended {test : Event → Bool} : ∀ l ∈ lines seconds (events.filter test), '\n' ∉ l := by
    intro l hl inside
    obtain ⟨e, he, rfl⟩ := List.mem_map.1 hl
    exact absurd (Event.visible_render (hwords e (List.mem_filter.1 he).1) _ inside) (by decide)
  obtain ⟨hout, herr⟩ := logAll_eq ⟨threshold, .structured⟩ seconds events
  constructor
  · rw [hout, flatMap_lines (fun e => (log_structured threshold seconds e).1)]
    exact splitOn_lines ended
  · rw [herr, flatMap_lines (fun e => (log_structured threshold seconds e).2)]
    exact splitOn_lines ended

end Service
end Log
end RuleLex
