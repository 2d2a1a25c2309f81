/-
Limits from the build to the start of logging.

Limits are checked twice.  A build checks them, `Limits.check`, before it writes them as
constants, and the program checks those that logging depends on, `Limits.checkLogging`, when
it makes its logger.  `ofConstants?` reads the constants of a build back, so what the
program checks is what the build has written: `ofConstants_constants`.

The build asks more of every limit but one.  It puts no lower bound on the length of a log
message, and that is the one way for logging not to start in a program that was built:
`starts_of_check`.
-/
import Mathlib.Data.List.Basic
import RuleLex.Proofs.Json.RoundTrip
import RuleLex.Session

namespace RuleLex
namespace Limits

/-! ## What a build accepts -/

theorem check_eq_ok_iff {profile : String} {l : Limits} :
    l.check profile = .ok () ↔
      0 < l.maxIdentifierLength ∧
      (0 < l.maxLiteralSize ∧ l.maxLiteralSize ≤ absoluteMaxLiteralSize) ∧
      (0 < l.maxNestingDepth ∧ l.maxNestingDepth ≤ absoluteMaxNestingDepth) ∧
      (100 ≤ l.logBufferSize ∧ l.logBufferSize ≤ 100000) ∧
      (profile = "production" → l.maxLogMessageLength ≤ 4096) := by
  unfold check
  by_cases identifier : l.maxIdentifierLength = 0
  · rw [if_pos identifier]
    refine iff_of_false nofun ?_
    rintro ⟨pos, -⟩
    omega
  rw [if_neg identifier]
  by_cases literal : l.maxLiteralSize = 0 ∨ absoluteMaxLiteralSize < l.maxLiteralSize
  · rw [if_pos literal]
    refine iff_of_false nofun ?_
    rintro ⟨-, within, -⟩
    omega
  rw [if_neg literal]
  by_cases nesting : l.maxNestingDepth = 0 ∨ absoluteMaxNestingDepth < l.maxNestingDepth
  · rw [if_pos nesting]
    refine iff_of_false nofun ?_
    rintro ⟨-, -, within, -⟩
    omega
  rw [if_neg nesting]
  by_cases buffer : l.logBufferSize < 100 ∨ 100000 < l.logBufferSize
  · rw [if_pos buffer]
    refine iff_of_false nofun ?_
    rintro ⟨-, -, -, within, -⟩
    omega
  rw [if_neg buffer]
  by_cases messages : profile = "production" ∧ 4096 < l.maxLogMessageLength
  · rw [if_pos messages]
    refine iff_of_false nofun ?_
    rintro ⟨-, -, -, -, within⟩
    exact absurd messages.2 (Nat.not_lt.2 (within messages.1))
  rw [if_neg messages]
  exact iff_of_true rfl ⟨by omega, by omega, by omega, by omega,
    fun production => Nat.not_lt.1 fun long => messages ⟨production, long⟩⟩

/-! ## Constants -/

/-- A constant of a build. -/
inductive Constant where
  | maxIdentifierLength
  | maxLiteralSize
  | maxNestingDepth
  | logBufferSize
  | maxLogMessageLength
deriving DecidableEq, Repr

namespace Constant

def all : List Constant :=
  [.maxIdentifierLength, .maxLiteralSize, .maxNestingDepth, .logBufferSize, .maxLogMessageLength]

def value (l : Limits) : Constant → Nat
  | .maxIdentifierLength => l.maxIdentifierLength
  | .maxLiteralSize => l.maxLiteralSize
  | .maxNestingDepth => l.maxNestingDepth
  | .logBufferSize => l.logBufferSize
  | .maxLogMessageLength => l.maxLogMessageLength

/-- The text in front of the value of a constant. -/
def head : Constant → List Char
  | .maxIdentifierLength => "        pub const MAX_IDENTIFIER_LENGTH: usize = ".toList
  | .maxLiteralSize => "        pub const MAX_LITERAL_SIZE: usize = ".toList
  | .maxNestingDepth => "        pub const MAX_HEX_NESTING_DEPTH: usize = ".toList
  | .logBufferSize => "        pub const LOG_BUFFER_SIZE: usize = ".toList
  | .maxLogMessageLength => "        pub const MAX_LOG_MESSAGE_LENGTH: usize = ".toList

/-- The line that gives a constant its value. -/
def line (l : Limits) (k : Constant) : List Char :=
  k.head ++ (Nat.toDigits 10 (k.value l) ++ [';'])

/-- The value that a line gives a constant. -/
def declared? (k : Constant) (line : List Char) : Option Nat :=
  (k.head.isPrefixOf? line).bind fun rest =>
    if rest.getLast? = some ';' then (Json.digits? rest.dropLast).map Json.decimal else none

/-- The value that a text gives a constant.  A profile can have lines of its own in its
name, so the last line that gives it one counts. -/
def read? (k : Constant) (text : String) : Option Nat :=
  (text.toList.splitOn '\n').reverse.findSome? k.declared?

theorem mem_all (k : Constant) : k ∈ all := by cases k <;> decide

/-- A line gives a value to its own constant only. -/
theorem declared_line (l : Limits) (k other : Constant) :
    k.declared? (other.line l) = if k = other then some (k.value l) else none := by
  by_cases same : k = other
  · subst same
    have rest : k.head.isPrefixOf? (k.line l) = some (Nat.toDigits 10 (k.value l) ++ [';']) :=
      List.isPrefixOf?_eq_some_iff_append_eq.2 rfl
    have digits : Json.digits? (Nat.toDigits 10 (k.value l)) =
        some (Nat.toDigits 10 (k.value l)) :=
      if_pos ⟨Nat.toDigits_ne_nil, List.all_eq_true.2 fun _ => Json.isDigit_of_mem_toDigits⟩
    simp only [declared?, rest, Option.bind_some, List.getLast?_concat, List.dropLast_concat,
      digits, Option.map_some, Json.decimal_toDigits, if_true]
  · have apart : ∀ k ∈ all, ∀ other ∈ all, k ≠ other → ¬ k.head <+: other.head := by decide +kernel
    have foreign : k.head.isPrefixOf? (other.line l) = none := by
      refine Option.eq_none_iff_forall_ne_some.2 fun rest found => ?_
      have mine : k.head <+: other.line l :=
        ⟨rest, List.isPrefixOf?_eq_some_iff_append_eq.1 found⟩
      rcases List.prefix_or_prefix_of_prefix mine (List.prefix_append _ _) with h | h
      · exact apart k (mem_all k) other (mem_all other) same h
      · exact apart other (mem_all other) k (mem_all k) (Ne.symm same) h
    rw [declared?, foreign, if_neg same, Option.bind_none]

theorem newline_not_mem_line (l : Limits) (k : Constant) : '\n' ∉ k.line l := by
  have heads : ∀ k ∈ all, '\n' ∉ k.head := by decide +kernel
  intro inside
  rcases List.mem_append.1 inside with inside | inside
  · exact heads k (mem_all k) inside
  · rcases List.mem_append.1 inside with inside | inside
    · exact absurd (Json.isDigit_of_mem_toDigits inside) (by decide)
    · exact absurd inside (by decide)

end Constant

/-! ## The text that a build writes -/

/-- A line of what a build writes. -/
inductive Row where
  | text (s : String)
  | constant (k : Constant)
deriving DecidableEq, Repr

def Row.chars (l : Limits) : Row → List Char
  | .text s => s.toList
  | .constant k => k.line l

/-- The lines below the one with the profile. -/
def rows : List Row :=
  [.text "// DO NOT EDIT - Generated by build.rs", .text "", .text "pub mod compile_time \x7b",
   .text "    pub mod lexical \x7b",
   .constant .maxIdentifierLength, .constant .maxLiteralSize, .constant .maxNestingDepth,
   .text "    \x7d", .text "", .text "    pub mod logging \x7b",
   .constant .logBufferSize, .constant .maxLogMessageLength,
   .text "    \x7d", .text "\x7d", .text ""]

/-- A text is one line that gives no constant a value. -/
def Row.IsSilent : Row → Prop
  | .text s => '\n' ∉ s.toList ∧ ∀ k ∈ Constant.all, k.declared? s.toList = none
  | .constant _ => True

instance : DecidablePred Row.IsSilent
  | .text s =>
    inferInstanceAs
      (Decidable ('\n' ∉ s.toList ∧ ∀ k ∈ Constant.all, k.declared? s.toList = none))
  | .constant _ => inferInstanceAs (Decidable True)

theorem isSilent_of_mem_rows : ∀ r ∈ rows, r.IsSilent := by decide +kernel

theorem newline_not_mem_chars (l : Limits) {r : Row} (h : r ∈ rows) : '\n' ∉ r.chars l := by
  cases r with
  | text s => exact (isSilent_of_mem_rows _ h).1
  | constant k => exact k.newline_not_mem_line l

theorem declared_chars (l : Limits) (k : Constant) {r : Row} (h : r ∈ rows) :
    k.declared? (r.chars l) = if r = .constant k then some (k.value l) else none := by
  cases r with
  | text s => exact (isSilent_of_mem_rows _ h).2 k k.mem_all
  | constant other =>
    simp only [Row.chars, Constant.declared_line, Row.constant.injEq, @eq_comm _ other]

/-- The rows stand at the end of what a build writes. -/
theorem toList_constants (profile : String) (l : Limits) :
    ∃ top, (l.constants profile).toList =
      top ++ '\n' :: ['\n'].intercalate (rows.map (Row.chars l)) := by
  have lineEnd : "\n".toList = ['\n'] := by decide
  have given (start : String) (n : Nat) :
      (toString start ++ toString n ++ toString ";").toList =
        start.toList ++ (Nat.toDigits 10 n ++ [';']) := by
    have stop : (toString ";").toList = [';'] := by decide
    rw [String.toList_append, String.toList_append, List.append_assoc, stop]
    exact congrArg (fun digits => start.toList ++ (digits ++ [';'])) Nat.toList_repr
  have below (first second third : List Char) {rest : List (List Char)} (h : rest ≠ []) :
      ∃ top, ['\n'].intercalate (first :: second :: third :: rest) =
        top ++ '\n' :: ['\n'].intercalate rest :=
    ⟨first ++ '\n' :: (second ++ '\n' :: third), by simp [List.intercalate_cons_of_ne_nil, h]⟩
  rw [constants, String.toList_intercalate, lineEnd]
  simp only [List.map_cons, List.map_nil, given]
  exact below _ _ _ (List.cons_ne_nil _ _)

/-- Whatever the profile is, a constant has the value that the build has given it. -/
theorem read_constants (profile : String) (l : Limits) (k : Constant) :
    k.read? (l.constants profile) = some (k.value l) := by
  have rowsRead : (rows.map (Row.chars l)).reverse.findSome? k.declared? = some (k.value l) := by
    cases found : (rows.map (Row.chars l)).reverse.findSome? k.declared? with
    | none =>
      have written : .constant k ∈ rows := by cases k <;> decide
      have missed := List.findSome?_eq_none_iff.1 found (k.line l)
        (List.mem_reverse.2 (List.mem_map.2 ⟨.constant k, written, rfl⟩))
      rw [k.declared_line, if_pos rfl] at missed
      cases missed
    | some n =>
      obtain ⟨line, inside, given⟩ := List.exists_of_findSome?_eq_some found
      obtain ⟨r, hr, rfl⟩ := List.mem_map.1 (List.mem_reverse.1 inside)
      rw [declared_chars l k hr] at given
      exact (Option.ite_none_right_eq_some.1 given).2.symm
  obtain ⟨top, text⟩ := toList_constants profile l
  have split : (l.constants profile).toList.splitOn '\n' =
      top.splitOn '\n' ++ rows.map (Row.chars l) := by
    have oneLine : ∀ line ∈ rows.map (Row.chars l), '\n' ∉ line := by
      intro line inside
      obtain ⟨r, hr, rfl⟩ := List.mem_map.1 inside
      exact newline_not_mem_chars l hr
    rw [text]
    calc (top ++ '\n' :: ['\n'].intercalate (rows.map (Row.chars l))).splitOn '\n'
        = top.splitOn '\n' ++ (['\n'].intercalate (rows.map (Row.chars l))).splitOn '\n' :=
          List.splitOnP_append_cons (p := (· == '\n')) top _ (beq_self_eq_true _)
      _ = top.splitOn '\n' ++ rows.map (Row.chars l) := by
          rw [List.splitOn_intercalate '\n' oneLine (List.cons_ne_nil _ _)]
  rw [Constant.read?, split, List.reverse_append, List.findSome?_append, rowsRead, Option.some_or]

/-- The limits that the constants of a build give. -/
def ofConstants? (text : String) : Option Limits := do
  let maxIdentifierLength ← Constant.maxIdentifierLength.read? text
  let maxLiteralSize ← Constant.maxLiteralSize.read? text
  let maxNestingDepth ← Constant.maxNestingDepth.read? text
  let logBufferSize ← Constant.logBufferSize.read? text
  let maxLogMessageLength ← Constant.maxLogMessageLength.read? text
  return { maxIdentifierLength, maxLiteralSize, maxNestingDepth, logBufferSize,
           maxLogMessageLength }

theorem ofConstants_constants (profile : String) (l : Limits) :
    ofConstants? (l.constants profile) = some l := by
  simp only [ofConstants?, read_constants]
  rfl

end Limits

namespace Session

open Limits

/-! ## Starting in a program that was built -/

/-- Starts logging in a program that was built with some limits. -/
def startLoggingWith (built : Limits) (p : Session) :
    Except InstallError (Session × List Log.Event) :=
  match built.checkLogging with
  | .error fault => .error (.badLimits fault)
  | .ok () =>
    match p.installLogger p.configuredService with
    | .error e => .error e
    | .ok after => .ok (after, [initializationReport])

theorem startLogging_eq_startLoggingWith (p : Session) :
    p.startLogging = p.startLoggingWith limits := rfl

/-- What a build accepts and writes starts logging in every new session, whatever the
environment asks for, unless log messages are shorter than 64 bytes.  Then it fails because
of that. -/
theorem starts_of_check {profile : String} {l : Limits} (h : l.check profile = .ok ())
    (environment : Environment) :
    ∃ built, ofConstants? (l.constants profile) = some built ∧
      let p := fresh environment
      (64 ≤ l.maxLogMessageLength →
        p.startLoggingWith built =
          .ok ({ p with logger := some p.configuredService }, [initializationReport])) ∧
      (l.maxLogMessageLength < 64 →
        p.startLoggingWith built =
          .error (.badLimits (.shortMessages l.maxLogMessageLength))) := by
  obtain ⟨-, -, -, ⟨buffer, -⟩, -⟩ := check_eq_ok_iff.1 h
  have hbuffer : l.logBufferSize ≠ 0 := by omega
  refine ⟨l, ofConstants_constants profile l, fun long => ?_, fun short => ?_⟩
  · have accepted : l.checkLogging = .ok () := by
      rw [checkLogging, if_neg hbuffer, if_neg (Nat.not_lt.2 long)]
    simp only [startLoggingWith, accepted]
    rfl
  · have refused : l.checkLogging = .error (.shortMessages l.maxLogMessageLength) := by
      rw [checkLogging, if_neg hbuffer, if_pos short]
    simp only [startLoggingWith, refused]

/-- The shortest messages that start logging, and the largest buffer. -/
theorem starts_of_check_least :
    let l : Limits := { limits with logBufferSize := 100000, maxLogMessageLength := 64 }
    l.check "production" = .ok () ∧
      ∃ built, ofConstants? (l.constants "production") = some built ∧
        startLoggingWith built (fresh []) =
          .ok ({ fresh [] with logger := some (fresh []).configuredService },
            [initializationReport]) := by
  intro l
  have accepted : l.check "production" = .ok () := by decide
  obtain ⟨built, read, starts, -⟩ := starts_of_check accepted []
  exact ⟨accepted, built, read, starts (by decide)⟩

/-- Limits that a build accepts and that keep logging from starting. -/
theorem short_messages_built :
    let l : Limits := { limits with maxLogMessageLength := 63 }
    l.check "development" = .ok () ∧
      ∃ built, ofConstants? (l.constants "development") = some built ∧
        ∃ e, startLoggingWith built (fresh []) = .error e ∧
          e.message = "Configuration validation failed: Max log message length too small: 63" :=
  ⟨by decide, _, ofConstants_constants _ _, .badLimits (.shortMessages 63), rfl, by decide⟩

end Session
end RuleLex
