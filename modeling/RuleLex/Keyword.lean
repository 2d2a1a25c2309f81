/-
The reserved words of the rule language.

A word is reserved only as a whole and only in lower case.  Beside the keywords
stand the sized read functions `u?int(8|16|32)(be)?`, which are ordinary names
with a kind of their own.
-/
import RuleLex.Ascii

namespace RuleLex

/-- A reserved word: rule structure, string modifiers, boolean literals,
condition operators, quantifiers, built-in values. -/
inductive Keyword where
  | kwPrivate | kwGlobal | kwRule | kwMeta | kwStrings | kwCondition | kwImport | kwInclude
  | kwAscii | kwBase64 | kwWide | kwXor | kwFullword | kwNocase
  | kwTrue | kwFalse
  | kwNot | kwAnd | kwOr | kwAt | kwIn | kwOf | kwMatches | kwContains
  | kwThem | kwFor | kwAll | kwAny
  | kwEntrypoint | kwFilesize
deriving DecidableEq, Repr

namespace Keyword

/-- Every keyword, in the order of declaration. -/
def all : List Keyword :=
  [.kwPrivate, .kwGlobal, .kwRule, .kwMeta, .kwStrings, .kwCondition, .kwImport, .kwInclude,
   .kwAscii, .kwBase64, .kwWide, .kwXor, .kwFullword, .kwNocase,
   .kwTrue, .kwFalse,
   .kwNot, .kwAnd, .kwOr, .kwAt, .kwIn, .kwOf, .kwMatches, .kwContains,
   .kwThem, .kwFor, .kwAll, .kwAny,
   .kwEntrypoint, .kwFilesize]

/-- The exact spelling in rule source. -/
def spelling : Keyword → String
  | .kwPrivate => "private" | .kwGlobal => "global" | .kwRule => "rule"
  | .kwMeta => "meta" | .kwStrings => "strings" | .kwCondition => "condition"
  | .kwImport => "import" | .kwInclude => "include"
  | .kwAscii => "ascii" | .kwBase64 => "base64" | .kwWide => "wide"
  | .kwXor => "xor" | .kwFullword => "fullword" | .kwNocase => "nocase"
  | .kwTrue => "true" | .kwFalse => "false"
  | .kwNot => "not" | .kwAnd => "and" | .kwOr => "or"
  | .kwAt => "at" | .kwIn => "in" | .kwOf => "of"
  | .kwMatches => "matches" | .kwContains => "contains"
  | .kwThem => "them" | .kwFor => "for" | .kwAll => "all"
  | .kwAny => "any"
  | .kwEntrypoint => "entrypoint" | .kwFilesize => "filesize"

/-- The name under which diagnostics and stored tokens know the keyword. -/
def name : Keyword → String
  | .kwPrivate => "Private" | .kwGlobal => "Global" | .kwRule => "Rule"
  | .kwMeta => "Meta" | .kwStrings => "Strings" | .kwCondition => "Condition"
  | .kwImport => "Import" | .kwInclude => "Include"
  | .kwAscii => "Ascii" | .kwBase64 => "Base64" | .kwWide => "Wide"
  | .kwXor => "Xor" | .kwFullword => "Fullword" | .kwNocase => "Nocase"
  | .kwTrue => "True" | .kwFalse => "False"
  | .kwNot => "Not" | .kwAnd => "And" | .kwOr => "Or"
  | .kwAt => "At" | .kwIn => "In" | .kwOf => "Of"
  | .kwMatches => "Matches" | .kwContains => "Contains"
  | .kwThem => "Them" | .kwFor => "For" | .kwAll => "All"
  | .kwAny => "Any"
  | .kwEntrypoint => "Entrypoint" | .kwFilesize => "Filesize"

/-- The spelling as source bytes. -/
def bytes (k : Keyword) : List UInt8 := Ascii.bytes k.spelling

/-- The keyword that a whole word spells. -/
def ofText? (word : String) : Option Keyword := all.find? fun k => k.spelling == word

/-- The keyword that a whole run of source bytes spells. -/
def ofBytes? (word : List UInt8) : Option Keyword := all.find? fun k => k.bytes == word

def ofName? (name : String) : Option Keyword := all.find? fun k => k.name == name

/-- The place of the keyword in the order of declaration. -/
def index (k : Keyword) : Nat := all.idxOf k

/-- Modifiers that may follow a string definition. -/
def isStringModifier : Keyword → Bool
  | .kwAscii | .kwBase64 | .kwWide | .kwXor | .kwFullword | .kwNocase => true
  | _ => false

/-- Words that start or qualify a rule declaration. -/
def isRuleQualifier : Keyword → Bool
  | .kwPrivate | .kwGlobal | .kwRule => true
  | _ => false

def isBooleanLiteral : Keyword → Bool
  | .kwTrue | .kwFalse => true
  | _ => false

theorem mem_all (k : Keyword) : k ∈ all := by
  cases k <;> decide

end Keyword

/-- The names of the sized read functions: signed or not, a width, and
little-endian unless marked. -/
def integerFunctionNames : List (List UInt8) :=
  ["", "u"].flatMap fun sign =>
    ["8", "16", "32"].flatMap fun width =>
      ["", "be"].map fun order => Ascii.bytes (sign ++ "int" ++ width ++ order)

def isIntegerFunction (word : List UInt8) : Bool := integerFunctionNames.contains word

end RuleLex
