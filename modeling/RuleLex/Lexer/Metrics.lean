/-
What a lexer counts.

The counts by class are kept only when detailed metrics are asked for; without
them all six stay zero.
-/
import RuleLex.Token.Basic

namespace RuleLex

/-- How many tokens there are of each class. -/
structure ClassCounts where
  keyword : Nat
  operator : Nat
  identifier : Nat
  literal : Nat
  punctuation : Nat
  finish : Nat
deriving DecidableEq, Repr

namespace ClassCounts

def zero : ClassCounts where
  keyword := 0
  operator := 0
  identifier := 0
  literal := 0
  punctuation := 0
  finish := 0

/-- The count of a class. -/
def count (c : ClassCounts) : TokenClass → Nat
  | .keyword => c.keyword
  | .operator => c.operator
  | .identifier => c.identifier
  | .literal => c.literal
  | .punctuation => c.punctuation
  | .finish => c.finish

/-- One more token of a class. -/
def add (c : ClassCounts) : TokenClass → ClassCounts
  | .keyword => { c with keyword := c.keyword + 1 }
  | .operator => { c with operator := c.operator + 1 }
  | .identifier => { c with identifier := c.identifier + 1 }
  | .literal => { c with literal := c.literal + 1 }
  | .punctuation => { c with punctuation := c.punctuation + 1 }
  | .finish => { c with finish := c.finish + 1 }

/-- The classes that occur, in their order, with their counts. -/
def occurring (c : ClassCounts) : List (TokenClass × Nat) :=
  (TokenClass.all.map fun k => (k, c.count k)).filter fun e => e.2 != 0

theorem count_add (c : ClassCounts) (a k : TokenClass) :
    (c.add a).count k = c.count k + if a = k then 1 else 0 := by
  cases a <;> cases k <;> rfl

end ClassCounts

/-- The counts of one lexer. -/
structure Metrics where
  total : Nat
  classes : ClassCounts
  maxLiteralLength : Nat
  comments : Nat
  errors : Nat
  transitions : Nat
deriving DecidableEq, Repr

namespace Metrics

def zero : Metrics where
  total := 0
  classes := .zero
  maxLiteralLength := 0
  comments := 0
  errors := 0
  transitions := 0

/-- One more token. -/
def addToken (m : Metrics) (detailed : Bool) (t : Token) : Metrics :=
  { m with
    total := m.total + 1,
    classes := if detailed then m.classes.add t.tokenClass else m.classes }

/-- One more closed literal with a content of some length. -/
def addLiteral (m : Metrics) (length : Nat) : Metrics :=
  { m with maxLiteralLength := max m.maxLiteralLength length }

def addComment (m : Metrics) : Metrics := { m with comments := m.comments + 1 }

def addError (m : Metrics) : Metrics := { m with errors := m.errors + 1 }

def addTransition (m : Metrics) : Metrics := { m with transitions := m.transitions + 1 }

end Metrics
end RuleLex
