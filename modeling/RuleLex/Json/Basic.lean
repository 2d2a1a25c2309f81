/-
JSON values.

Numbers keep apart what a decoder has to tell apart: integers that fit a signed
or an unsigned 64-bit word, and everything else as a floating point number.
Objects keep their members in the order given.
-/
import RuleLex.Binary64.Basic

namespace RuleLex

/-- A JSON value. -/
inductive Json where
  | null
  | bool (value : Bool)
  | integer (value : Int)
  | float (value : Binary64)
  | string (value : String)
  | array (items : List Json)
  | object (members : List (String × Json))
deriving Repr, Inhabited

namespace Json

/-- The member of an object by name; the last one wins when a name is repeated. -/
def member? (members : List (String × Json)) (name : String) : Option Json :=
  (members.reverse.find? fun m => m.1 == name).map Prod.snd

/-- The integers a reader keeps as such. -/
def isWord (n : Int) : Bool := -0x8000000000000000 ≤ n && n < UInt64.size

end Json
end RuleLex
