/-
SsaTypes/Script/Literal.lean

The values that a program writes out.
-/
import SsaTypes.Ty.Basic

namespace SsaTypes

/-- A value written in the program. -/
inductive Literal
  | int (n : Int)
  /-- A number with a fraction, as its decimal text. -/
  | float (text : String)
  | bool (b : Bool)
  | string (s : String)
  | null
deriving DecidableEq, Repr

namespace Literal

/-- The name of the kind of value, as messages give it. -/
def kindName : Literal → String
  | .int _ => "int"
  | .float _ => "float"
  | .bool _ => "bool"
  | .string _ => "string"
  | .null => "null"

/-- The text of a string. -/
def string? : Literal → Option String
  | .string s => some s
  | _ => none

/-- The type of a literal.  Null is written as a constant, never as a literal,
and has none here. -/
def ty? : Literal → Option Ty
  | .int _ => some .int
  | .float _ => some .float
  | .bool _ => some .bool
  | .string _ => some .string
  | .null => none

end Literal

end SsaTypes
