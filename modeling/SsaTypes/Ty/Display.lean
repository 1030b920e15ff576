/-
SsaTypes/Ty/Display.lean

The text of a type.  Members are joined by `|` or `&`, an array is its element
followed by brackets, and a union or intersection inside another type stands
in parentheses:

    (A&B)|null     (int|string)[]     null|bool|int

The text is built as a list of characters, which is what the reader of
declarations consumes.
-/
import SsaTypes.Ty.Basic

namespace SsaTypes

/-- The sign between the members of a union or an intersection. -/
def Comb.sign : Comb → Char
  | .union => '|'
  | .inter => '&'

namespace Ty

/-- A text put in parentheses when it stands inside another. -/
def wrap (inside : Bool) (text : List Char) : List Char :=
  if inside then '(' :: text ++ [')'] else text

mutual

/-- The text of a type, standing alone or inside another type. -/
def text (inside : Bool) : Ty → List Char
  | .unknown => "unknown".toList
  | .null => "null".toList
  | .bool => "bool".toList
  | .int => "int".toList
  | .float => "float".toList
  | .string => "string".toList
  | .callable => "callable".toList
  | .object => "object".toList
  | .named c => c.toList
  | .array => "array".toList
  | .arrayOf e => text true e ++ ['[', ']']
  | .comb k ms => wrap inside (textMembers k.sign ms)

/-- The texts of members with a sign between them. -/
def textMembers (sign : Char) : List Ty → List Char
  | [] => []
  | [m] => text true m
  | m :: ms => text true m ++ sign :: textMembers sign ms

end

/-- The text of a type. -/
def display (t : Ty) : String :=
  String.ofList (text false t)

end Ty

end SsaTypes
