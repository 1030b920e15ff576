/-
SsaTypes/Ty/Form.lean

The JSON form of a type.  A kind without parts is its name; any other type is
an object whose one member names the kind and holds the part, null standing
for an unknown class or element:

    "Long"    {"Object":"Foo"}    {"Array":null}    {"Union":["Null","Long"]}
-/
import SsaTypes.Json.Basic
import SsaTypes.Ty.Basic

namespace SsaTypes

/-- The name of a combinator in the JSON form. -/
def Comb.form : Comb → String
  | .union => "Union"
  | .inter => "Intersection"

/-- The combinator with a given name in the JSON form. -/
def Comb.ofForm? (name : String) : Option Comb :=
  [Comb.union, Comb.inter].find? fun k => k.form = name

namespace Ty

mutual

/-- The JSON form of a type. -/
def toJson : Ty → Json
  | .unknown => .string "Unknown"
  | .null => .string "Null"
  | .bool => .string "Boolean"
  | .int => .string "Long"
  | .float => .string "Double"
  | .string => .string "String"
  | .callable => .string "Callable"
  | .object => .object [("Object", .null)]
  | .named c => .object [("Object", .string c)]
  | .array => .object [("Array", .null)]
  | .arrayOf e => .object [("Array", toJson e)]
  | .comb k ms => .object [(k.form, .array (toJsonAll ms))]

/-- The JSON forms of the types of a list. -/
def toJsonAll : List Ty → List Json
  | [] => []
  | t :: ts => toJson t :: toJsonAll ts

end

/-- The kind without parts that a name stands for. -/
def ofForm? (name : String) : Option Ty :=
  match name with
  | "Unknown" => some .unknown
  | "Null" => some .null
  | "Boolean" => some .bool
  | "Long" => some .int
  | "Double" => some .float
  | "String" => some .string
  | "Callable" => some .callable
  | _ => none

mutual

/-- The type with a given JSON form. -/
def ofJson? : Json → Option Ty
  | .string name => ofForm? name
  | .object [("Object", .null)] => some .object
  | .object [("Object", .string c)] => some (.named c)
  | .object [("Array", .null)] => some .array
  | .object [("Array", j)] => (ofJson? j).map .arrayOf
  | .object [(name, .array js)] =>
    (Comb.ofForm? name).bind fun k => (ofJsonAll? js).map (.comb k)
  | _ => none

/-- The types with the given JSON forms. -/
def ofJsonAll? : List Json → Option (List Ty)
  | [] => some []
  | j :: js => (ofJson? j).bind fun t => (ofJsonAll? js).map (t :: ·)

end

end Ty

end SsaTypes
