/-
SsaTypes/Script/OpForm.lean

The JSON form of operations: an object whose one member is named for the kind
and holds the fields.  An optional field that is missing or null is not there.

    {"Binary":{"op":"Plus","left":0,"right":1}}
-/
import SsaTypes.Script.Op
import SsaTypes.Ty.Form

namespace SsaTypes

/-! ### Fields of an object -/

namespace Json

/-- A required field. -/
def need? {α : Type} (read : Json → Option α) (j : Json) (name : String) : Option α :=
  (j.get? name).bind read

/-- An optional field. -/
def want? {α : Type} (read : Json → Option α) (j : Json) (name : String) : Option (Option α) :=
  match j.get? name with
  | none => some none
  | some v => v.orNull? read

/-- An object with one member. -/
def tagged (name : String) (fields : List (String × Json)) : Json :=
  .object [(name, .object fields)]

/-- The value of a given form among all values with their forms. -/
def named? {α : Type} (form : α → String) (all : List α) (j : Json) : Option α :=
  j.string?.bind fun name => all.find? fun a => form a = name

end Json

open Json

/-! ### Guards -/

namespace TypeTest

mutual

/-- The JSON form of a test. -/
def toJson : TypeTest → Json
  | .operand id => .object [("Operand", ofNat id)]
  | .comb k ms =>
    tagged "Composite" [("mode", .string k.form), ("members", .array (toJsonAll ms))]

/-- The JSON forms of the tests of a list. -/
def toJsonAll : List TypeTest → List Json
  | [] => []
  | t :: ts => toJson t :: toJsonAll ts

end

mutual

/-- The test with a given JSON form. -/
def ofJson? : Json → Option TypeTest
  | .object [("Operand", j)] => j.nat?.map .operand
  | .object [("Composite", .object fields)] =>
    ((lookup "mode" fields).bind string?).bind fun mode =>
      (Comb.ofForm? mode).bind fun k => (membersIn? fields).map (.comb k)
  | _ => none

/-- The tests under the name of the members. -/
def membersIn? : List (String × Json) → Option (List TypeTest)
  | [] => none
  | ("members", .array js) :: _ => ofJsonAll? js
  | _ :: fields => membersIn? fields

/-- The tests with the given JSON forms. -/
def ofJsonAll? : List Json → Option (List TypeTest)
  | [] => some []
  | j :: js => (ofJson? j).bind fun t => (ofJsonAll? js).map (t :: ·)

end

end TypeTest

namespace Guard

/-- The JSON form of a guard. -/
def toJson : Guard → Json
  | .holds t => .object [("Type", t.toJson)]
  | .fails g => .object [("Negated", g.toJson)]

/-- The guard with a given JSON form. -/
def ofJson? : Json → Option Guard
  | .object [("Type", j)] => (TypeTest.ofJson? j).map .holds
  | .object [("Negated", j)] => (ofJson? j).map .fails
  | _ => none

end Guard

/-! ### Operations -/

namespace Op

/-- The JSON form of the number of an operand that may be missing. -/
def idOrNull : Option Nat → Json := Json.ofOption ofNat

/-- The JSON form of a list of operands. -/
def idList : List Nat → Json := Json.ofList ofNat

/-- The JSON form of a text that may be missing. -/
def textOrNull : Option String → Json := Json.ofOption Json.string

/-- The fields of an operation, under their names. -/
def fields : Op → List (String × Json)
  | .binary op l r => [("op", .string op.name), ("left", ofNat l), ("right", ofNat r)]
  | .unary op e => [("op", .string op.name), ("expr", ofNat e)]
  | .cast k e => [("kind", .string k.name), ("expr", ofNat e)]
  | .instanceOf e c => [("expr", ofNat e), ("class", ofNat c)]
  | .empty e => [("expr", ofNat e)]
  | .isset vs => [("vars", idList vs)]
  | .concatList l => [("list", idList l)]
  | .print e => [("expr", ofNat e)]
  | .exit e => [("expr", idOrNull e)]
  | .evaluate e => [("expr", ofNat e)]
  | .includeFile e => [("expr", ofNat e)]
  | .yield v k => [("value", idOrNull v), ("key", idOrNull k)]
  | .iterator k v => [("kind", .string k.name), ("var", ofNat v)]
  | .array ks vs => [("keys", Json.ofList idOrNull ks), ("values", idList vs)]
  | .dimFetch v d => [("var", ofNat v), ("dim", idOrNull d)]
  | .assign v e => [("var", ofNat v), ("expr", ofNat e)]
  | .assignRef v e => [("var", ofNat v), ("expr", ofNat e)]
  | .clone e => [("expr", ofNat e)]
  | .closure f => [("function", ofNat f)]
  | .call n as => [("name", ofNat n), ("args", idList as)]
  | .create c as => [("class", ofNat c), ("args", idList as)]
  | .param n t d f =>
    [("name", .string n), ("declared_type", textOrNull t), ("default", idOrNull d),
     ("function", idOrNull f)]
  | .staticCall c n as => [("class", ofNat c), ("name", ofNat n), ("args", idList as)]
  | .methodCall v n as => [("var", ofNat v), ("name", ofNat n), ("args", idList as)]
  | .propertyFetch v n => [("var", ofNat v), ("name", ofNat n)]
  | .staticPropertyFetch c n => [("class", ofNat c), ("name", ofNat n)]
  | .guarded e g => [("expr", ofNat e), ("assertion", g.toJson)]
  | .constFetch n => [("name", ofNat n)]
  | .classConstFetch c n => [("class", ofNat c), ("name", ofNat n)]
  | .phi vs => [("vars", idList vs)]

/-- The name that stands before the fields. -/
def tag : Op → String
  | .binary .. => "Binary"
  | op => op.kindName

/-- The JSON form of an operation. -/
def toJson (op : Op) : Json := tagged op.tag op.fields

/-- The operation with a given tag and fields. -/
def ofFields? (tag : String) (j : Json) : Option Op :=
  let id := need? nat? j
  let id? := want? nat? j
  let ids := need? (list? nat?) j
  match tag with
  | "Binary" => do
    some (.binary (← need? (named? BinaryOp.name BinaryOp.all) j "op") (← id "left") (← id "right"))
  | "Unary" => do
    some (.unary (← need? (named? UnaryOp.name UnaryOp.all) j "op") (← id "expr"))
  | "Cast" => do
    some (.cast (← need? (named? CastKind.name CastKind.all) j "kind") (← id "expr"))
  | "InstanceOf" => do some (.instanceOf (← id "expr") (← id "class"))
  | "Empty" => do some (.empty (← id "expr"))
  | "Isset" => do some (.isset (← ids "vars"))
  | "ConcatList" => do some (.concatList (← ids "list"))
  | "Print" => do some (.print (← id "expr"))
  | "Exit" => do some (.exit (← id? "expr"))
  | "Eval" => do some (.evaluate (← id "expr"))
  | "Include" => do some (.includeFile (← id "expr"))
  | "Yield" => do some (.yield (← id? "value") (← id? "key"))
  | "Iterator" => do
    some (.iterator (← need? (named? IteratorOp.name IteratorOp.all) j "kind") (← id "var"))
  | "Array" => do some (.array (← need? (list? (orNull? nat?)) j "keys") (← ids "values"))
  | "ArrayDimFetch" => do some (.dimFetch (← id "var") (← id? "dim"))
  | "Assign" => do some (.assign (← id "var") (← id "expr"))
  | "AssignRef" => do some (.assignRef (← id "var") (← id "expr"))
  | "Clone" => do some (.clone (← id "expr"))
  | "Closure" => do some (.closure (← id "function"))
  | "FuncCall" => do some (.call (← id "name") (← ids "args"))
  | "New" => do some (.create (← id "class") (← ids "args"))
  | "Param" => do
    some (.param (← need? string? j "name") (← want? string? j "declared_type") (← id? "default")
      (← id? "function"))
  | "StaticCall" => do some (.staticCall (← id "class") (← id "name") (← ids "args"))
  | "MethodCall" => do some (.methodCall (← id "var") (← id "name") (← ids "args"))
  | "PropertyFetch" => do some (.propertyFetch (← id "var") (← id "name"))
  | "StaticPropertyFetch" => do some (.staticPropertyFetch (← id "class") (← id "name"))
  | "Assertion" => do some (.guarded (← id "expr") (← need? Guard.ofJson? j "assertion"))
  | "ConstFetch" => do some (.constFetch (← id "name"))
  | "ClassConstFetch" => do some (.classConstFetch (← id "class") (← id "name"))
  | "Phi" => do some (.phi (← ids "vars"))
  | _ => none

/-- The operation with a given JSON form. -/
def ofJson? : Json → Option Op
  | .object [(tag, body)] => ofFields? tag body
  | _ => none

end Op

end SsaTypes
