/-
SsaTypes/Script/Form.lean

The JSON form of a script: one array for each of its lists, every entry an
object with the fields of the entry.
-/
import SsaTypes.Script.Basic
import SsaTypes.Script.OpForm

namespace SsaTypes

open Json

/-! ### Literals and operands -/

namespace Literal

/-- The JSON form of a literal. -/
def toJson : Literal → Json
  | .int n => .object [("Int", .int n)]
  | .float text => .object [("Float", .decimal text)]
  | .bool b => .object [("Bool", .bool b)]
  | .string s => .object [("String", .string s)]
  | .null => .string "Null"

/-- The literal with a given JSON form.  A number without a fraction is a
whole float. -/
def ofJson? : Json → Option Literal
  | .object [("Int", .int n)] => some (.int n)
  | .object [("Float", .decimal text)] => some (.float text)
  | .object [("Float", .int n)] => some (.float (toString n ++ ".0"))
  | .object [("Bool", .bool b)] => some (.bool b)
  | .object [("String", .string s)] => some (.string s)
  | .string "Null" => some .null
  | _ => none

end Literal

/-- The name of a scope in the JSON form. -/
def Scope.form : Scope → String
  | .globals => "Global"
  | .locals => "Local"
  | .receiver => "Object"
  | .function => "Function"

/-- The scope with a given name in the JSON form. -/
def Scope.ofJson? : Json → Option Scope :=
  named? Scope.form [.globals, .locals, .receiver, .function]

namespace OperandKind

/-- The JSON form of what an operand is. -/
def toJson : OperandKind → Json
  | .variable name => tagged "Variable" [("name", Op.textOrNull name)]
  | .literal v => .object [("Literal", v.toJson)]
  | .bound name scope owner =>
    tagged "Bound"
      [("name", .string name), ("scope", .string scope.form), ("owner", Op.textOrNull owner)]

/-- What an operand with a given JSON form is. -/
def ofJson? : Json → Option OperandKind
  | .object [("Variable", j)] => (want? string? j "name").map .variable
  | .object [("Literal", j)] => (Literal.ofJson? j).map .literal
  | .object [("Bound", j)] => do
    some (.bound (← need? string? j "name") (← need? Scope.ofJson? j "scope")
      (← want? string? j "owner"))
  | _ => none

end OperandKind

namespace Operand

/-- The JSON form of an operand. -/
def toJson (o : Operand) : Json :=
  .object [("kind", o.kind.toJson), ("ops", Op.idList o.ops), ("ty", o.ty.toJson)]

/-- The operand with a given JSON form. -/
def ofJson? (j : Json) : Option Operand := do
  some ⟨← need? OperandKind.ofJson? j "kind", ← need? (list? nat?) j "ops",
    ← need? Ty.ofJson? j "ty"⟩

end Operand

/-! ### Declarations -/

namespace Property

/-- The JSON form of a property. -/
def toJson (p : Property) : Json :=
  .object
    [("name", .string p.name), ("declared_type", Op.textOrNull p.declared),
     ("doc_comment", Op.textOrNull p.doc), ("ty", p.ty.toJson)]

/-- The property with a given JSON form. -/
def ofJson? (j : Json) : Option Property := do
  some ⟨← need? string? j "name", ← want? string? j "declared_type",
    ← want? string? j "doc_comment", ← need? Ty.ofJson? j "ty"⟩

end Property

/-- The name of a kind of class in the JSON form. -/
def ClassKind.form : ClassKind → String
  | .ordinary => "Class"
  | .interface => "Interface"
  | .trait => "Trait"

/-- The kind of class with a given name in the JSON form. -/
def ClassKind.ofJson? : Json → Option ClassKind :=
  named? ClassKind.form [.ordinary, .interface, .trait]

namespace ClassDecl

/-- The JSON form of a class. -/
def toJson (c : ClassDecl) : Json :=
  .object
    [("name", .string c.name), ("kind", .string c.kind.form),
     ("extends", Json.ofList .string c.parents), ("implements", Json.ofList .string c.interfaces),
     ("methods", Op.idList c.methods), ("properties", Json.ofList Property.toJson c.properties)]

/-- The class with a given JSON form. -/
def ofJson? (j : Json) : Option ClassDecl := do
  some ⟨← need? string? j "name", ← need? ClassKind.ofJson? j "kind",
    ← need? (list? string?) j "extends", ← need? (list? string?) j "implements",
    ← need? (list? nat?) j "methods", ← need? (list? Property.ofJson?) j "properties"⟩

end ClassDecl

namespace Function

/-- The JSON form of a function. -/
def toJson (f : Function) : Json :=
  .object
    [("name", .string f.name), ("return_type", Op.textOrNull f.returns),
     ("doc_comment", Op.textOrNull f.doc), ("class", Op.idOrNull f.owner)]

/-- The function with a given JSON form. -/
def ofJson? (j : Json) : Option Function := do
  some ⟨← need? string? j "name", ← want? string? j "return_type",
    ← want? string? j "doc_comment", ← want? nat? j "class"⟩

end Function

namespace Constant

/-- The JSON form of a constant. -/
def toJson (c : Constant) : Json :=
  .object [("name", .string c.name), ("class", Op.idOrNull c.owner), ("value", ofNat c.value)]

/-- The constant with a given JSON form. -/
def ofJson? (j : Json) : Option Constant := do
  some ⟨← need? string? j "name", ← want? nat? j "class", ← need? nat? j "value"⟩

end Constant

/-! ### Scripts -/

namespace Script

/-- The JSON form of a script. -/
def toJson (s : Script) : Json :=
  .object
    [("operands", Json.ofList Operand.toJson s.operands.toList),
     ("ops", Json.ofList Op.toJson s.ops.toList),
     ("classes", Json.ofList ClassDecl.toJson s.classes.toList),
     ("functions", Json.ofList Function.toJson s.functions.toList),
     ("constants", Json.ofList Constant.toJson s.constants.toList)]

/-- The script with a given JSON form. -/
def ofJson? (j : Json) : Option Script := do
  some ⟨(← need? (list? Operand.ofJson?) j "operands").toArray,
    (← need? (list? Op.ofJson?) j "ops").toArray,
    (← need? (list? ClassDecl.ofJson?) j "classes").toArray,
    (← need? (list? Function.ofJson?) j "functions").toArray,
    (← need? (list? Constant.ofJson?) j "constants").toArray⟩

end Script

end SsaTypes
