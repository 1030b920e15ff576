/-
SsaTypes/Inference/Members.lean

Rules for what has a name: functions, methods, properties and constants.
Where a class inherits, its ancestors are searched in the order in which the
hierarchy lists them.
-/
import SsaTypes.Inference.Context
import SsaTypes.Ty.Subset

namespace SsaTypes.Inference

open Text

/-- A name without the given signs in front. -/
def dropLeading (sign : Char) (name : String) : String :=
  String.ofList (name.toList.dropWhile fun ch => ch == sign)

/-- A name without the marks of the root namespace in front. -/
def withoutRoot (name : String) : String :=
  dropLeading '\\' name

namespace Context

variable (c : Context) (known : Known)

/-! ### Functions -/

/-- What a declared function returns: as declared, else as its doc comment says. -/
def functionReturn (f : Function) : Except Fault Ty :=
  match f.returns with
  | some text => readDecl text
  | none => c.docType .returned f.doc

/-- The type of a call.  Functions of the script come before those of the
standard library. -/
def functionCall (name : OperandId) : Except Fault Candidates := do
  match ← c.literalName name .functionName with
  | none => .ok none
  | some name =>
    match c.lookup.functions name with
    | some ids =>
      (ids.mapM fun id => do c.functionReturn (← c.script.function id)).map some
    | none =>
      match c.lookup.signatures.functionReturn (withoutRoot name) with
      | some text => (readDecl text).map one
      | none => .ok none

/-! ### Methods -/

/-- What a declared method returns.  Its doc comment counts only where it says
more than the declaration. -/
def methodReturn (m : Function) : Except Fault Ty := do
  let doc ← c.docType .returned m.doc
  let declared ←
    match m.returns with
    | some text => readDecl text
    | none => .ok .mixed
  .ok (if doc.isStrictSubset declared then doc else declared)

/-- The first method of a list with a name. -/
def methodNamed (name : String) : List FunctionId → Except Fault (Option Function)
  | [] => .ok none
  | id :: ids => do
    let f ← c.script.function id
    if sameName f.name name then .ok (some f) else methodNamed name ids

/-- The method of a class with a name, else its handler for all other names. -/
def findMethod (cls : ClassId) (name handler : String) : Except Fault (Option Function) := do
  let d ← c.script.classDecl cls
  match ← c.methodNamed name d.methods with
  | some f => .ok (some f)
  | none => c.methodNamed handler d.methods

/-- What the methods found in the classes of a list return. -/
def methodReturns (name handler : String) : List ClassId → Except Fault (List Ty)
  | [] => .ok []
  | cls :: rest => do
    match ← c.findMethod cls name handler with
    | none => methodReturns name handler rest
    | some f => do
      let t ← c.methodReturn f
      (methodReturns name handler rest).map (t :: ·)

/-- The handler for calls of methods that are not declared. -/
def handlerName (isStatic : Bool) : String :=
  if isStatic then "__callStatic" else "__call"

/-- The type of a call of a method on a class. -/
def methodOf (cls name : String) (isStatic : Bool) : Except Fault Candidates :=
  match c.lookup.hierarchy.resolves cls with
  | none => ((c.lookup.signatures.methodReturns cls name).mapM readDecl).map orWait
  | some ancestors =>
    (c.methodReturns name (handlerName isStatic) (ancestors.values.filterMap id)).map orWait

/-- The type of a call of a method.  The receiver is an object, or a string
that names a class. -/
def methodCall (receiver name : OperandId) (isStatic : Bool) : Except Fault Candidates := do
  match ← c.literalName name .methodName with
  | none => .ok none
  | some name =>
    match known receiver with
    | some .string =>
      match ← c.literalName receiver .className with
      | some cls => c.methodOf cls name isStatic
      | none => .ok (one .mixed)
    | some (.named cls) => c.methodOf cls name isStatic
    | _ => .ok none

/-! ### Classes and properties -/

/-- The class that an operand stands for: by its name, as the receiver of a
method, or as an object. -/
def classType (id : OperandId) : Except Fault (Option Ty) := do
  match (← c.script.operand id).kind with
  | .literal (.string name) => .ok (some (Ty.ofClass name))
  | .literal v => .error (.nonStringLiteral .className v)
  | .bound _ .receiver (some owner) => (readDecl owner).map some
  | _ =>
    match known id with
    | some .object => .ok (some .object)
    | some (.named cls) => .ok (some (.named cls))
    | _ => .ok none

/-- The types of a property in the classes of a list that have it; `none` if
one of them has no type. -/
def propertyTypes (name : String) : List ClassId → Except Fault Candidates
  | [] => .ok (some [])
  | cls :: rest => do
    let d ← c.script.classDecl cls
    match d.property? name with
    | none => propertyTypes name rest
    | some p =>
      if p.ty.isUnknown then .ok none
      else (propertyTypes name rest).map fun ts => ts.map (p.ty :: ·)

/-- The type of a property of an object or a class. -/
def propertyFetch (owner name : OperandId) : Except Fault Candidates := do
  match ← c.literalName name .propertyName with
  | none => .ok (one .mixed)
  | some name =>
    match (← c.classType known owner).bind Ty.className? with
    | none => .ok none
    | some cls =>
      match c.lookup.hierarchy.resolves cls with
      | none => .ok none
      | some ancestors =>
        (c.propertyTypes name (ancestors.values.filterMap id)).map fun ts => ts.bind orWait

/-! ### Constants -/

/-- The type of a constant with a meaning of its own. -/
def keywordConstant (name : String) : Option Ty :=
  if sameName name "true" || sameName name "false" then some .bool
  else if sameName name "null" then some .null
  else none

/-- The type of a global constant.  Constants of the script come before those
of the standard library. -/
def constFetch (name : OperandId) : Except Fault Candidates := do
  match ← c.literalName name .constantName with
  | none => .ok none
  | some name =>
    match keywordConstant name with
    | some t => .ok (one t)
    | none =>
      match c.lookup.constant name with
      | some values => .ok (allKnown known values)
      | none =>
        match c.lookup.signatures.constant (withoutRoot name) with
        | some text => (readDecl text).map one
        | none => .ok none

/-- The types of a constant in the classes of a list that have it. -/
def inheritedConstant (name : String) (classes : List String) : Candidates :=
  (classes.mapM fun cls =>
    match c.lookup.constant (classConstantKey cls name) with
    | some values => allKnown known values
    | none => some []).map List.flatten

/-- The type of a constant of a class. -/
def classConstant (cls name : String) : Candidates :=
  match c.lookup.constant (classConstantKey cls name) with
  | some values => allKnown known values
  | none =>
    (c.lookup.hierarchy.resolves cls).bind fun ancestors =>
      (c.inheritedConstant known name ancestors.keys).bind orWait

/-- The type of a constant of the class that an operand stands for. -/
def classConstFetch (cls name : OperandId) : Except Fault Candidates := do
  match ← c.literalName name .constantName with
  | none => .ok none
  | some name =>
    match ← c.literalName cls .className with
    | some cls => .ok (c.classConstant known cls name)
    | none => .ok ((known cls).bind fun t => t.className?.bind fun cls => c.classConstant known cls name)

/-! ### Parameters -/

/-- Whether an operand is produced first by fetching the constant null. -/
def isNullConstant (id : OperandId) : Except Fault Bool := do
  match (← c.script.operand id).ops with
  | [] => .ok false
  | first :: _ =>
    match ← c.script.op first with
    | .constFetch name =>
      let value := (← c.script.operand name).literal?
      .ok ((value.bind Literal.string?).any fun s => sameName s "null")
    | _ => .ok false

/-- The type of a parameter: as declared, else as the doc comment of its
function says.  A default of null widens it by null. -/
def param (name : String) (declared : Option String) (default : Option OperandId)
    (function : Option FunctionId) : Except Fault Ty := do
  let t ←
    match declared, function with
    | some text, _ => readDecl text
    | none, some f => do c.docType (.param (dropLeading '$' name)) (← c.script.function f).doc
    | none, none => .ok .mixed
  match default with
  | none => .ok t
  | some d => (c.isNullConstant d).map fun isNull => if isNull then t.orNull.simplify else t

end Context

end SsaTypes.Inference
