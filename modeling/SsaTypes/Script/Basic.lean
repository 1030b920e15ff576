/-
SsaTypes/Script/Basic.lean

A program in static single assignment form: its operands with the operations
that produce them, its classes, functions and constants.  All of them refer to
each other by number, counted from zero in the order of their declaration.
-/
import SsaTypes.Script.Literal
import SsaTypes.Script.Op

namespace SsaTypes

/-- Where a name that is not a local variable is bound. -/
inductive Scope
  | globals
  | locals
  /-- The receiver of a method call. -/
  | receiver
  | function
deriving DecidableEq, Repr

/-- What an operand is. -/
inductive OperandKind
  /-- A variable; one that only holds an intermediate result has no name. -/
  | variable (name : Option String)
  | literal (value : Literal)
  /-- A bound name; the owner of a receiver is the declaration of its type. -/
  | bound (name : String) (scope : Scope) (owner : Option String)
deriving DecidableEq, Repr

/-- An operand with the operations that produce it and its type so far. -/
structure Operand where
  kind : OperandKind
  ops : List OpId := []
  ty : Ty := .unknown
deriving Repr

/-- The value of an operand that is a literal. -/
def Operand.literal? (o : Operand) : Option Literal :=
  match o.kind with
  | .literal v => some v
  | _ => none

/-- The three kinds of class-like declarations. -/
inductive ClassKind
  | ordinary
  | interface
  | trait
deriving DecidableEq, Repr

/-- A property of a class. -/
structure Property where
  name : String
  declared : Option String := none
  doc : Option String := none
  ty : Ty := .unknown
deriving Repr

/-- A class, interface or trait.  The parents are what it extends: the parent
of a class, the other interfaces of an interface. -/
structure ClassDecl where
  name : String
  kind : ClassKind := .ordinary
  parents : List String := []
  interfaces : List String := []
  methods : List FunctionId := []
  properties : List Property := []
deriving Repr

/-- The property with exactly this name. -/
def ClassDecl.property? (c : ClassDecl) (name : String) : Option Property :=
  c.properties.find? fun p => p.name = name

/-- A function, or a method with the number of its class. -/
structure Function where
  name : String
  returns : Option String := none
  doc : Option String := none
  owner : Option ClassId := none
deriving Repr

/-- A global constant or a constant of a class, with the operand that holds its value. -/
structure Constant where
  name : String
  owner : Option ClassId := none
  value : OperandId
deriving Repr

/-- A program. -/
structure Script where
  operands : Array Operand := #[]
  ops : Array Op := #[]
  classes : Array ClassDecl := #[]
  functions : Array Function := #[]
  constants : Array Constant := #[]
deriving Repr, Inhabited

end SsaTypes
