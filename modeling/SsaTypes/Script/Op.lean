/-
SsaTypes/Script/Op.lean

The operations that produce operands, and the guards on branches.  An
operation names its operands by number.
-/
import SsaTypes.Ty.Basic

namespace SsaTypes

/-- The number of an operand of a script. -/
abbrev OperandId := Nat

/-- The number of an operation of a script. -/
abbrev OpId := Nat

/-- The number of a class, interface or trait of a script. -/
abbrev ClassId := Nat

/-- The number of a function or method of a script. -/
abbrev FunctionId := Nat

/-- An operation on two values. -/
inductive BinaryOp
  | equal
  | notEqual
  | identical
  | notIdentical
  | greater
  | greaterOrEqual
  | smaller
  | smallerOrEqual
  | logicalAnd
  | logicalOr
  | logicalXor
  | bitwiseAnd
  | bitwiseOr
  | bitwiseXor
  | div
  | plus
  | minus
  | mul
  | concat
  | mod
  | shiftLeft
  | shiftRight
  | pow
  | coalesce
  | spaceship
deriving DecidableEq, Repr

/-- The name of an operation on two values. -/
def BinaryOp.name : BinaryOp → String
  | .equal => "Equal"
  | .notEqual => "NotEqual"
  | .identical => "Identical"
  | .notIdentical => "NotIdentical"
  | .greater => "Greater"
  | .greaterOrEqual => "GreaterOrEqual"
  | .smaller => "Smaller"
  | .smallerOrEqual => "SmallerOrEqual"
  | .logicalAnd => "LogicalAnd"
  | .logicalOr => "LogicalOr"
  | .logicalXor => "LogicalXor"
  | .bitwiseAnd => "BitwiseAnd"
  | .bitwiseOr => "BitwiseOr"
  | .bitwiseXor => "BitwiseXor"
  | .div => "Div"
  | .plus => "Plus"
  | .minus => "Minus"
  | .mul => "Mul"
  | .concat => "Concat"
  | .mod => "Mod"
  | .shiftLeft => "ShiftLeft"
  | .shiftRight => "ShiftRight"
  | .pow => "Pow"
  | .coalesce => "Coalesce"
  | .spaceship => "Spaceship"

/-- The operations on two values, in the order of their declaration. -/
def BinaryOp.all : List BinaryOp :=
  [.equal, .notEqual, .identical, .notIdentical, .greater, .greaterOrEqual, .smaller,
   .smallerOrEqual, .logicalAnd, .logicalOr, .logicalXor, .bitwiseAnd, .bitwiseOr, .bitwiseXor,
   .div, .plus, .minus, .mul, .concat, .mod, .shiftLeft, .shiftRight, .pow, .coalesce, .spaceship]

/-- An operation on one value. -/
inductive UnaryOp
  | booleanNot
  | bitwiseNot
  | minus
  | plus
deriving DecidableEq, Repr

/-- The name of an operation on one value. -/
def UnaryOp.name : UnaryOp → String
  | .booleanNot => "BooleanNot"
  | .bitwiseNot => "BitwiseNot"
  | .minus => "Minus"
  | .plus => "Plus"

/-- The operations on one value, in the order of their declaration. -/
def UnaryOp.all : List UnaryOp :=
  [.booleanNot, .bitwiseNot, .minus, .plus]

/-- What a value is converted to. -/
inductive CastKind
  | bool
  | int
  | double
  | string
  | array
  | object
deriving DecidableEq, Repr

/-- The name of a conversion. -/
def CastKind.name : CastKind → String
  | .bool => "Bool"
  | .int => "Int"
  | .double => "Double"
  | .string => "String"
  | .array => "Array"
  | .object => "Object"

/-- The conversions, in the order of their declaration. -/
def CastKind.all : List CastKind :=
  [.bool, .int, .double, .string, .array, .object]

/-- A step of a loop over the elements of a value. -/
inductive IteratorOp
  | reset
  | valid
  | value
  | key
deriving DecidableEq, Repr

/-- The name of a step of a loop. -/
def IteratorOp.name : IteratorOp → String
  | .reset => "Reset"
  | .valid => "Valid"
  | .value => "Value"
  | .key => "Key"

/-- The steps of a loop, in the order of their declaration. -/
def IteratorOp.all : List IteratorOp :=
  [.reset, .valid, .value, .key]

/-- A test for a type.  A literal operand holds the text of a declaration; any
other operand contributes its own type. -/
inductive TypeTest
  | operand (id : OperandId)
  | comb (kind : Comb) (members : List TypeTest)
deriving Repr, Inhabited

/-- What is known on a branch: that a test holds, or that a guard fails. -/
inductive Guard
  | holds (test : TypeTest)
  | fails (guard : Guard)
deriving Repr, Inhabited

/-- An operation. -/
inductive Op
  | binary (op : BinaryOp) (left right : OperandId)
  | unary (op : UnaryOp) (expr : OperandId)
  | cast (kind : CastKind) (expr : OperandId)
  | instanceOf (expr cls : OperandId)
  | empty (expr : OperandId)
  | isset (vars : List OperandId)
  | concatList (list : List OperandId)
  | print (expr : OperandId)
  | exit (expr : Option OperandId)
  | evaluate (expr : OperandId)
  | includeFile (expr : OperandId)
  | yield (value key : Option OperandId)
  | iterator (kind : IteratorOp) (var : OperandId)
  | array (keys : List (Option OperandId)) (values : List OperandId)
  | dimFetch (var : OperandId) (dim : Option OperandId)
  | assign (var expr : OperandId)
  | assignRef (var expr : OperandId)
  | clone (expr : OperandId)
  | closure (function : FunctionId)
  | call (name : OperandId) (args : List OperandId)
  | create (cls : OperandId) (args : List OperandId)
  /-- A parameter with its declared type, the operand that holds its default
  value, and its function. -/
  | param (name : String) (declared : Option String) (default : Option OperandId)
      (function : Option FunctionId)
  | staticCall (cls name : OperandId) (args : List OperandId)
  | methodCall (var name : OperandId) (args : List OperandId)
  | propertyFetch (var name : OperandId)
  | staticPropertyFetch (cls name : OperandId)
  | guarded (expr : OperandId) (guard : Guard)
  | constFetch (name : OperandId)
  | classConstFetch (cls name : OperandId)
  /-- The join of the values that reach a place on several ways. -/
  | phi (vars : List OperandId)
deriving Repr, Inhabited

/-- The name of the kind of an operation; an operation on two values goes by
the name of its operator. -/
def Op.kindName : Op → String
  | .binary op _ _ => op.name
  | .unary .. => "Unary"
  | .cast .. => "Cast"
  | .instanceOf .. => "InstanceOf"
  | .empty .. => "Empty"
  | .isset .. => "Isset"
  | .concatList .. => "ConcatList"
  | .print .. => "Print"
  | .exit .. => "Exit"
  | .evaluate .. => "Eval"
  | .includeFile .. => "Include"
  | .yield .. => "Yield"
  | .iterator .. => "Iterator"
  | .array .. => "Array"
  | .dimFetch .. => "ArrayDimFetch"
  | .assign .. => "Assign"
  | .assignRef .. => "AssignRef"
  | .clone .. => "Clone"
  | .closure .. => "Closure"
  | .call .. => "FuncCall"
  | .create .. => "New"
  | .param .. => "Param"
  | .staticCall .. => "StaticCall"
  | .methodCall .. => "MethodCall"
  | .propertyFetch .. => "PropertyFetch"
  | .staticPropertyFetch .. => "StaticPropertyFetch"
  | .guarded .. => "Assertion"
  | .constFetch .. => "ConstFetch"
  | .classConstFetch .. => "ClassConstFetch"
  | .phi .. => "Phi"

end SsaTypes
