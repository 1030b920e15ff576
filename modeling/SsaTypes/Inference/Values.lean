/-
SsaTypes/Inference/Values.lean

Rules for operations on plain values: operators, conversions, loops and
arrays.  They need the types of operands and nothing else of the script.
-/
import SsaTypes.Inference.Context
import SsaTypes.Ty.Subset

namespace SsaTypes.Inference

/-- The type of a sum, a difference, a product or a quotient. -/
def arithmetic (left right : Ty) : Ty :=
  match left, right with
  | .int, .int => .int
  | .float, .int => .float
  | .float, .float => .float
  | .int, .float => .float
  | l, r =>
    if l.isArray && r.isArray then
      match Ty.merge? (l.element?.toList ++ r.element?.toList) with
      | some e => .arrayOf e
      | none => .array
    else .mixed

/-- The type of a bitwise operation. -/
def bitwise (left right : Ty) : Ty :=
  match left, right with
  | .string, .string => .string
  | _, _ => .int

/-- What the type of a binary operation depends on. -/
inductive BinaryRule
  /-- On nothing. -/
  | always (t : Ty)
  /-- On the types of its operands. -/
  | ofTypes (f : Ty → Ty → Ty)
  /-- There is no rule for it. -/
  | unmodeled

/-- The rule for a binary operation. -/
def binaryRule : BinaryOp → BinaryRule
  | .equal | .notEqual | .identical | .notIdentical | .greater | .greaterOrEqual | .smaller
  | .smallerOrEqual | .logicalAnd | .logicalOr | .logicalXor => .always .bool
  | .concat => .always .string
  | .mod | .shiftLeft | .shiftRight => .always .int
  | .bitwiseAnd | .bitwiseOr | .bitwiseXor => .ofTypes bitwise
  | .div | .plus | .minus | .mul => .ofTypes arithmetic
  | .pow | .coalesce | .spaceship => .unmodeled

/-- The type of a binary operation. -/
def binary (known : Known) (id : OpId) (op : BinaryOp) (left right : OperandId) :
    Except Fault Candidates :=
  match binaryRule op with
  | .always t => .ok (one t)
  | .ofTypes f =>
    .ok (match known left, known right with
      | some l, some r => one (f l r)
      | _, _ => none)
  | .unmodeled => .error (.unmodeled id (.binary op left right))

/-- The type of a sign or a bitwise negation of a value. -/
def unaryType (op : UnaryOp) (t : Ty) : Ty :=
  match op, t with
  | .booleanNot, _ => .bool
  | .bitwiseNot, .string => .string
  | .bitwiseNot, _ => .int
  | _, .int => .int
  | _, .float => .float
  | _, _ => .numeric

/-- The type of a unary operation. -/
def unary (known : Known) (op : UnaryOp) (expr : OperandId) : Candidates :=
  match op with
  | .booleanNot => one .bool
  | op => (known expr).bind fun t => one (unaryType op t)

/-- The type of a conversion. -/
def cast (known : Known) (kind : CastKind) (expr : OperandId) : Candidates :=
  match kind with
  | .bool => one .bool
  | .int => one .int
  | .double => one .float
  | .string => one .string
  | .array => (known expr).bind fun _ => one .array
  | .object =>
    (known expr).bind fun t =>
      one (if t.isSubset .object then t else Ty.ofClass "stdClass")

/-- The type of a step of a loop. -/
def iterator (known : Known) (kind : IteratorOp) (var : OperandId) : Candidates :=
  match kind with
  | .reset => one .null
  | .valid => one .bool
  | .value => (known var).bind fun t => t.element?.bind one
  | .key => none

/-- The type of an array that is written out. -/
def arrayLiteral (known : Known) (values : List OperandId) : Candidates :=
  (allKnown known values).bind fun ts =>
    one (match Ty.merge? ts with
      | some e => .arrayOf e
      | none => .array)

/-- The type of an element of an array or a character of a string. -/
def dimType (t : Ty) : Ty :=
  match t with
  | .arrayOf e => e
  | .string => .string
  | _ => .mixed

/-- The type of an access by index. -/
def dimFetch (known : Known) (base : OperandId) : Candidates :=
  (known base).bind fun t => one (dimType t)

end SsaTypes.Inference
