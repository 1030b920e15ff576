/-
SsaTypes/Inference/Guards.lean

Rules for the guards on branches.  Where a test holds, the operand has the
tested type; where a guard fails, it has its own type without that of the
guard.
-/
import SsaTypes.Inference.Context

namespace SsaTypes.Inference.Context

variable (c : Context) (known : Known)

mutual

/-- The type that a test asks for, once it is known. -/
def testType : TypeTest → Except Fault (Option Ty)
  | .operand id => do
    match (← c.script.operand id).literal? with
    | none => .ok (known id)
    | some (.string text) => (readDecl text).map some
    | some v => .error (.nonStringLiteral .assertedType v)
  | .comb k ms => (testTypes ms).map fun ts => ts.map (.comb k)

/-- The types that all tests of a list ask for; the first one that is not known
ends the search. -/
def testTypes : List TypeTest → Except Fault (Option (List Ty))
  | [] => .ok (some [])
  | m :: ms => do
    match ← testType m with
    | none => .ok none
    | some t => (testTypes ms).map fun ts => ts.map (t :: ·)

end

/-- The type of an operand under a guard.  While the operand itself is not
known, it may be anything. -/
def guardType (expr : OperandId) : Guard → Except Fault (Option Ty)
  | .holds t => testType c known t
  | .fails g => do
    match ← guardType expr g with
    | none => .ok none
    | some excluded =>
      let source := (known expr).getD .mixed
      match source.remove? excluded with
      | some t => .ok (some t)
      | none => .error (.emptied source excluded)

end SsaTypes.Inference.Context
