/-
SsaTypes/Inference/Rules.lean

What every kind of operation says of its result.

A phi answers in two ways: with a candidate when all its incoming values are
known, and before that with a provisional merge of those that are.
-/
import SsaTypes.Inference.Guards
import SsaTypes.Inference.Members
import SsaTypes.Inference.Values

namespace SsaTypes.Inference

/-- What an operation says of an operand that it produces. -/
inductive Answer
  /-- Nothing yet. -/
  | wait
  /-- Nothing for good, but a type to go on with. -/
  | provisional (t : Ty)
  /-- Candidates for its type. -/
  | candidates (ts : List Ty)
deriving DecidableEq, Repr

/-- A rule without provisional types as an answer. -/
def Answer.of : Candidates → Answer
  | none => .wait
  | some ts => .candidates ts

/-- The join of the incoming values that are known. -/
def phi (known : Known) (vars : List OperandId) : Answer :=
  match Ty.merge? (vars.filterMap known) with
  | none => .wait
  | some t => if vars.all fun v => (known v).isSome then .candidates [t] else .provisional t

namespace Context

variable (c : Context) (known : Known)

/-- The candidates that an operation other than a phi contributes. -/
def candidates (id : OpId) : Op → Except Fault Candidates
  | .binary op left right => binary known id op left right
  | .unary op expr => .ok (unary known op expr)
  | .cast kind expr => .ok (cast known kind expr)
  | .instanceOf .. | .empty .. | .isset .. => .ok (one .bool)
  | .concatList .. => .ok (one .string)
  | .print .. => .ok (one .int)
  | .exit .. => .ok (one .null)
  | .evaluate .. | .includeFile .. | .yield .. => .ok none
  | .iterator kind var => .ok (iterator known kind var)
  | .array _ values => .ok (arrayLiteral known values)
  | .dimFetch var _ => .ok (dimFetch known var)
  | .assign _ expr | .assignRef _ expr | .clone expr => .ok ((known expr).bind one)
  | .closure _ => .ok (one (Ty.ofClass "Closure"))
  | .call name _ => c.functionCall name
  | .create cls _ => (c.classType known cls).map fun t => one (t.getD .object)
  | .param name declared default function => (c.param name declared default function).map one
  | .staticCall cls name _ => c.methodCall known cls name true
  | .methodCall var name _ => c.methodCall known var name false
  | .propertyFetch var name => c.propertyFetch known var name
  | .staticPropertyFetch cls name => c.propertyFetch known cls name
  | .guarded expr guard => (c.guardType known expr guard).map fun t => t.bind one
  | .constFetch name => c.constFetch known name
  | .classConstFetch cls name => c.classConstFetch known cls name
  | .phi _ => .ok none

/-- What an operation says of an operand that it produces. -/
def answer (id : OpId) : Except Fault Answer := do
  match ← c.script.op id with
  | .phi vars => .ok (phi known vars)
  | op => (c.candidates known id op).map Answer.of

/-- What the producers of an operand say together: all their candidates, or
the answer of the first that has none. -/
def gather : List OpId → Except Fault Answer
  | [] => .ok (.candidates [])
  | id :: ids => do
    match ← c.answer known id with
    | .candidates ts =>
      (gather ids).map fun
        | .candidates us => .candidates (ts ++ us)
        | other => other
    | other => .ok other

end Context

/-- What can be said of an operand. -/
inductive Verdict
  | wait
  | provisional (t : Ty)
  | confirmed (t : Ty)
deriving DecidableEq, Repr

/-- What can be said of an operand whose producers answer so. -/
def Answer.verdict : Answer → Verdict
  | .wait => .wait
  | .provisional t => .provisional t
  | .candidates ts =>
    match Ty.merge? ts with
    | some t => .confirmed t
    | none => .wait

/-- What can be said of an operand when these types are known. -/
def Context.verdict (c : Context) (known : Known) (var : OperandId) : Except Fault Verdict := do
  let o ← c.script.operand var
  (c.gather known o.ops).map Answer.verdict

end SsaTypes.Inference
