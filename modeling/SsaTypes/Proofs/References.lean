/-
SsaTypes/Proofs/References.lean

The numbers by which the parts of a script refer to each other.  `s.Mentions r` says that
an entry of the script has the reference `r`, and `s.Has r` that there is an entry for
it; a script is in range if

    s.Mentions r  →  s.Has r.

A lookup by number is a fault of its own kind (`Fault.isDangling`) exactly if there is
no such entry.
-/
import SsaTypes.Proofs.Reads

namespace SsaTypes

/-! ### References -/

/-- A reference to an entry of a script. -/
inductive Ref
  | operand (id : OperandId)
  | op (id : OpId)
  | classDecl (id : ClassId)
  | function (id : FunctionId)
deriving DecidableEq, Repr

def Operand.refs (o : Operand) : List Ref :=
  o.ops.map .op

/-- The operands that an operation names. -/
def Op.operands : Op → List OperandId
  | .binary _ left right => [left, right]
  | .unary _ expr | .cast _ expr | .empty expr | .print expr | .evaluate expr | .includeFile expr
  | .clone expr => [expr]
  | .instanceOf expr cls => [expr, cls]
  | .isset vars | .concatList vars | .phi vars => vars
  | .exit expr => expr.toList
  | .yield value key => value.toList ++ key.toList
  | .iterator _ var => [var]
  | .array keys values => keys.filterMap id ++ values
  | .dimFetch var dim => var :: dim.toList
  | .assign var expr | .assignRef var expr => [var, expr]
  | .closure _ => []
  | .call name args => name :: args
  | .create cls args => cls :: args
  | .param _ _ default _ => default.toList
  | .staticCall cls name args => cls :: name :: args
  | .methodCall var name args => var :: name :: args
  | .propertyFetch var name => [var, name]
  | .staticPropertyFetch cls name => [cls, name]
  | .guarded expr guard => expr :: guard.operands
  | .constFetch name => [name]
  | .classConstFetch cls name => [cls, name]

/-- The functions that an operation names. -/
def Op.functions : Op → List FunctionId
  | .closure f => [f]
  | .param _ _ _ f => f.toList
  | _ => []

def Op.refs (op : Op) : List Ref :=
  op.operands.map .operand ++ op.functions.map .function

def ClassDecl.refs (d : ClassDecl) : List Ref :=
  d.methods.map .function

def Function.refs (f : Function) : List Ref :=
  f.owner.toList.map .classDecl

def Constant.refs (k : Constant) : List Ref :=
  .operand k.value :: k.owner.toList.map .classDecl

theorem Op.operand_mem_refs {op : Op} {v : OperandId} (h : v ∈ op.operands) :
    .operand v ∈ op.refs :=
  List.mem_append_left _ (List.mem_map_of_mem h)

theorem Op.function_mem_refs {op : Op} {f : FunctionId} (h : f ∈ op.functions) :
    .function f ∈ op.refs :=
  List.mem_append_right _ (List.mem_map_of_mem h)

namespace Script

/-- An entry of the script has the reference. -/
def Mentions (s : Script) (r : Ref) : Prop :=
  (∃ o ∈ s.operands, r ∈ o.refs) ∨ (∃ op ∈ s.ops, r ∈ op.refs) ∨ (∃ d ∈ s.classes, r ∈ d.refs) ∨
    (∃ f ∈ s.functions, r ∈ f.refs) ∨ ∃ k ∈ s.constants, r ∈ k.refs

namespace Mentions

variable {s : Script} {r : Ref}

theorem operand {o : Operand} (ho : o ∈ s.operands) (hr : r ∈ o.refs) : s.Mentions r :=
  .inl ⟨o, ho, hr⟩

theorem op {op : Op} (hop : op ∈ s.ops) (hr : r ∈ op.refs) : s.Mentions r :=
  .inr (.inl ⟨op, hop, hr⟩)

theorem classDecl {d : ClassDecl} (hd : d ∈ s.classes) (hr : r ∈ d.refs) : s.Mentions r :=
  .inr (.inr (.inl ⟨d, hd, hr⟩))

theorem function {f : Function} (hf : f ∈ s.functions) (hr : r ∈ f.refs) : s.Mentions r :=
  .inr (.inr (.inr (.inl ⟨f, hf, hr⟩)))

theorem constant {k : Constant} (hk : k ∈ s.constants) (hr : r ∈ k.refs) : s.Mentions r :=
  .inr (.inr (.inr (.inr ⟨k, hk, hr⟩)))

end Mentions

/-- There is an entry for the reference. -/
def Has (s : Script) : Ref → Prop
  | .operand id => id < s.operands.size
  | .op id => id < s.ops.size
  | .classDecl id => id < s.classes.size
  | .function id => id < s.functions.size

instance (s : Script) : DecidablePred s.Has
  | .operand id => inferInstanceAs (Decidable (id < s.operands.size))
  | .op id => inferInstanceAs (Decidable (id < s.ops.size))
  | .classDecl id => inferInstanceAs (Decidable (id < s.classes.size))
  | .function id => inferInstanceAs (Decidable (id < s.functions.size))

/-- Every reference in the script has its entry. -/
def InRange (s : Script) : Prop :=
  ∀ r, s.Mentions r → s.Has r

theorem inRange_iff {s : Script} : s.InRange ↔
    (∀ o ∈ s.operands, ∀ r ∈ o.refs, s.Has r) ∧ (∀ op ∈ s.ops, ∀ r ∈ op.refs, s.Has r) ∧
      (∀ d ∈ s.classes, ∀ r ∈ d.refs, s.Has r) ∧ (∀ f ∈ s.functions, ∀ r ∈ f.refs, s.Has r) ∧
        ∀ k ∈ s.constants, ∀ r ∈ k.refs, s.Has r := by
  constructor
  · intro h
    exact ⟨fun o ho r hr => h r (.operand ho hr), fun op hop r hr => h r (.op hop hr),
      fun d hd r hr => h r (.classDecl hd hr), fun f hf r hr => h r (.function hf hr),
      fun k hk r hr => h r (.constant hk hr)⟩
  · rintro ⟨hoperands, hops, hclasses, hfunctions, hconstants⟩ r
      (⟨o, ho, hr⟩ | ⟨op, hop, hr⟩ | ⟨d, hd, hr⟩ | ⟨f, hf, hr⟩ | ⟨k, hk, hr⟩)
    · exact hoperands o ho r hr
    · exact hops op hop r hr
    · exact hclasses d hd r hr
    · exact hfunctions f hf r hr
    · exact hconstants k hk r hr

instance (s : Script) : Decidable s.InRange :=
  decidable_of_iff _ inRange_iff.symm

end Script

/-- Whether a fault comes from a number that refers to nothing. -/
def Fault.isDangling : Fault → Bool
  | .dangling _ _ => true
  | _ => false

end SsaTypes
