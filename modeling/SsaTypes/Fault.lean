/-
SsaTypes/Fault.lean

What can go wrong in a run.  Code that merely cannot be resolved is no fault:
its operands stay unknown.
-/
import SsaTypes.Decl.Error
import SsaTypes.Script.Literal
import SsaTypes.Script.Op
import SsaTypes.Ty.Display

namespace SsaTypes

/-- What a literal is needed for. -/
inductive NameRole
  | functionName
  | methodName
  | className
  | propertyName
  | constantName
  | assertedType
deriving DecidableEq, Repr

/-- The use of a literal, as messages give it. -/
def NameRole.text : NameRole → String
  | .functionName => "function name"
  | .methodName => "method name"
  | .className => "class name"
  | .propertyName => "property name"
  | .constantName => "constant name"
  | .assertedType => "asserted type"

/-- The lists of a script whose members go by number. -/
inductive Listing
  | operand
  | op
  | classDecl
  | function
deriving DecidableEq, Repr

/-- A fault that ends a run. -/
inductive Fault
  /-- A declaration cannot be read. -/
  | declaration (e : DeclError)
  /-- A literal has no type. -/
  | unsupportedLiteral (value : Literal)
  /-- An operation has no rule. -/
  | unmodeled (id : OpId) (op : Op)
  /-- Nothing is left of a type after taking another away. -/
  | emptied (whole removed : Ty)
  /-- A literal that serves as a name is no string. -/
  | nonStringLiteral (role : NameRole) (value : Literal)
  /-- A number refers to nothing. -/
  | dangling (listing : Listing) (id : Nat)
deriving Repr

/-- The message for the user of the run. -/
def Fault.message : Fault → String
  | .declaration e => e.message
  | .unsupportedLiteral v => "unknown value type found: " ++ v.kindName
  | .unmodeled id op =>
    "operation OpId(" ++ toString id ++ ") of kind `" ++ op.kindName
      ++ "` is not modeled by the reconstructor"
  | .emptied whole removed =>
    "removing `" ++ removed.display ++ "` from `" ++ whole.display ++ "` leaves no member types"
  | .nonStringLiteral role v =>
    "expected a string literal for " ++ role.text ++ ", found a " ++ v.kindName ++ " literal"
  | .dangling _ id => "no entry has the number " ++ toString id

/-! ### Steps without a fault -/

theorem bind_eq_ok {ε α β : Type} {x : Except ε α} {f : α → Except ε β} {b : β} :
    (x >>= f) = .ok b ↔ ∃ a, x = .ok a ∧ f a = .ok b := by
  rcases x with e | a
  · simp [bind, Except.bind]
  · simp [bind, Except.bind]

theorem map_eq_ok {ε α β : Type} {x : Except ε α} {f : α → β} {b : β} :
    x.map f = .ok b ↔ ∃ a, x = .ok a ∧ f a = b := by
  rcases x with e | a
  · simp [Except.map]
  · simp [Except.map]

theorem toOption_bind {ε α β : Type} (x : Except ε α) (f : α → Except ε β) :
    (x >>= f).toOption = x.toOption.bind fun a => (f a).toOption := by
  rcases x with e | a
  · rfl
  · rfl

theorem toOption_map {ε α β : Type} (x : Except ε α) (f : α → β) :
    (x.map f).toOption = x.toOption.map f := by
  rcases x with e | a
  · rfl
  · rfl

theorem toOption_eq_some {ε α : Type} {x : Except ε α} {a : α} :
    x.toOption = some a ↔ x = .ok a := by
  rcases x with e | b
  · simp [Except.toOption]
  · simp [Except.toOption]

end SsaTypes
