/-
SsaTypes/Ty/Subset.lean

When one type holds only values of another, as far as the types themselves
tell: classes are compared by name, and inheritance is not consulted.

The cases are tried in a fixed order: first two types that are the same, then
a union on the left, an intersection on the right, an intersection on the
left and a union on the right, and last objects, closures and arrays.
-/
import SsaTypes.Ty.Same

namespace SsaTypes.Ty

open Text

/-- Whether an object of this class can be called. -/
def isClosure (className : String) : Bool :=
  sameName className "closure"

/-- Whether every value of the first type is known to be one of the second.
Nothing is said of `unknown`, on either side. -/
def isSubset (a b : Ty) : Bool :=
  if a.isUnknown || b.isUnknown then false
  else if same a b && !a.isArray then true
  else match a, b with
    | .comb .union ms, b => ms.attach.all fun m => isSubset m.1 b
    | a, .comb .inter ns => ns.attach.all fun n => isSubset a n.1
    | .comb .inter ms, b => ms.attach.any fun m => isSubset m.1 b
    | a, .comb .union ns => ns.attach.any fun n => isSubset a n.1
    | .named _, .object => true
    | .named c, .callable => isClosure c
    | .arrayOf _, .array => true
    | .array, .array => true
    | .arrayOf e, .arrayOf f => isSubset e f
    | _, _ => false
termination_by sizeOf a + sizeOf b
decreasing_by
  all_goals simp_wf
  · have := List.sizeOf_lt_of_mem m.2; omega
  · have := List.sizeOf_lt_of_mem n.2; omega
  · have := List.sizeOf_lt_of_mem m.2; omega
  · have := List.sizeOf_lt_of_mem n.2; omega
  · omega

/-- The cases of `isSubset` in their order. -/
theorem isSubset_eq (a b : Ty) :
    isSubset a b =
      if a.isUnknown || b.isUnknown then false
      else if same a b && !a.isArray then true
      else match a, b with
        | .comb .union ms, b => ms.all fun m => isSubset m b
        | a, .comb .inter ns => ns.all fun n => isSubset a n
        | .comb .inter ms, b => ms.any fun m => isSubset m b
        | a, .comb .union ns => ns.any fun n => isSubset a n
        | .named _, .object => true
        | .named c, .callable => isClosure c
        | .arrayOf _, .array => true
        | .array, .array => true
        | .arrayOf e, .arrayOf f => isSubset e f
        | _, _ => false := by
  have hall (ms : List Ty) (p : Ty → Bool) : (ms.attach.all fun m => p m.1) = ms.all p := by
    rw [Bool.eq_iff_iff]; simp
  have hany (ms : List Ty) (p : Ty → Bool) : (ms.attach.any fun m => p m.1) = ms.any p := by
    rw [Bool.eq_iff_iff]; simp
  rw [isSubset.eq_def]
  congr 2
  split
  · exact hall _ (isSubset · b)
  · exact hall _ (isSubset a ·)
  · exact hany _ (isSubset · b)
  · exact hany _ (isSubset a ·)
  all_goals rfl

/-- A subset that is not the same type. -/
def isStrictSubset (a b : Ty) : Bool :=
  isSubset a b && !same a b

end SsaTypes.Ty
