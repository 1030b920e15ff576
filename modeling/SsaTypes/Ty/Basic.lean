/-
SsaTypes/Ty/Basic.lean

The types an operand of a dynamic program can have: the primitive kinds of
value, objects with or without a known class, arrays with or without a known
element type, and unions and intersections over lists of members.

`unknown` is not a set of values.  It marks an operand about which nothing has
been found.
-/

namespace SsaTypes

/-- The two ways of building a type from members. -/
inductive Comb
  | union
  | inter
deriving DecidableEq, Repr

/-- A type.  The order and repetition of members are part of it. -/
inductive Ty
  /-- Nothing is known. -/
  | unknown
  | null
  | bool
  | int
  | float
  | string
  | callable
  /-- An object of some class. -/
  | object
  /-- An object of the named class. -/
  | named (className : String)
  /-- An array of anything. -/
  | array
  /-- An array whose elements have the given type. -/
  | arrayOf (element : Ty)
  /-- A union or an intersection of members. -/
  | comb (kind : Comb) (members : List Ty)
deriving Repr, Inhabited

namespace Ty

/-- The values of any member. -/
@[match_pattern] abbrev union (members : List Ty) : Ty := .comb .union members

/-- The values of all members. -/
@[match_pattern] abbrev inter (members : List Ty) : Ty := .comb .inter members

/-- An object of the class with this name; without a name, of some class. -/
def ofClass (name : String) : Ty :=
  if name = "" then .object else .named name

/-- The numbers. -/
def numeric : Ty := .union [.int, .float]

/-- Every value: what is assumed of an operand when nothing better is said. -/
def mixed : Ty :=
  .union [.null, .bool, .int, .float, .string, .object, .array, .callable]

/-- The type widened by null. -/
def orNull (t : Ty) : Ty := .union [t, .null]

def isUnknown : Ty → Bool
  | .unknown => true
  | _ => false

def isArray : Ty → Bool
  | .array => true
  | .arrayOf _ => true
  | _ => false

/-- The members of a union or an intersection; any other type has none. -/
def members : Ty → List Ty
  | .comb _ ms => ms
  | _ => []

/-- The element type of an array that has one. -/
def element? : Ty → Option Ty
  | .arrayOf e => some e
  | _ => none

/-- The class of an object whose class is known. -/
def className? : Ty → Option String
  | .named c => some c
  | _ => none

/-! ### Null among the values -/

mutual

/-- Whether null is a value of the type. -/
def allowsNull : Ty → Bool
  | .null => true
  | .comb .union ms => anyAllowsNull ms
  | .comb .inter ms => allAllowNull ms
  | _ => false

/-- Whether null is a value of some type of the list. -/
def anyAllowsNull : List Ty → Bool
  | [] => false
  | t :: ts => allowsNull t || anyAllowsNull ts

/-- Whether null is a value of every type of the list. -/
def allAllowNull : List Ty → Bool
  | [] => true
  | t :: ts => allowsNull t && allAllowNull ts

end

theorem anyAllowsNull_eq (ts : List Ty) : anyAllowsNull ts = ts.any allowsNull := by
  induction ts with
  | nil => rfl
  | cons t ts ih => simp [anyAllowsNull, ih]

theorem allAllowNull_eq (ts : List Ty) : allAllowNull ts = ts.all allowsNull := by
  induction ts with
  | nil => rfl
  | cons t ts ih => simp [allAllowNull, ih]

/-! ### Induction over members -/

/-- To prove something of every type, prove it of an array from its element
type and of a union or intersection from all its members. -/
@[elab_as_elim]
theorem inductOn {P : Ty → Prop} (t : Ty)
    (unknown : P .unknown) (null : P .null) (bool : P .bool) (int : P .int) (float : P .float)
    (string : P .string) (callable : P .callable) (object : P .object)
    (named : ∀ c, P (.named c)) (array : P .array) (arrayOf : ∀ e, P e → P (.arrayOf e))
    (comb : ∀ k ms, (∀ m ∈ ms, P m) → P (.comb k ms)) : P t :=
  Ty.rec (motive_1 := P) (motive_2 := fun ms => ∀ m ∈ ms, P m)
    unknown null bool int float string callable object named array arrayOf comb
    (fun _ h => absurd h List.not_mem_nil)
    (fun _ _ ht hts m hm => (List.mem_cons.1 hm).elim (fun h => h ▸ ht) (hts m)) t

/-! ### Equality is decidable -/

mutual

/-- Decides equality of two types, members in order. -/
def decEq : (a b : Ty) → Decidable (a = b)
  | .unknown, b => by cases b with | unknown => exact isTrue rfl | _ => exact isFalse nofun
  | .null, b => by cases b with | null => exact isTrue rfl | _ => exact isFalse nofun
  | .bool, b => by cases b with | bool => exact isTrue rfl | _ => exact isFalse nofun
  | .int, b => by cases b with | int => exact isTrue rfl | _ => exact isFalse nofun
  | .float, b => by cases b with | float => exact isTrue rfl | _ => exact isFalse nofun
  | .string, b => by cases b with | string => exact isTrue rfl | _ => exact isFalse nofun
  | .callable, b => by cases b with | callable => exact isTrue rfl | _ => exact isFalse nofun
  | .object, b => by cases b with | object => exact isTrue rfl | _ => exact isFalse nofun
  | .array, b => by cases b with | array => exact isTrue rfl | _ => exact isFalse nofun
  | .named c, b => by
    cases b with
    | named d => exact decidable_of_iff (c = d) (by simp)
    | _ => exact isFalse nofun
  | .arrayOf e, b => by
    cases b with
    | arrayOf f =>
      have := decEq e f
      exact decidable_of_iff (e = f) (by simp)
    | _ => exact isFalse nofun
  | .comb k ms, b => by
    cases b with
    | comb l ns =>
      have := decEqAll ms ns
      exact decidable_of_iff (k = l ∧ ms = ns) (by simp)
    | _ => exact isFalse nofun

/-- Decides equality of two lists of types. -/
def decEqAll : (as bs : List Ty) → Decidable (as = bs)
  | [], [] => isTrue rfl
  | [], _ :: _ => isFalse nofun
  | _ :: _, [] => isFalse nofun
  | a :: as, b :: bs =>
    have := decEq a b
    have := decEqAll as bs
    decidable_of_iff (a = b ∧ as = bs) (by simp)

end

instance : DecidableEq Ty := decEq

end Ty

end SsaTypes
