/-
SsaTypes/Json/Basic.lean

JSON values, as far as scripts, signature tables and options are exchanged in
this form.  The members of an object keep their order and may repeat a name,
so that a reader can refuse repetitions.
-/

namespace SsaTypes

/-- A JSON value. -/
inductive Json
  | null
  | bool (b : Bool)
  /-- A number written without fraction and exponent. -/
  | int (n : Int)
  /-- Any other number, as it was written. -/
  | decimal (text : String)
  | string (s : String)
  | array (items : List Json)
  | object (fields : List (String × Json))
  /-- A value in which half of a surrogate pair stands alone.  It is in order
  where values are skipped, and is no text anywhere else. -/
  | unreadable
deriving Repr, Inhabited

namespace Json

/-- The value of a member in a list of members; of two with one name, the first. -/
def lookup (name : String) : List (String × Json) → Option Json
  | [] => none
  | (k, v) :: fields => if k = name then some v else lookup name fields

/-- The value of a member of an object. -/
def get? (name : String) : Json → Option Json
  | .object fields => lookup name fields
  | _ => none

def bool? : Json → Option Bool
  | .bool b => some b
  | _ => none

def string? : Json → Option String
  | .string s => some s
  | _ => none

/-- A number that counts. -/
def nat? : Json → Option Nat
  | .int (.ofNat n) => some n
  | _ => none

def array? : Json → Option (List Json)
  | .array items => some items
  | _ => none

def object? : Json → Option (List (String × Json))
  | .object fields => some fields
  | _ => none

/-- A value that may be null. -/
def orNull? {α : Type} (read : Json → Option α) : Json → Option (Option α)
  | .null => some none
  | j => (read j).map some

/-- All items of an array. -/
def list? {α : Type} (read : Json → Option α) (j : Json) : Option (List α) :=
  j.array?.bind fun items => items.mapM read

/-- A count, as a number. -/
def ofNat (n : Nat) : Json := .int n

/-- A value that may be missing; without it, null. -/
def ofOption {α : Type} (write : α → Json) : Option α → Json
  | none => .null
  | some a => write a

/-- An array with one item for each element. -/
def ofList {α : Type} (write : α → Json) (as : List α) : Json :=
  .array (as.map write)

/-! ### Records

A record with named fields is written as an object, or as an array of its
first fields in order.  A name of the record may not occur twice; other names
are skipped. -/

/-- The fields of a record, in the order of their names, each with its value
if it is there; `none` if the value is no record with these names. -/
def slots (names : List String) : Json → Option (List (Option Json))
  | .object fields =>
    if names.all fun n => (fields.filter fun f => f.1 == n).length ≤ 1 then
      some (names.map fun n => lookup n fields)
    else none
  | .array items =>
    if items.length ≤ names.length then
      some (items.map some ++ List.replicate (names.length - items.length) none)
    else none
  | _ => none

/-- The value of a field, or a default where it is not there. -/
def field? {α : Type} (default : α) (read : Json → Option α) : Option Json → Option α
  | none => some default
  | some j => read j

end Json

end SsaTypes
