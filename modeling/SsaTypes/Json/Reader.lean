/-
SsaTypes/Json/Reader.lean

Reading a JSON text.  A machine takes the tokens one by one and keeps the
arrays and objects that are still open on a stack, so that nesting of any
depth is read.
-/
import SsaTypes.Json.Token

namespace SsaTypes.Json

/-- An array or an object that is still open; its parts are listed latest first. -/
inductive Frame
  | array (items : List Json)
  | object (fields : List (Option String × Json))
  /-- An object in which a name was read and its value is to come. -/
  | member (fields : List (Option String × Json)) (name : Option String)

/-- What may come next. -/
inductive Awaits
  | value
  /-- The first item of an array, or its end. -/
  | item
  /-- The name of a member. -/
  | name
  /-- The name of the first member, or the end of the object. -/
  | firstName
  | colon
  /-- A comma or the end of what is open. -/
  | next
  /-- Nothing: the text is complete. -/
  | nothing
deriving DecidableEq

/-- How far a text has been read. -/
structure Reading where
  /-- What is open, innermost first. -/
  stack : List Frame := []
  awaits : Awaits := .value
  /-- The value read, once it is complete. -/
  result : Json := .null

/-- The object with the given members, unless a name is no text. -/
def closeObject (fields : List (Option String × Json)) : Json :=
  match fields.reverse.mapM fun f => f.1.map fun name => (name, f.2) with
  | some fs => .object fs
  | none => .unreadable

/-- A value is complete: it goes into what is open around it. -/
def deliver (j : Json) : List Frame → Option Reading
  | [] => some ⟨[], .nothing, j⟩
  | .array items :: st => some ⟨.array (j :: items) :: st, .next, .null⟩
  | .member fields name :: st => some ⟨.object ((name, j) :: fields) :: st, .next, .null⟩
  | .object _ :: _ => none

/-- A token where a value is to begin. -/
def beginValue (stack : List Frame) : Token → Option Reading
  | .scalar j => deliver j stack
  | .text s => deliver (match s with | some t => .string t | none => .unreadable) stack
  | .openArray => some ⟨.array [] :: stack, .item, .null⟩
  | .openObject => some ⟨.object [] :: stack, .firstName, .null⟩
  | _ => none

/-- A token after a value in what is open, or the end of what is open. -/
def afterValue : List Frame → Token → Option Reading
  | .array items :: st, .comma => some ⟨.array items :: st, .value, .null⟩
  | .array items :: st, .closeArray => deliver (.array items.reverse) st
  | .object fields :: st, .comma => some ⟨.object fields :: st, .name, .null⟩
  | .object fields :: st, .closeObject => deliver (closeObject fields) st
  | _, _ => none

/-- A token where the name of a member is to stand. -/
def beginMember : List Frame → Token → Option Reading
  | .object fields :: st, .text s => some ⟨.member fields s :: st, .colon, .null⟩
  | _, _ => none

/-- One token. -/
def Reading.step (r : Reading) (t : Token) : Option Reading :=
  match r.awaits, t with
  | .value, t => beginValue r.stack t
  | .item, .closeArray => afterValue r.stack .closeArray
  | .item, t => beginValue r.stack t
  | .name, t => beginMember r.stack t
  | .firstName, .closeObject => afterValue r.stack .closeObject
  | .firstName, t => beginMember r.stack t
  | .colon, .colon => some { r with awaits := .value }
  | .next, t => afterValue r.stack t
  | _, _ => none

/-- The value that a text denotes; `none` if it is no JSON text. -/
def parse? (text : String) : Option Json := do
  let ts ← tokens text.toList
  let r ← ts.foldlM Reading.step {}
  if r.awaits = .nothing then some r.result else none

end SsaTypes.Json
