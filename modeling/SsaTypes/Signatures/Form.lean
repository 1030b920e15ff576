/-
SsaTypes/Signatures/Form.lean

Reading a table of signatures from a JSON text:

    functions:  name ↦ a record with the field `return`
    constants:  name ↦ the type
    classes:    name ↦ a record with the fields `extends` and `methods`

Every field may be missing.  Names are brought to small letters only after a
map has been read, so that a name written twice counts once before names that
differ in case are put together.
-/
import SsaTypes.Json.Reader
import SsaTypes.Signatures.Basic

namespace SsaTypes

open Json Text

/-- A map from names; of two values for one name the last counts. -/
def Json.table? {α : Type} (read : Json → Option α) (j : Json) : Option (Table String α) :=
  j.object?.bind fun fields =>
    (fields.mapM fun f => (read f.2).map fun a => (f.1, a)).map Table.ofList

/-- The table with its keys in small letters; of keys that become one the last
counts. -/
def Table.foldKeys {α : Type} (t : Table String α) : Table String α :=
  .ofList (t.entries.map fun e => (fold e.1, e.2))

/-- The signature with a given JSON form. -/
def Signature.ofJson? (j : Json) : Option Signature :=
  match slots ["return"] j with
  | some [returns] => do
    some ⟨← field? none (orNull? string?) returns⟩
  | _ => none

/-- The class signature with a given JSON form, its names as written. -/
def ClassSignature.ofJson? (j : Json) : Option ClassSignature :=
  match slots ["extends", "methods"] j with
  | some [parents, methods] => do
    some ⟨← field? [] (list? string?) parents, ← field? .empty (table? Signature.ofJson?) methods⟩
  | _ => none

/-- The class signature with its names in small letters. -/
def ClassSignature.foldNames (c : ClassSignature) : ClassSignature :=
  ⟨c.parents.map fold, c.methods.foldKeys⟩

namespace Signatures

/-- The table with its names in small letters. -/
def foldNames (t : Signatures) : Signatures :=
  { functions := t.functions.foldKeys
    constants := t.constants
    classes := (t.classes.mapValues fun _ c => c.foldNames).foldKeys }

/-- The table with a given JSON form. -/
def ofJson? (j : Json) : Option Signatures :=
  match slots ["functions", "constants", "classes"] j with
  | some [functions, constants, classes] => do
    let t : Signatures :=
      ⟨← field? .empty (table? Signature.ofJson?) functions,
       ← field? .empty (table? string?) constants,
       ← field? .empty (table? ClassSignature.ofJson?) classes⟩
    some t.foldNames
  | _ => none

/-- The table that a text describes; `none` if it describes none. -/
def ofText? (text : String) : Option Signatures :=
  (Json.parse? text).bind ofJson?

end Signatures

end SsaTypes
