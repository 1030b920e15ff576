/-
SsaTypes/Options.lean

The options of a run, and their JSON form: a record with the fields
`use_doc_comments` and `max_rounds`, each of which may be missing.
-/
import SsaTypes.Json.Reader

namespace SsaTypes

/-- The options of a run. -/
structure Options where
  /-- Whether tags of doc comments are read. -/
  useDocComments : Bool := true
  /-- The largest number of rounds; without it, the number of operands. -/
  maxRounds : Option Nat := none
deriving DecidableEq, Repr

namespace Options

/-- The options without doc comments. -/
def ignoreDocComments (o : Options) : Options :=
  { o with useDocComments := false }

/-- The options with a largest number of rounds. -/
def withMaxRounds (o : Options) (rounds : Nat) : Options :=
  { o with maxRounds := some rounds }

/-- The largest number of rounds for a script with so many operands. -/
def roundLimit (o : Options) (operands : Nat) : Nat :=
  o.maxRounds.getD operands

/-- A count that fits a word of 64 bits. -/
def count? (j : Json) : Option Nat :=
  j.nat?.filter fun n => n < UInt64.size

/-- The options with a given JSON form. -/
def ofJson? (j : Json) : Option Options :=
  match Json.slots ["use_doc_comments", "max_rounds"] j with
  | some [docs, rounds] => do
    some ⟨← Json.field? true Json.bool? docs, ← Json.field? none (Json.orNull? count?) rounds⟩
  | _ => none

/-- The options that a text describes; `none` if it describes none. -/
def ofText? (text : String) : Option Options :=
  (Json.parse? text).bind ofJson?

end Options

end SsaTypes
