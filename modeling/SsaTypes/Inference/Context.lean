/-
SsaTypes/Inference/Context.lean

What the rules of inference read: the script, its lookup tables and the
options, none of which change in a run, and the types known so far.

A rule sees the types only through the function `known`, so that it can be
asked at any assignment of types to operands.
-/
import SsaTypes.DocComment
import SsaTypes.Lookup
import SsaTypes.Options
import SsaTypes.Script.Build
import SsaTypes.Ty.Combine

namespace SsaTypes.Inference

/-- The result of reading a declaration, as that of a step of a run. -/
def reading (r : Except DeclError Ty) : Except Fault Ty :=
  match r with
  | .ok t => .ok t
  | .error e => .error (.declaration e)

/-- The type that a declaration declares, as a step of a run. -/
def readDecl (text : String) : Except Fault Ty :=
  reading (Ty.ofDecl text)

/-- What does not change in a run. -/
structure Context where
  script : Script
  lookup : Lookup
  options : Options

/-- The types of some operands. -/
abbrev Known := OperandId → Option Ty

/-- What a rule says of an operation: the candidates it contributes, or
nothing while it waits for a type. -/
abbrev Candidates := Option (List Ty)

/-- A single candidate. -/
def one (t : Ty) : Candidates := some [t]

/-- Candidates, unless there are none. -/
def orWait (ts : List Ty) : Candidates :=
  if ts.isEmpty then none else some ts

/-- The types of all operands of a list, if they are all known. -/
def allKnown (known : Known) (ids : List OperandId) : Candidates :=
  ids.mapM known

namespace Context

variable (c : Context)

/-- The text of an operand that is a string literal; no text for one that is
no literal at all. -/
def literalName (id : OperandId) (role : NameRole) : Except Fault (Option String) := do
  match (← c.script.operand id).literal? with
  | none => .ok none
  | some (.string s) => .ok (some s)
  | some v => .error (.nonStringLiteral role v)

/-- The type that a tag gives in a doc comment; anything if it gives none, or
if doc comments are not read. -/
def docType (tag : DocTag) (comment : Option String) : Except Fault Ty :=
  if c.options.useDocComments then reading (Ty.ofComment tag comment) else .ok .mixed

end Context

end SsaTypes.Inference
