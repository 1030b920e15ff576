/-
SsaTypes/Inference/Run.lean

A run over a script.  First every property gets its type from its doc comment
or its declaration; then the operands whose types are plain are seeded; then
come the rounds.  At the end every operand has its type, or is unknown.

A fault leaves the operands as they were.  Properties that had their types
before the fault keep them.
-/
import SsaTypes.Inference.Rounds

namespace SsaTypes.Inference

/-! ### Properties -/

/-- The type of a property: from its doc comment, else as declared, else anything. -/
def propertyType (useDocs : Bool) (p : Property) : Except Fault Ty :=
  let tagged := if useDocs then DocComment.extract .var p.doc else none
  match tagged.or p.declared with
  | some text => readDecl text
  | none => .ok .mixed

/-- Update the elements of a list in turn, up to the first fault. -/
def updateUntil {α : Type} (f : α → α × Option Fault) : List α → List α × Option Fault
  | [] => ([], none)
  | a :: as =>
    match f a with
    | (b, some e) => (b :: as, some e)
    | (b, none) =>
      let (bs, e) := updateUntil f as
      (b :: bs, e)

/-- Give a property its type. -/
def seedProperty (useDocs : Bool) (p : Property) : Property × Option Fault :=
  match propertyType useDocs p with
  | .ok t => ({ p with ty := t }, none)
  | .error e => (p, some e)

/-- Give the properties of a class their types. -/
def seedClass (useDocs : Bool) (d : ClassDecl) : ClassDecl × Option Fault :=
  let (ps, e) := updateUntil (seedProperty useDocs) d.properties
  ({ d with properties := ps }, e)

/-- Give the properties of all classes their types. -/
def seedProperties (useDocs : Bool) (s : Script) : Script × Option Fault :=
  let (cs, e) := updateUntil (seedClass useDocs) s.classes.toList
  ({ s with classes := cs.toArray }, e)

/-! ### Operands -/

/-- The type of an operand that needs no inference: one it has already, that
of a receiver, or that of a literal. -/
def seedType (o : Operand) : Except Fault (Option Ty) :=
  if !o.ty.isUnknown then .ok (some o.ty)
  else
    match o.kind with
    | .bound _ .receiver (some owner) => (readDecl owner).map some
    | .literal v =>
      match v.ty? with
      | some t => .ok (some t)
      | none => .error (.unsupportedLiteral v)
    | _ => .ok none

/-- The operands of a list, numbered from `id` on, with their types entered or
left open. -/
def seedFrom (p : Progress) (id : OperandId) : List Operand → Except Fault Progress
  | [] => .ok p
  | o :: os => do
    match ← seedType o with
    | some t => seedFrom { p with types := p.types.insert id t } (id + 1) os
    | none => seedFrom { p with pending := p.pending ++ [id] } (id + 1) os

/-- The state of a run before the first round. -/
def seed (s : Script) : Except Fault Progress :=
  seedFrom {} 0 s.operands.toList

/-- The type an operand has at the end. -/
def Progress.final (p : Progress) (id : OperandId) : Ty :=
  if id ∈ p.pending then .unknown else (p.known id).getD .unknown

/-- The script with the types of its operands. -/
def writeBack (s : Script) (p : Progress) : Script :=
  { s with operands := s.operands.mapIdx fun id o => { o with ty := p.final id } }

/-! ### The whole run -/

/-- The summary of a run. -/
structure Report where
  rounds : Nat
  /-- The number of operands that have a type. -/
  resolved : Nat
  /-- The number of operands that are unknown. -/
  unresolved : Nat
  /-- Whether every operand has a type. -/
  converged : Bool
deriving DecidableEq, Repr

/-- The summary of a run over a script with so many operands. -/
def Progress.report (p : Progress) (operands : Nat) : Report where
  rounds := p.rounds
  resolved := operands - p.pending.length
  unresolved := p.pending.length
  converged := p.pending.isEmpty

/-- What a run without a fault gives besides the script. -/
structure Outcome where
  lookup : Lookup
  report : Report

/-- The seeding and the rounds of a run over a script whose properties have
their types. -/
def solve (s : Script) (signatures : Signatures) (options : Options) :
    Except Fault (Lookup × Progress) := do
  let lookup ← Lookup.build s signatures
  let start ← seed s
  let last ← Context.iterate ⟨s, lookup, options⟩ (options.roundLimit s.operands.size) start
  .ok (lookup, last)

/-- Infer the types of the properties and operands of a script. -/
def infer (s : Script) (signatures : Signatures) (options : Options) :
    Script × Except Fault Outcome :=
  match seedProperties options.useDocComments s with
  | (s, some e) => (s, .error e)
  | (s, none) =>
    match solve s signatures options with
    | .error e => (s, .error e)
    | .ok (lookup, last) =>
      (writeBack s last, .ok ⟨lookup, last.report s.operands.size⟩)

end SsaTypes.Inference
