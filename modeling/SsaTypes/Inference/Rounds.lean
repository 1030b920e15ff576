/-
SsaTypes/Inference/Rounds.lean

Rounds over the operands whose types are still open.

A round asks for the verdict on every open operand in turn and enters types at
once, so that later operands of the same round see them.  A confirmed operand
is closed at the end of the round; a provisional type is only noted.  Rounds
go on until nothing is open, a round neither confirms an operand nor gives one
its first type, or the limit is reached.
-/
import SsaTypes.Inference.Rules

namespace SsaTypes.Inference

/-- How far a run has come. -/
structure Progress where
  /-- The types entered, confirmed or provisional. -/
  types : Table OperandId Ty := .empty
  /-- The operands still open, in order. -/
  pending : List OperandId := []
  /-- The number of rounds so far. -/
  rounds : Nat := 0

/-- The types entered, as the rules see them. -/
def Progress.known (p : Progress) : Known := p.types.find?

namespace Context

variable (c : Context)

/-- Ask for the verdicts on a list of operands.  The result has the types and
the operands that stay open. -/
def sweep (types : Table OperandId Ty) :
    List OperandId → Except Fault (Table OperandId Ty × List OperandId)
  | [] => .ok (types, [])
  | v :: vs => do
    match ← c.verdict types.find? v with
    | .wait => (sweep types vs).map fun r => (r.1, v :: r.2)
    | .provisional t => (sweep (types.insert v t) vs).map fun r => (r.1, v :: r.2)
    | .confirmed t => sweep (types.insert v t) vs

/-- One round. -/
def round (p : Progress) : Except Fault Progress :=
  (c.sweep p.types p.pending).map fun r => ⟨r.1, r.2, p.rounds + 1⟩

/-- Whether a round has confirmed an operand or given one its first type. -/
def advanced (before after : Progress) : Bool :=
  after.pending.length < before.pending.length || after.types.size ≠ before.types.size

/-- Rounds up to a limit. -/
def iterate : (limit : Nat) → Progress → Except Fault Progress
  | 0, p => .ok p
  | limit + 1, p =>
    if p.pending.isEmpty then .ok p
    else do
      let q ← c.round p
      if advanced p q then iterate limit q else .ok q

end Context

end SsaTypes.Inference
