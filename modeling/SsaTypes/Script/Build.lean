/-
SsaTypes/Script/Build.lean

Building a script declaration by declaration.  Each function answers with the
script and the number of what was declared; a number that was never given out
is a fault.
-/
import SsaTypes.Fault
import SsaTypes.Script.Basic

namespace SsaTypes.Script

/-- A script with one more operand, and its number. -/
def addOperand (s : Script) (kind : OperandKind) : Script × OperandId :=
  ({ s with operands := s.operands.push { kind } }, s.operands.size)

/-- A variable with a name. -/
def addVar (s : Script) (name : String) : Script × OperandId :=
  s.addOperand (.variable (some name))

/-- A variable without a name. -/
def addTemp (s : Script) : Script × OperandId :=
  s.addOperand (.variable none)

/-- A literal. -/
def addLiteral (s : Script) (value : Literal) : Script × OperandId :=
  s.addOperand (.literal value)

/-- A bound name. -/
def addBound (s : Script) (name : String) (scope : Scope) (owner : Option String) :
    Script × OperandId :=
  s.addOperand (.bound name scope owner)

/-- Change an operand. -/
def updateOperand (s : Script) (id : OperandId) (f : Operand → Operand) : Except Fault Script :=
  if h : id < s.operands.size then
    .ok { s with operands := s.operands.set id (f s.operands[id]) }
  else .error (.dangling .operand id)

/-- Give an operand a type. -/
def setType (s : Script) (id : OperandId) (t : Ty) : Except Fault Script :=
  s.updateOperand id fun o => { o with ty := t }

/-- Record that an operation produces an operand, after those recorded before. -/
def addProducer (s : Script) (result : OperandId) (op : OpId) : Except Fault Script :=
  s.updateOperand result fun o => { o with ops := o.ops ++ [op] }

/-- An operation with its result. -/
def emit (s : Script) (op : Op) (result : OperandId) : Except Fault (Script × OpId) :=
  let id := s.ops.size
  ({ s with ops := s.ops.push op }.addProducer result id).map fun s => (s, id)

/-- An assignment, which produces the variable as well as its result. -/
def emitAssign (s : Script) (var expr result : OperandId) : Except Fault (Script × OpId) := do
  let (s, id) ← s.emit (.assign var expr) result
  if var = result then .ok (s, id)
  else (s.addProducer var id).map fun s => (s, id)

/-- A class, interface or trait. -/
def addClass (s : Script) (c : ClassDecl) : Script × ClassId :=
  ({ s with classes := s.classes.push c }, s.classes.size)

/-- A function. -/
def addFunction (s : Script) (f : Function) : Script × FunctionId :=
  ({ s with functions := s.functions.push f }, s.functions.size)

/-- A method of a class. -/
def addMethod (s : Script) (cls : ClassId) (f : Function) : Except Fault (Script × FunctionId) :=
  if h : cls < s.classes.size then
    let (s', id) := s.addFunction { f with owner := some cls }
    let c := s.classes[cls]
    .ok ({ s' with classes := s.classes.set cls { c with methods := c.methods ++ [id] } }, id)
  else .error (.dangling .classDecl cls)

/-- A constant, global or of a class. -/
def addConstant (s : Script) (c : Constant) : Script :=
  { s with constants := s.constants.push c }

/-! ### Reading by number -/

/-- The operand with a number. -/
def operand (s : Script) (id : OperandId) : Except Fault Operand :=
  match s.operands[id]? with
  | some o => .ok o
  | none => .error (.dangling .operand id)

/-- The operation with a number. -/
def op (s : Script) (id : OpId) : Except Fault Op :=
  match s.ops[id]? with
  | some o => .ok o
  | none => .error (.dangling .op id)

/-- The class, interface or trait with a number. -/
def classDecl (s : Script) (id : ClassId) : Except Fault ClassDecl :=
  match s.classes[id]? with
  | some c => .ok c
  | none => .error (.dangling .classDecl id)

/-- The function or method with a number. -/
def function (s : Script) (id : FunctionId) : Except Fault Function :=
  match s.functions[id]? with
  | some f => .ok f
  | none => .error (.dangling .function id)

/-! A change of every entry changes what its number refers to. -/

section Map

variable {s s' : Script} (id : Nat)

theorem operand_of_map {g : Operand → Operand} (h : s'.operands = s.operands.map g) :
    s'.operand id = (s.operand id).map g := by
  rw [operand, operand, h, Array.getElem?_map]
  rcases s.operands[id]? with - | o <;> rfl

theorem op_of_map {g : Op → Op} (h : s'.ops = s.ops.map g) : s'.op id = (s.op id).map g := by
  rw [op, op, h, Array.getElem?_map]
  rcases s.ops[id]? with - | o <;> rfl

theorem function_of_map {g : Function → Function} (h : s'.functions = s.functions.map g) :
    s'.function id = (s.function id).map g := by
  rw [function, function, h, Array.getElem?_map]
  rcases s.functions[id]? with - | f <;> rfl

theorem classDecl_of_map {α : Type} {g : ClassDecl → α}
    (h : s'.classes.map g = s.classes.map g) :
    (s'.classDecl id).map g = (s.classDecl id).map g := by
  have hid : s'.classes[id]?.map g = s.classes[id]?.map g := by
    rw [← Array.getElem?_map, h, Array.getElem?_map]
  rw [classDecl, classDecl]
  rcases h' : s'.classes[id]? with - | c' <;> rcases h₀ : s.classes[id]? with - | c <;>
    rw [h', h₀] at hid
  · cases hid
  · cases hid
  · exact congrArg Except.ok (Option.some.inj hid)

end Map

end SsaTypes.Script
