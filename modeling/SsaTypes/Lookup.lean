/-
SsaTypes/Lookup.lean

The tables that a run looks things up in: the hierarchy of the classes, the
functions by name, the values of constants by key, the signatures of the
standard library, and the places where objects are created and methods called.

Global constants are kept under their names, constants of classes under the
name of the class in small letters and their own name, with two colons
between them.
-/
import SsaTypes.Hierarchy.Basic
import SsaTypes.Script.Build
import SsaTypes.Signatures.Basic

namespace SsaTypes

open Text

/-- The key of a constant of a class. -/
def classConstantKey (cls name : String) : String :=
  fold cls ++ "::" ++ name

/-- The lookup tables of a run. -/
structure Lookup where
  hierarchy : Hierarchy
  signatures : Signatures
  /-- The functions that are no methods, by their names in small letters. -/
  functionsByName : Table String (List FunctionId)
  /-- The values of constants, by key. -/
  constantsByKey : Table String (List OperandId)
  /-- The operations that create an object. -/
  creations : List OpId
  /-- The calls of methods of objects. -/
  methodCalls : List OpId

namespace Lookup

/-- The functions of a script that are no methods, by name. -/
def indexFunctions (s : Script) : Table String (List FunctionId) :=
  s.functions.toList.zipIdx.foldl
    (fun t f => if f.1.owner.isNone then t.push (fold f.1.name) f.2 else t) .empty

/-- The key of a constant; its class has to be declared. -/
def constantKey (s : Script) (c : Constant) : Except Fault String :=
  match c.owner with
  | none => .ok c.name
  | some id => (s.classDecl id).map fun d => classConstantKey d.name c.name

/-- The values of the constants of a script, by key. -/
def indexConstants (s : Script) : Except Fault (Table String (List OperandId)) :=
  s.constants.toList.foldlM
    (fun t c => (constantKey s c).map fun key => t.push key c.value) .empty

/-- The numbers of the operations that pass a test. -/
def opsWhere (s : Script) (test : Op → Bool) : List OpId :=
  (s.ops.toList.zipIdx.filter fun o => test o.1).map Prod.snd

/-- A change of operations that a test does not see leaves the numbers as they are. -/
theorem opsWhere_map {s s' : Script} {g : Op → Op} (hops : s'.ops = s.ops.map g)
    {test : Op → Bool} (htest : ∀ op, test (g op) = test op) :
    opsWhere s' test = opsWhere s test := by
  have hcomp : (fun o : Op × Nat => test o.1) ∘ Prod.map g id = fun o => test o.1 :=
    funext fun o => htest o.1
  rw [opsWhere, opsWhere, hops, Array.toList_map, List.zipIdx_map, List.filter_map, List.map_map,
    hcomp]
  rfl

def isCreation : Op → Bool
  | .create .. => true
  | _ => false

def isMethodCall : Op → Bool
  | .methodCall .. => true
  | _ => false

/-- The lookup tables for a script. -/
def build (s : Script) (signatures : Signatures) : Except Fault Lookup :=
  (indexConstants s).map fun constants =>
    { hierarchy := Hierarchy.build s.classes.toList
      signatures
      functionsByName := indexFunctions s
      constantsByKey := constants
      creations := opsWhere s isCreation
      methodCalls := opsWhere s isMethodCall }

/-- The functions with a name, in the order of their declaration. -/
def functions (l : Lookup) (name : String) : Option (List FunctionId) :=
  l.functionsByName.find? (fold name)

/-- The values of the constants with a key, in the order of their declaration. -/
def constant (l : Lookup) (key : String) : Option (List OperandId) :=
  l.constantsByKey.find? key

end Lookup

end SsaTypes
