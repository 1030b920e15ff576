/-
SsaTypes/Proofs/Undocumented.lean

Runs that do not read doc comments.  Leaving the comments of functions, methods and
properties out is a new spelling of the script that changes no name and no declaration,

    s.respell id false = s.withoutDocs,

and a run that does not read comments sees no spelling.  So over scripts that differ in
their comments only, such runs end alike: with the same fault, or with the same report
and the same tables, missing parents included, and with the same types
(`infer_undocumented`).
-/
import SsaTypes.Proofs.RespelledRuns

namespace SsaTypes

open Text

/-- The script without the doc comments of its functions, methods and properties. -/
def Script.withoutDocs (s : Script) : Script :=
  { s with
    classes := s.classes.map fun d =>
      { d with properties := d.properties.map fun p => { p with doc := none } }
    functions := s.functions.map fun g => { g with doc := none } }

/-! ### Nothing spelled anew -/

theorem OperandKind.respell_id (kind : OperandKind) : kind.respell id = kind := by
  cases kind with
  | bound name scope owner => exact congrArg (bound name scope) (congrFun Option.map_id_fun owner)
  | _ => rfl

theorem Op.respell_id (op : Op) : op.respell id = op := by
  cases op with
  | param name declared default function =>
    exact congrArg (param name · default function) (congrFun Option.map_id_fun declared)
  | _ => rfl

theorem Fault.respell_id (e : Fault) : e.respell id = e := by
  cases e with
  | declaration e => cases e <;> rfl
  | unmodeled id op => rw [respell, Op.respell_id]
  | emptied whole removed => rw [respell, Ty.respell_id, Ty.respell_id]
  | _ => rfl

/-- **Without its comments** the script is in a spelling that leaves all names. -/
theorem Script.respell_id (s : Script) : s.respell id false = s.withoutDocs := by
  have hoperand : Operand.respell id = id := funext fun o => by
    rw [Operand.respell, OperandKind.respell_id]
    rfl
  have hop : Op.respell id = id := funext Op.respell_id
  have hproperty : Property.respell id false = fun p => { p with doc := none } :=
    funext fun p => by rw [Property.respell, Option.map_id_fun]; rfl
  have hclass : ClassDecl.respell id false = fun d =>
      { d with properties := d.properties.map fun p => { p with doc := none } } :=
    funext fun d => by rw [ClassDecl.respell, List.map_id, List.map_id, hproperty]; rfl
  have hfunction : Function.respell id false = fun g => { g with doc := none } :=
    funext fun g => by rw [Function.respell, Option.map_id_fun]; rfl
  rw [respell, withoutDocs, hoperand, hop, hclass, hfunction, Array.map_id, Array.map_id]

namespace Inference

theorem spelling_id : Spelling id where
  fold _ := rfl
  reads _ := .of_eq rfl

theorem operandTypes_id (s : Script) : s.operandTypes id = s.operands.map Operand.ty :=
  congrArg (s.operands.map ·) (funext fun o => Ty.respell_id o.ty)

theorem propertyTypes_id (s : Script) :
    s.propertyTypes id = s.classes.map fun d => d.properties.map Property.ty :=
  congrArg (s.classes.map ·) (funext fun d =>
    congrArg (d.properties.map ·) (funext fun p => Ty.respell_id p.ty))

/-- A run that reads no comments may as well go over a script without them. -/
theorem infer_withoutDocs {options : Options} (ho : options.useDocComments = false) (s : Script)
    (signatures : Signatures) :
    (infer s.withoutDocs signatures options).2 = (infer s signatures options).2 ∧
    (infer s.withoutDocs signatures options).1.operands.map Operand.ty =
      (infer s signatures options).1.operands.map Operand.ty ∧
    ((infer s.withoutDocs signatures options).1.classes.map fun d =>
        d.properties.map Property.ty) =
      (infer s signatures options).1.classes.map fun d => d.properties.map Property.ty := by
  have hdocs : options.useDocComments = true → false = true := fun h => by rw [← ho, h]
  obtain ⟨hoperands, hproperties, hend⟩ := infer_respell spelling_id hdocs s signatures
  rw [Script.respell_id] at hoperands hproperties hend
  rw [operandTypes_id, operandTypes_id] at hoperands
  rw [propertyTypes_id, propertyTypes_id] at hproperties
  refine ⟨?_, hoperands, hproperties⟩
  have hfault (r : Except Fault Outcome) : r.mapError (Fault.respell id) = r := by
    rcases r with e | out
    · exact congrArg Except.error e.respell_id
    · rfl
  have hout (r : Except Fault Outcome) : r.map (Outcome.respell id) = r := by
    rcases r with e | out
    · rfl
    · exact congrArg (fun l => Except.ok (⟨l, out.report⟩ : Outcome)) out.lookup.respell_id
  rw [← hfault (infer s.withoutDocs signatures options).2, hend, hout, hfault]

/-- **Comments that are not read do not matter.**  Over scripts that differ in their doc
comments only, both runs end with the same fault, or with the same report and the same
tables; and the types of all operands and properties are the same. -/
theorem infer_undocumented {s s' : Script} (h : s.withoutDocs = s'.withoutDocs)
    {options : Options} (ho : options.useDocComments = false) (signatures : Signatures) :
    (infer s signatures options).2 = (infer s' signatures options).2 ∧
    (infer s signatures options).1.operands.map Operand.ty =
      (infer s' signatures options).1.operands.map Operand.ty ∧
    ((infer s signatures options).1.classes.map fun d => d.properties.map Property.ty) =
      (infer s' signatures options).1.classes.map fun d => d.properties.map Property.ty := by
  obtain ⟨hend, hoperands, hproperties⟩ := infer_withoutDocs ho s signatures
  obtain ⟨hend', hoperands', hproperties'⟩ := infer_withoutDocs ho s' signatures
  rw [h] at hend hoperands hproperties
  exact ⟨hend.symm.trans hend', hoperands.symm.trans hoperands',
    hproperties.symm.trans hproperties'⟩

/-- A script that calls a function with a doc comment. -/
def commentedCall (doc : String) : Script where
  operands := #[
    { kind := .literal (.string "load") },
    { kind := .variable (some "rows"), ops := [0] }]
  ops := #[.call 0 []]
  functions := #[{ name := "load", doc := some doc }]

/-- The second comment cannot be read, and a run that reads it has a fault; without the
comments both runs end alike. -/
theorem infer_undocumented_commentedCall :
    (infer (commentedCall "@return int") {} {}).2.toOption.isSome = true ∧
    (infer (commentedCall "@return int|") {} {}).2.toOption.isSome = false ∧
    (infer (commentedCall "@return int") {} (Options.ignoreDocComments {})).2 =
      (infer (commentedCall "@return int|") {} (Options.ignoreDocComments {})).2 ∧
    (infer (commentedCall "@return int|") {} (Options.ignoreDocComments {})).1.operands.map
      Operand.ty = #[.string, .mixed] := by
  have h : (commentedCall "@return int").withoutDocs =
      (commentedCall "@return int|").withoutDocs := by
    simp only [Script.withoutDocs, commentedCall, List.map_toArray, List.map_cons, List.map_nil]
  have ho : (Options.ignoreDocComments {}).useDocComments = false := rfl
  exact ⟨by decide +kernel, by decide +kernel, (infer_undocumented h ho {}).1,
    by decide +kernel⟩

end Inference

end SsaTypes
