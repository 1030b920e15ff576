/-
SsaTypes/Proofs/Renumber.lean

Renumbering the operands of a script.  The permutation `π` gives every operand
its new number, and all references follow it.  The rules do not look at numbers,
so where the types are renumbered too,

    verdict known' (π v)  =  verdict known v        if  known' (π v) = known v,

faults apart, since they name numbers (`verdict_renumber`).  What a run reads
besides the operands, the declarations and the lookup tables, is the same up to
the numbers in it.
-/
import Mathlib.Logic.Equiv.Basic
import SsaTypes.Proofs.Declarations
import SsaTypes.Proofs.Seeding

namespace SsaTypes

/-! ### Renumbered scripts -/

mutual

/-- The test with its operands renumbered. -/
def TypeTest.renumber (π : OperandId → OperandId) : TypeTest → TypeTest
  | .operand id => .operand (π id)
  | .comb k ms => .comb k (TypeTest.renumberAll π ms)

/-- The tests with their operands renumbered. -/
def TypeTest.renumberAll (π : OperandId → OperandId) : List TypeTest → List TypeTest
  | [] => []
  | m :: ms => m.renumber π :: TypeTest.renumberAll π ms

end

/-- The guard with its operands renumbered. -/
def Guard.renumber (π : OperandId → OperandId) : Guard → Guard
  | .holds t => .holds (t.renumber π)
  | .fails g => .fails (g.renumber π)

/-- The operation with its operands renumbered. -/
def Op.renumber (π : OperandId → OperandId) : Op → Op
  | .binary op left right => .binary op (π left) (π right)
  | .unary op expr => .unary op (π expr)
  | .cast kind expr => .cast kind (π expr)
  | .instanceOf expr cls => .instanceOf (π expr) (π cls)
  | .empty expr => .empty (π expr)
  | .isset vars => .isset (vars.map π)
  | .concatList list => .concatList (list.map π)
  | .print expr => .print (π expr)
  | .exit expr => .exit (expr.map π)
  | .evaluate expr => .evaluate (π expr)
  | .includeFile expr => .includeFile (π expr)
  | .yield value key => .yield (value.map π) (key.map π)
  | .iterator kind var => .iterator kind (π var)
  | .array keys values => .array (keys.map (Option.map π)) (values.map π)
  | .dimFetch var dim => .dimFetch (π var) (dim.map π)
  | .assign var expr => .assign (π var) (π expr)
  | .assignRef var expr => .assignRef (π var) (π expr)
  | .clone expr => .clone (π expr)
  | .closure function => .closure function
  | .call name args => .call (π name) (args.map π)
  | .create cls args => .create (π cls) (args.map π)
  | .param name declared default function => .param name declared (default.map π) function
  | .staticCall cls name args => .staticCall (π cls) (π name) (args.map π)
  | .methodCall var name args => .methodCall (π var) (π name) (args.map π)
  | .propertyFetch var name => .propertyFetch (π var) (π name)
  | .staticPropertyFetch cls name => .staticPropertyFetch (π cls) (π name)
  | .guarded expr guard => .guarded (π expr) (guard.renumber π)
  | .constFetch name => .constFetch (π name)
  | .classConstFetch cls name => .classConstFetch (π cls) (π name)
  | .phi vars => .phi (vars.map π)

/-- The script with its operands renumbered, and all references to them. -/
def Script.renumber (π : Equiv.Perm OperandId) (s : Script) : Script :=
  { s with
    operands := s.operands.mapIdx fun id o => s.operands.getD (π.symm id) o
    ops := s.ops.map (Op.renumber π)
    constants := s.constants.map fun k => { k with value := π k.value } }

/-- The lookup tables with the operands renumbered. -/
def Lookup.renumber (π : OperandId → OperandId) (l : Lookup) : Lookup :=
  { l with constantsByKey := l.constantsByKey.mapValues fun _ ids => ids.map π }

/-- The permutation numbers the operands of the script again, and no others. -/
def Script.Renumbers (s : Script) (π : Equiv.Perm OperandId) : Prop :=
  ∀ v, π v < s.operands.size ↔ v < s.operands.size

namespace Script

variable {s : Script} {π : Equiv.Perm OperandId}

theorem size_operands_renumber : (s.renumber π).operands.size = s.operands.size :=
  Array.size_mapIdx

theorem getElem?_operands_renumber (hπ : s.Renumbers π) (v : OperandId) :
    (s.renumber π).operands[π v]? = s.operands[v]? := by
  rw [renumber, Array.getElem?_mapIdx]
  rcases e : s.operands[v]? with - | o
  · -- a number that refers to nothing is renumbered to one that refers to nothing
    have hv : ¬ π v < s.operands.size := by
      rw [hπ v]
      simpa using e
    rw [Array.getElem?_eq_none (Nat.le_of_not_lt hv)]
    rfl
  · have hv : π v < s.operands.size := by
      rw [hπ v]
      exact (Array.getElem?_eq_some_iff.mp e).1
    rw [Array.getElem?_eq_getElem hv, Option.map_some, Equiv.symm_apply_apply,
      Array.getD_eq_getD_getElem?, e]
    rfl

/-- An operand keeps its place in the graph; only a fault names its number. -/
theorem operand_renumber (hπ : s.Renumbers π) (v : OperandId) :
    ((s.renumber π).operand (π v)).toOption = (s.operand v).toOption := by
  rw [operand, operand, getElem?_operands_renumber hπ]
  rcases s.operands[v]? with - | o
  · rfl
  · rfl

theorem op_renumber (id : OpId) : (s.renumber π).op id = (s.op id).map (Op.renumber π) :=
  op_of_map id rfl

end Script

namespace Inference

variable {π : Equiv.Perm OperandId} {known known' : Known}

theorem allKnown_renumber (hk : ∀ v, known' (π v) = known v) (ids : List OperandId) :
    allKnown known' (ids.map π) = allKnown known ids := by
  induction ids with
  | nil => rfl
  | cons id ids ih =>
    simp only [allKnown, List.map_cons, List.mapM_cons, hk] at ih ⊢
    rw [ih]

theorem phi_renumber (hk : ∀ v, known' (π v) = known v) (vars : List OperandId) :
    phi known' (vars.map π) = phi known vars := by
  have hmerge : (vars.map π).filterMap known' = vars.filterMap known := by
    rw [List.filterMap_map]
    exact List.filterMap_congr fun v _ => hk v
  have hall : ((vars.map π).all fun v => (known' v).isSome) =
      vars.all fun v => (known v).isSome := by
    rw [List.all_map]
    exact List.all_congr rfl fun v => by rw [Function.comp_apply, hk]
  rw [phi, phi, hmerge, hall]

namespace Context

variable {c : Context}

/-- The context with the operands renumbered. -/
def renumber (π : Equiv.Perm OperandId) (c : Context) : Context where
  script := c.script.renumber π
  lookup := c.lookup.renumber π
  options := c.options

theorem sameDecls_renumber (π : Equiv.Perm OperandId) (c : Context) :
    c.SameDecls (c.renumber π) :=
  ⟨rfl, rfl, rfl, rfl, rfl⟩

/-! ### Rules -/

theorem operand_renumber (hπ : c.script.Renumbers π) (v : OperandId) :
    ((c.renumber π).script.operand (π v)).toOption = (c.script.operand v).toOption :=
  Script.operand_renumber hπ v

theorem literalName_renumber (hπ : c.script.Renumbers π) (id : OperandId) (role : NameRole) :
    ((c.renumber π).literalName (π id) role).toOption = (c.literalName id role).toOption := by
  rw [literalName, literalName, toOption_bind, toOption_bind, operand_renumber hπ]

mutual

theorem testType_renumber (hπ : c.script.Renumbers π) (hk : ∀ v, known' (π v) = known v) :
    (test : TypeTest) →
      (testType (c.renumber π) known' (test.renumber π)).toOption =
        (testType c known test).toOption
  | .operand id => by
    rw [TypeTest.renumber, testType, testType, toOption_bind, toOption_bind,
      operand_renumber hπ, hk]
  | .comb k ms => by
    rw [TypeTest.renumber, testType, testType, toOption_map, toOption_map,
      testTypes_renumber hπ hk ms]

theorem testTypes_renumber (hπ : c.script.Renumbers π) (hk : ∀ v, known' (π v) = known v) :
    (tests : List TypeTest) →
      (testTypes (c.renumber π) known' (TypeTest.renumberAll π tests)).toOption =
        (testTypes c known tests).toOption
  | [] => by rw [TypeTest.renumberAll, testTypes, testTypes]
  | m :: ms => by
    rw [TypeTest.renumberAll, testTypes, testTypes, toOption_bind, toOption_bind,
      testType_renumber hπ hk m]
    congr 1
    funext t
    rcases t with - | t
    · rfl
    · show (Except.map _ _).toOption = (Except.map _ _).toOption
      rw [toOption_map, toOption_map, testTypes_renumber hπ hk ms]

end

theorem guardType_renumber (hπ : c.script.Renumbers π) (hk : ∀ v, known' (π v) = known v)
    (expr : OperandId) (guard : Guard) :
    (guardType (c.renumber π) known' (π expr) (guard.renumber π)).toOption =
      (guardType c known expr guard).toOption := by
  induction guard with
  | holds t => exact testType_renumber hπ hk t
  | fails g ih =>
    rw [Guard.renumber, guardType, guardType, toOption_bind, toOption_bind, ih, hk]

theorem functionCall_renumber (hπ : c.script.Renumbers π) (name : OperandId) :
    ((c.renumber π).functionCall (π name)).toOption = (c.functionCall name).toOption := by
  rw [functionCall, functionCall, toOption_bind, toOption_bind, literalName_renumber hπ]
  rfl

theorem methodCall_renumber (hπ : c.script.Renumbers π) (hk : ∀ v, known' (π v) = known v)
    (receiver name : OperandId) (isStatic : Bool) :
    ((c.renumber π).methodCall known' (π receiver) (π name) isStatic).toOption =
      (c.methodCall known receiver name isStatic).toOption := by
  have hd := sameDecls_renumber π c
  -- the same name, the same type of the receiver, and methods of the same classes
  rw [methodCall, methodCall, toOption_bind, toOption_bind, literalName_renumber hπ, hk]
  congr 1
  funext s
  rcases s with - | s
  · rfl
  · simp only [hd.methodOf]
    split
    · rw [toOption_bind, toOption_bind, literalName_renumber hπ]
    · rfl
    · rfl

theorem classType_renumber (hπ : c.script.Renumbers π) (hk : ∀ v, known' (π v) = known v)
    (id : OperandId) :
    ((c.renumber π).classType known' (π id)).toOption = (c.classType known id).toOption := by
  rw [classType, classType, toOption_bind, toOption_bind, operand_renumber hπ, hk]

theorem propertyFetch_renumber (hπ : c.script.Renumbers π) (hk : ∀ v, known' (π v) = known v)
    (owner name : OperandId) :
    ((c.renumber π).propertyFetch known' (π owner) (π name)).toOption =
      (c.propertyFetch known owner name).toOption := by
  have hd := sameDecls_renumber π c
  rw [propertyFetch, propertyFetch, toOption_bind, toOption_bind, literalName_renumber hπ]
  congr 1
  funext s
  rcases s with - | s
  · rfl
  · show (_ >>= _ : Except Fault Candidates).toOption = (_ >>= _ : Except Fault Candidates).toOption
    rw [toOption_bind, toOption_bind, classType_renumber hπ hk]
    simp only [hd.hierarchy, hd.propertyTypes]

theorem constant_renumber (key : String) :
    (c.renumber π).lookup.constant key = (c.lookup.constant key).map fun ids => ids.map π :=
  Table.find?_mapValues _ _ _

theorem constFetch_renumber (hπ : c.script.Renumbers π) (hk : ∀ v, known' (π v) = known v)
    (name : OperandId) :
    ((c.renumber π).constFetch known' (π name)).toOption = (c.constFetch known name).toOption := by
  have hd := sameDecls_renumber π c
  rw [constFetch, constFetch, toOption_bind, toOption_bind, literalName_renumber hπ]
  congr 1
  funext s
  rcases s with - | s
  · rfl
  · simp only [constant_renumber, hd.signatures]
    rcases c.lookup.constant s with - | values
    · rfl
    · simp only [Option.map_some, allKnown_renumber hk]

theorem inheritedConstant_renumber (hk : ∀ v, known' (π v) = known v) (name : String)
    (classes : List String) :
    (c.renumber π).inheritedConstant known' name classes =
      c.inheritedConstant known name classes := by
  rw [inheritedConstant, inheritedConstant]
  refine congrArg _ (congrArg (classes.mapM ·) (funext fun cls => ?_))
  rw [constant_renumber]
  rcases c.lookup.constant (classConstantKey cls name) with - | values
  · rfl
  · exact allKnown_renumber hk values

theorem classConstant_renumber (hk : ∀ v, known' (π v) = known v) (cls name : String) :
    (c.renumber π).classConstant known' cls name = c.classConstant known cls name := by
  have hd := sameDecls_renumber π c
  rw [classConstant, classConstant, constant_renumber]
  rcases c.lookup.constant (classConstantKey cls name) with - | values
  · simp only [Option.map_none, hd.hierarchy, inheritedConstant_renumber hk]
  · exact allKnown_renumber hk values

theorem classConstFetch_renumber (hπ : c.script.Renumbers π) (hk : ∀ v, known' (π v) = known v)
    (cls name : OperandId) :
    ((c.renumber π).classConstFetch known' (π cls) (π name)).toOption =
      (c.classConstFetch known cls name).toOption := by
  rw [classConstFetch, classConstFetch, toOption_bind, toOption_bind, literalName_renumber hπ]
  congr 1
  funext s
  rcases s with - | s
  · rfl
  · show (_ >>= _ : Except Fault Candidates).toOption = (_ >>= _ : Except Fault Candidates).toOption
    rw [toOption_bind, toOption_bind, literalName_renumber hπ, hk]
    simp only [classConstant_renumber hk]

theorem isNullConstant_renumber (hπ : c.script.Renumbers π) (id : OperandId) :
    ((c.renumber π).isNullConstant (π id)).toOption = (c.isNullConstant id).toOption := by
  rw [isNullConstant, isNullConstant, toOption_bind, toOption_bind, operand_renumber hπ]
  congr 1
  funext o
  rcases o.ops with - | ⟨first, rest⟩
  · rfl
  · show (_ >>= _ : Except Fault Bool).toOption = (_ >>= _ : Except Fault Bool).toOption
    have hop : (c.renumber π).script.op first = (c.script.op first).map (Op.renumber π) :=
      Script.op_renumber first
    rw [toOption_bind, toOption_bind, hop, toOption_map, Option.bind_map]
    congr 1
    funext op
    -- only a constant is looked up by the operand that names it
    cases op with
    | constFetch name =>
      show (_ >>= _ : Except Fault Bool).toOption = (_ >>= _ : Except Fault Bool).toOption
      rw [toOption_bind, toOption_bind, operand_renumber hπ]
    | _ => rfl

theorem param_renumber (hπ : c.script.Renumbers π) (name : String) (declared : Option String)
    (default : Option OperandId) (function : Option FunctionId) :
    ((c.renumber π).param name declared (default.map π) function).toOption =
      (c.param name declared default function).toOption := by
  have hd := sameDecls_renumber π c
  simp only [param, hd.function, hd.docType]
  rcases default with - | d
  · rfl
  · simp only [Option.map_some]
    rcases declared with - | text
    · rcases function with - | f
      · simp only [toOption_bind, toOption_map, isNullConstant_renumber hπ]
      · simp only [toOption_bind, toOption_map, isNullConstant_renumber hπ]
    · simp only [toOption_bind, toOption_map, isNullConstant_renumber hπ]

theorem candidates_renumber (hπ : c.script.Renumbers π) (hk : ∀ v, known' (π v) = known v)
    (id : OpId) (op : Op) :
    ((c.renumber π).candidates known' id (op.renumber π)).toOption =
      (c.candidates known id op).toOption := by
  cases op with
  | binary op left right =>
    simp only [Op.renumber, candidates, binary, hk]
    rcases binaryRule op with t | f | -
    · rfl
    · rfl
    · rfl
  | unary => simp only [Op.renumber, candidates, unary, hk]
  | cast => simp only [Op.renumber, candidates, cast, hk]
  | iterator => simp only [Op.renumber, candidates, iterator, hk]
  | array => simp only [Op.renumber, candidates, arrayLiteral, allKnown_renumber hk]
  | dimFetch => simp only [Op.renumber, candidates, dimFetch, hk]
  | assign | assignRef | clone => simp only [Op.renumber, candidates, hk]
  | call => exact functionCall_renumber hπ _
  | create =>
    simp only [Op.renumber, candidates, toOption_map, classType_renumber hπ hk]
  | param =>
    simp only [Op.renumber, candidates, toOption_map, param_renumber hπ]
  | staticCall => exact methodCall_renumber hπ hk _ _ _
  | methodCall => exact methodCall_renumber hπ hk _ _ _
  | propertyFetch => exact propertyFetch_renumber hπ hk _ _
  | staticPropertyFetch => exact propertyFetch_renumber hπ hk _ _
  | guarded =>
    simp only [Op.renumber, candidates, toOption_map, guardType_renumber hπ hk]
  | constFetch => exact constFetch_renumber hπ hk _
  | classConstFetch => exact classConstFetch_renumber hπ hk _ _
  | _ => rfl

theorem answer_renumber (hπ : c.script.Renumbers π) (hk : ∀ v, known' (π v) = known v)
    (id : OpId) :
    ((c.renumber π).answer known' id).toOption = (c.answer known id).toOption := by
  have hop : (c.renumber π).script.op id = (c.script.op id).map (Op.renumber π) :=
    Script.op_renumber id
  rw [answer, answer, toOption_bind, toOption_bind, hop, toOption_map, Option.bind_map]
  congr 1
  funext op
  have hcandidates := candidates_renumber hπ hk id op
  cases op with
  | phi vars => exact congrArg some (phi_renumber hk vars)
  | _ =>
    simp only [Function.comp_apply, Op.renumber, toOption_map] at hcandidates ⊢
    rw [hcandidates]

theorem gather_renumber (hπ : c.script.Renumbers π) (hk : ∀ v, known' (π v) = known v)
    (ids : List OpId) :
    ((c.renumber π).gather known' ids).toOption = (c.gather known ids).toOption := by
  induction ids with
  | nil => rfl
  | cons id ids ih =>
    rw [gather, gather, toOption_bind, toOption_bind, answer_renumber hπ hk]
    congr 1
    funext a
    cases a with
    | candidates ts =>
      show (Except.map _ _).toOption = (Except.map _ _).toOption
      rw [toOption_map, toOption_map, ih]
    | _ => rfl

/-- **The rules do not look at numbers.** -/
theorem verdict_renumber (hπ : c.script.Renumbers π) (hk : ∀ v, known' (π v) = known v)
    (v : OperandId) :
    ((c.renumber π).verdict known' (π v)).toOption = (c.verdict known v).toOption := by
  rw [verdict, verdict, toOption_bind, toOption_bind, operand_renumber hπ]
  congr 1
  funext o
  rw [toOption_map, toOption_map, gather_renumber hπ hk]

/-! ### Seeds -/

theorem seeds_renumber (hπ : c.script.Renumbers π) {v : OperandId} {t : Ty} :
    (c.renumber π).script.Seeds (π v) t ↔ c.script.Seeds v t := by
  have ho : ∀ o, (c.renumber π).script.operand (π v) = .ok o ↔ c.script.operand v = .ok o := by
    intro o
    rw [← toOption_eq_some, ← toOption_eq_some, operand_renumber hπ]
  simp only [Script.Seeds, ho]

theorem isOpen_renumber (hπ : c.script.Renumbers π) {v : OperandId} :
    (c.renumber π).script.isOpen (π v) = true ↔ c.script.isOpen v = true := by
  have ho : ∀ o, (c.renumber π).script.operand (π v) = .ok o ↔ c.script.operand v = .ok o := by
    intro o
    rw [← toOption_eq_some, ← toOption_eq_some, operand_renumber hπ]
  simp only [Script.isOpen_iff, ho]

end Context

/-! ### Lookup tables -/

theorem mapValues_push (π : OperandId → OperandId) (t : Table String (List OperandId))
    (key : String) (v : OperandId) :
    (t.push key v).mapValues (fun _ ids => ids.map π) =
      (t.mapValues fun _ ids => ids.map π).push key (π v) := by
  refine Table.mapValues_alter _ t key fun old => ?_
  rcases old with - | ids
  · rfl
  · exact List.map_append

theorem indexConstants_renumber (s : Script) :
    Lookup.indexConstants (s.renumber π) =
      (Lookup.indexConstants s).map fun t => t.mapValues fun _ ids => ids.map π := by
  have hfold : ∀ (ks : List Constant) (t : Table String (List OperandId)),
      (ks.map fun k => { k with value := π k.value }).foldlM
          (fun t k => (Lookup.constantKey (s.renumber π) k).map fun key => t.push key k.value)
          (t.mapValues fun _ ids => ids.map π) =
        (ks.foldlM (fun t k => (Lookup.constantKey s k).map fun key => t.push key k.value) t).map
          fun t => t.mapValues fun _ ids => ids.map π := by
    intro ks
    -- by induction over the constants still to come, for any table of those before
    induction ks with
    | nil => exact fun t => rfl
    | cons k ks ih =>
      intro t
      have hkey : Lookup.constantKey (s.renumber π) { k with value := π k.value } =
          Lookup.constantKey s k := rfl
      rw [List.map_cons, List.foldlM_cons, List.foldlM_cons, hkey]
      rcases Lookup.constantKey s k with f | key
      · rfl
      · show List.foldlM _ ((t.mapValues fun _ ids => ids.map π).push key (π k.value)) _ = _
        rw [← mapValues_push]
        exact ih (t.push key k.value)
  rw [Lookup.indexConstants, Lookup.indexConstants]
  exact (congrArg (List.foldlM _ _) Array.toList_map).trans (hfold s.constants.toList .empty)

theorem build_renumber (s : Script) (signatures : Signatures) :
    Lookup.build (s.renumber π) signatures =
      (Lookup.build s signatures).map (Lookup.renumber π) := by
  have hcreations : Lookup.opsWhere (s.renumber π) Lookup.isCreation =
      Lookup.opsWhere s Lookup.isCreation :=
    Lookup.opsWhere_map rfl fun op => by cases op <;> rfl
  have hcalls : Lookup.opsWhere (s.renumber π) Lookup.isMethodCall =
      Lookup.opsWhere s Lookup.isMethodCall :=
    Lookup.opsWhere_map rfl fun op => by cases op <;> rfl
  rw [Lookup.build, Lookup.build, indexConstants_renumber, hcreations, hcalls]
  rcases Lookup.indexConstants s with f | t
  · rfl
  · rfl

/-! ### Runs -/

theorem seedProperties_renumber (useDocs : Bool) (s : Script) :
    seedProperties useDocs (s.renumber π) =
      ((seedProperties useDocs s).1.renumber π, (seedProperties useDocs s).2) :=
  rfl

theorem exists_seed_renumber {s : Script} (hπ : s.Renumbers π) {start : Progress}
    (h : seed s = .ok start) : ∃ start', seed (s.renumber π) = .ok start' := by
  -- seeding looks at one operand at a time, and those are the same
  have hseeds := exists_seed_iff.mp ⟨start, h⟩
  refine exists_seed_iff.mpr fun o ho => ?_
  obtain ⟨id, hid, rfl⟩ := Array.getElem_of_mem ho
  have hget : (s.renumber π).operands[π (π.symm id)]? = some (s.renumber π).operands[id] := by
    rw [Equiv.apply_symm_apply]
    exact Array.getElem?_eq_getElem hid
  rw [Script.getElem?_operands_renumber hπ] at hget
  exact hseeds _ (Array.mem_of_getElem? hget)

theorem writeBack_renumber {s : Script} {p p' : Progress} (hπ : s.Renumbers π)
    (hfinal : ∀ id, p'.final id = p.final (π.symm id)) :
    writeBack (s.renumber π) p' = (writeBack s p).renumber π := by
  have hπ' : (writeBack s p).Renumbers π := by
    have hsize : (writeBack s p).operands.size = s.operands.size := Array.size_mapIdx
    rw [Script.Renumbers, hsize]
    exact hπ
  have hoperands : (writeBack (s.renumber π) p').operands =
      ((writeBack s p).renumber π).operands := by
    refine Array.ext_getElem? fun id => ?_
    -- any number is the new number of some operand
    rw [getElem?_writeBack, hfinal, ← Equiv.apply_symm_apply π id,
      Script.getElem?_operands_renumber hπ, Script.getElem?_operands_renumber hπ',
      getElem?_writeBack, Equiv.symm_apply_apply]
  show ({ s.renumber π with operands := _ } : Script) =
    { s.renumber π with operands := ((writeBack s p).renumber π).operands }
  rw [← hoperands]
  rfl

end Inference

end SsaTypes
