/-
SsaTypes/Proofs/Incoming.lean

A script without an operand among the incoming values of one of its phis
(`Script.withoutIncoming`).  Only one operation differs, so

* the lookup tables, the seeds and the properties are the same,
* every rule says the same at the other operations, and
* so does every verdict on an operand that the phi does not produce.

`Joins` describes an operand with the phi as its only producer, which produces
nothing else.  The verdict on it is that of the phi.
-/
import SsaTypes.Proofs.RoundBound

namespace SsaTypes

/-- The operation without an operand among its incoming values, if it is a phi. -/
def Op.withoutIncoming (v : OperandId) : Op → Op
  | .phi vars => .phi (vars.filter (· ≠ v))
  | op => op

namespace Script

/-- The script without an operand among the incoming values of one phi. -/
def withoutIncoming (s : Script) (id : OpId) (v : OperandId) : Script :=
  { s with ops := s.ops.modify id (Op.withoutIncoming v) }

/-- One phi produces the operand, alone, and produces no other operand. -/
structure Joins (s : Script) (v : OperandId) (id : OpId) (vars : List OperandId) : Prop where
  produced : ∃ o, s.operand v = .ok o ∧ o.ops = [id]
  op : s.op id = .ok (.phi vars)
  alone : ∀ u o, s.operand u = .ok o → id ∈ o.ops → u = v

/-- One phi alone produces the operand, which is among its incoming values with another. -/
structure SelfEdge (s : Script) (id : OpId) (v : OperandId) : Prop where
  produced : ∃ o, s.operand v = .ok o ∧ o.ops = [id]
  incoming : ∃ vars, s.op id = .ok (.phi vars) ∧ v ∈ vars ∧ ∃ w ∈ vars, w ≠ v

variable {s : Script} {id : OpId} {v : OperandId} {vars : List OperandId}

@[simp] theorem operand_withoutIncoming (u : OperandId) :
    (s.withoutIncoming id v).operand u = s.operand u := rfl

theorem op_withoutIncoming_of_ne {i : OpId} (h : i ≠ id) :
    (s.withoutIncoming id v).op i = s.op i := by
  rw [op, op, withoutIncoming, Array.getElem?_modify, if_neg (Ne.symm h)]

theorem op_withoutIncoming_self (h : s.op id = .ok (.phi vars)) :
    (s.withoutIncoming id v).op id = .ok (.phi (vars.filter (· ≠ v))) := by
  rw [op_eq_ok] at h ⊢
  rw [withoutIncoming, Array.getElem?_modify, if_pos rfl, h]
  rfl

/-- Both scripts have the same operation, or both have a phi. -/
theorem op_withoutIncoming_cases (s : Script) (id : OpId) (v : OperandId) (i : OpId) :
    (s.withoutIncoming id v).op i = s.op i ∨
      ∃ vars, s.op i = .ok (.phi vars) ∧
        (s.withoutIncoming id v).op i = .ok (.phi (vars.filter (· ≠ v))) := by
  by_cases hi : i = id
  · subst hi
    rcases e : s.ops[i]? with - | op
    · left
      rw [Script.op, Script.op, withoutIncoming, Array.getElem?_modify, if_pos rfl, e]
      rfl
    · cases op with
      | phi vars => exact .inr ⟨vars, op_eq_ok.mpr e, op_withoutIncoming_self (op_eq_ok.mpr e)⟩
      | _ =>
        left
        rw [Script.op, Script.op, withoutIncoming, Array.getElem?_modify, if_pos rfl, e]
        rfl
  · exact .inl (op_withoutIncoming_of_ne hi)

/-- An operand joined by a phi is still joined by it. -/
theorem Joins.withoutIncoming (h : s.Joins v id vars) :
    (s.withoutIncoming id v).Joins v id (vars.filter (· ≠ v)) where
  produced := h.produced
  op := op_withoutIncoming_self h.op
  alone := h.alone

theorem Joins.congr {s' : Script} (h : s.Joins v id vars) (hoperands : s'.operands = s.operands)
    (hops : s'.ops = s.ops) : s'.Joins v id vars := by
  have hoperand : ∀ u, s'.operand u = s.operand u := fun u => by
    rw [operand, operand, hoperands]
  refine ⟨?_, ?_, fun u x hx => h.alone u x (hoperand u ▸ hx)⟩
  · rw [hoperand]
    exact h.produced
  · rw [Script.op, hops]
    exact h.op

end Script

/-! ### Lookup tables -/

namespace Lookup

/-- The numbers of the operations that pass a test depend on the test only. -/
theorem opsWhere_congr {s s' : Script} {test : Op → Bool}
    (h : s'.ops.map test = s.ops.map test) : opsWhere s' test = opsWhere s test := by
  have hseen : ∀ r : Script, opsWhere r test =
      ((r.ops.map test).toList.zipIdx.filter Prod.fst).map Prod.snd := by
    intro r
    rw [opsWhere, Array.toList_map, List.zipIdx_map, List.filter_map, List.map_map]
    rfl
  rw [hseen, hseen, h]

theorem opsWhere_withoutIncoming (s : Script) (id : OpId) (v : OperandId) (test : Op → Bool)
    (htest : ∀ vars, test (.phi vars) = false) :
    opsWhere (s.withoutIncoming id v) test = opsWhere s test := by
  refine opsWhere_congr (Array.ext_getElem? fun i => ?_)
  have hop : ∀ op : Op, test (op.withoutIncoming v) = test op := by
    intro op
    cases op with
    | phi vars => rw [Op.withoutIncoming, htest, htest]
    | _ => rfl
  rw [Array.getElem?_map, Array.getElem?_map, Script.withoutIncoming, Array.getElem?_modify]
  split
  · rcases s.ops[i]? with - | op
    · rfl
    · simp [hop]
  · rfl

theorem build_withoutIncoming (s : Script) (id : OpId) (v : OperandId) (signatures : Signatures) :
    build (s.withoutIncoming id v) signatures = build s signatures := by
  have hcreations := opsWhere_withoutIncoming s id v isCreation fun _ => rfl
  have hcalls := opsWhere_withoutIncoming s id v isMethodCall fun _ => rfl
  rw [build, build, hcreations, hcalls]
  rfl

end Lookup

namespace Inference

theorem seedProperties_withoutIncoming (useDocs : Bool) (s : Script) (id : OpId) (v : OperandId) :
    seedProperties useDocs (s.withoutIncoming id v) =
      ((seedProperties useDocs s).1.withoutIncoming id v, (seedProperties useDocs s).2) := rfl

theorem writeBack_withoutIncoming (s : Script) (id : OpId) (v : OperandId) (p : Progress) :
    writeBack (s.withoutIncoming id v) p = (writeBack s p).withoutIncoming id v := rfl

/-! ### Rules -/

namespace Context

/-- The context without an operand among the incoming values of one phi. -/
def withoutIncoming (c : Context) (id : OpId) (v : OperandId) : Context :=
  { c with script := c.script.withoutIncoming id v }

@[simp] theorem script_withoutIncoming (c : Context) (id : OpId) (v : OperandId) :
    (c.withoutIncoming id v).script = c.script.withoutIncoming id v := rfl

section Rules

variable (c : Context) (id : OpId) (v : OperandId) (known : Known)

theorem sameDecls_withoutIncoming : c.SameDecls (c.withoutIncoming id v) :=
  ⟨rfl, rfl, rfl, rfl, rfl⟩

/-- A phi does not fetch a constant, whatever its incoming values are. -/
theorem isNullConstant_withoutIncoming (u : OperandId) :
    (c.withoutIncoming id v).isNullConstant u = c.isNullConstant u := by
  rw [isNullConstant, isNullConstant, script_withoutIncoming, Script.operand_withoutIncoming]
  rcases c.script.operand u with e | o
  · rfl
  rcases hops : o.ops with - | ⟨first, rest⟩
  · simp only [bind, Except.bind, hops]
  · simp only [bind, Except.bind, hops]
    rcases c.script.op_withoutIncoming_cases id v first with hop | ⟨vars, hop, hop'⟩
    · rw [hop]
      rfl
    · rw [hop, hop']

theorem candidates_withoutIncoming (i : OpId) (op : Op) :
    (c.withoutIncoming id v).candidates known i op = c.candidates known i op :=
  candidates_congr (c.sameDecls_withoutIncoming id v) rfl rfl
    (c.isNullConstant_withoutIncoming id v) known i op

variable {c id v}

theorem answer_withoutIncoming {i : OpId} (h : i ≠ id) :
    (c.withoutIncoming id v).answer known i = c.answer known i := by
  simp only [answer, script_withoutIncoming, Script.op_withoutIncoming_of_ne h,
    candidates_withoutIncoming]

theorem gather_withoutIncoming {ids : List OpId} (h : id ∉ ids) :
    (c.withoutIncoming id v).gather known ids = c.gather known ids := by
  induction ids with
  | nil => rfl
  | cons i ids ih =>
    obtain ⟨hne, hids⟩ := List.ne_and_not_mem_of_not_mem_cons h
    rw [gather, gather, answer_withoutIncoming known (Ne.symm hne), ih hids]

/-- **Only the verdict on the joined operand can change.** -/
theorem verdict_withoutIncoming {vars : List OperandId} (h : c.script.Joins v id vars)
    {u : OperandId} (hu : u ≠ v) :
    (c.withoutIncoming id v).verdict known u = c.verdict known u := by
  simp only [verdict, script_withoutIncoming, Script.operand_withoutIncoming]
  rcases e : c.script.operand u with f | o
  · rfl
  · have hnot : id ∉ o.ops := fun hid => hu (h.alone u o e hid)
    simp only [bind, Except.bind, gather_withoutIncoming known hnot]

/-- The verdict on an operand joined by a phi is what the phi says. -/
theorem verdict_of_joins {vars : List OperandId} (h : c.script.Joins v id vars) :
    c.verdict known v = .ok (phi known vars).verdict := by
  obtain ⟨o, ho, hops⟩ := h.produced
  rw [verdict, ho]
  simp only [bind, Except.bind, hops, gather, answer, h.op]
  rcases phi known vars with - | t | ts
  · rfl
  · rfl
  · simp [Except.map, Answer.verdict]

end Rules

end Context

/-! ### Runs -/

/-- Without the incoming value a run has the same context, but for the phi, and the same
start. -/
theorem solution_withoutIncoming {s : Script} {signatures : Signatures} {o : Options} {k : Nat}
    {c : Context} {start last last₀ : Progress} {id : OpId} {v : OperandId}
    (hsol : solution s signatures (o.withMaxRounds k) = .ok (c, last₀))
    (hseed : seed c.script = .ok start)
    (hlast : (c.withoutIncoming id v).iterate k start = .ok last) :
    solution (s.withoutIncoming id v) signatures (o.withMaxRounds k) =
      .ok (c.withoutIncoming id v, last) := by
  obtain ⟨hprops, hlookup, hoptions, -⟩ := solution_eq_ok.mp hsol
  refine solution_eq_ok.mpr ⟨?_, ?_, hoptions, start, hseed, hlast⟩
  · rw [seedProperties_withoutIncoming, hprops]
    rfl
  · rw [Context.script_withoutIncoming, Lookup.build_withoutIncoming]
    exact hlookup

end Inference

end SsaTypes
