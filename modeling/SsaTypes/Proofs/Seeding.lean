/-
SsaTypes/Proofs/Seeding.lean

What a run starts from.  An operand of a script has a seed, or is open, or its
seeding is a fault.  Seeding ends without a fault if no operand has one, and
then

    pending  = the open operands in their order,
    known v  = the seed of v,

so nothing about the start depends on the order of the operands (`seed_spec`,
`exists_seed_iff`).

`solution` is the part of `infer` that a run computes: its context and its last
state.  All that `infer` answers is read off these (`infer_eq`).
-/
import Mathlib.Data.List.Basic
import SsaTypes.Inference.Run

namespace SsaTypes

open Inference

namespace Script

variable (s : Script)

/-- The operand has this type before the first round. -/
def Seeds (v : OperandId) (t : Ty) : Prop :=
  ∃ o, s.operand v = .ok o ∧ seedType o = .ok (some t)

/-- Whether an operand exists and has no type before the first round. -/
def isOpen (v : OperandId) : Bool :=
  match s.operand v with
  | .error _ => false
  | .ok o =>
    match seedType o with
    | .ok none => true
    | _ => false

/-- The operands without a type before the first round, in their order. -/
def openOperands (s : Script) : List OperandId :=
  (List.range s.operands.size).filter s.isOpen

/-- Whether an operation is a phi. -/
def isPhi (id : OpId) : Bool :=
  match s.op id with
  | .ok (.phi _) => true
  | _ => false

/-- Whether a phi is among the operations that produce an operand. -/
def isJoin (v : OperandId) : Bool :=
  match s.operand v with
  | .error _ => false
  | .ok o => o.ops.any s.isPhi

theorem length_openOperands_le : s.openOperands.length ≤ s.operands.size := by
  have h := List.length_filter_le s.isOpen (List.range s.operands.size)
  rwa [List.length_range] at h

variable {s}

theorem isOpen_iff {v : OperandId} :
    s.isOpen v = true ↔ ∃ o, s.operand v = .ok o ∧ seedType o = .ok none := by
  rw [isOpen]
  rcases s.operand v with e | o
  · simp
  · rcases h : seedType o with e | - | t <;> simp [h]

theorem not_isOpen_of_seeds {v : OperandId} {t : Ty} (h : s.Seeds v t) : s.isOpen v = false := by
  obtain ⟨o, ho, ht⟩ := h
  simp [isOpen, ho, ht]

theorem seeds_unique {v : OperandId} {t u : Ty} (ht : s.Seeds v t) (hu : s.Seeds v u) : t = u := by
  obtain ⟨o, ho, ht⟩ := ht
  obtain ⟨o', ho', hu⟩ := hu
  rw [ho] at ho'
  obtain rfl := Except.ok.inj ho'
  rw [ht] at hu
  exact Option.some.inj (Except.ok.inj hu)

theorem operand_eq_ok {v : OperandId} {o : Operand} :
    s.operand v = .ok o ↔ s.operands[v]? = some o := by
  rw [operand]
  rcases s.operands[v]? with - | o' <;> simp

theorem op_eq_ok {id : OpId} {op : Op} : s.op id = .ok op ↔ s.ops[id]? = some op := by
  rw [Script.op]
  rcases s.ops[id]? with - | op' <;> simp

theorem lt_size_of_isOpen {v : OperandId} (h : s.isOpen v = true) : v < s.operands.size := by
  obtain ⟨o, ho, -⟩ := isOpen_iff.mp h
  exact (Array.getElem?_eq_some_iff.mp (operand_eq_ok.mp ho)).1

theorem mem_openOperands {v : OperandId} : v ∈ s.openOperands ↔ s.isOpen v = true := by
  rw [openOperands, List.mem_filter, List.mem_range]
  exact ⟨fun h => h.2, fun h => ⟨lt_size_of_isOpen h, h⟩⟩

end Script

namespace Inference

/-! ### Seeding -/

theorem operand_of_drop {s : Script} {o : Operand} {os : List Operand} {id : Nat}
    (h : o :: os = s.operands.toList.drop id) :
    s.operand id = .ok o ∧ os = s.operands.toList.drop (id + 1) := by
  have hlt : id < s.operands.toList.length := by
    by_contra hge
    rw [List.drop_eq_nil_of_le (by omega)] at h
    cases h
  rw [List.drop_eq_getElem_cons hlt] at h
  obtain ⟨ho, hos⟩ := List.cons.inj h
  refine ⟨?_, hos⟩
  rw [Script.operand_eq_ok, ← Array.getElem?_toList, List.getElem?_eq_getElem hlt, ho]

/-- The first of the operands from `id` on has a seed, or a later one. -/
theorem le_seeds_iff (s : Script) (id v : Nat) (t : Ty) :
    (id ≤ v ∧ s.Seeds v t) ↔ (v = id ∧ s.Seeds id t) ∨ (id + 1 ≤ v ∧ s.Seeds v t) := by
  constructor
  · rintro ⟨hle, hs⟩
    rcases Nat.eq_or_lt_of_le hle with rfl | hlt
    · exact .inl ⟨rfl, hs⟩
    · exact .inr ⟨hlt, hs⟩
  · rintro (⟨rfl, hs⟩ | ⟨hle, hs⟩)
    · exact ⟨Nat.le_refl v, hs⟩
    · exact ⟨by omega, hs⟩

/-- The operands from `id` on are seeded or left open, each by itself. -/
theorem seedFrom_spec {s : Script} {os : List Operand} {id : Nat} {p q : Progress}
    (hos : os = s.operands.toList.drop id) (hfresh : ∀ v : Nat, id ≤ v → p.known v = none)
    (h : seedFrom p id os = .ok q) :
    q.rounds = p.rounds ∧
      q.pending = p.pending ++ (List.range' id os.length).filter s.isOpen ∧
      ∀ (v : Nat) t, q.known v = some t ↔ p.known v = some t ∨ (id ≤ v ∧ s.Seeds v t) := by
  induction os generalizing id p with
  | nil =>
    obtain rfl := Except.ok.inj h
    refine ⟨rfl, by simp, fun v t => ⟨.inl, fun hv => hv.resolve_right ?_⟩⟩
    rintro ⟨hle, o, ho, -⟩
    have hlt := (Array.getElem?_eq_some_iff.mp (Script.operand_eq_ok.mp ho)).1
    have hlen : s.operands.toList.length ≤ id := List.drop_eq_nil_iff.mp hos.symm
    rw [Array.length_toList] at hlen
    omega
  | cons o os ih =>
    obtain ⟨hop, hos⟩ := operand_of_drop hos
    rw [seedFrom, bind_eq_ok] at h
    obtain ⟨r, hr, h⟩ := h
    rcases r with - | t
    · -- no seed: the operand goes to the end of the pending ones
      have hopen : s.isOpen id = true := Script.isOpen_iff.mpr ⟨o, hop, hr⟩
      obtain ⟨hrounds, hp, hk⟩ :=
        ih (p := { p with pending := p.pending ++ [id] }) hos (fun v hv => hfresh v (by omega)) h
      refine ⟨hrounds, ?_, fun v t => ?_⟩
      · rw [hp, List.length_cons, List.range'_succ, List.filter_cons_of_pos hopen,
          List.append_assoc, List.singleton_append]
      · have hnone : ¬ s.Seeds id t := fun hs => by
          rw [Script.not_isOpen_of_seeds hs] at hopen
          cases hopen
        rw [hk, le_seeds_iff s id v t]
        simp only [hnone, and_false, false_or]
        rfl
    · -- a seed: it is entered, and no later operand writes over it
      have hseed : s.Seeds id t := ⟨o, hop, hr⟩
      have hfresh' : ∀ v, id + 1 ≤ v → (p.types.insert id t).find? v = none := by
        intro v hv
        rw [Table.find?_insert, if_neg (Nat.ne_of_gt hv)]
        exact hfresh v (by omega)
      obtain ⟨hrounds, hp, hk⟩ := ih (p := { p with types := p.types.insert id t }) hos hfresh' h
      refine ⟨hrounds, ?_, fun v a => ?_⟩
      · rw [hp, List.length_cons, List.range'_succ,
          List.filter_cons_of_neg (by simp [Script.not_isOpen_of_seeds hseed])]
      · rw [hk, le_seeds_iff s id v a, ← or_assoc]
        refine or_congr_left ?_
        show (p.types.insert id t).find? v = some a ↔ p.known v = some a ∨ _
        rw [Table.find?_insert]
        by_cases hv : v = id
        · -- the operand was not known before, so it has the new type and no other
          rw [if_pos hv, hfresh v (Nat.le_of_eq hv.symm)]
          constructor
          · intro ha
            exact .inr ⟨hv, Option.some.inj ha ▸ hseed⟩
          · rintro (ha | ⟨-, hs⟩)
            · cases ha
            · rw [Script.seeds_unique hseed hs]
        · rw [if_neg hv]
          exact ⟨.inl, fun ha => ha.resolve_right fun hs => hv hs.1⟩

/-- **The start of a run.** -/
theorem seed_spec {s : Script} {p : Progress} (h : seed s = .ok p) :
    p.rounds = 0 ∧ p.pending = s.openOperands ∧
      ∀ v t, p.known v = some t ↔ s.Seeds v t := by
  obtain ⟨hr, hp, hk⟩ := seedFrom_spec (s := s) (by simp) (fun v _ => rfl) h
  refine ⟨hr, ?_, fun v t => ?_⟩
  · rw [hp, Script.openOperands, Array.length_toList, List.range_eq_range']
    rfl
  · rw [hk]
    constructor
    · intro hv
      exact (hv.resolve_left (by simp [Progress.known])).2
    · intro hv
      exact .inr ⟨Nat.zero_le v, hv⟩

theorem exists_seedFrom_iff {p : Progress} {id : OperandId} {os : List Operand} :
    (∃ q, seedFrom p id os = .ok q) ↔ ∀ o ∈ os, ∃ r, seedType o = .ok r := by
  induction os generalizing p id with
  | nil => simp [seedFrom]
  | cons o os ih =>
    rw [seedFrom, List.forall_mem_cons]
    rcases e : seedType o with f | - | t
    · simp [bind, Except.bind]
    · simpa [bind, Except.bind] using ih
    · simpa [bind, Except.bind] using ih

/-- A run starts if no operand has a fault. -/
theorem exists_seed_iff {s : Script} :
    (∃ p, seed s = .ok p) ↔ ∀ o ∈ s.operands, ∃ r, seedType o = .ok r := by
  rw [seed, exists_seedFrom_iff]
  simp only [Array.mem_toList_iff]

/-! ### The part of inference that computes types -/

/-- The context and the last state of a run over a script. -/
def solution (s : Script) (signatures : Signatures) (options : Options) :
    Except Fault (Context × Progress) :=
  match seedProperties options.useDocComments s with
  | (_, some e) => .error e
  | (s, none) => (solve s signatures options).map fun r => (⟨s, r.1, options⟩, r.2)

/-- The context of a run over a script. -/
def setting (s : Script) (signatures : Signatures) (options : Options) : Except Fault Context :=
  match seedProperties options.useDocComments s with
  | (_, some e) => .error e
  | (s, none) => (Lookup.build s signatures).map fun l => ⟨s, l, options⟩

variable {s : Script} {signatures : Signatures} {options : Options}

/-- What inference answers, from the context and the last state of the run. -/
theorem infer_eq :
    infer s signatures options =
      match solution s signatures options with
      | .error e => ((seedProperties options.useDocComments s).1, .error e)
      | .ok (c, last) =>
        (writeBack c.script last, .ok ⟨c.lookup, last.report c.script.operands.size⟩) := by
  rw [infer, solution]
  rcases seedProperties options.useDocComments s with ⟨s', - | e⟩
  · rcases h : solve s' signatures options with e | ⟨l, last⟩ <;> simp [h, Except.map]
  · rfl

/-- Inference has the faults of its run. -/
theorem infer_eq_error {f : Fault} :
    (infer s signatures options).2 = .error f ↔ solution s signatures options = .error f := by
  rw [infer_eq]
  rcases solution s signatures options with f' | ⟨c, last⟩ <;> simp

/-- A run is its context, its seeds and its rounds. -/
theorem solution_eq :
    solution s signatures options = (do
      let c ← setting s signatures options
      let start ← seed c.script
      let last ← c.iterate (options.roundLimit c.script.operands.size) start
      .ok (c, last)) := by
  rw [solution, setting]
  rcases seedProperties options.useDocComments s with ⟨s', - | e⟩
  · simp only [solve]
    rcases Lookup.build s' signatures with e | l
    · rfl
    · simp only [bind, Except.bind, Except.map]
      rcases seed s' with e | start
      · rfl
      · simp only
        rcases Context.iterate ⟨s', l, options⟩ (options.roundLimit s'.operands.size) start
          with e | last
        · rfl
        · rfl
  · rfl

theorem solve_eq_ok {l : Lookup} {last : Progress} :
    solve s signatures options = .ok (l, last) ↔
      Lookup.build s signatures = .ok l ∧
      ∃ start, seed s = .ok start ∧
        Context.iterate ⟨s, l, options⟩ (options.roundLimit s.operands.size) start = .ok last := by
  simp only [solve, bind_eq_ok, Except.ok.injEq, Prod.mk.injEq]
  constructor
  · rintro ⟨l', hl, start, hs, last', hi, rfl, rfl⟩
    exact ⟨hl, start, hs, hi⟩
  · rintro ⟨hl, start, hs, hi⟩
    exact ⟨l, hl, start, hs, last, hi, rfl, rfl⟩

/-- The parts of a run without a fault. -/
theorem solution_eq_ok {c : Context} {last : Progress} :
    solution s signatures options = .ok (c, last) ↔
      seedProperties options.useDocComments s = (c.script, none) ∧
      Lookup.build c.script signatures = .ok c.lookup ∧ c.options = options ∧
      ∃ start, seed c.script = .ok start ∧
        c.iterate (options.roundLimit c.script.operands.size) start = .ok last := by
  obtain ⟨cs, cl, co⟩ := c
  rw [solution]
  rcases e : seedProperties options.useDocComments s with ⟨s', - | f⟩
  · simp only [map_eq_ok]
    constructor
    · rintro ⟨⟨l, q⟩, h, heq⟩
      obtain ⟨⟨rfl, rfl, rfl⟩, rfl⟩ : (s' = cs ∧ l = cl ∧ options = co) ∧ q = last := by
        simpa using heq
      obtain ⟨hl, start, hs, hi⟩ := solve_eq_ok.mp h
      exact ⟨rfl, hl, rfl, start, hs, hi⟩
    · rintro ⟨heq, hl, rfl, start, hs, hi⟩
      obtain ⟨rfl, -⟩ := Prod.mk.inj heq
      exact ⟨(cl, last), solve_eq_ok.mpr ⟨hl, start, hs, hi⟩, rfl⟩
  · simp

/-- A run of inference without a fault is a solution, written back. -/
theorem infer_eq_ok {s' : Script} {out : Outcome} :
    infer s signatures options = (s', .ok out) ↔
      ∃ c last, solution s signatures options = .ok (c, last) ∧
        s' = writeBack c.script last ∧
        out = ⟨c.lookup, last.report c.script.operands.size⟩ := by
  rw [infer_eq]
  rcases solution s signatures options with e | ⟨c, last⟩
  · simp
  · constructor
    · intro h
      obtain ⟨hs, ho⟩ := Prod.mk.inj h
      exact ⟨c, last, rfl, hs.symm, (Except.ok.inj ho).symm⟩
    · rintro ⟨c', last', h, rfl, rfl⟩
      obtain ⟨rfl, rfl⟩ := Prod.mk.inj (Except.ok.inj h)
      rfl

theorem getElem?_writeBack (s : Script) (p : Progress) (id : OperandId) :
    (writeBack s p).operands[id]? = s.operands[id]?.map fun o => { o with ty := p.final id } :=
  Array.getElem?_mapIdx

/-- Without a fault every element has been updated. -/
theorem map_of_updateUntil {α : Type} {f : α → α × Option Fault} {as bs : List α}
    (h : updateUntil f as = (bs, none)) : as.map f = bs.map fun b => (b, none) := by
  induction as generalizing bs with
  | nil =>
    obtain ⟨rfl, -⟩ := Prod.mk.inj h
    rfl
  | cons a as ih =>
    rw [updateUntil] at h
    split at h
    · cases h
    · next b hb =>
      obtain ⟨rfl, hnone⟩ := Prod.mk.inj h
      rw [List.map_cons, List.map_cons, hb, ih (Prod.ext rfl hnone)]

/-- What the updates keep of every element is kept of the list, also up to a fault. -/
theorem map_updateUntil {α β : Type} {f : α → α × Option Fault} {g : α → β}
    (hf : ∀ a, g (f a).1 = g a) (as : List α) : (updateUntil f as).1.map g = as.map g := by
  induction as with
  | nil => rfl
  | cons a as ih =>
    have ha := hf a
    rw [updateUntil]
    rcases e : f a with ⟨b, - | e⟩
    · rw [e] at ha
      exact congrArg₂ List.cons ha ih
    · rw [e] at ha
      exact congrArg (· :: as.map g) ha

/-- Giving the properties their types changes the classes only. -/
theorem seedProperties_fst (useDocs : Bool) (s : Script) :
    ∃ classes, (seedProperties useDocs s).1 = { s with classes } :=
  ⟨_, rfl⟩

end Inference

end SsaTypes
