/-
SsaTypes/Proofs/Emptied.lean

When a run faults because nothing is left of a type.  The type is one repeated
member, and it is the type entered for the operand that a failing guard narrows:

    whole = comb k ms,   same m removed  for all m ∈ ms.

Such types are not made of varied ones, except by guards: a guard that fails can leave
the repeated member of a type with others, and a test put together in a guard can
repeat one.  Along the visits of a run every operand that does not rest on such a
guard keeps a varied type (`Varied.visits`), if the types given are.  So the fault needs
a type that is given with a repeated member, or a guard that narrows what rests on
another one.

Both do occur.  The declaration `true|false` declares the same type twice, and a guard
against it empties it (`repeatedFlag`).  The join of `int|string` and `string` has one
type twice beside another; a guard against the other leaves the two, and a second guard
empties what is left (`narrowedJoin`).
-/
import SsaTypes.Proofs.Inferred
import SsaTypes.Proofs.Varied
import SsaTypes.Proofs.Visits

namespace SsaTypes

/-- Whether a guard says no more than that one test for a single type holds. -/
def Guard.isPlain : Guard → Bool
  | .holds (.operand _) => true
  | _ => false

namespace Inference

open Relation

namespace Context

variable {c : Context}

/-! ### Where the fault comes from -/

/-- A guard faults so only if it fails, and empties the type of its operand. -/
theorem guardType_emptied {known : Known} {expr : OperandId} {guard : Guard} {whole removed : Ty}
    (h : guardType c known expr guard = .error (.emptied whole removed)) :
    guard.isPositive = false ∧ whole = (known expr).getD .mixed ∧ whole.remove? removed = none := by
  induction guard with
  | holds t =>
    have hsafe := safe_testType (c.leads_all fun _ hf => hf) known t fun _ _ => trivial
    exact absurd h (hsafe.ne_emptied whole removed)
  | fails g ih =>
    refine ⟨rfl, ?_⟩
    rw [guardType] at h
    rcases e : guardType c known expr g with f | - | excluded
    · rw [e] at h
      obtain rfl := Except.error.inj h
      exact (ih e).2
    · rw [e] at h
      cases h
    · rw [e] at h
      simp only [bind, Except.bind] at h
      split at h
      · cases h
      · next hnone =>
        obtain ⟨rfl, rfl⟩ := Fault.emptied.inj (Except.error.inj h)
        exact ⟨rfl, hnone⟩

/-- The fault of a verdict is that of a guard that produces the operand. -/
theorem exists_guard_of_verdict {known : Known} {v : OperandId} {whole removed : Ty}
    (h : c.verdict known v = .error (.emptied whole removed)) :
    ∃ expr guard, c.script.Produces (.guarded expr guard) v ∧ guard.isPositive = false ∧
      whole = (known expr).getD .mixed ∧ whole.remove? removed = none := by
  -- every other rule is safe, whatever the types known are
  have hyields : Yields (fun f => ∀ w r, f = .emptied w r →
      ∃ expr guard, c.script.Produces (.guarded expr guard) v ∧ guard.isPositive = false ∧
        w = (known expr).getD .mixed ∧ w.remove? r = none)
      (Verdict.All fun _ => True) (c.verdict known v) := by
    refine verdict_yields (c.leads_all ?_) Ty.class_all (fun _ _ _ => trivial) trivial fun op hop =>
      ⟨fun _ _ _ _ => trivial, ?_⟩
    · rintro f hf w r rfl
      cases hf
    · rintro expr guard rfl
      rcases e : guardType c known expr guard with f | r
      · rintro w r rfl
        exact ⟨expr, guard, hop, guardType_emptied e⟩
      · exact fun _ _ => trivial
  exact hyields.of_error h whole removed rfl

/-! ### Varied types -/

theorem class_varied : Ty.Class fun t => t.isVaried = true where
  simple t h := by cases t <;> first | rfl | cases h
  mixed := by decide
  numeric := by decide
  arrayOf _ := Iff.rfl
  merge _ _ hts h := Ty.isVaried_merge hts h

/-- An operand whose type rests on a guard that takes a type away or puts one
together. -/
inductive RestsOnGuard (c : Context) : OperandId → Prop
  | here {v expr : OperandId} {guard : Guard} :
      c.script.Produces (.guarded expr guard) v → guard.isPlain = false → RestsOnGuard c v
  | through {u v : OperandId} {op : Op} {known : Known} :
      c.script.Produces op v → u ∈ c.reads known op → RestsOnGuard c u → RestsOnGuard c v

/-- The types entered are varied where they rest on no guard. -/
def Varied (c : Context) (b : Board) : Prop :=
  ∀ v t, ¬ c.RestsOnGuard v → b.1.find? v = some t → t.isVaried = true

variable (hgiven : ∀ t, c.Given t → t.isVaried = true)
include hgiven

/-- A verdict that rests on no guard is a varied type. -/
theorem verdict_varied {b : Board} (hb : c.Varied b) {v : OperandId} (hv : ¬ c.RestsOnGuard v) :
    Yields (fun _ => True) (Verdict.All fun t => t.isVaried = true) (c.verdict b.1.find? v) := by
  have hgiven' : ∀ t, c.Given t → t.isUnknown = false → t.isVaried = true :=
    fun t ht _ => hgiven t ht
  have hc := c.leads_all (F := fun _ => True) fun _ _ => trivial
  refine verdict_yields hc class_varied hgiven' trivial fun op hop => ?_
  have hreads : Known.Within (fun t => t.isVaried = true) (c.reads b.1.find? op) b.1.find? :=
    fun u hu t ht => hb u t (fun hrests => hv (.through hop hu hrests)) ht
  refine ⟨hreads, ?_⟩
  rintro expr guard rfl
  -- the guard is plain, or the operand would rest on it
  match guard, hop, hreads with
  | .holds (.operand id), hop, hreads =>
    exact testType_yields hc trivial hgiven' hreads
  | .holds (.comb k ms), hop, _ => exact absurd (.here hop rfl) hv
  | .fails g, hop, _ => exact absurd (.here hop rfl) hv

theorem Varied.visit {b b' : Board} (hb : c.Varied b) (h : c.Visit b b') : c.Varied b' := by
  intro u a hu ha
  -- only the operand visited has a new type
  cases h with
  | @provisional types pending v t hv e | @confirmed types pending v t hv e =>
    rw [Table.find?_insert] at ha
    by_cases huv : u = v
    · rw [if_pos huv] at ha
      obtain rfl := Option.some.inj ha
      exact (verdict_varied hgiven hb (huv ▸ hu)).of_ok e
    · rw [if_neg huv] at ha
      exact hb u a hu ha

theorem Varied.visits {b b' : Board} (hb : c.Varied b) (h : ReflTransGen c.Visit b b') :
    c.Varied b' := by
  induction h with
  | refl => exact hb
  | tail _ hv ih => exact ih.visit hgiven hv

theorem varied_seed {start : Progress} (h : seed c.script = .ok start) : c.Varied start.board := by
  intro v t _ ht
  rcases (given_of_seeds (((seed_spec h).2.2 v t).mp ht)).2 with ht | ht
  · exact hgiven t ht
  · exact class_varied.simple t ht

end Context

/-! ### Whole runs -/

/-- A run that faults so has a context and a start, and a guard of it faults on a
board that its visits lead to. -/
theorem exists_guard_of_solution {s : Script} {signatures : Signatures} {options : Options}
    {whole removed : Ty}
    (h : solution s signatures options = .error (.emptied whole removed)) :
    ∃ c start b v expr guard, setting s signatures options = .ok c ∧
      seed c.script = .ok start ∧ ReflTransGen c.Visit start.board b ∧
      c.script.Produces (.guarded expr guard) v ∧ guard.isPositive = false ∧
      whole = (b.1.find? expr).getD .mixed ∧ whole.remove? removed = none := by
  rcases fault_of_solution h with hc | ⟨c, hc, hseed | ⟨start, b, v, hseed, hb, -, hfault⟩⟩
  · exact absurd hc ((safe_setting (fun _ => rfl) (Script.leads_all (fun _ hf => hf) _)
      (fun _ _ _ _ => trivial) signatures).ne_emptied whole removed)
  · exact absurd hseed ((safe_seed (fun _ hf _ => hf) c.script).ne_emptied whole removed)
  · obtain ⟨expr, guard, hop, hneg, hwhole, hnone⟩ := Context.exists_guard_of_verdict hfault
    exact ⟨c, start, b, v, expr, guard, hc, hseed, hb, hop, hneg, hwhole, hnone⟩

/-- **What it takes to empty a type.**  A run faults so only at a guard that fails
and narrows an operand whose type, at that point of the run, is one repeated member
that the guard excludes.  If all types given are varied, that operand rests on
another guard, one that takes a type away or puts one together. -/
theorem emptied_repeats {s : Script} {signatures : Signatures} {options : Options}
    {whole removed : Ty}
    (h : (infer s signatures options).2 = .error (.emptied whole removed)) :
    (∃ k ms, whole = .comb k ms ∧ ∀ m ∈ ms, Ty.same m removed = true) ∧
    ∃ c start b v expr guard, setting s signatures options = .ok c ∧
      seed c.script = .ok start ∧ ReflTransGen c.Visit start.board b ∧
      b.1.find? expr = some whole ∧
      c.script.Produces (.guarded expr guard) v ∧ guard.isPositive = false ∧
      ((∀ t, c.Given t → t.isVaried = true) → c.RestsOnGuard expr) := by
  obtain ⟨c, start, b, v, expr, guard, hc, hseed, hb, hop, hneg, hwhole, hnone⟩ :=
    exists_guard_of_solution (infer_eq_error.mp h)
  have hvaried : ¬ whole.isVaried = true := by
    intro hv
    obtain ⟨u, hu⟩ := Ty.exists_remove hv removed
    rw [hnone] at hu
    cases hu
  -- the types of anything are varied, so the operand has a type
  have hknown : b.1.find? expr = some whole := by
    rcases e : b.1.find? expr with - | t
    · rw [e] at hwhole
      subst hwhole
      exact absurd (by decide) hvaried
    · rw [e] at hwhole
      exact congrArg some hwhole.symm
  refine ⟨Ty.remove?_eq_none_iff.mp hnone, c, start, b, v, expr, guard, hc, hseed, hb, hknown,
    hop, hneg, fun hgiven => ?_⟩
  by_contra hrests
  exact hvaried ((Context.varied_seed hgiven hseed).visits hgiven hb expr whole hrests hknown)

/-- A flag declared with one type twice, and a guard that excludes that type. -/
def repeatedFlag : Script where
  operands := #[
    { kind := .variable (some "flag"), ops := [0] },
    { kind := .variable (some "rest"), ops := [1] },
    { kind := .literal (.string "bool") }]
  ops := #[
    .param "flag" (some "true|false") none none,
    .guarded 0 (.fails (.holds (.operand 2)))]

/-- What a faulty run took away, and from what. -/
def emptiedBy {α : Type} : Except Fault α → Option (Ty × Ty)
  | .error (.emptied whole removed) => some (whole, removed)
  | _ => none

theorem eq_error_of_emptiedBy {α : Type} {x : Except Fault α} {whole removed : Ty}
    (h : emptiedBy x = some (whole, removed)) : x = .error (.emptied whole removed) := by
  match x, h with
  | .error (.emptied w r), h =>
    obtain ⟨rfl, rfl⟩ := Prod.mk.inj (Option.some.inj h)
    rfl

/-- No operand of `repeatedFlag` comes with a type, and yet its run empties one. -/
theorem repeatedFlag_emptied :
    (∀ o ∈ repeatedFlag.operands, o.ty = .unknown) ∧
    (infer repeatedFlag {} {}).2 = .error (.emptied (.union [.bool, .bool]) .bool) := by
  constructor
  · decide
  · exact eq_error_of_emptiedBy (by decide +kernel)

/-- A join that has one type twice, and a guard against each of its types. -/
def narrowedJoin : Script where
  operands := #[
    { kind := .variable (some "either"), ops := [0] },
    { kind := .variable (some "text"), ops := [1] },
    { kind := .variable (some "join"), ops := [2] },
    { kind := .variable (some "noInt"), ops := [3] },
    { kind := .variable (some "nothing"), ops := [4] },
    { kind := .literal (.string "int") },
    { kind := .literal (.string "string") }]
  ops := #[
    .param "either" (some "int|string") none none,
    .param "text" (some "string") none none,
    .phi [0, 1],
    .guarded 2 (.fails (.holds (.operand 5))),
    .guarded 3 (.fails (.holds (.operand 6)))]

/-- All types that `narrowedJoin` gives are varied. -/
theorem given_narrowedJoin {l : Lookup} (hl : l.signatures = {}) {t : Ty}
    (h : Context.Given ⟨narrowedJoin, l, {}⟩ t) : t.isVaried = true := by
  have hread {text : String} (htext : text ∈ ["int|string", "string", "int"]) {t : Ty}
      (ht : readDecl text = .ok t) : t.isVaried = true := by
    have hall : ["int|string", "string", "int"].all
        (fun text => (readDecl text).toOption.all Ty.isVaried) = true := by decide +kernel
    have := List.all_eq_true.mp hall text htext
    rw [ht] at this
    exact this
  have hoperand {v : OperandId} {o : Operand} (ho : narrowedJoin.operand v = .ok o) :
      o.ty = .unknown ∧ (∀ name scope owner, o.kind ≠ .bound name scope owner) ∧
        ∀ text, o.literal? = some (.string text) → text ∈ ["int|string", "string", "int"] := by
    have hmem := Array.mem_of_getElem? (Script.operand_eq_ok.mp ho)
    simp only [narrowedJoin, List.mem_toArray, List.mem_cons, List.not_mem_nil, or_false] at hmem
    rcases hmem with rfl | rfl | rfl | rfl | rfl | rfl | rfl <;>
      simp [Operand.literal?]
  -- there are no classes, functions and signatures to give a type
  cases h with
  | operand ho =>
    rw [(hoperand ho).1]
    rfl
  | receiver ho hkind _ => exact absurd hkind ((hoperand ho).2.1 _ _ _)
  | tested ho hlit hr => exact hread ((hoperand ho).2.2 _ hlit) hr
  | @param id name declared default function t hop hr =>
    have hmem := Array.mem_of_getElem? (Script.op_eq_ok.mp hop)
    obtain ⟨text, htext, rfl, rfl⟩ : ∃ text ∈ ["int|string", "string", "int"],
        declared = some text ∧ default = none := by
      simp only [narrowedJoin, List.mem_toArray, List.mem_cons, List.not_mem_nil, or_false,
        Op.param.injEq, reduceCtorEq] at hmem
      obtain ⟨-, rfl, rfl, -⟩ | ⟨-, rfl, rfl, -⟩ := hmem
      · exact ⟨_, by decide, rfl, rfl⟩
      · exact ⟨_, by decide, rfl, rfl⟩
    obtain ⟨u, hu, hut⟩ := bind_eq_ok.mp hr
    obtain rfl := Except.ok.inj hut
    exact hread htext hu
  | property hd _ => cases hd
  | function hf _ | method hf _ => cases hf
  | signature hs _ | methodSignature hs _ | constant hs _ =>
    rw [hl] at hs
    cases hs

/-- The guard that empties the type of its operand in `narrowedJoin` rests on the other. -/
theorem emptied_repeats_narrowedJoin :
    (infer narrowedJoin {} {}).2 = .error (.emptied (.union [.string, .string]) .string) ∧
    (∀ m ∈ [Ty.string, .string], Ty.same m .string = true) ∧
    ∃ c start b v expr guard, setting narrowedJoin {} {} = .ok c ∧
      seed c.script = .ok start ∧ ReflTransGen c.Visit start.board b ∧
      b.1.find? expr = some (.union [.string, .string]) ∧
      c.script.Produces (.guarded expr guard) v ∧ guard.isPositive = false ∧
      c.RestsOnGuard expr := by
  have h : (infer narrowedJoin {} {}).2 =
      .error (.emptied (.union [.string, .string]) .string) :=
    eq_error_of_emptiedBy (by decide +kernel)
  obtain ⟨l, hl, hsignatures⟩ : ∃ l, setting narrowedJoin {} {} = .ok ⟨narrowedJoin, l, {}⟩ ∧
      l.signatures = {} := ⟨_, rfl, rfl⟩
  obtain ⟨⟨k, ms, heq, hms⟩, c, start, b, v, expr, guard, hc, hseed, hb, hknown, hop, hneg,
    hrests⟩ := emptied_repeats h
  obtain ⟨-, rfl⟩ := Ty.comb.inj heq
  obtain rfl := Except.ok.inj (hl.symm.trans hc)
  exact ⟨h, hms, _, start, b, v, expr, guard, hl, hseed, hb, hknown, hop, hneg,
    hrests fun t ht => given_narrowedJoin hsignatures ht⟩

end Inference

end SsaTypes
