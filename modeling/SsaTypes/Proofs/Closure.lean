/-
SsaTypes/Proofs/Closure.lean

Runs without the rules that answer early.  In a script without phis, without
failing guards and without objects of classes not named, a rule that has
answered keeps its answer, so the order in which a run visits the operands does
not matter: what it confirms is the least set of types that contains the seeds
and is closed under the rules,

    IsLeast {S | Closed c S} {(v, t) | final v = some t}        (`Solves.isLeast`).

`Solves` says this of an assignment without mention of a run.  There is at most
one such assignment; a run without a fault finds it (`solves_of_iterate`), and
if there is one then no run has a fault (`Solves.exists_iterate`).
-/
import Mathlib.Order.Bounds.Basic
import SsaTypes.Proofs.Provenance

namespace SsaTypes

/-- The operation answers only when the types that it looks at are known. -/
def Op.OrderFree (s : Script) : Op → Prop
  | .phi _ => False
  | .create cls _ => ∃ o, s.operand cls = .ok o ∧ o.namesClass = true
  | .guarded _ guard => guard.isPositive = true
  | _ => True

/-- No phi, no failing guard, and objects only of classes that are named. -/
def Script.OrderFree (s : Script) : Prop :=
  ∀ op ∈ s.ops, op.OrderFree s

theorem Script.OrderFree.of_op {s : Script} (h : s.OrderFree) {id : OpId} {op : Op}
    (hop : s.op id = .ok op) : op.OrderFree s :=
  h op (Array.mem_of_getElem? (Script.op_eq_ok.mp hop))

theorem Script.OrderFree.not_isJoin {s : Script} (h : s.OrderFree) (v : OperandId) :
    ¬ s.isJoin v = true := by
  intro hv
  rw [Script.isJoin] at hv
  rcases e : s.operand v with f | o
  · simp [e] at hv
  · simp only [e] at hv
    obtain ⟨id, -, hid⟩ := List.any_eq_true.mp hv
    rw [Script.isPhi] at hid
    split at hid
    · next hop => exact h.of_op hop
    · cases hid

namespace Inference

open Relation

namespace Context

variable {c : Context}

theorem grounded_of_orderFree {op : Op} (h : op.OrderFree c.script) (known : Known) :
    c.Grounded known op := by
  cases op with
  | create => exact .inl h
  | guarded => exact .inl h
  | _ => trivial

/-- With more types known, every verdict but to wait stays, faults included. -/
theorem verdict_of_le (hfree : c.script.OrderFree) {known known' : Known}
    (hle : ∀ u a, known u = some a → known' u = some a) (v : OperandId) :
    Verdict.Undecided (c.verdict known v) ∨ c.verdict known' v = c.verdict known v :=
  verdict_kept fun _ ⟨_, _, _, _, hop⟩ =>
    ⟨grounded_of_orderFree (hfree.of_op hop) known, fun u _ => hle u⟩

theorem verdict_ne_provisional (hfree : c.script.OrderFree) {known : Known} {v : OperandId}
    {t : Ty} : c.verdict known v ≠ .ok (.provisional t) := by
  intro h
  obtain ⟨o, -, id, -, ha⟩ := exists_answer_of_verdict h
  obtain ⟨vars, hop, -⟩ := exists_phi_of_answer ha
  exact hfree.of_op hop

theorem confirmed_of_le (hfree : c.script.OrderFree) {known known' : Known} {v : OperandId}
    {t : Ty} (hle : ∀ u a, known u = some a → known' u = some a)
    (h : c.verdict known v = .ok (.confirmed t)) : c.verdict known' v = .ok (.confirmed t) := by
  rcases verdict_of_le hfree hle v with (e | ⟨a, e⟩) | e
  · rw [h] at e
    cases e
  · exact absurd e (verdict_ne_provisional hfree)
  · rw [e, h]

theorem fault_of_le (hfree : c.script.OrderFree) {known known' : Known} {v : OperandId}
    {f : Fault} (hle : ∀ u a, known u = some a → known' u = some a)
    (h : c.verdict known v = .error f) : c.verdict known' v = .error f := by
  rcases verdict_of_le hfree hle v with (e | ⟨a, e⟩) | e
  · rw [h] at e
    cases e
  · rw [h] at e
    cases e
  · rw [e, h]

/-! ### Closed sets -/

/-- A set of types of operands that has the seeds, and the merge of what the
producers of an open operand answer for any types that it has. -/
structure Closed (c : Context) (S : Set (OperandId × Ty)) : Prop where
  seeds : ∀ v t, c.script.Seeds v t → (v, t) ∈ S
  rules : ∀ v o known tss t, c.script.isOpen v = true → c.script.operand v = .ok o →
    (∀ u a, known u = some a → (u, a) ∈ S) →
    List.Forall₂ (fun id ts => c.answer known id = .ok (.candidates ts)) o.ops tss →
    Ty.merge? tss.flatten = some t → (v, t) ∈ S

theorem Closed.confirmed {S : Set (OperandId × Ty)} (hS : c.Closed S) {known : Known}
    {v : OperandId} {t : Ty} (hv : c.script.isOpen v = true)
    (hk : ∀ u a, known u = some a → (u, a) ∈ S)
    (h : c.verdict known v = .ok (.confirmed t)) : (v, t) ∈ S := by
  obtain ⟨o, tss, ho, htss, hm⟩ := verdict_eq_confirmed.mp h
  exact hS.rules v o known tss t hv ho hk htss hm

/-- **Soundness.**  A run does not leave a closed set. -/
theorem Closed.visits (hfree : c.script.OrderFree) {S : Set (OperandId × Ty)} (hS : c.Closed S)
    {start : Progress} (hs : seed c.script = .ok start) {b : Board}
    (h : ReflTransGen c.Visit start.board b) :
    ∀ v t, b.1.find? v = some t → (v, t) ∈ S := by
  have h₀ := coherent_seed hs
  induction h with
  | refl => exact fun v t hv => hS.seeds v t (((seed_spec hs).2.2 v t).mp hv)
  | @tail b₁ b₂ h₁ hv ih =>
    intro u a hu
    cases hv with
    | provisional _ e => exact absurd e (verdict_ne_provisional hfree)
    | @confirmed types pending v t hm e =>
      -- the new entry is made by the rules from entries that are in the set
      rw [Table.find?_insert] at hu
      split at hu
      · next huv =>
        rw [huv, ← Option.some.inj hu]
        exact hS.confirmed ((h₀.visits h₁).isOpen v hm) ih e
      · exact ih u a hu

/-! ### Solutions -/

/-- What can be said of an operand that has this type, or none, for good. -/
def settledVerdict : Option Ty → Verdict
  | some t => .confirmed t
  | none => .wait

/-- An assignment that has the seeds, that the rules confirm as it is, and that
has only what every closed set has. -/
structure Solves (c : Context) (final : Known) : Prop where
  seeds : ∀ v t, c.script.Seeds v t → final v = some t
  verdict : ∀ v, c.script.isOpen v = true →
    c.verdict final v = .ok (settledVerdict (final v))
  least : ∀ S, c.Closed S → ∀ v t, final v = some t → (v, t) ∈ S

theorem Solves.closed (hfree : c.script.OrderFree) {final : Known} (h : c.Solves final) :
    c.Closed {p | final p.1 = some p.2} := by
  refine ⟨h.seeds, fun v o known tss t hv ho hk htss hm => ?_⟩
  have hconfirmed : c.verdict final v = .ok (.confirmed t) :=
    confirmed_of_le hfree hk (verdict_eq_confirmed.mpr ⟨o, tss, ho, htss, hm⟩)
  rw [h.verdict v hv] at hconfirmed
  show final v = some t
  rcases e : final v with - | u
  · rw [e] at hconfirmed
    cases hconfirmed
  · rw [e] at hconfirmed
    rw [Verdict.confirmed.inj (Except.ok.inj hconfirmed)]

/-- **A solution is the least closed set.** -/
theorem Solves.isLeast (hfree : c.script.OrderFree) {final : Known} (h : c.Solves final) :
    IsLeast {S | c.Closed S} {p | final p.1 = some p.2} :=
  ⟨h.closed hfree, fun S hS p hp => h.least S hS p.1 p.2 hp⟩

theorem Solves.unique (hfree : c.script.OrderFree) {final final' : Known} (h : c.Solves final)
    (h' : c.Solves final') : final = final' := by
  have heq := (h.isLeast hfree).unique (h'.isLeast hfree)
  funext v
  ext t
  exact Set.ext_iff.mp heq (v, t)

/-! ### Runs -/

/-- A sweep that closes no operand changes nothing. -/
theorem wait_of_sweep (hfree : c.script.OrderFree) {types types' : Table OperandId Ty}
    {vs : List OperandId} (h : c.sweep types vs = .ok (types', vs)) :
    types' = types ∧ ∀ v ∈ vs, c.verdict types.find? v = .ok .wait := by
  induction vs with
  | nil =>
    obtain ⟨rfl, -⟩ := Prod.mk.inj (Except.ok.inj h)
    exact ⟨rfl, by simp⟩
  | cons v vs ih =>
    rcases sweep_cons_open h with ⟨e, hs⟩ | ⟨t, e, -⟩
    · obtain ⟨rfl, hvs⟩ := ih hs
      exact ⟨rfl, List.forall_mem_cons.mpr ⟨e, hvs⟩⟩
    · exact absurd e (verdict_ne_provisional hfree)

/-- **A run stops too early nowhere.**  With a round for every open operand, what
is open at the end waits for good. -/
theorem wait_of_iterate (hfree : c.script.OrderFree) {limit : Nat} {p q : Progress}
    (hlimit : p.pending.length ≤ limit) (h : c.iterate limit p = .ok q) :
    ∀ v ∈ q.pending, c.verdict q.known v = .ok .wait := by
  induction limit generalizing p with
  | zero =>
    obtain rfl := Except.ok.inj h
    rw [List.eq_nil_of_length_eq_zero (Nat.le_zero.mp hlimit)]
    simp
  | succ limit ih =>
    rw [iterate] at h
    split at h
    · next hp =>
      obtain rfl := Except.ok.inj h
      rw [List.isEmpty_iff.mp hp]
      simp
    · obtain ⟨r, hr, h⟩ := bind_eq_ok.mp h
      have hsweep := (round_eq_ok.mp hr).1
      have hsub := sweep_sublist hsweep
      by_cases hlen : r.pending.length < p.pending.length
      · have ha : advanced p r = true := by simp [advanced, hlen]
        rw [if_pos ha] at h
        exact ih (by omega) h
      · -- without phis, a round that closes no operand does not advance
        have hpending : r.pending = p.pending := hsub.eq_of_length_le (by omega)
        rw [hpending] at hsweep
        obtain ⟨htypes, hwait⟩ := wait_of_sweep hfree hsweep
        have ha : ¬ advanced p r = true := by simp [advanced, hpending, htypes]
        rw [if_neg ha] at h
        obtain rfl := Except.ok.inj h
        intro v hv
        show c.verdict r.types.find? v = _
        rw [htypes]
        exact hwait v (hpending ▸ hv)

/-- Without phis, an open operand has no type. -/
theorem known_eq_confirmed (hfree : c.script.OrderFree) {p : Progress} (h : c.Coherent p.board) :
    p.known = p.confirmed := by
  funext v
  show p.types.find? v = if v ∈ p.pending then none else p.types.find? v
  split
  · next hv =>
    rcases e : p.types.find? v with - | t
    · rfl
    · exact absurd (h.isJoin v hv t e) (hfree.not_isJoin v)
  · rfl

/-- A run without a fault ends with a solution. -/
theorem solves_of_iterate (hfree : c.script.OrderFree) {limit : Nat} {start last : Progress}
    (hs : seed c.script = .ok start) (hlimit : c.script.operands.size ≤ limit)
    (h : c.iterate limit start = .ok last) : c.Solves last.confirmed := by
  obtain ⟨hlast, hvisits⟩ := coherent_of_iterate hs h
  have hknown : last.known = last.confirmed := known_eq_confirmed hfree hlast
  refine ⟨fun v t hv => ?_, fun v hv => ?_, fun S hS v t hv => ?_⟩
  · rw [← hknown]
    exact hlast.seeds v t hv
  · rcases e : last.confirmed v with - | t
    · -- an operand without a type has been left open, and waits
      have hpending : v ∈ last.pending := by
        by_contra hm
        obtain ⟨t, ht⟩ := hlast.closed v hv hm
        rw [← hknown] at e
        rw [show last.known v = some t from ht] at e
        cases e
      have hlen : start.pending.length ≤ limit := by
        have hopen := c.script.length_openOperands_le
        rw [(seed_spec hs).2.1]
        exact Nat.le_trans hopen hlimit
      rw [← hknown]
      exact wait_of_iterate hfree hlen h v hpending
    · -- it was confirmed on types that are all final, since no operand is speculative
      obtain ⟨known, hk⟩ := exists_support_of_iterate hs h hv e
      refine confirmed_of_le hfree (fun u a hu => ?_) hk.verdict
      exact (hk.settled u a hu).resolve_right fun hspec => hfree.not_isJoin u hspec.2
  · exact hS.visits hfree hs hvisits v t (Board.confirmed_eq_some.mp hv).2

/-- If there is a solution, no run has a fault. -/
theorem Solves.exists_iterate (hfree : c.script.OrderFree) {final : Known} (h : c.Solves final)
    {start : Progress} (hs : seed c.script = .ok start) (limit : Nat) :
    ∃ last, c.iterate limit start = .ok last := by
  rcases e : c.iterate limit start with f | last
  · have h₀ := coherent_seed hs
    obtain ⟨b, hb, v, hv, hfault⟩ := exists_fault_of_iterate h₀.nodup e
    -- a fault stays a fault while more types become known, up to those of the solution
    have hle : ∀ u a, b.1.find? u = some a → final u = some a :=
      (h.closed hfree).visits hfree hs hb
    have hfinal := fault_of_le hfree hle hfault
    rw [h.verdict v ((h₀.visits hb).isOpen v hv)] at hfinal
    cases hfinal
  · exact ⟨last, rfl⟩

end Context

end Inference

end SsaTypes
