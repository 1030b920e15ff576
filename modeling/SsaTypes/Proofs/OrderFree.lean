/-
SsaTypes/Proofs/OrderFree.lean

Runs that do not depend on the order of the operands.  A renumbering changes the
order in which a run visits the operands.  Where all operations are order-free
it changes nothing else: a solution of the script, renumbered, is the solution
of the renumbered script (`Solves.renumber`), and a run finds it.  So the
renumbered run gives the renumbered operands the same types, and leaves the
renumbered operands open (`orderFree_infer`).
-/
import SsaTypes.Proofs.Closure
import SsaTypes.Proofs.Renumber

namespace SsaTypes.Inference

variable {π : Equiv.Perm OperandId}

/-! ### Solutions -/

theorem isPositive_renumber (π : OperandId → OperandId) (g : Guard) :
    (g.renumber π).isPositive = g.isPositive := by
  cases g <;> rfl

theorem orderFree_renumber {s : Script} (hπ : s.Renumbers π) (h : s.OrderFree) :
    (s.renumber π).OrderFree := by
  intro op hop
  obtain ⟨op, hmem, rfl⟩ := Array.mem_map.mp hop
  have hfree := h op hmem
  cases op with
  | create cls args =>
    obtain ⟨o, ho, hn⟩ := hfree
    refine ⟨o, ?_, hn⟩
    rw [← toOption_eq_some, Script.operand_renumber hπ, toOption_eq_some]
    exact ho
  | guarded expr guard => exact (isPositive_renumber π guard).trans hfree
  | phi => exact hfree
  | _ => trivial

namespace Context

variable {c : Context}

/-- Types follow the operands that have them. -/
theorem comp_symm_apply (known : Known) (v : OperandId) : (known ∘ π.symm) (π v) = known v := by
  rw [Function.comp_apply, Equiv.symm_apply_apply]

/-- A closed set of the renumbered script is one of the script. -/
theorem Closed.renumber (hπ : c.script.Renumbers π) {S : Set (OperandId × Ty)}
    (hS : (c.renumber π).Closed S) : c.Closed {p | (π p.1, p.2) ∈ S} := by
  refine ⟨fun v t hv => hS.seeds _ _ ((seeds_renumber hπ).mpr hv),
    fun v o known tss t hv ho hk htss hm => ?_⟩
  have hverdict : (c.renumber π).verdict (known ∘ π.symm) (π v) = .ok (.confirmed t) := by
    -- the faults of the two differ in numbers, so they are compared without them
    rw [← toOption_eq_some, verdict_renumber hπ (comp_symm_apply known), toOption_eq_some]
    exact verdict_eq_confirmed.mpr ⟨o, tss, ho, htss, hm⟩
  refine hS.confirmed ((isOpen_renumber hπ).mpr hv) (fun u a hu => ?_) hverdict
  have hmem : (π (π.symm u), a) ∈ S := hk (π.symm u) a hu
  rwa [Equiv.apply_symm_apply] at hmem

/-- **A solution, renumbered.** -/
theorem Solves.renumber (hπ : c.script.Renumbers π) {final : Known} (h : c.Solves final) :
    (c.renumber π).Solves (final ∘ π.symm) := by
  refine ⟨fun v t hv => ?_, fun v hv => ?_, fun S hS v t hv => ?_⟩
  · rw [← Equiv.apply_symm_apply π v] at hv
    exact h.seeds _ _ ((seeds_renumber hπ).mp hv)
  · rw [← Equiv.apply_symm_apply π v] at hv ⊢
    rw [← toOption_eq_some, verdict_renumber hπ (comp_symm_apply final), toOption_eq_some,
      comp_symm_apply]
    exact h.verdict _ ((isOpen_renumber hπ).mp hv)
  · have hmem : (π (π.symm v), t) ∈ S := h.least _ (Closed.renumber hπ hS) _ _ hv
    rwa [Equiv.apply_symm_apply] at hmem

end Context

/-! ### Runs -/

/-- **A run over the renumbered script** has no fault either, and confirms the
renumbered types. -/
theorem solution_renumber {s : Script} {signatures : Signatures} {options : Options} {c : Context}
    {last : Progress} (hfree : c.script.OrderFree) (hπ : c.script.Renumbers π)
    (hlimit : c.script.operands.size ≤ options.roundLimit c.script.operands.size)
    (h : solution s signatures options = .ok (c, last)) :
    ∃ last', solution (s.renumber π) signatures options = .ok (c.renumber π, last') ∧
      last'.confirmed = last.confirmed ∘ π.symm := by
  obtain ⟨hprops, hlookup, hoptions, start, hseed, hiter⟩ := solution_eq_ok.mp h
  have hsize : (c.renumber π).script.operands.size = c.script.operands.size :=
    Script.size_operands_renumber
  have hfree' : (c.renumber π).script.OrderFree := orderFree_renumber hπ hfree
  -- the run solves the script, so its renumbered types solve the renumbered script, and
  -- whatever the run over that one confirms is this solution
  have hsolves := Context.Solves.renumber hπ (Context.solves_of_iterate hfree hseed hlimit hiter)
  obtain ⟨start', hseed'⟩ := exists_seed_renumber hπ hseed
  obtain ⟨last', hiter'⟩ := hsolves.exists_iterate hfree' hseed'
    (options.roundLimit (c.renumber π).script.operands.size)
  refine ⟨last', solution_eq_ok.mpr ⟨?_, ?_, hoptions, start', hseed', hiter'⟩, ?_⟩
  · rw [seedProperties_renumber, hprops]
    rfl
  · show Lookup.build (c.script.renumber π) signatures = _
    rw [build_renumber, hlookup]
    rfl
  · refine Context.Solves.unique hfree' ?_ hsolves
    exact Context.solves_of_iterate hfree' hseed' (by rw [hsize]; exact hlimit) hiter'

/-- The operands left open are those that are open at first and not confirmed. -/
theorem mem_pending_iff {c : Context} {p : Progress} (h : c.Coherent p.board) {v : OperandId} :
    v ∈ p.pending ↔ c.script.isOpen v = true ∧ p.confirmed v = none := by
  constructor
  · intro hv
    exact ⟨h.isOpen v hv, if_pos hv⟩
  · rintro ⟨ho, hc⟩
    by_contra hv
    obtain ⟨t, ht⟩ := h.closed v ho hv
    rw [Progress.confirmed, Board.confirmed_eq_some.mpr ⟨hv, ht⟩] at hc
    cases hc

theorem final_renumber {p p' : Progress} (hc : p'.confirmed = p.confirmed ∘ π.symm)
    (id : OperandId) : p'.final id = p.final (π.symm id) := by
  rw [Progress.final_eq, Progress.final_eq, hc]
  rfl

theorem pending_renumber {c : Context} {p p' : Progress} (hπ : c.script.Renumbers π)
    (h : c.Coherent p.board) (h' : (c.renumber π).Coherent p'.board)
    (hc : p'.confirmed = p.confirmed ∘ π.symm) : p'.pending.Perm (p.pending.map π) := by
  refine (List.perm_ext_iff_of_nodup h'.nodup (h.nodup.map π.injective)).mpr fun v => ?_
  show v ∈ p'.pending ↔ _
  rw [← Equiv.apply_symm_apply π v, List.mem_map_of_injective π.injective, mem_pending_iff h',
    Context.isOpen_renumber hπ, hc, Function.comp_apply, Equiv.symm_apply_apply]
  exact (mem_pending_iff h).symm

/-- A script whose operations are all order-free, on which operands wait for
later ones. -/
def backwards : Script where
  operands := #[
    { kind := .variable (some "list"), ops := [0] },
    { kind := .variable (some "copy"), ops := [1] },
    { kind := .variable (some "object"), ops := [2] },
    { kind := .literal (.string "Foo") },
    { kind := .variable (some "never") }]
  ops := #[
    .array [] [1],
    .assign 1 2,
    .create 3 []]

/-- **The order of the operands does not matter.**  After a run without a fault
over an order-free script, with a round for every operand, the confirmed types
are the least set that has the seeds and is closed under the rules.  The run
over the script with its operands renumbered has no fault either.  It gives the
renumbered operands the same types, and leaves the renumbered operands open. -/
theorem orderFree_infer {s s' : Script} {signatures : Signatures} {options : Options}
    {out : Outcome} (hfree : s.OrderFree)
    (hlimit : s.operands.size ≤ options.roundLimit s.operands.size)
    (h : infer s signatures options = (s', .ok out)) :
    ∃ c last, solution s signatures options = .ok (c, last) ∧ s' = writeBack c.script last ∧
      IsLeast {S | c.Closed S} {p | last.confirmed p.1 = some p.2} ∧
      ∀ π : Equiv.Perm OperandId, s.Renumbers π →
        ∃ out' last', infer (s.renumber π) signatures options = (s'.renumber π, .ok out') ∧
          solution (s.renumber π) signatures options = .ok (c.renumber π, last') ∧
          last'.confirmed = last.confirmed ∘ π.symm ∧
          last'.pending.Perm (last.pending.map π) := by
  obtain ⟨c, last, hsol, rfl, -⟩ := infer_eq_ok.mp h
  obtain ⟨hprops, -, -, start, hseed, hiter⟩ := solution_eq_ok.mp hsol
  obtain ⟨classes, hclasses⟩ := seedProperties_fst options.useDocComments s
  have hscript : c.script = { s with classes } := by rw [← hclasses, hprops]
  have hoperands : c.script.operands = s.operands := by rw [hscript]
  have hfree' : c.script.OrderFree := by
    rw [hscript]
    intro op hop
    have := hfree op hop
    cases op <;> exact this
  have hlimit' : c.script.operands.size ≤ options.roundLimit c.script.operands.size := by
    rw [hoperands]
    exact hlimit
  have hsolves := Context.solves_of_iterate hfree' hseed hlimit' hiter
  refine ⟨c, last, hsol, rfl, hsolves.isLeast hfree', fun π hπ => ?_⟩
  have hπ' : c.script.Renumbers π := by
    rw [Script.Renumbers, hoperands]
    exact hπ
  obtain ⟨last', hsol', hc⟩ := solution_renumber hfree' hπ' hlimit' hsol
  obtain ⟨-, -, -, start', hseed', hiter'⟩ := solution_eq_ok.mp hsol'
  refine ⟨_, last', infer_eq_ok.mpr ⟨_, last', hsol', ?_, rfl⟩, hsol', hc, ?_⟩
  · exact (writeBack_renumber hπ' (final_renumber hc)).symm
  · exact pending_renumber hπ' (Context.coherent_of_iterate hseed hiter).1
      (Context.coherent_of_iterate hseed' hiter').1 hc

/-- The run over `backwards` has no fault. -/
theorem orderFree_infer_backwards :
    ∃ s' out, infer backwards {} {} = (s', .ok out) ∧
      ∃ c last, solution backwards {} {} = .ok (c, last) ∧ s' = writeBack c.script last ∧
        IsLeast {S | c.Closed S} {p | last.confirmed p.1 = some p.2} ∧
        ∀ π : Equiv.Perm OperandId, backwards.Renumbers π →
          ∃ out' last', infer (backwards.renumber π) {} {} = (s'.renumber π, .ok out') ∧
            solution (backwards.renumber π) {} {} = .ok (c.renumber π, last') ∧
            last'.confirmed = last.confirmed ∘ π.symm ∧
            last'.pending.Perm (last.pending.map π) := by
  have hfree : backwards.OrderFree := by
    intro op hop
    simp only [backwards, List.mem_toArray, List.mem_cons, List.not_mem_nil, or_false] at hop
    rcases hop with rfl | rfl | rfl
    · trivial
    · trivial
    · exact ⟨_, rfl, rfl⟩
  exact ⟨_, _, rfl, orderFree_infer hfree (Nat.le_refl _) rfl⟩

end SsaTypes.Inference
