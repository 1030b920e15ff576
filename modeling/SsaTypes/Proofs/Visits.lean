/-
SsaTypes/Proofs/Visits.lean

A run, one visit at a time.  The state between two visits is a board: the types
entered so far and the operands still open.  A visit that changes the board
enters a provisional type and leaves its operand open, or enters a confirmed
type and closes it (`Visit`); rounds and whole runs are sequences of such visits
(`sweep_visits`, `iterate_visits`).  What a visit preserves is therefore true at
the end of every run.

`Coherent` is the invariant that the other results rest on.  Seeds are never
rewritten, only seeded and open operands have types, and an open operand can
have one only if a phi is among its producers.  So the entries that can still
change are those of `Speculative` operands.
-/
import Mathlib.Data.List.Nodup
import Mathlib.Logic.Relation
import SsaTypes.Proofs.Seeding

namespace SsaTypes.Inference

open Relation

/-- What changes in a run: the types entered, and the operands still open. -/
abbrev Board := Table OperandId Ty × List OperandId

namespace Board

/-- The types of the operands that are not open any more. -/
def confirmed (b : Board) : Known :=
  fun v => if v ∈ b.2 then none else b.1.find? v

theorem confirmed_eq_some {b : Board} {v : OperandId} {t : Ty} :
    b.confirmed v = some t ↔ v ∉ b.2 ∧ b.1.find? v = some t := by
  rw [confirmed]
  split <;> simp_all

end Board

namespace Progress

/-- The state of a run, without its rounds. -/
def board (p : Progress) : Board := (p.types, p.pending)

/-- The types confirmed so far. -/
def confirmed (p : Progress) : Known := p.board.confirmed

theorem final_eq (p : Progress) (v : OperandId) :
    p.final v = (p.confirmed v).getD .unknown := by
  rw [final, confirmed, Board.confirmed]
  show _ = (if v ∈ p.pending then none else p.known v).getD .unknown
  split <;> rfl

end Progress

namespace Context

/-- One visit that changes the board. -/
inductive Visit (c : Context) : Board → Board → Prop
  | provisional {types : Table OperandId Ty} {pending : List OperandId} {v : OperandId} {t : Ty} :
      v ∈ pending → c.verdict types.find? v = .ok (.provisional t) →
      Visit c (types, pending) (types.insert v t, pending)
  | confirmed {types : Table OperandId Ty} {pending : List OperandId} {v : OperandId} {t : Ty} :
      v ∈ pending → c.verdict types.find? v = .ok (.confirmed t) →
      Visit c (types, pending) (types.insert v t, pending.erase v)

variable {c : Context}

/-! ### Runs are sequences of visits -/

/-- What a sweep does first. -/
theorem sweep_cons {types types' : Table OperandId Ty} {v : OperandId} {vs rest : List OperandId}
    (h : c.sweep types (v :: vs) = .ok (types', rest)) :
    (c.verdict types.find? v = .ok .wait ∧
      ∃ r, rest = v :: r ∧ c.sweep types vs = .ok (types', r)) ∨
    (∃ t, c.verdict types.find? v = .ok (.provisional t) ∧
      ∃ r, rest = v :: r ∧ c.sweep (types.insert v t) vs = .ok (types', r)) ∨
    (∃ t, c.verdict types.find? v = .ok (.confirmed t) ∧
      c.sweep (types.insert v t) vs = .ok (types', rest)) := by
  rw [sweep, bind_eq_ok] at h
  obtain ⟨x, hx, h⟩ := h
  cases x with
  | wait =>
    obtain ⟨⟨ty, r⟩, hr, h⟩ := map_eq_ok.mp h
    obtain ⟨rfl, rfl⟩ := Prod.mk.inj h
    exact .inl ⟨hx, r, rfl, hr⟩
  | provisional t =>
    obtain ⟨⟨ty, r⟩, hr, h⟩ := map_eq_ok.mp h
    obtain ⟨rfl, rfl⟩ := Prod.mk.inj h
    exact .inr (.inl ⟨t, hx, r, rfl, hr⟩)
  | confirmed t => exact .inr (.inr ⟨t, hx, h⟩)

theorem sweep_of_wait {types types' : Table OperandId Ty} {v : OperandId}
    {vs rest : List OperandId} (e : c.verdict types.find? v = .ok .wait)
    (h : c.sweep types vs = .ok (types', rest)) :
    c.sweep types (v :: vs) = .ok (types', v :: rest) := by
  rw [sweep, e]
  simp only [bind, Except.bind, h, Except.map]

theorem sweep_of_provisional {types types' : Table OperandId Ty} {v : OperandId}
    {vs rest : List OperandId} {t : Ty} (e : c.verdict types.find? v = .ok (.provisional t))
    (h : c.sweep (types.insert v t) vs = .ok (types', rest)) :
    c.sweep types (v :: vs) = .ok (types', v :: rest) := by
  rw [sweep, e]
  simp only [bind, Except.bind, h, Except.map]

theorem sweep_of_confirmed {types types' : Table OperandId Ty} {v : OperandId}
    {vs rest : List OperandId} {t : Ty} (e : c.verdict types.find? v = .ok (.confirmed t))
    (h : c.sweep (types.insert v t) vs = .ok (types', rest)) :
    c.sweep types (v :: vs) = .ok (types', rest) := by
  rw [sweep, e]
  exact h

theorem sweep_sublist {types types' : Table OperandId Ty} {vs rest : List OperandId}
    (h : c.sweep types vs = .ok (types', rest)) : rest.Sublist vs := by
  induction vs generalizing types rest with
  | nil =>
    obtain ⟨-, rfl⟩ := Prod.mk.inj (Except.ok.inj h)
    exact .slnil
  | cons v vs ih =>
    rcases sweep_cons h with ⟨-, r, rfl, hs⟩ | ⟨t, -, r, rfl, hs⟩ | ⟨t, -, hs⟩
    · exact (ih hs).cons_cons v
    · exact (ih hs).cons_cons v
    · exact (ih hs).cons v

/-- A sweep that closes no operand confirms none. -/
theorem sweep_cons_open {types types' : Table OperandId Ty} {v : OperandId} {vs : List OperandId}
    (h : c.sweep types (v :: vs) = .ok (types', v :: vs)) :
    (c.verdict types.find? v = .ok .wait ∧ c.sweep types vs = .ok (types', vs)) ∨
    ∃ t, c.verdict types.find? v = .ok (.provisional t) ∧
      c.sweep (types.insert v t) vs = .ok (types', vs) := by
  rcases sweep_cons h with ⟨e, r, hr, hs⟩ | ⟨t, e, r, hr, hs⟩ | ⟨t, -, hs⟩
  · obtain rfl := (List.cons.inj hr).2
    exact .inl ⟨e, hs⟩
  · obtain rfl := (List.cons.inj hr).2
    exact .inr ⟨t, e, hs⟩
  · -- a closed operand is missing from what is left
    have hlen := (sweep_sublist hs).length_le
    rw [List.length_cons] at hlen
    omega

/-- Closing the first operand not visited yet leaves those visited and the rest. -/
theorem erase_append_cons {pre vs : List OperandId} {v : OperandId}
    (hn : (pre ++ v :: vs).Nodup) : (pre ++ v :: vs).erase v = pre ++ vs := by
  have hpre : v ∉ pre := fun hv =>
    (List.nodup_append.mp hn).2.2 v hv v List.mem_cons_self rfl
  rw [List.erase_append_right _ hpre, List.erase_cons_head]

/-- A sweep over the end of the list of open operands is a sequence of visits. -/
theorem sweep_visits {types types' : Table OperandId Ty} {vs rest : List OperandId}
    (pre : List OperandId) (hn : (pre ++ vs).Nodup) (h : c.sweep types vs = .ok (types', rest)) :
    ReflTransGen c.Visit (types, pre ++ vs) (types', pre ++ rest) := by
  induction vs generalizing types pre rest with
  | nil =>
    obtain ⟨rfl, rfl⟩ := Prod.mk.inj (Except.ok.inj h)
    exact .refl
  | cons v vs ih =>
    have hmem : v ∈ pre ++ v :: vs := by simp
    -- an operand left open joins those visited before
    have hn' : (pre ++ [v] ++ vs).Nodup := by simpa using hn
    rcases sweep_cons h with ⟨-, r, rfl, hs⟩ | ⟨t, e, r, rfl, hs⟩ | ⟨t, e, hs⟩
    · simpa using ih _ hn' hs
    · exact .head (.provisional hmem e) (by simpa using ih _ hn' hs)
    · refine .head (.confirmed hmem e) ?_
      rw [erase_append_cons hn]
      refine ih pre ?_ hs
      rw [← erase_append_cons hn]
      exact hn.erase v

theorem round_eq_ok {p q : Progress} :
    c.round p = .ok q ↔ c.sweep p.types p.pending = .ok (q.types, q.pending) ∧
      q.rounds = p.rounds + 1 := by
  rw [round, map_eq_ok]
  constructor
  · rintro ⟨⟨types, rest⟩, h, rfl⟩
    exact ⟨h, rfl⟩
  · rintro ⟨h, hr⟩
    exact ⟨_, h, by rw [← hr]⟩

theorem round_visits {p q : Progress} (hn : p.pending.Nodup) (h : c.round p = .ok q) :
    ReflTransGen c.Visit p.board q.board :=
  sweep_visits [] hn (round_eq_ok.mp h).1

/-- A sweep with a fault comes by visits to an operand that has it. -/
theorem exists_fault_of_sweep {types : Table OperandId Ty} {vs : List OperandId} {f : Fault}
    (pre : List OperandId) (hn : (pre ++ vs).Nodup) (h : c.sweep types vs = .error f) :
    ∃ b, ReflTransGen c.Visit (types, pre ++ vs) b ∧
      ∃ v ∈ b.2, c.verdict b.1.find? v = .error f := by
  induction vs generalizing types pre with
  | nil => cases h
  | cons v vs ih =>
    have hmem : v ∈ pre ++ v :: vs := by simp
    have hn' : (pre ++ [v] ++ vs).Nodup := by simpa using hn
    have happend : pre ++ [v] ++ vs = pre ++ v :: vs := by simp
    rw [sweep] at h
    -- the fault is at the first operand, or the visits to it lead to the others
    rcases e : c.verdict types.find? v with f' | - | t | t
    · rw [e] at h
      obtain rfl := Except.error.inj h
      exact ⟨_, .refl, v, hmem, e⟩
    · rw [e] at h
      rcases hs : c.sweep types vs with f' | r
      · simp only [bind, Except.bind, hs, Except.map] at h
        obtain ⟨b, hb, hv⟩ := ih _ hn' (hs.trans h)
        exact ⟨b, happend ▸ hb, hv⟩
      · simp [bind, Except.bind, hs, Except.map] at h
    · rw [e] at h
      rcases hs : c.sweep (types.insert v t) vs with f' | r
      · simp only [bind, Except.bind, hs, Except.map] at h
        obtain ⟨b, hb, hv⟩ := ih _ hn' (hs.trans h)
        exact ⟨b, .head (.provisional hmem e) (happend ▸ hb), hv⟩
      · simp [bind, Except.bind, hs, Except.map] at h
    · rw [e] at h
      have herase := erase_append_cons hn
      obtain ⟨b, hb, hv⟩ := ih pre (herase ▸ hn.erase v) h
      exact ⟨b, .head (.confirmed hmem e) (by rw [herase]; exact hb), hv⟩

/-- Visits close operands and never open one. -/
theorem nodup_of_visits {b b' : Board} (h : ReflTransGen c.Visit b b') (hn : b.2.Nodup) :
    b'.2.Nodup := by
  induction h with
  | refl => exact hn
  | tail _ hv ih =>
    cases hv with
    | provisional => exact ih
    | confirmed => exact ih.erase _

/-- Types are entered at the end of the table or in their place. -/
theorem keys_of_visits {b b' : Board} (h : ReflTransGen c.Visit b b') :
    b.1.keys <+: b'.1.keys := by
  induction h with
  | refl => exact List.prefix_rfl
  | tail _ hv ih =>
    cases hv with
    | provisional => exact ih.trans (Table.keys_prefix_insert _ _ _)
    | confirmed => exact ih.trans (Table.keys_prefix_insert _ _ _)

/-- A run is a sequence of visits. -/
theorem iterate_visits {limit : Nat} {p q : Progress} (hn : p.pending.Nodup)
    (h : c.iterate limit p = .ok q) : ReflTransGen c.Visit p.board q.board := by
  induction limit generalizing p with
  | zero =>
    obtain rfl := Except.ok.inj h
    exact .refl
  | succ limit ih =>
    rw [iterate] at h
    split at h
    · obtain rfl := Except.ok.inj h
      exact .refl
    · obtain ⟨r, hr, h⟩ := bind_eq_ok.mp h
      have hv := round_visits hn hr
      -- the rounds that follow need what this one started with: no operand is open twice
      split at h
      · exact hv.trans (ih (nodup_of_visits hv hn) h)
      · obtain rfl := Except.ok.inj h
        exact hv

/-- A run with a fault comes by visits to an operand that has it. -/
theorem exists_fault_of_iterate {limit : Nat} {p : Progress} {f : Fault} (hn : p.pending.Nodup)
    (h : c.iterate limit p = .error f) :
    ∃ b, ReflTransGen c.Visit p.board b ∧ ∃ v ∈ b.2, c.verdict b.1.find? v = .error f := by
  induction limit generalizing p with
  | zero => cases h
  | succ limit ih =>
    rw [iterate] at h
    split at h
    · cases h
    · rcases hr : c.round p with f' | r
      · rw [hr] at h
        obtain rfl := Except.error.inj h
        rw [round] at hr
        rcases hs : c.sweep p.types p.pending with f'' | r
        · rw [hs] at hr
          obtain rfl := Except.error.inj hr
          exact exists_fault_of_sweep [] hn hs
        · rw [hs] at hr
          cases hr
      · simp only [hr, bind, Except.bind] at h
        have hv := round_visits hn hr
        split at h
        · obtain ⟨b, hb, hfault⟩ := ih (nodup_of_visits hv hn) h
          exact ⟨b, hv.trans hb, hfault⟩
        · cases h

/-! ### Provisional types -/

/-- An open operand of which a phi may enter a provisional type. -/
def Speculative (c : Context) (v : OperandId) : Prop :=
  c.script.isOpen v = true ∧ c.script.isJoin v = true

/-- Only a phi answers with a provisional type, which joins types entered. -/
theorem exists_phi_of_answer {known : Known} {id : OpId} {t : Ty}
    (h : c.answer known id = .ok (.provisional t)) :
    ∃ vars, c.script.op id = .ok (.phi vars) ∧ Ty.merge? (vars.filterMap known) = some t := by
  rw [answer, bind_eq_ok] at h
  obtain ⟨op, hop, h⟩ := h
  -- an answer made of candidates is never provisional
  have hof : ∀ r : Candidates, Answer.of r ≠ .provisional t := by
    intro r
    cases r <;> nofun
  cases op with
  | phi vars =>
    refine ⟨vars, hop, ?_⟩
    have hphi := Except.ok.inj h
    rw [phi] at hphi
    split at hphi
    · cases hphi
    · next u hu =>
      split at hphi
      · cases hphi
      · rw [hu, Answer.provisional.inj hphi]
  | _ =>
    obtain ⟨r, -, hr⟩ := map_eq_ok.mp h
    exact absurd hr (hof r)

theorem isPhi_of_answer {known : Known} {id : OpId} {t : Ty}
    (h : c.answer known id = .ok (.provisional t)) : c.script.isPhi id = true := by
  obtain ⟨vars, e, -⟩ := exists_phi_of_answer h
  rw [Script.isPhi, e]

/-- A provisional type comes from one of the operations asked. -/
theorem exists_answer_of_gather {known : Known} {ids : List OpId} {t : Ty}
    (h : c.gather known ids = .ok (.provisional t)) :
    ∃ id ∈ ids, c.answer known id = .ok (.provisional t) := by
  induction ids with
  | nil => cases h
  | cons id ids ih =>
    rw [gather, bind_eq_ok] at h
    obtain ⟨a, ha, h⟩ := h
    -- the first answer that is not a list of candidates decides
    cases a with
    | wait => cases h
    | provisional u => exact ⟨id, List.mem_cons_self, ha.trans h⟩
    | candidates ts =>
      obtain ⟨b, hb, h⟩ := map_eq_ok.mp h
      cases b with
      | wait => cases h
      | candidates us => cases h
      | provisional u =>
        obtain ⟨i, hi, hanswer⟩ := ih (hb.trans (congrArg Except.ok h))
        exact ⟨i, List.mem_cons_of_mem id hi, hanswer⟩

/-- A provisional type is what one of the producers answers. -/
theorem exists_answer_of_verdict {known : Known} {v : OperandId} {t : Ty}
    (h : c.verdict known v = .ok (.provisional t)) :
    ∃ o, c.script.operand v = .ok o ∧ ∃ id ∈ o.ops, c.answer known id = .ok (.provisional t) := by
  rw [verdict, bind_eq_ok] at h
  obtain ⟨o, ho, h⟩ := h
  obtain ⟨a, ha, h⟩ := map_eq_ok.mp h
  cases a with
  | wait => cases h
  | candidates ts =>
    rw [Answer.verdict] at h
    split at h <;> cases h
  | provisional u =>
    obtain rfl := Verdict.provisional.inj h
    exact ⟨o, ho, exists_answer_of_gather ha⟩

/-- Only an operand with a phi among its producers gets a provisional type. -/
theorem isJoin_of_verdict {known : Known} {v : OperandId} {t : Ty}
    (h : c.verdict known v = .ok (.provisional t)) : c.script.isJoin v = true := by
  obtain ⟨o, ho, id, hid, ha⟩ := exists_answer_of_verdict h
  rw [Script.isJoin, ho]
  exact List.any_eq_true.mpr ⟨id, hid, isPhi_of_answer ha⟩

/-! ### The invariant -/

/-- Seeds stay as they are, and an open operand has a type only if it is a join. -/
structure Coherent (c : Context) (b : Board) : Prop where
  nodup : b.2.Nodup
  isOpen : ∀ v ∈ b.2, c.script.isOpen v = true
  seeds : ∀ v t, c.script.Seeds v t → b.1.find? v = some t
  entered : ∀ v t, b.1.find? v = some t → c.script.Seeds v t ∨ c.script.isOpen v = true
  closed : ∀ v, c.script.isOpen v = true → v ∉ b.2 → ∃ t, b.1.find? v = some t
  isJoin : ∀ v ∈ b.2, ∀ t, b.1.find? v = some t → c.script.isJoin v = true

/-- The type of a closed operand is not rewritten by a visit to an open one. -/
theorem find?_insert_of_mem {types : Table OperandId Ty} {pending : List OperandId}
    {u v : OperandId} {a t : Ty} (hv : v ∈ pending) (hu : u ∉ pending)
    (h : types.find? u = some a) : (types.insert v t).find? u = some a := by
  have hne : u ≠ v := fun he => hu (he ▸ hv)
  rw [Table.find?_insert, if_neg hne, h]

theorem Coherent.not_mem_of_seeds {b : Board} (hb : c.Coherent b) {v : OperandId} {t : Ty}
    (h : c.script.Seeds v t) : v ∉ b.2 := by
  intro hv
  have ho := hb.isOpen v hv
  rw [Script.not_isOpen_of_seeds h] at ho
  cases ho

/-- **What a visit preserves.** -/
theorem Coherent.visit {b b' : Board} (hb : c.Coherent b) (h : c.Visit b b') :
    c.Coherent b' := by
  cases h with
  | @provisional types pending v t hv e =>
    have ho := hb.isOpen v hv
    -- the same operands are open, and the one with a new entry is a join
    refine ⟨hb.nodup, hb.isOpen, fun u a hs => ?_, fun u a hu => ?_, fun u hu hm => ?_,
      fun u hu a ha => ?_⟩
    · exact find?_insert_of_mem hv (hb.not_mem_of_seeds hs) (hb.seeds u a hs)
    · rw [Table.find?_insert] at hu
      by_cases huv : u = v
      · exact .inr (huv ▸ ho)
      · rw [if_neg huv] at hu
        exact hb.entered u a hu
    · obtain ⟨a, ha⟩ := hb.closed u hu hm
      exact ⟨a, find?_insert_of_mem hv hm ha⟩
    · rw [Table.find?_insert] at ha
      by_cases huv : u = v
      · exact huv ▸ isJoin_of_verdict e
      · rw [if_neg huv] at ha
        exact hb.isJoin u hu a ha
  | @confirmed types pending v t hv e =>
    have ho := hb.isOpen v hv
    -- the one with a new entry is not open any more
    refine ⟨hb.nodup.erase v, fun u hu => hb.isOpen u (List.mem_of_mem_erase hu),
      fun u a hs => ?_, fun u a hu => ?_, fun u hu hm => ?_, fun u hu a ha => ?_⟩
    · exact find?_insert_of_mem hv (hb.not_mem_of_seeds hs) (hb.seeds u a hs)
    · rw [Table.find?_insert] at hu
      by_cases huv : u = v
      · exact .inr (huv ▸ ho)
      · rw [if_neg huv] at hu
        exact hb.entered u a hu
    · by_cases huv : u = v
      · exact ⟨t, by rw [Table.find?_insert, if_pos huv]⟩
      · have hm' : u ∉ pending := fun hp => hm ((List.mem_erase_of_ne huv).mpr hp)
        obtain ⟨a, ha⟩ := hb.closed u hu hm'
        exact ⟨a, find?_insert_of_mem hv hm' ha⟩
    · obtain ⟨huv, hu⟩ := hb.nodup.mem_erase_iff.mp hu
      rw [Table.find?_insert, if_neg huv] at ha
      exact hb.isJoin u hu a ha

theorem Coherent.visits {b b' : Board} (hb : c.Coherent b) (h : ReflTransGen c.Visit b b') :
    c.Coherent b' := by
  induction h with
  | refl => exact hb
  | tail _ hv ih => exact ih.visit hv

/-- The start of a run is coherent. -/
theorem coherent_seed {start : Progress} (h : seed c.script = .ok start) :
    c.Coherent start.board := by
  obtain ⟨-, hp, hk⟩ := seed_spec h
  have hmem : ∀ v, v ∈ start.pending ↔ c.script.isOpen v = true := by
    intro v
    rw [hp]
    exact Script.mem_openOperands
  refine ⟨?_, fun v hv => (hmem v).mp hv, fun v t hs => (hk v t).mpr hs,
    fun v t hv => .inl ((hk v t).mp hv), fun v hv hm => absurd ((hmem v).mpr hv) hm,
    fun v hv t ht => ?_⟩
  · show start.pending.Nodup
    rw [hp]
    exact List.nodup_range.filter _
  · have ho := (hmem v).mp hv
    rw [Script.not_isOpen_of_seeds ((hk v t).mp ht)] at ho
    cases ho

/-- An entry that a coherent board has is confirmed, or may still change. -/
theorem Coherent.confirmed_or {b : Board} (hb : c.Coherent b) {v : OperandId} {t : Ty}
    (h : b.1.find? v = some t) : b.confirmed v = some t ∨ c.Speculative v := by
  by_cases hv : v ∈ b.2
  · exact .inr ⟨hb.isOpen v hv, hb.isJoin v hv t h⟩
  · exact .inl (Board.confirmed_eq_some.mpr ⟨hv, h⟩)

/-- **Confirmed types are final.** -/
theorem confirmed_visit {b b' : Board} (hb : c.Coherent b) (h : c.Visit b b') {v : OperandId}
    {t : Ty} (hv : b.confirmed v = some t) : b'.confirmed v = some t := by
  obtain ⟨hm, ht⟩ := Board.confirmed_eq_some.mp hv
  cases h with
  | provisional hu => exact Board.confirmed_eq_some.mpr ⟨hm, find?_insert_of_mem hu hm ht⟩
  | confirmed hu =>
    exact Board.confirmed_eq_some.mpr
      ⟨fun hp => hm (List.mem_of_mem_erase hp), find?_insert_of_mem hu hm ht⟩

theorem confirmed_visits {b b' : Board} (hb : c.Coherent b) (h : ReflTransGen c.Visit b b')
    {v : OperandId} {t : Ty} (hv : b.confirmed v = some t) : b'.confirmed v = some t := by
  induction h with
  | refl => exact hv
  | tail hbs hs ih => exact confirmed_visit (hb.visits hbs) hs ih

end Context

/-- A fault of a run is one of its context, of its seeding, or of a verdict on an open
operand. -/
theorem fault_of_solution {s : Script} {signatures : Signatures} {options : Options} {f : Fault}
    (h : solution s signatures options = .error f) :
    setting s signatures options = .error f ∨
      ∃ c, setting s signatures options = .ok c ∧
        (seed c.script = .error f ∨
          ∃ start b v, seed c.script = .ok start ∧ ReflTransGen c.Visit start.board b ∧
            v ∈ b.2 ∧ c.verdict b.1.find? v = .error f) := by
  rw [solution_eq] at h
  rcases hc : setting s signatures options with f' | c
  · rw [hc] at h
    obtain rfl := Except.error.inj h
    exact .inl rfl
  refine .inr ⟨c, rfl, ?_⟩
  rcases hseed : seed c.script with f' | start
  · simp only [hc, hseed, bind, Except.bind] at h
    obtain rfl := Except.error.inj h
    exact .inl rfl
  rcases hiter : c.iterate (options.roundLimit c.script.operands.size) start with f' | last
  · simp only [hc, hseed, hiter, bind, Except.bind] at h
    obtain rfl := Except.error.inj h
    -- the rounds have a fault, so one of their verdicts has
    obtain ⟨b, hb, v, hv, hfault⟩ :=
      Context.exists_fault_of_iterate (Context.coherent_seed hseed).nodup hiter
    exact .inr ⟨start, b, v, rfl, hb, hv, hfault⟩
  · simp only [hc, hseed, hiter, bind, Except.bind] at h
    cases h

end SsaTypes.Inference
