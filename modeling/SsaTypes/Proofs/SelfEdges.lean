/-
SsaTypes/Proofs/SelfEdges.lean

A phi whose own operand is among its incoming values, and the same phi without
this self edge.  With it the phi has to wait for its own operand, too.  When the
other incoming values have the type `T`, and all of them become known, it says

    with the self edge       provisional `T`, then confirmed `T`,
    without the self edge    confirmed `T`

(`Pace`).  So the two runs go abreast: between two rounds they have entered the
same types, and are level, or the joined operand is still open in the run with
the self edge (`Abreast`).  A round may take them apart (`sweep_level`), and the
next one brings them level again (`sweep_ahead`).

This next round advances with the self edge, since it closes the joined operand.
Without the self edge it need not, and then the run stops where the other goes
on.  So the states in which the two stop are a number of further rounds apart
(`Abreast.leadsTo`), and `infer_withoutSelfEdge` says what follows for the
results.
-/
import SsaTypes.Proofs.Incoming
import SsaTypes.Proofs.Limits
import SsaTypes.Proofs.SameOperations
import SsaTypes.Proofs.Stall

namespace SsaTypes

/-- Candidates that are all one known type give that type. -/
theorem Ty.merge?_of_forall_eq {ts : List Ty} {T : Ty} (hT : T.isUnknown = false) (hne : ts ≠ [])
    (h : ∀ t ∈ ts, t = T) : Ty.merge? ts = some T := by
  rcases ts with - | ⟨t, - | ⟨u, ts⟩⟩
  · exact absurd rfl hne
  · rw [h t List.mem_cons_self]
    rfl
  · have hknown : (t :: u :: ts).any Ty.isUnknown = false :=
      List.any_eq_false.mpr fun x hx => by simp [h x hx, hT]
    have hsame : ∀ x ∈ t :: u :: ts, Ty.same x t = true := by
      intro x hx
      rw [h x hx, h t List.mem_cons_self]
      exact Ty.same_refl T
    rw [Ty.merge?_cons_cons, hknown, if_neg Bool.false_ne_true, if_pos hsame,
      h t List.mem_cons_self]

namespace Inference

/-! ### The phi with its self edge and without -/

section Phi

variable {known : Known} {vars : List OperandId} {v : OperandId} {T : Ty}

theorem phi_of_forall_none (h : ∀ w ∈ vars, known w = none) : phi known vars = .wait := by
  have hnil : vars.filterMap known = [] := List.filterMap_eq_nil_iff.mpr h
  rw [phi, hnil]
  rfl

/-- A phi of which the incoming values that are known have one type. -/
theorem phi_of_agree (hT : T.isUnknown = false) (h : ∀ w ∈ vars, ∀ t, known w = some t → t = T)
    (hsome : ∃ w ∈ vars, ∃ t, known w = some t) :
    phi known vars =
      if vars.all fun w => (known w).isSome then .candidates [T] else .provisional T := by
  have hmerge : Ty.merge? (vars.filterMap known) = some T := by
    refine Ty.merge?_of_forall_eq hT ?_ fun t ht => ?_
    · obtain ⟨w, hw, t, ht⟩ := hsome
      exact List.ne_nil_of_mem (List.mem_filterMap.mpr ⟨w, hw, ht⟩)
    · obtain ⟨w, hw, ht⟩ := List.mem_filterMap.mp ht
      exact h w hw t ht
  rw [phi, hmerge]

/-- The other incoming values that are known have this type. -/
def Agree (vars : List OperandId) (v : OperandId) (T : Ty) (known : Known) : Prop :=
  ∀ w ∈ vars, w ≠ v → ∀ t, known w = some t → t = T

/-- One of the other incoming values is known. -/
def Fed (vars : List OperandId) (v : OperandId) (known : Known) : Prop :=
  ∃ w ∈ vars, w ≠ v ∧ ∃ t, known w = some t

/-- If the operand has a type, that type comes from another incoming value. -/
def Backed (vars : List OperandId) (v : OperandId) (T : Ty) (known : Known) : Prop :=
  ∀ t, known v = some t → t = T ∧ Fed vars v known

/-- The operand and all its incoming values are known. -/
structure Full (vars : List OperandId) (v : OperandId) (T : Ty) (known : Known) : Prop where
  self : known v = some T
  others : ∀ w ∈ vars, w ≠ v → ∃ t, known w = some t
  fed : Fed vars v known

/-- What the phi says with its self edge and without.  It may happen that it confirms its
operand without the self edge only, because the operand itself is not known yet. -/
inductive Pace (vars : List OperandId) (v : OperandId) (T : Ty) (known : Known) :
    Verdict → Verdict → Prop
  | wait : Pace vars v T known .wait .wait
  | provisional : Fed vars v known → Pace vars v T known (.provisional T) (.provisional T)
  | confirmed : Fed vars v known → Pace vars v T known (.confirmed T) (.confirmed T)
  | ahead : Fed vars v known → known v = none → (∀ w ∈ vars, w ≠ v → ∃ t, known w = some t) →
      Pace vars v T known (.provisional T) (.confirmed T)

theorem mem_others {w : OperandId} : w ∈ vars.filter (· ≠ v) ↔ w ∈ vars ∧ w ≠ v := by
  rw [List.mem_filter, decide_eq_true_iff]

theorem pace_phi (hT : T.isUnknown = false) (ha : Agree vars v T known)
    (hb : Backed vars v T known) :
    Pace vars v T known (phi known vars).verdict (phi known (vars.filter (· ≠ v))).verdict := by
  by_cases hfed : Fed vars v known
  · obtain ⟨w, hw, hwv, t, ht⟩ := id hfed
    have hall : ∀ u ∈ vars, ∀ t, known u = some t → t = T := by
      intro u hu t ht
      by_cases huv : u = v
      · exact (hb t (huv ▸ ht)).1
      · exact ha u hu huv t ht
    rw [phi_of_agree hT hall ⟨w, hw, t, ht⟩,
      phi_of_agree hT (fun u hu => hall u (mem_others.mp hu).1)
        ⟨w, mem_others.mpr ⟨hw, hwv⟩, t, ht⟩]
    -- whether all incoming values are known, with the self edge and without
    cases hself : vars.all fun u => (known u).isSome with
    | true =>
      have hothers : ((vars.filter (· ≠ v)).all fun u => (known u).isSome) = true :=
        List.all_eq_true.mpr fun u hu => List.all_eq_true.mp hself u (mem_others.mp hu).1
      rw [hothers]
      exact .confirmed hfed
    | false =>
      cases hothers : (vars.filter (· ≠ v)).all fun u => (known u).isSome with
      | false => exact .provisional hfed
      | true =>
        have hknown : ∀ u ∈ vars, u ≠ v → ∃ t, known u = some t := fun u hu huv =>
          Option.isSome_iff_exists.mp (List.all_eq_true.mp hothers u (mem_others.mpr ⟨hu, huv⟩))
        obtain ⟨u, hu, hnone⟩ := List.all_eq_false.mp hself
        rw [Bool.not_eq_true, Option.isSome_eq_false_iff, Option.isNone_iff_eq_none] at hnone
        -- the only incoming value that is missing is the operand itself
        have huv : u = v := by
          by_contra huv
          obtain ⟨t, ht⟩ := hknown u hu huv
          rw [hnone] at ht
          cases ht
        exact .ahead hfed (huv ▸ hnone) hknown
  · -- no incoming value is known, so neither is the operand
    have hnone : ∀ u ∈ vars, known u = none := by
      intro u hu
      rcases e : known u with - | t
      · rfl
      · by_cases huv : u = v
        · exact absurd (hb t (huv ▸ e)).2 hfed
        · exact absurd ⟨u, hu, huv, t, e⟩ hfed
    rw [phi_of_forall_none hnone, phi_of_forall_none fun u hu => hnone u (mem_others.mp hu).1]
    exact .wait

/-- Once all are known, the phi confirms the type of its operand. -/
theorem phi_of_full (hT : T.isUnknown = false) (ha : Agree vars v T known)
    (hf : Full vars v T known) : (phi known vars).verdict = .confirmed T := by
  have hknown : ∀ u ∈ vars, ∃ t, known u = some t ∧ t = T := by
    intro u hu
    by_cases huv : u = v
    · exact ⟨T, huv ▸ hf.self, rfl⟩
    · obtain ⟨t, ht⟩ := hf.others u hu huv
      exact ⟨t, ht, ha u hu huv t ht⟩
  obtain ⟨w, hw, -, t, ht⟩ := hf.fed
  have hall : (vars.all fun u => (known u).isSome) = true :=
    List.all_eq_true.mpr fun u hu => by
      obtain ⟨t, ht, -⟩ := hknown u hu
      rw [ht]
      rfl
  rw [phi_of_agree hT (fun u hu t ht => ?_) ⟨w, hw, t, ht⟩, hall]
  · rfl
  · obtain ⟨t', ht', rfl⟩ := hknown u hu
    rw [ht] at ht'
    exact Option.some.inj ht'

end Phi

/-! ### Types entered elsewhere -/

section Entries

variable {types : Table OperandId Ty} {vars : List OperandId} {u v : OperandId} {t T : Ty}

theorem find?_insert_of_ne (hu : u ≠ v) : (types.insert u t).find? v = types.find? v := by
  rw [Table.find?_insert, if_neg (Ne.symm hu)]

/-- Entries are replaced, not removed. -/
theorem exists_find?_insert {w : OperandId} (h : ∃ a, types.find? w = some a) :
    ∃ a, (types.insert u t).find? w = some a := by
  rw [Table.find?_insert]
  split
  · exact ⟨t, rfl⟩
  · exact h

theorem Fed.insert (h : Fed vars v types.find?) : Fed vars v (types.insert u t).find? := by
  obtain ⟨w, hw, hwv, ht⟩ := h
  exact ⟨w, hw, hwv, exists_find?_insert ht⟩

theorem Backed.insert (h : Backed vars v T types.find?) (hu : u ≠ v) :
    Backed vars v T (types.insert u t).find? := by
  intro a ha
  rw [find?_insert_of_ne hu] at ha
  exact ⟨(h a ha).1, (h a ha).2.insert⟩

/-- The type that the phi enters comes from another incoming value. -/
theorem Fed.backed_insert (h : Fed vars v types.find?) :
    Backed vars v T (types.insert v T).find? := by
  intro a ha
  rw [Table.find?_insert, if_pos rfl] at ha
  exact ⟨(Option.some.inj ha).symm, h.insert⟩

theorem Full.insert (h : Full vars v T types.find?) (hu : u ≠ v) :
    Full vars v T (types.insert u t).find? where
  self := by rw [find?_insert_of_ne hu, h.self]
  others w hw hwv := exists_find?_insert (h.others w hw hwv)
  fed := h.fed.insert

theorem Fed.full_insert (h : Fed vars v types.find?)
    (hothers : ∀ w ∈ vars, w ≠ v → ∃ a, types.find? w = some a) :
    Full vars v T (types.insert v T).find? where
  self := by rw [Table.find?_insert, if_pos rfl]
  others w hw hwv := exists_find?_insert (hothers w hw hwv)
  fed := h.insert

theorem Agree.insert (h : Agree vars v T types.find?) (hu : u ∈ vars → u ≠ v → t = T) :
    Agree vars v T (types.insert u t).find? := by
  intro w hw hwv a ha
  rw [Table.find?_insert] at ha
  split at ha
  · next hwu =>
    obtain rfl := Option.some.inj ha
    exact hu (hwu ▸ hw) (hwu ▸ hwv)
  · exact h w hw hwv a ha

end Entries

open Context

/-! ### Sweeps -/

section Sweeps

variable {c : Context} {types types' : Table OperandId Ty} {u v : OperandId}
  {us vs vars rest : List OperandId} {id : OpId} {t T : Ty}

theorem Backed.sweep (h : Backed vars v T types.find?) (hv : v ∉ us)
    (hs : c.sweep types us = .ok (types', rest)) : Backed vars v T types'.find? :=
  sweep_induction (P := fun types => Backed vars v T types.find?)
    (fun hne hb => hb.insert hne) hv hs h

theorem Full.sweep (h : Full vars v T types.find?) (hv : v ∉ us)
    (hs : c.sweep types us = .ok (types', rest)) : Full vars v T types'.find? :=
  sweep_induction (P := fun types => Full vars v T types.find?)
    (fun hne hf => hf.insert hne) hv hs h

/-- A sweep that does not come to the joined operand does not read its phi. -/
theorem sweep_withoutIncoming (hj : c.script.Joins v id vars) (hv : v ∉ us) :
    (c.withoutIncoming id v).sweep types us = c.sweep types us := by
  induction us generalizing types with
  | nil => rfl
  | cons u us ih =>
    obtain ⟨hne, hv⟩ := List.ne_and_not_mem_of_not_mem_cons hv
    simp only [sweep, verdict_withoutIncoming _ hj (Ne.symm hne), ih hv]

/-- The verdicts on the joined operand. -/
theorem exists_pace (hj : c.script.Joins v id vars) (hT : T.isUnknown = false)
    (ha : Agree vars v T types.find?) (hb : Backed vars v T types.find?) :
    ∃ x y, c.verdict types.find? v = .ok x ∧
      (c.withoutIncoming id v).verdict types.find? v = .ok y ∧
      Pace vars v T types.find? x y :=
  ⟨_, _, verdict_of_joins _ hj, verdict_of_joins _ hj.withoutIncoming, pace_phi hT ha hb⟩

/-- The visit to another operand is the same in both runs. -/
theorem sweep_cons_other (hj : c.script.Joins v id vars) (huv : u ≠ v)
    (h : c.sweep types (u :: us) = .ok (types', rest)) :
    ∃ next left r, (next = types ∨ ∃ t, next = types.insert u t) ∧ v ∉ left ∧ rest = left ++ r ∧
      c.sweep next us = .ok (types', r) ∧
      ∀ us' r', (c.withoutIncoming id v).sweep next us' = .ok (types', r') →
        (c.withoutIncoming id v).sweep types (u :: us') = .ok (types', left ++ r') := by
  have hverdict := verdict_withoutIncoming types.find? hj huv
  have hleft : v ∉ [u] := fun hv => huv (List.mem_singleton.mp hv).symm
  rcases sweep_cons h with ⟨e, r, rfl, hs⟩ | ⟨t, e, r, rfl, hs⟩ | ⟨t, e, hs⟩
  · exact ⟨types, [u], r, .inl rfl, hleft, rfl, hs, fun us' r' => sweep_of_wait (hverdict.trans e)⟩
  · exact ⟨_, [u], r, .inr ⟨t, rfl⟩, hleft, rfl, hs,
      fun us' r' => sweep_of_provisional (hverdict.trans e)⟩
  · exact ⟨_, [], rest, .inr ⟨t, rfl⟩, List.not_mem_nil, rfl, hs,
      fun us' r' => sweep_of_confirmed (hverdict.trans e)⟩

/-- What is entered for another incoming value stays to the end of the sweep. -/
theorem Agree.visit {next : Table OperandId Ty} (ha : Agree vars v T types.find?)
    (ha' : Agree vars v T types'.find?) (hnext : next = types ∨ ∃ t, next = types.insert u t)
    (hu : u ∉ us) (hs : c.sweep next us = .ok (types', rest)) : Agree vars v T next.find? := by
  rcases hnext with rfl | ⟨t, rfl⟩
  · exact ha
  · refine ha.insert fun hmem hne => ha' u hmem hne t ?_
    rw [sweep_find?_of_not_mem hs hu, Table.find?_insert, if_pos rfl]

/-- **A sweep in both runs.**  They enter the same types, and leave the same operands open
or differ in the joined one, which only the run without the self edge has closed. -/
theorem sweep_level (hj : c.script.Joins v id vars) (hT : T.isUnknown = false) (hn : vs.Nodup)
    (h : c.sweep types vs = .ok (types', rest)) (hv : v ∈ vs)
    (ha : Agree vars v T types.find?) (ha' : Agree vars v T types'.find?)
    (hb : Backed vars v T types.find?) :
    ((c.withoutIncoming id v).sweep types vs = .ok (types', rest) ∧
      Backed vars v T types'.find?) ∨
    (types.find? v = none ∧ v ∈ rest ∧ Full vars v T types'.find? ∧
      (c.withoutIncoming id v).sweep types vs = .ok (types', rest.erase v)) := by
  induction vs generalizing types rest with
  | nil => cases hv
  | cons u vs ih =>
    obtain ⟨hu, hn⟩ := List.nodup_cons.mp hn
    by_cases huv : u = v
    · subst huv
      have htail : ∀ {types}, (c.withoutIncoming id u).sweep types vs = c.sweep types vs :=
        sweep_withoutIncoming hj hu
      obtain ⟨x, y, hx, hy, hp⟩ := exists_pace hj hT ha hb
      rcases sweep_cons h with ⟨e, r, rfl, hs⟩ | ⟨t, e, r, rfl, hs⟩ | ⟨t, e, hs⟩
      · obtain rfl := Except.ok.inj (hx.symm.trans e)
        cases hp with
        | wait => exact .inl ⟨sweep_of_wait hy (htail.trans hs), hb.sweep hu hs⟩
      · obtain rfl := Except.ok.inj (hx.symm.trans e)
        cases hp with
        | provisional hf =>
          exact .inl ⟨sweep_of_provisional hy (htail.trans hs), hf.backed_insert.sweep hu hs⟩
        | ahead hf hnone hothers =>
          refine .inr ⟨hnone, List.mem_cons_self, (hf.full_insert hothers).sweep hu hs, ?_⟩
          rw [List.erase_cons_head]
          exact sweep_of_confirmed hy (htail.trans hs)
      · obtain rfl := Except.ok.inj (hx.symm.trans e)
        cases hp with
        | confirmed hf =>
          exact .inl ⟨sweep_of_confirmed hy (htail.trans hs), hf.backed_insert.sweep hu hs⟩
    · have hv : v ∈ vs := (List.mem_cons.mp hv).resolve_left (Ne.symm huv)
      obtain ⟨next, left, r, hnext, hleft, rfl, hs, hback⟩ := sweep_cons_other hj huv h
      have hb' : Backed vars v T next.find? := by
        rcases hnext with rfl | ⟨t, rfl⟩
        · exact hb
        · exact hb.insert huv
      rcases ih hn hs hv (ha.visit ha' hnext hu hs) hb' with
        ⟨h', hb'⟩ | ⟨hnone, hmem, hfull, h'⟩
      · exact .inl ⟨hback vs r h', hb'⟩
      · refine .inr ⟨?_, List.mem_append_right left hmem, hfull, ?_⟩
        · rcases hnext with rfl | ⟨t, rfl⟩
          · exact hnone
          · rwa [find?_insert_of_ne huv] at hnone
        · rw [List.erase_append_right _ hleft]
          exact hback vs _ h'

/-- **The run with the self edge catches up.**  Once all incoming values are known, a sweep
closes the joined operand with the type that it has already. -/
theorem sweep_ahead (hj : c.script.Joins v id vars) (hT : T.isUnknown = false) (hn : vs.Nodup)
    (h : c.sweep types vs = .ok (types', rest)) (hv : v ∈ vs)
    (ha : Agree vars v T types.find?) (ha' : Agree vars v T types'.find?)
    (hf : Full vars v T types.find?) :
    (c.withoutIncoming id v).sweep types (vs.erase v) = .ok (types', rest) ∧ v ∉ rest := by
  induction vs generalizing types rest with
  | nil => cases hv
  | cons u vs ih =>
    obtain ⟨hu, hn⟩ := List.nodup_cons.mp hn
    by_cases huv : u = v
    · subst huv
      have hverdict : c.verdict types.find? u = .ok (.confirmed T) := by
        rw [verdict_of_joins _ hj, phi_of_full hT ha hf]
      rw [sweep, hverdict] at h
      have hs : c.sweep types vs = .ok (types', rest) := by
        rw [← Table.insert_of_find? hf.self]
        exact h
      rw [List.erase_cons_head, sweep_withoutIncoming hj hu]
      exact ⟨hs, fun hrest => hu ((sweep_sublist hs).subset hrest)⟩
    · have hv : v ∈ vs := (List.mem_cons.mp hv).resolve_left (Ne.symm huv)
      obtain ⟨next, left, r, hnext, hleft, rfl, hs, hback⟩ := sweep_cons_other hj huv h
      have hf' : Full vars v T next.find? := by
        rcases hnext with rfl | ⟨t, rfl⟩
        · exact hf
        · exact hf.insert huv
      obtain ⟨h', hr⟩ := ih hn hs hv (ha.visit ha' hnext hu hs) hf'
      refine ⟨?_, fun hmem => (List.mem_append.mp hmem).elim hleft hr⟩
      rw [List.erase_cons_tail (by simpa using huv)]
      exact hback _ _ h'

end Sweeps

/-! ### Rounds -/

/-- How the two runs stand to each other between two rounds.  The first is the run with the
self edge: it is level with the other, or has still to close the joined operand, for which it
has the type already. -/
inductive Abreast (vars : List OperandId) (v : OperandId) (T : Ty) : Progress → Progress → Prop
  | level {p : Progress} : (v ∈ p.pending → Backed vars v T p.known) → Abreast vars v T p p
  | ahead {p : Progress} : v ∈ p.pending → Full vars v T p.known →
      Abreast vars v T p { p with pending := p.pending.erase v }

section Rounds

variable {c : Context} {p p' q q' last : Progress} {v : OperandId} {vars : List OperandId}
  {id : OpId} {T : Ty}

/-- Only an open operand can be ahead. -/
theorem Abreast.eq_of_not_mem (h : Abreast vars v T p p') (hv : v ∉ p.pending) : p' = p := by
  cases h with
  | level => rfl
  | ahead hmem => exact absurd hmem hv

/-- **What a round preserves.**  Before and after a round that does not advance, the runs are
level. -/
theorem Abreast.round (h : Abreast vars v T p p') (hj : c.script.Joins v id vars)
    (hT : T.isUnknown = false) (hn : p.pending.Nodup) (hr : c.round p = .ok q)
    (ha : v ∈ p.pending → Agree vars v T p.known ∧ Agree vars v T q.known) :
    ∃ q', (c.withoutIncoming id v).round p' = .ok q' ∧ Abreast vars v T q q' ∧
      (¬ advanced p q = true → p' = p ∧ q' = q) := by
  obtain ⟨hs, hrounds⟩ := round_eq_ok.mp hr
  cases h with
  | level hb =>
    by_cases hv : v ∈ p.pending
    · rcases sweep_level hj hT hn hs hv (ha hv).1 (ha hv).2 (hb hv) with
        ⟨hs', hb'⟩ | ⟨hnone, hmem, hfull, hs'⟩
      · exact ⟨q, round_eq_ok.mpr ⟨hs', hrounds⟩, .level fun _ => hb', fun _ => ⟨rfl, rfl⟩⟩
      · refine ⟨{ q with pending := q.pending.erase v }, round_eq_ok.mpr ⟨hs', hrounds⟩,
          .ahead hmem hfull, fun hstay => ?_⟩
        -- the joined operand has got its first type
        have hself : q.known v = some T := hfull.self
        rw [((of_not_advanced hn hr hstay).2 v).mpr hnone] at hself
        cases hself
    · refine ⟨q, round_eq_ok.mpr ⟨?_, hrounds⟩, .level fun hmem => ?_, fun _ => ⟨rfl, rfl⟩⟩
      · rw [sweep_withoutIncoming hj hv, hs]
      · exact absurd ((sweep_sublist hs).subset hmem) hv
  | ahead hv hf =>
    obtain ⟨hs', hclosed⟩ := sweep_ahead hj hT hn hs hv (ha hv).1 (ha hv).2 hf
    refine ⟨q, round_eq_ok.mpr ⟨hs', hrounds⟩, .level fun hmem => absurd hmem hclosed,
      fun hstay => ?_⟩
    -- the joined operand has been closed
    rw [(of_not_advanced hn hr hstay).1] at hclosed
    exact absurd hv hclosed

/-- The run has no fault, and further rounds lead from where it stops to this state. -/
def LeadsTo (c : Context) (k : Nat) (p last : Progress) : Prop :=
  ∃ stop m, c.iterate k p = .ok stop ∧ c.furtherRounds m stop = .ok last

/-- A run stops before its first round, or after it, or goes on. -/
theorem LeadsTo.of_round {k : Nat} (hr : c.round p = .ok q) (h : LeadsTo c k q last) :
    LeadsTo c (k + 1) p last := by
  obtain ⟨stop, m, hit, hm⟩ := h
  by_cases hp : p.pending.isEmpty = true
  · obtain ⟨j, hj⟩ := exists_furtherRounds hit
    exact ⟨p, 1 + j + m, iterate_of_isEmpty hp _,
      furtherRounds_add (furtherRounds_add (furtherRounds_one hr) hj) hm⟩
  · by_cases ha : advanced p q = true
    · exact ⟨stop, m, by rw [Advances.iterate ⟨hp, hr, ha⟩, hit], hm⟩
    · obtain ⟨j, hj⟩ := exists_furtherRounds hit
      exact ⟨q, j + m, iterate_of_stops hp hr ha k, furtherRounds_add hj hm⟩

/-- The runs stop together where no operand is open. -/
theorem Abreast.leadsTo_of_isEmpty (h : Abreast vars v T p p') (hp : p.pending.isEmpty = true)
    (k : Nat) : LeadsTo (c.withoutIncoming id v) k p' p := by
  obtain rfl := h.eq_of_not_mem (by rw [List.isEmpty_iff.mp hp]; exact List.not_mem_nil)
  exact ⟨p', 0, iterate_of_isEmpty hp k, rfl⟩

/-- **What a whole run preserves.**  The run without the self edge stops no later than the
other, and further rounds lead from where it stops to where the other does. -/
theorem Abreast.leadsTo {k : Nat} (h : Abreast vars v T p p') (hj : c.script.Joins v id vars)
    (hT : T.isUnknown = false) (hn : p.pending.Nodup) (hk : c.potential p.board ≤ k)
    (hlast : c.iterate k p = .ok last)
    (ha : ∀ n a b, p.rounds + n < last.rounds → c.iterate n p = .ok a →
      c.iterate (n + 1) p = .ok b → v ∈ a.pending →
      Agree vars v T a.known ∧ Agree vars v T b.known) :
    LeadsTo (c.withoutIncoming id v) k p' last := by
  induction k generalizing p p' with
  | zero =>
    have hlen : p.pending.length ≤ c.potential p.board := Nat.le_add_right _ _
    obtain rfl := Except.ok.inj hlast
    exact h.leadsTo_of_isEmpty (List.isEmpty_iff_length_eq_zero.mpr (by omega)) 0
  | succ k ih =>
    by_cases hp : p.pending.isEmpty = true
    · rw [iterate_of_isEmpty hp] at hlast
      obtain rfl := Except.ok.inj hlast
      exact h.leadsTo_of_isEmpty hp _
    · rw [Context.iterate, if_neg hp, bind_eq_ok] at hlast
      obtain ⟨q, hr, hlast⟩ := hlast
      have hsucc := (round_eq_ok.mp hr).2
      have hone : c.iterate 1 p = .ok q := by
        rw [Context.iterate, if_neg hp, hr]
        exact ite_self _
      split at hlast
      · next hadv =>
        have hq : c.Advances p q := ⟨hp, hr, hadv⟩
        have hle := rounds_le_iterate hlast
        have hlt := hq.potential_lt hn
        obtain ⟨q', hr', habreast, -⟩ := h.round hj hT hn hr (ha 0 p q (by omega) rfl hone)
        refine .of_round hr' (ih habreast (nodup_of_visits (round_visits hn hr) hn) (by omega) hlast
          fun n a b hrounds hita hitb => ?_)
        rw [← hq.iterate] at hita hitb
        exact ha (n + 1) a b (by omega) hita hitb
      · next hadv =>
        obtain rfl := Except.ok.inj hlast
        obtain ⟨q', hr', -, hstay⟩ := h.round hj hT hn hr (ha 0 p q (by omega) rfl hone)
        obtain ⟨rfl, rfl⟩ := hstay hadv
        exact ⟨q', 0, iterate_of_stops hp hr' hadv k, rfl⟩

end Rounds

/-! ### Whole runs -/

/-- Further rounds would close no operand. -/
def Context.Settled (c : Context) (p : Progress) : Prop :=
  ∀ m r, c.furtherRounds m p = .ok r → r.pending = p.pending

variable {s : Script} {signatures : Signatures} {o : Options}

/-- If the operand is open at the start of this round, the other incoming values that are
known have one type at its start and at its end. -/
def AgreeInRound (s : Script) (signatures : Signatures) (o : Options) (vars : List OperandId)
    (v : OperandId) (T : Ty) (n : Nat) : Prop :=
  ∀ c c' p q, solution s signatures (o.withMaxRounds n) = .ok (c, p) →
    solution s signatures (o.withMaxRounds (n + 1)) = .ok (c', q) → v ∈ p.pending →
    Agree vars v T p.known ∧ Agree vars v T q.known

/-- Under a limit that binds neither run, the run without the self edge leads to where the
other stops. -/
theorem solution_leadsTo {id : OpId} {v : OperandId} {vars : List OperandId} {T : Ty} {k : Nat}
    {c : Context} {last : Progress} (hjoins : s.Joins v id vars) (hT : T.isUnknown = false)
    (hk : s.roundBound ≤ k) (hsol : solution s signatures (o.withMaxRounds k) = .ok (c, last))
    (hagree : ∀ n < last.rounds, AgreeInRound s signatures o vars v T n) :
    ∃ last' m, solution (s.withoutIncoming id v) signatures (o.withMaxRounds k) =
        .ok (c.withoutIncoming id v, last') ∧
      (c.withoutIncoming id v).furtherRounds m last' = .ok last := by
  obtain ⟨start, hseed, hiter, hlimits⟩ := solution_limit hsol
  obtain ⟨hoperands, hops⟩ := operands_of_seedProperties (solution_eq_ok.mp hsol).1
  have hstart := coherent_seed (c := c) hseed
  have hzero : start.rounds = 0 := (seed_spec hseed).1
  have hpotential : c.potential start.board ≤ k := by
    rw [potential_seed hseed, roundBound_congr hoperands hops]
    exact hk
  -- at the start no open operand has a type
  have hlevel : Abreast vars v T start start := .level fun hv t ht => by
    have hopen := hstart.isOpen v hv
    rw [Script.not_isOpen_of_seeds (((seed_spec hseed).2.2 v t).mp ht)] at hopen
    cases hopen
  obtain ⟨last', m, hlast', hm⟩ := hlevel.leadsTo (hjoins.congr hoperands hops) hT
    hstart.nodup hpotential hiter fun n a b hn ha hb hv =>
      hagree n (by omega) _ _ a b (hlimits n a ha) (hlimits (n + 1) b hb) hv
  exact ⟨last', m, solution_withoutIncoming hsol hseed hlast', hm⟩

theorem writeBack_congr {p q : Progress} (h : ∀ u, p.final u = q.final u) :
    writeBack s p = writeBack s q := by
  rw [writeBack, writeBack, funext h]

/-- Two states with the same open operands and the same final types make the same report,
but for the rounds. -/
theorem report_congr {p q : Progress} (h : p.pending = q.pending) (n : Nat) :
    p.report n = { q.report n with rounds := p.rounds } := by
  rw [Progress.report, Progress.report, h]

/-- Where no operand is open, none is closed by further rounds. -/
theorem Context.settled_of_pending_eq_nil {c : Context} {p : Progress} (h : p.pending = []) :
    c.Settled p := by
  intro m r hr
  have hfixed : c.sweep p.types p.pending = .ok (p.types, p.pending) := by
    rw [h]
    rfl
  rw [furtherRounds_of_fixed hfixed m] at hr
  obtain rfl := Except.ok.inj hr
  rfl

/-- **What a self edge costs.**  Suppose that the phi produces no other operand, and that
the other incoming values have one known type as long as the operand is open.  Then the run
without the self edge has no fault either and no more rounds, and further rounds lead from
where it stops to where the other does.  If they have equally many rounds, or the run
without the self edge has stopped for good, everything but the rounds is the same. -/
theorem infer_withoutSelfEdge {id : OpId} {v : OperandId} {vars : List OperandId} {T : Ty}
    {k k' : Nat} {c : Context} {last : Progress} (hjoins : s.Joins v id vars)
    (hT : T.isUnknown = false) (hk : AmpleLimit s signatures o k)
    (hk' : AmpleLimit (s.withoutIncoming id v) signatures o k')
    (hsol : solution s signatures (o.withMaxRounds k) = .ok (c, last))
    (hagree : ∀ n < last.rounds, AgreeInRound s signatures o vars v T n) :
    ∃ c' last',
      solution (s.withoutIncoming id v) signatures (o.withMaxRounds k') = .ok (c', last') ∧
      (∃ m, c'.furtherRounds m last' = .ok last ∧ last.rounds = last'.rounds + m) ∧
      (last'.rounds = last.rounds ∨ c'.Settled last' →
        last'.pending = last.pending ∧
        ∃ s₁ out, infer s signatures (o.withMaxRounds k) = (s₁, .ok out) ∧
          infer (s.withoutIncoming id v) signatures (o.withMaxRounds k') =
            (s₁.withoutIncoming id v,
              .ok { out with report := { out.report with rounds := last'.rounds } })) := by
  -- one limit that binds neither run
  obtain ⟨K, hkK, hk'K, hbound⟩ : ∃ K, k ≤ K ∧ k' ≤ K ∧ s.roundBound ≤ K :=
    ⟨max k (max k' s.roundBound), by omega, by omega, by omega⟩
  obtain ⟨cK, hsolK⟩ := (hk.solution_eq_ok hkK).mpr ⟨c, hsol⟩
  obtain ⟨last', m, hsolK', hm⟩ := solution_leadsTo hjoins hT hbound hsolK hagree
  obtain ⟨c', hsol'⟩ := (hk'.solution_eq_ok hk'K).mp ⟨_, hsolK'⟩
  obtain rfl := context_limited hsolK hsol
  obtain rfl := context_limited hsolK' hsol'
  refine ⟨_, last', hsol', ⟨m, ?_, rounds_furtherRounds hm⟩, fun hend => ?_⟩
  · rw [furtherRounds_limited, hm]
  · have hpending : last.pending = last'.pending := by
      rcases hend with hrounds | hsettled
      · have hadd := rounds_furtherRounds hm
        obtain rfl : m = 0 := by omega
        rw [Except.ok.inj hm]
      · exact hsettled m last (by rw [furtherRounds_limited, hm])
    refine ⟨hpending.symm, _, _, infer_eq_ok.mpr ⟨_, _, hsol, rfl, rfl⟩, ?_⟩
    rw [infer_eq_ok]
    refine ⟨_, last', hsol', ?_, ?_⟩
    · rw [writeBack_congr (final_furtherRounds hm hpending), ← writeBack_withoutIncoming]
      rfl
    · rw [report_congr hpending.symm]
      rfl

/-- Incoming values with the same seed agree in every round. -/
theorem agreeInRound_of_seeds {vars : List OperandId} {v : OperandId} {T : Ty}
    (h : ∀ w ∈ vars, w ≠ v → s.Seeds w T) (n : Nat) :
    AgreeInRound s signatures o vars v T n := by
  intro c c' p q hp hq _
  refine ⟨fun w hw hwv t ht => ?_, fun w hw hwv t ht => ?_⟩
  · rw [known_of_seeds hp (h w hw hwv)] at ht
    exact (Option.some.inj ht).symm
  · rw [known_of_seeds hq (h w hw hwv)] at ht
    exact (Option.some.inj ht).symm

/-- A script with a value that a loop keeps, and a copy of it. -/
def keptValue : Script where
  operands := #[
    { kind := .variable (some "kept"), ops := [0] },
    { kind := .literal (.int 0) },
    { kind := .literal (.int 1) },
    { kind := .variable (some "copy"), ops := [1] }]
  ops := #[
    .phi [0, 1, 2],
    .assign 3 0]

/-- The self edge of `keptValue` costs a round and changes nothing else. -/
theorem infer_withoutSelfEdge_keptValue :
    ∃ s₁ out, infer keptValue {} (Options.withMaxRounds {} 10) = (s₁, .ok out) ∧
      out.report.rounds = 2 ∧
      infer (keptValue.withoutIncoming 0 0) {} (Options.withMaxRounds {} 10) =
        (s₁.withoutIncoming 0 0,
          .ok { out with report := { out.report with rounds := 1 } }) := by
  have hjoins : keptValue.Joins 0 0 [0, 1, 2] := by
    refine ⟨⟨_, rfl, rfl⟩, rfl, fun u x hx hid => ?_⟩
    have hall : ∀ i, (hi : i < 4) → 0 ∈ keptValue.operands[i].ops → i = 0 := by decide
    obtain ⟨hu, rfl⟩ := Array.getElem?_eq_some_iff.mp (Script.operand_eq_ok.mp hx)
    exact hall u hu hid
  have hseeds : ∀ w ∈ [0, 1, 2], w ≠ 0 → keptValue.Seeds w .int := by
    intro w hw hne
    rcases List.mem_cons.mp hw with rfl | hw
    · exact absurd rfl hne
    · rcases List.mem_pair.mp hw with rfl | rfl
      · exact ⟨_, rfl, rfl⟩
      · exact ⟨_, rfl, rfl⟩
  obtain ⟨c, last, hsol, hrounds⟩ : ∃ c last,
      solution keptValue {} (Options.withMaxRounds {} 10) = .ok (c, last) ∧ last.rounds = 2 :=
    ⟨_, _, rfl, rfl⟩
  obtain ⟨c', last', hsol', hpending', hrounds'⟩ : ∃ c' last',
      solution (keptValue.withoutIncoming 0 0) {} (Options.withMaxRounds {} 10) =
          .ok (c', last') ∧
        last'.pending = [] ∧ last'.rounds = 1 := ⟨_, _, rfl, rfl, rfl⟩
  obtain ⟨c'', last'', hsol'', -, hend⟩ := infer_withoutSelfEdge hjoins rfl
    (ampleLimit_of_roundBound_le (k := 10) (by decide))
    (ampleLimit_of_roundBound_le (k := 10) (by decide)) hsol
    fun n _ => agreeInRound_of_seeds hseeds n
  obtain ⟨rfl, rfl⟩ := Prod.mk.inj (Except.ok.inj (hsol'.symm.trans hsol''))
  obtain ⟨-, s₁, out, h₁, h₂⟩ := hend (.inr (settled_of_pending_eq_nil hpending'))
  rw [hrounds'] at h₂
  refine ⟨s₁, out, h₁, ?_, h₂⟩
  rw [infer_eq_ok.mpr ⟨_, _, hsol, rfl, rfl⟩] at h₁
  obtain rfl := Except.ok.inj (Prod.mk.inj h₁).2
  exact hrounds

/-! ### Self edges that matter -/

/-- Under limits that do not bind, the operands left open and the final types are the same
without the self edge. -/
def SelfEdgeNeutral (s : Script) (signatures : Signatures) (o : Options) (id : OpId)
    (v : OperandId) : Prop :=
  ∀ k k' c last c' last', AmpleLimit s signatures o k →
    AmpleLimit (s.withoutIncoming id v) signatures o k' →
    solution s signatures (o.withMaxRounds k) = .ok (c, last) →
    solution (s.withoutIncoming id v) signatures (o.withMaxRounds k') = .ok (c', last') →
    last'.pending = last.pending ∧ ∀ u, Ty.same (last'.final u) (last.final u) = true

/-- One operand that is left open in one run only, or has another type, is enough. -/
theorem not_selfEdgeNeutral {id : OpId} {v : OperandId} {k : Nat} {c c' : Context}
    {last last' : Progress} (hk : s.roundBound ≤ k) (hk' : (s.withoutIncoming id v).roundBound ≤ k)
    (h : solution s signatures (o.withMaxRounds k) = .ok (c, last))
    (h' : solution (s.withoutIncoming id v) signatures (o.withMaxRounds k) = .ok (c', last'))
    (hne : last'.pending ≠ last.pending ∨ ∃ u, Ty.same (last'.final u) (last.final u) = false) :
    ¬ SelfEdgeNeutral s signatures o id v := by
  intro hneutral
  obtain ⟨hpending, hfinal⟩ := hneutral k k c last c' last' (ampleLimit_of_roundBound_le hk)
    (ampleLimit_of_roundBound_le hk') h h'
  rcases hne with hne | ⟨u, hu⟩
  · exact hne hpending
  · rw [hfinal u] at hu
    cases hu

/-- Two types: the join of both becomes an incoming value of its own. -/
def mixedValues : Script where
  operands := #[
    { kind := .variable (some "kept"), ops := [0] },
    { kind := .literal (.int 1) },
    { kind := .literal (.string "text") }]
  ops := #[
    .phi [0, 1, 2]]

/-- Two array types that are the same, the second of them known first. -/
def mixedArrays : Script where
  operands := #[
    { kind := .variable (some "kept"), ops := [0] },
    { kind := .variable (some "item"), ops := [1, 2] },
    { kind := .variable (some "ints"), ops := [3] },
    { kind := .variable (some "texts"), ops := [4] },
    { kind := .variable (some "late"), ops := [5] },
    { kind := .literal (.int 1) },
    { kind := .literal (.string "text") }]
  ops := #[
    .phi [0, 2, 3],
    .iterator .value 0,
    .assign 1 2,
    .array [] [4],
    .array [] [6],
    .assign 4 5]

/-- An unknown type, which can be copied but not joined. -/
def unknownItem : Script where
  operands := #[
    { kind := .variable (some "list"), ty := .arrayOf .unknown },
    { kind := .variable (some "item"), ops := [0] },
    { kind := .variable (some "kept"), ops := [1] }]
  ops := #[
    .iterator .value 0,
    .phi [2, 1]]

/-- A phi that produces another operand as well, which never gets a type for good. -/
def sharedPhi : Script where
  operands := #[
    { kind := .variable (some "other"), ops := [0, 1] },
    { kind := .variable (some "kept"), ops := [0] },
    { kind := .literal (.int 1) },
    { kind := .variable (some "copy"), ops := [2] }]
  ops := #[
    .phi [1, 2],
    .evaluate 2,
    .assign 3 0]

/-- The script `staleJoin` with a kept value: the round that its self edge costs is the one
that `staleJoin` stops before. -/
def staleJoinAndKept : Script where
  operands := staleJoin.operands.push { kind := .variable (some "kept"), ops := [5] }
  ops := staleJoin.ops.push (.phi [7, 6])

/-- **Self edges that matter.**  None of the conditions can be left out: the incoming values
have one type and not only types that are the same, this type is known, the phi produces
nothing else, and the run without the self edge has come to an end. -/
theorem selfEdge_not_neutral :
    (mixedValues.SelfEdge 0 0 ∧ ¬ SelfEdgeNeutral mixedValues {} {} 0 0) ∧
    (mixedArrays.SelfEdge 0 0 ∧ ¬ SelfEdgeNeutral mixedArrays {} {} 0 0) ∧
    (unknownItem.SelfEdge 1 2 ∧ ¬ SelfEdgeNeutral unknownItem {} {} 1 2) ∧
    (sharedPhi.SelfEdge 0 1 ∧ ¬ SelfEdgeNeutral sharedPhi {} {} 0 1) ∧
    (staleJoinAndKept.SelfEdge 5 7 ∧ ¬ SelfEdgeNeutral staleJoinAndKept {} {} 5 7) := by
  refine ⟨⟨⟨⟨_, rfl, rfl⟩, _, rfl, by decide, 1, by decide⟩, ?_⟩,
    ⟨⟨⟨_, rfl, rfl⟩, _, rfl, by decide, 2, by decide⟩, ?_⟩,
    ⟨⟨⟨_, rfl, rfl⟩, _, rfl, by decide, 1, by decide⟩, ?_⟩,
    ⟨⟨⟨_, rfl, rfl⟩, _, rfl, by decide, 2, by decide⟩, ?_⟩,
    ⟨⟨⟨_, rfl, rfl⟩, _, rfl, by decide, 6, by decide⟩, ?_⟩⟩
  · -- `int|string|int|string` in place of `int|string`
    exact not_selfEdgeNeutral (k := 10) (by decide) (by decide) rfl rfl (.inr ⟨0, by decide⟩)
  · -- `string` among the types of the item in place of `int`
    exact not_selfEdgeNeutral (k := 10) (by decide) (by decide) rfl rfl (.inr ⟨1, by decide⟩)
  · exact not_selfEdgeNeutral (k := 10) (by decide) (by decide) rfl rfl (.inl (by decide))
  · exact not_selfEdgeNeutral (k := 10) (by decide) (by decide) rfl rfl (.inl (by decide))
  · exact not_selfEdgeNeutral (k := 10) (by decide) (by decide) rfl rfl (.inl (by decide))

end Inference

end SsaTypes
