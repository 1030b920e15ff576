/-
SsaTypes/Proofs/Stall.lean

What further rounds would do after a run has stopped.  A run that stops with
open operands below its limit has had a last round

    before  ⟶  last

that confirmed nothing and gave no operand its first type.  It may still have
replaced provisional types, and a further round may make use of them: in
`staleJoin` the element type of an array becomes known in the last round.

If nothing was replaced, further rounds change nothing.  If all types are
definite and those replaced became inert, two successive rounds run in lockstep
(`sweep_fades`), so what a round replaces is inert again, and further rounds
confirm nothing.
-/
import SsaTypes.Proofs.Fading
import SsaTypes.Proofs.RoundBound

namespace SsaTypes.Inference

open Relation

/-! ### Entering types -/

theorem Known.Definite.insert {types : Table OperandId Ty} (h : Known.Definite types.find?)
    {v : OperandId} {t : Ty} (ht : t.isDefinite = true) :
    Known.Definite (types.insert v t).find? := by
  intro u a hu
  rw [Table.find?_insert] at hu
  split at hu
  · obtain rfl := Option.some.inj hu
    exact ht
  · exact h u a hu

theorem Known.Fades.insert {types types' : Table OperandId Ty}
    (h : Known.Fades types.find? types'.find?) {v : OperandId} {t u : Ty} (htu : t.Fades u) :
    Known.Fades (types.insert v t).find? (types'.insert v u).find? := by
  intro w
  rw [Table.find?_insert, Table.find?_insert]
  split
  · exact .some htu
  · exact h w

/-- The first assignment may catch up with the second. -/
theorem Known.Fades.insert_left {types types' : Table OperandId Ty}
    (h : Known.Fades types.find? types'.find?) {v : OperandId} {t : Ty}
    (ht : types'.find? v = some t) : Known.Fades (types.insert v t).find? types'.find? := by
  intro w
  rw [Table.find?_insert]
  split
  · next hw =>
    rw [hw, ht]
    exact .some (.inl rfl)
  · exact h w

namespace Context

variable {c : Context}

/-! ### Sweeps -/

/-- What entering the types of other operands preserves holds after a sweep over
others. -/
theorem sweep_induction {P : Table OperandId Ty → Prop} {u : OperandId}
    (hP : ∀ {types v t}, v ≠ u → P types → P (types.insert v t))
    {types types' : Table OperandId Ty} {vs rest : List OperandId} (hu : u ∉ vs)
    (h : c.sweep types vs = .ok (types', rest)) (hp : P types) : P types' := by
  induction vs generalizing types rest with
  | nil =>
    obtain ⟨rfl, -⟩ := Prod.mk.inj (Except.ok.inj h)
    exact hp
  | cons v vs ih =>
    obtain ⟨hne, hu⟩ := List.ne_and_not_mem_of_not_mem_cons hu
    rcases sweep_cons h with ⟨-, r, -, hs⟩ | ⟨t, -, r, -, hs⟩ | ⟨t, -, hs⟩
    · exact ih hu hs hp
    · exact ih hu hs (hP (Ne.symm hne) hp)
    · exact ih hu hs (hP (Ne.symm hne) hp)

/-- A sweep does not touch other operands. -/
theorem sweep_find?_of_not_mem {types types' : Table OperandId Ty} {vs rest : List OperandId}
    (h : c.sweep types vs = .ok (types', rest)) {u : OperandId} (hu : u ∉ vs) :
    types'.find? u = types.find? u := by
  refine sweep_induction (P := fun next => next.find? u = types.find? u) ?_ hu h rfl
  intro next v t hne hnext
  rw [Table.find?_insert, if_neg (Ne.symm hne), hnext]

/-- A sweep that closes no operand keeps the types definite. -/
theorem sweep_definite {types types' : Table OperandId Ty} {vs : List OperandId}
    (h : c.sweep types vs = .ok (types', vs)) (hd : Known.Definite types.find?) :
    Known.Definite types'.find? := by
  induction vs generalizing types with
  | nil =>
    obtain ⟨rfl, -⟩ := Prod.mk.inj (Except.ok.inj h)
    exact hd
  | cons v vs ih =>
    rcases sweep_cons_open h with ⟨-, hs⟩ | ⟨t, e, hs⟩
    · exact ih hs hd
    · exact ih hs (hd.insert (isDefinite_of_verdict hd e))

/-- **Two sweeps in lockstep.**  The second starts where the first ends: at an
operand not visited yet it finds what the first is about to leave there. -/
theorem sweep_fades {types types' last next : Table OperandId Ty} {vs rest : List OperandId}
    (hn : vs.Nodup) (h : c.sweep types vs = .ok (last, vs))
    (h' : c.sweep types' vs = .ok (next, rest)) (hf : Known.Fades types.find? types'.find?)
    (hd : Known.Definite types.find?) (hlast : ∀ v ∈ vs, types'.find? v = last.find? v) :
    rest = vs ∧ Known.Fades last.find? next.find? := by
  induction vs generalizing types types' rest with
  | nil =>
    obtain ⟨rfl, -⟩ := Prod.mk.inj (Except.ok.inj h)
    obtain ⟨rfl, rfl⟩ := Prod.mk.inj (Except.ok.inj h')
    exact ⟨rfl, hf⟩
  | cons v vs ih =>
    obtain ⟨hv, hn⟩ := List.nodup_cons.mp hn
    have hkeep : ∀ u ∈ vs, types'.find? u = last.find? u := fun u hu =>
      hlast u (List.mem_cons_of_mem v hu)
    have hinsert : ∀ b, ∀ u ∈ vs, (types'.insert v b).find? u = last.find? u := by
      intro b u hu
      have hne : u ≠ v := fun he => hv (he ▸ hu)
      rw [Table.find?_insert, if_neg hne]
      exact hkeep u hu
    rcases sweep_cons_open h with ⟨e, hs⟩ | ⟨t, e, hs⟩
    · -- where the first sweep waits, so does the second
      rcases sweep_cons h' with ⟨-, r, rfl, hs'⟩ | ⟨u, e', -⟩ | ⟨u, e', -⟩
      · obtain ⟨rfl, hf'⟩ := ih hn hs hs' hf hd hkeep
        exact ⟨rfl, hf'⟩
      · cases verdict_fades hf hd e e'
      · cases verdict_fades hf hd e e'
    · have hd' := hd.insert (v := v) (isDefinite_of_verdict hd e)
      rcases sweep_cons h' with ⟨-, r, rfl, hs'⟩ | ⟨u, e', r, rfl, hs'⟩ | ⟨u, e', -⟩
      · -- the second sweep leaves what the first has just entered
        have ht : types'.find? v = some t := by
          rw [hlast v List.mem_cons_self, sweep_find?_of_not_mem hs hv, Table.find?_insert,
            if_pos rfl]
        obtain ⟨rfl, hf'⟩ := ih hn hs hs' (hf.insert_left ht) hd' hkeep
        exact ⟨rfl, hf'⟩
      · have htu : t.Fades u := by
          cases verdict_fades hf hd e e' with
          | provisional htu => exact htu
        obtain ⟨rfl, hf'⟩ := ih hn hs hs' (hf.insert htu) hd' (hinsert u)
        exact ⟨rfl, hf'⟩
      · cases verdict_fades hf hd e e'

/-! ### Rounds -/

/-- So many more rounds, whether they advance or not. -/
def furtherRounds (c : Context) : Nat → Progress → Except Fault Progress
  | 0, p => .ok p
  | m + 1, p => do c.furtherRounds m (← c.round p)

/-- The second state follows the first by a round that closes no operand and
replaces types by inert ones at most. -/
structure Faded (c : Context) (p q : Progress) : Prop where
  nodup : p.pending.Nodup
  sweep : c.sweep p.types p.pending = .ok (q.types, p.pending)
  pending : q.pending = p.pending
  definite : p.known.Definite
  fades : Known.Fades p.known q.known

/-- **What a further round preserves.** -/
theorem Faded.round {p q r : Progress} (h : c.Faded p q) (hr : c.round q = .ok r) :
    c.Faded q r := by
  obtain ⟨hsweep, -⟩ := round_eq_ok.mp hr
  rw [h.pending] at hsweep
  obtain ⟨hrest, hf⟩ :=
    sweep_fades h.nodup h.sweep hsweep h.fades h.definite fun _ _ => rfl
  refine ⟨?_, ?_, ?_, sweep_definite h.sweep h.definite, hf⟩
  · rw [h.pending]
    exact h.nodup
  · rw [h.pending, hsweep, hrest]
  · rw [hrest, h.pending]

theorem Faded.confirmed_eq {p q : Progress} (h : c.Faded p q) : q.confirmed = p.confirmed := by
  funext v
  show (if v ∈ q.pending then none else q.types.find? v) =
    if v ∈ p.pending then none else p.types.find? v
  rw [h.pending]
  split
  · rfl
  · next hv => exact sweep_find?_of_not_mem h.sweep hv

/-- Further rounds confirm nothing. -/
theorem Faded.furtherRounds {m : Nat} {p q r : Progress} (h : c.Faded p q)
    (hr : c.furtherRounds m q = .ok r) :
    r.pending = q.pending ∧ r.confirmed = q.confirmed := by
  induction m generalizing p q with
  | zero =>
    obtain rfl := Except.ok.inj hr
    exact ⟨rfl, rfl⟩
  | succ m ih =>
    rw [Context.furtherRounds, bind_eq_ok] at hr
    obtain ⟨q', hq', hr⟩ := hr
    have hfaded := h.round hq'
    obtain ⟨hp, hc⟩ := ih hfaded hr
    exact ⟨hp.trans hfaded.pending, hc.trans hfaded.confirmed_eq⟩

/-- After a round that has changed nothing, no round changes anything. -/
theorem furtherRounds_of_fixed {p : Progress}
    (h : c.sweep p.types p.pending = .ok (p.types, p.pending)) (m : Nat) :
    c.furtherRounds m p = .ok { p with rounds := p.rounds + m } := by
  induction m generalizing p with
  | zero => rfl
  | succ m ih =>
    have hround : c.round p = .ok { p with rounds := p.rounds + 1 } := round_eq_ok.mpr ⟨h, rfl⟩
    rw [furtherRounds, hround]
    refine (ih (p := { p with rounds := p.rounds + 1 }) h).trans ?_
    show Except.ok { p with rounds := p.rounds + 1 + m } = _
    rw [Nat.add_assoc, Nat.add_comm 1 m]

section FurtherRounds

variable {p q r : Progress}

theorem furtherRounds_one (h : c.round p = .ok q) : c.furtherRounds 1 p = .ok q := by
  rw [furtherRounds, h]
  rfl

theorem furtherRounds_add {a b : Nat} (h : c.furtherRounds a p = .ok q)
    (h' : c.furtherRounds b q = .ok r) : c.furtherRounds (a + b) p = .ok r := by
  induction a generalizing p with
  | zero =>
    obtain rfl := Except.ok.inj h
    rwa [Nat.zero_add]
  | succ a ih =>
    rw [furtherRounds, bind_eq_ok] at h
    obtain ⟨p', hr, h⟩ := h
    rw [Nat.add_right_comm, furtherRounds, hr]
    exact ih h

/-- A run is so many rounds. -/
theorem exists_furtherRounds {k : Nat} (h : c.iterate k p = .ok q) :
    ∃ m, c.furtherRounds m p = .ok q := by
  induction k generalizing p with
  | zero => exact ⟨0, h⟩
  | succ k ih =>
    by_cases hp : p.pending.isEmpty = true
    · rw [iterate_of_isEmpty hp] at h
      exact ⟨0, h⟩
    · rw [iterate, if_neg hp, bind_eq_ok] at h
      obtain ⟨p', hr, h⟩ := h
      split at h
      · obtain ⟨m, hm⟩ := ih h
        exact ⟨1 + m, furtherRounds_add (furtherRounds_one hr) hm⟩
      · obtain rfl := Except.ok.inj h
        exact ⟨1, furtherRounds_one hr⟩

theorem rounds_furtherRounds {m : Nat} (h : c.furtherRounds m p = .ok q) :
    q.rounds = p.rounds + m := by
  induction m generalizing p with
  | zero =>
    obtain rfl := Except.ok.inj h
    rfl
  | succ m ih =>
    rw [furtherRounds, bind_eq_ok] at h
    obtain ⟨p', hr, h⟩ := h
    have hsucc := (round_eq_ok.mp hr).2
    have := ih h
    omega

/-- Further rounds leave closed operands alone. -/
theorem find?_furtherRounds {m : Nat} (h : c.furtherRounds m p = .ok q) {u : OperandId}
    (hu : u ∉ p.pending) : q.types.find? u = p.types.find? u := by
  induction m generalizing p with
  | zero =>
    obtain rfl := Except.ok.inj h
    rfl
  | succ m ih =>
    rw [furtherRounds, bind_eq_ok] at h
    obtain ⟨p', hr, h⟩ := h
    have hs := (round_eq_ok.mp hr).1
    rw [ih h fun hmem => hu ((sweep_sublist hs).subset hmem), sweep_find?_of_not_mem hs hu]

/-- Further rounds that close no operand change no final type. -/
theorem final_furtherRounds {m : Nat} (h : c.furtherRounds m p = .ok q)
    (hpending : q.pending = p.pending) (u : OperandId) : q.final u = p.final u := by
  rw [Progress.final, Progress.final, hpending]
  split
  · rfl
  · next hu => rw [Progress.known, Progress.known, find?_furtherRounds h hu]

theorem furtherRounds_limited (limit : Option Nat) (m : Nat) (p : Progress) :
    (c.limited limit).furtherRounds m p = c.furtherRounds m p := by
  induction m generalizing p with
  | zero => rfl
  | succ m ih => simp only [furtherRounds, round, sweep_limited, ih]

end FurtherRounds

/-! ### The last round -/

/-- A run that stops with open operands below its limit has had a round that
does not advance. -/
theorem exists_last_round {limit : Nat} {start last : Progress}
    (h : c.iterate limit start = .ok last) (hrounds : last.rounds < start.rounds + limit)
    (hopen : ¬ last.pending.isEmpty = true) :
    ∃ k before, start.rounds + k + 1 = last.rounds ∧ c.iterate k start = .ok before ∧
      c.round before = .ok last ∧ ¬ advanced before last = true := by
  induction limit generalizing start with
  | zero =>
    obtain rfl := Except.ok.inj h
    omega
  | succ limit ih =>
    by_cases hs : start.pending.isEmpty = true
    · rw [iterate_of_isEmpty hs] at h
      obtain rfl := Except.ok.inj h
      exact absurd hs hopen
    · -- the first round is the last one, or the rest of the run has it
      have h' := h
      rw [iterate, if_neg hs, bind_eq_ok] at h'
      obtain ⟨q, hq, h'⟩ := h'
      have hsucc := (round_eq_ok.mp hq).2
      split at h'
      · next ha =>
        obtain ⟨k, before, hk, hit, hb⟩ := ih h' (by omega)
        refine ⟨k + 1, before, by omega, ?_, hb⟩
        rw [Advances.iterate ⟨hs, hq, ha⟩, hit]
      · next ha =>
        obtain rfl := Except.ok.inj h'
        exact ⟨0, start, by omega, rfl, hq, ha⟩

/-- A round that does not advance leaves the same operands open and gives none
its first type. -/
theorem of_not_advanced {p q : Progress} (hn : p.pending.Nodup) (h : c.round p = .ok q)
    (ha : ¬ advanced p q = true) :
    q.pending = p.pending ∧ ∀ v, q.known v = none ↔ p.known v = none := by
  rw [advanced, Bool.or_eq_true, not_or] at ha
  have hlen : ¬ q.pending.length < p.pending.length := by simpa using ha.1
  have hsize : q.types.size = p.types.size := by simpa using ha.2
  have hsub := sweep_sublist (round_eq_ok.mp h).1
  refine ⟨hsub.eq_of_length_le (by omega), fun v => ?_⟩
  -- entries are never removed, so a table of the same size has the same keys
  have hprefix : p.types.keys <+: q.types.keys := keys_of_visits (round_visits hn h)
  have hkeys : p.types.keys = q.types.keys :=
    hprefix.eq_of_length (by simpa [Table.keys, Table.size] using hsize.symm)
  show q.types.find? v = none ↔ p.types.find? v = none
  rw [Table.find?_eq_none_iff, Table.find?_eq_none_iff, hkeys]

end Context

/-! ### Whole runs -/

/-- A script in which the last round before a run stops learns what the
elements of an array are, after the operand that waits for them was visited. -/
def staleJoin : Script where
  operands := #[
    { kind := .variable (some "bare"), ops := [0] },
    { kind := .variable (some "ints"), ops := [1] },
    { kind := .variable (some "item"), ops := [2] },
    { kind := .variable (some "outer"), ops := [3] },
    { kind := .variable (some "inner"), ops := [4] },
    { kind := .variable (some "never") },
    { kind := .literal (.int 1) }]
  ops := #[
    .array [] [],
    .array [] [6],
    .iterator .value 3,
    .phi [4, 0, 5],
    .phi [1, 5]]

/-- A run may stop although one more round would confirm an operand. -/
theorem staleJoin_stops_early :
    ∃ c last next, solution staleJoin {} (Options.withMaxRounds {} 10) = .ok (c, last) ∧
      last.rounds = 2 ∧ last.pending = [2, 3, 4, 5] ∧
      c.furtherRounds 1 last = .ok next ∧
      next.pending = [3, 4, 5] ∧ next.confirmed 2 = some .int :=
  ⟨_, _, _, rfl, rfl, rfl, rfl, rfl, rfl⟩

/-- **Where a run stops.**  A run that stops with open operands below its limit
has had a last round that confirmed nothing.  If it has not replaced any type
either, further rounds change nothing.  If there were only definite types before
it, and those that it has replaced became inert, further rounds confirm nothing. -/
theorem stopped_is_fixpoint {s : Script} {signatures : Signatures} {options : Options}
    {c : Context} {last : Progress} (hsol : solution s signatures options = .ok (c, last))
    (hrounds : last.rounds < options.roundLimit c.script.operands.size)
    (hopen : last.pending ≠ []) :
    ∃ start before, seed c.script = .ok start ∧
      c.iterate (last.rounds - 1) start = .ok before ∧ c.round before = .ok last ∧
      last.pending = before.pending ∧
      (last.types = before.types →
        ∀ m, c.furtherRounds m last = .ok { last with rounds := last.rounds + m }) ∧
      (before.known.Definite →
        (∀ v t u, before.known v = some t → last.known v = some u → t.Fades u) →
        ∀ m r, c.furtherRounds m last = .ok r →
          r.pending = last.pending ∧ r.confirmed = last.confirmed) := by
  obtain ⟨-, -, -, start, hseed, hiter⟩ := solution_eq_ok.mp hsol
  have hzero : start.rounds = 0 := (seed_spec hseed).1
  obtain ⟨k, before, hk, hbefore, hround, ha⟩ := Context.exists_last_round hiter
    (by omega) (by simpa using hopen)
  have hn : before.pending.Nodup :=
    Context.nodup_of_visits (Context.iterate_visits (Context.coherent_seed hseed).nodup hbefore)
      (Context.coherent_seed hseed).nodup
  obtain ⟨hpending, hnone⟩ := Context.of_not_advanced hn hround ha
  have hsweep := (Context.round_eq_ok.mp hround).1
  refine ⟨start, before, hseed, ?_, hround, hpending, fun heq => ?_, fun hd hf => ?_⟩
  · rwa [show last.rounds - 1 = k by omega]
  · refine Context.furtherRounds_of_fixed ?_
    rw [hpending] at hsweep ⊢
    rw [heq] at hsweep ⊢
    exact hsweep
  · intro m r hr
    refine Context.Faded.furtherRounds (p := before) ⟨hn, ?_, hpending, hd, fun v => ?_⟩ hr
    · rwa [hpending] at hsweep
    · rcases e : before.known v with - | t
      · rw [(hnone v).mpr e]
        exact .none
      · rcases e' : last.known v with - | u
        · rw [(hnone v).mp e'] at e
          cases e
        · exact .some (hf v t u e e')

/-- A script with a join that becomes a union in the last round. -/
def wideningJoin : Script where
  operands := #[
    { kind := .variable (some "outer"), ops := [0] },
    { kind := .variable (some "inner"), ops := [1] },
    { kind := .literal (.int 1) },
    { kind := .variable (some "never") },
    { kind := .literal (.string "text") }]
  ops := #[
    .phi [1, 2, 3],
    .phi [4, 3]]

/-- The run over `wideningJoin` stops after two of at most nine rounds, with a
union that further rounds could not use. -/
theorem stopped_is_fixpoint_wideningJoin :
    ∃ c last, solution wideningJoin {} (Options.withMaxRounds {} 9) = .ok (c, last) ∧
      last.rounds = 2 ∧ last.types.find? 0 = some (.union [.string, .int]) ∧
      ∀ m r, c.furtherRounds m last = .ok r →
        r.pending = last.pending ∧ r.confirmed = last.confirmed := by
  obtain ⟨c, last, hsol, hlast, hcap, hbefore⟩ : ∃ c last,
      solution wideningJoin {} (Options.withMaxRounds {} 9) = .ok (c, last) ∧
      last =
        ⟨⟨[(2, .int), (4, .string), (0, .union [.string, .int]), (1, .string)]⟩, [0, 1, 3], 2⟩ ∧
      (Options.withMaxRounds {} 9).roundLimit c.script.operands.size = 9 ∧
      (do c.iterate 1 (← seed c.script)) =
        .ok ⟨⟨[(2, .int), (4, .string), (0, .int), (1, .string)]⟩, [0, 1, 3], 1⟩ :=
    ⟨_, _, rfl, rfl, rfl, rfl⟩
  obtain ⟨start, before, hseed, hit, -, -, -, h⟩ :=
    stopped_is_fixpoint hsol (by rw [hlast, hcap]; decide) (by rw [hlast]; decide)
  rw [hlast] at hit
  rw [hseed] at hbefore
  obtain rfl := Except.ok.inj (hit.symm.trans hbefore)
  refine ⟨c, last, hsol, by rw [hlast], by rw [hlast]; rfl, h ?_ ?_⟩
  · intro v t hv
    have hmem := Table.mem_of_findIn hv
    simp only [List.mem_cons, Prod.mk.injEq, List.not_mem_nil, or_false] at hmem
    rcases hmem with ⟨-, rfl⟩ | ⟨-, rfl⟩ | ⟨-, rfl⟩ | ⟨-, rfl⟩ <;> rfl
  · intro v t u hv hu
    rw [hlast] at hu
    have hmem := Table.mem_of_findIn hv
    simp only [List.mem_cons, Prod.mk.injEq, List.not_mem_nil, or_false] at hmem
    rcases hmem with ⟨rfl, rfl⟩ | ⟨rfl, rfl⟩ | ⟨rfl, rfl⟩ | ⟨rfl, rfl⟩
    · exact .inl (Option.some.inj hu).symm
    · exact .inl (Option.some.inj hu).symm
    · exact .inr (by rw [← Option.some.inj hu]; rfl)
    · exact .inl (Option.some.inj hu).symm

end SsaTypes.Inference
