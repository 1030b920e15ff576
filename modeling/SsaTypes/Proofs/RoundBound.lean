/-
SsaTypes/Proofs/RoundBound.lean

How many rounds a run can use.  The measure

    potential = (open operands) + (open joins without a type)

is lowered by every visit that closes an operand or gives one its first type,
and raised by none.  So a round that advances lowers it, and all limits from
the potential on give the same run (`doneBy_of_potential_le`).

At the start the potential is

    roundBound = U + J,

where `U` operands are open and `J` of them are joins.  The default limit is
the number of operands, which is enough where no more operands are joins than
have seeds, but not for every script: `lateJoins` has five open operands, two
of which are joins, and needs a sixth round.
-/
import SsaTypes.Proofs.Declarations
import SsaTypes.Proofs.Visits

namespace SsaTypes

namespace Script

/-- The number of open operands and that of open joins. -/
def roundBound (s : Script) : Nat :=
  s.openOperands.length + s.openOperands.countP s.isJoin

end Script

namespace Inference

open Relation

namespace Context

/-! ### Limits in general -/

section Limits

variable {c : Context} {p q : Progress}

theorem iterate_of_isEmpty (h : p.pending.isEmpty = true) (limit : Nat) :
    c.iterate limit p = .ok p := by
  cases limit with
  | zero => rfl
  | succ limit => rw [iterate, if_pos h]

/-- A round that does not advance is the last one. -/
theorem iterate_of_stops (hp : ¬ p.pending.isEmpty = true) (hr : c.round p = .ok q)
    (ha : ¬ advanced p q = true) (limit : Nat) :
    c.iterate (limit + 1) p = .ok q := by
  rw [iterate, if_neg hp, hr]
  exact if_neg ha

/-- The next round has no fault, and more rounds follow it. -/
structure Advances (c : Context) (p q : Progress) : Prop where
  unfinished : ¬ p.pending.isEmpty = true
  round : c.round p = .ok q
  advanced : advanced p q = true

theorem Advances.iterate (h : c.Advances p q) (limit : Nat) :
    c.iterate (limit + 1) p = c.iterate limit q := by
  rw [Context.iterate, if_neg h.unfinished, h.round]
  exact if_pos h.advanced

/-- All limits from `k` on give the same run. -/
def DoneBy (c : Context) (k : Nat) (p : Progress) : Prop :=
  ∀ m, k ≤ m → c.iterate m p = c.iterate k p

theorem doneBy_of_isEmpty (h : p.pending.isEmpty = true) (k : Nat) : c.DoneBy k p := by
  intro m _
  rw [iterate_of_isEmpty h, iterate_of_isEmpty h]

/-- A run is done one round after the rounds that follow are done. -/
theorem doneBy_succ {k : Nat} (h : ∀ q, c.Advances p q → c.DoneBy k q) :
    c.DoneBy (k + 1) p := by
  intro m hm
  obtain ⟨m, rfl⟩ : ∃ n, m = n + 1 := ⟨m - 1, by omega⟩
  -- the limits differ only for the rounds after this one, if there are any
  by_cases hp : p.pending.isEmpty = true
  · rw [iterate_of_isEmpty hp, iterate_of_isEmpty hp]
  · rcases e : c.round p with f | q
    · simp only [iterate, if_neg hp, e]
      rfl
    · by_cases ha : advanced p q = true
      · have hq : c.Advances p q := ⟨hp, e, ha⟩
        rw [hq.iterate, hq.iterate]
        exact h q hq m (by omega)
      · rw [iterate_of_stops hp e ha, iterate_of_stops hp e ha]

/-- A run that is not done by a limit has another round after it. -/
theorem doneBy_or (k : Nat) (p : Progress) :
    c.DoneBy k p ∨ ∃ q, c.iterate k p = .ok q ∧
      ∀ r, c.iterate (k + 1) p = .ok r → r.rounds = q.rounds + 1 := by
  induction k generalizing p with
  | zero =>
    by_cases hp : p.pending.isEmpty = true
    · exact .inl (doneBy_of_isEmpty hp 0)
    · -- no round is allowed, but an operand is open
      refine .inr ⟨p, rfl, fun r hr => ?_⟩
      rw [iterate, if_neg hp] at hr
      rcases e : c.round p with f | q
      · simp [e, bind, Except.bind] at hr
      · simp only [e, bind, Except.bind, iterate, ite_self, Except.ok.injEq] at hr
        exact hr ▸ (round_eq_ok.mp e).2
  | succ k ih =>
    by_cases hp : ∃ q, c.Advances p q
    · obtain ⟨q, hq⟩ := hp
      rw [hq.iterate, hq.iterate]
      refine (ih q).imp_left fun hk => doneBy_succ fun q' hq' => ?_
      obtain rfl := Except.ok.inj (hq.round.symm.trans hq'.round)
      exact hk
    · exact .inl (doneBy_succ fun q hq => absurd ⟨q, hq⟩ hp)

end Limits

/-! ### The potential -/

section Potential

variable {c : Context}

/-- Whether an operand is a join without a type. -/
def untypedJoin (c : Context) (types : Table OperandId Ty) (v : OperandId) : Bool :=
  c.script.isJoin v && (types.find? v).isNone

/-- The number of open operands and that of open joins without a type. -/
def potential (c : Context) (b : Board) : Nat :=
  b.2.length + b.2.countP (c.untypedJoin b.1)

theorem untypedJoin_insert {types : Table OperandId Ty} {u v : OperandId} {t : Ty}
    (h : c.untypedJoin (types.insert v t) u = true) : c.untypedJoin types u = true := by
  rw [untypedJoin, Bool.and_eq_true] at h ⊢
  refine ⟨h.1, ?_⟩
  have hn := h.2
  rw [Table.find?_insert] at hn
  split at hn
  · cases hn
  · exact hn

theorem countP_untypedJoin_insert_le (c : Context) (types : Table OperandId Ty) (v : OperandId)
    (t : Ty) (us : List OperandId) :
    us.countP (c.untypedJoin (types.insert v t)) ≤ us.countP (c.untypedJoin types) :=
  List.countP_mono_left fun _ _ hu => untypedJoin_insert hu

/-- The first type of an open join lowers the number of those without. -/
theorem countP_untypedJoin_insert_lt {types : Table OperandId Ty} {v : OperandId} {t : Ty}
    (hj : c.script.isJoin v = true) (hn : types.find? v = none) {us : List OperandId}
    (hv : v ∈ us) :
    us.countP (c.untypedJoin (types.insert v t)) < us.countP (c.untypedJoin types) := by
  have hold : c.untypedJoin types v = true := by
    rw [untypedJoin, hj, hn]
    rfl
  have hnew : ¬ c.untypedJoin (types.insert v t) v = true := by
    rw [untypedJoin, Table.find?_insert, if_pos rfl]
    simp
  obtain ⟨l, r, rfl⟩ := List.append_of_mem hv
  rw [List.countP_append, List.countP_append, List.countP_cons_of_pos hold,
    List.countP_cons_of_neg hnew]
  have hl := countP_untypedJoin_insert_le c types v t l
  have hr := countP_untypedJoin_insert_le c types v t r
  omega

/-- **No visit raises the potential**, and one that keeps it closes no operand
and gives none its first type. -/
theorem potential_visit {b b' : Board} (h : c.Visit b b') :
    c.potential b' < c.potential b ∨
      (c.potential b' = c.potential b ∧ b'.2 = b.2 ∧ b'.1.size = b.1.size) := by
  cases h with
  | @provisional types pending v t hv e =>
    have hle := countP_untypedJoin_insert_le c types v t pending
    rcases hf : types.find? v with - | a
    · -- a join has got its first type
      left
      have hlt := countP_untypedJoin_insert_lt (t := t) (isJoin_of_verdict e) hf hv
      simp only [potential]
      omega
    · -- a type has been replaced
      have hsize : (types.insert v t).size = types.size := Table.size_insert_of_find? hf
      rcases Nat.lt_or_eq_of_le hle with hlt | heq
      · left
        simp only [potential]
        omega
      · exact .inr ⟨by simp only [potential, heq], rfl, hsize⟩
  | @confirmed types pending v t hv e =>
    left
    have hlen : (pending.erase v).length + 1 = pending.length := by
      rw [List.length_erase_of_mem hv]
      have := List.length_pos_of_mem hv
      omega
    have hsub : (pending.erase v).countP (c.untypedJoin (types.insert v t))
        ≤ pending.countP (c.untypedJoin (types.insert v t)) :=
      List.erase_sublist.countP_le
    have hle := countP_untypedJoin_insert_le c types v t pending
    simp only [potential]
    omega

theorem potential_visits {b b' : Board} (h : ReflTransGen c.Visit b b') :
    c.potential b' < c.potential b ∨
      (c.potential b' = c.potential b ∧ b'.2 = b.2 ∧ b'.1.size = b.1.size) := by
  induction h with
  | refl => exact .inr ⟨rfl, rfl, rfl⟩
  | tail _ hv ih =>
    -- one visit that lowers it is enough
    rcases potential_visit hv with hlt | ⟨heq, hp, hs⟩
    · rcases ih with ih | ih
      · exact .inl (Nat.lt_trans hlt ih)
      · exact .inl (Nat.lt_of_lt_of_eq hlt ih.1)
    · rw [heq, hp, hs]
      exact ih

/-- A round that advances lowers the potential. -/
theorem Advances.potential_lt {p q : Progress} (h : c.Advances p q) (hn : p.pending.Nodup) :
    c.potential q.board < c.potential p.board := by
  rcases potential_visits (round_visits hn h.round) with hlt | ⟨-, hp, hs⟩
  · exact hlt
  · -- otherwise nothing has changed that makes a round advance
    have hpend : q.pending = p.pending := hp
    have hsize : q.types.size = p.types.size := hs
    have ha := h.advanced
    rw [Context.advanced, hpend, hsize] at ha
    simp at ha

/-- **The potential bounds the rounds.** -/
theorem doneBy_of_potential_le {k : Nat} {p : Progress} (hn : p.pending.Nodup)
    (hk : c.potential p.board ≤ k) : c.DoneBy k p := by
  induction k generalizing p with
  | zero =>
    have hlen : p.pending.length ≤ c.potential p.board := Nat.le_add_right _ _
    exact doneBy_of_isEmpty (List.isEmpty_iff_length_eq_zero.mpr (by omega)) 0
  | succ k ih =>
    refine doneBy_succ fun q hq => ih (nodup_of_visits (round_visits hn hq.round) hn) ?_
    have hlt := hq.potential_lt hn
    omega

/-- At the start no join has a type. -/
theorem potential_seed {start : Progress} (h : seed c.script = .ok start) :
    c.potential start.board = c.script.roundBound := by
  obtain ⟨-, hp, hk⟩ := seed_spec h
  have huntyped : ∀ v ∈ start.pending,
      (c.untypedJoin start.types v = true ↔ c.script.isJoin v = true) := by
    intro v hv
    rcases ht : start.types.find? v with - | t
    · simp [untypedJoin, ht]
    · have ho : c.script.isOpen v = true := (coherent_seed h).isOpen v hv
      rw [Script.not_isOpen_of_seeds ((hk v t).mp ht)] at ho
      cases ho
  show start.pending.length + start.pending.countP (c.untypedJoin start.types) = _
  rw [List.countP_congr huntyped, hp, Script.roundBound]

theorem doneBy_seed {start : Progress} (h : seed c.script = .ok start) {k : Nat}
    (hk : c.script.roundBound ≤ k) : c.DoneBy k start :=
  doneBy_of_potential_le (coherent_seed h).nodup (by rw [potential_seed h]; exact hk)

end Potential

/-! ### The limit is not read -/

section Limited

variable (c : Context) (limit : Option Nat) (known : Known)

/-- The context with another limit for the rounds. -/
def limited (c : Context) (limit : Option Nat) : Context :=
  { c with options := { c.options with maxRounds := limit } }

@[simp] theorem limited_script : (c.limited limit).script = c.script := rfl

theorem sameDecls_limited : c.SameDecls (c.limited limit) :=
  ⟨rfl, rfl, rfl, rfl, rfl⟩

theorem candidates_limited (id : OpId) (op : Op) :
    (c.limited limit).candidates known id op = c.candidates known id op :=
  candidates_congr (c.sameDecls_limited limit) rfl rfl (fun _ => rfl) known id op

theorem answer_limited (id : OpId) : (c.limited limit).answer known id = c.answer known id := by
  simp only [answer, candidates_limited, limited_script]

theorem gather_limited (ids : List OpId) :
    (c.limited limit).gather known ids = c.gather known ids := by
  induction ids with
  | nil => rfl
  | cons id ids ih => rw [gather, gather, answer_limited, ih]

theorem verdict_limited (v : OperandId) :
    (c.limited limit).verdict known v = c.verdict known v := by
  simp only [verdict, gather_limited, limited_script]

theorem sweep_limited (types : Table OperandId Ty) (vs : List OperandId) :
    (c.limited limit).sweep types vs = c.sweep types vs := by
  induction vs generalizing types with
  | nil => rfl
  | cons v vs ih => simp only [sweep, verdict_limited, ih]

/-- Rounds are the same under any limit in the options. -/
theorem iterate_limited (n : Nat) (p : Progress) :
    (c.limited limit).iterate n p = c.iterate n p := by
  induction n generalizing p with
  | zero => rfl
  | succ n ih => simp only [iterate, round, sweep_limited, ih]

end Limited

end Context

/-! ### Limits of whole runs -/

variable {s : Script} {signatures : Signatures} {o : Options}

/-- What inference answers when the rounds end so. -/
def Context.result (c : Context) : Except Fault Progress → Script × Except Fault Outcome
  | .error e => (c.script, .error e)
  | .ok last => (writeBack c.script last, .ok ⟨c.lookup, last.report c.script.operands.size⟩)

/-- A run has a fault before the rounds, whatever the limit, or the limit
matters to the rounds only. -/
theorem infer_limit_cases (s : Script) (signatures : Signatures) (o : Options) :
    (∃ r, ∀ limit, infer s signatures { o with maxRounds := limit } = r) ∨
      ∃ (c : Context) (start : Progress), c.script.operands = s.operands ∧ c.script.ops = s.ops ∧
        seed c.script = .ok start ∧
        ∀ limit, infer s signatures { o with maxRounds := limit } =
          c.result (c.iterate (limit.getD s.operands.size) start) := by
  obtain ⟨classes, hclasses⟩ := seedProperties_fst o.useDocComments s
  -- the properties, the lookup tables and the seeds can each have a fault
  rcases e : seedProperties o.useDocComments s with ⟨s', - | f⟩
  · obtain rfl : s' = { s with classes } := by rw [← hclasses, e]
    rcases hl : Lookup.build { s with classes } signatures with f | l
    · exact .inl ⟨({ s with classes }, .error f), fun limit => by
        simp only [infer, e, solve, hl, bind, Except.bind]⟩
    · rcases hs : seed { s with classes } with f | start
      · exact .inl ⟨({ s with classes }, .error f), fun limit => by
          simp only [infer, e, solve, hl, hs, bind, Except.bind]⟩
      · refine .inr ⟨⟨{ s with classes }, l, o⟩, start, rfl, rfl, hs, fun limit => ?_⟩
        have hlimit := Context.iterate_limited ⟨{ s with classes }, l, o⟩ limit
          (limit.getD s.operands.size) start
        simp only [Context.limited] at hlimit
        simp only [infer, e, solve, hl, hs, bind, Except.bind, Options.roundLimit, hlimit]
        rcases Context.iterate ⟨{ s with classes }, l, o⟩ (limit.getD s.operands.size) start with
          f | last
        · rfl
        · rfl
  · exact .inl ⟨(s', .error f), fun limit => by simp only [infer, e]⟩

theorem roundBound_congr {s' : Script} (hoperands : s'.operands = s.operands)
    (hops : s'.ops = s.ops) : s'.roundBound = s.roundBound := by
  obtain ⟨operands, ops, classes, functions, constants⟩ := s
  obtain ⟨operands', ops', classes', functions', constants'⟩ := s'
  obtain rfl : operands' = operands := hoperands
  obtain rfl : ops' = ops := hops
  rfl

/-- All limits from the bound on give the same result, faults included. -/
theorem infer_eq_of_roundBound_le {x y : Option Nat}
    (hx : s.roundBound ≤ x.getD s.operands.size) (hy : s.roundBound ≤ y.getD s.operands.size) :
    infer s signatures { o with maxRounds := x } =
      infer s signatures { o with maxRounds := y } := by
  rcases infer_limit_cases s signatures o with ⟨r, hr⟩ | ⟨c, start, hoperands, hops, hs, hr⟩
  · rw [hr, hr]
  · have hdone : c.DoneBy s.roundBound start :=
      Context.doneBy_seed hs (Nat.le_of_eq (roundBound_congr hoperands hops))
    rw [hr, hr, hdone _ hx, hdone _ hy]

/-- If one more round changes nothing, no further round does. -/
theorem infer_eq_of_succ {x : Option Nat} {k m : Nat} (hx : x.getD s.operands.size = k)
    (h : infer s signatures { o with maxRounds := some (k + 1) } =
      infer s signatures { o with maxRounds := x }) (hm : k ≤ m) :
    infer s signatures { o with maxRounds := some m } =
      infer s signatures { o with maxRounds := x } := by
  rcases infer_limit_cases s signatures o with ⟨r, hr⟩ | ⟨c, start, -, -, -, hr⟩
  · rw [hr, hr]
  · rw [hr, hr, hx] at h ⊢
    simp only [Option.getD_some] at h ⊢
    rcases Context.doneBy_or (c := c) k start with hdone | ⟨q, hq, hsucc⟩
    · rw [hdone m hm]
    · -- the report shows the rounds, so it would show another one
      rw [hq] at h
      rcases e : c.iterate (k + 1) start with f | r
      · rw [e] at h
        cases (Prod.mk.inj h).2
      · rw [e] at h
        have hreport := congrArg (fun out => out.report.rounds) (Except.ok.inj (Prod.mk.inj h).2)
        have hrounds : r.rounds = q.rounds := hreport
        have := hsucc r e
        omega

/-- A script in which two joins get types before they are confirmed, in an
order that takes every one of the six rounds. -/
def lateJoins : Script where
  operands := #[
    { kind := .variable (some "nested"), ops := [0] },
    { kind := .variable (some "last"), ops := [1] },
    { kind := .variable (some "item"), ops := [2] },
    { kind := .variable (some "first"), ops := [3] },
    { kind := .variable (some "bare"), ops := [4] }]
  ops := #[
    .array [] [1],
    .phi [2, 3],
    .iterator .value 3,
    .phi [0, 4],
    .array [] []]

/-- The number of operands is no bound: a sixth round finds a type for the
operand that is unknown after five. -/
theorem lateJoins_cut_off :
    ¬ ∀ m, lateJoins.operands.size ≤ m →
      infer lateJoins {} (Options.withMaxRounds {} m) = infer lateJoins {} {} := by
  intro h
  have hdefault : (infer lateJoins {} {}).2.toOption.map (fun out => out.report.resolved) =
      some 4 := rfl
  have hsix : (infer lateJoins {} (Options.withMaxRounds {} 6)).2.toOption.map
      (fun out => out.report.resolved) = some 5 := rfl
  rw [h 6 (by decide), hdefault] at hsix
  cases hsix

/-- **How far the default limit reaches.**  All limits from `roundBound` on
give the same result.  So the number of operands is enough if no more operands
are open joins than have seeds.  For any other script, it is enough if and only
if one more round would change nothing. -/
theorem infer_limits (s : Script) (signatures : Signatures) (o : Options) :
    (∀ k m, s.roundBound ≤ k → s.roundBound ≤ m →
      infer s signatures (o.withMaxRounds k) = infer s signatures (o.withMaxRounds m)) ∧
    (s.openOperands.countP s.isJoin ≤ s.operands.size - s.openOperands.length →
      ∀ m, s.operands.size ≤ m →
        infer s signatures (o.withMaxRounds m) = infer s signatures { o with maxRounds := none }) ∧
    ((∀ m, s.operands.size ≤ m →
        infer s signatures (o.withMaxRounds m) = infer s signatures { o with maxRounds := none }) ↔
      infer s signatures (o.withMaxRounds (s.operands.size + 1)) =
        infer s signatures { o with maxRounds := none }) := by
  refine ⟨fun k m hk hm => ?_, fun hj m hm => ?_, fun h => ?_, fun h m hm => ?_⟩
  · exact infer_eq_of_roundBound_le hk hm
  · have hle := s.length_openOperands_le
    have hbound : s.roundBound ≤ s.operands.size := by
      rw [Script.roundBound]
      omega
    exact infer_eq_of_roundBound_le (Nat.le_trans hbound hm) hbound
  · exact h (s.operands.size + 1) (Nat.le_succ _)
  · exact infer_eq_of_succ rfl h hm

/-- From seven rounds on, all limits give the same for `lateJoins`. -/
theorem infer_limits_lateJoins :
    lateJoins.roundBound = 7 ∧
      infer lateJoins {} (Options.withMaxRounds {} 7) =
        infer lateJoins {} (Options.withMaxRounds {} 100) :=
  ⟨by decide, (infer_limits lateJoins {} {}).1 7 100 (by decide) (by decide)⟩

end Inference

end SsaTypes
