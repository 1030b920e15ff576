/-
SsaTypes/Proofs/Limits.lean

Runs over one script under two limits.  A round does not know how many more are
allowed, so a run under a smaller limit is the beginning of a run under a
larger one:

    rounds under k  =  min k (rounds under m)                for k ≤ m,

a fault of the shorter run is the fault of the longer one (`iterate_error_of_le`),
and the longer run goes on by visits from where the shorter one has stopped
(`iterate_ok_of_le`), which leave alone what has been seeded or confirmed.

No run has more rounds than its potential at the start, whatever its limit
(`rounds_le_of_iterate`), and the potential is at most twice the number of open
operands.
-/
import SsaTypes.Proofs.Provenance
import SsaTypes.Proofs.RoundBound

namespace SsaTypes

namespace Script

/-- The operand exists and has this type. -/
def HasType (s : Script) (v : OperandId) (t : Ty) : Prop :=
  ∃ o, s.operand v = .ok o ∧ o.ty = t

/-- An open join is an open operand. -/
theorem roundBound_le (s : Script) : s.roundBound ≤ 2 * s.openOperands.length := by
  have h : s.openOperands.countP s.isJoin ≤ s.openOperands.length := List.countP_le_length
  rw [roundBound]
  omega

end Script

namespace Inference

open Relation

namespace Context

variable {c : Context} {p q : Progress}

/-! ### Rounds under two limits -/

theorem rounds_le_iterate {limit : Nat} (h : c.iterate limit p = .ok q) : p.rounds ≤ q.rounds := by
  induction limit generalizing p with
  | zero =>
    obtain rfl := Except.ok.inj h
    exact Nat.le_refl _
  | succ limit ih =>
    rw [iterate] at h
    split at h
    · obtain rfl := Except.ok.inj h
      exact Nat.le_refl _
    · obtain ⟨r, hr, h⟩ := bind_eq_ok.mp h
      have hsucc := (round_eq_ok.mp hr).2
      split at h
      · have := ih h
        omega
      · obtain rfl := Except.ok.inj h
        omega

theorem rounds_iterate_le {limit : Nat} (h : c.iterate limit p = .ok q) :
    q.rounds ≤ p.rounds + limit := by
  induction limit generalizing p with
  | zero =>
    obtain rfl := Except.ok.inj h
    exact Nat.le_refl _
  | succ limit ih =>
    rw [iterate] at h
    split at h
    · obtain rfl := Except.ok.inj h
      omega
    · obtain ⟨r, hr, h⟩ := bind_eq_ok.mp h
      have hsucc := (round_eq_ok.mp hr).2
      split at h
      · have := ih h
        omega
      · obtain rfl := Except.ok.inj h
        omega

/-- **A shorter run is a beginning.**  If a run has no fault, neither has one
under a smaller limit, and it gets to where the other goes on from. -/
theorem iterate_ok_of_le {k m : Nat} (hkm : k ≤ m) (hn : p.pending.Nodup)
    (h : c.iterate m p = .ok q) :
    ∃ r, c.iterate k p = .ok r ∧ r.rounds = p.rounds + min k (q.rounds - p.rounds) ∧
      ReflTransGen c.Visit r.board q.board := by
  induction k generalizing p m with
  | zero => exact ⟨p, rfl, by simp, iterate_visits hn h⟩
  | succ k ih =>
    obtain ⟨m, rfl⟩ : ∃ n, m = n + 1 := ⟨m - 1, by omega⟩
    rw [iterate] at h ⊢
    by_cases hp : p.pending.isEmpty = true
    · rw [if_pos hp] at h ⊢
      obtain rfl := Except.ok.inj h
      exact ⟨p, rfl, by simp, .refl⟩
    · rw [if_neg hp] at h ⊢
      obtain ⟨r, hr, h⟩ := bind_eq_ok.mp h
      have hsucc := (round_eq_ok.mp hr).2
      rw [hr]
      simp only [bind, Except.bind]
      -- both runs have this round, and both stop after it or neither does
      by_cases ha : advanced p r = true
      · rw [if_pos ha] at h ⊢
        obtain ⟨r', hr', hrounds, hv⟩ :=
          ih (by omega) (nodup_of_visits (round_visits hn hr) hn) h
        have hle := rounds_le_iterate h
        exact ⟨r', hr', by omega, hv⟩
      · rw [if_neg ha] at h ⊢
        obtain rfl := Except.ok.inj h
        exact ⟨r, rfl, by omega, .refl⟩

/-- A fault under a limit is the fault under any larger one. -/
theorem iterate_error_of_le {k m : Nat} (hkm : k ≤ m) {f : Fault}
    (h : c.iterate k p = .error f) : c.iterate m p = .error f := by
  induction k generalizing p m with
  | zero => cases h
  | succ k ih =>
    obtain ⟨m, rfl⟩ : ∃ n, m = n + 1 := ⟨m - 1, by omega⟩
    rw [iterate] at h ⊢
    by_cases hp : p.pending.isEmpty = true
    · rw [if_pos hp] at h
      cases h
    · rw [if_neg hp] at h ⊢
      rcases e : c.round p with f' | r
      · rw [e] at h
        exact h
      · simp only [e, bind, Except.bind] at h ⊢
        by_cases ha : advanced p r = true
        · rw [if_pos ha] at h ⊢
          exact ih (by omega) h
        · rw [if_neg ha] at h
          cases h

/-- The potential bounds the rounds under any limit. -/
theorem rounds_le_of_iterate {limit : Nat} (hn : p.pending.Nodup)
    (h : c.iterate limit p = .ok q) : q.rounds ≤ p.rounds + c.potential p.board := by
  rcases Nat.le_total limit (c.potential p.board) with hle | hle
  · have := rounds_iterate_le h
    omega
  · rw [doneBy_of_potential_le hn (Nat.le_refl _) limit hle] at h
    exact rounds_iterate_le h

end Context

/-! ### Whole runs -/

variable {s : Script} {signatures : Signatures} {o : Options}

theorem withMaxRounds_eq (o : Options) (k : Nat) : o.withMaxRounds k = { o with maxRounds := k } :=
  rfl

/-- Runs under all limits have one context, up to the limit, and one start. -/
theorem solution_limit {k : Nat} {c : Context} {last : Progress}
    (h : solution s signatures (o.withMaxRounds k) = .ok (c, last)) :
    ∃ start, seed c.script = .ok start ∧ c.iterate k start = .ok last ∧
      ∀ m q, c.iterate m start = .ok q →
        solution s signatures (o.withMaxRounds m) = .ok (c.limited m, q) := by
  obtain ⟨hprops, hlookup, hoptions, start, hseed, hiter⟩ := solution_eq_ok.mp h
  refine ⟨start, hseed, hiter, fun m q hq =>
    solution_eq_ok.mpr ⟨hprops, hlookup, ?_, start, hseed, ?_⟩⟩
  · rw [Context.limited, hoptions]
    rfl
  · rw [Context.iterate_limited]
    exact hq

/-- The contexts of runs under two limits differ in the limit only. -/
theorem context_limited {k m : Nat} {c c' : Context} {p q : Progress}
    (h : solution s signatures (o.withMaxRounds k) = .ok (c, p))
    (h' : solution s signatures (o.withMaxRounds m) = .ok (c', q)) : c' = c.limited m := by
  obtain ⟨hprops, hlookup, hoptions, -⟩ := solution_eq_ok.mp h
  obtain ⟨hprops', hlookup', hoptions', -⟩ := solution_eq_ok.mp h'
  have hscript : c.script = c'.script := (Prod.mk.inj (hprops.symm.trans hprops')).1
  rw [hscript] at hlookup
  obtain ⟨script, lookup, options⟩ := c
  obtain ⟨script', lookup', options'⟩ := c'
  obtain rfl : script = script' := hscript
  obtain rfl : lookup = lookup' := Except.ok.inj (hlookup.symm.trans hlookup')
  obtain rfl : options = o.withMaxRounds k := hoptions
  obtain rfl : options' = o.withMaxRounds m := hoptions'
  rfl

/-- The limit does not bind: no larger one gives another run. -/
def AmpleLimit (s : Script) (signatures : Signatures) (o : Options) (k : Nat) : Prop :=
  ∀ m, k ≤ m → (solution s signatures (o.withMaxRounds m)).map Prod.snd =
    (solution s signatures (o.withMaxRounds k)).map Prod.snd

theorem AmpleLimit.solution_eq_ok {k m : Nat} (h : AmpleLimit s signatures o k) (hm : k ≤ m)
    {last : Progress} : (∃ c, solution s signatures (o.withMaxRounds m) = .ok (c, last)) ↔
      ∃ c, solution s signatures (o.withMaxRounds k) = .ok (c, last) := by
  have hiff : ∀ r : Except Fault (Context × Progress),
      (∃ c, r = .ok (c, last)) ↔ r.map Prod.snd = .ok last := by
    intro r
    rcases r with f | ⟨c, q⟩ <;> simp [Except.map]
  rw [hiff, hiff, h m hm]

theorem operands_of_seedProperties {useDocs : Bool} {s' : Script} {e : Option Fault}
    (h : seedProperties useDocs s = (s', e)) : s'.operands = s.operands ∧ s'.ops = s.ops := by
  obtain ⟨classes, hs⟩ := seedProperties_fst useDocs s
  rw [h] at hs
  obtain rfl : s' = { s with classes } := hs
  exact ⟨rfl, rfl⟩

theorem operands_of_setting {c : Context} (h : setting s signatures o = .ok c) :
    c.script.operands = s.operands ∧ c.script.ops = s.ops := by
  rw [setting] at h
  rcases e : seedProperties o.useDocComments s with ⟨s', - | f⟩
  · rw [e] at h
    obtain ⟨l, -, rfl⟩ := map_eq_ok.mp h
    exact operands_of_seedProperties e
  · rw [e] at h
    cases h

theorem setting_withMaxRounds (k : Nat) :
    setting s signatures (o.withMaxRounds k) =
      (setting s signatures o).map fun c => c.limited k := by
  have hdocs : (o.withMaxRounds k).useDocComments = o.useDocComments := rfl
  rw [setting, setting, hdocs]
  rcases seedProperties o.useDocComments s with ⟨s', - | f⟩
  · rcases hl : Lookup.build s' signatures with f | l
    · simp only [hl, Except.map]
    · simp only [hl, Except.map]
      rfl
  · rfl

/-- No limit from the bound on the rounds on binds. -/
theorem ampleLimit_of_roundBound_le {k : Nat} (hk : s.roundBound ≤ k) :
    AmpleLimit s signatures o k := by
  intro m hm
  rw [solution_eq, solution_eq, setting_withMaxRounds, setting_withMaxRounds]
  rcases hc : setting s signatures o with f | c
  · rfl
  obtain ⟨hoperands, hops⟩ := operands_of_setting hc
  simp only [Except.map, bind, Except.bind, Context.limited_script]
  rcases hseed : seed c.script with f | start
  · rfl
  have hdone := Context.doneBy_seed (c := c) hseed
    (Nat.le_trans (Nat.le_of_eq (roundBound_congr hoperands hops)) hk)
  have hlimit : ∀ n, (o.withMaxRounds n).roundLimit c.script.operands.size = n := fun _ => rfl
  simp only [hlimit, Context.iterate_limited, hdone m hm]
  rcases c.iterate k start with f | last
  · rfl
  · rfl

/-- A run gives its operands their final types. -/
theorem hasType_writeBack {p : Progress} {v : OperandId} {t : Ty} :
    (writeBack s p).HasType v t ↔ (∃ o, s.operand v = .ok o) ∧ p.final v = t := by
  simp only [Script.HasType, Script.operand_eq_ok, getElem?_writeBack, Option.map_eq_some_iff]
  constructor
  · rintro ⟨-, ⟨o, ho, rfl⟩, rfl⟩
    exact ⟨⟨o, ho⟩, rfl⟩
  · rintro ⟨⟨o, ho⟩, rfl⟩
    exact ⟨_, ⟨o, ho, rfl⟩, rfl⟩

theorem hasType_of_confirmed {c : Context} {p : Progress} (hp : c.Coherent p.board)
    {v : OperandId} {t : Ty} (h : p.confirmed v = some t) :
    (writeBack c.script p).HasType v t := by
  refine hasType_writeBack.mpr ⟨?_, ?_⟩
  · -- only seeded and open operands have types, and both exist
    rcases hp.entered v t (Board.confirmed_eq_some.mp h).2 with ⟨o, ho, -⟩ | hopen
    · exact ⟨o, ho⟩
    · obtain ⟨o, ho, -⟩ := Script.isOpen_iff.mp hopen
      exact ⟨o, ho⟩
  · rw [Progress.final_eq, h]
    rfl

theorem confirmed_of_seeds {c : Context} {p : Progress} (hp : c.Coherent p.board)
    {v : OperandId} {t : Ty} (h : c.script.Seeds v t) : p.confirmed v = some t :=
  Board.confirmed_eq_some.mpr ⟨hp.not_mem_of_seeds h, hp.seeds v t h⟩

/-- Seeds are a matter of the operands alone. -/
theorem seeds_congr {s' : Script} (h : s'.operands = s.operands) {v : OperandId} {t : Ty} :
    s'.Seeds v t ↔ s.Seeds v t := by
  simp only [Script.Seeds, Script.operand_eq_ok, h]

/-- A seed is known in every state of a run. -/
theorem known_of_seeds {options : Options} {c : Context} {p : Progress}
    (h : solution s signatures options = .ok (c, p)) {w : OperandId} {t : Ty} (hw : s.Seeds w t) :
    p.known w = some t := by
  obtain ⟨hprops, -, -, start, hseed, hiter⟩ := solution_eq_ok.mp h
  have hw' : c.script.Seeds w t := (seeds_congr (operands_of_seedProperties hprops).1).mpr hw
  exact (Context.coherent_of_iterate hseed hiter).1.seeds w t hw'

/-- **A run under a smaller limit.**  If a run has no fault, neither has one
under a smaller limit, which has as many rounds as it may; both give seeded
operands their seeds, and an operand confirmed by the shorter run has the same
type in both.  A fault of the shorter run is the fault of the longer one. -/
theorem infer_of_le (s : Script) (signatures : Signatures) (o : Options) {k m : Nat}
    (hkm : k ≤ m) :
    (∀ s₂ out₂, infer s signatures (o.withMaxRounds m) = (s₂, .ok out₂) →
      ∃ s₁ out₁, infer s signatures (o.withMaxRounds k) = (s₁, .ok out₁) ∧
        out₁.report.rounds = min k out₂.report.rounds ∧
        (∀ v t, s.Seeds v t → s₁.HasType v t ∧ s₂.HasType v t) ∧
        ∃ c last, solution s signatures (o.withMaxRounds k) = .ok (c, last) ∧
          ∀ v t, last.confirmed v = some t → s₁.HasType v t ∧ s₂.HasType v t) ∧
    ∀ s₁ f, infer s signatures (o.withMaxRounds k) = (s₁, .error f) →
      infer s signatures (o.withMaxRounds m) = (s₁, .error f) := by
  constructor
  · intro s₂ out₂ h
    obtain ⟨c₂, last₂, hsol₂, rfl, rfl⟩ := infer_eq_ok.mp h
    obtain ⟨start, hseed, hiter₂, hsol⟩ := solution_limit hsol₂
    have hstart := Context.coherent_seed (c := c₂) hseed
    obtain ⟨last₁, hiter₁, hrounds, hv⟩ := Context.iterate_ok_of_le hkm hstart.nodup hiter₂
    have hsol₁ := hsol k last₁ hiter₁
    have hlast₁ := (Context.coherent_of_iterate hseed hiter₁).1
    have hlast₂ := (Context.coherent_of_iterate hseed hiter₂).1
    have hboth : ∀ v t, last₁.confirmed v = some t →
        (writeBack c₂.script last₁).HasType v t ∧ (writeBack c₂.script last₂).HasType v t :=
      fun v t ht => ⟨hasType_of_confirmed hlast₁ ht,
        hasType_of_confirmed hlast₂ (Context.confirmed_visits hlast₁ hv ht)⟩
    refine ⟨_, _, infer_eq_ok.mpr ⟨_, _, hsol₁, rfl, rfl⟩, ?_, fun v t ht => ?_,
      _, _, hsol₁, hboth⟩
    · have hzero := (seed_spec hseed).1
      show last₁.rounds = min k last₂.rounds
      omega
    · have hoperands := (operands_of_seedProperties (solution_eq_ok.mp hsol₂).1).1
      exact hboth v t (confirmed_of_seeds hlast₁ ((seeds_congr hoperands).mpr ht))
  · intro s₁ f h
    rcases infer_limit_cases s signatures o with ⟨r, hr⟩ | ⟨c, start, -, -, -, hr⟩
    · rw [withMaxRounds_eq, hr] at h ⊢
      exact h
    · rw [withMaxRounds_eq, hr] at h ⊢
      simp only [Option.getD_some] at h ⊢
      -- the shorter run can only have failed in one of its rounds
      rcases e : c.iterate k start with f' | last
      · rw [e] at h
        rw [Context.iterate_error_of_le hkm e]
        exact h
      · rw [e] at h
        cases (Prod.mk.inj h).2

/-- A script with a fault that shows in the second round. -/
def lateFault : Script where
  operands := #[
    { kind := .variable (some "power"), ops := [0, 1] },
    { kind := .variable (some "text"), ops := [2] }]
  ops := #[
    .assign 0 1,
    .binary .pow 1 1,
    .concatList []]

/-- Three rounds of the six over `lateJoins`, and the fault of `lateFault`. -/
theorem infer_of_le_lateJoins :
    (∃ s₁ out₁ s₂ out₂, infer lateJoins {} (Options.withMaxRounds {} 3) = (s₁, .ok out₁) ∧
      infer lateJoins {} (Options.withMaxRounds {} 100) = (s₂, .ok out₂) ∧
      out₁.report.rounds = min 3 6 ∧ s₁.HasType 4 .array ∧ s₂.HasType 4 .array) ∧
    ∃ s' f, infer lateFault {} (Options.withMaxRounds {} 2) = (s', .error f) ∧
      infer lateFault {} (Options.withMaxRounds {} 100) = (s', .error f) := by
  obtain ⟨s₂, out₂, h₂, hrounds⟩ : ∃ s₂ out₂,
      infer lateJoins {} (Options.withMaxRounds {} 100) = (s₂, .ok out₂) ∧
      out₂.report.rounds = 6 := ⟨_, _, rfl, rfl⟩
  obtain ⟨c, last, hsol, hlast⟩ : ∃ c last,
      solution lateJoins {} (Options.withMaxRounds {} 3) = .ok (c, last) ∧
      last.confirmed 4 = some .array := ⟨_, _, rfl, rfl⟩
  obtain ⟨s₁, out₁, h₁, hmin, -, c', last', hsol', hboth⟩ :=
    (infer_of_le lateJoins {} {} (show 3 ≤ 100 by decide)).1 s₂ out₂ h₂
  obtain ⟨rfl, rfl⟩ := Prod.mk.inj (Except.ok.inj (hsol.symm.trans hsol'))
  obtain ⟨s', f, hf⟩ : ∃ s' f, infer lateFault {} (Options.withMaxRounds {} 2) = (s', .error f) :=
    ⟨_, _, rfl⟩
  rw [hrounds] at hmin
  exact ⟨⟨s₁, out₁, s₂, out₂, h₁, h₂, hmin, hboth 4 .array hlast⟩, s', f, hf,
    (infer_of_le lateFault {} {} (show 2 ≤ 100 by decide)).2 s' f hf⟩

/-- **How long a run is.**  A run without a fault has at most two rounds for
every open operand, whatever its limit, and all limits from there on give the
same result. -/
theorem rounds_le_twice_open (s : Script) (signatures : Signatures) (o : Options) :
    (∀ s' out, infer s signatures o = (s', .ok out) →
      out.report.rounds ≤ 2 * s.openOperands.length) ∧
    ∀ k m, 2 * s.openOperands.length ≤ k → 2 * s.openOperands.length ≤ m →
      infer s signatures (o.withMaxRounds k) = infer s signatures (o.withMaxRounds m) := by
  have hbound := s.roundBound_le
  constructor
  · intro s' out h
    obtain ⟨c, last, hsol, rfl, rfl⟩ := infer_eq_ok.mp h
    obtain ⟨hprops, -, -, start, hseed, hiter⟩ := solution_eq_ok.mp hsol
    obtain ⟨hoperands, hops⟩ := operands_of_seedProperties hprops
    have hrounds := Context.rounds_le_of_iterate (Context.coherent_seed hseed).nodup hiter
    rw [Context.potential_seed hseed, roundBound_congr hoperands hops, (seed_spec hseed).1]
      at hrounds
    show last.rounds ≤ _
    omega
  · intro k m hk hm
    exact infer_eq_of_roundBound_le (Nat.le_trans hbound hk) (Nat.le_trans hbound hm)

/-- The run over `lateJoins` has five open operands, and stays below ten rounds. -/
theorem rounds_le_twice_open_lateJoins :
    lateJoins.openOperands.length = 5 ∧
    (∃ s' out, infer lateJoins {} (Options.withMaxRounds {} 100) = (s', .ok out) ∧
      out.report.rounds ≤ 2 * lateJoins.openOperands.length) ∧
    infer lateJoins {} (Options.withMaxRounds {} 10) =
      infer lateJoins {} (Options.withMaxRounds {} 100) := by
  obtain ⟨s', out, h⟩ : ∃ s' out,
      infer lateJoins {} (Options.withMaxRounds {} 100) = (s', .ok out) := ⟨_, _, rfl⟩
  exact ⟨by decide, ⟨s', out, h, (rounds_le_twice_open lateJoins {} _).1 s' out h⟩,
    (rounds_le_twice_open lateJoins {} {}).2 10 100 (by decide) (by decide)⟩

end Inference

end SsaTypes
