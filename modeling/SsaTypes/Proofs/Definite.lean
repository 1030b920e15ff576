/-
SsaTypes/Proofs/Definite.lean

Runs that leave no type half known.  A type is definite if no part of it is unknown.
Where every operand starts with a definite type or with none, a run enters definite
types only: declarations give them, the rules keep them, and taking a type away from
one leaves one.  So at the end

    operands without a type  =  operands still open,

all other types are definite, and a property is never found without a type.

If nothing is open at the end, every operand has its seed from then on: runs that
follow have nothing to do and change no operand.
-/
import SsaTypes.Proofs.Emptied
import SsaTypes.Proofs.Limits
import SsaTypes.Proofs.Stall

namespace SsaTypes

/-! ### Definite types -/

namespace Ty

theorem isDefinite_of_isNormal {t : Ty} (h : t.isNormal = true) : t.isDefinite = true := by
  induction t using inductOn with
  | unknown => cases h
  | arrayOf e ih =>
    rw [isDefinite]
    exact ih h
  | comb k ms ih =>
    rw [isDefinite, allDefinite_iff]
    intro m hm
    exact ih m hm ((isNormal_comb.mp h).2 m hm).1
  | _ => rfl

theorem class_definite : Class fun t => t.isDefinite = true where
  simple t h := by cases t <;> first | rfl | cases h
  mixed := isDefinite_mixed
  numeric := by decide
  arrayOf e := by rw [isDefinite]
  merge _ _ hts h := isDefinite_merge hts h

end Ty

/-- Every operand has no type at all or a definite one. -/
def Script.PlainTypes (s : Script) : Prop :=
  ∀ o ∈ s.operands, o.ty = .unknown ∨ o.ty.isDefinite = true

/-- Every operand has a type. -/
def Script.AllTyped (s : Script) : Prop :=
  ∀ o ∈ s.operands, o.ty.isUnknown = false

namespace Inference

open Relation

/-! ### Properties -/

theorem exists_of_updateUntil {α : Type} {f : α → α × Option Fault} {as bs : List α}
    (h : updateUntil f as = (bs, none)) {b : α} (hb : b ∈ bs) : ∃ a ∈ as, f a = (b, none) := by
  rw [← List.mem_map, map_of_updateUntil h]
  exact List.mem_map_of_mem hb

theorem isNormal_of_propertyType {useDocs : Bool} {p : Property} {t : Ty}
    (h : propertyType useDocs p = .ok t) : t.isNormal = true := by
  rw [propertyType] at h
  generalize (if useDocs then DocComment.extract .var p.doc else none).or p.declared = text at h
  rcases text with - | text
  · exact Except.ok.inj h ▸ isNormal_mixed
  · exact isNormal_of_readDecl h

/-- The properties of a script that has been given their types have normal ones. -/
theorem isNormal_of_seedProperties {useDocs : Bool} {s s' : Script}
    (h : seedProperties useDocs s = (s', none)) :
    ∀ d ∈ s'.classes, ∀ p ∈ d.properties, p.ty.isNormal = true := by
  obtain ⟨rfl, hnone⟩ := Prod.mk.inj h
  intro d hd p hp
  rw [List.mem_toArray] at hd
  obtain ⟨d₀, -, hd₀⟩ := exists_of_updateUntil (Prod.ext rfl hnone) hd
  obtain ⟨rfl, hnone⟩ := Prod.mk.inj hd₀
  obtain ⟨p₀, -, hp₀⟩ := exists_of_updateUntil (Prod.ext rfl hnone) hp
  rw [seedProperty] at hp₀
  split at hp₀
  · next t ht =>
    obtain ⟨rfl, -⟩ := Prod.mk.inj hp₀
    exact isNormal_of_propertyType ht
  · cases hp₀

namespace Context

variable {c : Context}

/-- Where every property has a type, none is found without one. -/
theorem propertyTypes_ne_none (hproperties : ∀ d ∈ c.script.classes, ∀ p ∈ d.properties,
      p.ty.isUnknown = false) (name : String) (classes : List ClassId) :
    c.propertyTypes name classes ≠ .ok none := by
  induction classes with
  | nil => nofun
  | cons cls rest ih =>
    intro h
    obtain ⟨d, hd, h⟩ := bind_eq_ok.mp h
    split at h
    · exact ih h
    · next p hp =>
      split at h
      · next hunknown =>
        rw [Script.classDecl] at hd
        split at hd
        · next d' hd' =>
          obtain rfl := Except.ok.inj hd
          rw [hproperties d' (Array.mem_of_getElem? hd') p (List.mem_of_find?_eq_some hp)]
            at hunknown
          cases hunknown
        · cases hd
      · obtain ⟨r, hr, hmap⟩ := map_eq_ok.mp h
        rcases r with - | ts
        · exact ih hr
        · cases hmap

/-- What is given in a run is definite, but for operands without a type. -/
theorem isDefinite_of_given (hoperands : c.script.PlainTypes)
    (hproperties : ∀ d ∈ c.script.classes, ∀ p ∈ d.properties, p.ty.isNormal = true) {t : Ty}
    (h : c.Given t) (hknown : t.isUnknown = false) : t.isDefinite = true := by
  cases h with
  | operand ho =>
    rcases hoperands _ (Array.mem_of_getElem? (Script.operand_eq_ok.mp ho)) with h | h
    · rw [h] at hknown
      cases hknown
    · exact h
  | receiver _ _ ht | tested _ _ ht | signature _ ht | methodSignature _ ht | constant _ ht =>
    exact Ty.isDefinite_of_isNormal (isNormal_of_readDecl ht)
  | property hd hp =>
    rw [Script.classDecl] at hd
    split at hd
    · next d hd' =>
      obtain rfl := Except.ok.inj hd
      exact Ty.isDefinite_of_isNormal (hproperties d (Array.mem_of_getElem? hd') _ hp)
    · cases hd
  | function _ ht => exact Ty.isDefinite_of_isNormal (isNormal_of_functionReturn ht)
  | method _ ht => exact Ty.isDefinite_of_isNormal (isNormal_of_methodReturn ht)
  | param _ ht => exact Ty.isDefinite_of_isNormal (isNormal_of_param ht)

/-! ### Guards -/

mutual

theorem testType_definite (hgiven : ∀ t, c.Given t → t.isUnknown = false → t.isDefinite = true)
    {known : Known} (hd : known.Definite) : (test : TypeTest) →
    Yields (fun _ => True) (fun r => ∀ t, r = some t → t.isDefinite = true)
      (testType c known test)
  | .operand id =>
    testType_yields (c.leads_all fun _ _ => trivial) trivial hgiven fun u _ => hd u
  | .comb k ms => by
    rw [testType]
    refine (testTypes_definite hgiven hd ms).map fun r _ hr t ht => ?_
    obtain ⟨ts, hts, rfl⟩ := Option.map_eq_some_iff.mp ht
    rw [Ty.isDefinite, Ty.allDefinite_iff]
    exact hr ts hts

theorem testTypes_definite (hgiven : ∀ t, c.Given t → t.isUnknown = false → t.isDefinite = true)
    {known : Known} (hd : known.Definite) : (tests : List TypeTest) →
    Yields (fun _ => True) (fun r => ∀ ts, r = some ts → ∀ t ∈ ts, t.isDefinite = true)
      (testTypes c known tests)
  | [] => by
    rw [testTypes]
    rintro ts ⟨⟩ t ht
    exact absurd ht List.not_mem_nil
  | m :: ms => by
    rw [testTypes]
    refine (testType_definite hgiven hd m).bind fun r _ hr => ?_
    split
    · nofun
    · refine (testTypes_definite hgiven hd ms).map fun r' _ hr' us hus => ?_
      obtain ⟨ts, hts, rfl⟩ := Option.map_eq_some_iff.mp hus
      exact List.forall_mem_cons.mpr ⟨hr _ rfl, hr' ts hts⟩

end

section Visits

variable (hgiven : ∀ t, c.Given t → t.isUnknown = false → t.isDefinite = true)
include hgiven

theorem guardType_definite {known : Known} (hd : known.Definite) (expr : OperandId)
    (guard : Guard) :
    Yields (fun _ => True) (fun r => ∀ t, r = some t → t.isDefinite = true)
      (guardType c known expr guard) := by
  induction guard with
  | holds test => exact testType_definite hgiven hd test
  | fails g ih =>
    rw [guardType]
    refine ih.bind fun r _ _ => ?_
    split
    · intro t ht
      cases ht
    · -- what is narrowed is the type entered, or anything
      have hsource : ((known expr).getD .mixed).isDefinite = true := by
        rcases e : known expr with - | t
        · exact Ty.isDefinite_mixed
        · exact hd expr t e
      simp only
      split
      · next t ht =>
        rintro u ⟨⟩
        exact Ty.isDefinite_remove hsource ht
      · trivial

/-! ### Visits -/

/-- A verdict among definite types is a definite type. -/
theorem verdict_definite {known : Known} (hd : known.Definite) (v : OperandId) :
    Yields (fun _ => True) (Verdict.All fun t => t.isDefinite = true) (c.verdict known v) := by
  refine verdict_yields (c.leads_all fun _ _ => trivial) Ty.class_definite hgiven trivial
    fun op _ => ⟨?_, ?_⟩
  · exact fun u _ => hd u
  · exact fun expr guard _ => guardType_definite hgiven hd expr guard

/-- **What a visit preserves.**  Types entered stay definite. -/
theorem definite_visit {b b' : Board} (hd : Known.Definite b.1.find?) (h : c.Visit b b') :
    Known.Definite b'.1.find? := by
  cases h with
  | provisional _ e | confirmed _ e => exact hd.insert ((verdict_definite hgiven hd _).of_ok e)

theorem definite_visits {b b' : Board} (hd : Known.Definite b.1.find?)
    (h : ReflTransGen c.Visit b b') : Known.Definite b'.1.find? := by
  induction h with
  | refl => exact hd
  | tail _ hv ih => exact definite_visit hgiven ih hv

theorem definite_seed {start : Progress} (h : seed c.script = .ok start) :
    start.known.Definite := by
  intro v t ht
  obtain ⟨hknown, ht | ht⟩ := given_of_seeds (((seed_spec h).2.2 v t).mp ht)
  · exact hgiven t ht hknown
  · exact Ty.class_definite.simple t ht

end Visits

end Context

/-! ### The end of a run -/

/-- The types at the end of a run, operand by operand. -/
theorem types_writeBack (s : Script) (p : Progress) :
    (writeBack s p).operands.toList.map Operand.ty =
      (List.range s.operands.size).map p.final := by
  refine List.ext_getElem? fun id => ?_
  rw [List.getElem?_map, List.getElem?_map, Array.getElem?_toList, getElem?_writeBack,
    Option.map_map]
  by_cases h : id < s.operands.size
  · rw [Array.getElem?_eq_getElem h, List.getElem?_range h]
    rfl
  · rw [Array.getElem?_eq_none (by omega), List.getElem?_eq_none (by simpa using h)]
    rfl

/-- Members of a list without repetitions, counted in a range that has them all. -/
theorem countP_range_mem {vs : List OperandId} {n : Nat} (hn : vs.Nodup)
    (hlt : ∀ v ∈ vs, v < n) : (List.range n).countP (fun v => decide (v ∈ vs)) = vs.length := by
  rw [List.countP_eq_length_filter]
  refine ((List.perm_ext_iff_of_nodup (List.nodup_range.filter _) hn).mpr fun v => ?_).length_eq
  simpa using hlt v

/-- An operand has a seed or is open, if no operand has a fault. -/
theorem seeds_or_isOpen {s : Script} {start : Progress} (h : seed s = .ok start) {v : OperandId}
    (hv : v < s.operands.size) : (∃ t, s.Seeds v t) ∨ s.isOpen v = true := by
  obtain ⟨o, ho⟩ : ∃ o, s.operand v = .ok o :=
    ⟨_, Script.operand_eq_ok.mpr (Array.getElem?_eq_getElem hv)⟩
  have hmem := Array.mem_of_getElem? (Script.operand_eq_ok.mp ho)
  obtain ⟨r, hr⟩ := exists_seed_iff.mp ⟨start, h⟩ o hmem
  rcases r with - | t
  · exact .inr (Script.isOpen_iff.mpr ⟨o, ho, hr⟩)
  · exact .inl ⟨t, o, ho, hr⟩

/-- The end of a run that has entered definite types only. -/
structure DefiniteEnd (s : Script) (last : Progress) : Prop where
  nodup : last.pending.Nodup
  lt_size : ∀ v ∈ last.pending, v < s.operands.size
  definite : ∀ v < s.operands.size, v ∉ last.pending → (last.final v).isDefinite = true

namespace DefiniteEnd

variable {s : Script} {last : Progress} (h : DefiniteEnd s last)
include h

/-- The operands still open are those without a type. -/
theorem isUnknown_iff {v : OperandId} (hv : v < s.operands.size) :
    (last.final v).isUnknown = true ↔ v ∈ last.pending := by
  constructor
  · intro hunknown
    by_contra hp
    rw [Ty.isUnknown_of_isDefinite (h.definite v hv hp)] at hunknown
    cases hunknown
  · intro hp
    rw [Progress.final, if_pos hp]
    rfl

theorem plainTypes : (writeBack s last).PlainTypes := by
  intro o ho
  obtain ⟨v, hv, hty⟩ : ∃ v, v < s.operands.size ∧ last.final v = o.ty := by
    have hmem := List.mem_map_of_mem (f := Operand.ty) (Array.mem_toList_iff.mpr ho)
    rw [types_writeBack] at hmem
    obtain ⟨v, hv, hty⟩ := List.mem_map.mp hmem
    exact ⟨v, List.mem_range.mp hv, hty⟩
  rw [← hty]
  by_cases hp : v ∈ last.pending
  · exact .inl (if_pos hp)
  · exact .inr (h.definite v hv hp)

theorem countP_isUnknown :
    (writeBack s last).operands.countP (fun o => o.ty.isUnknown) = last.pending.length := by
  have hcount : (List.range s.operands.size).countP (fun v => (last.final v).isUnknown) =
      (List.range s.operands.size).countP (fun v => decide (v ∈ last.pending)) := by
    refine List.countP_congr fun v hv => ?_
    rw [h.isUnknown_iff (List.mem_range.mp hv), decide_eq_true_iff]
  calc (writeBack s last).operands.countP (fun o => o.ty.isUnknown)
      = ((writeBack s last).operands.toList.map Operand.ty).countP Ty.isUnknown := by
        rw [← Array.countP_toList, List.countP_map]
        rfl
    _ = (List.range s.operands.size).countP (fun v => (last.final v).isUnknown) := by
        rw [types_writeBack, List.countP_map]
        rfl
    _ = last.pending.length := by
        rw [hcount, countP_range_mem h.nodup h.lt_size]

end DefiniteEnd

/-- The end of a run over a script whose operands have definite types or none. -/
theorem definiteEnd_of_solution {s : Script} {signatures : Signatures} {options : Options}
    (hs : s.PlainTypes) {c : Context} {last : Progress}
    (h : solution s signatures options = .ok (c, last)) : DefiniteEnd c.script last := by
  obtain ⟨hproperties, -, -, start, hseed, hiter⟩ := solution_eq_ok.mp h
  have hoperands : c.script.PlainTypes := by
    rw [Script.PlainTypes, (operands_of_seedProperties hproperties).1]
    exact hs
  have hgiven : ∀ t, c.Given t → t.isUnknown = false → t.isDefinite = true :=
    fun t => Context.isDefinite_of_given hoperands (isNormal_of_seedProperties hproperties)
  obtain ⟨hlast, hvisits⟩ := Context.coherent_of_iterate hseed hiter
  have hdefinite : last.known.Definite :=
    Context.definite_visits hgiven (b := start.board) (Context.definite_seed hgiven hseed) hvisits
  refine ⟨hlast.nodup, fun v hv => Script.lt_size_of_isOpen (hlast.isOpen v hv), ?_⟩
  intro v hv hp
  obtain ⟨t, ht⟩ : ∃ t, last.known v = some t := by
    rcases seeds_or_isOpen hseed hv with ⟨t, hs⟩ | ho
    · exact ⟨t, hlast.seeds v t hs⟩
    · exact hlast.closed v ho hp
  rw [Progress.final, if_neg hp, ht]
  exact hdefinite v t ht

/-! ### Runs that follow -/

/-- One script is what a run over the other leaves, with or without a fault. -/
def Leaves (s s' : Script) : Prop :=
  ∃ signatures options, (infer s signatures options).1 = s'

/-- Where every operand has a type, a run has nothing to do. -/
theorem infer_of_allTyped {s : Script} (hs : s.AllTyped) (signatures : Signatures)
    (options : Options) :
    (infer s signatures options).1.operands = s.operands ∧
      ∀ out, (infer s signatures options).2 = .ok out → out.report.rounds = 0 := by
  rw [infer_eq]
  rcases e : solution s signatures options with f | ⟨c, last⟩
  · exact ⟨(operands_of_seedProperties rfl).1, nofun⟩
  obtain ⟨hproperties, -, -, start, hseed, hiter⟩ := solution_eq_ok.mp e
  have hoperands := (operands_of_seedProperties hproperties).1
  -- every operand is its own seed, and none is open
  have htype {v : OperandId} {o : Operand} (ho : c.script.operand v = .ok o) :
      seedType o = .ok (some o.ty) := by
    have hmem := Array.mem_of_getElem? (Script.operand_eq_ok.mp ho)
    rw [hoperands] at hmem
    rw [seedType, hs o hmem]
    rfl
  have hopen : start.pending = [] := by
    rw [(seed_spec hseed).2.1, List.eq_nil_iff_forall_not_mem]
    intro v hv
    obtain ⟨o, ho, hnone⟩ := Script.isOpen_iff.mp (Script.mem_openOperands.mp hv)
    rw [htype ho] at hnone
    cases hnone
  rw [Context.iterate_of_isEmpty (by rw [hopen]; rfl)] at hiter
  obtain rfl := Except.ok.inj hiter
  constructor
  · show (writeBack c.script start).operands = s.operands
    rw [← hoperands]
    refine Array.ext_getElem? fun v => ?_
    rw [getElem?_writeBack]
    rcases ho : c.script.operands[v]? with - | o
    · rfl
    · have hv := Script.operand_eq_ok.mpr ho
      have hknown : start.known v = some o.ty :=
        ((seed_spec hseed).2.2 v o.ty).mpr ⟨o, hv, htype hv⟩
      have hfinal : start.final v = o.ty := by
        rw [Progress.final, hopen, if_neg List.not_mem_nil, hknown]
        rfl
      rw [Option.map_some, hfinal]
  · intro out hout
    obtain rfl := Except.ok.inj hout
    exact (seed_spec hseed).1

theorem operands_of_leaves {s s' : Script} (hs : s.AllTyped) (h : ReflTransGen Leaves s s') :
    s'.operands = s.operands := by
  induction h with
  | refl => rfl
  | @tail s₁ s₂ _ hlast ih =>
    obtain ⟨signatures, options, rfl⟩ := hlast
    have hs₁ : s₁.AllTyped := by
      rw [Script.AllTyped, ih]
      exact hs
    rw [(infer_of_allTyped hs₁ signatures options).1, ih]

/-- **No type is half known.**  If every operand has a definite type or none before a
run, the report counts the operands without a type, all other types of operands and
all types of properties are definite, and the run has found no property without a
type.  If it has converged, the runs that follow have no rounds and leave the operands
as they are. -/
theorem infer_definite {s s' : Script} {signatures : Signatures} {options : Options}
    {out : Outcome} (hs : s.PlainTypes) (h : infer s signatures options = (s', .ok out)) :
    out.report.unresolved = s'.operands.countP (fun o => o.ty.isUnknown) ∧
    s'.PlainTypes ∧
    (∀ d ∈ s'.classes, ∀ p ∈ d.properties, p.ty.isDefinite = true) ∧
    (∃ c, setting s signatures options = .ok c ∧
      ∀ name classes, c.propertyTypes name classes ≠ .ok none) ∧
    (out.report.converged = true →
      ∀ s₁, ReflTransGen Leaves s' s₁ → ∀ signatures₁ options₁ s₂ out₂,
        infer s₁ signatures₁ options₁ = (s₂, .ok out₂) →
        out₂.report.rounds = 0 ∧ s₂.operands = s'.operands) := by
  obtain ⟨c, last, hsol, rfl, rfl⟩ := infer_eq_ok.mp h
  have hend := definiteEnd_of_solution hs hsol
  obtain ⟨hproperties, hbuild, hoptions, -⟩ := solution_eq_ok.mp hsol
  have hnormal := isNormal_of_seedProperties hproperties
  refine ⟨hend.countP_isUnknown.symm, hend.plainTypes,
    fun d hd p hp => Ty.isDefinite_of_isNormal (hnormal d hd p hp), ⟨c, ?_, ?_⟩, ?_⟩
  · rw [setting, hproperties, ← hoptions]
    show (Lookup.build c.script signatures).map _ = _
    rw [hbuild]
    rfl
  · exact Context.propertyTypes_ne_none fun d hd p hp =>
      Ty.isUnknown_of_isNormal (hnormal d hd p hp)
  · intro hconverged s₁ hleaves signatures₁ options₁ s₂ out₂ h₂
    have hpending : last.pending = [] := List.isEmpty_iff.mp hconverged
    have htyped : (writeBack c.script last).AllTyped := by
      intro o ho
      rcases hend.plainTypes o ho with hunknown | hdefinite
      · -- an operand without a type would have been counted
        have hcount := hend.countP_isUnknown
        rw [hpending, List.length_nil, Array.countP_eq_zero] at hcount
        exact absurd (by rw [hunknown]; rfl) (hcount o ho)
      · exact Ty.isUnknown_of_isDefinite hdefinite
    have hoperands := operands_of_leaves htyped hleaves
    have htyped₁ : s₁.AllTyped := by
      rw [Script.AllTyped, hoperands]
      exact htyped
    have hrun := infer_of_allTyped htyped₁ signatures₁ options₁
    rw [h₂] at hrun
    exact ⟨hrun.2 out₂ rfl, hrun.1.trans hoperands⟩

/-- A script with an array whose elements are known beforehand, and one of them. -/
def firstElement : Script where
  operands := #[
    { kind := .variable (some "values"), ty := .arrayOf .int },
    { kind := .variable (some "first"), ops := [0] }]
  ops := #[.dimFetch 0 none]

/-- `firstElement` with an operand of which nothing can be found. -/
def firstElementAndMore : Script :=
  (firstElement.addVar "more").1

/-- The run over `firstElement` converges, and runs that follow have nothing to do; the
run over `firstElementAndMore` ends with one operand without a type. -/
theorem infer_definite_firstElement :
    (∃ s' out, infer firstElement {} {} = (s', .ok out) ∧ out.report.converged = true ∧
      ∀ s₁, ReflTransGen Leaves s' s₁ → ∀ signatures₁ options₁ s₂ out₂,
        infer s₁ signatures₁ options₁ = (s₂, .ok out₂) →
        out₂.report.rounds = 0 ∧ s₂.operands = s'.operands) ∧
    ∃ s' out, infer firstElementAndMore {} {} = (s', .ok out) ∧
      out.report.unresolved = 1 ∧ s'.operands.countP (fun o => o.ty.isUnknown) = 1 := by
  obtain ⟨s₁, out₁, h₁, hconverged⟩ : ∃ s' out, infer firstElement {} {} = (s', .ok out) ∧
      out.report.converged = true := ⟨_, _, rfl, rfl⟩
  obtain ⟨s₂, out₂, h₂, hcount⟩ : ∃ s' out, infer firstElementAndMore {} {} = (s', .ok out) ∧
      out.report.unresolved = 1 := ⟨_, _, rfl, rfl⟩
  have hplain₁ : firstElement.PlainTypes := by
    intro o ho
    simp only [firstElement, List.mem_toArray, List.mem_cons, List.not_mem_nil, or_false] at ho
    rcases ho with rfl | rfl
    · exact .inr rfl
    · exact .inl rfl
  have hplain₂ : firstElementAndMore.PlainTypes := by
    intro o ho
    rcases Array.mem_push.mp ho with ho | rfl
    · exact hplain₁ o ho
    · exact .inl rfl
  exact ⟨⟨s₁, out₁, h₁, hconverged, (infer_definite hplain₁ h₁).2.2.2.2 hconverged⟩,
    s₂, out₂, h₂, hcount, (infer_definite hplain₂ h₂).1.symm.trans hcount⟩

end Inference

end SsaTypes
