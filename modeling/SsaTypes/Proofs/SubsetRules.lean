/-
SsaTypes/Proofs/SubsetRules.lean

How a subset comes about.  `isSubset` tries its cases in a fixed order, and

    isSubset a b = true   →   Below a b                         (`below_of_isSubset`)

says which of them can give the answer: the two types are the same, or the members of one
of them stand below or above the other, or they are two plain types.  Between known types
each of these does give it (`isSubset_of_below`).  A rule for the members of `a` or of `b` applies only where no earlier case takes `a` and
`b`, so each rule says which types it is for.
-/
import SsaTypes.Proofs.NormalForm
import SsaTypes.Proofs.Sameness
import SsaTypes.Ty.Subset

namespace SsaTypes.Ty

open Text

/-! ### Shapes -/

theorem exists_of_isComb {k : Comb} {t : Ty} (h : t.isComb k = true) : ∃ ms, t = .comb k ms := by
  cases t with
  | comb l ms => exact ⟨ms, by rw [of_decide_eq_true h]⟩
  | _ => cases h

theorem isComb_eq_false_iff {k : Comb} {t : Ty} :
    t.isComb k = false ↔ ∀ ms, t = .comb k ms → False := by
  cases t with
  | comb l ms => simp [isComb]
  | _ => simp [isComb]

theorem isComb_of_same {a b : Ty} (h : same a b = true) (k : Comb) : a.isComb k = b.isComb k := by
  cases a <;> cases b <;> simp_all [same, isComb, isArray]

theorem exists_named_of_same {c : String} {t : Ty} (h : same (.named c) t = true) :
    ∃ d, t = .named d ∧ sameName c d = true := by
  cases t with
  | named d => exact ⟨d, rfl, h⟩
  | _ => cases h

theorem isClosure_of_sameName {c d : String} (h : sameName c d = true) :
    isClosure c = isClosure d := by
  rw [sameName_iff] at h
  rw [isClosure, isClosure, sameName, sameName, h]

/-! ### The rules -/

/-- One step of the relation: the case that answers, with what it asks of members and
elements. -/
inductive Below : Ty → Ty → Prop
  | same {a b : Ty} : same a b = true → a.isArray = false → Below a b
  | unionLeft {ms : List Ty} {b : Ty} :
      (∀ m ∈ ms, isSubset m b = true) → Below (.union ms) b
  | interRight {a : Ty} {ns : List Ty} :
      a.isComb .union = false → (∀ n ∈ ns, isSubset a n = true) → Below a (.inter ns)
  | interLeft {ms : List Ty} {m b : Ty} :
      b.isComb .inter = false → m ∈ ms → isSubset m b = true → Below (.inter ms) b
  | unionRight {a n : Ty} {ns : List Ty} :
      (∀ k, a.isComb k = false) → n ∈ ns → isSubset a n = true → Below a (.union ns)
  | object {c : String} : Below (.named c) .object
  | closure {c : String} : isClosure c = true → Below (.named c) .callable
  | array {a : Ty} : a.isArray = true → Below a .array
  | element {e f : Ty} : isSubset e f = true → Below (.arrayOf e) (.arrayOf f)

variable {a b : Ty}

theorem below_of_isSubset (h : isSubset a b = true) : Below a b := by
  rw [isSubset_eq] at h
  split at h
  · cases h
  split at h
  · next hsame =>
    rw [Bool.and_eq_true, Bool.not_eq_true'] at hsame
    exact .same hsame.1 hsame.2
  split at h
  · exact .unionLeft (List.all_eq_true.mp h)
  · next hunion _ _ => exact .interRight (isComb_eq_false_iff.mpr hunion) (List.all_eq_true.mp h)
  · next hinter =>
    obtain ⟨m, hm, hb⟩ := List.any_eq_true.mp h
    exact .interLeft (isComb_eq_false_iff.mpr hinter) hm hb
  · next hunion hinter _ _ =>
    obtain ⟨n, hn, ha⟩ := List.any_eq_true.mp h
    refine .unionRight (fun k => isComb_eq_false_iff.mpr ?_) hn ha
    cases k with
    | union => exact hunion
    | inter => exact hinter
  · exact .object
  · exact .closure h
  · exact .array rfl
  · exact .array rfl
  · exact .element h
  · cases h

theorem isSubset_of_below (ha : a.isUnknown = false) (hb : b.isUnknown = false)
    (h : Below a b) : isSubset a b = true := by
  rw [isSubset_eq, ha, hb]
  cases h with
  | same hsame harray => simp [hsame, harray]
  | unionLeft h => simpa using .inr h
  | @interRight a ns hk h =>
    cases a with
    | comb k ms =>
      cases k with
      | union => cases hk
      | inter => simpa using .inr h
    | _ => simpa using .inr h
  | @interLeft ms m b hk hm h =>
    cases b with
    | comb l ns =>
      cases l with
      | union => simpa using .inr ⟨m, hm, h⟩
      | inter => cases hk
    | _ => simpa using .inr ⟨m, hm, h⟩
  | @unionRight a n ns hk hn h =>
    cases a with
    | comb k ms => exact absurd (hk k) (by simp [isComb])
    | _ => simpa using .inr ⟨n, hn, h⟩
  | object => rfl
  | closure h => exact h
  | @array a h =>
    cases a with
    | array | arrayOf => rfl
    | _ => cases h
  | element h => simpa [isArray] using h

end SsaTypes.Ty
