/-
SsaTypes/Proofs/Inert.lean

Types on which no rule acts.  A rule that waits for more than the presence of a
type waits for a string, an object of a known class or an array with a known
element type.  Any other type is inert, except for a bare array: it counts as
the same as any other array and decides which of them a merge gives.

A type fades when it stays or becomes inert, and candidates that have faded
have a faded merge (`fades_merge`).  A merge needs candidates that are not
unknown, so what is said of faded types is said of definite ones, of which no
part is unknown.
-/
import Mathlib.Data.List.Forall2
import SsaTypes.Ty.Combine

namespace SsaTypes

namespace Ty

/-- Whether no rule waits for this type, nor for one that counts as the same. -/
def isInert : Ty → Bool
  | .string | .named _ | .array | .arrayOf _ => false
  | _ => true

mutual

/-- Whether no part of a type is unknown. -/
def isDefinite : Ty → Bool
  | .unknown => false
  | .arrayOf e => isDefinite e
  | .comb _ ms => allDefinite ms
  | _ => true

/-- Whether no part of any type of a list is unknown. -/
def allDefinite : List Ty → Bool
  | [] => true
  | t :: ts => isDefinite t && allDefinite ts

end

theorem allDefinite_iff {ts : List Ty} :
    allDefinite ts = true ↔ ∀ t ∈ ts, t.isDefinite = true := by
  induction ts with
  | nil => simp [allDefinite]
  | cons t ts ih => simp [allDefinite, ih]

theorem isUnknown_of_isDefinite {t : Ty} (h : t.isDefinite = true) : t.isUnknown = false := by
  cases t with
  | unknown => simp [isDefinite] at h
  | _ => rfl

theorem isInert_of_same {t u : Ty} (h : same t u = true) : t.isInert = u.isInert := by
  cases t <;> cases u <;> first | rfl | simp [same, isArray] at h

/-- The second type is the first, or inert. -/
def Fades (t u : Ty) : Prop :=
  u = t ∨ u.isInert = true

/-- If the first type is unknown, so is the second. -/
def Hides (t u : Ty) : Prop :=
  t.isUnknown = true → u.isUnknown = true

theorem hides_of_isUnknown {t u : Ty} (h : t.isUnknown = false) : Hides t u := by
  intro ht
  rw [h] at ht
  cases ht

theorem hides_refl (t : Ty) : Hides t t :=
  fun h => h

theorem forall₂_hides_refl (ts : List Ty) : List.Forall₂ Hides ts ts :=
  List.forall₂_same.mpr fun t _ => hides_refl t

/-! ### Merging -/

/-- Where a merge is not inert, none of its candidates is. -/
theorem isInert_of_merge {ts : List Ty} {a : Ty} (h : merge? ts = some a)
    (ha : ¬ a.isInert = true) : ∀ t ∈ ts, ¬ t.isInert = true := by
  match ts, h with
  | [t], h =>
    obtain rfl := Option.some.inj h
    simpa using ha
  | t :: u :: ts, h =>
    rw [merge?] at h
    · split at h
      · cases h
      · split at h
        · next hall =>
          -- all candidates count as the same, and the first is taken
          obtain rfl := Option.some.inj h
          intro w hw
          rcases List.mem_cons.mp hw with rfl | hw
          · exact ha
          · rw [isInert_of_same (List.all_eq_true.mp hall w hw)]
            exact ha
        · obtain rfl := Option.some.inj h
          simp [simplify, isInert] at ha
    · simp

theorem eq_of_forall₂_fades {ts us : List Ty} (h : List.Forall₂ Fades ts us)
    (hus : ∀ u ∈ us, ¬ u.isInert = true) : us = ts := by
  induction h with
  | nil => rfl
  | cons htu _ ih =>
    obtain rfl := htu.resolve_right (hus _ List.mem_cons_self)
    rw [ih fun u hu => hus u (List.mem_cons_of_mem _ hu)]

/-- Faded candidates have a faded merge. -/
theorem fades_merge {ts us : List Ty} (h : List.Forall₂ Fades ts us) {a b : Ty}
    (ha : merge? ts = some a) (hb : merge? us = some b) : Fades a b := by
  by_cases hi : b.isInert = true
  · exact .inr hi
  · -- no candidate can have become inert, so they are the old ones
    left
    rw [eq_of_forall₂_fades h (isInert_of_merge hb hi), ha] at hb
    exact (Option.some.inj hb).symm

theorem isUnknown_of_forall₂_hides {ts us : List Ty} (h : List.Forall₂ Hides ts us)
    (hts : ts.any isUnknown = true) : us.any isUnknown = true := by
  induction h with
  | nil => exact hts
  | cons htu _ ih =>
    rw [List.any_cons, Bool.or_eq_true] at hts ⊢
    exact hts.imp htu ih

/-- Candidates without a merge have none after more of them have become unknown. -/
theorem merge_none_of_hides {ts us : List Ty} (h : List.Forall₂ Hides ts us)
    (hts : merge? ts = none) : merge? us = none := by
  match ts, us, h with
  | [], [], _ => rfl
  | [t], [u], _ => cases hts
  | t :: t' :: ts, u :: u' :: us, h =>
    rw [merge?] at hts
    · split at hts
      · next hany =>
        rw [merge?, if_pos (isUnknown_of_forall₂_hides h hany)]
        simp
      · split at hts <;> cases hts
    · simp

mutual

theorem isDefinite_simplify : (t : Ty) → t.isDefinite = true → (simplify t).isDefinite = true
  | .comb k ms, h => by
    rw [simplify, isDefinite]
    exact allDefinite_flatten k ms (by rw [isDefinite] at h; exact h)
  | .unknown, h | .null, h | .bool, h | .int, h | .float, h | .string, h | .callable, h
  | .object, h | .named _, h | .array, h | .arrayOf _, h => h

theorem allDefinite_flatten (k : Comb) :
    (ms : List Ty) → allDefinite ms = true → allDefinite (flatten k ms) = true
  | [], _ => by rw [flatten, allDefinite]
  | m :: ms, h => by
    rw [allDefinite, Bool.and_eq_true] at h
    have hm := isDefinite_simplify m h.1
    have hms := allDefinite_flatten k ms h.2
    rw [flatten]
    split
    · next l inner e =>
      rw [e, isDefinite] at hm
      split
      · rw [allDefinite_iff] at hm hms ⊢
        intro t ht
        exact (List.mem_append.mp ht).elim (hm t) (hms t)
      · rw [allDefinite, isDefinite, hm, hms]
        rfl
    · rw [allDefinite, hm, hms]
      rfl

end

theorem isDefinite_merge {ts : List Ty} (hts : ∀ t ∈ ts, t.isDefinite = true) {a : Ty}
    (h : merge? ts = some a) : a.isDefinite = true := by
  match ts, h with
  | [t], h =>
    obtain rfl := Option.some.inj h
    exact hts t List.mem_cons_self
  | t :: u :: ts, h =>
    rw [merge?] at h
    · split at h
      · cases h
      · split at h
        · obtain rfl := Option.some.inj h
          exact hts t List.mem_cons_self
        · obtain rfl := Option.some.inj h
          refine isDefinite_simplify _ ?_
          rw [isDefinite]
          exact allDefinite_iff.mpr hts
    · simp

theorem isDefinite_mixed : mixed.isDefinite = true := by
  simp [mixed, isDefinite, allDefinite]

/-- What is left of a definite type is definite. -/
theorem isDefinite_remove {t excluded a : Ty} (ht : t.isDefinite = true)
    (h : t.remove? excluded = some a) : a.isDefinite = true := by
  cases t with
  | comb k ms =>
    rw [isDefinite, allDefinite_iff] at ht
    have hkept : ∀ m ∈ ms.filter fun m => !same m excluded, m.isDefinite = true :=
      fun m hm => ht m (List.mem_filter.mp hm).1
    rw [remove?] at h
    split at h
    · cases h
    · next m hm =>
      obtain rfl := Option.some.inj h
      exact hkept m (by rw [hm]; exact List.mem_cons_self)
    · obtain rfl := Option.some.inj h
      rw [isDefinite, allDefinite_iff]
      exact hkept
  | _ =>
    simp only [remove?] at h
    split at h
    · obtain rfl := Option.some.inj h
      rfl
    · obtain rfl := Option.some.inj h
      exact ht

theorem isUnknown_remove {t excluded a : Ty} (ht : t.isDefinite = true)
    (h : t.remove? excluded = some a) : a.isUnknown = false :=
  isUnknown_of_isDefinite (isDefinite_remove ht h)

end Ty

end SsaTypes
