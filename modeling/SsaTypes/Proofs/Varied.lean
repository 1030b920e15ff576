/-
SsaTypes/Proofs/Varied.lean

Types that no subtraction empties.  Taking a type away leaves nothing of a union
or an intersection exactly if every member is the same as that type, so
members that are not the same as each other are never all lost:

    varied whole  →  remove? whole t ≠ none.

A type is varied if that holds of every union and intersection in it.  Varied
candidates have a varied merge: candidates that are not all the same are parts
of their union that differ, or one of them is a union already and brings two
such parts along.
-/
import SsaTypes.Proofs.NormalForm
import SsaTypes.Proofs.Sameness

namespace SsaTypes.Ty

/-- Nothing is left of a union or an intersection of one repeated member, and
of nothing else. -/
theorem remove?_eq_none_iff {whole t : Ty} :
    whole.remove? t = none ↔ ∃ k ms, whole = .comb k ms ∧ ∀ m ∈ ms, same m t = true := by
  cases whole with
  | comb k ms =>
    rw [remove?]
    have hnil : (ms.filter fun m => !same m t) = [] ↔ ∀ m ∈ ms, same m t = true := by
      simp [List.filter_eq_nil_iff]
    constructor
    · intro h
      split at h
      · exact ⟨k, ms, rfl, hnil.1 ‹_›⟩
      · cases h
      · cases h
    · rintro ⟨l, ns, heq, h⟩
      obtain ⟨-, rfl⟩ := comb.inj heq
      rw [hnil.2 h]
  | _ =>
    -- a type without members leaves null or itself
    refine iff_of_false ?_ ?_
    · simp only [remove?]
      split <;> exact Option.some_ne_none _
    · rintro ⟨k, ms, h, -⟩
      cases h

mutual

/-- Whether every union and intersection in a type has two members that are not
the same, and none of its own kind. -/
def isVaried : Ty → Bool
  | .arrayOf e => isVaried e
  | .comb k ms => (ms.any fun m => ms.any fun n => !same m n) && allVaried k ms
  | _ => true

/-- Whether all types of a list are varied and none is of kind `k`. -/
def allVaried (k : Comb) : List Ty → Bool
  | [] => true
  | m :: ms => isVaried m && !isComb k m && allVaried k ms

end

theorem allVaried_iff {k : Comb} {ms : List Ty} :
    allVaried k ms = true ↔ ∀ m ∈ ms, m.isVaried = true ∧ m.isComb k = false := by
  induction ms with
  | nil => simp [allVaried]
  | cons m ms ih => simp [allVaried, ih]

theorem isVaried_comb {k : Comb} {ms : List Ty} :
    (comb k ms).isVaried = true ↔
      (∃ m ∈ ms, ∃ n ∈ ms, same m n = false) ∧
        ∀ m ∈ ms, m.isVaried = true ∧ m.isComb k = false := by
  rw [isVaried, Bool.and_eq_true, allVaried_iff]
  simp

/-- **Something is left of a varied type.** -/
theorem exists_remove {whole : Ty} (h : whole.isVaried = true) (t : Ty) :
    ∃ u, whole.remove? t = some u := by
  rw [← Option.ne_none_iff_exists']
  intro hnone
  obtain ⟨k, ms, rfl, hall⟩ := remove?_eq_none_iff.1 hnone
  obtain ⟨⟨m, hm, n, hn, hmn⟩, -⟩ := isVaried_comb.1 h
  -- two members that are the same as `t` are the same
  have hsame := alike.trans m t n trivial trivial trivial (hall m hm)
    (alike.symm n t trivial trivial (hall n hn))
  rw [hsame] at hmn
  cases hmn

theorem simplify_of_isVaried {t : Ty} (h : t.isVaried = true) : simplify t = t := by
  induction t using inductOn with
  | comb k ms ih =>
    have hms := (isVaried_comb.1 h).2
    exact simplify_comb fun m hm => ⟨ih m hm (hms m hm).1, (hms m hm).2⟩
  | _ => rfl

theorem isVaried_of_mem_parts {k : Comb} {t m : Ty} (h : t.isVaried = true) (hm : m ∈ parts k t) :
    m.isVaried = true ∧ m.isComb k = false := by
  rcases parts_cases k t with ⟨ms, rfl, hp⟩ | ⟨hk, hp⟩
  · rw [hp] at hm
    exact (isVaried_comb.1 h).2 m hm
  · rw [hp, List.mem_singleton] at hm
    exact hm ▸ ⟨h, hk⟩

/-- Two varied types that are not the same have two parts that are not. -/
theorem exists_parts_differ {k : Comb} {t u : Ty} (ht : t.isVaried = true)
    (hu : u.isVaried = true) (h : same u t = false) :
    ∃ m ∈ parts k t ++ parts k u, ∃ n ∈ parts k t ++ parts k u, same m n = false := by
  simp only [List.mem_append]
  rcases parts_cases k t with ⟨ms, rfl, hp⟩ | ⟨-, hp⟩
  · obtain ⟨⟨m, hm, n, hn, hmn⟩, -⟩ := isVaried_comb.1 ht
    exact ⟨m, .inl (by rwa [hp]), n, .inl (by rwa [hp]), hmn⟩
  · rcases parts_cases k u with ⟨ms, rfl, hq⟩ | ⟨-, hq⟩
    · obtain ⟨⟨m, hm, n, hn, hmn⟩, -⟩ := isVaried_comb.1 hu
      exact ⟨m, .inr (by rwa [hq]), n, .inr (by rwa [hq]), hmn⟩
    · exact ⟨u, .inr (by simp [hq]), t, .inl (by simp [hp]), h⟩

/-- **Varied candidates have a varied merge.** -/
theorem isVaried_merge {ts : List Ty} (hts : ∀ t ∈ ts, t.isVaried = true) {a : Ty}
    (h : merge? ts = some a) : a.isVaried = true := by
  match ts, h with
  | [t], h =>
    obtain rfl := Option.some.inj h
    exact hts t List.mem_cons_self
  | t :: u :: ts, h =>
    rw [merge?] at h
    · split at h
      · cases h
      · split at h
        · obtain rfl := Option.some.inj h
          exact hts t List.mem_cons_self
        · next hall =>
          obtain rfl := Option.some.inj h
          have hflat : flatten .union (t :: u :: ts) = (t :: u :: ts).flatMap (parts .union) := by
            rw [flatten_eq]
            exact List.flatMap_congr fun m hm => by rw [simplify_of_isVaried (hts m hm)]
          obtain ⟨w, hw, hwt⟩ : ∃ w ∈ u :: ts, same w t = false := by
            simpa only [List.all_eq_true, not_forall, Bool.not_eq_true, exists_prop] using hall
          have hw' : w ∈ t :: u :: ts := List.mem_cons_of_mem t hw
          -- the parts of the first candidate and of one that differs are among the members
          have hsub : parts .union t ++ parts .union w ⊆
              (t :: u :: ts).flatMap (parts .union) := by
            intro m hm
            rcases List.mem_append.1 hm with hm | hm
            · exact List.mem_flatMap.2 ⟨t, List.mem_cons_self, hm⟩
            · exact List.mem_flatMap.2 ⟨w, hw', hm⟩
          obtain ⟨m, hm, n, hn, hmn⟩ :=
            exists_parts_differ (k := .union) (hts t List.mem_cons_self) (hts w hw') hwt
          rw [simplify, hflat, isVaried_comb]
          refine ⟨⟨m, hsub hm, n, hsub hn, hmn⟩, fun p hp => ?_⟩
          obtain ⟨v, hv, hpv⟩ := List.mem_flatMap.1 hp
          exact isVaried_of_mem_parts (hts v hv) hpv
    · simp

end SsaTypes.Ty
