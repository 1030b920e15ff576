/-
SsaTypes/Proofs/Merging.lean

What a merge keeps of its candidates.  Candidates that are all the same give the first of
them, others their flattened union (`merge?_cases`).  Flattening changes no values, so

    a value of a candidate is a value of the merge,

up to the elements of arrays in the first case and exactly in the second.  As far as
`isSubset` can tell, every candidate is a subset of the merge, with two reservations
(`merge_keeps`): arrays are all the same, so the first of them stands for all; and in a
union, an intersection is found through one of its members or not at all.
-/
import SsaTypes.Proofs.SubsetUnions

namespace SsaTypes.Ty

/-! ### Flattening keeps values -/

section Values

variable {calls : Callables} {v : Value} {k : Comb} {t : Ty} {ms : List Ty}

theorem admits_parts_union :
    (∃ p ∈ parts .union t, p.admits calls v = true) ↔ t.admits calls v = true := by
  obtain ⟨ms, rfl, hp⟩ | ⟨-, hp⟩ := parts_cases .union t
  · rw [hp, admits_union]
  · simp [hp]

theorem admits_parts_inter :
    (∀ p ∈ parts .inter t, p.admits calls v = true) ↔ t.admits calls v = true := by
  obtain ⟨ms, rfl, hp⟩ | ⟨-, hp⟩ := parts_cases .inter t
  · rw [hp, admits_inter]
  · simp [hp]

/-- A simplified type has the same values. -/
theorem admits_simplify : (simplify t).admits calls v = true ↔ t.admits calls v = true := by
  induction t using inductOn with
  | comb k ms ih =>
    rw [simplify, flatten_eq]
    cases k with
    | union =>
      rw [admits_union, admits_union]
      constructor
      · rintro ⟨p, hp, hv⟩
        obtain ⟨m, hm, hp⟩ := List.mem_flatMap.mp hp
        exact ⟨m, hm, (ih m hm).mp (admits_parts_union.mp ⟨p, hp, hv⟩)⟩
      · rintro ⟨m, hm, hv⟩
        obtain ⟨p, hp, hv⟩ := admits_parts_union.mpr ((ih m hm).mpr hv)
        exact ⟨p, List.mem_flatMap.mpr ⟨m, hm, hp⟩, hv⟩
    | inter =>
      rw [admits_inter, admits_inter]
      constructor
      · intro h m hm
        exact (ih m hm).mp (admits_parts_inter.mp fun p hp =>
          h p (List.mem_flatMap.mpr ⟨m, hm, hp⟩))
      · intro h p hp
        obtain ⟨m, hm, hp⟩ := List.mem_flatMap.mp hp
        exact admits_parts_inter.mpr ((ih m hm).mpr (h m hm)) p hp
  | _ => rfl

end Values

/-! ### Flattening and subsets -/

variable {t : Ty} {ts : List Ty}

/-- A type whose parts have gone into a union is a subset of it, if its intersections are
found there through one of their members. -/
theorem isSubset_union_of_parts {ns : List Ty} (ht : t.isDefinite = true)
    (hparts : ∀ p ∈ parts .union (simplify t), p ∈ ns)
    (hinter : ∀ xs, .inter xs ∈ t.branches → ∃ x ∈ xs, isSubset x (.union ns) = true) :
    isSubset t (.union ns) = true := by
  induction t using inductOn with
  | comb k xs ih =>
    cases k with
    | union =>
      refine isSubset_of_below rfl rfl (.unionLeft fun x hx => ?_)
      refine ih x hx (isDefinite_comb.mp ht x hx) (fun p hp => hparts p ?_)
        fun ys hys => hinter ys (mem_branches_of_mem hx hys)
      rw [simplify, flatten_eq]
      exact List.mem_flatMap.mpr ⟨x, hx, hp⟩
    | inter =>
      obtain ⟨x, hx, hxns⟩ := hinter xs (self_mem_branches _)
      exact isSubset_of_below rfl rfl (.interLeft rfl hx hxns)
  | _ =>
    exact isSubset_union_of_isPlain rfl (hparts _ (List.mem_singleton_self _)) (isSubset_refl ht)

/-! ### Merges -/

/-- A merge of definite candidates is the first of them, which is the same as all others,
or the flattened union of candidates that are not all the same. -/
theorem merge?_cases (hne : ts ≠ []) (hts : ∀ t ∈ ts, t.isDefinite = true) :
    ∃ m, merge? ts = some m ∧
      ((ts.head? = some m ∧ ∀ t ∈ ts, same t m = true) ∨
        (m = simplify (.union ts) ∧ ∃ t ∈ ts, ∃ u ∈ ts, same t u = false)) := by
  rcases ts with - | ⟨t, - | ⟨u, ts⟩⟩
  · exact absurd rfl hne
  · exact ⟨t, rfl, .inl ⟨rfl, by simp [same_refl]⟩⟩
  · have hknown : (t :: u :: ts).any isUnknown = false :=
      List.any_eq_false.mpr fun s hs => by simp [isUnknown_of_isDefinite (hts s hs)]
    rw [merge?, hknown]
    · cases hall : (u :: ts).all fun s => same s t with
      | true =>
        refine ⟨t, rfl, .inl ⟨rfl, List.forall_mem_cons.mpr ⟨same_refl t, ?_⟩⟩⟩
        exact List.all_eq_true.mp hall
      | false =>
        obtain ⟨s, hs, hst⟩ := List.all_eq_false.mp hall
        rw [Bool.not_eq_true] at hst
        exact ⟨_, rfl, .inr ⟨rfl, s, List.mem_cons_of_mem t hs, t, List.mem_cons_self, hst⟩⟩
    · simp

theorem isSubset_iff_of_isArray {a b : Ty} (ha : a.isArray = true) (hb : b.isArray = true) :
    isSubset a b = true ↔
      b = .array ∨ ∃ e f, a = .arrayOf e ∧ b = .arrayOf f ∧ isSubset e f = true := by
  cases a with
  | array | arrayOf =>
    cases b with
    | array | arrayOf => rw [isSubset_eq]; simp [isUnknown, isArray]
    | _ => cases hb
  | _ => cases ha

/-- **What a merge keeps.**  Definite candidates have a merge `m`.  Of arrays it is the
first, and above those that are subsets of the first.  Otherwise a candidate is a subset
of it if all are the same, or if its intersections are found in `m` through one of their
members.  In any case its values are values of `m`, up to the elements of arrays if all are
the same. -/
theorem merge_keeps (ts : List Ty) (hne : ts ≠ []) (hts : ∀ t ∈ ts, t.isDefinite = true) :
    ∃ m, merge? ts = some m ∧ ∀ t ∈ ts,
      ((∀ u ∈ ts, u.isArray = true) → ts.head? = some m ∧
        (isSubset t m = true ↔
          m = .array ∨ ∃ e f, t = .arrayOf e ∧ m = .arrayOf f ∧ isSubset e f = true)) ∧
      ((∃ u ∈ ts, u.isArray = false) →
        (∀ u ∈ ts, same t u = true) ∨
          (∀ xs, .inter xs ∈ t.branches → ∃ x ∈ xs, isSubset x m = true) →
        isSubset t m = true) ∧
      ∀ (calls : Callables) (v : Value), t.admits calls v = true →
        m.dropElements.admits calls v = true ∧
        ((∃ u ∈ ts, same t u = false) → m.admits calls v = true) := by
  obtain ⟨m, hm, ⟨hhead, hsame⟩ | ⟨rfl, u, hu, w, hw, huw⟩⟩ := merge?_cases hne hts
  · -- the first of candidates that are all the same
    refine ⟨m, hm, fun t ht => ⟨fun harray => ⟨hhead, ?_⟩, ?_, fun calls v hv => ⟨?_, ?_⟩⟩⟩
    · exact isSubset_iff_of_isArray (harray t ht) (harray m (List.mem_of_mem_head? hhead))
    · rintro ⟨u, hu, harray⟩ -
      refine isSubset_of_same_of_isDefinite (hts t ht) ?_ (hsame t ht)
      rw [isArray_of_same (hsame t ht), ← isArray_of_same (hsame u hu), harray]
    · exact admits_dropElements_of_same (hsame t ht) hv
    · rintro ⟨u, hu, htu⟩
      rw [same_trans (hsame t ht) (same_symm (hsame u hu))] at htu
      cases htu
  · -- the flattened union of others
    refine ⟨_, hm, fun t ht => ⟨fun harray => ?_, fun _ h => ?_, fun calls v hv => ?_⟩⟩
    · have hsame : same u w = true := by
        have := harray u hu
        have := harray w hw
        cases u <;> simp_all [isArray, same]
      rw [hsame] at huw
      cases huw
    · obtain hsame | hinter := h
      · rw [same_trans (same_symm (hsame u hu)) (hsame w hw)] at huw
        cases huw
      · refine isSubset_union_of_parts (hts t ht) (fun p hp => ?_) hinter
        rw [flatten_eq]
        exact List.mem_flatMap.mpr ⟨t, ht, hp⟩
    · have hv' : (simplify (.union ts)).admits calls v = true :=
        admits_simplify.mpr (admits_union.mpr ⟨t, ht, hv⟩)
      exact ⟨admits_dropElements_of_same (same_refl _) hv', fun _ => hv'⟩

/-- Candidates of which one is an intersection, found through its member `Foo`, and one a
union, found through its members. -/
theorem merge_keeps_meet :
    let meet : Ty := .inter [.named "Foo", .callable]
    let join : Ty := .union [.object, .arrayOf .int]
    let m : Ty := .union [meet, .object, .arrayOf .int, .null]
    merge? [meet, join, .null] = some m ∧ isSubset meet m = true ∧ isSubset join m = true ∧
      m.admits .closures (.array [.int 0]) = true := by
  intro meet join m
  have hmerge : merge? [meet, join, .null] = some m := by decide +kernel
  obtain ⟨m', hm', hkeeps⟩ := merge_keeps [meet, join, .null] nofun (by decide)
  obtain rfl : m = m' := Option.some.inj (hmerge ▸ hm')
  have hplain : ∃ u ∈ [meet, join, Ty.null], u.isArray = false := ⟨.null, by decide⟩
  have hdiffer : ∃ u ∈ [meet, join, Ty.null], same join u = false := ⟨.null, by decide +kernel⟩
  refine ⟨hmerge, (hkeeps meet (by simp)).2.1 hplain (.inr ?_),
    (hkeeps join (by simp)).2.1 hplain (.inr ?_),
    ((hkeeps join (by simp)).2.2 .closures _ (by decide)).2 hdiffer⟩
  · intro xs hxs
    obtain rfl : xs = [.named "Foo", .callable] := by simpa [meet, branches, allBranches] using hxs
    exact ⟨.named "Foo", by decide +kernel⟩
  · intro xs hxs
    simp [join, branches, allBranches] at hxs

/-- **The first array stands for all**: the elements of the second are lost. -/
theorem merge_drops_elements :
    let ts : List Ty := [.arrayOf .int, .arrayOf .string]
    (∀ t ∈ ts, t.isDefinite = true) ∧ merge? ts = some (.arrayOf .int) ∧
      isSubset (.arrayOf .string) (.arrayOf .int) = false := by
  decide +kernel

end SsaTypes.Ty
