/-
SsaTypes/Proofs/Flattening.lean

Flattening gives a normal form: no union or intersection has a member of its own kind
(`isFlat_simplify`), and a type of that form stays as it is (`simplify_of_isFlat`).  It
does nothing else to members than to put those of a nested type in its place, in their
order and as often as they stand there:

    simplify (comb k (xs ++ [comb k ys] ++ zs)) = simplify (comb k (xs ++ ys ++ zs))
    simplify (comb k ms) = comb k (ms.map simplify)      without members of kind `k`.

These two equations and the first for plain types leave no other function
(`simplify_normalForm`).
-/
import SsaTypes.Proofs.SubsetUnions

namespace SsaTypes.Ty

variable {k : Comb} {t : Ty}

/-! ### The normal form -/

/-- No union in the type is directly in a union, and no intersection in an intersection.
Element types of arrays may be of any form. -/
def IsFlat (t : Ty) : Prop :=
  ∀ k ms, comb k ms ∈ t.branches → ∀ m ∈ ms, m.isComb k = false

theorem isFlat_of_isPlain (h : t.isPlain = true) : t.IsFlat := by
  cases t with
  | comb => cases h
  | _ =>
    intro k ms hbranch
    cases List.mem_singleton.mp hbranch

theorem isFlat_comb {ms : List Ty} :
    (comb k ms).IsFlat ↔ ∀ m ∈ ms, m.IsFlat ∧ m.isComb k = false := by
  constructor
  · intro h m hm
    exact ⟨fun l ns hbranch => h l ns (mem_branches_of_mem hm hbranch),
      h k ms (self_mem_branches _) m hm⟩
  · intro h l ns hbranch
    obtain heq | ⟨m, hm, hbranch⟩ := mem_branches_comb.mp hbranch
    · obtain ⟨rfl, rfl⟩ := comb.inj heq
      exact fun m hm => (h m hm).2
    · exact (h m hm).1 l ns hbranch

/-- The parts of a flat type are flat, and not of the kind that was taken apart. -/
theorem IsFlat.of_mem_parts (h : t.IsFlat) {p : Ty} (hp : p ∈ parts k t) :
    p.IsFlat ∧ p.isComb k = false := by
  obtain ⟨ms, rfl, hparts⟩ | ⟨hk, hparts⟩ := parts_cases k t
  · exact isFlat_comb.mp h p (hparts ▸ hp)
  · rw [hparts, List.mem_singleton] at hp
    exact hp ▸ ⟨h, hk⟩

/-- **What has been flattened is flat.**  By induction on the type: the members of a
flattened type are parts of flattened types. -/
theorem isFlat_simplify (t : Ty) : (simplify t).IsFlat := by
  induction t using inductOn with
  | comb k ms ih =>
    rw [simplify, isFlat_comb, flatten_eq]
    intro p hp
    obtain ⟨m, hm, hp⟩ := List.mem_flatMap.mp hp
    exact (ih m hm).of_mem_parts hp
  | _ => exact isFlat_of_isPlain rfl

theorem simplify_of_isFlat (h : t.IsFlat) : simplify t = t := by
  induction t using inductOn with
  | comb k ms ih =>
    have hms := isFlat_comb.mp h
    exact simplify_comb fun m hm => ⟨ih m hm (hms m hm).1, (hms m hm).2⟩
  | _ => rfl

theorem simplify_of_isPlain (h : t.isPlain = true) : simplify t = t :=
  simplify_of_isFlat (isFlat_of_isPlain h)

/-! ### What becomes of the members -/

/-- Flattening does not change the kind of a type. -/
theorem isComb_simplify (t : Ty) : (simplify t).isComb k = t.isComb k := by
  cases t <;> rfl

theorem flatten_append (xs ys : List Ty) :
    flatten k (xs ++ ys) = flatten k xs ++ flatten k ys := by
  rw [flatten_eq, flatten_eq, flatten_eq, List.flatMap_append]

/-- A nested type of the same kind gives way to its own flattened members. -/
theorem flatten_nested (ys : List Ty) : flatten k [comb k ys] = flatten k ys := by
  rw [flatten_eq k [comb k ys], List.flatMap_singleton, simplify, parts, if_pos rfl]

/-- Where nothing is nested, the members are flattened each by itself. -/
theorem flatten_of_forall {ms : List Ty} (h : ∀ m ∈ ms, m.isComb k = false) :
    flatten k ms = ms.map simplify := by
  have hparts : ∀ m ∈ ms, parts k (simplify m) = [simplify m] := fun m hm =>
    parts_of_isComb ((isComb_simplify m).trans (h m hm))
  rw [flatten_eq, List.flatMap_congr hparts, ← List.map_eq_flatMap]

/-- **Flattening.**  A flattened type is flattened already; no union or intersection in it,
outside of array elements, has a member of its own kind; and a nested type of the same kind
may as well be written as its members.  Plain types stay as they are, and members that are
not of the outer kind are flattened in their place. -/
theorem simplify_normalForm :
    (∀ t : Ty, simplify (simplify t) = simplify t) ∧
    (∀ (t : Ty) (k : Comb) (ms : List Ty), comb k ms ∈ (simplify t).branches →
      ∀ m ∈ ms, m.isComb k = false) ∧
    (∀ (k : Comb) (xs ys zs : List Ty),
      simplify (comb k (xs ++ [comb k ys] ++ zs)) = simplify (comb k (xs ++ ys ++ zs))) ∧
    (∀ t : Ty, t.isPlain = true → simplify t = t) ∧
    ∀ (k : Comb) (ms : List Ty), (∀ m ∈ ms, m.isComb k = false) →
      simplify (comb k ms) = comb k (ms.map simplify) := by
  refine ⟨fun t => simplify_of_isFlat (isFlat_simplify t), isFlat_simplify,
    fun k xs ys zs => ?_, fun _ => simplify_of_isPlain, fun k ms hms => ?_⟩
  · rw [simplify, simplify, flatten_append, flatten_append, flatten_nested, flatten_append,
      flatten_append]
  · rw [simplify, flatten_of_forall hms]

/-- A union of a union, an intersection with an empty union in it, and an array of a union
that is left as it is. -/
theorem simplify_normalForm_nested :
    let nested : Ty := .arrayOf (.union [.union [.int], .int])
    let meet : Ty := .inter [.named "A", .union [.union []], .inter [.named "B", .named "A"]]
    let flat : Ty := .union [.int, .null, .int,
      .inter [.named "A", .union [], .named "B", .named "A"], nested]
    simplify (.union [.union [.int, .union [.null]], .int, meet, nested]) = flat ∧
      simplify flat = flat ∧ simplify nested = nested ∧
      (∀ m ∈ flat.members, m.isComb .union = false) ∧
      simplify flat = .union (flat.members.map simplify) := by
  intro nested meet flat
  obtain ⟨hagain, hflat, hnested, hplain, hmembers⟩ := simplify_normalForm
  have h : simplify (.union ([] ++ [.union [.int, .union [.null]]] ++ [.int, meet, nested])) =
      flat := by
    rw [hnested .union [] [.int, .union [.null]] [.int, meet, nested]]
    decide +kernel
  have hkinds : ∀ m ∈ flat.members, m.isComb .union = false :=
    hflat _ .union flat.members (h ▸ self_mem_branches flat)
  refine ⟨h, ?_, hplain nested rfl, hkinds, hmembers .union flat.members hkinds⟩
  rw [← h]
  exact hagain _

end SsaTypes.Ty
