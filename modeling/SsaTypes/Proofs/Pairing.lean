/-
SsaTypes/Proofs/Pairing.lean

Members paired off first come, first served.  Taking the first free member that is the
same never spoils the pairing of the others, because `same` is an equivalence: so

    matchAll ms ns = true
      ↔   some rearrangement of `ns` is the same as `ms`, member by member
      ↔   some bijection of positions pairs members that are the same

(`matchAll_iff_rearranged`, `matchAll_iff_exists_equiv`).
-/
import Mathlib.Data.List.FinRange
import Mathlib.Data.List.Perm.Basic
import SsaTypes.Proofs.Sameness

namespace SsaTypes.Ty

/-- The types are the same, one by one and in this order. -/
abbrev SameAll : List Ty → List Ty → Prop :=
  List.Forall₂ fun a b => same a b = true

variable {ms ns : List Ty}

/-! ### Rearrangements -/

theorem SameAll.countP_eq (h : SameAll ms ns) (x : Ty) :
    ms.countP (same x) = ns.countP (same x) := by
  induction h with
  | nil => rfl
  | cons hmn _ ih =>
    have hx := alike.same_congr trivial trivial (c := x) trivial hmn
    rw [List.countP_cons, List.countP_cons, ih, hx]

/-- What has been taken out so far, in the order in which it was taken, is a rearrangement. -/
theorem exists_rearranged_of_matchAll (h : matchAll ms ns = true) :
    ∃ os, SameAll ms os ∧ os.Perm ns := by
  induction ms generalizing ns with
  | nil =>
    rw [matchAll, List.isEmpty_iff] at h
    exact ⟨[], .nil, h ▸ .refl _⟩
  | cons m ms ih =>
    rw [matchAll] at h
    rcases e : takeOut (same m) ns with - | rest
    · rw [e] at h
      cases h
    · rw [e] at h
      obtain ⟨n, hmn, hrest⟩ := takeOut_eq_some e
      obtain ⟨os, hos, hperm⟩ := ih h
      exact ⟨n :: os, .cons hmn hos, (hperm.cons n).trans hrest.symm⟩

/-- **The greedy search finds a pairing whenever there is one.** -/
theorem matchAll_iff_rearranged :
    matchAll ms ns = true ↔ ∃ os, SameAll ms os ∧ os.Perm ns := by
  refine ⟨exists_rearranged_of_matchAll, ?_⟩
  rintro ⟨os, hos, hperm⟩
  refine (alike.matchAll_iff (fun _ _ => trivial) fun _ _ => trivial).mpr fun x _ => ?_
  rw [hos.countP_eq, hperm.countP_eq]

theorem matchAll_of_perm (h : ms.Perm ns) : matchAll ms ns = true :=
  matchAll_iff_rearranged.mpr ⟨ms, List.forall₂_same.mpr fun m _ => same_refl m, h⟩

/-! ### Bijections of positions -/

theorem exists_equiv_of_perm (h : ms.Perm ns) :
    ∃ e : Fin ms.length ≃ Fin ns.length, ∀ i, ns.get (e i) = ms.get i :=
  ⟨.ofBijective h.idxBij ⟨h.idxBij_injective, h.idxBij_surjective⟩, h.getElem_idxBij_eq_getElem⟩

/-- The members on the right, read in the order of their partners, are a rearrangement. -/
theorem perm_of_equiv (e : Fin ms.length ≃ Fin ns.length) :
    ((List.finRange ms.length).map fun i => ns.get (e i)).Perm ns := by
  have hperm : ((List.finRange ms.length).map e).Perm (List.finRange ns.length) := by
    refine (List.perm_ext_iff_of_nodup ((List.nodup_finRange _).map e.injective)
      (List.nodup_finRange _)).mpr fun j => ?_
    simpa [List.mem_finRange] using e.surjective j
  simpa only [List.map_map, Function.comp_def, List.map_get_finRange] using hperm.map ns.get

theorem matchAll_iff_exists_equiv :
    matchAll ms ns = true ↔
      ∃ e : Fin ms.length ≃ Fin ns.length, ∀ i, same (ms.get i) (ns.get (e i)) = true := by
  rw [matchAll_iff_rearranged]
  constructor
  · rintro ⟨os, hos, hperm⟩
    obtain ⟨e, he⟩ := exists_equiv_of_perm hperm
    refine ⟨(finCongr hos.length_eq).trans e, fun i => ?_⟩
    rw [Equiv.trans_apply, he]
    exact hos.get i.2 _
  · rintro ⟨e, he⟩
    refine ⟨_, ?_, perm_of_equiv e⟩
    conv => arg 1; rw [← List.map_get_finRange ms]
    rw [SameAll, List.forall₂_map_left_iff, List.forall₂_map_right_iff, List.forall₂_same]
    exact fun i _ => he i

/-- **Counting as the same is an equivalence, and members are paired off exactly if a
bijection of their positions pairs those that are the same**; so their order has no
influence. -/
theorem same_equivalence :
    Equivalence (fun a b : Ty => same a b = true) ∧
    (∀ ms ns : List Ty, matchAll ms ns = true ↔
      ∃ e : Fin ms.length ≃ Fin ns.length, ∀ i, same (ms.get i) (ns.get (e i)) = true) ∧
    ∀ (k : Comb) (ms ns : List Ty), ms.Perm ns → same (.comb k ms) (.comb k ns) = true := by
  refine ⟨⟨same_refl, same_symm, same_trans⟩, fun ms ns => matchAll_iff_exists_equiv, ?_⟩
  intro k ms ns h
  simpa [same] using matchAll_of_perm h

/-- A union with its members in another order, and then with another element type and
another spelling. -/
theorem same_equivalence_reordered :
    let meet : Ty := .inter [.named "Foo", .callable]
    let a : Ty := .union [.arrayOf .int, meet, .array, .null]
    let b : Ty := .union [meet, .array, .null, .arrayOf .int]
    let c : Ty := .union [.arrayOf .string, .null, .inter [.callable, .named "FOO"], .array]
    same a b = true ∧ same b c = true ∧ same a c = true := by
  intro meet a b c
  have hab : same a b = true :=
    same_equivalence.2.2 .union [.arrayOf .int, meet, .array, .null]
      [meet, .array, .null, .arrayOf .int] (by decide)
  have hbc : same b c = true := by decide +kernel
  exact ⟨hab, hbc, same_equivalence.1.trans hab hbc⟩

end SsaTypes.Ty
