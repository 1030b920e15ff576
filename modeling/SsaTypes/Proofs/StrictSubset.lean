/-
SsaTypes/Proofs/StrictSubset.lean

When a strict subset is one that is no superset.  A type counts as a strict subset if it
is a subset and not the same, so the question is

    a ⊆ b  and  b ⊆ a   →   same a b.

It is answered for types without redundant members between whose branches subsets of
subsets are subsets (`Ordered.same_of_mutual`).  Two such unions, or two such
intersections, that include each other have members that do: `m ⊆ n ⊆ m'` with `m` and `m'`
on the same side is only possible with `m = m'`.  All other shapes exclude each other.

Arrays are all the same, so none is a strict subset of another.
-/
import Mathlib.Data.List.Pairwise
import SsaTypes.Proofs.SubsetUnions

namespace SsaTypes.Ty

/-! ### Reduced types -/

/-- Whether a union or an intersection can do without none of its members: it has two or
more, none of its own kind and none that is a subset of another; and no intersection in a
union could be replaced by one of its members. -/
def isIrredundant : Ty → Bool
  | .comb k ms =>
    decide (2 ≤ ms.length) && ms.all (fun m => !m.isComb k) &&
      decide (ms.Pairwise fun m n => isSubset m n = false ∧ isSubset n m = false) &&
      (k == .inter ||
        ms.all fun m => !m.isComb .inter || m.members.all fun x => !isSubset x (.comb k ms))
  | _ => true

/-- Whether no union and no intersection of which the type is made has a redundant member. -/
def isReduced (t : Ty) : Bool :=
  t.branches.all isIrredundant

/-- What `isIrredundant` asks of a union or an intersection. -/
structure Irredundant (k : Comb) (ms : List Ty) : Prop where
  two : 2 ≤ ms.length
  kind : ∀ m ∈ ms, m.isComb k = false
  apart : ms.Pairwise fun m n => isSubset m n = false ∧ isSubset n m = false
  narrow : k = .union → ∀ xs, .inter xs ∈ ms → ∀ x ∈ xs, isSubset x (.union ms) = false

theorem irredundant_of_isIrredundant {k : Comb} {ms : List Ty}
    (h : (comb k ms).isIrredundant = true) : Irredundant k ms := by
  simp only [isIrredundant, Bool.and_eq_true, decide_eq_true_eq, List.all_eq_true,
    Bool.not_eq_true', Bool.or_eq_true, beq_iff_eq] at h
  obtain ⟨⟨⟨htwo, hkind⟩, hapart⟩, hnarrow⟩ := h
  refine ⟨htwo, hkind, hapart, ?_⟩
  rintro rfl xs hxs
  exact (hnarrow.resolve_left (by decide) _ hxs).resolve_left (by simp [isComb])

namespace Irredundant

variable {k : Comb} {ms : List Ty} (h : Irredundant k ms)
include h

theorem eq_of_isSubset {m n : Ty} (hm : m ∈ ms) (hn : n ∈ ms) (hmn : isSubset m n = true) :
    m = n := by
  by_contra hne
  have hsymm : Std.Symm fun m n : Ty => isSubset m n = false ∧ isSubset n m = false :=
    ⟨fun _ _ => And.symm⟩
  rw [(h.apart.forall hm hn hne).1] at hmn
  cases hmn

/-- Beside each member stands one with which it cannot be compared. -/
theorem exists_apart {m : Ty} (hm : m ∈ ms) :
    ∃ n ∈ ms, isSubset m n = false ∧ isSubset n m = false := by
  obtain ⟨x, y, rest, rfl⟩ : ∃ x y rest, ms = x :: y :: rest := by
    match ms, h.two with
    | x :: y :: rest, _ => exact ⟨x, y, rest, rfl⟩
  have hx := (List.pairwise_cons.mp h.apart).1
  rcases List.mem_cons.mp hm with rfl | hm
  · exact ⟨y, by simp, hx y List.mem_cons_self⟩
  · exact ⟨x, List.mem_cons_self, (hx m hm).symm⟩

theorem nodup (hms : ∀ m ∈ ms, m.isDefinite = true) : ms.Nodup := by
  refine h.apart.imp_of_mem fun hm _ hmn heq => ?_
  subst heq
  rw [isSubset_refl (hms _ hm)] at hmn
  cases hmn.1

end Irredundant

/-! ### Types that are compared with each other -/

/-- Definite types without redundant members, with their members, such that subsets of
subsets are subsets. -/
structure Ordered (S : Ty → Prop) : Prop where
  definite : ∀ a, S a → a.isDefinite = true
  irredundant : ∀ k ms, S (.comb k ms) → Irredundant k ms
  member : ∀ k ms, S (.comb k ms) → ∀ m ∈ ms, S m
  trans : ∀ a b c, S a → S b → S c → isSubset a b = true → isSubset b c = true →
    isSubset a c = true

/-- Members between which a relation goes both ways, where it goes from each list to the
other. -/
theorem exists_mutual {S : Ty → Prop} {R : Ty → Ty → Prop}
    (htrans : ∀ x y z, S x → S y → S z → R x y → R y z → R x z) {ms ns : List Ty}
    (hms : ∀ m ∈ ms, S m) (hns : ∀ n ∈ ns, S n) (hapart : ∀ m ∈ ms, ∀ m' ∈ ms, R m m' → m = m')
    (hforth : ∀ m ∈ ms, ∃ n ∈ ns, R m n) (hback : ∀ n ∈ ns, ∃ m ∈ ms, R n m) :
    ∀ m ∈ ms, ∃ n ∈ ns, R m n ∧ R n m := by
  intro m hm
  obtain ⟨n, hn, hmn⟩ := hforth m hm
  obtain ⟨m', hm', hnm⟩ := hback n hn
  obtain rfl := hapart m hm m' hm' (htrans m n m' (hms m hm) (hns n hn) (hms m' hm') hmn hnm)
  exact ⟨n, hn, hmn, hnm⟩

theorem same_of_mutual_plain {a b : Ty} (ha : a.isPlain = true) (hb : b.isPlain = true)
    (hab : isSubset a b = true) (hba : isSubset b a = true) : same a b = true := by
  cases below_of_isSubset hab with
  | same hsame _ => exact hsame
  | unionLeft => cases ha
  | interRight => cases hb
  | interLeft => cases ha
  | unionRight => cases hb
  | object => rw [isSubset_eq] at hba; cases hba
  | closure => rw [isSubset_eq] at hba; cases hba
  | array harray => cases a <;> first | rfl | cases harray
  | element => rfl

namespace Ordered

variable {S : Ty → Prop} (h : Ordered S) {a : Ty} {k : Comb} {ms ns : List Ty}
include h

/-- Two unions, or two intersections, are the same if each member on either side has one
on the other that it includes and that includes it. -/
theorem same_comb (hms : S (.comb k ms)) (hns : S (.comb k ns))
    (hsame : ∀ m ∈ ms, ∀ n ∈ ns, isSubset m n = true → isSubset n m = true → same m n = true)
    (hforth : ∀ m ∈ ms, ∃ n ∈ ns, isSubset m n = true ∧ isSubset n m = true)
    (hback : ∀ n ∈ ns, ∃ m ∈ ms, isSubset n m = true ∧ isSubset m n = true) :
    same (.comb k ms) (.comb k ns) = true := by
  have hm := h.member k ms hms
  have hn := h.member k ns hns
  have hrm := h.irredundant k ms hms
  have hrn := h.irredundant k ns hns
  -- partners are unique, so the partners of `ms` are a rearrangement of `ns`
  choose! partner hmem habove hbelow using hforth
  have hnodup : (ms.map partner).Nodup := by
    refine List.Nodup.map_on (fun m hm₁ m' hm₁' heq => ?_)
      (hrm.nodup fun m hm₁ => h.definite m (hm m hm₁))
    refine hrm.eq_of_isSubset hm₁ hm₁' (h.trans m (partner m) m' (hm m hm₁)
      (hn _ (hmem m hm₁)) (hm m' hm₁') (habove m hm₁) ?_)
    rw [heq]
    exact hbelow m' hm₁'
  have hperm : (ms.map partner).Perm ns := by
    refine (List.perm_ext_iff_of_nodup hnodup
      (hrn.nodup fun n hn₁ => h.definite n (hn n hn₁))).mpr fun n => ?_
    rw [List.mem_map]
    constructor
    · rintro ⟨m, hm₁, rfl⟩
      exact hmem m hm₁
    · intro hn₁
      obtain ⟨m, hm₁, hnm, hmn⟩ := hback n hn₁
      refine ⟨m, hm₁, hrn.eq_of_isSubset (hmem m hm₁) hn₁ ?_⟩
      exact h.trans _ m n (hn _ (hmem m hm₁)) (hm m hm₁) (hn n hn₁) (hbelow m hm₁) hmn
  have hpairs : SameAll ms (ms.map partner) := by
    rw [SameAll, List.forall₂_map_right_iff, List.forall₂_same]
    exact fun m hm₁ => hsame m hm₁ _ (hmem m hm₁) (habove m hm₁) (hbelow m hm₁)
  simpa [same] using matchAll_iff_rearranged.mpr ⟨_, hpairs, hperm⟩

/-- An intersection is a subset of each of its members. -/
theorem isSubset_member (hns : S (.inter ns)) {n : Ty} (hn : n ∈ ns) :
    isSubset (.inter ns) n = true := by
  have hdef := h.definite n (h.member _ _ hns n hn)
  exact isSubset_of_below rfl (isUnknown_of_isDefinite hdef)
    (.interLeft ((h.irredundant _ _ hns).kind n hn) hn (isSubset_refl hdef))

/-- A plain type and a union do not include each other. -/
theorem not_mutual_union (ha : a.isPlain = true) (hSa : S a) (hns : S (.union ns))
    (hab : isSubset a (.union ns) = true) : isSubset (.union ns) a = false := by
  rw [← Bool.not_eq_true]
  intro hba
  have hn := h.member _ _ hns
  obtain ⟨n, hn₁, han⟩ := exists_member_of_isPlain ha hab
  obtain ⟨o, ho, -, hon⟩ := (h.irredundant _ _ hns).exists_apart hn₁
  have hoa : isSubset o a = true := by
    cases below_of_isSubset hba with
    | same hsame _ =>
      have hunion := isComb_of_same hsame .union
      rw [isComb_of_isPlain ha] at hunion
      cases hunion
    | unionLeft hns => exact hns o ho
    | interRight => cases ha
    | unionRight hk => cases hk .union
    | array harray => cases harray
  rw [h.trans o a n (hn o ho) hSa (hn n hn₁) hoa han] at hon
  cases hon

/-- An intersection and a type of another kind do not include each other. -/
theorem not_mutual_inter (ha : a.isComb .inter = false) (hSa : S a) (hns : S (.inter ns))
    (hab : isSubset a (.inter ns) = true) : isSubset (.inter ns) a = false := by
  rw [← Bool.not_eq_true]
  intro hba
  have hn := h.member _ _ hns
  have hwhole : ¬ MeetsWhole (.inter ns) a := fun hwhole => by
    rw [hwhole.2.1] at ha
    cases ha
  obtain ⟨n, hn₁, hna⟩ := exists_member_of_inter hba hwhole
  obtain ⟨o, ho, hno, -⟩ := (h.irredundant _ _ hns).exists_apart hn₁
  have hao := h.trans a _ o hSa hns (hn o ho) hab (h.isSubset_member hns ho)
  rw [h.trans n a o (hn n hn₁) hSa (hn o ho) hna hao] at hno
  cases hno

theorem not_mutual_plain (ha : a.isPlain = true) (hSa : S a) (hns : S (.comb k ns))
    (hab : isSubset a (.comb k ns) = true) : isSubset (.comb k ns) a = false := by
  cases k with
  | union => exact h.not_mutual_union ha hSa hns hab
  | inter => exact h.not_mutual_inter (isComb_of_isPlain ha .inter) hSa hns hab

/-- Where two unions include each other and are not the same, their members are plain, and
each is a subset of a member of the other. -/
theorem exists_above_of_union (hms : S (.union ms)) (hns : S (.union ns))
    (hmn : isSubset (.union ms) (.union ns) = true)
    (hnm : isSubset (.union ns) (.union ms) = true)
    (hsame : same (.union ms) (.union ns) = false) :
    ∀ m ∈ ms, m.isPlain = true ∧ ∃ n ∈ ns, isSubset m n = true := by
  intro m hm
  have hr := h.irredundant _ _ hms
  have hmns : isSubset m (.union ns) = true := by
    cases below_of_isSubset hmn with
    | same h _ => rw [h] at hsame; cases hsame
    | unionLeft hms => exact hms m hm
    | unionRight hk => cases hk .union
  have hplain : m.isPlain = true := by
    cases m with
    | comb k xs =>
      cases k with
      | union => cases hr.kind _ hm
      | inter =>
        -- a member of it is a subset of the union over there, and so of the union around it
        obtain ⟨x, hx, hxns⟩ := exists_member_of_inter hmns fun hwhole => by cases hwhole.2.1
        have hSx := h.member _ _ (h.member _ _ hms _ hm) x hx
        have hxms := h.trans x _ _ hSx hns hms hxns hnm
        rw [hr.narrow rfl xs hm x hx] at hxms
        cases hxms
    | _ => rfl
  exact ⟨hplain, exists_member_of_isPlain hplain hmns⟩

/-- Where one intersection is a subset of another, every member of the second is above a
member of the first. -/
theorem exists_below_of_inter (hms : S (.inter ms)) (hns : S (.inter ns))
    (hmn : isSubset (.inter ms) (.inter ns) = true) : ∀ n ∈ ns, ∃ m ∈ ms, isSubset m n = true := by
  intro n hn
  have hmsn := h.trans _ _ n hms hns (h.member _ _ hns n hn) hmn (h.isSubset_member hns hn)
  refine exists_member_of_inter hmsn fun hwhole => ?_
  have hk := hwhole.2.1
  rw [(h.irredundant _ _ hns).kind n hn] at hk
  cases hk

theorem same_union (hms : S (.union ms)) (hns : S (.union ns))
    (hmn : isSubset (.union ms) (.union ns) = true)
    (hnm : isSubset (.union ns) (.union ms) = true) :
    same (.union ms) (.union ns) = true := by
  by_contra hsame
  have hforth := h.exists_above_of_union hms hns hmn hnm (by simpa using hsame)
  have hback := h.exists_above_of_union hns hms hnm hmn
    (by simpa using fun hsame' => hsame (same_symm hsame'))
  have hm := h.member _ _ hms
  have hn := h.member _ _ hns
  refine hsame (h.same_comb hms hns
    (fun m hm n hn => same_of_mutual_plain (hforth m hm).1 (hback n hn).1) ?_ ?_)
  · exact exists_mutual h.trans hm hn
      (fun m hm m' hm' => (h.irredundant _ _ hms).eq_of_isSubset hm hm')
      (fun m hm => (hforth m hm).2) fun n hn => (hback n hn).2
  · exact exists_mutual h.trans hn hm
      (fun n hn n' hn' => (h.irredundant _ _ hns).eq_of_isSubset hn hn')
      (fun n hn => (hback n hn).2) fun m hm => (hforth m hm).2

/-- Two intersections that include each other are the same if that holds of their members. -/
theorem same_inter (hms : S (.inter ms)) (hns : S (.inter ns))
    (hsame : ∀ m ∈ ms, ∀ n ∈ ns, isSubset m n = true → isSubset n m = true → same m n = true)
    (hmn : isSubset (.inter ms) (.inter ns) = true)
    (hnm : isSubset (.inter ns) (.inter ms) = true) :
    same (.inter ms) (.inter ns) = true := by
  have hm := h.member _ _ hms
  have hn := h.member _ _ hns
  have hforth := h.exists_below_of_inter hns hms hnm
  have hback := h.exists_below_of_inter hms hns hmn
  -- here the members on either side are above those on the other
  have htrans (x y z : Ty) (hx : S x) (hy : S y) (hz : S z) (hyx : isSubset y x = true)
      (hzy : isSubset z y = true) : isSubset z x = true :=
    h.trans z y x hz hy hx hzy hyx
  refine h.same_comb hms hns hsame (fun m hm₁ => ?_) fun n hn₁ => ?_
  · obtain ⟨n, hn₁, hmutual⟩ := exists_mutual htrans hm hn
      (fun m hm m' hm' hmm => ((h.irredundant _ _ hms).eq_of_isSubset hm' hm hmm).symm)
      hforth hback m hm₁
    exact ⟨n, hn₁, hmutual.symm⟩
  · obtain ⟨m, hm₁, hmutual⟩ := exists_mutual htrans hn hm
      (fun n hn n' hn' hnn => ((h.irredundant _ _ hns).eq_of_isSubset hn' hn hnn).symm)
      hback hforth n hn₁
    exact ⟨m, hm₁, hmutual.symm⟩

/-- **Types that include each other are the same.** -/
theorem same_of_mutual {b : Ty} (ha : S a) (hb : S b) (hab : isSubset a b = true)
    (hba : isSubset b a = true) : same a b = true := by
  induction hsize : sizeOf a + sizeOf b using Nat.strongRecOn generalizing a b with
  | ind size ih =>
    obtain hpa | ⟨k, ms, rfl⟩ := isPlain_or_eq_comb a
    · obtain hpb | ⟨l, ns, rfl⟩ := isPlain_or_eq_comb b
      · exact same_of_mutual_plain hpa hpb hab hba
      · rw [h.not_mutual_plain hpa ha hb hab] at hba
        cases hba
    · obtain hpb | ⟨l, ns, rfl⟩ := isPlain_or_eq_comb b
      · rw [h.not_mutual_plain hpb hb ha hba] at hab
        cases hab
      · cases k with
        | union =>
          cases l with
          | union => exact h.same_union ha hb hab hba
          | inter => rw [h.not_mutual_inter rfl ha hb hab] at hba; cases hba
        | inter =>
          cases l with
          | union => rw [h.not_mutual_inter rfl hb ha hba] at hab; cases hab
          | inter =>
            refine h.same_inter ha hb (fun m hm n hn hmn hnm => ?_) hab hba
            have := sizeOf_members (t := .comb .inter ms) hm
            have := sizeOf_members (t := .comb .inter ns) hn
            exact ih _ (by omega) (h.member _ _ ha m hm) (h.member _ _ hb n hn) hmn hnm rfl

end Ordered

/-! ### Strict subsets -/

/-- Whether subsets of subsets are subsets among all branches of two types. -/
def Chained (a b : Ty) : Prop :=
  ∀ x ∈ a.branches ++ b.branches, ∀ y ∈ a.branches ++ b.branches,
    ∀ z ∈ a.branches ++ b.branches,
      isSubset x y = true → isSubset y z = true → isSubset x z = true

instance (a b : Ty) : Decidable (Chained a b) :=
  inferInstanceAs (Decidable (∀ x ∈ _, _))

theorem chained_of_isBare {a b : Ty} (ha : a.isBare = true) (hb : b.isBare = true) :
    Chained a b := by
  have hbare : ∀ x ∈ a.branches ++ b.branches, x.isBare = true := fun x hx =>
    (List.mem_append.mp hx).elim (isBare_of_mem_branches ha) (isBare_of_mem_branches hb)
  exact fun x hx y hy z hz => isSubset_trans (hbare x hx) (hbare y hy) (hbare z hz)

theorem ordered_branches {a b : Ty} (ha : a.isDefinite = true) (hb : b.isDefinite = true)
    (hra : a.isReduced = true) (hrb : b.isReduced = true) (h : Chained a b) :
    Ordered (· ∈ a.branches ++ b.branches) where
  definite _ hx := by
    have hdef {t x : Ty} (ht : t.isDefinite = true) (hx : x ∈ t.branches) : x.isDefinite = true :=
      of_mem_branches (P := fun t => t.isDefinite = true) (fun _ _ => isDefinite_comb.mp) ht hx
    exact (List.mem_append.mp hx).elim (hdef ha) (hdef hb)
  irredundant k ms hx :=
    irredundant_of_isIrredundant ((List.mem_append.mp hx).elim
      (List.all_eq_true.mp hra _) (List.all_eq_true.mp hrb _))
  member k ms hx m hm :=
    List.mem_append.mpr ((List.mem_append.mp hx).imp
      (member_mem_branches · hm) (member_mem_branches · hm))
  trans x y z hx hy hz := h x hx y hy z hz

/-- **What is properly below is a strict subset, except among arrays; and of reduced types
among whose branches subsets of subsets are subsets, nothing else is.** -/
theorem isStrictSubset_narrows (a b : Ty) :
    (a.isArray = true → b.isArray = true → isStrictSubset a b = false) ∧
    (a.isArray = false ∨ b.isArray = false →
      (isSubset a b = true → isSubset b a = false → isStrictSubset a b = true) ∧
      (a.isDefinite = true → b.isDefinite = true → a.isReduced = true → b.isReduced = true →
        Chained a b →
        (isStrictSubset a b = true ↔ isSubset a b = true ∧ isSubset b a = false) ∧
        (isStrictSubset a b = true → isStrictSubset b a = false))) ∧
    (a.isBare = true → b.isBare = true → Chained a b) := by
  refine ⟨fun ha hb => ?_, fun harray => ?_, chained_of_isBare⟩
  · have hsame : same a b = true := by cases a <;> first | exact hb | cases ha
    rw [isStrictSubset, hsame, Bool.not_true, Bool.and_false]
  have hnarrows (hab : isSubset a b = true) (hba : isSubset b a = false) :
      isStrictSubset a b = true := by
    rw [isStrictSubset, hab, Bool.true_and, Bool.not_eq_true', ← Bool.not_eq_true]
    intro hsame
    obtain ⟨ha, hb⟩ := isUnknown_of_isSubset hab
    have hplain : b.isArray = false := harray.elim (isArray_of_same hsame ▸ ·) id
    rw [isSubset_of_below hb ha (.same (same_symm hsame) hplain)] at hba
    cases hba
  refine ⟨hnarrows, fun ha hb hra hrb hchain => ?_⟩
  have hordered := ordered_branches ha hb hra hrb hchain
  have hproper (h : isStrictSubset a b = true) : isSubset a b = true ∧ isSubset b a = false := by
    rw [isStrictSubset, Bool.and_eq_true, Bool.not_eq_true'] at h
    refine ⟨h.1, ?_⟩
    by_contra hba
    rw [hordered.same_of_mutual (List.mem_append_left _ (self_mem_branches a))
      (List.mem_append_right _ (self_mem_branches b)) h.1 (by simpa using hba)] at h
    cases h.2
  refine ⟨⟨hproper, fun h => hnarrows h.1 h.2⟩, fun h => ?_⟩
  rw [isStrictSubset, (hproper h).2, Bool.false_and]

/-- Types that are narrower than a declared one; the last would be, but for the elements. -/
theorem isStrictSubset_narrows_declared :
    let a : Ty := .union [.inter [.named "Foo", .callable], .arrayOf .int]
    let b : Ty := .union [.object, .arrayOf .int, .null]
    let c : Ty := .union [.array, .object, .null]
    isStrictSubset a b = true ∧ isStrictSubset a c = true ∧ isStrictSubset c a = false ∧
    isStrictSubset (.arrayOf .int) .array = false := by
  intro a b c
  have hab : isStrictSubset a b = true :=
    ((isStrictSubset_narrows a b).2.1 (.inl rfl)).1 (by decide +kernel) (by decide +kernel)
  obtain ⟨hiff, hasymm⟩ := ((isStrictSubset_narrows a c).2.1 (.inl rfl)).2 (by decide)
    (by decide) (by decide +kernel) (by decide +kernel) (by decide +kernel)
  have hac : isStrictSubset a c = true := hiff.mpr (by decide +kernel)
  exact ⟨hab, hac, hasymm hac, (isStrictSubset_narrows _ _).1 rfl rfl⟩

/-- **An array with elements is properly below a bare one and no strict subset of it; and
strict subsets include each other** where a member is repeated, where a member of a union
could be replaced by one of its own members, and where subsets of subsets are none: what
`int[][]` is to `(int[]|null)[]`, and that to `(string[]|null)[]`, the first is not to the last. -/
theorem isStrictSubset_not_strictPart :
    (isSubset (.arrayOf .int) .array = true ∧ isSubset .array (.arrayOf .int) = false ∧
      isStrictSubset (.arrayOf .int) .array = false) ∧
    let names : List Ty := [.named "Foo", .named "Bar", .int]
    let ints : Ty := .union [.arrayOf .int, .null]
    let texts : Ty := .union [.arrayOf .string, .null]
    ∀ p ∈ [(Ty.union [.int, .int], Ty.int),
        (.union names, .union [.int, .inter [.union names, .object]]),
        (.union [.arrayOf ints, .bool],
          .union [.arrayOf texts, .arrayOf (.arrayOf .int), .bool])],
      isStrictSubset p.1 p.2 = true ∧ isStrictSubset p.2 p.1 = true := by
  decide +kernel

end SsaTypes.Ty
