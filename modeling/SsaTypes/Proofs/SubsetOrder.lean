/-
SsaTypes/Proofs/SubsetOrder.lean

Where `isSubset` is a preorder that agrees with `same`.  `same` does not see the elements
of arrays, and `isSubset` asks `same` first; so the types here are bare: known in all
their parts, and with no element at any array.

Being the same adds facts that the other rules do not give: a union is a subset of itself
even where a member that is an intersection is no subset of it.  Such facts pass through
every rule, since types that are the same have the same subsets and supersets
(`isSubset_same`).  The steps towards a chain `a ⊆ b ⊆ c` are then

    m ⊆ b for a member m      →   inter ms ⊆ b,
    a ⊆ inter ns              →   a ⊆ n for every member n

(`isSubset_inter`), and a chain is followed from the type whose rule comes first, down
to types without members (`isSubset_trans`).
-/
import SsaTypes.Proofs.SubsetRules

namespace SsaTypes.Ty

open Text

/-! ### Bare types -/

mutual

/-- Whether a type is known in all its parts and has no array with an element. -/
def isBare : Ty → Bool
  | .unknown | .arrayOf _ => false
  | .comb _ ms => allBare ms
  | _ => true

/-- Whether all types of a list are bare. -/
def allBare : List Ty → Bool
  | [] => true
  | t :: ts => isBare t && allBare ts

end

theorem allBare_iff {ts : List Ty} : allBare ts = true ↔ ∀ t ∈ ts, t.isBare = true := by
  induction ts with
  | nil => simp [allBare]
  | cons t ts ih => simp [allBare, ih]

theorem isBare_comb {k : Comb} {ms : List Ty} :
    (comb k ms).isBare = true ↔ ∀ m ∈ ms, m.isBare = true := by
  rw [isBare, allBare_iff]

theorem isUnknown_of_isBare {t : Ty} (h : t.isBare = true) : t.isUnknown = false := by
  cases t with
  | unknown => cases h
  | _ => rfl

theorem eq_array_of_isBare {t : Ty} (h : t.isBare = true) (harray : t.isArray = true) :
    t = .array := by
  cases t with
  | array => rfl
  | arrayOf e => cases h
  | _ => cases harray

/-! ### Types that are the same -/

theorem isArray_of_same {a b : Ty} (h : same a b = true) : a.isArray = b.isArray := by
  cases a <;> cases b <;> simp_all [same, isArray]

theorem eq_object_of_same {t : Ty} (h : same .object t = true) : t = .object := by
  cases t with
  | object => rfl
  | _ => cases h

theorem eq_callable_of_same {t : Ty} (h : same .callable t = true) : t = .callable := by
  cases t with
  | callable => rfl
  | _ => cases h

theorem isSubset_of_same {a b : Ty} (ha : a.isBare = true) (hb : b.isBare = true)
    (h : same a b = true) : isSubset a b = true := by
  refine isSubset_of_below (isUnknown_of_isBare ha) (isUnknown_of_isBare hb) ?_
  cases harray : a.isArray with
  | false => exact .same h harray
  | true =>
    obtain rfl := eq_array_of_isBare hb (isArray_of_same h ▸ harray)
    exact .array harray

/-- **Types that are the same have the same subsets and supersets.** -/
theorem isSubset_same {a a' b b' : Ty} (ha : a.isBare = true) (ha' : a'.isBare = true)
    (hb : b.isBare = true) (hb' : b'.isBare = true) (haa : same a a' = true)
    (hbb : same b b' = true) (h : isSubset a b = true) : isSubset a' b' = true := by
  induction hsize : sizeOf a + sizeOf b using Nat.strongRecOn generalizing a a' b b' with
  | ind size ih =>
    refine isSubset_of_below (isUnknown_of_isBare ha') (isUnknown_of_isBare hb') ?_
    -- each rule applies again, to the members that stand for those it was applied to
    cases below_of_isSubset h with
    | same hab harray =>
      exact .same (same_trans (same_symm haa) (same_trans hab hbb)) (isArray_of_same haa ▸ harray)
    | unionLeft hms =>
      obtain ⟨ms', rfl, -, hback⟩ := exists_comb_of_same haa
      refine .unionLeft fun m' hm' => ?_
      obtain ⟨m, hm, hmm⟩ := hback m' hm'
      have hlt := sizeOf_members (t := .union _) hm
      exact ih _ (by omega) (isBare_comb.mp ha m hm) (isBare_comb.mp ha' m' hm') hb hb' hmm hbb
        (hms m hm) rfl
    | interRight hk hns =>
      obtain ⟨ns', rfl, -, hback⟩ := exists_comb_of_same hbb
      refine .interRight (isComb_of_same haa .union ▸ hk) fun n' hn' => ?_
      obtain ⟨n, hn, hnn⟩ := hback n' hn'
      have hlt := sizeOf_members (t := .inter _) hn
      exact ih _ (by omega) ha ha' (isBare_comb.mp hb n hn) (isBare_comb.mp hb' n' hn') haa hnn
        (hns n hn) rfl
    | interLeft hk hm hmb =>
      obtain ⟨ms', rfl, hforth, -⟩ := exists_comb_of_same haa
      obtain ⟨m', hm', hmm⟩ := hforth _ hm
      have hlt := sizeOf_members (t := .inter _) hm
      exact .interLeft (isComb_of_same hbb .inter ▸ hk) hm' (ih _ (by omega)
        (isBare_comb.mp ha _ hm) (isBare_comb.mp ha' m' hm') hb hb' hmm hbb hmb rfl)
    | unionRight hk hn han =>
      obtain ⟨ns', rfl, hforth, -⟩ := exists_comb_of_same hbb
      obtain ⟨n', hn', hnn⟩ := hforth _ hn
      have hlt := sizeOf_members (t := .union _) hn
      exact .unionRight (fun k => isComb_of_same haa k ▸ hk k) hn' (ih _ (by omega) ha ha'
        (isBare_comb.mp hb _ hn) (isBare_comb.mp hb' n' hn') haa hnn han rfl)
    | object =>
      obtain ⟨d, rfl, -⟩ := exists_named_of_same haa
      obtain rfl := eq_object_of_same hbb
      exact .object
    | closure hc =>
      obtain ⟨d, rfl, hcd⟩ := exists_named_of_same haa
      obtain rfl := eq_callable_of_same hbb
      exact .closure (isClosure_of_sameName hcd ▸ hc)
    | array harray =>
      obtain rfl := eq_array_of_isBare hb' (isArray_of_same hbb ▸ rfl)
      exact .array (isArray_of_same haa ▸ harray)
    | element => cases ha

/-! ### Intersections -/

/-- An intersection is a subset of what one of its members is a subset of, and what is a
subset of an intersection is a subset of each of its members. -/
theorem isSubset_inter {a b : Ty} (ha : a.isBare = true) (hb : b.isBare = true) :
    (∀ ms, a = .inter ms → (∃ m ∈ ms, isSubset m b = true) → isSubset a b = true) ∧
    (∀ ns, b = .inter ns → isSubset a b = true → ∀ n ∈ ns, isSubset a n = true) := by
  induction hsize : sizeOf a + sizeOf b using Nat.strongRecOn generalizing a b with
  | ind size ih =>
    have hua := isUnknown_of_isBare ha
    have hub := isUnknown_of_isBare hb
    constructor
    · rintro ms rfl ⟨m, hm, hmb⟩
      have hlt := sizeOf_members (t := .inter _) hm
      cases hk : b.isComb .inter with
      | false => exact isSubset_of_below hua hub (.interLeft hk hm hmb)
      | true =>
        -- the member is a subset of each member on the right, so the whole is
        obtain ⟨ns, rfl⟩ := exists_of_isComb hk
        refine isSubset_of_below hua hub (.interRight rfl fun n hn => ?_)
        have hlt' := sizeOf_members (t := comb .inter _) hn
        have hmn := (ih _ (by omega) (isBare_comb.mp ha m hm) hb rfl).2 ns rfl hmb n hn
        exact (ih _ (by omega) ha (isBare_comb.mp hb n hn) rfl).1 ms rfl ⟨m, hm, hmn⟩
    · rintro ns rfl h n hn
      have hbn := isBare_comb.mp hb n hn
      have hlt := sizeOf_members (t := .inter _) hn
      cases below_of_isSubset h with
      | same hab _ =>
        -- then `a` is an intersection too, with a member that is the same as `n`
        obtain ⟨ms, rfl, hforth, -⟩ := exists_comb_of_same (same_symm hab)
        obtain ⟨m, hm, hnm⟩ := hforth n hn
        have hmn := isSubset_of_same (isBare_comb.mp ha m hm) hbn (same_symm hnm)
        exact (ih _ (by omega) ha hbn rfl).1 ms rfl ⟨m, hm, hmn⟩
      | @unionLeft ms _ hms =>
        refine isSubset_of_below hua (isUnknown_of_isBare hbn) (.unionLeft fun m hm => ?_)
        have hlt' := sizeOf_members (t := .union _) hm
        exact (ih _ (by omega) (isBare_comb.mp ha m hm) hb rfl).2 ns rfl (hms m hm) n hn
      | interRight _ hns => exact hns n hn
      | interLeft hk => cases hk

theorem isSubset_of_member {m b : Ty} {ms : List Ty} (ha : (Ty.inter ms).isBare = true)
    (hb : b.isBare = true) (hm : m ∈ ms) (h : isSubset m b = true) :
    isSubset (.inter ms) b = true :=
  (isSubset_inter ha hb).1 ms rfl ⟨m, hm, h⟩

/-! ### Chains -/

theorem isSubset_trans {a b c : Ty} (ha : a.isBare = true) (hb : b.isBare = true)
    (hc : c.isBare = true) (hab : isSubset a b = true) (hbc : isSubset b c = true) :
    isSubset a c = true := by
  induction hsize : sizeOf a + sizeOf b + sizeOf c using Nat.strongRecOn generalizing a b c with
  | ind size ih =>
    have hua := isUnknown_of_isBare ha
    have huc := isUnknown_of_isBare hc
    have hsame (h : same b c = true) : isSubset a c = true :=
      isSubset_same ha ha hb hc (same_refl a) h hab
    -- where the members of `c` decide on `b`, they decide on `a` in the same way
    have hmeet {os : List Ty} (h : c = .inter os) (hk : a.isComb .union = false)
        (hos : ∀ o ∈ os, isSubset b o = true) : isSubset a c = true := by
      subst h
      refine isSubset_of_below hua huc (.interRight hk fun o ho => ?_)
      have hlt := sizeOf_members (t := .inter _) ho
      exact ih _ (by omega) ha hb (isBare_comb.mp hc o ho) hab (hos o ho) rfl
    have hjoin {os : List Ty} {o : Ty} (h : c = .union os) (hk : ∀ k, a.isComb k = false)
        (ho : o ∈ os) (hbo : isSubset b o = true) : isSubset a c = true := by
      subst h
      have hlt := sizeOf_members (t := .union _) ho
      exact isSubset_of_below hua huc (.unionRight hk ho
        (ih _ (by omega) ha hb (isBare_comb.mp hc o ho) hab hbo rfl))
    cases below_of_isSubset hab with
    | same hsame' _ => exact isSubset_same hb ha hc hc (same_symm hsame') (same_refl c) hbc
    | unionLeft hms =>
      refine isSubset_of_below hua huc (.unionLeft fun m hm => ?_)
      have hlt := sizeOf_members (t := .union _) hm
      exact ih _ (by omega) (isBare_comb.mp ha m hm) hb hc (hms m hm) hbc rfl
    | interLeft _ hm hmb =>
      have hlt := sizeOf_members (t := .inter _) hm
      exact isSubset_of_member ha hc hm (ih _ (by omega) (isBare_comb.mp ha _ hm) hb hc hmb hbc rfl)
    | interRight hk hns =>
      cases below_of_isSubset hbc with
      | same h _ => exact hsame h
      | interRight _ hos => exact hmeet rfl hk hos
      | interLeft _ hn hnc =>
        have hlt := sizeOf_members (t := .inter _) hn
        exact ih _ (by omega) ha (isBare_comb.mp hb _ hn) hc (hns _ hn) hnc rfl
      | unionRight hplain => cases hplain .inter
      | array harray => cases harray
    | unionRight hk hn han =>
      cases below_of_isSubset hbc with
      | same h _ => exact hsame h
      | unionLeft hns =>
        have hlt := sizeOf_members (t := .union _) hn
        exact ih _ (by omega) ha (isBare_comb.mp hb _ hn) hc han (hns _ hn) rfl
      | interRight hunion => cases hunion
      | unionRight hplain => cases hplain .union
      | array harray => cases harray
    | object =>
      cases below_of_isSubset hbc with
      | same h _ => exact hsame h
      | interRight _ hos => exact hmeet rfl rfl hos
      | unionRight _ ho hbo => exact hjoin rfl (fun _ => rfl) ho hbo
      | array harray => cases harray
    | closure =>
      cases below_of_isSubset hbc with
      | same h _ => exact hsame h
      | interRight _ hos => exact hmeet rfl rfl hos
      | unionRight _ ho hbo => exact hjoin rfl (fun _ => rfl) ho hbo
      | array harray => cases harray
    | array harray =>
      obtain rfl := eq_array_of_isBare ha harray
      cases below_of_isSubset hbc with
      | same _ hplain => cases hplain
      | interRight _ hos => exact hmeet rfl rfl hos
      | unionRight _ ho hbo => exact hjoin rfl (fun _ => rfl) ho hbo
      | array => exact hab
    | element => cases ha

/-- **On bare types the relation is a preorder that agrees with sameness.** -/
theorem isSubset_preorder (a b c : Ty) (ha : a.isBare = true) (hb : b.isBare = true)
    (hc : c.isBare = true) :
    isSubset a a = true ∧
    (isSubset a b = true → isSubset b c = true → isSubset a c = true) ∧
    ∀ a' b' : Ty, a'.isBare = true → b'.isBare = true → same a a' = true → same b b' = true →
      isSubset a b = isSubset a' b' := by
  refine ⟨isSubset_of_same ha ha (same_refl a), isSubset_trans ha hb hc, ?_⟩
  intro a' b' ha' hb' haa hbb
  rw [Bool.eq_iff_iff]
  exact ⟨isSubset_same ha ha' hb hb' haa hbb,
    isSubset_same ha' ha hb' hb (same_symm haa) (same_symm hbb)⟩

/-- A union with the member `Foo & bar`, which is no subset of it, the same union with the
names in capitals and the members in another order, and a type above them. -/
theorem isSubset_preorder_respelled :
    let meet : Ty := .inter [.named "Foo", .named "bar"]
    let a : Ty := .union [meet, .array, .array]
    let b : Ty := .union [.array, .inter [.named "BAR", .named "FOO"], .array]
    let c : Ty := .union [.object, .array]
    isSubset meet a = false ∧ isSubset a b = true ∧ isSubset b c = true ∧ isSubset a c = true := by
  intro meet a b c
  have ha : a.isBare = true := by decide
  have hb : b.isBare = true := by decide
  have hsame : same a b = true := by decide +kernel
  have hab : isSubset a b = true := by
    obtain ⟨hrefl, -, hcongr⟩ := isSubset_preorder a a c ha ha (by decide)
    exact hcongr a b ha hb (same_refl a) hsame ▸ hrefl
  have hbc : isSubset b c = true := by decide +kernel
  exact ⟨by decide +kernel, hab, hbc, (isSubset_preorder a b c ha hb (by decide)).2.1 hab hbc⟩

end SsaTypes.Ty
