/-
SsaTypes/Proofs/SubsetUnions.lean

When a subset of a member is found to be a subset of the union.  A type without members is
compared with each member of a union on the right; a union on the left is divided first,
and so is an intersection:

    inter xs ⊆ union ms   →   x ⊆ union ms for one member x.

So what is seen of two types as a whole is lost in a union around the second.  There are
two such sights (`isSubset_union_of_mem`): an intersection that is a subset of another
though none of its members is, and two unions that are the same but for the elements of
arrays.

Where no array has an element, it is known which types lose nothing: those that amount to
a union of plain types (`absorbed_iff`).
-/
import SsaTypes.Proofs.Inert
import SsaTypes.Proofs.Pairing
import SsaTypes.Proofs.SubsetOrder
import SsaTypes.Proofs.SubsetValues

namespace SsaTypes.Ty

/-! ### Branches -/

mutual

/-- The type and, for a union or an intersection, the branches of its members.  The
element type of an array is none. -/
def branches : Ty → List Ty
  | .comb k ms => .comb k ms :: allBranches ms
  | t => [t]

/-- The branches of all types of a list. -/
def allBranches : List Ty → List Ty
  | [] => []
  | t :: ts => branches t ++ allBranches ts

end

theorem self_mem_branches (t : Ty) : t ∈ t.branches := by
  cases t <;> simp [branches]

theorem mem_branches_comb {k : Comb} {ms : List Ty} {t : Ty} :
    t ∈ (comb k ms).branches ↔ t = .comb k ms ∨ ∃ m ∈ ms, t ∈ m.branches := by
  have hall : t ∈ allBranches ms ↔ ∃ m ∈ ms, t ∈ m.branches := by
    induction ms with
    | nil => simp [allBranches]
    | cons m ms ih => simp [allBranches, ih]
  rw [branches, List.mem_cons, hall]

theorem mem_branches_of_mem {k : Comb} {ms : List Ty} {m t : Ty} (hm : m ∈ ms)
    (ht : t ∈ m.branches) : t ∈ (comb k ms).branches :=
  mem_branches_comb.mpr (.inr ⟨m, hm, ht⟩)

/-- Whether a type is neither a union nor an intersection. -/
def isPlain : Ty → Bool
  | .comb _ _ => false
  | _ => true

theorem isComb_of_isPlain {t : Ty} (h : t.isPlain = true) (k : Comb) : t.isComb k = false := by
  cases t with
  | comb => cases h
  | _ => rfl

theorem isPlain_or_eq_comb (t : Ty) : t.isPlain = true ∨ ∃ k ms, t = .comb k ms := by
  cases t with
  | comb k ms => exact .inr ⟨k, ms, rfl⟩
  | _ => exact .inl rfl

/-- What holds of a type and passes from unions and intersections to their members holds of
all branches. -/
theorem of_mem_branches {P : Ty → Prop} (hP : ∀ k ms, P (.comb k ms) → ∀ m ∈ ms, P m)
    {a t : Ty} (ha : P a) (ht : t ∈ a.branches) : P t := by
  induction a using inductOn with
  | comb k ms ih =>
    obtain rfl | ⟨m, hm, ht⟩ := mem_branches_comb.mp ht
    · exact ha
    · exact ih m hm (hP k ms ha m hm) ht
  | _ => rwa [List.mem_singleton.mp ht]

/-- The members of branches are branches. -/
theorem member_mem_branches {a m : Ty} {k : Comb} {ms : List Ty} (h : comb k ms ∈ a.branches)
    (hm : m ∈ ms) : m ∈ a.branches := by
  induction a using inductOn with
  | comb l ns ih =>
    obtain heq | ⟨n, hn, h⟩ := mem_branches_comb.mp h
    · obtain ⟨-, rfl⟩ := comb.inj heq
      exact mem_branches_of_mem hm (self_mem_branches m)
    · exact mem_branches_of_mem hn (ih n hn h)
  | _ => cases List.mem_singleton.mp h

/-! ### Definite types -/

theorem isDefinite_comb {k : Comb} {ms : List Ty} :
    (comb k ms).isDefinite = true ↔ ∀ m ∈ ms, m.isDefinite = true := by
  rw [isDefinite, allDefinite_iff]

/-- A definite type is a subset of itself. -/
theorem isSubset_refl {a : Ty} (ha : a.isDefinite = true) : isSubset a a = true := by
  have hknown := isUnknown_of_isDefinite ha
  induction a using inductOn with
  | arrayOf e ih =>
    rw [isDefinite] at ha
    exact isSubset_of_below hknown hknown (.element (ih ha (isUnknown_of_isDefinite ha)))
  | array => exact isSubset_of_below hknown hknown (.array rfl)
  | _ => exact isSubset_of_below hknown hknown (.same (same_refl _) rfl)

theorem isUnknown_of_same {a b : Ty} (h : same a b = true) : a.isUnknown = b.isUnknown := by
  cases a <;> cases b <;> simp_all [same, isUnknown, isArray]

/-- The same as a definite type is above it, unless they are arrays. -/
theorem isSubset_of_same_of_isDefinite {a b : Ty} (ha : a.isDefinite = true)
    (harray : a.isArray = false) (h : same a b = true) : isSubset a b = true :=
  have hknown := isUnknown_of_isDefinite ha
  isSubset_of_below hknown (isUnknown_of_same h ▸ hknown) (.same h harray)

theorem isUnknown_of_isSubset {a b : Ty} (h : isSubset a b = true) :
    a.isUnknown = false ∧ b.isUnknown = false := by
  rw [isSubset_eq] at h
  split at h
  · cases h
  · next hknown => simpa using hknown

/-- What has no members is compared with each member of the union. -/
theorem isSubset_union_of_isPlain {p m : Ty} {ms : List Ty} (hp : p.isPlain = true)
    (hm : m ∈ ms) (h : isSubset p m = true) : isSubset p (.union ms) = true :=
  isSubset_of_below (isUnknown_of_isSubset h).1 rfl (.unionRight (isComb_of_isPlain hp) hm h)

/-! ### What a union does not see -/

/-- Two intersections, one a subset of the other only as a whole: none of its members is. -/
def MeetsWhole (x y : Ty) : Prop :=
  x.isComb .inter = true ∧ y.isComb .inter = true ∧ isSubset x y = true ∧
    ∀ z ∈ x.members, isSubset z y = false

/-- Two unions that are the same but for the elements of arrays: an array of the first is
a subset of no member of the second. -/
def DiffersInElements (x y : Ty) : Prop :=
  x.isComb .union = true ∧ y.isComb .union = true ∧ same x y = true ∧
    ∃ z ∈ x.members, z.isArray = true ∧ ∀ w ∈ y.members, isSubset z w = false

instance (x y : Ty) : Decidable (MeetsWhole x y) :=
  inferInstanceAs (Decidable (_ ∧ _))

instance (x y : Ty) : Decidable (DiffersInElements x y) :=
  inferInstanceAs (Decidable (_ ∧ _))

/-- No branches of the two types are seen only as a whole. -/
def SeenApart (a b : Ty) : Prop :=
  ∀ x ∈ a.branches, ∀ y ∈ b.branches, ¬ (MeetsWhole x y ∨ DiffersInElements x y)

instance (a b : Ty) : Decidable (SeenApart a b) :=
  inferInstanceAs (Decidable (∀ x ∈ _, _))

section Apart

variable {a m : Ty} {ms xs ys : List Ty}

theorem SeenApart.self (h : SeenApart a m) : ¬ MeetsWhole a m ∧ ¬ DiffersInElements a m :=
  not_or.mp (h a (self_mem_branches a) m (self_mem_branches m))

theorem SeenApart.left {k : Comb} {x : Ty} (h : SeenApart (.comb k xs) m) (hx : x ∈ xs) :
    SeenApart x m :=
  fun z hz => h z (mem_branches_of_mem hx hz)

theorem SeenApart.right {k : Comb} {y : Ty} (h : SeenApart a (.comb k ys)) (hy : y ∈ ys) :
    SeenApart a y :=
  fun z hz w hw => h z hz w (mem_branches_of_mem hy hw)

/-- Members of a union are subsets of members of the same union. -/
theorem exists_member_of_same (hsame : same (.union xs) (.union ys) = true)
    (happart : ¬ DiffersInElements (.union xs) (.union ys)) {x : Ty} (hx : x ∈ xs)
    (hdef : x.isDefinite = true) : ∃ y ∈ ys, isSubset x y = true := by
  cases harray : x.isArray with
  | false =>
    obtain ⟨ns, heq, hforth, -⟩ := exists_comb_of_same hsame
    obtain ⟨-, rfl⟩ := comb.inj heq
    obtain ⟨y, hy, hxy⟩ := hforth x hx
    exact ⟨y, hy, isSubset_of_same_of_isDefinite hdef harray hxy⟩
  | true =>
    by_contra hnone
    refine happart ⟨rfl, rfl, hsame, x, hx, harray, fun y hy => ?_⟩
    simpa using fun hxy => hnone ⟨y, hy, hxy⟩

/-- One member of an intersection is a subset of what the intersection is a subset of. -/
theorem exists_member_of_inter (h : isSubset (.inter xs) m = true)
    (hwhole : ¬ MeetsWhole (.inter xs) m) : ∃ x ∈ xs, isSubset x m = true := by
  cases hk : m.isComb .inter with
  | true =>
    by_contra hnone
    refine hwhole ⟨rfl, hk, h, fun x hx => ?_⟩
    simpa using fun hxm => hnone ⟨x, hx, hxm⟩
  | false =>
    cases below_of_isSubset h with
    | same hsame _ => rw [← isComb_of_same hsame] at hk; cases hk
    | interRight => cases hk
    | interLeft _ hx hxm => exact ⟨_, hx, hxm⟩
    | unionRight hplain => cases hplain .inter
    | array harray => cases harray

/-- **Where nothing is seen only as a whole, a subset of a member is a subset of the
union.** -/
theorem isSubset_union_of_seenApart (ha : a.isDefinite = true) (hm : m ∈ ms)
    (h : isSubset a m = true) (happart : SeenApart a m) : isSubset a (.union ms) = true := by
  induction hsize : sizeOf a + sizeOf m using Nat.strongRecOn generalizing a m ms with
  | ind size ih =>
    cases a with
    | comb k xs =>
      have hdef := isDefinite_comb.mp ha
      have hstep {x : Ty} (hx : x ∈ xs) (hxm : isSubset x m = true) :
          isSubset x (.union ms) = true := by
        have := sizeOf_members (t := .comb k xs) hx
        exact ih _ (by omega) (hdef x hx) hm hxm (happart.left hx) rfl
      cases k with
      | union =>
        refine isSubset_of_below rfl rfl (.unionLeft fun x hx => hstep hx ?_)
        cases below_of_isSubset h with
        | same hsame _ =>
          -- then `m` is a union too, with a member above `x`
          obtain ⟨ys, rfl, -, -⟩ := exists_comb_of_same hsame
          obtain ⟨y, hy, hxy⟩ := exists_member_of_same hsame happart.self.2 hx (hdef x hx)
          have := sizeOf_members (t := .comb .union xs) hx
          have := sizeOf_members (t := .comb .union ys) hy
          exact ih _ (by omega) (hdef x hx) hy hxy ((happart.left hx).right hy) rfl
        | unionLeft hxs => exact hxs x hx
        | interRight hk => cases hk
        | unionRight hplain => cases hplain .union
        | array harray => cases harray
      | inter =>
        obtain ⟨x, hx, hxm⟩ := exists_member_of_inter h happart.self.1
        exact isSubset_of_below rfl rfl (.interLeft rfl hx (hstep hx hxm))
    | _ => exact isSubset_union_of_isPlain rfl hm h

end Apart

/-! ### Types that lose nothing -/

section Absorbed

variable {a p t : Ty} {ms ps : List Ty}

theorem exists_member_of_isPlain (hp : p.isPlain = true) (h : isSubset p (.union ms) = true) :
    ∃ m ∈ ms, isSubset p m = true := by
  cases below_of_isSubset h with
  | same hsame _ =>
    have hunion := isComb_of_same hsame .union
    rw [isComb_of_isPlain hp] at hunion
    cases hunion
  | unionLeft => cases hp
  | interLeft => cases hp
  | unionRight _ hm hpm => exact ⟨_, hm, hpm⟩

theorem length_lt_sizeOf (k : Comb) (ms : List Ty) : ms.length < sizeOf (comb k ms) := by
  have hle : ms.length < sizeOf ms := by
    induction ms with
    | nil => simp
    | cons m ms ih =>
      rw [List.length_cons, List.cons.sizeOf_spec]
      omega
  rw [comb.sizeOf_spec]
  omega

/-- A type is not the same as a union with more members than it has room for. -/
theorem same_union_eq_false (h : sizeOf t ≤ ms.length) : same t (.union ms) = false := by
  rw [← Bool.not_eq_true]
  intro hsame
  obtain ⟨ts, rfl, -, -⟩ := exists_comb_of_same (same_symm hsame)
  rw [same, Bool.and_eq_true] at hsame
  obtain ⟨os, hos, hperm⟩ := matchAll_iff_rearranged.mp hsame.2
  have := length_lt_sizeOf .union ts
  have := hos.length_eq
  have := hperm.length_eq
  omega

/-- The plain branches of a type that are subsets of it. -/
def plainBelow (a : Ty) : List Ty :=
  a.branches.filter fun p => p.isPlain && isSubset p a

theorem mem_plainBelow : p ∈ plainBelow a ↔
    p ∈ a.branches ∧ p.isPlain = true ∧ isSubset p a = true := by
  rw [plainBelow, List.mem_filter, Bool.and_eq_true]

/-- What is a subset of a long union of copies of `a` is so through its plain branches. -/
theorem isSubset_plainBelow (hbare : t.isBare = true) (ht : ∀ p ∈ t.branches, p ∈ a.branches)
    (hlong : sizeOf t ≤ ms.length) (hms : ∀ m ∈ ms, m = a)
    (h : isSubset t (.union ms) = true) : isSubset t (.union (plainBelow a)) = true := by
  induction t using inductOn with
  | comb k xs ih =>
    have hstep {x : Ty} (hx : x ∈ xs) (hxm : isSubset x (.union ms) = true) :
        isSubset x (.union (plainBelow a)) = true := by
      have := sizeOf_members (t := .comb k xs) hx
      exact ih x hx (isBare_comb.mp hbare x hx) (fun p hp => ht p (mem_branches_of_mem hx hp))
        (by omega) hxm
    cases below_of_isSubset h with
    | same hsame _ => rw [same_union_eq_false hlong] at hsame; cases hsame
    | unionLeft hxs => exact isSubset_of_below rfl rfl (.unionLeft fun x hx => hstep hx (hxs x hx))
    | interLeft _ hx hxm => exact isSubset_of_below rfl rfl (.interLeft rfl hx (hstep hx hxm))
    | unionRight hplain => simpa [isComb] using hplain k
  | _ =>
    obtain ⟨m, hm, htm⟩ := exists_member_of_isPlain rfl h
    obtain rfl := hms m hm
    have hmem := mem_plainBelow.mpr ⟨ht _ (self_mem_branches _), rfl, htm⟩
    exact isSubset_union_of_isPlain rfl hmem (isSubset_of_same hbare hbare (same_refl _))

theorem isBare_of_mem_branches (ha : a.isBare = true) (h : t ∈ a.branches) :
    t.isBare = true :=
  of_mem_branches (P := fun t => t.isBare = true) (fun _ _ => isBare_comb.mp) ha h

/-- **Without elements, the types that are found in every union around a type above them
are those that amount to a union of plain types.** -/
theorem absorbed_iff (ha : a.isBare = true) :
    (∀ ms : List Ty, (∀ n ∈ ms, n.isBare = true) → ∀ m ∈ ms, isSubset a m = true →
      isSubset a (.union ms) = true) ↔
    ∃ ps : List Ty, (∀ p ∈ ps, p.isPlain = true ∧ p.isBare = true) ∧
      isSubset a (.union ps) = true ∧ isSubset (.union ps) a = true := by
  have hrefl : isSubset a a = true := isSubset_of_same ha ha (same_refl a)
  constructor
  · intro hlaw
    -- so many copies of `a` that no branch of it is the same as their union
    have hms : ∀ m ∈ List.replicate (sizeOf a) a, m = a := fun m => List.eq_of_mem_replicate
    have hmem : a ∈ List.replicate (sizeOf a) a :=
      List.mem_replicate.mpr ⟨by cases a <;> simp, rfl⟩
    have hself := hlaw _ (fun n hn => hms n hn ▸ ha) a hmem hrefl
    refine ⟨plainBelow a, fun p hp => ?_, ?_, ?_⟩
    · obtain ⟨hbranch, hplain, -⟩ := mem_plainBelow.mp hp
      exact ⟨hplain, isBare_of_mem_branches ha hbranch⟩
    · exact isSubset_plainBelow ha (fun _ => id) (by rw [List.length_replicate]) hms hself
    · exact isSubset_of_below rfl (isUnknown_of_isBare ha)
        (.unionLeft fun p hp => (mem_plainBelow.mp hp).2.2)
  · rintro ⟨ps, hps, hbelow, habove⟩ ms hms m hm ham
    have hbps : (Ty.union ps).isBare = true := isBare_comb.mpr fun p hp => (hps p hp).2
    have hbms : (Ty.union ms).isBare = true := isBare_comb.mpr hms
    -- each plain type goes through `a` to `m`, and then to the union
    refine isSubset_trans ha hbps hbms hbelow ?_
    refine isSubset_of_below rfl rfl (.unionLeft fun p hp => ?_)
    obtain ⟨hplain, hbare⟩ := hps p hp
    have hpps : isSubset p (.union ps) = true :=
      isSubset_union_of_isPlain hplain hp (isSubset_of_same hbare hbare (same_refl p))
    have hpa : isSubset p a = true := isSubset_trans hbare hbps ha hpps habove
    exact isSubset_union_of_isPlain hplain hm (isSubset_trans hbare ha (hms m hm) hpa ham)

end Absorbed

/-! ### The law and what it misses -/

/-- **A subset of a member is a subset of the union, unless something is seen of the two
only as a whole**; and without elements, the law holds of the types that amount to a union
of plain types, and of no others. -/
theorem isSubset_union_of_mem (a : Ty) (ha : a.isDefinite = true) :
    (∀ ms : List Ty, ∀ m ∈ ms, isSubset a m = true →
      isSubset a (.union ms) = true ∨
        ∃ x ∈ a.branches, ∃ y ∈ m.branches, MeetsWhole x y ∨ DiffersInElements x y) ∧
    (a.isBare = true →
      ((∀ ms : List Ty, (∀ n ∈ ms, n.isBare = true) → ∀ m ∈ ms, isSubset a m = true →
        isSubset a (.union ms) = true) ↔
      ∃ ps : List Ty, (∀ p ∈ ps, p.isPlain = true ∧ p.isBare = true) ∧
        isSubset a (.union ps) = true ∧ isSubset (.union ps) a = true)) := by
  refine ⟨fun ms m hm h => ?_, absorbed_iff⟩
  by_contra hneither
  obtain ⟨hunion, hnone⟩ := not_or.mp hneither
  have happart : SeenApart a m := fun x hx y hy hxy => hnone ⟨x, hx, y, hy, hxy⟩
  exact hunion (isSubset_union_of_seenApart ha hm h happart)

/-- An intersection of which one member is below the other, and arrays: they amount to
`Foo|array`. -/
theorem isSubset_union_of_mem_absorbed :
    let a : Ty := .union [.inter [.named "Foo", .object], .array]
    let b : Ty := .union [.arrayOf .int, .array, .named "FOO"]
    let c : Ty := .union [.array, .inter [.object, .named "foo"]]
    isSubset a b = true ∧ isSubset a (.union [.null, b]) = true ∧
    isSubset a c = true ∧ isSubset a (.union [c, .bool]) = true := by
  intro a b c
  obtain ⟨hlaw, habsorbed⟩ := isSubset_union_of_mem a (by decide)
  have hab : isSubset a b = true := by decide +kernel
  have hac : isSubset a c = true := by decide +kernel
  have hapart : ¬ ∃ x ∈ a.branches, ∃ y ∈ b.branches, MeetsWhole x y ∨ DiffersInElements x y := by
    decide +kernel
  refine ⟨hab, (hlaw [.null, b] b (by simp) hab).resolve_right hapart, hac, ?_⟩
  refine (habsorbed (by decide)).mpr ⟨[.named "Foo", .array], ?_⟩ [c, .bool] ?_ c (by simp) hac
  · decide +kernel
  · decide

/-- **An intersection is no subset of a union that contains it**, though all its values are
values of the union: of its members, neither is a subset. -/
theorem isSubset_union_misses :
    let a : Ty := .inter [.named "Foo", .named "Bar"]
    a.isDefinite = true ∧ isSubset a a = true ∧ isSubset a (.union [a, .null]) = false ∧
    ∀ calls v, a.admits calls v = true → (Ty.union [a, .null]).admits calls v = true := by
  intro a
  refine ⟨by decide, by decide +kernel, by decide +kernel, fun calls v hv => ?_⟩
  exact admits_union.mpr ⟨a, List.mem_cons_self, hv⟩

end SsaTypes.Ty
