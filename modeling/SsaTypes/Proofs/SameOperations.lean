/-
SsaTypes/Proofs/SameOperations.lean

Operations on types that are the same give results that are the same.  Members that are
paired off stay so when their parts take their place, when those that are the same as
something are left out, and when they are counted:

    matchAll ms ns  →  matchAll (ms.flatMap f) (ns.flatMap f),
                       matchAll (ms.filter p) (ns.filter p),
                       ms.length = ns.length.

So no branch of `simplify`, `remove?`, `allowsNull` and `merge?` takes apart two types that
are the same (`same_operations`).
-/
import Mathlib.Data.List.Forall2
import SsaTypes.Proofs.Flattening
import SsaTypes.Proofs.Pairing
import SsaTypes.Proofs.Spelling

namespace SsaTypes.Ty

/-- No results, or results that are the same. -/
abbrev SameResult : Option Ty → Option Ty → Prop :=
  Option.Rel fun a b => same a b = true

/-! ### Members that are paired off -/

section Members

variable {ms ns : List Ty}

theorem matchAll_iff_countP :
    matchAll ms ns = true ↔ ∀ x, ms.countP (same x) = ns.countP (same x) := by
  rw [alike.matchAll_iff (fun _ _ => trivial) fun _ _ => trivial]
  exact forall_congr' fun x => ⟨fun h => h trivial, fun h _ => h⟩

theorem matchAll_symm (h : matchAll ms ns = true) : matchAll ns ms = true :=
  matchAll_iff_countP.mpr fun x => (matchAll_iff_countP.mp h x).symm

theorem matchAll_singleton {m n : Ty} (h : same m n = true) : matchAll [m] [n] = true := by
  simp [matchAll, takeOut, h]

theorem matchAll_append {ms' ns' : List Ty} (h : matchAll ms ns = true)
    (h' : matchAll ms' ns' = true) : matchAll (ms ++ ms') (ns ++ ns') = true := by
  rw [matchAll_iff_countP] at h h' ⊢
  intro x
  rw [List.countP_append, List.countP_append, h x, h' x]

theorem length_eq_of_matchAll (h : matchAll ms ns = true) : ms.length = ns.length := by
  obtain ⟨os, hos, hperm⟩ := matchAll_iff_rearranged.mp h
  rw [hos.length_eq, hperm.length_eq]

theorem matchAll_filter (h : matchAll ms ns = true) {p : Ty → Bool}
    (hp : ∀ a b, same a b = true → p a = p b) :
    matchAll (ms.filter p) (ns.filter p) = true := by
  obtain ⟨os, hos, hperm⟩ := matchAll_iff_rearranged.mp h
  refine matchAll_iff_rearranged.mpr ⟨os.filter p, ?_, hperm.filter p⟩
  exact List.rel_filter (fun a b hab => iff_of_eq (congrArg (· = true) (hp a b hab))) hos

/-- Lists may take the place of members if those for members that are the same can be
paired off. -/
theorem matchAll_flatMap (h : matchAll ms ns = true) {f : Ty → List Ty}
    (hf : ∀ m ∈ ms, ∀ n, same m n = true → matchAll (f m) (f n) = true) :
    matchAll (ms.flatMap f) (ns.flatMap f) = true := by
  obtain ⟨os, hos, hperm⟩ := matchAll_iff_rearranged.mp h
  have hmos : matchAll (ms.flatMap f) (os.flatMap f) = true := by
    clear h hperm
    induction hos with
    | nil => rfl
    | cons hmo _ ih =>
      obtain ⟨hm, hms⟩ := List.forall_mem_cons.mp hf
      rw [List.flatMap_cons, List.flatMap_cons]
      exact matchAll_append (hm _ hmo) (ih hms)
  rw [matchAll_iff_countP] at hmos ⊢
  intro x
  rw [hmos x, (hperm.flatMap_right f).countP_eq]

theorem any_eq_of_matchAll (h : matchAll ms ns = true) {p : Ty → Bool}
    (hp : ∀ m ∈ ms, ∀ n, same m n = true → p m = p n) : ms.any p = ns.any p := by
  rw [Bool.eq_iff_iff, List.any_eq_true, List.any_eq_true]
  constructor
  · rintro ⟨m, hm, hpm⟩
    obtain ⟨n, hn, hmn⟩ := exists_same_of_matchAll h m hm
    exact ⟨n, hn, hp m hm n hmn ▸ hpm⟩
  · rintro ⟨n, hn, hpn⟩
    obtain ⟨m, hm, hnm⟩ := exists_same_of_matchAll (matchAll_symm h) n hn
    exact ⟨m, hm, (hp m hm n (same_symm hnm)).symm ▸ hpn⟩

theorem all_eq_of_matchAll (h : matchAll ms ns = true) {p : Ty → Bool}
    (hp : ∀ m ∈ ms, ∀ n, same m n = true → p m = p n) : ms.all p = ns.all p := by
  have hany := any_eq_of_matchAll h (p := fun t => !p t) fun m hm n hmn => by rw [hp m hm n hmn]
  rw [List.any_eq_not_all_not, List.any_eq_not_all_not] at hany
  simpa using hany

end Members

/-! ### Types that are the same -/

variable {a b : Ty}

theorem same_congr_left (h : same a b = true) (x : Ty) : same a x = same b x := by
  rw [Bool.eq_iff_iff]
  exact ⟨fun hax => same_trans (same_symm h) hax, fun hbx => same_trans h hbx⟩

theorem same_congr_right (h : same a b = true) (x : Ty) : same x a = same x b :=
  alike.same_congr trivial trivial trivial h

/-- The same as a union is a union whose members can be paired off; so with an
intersection. -/
theorem exists_matchAll_of_same {k : Comb} {ms : List Ty} (h : same (.comb k ms) b = true) :
    ∃ ns, b = .comb k ns ∧ matchAll ms ns = true := by
  cases b with
  | comb l ns =>
    rw [same, Bool.and_eq_true, beq_iff_eq] at h
    exact ⟨ns, by rw [h.1], h.2⟩
  | _ => simp [same] at h

theorem isPlain_of_same (h : same a b = true) : a.isPlain = b.isPlain := by
  cases a <;> cases b <;> simp_all [same, isPlain, isArray]

theorem matchAll_parts (k : Comb) (h : same a b = true) :
    matchAll (parts k a) (parts k b) = true := by
  obtain ⟨ms, rfl, hparts⟩ | ⟨hk, hparts⟩ := parts_cases k a
  · obtain ⟨ns, rfl, hms⟩ := exists_matchAll_of_same h
    rwa [hparts, parts, if_pos rfl]
  · rw [hparts, parts_of_isComb (isComb_of_same h k ▸ hk)]
    exact matchAll_singleton h

/-! ### The operations -/

/-- **Flattening respects sameness.**  By induction on the type: the parts of the flattened
members are paired off. -/
theorem same_simplify (h : same a b = true) : same (simplify a) (simplify b) = true := by
  induction a using inductOn generalizing b with
  | comb k ms ih =>
    obtain ⟨ns, rfl, hms⟩ := exists_matchAll_of_same h
    rw [simplify, simplify, same, flatten_eq, flatten_eq, beq_self_eq_true, Bool.true_and]
    exact matchAll_flatMap hms fun m hm n hmn => matchAll_parts k (ih m hm hmn)
  | _ => rwa [simplify_of_isPlain rfl, simplify_of_isPlain (isPlain_of_same h ▸ rfl)]

theorem allowsNull_same (h : same a b = true) : a.allowsNull = b.allowsNull := by
  induction a using inductOn generalizing b with
  | comb k ms ih =>
    obtain ⟨ns, rfl, hms⟩ := exists_matchAll_of_same h
    cases k with
    | union =>
      rw [allowsNull, allowsNull, anyAllowsNull_eq, anyAllowsNull_eq]
      exact any_eq_of_matchAll hms fun m hm n hmn => ih m hm hmn
    | inter =>
      rw [allowsNull, allowsNull, allAllowNull_eq, allAllowNull_eq]
      exact all_eq_of_matchAll hms fun m hm n hmn => ih m hm hmn
  | _ => cases b <;> simp_all [same, allowsNull, isArray]

/-- **Subtracting respects sameness.**  As many members are left on both sides. -/
theorem remove?_same {t u : Ty} (h : same a b = true) (htu : same t u = true) :
    SameResult (a.remove? t) (b.remove? u) := by
  obtain ha | ⟨k, ms, rfl⟩ := isPlain_or_eq_comb a
  · have hplain {c : Ty} (hc : c.isPlain = true) (k : Comb) (ms : List Ty) : c ≠ .comb k ms := by
      rintro rfl
      cases hc
    rw [remove?_of_ne_comb (hplain ha), remove?_of_ne_comb (hplain (isPlain_of_same h ▸ ha)),
      same_congr_left h, same_congr_right htu]
    split
    · exact .some rfl
    · exact .some h
  · obtain ⟨ns, rfl, hms⟩ := exists_matchAll_of_same h
    have hkept : matchAll (ms.filter fun m => !same m t) (ns.filter fun n => !same n u) = true := by
      simp only [← same_congr_right htu]
      exact matchAll_filter hms fun m n hmn => by rw [same_congr_left hmn]
    have hlen := length_eq_of_matchAll hkept
    simp only [remove?]
    generalize ms.filter (fun m => !same m t) = kept at *
    generalize ns.filter (fun n => !same n u) = kept' at *
    -- nothing is left, or one member, or more
    cases kept with
    | nil =>
      rw [List.eq_nil_of_length_eq_zero hlen.symm]
      exact .none
    | cons m ms =>
      obtain ⟨n, ns, rfl⟩ := List.exists_of_length_succ _ hlen.symm
      cases ms with
      | nil =>
        obtain rfl := List.eq_nil_of_length_eq_zero (Nat.succ.inj hlen.symm)
        obtain ⟨n', hn, hmn⟩ := exists_same_of_matchAll hkept m List.mem_cons_self
        exact .some (List.mem_singleton.mp hn ▸ hmn)
      | cons m' ms =>
        obtain ⟨n', ns, rfl⟩ := List.exists_of_length_succ _ (Nat.succ.inj hlen.symm)
        exact .some (by rw [same, hkept, beq_self_eq_true]; rfl)

/-- Members are all the same as one of them if those paired off with them are. -/
theorem all_same_of_matchAll {ms ns : List Ty} (h : matchAll ms ns = true) {m n : Ty} (hn : n ∈ ns)
    (hall : ∀ x ∈ ms, same x m = true) :
    same m n = true ∧ ∀ y ∈ ns, same y n = true := by
  have hsame : ∀ y ∈ ns, same m y = true := by
    intro y hy
    obtain ⟨x, hx, hyx⟩ := exists_same_of_matchAll (matchAll_symm h) y hy
    exact same_symm (same_trans hyx (hall x hx))
  exact ⟨hsame n hn, fun y hy => same_trans (same_symm (hsame y hy)) (hsame n hn)⟩

/-- A merge of several candidates, with the first among those compared with it. -/
theorem merge?_cons_cons (t t' : Ty) (ts : List Ty) :
    merge? (t :: t' :: ts) =
      if (t :: t' :: ts).any isUnknown then none
      else if ∀ x ∈ t :: t' :: ts, same x t = true then some t
      else some (simplify (.union (t :: t' :: ts))) := by
  rw [merge?]
  · simp only [List.forall_mem_cons, same_refl, true_and, List.all_eq_true]
  · simp

/-- **Merging respects sameness** and the order of the candidates. -/
theorem merge?_same {ts us : List Ty} (h : matchAll ts us = true) :
    SameResult (merge? ts) (merge? us) := by
  match ts, us, length_eq_of_matchAll h with
  | [], [], _ => exact .none
  | [t], [u], _ =>
    obtain ⟨u', hu, htu⟩ := exists_same_of_matchAll h t List.mem_cons_self
    exact .some (List.mem_singleton.mp hu ▸ htu)
  | t :: t' :: ts, u :: u' :: us, _ =>
    have hknown := any_eq_of_matchAll h (p := isUnknown) fun x _ y hxy => isUnknown_of_same hxy
    rw [merge?_cons_cons, merge?_cons_cons, hknown]
    split
    · exact .none
    · -- if the candidates on one side are all the same, so are those on the other
      by_cases hall : ∀ x ∈ t :: t' :: ts, same x t = true
      · obtain ⟨htu, hall'⟩ :=
          all_same_of_matchAll h List.mem_cons_self hall
        rw [if_pos hall, if_pos hall']
        exact .some htu
      · have hall' : ¬ ∀ y ∈ u :: u' :: us, same y u = true := fun hall' =>
          hall (all_same_of_matchAll (matchAll_symm h) List.mem_cons_self hall').2
        rw [if_neg hall, if_neg hall']
        exact .some (same_simplify (by rw [same, h, beq_self_eq_true]; rfl))

/-- **The operations respect sameness.**  Types that are the same stay so when they are
flattened, allow null alike, and from them types that are the same can be removed or cannot,
with the same result.  Candidates may be reordered and replaced by others that are the same
before they are merged. -/
theorem same_operations :
    (∀ a b t u : Ty, same a b = true → same t u = true →
      same (simplify a) (simplify b) = true ∧ a.allowsNull = b.allowsNull ∧
      SameResult (a.remove? t) (b.remove? u)) ∧
    ∀ ts us vs : List Ty, ts.Perm us → SameAll us vs → SameResult (merge? ts) (merge? vs) := by
  refine ⟨fun a b t u hab htu =>
    ⟨same_simplify hab, allowsNull_same hab, remove?_same hab htu⟩, ?_⟩
  intro ts us vs hperm hsame
  refine merge?_same (matchAll_iff_countP.mpr fun x => ?_)
  rw [hperm.countP_eq, hsame.countP_eq]

/-- A union with a nested one, from which an array is removed, and candidates in another order
and spelling. -/
theorem same_operations_reordered :
    let a : Ty := .union [.arrayOf .int, .union [.named "Foo", .null]]
    let b : Ty := .union [.union [.null, .named "FOO"], .array]
    same (simplify a) (simplify b) = true ∧ a.allowsNull = b.allowsNull ∧
      SameResult (some (.union [.named "Foo", .null])) (some (.union [.null, .named "FOO"])) ∧
      SameResult (merge? [a, .int, b]) (merge? [b, b, .int]) := by
  intro a b
  have hab : same a b = true := by decide +kernel
  obtain ⟨hflat, hnull, hrest⟩ := same_operations.1 a b .array (.arrayOf .string) hab rfl
  have ha : a.remove? .array = some (.union [.named "Foo", .null]) := by decide +kernel
  have hb : b.remove? (.arrayOf .string) = some (.union [.null, .named "FOO"]) := by
    decide +kernel
  refine ⟨hflat, hnull, ha ▸ hb ▸ hrest, same_operations.2 _ [a, b, .int] _ ?_ ?_⟩
  · exact .cons a (.swap b .int [])
  · exact .cons hab (.cons (same_refl b) (.cons rfl .nil))

end SsaTypes.Ty
