/-
SsaTypes/Proofs/Sameness.lean

Counting as the same is an equivalence.  Two types are the same if their heads
agree and their members can be paired off,

    same a b = true ↔ head a = head b ∧ matchAll (members a) (members b) = true,

and where `same` is an equivalence among the members, they can be paired off, in
whatever order they are taken, exactly if every type has as many likes on
the left as on the right (`Alike.matchAll_iff`).  Counts that are equal are equal the
other way round and along chains, so `same` is an equivalence among
larger types as well; sizes bound the recursion (`alike`).
-/
import Mathlib.Data.List.Count
import SsaTypes.Ty.Same

namespace SsaTypes.Ty

open Text

/-! ### Heads -/

/-- A type without its members, with its name in small letters and without the
elements of an array. -/
def head : Ty → Ty
  | .named c => .named (fold c)
  | .arrayOf _ => .array
  | .comb k _ => .comb k []
  | t => t

theorem same_iff (a b : Ty) :
    same a b = true ↔ a.head = b.head ∧ matchAll a.members b.members = true := by
  cases a <;> cases b <;>
    simp [same, head, members, matchAll, isArray, sameName_iff]

theorem sizeOf_members {t m : Ty} (h : m ∈ t.members) : sizeOf m < sizeOf t := by
  cases t with
  | comb k ms =>
    have hlt : sizeOf m < sizeOf ms := List.sizeOf_lt_of_mem h
    rw [comb.sizeOf_spec]
    omega
  | _ => cases h

/-! ### Pairing off -/

/-- The element taken out passes the test, and the others are left. -/
theorem takeOut_eq_some {α : Type} {test : α → Bool} {xs rest : List α}
    (h : takeOut test xs = some rest) : ∃ x, test x = true ∧ xs.Perm (x :: rest) := by
  induction xs generalizing rest with
  | nil => cases h
  | cons y ys ih =>
    rw [takeOut] at h
    split at h
    · obtain rfl := Option.some.inj h
      exact ⟨y, ‹_›, .refl _⟩
    · obtain ⟨r, hr, rfl⟩ := Option.map_eq_some_iff.mp h
      obtain ⟨x, hx, hp⟩ := ih hr
      exact ⟨x, hx, (hp.cons y).trans (.swap x y r)⟩

theorem takeOut_eq_none {α : Type} {test : α → Bool} {xs : List α}
    (h : takeOut test xs = none) : ∀ x ∈ xs, test x = false := by
  induction xs with
  | nil => nofun
  | cons y ys ih =>
    rw [takeOut] at h
    split at h
    · cases h
    · refine List.forall_mem_cons.mpr ⟨?_, ih (Option.map_eq_none_iff.mp h)⟩
      simpa using ‹¬ test y = true›

/-- `same` is an equivalence among the types that have a property. -/
structure Alike (S : Ty → Prop) : Prop where
  refl : ∀ a, S a → same a a = true
  symm : ∀ a b, S a → S b → same a b = true → same b a = true
  trans : ∀ a b c, S a → S b → S c → same a b = true → same b c = true → same a c = true

namespace Alike

variable {S : Ty → Prop} (h : Alike S)
include h

theorem same_congr {a b c : Ty} (ha : S a) (hb : S b) (hc : S c) (hab : same a b = true) :
    same c a = same c b := by
  rw [Bool.eq_iff_iff]
  exact ⟨fun hca => h.trans c a b hc ha hb hca hab,
    fun hcb => h.trans c b a hc hb ha hcb (h.symm a b ha hb hab)⟩

/-- **Pairing off is counting.**  Whatever is taken first, members can be paired
off if every type is the same as equally many on both sides. -/
theorem matchAll_iff {ms ns : List Ty} (hms : ∀ m ∈ ms, S m) (hns : ∀ n ∈ ns, S n) :
    matchAll ms ns = true ↔ ∀ x, S x → ms.countP (same x) = ns.countP (same x) := by
  induction ms generalizing ns with
  | nil =>
    rw [matchAll, List.isEmpty_iff]
    constructor
    · rintro rfl x -
      rfl
    · intro hcount
      -- a member on the right counts itself
      rcases ns with - | ⟨n, ns⟩
      · rfl
      · have hn := hns n List.mem_cons_self
        have := hcount n hn
        rw [List.countP_nil, List.countP_cons_of_pos (h.refl n hn)] at this
        omega
  | cons m ms ih =>
    obtain ⟨hm, hms⟩ := List.forall_mem_cons.mp hms
    rw [matchAll]
    rcases e : takeOut (same m) ns with - | rest
    · -- nothing on the right is the same as the first member
      have hnone := takeOut_eq_none e
      refine iff_of_false nofun fun hcount => ?_
      have hzero : ns.countP (same m) = 0 := List.countP_eq_zero.mpr fun n hn => by
        simp [hnone n hn]
      have := hcount m hm
      rw [List.countP_cons_of_pos (h.refl m hm)] at this
      omega
    · obtain ⟨n, hmn, hp⟩ := takeOut_eq_some e
      have hn : S n := hns n (hp.mem_iff.mpr List.mem_cons_self)
      have hrest : ∀ r ∈ rest, S r :=
        fun r hr => hns r (hp.mem_iff.mpr (List.mem_cons_of_mem n hr))
      show matchAll ms rest = true ↔ _
      rw [ih hms hrest]
      -- the pair counts the same for every type
      refine forall₂_congr fun x hx => ?_
      rw [hp.countP_eq, List.countP_cons, List.countP_cons, h.same_congr hm hn hx hmn]
      omega

end Alike

/-! ### The equivalence -/

theorem alike_lt (n : Nat) : Alike fun t => sizeOf t < n := by
  induction n with
  | zero => exact ⟨fun a ha => absurd ha (Nat.not_lt_zero _),
      fun a b ha => absurd ha (Nat.not_lt_zero _), fun a b c ha => absurd ha (Nat.not_lt_zero _)⟩
  | succ n ih =>
    have hmem {t : Ty} (ht : sizeOf t < n + 1) : ∀ m ∈ t.members, sizeOf m < n := by
      intro m hm
      have := sizeOf_members hm
      omega
    refine ⟨fun a ha => ?_, fun a b ha hb hab => ?_, fun a b c ha hb hc hab hbc => ?_⟩
    · rw [same_iff, ih.matchAll_iff (hmem ha) (hmem ha)]
      exact ⟨rfl, fun x _ => rfl⟩
    · rw [same_iff, ih.matchAll_iff (hmem ha) (hmem hb)] at hab
      rw [same_iff, ih.matchAll_iff (hmem hb) (hmem ha)]
      exact ⟨hab.1.symm, fun x hx => (hab.2 x hx).symm⟩
    · rw [same_iff, ih.matchAll_iff (hmem ha) (hmem hb)] at hab
      rw [same_iff, ih.matchAll_iff (hmem hb) (hmem hc)] at hbc
      rw [same_iff, ih.matchAll_iff (hmem ha) (hmem hc)]
      exact ⟨hab.1.trans hbc.1, fun x hx => (hab.2 x hx).trans (hbc.2 x hx)⟩

/-- **`same` is an equivalence.** -/
theorem alike : Alike fun _ => True where
  refl a _ := (alike_lt (sizeOf a + 1)).refl a (Nat.lt_succ_self _)
  symm a b _ _ := (alike_lt (sizeOf a + sizeOf b + 1)).symm a b (by omega) (by omega)
  trans a b c _ _ _ :=
    (alike_lt (sizeOf a + sizeOf b + sizeOf c + 1)).trans a b c (by omega) (by omega) (by omega)

theorem same_refl (a : Ty) : same a a = true :=
  alike.refl a trivial

theorem same_symm {a b : Ty} (h : same a b = true) : same b a = true :=
  alike.symm a b trivial trivial h

theorem same_trans {a b c : Ty} (hab : same a b = true) (hbc : same b c = true) :
    same a c = true :=
  alike.trans a b c trivial trivial trivial hab hbc

/-! ### Unions and intersections -/

/-- A member on the left that is paired off is the same as one on the right. -/
theorem exists_same_of_matchAll {ms ns : List Ty} (h : matchAll ms ns = true) :
    ∀ m ∈ ms, ∃ n ∈ ns, same m n = true := by
  intro m hm
  have hcount := (alike.matchAll_iff (fun _ _ => trivial) fun _ _ => trivial).mp h m trivial
  have hpos : 0 < ms.countP (same m) := List.countP_pos_iff.mpr ⟨m, hm, same_refl m⟩
  rw [hcount] at hpos
  exact List.countP_pos_iff.mp hpos

/-- The same as a union is only a union, and with the same members; the same as an
intersection only an intersection. -/
theorem exists_comb_of_same {k : Comb} {ms : List Ty} {t : Ty} (h : same (.comb k ms) t = true) :
    ∃ ns, t = .comb k ns ∧ (∀ m ∈ ms, ∃ n ∈ ns, same m n = true) ∧
      ∀ n ∈ ns, ∃ m ∈ ms, same m n = true := by
  cases t with
  | comb l ns =>
    rw [same, Bool.and_eq_true, beq_iff_eq] at h
    obtain ⟨rfl, hms⟩ := h
    have hns : same (.comb k ns) (.comb k ms) = true := same_symm (by simp [same, hms])
    rw [same, Bool.and_eq_true] at hns
    refine ⟨ns, rfl, exists_same_of_matchAll hms, fun n hn => ?_⟩
    obtain ⟨m, hm, hnm⟩ := exists_same_of_matchAll hns.2 n hn
    exact ⟨m, hm, same_symm hnm⟩
  | _ => simp [same] at h

end SsaTypes.Ty
