/-
SsaTypes/Proofs/Spelling.lean

Types with their class names spelled anew.  Classes go by their names up to the case of
ASCII letters, so a new spelling `f` that changes nothing else,

    fold (f s) = fold s,

gives types that count as the same as the old ones (`same_respell`).  Every operation
on types can be done before or after it: combining them, taking one away from another,
comparing them, and the rules for plain values.
-/
import SsaTypes.Inference.Values
import SsaTypes.Proofs.NormalForm
import SsaTypes.Proofs.Sameness

namespace SsaTypes

open Text

namespace Ty

variable (f : String → String)

mutual

/-- The type with its class names spelled anew. -/
def respell : Ty → Ty
  | .named c => .named (f c)
  | .arrayOf e => .arrayOf (respell e)
  | .comb k ms => .comb k (respellAll ms)
  | t => t

/-- The types of a list with their class names spelled anew. -/
def respellAll : List Ty → List Ty
  | [] => []
  | t :: ts => respell t :: respellAll ts

end

theorem respellAll_eq (ts : List Ty) : respellAll f ts = ts.map (respell f) := by
  induction ts with
  | nil => rfl
  | cons t ts ih => rw [respellAll, ih, List.map_cons]

theorem respell_comb (k : Comb) (ms : List Ty) :
    (comb k ms).respell f = .comb k (ms.map (respell f)) := by
  rw [respell, respellAll_eq]

theorem respell_id (t : Ty) : t.respell id = t := by
  induction t using inductOn with
  | arrayOf e ih => rw [respell, ih]
  | comb k ms ih => rw [respell_comb, List.map_congr_left ih, List.map_id']
  | _ => rfl

theorem respell_respell (g : String → String) (t : Ty) :
    (t.respell g).respell f = t.respell (f ∘ g) := by
  induction t using inductOn with
  | arrayOf e ih => rw [respell, respell, ih, respell]
  | comb k ms ih =>
    rw [respell_comb, respell_comb, respell_comb, List.map_map]
    exact congrArg _ (List.map_congr_left ih)
  | _ => rfl

/-- Types with the same new spelling are the same, or they differ in class names only. -/
theorem cases_of_respell_eq {f : String → String} {t u : Ty} (h : t.respell f = u.respell f) :
    t = u ∨ (∃ c d, t = .named c ∧ u = .named d ∧ f c = f d) ∨
      (∃ e e', t = .arrayOf e ∧ u = .arrayOf e' ∧ e.respell f = e'.respell f) ∨
      ∃ k ms ns, t = .comb k ms ∧ u = .comb k ns ∧
        ms.map (respell f) = ns.map (respell f) := by
  cases t with
  | named c =>
    cases u with
    | named d => exact .inr (.inl ⟨c, d, rfl, rfl, named.inj h⟩)
    | _ => cases h
  | arrayOf e =>
    cases u with
    | arrayOf e' => exact .inr (.inr (.inl ⟨e, e', rfl, rfl, arrayOf.inj h⟩))
    | _ => cases h
  | comb k ms =>
    cases u with
    | comb l ns =>
      rw [respell_comb, respell_comb] at h
      obtain ⟨rfl, hms⟩ := comb.inj h
      exact .inr (.inr (.inr ⟨k, ms, ns, rfl, rfl, hms⟩))
    | _ => cases h
  | _ => cases u <;> first | exact .inl rfl | cases h

/-! ### What does not depend on class names -/

@[simp] theorem isUnknown_respell (t : Ty) : (t.respell f).isUnknown = t.isUnknown := by
  cases t <;> rfl

@[simp] theorem isArray_respell (t : Ty) : (t.respell f).isArray = t.isArray := by
  cases t <;> rfl

@[simp] theorem element?_respell (t : Ty) :
    (t.respell f).element? = t.element?.map (respell f) := by
  cases t <;> rfl

@[simp] theorem className?_respell (t : Ty) : (t.respell f).className? = t.className?.map f := by
  cases t <;> rfl

theorem parts_respell (k : Comb) (t : Ty) :
    parts k (t.respell f) = (parts k t).map (respell f) := by
  cases t with
  | comb l ms =>
    rw [respell_comb, parts, parts]
    split
    · rfl
    · rw [List.map_singleton, respell_comb]
  | _ => rfl

theorem simplify_respell (t : Ty) : simplify (t.respell f) = (simplify t).respell f := by
  induction t using inductOn with
  | comb k ms ih =>
    rw [respell_comb, simplify, simplify, respell_comb, flatten_eq, flatten_eq, List.flatMap_map,
      List.map_flatMap]
    congr 1
    refine List.flatMap_congr fun m hm => ?_
    rw [ih m hm, parts_respell]
  | _ => rfl

/-! ### Comparing types -/

section Fold

variable {f} (hf : ∀ s, fold (f s) = fold s)
include hf

theorem sameName_respell (a b : String) : sameName (f a) b = sameName a b := by
  rw [sameName, sameName, hf]

/-- **A new spelling gives the same type.** -/
theorem same_respell (t : Ty) : same (t.respell f) t = true := by
  induction t using inductOn with
  | named c => exact sameName_iff.2 (hf c)
  | comb k ms ih =>
    rw [respell_comb, same_iff]
    refine ⟨rfl, ?_⟩
    show matchAll (ms.map (respell f)) ms = true
    rw [alike.matchAll_iff (fun _ _ => trivial) fun _ _ => trivial]
    intro x _
    -- each member and its new spelling are the same as `x`, or neither is
    rw [List.countP_map]
    refine List.countP_congr fun m hm => ?_
    rw [Function.comp_apply, alike.same_congr trivial trivial trivial (ih m hm)]
  | _ => rfl

theorem same_respell_respell (t u : Ty) : same (t.respell f) (u.respell f) = same t u := by
  have hcomm (a b : Ty) : same a b = same b a :=
    Bool.eq_iff_iff.2 ⟨alike.symm a b trivial trivial, alike.symm b a trivial trivial⟩
  rw [alike.same_congr trivial trivial trivial (same_respell hf u), hcomm,
    alike.same_congr trivial trivial trivial (same_respell hf t), hcomm]

omit hf in
theorem remove?_of_ne_comb {whole : Ty} (h : ∀ k ms, whole ≠ .comb k ms) (t : Ty) :
    whole.remove? t = if same whole t then some .null else some whole := by
  cases whole with
  | comb k ms => exact absurd rfl (h k ms)
  | _ => rfl

theorem remove?_respell (whole t : Ty) :
    (whole.respell f).remove? (t.respell f) = (whole.remove? t).map (respell f) := by
  cases whole with
  | comb k ms =>
    have hfilter : ((ms.map (respell f)).filter fun m => !same m (t.respell f)) =
        (ms.filter fun m => !same m t).map (respell f) := by
      rw [List.filter_map]
      congr 1
      exact List.filter_congr fun m _ => by rw [Function.comp_apply, same_respell_respell hf]
    rw [respell_comb, remove?, remove?, hfilter]
    rcases ms.filter fun m => !same m t with - | ⟨m, - | ⟨m', ms'⟩⟩
    · rfl
    · rfl
    · exact congrArg some (respell_comb f k (m :: m' :: ms')).symm
  | _ =>
    rw [remove?_of_ne_comb (by simp [respell]), remove?_of_ne_comb (by simp),
      same_respell_respell hf]
    split <;> rfl

theorem merge?_respell (ts : List Ty) :
    merge? (ts.map (respell f)) = (merge? ts).map (respell f) := by
  match ts with
  | [] => rfl
  | [t] => rfl
  | t :: u :: ts =>
    have hany : ((t :: u :: ts).map (respell f)).any isUnknown = (t :: u :: ts).any isUnknown := by
      rw [List.any_map]
      exact congrArg _ (funext (isUnknown_respell f))
    have hall : ((u :: ts).map (respell f)).all (fun v => same v (t.respell f)) =
        (u :: ts).all fun v => same v t := by
      rw [List.all_map]
      exact congrArg _ (funext fun v => same_respell_respell hf v t)
    rw [List.map_cons, List.map_cons, merge?, merge?]
    · rw [← List.map_cons, ← List.map_cons, hany, hall, union, union, ← respell_comb,
        simplify_respell]
      split
      · rfl
      · split <;> rfl
    · simp
    · simp

theorem isSubset_respell (a b : Ty) : isSubset (a.respell f) (b.respell f) = isSubset a b := by
  induction hn : sizeOf a + sizeOf b using Nat.strongRecOn generalizing a b with
  | ind n ih =>
    have hleft : ∀ m ∈ a.members, isSubset (m.respell f) (b.respell f) = isSubset m b := by
      intro m hm
      have hlt := sizeOf_members hm
      exact ih _ (by omega) m b rfl
    have hright : ∀ m ∈ b.members, isSubset (a.respell f) (m.respell f) = isSubset a m := by
      intro m hm
      have hlt := sizeOf_members hm
      exact ih _ (by omega) a m rfl
    have helement {d e : Ty} (ha : a = .arrayOf d) (hb : b = .arrayOf e) :
        isSubset (d.respell f) (e.respell f) = isSubset d e := by
      rw [ha, hb, arrayOf.sizeOf_spec, arrayOf.sizeOf_spec] at hn
      exact ih _ (by omega) d e rfl
    have hall {ms : List Ty} {p q : Ty → Bool} (h : ∀ m ∈ ms, p (m.respell f) = q m) :
        (ms.map (respell f)).all p = ms.all q := by
      rw [List.all_map, Bool.eq_iff_iff, List.all_eq_true, List.all_eq_true]
      exact forall₂_congr fun m hm => by rw [Function.comp_apply, h m hm]
    have hany {ms : List Ty} {p q : Ty → Bool} (h : ∀ m ∈ ms, p (m.respell f) = q m) :
        (ms.map (respell f)).any p = ms.any q := by
      rw [List.any_map, Bool.eq_iff_iff, List.any_eq_true, List.any_eq_true]
      exact exists_congr fun m => and_congr_right fun hm => by rw [Function.comp_apply, h m hm]
    rw [isSubset_eq (a.respell f), isSubset_eq a, isUnknown_respell, isUnknown_respell,
      same_respell_respell hf, isArray_respell]
    congr 2
    -- the cases in their order: members on the left or on the right, then plain types
    cases a with
    | comb k ms =>
      cases k with
      | union =>
        rw [respell_comb]
        exact hall hleft
      | inter =>
        cases b with
        | comb l ns =>
          cases l with
          | union =>
            rw [respell_comb f .inter]
            exact hany hleft
          | inter =>
            rw [respell_comb f .inter ns]
            exact hall hright
        | _ =>
          rw [respell_comb]
          exact hany hleft
    | named c =>
      cases b with
      | comb l ns =>
        rw [respell_comb f l ns]
        cases l with
        | union => exact hany hright
        | inter => exact hall hright
      | callable => exact sameName_respell hf c "closure"
      | _ => rfl
    | arrayOf d =>
      cases b with
      | comb l ns =>
        rw [respell_comb f l ns]
        cases l with
        | union => exact hany hright
        | inter => exact hall hright
      | arrayOf e => exact helement rfl rfl
      | _ => rfl
    | _ =>
      cases b with
      | comb l ns =>
        rw [respell_comb f l ns]
        cases l with
        | union => exact hany hright
        | inter => exact hall hright
      | _ => rfl

theorem isStrictSubset_respell (a b : Ty) :
    isStrictSubset (a.respell f) (b.respell f) = isStrictSubset a b := by
  rw [isStrictSubset, isStrictSubset, isSubset_respell hf, same_respell_respell hf]

/-! ### Types equal up to spelling -/

section Congr

variable {t u v w : Ty} (htu : t.respell f = u.respell f)
include htu

theorem isSubset_congr (hvw : v.respell f = w.respell f) : isSubset t v = isSubset u w := by
  rw [← isSubset_respell hf t, htu, hvw, isSubset_respell hf u]

theorem isStrictSubset_congr (hvw : v.respell f = w.respell f) :
    isStrictSubset t v = isStrictSubset u w := by
  rw [← isStrictSubset_respell hf t, htu, hvw, isStrictSubset_respell hf u]

theorem remove?_congr (hvw : v.respell f = w.respell f) :
    (t.remove? v).map (respell f) = (u.remove? w).map (respell f) := by
  rw [← remove?_respell hf t, htu, hvw, remove?_respell hf u]

end Congr

theorem merge?_congr {ts us : List Ty} (h : ts.map (respell f) = us.map (respell f)) :
    (merge? ts).map (respell f) = (merge? us).map (respell f) := by
  rw [← merge?_respell hf, h, merge?_respell hf]

end Fold

end Ty

namespace Inference

/-! ### Rules for plain values -/

variable {f : String → String}

/-- The elements of two arrays are merged. -/
theorem arithmetic_arrays (d e : Ty) :
    arithmetic (.arrayOf d) (.arrayOf e) = ((Ty.merge? [d, e]).map Ty.arrayOf).getD .array := by
  simp only [arithmetic, Ty.element?, Ty.isArray, Option.toList_some, List.cons_append,
    List.nil_append, Bool.and_self, if_true]
  rcases Ty.merge? [d, e] with - | u <;> rfl

theorem arithmetic_respell (hf : ∀ s, fold (f s) = fold s) (l r : Ty) :
    arithmetic (l.respell f) (r.respell f) = (arithmetic l r).respell f := by
  cases l with
  | arrayOf d =>
    cases r with
    | arrayOf e =>
      have hmerge : Ty.merge? [d.respell f, e.respell f] = (Ty.merge? [d, e]).map (Ty.respell f) :=
        Ty.merge?_respell hf [d, e]
      rw [Ty.respell, Ty.respell, arithmetic_arrays, arithmetic_arrays, hmerge]
      rcases Ty.merge? [d, e] with - | u <;> rfl
    | _ => rfl
  | _ => cases r <;> rfl

theorem bitwise_respell (l r : Ty) :
    bitwise (l.respell f) (r.respell f) = (bitwise l r).respell f := by
  cases l with
  | string => cases r <;> rfl
  | _ => rfl

theorem unaryType_respell (op : UnaryOp) (t : Ty) :
    unaryType op (t.respell f) = (unaryType op t).respell f := by
  cases op <;> cases t <;> rfl

theorem dimType_respell (t : Ty) : dimType (t.respell f) = (dimType t).respell f := by
  cases t <;> rfl

end Inference

end SsaTypes
