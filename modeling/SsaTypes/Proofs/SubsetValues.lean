/-
SsaTypes/Proofs/SubsetValues.lean

What a subset means for values.  Each type stands for a set of values (`admits`), and
every rule of the relation carries values over, except the first: types that are the
same may differ in the elements of arrays that are members of unions or intersections.
So for `isSubset a b = true` and a value of `a`, either

    it is a value of `b`,   or   some x within a, y within b are the same, y with an element
                                 type and x with a value that is none of y,

and in any case it is a value of `b` with the elements of arrays left out
(`isSubset_sound`).  The second alternative does occur (`isSubset_unsound`).
-/
import SsaTypes.Proofs.SubsetRules

namespace SsaTypes

open Text

/-! ### Values -/

/-- A value of a running program. -/
inductive Value
  | null
  | bool (b : Bool)
  | int (n : Int)
  | float (text : String)
  | string (text : String)
  /-- An object, with the names it goes by: those of its class and of the classes above. -/
  | object (classNames : List String)
  | array (elements : List Value)
deriving Repr

/-- Which values can be called: closures, and maybe more. -/
structure Callables where
  can : Value → Bool
  closure : ∀ names, names.any Ty.isClosure = true → can (.object names) = true

/-- Where closures are the only values that can be called. -/
def Callables.closures : Callables where
  can
    | .object names => names.any Ty.isClosure
    | _ => false
  closure _ h := h

namespace Ty

section Values

variable (calls : Callables)

mutual

/-- Whether a value is one of the type.  No value is known to be one of `unknown`. -/
def admits : Ty → Value → Bool
  | .null, .null => true
  | .bool, .bool _ => true
  | .int, .int _ => true
  | .float, .float _ => true
  | .string, .string _ => true
  | .callable, v => calls.can v
  | .object, .object _ => true
  | .named c, .object names => names.any (sameName c)
  | .array, .array _ => true
  | .arrayOf e, .array vs => vs.all (admits e)
  | .comb .union ms, v => anyAdmits ms v
  | .comb .inter ms, v => allAdmit ms v
  | _, _ => false

/-- Whether a value is one of some type of the list. -/
def anyAdmits : List Ty → Value → Bool
  | [], _ => false
  | t :: ts, v => admits t v || anyAdmits ts v

/-- Whether a value is one of every type of the list. -/
def allAdmit : List Ty → Value → Bool
  | [], _ => true
  | t :: ts, v => admits t v && allAdmit ts v

end

variable {calls} {v : Value}

theorem admits_union {ms : List Ty} :
    admits calls (.union ms) v = true ↔ ∃ m ∈ ms, admits calls m v = true := by
  rw [admits]
  induction ms with
  | nil => simp [anyAdmits]
  | cons m ms ih => simp [anyAdmits, ih]

theorem admits_inter {ms : List Ty} :
    admits calls (.inter ms) v = true ↔ ∀ m ∈ ms, admits calls m v = true := by
  rw [admits]
  induction ms with
  | nil => simp [allAdmit]
  | cons m ms ih => simp [allAdmit, ih]

theorem admits_array : admits calls .array v = true ↔ ∃ vs, v = .array vs := by
  cases v <;> simp [admits]

theorem admits_arrayOf {e : Ty} :
    admits calls (.arrayOf e) v = true ↔
      ∃ vs, v = .array vs ∧ ∀ w ∈ vs, admits calls e w = true := by
  cases v <;> simp [admits]

theorem exists_array_of_admits {t : Ty} (ht : t.isArray = true) (h : admits calls t v = true) :
    ∃ vs, v = .array vs := by
  cases t with
  | array => exact admits_array.mp h
  | arrayOf e =>
    obtain ⟨vs, hvs, -⟩ := admits_arrayOf.mp h
    exact ⟨vs, hvs⟩
  | _ => cases ht

theorem admits_named {c : String} :
    admits calls (.named c) v = true ↔
      ∃ names, v = .object names ∧ ∃ d ∈ names, sameName c d = true := by
  cases v <;> simp [admits]

end Values

/-! ### Elements left out -/

mutual

/-- The type with the element types of all arrays left out. -/
def dropElements : Ty → Ty
  | .arrayOf _ => .array
  | .comb k ms => .comb k (dropAllElements ms)
  | t => t

/-- The types of a list with the element types of all arrays left out. -/
def dropAllElements : List Ty → List Ty
  | [] => []
  | t :: ts => dropElements t :: dropAllElements ts

end

theorem dropElements_comb (k : Comb) (ms : List Ty) :
    (comb k ms).dropElements = .comb k (ms.map dropElements) := by
  have h : dropAllElements ms = ms.map dropElements := by
    induction ms with
    | nil => rfl
    | cons m ms ih => rw [dropAllElements, ih, List.map_cons]
  rw [dropElements, h]

mutual

/-- The type and all types that occur within it. -/
def within : Ty → List Ty
  | .arrayOf e => .arrayOf e :: within e
  | .comb k ms => .comb k ms :: allWithin ms
  | t => [t]

/-- The types of a list and all that occur within them. -/
def allWithin : List Ty → List Ty
  | [] => []
  | t :: ts => within t ++ allWithin ts

end

theorem dropElements_of_isArray {t : Ty} (h : t.isArray = true) : t.dropElements = .array := by
  cases t with
  | array | arrayOf => rfl
  | _ => cases h

theorem self_mem_within (t : Ty) : t ∈ t.within := by
  cases t <;> simp [within]

theorem mem_within_member {k : Comb} {m t : Ty} {ms : List Ty} (hm : m ∈ ms) (h : t ∈ m.within) :
    t ∈ (comb k ms).within := by
  have hall : t ∈ allWithin ms := by
    induction ms with
    | nil => cases hm
    | cons n ms ih =>
      rw [allWithin, List.mem_append]
      rcases List.mem_cons.mp hm with rfl | hm
      · exact .inl h
      · exact .inr (ih hm)
  exact List.mem_cons_of_mem _ hall

theorem mem_within_element {e t : Ty} (h : t ∈ e.within) : t ∈ (arrayOf e).within :=
  List.mem_cons_of_mem _ h

section Sound

variable {calls : Callables} {a b : Ty} {v : Value}

/-! ### Types that are the same -/

/-- The same types have the same values, but for the elements of arrays. -/
theorem admits_dropElements_of_same (h : same a b = true) (hv : admits calls a v = true) :
    admits calls b.dropElements v = true := by
  induction a using inductOn generalizing b v with
  | named c =>
    obtain ⟨d, rfl, hcd⟩ := exists_named_of_same h
    obtain ⟨names, rfl, n, hn, hcn⟩ := admits_named.mp hv
    refine admits_named.mpr ⟨names, rfl, n, hn, ?_⟩
    exact sameName_iff.mpr ((sameName_iff.mp hcd).symm.trans (sameName_iff.mp hcn))
  | array | arrayOf =>
    have harray : b.isArray = true := h
    rw [dropElements_of_isArray harray]
    exact admits_array.mpr (exists_array_of_admits rfl hv)
  | comb k ms ih =>
    obtain ⟨ns, rfl, hforth, hback⟩ := exists_comb_of_same h
    rw [dropElements_comb]
    cases k with
    | union =>
      obtain ⟨m, hm, hmv⟩ := admits_union.mp hv
      obtain ⟨n, hn, hmn⟩ := hforth m hm
      exact admits_union.mpr ⟨_, List.mem_map_of_mem hn, ih m hm hmn hmv⟩
    | inter =>
      refine admits_inter.mpr (List.forall_mem_map.mpr fun n hn => ?_)
      obtain ⟨m, hm, hmn⟩ := hback n hn
      exact ih m hm hmn (admits_inter.mp hv m hm)
  | _ => cases b <;> first | exact hv | cases h

/-! ### The rules carry values over -/

/-- A change of types that adds values and is made member by member. -/
structure Widening (calls : Callables) (g : Ty → Ty) : Prop where
  admits : ∀ t v, t.admits calls v = true → (g t).admits calls v = true
  comb : ∀ k ms, g (.comb k ms) = .comb k (ms.map g)
  arrayOf : ∀ e, g (.arrayOf e) = .array ∨ g (.arrayOf e) = .arrayOf (g e)

theorem Widening.id : Widening calls id where
  admits _ _ h := h
  comb k ms := by rw [List.map_id]; rfl
  arrayOf _ := .inr rfl

theorem Widening.dropElements : Widening calls dropElements where
  admits t _ := admits_dropElements_of_same (same_refl t)
  comb := dropElements_comb
  arrayOf _ := .inl rfl

/-- Every rule but the first carries values over, also where types on the right are
widened. -/
theorem admits_of_isSubset {g : Ty → Ty} (hg : Widening calls g) (h : isSubset a b = true)
    (hsame : ∀ x ∈ a.within, ∀ y ∈ b.within, same x y = true → x.isArray = false →
      ∀ w, x.admits calls w = true → (g y).admits calls w = true)
    (hv : a.admits calls v = true) : (g b).admits calls v = true := by
  induction hsize : sizeOf a + sizeOf b using Nat.strongRecOn generalizing a b v with
  | ind size ih =>
    cases below_of_isSubset h with
    | same hab harray =>
      exact hsame a (self_mem_within a) b (self_mem_within b) hab harray v hv
    | unionLeft hms =>
      obtain ⟨m, hm, hmv⟩ := admits_union.mp hv
      have hlt := sizeOf_members (t := .union _) hm
      exact ih _ (by omega) (hms m hm) (fun x hx => hsame x (mem_within_member hm hx)) hmv rfl
    | interRight _ hns =>
      rw [hg.comb]
      refine admits_inter.mpr (List.forall_mem_map.mpr fun n hn => ?_)
      have hlt := sizeOf_members (t := .inter _) hn
      exact ih _ (by omega) (hns n hn)
        (fun x hx y hy => hsame x hx y (mem_within_member hn hy)) hv rfl
    | interLeft _ hm hmb =>
      have hlt := sizeOf_members (t := .inter _) hm
      exact ih _ (by omega) hmb (fun x hx => hsame x (mem_within_member hm hx))
        (admits_inter.mp hv _ hm) rfl
    | unionRight _ hn han =>
      rw [hg.comb]
      have hlt := sizeOf_members (t := .union _) hn
      refine admits_union.mpr ⟨_, List.mem_map_of_mem hn, ?_⟩
      exact ih _ (by omega) han (fun x hx y hy => hsame x hx y (mem_within_member hn hy)) hv rfl
    | object =>
      obtain ⟨names, rfl, -⟩ := admits_named.mp hv
      exact hg.admits _ _ rfl
    | closure hc =>
      obtain ⟨names, rfl, n, hn, hcn⟩ := admits_named.mp hv
      refine hg.admits _ _ (calls.closure names (List.any_eq_true.mpr ⟨n, hn, ?_⟩))
      rw [← isClosure_of_sameName hcn, hc]
    | array harray =>
      exact hg.admits _ _ (admits_array.mpr (exists_array_of_admits harray hv))
    | element hef =>
      obtain ⟨vs, rfl, hvs⟩ := admits_arrayOf.mp hv
      rcases hg.arrayOf _ with heq | heq
      · rw [heq]; exact admits_array.mpr ⟨vs, rfl⟩
      · rw [heq]
        refine admits_arrayOf.mpr ⟨vs, rfl, fun w hw => ?_⟩
        exact ih _ (by simp only [arrayOf.sizeOf_spec] at hsize ⊢; omega) hef (fun x hx y hy =>
          hsame x (mem_within_element hx) y (mem_within_element hy)) (hvs w hw) rfl

/-- **Subsets hold for values, except where types that are the same differ in the
elements of arrays.** -/
theorem isSubset_sound (calls : Callables) (a b : Ty) (h : isSubset a b = true) (v : Value)
    (hv : a.admits calls v = true) :
    b.dropElements.admits calls v = true ∧
    (b.admits calls v = true ∨
      ∃ x ∈ a.within, ∃ y ∈ b.within, same x y = true ∧ x.isArray = false ∧
        y.dropElements ≠ y ∧ ∃ w, x.admits calls w = true ∧ y.admits calls w = false) := by
  constructor
  · exact admits_of_isSubset .dropElements h
      (fun x _ y _ hxy _ w hw => admits_dropElements_of_same hxy hw) hv
  · by_contra hneither
    obtain ⟨hb, hpair⟩ := not_or.mp hneither
    refine hb (admits_of_isSubset .id h (fun x hx y hy hxy harray w hw => ?_) hv)
    by_contra hyw
    refine hpair ⟨x, hx, y, hy, hxy, harray, fun hdrop => ?_, w, hw, by simpa using hyw⟩
    exact hyw (hdrop ▸ admits_dropElements_of_same hxy hw)

end Sound

/-- An array with a closure of the class `Handler` in it is an array of what can be called. -/
theorem isSubset_sound_closures :
    let a : Ty := .union [.null, .arrayOf (.inter [.named "Handler", .named "Closure"])]
    let b : Ty := .union [.arrayOf .callable, .int, .null]
    let v : Value := .array [.object ["CLOSURE", "handler"]]
    isSubset a b = true ∧ b.admits .closures v = true := by
  intro a b v
  have h : isSubset a b = true := by decide +kernel
  refine ⟨h, (isSubset_sound .closures a b h v (by decide +kernel)).2.resolve_right ?_⟩
  -- no two parts of the types are the same unions or intersections
  rintro ⟨x, hx, y, hy, hxy, harray, hdrop, -⟩
  have hnone : ∀ x ∈ a.within, ∀ y ∈ b.within,
      same x y = true → x.isArray = false → y.dropElements = y := by decide +kernel
  exact hdrop (hnone x hx y hy hxy harray)

/-- **The exception does occur**: the types are the same, as all arrays are. -/
theorem isSubset_unsound :
    let a : Ty := .union [.arrayOf .int, .null]
    let b : Ty := .union [.arrayOf .string, .null]
    .unknown ∉ a.within ∧ .unknown ∉ b.within ∧ isSubset a b = true ∧
    ∀ calls, a.admits calls (.array [.int 0]) = true ∧ b.admits calls (.array [.int 0]) = false := by
  intro a b
  exact ⟨by decide, by decide, by decide +kernel, fun _ => ⟨rfl, rfl⟩⟩

end Ty

end SsaTypes
