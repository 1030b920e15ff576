/-
SsaTypes/Proofs/NormalForm.lean

Types in normal form: nothing unknown, no union or intersection with fewer than
two members or with a member of its own kind, and no class name that a
declaration could not give.  A normal type is simplified, and

    simplify (comb k [l, r]) = comb k (parts k l ++ parts k r)

puts two normal types together to a normal one.  So every type read from a
declaration is normal (`isNormal_of_parse`).
-/
import Mathlib.Data.List.Basic
import SsaTypes.Decl.Parser
import SsaTypes.Fault

namespace SsaTypes

namespace Ty

/-! ### The normal form -/

/-- Whether a type is a union or intersection of the given kind. -/
def isComb (k : Comb) : Ty → Bool
  | .comb l _ => l = k
  | _ => false

mutual

/-- Whether a type is in normal form. -/
def isNormal : Ty → Bool
  | .unknown => false
  | .named c => Decl.isName c.toList && (Decl.keyword? c.toList).isNone
  | .arrayOf e => isNormal e
  | .comb k ms => decide (2 ≤ ms.length) && allNormal k ms
  | _ => true

/-- Whether all types of a list are in normal form and none is of kind `k`. -/
def allNormal (k : Comb) : List Ty → Bool
  | [] => true
  | m :: ms => isNormal m && !isComb k m && allNormal k ms

end

theorem allNormal_iff {k : Comb} {ms : List Ty} :
    allNormal k ms = true ↔ ∀ m ∈ ms, m.isNormal = true ∧ m.isComb k = false := by
  induction ms with
  | nil => simp [allNormal]
  | cons m ms ih => simp [allNormal, ih]

theorem isNormal_comb {k : Comb} {ms : List Ty} :
    (comb k ms).isNormal = true ↔
      2 ≤ ms.length ∧ ∀ m ∈ ms, m.isNormal = true ∧ m.isComb k = false := by
  rw [isNormal, Bool.and_eq_true, decide_eq_true_iff, allNormal_iff]

theorem isUnknown_of_isNormal {t : Ty} (h : t.isNormal = true) : t.isUnknown = false := by
  cases t with
  | unknown => cases h
  | _ => rfl

/-! ### Flattening -/

/-- The members of a type of kind `k`; any other type is its only part. -/
def parts (k : Comb) : Ty → List Ty
  | .comb l ms => if l = k then ms else [.comb l ms]
  | t => [t]

theorem parts_of_isComb {k : Comb} {t : Ty} (h : t.isComb k = false) : parts k t = [t] := by
  cases t with
  | comb l ms => exact if_neg (of_decide_eq_false h)
  | _ => rfl

theorem flatten_eq (k : Comb) (ms : List Ty) :
    flatten k ms = ms.flatMap fun m => parts k (simplify m) := by
  induction ms with
  | nil => rfl
  | cons m ms ih =>
    rw [flatten, List.flatMap_cons, ← ih]
    cases simplify m with
    | comb l inner =>
      simp only [parts]
      split <;> rfl
    | _ => rfl

/-- A type has its members for parts, or itself. -/
theorem parts_cases (k : Comb) (t : Ty) :
    (∃ ms, t = .comb k ms ∧ parts k t = ms) ∨ (t.isComb k = false ∧ parts k t = [t]) := by
  rcases h : t.isComb k with - | -
  · exact .inr ⟨rfl, parts_of_isComb h⟩
  · cases t with
    | comb l ms =>
      obtain rfl := of_decide_eq_true h
      exact .inl ⟨ms, rfl, if_pos rfl⟩
    | _ => cases h

/-- A union of simplified types is simplified if none of them is a union; so is
an intersection. -/
theorem simplify_comb {k : Comb} {ms : List Ty}
    (h : ∀ m ∈ ms, simplify m = m ∧ m.isComb k = false) :
    simplify (.comb k ms) = .comb k ms := by
  have hparts : ∀ m ∈ ms, parts k (simplify m) = [m] := by
    intro m hm
    rw [(h m hm).1, parts_of_isComb (h m hm).2]
  rw [simplify, flatten_eq, List.flatMap_congr hparts, List.flatMap_singleton']

/-- **Normal types are simplified.** -/
theorem simplify_of_isNormal {t : Ty} (h : t.isNormal = true) : simplify t = t := by
  induction t using inductOn with
  | comb k ms ih =>
    have hms := (isNormal_comb.1 h).2
    exact simplify_comb fun m hm => ⟨ih m hm (hms m hm).1, (hms m hm).2⟩
  | _ => rfl

section Parts

variable {k : Comb} {t : Ty} (h : t.isNormal = true)
include h

theorem isNormal_of_mem_parts {m : Ty} (hm : m ∈ parts k t) :
    m.isNormal = true ∧ m.isComb k = false := by
  rcases parts_cases k t with ⟨ms, rfl, hp⟩ | ⟨hk, hp⟩
  · rw [hp] at hm
    exact (isNormal_comb.1 h).2 m hm
  · rw [hp, List.mem_singleton] at hm
    exact hm ▸ ⟨h, hk⟩

theorem length_parts_pos : 0 < (parts k t).length := by
  rcases parts_cases k t with ⟨ms, rfl, hp⟩ | ⟨-, hp⟩
  · have := (isNormal_comb.1 h).1
    rw [hp]
    omega
  · rw [hp]
    exact Nat.one_pos

end Parts

/-- Two normal types together. -/
theorem simplify_pair (k : Comb) {l r : Ty} (hl : l.isNormal = true) (hr : r.isNormal = true) :
    simplify (.comb k [l, r]) = .comb k (parts k l ++ parts k r) := by
  rw [simplify, flatten_eq]
  simp only [List.flatMap_cons, List.flatMap_nil, List.append_nil, simplify_of_isNormal hl,
    simplify_of_isNormal hr]

/-- **Two normal types together are normal.** -/
theorem isNormal_pair (k : Comb) {l r : Ty} (hl : l.isNormal = true) (hr : r.isNormal = true) :
    (simplify (.comb k [l, r])).isNormal = true := by
  rw [simplify_pair k hl hr, isNormal_comb, List.length_append]
  have hl1 := length_parts_pos (k := k) hl
  have hr1 := length_parts_pos (k := k) hr
  refine ⟨by omega, fun m hm => ?_⟩
  rcases List.mem_append.1 hm with hm | hm
  · exact isNormal_of_mem_parts hl hm
  · exact isNormal_of_mem_parts hr hm

end Ty

namespace Decl

/-! ### What is read -/

/-- The type of a text, by its shape. -/
theorem parse_eq (cs : List Char) :
    parse cs = match shape cs with
      | .refused e => .error e
      | .simple t => .ok t
      | .nullable inner => (parse inner).map fun t => t.orNull.simplify
      | .arrayOf element => (parse element).map Ty.arrayOf
      | .group inner n .nothing => (parse inner).map fun t => (arrays n t).simplify
      | .group inner _ (.junk rest) =>
        (parse inner).bind fun _ => .error (.danglingCombinator (String.ofList rest))
      | .group inner n (.joined k right) =>
        (parse inner).bind fun l => (parse right).map fun r => (Ty.comb k [arrays n l, r]).simplify
      | .joined k left right =>
        (parse left).bind fun l => (parse right).map fun r => (Ty.comb k [l, r]).simplify := by
  rw [parse]
  split <;> rename_i h <;> simp only [h]

theorem isNormal_keyword {cs : List Char} {t : Ty} (h : keyword? cs = some t) :
    t.isNormal = true := by
  obtain ⟨p, hp, rfl⟩ := Option.map_eq_some_iff.1 h
  have hall : keywords.all (fun q => q.2.isNormal) = true := by decide
  exact List.all_eq_true.1 hall p (List.mem_of_find?_eq_some hp)

/-- A keyword or a class name is normal. -/
theorem isNormal_bareShape {cs : List Char} {t : Ty} (h : bareShape cs = .simple t) :
    t.isNormal = true := by
  unfold bareShape at h
  split at h
  · rename_i u hu
    obtain rfl := Shape.simple.inj h
    exact isNormal_keyword hu
  · rename_i hkey
    split at h
    -- a text with a combinator or a parenthesis is neither
    · split at h
      · unfold groupShape at h
        split at h <;> try split at h
        all_goals cases h
      · unfold joinedShape at h
        split at h <;> try split at h
        all_goals cases h
    · split at h
      · cases h
      · split at h
        · rename_i hname
          obtain rfl := Shape.simple.inj h
          have hne : String.ofList cs ≠ "" := by
            rintro h0
            rw [String.ofList_eq_empty_iff] at h0
            subst h0
            cases hname
          rw [Ty.ofClass, if_neg hne, Ty.isNormal, String.toList_ofList, hname, hkey]
          rfl
        · cases h

theorem isNormal_shape {cs : List Char} {t : Ty} (h : shape cs = .simple t) :
    t.isNormal = true := by
  cases cs with
  | nil => cases h
  | cons c cs =>
    rw [shape] at h
    split at h
    · split at h
      · cases h
      · exact isNormal_bareShape h
    · split at h
      · cases h
      · exact isNormal_bareShape h

theorem isNormal_arrays {t : Ty} (h : t.isNormal = true) (n : Nat) :
    (arrays n t).isNormal = true := by
  induction n with
  | zero => exact h
  | succ n ih => exact ih

/-- **What is read is normal.** -/
theorem isNormal_of_parse {cs : List Char} {t : Ty} (h : parse cs = .ok t) :
    t.isNormal = true := by
  induction cs using parse.induct generalizing t with
  | case1 cs e hs =>
    rw [parse_eq, hs] at h
    cases h
  | case2 cs u hs =>
    rw [parse_eq, hs] at h
    exact Except.ok.inj h ▸ isNormal_shape hs
  | case3 cs inner hs _ ih =>
    rw [parse_eq, hs] at h
    obtain ⟨u, hu, rfl⟩ := map_eq_ok.1 h
    exact Ty.isNormal_pair .union (ih hu) rfl
  | case4 cs element hs _ ih =>
    rw [parse_eq, hs] at h
    obtain ⟨u, hu, rfl⟩ := map_eq_ok.1 h
    exact isNormal_arrays (ih hu) 1
  | case5 cs inner n hs _ ih =>
    rw [parse_eq, hs] at h
    obtain ⟨u, hu, rfl⟩ := map_eq_ok.1 h
    have hn := isNormal_arrays (ih hu) n
    rwa [Ty.simplify_of_isNormal hn]
  | case6 cs inner n rest hs _ ih =>
    rw [parse_eq, hs] at h
    obtain ⟨u, -, hu⟩ := bind_eq_ok.1 h
    cases hu
  | case7 cs inner n k right hs _ _ ihl ihr =>
    rw [parse_eq, hs] at h
    obtain ⟨l, hl, h⟩ := bind_eq_ok.1 h
    obtain ⟨r, hr, rfl⟩ := map_eq_ok.1 h
    exact Ty.isNormal_pair k (isNormal_arrays (ihl hl) n) (ihr hr)
  | case8 cs k left right hs _ _ ihl ihr =>
    rw [parse_eq, hs] at h
    obtain ⟨l, hl, h⟩ := bind_eq_ok.1 h
    obtain ⟨r, hr, rfl⟩ := map_eq_ok.1 h
    exact Ty.isNormal_pair k (ihl hl) (ihr hr)

end Decl

end SsaTypes
