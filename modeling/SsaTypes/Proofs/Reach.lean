/-
SsaTypes/Proofs/Reach.lean

What a walk through names visits.  Both walks of the hierarchy take the first name of
those to visit and add what it leads to; they differ in where they add it.  So they
are walks in one sense (`Walk`), in which the names added may stand anywhere, and

    a ∈ result  ↔  some name to visit leads to a

for a walk that has visited nothing yet (`Walk.mem_iff`).  Nothing is visited that no
name leads to (`Walk.sound`), and what has been visited leads nowhere else
(`Walk.closed`): the names it leads to are visited or still to visit at every point of
the walk, cycles included.
-/
import Mathlib.Logic.Relation
import SsaTypes.Hierarchy.Basic

namespace SsaTypes.Hierarchy

open Relation Text

/-! ### Walks -/

/-- A walk along `next`: the names to visit, those visited before, and those visited
at its end. -/
inductive Walk (next : String → List String) : List String → List String → List String → Prop
  | done (visited : List String) : Walk next [] visited visited
  | skip {n : String} {rest visited result : List String} :
      n ∈ visited → Walk next rest visited result → Walk next (n :: rest) visited result
  | visit {n : String} {rest more visited result : List String} :
      n ∉ visited → more.Perm (next n ++ rest) → Walk next more (visited ++ [n]) result →
      Walk next (n :: rest) visited result

namespace Walk

variable {next : String → List String} {toVisit visited result : List String}

/-- A name to visit leads to everything that is visited from then on. -/
theorem sound (h : Walk next toVisit visited result) {a : String} (ha : a ∈ result) :
    a ∈ visited ∨ ∃ n ∈ toVisit, ReflTransGen (fun x y => y ∈ next x) n a := by
  induction h with
  | done => exact .inl ha
  | skip _ _ ih =>
    refine (ih ha).imp_right ?_
    rintro ⟨m, hm, hreach⟩
    exact ⟨m, List.mem_cons_of_mem _ hm, hreach⟩
  | @visit n rest more visited result _ hmore _ ih =>
    rcases ih ha with ha | ⟨m, hm, hreach⟩
    · rcases List.mem_append.mp ha with ha | ha
      · exact .inl ha
      · obtain rfl := List.mem_singleton.mp ha
        exact .inr ⟨a, List.mem_cons_self, .refl⟩
    · rcases List.mem_append.mp (hmore.mem_iff.mp hm) with hm | hm
      · exact .inr ⟨n, List.mem_cons_self, .head hm hreach⟩
      · exact .inr ⟨m, List.mem_cons_of_mem n hm, hreach⟩

/-- What has been visited stays so, and what is to visit is visited. -/
theorem subset (h : Walk next toVisit visited result) :
    (∀ a ∈ visited, a ∈ result) ∧ ∀ a ∈ toVisit, a ∈ result := by
  induction h with
  | done => exact ⟨fun _ ha => ha, fun _ ha => absurd ha List.not_mem_nil⟩
  | skip hn _ ih => exact ⟨ih.1, List.forall_mem_cons.mpr ⟨ih.1 _ hn, ih.2⟩⟩
  | @visit n rest more visited result _ hmore _ ih =>
    refine ⟨fun a ha => ih.1 a (List.mem_append_left _ ha), List.forall_mem_cons.mpr ⟨?_, ?_⟩⟩
    · exact ih.1 n (List.mem_append_right _ List.mem_cons_self)
    · exact fun a ha => ih.2 a (hmore.mem_iff.mpr (List.mem_append_right _ ha))

/-- If the names visited lead to names visited or to visit, then at the end they lead to
names visited. -/
theorem closed (h : Walk next toVisit visited result)
    (hv : ∀ x ∈ visited, ∀ y ∈ next x, y ∈ visited ∨ y ∈ toVisit) :
    ∀ x ∈ result, ∀ y ∈ next x, y ∈ result := by
  induction h with
  | done => exact fun x hx y hy => (hv x hx y hy).elim id (absurd · List.not_mem_nil)
  | skip hn _ ih =>
    refine ih fun x hx y hy => ?_
    rcases hv x hx y hy with hy | hy
    · exact .inl hy
    · rcases List.mem_cons.mp hy with rfl | hy
      · exact .inl hn
      · exact .inr hy
  | @visit n rest more visited result _ hmore _ ih =>
    refine ih fun x hx y hy => ?_
    rcases List.mem_append.mp hx with hx | hx
    · rcases hv x hx y hy with hy | hy
      · exact .inl (List.mem_append_left _ hy)
      · rcases List.mem_cons.mp hy with rfl | hy
        · exact .inl (List.mem_append_right _ List.mem_cons_self)
        · exact .inr (hmore.mem_iff.mpr (List.mem_append_right _ hy))
    · obtain rfl := List.mem_singleton.mp hx
      exact .inr (hmore.mem_iff.mpr (List.mem_append_left _ hy))

/-- **What a walk visits.** -/
theorem mem_iff (h : Walk next toVisit [] result) {a : String} :
    a ∈ result ↔ ∃ n ∈ toVisit, ReflTransGen (fun x y => y ∈ next x) n a := by
  constructor
  · exact fun ha => (h.sound ha).resolve_left List.not_mem_nil
  · rintro ⟨n, hn, hreach⟩
    induction hreach with
    | refl => exact h.subset.2 n hn
    | tail _ hstep ih => exact h.closed (fun x hx => absurd hx List.not_mem_nil) _ ih _ hstep

end Walk

/-! ### The walks of the hierarchy -/

/-- The names that a name leads to along the edges of a table. -/
def leadsTo (edges : Table String (List String)) (name : String) : List String :=
  (edges.find? name).getD []

theorem walk_closure (edges : Table String (List String)) (toVisit visited : List String) :
    Walk (leadsTo edges) toVisit visited (closure edges toVisit visited) := by
  fun_induction closure edges toVisit visited with
  | case1 visited => exact .done visited
  | case2 visited n rest hn ih => exact .skip hn ih
  | case3 visited n rest hn he ih =>
    have hnext : leadsTo edges n = [] := by rw [leadsTo, he]; rfl
    exact .visit hn (by rw [hnext]; exact .refl _) ih
  | case4 visited n rest hn next he _ ih =>
    have hnext : leadsTo edges n = next := by rw [leadsTo, he]; rfl
    exact .visit hn (by rw [hnext]) ih

/-- The declared parents of a declared name. -/
def parentsOf (decls : Table String Declared) (name : String) : List String :=
  match decls.find? name with
  | some d => (d.parents.map fold).filter decls.contains
  | none => []

theorem walk_climb (decls : Table String Declared) (start : String) (toVisit : List String)
    (found : Climb) :
    Walk (parentsOf decls) toVisit found.visited (climb decls start toVisit found).visited := by
  fun_induction climb decls start toVisit found with
  | case1 found => exact .done found.visited
  | case2 found n rest hn ih => exact .skip hn ih
  | case3 found n rest hn hd ih =>
    have hnext : parentsOf decls n = [] := by rw [parentsOf, hd]
    exact .visit hn (by rw [hnext]; exact .refl _) ih
  | case4 found n rest hn d hd _ missing ih =>
    have hnext : parentsOf decls n = (d.parents.map fold).filter decls.contains := by
      rw [parentsOf, hd]
    exact .visit hn (by rw [hnext]; exact List.perm_append_comm) ih

/-- The names that a name leads to, along any number of edges. -/
theorem mem_closure {edges : Table String (List String)} {n a : String} :
    a ∈ closure edges [n] [] ↔ ReflTransGen (fun x y => y ∈ leadsTo edges x) n a := by
  rw [(walk_closure edges [n] []).mem_iff]
  simp

/-- A class, its declared parents, their parents, and so on. -/
theorem mem_climb {decls : Table String Declared} {start n a : String} :
    a ∈ (climb decls start [n] {}).visited ↔
      ReflTransGen (fun x y => y ∈ parentsOf decls x) n a := by
  rw [(walk_climb decls start [n] {}).mem_iff]
  simp

end SsaTypes.Hierarchy
