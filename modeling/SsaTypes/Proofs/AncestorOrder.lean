/-
SsaTypes/Proofs/AncestorOrder.lean

The order in which the hierarchy lists ancestors.  The walks keep a list of names to
visit and skip what was visited before; the order they come to is that of the recursion

    n,  the ancestors of its interfaces in turn,  the ancestors of its parent

with each name in the place of its first mention (`resolves_order`).

The two agree because of what is complete when a walk comes to a name for the second
time: nothing leads back to itself, so all that the name leads to has been visited by
then (`Complete`), and the walk loses nothing by skipping it.  Walking along `n :: rest`
from what was visited then adds the ancestors of `n` before those of `rest`
(`closure_eq_addAll`).  Parents are taken from the other end of the list, which makes no
difference as long as no class has two of them (`visited_climb`).
-/
import Mathlib.Data.Finset.Card
import Mathlib.Data.Finset.Dedup
import Mathlib.Order.WellFounded
import SsaTypes.Proofs.Ancestors

namespace SsaTypes.Hierarchy

open Relation Text

/-! ### The place of the first mention -/

/-- The names seen, with those of a list that are new at its end. -/
def addAll (seen names : List String) : List String :=
  names.foldl (fun seen a => if a ∈ seen then seen else seen ++ [a]) seen

theorem addAll_cons (seen : List String) (a : String) (names : List String) :
    addAll seen (a :: names) = addAll (if a ∈ seen then seen else seen ++ [a]) names :=
  rfl

theorem addAll_nil (seen : List String) : addAll seen [] = seen :=
  rfl

theorem addAll_append (seen xs ys : List String) :
    addAll seen (xs ++ ys) = addAll (addAll seen xs) ys :=
  List.foldl_append

theorem mem_addAll {seen names : List String} {a : String} :
    a ∈ addAll seen names ↔ a ∈ seen ∨ a ∈ names := by
  induction names generalizing seen with
  | nil => simp [addAll]
  | cons b names ih =>
    rw [addAll_cons, ih]
    by_cases hb : b ∈ seen
    · rw [if_pos hb, List.mem_cons]
      constructor
      · exact fun h => h.imp_right .inr
      · rintro (h | rfl | h)
        · exact .inl h
        · exact .inl hb
        · exact .inr h
    · rw [if_neg hb, List.mem_append, List.mem_singleton, List.mem_cons, or_assoc]

theorem addAll_of_subset {seen names : List String} (h : ∀ a ∈ names, a ∈ seen) :
    addAll seen names = seen := by
  induction names with
  | nil => rfl
  | cons a names ih =>
    obtain ⟨ha, hnames⟩ := List.forall_mem_cons.mp h
    rw [addAll_cons, if_pos ha, ih hnames]

/-- Repetitions may be dropped before the names are added. -/
theorem addAll_addAll (seen names : List String) :
    addAll seen (addAll [] names) = addAll seen names := by
  induction names using List.reverseRecOn with
  | nil => rfl
  | append_singleton names a ih =>
    rw [addAll_append, addAll_append, addAll_cons, addAll_nil]
    by_cases ha : a ∈ addAll [] names
    · have hseen : a ∈ addAll seen names := mem_addAll.mpr (.inr (by simpa [mem_addAll] using ha))
      rw [if_pos ha, addAll_cons, if_pos hseen, addAll_nil, ih]
    · rw [if_neg ha, addAll_append, ih]

theorem eraseDups_eq_addAll (names : List String) : names.eraseDups = addAll [] names := by
  induction names using List.reverseRecOn with
  | nil => rfl
  | append_singleton names a ih =>
    rw [Table.eraseDups_append_singleton, addAll_append, ih, addAll_cons, addAll_nil]
    simp only [mem_addAll, List.not_mem_nil, false_or]

/-- Lists that repeat others add nothing. -/
theorem addAll_flatMap (seen names : List String) (f : String → List String) :
    addAll seen ((addAll [] names).flatMap f) = addAll seen (names.flatMap f) := by
  induction names using List.reverseRecOn with
  | nil => rfl
  | append_singleton names a ih =>
    rw [addAll_append, addAll_cons, addAll_nil, List.flatMap_append, addAll_append,
      List.flatMap_singleton]
    by_cases ha : a ∈ addAll [] names
    · have hnames : a ∈ names := by simpa [mem_addAll] using ha
      rw [if_pos ha, ih, addAll_of_subset fun b hb =>
        mem_addAll.mpr (.inr (List.mem_flatMap.mpr ⟨a, hnames, hb⟩))]
    · rw [if_neg ha, List.flatMap_append, addAll_append, ih, List.flatMap_singleton]

theorem keys_foldl_insertNew {α : Type} (f : String → α) (names : List String)
    (t : Table String α) :
    (names.foldl (fun t a => t.insertNew a (f a)) t).keys = addAll t.keys names := by
  induction names generalizing t with
  | nil => rfl
  | cons a names ih => rw [List.foldl_cons, ih, addAll_cons, Table.insertNew, Table.keys_alter]

/-! ### Walking along edges without a cycle -/

section Closure

variable {edges : Table String (List String)} {n : String} {rest visited : List String}

theorem closure_of_mem (hn : n ∈ visited) :
    closure edges (n :: rest) visited = closure edges rest visited := by
  rw [closure, dif_pos hn]

theorem closure_of_not_mem (hn : n ∉ visited) :
    closure edges (n :: rest) visited =
      closure edges (leadsTo edges n ++ rest) (visited ++ [n]) := by
  rw [closure, dif_neg hn]
  split
  · next he => rw [show leadsTo edges n = [] by rw [leadsTo, he]; rfl, List.nil_append]
  · next next he => rw [show leadsTo edges n = next by rw [leadsTo, he]; rfl]

/-- A walk comes to the end of what the first names lead to before it takes the others. -/
theorem closure_append (xs ys visited : List String) :
    closure edges (xs ++ ys) visited = closure edges ys (closure edges xs visited) := by
  fun_induction closure edges xs visited with
  | case1 visited => rfl
  | case2 visited n rest hn ih => rw [List.cons_append, closure_of_mem hn, ih]
  | case3 visited n rest hn he ih =>
    rw [List.cons_append, closure_of_not_mem hn, leadsTo, he]
    exact ih
  | case4 visited n rest hn next he _ ih =>
    rw [List.cons_append, closure_of_not_mem hn, leadsTo, he, Option.getD_some,
      ← List.append_assoc]
    exact ih

variable (edges) in
/-- No name leads back to itself. -/
def EdgesAcyclic : Prop :=
  ∀ a, ¬ TransGen (fun x y => y ∈ leadsTo edges x) a a

/-- What a name leads to leads to fewer names, where there is no cycle. -/
theorem EdgesAcyclic.wellFounded (h : EdgesAcyclic edges) :
    WellFounded fun y x => y ∈ leadsTo edges x := by
  refine Subrelation.wf ?_ (measure fun n => (closure edges [n] []).toFinset.card).wf
  intro y x hxy
  refine Finset.card_lt_card (Finset.ssubset_iff_subset_ne.mpr ⟨?_, ?_⟩)
  · intro a ha
    rw [List.mem_toFinset, mem_closure] at ha ⊢
    exact .head hxy ha
  · intro heq
    have hx : x ∈ (closure edges [y] []).toFinset := by
      rw [heq, List.mem_toFinset, mem_closure]
    rw [List.mem_toFinset, mem_closure] at hx
    exact h x (TransGen.head' hxy hx)

variable (edges) in
/-- Of what a name leads to, all that was visited was visited with what it leads to. -/
def Complete (visited : List String) (n : String) : Prop :=
  ∀ y ∈ visited, ReflTransGen (fun x y => y ∈ leadsTo edges x) n y →
    ∀ z, ReflTransGen (fun x y => y ∈ leadsTo edges x) y z → z ∈ visited

theorem Complete.addAll {m : String} (h : Complete edges visited m) (n : String) :
    Complete edges (addAll visited (closure edges [n] [])) m := by
  intro y hy hmy z hyz
  rw [mem_addAll, mem_closure] at hy ⊢
  rcases hy with hy | hy
  · exact .inl (h y hy hmy z hyz)
  · exact .inr (hy.trans hyz)

/-- If each name adds its own walk to what was visited, so do several of them in turn. -/
theorem closure_of_forall {names : List String}
    (h : ∀ n ∈ names, ∀ visited, Complete edges visited n →
      closure edges [n] visited = addAll visited (closure edges [n] []))
    {visited : List String} (hv : ∀ n ∈ names, Complete edges visited n) :
    closure edges names visited =
      addAll visited (names.flatMap fun n => closure edges [n] []) := by
  induction names generalizing visited with
  | nil => rw [closure]; rfl
  | cons n names ih =>
    obtain ⟨hn, hnames⟩ := List.forall_mem_cons.mp h
    obtain ⟨hvn, hvnames⟩ := List.forall_mem_cons.mp hv
    have hnext : closure edges names (addAll visited (closure edges [n] [])) = _ :=
      ih hnames fun m hm => (hvnames m hm).addAll n
    rw [← List.singleton_append, closure_append, hn visited hvn, hnext, List.flatMap_append,
      List.flatMap_singleton, addAll_append]

/-- **A walk without a cycle.**  From names already visited it adds what it would visit
from none, and that is the name itself followed by the walks from what it leads to. -/
theorem closure_eq_addAll (hacyclic : EdgesAcyclic edges) (n : String) :
    closure edges [n] [] =
        addAll [n] ((leadsTo edges n).flatMap fun m => closure edges [m] []) ∧
      ∀ visited, Complete edges visited n →
        closure edges [n] visited = addAll visited (closure edges [n] []) := by
  induction n using hacyclic.wellFounded.induction with
  | h n ih =>
    -- what was visited before and the name itself are complete for what the name leads to
    have hnext {visited : List String} (hn : n ∉ visited) (hv : Complete edges visited n) :
        closure edges [n] visited = addAll (visited ++ [n])
          ((leadsTo edges n).flatMap fun m => closure edges [m] []) := by
      rw [closure_of_not_mem hn, List.append_nil]
      refine closure_of_forall (fun m hm => (ih m hm).2) fun m hm y hy hmy z hyz => ?_
      rcases List.mem_append.mp hy with hy | hy
      · exact List.mem_append_left _ (hv y hy (.head hm hmy) z hyz)
      · obtain rfl := List.mem_singleton.mp hy
        exact absurd (TransGen.head' hm hmy) (hacyclic y)
    have hself := hnext List.not_mem_nil fun y hy => absurd hy List.not_mem_nil
    rw [List.nil_append] at hself
    refine ⟨hself, fun visited hv => ?_⟩
    by_cases hn : n ∈ visited
    · have hseen : ∀ a ∈ closure edges [n] [], a ∈ visited :=
        fun a ha => hv n hn .refl a (mem_closure.mp ha)
      rw [closure_of_mem hn, closure, addAll_of_subset hseen]
    · have hone (names : List String) : addAll [n] names = addAll [] (n :: names) := rfl
      rw [hnext hn hv, hself, hone, addAll_addAll, addAll_cons, if_neg hn]

theorem closure_singleton (hacyclic : EdgesAcyclic edges) (n : String) :
    closure edges [n] [] =
      (n :: (leadsTo edges n).flatMap fun m => closure edges [m] []).eraseDups := by
  rw [eraseDups_eq_addAll]
  exact (closure_eq_addAll hacyclic n).1

end Closure

/-! ### The ancestors in their order -/

/-- The declared parents of every declared name. -/
def parentEdges (decls : Table String Declared) : Table String (List String) :=
  decls.mapValues fun _ d => (d.parents.map fold).filter decls.contains

theorem leadsTo_parentEdges (decls : Table String Declared) (n : String) :
    leadsTo (parentEdges decls) n = parentsOf decls n := by
  rw [leadsTo, parentEdges, Table.find?_mapValues, parentsOf]
  cases decls.find? n <;> rfl

/-- Where no class has two parents, at most one name waits for a visit, at whichever end
it was added. -/
theorem visited_climb {decls : Table String Declared}
    (hsingle : ∀ n d, decls.find? n = some d → d.parents.length ≤ 1) (start : String)
    {toVisit : List String} (hlength : toVisit.length ≤ 1) (found : Climb) :
    (climb decls start toVisit found).visited =
      closure (parentEdges decls) toVisit found.visited := by
  fun_induction climb decls start toVisit found with
  | case1 found => rw [closure]
  | case2 found n rest hn ih => rw [closure_of_mem hn, ih (by simp at hlength; simp [hlength])]
  | case3 found n rest hn hd ih =>
    rw [closure_of_not_mem hn, leadsTo_parentEdges, parentsOf, hd,
      ih (by simp at hlength; simp [hlength])]
    rfl
  | case4 found n rest hn d hd _ missing ih =>
    obtain rfl : rest = [] := by simpa using hlength
    have hparents : ((d.parents.map fold).filter decls.contains).length ≤ 1 :=
      (List.length_filter_le _ _).trans (by rw [List.length_map]; exact hsingle n d hd)
    rw [closure_of_not_mem hn, leadsTo_parentEdges, parentsOf, hd, List.append_nil]
    exact ih hparents

/-- No class or interface inherits from itself, over however many steps. -/
def Acyclic (classes : List ClassDecl) : Prop :=
  ∀ a, ¬ TransGen (Inherits classes) a a

/-- No class has two parents. -/
def SingleParents (classes : List ClassDecl) : Prop :=
  ∀ a d id, standing classes a = some (d, id) → d.kind = .ordinary → d.parents.length ≤ 1

/-- The ancestors that are listed for a name, in their order. -/
def listed (classes : List ClassDecl) (name : String) : Option (List String) :=
  ((build classes).resolves name).map Table.keys

section Order

variable {classes : List ClassDecl}

theorem mem_of_standing {a : String} {d : ClassDecl} {id : ClassId}
    (h : standing classes a = some (d, id)) : d ∈ classes ∧ fold d.name = fold a := by
  have hname := List.find?_some h
  rw [Bool.and_eq_true, sameName_iff] at hname
  exact ⟨(List.mem_zipIdx' (List.mem_of_find?_eq_some h)).2 ▸ List.getElem_mem _, hname.2⟩

/-- There is no cycle if every declaration ranks above all that it names. -/
theorem acyclic_of_rank (rank : String → Nat)
    (h : ∀ d ∈ classes, ∀ p ∈ d.parents ++ d.interfaces, rank (fold p) < rank (fold d.name)) :
    Acyclic classes := by
  have hrank {a p : String} {d : ClassDecl} {id : ClassId} (hd : standing classes a = some (d, id))
      (hp : p ∈ d.parents ++ d.interfaces) : rank (fold p) < rank (fold a) := by
    obtain ⟨hmem, hname⟩ := mem_of_standing hd
    exact hname ▸ h d hmem p hp
  have hstep {a b : String} (hab : Inherits classes a b) : fold b = b ∧ rank b < rank (fold a) := by
    cases hab with
    | parent hd _ hp _ => exact ⟨fold_fold _, hrank hd (List.mem_append_left _ hp)⟩
    | implemented hd _ hi => exact ⟨fold_fold _, hrank hd (List.mem_append_right _ hi)⟩
    | extended hd _ hi => exact ⟨fold_fold _, hrank hd (List.mem_append_left _ hi)⟩
  have hsteps {a b : String} (hab : TransGen (Inherits classes) a b) :
      fold b = b ∧ rank b < rank (fold a) := by
    induction hab with
    | single hab => exact hstep hab
    | tail _ hbc ih =>
      obtain ⟨hb, hlt⟩ := ih
      obtain ⟨hc, hlt'⟩ := hstep hbc
      exact ⟨hc, (hb ▸ hlt').trans hlt⟩
  intro a ha
  obtain ⟨hfold, hlt⟩ := hsteps ha
  rw [hfold] at hlt
  exact Nat.lt_irrefl _ hlt

theorem Acyclic.interfaceEdges (h : Acyclic classes) :
    EdgesAcyclic (interfaceEdges (declared classes)) := by
  intro a ha
  refine h a (TransGen.mono (fun x y hxy => ?_) _ _ ha)
  obtain ⟨d, hd, -, hy⟩ := mem_leadsTo.mp hxy
  exact inherits_interfaces hd hy

theorem Acyclic.parentEdges (h : Acyclic classes) :
    EdgesAcyclic (parentEdges (declared classes)) := by
  intro a ha
  refine h a (TransGen.mono (fun x y hxy => ?_) _ _ ha)
  rw [leadsTo_parentEdges] at hxy
  exact inherits_parentsOf hxy

theorem SingleParents.declared (h : SingleParents classes) (n : String) (d : Declared)
    (hd : (declared classes).find? n = some d) : d.parents.length ≤ 1 := by
  obtain ⟨-, hstanding⟩ := find?_declared_iff.mp hd
  rw [Declared.parents]
  rcases kind_of_standing hstanding with hk | hk
  · rw [if_neg (by simp [hk])]
    exact h n d.decl d.id hstanding hk
  · rw [if_pos hk]
    exact Nat.zero_le 1

/-- The names that the ancestors are gathered from, each in the place of its first
mention. -/
theorem listed_eq (name : String) :
    listed classes name =
      (standing classes name).map fun _ => addAll [] (lineage classes (fold name)) := by
  have hkeys (visited : List String) : (gather (declared classes) visited).keys =
      addAll [] (visited.flatMap (own (declared classes))) :=
    keys_foldl_insertNew _ _ .empty
  rw [listed, resolves, find?_ancestors, find?_declared, Option.map_map, Option.map_map]
  cases standing classes name with
  | none => rfl
  | some e => exact congrArg some (hkeys _)

variable (hacyclic : Acyclic classes) (hsingle : SingleParents classes)
include hacyclic hsingle

/-- After what a name has without its parents comes what its parents have. -/
theorem addAll_lineage (n : String) :
    addAll [] (lineage classes n) = addAll [] (own (declared classes) n ++
      (parentsOf (declared classes) n).flatMap (lineage classes)) := by
  have hlineage : lineage classes = fun m =>
      (closure (Hierarchy.parentEdges (declared classes)) [m] []).flatMap
        (own (declared classes)) := by
    funext m
    rw [lineage, visited_climb hsingle.declared m List.length_singleton.le {}]
  rw [hlineage]
  show addAll [] ((closure _ [n] []).flatMap (own (declared classes))) = _
  rw [closure_singleton hacyclic.parentEdges, eraseDups_eq_addAll, addAll_flatMap,
    leadsTo_parentEdges, List.flatMap_cons, List.flatMap_assoc]

/-- What is named as an interface has the ancestors that the walk along interfaces finds;
if it is not declared, there is only its name. -/
theorem listed_interface {i : String}
    (hi : ∀ e j, standing classes i = some (e, j) → e.kind = .interface) :
    (listed classes i).getD [fold i] =
      closure (Hierarchy.interfaceEdges (declared classes)) [fold i] [] := by
  rw [closure_singleton hacyclic.interfaceEdges, eraseDups_eq_addAll, listed_eq]
  have hfind := find?_declared classes i
  rcases e : standing classes i with - | ⟨d, id⟩
  · rw [e] at hfind
    rw [leadsTo, find?_interfaceEdges, hfind]
    rfl
  · rw [e] at hfind
    have hk := hi d id e
    have hparents : parentsOf (declared classes) (fold i) = [] := by
      rw [parentsOf, hfind]
      simp [Declared.parents, hk]
    have hleads : leadsTo (Hierarchy.interfaceEdges (declared classes)) (fold i) =
        d.parents.map fold := by
      rw [leadsTo, find?_interfaceEdges, hfind]
      simp [hk]
    show addAll [] (lineage classes (fold i)) = _
    rw [addAll_lineage hacyclic hsingle, hparents, List.flatMap_nil, List.append_nil, own, hfind,
      hleads]
    simp [Declared.interfaces, hk]

omit hacyclic hsingle in
theorem addAll_parents (seen parents : List String) :
    addAll seen (((parents.map fold).filter (declared classes).contains).flatMap
        (lineage classes)) =
      addAll seen (parents.flatMap fun p => (listed classes p).getD []) := by
  induction parents generalizing seen with
  | nil => rfl
  | cons p parents ih =>
    rw [List.map_cons, List.filter_cons, contains_declared, List.flatMap_cons, listed_eq]
    rcases standing classes p with - | e
    · exact ih seen
    · rw [Option.isSome_some, if_pos rfl, List.flatMap_cons, addAll_append, addAll_append, ih]
      exact congrArg (addAll · _) (addAll_addAll seen _).symm

end Order

/-- **The ancestors stand in the order of the recursion.**  Where nothing inherits from
itself, no class has two parents and only interfaces are named as interfaces, a declared
name is followed by the ancestors of its interfaces, in the order in which they are
declared, and these by the ancestors of its parent; a name stands where it is mentioned
first.  An interface that is not declared has only its name, a parent that is not
declared has nothing. -/
theorem resolves_order {classes : List ClassDecl} (honly : InterfacesOnly classes)
    (hacyclic : Acyclic classes) (hsingle : SingleParents classes) (name : String) :
    listed classes name = (standing classes name).map fun e =>
      (fold name ::
        (if e.1.kind = .interface then e.1.parents else e.1.interfaces).flatMap
          (fun i => (listed classes i).getD [fold i]) ++
        (if e.1.kind = .interface then [] else e.1.parents).flatMap
          fun p => (listed classes p).getD []).eraseDups := by
  rw [listed_eq]
  rcases hstanding : standing classes name with - | ⟨d, id⟩
  · rfl
  have hfind : (declared classes).find? (fold name) = some ⟨id, d⟩ := by
    rw [find?_declared, hstanding]
    rfl
  have hown : own (declared classes) (fold name) = fold name ::
      (if d.kind = .interface then d.parents else d.interfaces).flatMap
        fun i => (listed classes i).getD [fold i] := by
    rw [own, hfind]
    show fold name :: (List.map fold _).flatMap _ = _
    rw [List.flatMap_map]
    exact congrArg _ (List.flatMap_congr fun i hi =>
      (listed_interface hacyclic hsingle (honly name d id hstanding i hi)).symm)
  have hparents : parentsOf (declared classes) (fold name) =
      ((if d.kind = .interface then [] else d.parents).map fold).filter
        (declared classes).contains := by
    rw [parentsOf, hfind]
    rfl
  rw [Option.map_some, Option.map_some, addAll_lineage hacyclic hsingle, hown, hparents,
    eraseDups_eq_addAll, addAll_append, addAll_append, addAll_parents]

/-- A class that shares an interface with its parent, and two interfaces that extend a
third.  One interface is not declared, and there are a second `Child` and a trait. -/
def sharedShapes : List ClassDecl := [
  { name := "Child", parents := ["Base"], interfaces := ["Countable", "Left"] },
  { name := "Base", kind := .trait, parents := ["Left"] },
  { name := "Left", kind := .interface, parents := ["Root"] },
  { name := "base", interfaces := ["Right", "LEFT"] },
  { name := "Right", kind := .interface, parents := ["Root", "Countable"] },
  { name := "Root", kind := .interface },
  { name := "child", parents := ["Left"] }]

/-- A rank for the names in `sharedShapes`. -/
def shapeRank (name : String) : Nat :=
  ["countable", "root", "right", "left", "base", "child"].idxOf name

/-- In `sharedShapes` the ancestors of the class are those of its two interfaces, without
a repetition, and then those of its parent. -/
theorem resolves_order_sharedShapes :
    listed sharedShapes "base" = some ["base", "right", "root", "countable", "left"] ∧
    listed sharedShapes "CHILD" =
      some ["child", "countable", "left", "root", "base", "right"] := by
  have honly : InterfacesOnly sharedShapes := by
    intro a d id hd i hi e j he
    have hall : ∀ d ∈ sharedShapes, d.kind ≠ .trait →
        ∀ i ∈ (if d.kind = .interface then d.parents else d.interfaces),
          (standing sharedShapes i).all (fun e => e.1.kind = .interface) = true := by decide
    have hkind : d.kind ≠ .trait := by
      rcases kind_of_standing hd with hk | hk <;> simp [hk]
    have hi' := hall d (mem_of_standing hd).1 hkind i hi
    rw [he] at hi'
    exact of_decide_eq_true hi'
  have hacyclic : Acyclic sharedShapes := acyclic_of_rank shapeRank (by decide)
  have hsingle : SingleParents sharedShapes := by
    intro a d id hd _
    have hall : ∀ d ∈ sharedShapes, d.kind = .ordinary → d.parents.length ≤ 1 := by decide
    exact hall d (mem_of_standing hd).1 ‹_›
  have horder := resolves_order honly hacyclic hsingle
  have hcountable : listed sharedShapes "Countable" = none := horder "Countable"
  have hroot : listed sharedShapes "Root" = some ["root"] := horder "Root"
  have hleft : listed sharedShapes "Left" = some ["left", "root"] := by
    refine (horder "Left").trans ?_
    show some ("left" :: ["Root"].flatMap (fun i => (listed sharedShapes i).getD [fold i]) ++
      []).eraseDups = _
    rw [List.flatMap_singleton, hroot]
    rfl
  have hright : listed sharedShapes "Right" = some ["right", "root", "countable"] := by
    refine (horder "Right").trans ?_
    show some ("right" :: ["Root", "Countable"].flatMap
      (fun i => (listed sharedShapes i).getD [fold i]) ++ []).eraseDups = _
    rw [List.flatMap_cons, List.flatMap_singleton, hroot, hcountable]
    rfl
  have hbase : listed sharedShapes "Base" =
      some ["base", "right", "root", "countable", "left"] := by
    refine (horder "Base").trans ?_
    show some ("base" :: ["Right", "LEFT"].flatMap
      (fun i => (listed sharedShapes i).getD [fold i]) ++ []).eraseDups = _
    rw [List.flatMap_cons, List.flatMap_singleton, hright,
      show listed sharedShapes "LEFT" = listed sharedShapes "Left" from rfl, hleft]
    rfl
  refine ⟨hbase, (horder "CHILD").trans ?_⟩
  show some ("child" :: ["Countable", "Left"].flatMap
    (fun i => (listed sharedShapes i).getD [fold i]) ++
    ["Base"].flatMap fun p => (listed sharedShapes p).getD []).eraseDups = _
  rw [List.flatMap_cons, List.flatMap_singleton, List.flatMap_singleton, hcountable, hleft, hbase]
  rfl

end SsaTypes.Hierarchy
