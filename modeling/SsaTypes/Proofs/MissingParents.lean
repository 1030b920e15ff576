/-
SsaTypes/Proofs/MissingParents.lean

The parents that were not found.  A climb notes what is missing only for the class from
which it begins, and only at its first step; whatever it meets later on has been noted, or
will be, by a climb of its own.  So the issues of the hierarchy are those of the standing
declarations in their order,

    issues  =  standings.flatMap missing                            (`issues_spec`)

and those about one name are the ones of the declaration that stands for it: no other
class adds to them, whatever it inherits.  A parent that is declared is no issue, and its
ancestors are ancestors of the class.
-/
import Mathlib.Data.List.Basic
import Mathlib.Data.List.Induction
import SsaTypes.Proofs.Ancestors

namespace SsaTypes.Hierarchy

open Relation Text

/-- The declarations that stand for their names, in the order in which they are written. -/
def standings (classes : List ClassDecl) : List (ClassDecl × ClassId) :=
  classes.zipIdx.filter fun e => (standing classes e.1.name).map Prod.snd = some e.2

/-- The parents that a class extends and no declaration stands for, both names as written. -/
def missing (classes : List ClassDecl) (d : ClassDecl) : List MissingParent :=
  if d.kind = .ordinary then
    (d.parents.filter fun p => (standing classes p).isNone).map fun p => ⟨d.name, p⟩
  else []

/-! ### The table of declarations in its order -/

theorem standing_append (classes : List ClassDecl) (d : ClassDecl) (name : String) :
    standing (classes ++ [d]) name = (standing classes name).or
      (if d.kind ≠ .trait ∧ fold d.name = fold name then some (d, classes.length) else none) := by
  rw [standing, List.zipIdx_append, List.find?_append, List.zipIdx_singleton]
  simp [standing, List.find?_singleton, sameName]

/-- One more declaration stands for its name if it is no trait and none stood for it. -/
theorem standings_append (classes : List ClassDecl) (d : ClassDecl) :
    standings (classes ++ [d]) = standings classes ++
      if d.kind ≠ .trait ∧ (standing classes d.name).isNone then [(d, classes.length)] else [] := by
  rw [standings, List.zipIdx_append, List.filter_append, List.zipIdx_singleton, Nat.zero_add]
  congr 1
  · -- a declaration before it stands for its name as it did
    refine List.filter_congr fun e he => decide_eq_decide.mpr ?_
    have hlt : e.2 < classes.length := (List.mem_zipIdx' he).1
    rw [standing_append]
    rcases standing classes e.1.name with - | e'
    · rw [Option.none_or]
      split
      · simp [Nat.ne_of_gt hlt]
      · rfl
    · rfl
  · rw [List.filter_cons, List.filter_nil, standing_append]
    rcases hs : standing classes d.name with - | ⟨d', id⟩
    · by_cases hk : d.kind = .trait <;> simp [hk]
    · simp [Nat.ne_of_lt (lt_length_of_standing hs)]

theorem declared_append (classes : List ClassDecl) (d : ClassDecl) :
    declared (classes ++ [d]) = if d.kind = .trait then declared classes
      else (declared classes).insertNew (fold d.name) ⟨classes.length, d⟩ := by
  rw [declared, List.zipIdx_append, List.foldl_append, List.zipIdx_singleton, Nat.zero_add]
  rfl

/-- The table lists the standing declarations in their order. -/
theorem entries_declared (classes : List ClassDecl) :
    (declared classes).entries =
      (standings classes).map fun e => (fold e.1.name, ⟨e.2, e.1⟩) := by
  induction classes using List.reverseRecOn with
  | nil => rfl
  | append_singleton classes d ih =>
    rw [declared_append, standings_append, List.map_append, ← ih]
    by_cases hk : d.kind = .trait
    · simp [hk]
    · have hfind := find?_declared classes d.name
      rw [if_neg hk]
      rcases hs : standing classes d.name with - | e
      · -- a new name enters at the end
        rw [hs] at hfind
        rw [Table.insertNew, Table.entries_alter_of_find? _ hfind, if_pos ⟨hk, rfl⟩]
        rfl
      · -- a name that is in the table keeps its declaration
        rw [hs] at hfind
        rw [Table.insertNew_of_find? hfind, if_neg (by simp), List.map_nil, List.append_nil]

/-! ### What a climb notes -/

section Climb

variable {decls : Table String Declared} {start : String} {found : Climb}

/-- Once the class from which it began has been visited, a climb notes nothing more. -/
theorem missing_climb_of_visited (h : start ∈ found.visited) (toVisit : List String) :
    (climb decls start toVisit found).missing = found.missing := by
  fun_induction climb decls start toVisit found with
  | case1 found => rfl
  | case2 found n rest hn ih => exact ih h
  | case3 found n rest hn hd ih => exact ih (List.mem_append_left _ h)
  | case4 found n rest hn d hd _ missing ih =>
    have hne : n ≠ start := fun he => hn (he ▸ h)
    refine (ih (List.mem_append_left _ h)).trans ?_
    rw [dif_neg hne, List.append_nil]

theorem missing_climb {d : Declared} (hd : decls.find? start = some d) :
    (climb decls start [start] {}).missing =
      (d.parents.filter fun p => !decls.contains (fold p)).map fun p => ⟨d.decl.name, p⟩ := by
  -- after the first step the class from which the climb begins is visited
  have hvisited : start ∈ [] ++ [start] := List.mem_cons_self
  rw [climb_of_some List.not_mem_nil hd, missing_climb_of_visited hvisited, if_pos rfl]
  rfl

end Climb

/-! ### Issues and edges -/

section Issues

variable (classes : List ClassDecl)

/-- A climb from a standing declaration notes what this declaration misses. -/
theorem missing_climb_declared {k : String} {d : Declared}
    (hd : (declared classes).find? k = some d) :
    (climb (declared classes) k [k] {}).missing = missing classes d.decl := by
  obtain ⟨-, hstanding⟩ := find?_declared_iff.mp hd
  rw [missing_climb hd, missing, Declared.parents]
  simp only [contains_declared, Option.not_isSome]
  rcases kind_of_standing hstanding with hk | hk
  · simp [hk]
  · simp [hk]

theorem issues_eq :
    (build classes).issues =
      (declared classes).entries.flatMap fun e => missing classes e.2.decl := by
  show (Table.values (Table.mapValues _ _)).flatMap Climb.missing = _
  rw [Table.values, Table.mapValues, List.map_map, List.flatMap_map]
  refine List.flatMap_congr fun e he => ?_
  exact missing_climb_declared classes
    ((Table.find?_eq_some_iff (nodup_keys_declared classes)).mpr he)

variable {classes}

theorem isSubclassOf_iff {name a : String} :
    (build classes).isSubclassOf name a = true ↔ fold a ∈ lineage classes (fold name) := by
  rw [isSubclassOf, resolves, find?_ancestors]
  rcases hd : (declared classes).find? (fold name) with - | d
  · -- nothing is known of a name that is not declared
    simp only [Option.map_none, Bool.false_eq_true, false_iff]
    intro h
    obtain ⟨v, hv, ha⟩ := List.mem_flatMap.mp h
    obtain ⟨e, he, -⟩ := mem_own.mp ha
    rcases (ReflTransGen.cases_head (mem_climb.mp hv)) with rfl | ⟨w, hw, -⟩
    · rw [hd] at he
      cases he
    · rw [parentsOf, hd] at hw
      cases hw
  · rw [Option.map_some, Table.contains_iff, mem_keys_gather]

/-- What a parent inherits, its class inherits. -/
theorem isSubclassOf_of_parent {name p a : String} {d : ClassDecl} {id : ClassId}
    (hd : standing classes name = some (d, id)) (hk : d.kind = .ordinary) (hp : p ∈ d.parents)
    (hs : (standing classes p).isSome = true) (ha : (build classes).isSubclassOf p a = true) :
    (build classes).isSubclassOf name a = true := by
  rw [isSubclassOf_iff] at ha ⊢
  obtain ⟨v, hv, ha⟩ := List.mem_flatMap.mp ha
  -- the way from the parent, with the edge to it in front
  have hstep : fold p ∈ parentsOf (declared classes) (fold name) := by
    refine mem_parentsOf.mpr ⟨⟨id, d⟩, by rw [find?_declared, hd]; rfl, ?_, by rwa [standing_fold]⟩
    rw [Declared.parents, if_neg (by simp [hk])]
    exact List.mem_map_of_mem hp
  exact List.mem_flatMap.mpr ⟨v, mem_climb.mpr (.head hstep (mem_climb.mp hv)), ha⟩

/-- An interface inherits from what it extends. -/
theorem isSubclassOf_of_extended {name p : String} {d : ClassDecl} {id : ClassId}
    (hd : standing classes name = some (d, id)) (hk : d.kind = .interface) (hp : p ∈ d.parents) :
    (build classes).isSubclassOf name p = true := by
  have hfind : (declared classes).find? (fold name) = some ⟨id, d⟩ := by
    rw [find?_declared, hd]
    rfl
  have hinterface : fold p ∈ Declared.interfaces ⟨id, d⟩ := by
    rw [Declared.interfaces, if_pos hk]
    exact List.mem_map_of_mem hp
  rw [isSubclassOf_iff]
  exact List.mem_flatMap.mpr
    ⟨_, mem_climb.mpr .refl, mem_own.mpr ⟨_, hfind, .inr ⟨_, hinterface, .refl⟩⟩⟩

theorem isSubclassOf_self {name : String} (hs : (standing classes name).isSome = true) :
    (build classes).isSubclassOf name name = true := by
  obtain ⟨e, he⟩ := Option.isSome_iff_exists.mp hs
  have hd : (declared classes).find? (fold name) = some ⟨e.2, e.1⟩ := by
    rw [find?_declared, he]
    rfl
  rw [isSubclassOf_iff]
  exact List.mem_flatMap.mpr ⟨_, mem_climb.mpr .refl, mem_own.mpr ⟨_, hd, .inl rfl⟩⟩

/-- The issues of a declaration are about its own name. -/
theorem filter_missing (d : ClassDecl) (name : String) :
    (missing classes d).filter (fun m => sameName m.child name) =
      if fold d.name = fold name then missing classes d else [] := by
  have hchild : ∀ m ∈ missing classes d, m.child = d.name := by
    intro m hm
    rw [missing] at hm
    split at hm
    · obtain ⟨p, -, rfl⟩ := List.mem_map.mp hm
      rfl
    · cases hm
  split
  · next h => exact List.filter_eq_self.mpr fun m hm => sameName_iff.mpr (hchild m hm ▸ h)
  · next h =>
    exact List.filter_eq_nil_iff.mpr fun m hm hname => h (hchild m hm ▸ sameName_iff.mp hname)

theorem flatMap_filter {α β : Type} (p : α → Bool) (f : α → List β) (l : List α) :
    (l.filter p).flatMap f = l.flatMap fun a => if p a then f a else [] := by
  induction l with
  | nil => rfl
  | cons a l ih =>
    by_cases ha : p a = true
    · rw [List.filter_cons_of_pos ha, List.flatMap_cons, List.flatMap_cons, if_pos ha, ih]
    · rw [List.filter_cons_of_neg ha, List.flatMap_cons, if_neg ha, ih, List.nil_append]

theorem filter_issues (name : String) :
    (build classes).issues.filter (fun m => sameName m.child name) =
      (standing classes name).elim [] fun e => missing classes e.1 := by
  have hentry : ∀ e ∈ (declared classes).entries, fold e.2.decl.name = e.1 := by
    intro e he
    rw [entries_declared] at he
    obtain ⟨e', -, rfl⟩ := List.mem_map.mp he
    rfl
  have hfind := find?_declared classes name
  rw [issues_eq, List.filter_flatMap]
  calc (declared classes).entries.flatMap
        (fun e => (missing classes e.2.decl).filter fun m => sameName m.child name)
      = ((declared classes).entries.filter fun e => e.1 = fold name).flatMap
          fun e => missing classes e.2.decl := by
        rw [flatMap_filter]
        refine List.flatMap_congr fun e he => ?_
        rw [filter_missing, hentry e he]
        simp only [decide_eq_true_iff]
    _ = (standing classes name).elim [] fun e => missing classes e.1 := by
        rw [Table.filter_entries (nodup_keys_declared classes), hfind]
        rcases standing classes name with - | e
        · rfl
        · simp

end Issues

/-- **Every missing parent is an issue, once.**  The issues are, for the standing
declarations of classes in their order, one for each parent that none stands for, in the
order of the parents.  Those about one name are all from the declaration that stands for
it, so nothing that inherits from it repeats them.  A parent that is declared is an
ancestor, and so are the ancestors of a parent of a class. -/
theorem issues_spec (classes : List ClassDecl) :
    (build classes).issues = (standings classes).flatMap (fun e => missing classes e.1) ∧
    (∀ name, (build classes).issues.filter (fun m => sameName m.child name) =
      (standing classes name).elim [] fun e => missing classes e.1) ∧
    ∀ name d id, standing classes name = some (d, id) →
      ∀ p ∈ d.parents, (standing classes p).isSome = true →
        (build classes).isSubclassOf name p = true ∧
        (d.kind = .ordinary → ∀ a, (build classes).isSubclassOf p a = true →
          (build classes).isSubclassOf name a = true) := by
  refine ⟨?_, filter_issues, fun name d id hd p hp hs => ⟨?_, fun hk a ha => ?_⟩⟩
  · rw [issues_eq, entries_declared, List.flatMap_map]
  · rcases kind_of_standing hd with hk | hk
    · exact isSubclassOf_of_parent hd hk hp hs (isSubclassOf_self hs)
    · exact isSubclassOf_of_extended hd hk hp
  · exact isSubclassOf_of_parent hd hk hp hs ha

/-- Two classes that extend each other and each miss a parent, one of them in two
spellings and the other under the name of a trait; a second `Orphan`, and an interface
that extends another one and what is not declared. -/
def orphans : List ClassDecl := [
  { name := "Orphan", parents := ["Lost", "Base", "lost"] },
  { name := "Gone", kind := .trait, parents := ["Nothing"] },
  { name := "Base", parents := ["orphan", "Gone"] },
  { name := "ORPHAN", parents := ["Other"] },
  { name := "Shape", kind := .interface, parents := ["Absent", "Solid"] },
  { name := "Solid", kind := .interface }]

/-- In `orphans` only what the two classes miss themselves is an issue, and the cycle
between them and the edge between the interfaces are kept. -/
theorem issues_spec_orphans :
    (build orphans).issues =
      [⟨"Orphan", "Lost"⟩, ⟨"Orphan", "lost"⟩, ⟨"Base", "Gone"⟩] ∧
    (build orphans).isSubclassOf "Base" "Orphan" = true ∧
    (build orphans).isSubclassOf "orphan" "Base" = true ∧
    (build orphans).isSubclassOf "Shape" "Solid" = true := by
  obtain ⟨hissues, -, hedges⟩ := issues_spec orphans
  refine ⟨hissues.trans (by decide), ?_, ?_, ?_⟩
  · exact (hedges "Base" _ _ rfl "orphan" List.mem_cons_self rfl).1
  · exact (hedges "orphan" _ _ rfl "Base" (by decide) rfl).1
  · exact (hedges "Shape" _ _ rfl "Solid" (by decide) rfl).1

end SsaTypes.Hierarchy
