/-
SsaTypes/Proofs/Ancestors.lean

What the hierarchy says of a list of declarations, against the declarations alone.  A
name stands for the first declaration of that name that is no trait (`standing`), and
a standing declaration inherits in one step from its declared parents, from what it
implements and from what it extends as an interface (`Inherits`).  Then

    the ancestors of n  =  all names that n leads to along `Inherits`,

each with the number of its standing declaration, and the descendants of n are the
names of which n is an ancestor (`resolves_spec`), on cycles and forward references
too.

The hierarchy looks for interfaces along interfaces only, and for parents along
parents only.  So what is named as an interface must be none with a parent, if it is
declared at all (`InterfacesOnly`).
-/
import SsaTypes.Proofs.Reach

namespace SsaTypes.Hierarchy

open Relation Text

/-! ### Inheritance as it is declared -/

/-- The declaration that a name stands for, with its number: the first one of this name
that is no trait. -/
def standing (classes : List ClassDecl) (name : String) : Option (ClassDecl × ClassId) :=
  classes.zipIdx.find? fun e => e.1.kind ≠ .trait && sameName e.1.name name

/-- What a name inherits from in one step: the declared parents of a class, and the
interfaces that a class implements or an interface extends, declared or not. -/
inductive Inherits (classes : List ClassDecl) : String → String → Prop
  | parent {a p : String} {d : ClassDecl} {id : ClassId} :
      standing classes a = some (d, id) → d.kind = .ordinary → p ∈ d.parents →
      (standing classes p).isSome = true → Inherits classes a (fold p)
  | implemented {a i : String} {d : ClassDecl} {id : ClassId} :
      standing classes a = some (d, id) → d.kind = .ordinary → i ∈ d.interfaces →
      Inherits classes a (fold i)
  | extended {a i : String} {d : ClassDecl} {id : ClassId} :
      standing classes a = some (d, id) → d.kind = .interface → i ∈ d.parents →
      Inherits classes a (fold i)

/-- What a declaration implements, or extends as an interface, is an interface if it is
declared. -/
def InterfacesOnly (classes : List ClassDecl) : Prop :=
  ∀ a d id, standing classes a = some (d, id) →
    ∀ i ∈ (if d.kind = .interface then d.parents else d.interfaces),
      ∀ e j, standing classes i = some (e, j) → e.kind = .interface

section Standing

variable {classes : List ClassDecl}

@[simp] theorem standing_fold (name : String) :
    standing classes (fold name) = standing classes name := by
  simp only [standing, sameName, fold_fold]

theorem kind_of_standing {name : String} {d : ClassDecl} {id : ClassId}
    (h : standing classes name = some (d, id)) : d.kind = .ordinary ∨ d.kind = .interface := by
  have hd := List.find?_some h
  rw [Bool.and_eq_true, decide_eq_true_iff] at hd
  cases hk : d.kind with
  | ordinary => exact .inl rfl
  | interface => exact .inr rfl
  | trait => exact absurd hk hd.1

theorem isSome_standing {name : String} :
    (standing classes name).isSome = true ↔
      ∃ d ∈ classes, d.kind ≠ .trait ∧ sameName d.name name = true := by
  rw [standing, List.find?_isSome]
  constructor
  · rintro ⟨e, he, hp⟩
    rw [Bool.and_eq_true, decide_eq_true_iff] at hp
    exact ⟨e.1, (List.mem_zipIdx' he).2 ▸ List.getElem_mem _, hp⟩
  · rintro ⟨d, hd, hkind, hname⟩
    obtain ⟨i, hi, rfl⟩ := List.mem_iff_getElem.mp hd
    exact ⟨(classes[i], i), List.mk_mem_zipIdx_iff_getElem?.mpr (List.getElem?_eq_getElem hi),
      by simp [hkind, hname]⟩

theorem lt_length_of_standing {name : String} {d : ClassDecl} {id : ClassId}
    (h : standing classes name = some (d, id)) : id < classes.length :=
  (List.mem_zipIdx' (List.mem_of_find?_eq_some h)).1

/-- Names that a name leads to are kept in small letters. -/
theorem fold_of_inherits {name a : String} (h : ReflTransGen (Inherits classes) (fold name) a) :
    fold a = a := by
  cases h with
  | refl => exact fold_fold name
  | tail _ hstep => cases hstep <;> exact fold_fold _

end Standing

/-! ### The tables of declarations -/

section Declared

variable (classes : List ClassDecl)

theorem find?_declared (name : String) :
    (declared classes).find? (fold name) =
      (standing classes name).map fun e => ⟨e.2, e.1⟩ := by
  -- the table built so far goes first, then the declarations still to come
  have hfold (es : List (ClassDecl × ClassId)) (t : Table String Declared) :
      (es.foldl (fun t e => if e.1.kind = .trait then t
        else t.insertNew (fold e.1.name) ⟨e.2, e.1⟩) t).find? (fold name) =
      (t.find? (fold name)).or ((es.find? fun e =>
        e.1.kind ≠ .trait && sameName e.1.name name).map fun e => ⟨e.2, e.1⟩) := by
    induction es generalizing t with
    | nil => simp
    | cons e es ih =>
      rw [List.foldl_cons, ih]
      by_cases hk : e.1.kind = .trait
      · rw [if_pos hk, List.find?_cons_of_neg (by simp [hk])]
      · rw [if_neg hk, Table.find?_insertNew]
        by_cases hn : fold e.1.name = fold name
        · rw [if_pos hn.symm, hn, List.find?_cons_of_pos (by simp [hk, sameName, hn])]
          cases t.find? (fold name) <;> rfl
        · rw [if_neg (Ne.symm hn), List.find?_cons_of_neg (by simp [sameName, hn])]
  rw [declared, hfold]
  simp [standing]

theorem contains_declared (name : String) :
    (declared classes).contains (fold name) = (standing classes name).isSome := by
  rw [Table.contains, find?_declared, Option.isSome_map]

theorem nodup_keys_declared : (declared classes).keys.Nodup := by
  refine List.foldlRecOn (motive := fun t : Table String Declared => t.keys.Nodup) _ _
    List.nodup_nil fun t ht e _ => ?_
  split
  · exact ht
  · exact Table.nodup_keys_alter ht _ _

theorem fold_of_mem_keys_declared : ∀ k ∈ (declared classes).keys, fold k = k := by
  refine List.foldlRecOn (motive := fun t : Table String Declared => ∀ k ∈ t.keys, fold k = k) _ _
    (fun k hk => absurd hk List.not_mem_nil) fun t ht e _ => ?_
  split
  · exact ht
  · intro k hk
    rw [Table.insertNew, Table.keys_alter] at hk
    split at hk
    · exact ht k hk
    · rcases List.mem_append.mp hk with hk | hk
      · exact ht k hk
      · exact List.mem_singleton.mp hk ▸ fold_fold e.1.name

variable {classes}

/-- The table has the standing declarations under their names in small letters. -/
theorem find?_declared_iff {a : String} {d : Declared} :
    (declared classes).find? a = some d ↔
      fold a = a ∧ standing classes a = some (d.decl, d.id) := by
  constructor
  · intro h
    have ha := fold_of_mem_keys_declared classes a (mem_keys_of_find? h)
    rw [← ha, find?_declared] at h
    obtain ⟨e, he, rfl⟩ := Option.map_eq_some_iff.mp h
    exact ⟨ha, he⟩
  · rintro ⟨ha, h⟩
    rw [← ha, find?_declared, h]
    rfl

end Declared

/-! ### Steps of the walks -/

section Steps

variable {classes : List ClassDecl}

theorem find?_interfaceEdges (k : String) :
    (interfaceEdges (declared classes)).find? k =
      ((declared classes).find? k).bind fun d =>
        if d.decl.kind = .interface then some (d.decl.parents.map fold) else none :=
  Table.findIn_filterMap (fun d : Declared => d.decl.kind = .interface)
    (fun d => d.decl.parents.map fold) k (nodup_keys_declared classes)

theorem mem_leadsTo {x y : String} :
    y ∈ leadsTo (interfaceEdges (declared classes)) x ↔
      ∃ d, (declared classes).find? x = some d ∧ d.decl.kind = .interface ∧ y ∈ d.interfaces := by
  rw [leadsTo, find?_interfaceEdges]
  rcases (declared classes).find? x with - | d
  · simp
  · by_cases hk : d.decl.kind = .interface
    · simp [hk, Declared.interfaces]
    · simp [hk]

theorem mem_parentsOf {x y : String} :
    y ∈ parentsOf (declared classes) x ↔
      ∃ d, (declared classes).find? x = some d ∧ y ∈ d.parents.map fold ∧
        (standing classes y).isSome = true := by
  rw [parentsOf]
  rcases (declared classes).find? x with - | d
  · simp
  · simp only [List.mem_filter, List.mem_map, Option.some.injEq, exists_eq_left']
    constructor
    · rintro ⟨⟨p, hp, rfl⟩, hc⟩
      exact ⟨⟨p, hp, rfl⟩, by rwa [standing_fold, ← contains_declared]⟩
    · rintro ⟨⟨p, hp, rfl⟩, hs⟩
      exact ⟨⟨p, hp, rfl⟩, by rwa [contains_declared, ← standing_fold]⟩

/-- A standing declaration inherits from the interfaces that it names itself. -/
theorem inherits_interfaces {x y : String} {d : Declared} (hd : (declared classes).find? x = some d)
    (hy : y ∈ d.interfaces) : Inherits classes x y := by
  obtain ⟨-, hstanding⟩ := find?_declared_iff.mp hd
  rw [Declared.interfaces] at hy
  obtain ⟨i, hi, rfl⟩ := List.mem_map.mp hy
  rcases kind_of_standing hstanding with hk | hk
  · rw [if_neg (by simp [hk])] at hi
    exact .implemented hstanding hk hi
  · rw [if_pos hk] at hi
    exact .extended hstanding hk hi

theorem inherits_parentsOf {x y : String} (h : y ∈ parentsOf (declared classes) x) :
    Inherits classes x y := by
  obtain ⟨d, hd, hy, hs⟩ := mem_parentsOf.mp h
  obtain ⟨-, hstanding⟩ := find?_declared_iff.mp hd
  obtain ⟨p, hp, rfl⟩ := List.mem_map.mp hy
  rw [standing_fold] at hs
  rw [Declared.parents] at hp
  rcases kind_of_standing hstanding with hk | hk
  · rw [if_neg (by simp [hk])] at hp
    exact .parent hstanding hk hp hs
  · rw [if_pos hk] at hp
    cases hp

/-- A step of inheritance from a declared name is one to a parent or to an interface. -/
theorem step_of_inherits {x y : String} (hx : fold x = x) (h : Inherits classes x y) :
    ∃ d, (declared classes).find? x = some d ∧
      (d.decl.kind = .ordinary ∧ y ∈ parentsOf (declared classes) x ∨ y ∈ d.interfaces) := by
  have hdeclared {d : ClassDecl} {id : ClassId} (hd : standing classes x = some (d, id)) :
      (declared classes).find? x = some ⟨id, d⟩ :=
    find?_declared_iff.mpr ⟨hx, hd⟩
  cases h with
  | @parent p d id hd hk hp hs =>
    refine ⟨_, hdeclared hd, .inl ⟨hk, mem_parentsOf.mpr ⟨_, hdeclared hd, ?_, ?_⟩⟩⟩
    · rw [Declared.parents, if_neg (by simp [hk])]
      exact List.mem_map_of_mem hp
    · rwa [standing_fold]
  | @implemented i d id hd hk hi =>
    refine ⟨_, hdeclared hd, .inr ?_⟩
    rw [Declared.interfaces, if_neg (by simp [hk])]
    exact List.mem_map_of_mem hi
  | @extended i d id hd hk hi =>
    refine ⟨_, hdeclared hd, .inr ?_⟩
    rw [Declared.interfaces, if_pos hk]
    exact List.mem_map_of_mem hi

end Steps

/-! ### Ancestors -/

section Ancestors

variable {classes : List ClassDecl}

/-- A declared name has itself, and what its interfaces lead to. -/
theorem mem_own {v a : String} :
    a ∈ own (declared classes) v ↔ ∃ d, (declared classes).find? v = some d ∧
      (a = v ∨ ∃ i ∈ d.interfaces,
        ReflTransGen (fun x y => y ∈ leadsTo (interfaceEdges (declared classes)) x) i a) := by
  rw [own]
  rcases (declared classes).find? v with - | d
  · simp
  · simp [mem_closure]

/-- The names that the ancestors of a name are gathered from. -/
abbrev lineage (classes : List ClassDecl) (name : String) : List String :=
  (climb (declared classes) name [name] {}).visited.flatMap (own (declared classes))

theorem inherits_of_mem_lineage {n a : String} (h : a ∈ lineage classes n) :
    ReflTransGen (Inherits classes) n a := by
  obtain ⟨v, hv, ha⟩ := List.mem_flatMap.mp h
  obtain ⟨d, hd, ha⟩ := mem_own.mp ha
  have hclimb : ReflTransGen (Inherits classes) n v :=
    ReflTransGen.mono (fun _ _ => inherits_parentsOf) _ _ (mem_climb.mp hv)
  rcases ha with rfl | ⟨i, hi, ha⟩
  · exact hclimb
  · refine (hclimb.tail (inherits_interfaces hd hi)).trans (ReflTransGen.mono ?_ _ _ ha)
    intro x y hy
    obtain ⟨e, he, -, hy⟩ := mem_leadsTo.mp hy
    exact inherits_interfaces he hy

/-- What interfaces lead to is no class with a parent. -/
theorem kind_of_leadsTo (honly : InterfacesOnly classes) {v i a : String} {d e : Declared}
    (hd : (declared classes).find? v = some d) (hi : i ∈ d.interfaces)
    (ha : ReflTransGen (fun x y => y ∈ leadsTo (interfaceEdges (declared classes)) x) i a)
    (he : (declared classes).find? a = some e) : e.decl.kind = .interface := by
  -- the last name was named as an interface, by the first declaration or by one on the way
  have hnamed {w : String} {d : Declared} (hd : (declared classes).find? w = some d)
      (ha : a ∈ d.interfaces) : e.decl.kind = .interface := by
    obtain ⟨p, hp, rfl⟩ := List.mem_map.mp ha
    obtain ⟨-, hstanding⟩ := find?_declared_iff.mp he
    rw [standing_fold] at hstanding
    exact honly w _ _ (find?_declared_iff.mp hd).2 p hp _ _ hstanding
  cases ha with
  | refl => exact hnamed hd hi
  | tail _ hstep =>
    obtain ⟨d', hd', -, ha⟩ := mem_leadsTo.mp hstep
    exact hnamed hd' ha

theorem mem_lineage_of_inherits (honly : InterfacesOnly classes) {n a : String} (hn : fold n = n)
    (hdeclared : ∃ d, (declared classes).find? n = some d)
    (h : ReflTransGen (Inherits classes) n a) : a ∈ lineage classes n := by
  induction h with
  | refl =>
    obtain ⟨d, hd⟩ := hdeclared
    exact List.mem_flatMap.mpr ⟨n, mem_climb.mpr .refl, mem_own.mpr ⟨d, hd, .inl rfl⟩⟩
  | @tail a b hreach hstep ih =>
    obtain ⟨v, hv, ha⟩ := List.mem_flatMap.mp ih
    obtain ⟨d, hd, ha⟩ := mem_own.mp ha
    have hfold : fold a = a := fold_of_inherits (hn.symm ▸ hreach)
    obtain ⟨e, he, hstep⟩ := step_of_inherits hfold hstep
    rcases ha with rfl | ⟨i, hi, ha⟩
    · -- the step starts from a parent, or from the name itself
      obtain rfl := Option.some.inj (hd.symm.trans he)
      rcases hstep with ⟨-, hb⟩ | hb
      · obtain ⟨e', he'⟩ : ∃ e', (declared classes).find? b = some e' := by
          obtain ⟨_, -, hmem, hs⟩ := mem_parentsOf.mp hb
          obtain ⟨p, -, rfl⟩ := List.mem_map.mp hmem
          rw [standing_fold] at hs
          obtain ⟨s, hs⟩ := Option.isSome_iff_exists.mp hs
          exact ⟨_, by rw [find?_declared, hs]; rfl⟩
        exact List.mem_flatMap.mpr ⟨b, mem_climb.mpr ((mem_climb.mp hv).tail hb),
          mem_own.mpr ⟨e', he', .inl rfl⟩⟩
      · exact List.mem_flatMap.mpr ⟨a, hv, mem_own.mpr ⟨d, hd, .inr ⟨b, hb, .refl⟩⟩⟩
    · -- it starts from an interface, which has no parent
      have hk := kind_of_leadsTo honly hd hi ha he
      rcases hstep with ⟨hordinary, -⟩ | hb
      · rw [hk] at hordinary
        cases hordinary
      · refine List.mem_flatMap.mpr ⟨v, hv, mem_own.mpr ⟨d, hd, .inr ⟨i, hi, ha.tail ?_⟩⟩⟩
        exact mem_leadsTo.mpr ⟨e, he, hk, hb⟩

theorem find?_ancestors (n : String) :
    (build classes).ancestors.find? n = ((declared classes).find? n).map fun _ =>
      gather (declared classes) (climb (declared classes) n [n] {}).visited := by
  rw [build, Table.find?_mapValues, Table.find?_mapValues, Option.map_map]
  rfl

theorem find?_gather (visited : List String) (a : String) :
    (gather (declared classes) visited).find? a =
      if a ∈ visited.flatMap (own (declared classes))
      then some (((declared classes).find? a).map Declared.id) else none := by
  rw [gather, Table.find?_foldl_insertNew, Table.find?_empty, Option.none_or]

theorem nodup_keys_gather (visited : List String) :
    (gather (declared classes) visited).keys.Nodup :=
  List.foldlRecOn (motive := fun t : AncestorSet => t.keys.Nodup) _ _ List.nodup_nil
    fun _ ht _ _ => Table.nodup_keys_alter ht _ _

theorem mem_keys_gather {visited : List String} {a : String} :
    a ∈ (gather (declared classes) visited).keys ↔
      a ∈ visited.flatMap (own (declared classes)) := by
  rw [← Table.contains_iff, Table.contains, find?_gather]
  split <;> simp [*]

/-- The ancestors of a declared name are the names that it leads to, each with the
number of its declaration. -/
theorem ancestors_spec (honly : InterfacesOnly classes) {n : String} {set : AncestorSet}
    (h : (build classes).ancestors.find? n = some set) :
    fold n = n ∧ set.keys.Nodup ∧
      (∀ a, a ∈ set.keys ↔ ReflTransGen (Inherits classes) n a) ∧
      ∀ a ∈ set.keys, set.find? a = some ((standing classes a).map Prod.snd) := by
  rw [find?_ancestors] at h
  obtain ⟨d, hd, rfl⟩ := Option.map_eq_some_iff.mp h
  have hn := (find?_declared_iff.mp hd).1
  have hkeys (a : String) : a ∈ (gather (declared classes)
      (climb (declared classes) n [n] {}).visited).keys ↔ ReflTransGen (Inherits classes) n a := by
    rw [mem_keys_gather]
    exact ⟨inherits_of_mem_lineage, mem_lineage_of_inherits honly hn ⟨d, hd⟩⟩
  refine ⟨hn, nodup_keys_gather _, hkeys, fun a ha => ?_⟩
  have hfold : fold a = a := fold_of_inherits (hn.symm ▸ (hkeys a).mp ha)
  rw [find?_gather, if_pos (mem_keys_gather.mp ha), ← hfold, find?_declared, standing_fold,
    Option.map_map]
  rfl

end Ancestors

/-! ### Descendants -/

section Descendants

variable {classes : List ClassDecl}

/-- A name is a descendant of each of its ancestors, once. -/
theorem find?_invert {t : Table String AncestorSet} (hn : ∀ e ∈ t.entries, e.2.keys.Nodup)
    (m : String) :
    (invert t).find? m =
      match (t.entries.filter fun e => m ∈ e.2.keys).map Prod.fst with
      | [] => none
      | names => some names := by
  -- the names found so far come before those still to come
  have hfold (es : List (String × AncestorSet)) (hn : ∀ e ∈ es, e.2.keys.Nodup)
      (t : Table String (List String)) :
      (es.foldl (fun t e => e.2.keys.foldl (fun t a => t.push a e.1) t) t).find? m =
        match (es.filter fun e => m ∈ e.2.keys).map Prod.fst with
        | [] => t.find? m
        | names => some ((t.find? m).getD [] ++ names) := by
    induction es generalizing t with
    | nil => rfl
    | cons e es ih =>
      obtain ⟨he, hes⟩ := List.forall_mem_cons.mp hn
      rw [List.foldl_cons, ih hes, Table.find?_foldl_push _ he]
      by_cases hm : m ∈ e.2.keys
      · rw [if_pos hm, List.filter_cons_of_pos (by simpa using hm), List.map_cons]
        cases (es.filter fun e => m ∈ e.2.keys).map Prod.fst <;> simp
      · rw [if_neg hm, List.filter_cons_of_neg (by simpa using hm)]
  rw [invert, hfold t.entries hn]
  simp

theorem nodup_keys_ancestors : (build classes).ancestors.keys.Nodup := by
  rw [build, Table.keys_mapValues, Table.keys_mapValues]
  exact nodup_keys_declared classes

/-- The names with a name among their ancestors. -/
theorem resolvedBy_eq (name : String) :
    (build classes).resolvedBy name =
      match ((build classes).ancestors.entries.filter fun e =>
        fold name ∈ e.2.keys).map Prod.fst with
      | [] => none
      | names => some names := by
  refine find?_invert (fun e he => ?_) (fold name)
  have h := (Table.find?_eq_some_iff nodup_keys_ancestors).mpr he
  rw [find?_ancestors] at h
  obtain ⟨d, -, hset⟩ := Option.map_eq_some_iff.mp h
  exact hset ▸ nodup_keys_gather _

/-- A declared name stands among the descendants of its ancestors. -/
theorem mem_descendants {name n : String} :
    n ∈ ((build classes).ancestors.entries.filter fun e =>
      fold name ∈ e.2.keys).map Prod.fst ↔
      fold n = n ∧ ∃ set, (build classes).resolves n = some set ∧ fold name ∈ set.keys := by
  constructor
  · intro h
    obtain ⟨⟨k, set⟩, he, rfl⟩ := List.mem_map.mp h
    obtain ⟨he, hkeys⟩ := List.mem_filter.mp he
    have hset := (Table.find?_eq_some_iff nodup_keys_ancestors).mpr he
    have hk : fold k = k := by
      refine fold_of_mem_keys_declared classes k ?_
      have hmem := mem_keys_of_find? hset
      rwa [build, Table.keys_mapValues, Table.keys_mapValues] at hmem
    exact ⟨hk, set, by rw [resolves, hk]; exact hset, by simpa using hkeys⟩
  · rintro ⟨hn, set, hset, hkeys⟩
    rw [resolves, hn] at hset
    have he := (Table.find?_eq_some_iff nodup_keys_ancestors).mp hset
    exact List.mem_map.mpr ⟨(n, set), List.mem_filter.mpr ⟨he, by simpa using hkeys⟩, rfl⟩

end Descendants

/-- **The hierarchy is the closure of inheritance.**  A name has ancestors exactly if a
class or interface of this name is declared.  They are the names that it leads to, and
each has the number of the first declaration that is no trait, if there is one.  Turned
round, a name has for descendants the declared names of which it is an ancestor, and
none are listed if there are none. -/
theorem resolves_spec {classes : List ClassDecl} (honly : InterfacesOnly classes)
    (name : String) :
    (((build classes).resolves name).isSome = true ↔
      ∃ d ∈ classes, d.kind ≠ .trait ∧ sameName d.name name = true) ∧
    (∀ set, (build classes).resolves name = some set → set.keys.Nodup ∧
      (∀ a, a ∈ set.keys ↔ ReflTransGen (Inherits classes) (fold name) a) ∧
      ∀ a ∈ set.keys, set.find? a = some ((standing classes a).map Prod.snd)) ∧
    ((build classes).resolvedBy name = none ↔
      ∀ n set, (build classes).resolves n = some set → fold name ∉ set.keys) ∧
    ∀ names, (build classes).resolvedBy name = some names → names.Nodup ∧
      ∀ n, n ∈ names ↔
        fold n = n ∧ ∃ set, (build classes).resolves n = some set ∧ fold name ∈ set.keys := by
  refine ⟨?_, fun set h => (ancestors_spec honly h).2, ?_, fun names h => ?_⟩
  · rw [resolves, find?_ancestors, Option.isSome_map, find?_declared, Option.isSome_map,
      isSome_standing]
  · rw [resolvedBy_eq]
    constructor
    · intro h n set hset hkeys
      have hmem := (@mem_descendants classes name (fold n)).mpr
        ⟨fold_fold n, set, by rw [resolves, fold_fold]; exact hset, hkeys⟩
      split at h
      · next hnil =>
        rw [hnil] at hmem
        cases hmem
      · cases h
    · intro h
      split
      · rfl
      · next names hnames =>
        exfalso
        obtain ⟨n, hn⟩ := List.exists_mem_of_ne_nil _ hnames
        obtain ⟨-, set, hset, hkeys⟩ := mem_descendants.mp hn
        exact h n set hset hkeys
  · rw [resolvedBy_eq] at h
    split at h
    · cases h
    · obtain rfl := Option.some.inj h
      refine ⟨?_, fun n => mem_descendants⟩
      exact (List.Sublist.map Prod.fst List.filter_sublist).nodup nodup_keys_ancestors

/-- Two classes that extend each other, and an interface that extends one that only a
trait has the name of. -/
def mutualParents : List ClassDecl := [
  { name := "Left", parents := ["right"] },
  { name := "Right", parents := ["Left"], interfaces := ["Shape"] },
  { name := "Shape", kind := .interface, parents := ["Countable"] },
  { name := "Countable", kind := .trait }]

theorem interfacesOnly_mutualParents : InterfacesOnly mutualParents := by
  intro a d id h i hi e j hj
  have hmem := List.mem_of_find?_eq_some h
  simp only [mutualParents, List.zipIdx_cons, List.zipIdx_nil, List.mem_cons, Prod.mk.injEq,
    List.not_mem_nil, or_false] at hmem
  -- only the second and the third name interfaces
  rcases hmem with ⟨rfl, -⟩ | ⟨rfl, -⟩ | ⟨rfl, -⟩ | ⟨rfl, -⟩
  · cases hi
  · obtain rfl := List.mem_singleton.mp hi
    obtain ⟨rfl, -⟩ := Prod.mk.inj (Option.some.inj (hj.symm.trans rfl))
    rfl
  · obtain rfl := List.mem_singleton.mp hi
    cases hj
  · cases hi

/-- Of the two classes in `mutualParents`, the first has the second for an ancestor, and
what the interface extends. -/
theorem resolves_spec_mutualParents :
    ∃ set, (build mutualParents).resolves "LEFT" = some set ∧
      set.find? "right" = some (some 1) ∧ set.find? "countable" = some none ∧
      ∃ names, (build mutualParents).resolvedBy "LEFT" = some names ∧ "left" ∈ names := by
  obtain ⟨hsome, hset, hnone, hnames⟩ := resolves_spec interfacesOnly_mutualParents "LEFT"
  obtain ⟨set, h⟩ := Option.isSome_iff_exists.mp
    (hsome.mpr ⟨_, List.mem_cons_self, by decide, by decide⟩)
  obtain ⟨-, hkeys, hids⟩ := hset set h
  have hright : Inherits mutualParents "left" "right" :=
    .parent (p := "right") rfl rfl List.mem_cons_self rfl
  have hshape : Inherits mutualParents "right" "shape" :=
    .implemented (i := "Shape") rfl rfl List.mem_cons_self
  have hcountable : Inherits mutualParents "shape" "countable" :=
    .extended (i := "Countable") rfl rfl List.mem_cons_self
  refine ⟨set, h, hids _ ((hkeys _).mpr (.single hright)),
    hids _ ((hkeys _).mpr (((ReflTransGen.single hright).tail hshape).tail hcountable)), ?_⟩
  rcases hr : (build mutualParents).resolvedBy "LEFT" with - | names
  · exact absurd ((hkeys _).mpr .refl) (hnone.mp hr "LEFT" set h)
  · exact ⟨names, rfl, ((hnames names hr).2 "left").mpr ⟨rfl, set, h, (hkeys _).mpr .refl⟩⟩

end SsaTypes.Hierarchy
