/-
SsaTypes/Proofs/RespelledTables.lean

Lookup tables under a new spelling.  All tables go by folded names and by numbers, so
those of a script in a new spelling are the same; only the missing parents are listed
under their names as written:

    build (respell s) = (build s).map respell                       (`build_respell`)

The tables see no types, so they may be built before the properties get theirs or
after it (`build_seedProperties`).
-/
import SsaTypes.Proofs.Respelled
import SsaTypes.Proofs.Seeding

namespace SsaTypes

open Text Inference

variable {f : String → String}

/-! ### The hierarchy -/

namespace Hierarchy

/-- The missing parent with both names spelled anew. -/
def MissingParent.respell (f : String → String) (m : MissingParent) : MissingParent :=
  ⟨f m.child, f m.parent⟩

/-- The climb with the names of the missing parents spelled anew. -/
def Climb.respell (f : String → String) (found : Climb) : Climb :=
  { found with missing := found.missing.map (MissingParent.respell f) }

/-- A change of declarations that leaves their kinds and spells the names in their
headings anew. -/
structure Renames (f : String → String) (g : ClassDecl → ClassDecl) : Prop where
  fold : ∀ s, Text.fold (f s) = Text.fold s
  name : ∀ d, (g d).name = f d.name
  kind : ∀ d, (g d).kind = d.kind
  parents : ∀ d, (g d).parents = d.parents.map f
  interfaces : ∀ d, (g d).interfaces = d.interfaces.map f

namespace Renames

variable {g : ClassDecl → ClassDecl} (h : Renames f g)
include h

/-- The declaration that stands for a name, changed. -/
abbrev declared (g : ClassDecl → ClassDecl) (_ : String) (d : Declared) : Declared :=
  ⟨d.id, g d.decl⟩

theorem map_fold (names : List String) : (names.map f).map Text.fold = names.map Text.fold := by
  rw [List.map_map]
  exact List.map_congr_left fun s _ => h.fold s

theorem declared_map (classes : List ClassDecl) :
    Hierarchy.declared (classes.map g) =
      (Hierarchy.declared classes).mapValues (Renames.declared g) := by
  have hfold (es : List (ClassDecl × ClassId)) (t : Table String Declared) :
      (es.map (Prod.map g id)).foldl (fun t e => if e.1.kind = .trait then t
        else t.insertNew (Text.fold e.1.name) ⟨e.2, e.1⟩) (t.mapValues (Renames.declared g)) =
      (es.foldl (fun t e => if e.1.kind = .trait then t
        else t.insertNew (Text.fold e.1.name) ⟨e.2, e.1⟩) t).mapValues (Renames.declared g) := by
    induction es generalizing t with
    | nil => rfl
    | cons e es ih =>
      rw [List.map_cons, List.foldl_cons, List.foldl_cons, ← ih]
      congr 1
      simp only [Prod.map_fst, Prod.map_snd, h.kind, h.name, h.fold, id]
      split
      · rfl
      · rw [Table.mapValues_insertNew]
  rw [Hierarchy.declared, List.zipIdx_map]
  exact hfold classes.zipIdx .empty

variable (decls : Table String Declared)

theorem interfaces_declared (k : String) (d : Declared) :
    (Renames.declared g k d).interfaces = d.interfaces := by
  rw [Declared.interfaces, Declared.interfaces, h.kind, h.parents, h.interfaces]
  split
  · exact h.map_fold _
  · exact h.map_fold _

theorem parents_declared (k : String) (d : Declared) :
    (Renames.declared g k d).parents = d.parents.map f := by
  rw [Declared.parents, Declared.parents, h.kind, h.parents]
  split <;> rfl

omit h in
theorem contains_declared (k : String) :
    (decls.mapValues (Renames.declared g)).contains k = decls.contains k := by
  rw [Table.contains, Table.contains, Table.find?_mapValues, Option.isSome_map]

theorem interfaceEdges_map :
    interfaceEdges (decls.mapValues (Renames.declared g)) = interfaceEdges decls := by
  rw [interfaceEdges, interfaceEdges, Table.mapValues, List.filterMap_map]
  congr 2
  funext e
  simp only [Function.comp_apply, h.kind, h.parents, h.map_fold]

theorem own_map (name : String) :
    own (decls.mapValues (Renames.declared g)) name = own decls name := by
  rw [own, own, Table.find?_mapValues, h.interfaceEdges_map]
  rcases decls.find? name with - | d
  · rfl
  · simp only [Option.map_some, h.interfaces_declared]

theorem gather_map (visited : List String) :
    gather (decls.mapValues (Renames.declared g)) visited = gather decls visited := by
  have hown : own (decls.mapValues (Renames.declared g)) = own decls :=
    funext (h.own_map decls)
  rw [gather, gather, hown]
  simp only [Table.find?_mapValues, Option.map_map]
  rfl

/-- A declaration misses the same parents, in their new spelling. -/
theorem missing_map (k : String) (d : Declared) :
    ((Renames.declared g k d).parents.filter fun p =>
        !(decls.mapValues (Renames.declared g)).contains (Text.fold p)).map
          (fun p => (⟨(g d.decl).name, p⟩ : MissingParent)) =
      ((d.parents.filter fun p => !decls.contains (Text.fold p)).map
        fun p => (⟨d.decl.name, p⟩ : MissingParent)).map (MissingParent.respell f) := by
  rw [h.parents_declared, List.filter_map, List.map_map, List.map_map, h.name]
  simp only [contains_declared, Function.comp_def, h.fold]
  rfl

/-- The climb visits the same names, and finds the same parents missing. -/
theorem climb_map (start : String) (toVisit : List String) (found : Climb) :
    climb (decls.mapValues (Renames.declared g)) start toVisit (found.respell f) =
      (climb decls start toVisit found).respell f := by
  fun_induction climb decls start toVisit found with
  | case1 found => rw [climb]
  | case2 found n rest hn ih =>
    have hn' : n ∈ (found.respell f).visited := hn
    rw [climb_of_mem hn', ih]
  | case3 found n rest hn hd ih =>
    have hn' : n ∉ (found.respell f).visited := hn
    rw [climb_of_none hn' (by rw [Table.find?_mapValues, hd]; rfl), ← ih]
    rfl
  | case4 found n rest hn d hd _ missing ih =>
    have hn' : n ∉ (found.respell f).visited := hn
    have hd' : (decls.mapValues (Renames.declared g)).find? n = some (Renames.declared g n d) := by
      rw [Table.find?_mapValues, hd]
      rfl
    -- the climb goes on with what both have found
    have hfound : { visited := (found.respell f).visited ++ [n]
                    missing := (found.respell f).missing ++ if n = start then
                      missing.map (fun p => (⟨d.decl.name, p⟩ : MissingParent))
                        |>.map (MissingParent.respell f)
                      else [] } =
        Climb.respell f
          { visited := found.visited ++ [n]
            missing := found.missing ++ if n = start then
              missing.map fun p => ⟨d.decl.name, p⟩ else [] } := by
      simp only [Climb.respell, List.map_append, apply_ite (List.map _), List.map_nil]
    rw [climb_of_some hn' hd', h.missing_map, hfound, h.parents_declared, h.map_fold,
      funext (contains_declared decls)]
    exact ih

theorem build_map (classes : List ClassDecl) :
    build (classes.map g) =
      { build classes with
        issues := (build classes).issues.map (MissingParent.respell f) } := by
  have hclimbs (decls : Table String Declared) :
      ((decls.mapValues (Renames.declared g)).mapValues fun name _ =>
          climb (decls.mapValues (Renames.declared g)) name [name] {}) =
        (decls.mapValues fun name _ => climb decls name [name] {}).mapValues
          fun _ => Climb.respell f := by
    rw [Table.mapValues_mapValues, Table.mapValues_mapValues]
    exact congrArg (Table.mapValues · decls)
      (funext fun name => funext fun _ => h.climb_map decls name [name] {})
  have hgather (decls : Table String Declared) (climbs : Table String Climb) :
      ((climbs.mapValues fun _ => Climb.respell f).mapValues
          fun _ c => gather (decls.mapValues (Renames.declared g)) c.visited) =
        climbs.mapValues fun _ c => gather decls c.visited := by
    rw [Table.mapValues_mapValues]
    exact congrArg (Table.mapValues · climbs)
      (funext fun _ => funext fun c => h.gather_map decls c.visited)
  have hissues (climbs : Table String Climb) :
      (climbs.mapValues fun _ => Climb.respell f).values.flatMap Climb.missing =
        (climbs.values.flatMap Climb.missing).map (MissingParent.respell f) := by
    rw [Table.values, Table.values, Table.mapValues, List.map_map, List.flatMap_map,
      List.flatMap_map, List.map_flatMap]
    rfl
  rw [build, build, h.declared_map]
  simp only [hclimbs, hgather, hissues]

end Renames

theorem renames_respell (hf : ∀ s, Text.fold (f s) = Text.fold s) (docs : Bool) :
    Renames f (ClassDecl.respell f docs) where
  fold := hf
  name _ := rfl
  kind _ := rfl
  parents _ := rfl
  interfaces _ := rfl

theorem renames_seedClass (useDocs : Bool) : Renames id fun d => (seedClass useDocs d).1 where
  fold _ := rfl
  name _ := rfl
  kind _ := rfl
  parents d := (List.map_id d.parents).symm
  interfaces d := (List.map_id d.interfaces).symm

end Hierarchy

/-! ### All lookup tables -/

namespace Lookup

/-- The lookup tables with the names of the missing parents spelled anew. -/
def respell (f : String → String) (l : Lookup) : Lookup :=
  { l with hierarchy :=
    { l.hierarchy with issues := l.hierarchy.issues.map (Hierarchy.MissingParent.respell f) } }

theorem respell_id (l : Lookup) : l.respell id = l := by
  show { l with hierarchy := { l.hierarchy with issues := l.hierarchy.issues.map id } } = l
  rw [List.map_id]

variable {s s' : Script}

theorem indexConstants_congr (hconstants : s'.constants = s.constants)
    (hnames : s'.classes.map (fun d => fold d.name) = s.classes.map fun d => fold d.name) :
    indexConstants s' = indexConstants s := by
  have hkey : constantKey s' = constantKey s := by
    funext c
    rw [constantKey, constantKey]
    split
    · rfl
    · next id _ =>
      -- the key is made from the folded name
      have hmap (r : Except Fault ClassDecl) : r.map (fun d => classConstantKey d.name c.name) =
          (r.map fun d => fold d.name).map fun n => n ++ "::" ++ c.name := by
        cases r <;> rfl
      rw [hmap, Script.classDecl_of_map id hnames, ← hmap]
  rw [indexConstants, indexConstants, hconstants, hkey]

theorem build_of_renames {g : ClassDecl → ClassDecl} (hg : Hierarchy.Renames f g)
    (hclasses : s'.classes = s.classes.map g) (hconstants : s'.constants = s.constants)
    (hfunctions : indexFunctions s' = indexFunctions s)
    (hcreations : opsWhere s' isCreation = opsWhere s isCreation)
    (hcalls : opsWhere s' isMethodCall = opsWhere s isMethodCall) (signatures : Signatures) :
    build s' signatures = (build s signatures).map (respell f) := by
  have hnames : s'.classes.map (fun d => fold d.name) = s.classes.map fun d => fold d.name := by
    rw [hclasses, Array.map_map]
    exact Array.map_congr_left fun d _ => by rw [Function.comp_apply, hg.name, hg.fold]
  rw [build, build, indexConstants_congr hconstants hnames, hfunctions, hcreations, hcalls,
    hclasses, Array.toList_map, hg.build_map]
  rcases indexConstants s with e | t <;> rfl

/-- **The tables of a script in a new spelling.** -/
theorem build_respell (hf : ∀ s, fold (f s) = fold s) (docs : Bool) (s : Script)
    (signatures : Signatures) :
    build (s.respell f docs) signatures = (build s signatures).map (respell f) := by
  have hops : (s.respell f docs).ops = s.ops.map (Op.respell f) := rfl
  have hclasses : (s.respell f docs).classes = s.classes.map (ClassDecl.respell f docs) := rfl
  refine build_of_renames (Hierarchy.renames_respell hf docs) hclasses rfl ?_ ?_ ?_ signatures
  · show List.foldl _ _ (s.functions.map (Function.respell f docs)).toList.zipIdx = _
    rw [Array.toList_map, List.zipIdx_map, List.foldl_map]
    simp only [Function.respell, Prod.map_fst, Prod.map_snd, hf, id]
    rfl
  · exact opsWhere_map hops fun op => by cases op <;> rfl
  · exact opsWhere_map hops fun op => by cases op <;> rfl

/-- The tables before the properties get their types are those after it. -/
theorem build_seedProperties {useDocs : Bool} (h : seedProperties useDocs s = (s', none))
    (signatures : Signatures) : build s' signatures = build s signatures := by
  obtain ⟨rfl, hnone⟩ := Prod.mk.inj h
  -- without a fault, every class is changed by itself
  have hclasses : (updateUntil (seedClass useDocs) s.classes.toList).1 =
      s.classes.toList.map fun d => (seedClass useDocs d).1 := by
    have hmap := congrArg (List.map Prod.fst) (map_of_updateUntil (Prod.ext rfl hnone))
    rw [List.map_map, List.map_map] at hmap
    exact (hmap.trans (List.map_id _)).symm
  have hmap : (seedProperties useDocs s).1.classes =
      s.classes.map fun d => (seedClass useDocs d).1 :=
    (congrArg List.toArray hclasses).trans List.map_toArray.symm
  have hbuild : build (seedProperties useDocs s).1 signatures =
      (build s signatures).map (respell id) :=
    build_of_renames (Hierarchy.renames_seedClass useDocs) hmap rfl rfl rfl rfl signatures
  refine hbuild.trans ?_
  rcases build s signatures with e | l
  · rfl
  · exact congrArg Except.ok (respell_id l)

end Lookup

end SsaTypes
