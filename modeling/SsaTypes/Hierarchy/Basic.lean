/-
SsaTypes/Hierarchy/Basic.lean

What every declared class and interface inherits from, and what inherits from
it.  Names count up to the case of ASCII letters and are kept in small
letters; of several declarations with one name the first counts, and traits
take no part.

The ancestors of a class stand in a fixed order: the class itself, its
interfaces in the order of their declaration, each followed by what it
extends, and then the same for its parent.
-/
import SsaTypes.Hierarchy.Walk

namespace SsaTypes

open Text

/-- Ancestors in order, each with the number of its declaration if there is one. -/
abbrev AncestorSet := Table String (Option ClassId)

/-- The inheritance between the classes and interfaces of a script. -/
structure Hierarchy where
  /-- The ancestors of every declared name. -/
  ancestors : Table String AncestorSet := .empty
  /-- The declared names that have a name among their ancestors. -/
  descendants : Table String (List String) := .empty
  /-- The parents that were not found. -/
  issues : List Hierarchy.MissingParent := []

namespace Hierarchy

/-- The declarations that stand for their names. -/
def declared (classes : List ClassDecl) : Table String Declared :=
  classes.zipIdx.foldl (fun t e =>
    if e.1.kind = .trait then t else t.insertNew (fold e.1.name) ⟨e.2, e.1⟩) .empty

/-- The interfaces that every declared interface extends. -/
def interfaceEdges (decls : Table String Declared) : Table String (List String) :=
  ⟨decls.entries.filterMap fun e =>
    if e.2.decl.kind = .interface then some (e.1, e.2.decl.parents.map fold) else none⟩

/-- The interfaces that a declaration names itself. -/
def Declared.interfaces (d : Declared) : List String :=
  (if d.decl.kind = .interface then d.decl.parents else d.decl.interfaces).map fold

/-- A declared name and the interfaces it has without its parents; nothing for
any other name. -/
def own (decls : Table String Declared) (name : String) : List String :=
  match decls.find? name with
  | some d => name :: d.interfaces.flatMap fun i => closure (interfaceEdges decls) [i] []
  | none => []

/-- The ancestors that a climb leads to, each in the place of its first mention. -/
def gather (decls : Table String Declared) (visited : List String) : AncestorSet :=
  (visited.flatMap (own decls)).foldl
    (fun set a => set.insertNew a ((decls.find? a).map Declared.id)) .empty

/-- The declared names by their ancestors. -/
def invert (ancestors : Table String AncestorSet) : Table String (List String) :=
  ancestors.entries.foldl
    (fun t e => e.2.keys.foldl (fun t a => t.push a e.1) t) .empty

/-- The hierarchy of the classes of a script. -/
def build (classes : List ClassDecl) : Hierarchy :=
  let decls := declared classes
  let climbs := decls.mapValues fun name _ => climb decls name [name] {}
  let ancestors := climbs.mapValues fun _ c => gather decls c.visited
  { ancestors
    descendants := invert ancestors
    issues := climbs.values.flatMap Climb.missing }

/-! ### Questions -/

/-- The ancestors of a declared name, itself included. -/
def resolves (h : Hierarchy) (name : String) : Option AncestorSet :=
  h.ancestors.find? (fold name)

/-- The declared names with this name among their ancestors. -/
def resolvedBy (h : Hierarchy) (name : String) : Option (List String) :=
  h.descendants.find? (fold name)

/-- Whether a class or interface of this name is declared. -/
def contains (h : Hierarchy) (name : String) : Bool :=
  h.ancestors.contains (fold name)

/-- Whether the second name is an ancestor of the first. -/
def isSubclassOf (h : Hierarchy) (child ancestor : String) : Bool :=
  match h.resolves child with
  | some set => set.contains (fold ancestor)
  | none => false

end Hierarchy

end SsaTypes
