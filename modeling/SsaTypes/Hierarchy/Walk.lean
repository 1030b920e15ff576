/-
SsaTypes/Hierarchy/Walk.lean

Walking through names that refer to each other.  A walk takes a name from its
list of names to visit, skips it if it was visited before, and otherwise
visits it and adds the names it leads to.  It ends because only finitely many
names lead anywhere, and each of them does so once.

* `closure` puts new names first: what a name leads to comes before what
  stood behind it;
* `climb` puts them last: all parents of one generation come before their own
  parents.
-/
import SsaTypes.Script.Basic
import SsaTypes.Table
import SsaTypes.Text.Ascii

namespace SsaTypes.Hierarchy

open Text

/-- The keys of a table that a walk has not visited. -/
def unvisited {α : Type} (t : Table String α) (visited : List String) : List String :=
  t.keys.filter fun k => k ∉ visited

theorem unvisited_length_le {α : Type} (t : Table String α) (visited : List String)
    (n : String) : (unvisited t (visited ++ [n])).length ≤ (unvisited t visited).length := by
  have : unvisited t (visited ++ [n]) = (unvisited t visited).filter fun k => k ≠ n := by
    simp [unvisited, List.filter_filter, and_comm]
  rw [this]
  exact List.length_filter_le _ _

theorem unvisited_length_lt {α : Type} {t : Table String α} {visited : List String}
    {n : String} (hk : n ∈ t.keys) (hv : n ∉ visited) :
    (unvisited t (visited ++ [n])).length < (unvisited t visited).length := by
  have : unvisited t (visited ++ [n]) = (unvisited t visited).filter fun k => k ≠ n := by
    simp [unvisited, List.filter_filter, and_comm]
  rw [this]
  exact List.length_filter_lt_length_iff_exists.2
    ⟨n, by simp [unvisited, hk, hv], by simp⟩

theorem mem_keys_of_find? {α : Type} {t : Table String α} {k : String} {v : α}
    (h : t.find? k = some v) : k ∈ t.keys :=
  (t.contains_iff k).1 (by simp [Table.contains, h])

/-- The names visited when walking along the edges, in the order of the visits. -/
def closure (edges : Table String (List String)) (toVisit visited : List String) :
    List String :=
  match toVisit with
  | [] => visited
  | n :: rest =>
    if hv : n ∈ visited then closure edges rest visited
    else
      match he : edges.find? n with
      | none => closure edges rest (visited ++ [n])
      | some next =>
        have := unvisited_length_lt (mem_keys_of_find? he) hv
        closure edges (next ++ rest) (visited ++ [n])
termination_by ((unvisited edges visited).length, toVisit.length)
decreasing_by
  · exact .right _ (Nat.lt_succ_self _)
  · have := unvisited_length_le edges visited n
    rcases Nat.lt_or_eq_of_le this with h | h
    · exact .left _ _ h
    · rw [h]; exact .right _ (Nat.lt_succ_self _)
  · exact .left _ _ this

/-! ### Parents -/

/-- A class or interface that stands for its name, with its number. -/
structure Declared where
  id : ClassId
  decl : ClassDecl

/-- A parent that no declaration provides; both names as they were written. -/
structure MissingParent where
  child : String
  parent : String
deriving DecidableEq, Repr

/-- The message about a missing parent. -/
def MissingParent.message (m : MissingParent) : String :=
  "could not find parent class `" ++ m.parent ++ "` of `" ++ m.child ++ "`"

/-- The parents of a class.  What an interface extends are no parents. -/
def Declared.parents (d : Declared) : List String :=
  if d.decl.kind = .interface then [] else d.decl.parents

/-- What a climb has found. -/
structure Climb where
  /-- The names visited, in the order of the visits. -/
  visited : List String := []
  /-- The missing parents of the class from which the climb began. -/
  missing : List MissingParent := []

/-- The climb from a class to its parents, their parents, and so on.  A parent
that is not declared ends the climb on its branch; it is noted only for the
class `start`, as every other class notes its own. -/
def climb (decls : Table String Declared) (start : String) (toVisit : List String)
    (found : Climb) : Climb :=
  match toVisit with
  | [] => found
  | n :: rest =>
    if hv : n ∈ found.visited then climb decls start rest found
    else
      match hd : decls.find? n with
      | none => climb decls start rest { found with visited := found.visited ++ [n] }
      | some d =>
        have := unvisited_length_lt (mem_keys_of_find? hd) hv
        let missing := d.parents.filter fun p => !decls.contains (fold p)
        climb decls start (rest ++ (d.parents.map fold).filter decls.contains)
          { visited := found.visited ++ [n]
            missing := found.missing ++
              if n = start then missing.map fun p => ⟨d.decl.name, p⟩ else [] }
termination_by ((unvisited decls found.visited).length, toVisit.length)
decreasing_by
  · exact .right _ (Nat.lt_succ_self _)
  · have := unvisited_length_le decls found.visited n
    rcases Nat.lt_or_eq_of_le this with h | h
    · exact .left _ _ h
    · simp only [h]; exact .right _ (Nat.lt_succ_self _)
  · exact .left _ _ this

/-! ### Steps of a climb -/

section Climb

variable {decls : Table String Declared} {start n : String} {rest : List String} {found : Climb}

theorem climb_of_mem (hv : n ∈ found.visited) :
    climb decls start (n :: rest) found = climb decls start rest found := by
  rw [climb, dif_pos hv]

theorem climb_of_none (hv : n ∉ found.visited) (hd : decls.find? n = none) :
    climb decls start (n :: rest) found =
      climb decls start rest { found with visited := found.visited ++ [n] } := by
  rw [climb, dif_neg hv]
  split
  · rfl
  · next d hd' =>
    rw [hd] at hd'
    cases hd'

theorem climb_of_some (hv : n ∉ found.visited) {d : Declared} (hd : decls.find? n = some d) :
    climb decls start (n :: rest) found =
      climb decls start (rest ++ (d.parents.map fold).filter decls.contains)
        { visited := found.visited ++ [n]
          missing := found.missing ++ if n = start then
            (d.parents.filter fun p => !decls.contains (fold p)).map fun p => ⟨d.decl.name, p⟩
            else [] } := by
  rw [climb, dif_neg hv]
  split
  · next hd' =>
    rw [hd] at hd'
    cases hd'
  · next d' hd' =>
    obtain rfl := Option.some.inj (hd.symm.trans hd')
    rfl

end Climb

end SsaTypes.Hierarchy
