/-
SsaTypes/Proofs/PlainScans.lean

The lookup tables against a plain scan of the script.  Every table is made by adding the
declarations one by one under their keys, so a lookup finds those with the key that was
asked for, in their order (`Table.find?_foldl_push_key`).  What is left is which
declarations have one key:

* functions have the key of a name if it is their name up to the case of letters;
* constants of the script and those of classes share one table.  Where no name has a
  colon, the first colon of a key divides it,

      fold c ++ "::" ++ n = fold c' ++ "::" ++ n'  ↔  fold c = fold c' ∧ n = n',

  and a key without a colon is that of a constant of the script.
-/
import Mathlib.Data.List.Basic
import SsaTypes.Lookup

namespace SsaTypes

open Text

/-! ### Scans -/

namespace Script

variable (s : Script)

/-- The functions with a name that are no methods, in the order of their declaration. -/
def functionsNamed (name : String) : List FunctionId :=
  (s.functions.toList.zipIdx.filter fun f =>
    f.1.owner.isNone && sameName f.1.name name).map Prod.snd

/-- The values of the constants with a name that belong to no class, in the order of
their declaration. -/
def constantsNamed (name : String) : List OperandId :=
  (s.constants.toList.filter fun c => c.owner.isNone && c.name == name).map Constant.value

/-- Whether a constant belongs to a class with a name. -/
def belongsTo (cls : String) (c : Constant) : Bool :=
  c.owner.any fun id => s.classes[id]?.any fun d => sameName d.name cls

/-- The values of the constants with a name that belong to classes with a name, in the
order of their declaration. -/
def classConstantsNamed (cls name : String) : List OperandId :=
  (s.constants.toList.filter fun c => s.belongsTo cls c && c.name == name).map Constant.value

/-- A class and a constant have names without a colon. -/
structure WithoutColons : Prop where
  classes : ∀ d ∈ s.classes, ':' ∉ d.name.toList
  constants : ∀ c ∈ s.constants, ':' ∉ c.name.toList

end Script

/-! ### Keys -/

/-- The first mark divides a list. -/
theorem append_cons_inj {α : Type} {mark : α} {xs xs' ys ys' : List α} (hx : mark ∉ xs)
    (hx' : mark ∉ xs') : xs ++ mark :: ys = xs' ++ mark :: ys' ↔ xs = xs' ∧ ys = ys' := by
  induction xs generalizing xs' with
  | nil =>
    rcases xs' with - | ⟨x', xs'⟩
    · simp
    · simp [List.ne_of_not_mem_cons hx']
  | cons x xs ih =>
    rcases xs' with - | ⟨x', xs'⟩
    · simp [(List.ne_of_not_mem_cons hx).symm]
    · rw [List.cons_append, List.cons_append, List.cons.injEq,
        ih (List.not_mem_of_not_mem_cons hx) (List.not_mem_of_not_mem_cons hx'), List.cons.injEq,
        and_assoc]

theorem toList_classConstantKey (cls name : String) :
    (classConstantKey cls name).toList = (fold cls).toList ++ ':' :: ':' :: name.toList := by
  rw [classConstantKey, String.toList_append, String.toList_append, List.append_assoc]
  rfl

theorem colon_mem_classConstantKey (cls name : String) :
    ':' ∈ (classConstantKey cls name).toList := by
  rw [toList_classConstantKey]
  exact List.mem_append_right _ List.mem_cons_self

/-- A key has one class and one name, where the class has no colon. -/
theorem classConstantKey_inj {cls cls' name name' : String} (hcls : ':' ∉ cls.toList)
    (hcls' : ':' ∉ cls'.toList) :
    classConstantKey cls name = classConstantKey cls' name' ↔
      sameName cls cls' = true ∧ name = name' := by
  -- small letters make no colon, so the first colon of a key ends the class
  have hcolon : Char.isAlpha ':' = false := by decide
  rw [← String.toList_inj, toList_classConstantKey, toList_classConstantKey,
    append_cons_inj (mt (mem_fold_iff hcolon).1 hcls) (mt (mem_fold_iff hcolon).1 hcls'),
    String.toList_inj, List.cons.injEq, String.toList_inj, sameName_iff]
  simp

namespace Lookup

section Keys

variable {s : Script} {c : Constant} {key : String}

theorem constantKey_eq_ok :
    constantKey s c = .ok key ↔ c.owner = none ∧ key = c.name ∨
      ∃ id d, c.owner = some id ∧ s.classes[id]? = some d ∧
        key = classConstantKey d.name c.name := by
  rw [constantKey]
  rcases c.owner with - | id
  · simp [eq_comm]
  · simp only [Script.classDecl]
    rcases hd : s.classes[id]? with - | d
    · simp [Except.map, hd]
    · simp [Except.map, hd, eq_comm]

/-- A constant has a key if its class is declared. -/
theorem exists_constantKey :
    (∃ key, constantKey s c = .ok key) ↔ ∀ id, c.owner = some id → id < s.classes.size := by
  simp only [constantKey_eq_ok]
  constructor
  · rintro ⟨key, ⟨hnone, -⟩ | ⟨id, d, hid, hd, -⟩⟩ id' hid'
    · rw [hnone] at hid'
      cases hid'
    · obtain rfl := Option.some.inj (hid.symm.trans hid')
      exact (Array.getElem?_eq_some_iff.mp hd).1
  · intro h
    rcases ho : c.owner with - | id
    · exact ⟨_, .inl ⟨rfl, rfl⟩⟩
    · exact ⟨_, .inr ⟨id, _, rfl, Array.getElem?_eq_getElem (h id ho), rfl⟩⟩

/-- The keys without a colon are those of the constants that belong to no class. -/
theorem key_eq_iff (hkey : constantKey s c = .ok key) {name : String} (hname : ':' ∉ name.toList) :
    key = name ↔ c.owner = none ∧ c.name = name := by
  obtain ⟨hnone, rfl⟩ | ⟨id, d, hid, -, rfl⟩ := constantKey_eq_ok.mp hkey
  · simp [hnone]
  · have hne : classConstantKey d.name c.name ≠ name :=
      fun h => hname (h ▸ colon_mem_classConstantKey d.name c.name)
    simp [hid, hne]

/-- The keys of a class are those of the constants that belong to it. -/
theorem key_eq_classConstantKey_iff (hs : s.WithoutColons) (hc : c ∈ s.constants)
    (hkey : constantKey s c = .ok key) {cls name : String} (hcls : ':' ∉ cls.toList) :
    key = classConstantKey cls name ↔ s.belongsTo cls c = true ∧ c.name = name := by
  obtain ⟨hnone, rfl⟩ | ⟨id, d, hid, hd, rfl⟩ := constantKey_eq_ok.mp hkey
  · have hne : c.name ≠ classConstantKey cls name :=
      fun h => hs.constants c hc (h ▸ colon_mem_classConstantKey cls name)
    simp [Script.belongsTo, hnone, hne]
  · have hmem : d ∈ s.classes := Array.mem_of_getElem? hd
    rw [classConstantKey_inj (hs.classes d hmem) hcls]
    simp [Script.belongsTo, hid, hd]

end Keys

/-! ### Tables -/

section Tables

variable {s : Script}

theorem find?_indexFunctions (name : String) :
    (indexFunctions s).find? (fold name) = Table.unlessEmpty (s.functionsNamed name) := by
  have hfilter (fs : List (Function × FunctionId)) :
      (fs.filter fun f => f.1.owner.isNone).filter (fun f => fold f.1.name = fold name) =
        fs.filter fun f => f.1.owner.isNone && sameName f.1.name name := by
    rw [List.filter_filter]
    refine List.filter_congr fun f _ => ?_
    rw [sameName, Bool.and_comm]
    rfl
  rw [indexFunctions, ← List.foldl_filter, Table.find?_foldl_push_key, hfilter]
  rfl

/-- The key of a constant; empty for one that has none. -/
def keyOf (s : Script) (c : Constant) : String :=
  (constantKey s c).toOption.getD ""

theorem keyOf_eq {c : Constant} {key : String} (h : constantKey s c = .ok key) :
    keyOf s c = key := by
  rw [keyOf, h]
  rfl

/-- Constants are entered one after the other, up to one that has no key. -/
theorem foldlM_push_eq_ok {cs : List Constant} {t t' : Table String (List OperandId)} :
    cs.foldlM (fun t c => (constantKey s c).map fun key => t.push key c.value) t = .ok t' ↔
      (∀ c ∈ cs, ∃ key, constantKey s c = .ok key) ∧
      t' = cs.foldl (fun t c => t.push (keyOf s c) c.value) t := by
  induction cs generalizing t with
  | nil => simp [pure, Except.pure, eq_comm]
  | cons c cs ih =>
    rw [List.foldlM_cons, List.foldl_cons, List.forall_mem_cons]
    rcases hkey : constantKey s c with e | key
    · -- a constant without a key stops the fold
      simp [Except.map, bind, Except.bind]
    · rw [keyOf_eq hkey]
      show cs.foldlM _ (t.push key c.value) = Except.ok t' ↔ _
      rw [ih]
      simp

/-- There are tables for a script if every constant of a class has its class declared. -/
theorem exists_build_iff {signatures : Signatures} :
    (∃ l, build s signatures = .ok l) ↔
      ∀ c ∈ s.constants, ∀ id, c.owner = some id → id < s.classes.size := by
  simp only [build, map_eq_ok, indexConstants, foldlM_push_eq_ok, Array.mem_toList_iff,
    exists_constantKey]
  simp

variable {signatures : Signatures} {l : Lookup} (hl : build s signatures = .ok l)
include hl

theorem functions_eq (name : String) :
    l.functions name = Table.unlessEmpty (s.functionsNamed name) := by
  obtain ⟨t, -, rfl⟩ := map_eq_ok.mp hl
  exact find?_indexFunctions name

/-- Every constant has a key, and a lookup finds the constants with the key asked for. -/
theorem constant_eq (key : String) :
    (∀ c ∈ s.constants, constantKey s c = .ok (keyOf s c)) ∧
    l.constant key = Table.unlessEmpty
      ((s.constants.toList.filter fun c => keyOf s c = key).map Constant.value) := by
  obtain ⟨t, ht, rfl⟩ := map_eq_ok.mp hl
  obtain ⟨hkeys, rfl⟩ := foldlM_push_eq_ok.mp ht
  refine ⟨fun c hc => ?_, ?_⟩
  · obtain ⟨key, hkey⟩ := hkeys c (Array.mem_toList_iff.mpr hc)
    rw [hkey, keyOf_eq hkey]
  · exact Table.find?_foldl_push_key (keyOf s) Constant.value s.constants.toList .empty key

end Tables

end Lookup

/-- **The tables answer as a scan of the script would.**  There are tables if every
constant of a class has its class declared.  Then functions are found by name up to the
case of letters; and where no class and no constant has a colon in its name, the
constants of the script are found by their names, those of a class by its name up to the
case of letters and their own, and no constant is kept under a key of the other kind.
What is found is in the order of declaration, and nothing is found where there is
nothing. -/
theorem Lookup.build_scan (s : Script) (signatures : Signatures) :
    ((∃ l, build s signatures = .ok l) ↔
      ∀ c ∈ s.constants, ∀ id, c.owner = some id → id < s.classes.size) ∧
    ∀ l, build s signatures = .ok l →
      (∀ name, l.functions name = Table.unlessEmpty (s.functionsNamed name)) ∧
      (s.WithoutColons →
        (∀ name, ':' ∉ name.toList →
          l.constant name = Table.unlessEmpty (s.constantsNamed name)) ∧
        (∀ cls name, ':' ∉ cls.toList →
          l.constant (classConstantKey cls name) =
            Table.unlessEmpty (s.classConstantsNamed cls name)) ∧
        ∀ c ∈ s.constants, ∀ key, constantKey s c = .ok key →
          (c.owner = none → ∀ cls name, key ≠ classConstantKey cls name) ∧
          (c.owner.isSome = true → ':' ∈ key.toList)) := by
  refine ⟨exists_build_iff, fun l hl => ⟨functions_eq hl, fun hs => ⟨?_, ?_, ?_⟩⟩⟩
  · intro name hname
    obtain ⟨hkeys, hvalues⟩ := constant_eq hl name
    rw [hvalues, Script.constantsNamed]
    congr 2
    refine List.filter_congr fun c hc => ?_
    have hkey := hkeys c (Array.mem_toList_iff.mp hc)
    rw [Bool.eq_iff_iff, decide_eq_true_iff, key_eq_iff hkey hname]
    simp
  · intro cls name hcls
    obtain ⟨hkeys, hvalues⟩ := constant_eq hl (classConstantKey cls name)
    rw [hvalues, Script.classConstantsNamed]
    congr 2
    refine List.filter_congr fun c hc => ?_
    have hc := Array.mem_toList_iff.mp hc
    rw [Bool.eq_iff_iff, decide_eq_true_iff, key_eq_classConstantKey_iff hs hc (hkeys c hc) hcls]
    simp
  · intro c hc key hkey
    obtain ⟨hnone, rfl⟩ | ⟨id, d, hid, -, rfl⟩ := constantKey_eq_ok.mp hkey
    · refine ⟨fun _ cls name h => ?_, fun hsome => ?_⟩
      · exact hs.constants c hc (h ▸ colon_mem_classConstantKey cls name)
      · rw [hnone] at hsome
        cases hsome
    · refine ⟨fun hnone => ?_, fun _ => colon_mem_classConstantKey d.name c.name⟩
      rw [hid] at hnone
      cases hnone

/-- Functions and constants that share their names: two functions and a method, and two
constants of the script, one of a class and one of a second class of the same name. -/
def sharedNames : Script where
  operands := #[{ kind := .literal (.int 1) }, { kind := .literal (.int 2) },
    { kind := .literal (.int 3) }, { kind := .literal (.int 4) }]
  classes := #[{ name := "Config", methods := [1] }, { name := "CONFIG", kind := .interface }]
  functions := #[{ name := "Limit" }, { name := "limit", owner := some 0 }, { name := "LIMIT" }]
  constants := #[
    { name := "LIMIT", value := 3 },
    { name := "LIMIT", owner := some 0, value := 1 },
    { name := "LIMIT", value := 0 },
    { name := "LIMIT", owner := some 1, value := 2 }]

/-- In `sharedNames` each lookup finds its own kind, and all of that kind in their order. -/
theorem Lookup.build_scan_sharedNames :
    ∃ l, build sharedNames {} = .ok l ∧
      l.functions "limit" = some [0, 2] ∧
      l.constant "LIMIT" = some [3, 0] ∧ l.constant "limit" = none ∧
      l.constant (classConstantKey "config" "LIMIT") = some [1, 2] ∧
      l.constant (classConstantKey "other" "LIMIT") = none := by
  obtain ⟨hexists, hscan⟩ := build_scan sharedNames {}
  have howners : ∀ c ∈ sharedNames.constants, ∀ id ∈ c.owner, id < sharedNames.classes.size := by
    decide
  obtain ⟨l, hl⟩ := hexists.mpr howners
  have hcolons : sharedNames.WithoutColons := ⟨by decide, by decide⟩
  obtain ⟨hfunctions, hconstants⟩ := hscan l hl
  obtain ⟨hglobal, hclass, -⟩ := hconstants hcolons
  refine ⟨l, hl, hfunctions "limit", ?_, ?_, ?_, ?_⟩
  · exact hglobal "LIMIT" (by decide)
  · exact hglobal "limit" (by decide)
  · exact hclass "config" "LIMIT" (by decide)
  · exact hclass "other" "LIMIT" (by decide)

end SsaTypes
