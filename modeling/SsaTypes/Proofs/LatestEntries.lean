/-
SsaTypes/Proofs/LatestEntries.lean

Lookups of signatures against all that was ever written.  `Records` keeps every entry,
with its names as they were written and in the order of writing: those of a JSON value
first, then those registered.  A table with names in small letters is made from them,
and each lookup in it is a search of the records from the end,

    r.table.functionReturn n = r.functionReturn n,    the latest entry named n,

while registering goes on in the same way on both sides,

    r.table.register g = (r.register g).table.

What a JSON value says in one map is settled before names are brought to small letters: a name
that is spelled twice alike stays in the place of its first entry and gets the value of
its last (`settle`).  Entries with other spellings of the name may stand between the two,
and these then count as later (`repeatedSpelling_hidden`).
-/
import Mathlib.Data.List.Basic
import Mathlib.Data.List.Induction
import SsaTypes.Signatures.Form

namespace SsaTypes

open Text Json

variable {α β : Type}

/-! ### Entries -/

/-- The value of the latest entry whose name passes a test. -/
def latest (test : String → Bool) (es : List (String × α)) : Option α :=
  (es.filter fun e => test e.1).getLast?.map Prod.snd

/-- The entries with each spelling once: in the place of its first entry, with the value
of its latest. -/
def settle (es : List (String × α)) : List (String × α) :=
  (es.map Prod.fst).eraseDups.filterMap fun name =>
    (latest (fun n => n = name) es).map fun v => (name, v)

theorem latest_append_singleton (test : String → Bool) (es : List (String × α)) (e : String × α) :
    latest test (es ++ [e]) = if test e.1 = true then some e.2 else latest test es := by
  rw [latest, List.filter_append, List.filter_cons, List.filter_nil]
  split
  · rw [List.getLast?_append]
    rfl
  · rw [List.append_nil, latest]

theorem latest_map (test : String → Bool) (f : String → String) (g : α → β)
    (es : List (String × α)) :
    latest test (es.map fun e => (f e.1, g e.2)) = (latest (fun n => test (f n)) es).map g := by
  rw [latest, latest, List.filter_map, List.getLast?_map, Option.map_map, Option.map_map]
  rfl

namespace Table

variable {κ : Type} [DecidableEq κ]

theorem ofList_append_singleton (es : List (κ × α)) (e : κ × α) :
    ofList (es ++ [e]) = (ofList es).insert e.1 e.2 := by
  rw [ofList, List.foldl_append]
  rfl

theorem find?_ofList (es : List (String × α)) (k : String) :
    (ofList es).find? k = latest (fun n => n = k) es := by
  induction es using List.reverseRecOn with
  | nil => rfl
  | append_singleton es e ih =>
    rw [ofList_append_singleton, find?_insert, latest_append_singleton, ih]
    by_cases hk : e.1 = k
    · rw [if_pos hk.symm, if_pos (decide_eq_true hk)]
    · rw [if_neg (Ne.symm hk), if_neg (by simpa using hk)]

/-- The latest of the entries with a name up to the case of letters. -/
theorem find?_ofList_fold (g : α → β) (es : List (String × α)) (name : String) :
    (ofList (es.map fun e => (fold e.1, g e.2))).find? (fold name) =
      (latest (fun n => sameName n name) es).map g := by
  rw [find?_ofList, latest_map]
  simp only [sameName]
  rfl

theorem keys_ofList (es : List (κ × α)) : (ofList es).keys = (es.map Prod.fst).eraseDups := by
  induction es using List.reverseRecOn with
  | nil => rfl
  | append_singleton es e ih =>
    rw [ofList_append_singleton, insert, keys_alter, List.map_append, List.map_singleton,
      eraseDups_append_singleton, ih]
    simp only [List.mem_eraseDups]

theorem nodup_keys_ofList (es : List (κ × α)) : (ofList es).keys.Nodup :=
  List.foldlRecOn (motive := fun t : Table κ α => t.keys.Nodup) _ _ List.nodup_nil
    fun _ ht _ _ => nodup_keys_alter ht _ _

/-- Where no key is repeated, the entries are the keys with what a lookup finds. -/
theorem entries_eq {t : Table κ α} (h : t.keys.Nodup) :
    t.entries = t.keys.filterMap fun k => (t.find? k).map fun v => (k, v) := by
  rw [keys, List.filterMap_map]
  refine (List.filterMap_some.symm).trans (List.filterMap_congr fun e he => ?_)
  rw [Function.comp_apply, (find?_eq_some_iff h).2 he]
  rfl

/-- A table lists its entries settled. -/
theorem entries_ofList (es : List (String × α)) : (ofList es).entries = settle es := by
  rw [entries_eq (nodup_keys_ofList es), keys_ofList, settle]
  simp only [find?_ofList]

/-- Entries in which no key is repeated are those of a table. -/
theorem entries_ofList_of_nodup {es : List (κ × α)} (h : (es.map Prod.fst).Nodup) :
    (ofList es).entries = es := by
  induction es using List.reverseRecOn with
  | nil => rfl
  | append_singleton es e ih =>
    rw [List.map_append, List.map_singleton, List.nodup_append] at h
    obtain ⟨hes, -, hne⟩ := h
    -- the key of the last entry is new, so it enters at the end
    have hnone : (ofList es).find? e.1 = none := by
      rw [find?_eq_none_iff, keys_ofList, List.mem_eraseDups]
      exact fun hmem => hne e.1 hmem e.1 List.mem_cons_self rfl
    rw [ofList_append_singleton, insert, entries_alter_of_find? _ hnone, ih hes]

theorem mapValues_ofList (g : α → β) (es : List (κ × α)) :
    (ofList es).mapValues (fun _ => g) = ofList (es.map fun e => (e.1, g e.2)) := by
  induction es using List.reverseRecOn with
  | nil => rfl
  | append_singleton es e ih =>
    rw [ofList_append_singleton, mapValues_insert, ih, List.map_append, List.map_singleton,
      ofList_append_singleton]

/-- Bringing the names of a table to small letters, from its entries settled. -/
theorem foldKeys_ofList (es : List (String × α)) :
    (ofList es).foldKeys = ofList ((settle es).map fun e => (fold e.1, e.2)) := by
  rw [foldKeys, entries_ofList]

end Table

/-- Entries in which no spelling is repeated are settled. -/
theorem settle_of_nodup {es : List (String × α)} (h : (es.map Prod.fst).Nodup) :
    settle es = es := by
  rw [← Table.entries_ofList, Table.entries_ofList_of_nodup h]

/-- Values may be replaced before settling or after it. -/
theorem settle_map (g : α → β) (es : List (String × α)) :
    settle (es.map fun e => (e.1, g e.2)) = (settle es).map fun e => (e.1, g e.2) := by
  rw [← Table.entries_ofList, ← Table.mapValues_ofList, ← Table.entries_ofList]
  rfl

/-! ### Records -/

/-- What was written of a class: the names from which it has methods, and the entries for
its own, names as written. -/
structure ClassRecord where
  parents : List String := []
  methods : List (String × Signature) := []

/-- All entries that were written, oldest first, names as written. -/
structure Records where
  functions : List (String × Signature) := []
  constants : List (String × String) := []
  classes : List (String × ClassRecord) := []

namespace ClassRecord

/-- The entries for methods with each spelling once. -/
def settled (c : ClassRecord) : ClassRecord :=
  { c with methods := settle c.methods }

/-- The signature of the class, names in small letters. -/
def table (c : ClassRecord) : ClassSignature :=
  ⟨c.parents.map fold, .ofList (c.methods.map fun e => (fold e.1, e.2))⟩

end ClassRecord

namespace Records

/-- The entries with each spelling once. -/
def settled (r : Records) : Records :=
  { r with
    functions := settle r.functions
    classes := settle (r.classes.map fun e => (e.1, e.2.settled)) }

/-- No function, no class and no method of a class has two entries spelled alike. -/
structure Distinct (r : Records) : Prop where
  functions : (r.functions.map Prod.fst).Nodup
  classes : (r.classes.map Prod.fst).Nodup
  methods : ∀ e ∈ r.classes, (e.2.methods.map Prod.fst).Nodup

/-- The table of signatures, names in small letters. -/
def table (r : Records) : Signatures where
  functions := .ofList (r.functions.map fun e => (fold e.1, e.2))
  constants := .ofList r.constants
  classes := .ofList (r.classes.map fun e => (fold e.1, e.2.table))

/-- What a function returns by its latest entry, up to the case of letters. -/
def functionReturn (r : Records) (name : String) : Option String :=
  (latest (fun n => sameName n name) r.functions).bind Signature.returned?

/-- The type of a constant by its latest entry, as it is spelled. -/
def constant (r : Records) (name : String) : Option String :=
  latest (fun n => n = name) r.constants

/-- What a method returns by the latest entry for a class, and then by the latest entry
for each name from which that class has methods, up to the case of letters. -/
def methodReturns (r : Records) (cls method : String) : List String :=
  match latest (fun n => sameName n cls) r.classes with
  | none => []
  | some c =>
    (cls :: c.parents).filterMap fun name =>
      (latest (fun n => sameName n name) r.classes).bind fun c =>
        (latest (fun n => sameName n method) c.methods).bind Signature.returned?

theorem Distinct.settled_eq {r : Records} (h : r.Distinct) : r.settled = r := by
  have hclasses : (r.classes.map fun e => (e.1, e.2.settled)) = r.classes := by
    refine (List.map_congr_left fun e he => ?_).trans (List.map_id r.classes)
    rw [ClassRecord.settled, settle_of_nodup (h.methods e he)]
    rfl
  rw [settled, hclasses, settle_of_nodup h.functions, settle_of_nodup h.classes]

/-! ### Lookups -/

section Lookups

variable (r : Records)

theorem functionReturn_table (name : String) :
    r.table.functionReturn name = r.functionReturn name := by
  rw [Signatures.functionReturn, functionReturn, table]
  show (Table.find? (.ofList (r.functions.map fun e => (fold e.1, id e.2))) _).bind _ = _
  rw [Table.find?_ofList_fold, Option.map_id]
  rfl

theorem constant_table (name : String) : r.table.constant name = r.constant name :=
  Table.find?_ofList r.constants name

theorem methods_find?_table (c : ClassRecord) (method : String) :
    c.table.methods.find? (fold method) = latest (fun n => sameName n method) c.methods :=
  (Table.find?_ofList_fold id c.methods method).trans (congrFun Option.map_id _)

theorem classes_find?_table (cls : String) :
    r.table.classes.find? (fold cls) =
      (latest (fun n => sameName n cls) r.classes).map ClassRecord.table :=
  Table.find?_ofList_fold ClassRecord.table r.classes cls

theorem methodReturns_table (cls method : String) :
    r.table.methodReturns cls method = r.methodReturns cls method := by
  rw [Signatures.methodReturns, methodReturns, classes_find?_table]
  rcases latest (fun n => sameName n cls) r.classes with - | c
  · rfl
  · -- the table has the same names to search, in small letters
    show (List.map fold (cls :: c.parents)).filterMap _ = (cls :: c.parents).filterMap _
    rw [List.filterMap_map]
    refine List.filterMap_congr fun name _ => ?_
    rw [Function.comp_apply, classes_find?_table]
    rcases latest (fun n => sameName n name) r.classes with - | c
    · rfl
    · exact congrArg (Option.bind · _) (methods_find?_table c method)

end Lookups

end Records

/-! ### Reading a JSON value -/

/-- The members of an object, their values read. -/
def Json.entries? (read : Json → Option α) (j : Json) : Option (List (String × α)) :=
  j.object?.bind fun fields => fields.mapM fun f => (read f.2).map fun a => (f.1, a)

/-- What a JSON value says of a class. -/
def ClassRecord.ofJson? (j : Json) : Option ClassRecord :=
  match slots ["extends", "methods"] j with
  | some [parents, methods] => do
    some ⟨← field? [] (list? string?) parents, ← field? [] (entries? Signature.ofJson?) methods⟩
  | _ => none

/-- What a JSON value says of functions, constants and classes. -/
def Records.ofJson? (j : Json) : Option Records :=
  match slots ["functions", "constants", "classes"] j with
  | some [functions, constants, classes] => do
    some
      ⟨← field? [] (entries? Signature.ofJson?) functions,
       ← field? [] (entries? string?) constants,
       ← field? [] (entries? ClassRecord.ofJson?) classes⟩
  | _ => none

theorem table?_eq (read : Json → Option α) (j : Json) :
    table? read j = (entries? read j).map Table.ofList := by
  rw [table?, entries?, Option.map_bind]
  rfl

theorem entries?_map (g : α → β) (read : Json → Option α) (j : Json) :
    entries? (fun j => (read j).map g) j =
      (entries? read j).map (List.map fun e => (e.1, g e.2)) := by
  have hmapM (fields : List (String × Json)) :
      (fields.mapM fun f => ((read f.2).map g).map fun b => (f.1, b)) =
        (fields.mapM fun f => (read f.2).map fun a => (f.1, a)).map
          (List.map fun e => (e.1, g e.2)) := by
    induction fields with
    | nil => rfl
    | cons f fields ih =>
      rw [List.mapM_cons, List.mapM_cons, ih]
      generalize List.mapM (m := Option) _ fields = rest
      rcases read f.2 with - | a <;> rcases rest with - | es <;> rfl
  rw [entries?, entries?, Option.map_bind]
  simp only [hmapM]
  rfl

/-- A map from names is the table of its members. -/
theorem field?_table? (read : Json → Option α) (slot : Option Json) :
    field? .empty (table? read) slot = (field? [] (entries? read) slot).map Table.ofList := by
  rcases slot with - | j
  · rfl
  · exact table?_eq read j

theorem field?_entries?_map (g : α → β) (read : Json → Option α) (slot : Option Json) :
    field? [] (entries? fun j => (read j).map g) slot =
      (field? [] (entries? read) slot).map (List.map fun e => (e.1, g e.2)) := by
  rcases slot with - | j
  · rfl
  · exact entries?_map g read j

/-- The class signature with its names as written. -/
def ClassRecord.unfolded (c : ClassRecord) : ClassSignature :=
  ⟨c.parents, .ofList c.methods⟩

theorem ClassRecord.foldNames_unfolded (c : ClassRecord) :
    c.unfolded.foldNames = c.settled.table := by
  rw [ClassSignature.foldNames, unfolded, Table.foldKeys_ofList]
  rfl

theorem ClassSignature.ofJson?_eq (j : Json) :
    ClassSignature.ofJson? j = (ClassRecord.ofJson? j).map ClassRecord.unfolded := by
  rw [ClassSignature.ofJson?, ClassRecord.ofJson?]
  rcases slots ["extends", "methods"] j with - | _ | ⟨parents, _ | ⟨methods, _ | ⟨_, _⟩⟩⟩
  · rfl
  · rfl
  · rfl
  · simp only [field?_table?]
    rcases field? [] (list? string?) parents with - | ps
    · rfl
    · rcases field? [] (entries? Signature.ofJson?) methods with - | ms <;> rfl
  · rfl

/-- The table with its names in small letters, from the entries settled. -/
theorem Records.foldNames_unfolded (r : Records) :
    Signatures.foldNames ⟨.ofList r.functions, .ofList r.constants,
      .ofList (r.classes.map fun e => (e.1, e.2.unfolded))⟩ = r.settled.table := by
  have hentries : (r.classes.map fun e => (e.1, e.2.unfolded)).map (fun e => (e.1, e.2.foldNames)) =
      (r.classes.map fun e => (e.1, e.2.settled)).map fun e => (e.1, e.2.table) := by
    rw [List.map_map, List.map_map]
    exact List.map_congr_left fun e _ => congrArg (Prod.mk e.1) e.2.foldNames_unfolded
  rw [Signatures.foldNames, Table.mapValues_ofList ClassSignature.foldNames, hentries,
    Table.foldKeys_ofList, Table.foldKeys_ofList, settle_map, List.map_map]
  rfl

/-- A table comes from what is said of it, settled. -/
theorem Signatures.ofJson?_eq (j : Json) :
    Signatures.ofJson? j = (Records.ofJson? j).map fun r => r.settled.table := by
  have hclasses (slot : Option Json) : field? [] (entries? ClassSignature.ofJson?) slot =
      (field? [] (entries? ClassRecord.ofJson?) slot).map
        (List.map fun e => (e.1, e.2.unfolded)) := by
    rw [← field?_entries?_map, ← funext ClassSignature.ofJson?_eq]
  rw [Signatures.ofJson?, Records.ofJson?]
  rcases slots ["functions", "constants", "classes"] j with
    - | _ | ⟨functions, _ | ⟨constants, _ | ⟨classes, _ | ⟨_, _⟩⟩⟩⟩
  · rfl
  · rfl
  · rfl
  · rfl
  · -- what cannot be read is missing from both
    simp only [field?_table?, hclasses]
    rcases field? [] (entries? Signature.ofJson?) functions with - | fs
    · rfl
    · rcases field? [] (entries? string?) constants with - | cs
      · rfl
      · rcases field? [] (entries? ClassRecord.ofJson?) classes with - | ks
        · rfl
        · exact congrArg some (Records.foldNames_unfolded ⟨fs, cs, ks⟩)
  · rfl

/-! ### Registering -/

/-- A step in describing a class. -/
inductive ClassSignature.Step
  | extending (parent : String)
  | method (name returns : String)

/-- What is registered. -/
inductive Signatures.Registration
  | function (name : String) (s : Signature)
  | constant (name type : String)
  | cls (name : String) (steps : List ClassSignature.Step)

def ClassSignature.step (c : ClassSignature) : ClassSignature.Step → ClassSignature
  | .extending parent => c.extending parent
  | .method name returns => c.method name returns

def ClassRecord.step (c : ClassRecord) : ClassSignature.Step → ClassRecord
  | .extending parent => { c with parents := c.parents ++ [parent] }
  | .method name returns => { c with methods := c.methods ++ [(name, ⟨some returns⟩)] }

/-- The table with one more entry. -/
def Signatures.register (t : Signatures) : Signatures.Registration → Signatures
  | .function name s => t.addFunction name s
  | .constant name type => t.addConstant name type
  | .cls name steps => t.addClass name (steps.foldl ClassSignature.step {})

/-- The records with one more entry. -/
def Records.register (r : Records) : Signatures.Registration → Records
  | .function name s => { r with functions := r.functions ++ [(name, s)] }
  | .constant name type => { r with constants := r.constants ++ [(name, type)] }
  | .cls name steps => { r with classes := r.classes ++ [(name, steps.foldl ClassRecord.step {})] }

theorem ClassRecord.table_step (c : ClassRecord) (st : ClassSignature.Step) :
    c.table.step st = (c.step st).table := by
  cases st with
  | extending parent =>
    rw [step, table, table, List.map_append]
    rfl
  | method name returns =>
    rw [step, table, table, List.map_append, List.map_singleton, Table.ofList_append_singleton]
    rfl

theorem ClassRecord.table_steps (steps : List ClassSignature.Step) :
    steps.foldl ClassSignature.step {} = (steps.foldl ClassRecord.step {}).table := by
  have hstart : (table {}) = {} := rfl
  rw [← hstart]
  exact List.foldl_hom table table_step

/-- **One more entry** is one more in the table and in the records. -/
theorem Records.table_register (r : Records) (g : Signatures.Registration) :
    r.table.register g = (r.register g).table := by
  cases g with
  | function name s =>
    rw [register, table, table, List.map_append, List.map_singleton, Table.ofList_append_singleton]
    rfl
  | constant name type =>
    rw [register, table, table, Table.ofList_append_singleton]
    rfl
  | cls name steps =>
    rw [register, table, table, List.map_append, List.map_singleton,
      Table.ofList_append_singleton, ← ClassRecord.table_steps]
    rfl

theorem Records.table_registers (r : Records) (later : List Signatures.Registration) :
    later.foldl Signatures.register r.table = (later.foldl Records.register r).table :=
  List.foldl_hom table table_register

/-! ### Where a table comes from -/

/-- Where a table comes from: it is empty at first, or read from a JSON value. -/
inductive Signatures.Source
  | empty
  | json (j : Json)

/-- The table from a source; `none` if the value describes none. -/
def Signatures.Source.table? : Signatures.Source → Option Signatures
  | .empty => some .empty
  | .json j => Signatures.ofJson? j

/-- What is said in a source, in the order in which it is said. -/
def Signatures.Source.records? : Signatures.Source → Option Records
  | .empty => some {}
  | .json j => Records.ofJson? j

theorem Signatures.Source.table?_eq (source : Signatures.Source) :
    source.table? = source.records?.map fun r => r.settled.table := by
  cases source with
  | empty => rfl
  | json j => exact Signatures.ofJson?_eq j

/-- **The latest entry counts.**  A table and the records of what was written come from
the same sources.  After any number of registrations, a lookup of a function or of a
method answers by the latest entries with these names up to the case of letters, and one
of a constant by the latest entry with its name as it is spelled.  Of the entries of a
source, those of one map that are spelled alike count once, in the place of the first and
with the value of the last; where there are none of that kind, all count as they stand. -/
theorem Signatures.Source.lookups_latest (source : Signatures.Source)
    (later : List Signatures.Registration) :
    source.table?.isSome = source.records?.isSome ∧
    ∀ t r, source.table? = some t → source.records? = some r →
      (∀ name, (later.foldl Signatures.register t).functionReturn name =
        (later.foldl Records.register r.settled).functionReturn name) ∧
      (∀ name, (later.foldl Signatures.register t).constant name =
        (later.foldl Records.register r.settled).constant name) ∧
      (∀ cls method, (later.foldl Signatures.register t).methodReturns cls method =
        (later.foldl Records.register r.settled).methodReturns cls method) ∧
      (r.Distinct → r.settled = r) := by
  refine ⟨by rw [source.table?_eq, Option.isSome_map], fun t r ht hr => ?_⟩
  rw [source.table?_eq, hr] at ht
  obtain rfl := Option.some.inj ht
  rw [Records.table_registers]
  exact ⟨Records.functionReturn_table _, Records.constant_table _, Records.methodReturns_table _,
    Records.Distinct.settled_eq⟩

/-- The JSON form of a signature with a type. -/
def returning (type : String) : Json :=
  .object [("return", .string type)]

/-- Two spellings of a function, and a class that has methods from another one in a third
spelling. -/
def respelled : Json :=
  .object [
    ("functions", .object [("Size", returning "int"), ("size", returning "string")]),
    ("constants", .object [("LIMIT", .string "int"), ("Limit", .string "float")]),
    ("classes", .object [
      ("Base", .object [("methods", .object [("Name", returning "string")])]),
      ("Child", .object [("extends", .array [.string "BASE"])])])]

/-- What is registered after `respelled` was read. -/
def respelledLater : List Signatures.Registration :=
  [.function "SIZE" ⟨some "float"⟩, .constant "limit" "bool",
    .cls "CHILD" [.method "name" "int", .method "NAME" "bool", .extending "base"]]

/-- The latest entries are those registered, and for the parent of the class and the
constant those of the value read. -/
theorem Signatures.Source.lookups_latest_respelled :
    ∃ t, (Signatures.Source.json respelled).table? = some t ∧
      t.functionReturn "SIZE" = some "string" ∧
      (respelledLater.foldl Signatures.register t).functionReturn "size" = some "float" ∧
      (respelledLater.foldl Signatures.register t).constant "LIMIT" = some "int" ∧
      (respelledLater.foldl Signatures.register t).methodReturns "child" "Name" =
        ["bool", "string"] := by
  obtain ⟨hsome, hbefore⟩ := Signatures.Source.lookups_latest (.json respelled) []
  obtain ⟨-, hafter⟩ := Signatures.Source.lookups_latest (.json respelled) respelledLater
  have hvalues : ((Signatures.Source.json respelled).records?.map fun r =>
      (r.settled.functionReturn "SIZE",
        (respelledLater.foldl Records.register r.settled).functionReturn "size",
        (respelledLater.foldl Records.register r.settled).constant "LIMIT",
        (respelledLater.foldl Records.register r.settled).methodReturns "child" "Name")) =
      some (some "string", some "float", some "int", ["bool", "string"]) := by
    decide +kernel
  obtain ⟨r, hr, hvalues⟩ := Option.map_eq_some_iff.mp hvalues
  rw [hr] at hsome
  obtain ⟨t, ht⟩ := Option.isSome_iff_exists.mp hsome
  obtain ⟨hfunction, -⟩ := hbefore t r ht hr
  obtain ⟨hfunction', hconstant, hmethod, -⟩ := hafter t r ht hr
  simp only [Prod.mk.injEq] at hvalues
  obtain ⟨h₁, h₂, h₃, h₄⟩ := hvalues
  exact ⟨t, ht, (hfunction _).trans h₁, (hfunction' _).trans h₂, (hconstant _).trans h₃,
    (hmethod _ _).trans h₄⟩

/-- Three entries for a function, of which the third is spelled as the first. -/
def repeatedSpelling : Json :=
  .object [("functions", .object
    [("Size", returning "int"), ("size", returning "string"), ("Size", returning "float")])]

/-- The third entry of `repeatedSpelling` takes the place of the first, and the second is
found instead of it. -/
theorem Signatures.Source.repeatedSpelling_hidden :
    ∃ t r, (Signatures.Source.json repeatedSpelling).table? = some t ∧
      (Signatures.Source.json repeatedSpelling).records? = some r ∧
      r.functionReturn "size" = some "float" ∧ t.functionReturn "size" = some "string" := by
  have hvalues : ((Signatures.Source.json repeatedSpelling).records?.map fun r =>
      (r.functionReturn "size", r.settled.table.functionReturn "size")) =
      some (some "float", some "string") := by decide +kernel
  obtain ⟨r, hr, hvalues⟩ := Option.map_eq_some_iff.mp hvalues
  obtain ⟨hrecords, htable⟩ := Prod.mk.inj hvalues
  refine ⟨r.settled.table, r, ?_, hr, hrecords, htable⟩
  rw [table?_eq, hr]
  rfl

end SsaTypes
