/-
SsaTypes/Proofs/FailedRuns.lean

Runs after a run that had a fault.  All that such a run leaves behind are types of
properties, of some classes and perhaps of a part of one, and the next run gives every
property its type before it reads any.  In short: seeding the properties keeps a script
without their types, sees nothing but that, and overwrites the rest (`Overwrites`),

    s.withoutPropertyTypes = s'.withoutPropertyTypes, no fault
      →  seedProperties s = seedProperties s'.

This holds of one property, and by `Overwrites.updateUntil` of the properties of a class
and of the classes of a script, up to the first fault.  So all later runs over what a run
with a fault has left end like those over the script from which it began
(`infer_after_fault`).
-/
import SsaTypes.Proofs.Seeding

namespace SsaTypes

/-- The property before it has its type. -/
def Property.withoutType (p : Property) : Property :=
  { p with ty := .unknown }

/-- The class before its properties have their types. -/
def ClassDecl.withoutPropertyTypes (d : ClassDecl) : ClassDecl :=
  { d with properties := d.properties.map Property.withoutType }

/-- The script before its properties have their types. -/
def Script.withoutPropertyTypes (s : Script) : Script :=
  { s with classes := s.classes.map ClassDecl.withoutPropertyTypes }

namespace Inference

/-! ### Updates that overwrite -/

/-- An update that keeps what a view shows, sees nothing else, and overwrites all else
unless it has a fault. -/
structure Overwrites {α β : Type} (update : α → α × Option Fault) (view : α → β) : Prop where
  keeps : ∀ a, view (update a).1 = view a
  agrees : ∀ {a b}, view a = view b → (update a).2 = (update b).2 ∧
    ((update a).2 = none → (update a).1 = (update b).1)

namespace Overwrites

variable {α ω : Type}

/-- What overwrites every element of a list overwrites the list. -/
theorem updateUntil {β : Type} {update : α → α × Option Fault} {view : α → β}
    (h : Overwrites update view) : Overwrites (updateUntil update) (List.map view) := by
  refine ⟨map_updateUntil h.keeps, fun {as bs} hab => ?_⟩
  induction as generalizing bs with
  | nil =>
    obtain rfl : bs = [] := List.map_eq_nil_iff.mp hab.symm
    exact ⟨rfl, fun _ => rfl⟩
  | cons a as ih =>
    obtain ⟨b, bs, rfl, hb, hbs⟩ := List.map_eq_cons_iff.mp hab.symm
    obtain ⟨hfault, hvalue⟩ := h.agrees hb.symm
    -- the first element stops both updates or none
    rw [Inference.updateUntil, Inference.updateUntil]
    rcases hua : update a with ⟨a', - | e⟩ <;> rcases hub : update b with ⟨b', - | e'⟩ <;>
      rw [hua, hub] at hfault hvalue
    · obtain ⟨hfaults, hvalues⟩ := ih hbs.symm
      exact ⟨hfaults, fun hnone => congrArg₂ List.cons (hvalue rfl) (hvalues hnone)⟩
    · cases hfault
    · cases hfault
    · exact ⟨hfault, fun hnone => absurd hnone (Option.some_ne_none e)⟩

/-- What overwrites a part overwrites the whole that has it. -/
theorem part {update : α → α × Option Fault} {view : α → α} (h : Overwrites update view)
    (get : ω → α) (set : ω → α → ω) (hget : ∀ w a, get (set w a) = a)
    (hset : ∀ w a b, set (set w a) b = set w b) :
    Overwrites (fun w => (set w (update (get w)).1, (update (get w)).2))
      fun w => set w (view (get w)) where
  keeps w := by rw [hget, hset, h.keeps]
  agrees := by
    intro v w hvw
    have hview : view (get v) = view (get w) := by rw [← hget v (view _), hvw, hget]
    obtain ⟨hfault, hvalue⟩ := h.agrees hview
    refine ⟨hfault, fun hnone => ?_⟩
    show set v (update (get v)).1 = set w (update (get w)).1
    -- what the two wholes have beside the part is in their views, which are equal
    rw [← hset v (view (get v)), hvw, hset, hvalue hnone]

end Overwrites

/-! ### Properties -/

/-- The type of a property does not depend on the one that it had. -/
theorem overwrites_seedProperty (useDocs : Bool) :
    Overwrites (seedProperty useDocs) Property.withoutType where
  keeps p := by
    rw [seedProperty]
    split <;> rfl
  agrees := by
    intro p q hpq
    have htype : propertyType useDocs p = propertyType useDocs q := by
      show propertyType useDocs p.withoutType = propertyType useDocs q.withoutType
      rw [hpq]
    rw [seedProperty, seedProperty, ← htype]
    rcases propertyType useDocs p with e | t
    · exact ⟨rfl, fun hnone => absurd hnone (Option.some_ne_none e)⟩
    · exact ⟨rfl, fun _ => congrArg (fun p : Property => { p with ty := t }) hpq⟩

theorem overwrites_seedClass (useDocs : Bool) :
    Overwrites (seedClass useDocs) ClassDecl.withoutPropertyTypes :=
  (overwrites_seedProperty useDocs).updateUntil.part ClassDecl.properties
    (fun d ps => { d with properties := ps }) (fun _ _ => rfl) fun _ _ _ => rfl

/-- **Seeding the properties** overwrites the types that they had. -/
theorem overwrites_seedProperties (useDocs : Bool) :
    Overwrites (seedProperties useDocs) Script.withoutPropertyTypes := by
  have hview : Script.withoutPropertyTypes = fun s => { s with
      classes := (s.classes.toList.map ClassDecl.withoutPropertyTypes).toArray } := by
    funext s
    rw [Script.withoutPropertyTypes, ← List.map_toArray, Array.toArray_toList]
  rw [hview]
  exact (overwrites_seedClass useDocs).updateUntil.part (fun s : Script => s.classes.toList)
    (fun s cs => { s with classes := cs.toArray }) (fun _ _ => rfl) fun _ _ _ => rfl

/-! ### Runs -/

/-- What a run gives: its fault, or the script with its types and what belongs to it. -/
def given (run : Script × Except Fault Outcome) : Except Fault (Script × Outcome) :=
  run.2.map fun out => (run.1, out)

/-- What runs give one after the other, each over the script that the one before it left. -/
def givenBy (s : Script) : List (Signatures × Options) → List (Except Fault (Script × Outcome))
  | [] => []
  | r :: rs => given (infer s r.1 r.2) :: givenBy (infer s r.1 r.2).1 rs

section Runs

variable {s s' : Script}

/-- A run over a script sees no types that properties had before it, and changes no more
than types if it has a fault. -/
theorem infer_congr (h : s'.withoutPropertyTypes = s.withoutPropertyTypes)
    (signatures : Signatures) (options : Options) :
    given (infer s' signatures options) = given (infer s signatures options) ∧
    (infer s' signatures options).1.withoutPropertyTypes =
      (infer s signatures options).1.withoutPropertyTypes := by
  have hseed := overwrites_seedProperties options.useDocComments
  obtain ⟨hfault, hvalue⟩ := hseed.agrees h
  have hkept := (hseed.keeps s').trans (h.trans (hseed.keeps s).symm)
  rw [infer, infer]
  rcases hs' : seedProperties options.useDocComments s' with ⟨t', - | e'⟩ <;>
    rcases hs : seedProperties options.useDocComments s with ⟨t, - | e⟩ <;>
    rw [hs', hs] at hfault hvalue hkept
  · -- from here on the two runs are one
    obtain rfl : t' = t := hvalue rfl
    exact ⟨rfl, rfl⟩
  · cases hfault
  · cases hfault
  · obtain rfl : e' = e := Option.some.inj hfault
    exact ⟨rfl, hkept⟩

theorem withoutPropertyTypes_of_fault {signatures : Signatures} {options : Options} {e : Fault}
    (h : infer s signatures options = (s', .error e)) :
    s'.withoutPropertyTypes = s.withoutPropertyTypes := by
  have hs' : (infer s signatures options).1 = s' := by rw [h]
  have he : (infer s signatures options).2 = .error e := by rw [h]
  rw [infer_eq, infer_eq_error.mp he] at hs'
  rw [← hs']
  exact (overwrites_seedProperties options.useDocComments).keeps s

theorem givenBy_congr (h : s'.withoutPropertyTypes = s.withoutPropertyTypes)
    (runs : List (Signatures × Options)) : givenBy s' runs = givenBy s runs := by
  induction runs generalizing s s' with
  | nil => rfl
  | cons r rs ih =>
    obtain ⟨hgiven, hleft⟩ := infer_congr h r.1 r.2
    rw [givenBy, givenBy, hgiven, ih hleft]

end Runs

/-- **A run with a fault leaves no trace.**  The script it leaves differs at most in the
types of properties, and a run over it gives what it would give over the script before:
the same fault, or the same report, tables, missing parents, and types of all operands
and properties.  So do any number of runs one after the other. -/
theorem infer_after_fault {s s' : Script} {signatures : Signatures} {options : Options}
    {e : Fault} (h : infer s signatures options = (s', .error e)) :
    s'.withoutPropertyTypes = s.withoutPropertyTypes ∧
    (∀ later laterOptions,
      given (infer s' later laterOptions) = given (infer s later laterOptions)) ∧
    ∀ runs, givenBy s' runs = givenBy s runs := by
  have hkept := withoutPropertyTypes_of_fault h
  refine ⟨hkept, fun later laterOptions => ?_, givenBy_congr hkept⟩
  exact (infer_congr hkept later laterOptions).1

/-- A class with two properties, of which the second has a comment that cannot be read. -/
def halfTagged : Script where
  operands := #[
    { kind := .literal (.int 1) },
    { kind := .variable (some "id"), ops := [0] }]
  ops := #[.assign 1 0]
  classes := #[{ name := "Row", properties := [
    { name := "id", declared := some "int", doc := some "@var string" },
    { name := "next", declared := some "?Row", doc := some "@var Row|" }] }]

/-- The first run over `halfTagged` has a fault after it gave the first property a type.
The second reads no comments; it gives both properties their declared types, and all else
that it would have given over the script as it was. -/
theorem infer_after_fault_halfTagged :
    ∃ s' e, infer halfTagged {} {} = (s', .error e) ∧
      (s'.classes.map fun d => d.properties.map Property.ty) = #[[.string, .unknown]] ∧
      given (infer s' {} (Options.ignoreDocComments {})) =
        given (infer halfTagged {} (Options.ignoreDocComments {})) ∧
      ((infer s' {} (Options.ignoreDocComments {})).1.classes.map fun d =>
        d.properties.map Property.ty) = #[[.int, .union [.named "Row", .null]]] := by
  have hfault : (infer halfTagged {} {}).2.toOption.isSome = false := by decide +kernel
  rcases hrun : infer halfTagged {} {} with ⟨s', e | out⟩
  · obtain rfl : s' = (infer halfTagged {} {}).1 := by rw [hrun]
    exact ⟨_, e, rfl, by decide +kernel, (infer_after_fault hrun).2.1 {} _, by decide +kernel⟩
  · rw [hrun] at hfault
    cases hfault

end Inference

end SsaTypes
