/-
SsaTypes/Proofs/RootMark.lean

Names with a mark of the root namespace in front.

Functions and constants of the standard library are looked up without the marks.  Its
classes, all that the script declares, and the constants with a meaning of their own are
looked up under the name as it is written.  So where the script declares nothing under the
marked name, what is found is the standard library's:

    with the mark, in the script  =  without it, in a script that declares nothing

and the mark changes nothing if the script does not declare the bare name either
(`candidates_rooted`).  But it hides a function of the script and a constant such as
`true`, and the class of a new object becomes another (`rootMark_hides`).
-/
import SsaTypes.Proofs.Declarations
import SsaTypes.Proofs.MethodCalls

namespace SsaTypes

open Text Inference

/-! ### Marked names -/

/-- The name with a mark of the root namespace in front. -/
def withRoot (name : String) : String :=
  "\\" ++ name

theorem toList_withRoot (name : String) : (withRoot name).toList = '\\' :: name.toList :=
  String.toList_append

theorem withRoot_ne_empty (name : String) : withRoot name ≠ "" := by
  intro h
  have hlist := congrArg String.toList h
  rw [toList_withRoot] at hlist
  cases hlist

/-- The standard library is asked for the same name. -/
theorem withoutRoot_withRoot (name : String) : withoutRoot (withRoot name) = withoutRoot name := by
  rw [withoutRoot, withoutRoot, dropLeading, dropLeading, toList_withRoot]
  rfl

theorem head?_fold_withRoot (name : String) : (fold (withRoot name)).toList.head? = some '\\' := by
  rw [toList_fold, toList_withRoot]
  rfl

theorem keywordConstant_withRoot (name : String) :
    Context.keywordConstant (withRoot name) = none := by
  have hother (word : String) (hword : (fold word).toList.head? ≠ some '\\') :
      sameName (withRoot name) word = false := by
    rw [Bool.eq_false_iff, Ne, sameName_iff]
    intro h
    rw [← h, head?_fold_withRoot] at hword
    exact hword rfl
  rw [Context.keywordConstant, hother "true" (by decide), hother "false" (by decide),
    hother "null" (by decide)]
  rfl

/-- A class and the class with the marked name have different objects. -/
theorem Ty.same_named_withRoot (name : String) :
    same (.named name) (.named (withRoot name)) = false := by
  rw [same, Bool.eq_false_iff, Ne, sameName_iff]
  intro h
  have hlength := congrArg (fun s => s.toList.length) h
  simp [toList_withRoot] at hlength

/-! ### Marking an operand -/

/-- The operand with its text marked, if it is a string literal. -/
def Operand.rooted (o : Operand) : Operand :=
  match o.kind with
  | .literal (.string text) => { o with kind := .literal (.string (withRoot text)) }
  | _ => o

/-- The script with the text of one operand marked. -/
def Script.rooted (s : Script) (v : OperandId) : Script :=
  { s with operands := s.operands.modify v Operand.rooted }

namespace Script

variable {s : Script} {u v : OperandId}

theorem operand_rooted_of_ne (h : u ≠ v) : (s.rooted v).operand u = s.operand u := by
  rw [operand, operand, rooted, Array.getElem?_modify, if_neg (Ne.symm h)]

theorem Spells.rooted {name : String} (h : s.Spells v name) :
    (s.rooted v).Spells v (withRoot name) := by
  obtain ⟨o, ho, htext⟩ := h
  refine ⟨o.rooted, ?_, ?_⟩
  · rw [operand_eq_ok] at ho ⊢
    rw [Script.rooted, Array.getElem?_modify, if_pos rfl, ho]
    rfl
  · rw [Operand.rooted, Operand.kind_of_literal? htext]
    rfl

end Script

/-! ### What a name stands for -/

/-- The operation looks up a name by the operand, and nothing else by it. -/
inductive Op.Names (v : OperandId) : Op → Prop
  | function (args : List OperandId) : Names v (.call v args)
  | constant : Names v (.constFetch v)
  | staticCall {method : OperandId} (h : method ≠ v) (args : List OperandId) :
      Names v (.staticCall v method args)
  | staticProperty {property : OperandId} (h : property ≠ v) :
      Names v (.staticPropertyFetch v property)
  | classConstant {k : OperandId} (h : k ≠ v) : Names v (.classConstFetch v k)

namespace Lookup

/-- The script declares nothing that the operation would find under the name. -/
def Undeclared (l : Lookup) (name : String) : Op → Prop
  | .call .. => l.functions name = none
  | .constFetch _ => l.constant name = none
  | .staticCall .. | .staticPropertyFetch .. => l.hierarchy.resolves name = none
  | .classConstFetch .. =>
    l.hierarchy.resolves name = none ∧ ∀ k, l.constant (classConstantKey name k) = none
  | _ => True

/-- To the operation, the name is no constant with a meaning of its own, and no class of the
standard library, with the mark or without it. -/
def Unreserved (l : Lookup) (name : String) : Op → Prop
  | .constFetch _ => Context.keywordConstant name = none
  | .staticCall .. => ∀ method, l.signatures.methodReturns name method = [] ∧
      l.signatures.methodReturns (withRoot name) method = []
  | _ => True

end Lookup

/-! ### Rules -/

namespace Inference

theorem seedProperties_rooted (useDocs : Bool) (s : Script) (v : OperandId) :
    seedProperties useDocs (s.rooted v) =
      ((seedProperties useDocs s).1.rooted v, (seedProperties useDocs s).2) := rfl

namespace Context

/-- The context with the text of one operand marked. -/
def rooted (c : Context) (v : OperandId) : Context :=
  { c with script := c.script.rooted v }

/-- The context of a script that declares nothing. -/
def unscripted (c : Context) : Context :=
  { c with lookup := { c.lookup with
    hierarchy := {}
    functionsByName := .empty
    constantsByKey := .empty } }

end Context

/-- The tables see no literals. -/
theorem setting_rooted {s : Script} {signatures : Signatures} {options : Options} {c : Context}
    (h : setting s signatures options = .ok c) (v : OperandId) :
    setting (s.rooted v) signatures options = .ok (c.rooted v) := by
  rw [setting] at h
  rw [setting, seedProperties_rooted]
  rcases hprops : seedProperties options.useDocComments s with ⟨s', - | e⟩
  · rw [hprops] at h
    obtain ⟨l, hl, rfl⟩ := map_eq_ok.mp h
    exact map_eq_ok.mpr ⟨l, hl, rfl⟩
  · rw [hprops] at h
    cases h

namespace Context

section Undeclared

variable {c : Context} {known : Known} {v : OperandId} {name : String}

theorem functionCall_of_undeclared (hname : c.script.Spells v name)
    (h : c.lookup.functions name = none) :
    c.functionCall v = (c.lookup.signatures.functionReturn (withoutRoot name)).elim (.ok none)
      fun text => (readDecl text).map one := by
  simp only [functionCall, literalName_of_spells hname, bind, Except.bind, h]
  rcases c.lookup.signatures.functionReturn (withoutRoot name) with - | text <;> rfl

theorem constFetch_of_undeclared (hname : c.script.Spells v name)
    (hkeyword : keywordConstant name = none) (h : c.lookup.constant name = none) :
    c.constFetch known v = (c.lookup.signatures.constant (withoutRoot name)).elim (.ok none)
      fun text => (readDecl text).map one := by
  simp only [constFetch, literalName_of_spells hname, bind, Except.bind, hkeyword, h]
  rcases c.lookup.signatures.constant (withoutRoot name) with - | text <;> rfl

theorem methodOf_of_undeclared {method : String} {isStatic : Bool}
    (h : c.lookup.hierarchy.resolves name = none)
    (hclass : c.lookup.signatures.methodReturns name method = []) :
    c.methodOf name method isStatic = .ok none := by
  rw [methodOf, h]
  show ((c.lookup.signatures.methodReturns name method).mapM readDecl).map orWait = _
  rw [hclass]
  rfl

theorem classType_of_spells (hname : c.script.Spells v name) :
    c.classType known v = .ok (some (Ty.ofClass name)) := by
  obtain ⟨⟨kind, ops, ty⟩, ho, htext⟩ := hname
  obtain rfl := Operand.kind_of_literal? htext
  rw [classType, ho]
  rfl

theorem propertyFetch_of_undeclared (hname : c.script.Spells v name)
    (h : c.lookup.hierarchy.resolves name = none) {property : OperandId} {text : String}
    (hproperty : c.literalName property .propertyName = .ok (some text)) :
    c.propertyFetch known v property = .ok none := by
  simp only [propertyFetch, hproperty, classType_of_spells hname, bind, Except.bind,
    Option.bind_some]
  rcases hcls : (Ty.ofClass name).className? with - | cls
  · rfl
  · obtain rfl : cls = name := by
      rw [Ty.ofClass] at hcls
      split at hcls
      · cases hcls
      · exact (Option.some.inj hcls).symm
    simp only [h]

theorem classConstant_of_undeclared {k : String} (h : c.lookup.hierarchy.resolves name = none)
    (hkey : c.lookup.constant (classConstantKey name k) = none) :
    c.classConstant known name k = none := by
  rw [classConstant, hkey, h]
  rfl

end Undeclared

/-- Where the name stands for nothing in one script, and the marked name for nothing in the
other, an operation answers the same, as the standard library does not tell them apart. -/
theorem candidates_of_undeclared {c c' : Context} {known : Known} {v : OperandId} {name : String}
    {op : Op} (hop : op.Names v) (hsignatures : c'.lookup.signatures = c.lookup.signatures)
    (hothers : ∀ u, u ≠ v → c'.script.operand u = c.script.operand u)
    (hname : c.script.Spells v name) (hname' : c'.script.Spells v (withRoot name))
    (hfree : c.lookup.Undeclared name op) (hfree' : c'.lookup.Undeclared (withRoot name) op)
    (hplain : c.lookup.Unreserved name op)
    (hobject : ∀ cls method, known v = some (.named cls) →
      c'.methodOf cls method true = c.methodOf cls method true) (id : OpId) :
    c'.candidates known id op = c.candidates known id op := by
  have hliteral (u : OperandId) (hu : u ≠ v) (r : NameRole) :
      c'.literalName u r = c.literalName u r := by
    rw [literalName, literalName, hothers u hu]
  cases hop with
  | function args =>
    show c'.functionCall v = c.functionCall v
    rw [functionCall_of_undeclared hname' hfree', functionCall_of_undeclared hname hfree,
      hsignatures, withoutRoot_withRoot]
  | constant =>
    show c'.constFetch known v = c.constFetch known v
    rw [constFetch_of_undeclared hname' (keywordConstant_withRoot name) hfree',
      constFetch_of_undeclared hname hplain hfree, hsignatures, withoutRoot_withRoot]
  | @staticCall method h args =>
    show c'.methodCall known v method true = c.methodCall known v method true
    rw [methodCall, methodCall, hliteral method h]
    refine congrArg _ (funext fun text => ?_)
    rcases text with - | text
    · rfl
    rcases hv : known v with - | t
    · rfl
    cases t with
    | string =>
      show (c'.literalName v .className >>= fun n => _) = c.literalName v .className >>= fun n => _
      rw [literalName_of_spells hname', literalName_of_spells hname]
      show c'.methodOf (withRoot name) text true = c.methodOf name text true
      rw [methodOf_of_undeclared hfree' (hsignatures ▸ (hplain text).2),
        methodOf_of_undeclared hfree (hplain text).1]
    | named cls => exact hobject cls text hv
    | _ => rfl
  | @staticProperty property h =>
    show c'.propertyFetch known v property = c.propertyFetch known v property
    rcases htext : c.literalName property .propertyName with e | - | text
    · rw [propertyFetch, propertyFetch, hliteral property h, htext]
      rfl
    · rw [propertyFetch, propertyFetch, hliteral property h, htext]
      rfl
    · rw [propertyFetch_of_undeclared hname' hfree' ((hliteral property h _).trans htext),
        propertyFetch_of_undeclared hname hfree htext]
  | @classConstant k h =>
    show c'.classConstFetch known v k = c.classConstFetch known v k
    rw [classConstFetch, classConstFetch, hliteral k h]
    refine congrArg _ (funext fun text => ?_)
    rcases text with - | text
    · rfl
    show (c'.literalName v .className >>= fun n => _) = c.literalName v .className >>= fun n => _
    rw [literalName_of_spells hname', literalName_of_spells hname]
    show Except.ok (c'.classConstant known (withRoot name) text) =
      .ok (c.classConstant known name text)
    rw [classConstant_of_undeclared hfree'.1 (hfree'.2 text),
      classConstant_of_undeclared hfree.1 (hfree.2 text)]

theorem undeclared_unscripted (c : Context) (name : String) (op : Op) :
    c.unscripted.lookup.Undeclared name op := by
  cases op with
  | classConstFetch => exact ⟨rfl, fun _ => rfl⟩
  | call => exact (rfl : c.unscripted.lookup.functions name = none)
  | constFetch => exact (rfl : c.unscripted.lookup.constant name = none)
  | staticCall | staticPropertyFetch =>
    exact (rfl : c.unscripted.lookup.hierarchy.resolves name = none)
  | _ => trivial

/-- **Where a mark of the root namespace changes nothing.**  In the run over the script with
the mark, and with the same types known, the operation that looks the name up answers what
the standard library has, as long as the script declares nothing under the marked name.
So it answers as without the mark if the script declares nothing under either name.  In both
parts the name is not one of the constants with a meaning of their own, and no class of the
standard library.

A new object is of another class with the mark. -/
theorem candidates_rooted {s : Script} {signatures : Signatures} {options : Options} {c : Context}
    (hc : setting s signatures options = .ok c) {v : OperandId} {name : String}
    (hname : s.Spells v name) (known : Known) (id : OpId) :
    setting (s.rooted v) signatures options = .ok (c.rooted v) ∧
    (∀ op, op.Names v → c.lookup.Undeclared (withRoot name) op → c.lookup.Unreserved name op →
      (known v = some .string →
        (c.rooted v).candidates known id op = c.unscripted.candidates known id op) ∧
      (c.lookup.Undeclared name op →
        (c.rooted v).candidates known id op = c.candidates known id op)) ∧
    (name ≠ "" → ∀ args,
      c.candidates known id (.create v args) = .ok (some [.named name]) ∧
      (c.rooted v).candidates known id (.create v args) = .ok (some [.named (withRoot name)]) ∧
      Ty.same (.named name) (.named (withRoot name)) = false) := by
  have hname : c.script.Spells v name := by
    rwa [Script.Spells, Script.operand, (operands_of_setting hc).1]
  have hname' : (c.rooted v).script.Spells v (withRoot name) := hname.rooted
  have hothers (u : OperandId) (hu : u ≠ v) : (c.rooted v).script.operand u = c.script.operand u :=
    Script.operand_rooted_of_ne hu
  refine ⟨setting_rooted hc v, fun op hop hfree' hplain => ⟨fun hv => ?_, fun hfree => ?_⟩,
    fun hne args => ⟨?_, ?_, Ty.same_named_withRoot name⟩⟩
  · -- nothing is an object of a class here, so the tables of the script play no part
    have hsignatures : (c.rooted v).lookup.signatures = c.unscripted.lookup.signatures := rfl
    refine candidates_of_undeclared hop hsignatures hothers hname hname'
      (undeclared_unscripted c name op) hfree' hplain (fun cls _ h => ?_) id
    rw [hv] at h
    cases h
  · have hdecls : c.SameDecls (c.rooted v) := ⟨rfl, rfl, rfl, rfl, rfl⟩
    exact candidates_of_undeclared hop hdecls.signatures hothers hname hname' hfree hfree' hplain
      (fun cls method _ => hdecls.methodOf cls method true) id
  · show (c.classType known v).map _ = _
    rw [classType_of_spells hname, Ty.ofClass, if_neg hne]
    rfl
  · show ((c.rooted v).classType known v).map _ = _
    rw [classType_of_spells hname', Ty.ofClass, if_neg (withRoot_ne_empty name)]
    rfl

/-- Names that are looked up: of a function of the script, of one of the standard library, a
constant with a meaning of its own, and a class. -/
def namesLookedUp : Script where
  operands := #[
    { kind := .literal (.string "total") },
    { kind := .literal (.string "strlen") },
    { kind := .literal (.string "true") },
    { kind := .literal (.string "Shape") }]
  functions := #[{ name := "Total", returns := some "int" }]

/-- A standard library that has another function of the first name. -/
def library : Signatures :=
  (Signatures.empty.addFunction "strlen" ⟨some "int"⟩).addFunction "total" ⟨some "float"⟩

/-- With marks, the names of both functions in `namesLookedUp` are those of the standard
library. -/
theorem candidates_rooted_functions :
    ∃ c, setting namesLookedUp library {} = .ok c ∧
      (c.rooted 0).candidates (fun _ => some .string) 0 (.call 0 []) = .ok (some [.float]) ∧
      (c.rooted 1).candidates (fun _ => none) 0 (.call 1 []) =
        c.candidates (fun _ => none) 0 (.call 1 []) := by
  refine ⟨_, rfl, ?_, ?_⟩
  · have hname : namesLookedUp.Spells 0 "total" := ⟨_, rfl, rfl⟩
    obtain ⟨-, hlaw, -⟩ := candidates_rooted rfl hname (fun _ => some .string) 0
    rw [(hlaw _ (.function []) rfl trivial).1 rfl]
    exact toOption_eq_some.mp (by decide +kernel)
  · have hname : namesLookedUp.Spells 1 "strlen" := ⟨_, rfl, rfl⟩
    obtain ⟨-, hlaw, -⟩ := candidates_rooted rfl hname (fun _ => none) 0
    exact (hlaw _ (.function []) rfl trivial).2 rfl

/-- Without a standard library, the marks in `namesLookedUp` hide the function of the script
and the constant, and make the class another. -/
theorem rootMark_hides :
    ∃ c, setting namesLookedUp {} {} = .ok c ∧
      (∃ c', setting (namesLookedUp.rooted 0) {} {} = .ok c' ∧
        c.candidates (fun _ => none) 0 (.call 0 []) = .ok (some [.int]) ∧
        c'.candidates (fun _ => none) 0 (.call 0 []) = .ok none) ∧
      (∃ c', setting (namesLookedUp.rooted 2) {} {} = .ok c' ∧
        c.candidates (fun _ => none) 0 (.constFetch 2) = .ok (some [.bool]) ∧
        c'.candidates (fun _ => none) 0 (.constFetch 2) = .ok none) ∧
      ∃ c', setting (namesLookedUp.rooted 3) {} {} = .ok c' ∧
        c.candidates (fun _ => none) 0 (.create 3 []) = .ok (some [.named "Shape"]) ∧
        c'.candidates (fun _ => none) 0 (.create 3 []) = .ok (some [.named "\\Shape"]) ∧
        Ty.same (.named "Shape") (.named "\\Shape") = false :=
  ⟨_, rfl, ⟨_, rfl, toOption_eq_some.mp (by decide +kernel), rfl⟩, ⟨_, rfl, rfl, rfl⟩,
    ⟨_, rfl, rfl, rfl, by decide +kernel⟩⟩

end Context

end Inference

end SsaTypes
