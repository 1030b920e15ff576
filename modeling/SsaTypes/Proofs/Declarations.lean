/-
SsaTypes/Proofs/Declarations.lean

The rules that read declarations only.  What functions, methods and properties
are declared to be depends neither on the operands of a script nor on the types
known, nor on the limit for rounds: two contexts with the same declarations
(`SameDecls`) give the same answers.

What a test or a guard asks for depends on the operands and the types known,
and on nothing else.  So contexts that have their operands and lookup tables in
common as well differ in no rule (`candidates_congr`), as long as the same
operands are the constant null.
-/
import SsaTypes.Inference.Run

namespace SsaTypes.Inference.Context

/-- Two contexts have the same functions, classes and signatures, and read doc
comments in the same way. -/
structure SameDecls (c c' : Context) : Prop where
  functions : c'.script.functions = c.script.functions
  classes : c'.script.classes = c.script.classes
  hierarchy : c'.lookup.hierarchy = c.lookup.hierarchy
  signatures : c'.lookup.signatures = c.lookup.signatures
  useDocComments : c'.options.useDocComments = c.options.useDocComments

namespace SameDecls

variable {c c' : Context} (h : c.SameDecls c')
include h

theorem function (id : FunctionId) : c'.script.function id = c.script.function id := by
  rw [Script.function, Script.function, h.functions]

theorem classDecl (id : ClassId) : c'.script.classDecl id = c.script.classDecl id := by
  rw [Script.classDecl, Script.classDecl, h.classes]

theorem docType (tag : DocTag) (comment : Option String) :
    c'.docType tag comment = c.docType tag comment := by
  rw [Context.docType, Context.docType, h.useDocComments]

theorem functionReturn (f : Function) : c'.functionReturn f = c.functionReturn f := by
  rw [Context.functionReturn, Context.functionReturn, h.docType]

theorem methodReturn (m : Function) : c'.methodReturn m = c.methodReturn m := by
  rw [Context.methodReturn, Context.methodReturn, h.docType]

theorem methodNamed (name : String) (ids : List FunctionId) :
    c'.methodNamed name ids = c.methodNamed name ids := by
  induction ids with
  | nil => rfl
  | cons id ids ih => rw [Context.methodNamed, Context.methodNamed, h.function, ih]

theorem findMethod (cls : ClassId) (name handler : String) :
    c'.findMethod cls name handler = c.findMethod cls name handler := by
  simp only [Context.findMethod, h.classDecl, h.methodNamed]

theorem methodReturns (name handler : String) (classes : List ClassId) :
    c'.methodReturns name handler classes = c.methodReturns name handler classes := by
  induction classes with
  | nil => rfl
  | cons cls classes ih =>
    simp only [Context.methodReturns, h.findMethod, h.methodReturn, ih]

theorem methodOf (cls name : String) (isStatic : Bool) :
    c'.methodOf cls name isStatic = c.methodOf cls name isStatic := by
  simp only [Context.methodOf, h.hierarchy, h.signatures, h.methodReturns]

theorem propertyTypes (name : String) (classes : List ClassId) :
    c'.propertyTypes name classes = c.propertyTypes name classes := by
  induction classes with
  | nil => rfl
  | cons cls classes ih => rw [Context.propertyTypes, Context.propertyTypes, h.classDecl, ih]

end SameDecls

/-! ### Tests and guards -/

section Guards

variable {c c' : Context}

mutual

theorem testType_congr (h : c'.script.operands = c.script.operands) (known : Known) :
    (test : TypeTest) → testType c' known test = testType c known test
  | .operand id => by rw [testType, testType, Script.operand, Script.operand, h]
  | .comb k ms => by rw [testType, testType, testTypes_congr h known ms]

theorem testTypes_congr (h : c'.script.operands = c.script.operands) (known : Known) :
    (tests : List TypeTest) → testTypes c' known tests = testTypes c known tests
  | [] => by rw [testTypes, testTypes]
  | m :: ms => by rw [testTypes, testTypes, testType_congr h known m, testTypes_congr h known ms]

end

theorem guardType_congr (h : c'.script.operands = c.script.operands) (known : Known)
    (expr : OperandId) (guard : Guard) :
    guardType c' known expr guard = guardType c known expr guard := by
  induction guard with
  | holds t => exact testType_congr h known t
  | fails g ih => rw [guardType, guardType, ih]

end Guards

/-- **Contexts with the same rules.** -/
theorem candidates_congr {c c' : Context} (h : c.SameDecls c')
    (hoperands : c'.script.operands = c.script.operands) (hlookup : c'.lookup = c.lookup)
    (hnull : ∀ id, c'.isNullConstant id = c.isNullConstant id) (known : Known) (id : OpId)
    (op : Op) : c'.candidates known id op = c.candidates known id op := by
  have hoperand : ∀ v, c'.script.operand v = c.script.operand v := fun v => by
    rw [Script.operand, Script.operand, hoperands]
  have hname : ∀ v role, c'.literalName v role = c.literalName v role := fun v role => by
    rw [literalName, literalName, hoperand]
  cases op with
  | call => simp only [candidates, functionCall, hname, hlookup, h.function, h.functionReturn]
  | create => simp only [candidates, classType, hoperand]
  | param => simp only [candidates, param, hnull, h.docType, h.function]
  | staticCall | methodCall => simp only [candidates, methodCall, hname, h.methodOf]
  | propertyFetch | staticPropertyFetch =>
    simp only [candidates, propertyFetch, classType, hname, hoperand, hlookup, h.propertyTypes]
  | guarded => simp only [candidates, guardType_congr hoperands]
  | constFetch => simp only [candidates, constFetch, hname, hlookup]
  | classConstFetch =>
    simp only [candidates, classConstFetch, classConstant, inheritedConstant, hname, hlookup]
  | _ => rfl

end SsaTypes.Inference.Context
