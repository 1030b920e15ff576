/-
SsaTypes/Proofs/Yields.lean

Steps with what they yield,

    Yields F Q x    says    x = ok a with Q a,  or  x = error f with F f,

passed on from the parts of a step to the whole.  Two kinds of faults are told apart
from all others: that taking a type away leaves nothing (`Fault.isEmptied`), and that a
number refers to nothing (`Fault.isDangling`).

Which references a step may follow is a property `G` of references.  Lookups lead from
references in `G` to references in `G` (`Leads`), either with all references in `G`, or
with those that have an entry; then the steps of the rules, of the seeding and of the
lookup tables that follow references in `G` are safe.
-/
import SsaTypes.Proofs.References
import SsaTypes.Proofs.Seeding

namespace SsaTypes

/-! ### Steps and what they yield -/

/-- The step gives a value with one property, or has a fault with the other. -/
def Yields {α : Type} (F : Fault → Prop) (Q : α → Prop) : Except Fault α → Prop
  | .ok a => Q a
  | .error f => F f

/-- The step has no fault, or one with the property. -/
abbrev Safe {α : Type} (F : Fault → Prop) (x : Except Fault α) : Prop :=
  Yields F (fun _ => True) x

namespace Yields

variable {α β : Type} {F : Fault → Prop} {Q : α → Prop} {R : β → Prop} {x : Except Fault α}

theorem of_ok {a : α} (h : Yields F Q x) (hx : x = .ok a) : Q a := by
  subst hx
  exact h

theorem of_error {f : Fault} (h : Yields F Q x) (hx : x = .error f) : F f := by
  subst hx
  exact h

theorem bind {f : α → Except Fault β} (h : Yields F Q x)
    (hf : ∀ a, x = .ok a → Q a → Yields F R (f a)) : Yields F R (x >>= f) := by
  rcases x with e | a
  · exact h
  · exact hf a rfl h

theorem map {f : α → β} (h : Yields F Q x) (hf : ∀ a, x = .ok a → Q a → R (f a)) :
    Yields F R (x.map f) := by
  rcases x with e | a
  · exact h
  · exact hf a rfl h

theorem mono {Q' : α → Prop} (h : Yields F Q x) (hQ : ∀ a, x = .ok a → Q a → Q' a) :
    Yields F Q' x := by
  rcases x with e | a
  · exact h
  · exact hQ a rfl h

theorem mapM {f : β → Except Fault α} {xs : List β} (h : ∀ x ∈ xs, Yields F Q (f x)) :
    Yields F (fun as => ∀ a ∈ as, Q a) (xs.mapM f) := by
  induction xs with
  | nil => exact fun a ha => absurd ha List.not_mem_nil
  | cons x xs ih =>
    obtain ⟨hx, hxs⟩ := List.forall_mem_cons.mp h
    rw [List.mapM_cons]
    refine hx.bind fun a _ ha => (ih hxs).bind fun as _ has => ?_
    exact List.forall_mem_cons.mpr ⟨ha, has⟩

end Yields

/-- Whether a fault comes from taking a type away. -/
def Fault.isEmptied : Fault → Bool
  | .emptied _ _ => true
  | _ => false

/-- A step that yields only other faults empties no type. -/
theorem Yields.ne_emptied {α : Type} {x : Except Fault α}
    (h : Safe (fun f => f.isEmptied = false) x) (whole removed : Ty) :
    x ≠ .error (.emptied whole removed) := by
  rintro rfl
  cases h

/-! ### References that may be followed -/

/-- A reference in `G` leads to an entry with references in `G`, or to a fault in `F`. -/
structure Script.Leads (s : Script) (F : Fault → Prop) (G : Ref → Prop) : Prop where
  operand : ∀ v, G (.operand v) → Yields F (fun o => ∀ r ∈ o.refs, G r) (s.operand v)
  op : ∀ id, G (.op id) → Yields F (fun op => ∀ r ∈ op.refs, G r) (s.op id)
  classDecl : ∀ id, G (.classDecl id) → Yields F (fun d => ∀ r ∈ d.refs, G r) (s.classDecl id)
  function : ∀ id, G (.function id) → Safe F (s.function id)

/-- The same of a context: its tables lead to references in `G` as well.  All faults but
those of dangling numbers and of types taken away are in `F`. -/
structure Inference.Context.Leads (c : Inference.Context) (F : Fault → Prop)
    (G : Ref → Prop) : Prop extends c.script.Leads F G where
  plain : ∀ f : Fault, f.isEmptied = false → f.isDangling = false → F f
  named : ∀ name ids, c.lookup.functions name = some ids → ∀ id ∈ ids, G (.function id)
  ancestor : ∀ name set, c.lookup.hierarchy.resolves name = some set →
    ∀ cls ∈ set.values.filterMap id, G (.classDecl cls)

theorem Inference.Context.Leads.declared {c : Inference.Context} {F : Fault → Prop}
    {G : Ref → Prop} (hc : c.Leads F G) (e : DeclError) : F (.declaration e) :=
  hc.plain _ rfl rfl

/-- Where faults of dangling numbers are let through, every reference may be followed. -/
theorem Script.leads_all {F : Fault → Prop} (hF : ∀ f : Fault, f.isEmptied = false → F f)
    (s : Script) : s.Leads F fun _ => True where
  operand v _ := by
    rw [Script.operand]
    split
    · exact fun _ _ => trivial
    · exact hF _ rfl
  op id _ := by
    rw [Script.op]
    split
    · exact fun _ _ => trivial
    · exact hF _ rfl
  classDecl id _ := by
    rw [Script.classDecl]
    split
    · exact fun _ _ => trivial
    · exact hF _ rfl
  function id _ := by
    rw [Script.function]
    split
    · trivial
    · exact hF _ rfl

theorem Inference.Context.leads_all {F : Fault → Prop}
    (hF : ∀ f : Fault, f.isEmptied = false → F f) (c : Inference.Context) :
    c.Leads F fun _ => True where
  toLeads := c.script.leads_all hF
  plain f hf _ := hF f hf
  named _ _ _ _ _ := trivial
  ancestor _ _ _ _ _ := trivial

namespace Inference

/-! ### Declarations -/

section Declarations

variable {F : Fault → Prop} (hF : ∀ e, F (.declaration e))
include hF

theorem safe_reading (r : Except DeclError Ty) : Safe F (reading r) := by
  cases r with
  | ok t => trivial
  | error e => exact hF e

theorem safe_readDecl (text : String) : Safe F (readDecl text) :=
  safe_reading hF _

omit hF in
/-- A fault of an update in turn is one of the updates. -/
theorem fault_of_updateUntil {α : Type} {f : α → α × Option Fault}
    (hf : ∀ a e, (f a).2 = some e → F e) {as : List α} {e : Fault}
    (h : (updateUntil f as).2 = some e) : F e := by
  induction as with
  | nil => cases h
  | cons a as ih =>
    rw [updateUntil] at h
    split at h
    · next e' he =>
      obtain rfl := Option.some.inj h
      exact hf a _ (by rw [he])
    · exact ih h

theorem fault_of_seedProperties {useDocs : Bool} {s : Script} {e : Fault}
    (h : (seedProperties useDocs s).2 = some e) : F e := by
  have hproperty (p : Property) (e : Fault) (he : (seedProperty useDocs p).2 = some e) : F e := by
    have hsafe : Safe F (propertyType useDocs p) := by
      rw [propertyType]
      generalize (if useDocs then DocComment.extract .var p.doc else none).or p.declared = text
      cases text with
      | none => trivial
      | some text => exact safe_readDecl hF text
    rw [seedProperty] at he
    split at he
    · cases he
    · next e' he' => exact Option.some.inj he ▸ hsafe.of_error he'
  refine fault_of_updateUntil (fun d e he => ?_) h
  exact fault_of_updateUntil hproperty he

namespace Context

variable (c : Context)

theorem safe_docType (tag : DocTag) (comment : Option String) : Safe F (c.docType tag comment) := by
  rw [docType]
  split
  · exact safe_reading hF _
  · trivial

theorem safe_functionReturn (f : Function) : Safe F (c.functionReturn f) := by
  rw [functionReturn]
  split
  · exact safe_readDecl hF _
  · exact safe_docType hF c _ _

theorem safe_methodReturn (m : Function) : Safe F (c.methodReturn m) := by
  refine (safe_docType hF c _ _).bind fun doc _ _ => ?_
  split
  · exact (safe_readDecl hF _).bind fun _ _ _ => trivial
  · trivial

end Context

end Declarations

/-! ### The start of a run -/

section Tables

variable {s : Script} {F : Fault → Prop} {G : Ref → Prop} (hs : s.Leads F G)
include hs

theorem safe_constantKey {k : Constant} (hk : ∀ r ∈ k.refs, G r) :
    Safe F (Lookup.constantKey s k) := by
  rw [Lookup.constantKey]
  split
  · trivial
  · next id hid =>
    have hcls : G (.classDecl id) := hk _ (by simp [Constant.refs, hid])
    exact (hs.classDecl id hcls).map fun _ _ _ => trivial

theorem safe_build (hconstants : ∀ k ∈ s.constants, ∀ r ∈ k.refs, G r) (signatures : Signatures) :
    Safe F (Lookup.build s signatures) := by
  have hfold (ks : List Constant) (hks : ∀ k ∈ ks, ∀ r ∈ k.refs, G r)
      (t : Table String (List OperandId)) :
      Safe F (ks.foldlM (fun t k =>
        (Lookup.constantKey s k).map fun key => t.push key k.value) t) := by
    induction ks generalizing t with
    | nil => trivial
    | cons k ks ih =>
      obtain ⟨hk, hks⟩ := List.forall_mem_cons.mp hks
      rw [List.foldlM_cons]
      refine Yields.bind (Q := fun _ => True) ?_ fun t' _ _ => ih hks t'
      exact (safe_constantKey hs hk).map fun _ _ _ => trivial
  have hall : ∀ k ∈ s.constants.toList, ∀ r ∈ k.refs, G r :=
    fun k hk => hconstants k (Array.mem_toList_iff.mp hk)
  exact Yields.map (Q := fun _ => True) (hfold _ hall .empty) fun _ _ _ => trivial

end Tables

section Seeds

variable {F : Fault → Prop} (hF : ∀ f : Fault, f.isEmptied = false → f.isDangling = false → F f)
include hF

theorem safe_seedType (o : Operand) : Safe F (seedType o) := by
  rw [seedType]
  split
  · trivial
  · split
    · exact (safe_readDecl (fun e => hF _ rfl rfl) _).map fun _ _ _ => trivial
    · split
      · trivial
      · exact hF _ rfl rfl
    · trivial

theorem safe_seed (s : Script) : Safe F (seed s) := by
  have hfrom (os : List Operand) (p : Progress) (id : OperandId) : Safe F (seedFrom p id os) := by
    induction os generalizing p id with
    | nil => trivial
    | cons o os ih =>
      refine (safe_seedType hF o).bind fun r _ _ => ?_
      split
      · exact ih _ _
      · exact ih _ _
  exact hfrom _ _ _

end Seeds

/-- Nothing is taken away before the first round, and the only references followed are
those of constants. -/
theorem safe_setting {s : Script} {options : Options} {F : Fault → Prop} {G : Ref → Prop}
    (hF : ∀ e, F (.declaration e))
    (hs : (seedProperties options.useDocComments s).1.Leads F G)
    (hconstants : ∀ k ∈ s.constants, ∀ r ∈ k.refs, G r) (signatures : Signatures) :
    Safe F (setting s signatures options) := by
  rw [setting]
  obtain ⟨classes, hclasses⟩ := seedProperties_fst options.useDocComments s
  rcases e : seedProperties options.useDocComments s with ⟨s', - | f⟩
  · rw [e] at hclasses hs
    obtain rfl : s' = { s with classes } := hclasses
    exact (safe_build hs hconstants signatures).map fun _ _ _ => trivial
  · exact fault_of_seedProperties hF (congrArg Prod.snd e)

/-! ### Rules that take nothing away -/

namespace Context

section Rules

variable {c : Context} {F : Fault → Prop} {G : Ref → Prop} (hc : c.Leads F G)
include hc

theorem safe_literalName {id : OperandId} (hid : G (.operand id)) (role : NameRole) :
    Safe F (c.literalName id role) := by
  refine (hc.operand id hid).bind fun o _ _ => ?_
  split
  · trivial
  · trivial
  · exact hc.plain _ rfl rfl

/-- A method that is found is one of the functions of the script. -/
theorem methodNamed_yields (name : String) {ids : List FunctionId}
    (hids : ∀ id ∈ ids, G (.function id)) :
    Yields F (fun r => ∀ f, r = some f → ∃ id, c.script.function id = .ok f)
      (c.methodNamed name ids) := by
  induction ids with
  | nil => exact nofun
  | cons id ids ih =>
    obtain ⟨hid, hids⟩ := List.forall_mem_cons.mp hids
    refine (hc.function id hid).bind fun f hf _ => ?_
    split
    · intro g hg
      exact ⟨id, Option.some.inj hg ▸ hf⟩
    · exact ih hids

theorem findMethod_yields {cls : ClassId} (hcls : G (.classDecl cls)) (name handler : String) :
    Yields F (fun r => ∀ f, r = some f → ∃ id, c.script.function id = .ok f)
      (c.findMethod cls name handler) := by
  refine (hc.classDecl cls hcls).bind fun d _ hd => ?_
  have hmethods : ∀ id ∈ d.methods, G (.function id) :=
    fun id hid => hd _ (List.mem_map_of_mem hid)
  refine (methodNamed_yields hc name hmethods).bind fun m _ hm => ?_
  split
  · exact hm
  · exact methodNamed_yields hc handler hmethods

theorem safe_isNullConstant {id : OperandId} (hid : G (.operand id)) :
    Safe F (c.isNullConstant id) := by
  refine (hc.operand id hid).bind fun o _ ho => ?_
  split
  · trivial
  · next first _ hops =>
    have hfirst : G (.op first) := ho _ (by simp [Operand.refs, hops])
    refine (hc.op first hfirst).bind fun op _ hop => ?_
    split
    · next name _ =>
      have hname : G (.operand name) := hop _ (Op.operand_mem_refs List.mem_cons_self)
      exact (hc.operand name hname).bind fun _ _ _ => trivial
    · trivial

theorem safe_param (name : String) (declared : Option String) {default : Option OperandId}
    (hdefault : ∀ d ∈ default, G (.operand d)) {function : Option FunctionId}
    (hfunction : ∀ f ∈ function, G (.function f)) :
    Safe F (c.param name declared default function) := by
  -- what follows the declared type is safe, whatever that type is
  have hdeclared (rest : Ty → Except Fault Ty) (hrest : ∀ t, Safe F (rest t)) (f : FunctionId)
      (hf : G (.function f)) :
      Safe F (do rest (← c.docType (.param (dropLeading '$' name))
        (← c.script.function f).doc)) :=
    (hc.function f hf).bind fun _ _ _ =>
      (safe_docType hc.declared c _ _).bind fun t _ _ => hrest t
  rcases default with - | d
  · rcases declared with - | text
    · rcases function with - | f
      · trivial
      · exact hdeclared .ok (fun _ => trivial) f (hfunction f rfl)
    · exact (safe_readDecl hc.declared text).bind fun _ _ _ => trivial
  · have hnull (t : Ty) : Safe F
        ((c.isNullConstant d).map fun isNull => if isNull then t.orNull.simplify else t) :=
      (safe_isNullConstant hc (hdefault d rfl)).map fun _ _ _ => trivial
    rcases declared with - | text
    · rcases function with - | f
      · exact hnull .mixed
      · exact hdeclared _ hnull f (hfunction f rfl)
    · exact (safe_readDecl hc.declared text).bind fun t _ _ => hnull t

end Rules

mutual

theorem safe_testType {c : Context} {F : Fault → Prop} {G : Ref → Prop} (hc : c.Leads F G)
    (known : Known) : (test : TypeTest) → (∀ v ∈ test.operands, G (.operand v)) →
      Safe F (testType c known test)
  | .operand id, htest => by
    rw [testType]
    refine (hc.operand id (htest id List.mem_cons_self)).bind fun o _ _ => ?_
    split
    · trivial
    · exact (safe_readDecl hc.declared _).map fun _ _ _ => trivial
    · exact hc.plain _ rfl rfl
  | .comb k ms, htest => by
    rw [testType]
    exact (safe_testTypes hc known ms htest).map fun _ _ _ => trivial

theorem safe_testTypes {c : Context} {F : Fault → Prop} {G : Ref → Prop} (hc : c.Leads F G)
    (known : Known) : (tests : List TypeTest) →
      (∀ v ∈ TypeTest.operandsAll tests, G (.operand v)) → Safe F (testTypes c known tests)
  | [], _ => by
    rw [testTypes]
    trivial
  | m :: ms, htests => by
    obtain ⟨hm, hms⟩ := List.forall_mem_append.mp htests
    rw [testTypes]
    refine (safe_testType hc known m hm).bind fun t _ _ => ?_
    split
    · trivial
    · exact (safe_testTypes hc known ms hms).map fun _ _ _ => trivial

end

/-- A guard that takes a type away may leave nothing of it. -/
theorem safe_guardType {c : Context} {F : Fault → Prop} {G : Ref → Prop} (hc : c.Leads F G)
    (hF : ∀ whole removed, F (.emptied whole removed)) (known : Known) (expr : OperandId)
    {guard : Guard} (hguard : ∀ v ∈ guard.operands, G (.operand v)) :
    Safe F (guardType c known expr guard) := by
  induction guard with
  | holds test => exact safe_testType hc known test hguard
  | fails g ih =>
    rw [guardType]
    refine (ih hguard).bind fun r _ _ => ?_
    split
    · trivial
    · dsimp only
      split
      · trivial
      · exact hF _ _

end Context

end Inference

end SsaTypes
