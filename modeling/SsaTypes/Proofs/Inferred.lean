/-
SsaTypes/Proofs/Inferred.lean

Which types inference can arrive at.  A rule takes types from declarations and
from the operands it reads; of its own it makes only simple types, the types of
anything and of numbers, arrays, merges, and what is left of a type under a guard
that fails.  So a class of types that is closed under making these (`Ty.Class`), and
that has what a script gives (`Context.Given`) and what the producers of an operand
read, has the type of the operand as well (`verdict_yields`).  What guards yield is
left to the user of these lemmas.

What is read from declarations and doc comments is in normal form, so of the types
given only those of operands can be unknown, and no rule takes these.
-/
import SsaTypes.Proofs.NormalForm
import SsaTypes.Proofs.Stability
import SsaTypes.Proofs.Yields

namespace SsaTypes

/-! ### Classes of types -/

namespace Ty

/-- Whether a type is known and has no parts. -/
def isSimple : Ty → Bool
  | .unknown | .arrayOf _ | .comb _ _ => false
  | _ => true

/-- A class of types with all that rules make from nothing, closed under
arrays, their elements and merging. -/
structure Class (P : Ty → Prop) : Prop where
  simple : ∀ t, t.isSimple = true → P t
  mixed : P .mixed
  numeric : P .numeric
  arrayOf : ∀ e, P (.arrayOf e) ↔ P e
  merge : ∀ ts a, (∀ t ∈ ts, P t) → merge? ts = some a → P a

/-- All types are a class. -/
theorem class_all : Class fun _ => True where
  simple _ _ := trivial
  mixed := trivial
  numeric := trivial
  arrayOf _ := Iff.rfl
  merge _ _ _ _ := trivial

theorem isSimple_ofClass (name : String) : (ofClass name).isSimple = true := by
  rw [ofClass]
  split <;> rfl

end Ty

namespace Inference

/-- All candidates have a property, if there are any. -/
def Candidates.All (P : Ty → Prop) (r : Candidates) : Prop :=
  ∀ ts, r = some ts → ∀ t ∈ ts, P t

/-- The types known of some operands have a property. -/
def Known.Within (P : Ty → Prop) (us : List OperandId) (known : Known) : Prop :=
  ∀ u ∈ us, ∀ t, known u = some t → P t

theorem Known.Within.mono {P : Ty → Prop} {us ws : List OperandId} {known : Known}
    (h : Known.Within P ws known) (hsub : ∀ u ∈ us, u ∈ ws) : Known.Within P us known :=
  fun u hu => h u (hsub u hu)

/-- All types of an answer have a property. -/
def Answer.All (P : Ty → Prop) : Answer → Prop
  | .wait => True
  | .provisional t => P t
  | .candidates ts => ∀ t ∈ ts, P t

/-- The type of a verdict has a property. -/
def Verdict.All (P : Ty → Prop) : Verdict → Prop
  | .wait => True
  | .provisional t | .confirmed t => P t

namespace Candidates.All

variable {P : Ty → Prop}

theorem none : All P Option.none := nofun

theorem some {ts : List Ty} (h : ∀ t ∈ ts, P t) : All P (Option.some ts) := by
  intro us hus
  obtain rfl := Option.some.inj hus
  exact h

theorem one {t : Ty} (h : P t) : All P (Inference.one t) :=
  .some (by simpa using h)

theorem bind {α : Type} {r : Option α} {f : α → Candidates}
    (h : ∀ a, r = Option.some a → All P (f a)) : All P (r.bind f) := by
  rcases r with - | a
  · exact .none
  · exact h a rfl

theorem orWait {ts : List Ty} (h : ∀ t ∈ ts, P t) : All P (Inference.orWait ts) := by
  rw [Inference.orWait]
  split
  · exact .none
  · exact .some h

theorem allKnown {known : Known} {ids : List OperandId} (h : Known.Within P ids known) :
    All P (Inference.allKnown known ids) := by
  intro ts hts t ht
  obtain ⟨v, hv, hk⟩ := exists_of_forall₂ (forall₂_of_mapM hts).flip t ht
  exact h v hv t hk

/-- The candidates of all elements of a list together. -/
theorem flatten {α : Type} {f : α → Candidates} {as : List α} (h : ∀ a ∈ as, All P (f a)) :
    All P ((as.mapM f).map List.flatten) := by
  intro ts hts t ht
  obtain ⟨tss, htss, rfl⟩ := Option.map_eq_some_iff.mp hts
  obtain ⟨us, hus, ht⟩ := List.mem_flatten.mp ht
  obtain ⟨a, ha, hf⟩ := exists_of_forall₂ (forall₂_of_mapM htss).flip us hus
  exact h a ha us hf t ht

end Candidates.All

section Values

variable {P : Ty → Prop} (hP : Ty.Class P) {known : Known}
include hP

/-! ### Plain values -/

theorem arithmetic_class {l r : Ty} (hl : P l) (hr : P r) : P (arithmetic l r) := by
  have helement {t : Ty} (ht : P t) : ∀ e ∈ t.element?.toList, P e := by
    intro e he
    cases t with
    | arrayOf e' =>
      obtain rfl := List.mem_singleton.mp he
      exact (hP.arrayOf e).mp ht
    | _ => cases he
  unfold arithmetic
  split
  all_goals first
    | exact hP.simple _ rfl
    | skip
  split
  · split
    · next e he =>
      refine (hP.arrayOf e).mpr (hP.merge _ e (fun t ht => ?_) he)
      exact (List.mem_append.mp ht).elim (helement hl t) (helement hr t)
    · exact hP.simple _ rfl
  · exact hP.mixed

theorem binaryRule_class (op : BinaryOp) :
    match binaryRule op with
    | .always t => P t
    | .ofTypes f => ∀ l r, P l → P r → P (f l r)
    | .unmodeled => True := by
  have hbitwise (l r : Ty) : P (bitwise l r) := by
    unfold bitwise
    split <;> exact hP.simple _ rfl
  cases op <;> first
    | exact hP.simple _ rfl
    | exact fun l r _ _ => hbitwise l r
    | exact fun l r hl hr => arithmetic_class hP hl hr
    | trivial

theorem unary_class {op : UnaryOp} {expr : OperandId} :
    Candidates.All P (unary known op expr) := by
  have htype (o : UnaryOp) (t : Ty) : P (unaryType o t) := by
    unfold unaryType
    split <;> first | exact hP.simple _ rfl | exact hP.numeric
  cases op with
  | booleanNot => exact .one (hP.simple _ rfl)
  | bitwiseNot | minus | plus => exact .bind fun t _ => .one (htype _ t)

theorem cast_class {kind : CastKind} {expr : OperandId}
    (h : Known.Within P (castReads kind expr) known) :
    Candidates.All P (cast known kind expr) := by
  cases kind with
  | bool | int | double | string => exact .one (hP.simple _ rfl)
  | array => exact .bind fun _ _ => .one (hP.simple _ rfl)
  | object =>
    refine .bind fun t ht => .one ?_
    split
    · exact h expr List.mem_cons_self t ht
    · exact hP.simple _ (Ty.isSimple_ofClass _)

theorem iterator_class {kind : IteratorOp} {var : OperandId}
    (h : Known.Within P (iteratorReads kind var) known) :
    Candidates.All P (iterator known kind var) := by
  cases kind with
  | reset | valid => exact .one (hP.simple _ rfl)
  | key => exact .none
  | value =>
    refine .bind fun t ht => .bind fun e he => .one ?_
    cases t with
    | arrayOf e' =>
      obtain rfl := Option.some.inj he
      exact (hP.arrayOf _).mp (h var List.mem_cons_self _ ht)
    | _ => cases he

theorem arrayLiteral_class {values : List OperandId} (h : Known.Within P values known) :
    Candidates.All P (arrayLiteral known values) := by
  refine .bind fun ts hts => .one ?_
  split
  · next e he => exact (hP.arrayOf e).mpr (hP.merge _ e (Candidates.All.allKnown h ts hts) he)
  · exact hP.simple _ rfl

theorem dimFetch_class {base : OperandId} (h : Known.Within P [base] known) :
    Candidates.All P (dimFetch known base) := by
  refine .bind fun t ht => .one ?_
  cases t with
  | arrayOf e => exact (hP.arrayOf e).mp (h base List.mem_cons_self _ ht)
  | string => exact hP.simple _ rfl
  | _ => exact hP.mixed

theorem phi_class {vars : List OperandId} (h : Known.Within P vars known) :
    Answer.All P (phi known vars) := by
  rw [phi]
  split
  · trivial
  · next t ht =>
    have hmerge : P t := by
      refine hP.merge _ t (fun u hu => ?_) ht
      obtain ⟨w, hw, hk⟩ := List.mem_filterMap.mp hu
      exact h w hw u hk
    split
    · exact fun u hu => List.mem_singleton.mp hu ▸ hmerge
    · exact hmerge

end Values

/-! ### What is read -/

theorem isNormal_of_readDecl {text : String} {t : Ty} (h : readDecl text = .ok t) :
    t.isNormal = true := by
  rw [readDecl] at h
  rcases e : Ty.ofDecl text with f | u
  · rw [e] at h
    cases h
  · rw [e] at h
    exact Except.ok.inj h ▸ Decl.isNormal_of_parse e

theorem isNormal_mixed : Ty.mixed.isNormal = true := by
  decide

namespace Context

section Read

variable {c : Context} {t : Ty}

theorem isNormal_of_docType {tag : DocTag} {comment : Option String}
    (h : c.docType tag comment = .ok t) : t.isNormal = true := by
  rw [docType] at h
  split at h
  · rw [Ty.ofComment] at h
    split at h
    · exact isNormal_of_readDecl h
    · exact Except.ok.inj h ▸ isNormal_mixed
  · exact Except.ok.inj h ▸ isNormal_mixed

theorem isNormal_of_functionReturn {f : Function} (h : c.functionReturn f = .ok t) :
    t.isNormal = true := by
  rw [functionReturn] at h
  split at h
  · exact isNormal_of_readDecl h
  · exact isNormal_of_docType h

theorem isNormal_of_methodReturn {m : Function} (h : c.methodReturn m = .ok t) :
    t.isNormal = true := by
  obtain ⟨doc, hdoc, h⟩ := bind_eq_ok.mp h
  obtain ⟨declared, hdeclared, h⟩ : ∃ declared : Ty, declared.isNormal = true ∧
      (if doc.isStrictSubset declared then doc else declared) = t := by
    rcases e : m.returns with - | text
    · rw [e] at h
      exact ⟨.mixed, isNormal_mixed, Except.ok.inj h⟩
    · rw [e] at h
      obtain ⟨declared, hdeclared, h⟩ := bind_eq_ok.mp h
      exact ⟨declared, isNormal_of_readDecl hdeclared, Except.ok.inj h⟩
  split at h
  · exact h ▸ isNormal_of_docType hdoc
  · exact h ▸ hdeclared

theorem isNormal_of_param {name : String} {declared : Option String} {default : Option OperandId}
    {function : Option FunctionId} (h : c.param name declared default function = .ok t) :
    t.isNormal = true := by
  -- a default of null widens what was read, and does nothing else
  have hdefault {d : OperandId} {u : Ty} (hu : u.isNormal = true)
      (hd : ((c.isNullConstant d).map fun isNull : Bool =>
        if isNull then u.orNull.simplify else u) = .ok t) : t.isNormal = true := by
    obtain ⟨isNull, -, ht⟩ := map_eq_ok.mp hd
    split at ht
    · exact ht ▸ Ty.isNormal_pair .union hu rfl
    · exact ht ▸ hu
  rcases declared with - | text
  · rcases function with - | f
    · rcases default with - | d
      · exact Except.ok.inj h ▸ isNormal_mixed
      · exact hdefault isNormal_mixed h
    · obtain ⟨g, -, h⟩ := bind_eq_ok.mp h
      obtain ⟨u, hu, h⟩ := bind_eq_ok.mp h
      rcases default with - | d
      · exact Except.ok.inj h ▸ isNormal_of_docType hu
      · exact hdefault (isNormal_of_docType hu) h
  · obtain ⟨u, hu, h⟩ := bind_eq_ok.mp h
    rcases default with - | d
    · exact Except.ok.inj h ▸ isNormal_of_readDecl hu
    · exact hdefault (isNormal_of_readDecl hu) h

end Read

/-! ### What is given -/

/-- The types that a script and the signatures give: what operands have already,
and what declarations, doc comments and defaults say. -/
inductive Given (c : Context) : Ty → Prop
  | operand {v : OperandId} {o : Operand} : c.script.operand v = .ok o → Given c o.ty
  | receiver {v : OperandId} {o : Operand} {name owner : String} {t : Ty} :
      c.script.operand v = .ok o → o.kind = .bound name .receiver (some owner) →
      readDecl owner = .ok t → Given c t
  | tested {v : OperandId} {text : String} {o : Operand} {t : Ty} :
      c.script.operand v = .ok o → o.literal? = some (.string text) →
      readDecl text = .ok t → Given c t
  | property {cls : ClassId} {d : ClassDecl} {p : Property} :
      c.script.classDecl cls = .ok d → p ∈ d.properties → Given c p.ty
  | function {id : FunctionId} {f : Function} {t : Ty} :
      c.script.function id = .ok f → c.functionReturn f = .ok t → Given c t
  | method {id : FunctionId} {f : Function} {t : Ty} :
      c.script.function id = .ok f → c.methodReturn f = .ok t → Given c t
  | param {id : OpId} {name : String} {declared : Option String} {default : Option OperandId}
      {function : Option FunctionId} {t : Ty} :
      c.script.op id = .ok (.param name declared default function) →
      c.param name declared default function = .ok t → Given c t
  | signature {name text : String} {t : Ty} :
      c.lookup.signatures.functionReturn name = some text → readDecl text = .ok t → Given c t
  | methodSignature {cls name text : String} {t : Ty} :
      text ∈ c.lookup.signatures.methodReturns cls name → readDecl text = .ok t → Given c t
  | constant {name text : String} {t : Ty} :
      c.lookup.signatures.constant name = some text → readDecl text = .ok t → Given c t

/-- A seed is a type that is given, or that of a literal. -/
theorem given_of_seeds {c : Context} {v : OperandId} {t : Ty} (h : c.script.Seeds v t) :
    t.isUnknown = false ∧ (c.Given t ∨ t.isSimple = true) := by
  obtain ⟨o, ho, hseed⟩ := h
  rw [seedType] at hseed
  split at hseed
  · next hknown =>
    obtain rfl := Option.some.inj (Except.ok.inj hseed)
    exact ⟨by simpa using hknown, .inl (.operand ho)⟩
  · split at hseed
    · next hkind =>
      obtain ⟨u, hu, hut⟩ := map_eq_ok.mp hseed
      obtain rfl := Option.some.inj hut
      exact ⟨Ty.isUnknown_of_isNormal (isNormal_of_readDecl hu), .inl (.receiver ho hkind hu)⟩
    · next l _ =>
      split at hseed
      · next u hu =>
        obtain rfl := Option.some.inj (Except.ok.inj hseed)
        cases l <;> cases hu <;> exact ⟨rfl, .inr rfl⟩
      · cases hseed
    · cases hseed

section Rules

variable {c : Context} {F : Fault → Prop} {G : Ref → Prop} (hc : c.Leads F G)
variable {P : Ty → Prop} (hP : Ty.Class P)
variable (hgiven : ∀ t, c.Given t → t.isUnknown = false → P t) {known : Known}

/-! ### Members -/

section Functions

include hc hgiven

theorem functionCall_yields {name : OperandId} (hname : G (.operand name)) :
    Yields F (Candidates.All P) (c.functionCall name) := by
  refine (safe_literalName hc hname .functionName).bind fun s _ _ => ?_
  split
  · exact Candidates.All.none
  · split
    · next ids hids =>
      have hall : Yields F (fun ts => ∀ t ∈ ts, P t)
          (ids.mapM fun id => do c.functionReturn (← c.script.function id)) := by
        refine Yields.mapM fun id hid =>
          (hc.function id (hc.named _ ids hids id hid)).bind fun f hf _ => ?_
        exact (safe_functionReturn hc.declared c f).mono fun t ht _ =>
          hgiven t (.function hf ht) (Ty.isUnknown_of_isNormal (isNormal_of_functionReturn ht))
      exact hall.map fun ts _ hts => .some hts
    · split
      · next text htext =>
        exact (safe_readDecl hc.declared text).map fun t ht _ => .one
          (hgiven t (.signature htext ht) (Ty.isUnknown_of_isNormal (isNormal_of_readDecl ht)))
      · exact Candidates.All.none

theorem methodReturns_yields (name handler : String) {classes : List ClassId}
    (hclasses : ∀ cls ∈ classes, G (.classDecl cls)) :
    Yields F (fun ts => ∀ t ∈ ts, P t) (c.methodReturns name handler classes) := by
  induction classes with
  | nil => exact fun t ht => absurd ht List.not_mem_nil
  | cons cls rest ih =>
    obtain ⟨hcls, hrest⟩ := List.forall_mem_cons.mp hclasses
    refine (findMethod_yields hc hcls name handler).bind fun m _ hm => ?_
    split
    · exact ih hrest
    · next f _ =>
      obtain ⟨id, hf⟩ := hm f rfl
      refine (safe_methodReturn hc.declared c f).bind fun t ht _ =>
        (ih hrest).map fun ts _ hts => ?_
      have hknown := Ty.isUnknown_of_isNormal (isNormal_of_methodReturn ht)
      exact List.forall_mem_cons.mpr ⟨hgiven t (.method hf ht) hknown, hts⟩

theorem methodOf_yields (cls name : String) (isStatic : Bool) :
    Yields F (Candidates.All P) (c.methodOf cls name isStatic) := by
  rw [methodOf]
  split
  · have hall : Yields F (fun ts => ∀ t ∈ ts, P t)
        ((c.lookup.signatures.methodReturns cls name).mapM readDecl) := by
      refine Yields.mapM fun text htext => (safe_readDecl hc.declared text).mono fun t ht _ => ?_
      exact hgiven t (.methodSignature htext ht)
        (Ty.isUnknown_of_isNormal (isNormal_of_readDecl ht))
    exact hall.map fun ts _ hts => .orWait hts
  · next set hset =>
    have hclasses := hc.ancestor cls set hset
    exact (methodReturns_yields hc hgiven name _ hclasses).map fun ts _ hts => .orWait hts

/-- Of the properties of a class, those have types that are given. -/
theorem propertyTypes_yields (name : String) {classes : List ClassId}
    (hclasses : ∀ cls ∈ classes, G (.classDecl cls)) :
    Yields F (Candidates.All P) (c.propertyTypes name classes) := by
  induction classes with
  | nil => exact .some (by simp)
  | cons cls rest ih =>
    obtain ⟨hcls, hrest⟩ := List.forall_mem_cons.mp hclasses
    refine (hc.classDecl cls hcls).bind fun d hd _ => ?_
    split
    · exact ih hrest
    · next p hp =>
      split
      · exact Candidates.All.none
      · next hknown =>
        refine (ih hrest).map fun ts _ hts => ?_
        rcases ts with - | ts
        · exact Candidates.All.none
        · refine .some (List.forall_mem_cons.mpr ⟨?_, hts ts rfl⟩)
          exact hgiven _ (.property hd (List.mem_of_find?_eq_some hp))
            (Bool.eq_false_iff.mpr hknown)

end Functions

include hc hgiven hP

theorem methodCall_yields {receiver name : OperandId} (hreceiver : G (.operand receiver))
    (hname : G (.operand name)) (isStatic : Bool) :
    Yields F (Candidates.All P) (c.methodCall known receiver name isStatic) := by
  refine (safe_literalName hc hname .methodName).bind fun s _ _ => ?_
  split
  · exact Candidates.All.none
  · split
    · refine (safe_literalName hc hreceiver .className).bind fun cls _ _ => ?_
      split
      · exact methodOf_yields hc hgiven _ _ _
      · exact Candidates.All.one hP.mixed
    · exact methodOf_yields hc hgiven _ _ _
    · exact Candidates.All.none

theorem classType_yields {id : OperandId} (hid : G (.operand id)) :
    Yields F (fun r => ∀ t, r = some t → P t) (c.classType known id) := by
  refine (hc.operand id hid).bind fun o ho _ => ?_
  split
  · rintro t ⟨⟩
    exact hP.simple _ (Ty.isSimple_ofClass _)
  · exact hc.plain _ rfl rfl
  · next hkind =>
    refine (safe_readDecl hc.declared _).map fun t ht _ => ?_
    rintro u ⟨⟩
    exact hgiven t (.receiver ho hkind ht) (Ty.isUnknown_of_isNormal (isNormal_of_readDecl ht))
  · split
    · rintro t ⟨⟩
      exact hP.simple _ rfl
    · rintro t ⟨⟩
      exact hP.simple _ rfl
    · nofun

theorem propertyFetch_yields {owner name : OperandId} (howner : G (.operand owner))
    (hname : G (.operand name)) :
    Yields F (Candidates.All P) (c.propertyFetch known owner name) := by
  refine (safe_literalName hc hname .propertyName).bind fun s _ _ => ?_
  split
  · exact Candidates.All.one hP.mixed
  · refine (classType_yields hc hP hgiven howner).bind fun cls _ _ => ?_
    split
    · exact Candidates.All.none
    · split
      · exact Candidates.All.none
      · next cls' _ _ set hset =>
        refine (propertyTypes_yields hc hgiven _ (hc.ancestor cls' set hset)).map fun ts _ hts => ?_
        exact .bind fun us hus => .orWait (hts us hus)

theorem constFetch_yields {name : OperandId} (hname : G (.operand name))
    (h : Known.Within P (c.namedReads name .constantName c.constReads) known) :
    Yields F (Candidates.All P) (c.constFetch known name) := by
  refine (safe_literalName hc hname .constantName).bind fun s hs _ => ?_
  split
  · exact Candidates.All.none
  · rw [namedReads_eq hs] at h
    split
    · next t ht =>
      refine Candidates.All.one (hP.simple t ?_)
      unfold keywordConstant at ht
      split at ht
      · exact Option.some.inj ht ▸ rfl
      · split at ht
        · exact Option.some.inj ht ▸ rfl
        · cases ht
    · next hkeyword =>
      rw [constReads_eq hkeyword] at h
      split
      · next values hv =>
        rw [valuesOf_eq hv] at h
        exact Candidates.All.allKnown h
      · split
        · next text htext =>
          exact (safe_readDecl hc.declared text).map fun t ht _ => .one
            (hgiven t (.constant htext ht) (Ty.isUnknown_of_isNormal (isNormal_of_readDecl ht)))
        · exact Candidates.All.none

omit hc hgiven hP

theorem inheritedConstant_class {name : String} {classes : List String}
    (h : Known.Within P (classes.flatMap fun cls => c.valuesOf (classConstantKey cls name)) known) :
    Candidates.All P (c.inheritedConstant known name classes) := by
  refine Candidates.All.flatten fun cls hcls => ?_
  split
  · next values hv =>
    refine .allKnown (h.mono fun u hu => List.mem_flatMap.mpr ⟨cls, hcls, ?_⟩)
    rwa [valuesOf_eq hv]
  · exact .some (by simp)

theorem classConstant_class {cls name : String}
    (h : Known.Within P (c.classConstantReads cls name) known) :
    Candidates.All P (c.classConstant known cls name) := by
  rw [classConstantReads] at h
  rw [classConstant]
  rcases hvalues : c.lookup.constant (classConstantKey cls name) with - | values
  · simp only [hvalues] at h
    refine .bind fun ancestors hancestors => .bind fun ts hts => .orWait ?_
    simp only [hancestors] at h
    exact inheritedConstant_class h ts hts
  · simp only [hvalues] at h
    exact .allKnown h

include hc

theorem classConstFetch_yields {cls name : OperandId} (hcls : G (.operand cls))
    (hname : G (.operand name))
    (h : Known.Within P (c.namedReads name .constantName (c.classConstReads known cls)) known) :
    Yields F (Candidates.All P) (c.classConstFetch known cls name) := by
  refine (safe_literalName hc hname .constantName).bind fun s hs _ => ?_
  split
  · exact Candidates.All.none
  · rw [namedReads_eq hs, classConstReads] at h
    refine (safe_literalName hc hcls .className).bind fun cls' hcls' _ => ?_
    simp only [hcls'] at h
    split
    · exact classConstant_class h
    · refine Candidates.All.bind fun t ht => .bind fun cls' hcls' => classConstant_class ?_
      simp only [ht, Option.bind_some, hcls'] at h
      exact h.mono fun u hu => List.mem_cons_of_mem cls hu

/-! ### Operations -/

/-- A test for a single type asks for one that is given or known. -/
theorem testType_yields {id : OperandId} (hid : G (.operand id))
    (hgiven : ∀ t, c.Given t → t.isUnknown = false → P t)
    (h : Known.Within P (c.testReads (.operand id)) known) :
    Yields F (fun r => ∀ t, r = some t → P t) (testType c known (.operand id)) := by
  rw [testType]
  refine (hc.operand id hid).bind fun o ho _ => ?_
  split
  · next hl =>
    rw [testReads_operand ho, hl] at h
    exact h id List.mem_cons_self
  · next text htext =>
    refine (safe_readDecl hc.declared text).map fun t ht _ => ?_
    rintro u ⟨⟩
    exact hgiven t (.tested ho htext ht) (Ty.isUnknown_of_isNormal (isNormal_of_readDecl ht))
  · exact hc.plain _ rfl rfl

include hP

theorem binary_yields {id : OpId} {op : BinaryOp} {left right : OperandId}
    (h : Known.Within P (binaryReads op left right) known) :
    Yields F (Candidates.All P) (binary known id op left right) := by
  have hrule := binaryRule_class hP op
  rcases e : binaryRule op with t | f | -
  · simp only [e] at hrule
    simp only [binary, e]
    exact Candidates.All.one hrule
  · simp only [e] at hrule
    simp only [binaryReads, e] at h
    simp only [binary, e]
    rcases hl : known left with - | l
    · exact Candidates.All.none
    · rcases hr : known right with - | r
      · exact Candidates.All.none
      · exact Candidates.All.one (hrule l r (h left (by simp) l hl) (h right (by simp) r hr))
  · simp only [binary, e]
    exact hc.plain _ rfl rfl

include hgiven

/-- **Candidates of a class.**  The candidates that an operation contributes are in
every class that has what is given and what the operation reads, if what a guard
leaves is. -/
theorem candidates_yields {id : OpId} {op : Op} (hop : c.script.op id = .ok op)
    (hrefs : ∀ r ∈ op.refs, G r)
    (h : Known.Within P (c.reads known op) known)
    (hguard : ∀ expr guard, op = .guarded expr guard →
      Yields F (fun r => ∀ t, r = some t → P t) (c.guardType known expr guard)) :
    Yields F (Candidates.All P) (c.candidates known id op) := by
  have hv : ∀ v ∈ op.operands, G (.operand v) := fun v hv => hrefs _ (Op.operand_mem_refs hv)
  cases op with
  | binary => exact binary_yields hc hP h
  | unary => exact unary_class hP
  | cast => exact cast_class hP h
  | instanceOf | empty | isset | concatList | print | exit =>
    exact Candidates.All.one (hP.simple _ rfl)
  | evaluate | includeFile | yield | phi => exact Candidates.All.none
  | iterator => exact iterator_class hP h
  | array => exact arrayLiteral_class hP h
  | dimFetch => exact dimFetch_class hP h
  | assign | assignRef | clone =>
    exact Candidates.All.bind fun t ht => .one (h _ List.mem_cons_self t ht)
  | closure => exact Candidates.All.one (hP.simple _ (Ty.isSimple_ofClass _))
  | call => exact functionCall_yields hc hgiven (hv _ (by simp [Op.operands]))
  | create cls =>
    have hcls : G (.operand cls) := hv cls (by simp [Op.operands])
    refine (classType_yields hc hP hgiven hcls).map fun r _ hr => .one ?_
    rcases r with - | t
    · exact hP.simple _ rfl
    · exact hr t rfl
  | param name declared default function =>
    have hdefault : ∀ d ∈ default, G (.operand d) :=
      fun d hd => hv d (by simpa [Op.operands] using hd)
    have hfunction : ∀ f ∈ function, G (.function f) :=
      fun f hf => hrefs _ (Op.function_mem_refs (by simpa [Op.functions] using hf))
    exact (safe_param hc _ _ hdefault hfunction).map fun t ht _ => .one
      (hgiven t (.param hop ht) (Ty.isUnknown_of_isNormal (isNormal_of_param ht)))
  | staticCall | methodCall =>
    exact methodCall_yields hc hP hgiven (hv _ (by simp [Op.operands]))
      (hv _ (by simp [Op.operands])) _
  | propertyFetch | staticPropertyFetch =>
    exact propertyFetch_yields hc hP hgiven (hv _ (by simp [Op.operands]))
      (hv _ (by simp [Op.operands]))
  | guarded expr guard =>
    exact (hguard expr guard rfl).map fun r _ hr => .bind fun t ht => .one (hr t ht)
  | constFetch => exact constFetch_yields hc hP hgiven (hv _ (by simp [Op.operands])) h
  | classConstFetch =>
    exact classConstFetch_yields hc (hv _ (by simp [Op.operands])) (hv _ (by simp [Op.operands])) h

/-- What an operation says has a class, and so has what its producers say of an
operand. -/
theorem answer_yields {id : OpId} (hid : G (.op id))
    (h : ∀ op, c.script.op id = .ok op → Known.Within P (c.reads known op) known ∧
      ∀ expr guard, op = .guarded expr guard →
        Yields F (fun r => ∀ t, r = some t → P t) (c.guardType known expr guard)) :
    Yields F (Answer.All P) (c.answer known id) := by
  refine (hc.op id hid).bind fun op hop hrefs => ?_
  obtain ⟨hreads, hguard⟩ := h op hop
  have hof : ∀ r : Candidates, Candidates.All P r → Answer.All P (Answer.of r) := by
    intro r hr
    rcases r with - | ts
    · trivial
    · exact hr ts rfl
  cases op with
  | phi vars => exact phi_class hP hreads
  | _ => exact (candidates_yields hc hP hgiven hop hrefs hreads hguard).map fun r _ hr => hof r hr

theorem gather_yields {ids : List OpId} (hall : ∀ id ∈ ids, G (.op id))
    (h : ∀ id ∈ ids, ∀ op, c.script.op id = .ok op → Known.Within P (c.reads known op) known ∧
      ∀ expr guard, op = .guarded expr guard →
        Yields F (fun r => ∀ t, r = some t → P t) (c.guardType known expr guard)) :
    Yields F (Answer.All P) (c.gather known ids) := by
  induction ids with
  | nil => exact fun t ht => absurd ht List.not_mem_nil
  | cons id ids ih =>
    obtain ⟨hop, hops⟩ := List.forall_mem_cons.mp h
    obtain ⟨hid, hids⟩ := List.forall_mem_cons.mp hall
    refine (answer_yields hc hP hgiven hid hop).bind fun a _ ha => ?_
    cases a with
    | wait => trivial
    | provisional t => exact ha
    | candidates ts =>
      refine (ih hids hops).map fun b _ hb => ?_
      cases b with
      | wait => trivial
      | provisional t => exact hb
      | candidates us => exact fun t ht => (List.mem_append.mp ht).elim (ha t) (hb t)

/-- **Types of a class.**  What can be said of an operand is in every class that has
what is given and what the producers of the operand read. -/
theorem verdict_yields {v : OperandId} (hv : G (.operand v))
    (h : ∀ op, c.script.Produces op v → Known.Within P (c.reads known op) known ∧
      ∀ expr guard, op = .guarded expr guard →
        Yields F (fun r => ∀ t, r = some t → P t) (c.guardType known expr guard)) :
    Yields F (Verdict.All P) (c.verdict known v) := by
  refine (hc.operand v hv).bind fun o ho hrefs => ?_
  have hops : ∀ id ∈ o.ops, ∀ op, c.script.op id = .ok op → c.script.Produces op v :=
    fun id hid op hop => ⟨o, ho, id, hid, hop⟩
  have hids : ∀ id ∈ o.ops, G (.op id) := fun id hid => hrefs _ (List.mem_map_of_mem hid)
  refine (gather_yields hc hP hgiven hids fun id hid op hop => h op (hops id hid op hop)).map
    fun a _ ha => ?_
  cases a with
  | wait => trivial
  | provisional t => exact ha
  | candidates ts =>
    rw [Answer.verdict]
    split
    · next t ht => exact hP.merge ts t ha ht
    · trivial

end Rules

end Context

end Inference

end SsaTypes
