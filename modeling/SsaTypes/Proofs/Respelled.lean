/-
SsaTypes/Proofs/Respelled.lean

Rules under a new spelling.  `Script.respell f docs` spells the names of classes,
functions and methods anew, and the texts of declarations; doc comments stay as they
are, or go if they are not to be kept.  What a rule says over the old script and over the
new one is equal up to the spelling of class names,

    respell (verdict over the new script)  =  respell (verdict over the old one),

and so is a fault, if names are folded in the same way (`Spelling`) and comments that
are read are kept (`Respelled`).  No rule looks at a name in another way, and the two
runs need not even know the same types: equal up to spelling is enough.
-/
import SsaTypes.Inference.Run
import SsaTypes.Proofs.Spelling

namespace SsaTypes

open Text

/-! ### New spellings -/

def DeclError.respell (f : String → String) : DeclError → DeclError
  | .empty => .empty
  | .invalidIdentifier text => .invalidIdentifier (f text)
  | .unmatchedParens text => .unmatchedParens (f text)
  | .danglingCombinator text => .danglingCombinator (f text)
  | .missingCombinator text => .missingCombinator (f text)

section Scripts

variable (f : String → String) (docs : Bool)

/-- Only the owner of a bound name is the text of a declaration. -/
def OperandKind.respell : OperandKind → OperandKind
  | .bound name scope owner => .bound name scope (owner.map f)
  | kind => kind

def Operand.respell (o : Operand) : Operand :=
  { o with kind := o.kind.respell f }

/-- Only parameters have a declared type. -/
def Op.respell : Op → Op
  | .param name declared default function => .param name (declared.map f) default function
  | op => op

def Property.respell (p : Property) : Property :=
  { p with declared := p.declared.map f, doc := if docs then p.doc else none }

def ClassDecl.respell (d : ClassDecl) : ClassDecl :=
  { d with
    name := f d.name
    parents := d.parents.map f
    interfaces := d.interfaces.map f
    properties := d.properties.map (Property.respell f docs) }

def Function.respell (g : Function) : Function :=
  { g with name := f g.name, returns := g.returns.map f, doc := if docs then g.doc else none }

/-- The script with its names and declarations spelled anew.  The types that operands and
properties have already stay. -/
def Script.respell (s : Script) : Script :=
  { s with
    operands := s.operands.map (Operand.respell f)
    ops := s.ops.map (Op.respell f)
    classes := s.classes.map (ClassDecl.respell f docs)
    functions := s.functions.map (Function.respell f docs) }

end Scripts

/-- The fault with names, texts and types spelled anew. -/
def Fault.respell (f : String → String) : Fault → Fault
  | .declaration e => .declaration (e.respell f)
  | .unmodeled id op => .unmodeled id (op.respell f)
  | .emptied whole removed => .emptied (whole.respell f) (removed.respell f)
  | fault => fault

/-! ### Steps that agree -/

/-- Two steps agree if they give values that look the same, or faults that differ in
spelling only. -/
def Agree (f : String → String) {α β : Type} (view : α → β) (x y : Except Fault α) : Prop :=
  (x.map view).mapError (Fault.respell f) = (y.map view).mapError (Fault.respell f)

namespace Agree

variable {f : String → String} {α β γ δ : Type} {view : α → β} {view' : γ → δ}
variable {x y : Except Fault α}

theorem of_eq (h : x = y) : Agree f view x y := by
  rw [h]
  exact rfl

theorem ok {a b : α} (h : view a = view b) :
    Agree f view (.ok a : Except Fault α) (.ok b) :=
  congrArg Except.ok h

theorem error {e e' : Fault} (h : e.respell f = e'.respell f) :
    Agree f view (.error e : Except Fault α) (.error e') :=
  congrArg Except.error h

theorem elim (h : Agree f view x y) :
    (∃ e e', x = .error e ∧ y = .error e' ∧ e.respell f = e'.respell f) ∨
      ∃ a b, x = .ok a ∧ y = .ok b ∧ view a = view b := by
  rcases x with e | a <;> rcases y with e' | b
  · exact .inl ⟨e, e', rfl, rfl, Except.error.inj h⟩
  · cases h
  · cases h
  · exact .inr ⟨a, b, rfl, rfl, Except.ok.inj h⟩

theorem bind {g g' : α → Except Fault γ} (h : Agree f view x y)
    (hg : ∀ a b, view a = view b → Agree f view' (g a) (g' b)) :
    Agree f view' (x >>= g) (y >>= g') := by
  obtain ⟨e, e', rfl, rfl, he⟩ | ⟨a, b, rfl, rfl, hab⟩ := h.elim
  · exact error he
  · exact hg a b hab

theorem map {g g' : α → γ} (h : Agree f view x y)
    (hg : ∀ a b, view a = view b → view' (g a) = view' (g' b)) :
    Agree f view' (x.map g) (y.map g') := by
  obtain ⟨e, e', rfl, rfl, he⟩ | ⟨a, b, rfl, rfl, hab⟩ := h.elim
  · exact error he
  · exact ok (hg a b hab)

/-- Both steps begin in the same way. -/
theorem bind_same {g g' : α → Except Fault γ} (hg : ∀ a, Agree f view' (g a) (g' a)) :
    Agree f view' (x >>= g) (x >>= g') := by
  rcases x with e | a
  · exact error rfl
  · exact hg a

/-- One step begins with the image of what the other begins with. -/
theorem bind_map {r : α → β} {g : β → Except Fault γ} {g' : α → Except Fault γ}
    (hg : ∀ a, Agree f view' (g (r a)) (g' a)) :
    Agree f view' (x.map r >>= g) (x >>= g') := by
  rcases x with e | a
  · exact error rfl
  · exact hg a

theorem mapM {g g' : γ → Except Fault α} (hg : ∀ c, Agree f view (g c) (g' c)) (cs : List γ) :
    Agree f (List.map view) (cs.mapM g) (cs.mapM g') := by
  induction cs with
  | nil => exact ok rfl
  | cons c cs ih =>
    rw [List.mapM_cons, List.mapM_cons]
    refine (hg c).bind fun a b hab => ih.bind fun as bs habs => ok ?_
    rw [List.map_cons, List.map_cons, hab, habs]

end Agree

namespace Inference

/-- A way to spell names anew that folds nothing else, and changes declarations only in
the spelling of class names. -/
structure Spelling (f : String → String) : Prop where
  fold : ∀ s, Text.fold (f s) = Text.fold s
  reads : ∀ text, Agree f (Ty.respell f) (readDecl (f text)) (readDecl text)

/-- The types known, with class names spelled anew. -/
def Known.respell (f : String → String) (known : Known) : Known :=
  fun v => (known v).map (Ty.respell f)

/-- The candidates with class names spelled anew. -/
def Candidates.respell (f : String → String) : Candidates → Candidates :=
  Option.map (List.map (Ty.respell f))

/-- The answer with class names spelled anew. -/
def Answer.respell (f : String → String) : Answer → Answer
  | .wait => .wait
  | .provisional t => .provisional (t.respell f)
  | .candidates ts => .candidates (ts.map (Ty.respell f))

/-- The verdict with class names spelled anew. -/
def Verdict.respell (f : String → String) : Verdict → Verdict
  | .wait => .wait
  | .provisional t => .provisional (t.respell f)
  | .confirmed t => .confirmed (t.respell f)

/-- Options with the same image are both empty, or their values have the same image. -/
theorem cases_of_map_eq {α β : Type} {g : α → β} {x y : Option α} (h : x.map g = y.map g) :
    (x = none ∧ y = none) ∨ ∃ a b, x = some a ∧ y = some b ∧ g a = g b := by
  rcases x with - | a <;> rcases y with - | b
  · exact .inl ⟨rfl, rfl⟩
  · cases h
  · cases h
  · exact .inr ⟨a, b, rfl, rfl, Option.some.inj h⟩

/-- Lists with the same images, element by element, if all elements have values. -/
theorem map_mapM_congr {α β γ : Type} {g : β → γ} {x y : α → Option β}
    (h : ∀ a, (x a).map g = (y a).map g) (as : List α) :
    (as.mapM x).map (List.map g) = (as.mapM y).map (List.map g) := by
  induction as with
  | nil => rfl
  | cons a as ih =>
    rw [List.mapM_cons, List.mapM_cons]
    obtain ⟨hx, hy⟩ | ⟨b, c, hx, hy, hbc⟩ := cases_of_map_eq (h a)
    · rw [hx, hy]
      rfl
    · obtain ⟨hxs, hys⟩ | ⟨bs, cs, hxs, hys, hbcs⟩ := cases_of_map_eq ih
      · rw [hx, hy, hxs, hys]
        rfl
      · rw [hx, hy, hxs, hys]
        show some (g b :: bs.map g) = some (g c :: cs.map g)
        rw [hbc, hbcs]

theorem className?_of_respell {f : String → String} {r r' : Option Ty}
    (h : r.map (Ty.respell f) = r'.map (Ty.respell f)) :
    (r.bind Ty.className?).map f = (r'.bind Ty.className?).map f := by
  obtain ⟨rfl, rfl⟩ | ⟨t, u, rfl, rfl, htu⟩ := cases_of_map_eq h
  · rfl
  · rw [Option.bind_some, Option.bind_some, ← Ty.className?_respell, htu, Ty.className?_respell]

theorem orWait_respell {f : String → String} {ts us : List Ty}
    (h : ts.map (Ty.respell f) = us.map (Ty.respell f)) :
    Candidates.respell f (orWait ts) = Candidates.respell f (orWait us) := by
  have hempty : ts.isEmpty = us.isEmpty := by
    rw [← List.isEmpty_map, h, List.isEmpty_map]
  rw [orWait, orWait, hempty]
  split
  · rfl
  · exact congrArg some h

section Values

variable {f : String → String} (hf : ∀ s, Text.fold (f s) = Text.fold s)
variable {known known' : Known} (hk : known'.respell f = known.respell f)
include hk

theorem cases_of_known (v : OperandId) :
    (known' v = none ∧ known v = none) ∨
      ∃ t u, known' v = some t ∧ known v = some u ∧ t.respell f = u.respell f :=
  cases_of_map_eq (congrFun hk v)

/-! ### Plain values -/

/-- A rule that makes one candidate from the type of one operand. -/
theorem respell_bind_one {g g' : Ty → Ty} (v : OperandId)
    (hg : ∀ t u, t.respell f = u.respell f → (g t).respell f = (g' u).respell f) :
    Candidates.respell f ((known' v).bind fun t => one (g t)) =
      Candidates.respell f ((known v).bind fun t => one (g' t)) := by
  obtain ⟨h', h⟩ | ⟨t, u, h', h, htu⟩ := cases_of_known hk v
  · rw [h', h]
    rfl
  · rw [h', h]
    show one ((g t).respell f) = one ((g' u).respell f)
    rw [hg t u htu]

theorem allKnown_respell (ids : List OperandId) :
    Candidates.respell f (allKnown known' ids) = Candidates.respell f (allKnown known ids) :=
  map_mapM_congr (congrFun hk) ids

theorem unary_respell (op : UnaryOp) (expr : OperandId) :
    Candidates.respell f (unary known' op expr) = Candidates.respell f (unary known op expr) := by
  cases op with
  | booleanNot => rfl
  | bitwiseNot | minus | plus =>
    refine respell_bind_one hk expr fun t u htu => ?_
    rw [← unaryType_respell, htu, unaryType_respell]

theorem iterator_respell (kind : IteratorOp) (var : OperandId) :
    Candidates.respell f (iterator known' kind var) =
      Candidates.respell f (iterator known kind var) := by
  cases kind with
  | reset | valid | key => rfl
  | value =>
    obtain ⟨h', h⟩ | ⟨t, u, h', h, htu⟩ := cases_of_known hk var
    · simp only [iterator, h', h]
    · simp only [iterator, h', h, Option.bind_some]
      -- only the element types are looked at
      have he := congrArg Ty.element? htu
      rw [Ty.element?_respell, Ty.element?_respell] at he
      obtain ⟨ht, hu⟩ | ⟨d, e, ht, hu, hde⟩ := cases_of_map_eq he
      · rw [ht, hu]
      · rw [ht, hu]
        exact congrArg one hde

theorem dimFetch_respell (base : OperandId) :
    Candidates.respell f (dimFetch known' base) = Candidates.respell f (dimFetch known base) := by
  refine respell_bind_one hk base fun t u htu => ?_
  rw [← dimType_respell, htu, dimType_respell]

include hf

theorem binary_respell (id : OpId) (op : BinaryOp) (left right : OperandId) :
    Agree f (Candidates.respell f) (binary known' id op left right)
      (binary known id op left right) := by
  have hrule : ∀ g, binaryRule op = .ofTypes g →
      ∀ l r : Ty, g (l.respell f) (r.respell f) = (g l r).respell f := by
    cases op <;> rintro g ⟨⟩
    all_goals first
      | exact bitwise_respell
      | exact arithmetic_respell hf
  rcases e : binaryRule op with t | g | -
  · exact .of_eq (by simp only [binary, e])
  · simp only [binary, e]
    refine .ok ?_
    obtain ⟨hl', hl⟩ | ⟨t, u, hl', hl, htu⟩ := cases_of_known hk left
    · rw [hl', hl]
    · obtain ⟨hr', hr⟩ | ⟨v, w, hr', hr, hvw⟩ := cases_of_known hk right
      · rw [hl', hl, hr', hr]
      · rw [hl', hl, hr', hr]
        show one ((g t v).respell f) = one ((g u w).respell f)
        rw [← hrule g e, ← hrule g e, htu, hvw]
  · exact .of_eq (by simp only [binary, e])

theorem cast_respell (kind : CastKind) (expr : OperandId) :
    Candidates.respell f (cast known' kind expr) = Candidates.respell f (cast known kind expr) := by
  cases kind with
  | bool | int | double | string => rfl
  | array => exact respell_bind_one hk expr fun _ _ _ => rfl
  | object =>
    refine respell_bind_one hk expr fun t u htu => ?_
    rw [Ty.isSubset_congr hf htu (rfl : Ty.object.respell f = _)]
    split
    · exact htu
    · rfl

theorem arrayLiteral_respell (values : List OperandId) :
    Candidates.respell f (arrayLiteral known' values) =
      Candidates.respell f (arrayLiteral known values) := by
  rw [arrayLiteral, arrayLiteral]
  obtain ⟨h', h⟩ | ⟨ts, us, h', h, htu⟩ := cases_of_map_eq (allKnown_respell hk values)
  · rw [h', h]
  · rw [h', h, Option.bind_some, Option.bind_some]
    obtain ⟨ht, hu⟩ | ⟨t, u, ht, hu, htu⟩ := cases_of_map_eq (Ty.merge?_congr hf htu)
    · rw [ht, hu]
    · rw [ht, hu]
      exact congrArg (fun t => one (Ty.arrayOf t)) htu

theorem phi_respell (vars : List OperandId) :
    (phi known' vars).respell f = (phi known vars).respell f := by
  have hall : (vars.all fun v => (known' v).isSome) = vars.all fun v => (known v).isSome := by
    congr 1
    funext v
    obtain ⟨h', h⟩ | ⟨t, u, h', h, -⟩ := cases_of_known hk v <;> rw [h', h]
    rfl
  have hvars : (vars.filterMap known').map (Ty.respell f) =
      (vars.filterMap known).map (Ty.respell f) := by
    rw [List.map_filterMap, List.map_filterMap]
    exact congrArg (fun g => vars.filterMap g) hk
  rw [phi, phi, hall]
  obtain ⟨ht, hu⟩ | ⟨t, u, ht, hu, htu⟩ := cases_of_map_eq (Ty.merge?_congr hf hvars)
  · rw [ht, hu]
  · rw [ht, hu]
    simp only
    split
    · exact congrArg (fun t => Answer.candidates [t]) htu
    · exact congrArg Answer.provisional htu

end Values

namespace Context

/-! ### Contexts -/

/-- What rules read of a class: its methods, and the names and types of its properties. -/
def outline (f : String → String) (d : ClassDecl) : List FunctionId × List (String × Ty) :=
  (d.methods, d.properties.map fun p => (p.name, p.ty.respell f))

/-- The property with a name has the same type in two classes with one outline, up to
spelling. -/
theorem property?_of_outline {f : String → String} {d d' : ClassDecl}
    (hd : outline f d' = outline f d) (name : String) :
    (d'.property? name).map (fun p => p.ty.respell f) =
      (d.property? name).map fun p => p.ty.respell f := by
  have hfind (d : ClassDecl) : (d.property? name).map (fun p => p.ty.respell f) =
      ((outline f d).2.find? fun p => decide (p.1 = name)).map Prod.snd := by
    rw [ClassDecl.property?, outline, List.find?_map, Option.map_map]
    rfl
  rw [hfind, hfind, hd]

/-- The second context has the names and declarations of the first in a new spelling, and
its doc comments as far as they are read. -/
structure Respelled (f : String → String) (docs : Bool) (c c' : Context) : Prop
    extends Spelling f where
  useDocs : c.options.useDocComments = true → docs = true
  useDocComments : c'.options.useDocComments = c.options.useDocComments
  operand : ∀ id, c'.script.operand id = (c.script.operand id).map (Operand.respell f)
  op : ∀ id, c'.script.op id = (c.script.op id).map (Op.respell f)
  function : ∀ id, c'.script.function id = (c.script.function id).map (Function.respell f docs)
  classDecl : ∀ id,
    (c'.script.classDecl id).map (outline f) = (c.script.classDecl id).map (outline f)
  ancestors : c'.lookup.hierarchy.ancestors = c.lookup.hierarchy.ancestors
  signatures : c'.lookup.signatures = c.lookup.signatures
  functionsByName : c'.lookup.functionsByName = c.lookup.functionsByName
  constantsByKey : c'.lookup.constantsByKey = c.lookup.constantsByKey

namespace Respelled

variable {f : String → String} {docs : Bool} {c c' : Context} (h : Respelled f docs c c')
variable {known known' : Known} (hk : known'.respell f = known.respell f)

section Script

include h

/-! ### Names and declarations -/

theorem fold_eq {a b : String} (hab : f a = f b) : Text.fold a = Text.fold b := by
  rw [← h.fold a, hab, h.fold b]

omit h in
theorem literal?_respell (o : Operand) : (o.respell f).literal? = o.literal? := by
  rcases o with ⟨kind, ops, ty⟩
  cases kind <;> rfl

theorem literalName (id : OperandId) (role : NameRole) :
    c'.literalName id role = c.literalName id role := by
  rw [Context.literalName, Context.literalName, h.operand]
  rcases c.script.operand id with e | o
  · rfl
  · simp only [Except.map, bind, Except.bind, literal?_respell]

theorem docType (tag : DocTag) (comment : Option String) :
    c'.docType tag (if docs then comment else none) = c.docType tag comment := by
  rw [Context.docType, Context.docType, h.useDocComments]
  split
  · next hread => rw [h.useDocs hread, if_pos rfl]
  · rfl

theorem resolves {cls cls' : String} (hcls : Text.fold cls' = Text.fold cls) :
    c'.lookup.hierarchy.resolves cls' = c.lookup.hierarchy.resolves cls := by
  rw [Hierarchy.resolves, Hierarchy.resolves, h.ancestors, hcls]

/-! ### Functions and methods -/

theorem functionReturn (g : Function) :
    Agree f (Ty.respell f) (c'.functionReturn (g.respell f docs)) (c.functionReturn g) := by
  rw [Context.functionReturn, Context.functionReturn, Function.respell]
  rcases g.returns with - | text
  · exact .of_eq (h.docType .returned g.doc)
  · exact h.reads text

theorem functionCall (name : OperandId) :
    Agree f (Candidates.respell f) (c'.functionCall name) (c.functionCall name) := by
  rw [Context.functionCall, Context.functionCall, h.literalName]
  refine .bind_same fun s => ?_
  rcases s with - | name
  · exact .ok rfl
  · simp only [Lookup.functions, h.functionsByName, h.signatures]
    split
    · next ids _ =>
      have hall : Agree f (List.map (Ty.respell f))
          (ids.mapM fun id => do c'.functionReturn (← c'.script.function id))
          (ids.mapM fun id => do c.functionReturn (← c.script.function id)) := by
        refine .mapM (fun id => ?_) ids
        rw [h.function]
        exact .bind_map h.functionReturn
      exact hall.map fun _ _ hts => congrArg some hts
    · exact .of_eq rfl

theorem methodReturn (m : Function) :
    Agree f (Ty.respell f) (c'.methodReturn (m.respell f docs)) (c.methodReturn m) := by
  have hchoose (doc declared declared' : Ty) (hd : declared'.respell f = declared.respell f) :
      (if doc.isStrictSubset declared' then doc else declared').respell f =
        (if doc.isStrictSubset declared then doc else declared).respell f := by
    rw [Ty.isStrictSubset_congr h.fold (rfl : doc.respell f = _) hd]
    split
    · rfl
    · exact hd
  rw [Context.methodReturn, Context.methodReturn]
  show Agree f _ (c'.docType .returned (if docs then m.doc else none) >>= _) _
  rw [h.docType]
  refine .bind_same fun doc => ?_
  rw [show (m.respell f docs).returns = m.returns.map f from rfl]
  rcases m.returns with - | text
  · exact .of_eq rfl
  · exact (h.reads text).bind fun declared' declared hd => .ok (hchoose doc declared declared' hd)

theorem methodNamed (name : String) (ids : List FunctionId) :
    c'.methodNamed name ids =
      (c.methodNamed name ids).map (Option.map (Function.respell f docs)) := by
  induction ids with
  | nil => rfl
  | cons id ids ih =>
    rw [Context.methodNamed, Context.methodNamed, h.function]
    rcases c.script.function id with e | g
    · rfl
    · have hname : sameName (g.respell f docs).name name = sameName g.name name :=
        Ty.sameName_respell h.fold g.name name
      simp only [Except.map, bind, Except.bind, hname, ih]
      split <;> rfl

theorem cases_of_classDecl (cls : ClassId) :
    (∃ e, c'.script.classDecl cls = .error e ∧ c.script.classDecl cls = .error e) ∨
      ∃ d' d, c'.script.classDecl cls = .ok d' ∧ c.script.classDecl cls = .ok d ∧
        outline f d' = outline f d := by
  have hcls := h.classDecl cls
  rcases h' : c'.script.classDecl cls with e' | d' <;>
    rcases h : c.script.classDecl cls with e | d <;> rw [h', h] at hcls
  · exact .inl ⟨e, congrArg _ (Except.error.inj hcls), rfl⟩
  · cases hcls
  · cases hcls
  · exact .inr ⟨d', d, rfl, rfl, Except.ok.inj hcls⟩

theorem findMethod (cls : ClassId) (name handler : String) :
    c'.findMethod cls name handler =
      (c.findMethod cls name handler).map (Option.map (Function.respell f docs)) := by
  rw [Context.findMethod, Context.findMethod]
  obtain ⟨e, h₁, h₂⟩ | ⟨d', d, h₁, h₂, hd⟩ := h.cases_of_classDecl cls
  · rw [h₁, h₂]
    rfl
  · have hmethods : d'.methods = d.methods := congrArg Prod.fst hd
    rw [h₁, h₂]
    simp only [bind, Except.bind, hmethods, h.methodNamed]
    rcases c.methodNamed name d.methods with e | - | m
    · rfl
    · rfl
    · rfl

theorem methodReturns (name handler : String) (classes : List ClassId) :
    Agree f (List.map (Ty.respell f)) (c'.methodReturns name handler classes)
      (c.methodReturns name handler classes) := by
  induction classes with
  | nil => exact .ok rfl
  | cons cls rest ih =>
    rw [Context.methodReturns, Context.methodReturns, h.findMethod]
    refine .bind_map fun m => ?_
    rcases m with - | m
    · exact ih
    · refine (h.methodReturn m).bind fun t u htu => ih.map fun ts us hts => ?_
      rw [List.map_cons, List.map_cons, htu, hts]

theorem methodOf {cls cls' : String} (hcls : Text.fold cls' = Text.fold cls) (name : String)
    (isStatic : Bool) :
    Agree f (Candidates.respell f) (c'.methodOf cls' name isStatic)
      (c.methodOf cls name isStatic) := by
  have hsignatures : c'.lookup.signatures.methodReturns cls' name =
      c.lookup.signatures.methodReturns cls name := by
    rw [Signatures.methodReturns, Signatures.methodReturns, h.signatures, hcls]
  rw [Context.methodOf, Context.methodOf, h.resolves hcls, hsignatures]
  split
  · exact .of_eq rfl
  · exact (h.methodReturns name _ _).map fun _ _ => orWait_respell

theorem propertyTypes (name : String) (classes : List ClassId) :
    Agree f (Candidates.respell f) (c'.propertyTypes name classes)
      (c.propertyTypes name classes) := by
  induction classes with
  | nil => exact .ok rfl
  | cons cls rest ih =>
    rw [Context.propertyTypes, Context.propertyTypes]
    obtain ⟨e, h₁, h₂⟩ | ⟨d', d, h₁, h₂, hd⟩ := h.cases_of_classDecl cls
    · rw [h₁, h₂]
      exact .error rfl
    · rw [h₁, h₂]
      simp only [bind, Except.bind]
      obtain ⟨hp', hp⟩ | ⟨p', p, hp', hp, hty⟩ := cases_of_map_eq (property?_of_outline hd name)
      · rw [hp', hp]
        exact ih
      · rw [hp', hp]
        have hunknown : p'.ty.isUnknown = p.ty.isUnknown := by
          rw [← Ty.isUnknown_respell f, hty, Ty.isUnknown_respell]
        simp only [hunknown]
        split
        · exact .ok rfl
        · refine ih.map fun ts us hts => ?_
          obtain ⟨rfl, rfl⟩ | ⟨ts, us, rfl, rfl, htu⟩ := cases_of_map_eq hts
          · rfl
          · show some (p'.ty.respell f :: ts.map (Ty.respell f)) =
              some (p.ty.respell f :: us.map (Ty.respell f))
            rw [hty, htu]

theorem isNullConstant (id : OperandId) : c'.isNullConstant id = c.isNullConstant id := by
  rw [Context.isNullConstant, Context.isNullConstant, h.operand]
  rcases c.script.operand id with e | o
  · rfl
  · obtain ⟨kind, ops, ty⟩ := o
    rcases ops with - | ⟨first, rest⟩
    · rfl
    · simp only [Except.map, bind, Except.bind, Operand.respell, h.op]
      rcases c.script.op first with e | op
      · rfl
      · cases op with
        | constFetch name =>
          simp only [Except.map, Op.respell, h.operand]
          rcases c.script.operand name with e | o
          · rfl
          · simp only [literal?_respell]
        | _ => rfl

theorem param (name : String) (declared : Option String) (default : Option OperandId)
    (function : Option FunctionId) :
    Agree f (Ty.respell f) (c'.param name (declared.map f) default function)
      (c.param name declared default function) := by
  have hnull (t u : Ty) (htu : t.respell f = u.respell f) (isNull : Bool) :
      (if isNull then t.orNull.simplify else t).respell f =
        (if isNull then u.orNull.simplify else u).respell f := by
    cases isNull with
    | false => exact htu
    | true =>
      show t.orNull.simplify.respell f = u.orNull.simplify.respell f
      rw [← Ty.simplify_respell, ← Ty.simplify_respell]
      simp only [Ty.orNull, Ty.respell_comb, List.map_cons, htu]
  -- a default of null widens both types, or neither
  have hdefault (d : OperandId) (t u : Ty) (htu : t.respell f = u.respell f) :
      Agree f (Ty.respell f)
        ((c'.isNullConstant d).map fun isNull : Bool => if isNull then t.orNull.simplify else t)
        ((c.isNullConstant d).map fun isNull : Bool =>
          if isNull then u.orNull.simplify else u) := by
    rw [h.isNullConstant]
    rcases c.isNullConstant d with e | isNull
    · exact .error rfl
    · exact .ok (hnull t u htu isNull)
  rcases declared with - | text
  · rcases function with - | g
    · rcases default with - | d
      · exact .ok rfl
      · exact hdefault d _ _ rfl
    · show Agree f _ (c'.script.function g >>= _) (c.script.function g >>= _)
      rw [h.function]
      refine .bind_map fun g => ?_
      show Agree f _ (c'.docType _ (if docs then g.doc else none) >>= _) _
      rw [h.docType]
      refine .bind_same fun t => ?_
      rcases default with - | d
      · exact .ok rfl
      · exact hdefault d t t rfl
  · refine (h.reads text).bind fun t u htu => ?_
    rcases default with - | d
    · exact .ok htu
    · exact hdefault d t u htu

end Script

/-! ### Types known -/

section Known

include h hk

theorem methodCall (receiver name : OperandId) (isStatic : Bool) :
    Agree f (Candidates.respell f) (c'.methodCall known' receiver name isStatic)
      (c.methodCall known receiver name isStatic) := by
  rw [Context.methodCall, Context.methodCall, h.literalName]
  refine .bind_same fun s => ?_
  rcases s with - | name
  · exact .ok rfl
  · obtain ⟨h', h₀⟩ | ⟨t, u, h', h₀, htu⟩ := cases_of_known hk receiver
    · simp only [h', h₀]
      exact .ok rfl
    · simp only [h', h₀]
      obtain rfl | ⟨a, b, rfl, rfl, hab⟩ | ⟨d, e, rfl, rfl, -⟩ | ⟨k, ms, ns, rfl, rfl, -⟩ :=
        Ty.cases_of_respell_eq htu
      · cases t with
        | string =>
          simp only [h.literalName]
          refine .bind_same fun s => ?_
          rcases s with - | cls
          · exact .ok rfl
          · exact h.methodOf rfl name isStatic
        | named cls => exact h.methodOf rfl name isStatic
        | _ => exact .ok rfl
      · exact h.methodOf (h.fold_eq hab) name isStatic
      · exact .ok rfl
      · exact .ok rfl

omit h hk in
/-- A step that answers with the class of an object, and in one way for all arrays and
all combinations of types. -/
theorem of_object {r' r : Option Ty} {step : Option Ty → Except Fault (Option Ty)}
    (hr : r'.map (Ty.respell f) = r.map (Ty.respell f))
    (hnamed : ∀ cls, step (some (.named cls)) = .ok (some (.named cls)))
    (harray : ∀ e, step (some (.arrayOf e)) = .ok none)
    (hcomb : ∀ k ms, step (some (.comb k ms)) = .ok none) :
    Agree f (Option.map (Ty.respell f)) (step r') (step r) := by
  obtain ⟨rfl, rfl⟩ | ⟨t, u, rfl, rfl, htu⟩ := cases_of_map_eq hr
  · exact .of_eq rfl
  · obtain rfl | ⟨a, b, rfl, rfl, hab⟩ | ⟨d, e, rfl, rfl, -⟩ | ⟨k, ms, ns, rfl, rfl, -⟩ :=
      Ty.cases_of_respell_eq htu
    · exact .of_eq rfl
    · rw [hnamed, hnamed]
      exact .ok (congrArg (fun cls => some (Ty.named cls)) hab)
    · rw [harray, harray]
      exact .ok rfl
    · rw [hcomb, hcomb]
      exact .ok rfl

theorem classType (id : OperandId) :
    Agree f (Option.map (Ty.respell f)) (c'.classType known' id) (c.classType known id) := by
  have hid : (known' id).map (Ty.respell f) = (known id).map (Ty.respell f) := congrFun hk id
  rw [Context.classType, Context.classType, h.operand]
  refine .bind_map fun o => ?_
  rcases o with ⟨kind, ops, ty⟩
  generalize known' id = r', known id = r at hid
  cases kind with
  | literal v => cases v <;> exact .of_eq rfl
  | «variable» name => apply of_object hid <;> intros <;> rfl
  | bound name scope owner =>
    rcases owner with - | owner
    · cases scope <;> apply of_object hid <;> intros <;> rfl
    · cases scope with
      | receiver => exact (h.reads owner).map fun _ _ hts => congrArg some hts
      | _ => apply of_object hid <;> intros <;> rfl

theorem propertyFetch (owner name : OperandId) :
    Agree f (Candidates.respell f) (c'.propertyFetch known' owner name)
      (c.propertyFetch known owner name) := by
  rw [Context.propertyFetch, Context.propertyFetch, h.literalName]
  refine .bind_same fun s => ?_
  rcases s with - | name
  · exact .ok rfl
  · refine (h.classType hk owner).bind fun r r' hr => ?_
    -- both owners are of a known class, and its names are folded to one
    obtain ⟨h', h₀⟩ | ⟨a, b, h', h₀, hab⟩ := cases_of_map_eq (className?_of_respell hr)
    · simp only [h', h₀]
      exact .ok rfl
    · simp only [h', h₀, h.resolves (h.fold_eq hab)]
      split
      · exact .ok rfl
      · refine (h.propertyTypes name _).map fun ts us hts => ?_
        obtain ⟨rfl, rfl⟩ | ⟨ts, us, rfl, rfl, htu⟩ := cases_of_map_eq hts
        · rfl
        · exact orWait_respell htu

theorem constFetch (name : OperandId) :
    Agree f (Candidates.respell f) (c'.constFetch known' name) (c.constFetch known name) := by
  rw [Context.constFetch, Context.constFetch, h.literalName]
  refine .bind_same fun s => ?_
  rcases s with - | name
  · exact .ok rfl
  · simp only [Lookup.constant, h.constantsByKey, h.signatures]
    split
    · exact .ok rfl
    · split
      · exact .ok (allKnown_respell hk _)
      · exact .of_eq rfl

theorem inheritedConstant (name : String) (classes : List String) :
    Candidates.respell f (c'.inheritedConstant known' name classes) =
      Candidates.respell f (c.inheritedConstant known name classes) := by
  have hflatten (r : Option (List (List Ty))) : Candidates.respell f (r.map List.flatten) =
      (r.map (List.map (List.map (Ty.respell f)))).map List.flatten := by
    rw [Candidates.respell, Option.map_map, Option.map_map]
    exact congrArg (fun g => r.map g) (funext fun _ => List.map_flatten)
  rw [Context.inheritedConstant, Context.inheritedConstant, hflatten, hflatten]
  congr 1
  refine map_mapM_congr (fun cls => ?_) classes
  rw [Lookup.constant, Lookup.constant, h.constantsByKey]
  split
  · exact allKnown_respell hk _
  · rfl

theorem classConstant {cls cls' : String} (hcls : Text.fold cls' = Text.fold cls) (name : String) :
    Candidates.respell f (c'.classConstant known' cls' name) =
      Candidates.respell f (c.classConstant known cls name) := by
  have hkey : classConstantKey cls' name = classConstantKey cls name := by
    rw [classConstantKey, classConstantKey, hcls]
  rw [Context.classConstant, Context.classConstant, hkey, h.resolves hcls, Lookup.constant,
    Lookup.constant, h.constantsByKey]
  split
  · exact allKnown_respell hk _
  · rcases c.lookup.hierarchy.resolves cls with - | ancestors
    · rfl
    · rw [Option.bind_some, Option.bind_some]
      obtain ⟨h', h₀⟩ | ⟨ts, us, h', h₀, htu⟩ :=
        cases_of_map_eq (h.inheritedConstant hk name ancestors.keys)
      · rw [h', h₀]
      · rw [h', h₀]
        exact orWait_respell htu

theorem classConstFetch (cls name : OperandId) :
    Agree f (Candidates.respell f) (c'.classConstFetch known' cls name)
      (c.classConstFetch known cls name) := by
  rw [Context.classConstFetch, Context.classConstFetch, h.literalName]
  refine .bind_same fun s => ?_
  rcases s with - | name
  · exact .ok rfl
  · simp only [h.literalName]
    refine .bind_same fun s => ?_
    rcases s with - | cls'
    · refine .ok ?_
      rw [← Option.bind_assoc, ← Option.bind_assoc]
      obtain ⟨h', h₀⟩ | ⟨a, b, h', h₀, hab⟩ :=
        cases_of_map_eq (className?_of_respell (congrFun hk cls))
      · rw [h', h₀]
        rfl
      · rw [h', h₀]
        exact h.classConstant hk (h.fold_eq hab) name
    · exact .ok (h.classConstant hk rfl name)

end Known

/-! ### Guards -/

mutual

theorem testType (h : Respelled f docs c c') (hk : known'.respell f = known.respell f) :
    (test : TypeTest) →
    Agree f (Option.map (Ty.respell f)) (Context.testType c' known' test)
      (Context.testType c known test)
  | .operand id => by
    rw [Context.testType, Context.testType, h.operand]
    refine .bind_map fun o => ?_
    rw [literal?_respell]
    split
    · exact .ok (congrFun hk id)
    · exact .of_eq rfl
    · exact .of_eq rfl
  | .comb k ms => by
    rw [Context.testType, Context.testType]
    refine (testTypes h hk ms).map fun ts us hts => ?_
    obtain ⟨rfl, rfl⟩ | ⟨ts, us, rfl, rfl, htus⟩ := cases_of_map_eq hts
    · rfl
    · show some ((Ty.comb k ts).respell f) = some ((Ty.comb k us).respell f)
      rw [Ty.respell_comb, Ty.respell_comb, htus]

theorem testTypes (h : Respelled f docs c c') (hk : known'.respell f = known.respell f) :
    (tests : List TypeTest) →
    Agree f (Candidates.respell f) (Context.testTypes c' known' tests)
      (Context.testTypes c known tests)
  | [] => by
    rw [Context.testTypes, Context.testTypes]
    exact .of_eq rfl
  | m :: ms => by
    rw [Context.testTypes, Context.testTypes]
    refine (testType h hk m).bind fun r r' hr => ?_
    obtain ⟨rfl, rfl⟩ | ⟨t, u, rfl, rfl, htu⟩ := cases_of_map_eq hr
    · exact .ok rfl
    · refine (testTypes h hk ms).map fun ts us hts => ?_
      obtain ⟨rfl, rfl⟩ | ⟨ts, us, rfl, rfl, htus⟩ := cases_of_map_eq hts
      · rfl
      · show some (t.respell f :: ts.map (Ty.respell f)) =
          some (u.respell f :: us.map (Ty.respell f))
        rw [htu, htus]

end

section Operations

include h hk

theorem guardType (expr : OperandId) (guard : Guard) :
    Agree f (Option.map (Ty.respell f)) (Context.guardType c' known' expr guard)
      (Context.guardType c known expr guard) := by
  induction guard with
  | holds test =>
    rw [Context.guardType, Context.guardType]
    exact testType h hk test
  | fails g ih =>
    rw [Context.guardType, Context.guardType]
    refine ih.bind fun r r' hr => ?_
    obtain ⟨rfl, rfl⟩ | ⟨excluded, excluded', rfl, rfl, hex⟩ := cases_of_map_eq hr
    · exact .ok rfl
    · -- both narrow the type entered, or anything
      have hsource : ((known' expr).getD .mixed).respell f =
          ((known expr).getD .mixed).respell f := by
        obtain ⟨h', h₀⟩ | ⟨t, u, h', h₀, htu⟩ := cases_of_known hk expr
        · rw [h', h₀]
        · rw [h', h₀]
          exact htu
      simp only
      obtain ⟨h', h₀⟩ | ⟨t, u, h', h₀, htu⟩ :=
        cases_of_map_eq (Ty.remove?_congr h.fold hsource hex)
      · rw [h', h₀]
        exact .error (congrArg₂ Fault.emptied hsource hex)
      · rw [h', h₀]
        exact .ok (congrArg some htu)

/-! ### Operations -/

theorem candidates (id : OpId) (op : Op) :
    Agree f (Candidates.respell f) (c'.candidates known' id (op.respell f))
      (c.candidates known id op) := by
  have hone {r r' : Option Ty} (hr : r.map (Ty.respell f) = r'.map (Ty.respell f)) :
      Candidates.respell f (r.bind one) = Candidates.respell f (r'.bind one) := by
    obtain ⟨rfl, rfl⟩ | ⟨t, u, rfl, rfl, htu⟩ := cases_of_map_eq hr
    · rfl
    · exact congrArg one htu
  cases op with
  | binary op left right => exact binary_respell h.fold hk id op left right
  | unary op expr => exact .ok (unary_respell hk op expr)
  | cast kind expr => exact .ok (cast_respell h.fold hk kind expr)
  | iterator kind var => exact .ok (iterator_respell hk kind var)
  | array keys values => exact .ok (arrayLiteral_respell h.fold hk values)
  | dimFetch var dim => exact .ok (dimFetch_respell hk var)
  | assign var expr => exact .ok (hone (congrFun hk expr))
  | assignRef var expr => exact .ok (hone (congrFun hk expr))
  | clone expr => exact .ok (hone (congrFun hk expr))
  | call name args => exact h.functionCall name
  | create cls args =>
    refine (h.classType hk cls).map fun r r' hr => ?_
    obtain ⟨rfl, rfl⟩ | ⟨t, u, rfl, rfl, htu⟩ := cases_of_map_eq hr
    · rfl
    · exact congrArg one htu
  | param name declared default function =>
    exact (h.param name declared default function).map fun _ _ htu => congrArg one htu
  | staticCall cls name args => exact h.methodCall hk cls name true
  | methodCall var name args => exact h.methodCall hk var name false
  | propertyFetch var name => exact h.propertyFetch hk var name
  | staticPropertyFetch cls name => exact h.propertyFetch hk cls name
  | guarded expr guard => exact (h.guardType hk expr guard).map fun _ _ hr => hone hr
  | constFetch name => exact h.constFetch hk name
  | classConstFetch cls name => exact h.classConstFetch hk cls name
  | _ => exact .of_eq rfl

theorem answer (id : OpId) :
    Agree f (Answer.respell f) (c'.answer known' id) (c.answer known id) := by
  have hof {r r' : Candidates} (hr : Candidates.respell f r = Candidates.respell f r') :
      (Answer.of r).respell f = (Answer.of r').respell f := by
    obtain ⟨rfl, rfl⟩ | ⟨ts, us, rfl, rfl, htu⟩ := cases_of_map_eq hr
    · rfl
    · exact congrArg Answer.candidates htu
  rw [Context.answer, Context.answer, h.op]
  refine .bind_map fun op => ?_
  have hcandidates := h.candidates hk id op
  cases op with
  | phi vars => exact .ok (phi_respell h.fold hk vars)
  | _ => exact hcandidates.map fun _ _ hr => hof hr

theorem gather (ids : List OpId) :
    Agree f (Answer.respell f) (c'.gather known' ids) (c.gather known ids) := by
  induction ids with
  | nil => exact .ok rfl
  | cons id ids ih =>
    rw [Context.gather, Context.gather]
    refine (h.answer hk id).bind fun a b hab => ?_
    -- answers of one kind: only candidates are joined with those of the others
    rcases a with - | t | ts <;> rcases b with - | u | us <;> try cases hab
    · exact .ok rfl
    · exact .ok hab
    · refine ih.map fun a' b' hab' => ?_
      rcases a' with - | t' | ts' <;> rcases b' with - | u' | us' <;> try cases hab'
      · rfl
      · exact hab'
      · show Answer.candidates ((ts ++ ts').map _) = .candidates ((us ++ us').map _)
        rw [List.map_append, List.map_append, Answer.candidates.inj hab,
          Answer.candidates.inj hab']

/-- **The rules see no spelling.** -/
theorem verdict (v : OperandId) :
    Agree f (Verdict.respell f) (c'.verdict known' v) (c.verdict known v) := by
  rw [Context.verdict, Context.verdict, h.operand]
  refine .bind_map fun o => (h.gather hk o.ops).map fun a b hab => ?_
  rcases a with - | t | ts <;> rcases b with - | u | us <;> try cases hab
  · rfl
  · exact congrArg Verdict.provisional (Answer.provisional.inj hab)
  · rw [Answer.verdict, Answer.verdict]
    obtain ⟨h', h₀⟩ | ⟨t, u, h', h₀, htu⟩ :=
      cases_of_map_eq (Ty.merge?_congr h.fold (Answer.candidates.inj hab))
    · rw [h', h₀]
    · rw [h', h₀]
      exact congrArg Verdict.confirmed htu

end Operations

end Respelled

end Context

end Inference

end SsaTypes
