/-
SsaTypes/Proofs/Reads.lean

Which types a rule looks at.  `c.reads known op` lists the operands that the rule for `op`
asks for their types where the types `known` are known: of a test, those that are no
literals; of a guard, the operand that it narrows only if the guard fails; of a constant,
the values of the one that is fetched.

Nothing in the list is idle.  A rule that answers has found the types of all that it reads,

    c.candidates known id op = .ok (some ts)  →  Known.Covers (c.reads known op) known,

unless it is one of the two that answer early (`Grounded`): the creation of an object of a
class not known yet, and a failing guard on an operand not known yet.
-/
import Mathlib.Data.List.Forall2
import SsaTypes.Inference.Rounds

namespace SsaTypes

mutual

/-- The operands that a test names. -/
def TypeTest.operands : TypeTest → List OperandId
  | .operand id => [id]
  | .comb _ ms => TypeTest.operandsAll ms

/-- The operands that the tests of a list name. -/
def TypeTest.operandsAll : List TypeTest → List OperandId
  | [] => []
  | m :: ms => m.operands ++ TypeTest.operandsAll ms

end

/-- The operands that the test of a guard names. -/
def Guard.operands : Guard → List OperandId
  | .holds t => t.operands
  | .fails g => g.operands

/-- Whether a guard says that its test holds. -/
def Guard.isPositive : Guard → Bool
  | .holds _ => true
  | .fails _ => false

/-- Whether an operand names a class by itself: as a string, or as a receiver
with a declared type. -/
def Operand.namesClass (o : Operand) : Bool :=
  match o.kind with
  | .literal (.string _) => true
  | .bound _ .receiver (some _) => true
  | _ => false

theorem Operand.namesClass_iff {o : Operand} :
    o.namesClass = true ↔ (∃ s, o.kind = .literal (.string s)) ∨
      ∃ name owner, o.kind = .bound name .receiver (some owner) := by
  obtain ⟨kind, ops, ty⟩ := o
  constructor
  · intro h
    rcases kind with _ | v | ⟨name, scope, owner⟩
    · cases h
    · cases v with
      | string s => exact .inl ⟨s, rfl⟩
      | _ => cases h
    · cases scope with
      | receiver =>
        cases owner with
        | none => cases h
        | some owner => exact .inr ⟨name, owner, rfl⟩
      | _ => cases h
  · rintro (⟨s, rfl⟩ | ⟨name, owner, rfl⟩)
    · rfl
    · rfl

/-- Whether a number is that of a literal. -/
def Script.isLiteral (s : Script) (id : OperandId) : Bool :=
  match s.operand id with
  | .ok o => o.literal?.isSome
  | .error _ => false

/-- The operation is one of those that produce the operand. -/
def Script.Produces (s : Script) (op : Op) (v : OperandId) : Prop :=
  ∃ o, s.operand v = .ok o ∧ ∃ id ∈ o.ops, s.op id = .ok op

namespace Inference

/-! ### What is read -/

/-- The operands whose types a binary operation looks at. -/
def binaryReads (op : BinaryOp) (left right : OperandId) : List OperandId :=
  match binaryRule op with
  | .ofTypes _ => [left, right]
  | _ => []

/-- The operand whose type a unary operation looks at. -/
def unaryReads (op : UnaryOp) (expr : OperandId) : List OperandId :=
  match op with
  | .booleanNot => []
  | _ => [expr]

/-- The operand whose type a conversion looks at. -/
def castReads (kind : CastKind) (expr : OperandId) : List OperandId :=
  match kind with
  | .array | .object => [expr]
  | _ => []

/-- The operand whose type a step of a loop looks at. -/
def iteratorReads (kind : IteratorOp) (var : OperandId) : List OperandId :=
  match kind with
  | .value => [var]
  | _ => []

namespace Context

variable (c : Context)

/-- What is read for a name, if an operand is the literal of one. -/
def namedReads (id : OperandId) (role : NameRole) (reads : String → List OperandId) :
    List OperandId :=
  match c.literalName id role with
  | .ok (some name) => reads name
  | _ => []

/-- Those of some operands that are no literals. -/
def nonLiterals (ids : List OperandId) : List OperandId :=
  ids.filter fun id => !c.script.isLiteral id

/-- The operands whose types a test looks at. -/
def testReads (test : TypeTest) : List OperandId :=
  c.nonLiterals test.operands

/-- The operands whose types a guard looks at.  What it narrows is looked at last. -/
def guardReads (expr : OperandId) : Guard → List OperandId
  | .holds t => c.testReads t
  | .fails g => guardReads expr g ++ [expr]

/-- The class that a type tells. -/
def toldClass : Ty → Option Ty
  | .object => some .object
  | .named cls => some (.named cls)
  | _ => none

/-- The operand, if its type is to tell its class. -/
def classReads (id : OperandId) : List OperandId :=
  match c.script.operand id with
  | .error _ => []
  | .ok o =>
    match o.kind with
    | .literal _ | .bound _ .receiver (some _) => []
    | _ => [id]

/-- The values of the constants with a key. -/
def valuesOf (key : String) : List OperandId :=
  (c.lookup.constant key).getD []

/-- The operands whose types a global constant looks at. -/
def constReads (name : String) : List OperandId :=
  match keywordConstant name with
  | some _ => []
  | none => c.valuesOf name

/-- The operands whose types a constant of a class looks at: the values of its own, else of
those that it inherits. -/
def classConstantReads (cls name : String) : List OperandId :=
  match c.lookup.constant (classConstantKey cls name) with
  | some values => values
  | none =>
    match c.lookup.hierarchy.resolves cls with
    | none => []
    | some ancestors => ancestors.keys.flatMap fun cls => c.valuesOf (classConstantKey cls name)

/-- The operands whose types a constant of the class that an operand stands for looks at. -/
def classConstReads (known : Known) (cls : OperandId) (name : String) : List OperandId :=
  match c.literalName cls .className with
  | .error _ => []
  | .ok (some cls) => c.classConstantReads cls name
  | .ok none =>
    cls ::
      match (known cls).bind Ty.className? with
      | none => []
      | some cls => c.classConstantReads cls name

/-- The operands whose types the rule for an operation asks for, as long as none that it
has asked for is missing. -/
def reads (known : Known) : Op → List OperandId
  | .binary op left right => binaryReads op left right
  | .unary op expr => unaryReads op expr
  | .cast kind expr => castReads kind expr
  | .iterator kind var => iteratorReads kind var
  | .array _ values => values
  | .dimFetch var _ => [var]
  | .assign _ expr | .assignRef _ expr | .clone expr => [expr]
  | .create cls _ => c.classReads cls
  | .staticCall receiver name _ | .methodCall receiver name _ =>
    c.namedReads name .methodName fun _ => [receiver]
  | .propertyFetch owner name | .staticPropertyFetch owner name =>
    c.namedReads name .propertyName fun _ => c.classReads owner
  | .guarded expr guard => c.guardReads expr guard
  | .constFetch name => c.namedReads name .constantName c.constReads
  | .classConstFetch cls name => c.namedReads name .constantName (c.classConstReads known cls)
  | .phi vars => vars
  | _ => []

/-- The operation does not answer before the operand that it narrows, or whose
class it creates an object of, has a type. -/
def Grounded (known : Known) : Op → Prop
  | .create cls _ =>
    (∃ o, c.script.operand cls = .ok o ∧ o.namesClass = true) ∨ (known cls).isSome
  | .guarded expr guard => guard.isPositive = true ∨ (known expr).isSome
  | _ => True

variable {c}

theorem namedReads_eq {id : OperandId} {role : NameRole} {name : String}
    (h : c.literalName id role = .ok (some name)) (reads : String → List OperandId) :
    c.namedReads id role reads = reads name := by
  rw [namedReads, h]

theorem testReads_operand {id : OperandId} {o : Operand} (ho : c.script.operand id = .ok o) :
    c.testReads (.operand id) = if o.literal?.isSome then [] else [id] := by
  rw [testReads, TypeTest.operands, nonLiterals, List.filter_singleton, Script.isLiteral, ho]
  rcases h : o.literal? with - | v
  · simp only [h]
    rfl
  · simp only [h]
    rfl

theorem nonLiterals_append (us ws : List OperandId) :
    c.nonLiterals (us ++ ws) = c.nonLiterals us ++ c.nonLiterals ws :=
  List.filter_append us ws

theorem classReads_of_namesClass {id : OperandId} {o : Operand}
    (ho : c.script.operand id = .ok o) (h : o.namesClass = true) : c.classReads id = [] := by
  rcases Operand.namesClass_iff.mp h with ⟨s, hs⟩ | ⟨name, owner, hs⟩
  · simp only [classReads, ho, hs]
  · simp only [classReads, ho, hs]

/-- The class of an operand does not depend on the types known, or it is told by the type of
that operand alone. -/
theorem classType_cases (c : Context) (id : OperandId) :
    (c.classReads id = [] ∧ ∀ known known', c.classType known' id = c.classType known id) ∨
      (c.classReads id = [id] ∧
        ∀ known, c.classType known id = .ok ((known id).bind toldClass)) := by
  rcases ho : c.script.operand id with e | o
  · refine .inl ⟨by simp only [classReads, ho], fun _ _ => ?_⟩
    simp only [classType, ho, bind, Except.bind]
  · simp only [classReads, ho]
    split
    · next v hkind =>
      refine .inl ⟨rfl, fun _ _ => ?_⟩
      cases v <;> simp only [classType, ho, hkind, bind, Except.bind]
    · next hkind =>
      refine .inl ⟨rfl, fun _ _ => ?_⟩
      simp only [classType, ho, hkind, bind, Except.bind]
    · next hliteral hreceiver =>
      refine .inr ⟨rfl, fun known => ?_⟩
      simp only [classType, ho, bind, Except.bind]
      split
      · next hkind => exact absurd hkind (hliteral _)
      · next hkind => exact absurd hkind (hliteral _)
      · next hkind => exact absurd hkind (hreceiver _ _)
      · rcases known id with - | t
        · rfl
        · cases t <;> rfl

theorem valuesOf_eq {key : String} {values : List OperandId}
    (h : c.lookup.constant key = some values) : c.valuesOf key = values := by
  rw [valuesOf, h, Option.getD_some]

theorem constReads_eq {name : String} (h : keywordConstant name = none) :
    c.constReads name = c.valuesOf name := by
  rw [constReads, h]

end Context

/-! ### What is read is needed -/

/-- The operands of a list have types. -/
def Known.Covers (us : List OperandId) (known : Known) : Prop :=
  ∀ u ∈ us, (known u).isSome = true

theorem forall₂_of_mapM {α β : Type} {f : α → Option β} {xs : List α} {ys : List β}
    (h : xs.mapM f = some ys) : List.Forall₂ (fun x y => f x = some y) xs ys := by
  induction xs generalizing ys with
  | nil =>
    obtain rfl := Option.some.inj h
    exact .nil
  | cons x xs ih =>
    rw [List.mapM_cons] at h
    obtain ⟨y, hy, h⟩ := Option.bind_eq_some_iff.mp h
    obtain ⟨zs, hzs, h⟩ := Option.bind_eq_some_iff.mp h
    obtain rfl := Option.some.inj h
    exact .cons hy (ih hzs)

theorem exists_of_forall₂ {α β : Type} {R : α → β → Prop} {xs : List α} {ys : List β}
    (h : List.Forall₂ R xs ys) : ∀ x ∈ xs, ∃ y ∈ ys, R x y := by
  induction h with
  | nil => exact fun x hx => absurd hx List.not_mem_nil
  | cons hxy _ ih =>
    refine List.forall_mem_cons.mpr ⟨⟨_, List.mem_cons_self, hxy⟩, fun x hx => ?_⟩
    obtain ⟨y, hy, hR⟩ := ih x hx
    exact ⟨y, List.mem_cons_of_mem _ hy, hR⟩

variable {known : Known}

theorem covers_nil : Known.Covers [] known :=
  fun _ hu => absurd hu List.not_mem_nil

theorem covers_singleton {u : OperandId} {t : Ty} (h : known u = some t) :
    Known.Covers [u] known := by
  intro w hw
  rw [List.mem_singleton.mp hw, h]
  rfl

section Values

variable {ts : List Ty}

end Values

namespace Context

variable {c : Context}

mutual

theorem testType_covers : (test : TypeTest) → {t : Ty} → testType c known test = .ok (some t) →
    Known.Covers (c.testReads test) known
  | .operand id, t, h => by
    rw [testType, bind_eq_ok] at h
    obtain ⟨o, ho, h⟩ := h
    rw [testReads_operand ho]
    rcases hl : o.literal? with - | v
    · simp only [hl, Except.ok.injEq] at h
      exact covers_singleton h
    · -- a literal is read as text, whatever its own type is
      exact covers_nil
  | .comb k ms, t, h => by
    rw [testType, map_eq_ok] at h
    obtain ⟨r, hr, h⟩ := h
    obtain ⟨ts, rfl, -⟩ := Option.map_eq_some_iff.mp h
    exact testTypes_covers ms hr

theorem testTypes_covers : (tests : List TypeTest) → {ts : List Ty} →
    testTypes c known tests = .ok (some ts) →
    Known.Covers (c.nonLiterals (TypeTest.operandsAll tests)) known
  | [], _, _ => covers_nil
  | m :: ms, ts, h => by
    rw [testTypes, bind_eq_ok] at h
    obtain ⟨r, hr, h⟩ := h
    rcases r with - | t
    · cases h
    · obtain ⟨r, hrest, h⟩ := map_eq_ok.mp h
      obtain ⟨us, rfl, -⟩ := Option.map_eq_some_iff.mp h
      rw [TypeTest.operandsAll, nonLiterals_append]
      exact List.forall_mem_append.mpr ⟨testType_covers m hr, testTypes_covers ms hrest⟩

end

variable {ts : List Ty}

/-- The operations answer with candidates if each of them does. -/
theorem gather_eq_candidates {known : Known} {ids : List OpId} {ts : List Ty} :
    c.gather known ids = .ok (.candidates ts) ↔
      ∃ tss, List.Forall₂ (fun id ts => c.answer known id = .ok (.candidates ts)) ids tss ∧
        tss.flatten = ts := by
  induction ids generalizing ts with
  | nil =>
    constructor
    · intro h
      rw [← Answer.candidates.inj (Except.ok.inj h)]
      exact ⟨[], .nil, rfl⟩
    · rintro ⟨tss, h, rfl⟩
      cases h
      rfl
  | cons id ids ih =>
    rw [gather, bind_eq_ok]
    constructor
    · rintro ⟨a, ha, h⟩
      cases a with
      | candidates us =>
        obtain ⟨b, hb, h⟩ := map_eq_ok.mp h
        cases b with
        | candidates ws =>
          obtain ⟨tss, htss, rfl⟩ := ih.mp hb
          exact ⟨us :: tss, .cons ha htss, Answer.candidates.inj h⟩
        | _ => cases h
      | _ => cases h
    · rintro ⟨tss, h, rfl⟩
      cases h with
      | @cons _ us _ tss ha htss =>
        exact ⟨_, ha, map_eq_ok.mpr ⟨_, ih.mpr ⟨tss, htss, rfl⟩, rfl⟩⟩

/-- An operand is confirmed if all its producers answer with candidates that
have a merge. -/
theorem verdict_eq_confirmed {known : Known} {v : OperandId} {t : Ty} :
    c.verdict known v = .ok (.confirmed t) ↔
      ∃ o tss, c.script.operand v = .ok o ∧
        List.Forall₂ (fun id ts => c.answer known id = .ok (.candidates ts)) o.ops tss ∧
        Ty.merge? tss.flatten = some t := by
  rw [verdict, bind_eq_ok]
  constructor
  · rintro ⟨o, ho, h⟩
    obtain ⟨a, ha, h⟩ := map_eq_ok.mp h
    cases a with
    | candidates ts =>
      obtain ⟨tss, htss, rfl⟩ := gather_eq_candidates.mp ha
      refine ⟨o, tss, ho, htss, ?_⟩
      rcases e : Ty.merge? tss.flatten with - | u
      · simp [Answer.verdict, e] at h
      · simpa [Answer.verdict, e] using h
    | _ => cases h
  · rintro ⟨o, tss, ho, htss, hm⟩
    exact ⟨o, ho, map_eq_ok.mpr ⟨_, gather_eq_candidates.mpr ⟨tss, htss, rfl⟩, by
      simp only [Answer.verdict, hm]⟩⟩

end Context

end Inference

end SsaTypes
