/-
SsaTypes/Proofs/Fading.lean

What the rules say after some types have faded.  If in a second assignment the
same operands have types, and each of them has its old type or an inert one,
then

    to wait         becomes  to wait,
    provisional t   becomes  to wait,  or  provisional u  where  u = t  or  u is inert,

unless the second verdict is a fault (`verdict_fades`).  The types of the first
assignment must be definite: a part that is `unknown` blocks the merging of
candidates, and may be gone in the second.
-/
import Mathlib.Data.Option.Defs
import SsaTypes.Proofs.Inert
import SsaTypes.Proofs.Stability
import SsaTypes.Proofs.Visits

namespace SsaTypes

namespace Inference

/-- The same operands have types, and those in the second assignment are as in
the first, or inert. -/
def Known.Fades (known known' : Known) : Prop :=
  ∀ v, Option.Rel Ty.Fades (known v) (known' v)

/-- No part of any type is unknown. -/
def Known.Definite (known : Known) : Prop :=
  ∀ v t, known v = some t → t.isDefinite = true

/-- The second answer is to wait, or both are, or they are related. -/
def Weaker {α β : Type} (R : α → β → Prop) (r : Option α) (r' : Option β) : Prop :=
  r' = none ∨ Option.Rel R r r'

theorem Weaker.map {α β γ δ : Type} {R : α → β → Prop} {S : γ → δ → Prop} {r : Option α}
    {r' : Option β} (h : Weaker R r r') {f : α → γ} {g : β → δ}
    (hf : ∀ a b, R a b → S (f a) (g b)) : Weaker S (r.map f) (r'.map g) := by
  rcases h with rfl | h
  · exact .inl rfl
  · cases h with
    | none => exact .inl rfl
    | some hab => exact .inr (.some (hf _ _ hab))

theorem weaker_refl (r : Candidates) : Weaker (List.Forall₂ Ty.Hides) r r := by
  rcases r with - | ts
  · exact .inl rfl
  · exact .inr (.some (Ty.forall₂_hides_refl ts))

theorem weaker_hides_refl (r : Option Ty) : Weaker Ty.Hides r r := by
  rcases r with - | t
  · exact .inl rfl
  · exact .inr (.some (Ty.hides_refl t))

/-- A rule that makes one candidate from a value that both have. -/
theorem weaker_bind_one {α β : Type} {R : α → β → Prop} {r : Option α} {r' : Option β}
    (h : Weaker R r r') {f : α → Ty} {g : β → Ty}
    (hf : ∀ a, r = some a → ∀ b, R a b → Ty.Hides (f a) (g b)) :
    Weaker (List.Forall₂ Ty.Hides) (r.bind fun a => one (f a)) (r'.bind fun b => one (g b)) := by
  rcases h with rfl | h
  · exact .inl rfl
  · cases h with
    | none => exact .inl rfl
    | some hab => exact .inr (.some (.cons (hf _ rfl _ hab) .nil))

theorem rel_bind {α β γ δ : Type} {R : α → β → Prop} {S : γ → δ → Prop} {r : Option α}
    {r' : Option β} (h : Option.Rel R r r') {f : α → Option γ} {g : β → Option δ}
    (hf : ∀ a b, R a b → Option.Rel S (f a) (g b)) : Option.Rel S (r.bind f) (r'.bind g) := by
  cases h with
  | none => exact .none
  | some hab => exact hf _ _ hab

theorem rel_map {α β γ δ : Type} {R : α → β → Prop} {S : γ → δ → Prop} {r : Option α}
    {r' : Option β} (h : Option.Rel R r r') {f : α → γ} {g : β → δ}
    (hf : ∀ a b, R a b → S (f a) (g b)) : Option.Rel S (r.map f) (r'.map g) := by
  cases h with
  | none => exact .none
  | some hab => exact .some (hf _ _ hab)

theorem rel_mapM {α β : Type} {R : β → β → Prop} {f g : α → Option β}
    (h : ∀ a, Option.Rel R (f a) (g a)) (as : List α) :
    Option.Rel (List.Forall₂ R) (as.mapM f) (as.mapM g) := by
  induction as with
  | nil => exact .some .nil
  | cons a as ih =>
    rw [List.mapM_cons, List.mapM_cons]
    exact rel_bind (h a) fun b b' hb => rel_bind ih fun bs bs' hbs => .some (.cons hb hbs)

section Rules

variable {known known' : Known}

theorem Known.Fades.weaker (h : Known.Fades known known') (v : OperandId) :
    Weaker Ty.Fades (known v) (known' v) :=
  .inr (h v)

/-- An operand has its old type, if any, or an inert one. -/
theorem Known.Fades.eq_or_isInert (h : Known.Fades known known') (v : OperandId) :
    known' v = known v ∨ ∃ u, known' v = some u ∧ u.isInert = true := by
  have hv := h v
  generalize known v = x at hv ⊢
  generalize known' v = x' at hv ⊢
  cases hv with
  | none => exact .inl rfl
  | some htu => exact htu.imp (congrArg some) fun hi => ⟨_, rfl, hi⟩

theorem allKnown_fades (h : Known.Fades known known') (ids : List OperandId) :
    Option.Rel (List.Forall₂ Ty.Fades) (allKnown known ids) (allKnown known' ids) :=
  rel_mapM h ids

theorem isDefinite_of_allKnown (hd : known.Definite) {ids : List OperandId} {ts : List Ty}
    (h : allKnown known ids = some ts) : ∀ t ∈ ts, t.isDefinite = true := by
  intro t ht
  obtain ⟨v, -, hv⟩ := exists_of_forall₂ (forall₂_of_mapM h).flip t ht
  exact hd v t hv

/-! ### Plain values -/

theorem isUnknown_arithmetic (l r : Ty) : (arithmetic l r).isUnknown = false := by
  unfold arithmetic
  split
  · rfl
  · rfl
  · rfl
  · rfl
  · split
    · rcases Ty.merge? _ with - | e
      · rfl
      · rfl
    · rfl

theorem isUnknown_bitwise (l r : Ty) : (bitwise l r).isUnknown = false := by
  unfold bitwise
  split
  · rfl
  · rfl

theorem isUnknown_binaryRule {op : BinaryOp} {f : Ty → Ty → Ty} (h : binaryRule op = .ofTypes f)
    (l r : Ty) : (f l r).isUnknown = false := by
  cases op <;> cases h <;> first | exact isUnknown_arithmetic l r | exact isUnknown_bitwise l r

theorem isUnknown_unaryType (op : UnaryOp) (t : Ty) : (unaryType op t).isUnknown = false := by
  cases op <;> cases t <;> rfl

theorem isUnknown_dimType {t : Ty} (h : t.isDefinite = true) : (dimType t).isUnknown = false := by
  cases t with
  | arrayOf e =>
    rw [Ty.isDefinite] at h
    exact Ty.isUnknown_of_isDefinite h
  | _ => rfl

theorem binary_fades (hf : Known.Fades known known') {id : OpId} {op : BinaryOp}
    {left right : OperandId} {r r' : Candidates} (h : binary known id op left right = .ok r)
    (h' : binary known' id op left right = .ok r') : Weaker (List.Forall₂ Ty.Hides) r r' := by
  rw [binary] at h h'
  rcases e : binaryRule op with t | f | -
  · simp only [e, Except.ok.injEq] at h h'
    rw [← h, ← h']
    exact weaker_refl _
  · simp only [e, Except.ok.injEq] at h h'
    rw [← h, ← h']
    have hl := hf left
    have hr := hf right
    generalize known left = l at hl ⊢
    generalize known' left = l' at hl ⊢
    generalize known right = m at hr ⊢
    generalize known' right = m' at hr ⊢
    cases hl with
    | none => exact .inl rfl
    | some =>
      cases hr with
      | none => exact .inl rfl
      | some =>
        exact .inr (.some (.cons (Ty.hides_of_isUnknown (isUnknown_binaryRule e _ _)) .nil))
  · simp only [e] at h
    cases h

theorem unary_fades (hf : Known.Fades known known') (op : UnaryOp) (expr : OperandId) :
    Weaker (List.Forall₂ Ty.Hides) (unary known op expr) (unary known' op expr) := by
  cases op with
  | booleanNot => exact weaker_refl _
  | bitwiseNot | minus | plus =>
    exact weaker_bind_one (hf.weaker expr) fun t _ _ _ =>
      Ty.hides_of_isUnknown (isUnknown_unaryType _ t)

theorem cast_fades (hf : Known.Fades known known') (hd : known.Definite) (kind : CastKind)
    (expr : OperandId) :
    Weaker (List.Forall₂ Ty.Hides) (cast known kind expr) (cast known' kind expr) := by
  cases kind with
  | bool | int | double | string => exact weaker_refl _
  | array => exact weaker_bind_one (hf.weaker expr) fun _ _ _ _ => Ty.hides_of_isUnknown rfl
  | object =>
    refine weaker_bind_one (hf.weaker expr) fun t ht _ _ => Ty.hides_of_isUnknown ?_
    split
    · exact Ty.isUnknown_of_isDefinite (hd expr t ht)
    · rfl

theorem iterator_fades (hf : Known.Fades known known') (kind : IteratorOp) (var : OperandId) :
    Weaker (List.Forall₂ Ty.Hides) (iterator known kind var) (iterator known' kind var) := by
  cases kind with
  | reset | valid | key => exact weaker_refl _
  | value =>
    rcases hf.eq_or_isInert var with e | ⟨u, e, hi⟩
    · simp only [iterator, e]
      exact weaker_refl _
    · -- the elements of an inert type are never known
      left
      simp only [iterator, e, Option.bind_some]
      cases u with
      | arrayOf => cases hi
      | _ => rfl

theorem arrayLiteral_fades (hf : Known.Fades known known') (values : List OperandId) :
    Weaker (List.Forall₂ Ty.Hides) (arrayLiteral known values) (arrayLiteral known' values) := by
  refine weaker_bind_one (.inr (allKnown_fades hf values)) fun ts _ _ _ =>
    Ty.hides_of_isUnknown ?_
  rcases Ty.merge? ts with - | e
  · rfl
  · rfl

theorem dimFetch_fades (hf : Known.Fades known known') (hd : known.Definite) (base : OperandId) :
    Weaker (List.Forall₂ Ty.Hides) (dimFetch known base) (dimFetch known' base) :=
  weaker_bind_one (hf.weaker base) fun t ht _ _ =>
    Ty.hides_of_isUnknown (isUnknown_dimType (hd base t ht))

theorem copy_fades (hf : Known.Fades known known') (hd : known.Definite) (expr : OperandId) :
    Weaker (List.Forall₂ Ty.Hides) ((known expr).bind one) ((known' expr).bind one) :=
  weaker_bind_one (hf.weaker expr) fun t ht _ _ =>
    Ty.hides_of_isUnknown (Ty.isUnknown_of_isDefinite (hd expr t ht))

theorem hides_of_known (hf : Known.Fades known known') (hd : known.Definite) (v : OperandId) :
    Option.Rel Ty.Hides (known v) (known' v) := by
  have hv := hf v
  have hdv : ∀ t, known v = some t → t.isDefinite = true := fun t => hd v t
  generalize known v = x at hv hdv ⊢
  generalize known' v = x' at hv ⊢
  cases hv with
  | none => exact .none
  | some => exact .some (Ty.hides_of_isUnknown (Ty.isUnknown_of_isDefinite (hdv _ rfl)))

theorem forall₂_hides_of_allKnown (hf : Known.Fades known known') (hd : known.Definite)
    (ids : List OperandId) :
    Option.Rel (List.Forall₂ Ty.Hides) (allKnown known ids) (allKnown known' ids) := by
  have h := allKnown_fades hf ids
  have hts : ∀ ts, allKnown known ids = some ts → ∀ t ∈ ts, t.isDefinite = true :=
    fun _ hts => isDefinite_of_allKnown hd hts
  generalize allKnown known ids = r at h hts ⊢
  generalize allKnown known' ids = r' at h ⊢
  cases h with
  | none => exact .none
  | some h =>
    exact .some (List.forall₂_and_left _ _ |>.mpr ⟨hts _ rfl, h⟩ |>.imp fun t u htu =>
      Ty.hides_of_isUnknown (Ty.isUnknown_of_isDefinite htu.1))

namespace Context

variable {c : Context}

/-! ### Guards -/

mutual

theorem testType_fades (hf : Known.Fades known known') (hd : known.Definite) :
    (test : TypeTest) → ∀ {r r' : Option Ty}, testType c known test = .ok r →
      testType c known' test = .ok r' → Weaker Ty.Hides r r'
  | .operand id, r, r', h, h' => by
    rw [testType, bind_eq_ok] at h h'
    obtain ⟨o, ho, h⟩ := h
    obtain ⟨o', ho', h'⟩ := h'
    obtain rfl := Except.ok.inj (ho.symm.trans ho')
    rcases el : o.literal? with - | v
    · simp only [el, Except.ok.injEq] at h h'
      rw [← h, ← h']
      exact .inr (hides_of_known hf hd id)
    · -- a literal means the same whatever is known
      have heq : r' = r := by
        cases v <;> simp only [el] at h h' <;> exact Except.ok.inj (h'.symm.trans h)
      rw [heq]
      exact weaker_hides_refl r
  | .comb k ms, r, r', h, h' => by
    rw [testType, map_eq_ok] at h h'
    obtain ⟨ts, hts, rfl⟩ := h
    obtain ⟨us, hus, rfl⟩ := h'
    exact (testTypes_fades hf hd ms hts hus).map fun _ _ _ => Ty.hides_of_isUnknown rfl

theorem testTypes_fades (hf : Known.Fades known known') (hd : known.Definite) :
    (tests : List TypeTest) → ∀ {r r' : Option (List Ty)}, testTypes c known tests = .ok r →
      testTypes c known' tests = .ok r' → Weaker (fun _ _ => True) r r'
  | [], r, r', h, h' => by
    rw [testTypes] at h h'
    rw [← Except.ok.inj h, ← Except.ok.inj h']
    exact .inr (.some trivial)
  | m :: ms, r, r', h, h' => by
    rw [testTypes, bind_eq_ok] at h h'
    obtain ⟨t, ht, h⟩ := h
    obtain ⟨u, hu, h'⟩ := h'
    rcases testType_fades hf hd m ht hu with rfl | hrel
    · exact .inl (Except.ok.inj h').symm
    · cases hrel with
      | none => exact .inl (Except.ok.inj h').symm
      | some =>
        obtain ⟨ts, hts, rfl⟩ := map_eq_ok.mp h
        obtain ⟨us, hus, rfl⟩ := map_eq_ok.mp h'
        exact (testTypes_fades hf hd ms hts hus).map fun _ _ _ => trivial

end

theorem guardType_fades (hf : Known.Fades known known') (hd : known.Definite) {expr : OperandId}
    {guard : Guard} {r r' : Option Ty} (h : guardType c known expr guard = .ok r)
    (h' : guardType c known' expr guard = .ok r') : Weaker Ty.Hides r r' := by
  induction guard generalizing r r' with
  | holds t => exact testType_fades hf hd t h h'
  | fails g ih =>
    rw [guardType, bind_eq_ok] at h h'
    obtain ⟨t, ht, h⟩ := h
    obtain ⟨u, hu, h'⟩ := h'
    rcases ih ht hu with rfl | hrel
    · exact .inl (Except.ok.inj h').symm
    · cases hrel with
      | none => exact .inl (Except.ok.inj h').symm
      | @some t u =>
        have hsource : ((known expr).getD .mixed).isDefinite = true := by
          rcases ek : known expr with - | a
          · exact Ty.isDefinite_mixed
          · exact hd expr a ek
        rcases er : ((known expr).getD .mixed).remove? t with - | a
        · simp [er] at h
        · rcases er' : ((known' expr).getD .mixed).remove? u with - | b
          · simp [er'] at h'
          · simp only [er, er', Except.ok.injEq] at h h'
            rw [← h, ← h']
            exact .inr (.some (Ty.hides_of_isUnknown (Ty.isUnknown_remove hsource er)))

/-! ### Members -/

/-- A class stays, or there is no class any more. -/
theorem classType_fades (hf : Known.Fades known known') {id : OperandId} {r r' : Option Ty}
    (h : c.classType known id = .ok r) (h' : c.classType known' id = .ok r') :
    r' = r ∨ ((r.getD .object).isUnknown = false ∧ r'.bind Ty.className? = none) := by
  rw [classType, bind_eq_ok] at h h'
  obtain ⟨o, ho, h⟩ := h
  obtain ⟨o', ho', h'⟩ := h'
  obtain rfl := Except.ok.inj (ho.symm.trans ho')
  rcases hf.eq_or_isInert id with e | ⟨u, e, hi⟩
  · rw [e] at h'
    exact .inl (Except.ok.inj (h'.symm.trans h))
  · rw [e] at h'
    split at h
    · next ek =>
      simp only [ek] at h'
      exact .inl (Except.ok.inj (h'.symm.trans h))
    · cases h
    · next ek =>
      simp only [ek] at h'
      exact .inl (Except.ok.inj (h'.symm.trans h))
    · next hstring hliteral hreceiver =>
      have hr : (r.getD .object).isUnknown = false := by
        split at h <;> cases h <;> rfl
      refine .inr ⟨hr, ?_⟩
      split at h'
      · next ek => exact absurd ek (hstring _)
      · next ek => exact absurd ek (hliteral _)
      · next ek => exact absurd ek (hreceiver _ _)
      · -- an inert type is no class
        cases u with
        | named => cases hi
        | _ =>
          rw [← Except.ok.inj h']
          rfl

/-- A call of a method is answered as before, or not any more. -/
theorem methodCall_fades (hf : Known.Fades known known') {receiver name : OperandId}
    {isStatic : Bool} {r r' : Candidates} (h : c.methodCall known receiver name isStatic = .ok r)
    (h' : c.methodCall known' receiver name isStatic = .ok r') : r' = none ∨ r' = r := by
  rw [methodCall, bind_eq_ok] at h h'
  obtain ⟨s, hs, h⟩ := h
  obtain ⟨s', hs', h'⟩ := h'
  obtain rfl := Except.ok.inj (hs.symm.trans hs')
  rcases hf.eq_or_isInert receiver with e | ⟨u, e, hi⟩
  · rw [e] at h'
    exact .inr (Except.ok.inj (h'.symm.trans h))
  · rw [e] at h'
    rcases s with - | s
    · exact .inl (Except.ok.inj h').symm
    · cases u with
      | string | named => cases hi
      | _ => exact .inl (Except.ok.inj h').symm

/-- So is an access to a property. -/
theorem propertyFetch_fades (hf : Known.Fades known known') {owner name : OperandId}
    {r r' : Candidates} (h : c.propertyFetch known owner name = .ok r)
    (h' : c.propertyFetch known' owner name = .ok r') : r' = none ∨ r' = r := by
  rw [propertyFetch, bind_eq_ok] at h h'
  obtain ⟨s, hs, h⟩ := h
  obtain ⟨s', hs', h'⟩ := h'
  obtain rfl := Except.ok.inj (hs.symm.trans hs')
  rcases s with - | s
  · exact .inr (Except.ok.inj (h'.symm.trans h))
  · rw [bind_eq_ok] at h h'
    obtain ⟨t, ht, h⟩ := h
    obtain ⟨u, hu, h'⟩ := h'
    rcases classType_fades hf ht hu with rfl | ⟨-, hnone⟩
    · exact .inr (Except.ok.inj (h'.symm.trans h))
    · rw [hnone] at h'
      exact .inl (Except.ok.inj h').symm

theorem constFetch_fades (hf : Known.Fades known known') (hd : known.Definite)
    {name : OperandId} {r r' : Candidates} (h : c.constFetch known name = .ok r)
    (h' : c.constFetch known' name = .ok r') : Weaker (List.Forall₂ Ty.Hides) r r' := by
  rw [constFetch, bind_eq_ok] at h h'
  obtain ⟨s, hs, h⟩ := h
  obtain ⟨s', hs', h'⟩ := h'
  obtain rfl := Except.ok.inj (hs.symm.trans hs')
  have hsame : r' = r → Weaker (List.Forall₂ Ty.Hides) r r' := by
    rintro rfl
    exact weaker_refl _
  rcases s with - | s
  · exact hsame (Except.ok.inj (h'.symm.trans h))
  · simp only at h h'
    split at h
    · next e =>
      simp only [e] at h'
      exact hsame (Except.ok.inj (h'.symm.trans h))
    · next e =>
      simp only [e] at h'
      split at h
      · next values ev =>
        simp only [ev, Except.ok.injEq] at h'
        rw [← Except.ok.inj h, ← h']
        exact .inr (forall₂_hides_of_allKnown hf hd values)
      · next ev =>
        simp only [ev] at h'
        exact hsame (Except.ok.inj (h'.symm.trans h))

theorem orWait_hides {ts us : List Ty} (h : List.Forall₂ Ty.Hides ts us) :
    Option.Rel (List.Forall₂ Ty.Hides) (orWait ts) (orWait us) := by
  cases h with
  | nil => exact .none
  | cons htu h => exact .some (.cons htu h)

theorem inheritedConstant_fades (hf : Known.Fades known known') (hd : known.Definite)
    (name : String) (classes : List String) :
    Option.Rel (List.Forall₂ Ty.Hides) (c.inheritedConstant known name classes)
      (c.inheritedConstant known' name classes) := by
  refine rel_map (rel_mapM (fun cls => ?_) classes) fun tss uss h => List.rel_flatten h
  rcases c.lookup.constant (classConstantKey cls name) with - | values
  · exact .some .nil
  · exact forall₂_hides_of_allKnown hf hd values

theorem classConstant_fades (hf : Known.Fades known known') (hd : known.Definite)
    (cls name : String) :
    Weaker (List.Forall₂ Ty.Hides) (c.classConstant known cls name)
      (c.classConstant known' cls name) := by
  rw [classConstant, classConstant]
  rcases c.lookup.constant (classConstantKey cls name) with - | values
  · rcases c.lookup.hierarchy.resolves cls with - | ancestors
    · exact .inl rfl
    · exact .inr (rel_bind (inheritedConstant_fades hf hd name ancestors.keys) fun _ _ =>
        orWait_hides)
  · exact .inr (forall₂_hides_of_allKnown hf hd values)

theorem classConstFetch_fades (hf : Known.Fades known known') (hd : known.Definite)
    {cls name : OperandId} {r r' : Candidates} (h : c.classConstFetch known cls name = .ok r)
    (h' : c.classConstFetch known' cls name = .ok r') :
    Weaker (List.Forall₂ Ty.Hides) r r' := by
  rw [classConstFetch, bind_eq_ok] at h h'
  obtain ⟨s, hs, h⟩ := h
  obtain ⟨s', hs', h'⟩ := h'
  obtain rfl := Except.ok.inj (hs.symm.trans hs')
  rcases s with - | s
  · exact .inl (Except.ok.inj h').symm
  · rw [bind_eq_ok] at h h'
    obtain ⟨d, hd', h⟩ := h
    obtain ⟨d', hd'', h'⟩ := h'
    obtain rfl := Except.ok.inj (hd'.symm.trans hd'')
    rcases d with - | d
    · rw [← Except.ok.inj h, ← Except.ok.inj h']
      rcases hf.eq_or_isInert cls with e | ⟨u, e, hi⟩
      · rw [e]
        rcases known cls with - | t
        · exact .inl rfl
        · rw [Option.bind_some, Option.bind_some]
          rcases t.className? with - | className
          · exact .inl rfl
          · exact classConstant_fades hf hd className s
      · left
        rw [e, Option.bind_some]
        cases u with
        | named => cases hi
        | _ => rfl
    · rw [← Except.ok.inj h, ← Except.ok.inj h']
      exact classConstant_fades hf hd d s

/-! ### Operations -/

theorem candidates_fades (hf : Known.Fades known known') (hd : known.Definite) {id : OpId}
    {op : Op} {r r' : Candidates} (h : c.candidates known id op = .ok r)
    (h' : c.candidates known' id op = .ok r') : Weaker (List.Forall₂ Ty.Hides) r r' := by
  have hsame : r' = r → Weaker (List.Forall₂ Ty.Hides) r r' := by
    rintro rfl
    exact weaker_refl _
  cases op with
  | binary => exact binary_fades hf h h'
  | unary =>
    rw [← Except.ok.inj h, ← Except.ok.inj h']
    exact unary_fades hf _ _
  | cast =>
    rw [← Except.ok.inj h, ← Except.ok.inj h']
    exact cast_fades hf hd _ _
  | iterator =>
    rw [← Except.ok.inj h, ← Except.ok.inj h']
    exact iterator_fades hf _ _
  | array =>
    rw [← Except.ok.inj h, ← Except.ok.inj h']
    exact arrayLiteral_fades hf _
  | dimFetch =>
    rw [← Except.ok.inj h, ← Except.ok.inj h']
    exact dimFetch_fades hf hd _
  | assign | assignRef | clone =>
    rw [← Except.ok.inj h, ← Except.ok.inj h']
    exact copy_fades hf hd _
  | create =>
    obtain ⟨t, ht, rfl⟩ := map_eq_ok.mp h
    obtain ⟨u, hu, rfl⟩ := map_eq_ok.mp h'
    refine .inr (.some (.cons ?_ .nil))
    rcases classType_fades hf ht hu with rfl | ⟨hr, -⟩
    · exact Ty.hides_refl _
    · exact Ty.hides_of_isUnknown hr
  | staticCall => exact (methodCall_fades hf h h').elim .inl hsame
  | methodCall => exact (methodCall_fades hf h h').elim .inl hsame
  | propertyFetch => exact (propertyFetch_fades hf h h').elim .inl hsame
  | staticPropertyFetch => exact (propertyFetch_fades hf h h').elim .inl hsame
  | guarded =>
    obtain ⟨t, ht, rfl⟩ := map_eq_ok.mp h
    obtain ⟨u, hu, rfl⟩ := map_eq_ok.mp h'
    exact weaker_bind_one (guardType_fades hf hd ht hu) fun _ _ _ htu => htu
  | constFetch => exact constFetch_fades hf hd h h'
  | classConstFetch => exact classConstFetch_fades hf hd h h'
  -- the others look at no types; what a phi says is not decided here
  | _ => exact hsame (Except.ok.inj (h'.symm.trans h))

end Context

end Rules

/-- What an operation says after types have faded. -/
inductive Answer.Fades : Answer → Answer → Prop
  | wait (x : Answer) : Fades x .wait
  | provisional {t u : Ty} : t.Fades u → Fades (.provisional t) (.provisional u)
  | candidates {ts us : List Ty} : List.Forall₂ Ty.Hides ts us →
      Fades (.candidates ts) (.candidates us)

/-- What can be said of an operand after types have faded. -/
inductive Verdict.Fades : Verdict → Verdict → Prop
  | wait (x : Verdict) : Fades x .wait
  | provisional {t u : Ty} : t.Fades u → Fades (.provisional t) (.provisional u)
  | confirmed (t : Ty) (x : Verdict) : Fades (.confirmed t) x

section Verdicts

variable {known known' : Known}

theorem phi_fades (hf : Known.Fades known known') (hd : known.Definite) (vars : List OperandId) :
    (phi known vars).Fades (phi known' vars) := by
  have hts : List.Forall₂ Ty.Fades (vars.filterMap known) (vars.filterMap known') :=
    List.rel_filterMap (fun v v' hv => hv ▸ hf v) (List.forall₂_same.mpr fun _ _ => rfl)
  have hdts : ∀ t ∈ vars.filterMap known, t.isDefinite = true := by
    intro t ht
    obtain ⟨v, -, hv⟩ := List.mem_filterMap.mp ht
    exact hd v t hv
  have hhides : List.Forall₂ Ty.Hides (vars.filterMap known) (vars.filterMap known') :=
    (List.forall₂_and_left _ _).mpr ⟨hdts, hts⟩ |>.imp fun t u htu =>
      Ty.hides_of_isUnknown (Ty.isUnknown_of_isDefinite htu.1)
  have hall : (vars.all fun v => (known' v).isSome) = vars.all fun v => (known v).isSome := by
    refine List.all_congr rfl fun v => ?_
    have hv := hf v
    generalize known v = x at hv ⊢
    generalize known' v = x' at hv ⊢
    cases hv <;> rfl
  rcases e : Ty.merge? (vars.filterMap known) with - | t
  · -- no incoming value has a type, before or after
    have e' := Ty.merge_none_of_hides hhides e
    simp only [phi, e, e']
    exact .wait _
  · rcases e' : Ty.merge? (vars.filterMap known') with - | u
    · simp only [phi, e']
      exact .wait _
    · simp only [phi, e, e', hall]
      by_cases ha : (vars.all fun v => (known v).isSome) = true
      · rw [if_pos ha, if_pos ha]
        refine .candidates (.cons (Ty.hides_of_isUnknown ?_) .nil)
        exact Ty.isUnknown_of_isDefinite (Ty.isDefinite_merge hdts e)
      · rw [if_neg ha, if_neg ha]
        exact .provisional (Ty.fades_merge hts e e')

namespace Context

variable {c : Context}

theorem answer_fades (hf : Known.Fades known known') (hd : known.Definite) {id : OpId}
    {x x' : Answer} (h : c.answer known id = .ok x) (h' : c.answer known' id = .ok x') :
    x.Fades x' := by
  rw [answer, bind_eq_ok] at h h'
  obtain ⟨op, hop, h⟩ := h
  obtain ⟨op', hop', h'⟩ := h'
  obtain rfl := Except.ok.inj (hop.symm.trans hop')
  have hof : ∀ r r', c.candidates known id op = .ok r → c.candidates known' id op = .ok r' →
      (Answer.of r).Fades (Answer.of r') := by
    intro r r' hr hr'
    rcases candidates_fades hf hd hr hr' with rfl | hrel
    · exact .wait _
    · cases hrel with
      | none => exact .wait _
      | some h => exact .candidates h
  cases op with
  | phi vars =>
    rw [← Except.ok.inj h, ← Except.ok.inj h']
    exact phi_fades hf hd vars
  | _ =>
    obtain ⟨r, hr, rfl⟩ := map_eq_ok.mp h
    obtain ⟨r', hr', rfl⟩ := map_eq_ok.mp h'
    exact hof r r' hr hr'

theorem gather_fades (hf : Known.Fades known known') (hd : known.Definite) {ids : List OpId}
    {x x' : Answer} (h : c.gather known ids = .ok x) (h' : c.gather known' ids = .ok x') :
    x.Fades x' := by
  induction ids generalizing x x' with
  | nil =>
    rw [← Except.ok.inj h, ← Except.ok.inj h']
    exact .candidates .nil
  | cons id ids ih =>
    rw [gather, bind_eq_ok] at h h'
    obtain ⟨a, ha, h⟩ := h
    obtain ⟨a', ha', h'⟩ := h'
    cases answer_fades hf hd ha ha' with
    | wait =>
      rw [← Except.ok.inj h']
      exact .wait _
    | provisional htu =>
      rw [← Except.ok.inj h, ← Except.ok.inj h']
      exact .provisional htu
    | candidates hts =>
      obtain ⟨b, hb, rfl⟩ := map_eq_ok.mp h
      obtain ⟨b', hb', rfl⟩ := map_eq_ok.mp h'
      cases ih hb hb' with
      | wait => exact .wait _
      | provisional htu => exact .provisional htu
      | candidates hus => exact .candidates (List.rel_append hts hus)

/-- **Faded types.**  What the rules say of an operand is related as its types are. -/
theorem verdict_fades (hf : Known.Fades known known') (hd : known.Definite) {v : OperandId}
    {x x' : Verdict} (h : c.verdict known v = .ok x) (h' : c.verdict known' v = .ok x') :
    x.Fades x' := by
  rw [verdict, bind_eq_ok] at h h'
  obtain ⟨o, ho, h⟩ := h
  obtain ⟨o', ho', h'⟩ := h'
  obtain rfl := Except.ok.inj (ho.symm.trans ho')
  obtain ⟨a, ha, rfl⟩ := map_eq_ok.mp h
  obtain ⟨a', ha', rfl⟩ := map_eq_ok.mp h'
  cases gather_fades hf hd ha ha' with
  | wait => exact .wait _
  | provisional htu => exact .provisional htu
  | @candidates ts us hts =>
    rcases e : Ty.merge? ts with - | t
    · simp only [Answer.verdict, e, Ty.merge_none_of_hides hts e]
      exact .wait _
    · simp only [Answer.verdict, e]
      exact .confirmed t _

/-- A provisional type is definite if the types entered are. -/
theorem isDefinite_of_verdict (hd : known.Definite) {v : OperandId} {t : Ty}
    (h : c.verdict known v = .ok (.provisional t)) : t.isDefinite = true := by
  obtain ⟨o, -, id, -, ha⟩ := exists_answer_of_verdict h
  obtain ⟨vars, -, hmerge⟩ := exists_phi_of_answer ha
  refine Ty.isDefinite_merge (fun u hu => ?_) hmerge
  obtain ⟨w, -, hw⟩ := List.mem_filterMap.mp hu
  exact hd w u hw

end Context

end Verdicts

end Inference

end SsaTypes
