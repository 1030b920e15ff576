/-
SsaTypes/Proofs/Stability.lean

A rule that has answered keeps its answer when more operands become known.

The rule for `op` looks at no types but those of `c.reads known op`.  If a second
assignment has every type that the first has on these, then for an operation that is
`Grounded` in the first

    c.answer known id  is undecided,  or  c.answer known' id = c.answer known id,

where an undecided answer is to wait or a provisional type (`answer_kept`);
faults are answers like any other.  The same holds of the verdict on an
operand (`verdict_kept`).

Three rules answer early.  A phi shows it by a provisional type.  The creation
of an object of a class not known yet, and a failing guard on an operand not
known yet, do not show it: they are what `Grounded` leaves out.
-/
import SsaTypes.Proofs.Reads

namespace SsaTypes

namespace Inference

/-- On the operands of a list, the second assignment has every type that the
first has. -/
def Known.LeOn (us : List OperandId) (known known' : Known) : Prop :=
  ∀ u ∈ us, ∀ t, known u = some t → known' u = some t

theorem Known.LeOn.mono {us ws : List OperandId} {known known' : Known}
    (h : Known.LeOn ws known known') (hsub : ∀ u ∈ us, u ∈ ws) :
    Known.LeOn us known known' :=
  fun u hu => h u (hsub u hu)

/-- The second answer is the first, unless that was to wait. -/
def Kept {α : Type} (x x' : Except Fault (Option α)) : Prop :=
  x = .ok none ∨ x' = x

theorem Kept.of_eq {α : Type} {x x' : Except Fault (Option α)} (h : x' = x) : Kept x x' :=
  .inr h

theorem Kept.map {α β : Type} {x x' : Except Fault (Option α)} (f : α → β) (h : Kept x x') :
    Kept (x.map fun a => a.map f) (x'.map fun a => a.map f) := by
  rcases h with h | h
  · left
    rw [h]
    rfl
  · right
    rw [h]

/-- Answers without faults are kept through further steps that are kept. -/
theorem Kept.bind {α β : Type} {x x' : Option α} {f f' : α → Option β}
    (h : Kept (.ok x) (.ok x')) (hf : ∀ a, x = some a → Kept (.ok (f a)) (.ok (f' a))) :
    Kept (.ok (x.bind f)) (.ok (x'.bind f')) := by
  rcases h with h | h
  · left
    rw [Except.ok.inj h]
    rfl
  · rw [Except.ok.inj h]
    rcases x with - | a
    · exact .inl rfl
    · exact hf a rfl

variable {known known' : Known}

theorem kept_known {us : List OperandId} {u : OperandId} (h : Known.LeOn us known known')
    (hu : u ∈ us) : Kept (.ok (known u)) (.ok (known' u)) := by
  rcases e : known u with - | t
  · exact .inl rfl
  · exact .inr (by rw [h u hu t e])

theorem known_eq_of_isSome {us : List OperandId} {u : OperandId}
    (h : Known.LeOn us known known') (hu : u ∈ us) (hs : (known u).isSome) :
    known' u = known u := by
  obtain ⟨t, ht⟩ := Option.isSome_iff_exists.mp hs
  rw [ht]
  exact h u hu t ht

/-- The elements of a list, asked for in turn, keep their answers together. -/
theorem kept_mapM {α β : Type} {f f' : α → Option β} {xs : List α}
    (h : ∀ x ∈ xs, Kept (.ok (f x)) (.ok (f' x))) :
    Kept (.ok (xs.mapM f)) (.ok (xs.mapM f')) := by
  induction xs with
  | nil => exact .inr rfl
  | cons x xs ih =>
    rw [List.mapM_cons, List.mapM_cons]
    refine (h x List.mem_cons_self).bind fun b _ => ?_
    refine (ih fun y hy => h y (List.mem_cons_of_mem x hy)).bind fun bs _ => ?_
    exact .inr rfl

theorem allKnown_kept {ids : List OperandId} (h : Known.LeOn ids known known') :
    Kept (.ok (allKnown known ids)) (.ok (allKnown known' ids)) :=
  kept_mapM fun _ hid => kept_known h hid

/-! ### Plain values -/

theorem binary_kept {id : OpId} {op : BinaryOp} {left right : OperandId}
    (h : Known.LeOn (binaryReads op left right) known known') :
    Kept (binary known id op left right) (binary known' id op left right) := by
  rcases e : binaryRule op with t | f | -
  · exact .of_eq (by simp only [binary, e])
  · simp only [binaryReads, e] at h
    rcases hl : known left with - | l
    · exact .inl (by simp only [binary, e, hl])
    · rcases hr : known right with - | r
      · exact .inl (by simp only [binary, e, hl, hr])
      · refine .of_eq ?_
        simp only [binary, e, hl, hr, h left (by simp) l hl, h right (by simp) r hr]
  · exact .of_eq (by simp only [binary, e])

theorem unary_kept {op : UnaryOp} {expr : OperandId}
    (h : Known.LeOn (unaryReads op expr) known known') :
    Kept (.ok (unary known op expr)) (.ok (unary known' op expr)) := by
  cases op with
  | booleanNot => exact .of_eq rfl
  | bitwiseNot | minus | plus => exact (kept_known h List.mem_cons_self).bind fun _ _ => .of_eq rfl

theorem cast_kept {kind : CastKind} {expr : OperandId}
    (h : Known.LeOn (castReads kind expr) known known') :
    Kept (.ok (cast known kind expr)) (.ok (cast known' kind expr)) := by
  cases kind with
  | bool | int | double | string => exact .of_eq rfl
  | array | object => exact (kept_known h List.mem_cons_self).bind fun _ _ => .of_eq rfl

theorem iterator_kept {kind : IteratorOp} {var : OperandId}
    (h : Known.LeOn (iteratorReads kind var) known known') :
    Kept (.ok (iterator known kind var)) (.ok (iterator known' kind var)) := by
  cases kind with
  | reset | valid | key => exact .of_eq rfl
  | value => exact (kept_known h List.mem_cons_self).bind fun _ _ => .of_eq rfl

theorem arrayLiteral_kept {values : List OperandId} (h : Known.LeOn values known known') :
    Kept (.ok (arrayLiteral known values)) (.ok (arrayLiteral known' values)) :=
  (allKnown_kept h).bind fun _ _ => .of_eq rfl

theorem dimFetch_kept {base : OperandId} (h : Known.LeOn [base] known known') :
    Kept (.ok (dimFetch known base)) (.ok (dimFetch known' base)) :=
  (kept_known h (List.mem_singleton_self base)).bind fun _ _ => .of_eq rfl

namespace Context

variable {c : Context}

/-! ### Guards -/

mutual

theorem testType_kept : (test : TypeTest) → Known.LeOn (c.testReads test) known known' →
    Kept (testType c known test) (testType c known' test)
  | .operand id, h => by
    rw [testType, testType]
    rcases ho : c.script.operand id with e | o
    · exact .of_eq rfl
    · rcases hl : o.literal? with - | v
      · rw [testReads_operand ho, hl] at h
        simpa [bind, Except.bind, hl] using kept_known h (List.mem_singleton_self id)
      · simp only [bind, Except.bind, hl]
        cases v <;> exact .of_eq rfl
  | .comb k ms, h => by
    rw [testType, testType]
    exact (testTypes_kept ms h).map _

theorem testTypes_kept : (tests : List TypeTest) →
    Known.LeOn (c.nonLiterals (TypeTest.operandsAll tests)) known known' →
    Kept (testTypes c known tests) (testTypes c known' tests)
  | [], _ => .of_eq (by rw [testTypes, testTypes])
  | m :: ms, h => by
    rw [TypeTest.operandsAll, nonLiterals_append] at h
    have hm := testType_kept m (h.mono fun u hu => List.mem_append_left _ hu)
    have hms := testTypes_kept ms (h.mono fun u hu => List.mem_append_right _ hu)
    rw [testTypes, testTypes]
    rcases hm with e | e
    · exact .inl (by rw [e]; rfl)
    · rw [e]
      rcases testType c known m with f | - | t
      · exact .of_eq rfl
      · exact .inl rfl
      · exact hms.map _

end

theorem guardType_kept {expr : OperandId} {guard : Guard}
    (hg : guard.isPositive = true ∨ (known expr).isSome)
    (h : Known.LeOn (c.guardReads expr guard) known known') :
    Kept (guardType c known expr guard) (guardType c known' expr guard) := by
  induction guard with
  | holds t => exact testType_kept t h
  | fails g ih =>
    -- what is left of the source after a removal may change while the source has no type
    have hsome : (known expr).isSome = true := hg.resolve_left (by simp [Guard.isPositive])
    have heq : known' expr = known expr :=
      known_eq_of_isSome h (List.mem_append_right _ (List.mem_singleton_self expr)) hsome
    rw [guardType, guardType, heq]
    rcases ih (.inr hsome) (h.mono fun u hu => List.mem_append_left _ hu) with e | e
    · exact .inl (by rw [e]; rfl)
    · exact .of_eq (by rw [e])

/-! ### Members -/

theorem classType_kept {id : OperandId} (h : Known.LeOn (c.classReads id) known known') :
    Kept (c.classType known id) (c.classType known' id) := by
  rcases c.classType_cases id with ⟨-, heq⟩ | ⟨hreads, htold⟩
  · exact .of_eq (heq known known')
  · rw [htold, htold]
    exact (kept_known h (by simp [hreads])).bind fun _ _ => .of_eq rfl

/-- The class stays, found or not, once the operand has a type. -/
theorem classType_eq {id : OperandId}
    (hg : (∃ o, c.script.operand id = .ok o ∧ o.namesClass = true) ∨ (known id).isSome)
    (h : Known.LeOn (c.classReads id) known known') :
    c.classType known' id = c.classType known id := by
  rcases c.classType_cases id with ⟨-, heq⟩ | ⟨hreads, htold⟩
  · exact heq known known'
  · have hsome : (known id).isSome = true := by
      refine hg.resolve_left ?_
      rintro ⟨o, ho, hnames⟩
      rw [classReads_of_namesClass ho hnames] at hreads
      cases hreads
    rw [htold, htold, known_eq_of_isSome h (by simp [hreads]) hsome]

theorem methodCall_kept {receiver name : OperandId} {isStatic : Bool}
    (h : Known.LeOn (c.namedReads name .methodName fun _ => [receiver]) known known') :
    Kept (c.methodCall known receiver name isStatic)
      (c.methodCall known' receiver name isStatic) := by
  rw [methodCall, methodCall]
  rcases hname : c.literalName name .methodName with e | - | s
  · exact .of_eq rfl
  · exact .of_eq rfl
  · rw [namedReads_eq hname] at h
    rcases hk : known receiver with - | t
    · exact .inl rfl
    · have hk' : known' receiver = some t := h receiver (List.mem_singleton_self receiver) t hk
      exact .of_eq (by simp only [bind, Except.bind, hk'])

theorem propertyFetch_kept {owner name : OperandId}
    (h : Known.LeOn (c.namedReads name .propertyName fun _ => c.classReads owner) known known') :
    Kept (c.propertyFetch known owner name) (c.propertyFetch known' owner name) := by
  rw [propertyFetch, propertyFetch]
  rcases hname : c.literalName name .propertyName with e | - | s
  · exact .of_eq rfl
  · exact .of_eq rfl
  · rw [namedReads_eq hname] at h
    rcases classType_kept h with e | e
    · exact .inl (by simp only [bind, Except.bind, e, Option.bind_none])
    · exact .of_eq (by simp only [bind, Except.bind, e])

theorem constFetch_kept {name : OperandId}
    (h : Known.LeOn (c.namedReads name .constantName c.constReads) known known') :
    Kept (c.constFetch known name) (c.constFetch known' name) := by
  rw [constFetch, constFetch]
  rcases hname : c.literalName name .constantName with e | - | s
  · exact .of_eq rfl
  · exact .of_eq rfl
  · rw [namedReads_eq hname] at h
    simp only [bind, Except.bind]
    rcases hkeyword : keywordConstant s with - | t
    · rcases hvalues : c.lookup.constant s with - | values
      · exact .of_eq rfl
      · rw [constReads_eq hkeyword, valuesOf_eq hvalues] at h
        exact allKnown_kept h
    · exact .of_eq rfl

theorem inheritedConstant_kept {name : String} {classes : List String}
    (h : Known.LeOn (classes.flatMap fun cls => c.valuesOf (classConstantKey cls name))
      known known') :
    Kept (.ok (c.inheritedConstant known name classes))
      (.ok (c.inheritedConstant known' name classes)) := by
  refine (kept_mapM fun cls hcls => ?_).map List.flatten
  split
  · next values hvalues =>
    refine allKnown_kept (h.mono fun u hu => List.mem_flatMap.mpr ⟨cls, hcls, ?_⟩)
    rwa [valuesOf_eq hvalues]
  · exact .of_eq rfl

theorem classConstant_kept {cls name : String}
    (h : Known.LeOn (c.classConstantReads cls name) known known') :
    Kept (.ok (c.classConstant known cls name)) (.ok (c.classConstant known' cls name)) := by
  rw [classConstantReads] at h
  rw [classConstant, classConstant]
  rcases hvalues : c.lookup.constant (classConstantKey cls name) with - | values
  · simp only [hvalues] at h
    refine Kept.bind (.of_eq rfl) fun ancestors hancestors => ?_
    simp only [hancestors] at h
    exact (inheritedConstant_kept h).bind fun _ _ => .of_eq rfl
  · simp only [hvalues] at h
    exact allKnown_kept h

theorem classConstFetch_kept {cls name : OperandId}
    (h : Known.LeOn (c.namedReads name .constantName (c.classConstReads known cls))
      known known') :
    Kept (c.classConstFetch known cls name) (c.classConstFetch known' cls name) := by
  rw [classConstFetch, classConstFetch]
  rcases hname : c.literalName name .constantName with e | - | s
  · exact .of_eq rfl
  · exact .of_eq rfl
  · rw [namedReads_eq hname, classConstReads] at h
    simp only [bind, Except.bind]
    rcases hcls : c.literalName cls .className with e | - | s'
    · exact .of_eq rfl
    · simp only [hcls] at h
      refine (kept_known h List.mem_cons_self).bind fun t ht => ?_
      refine Kept.bind (.of_eq rfl) fun s' hs' => classConstant_kept ?_
      simp only [ht, Option.bind_some, hs'] at h
      exact h.mono fun u hu => List.mem_cons_of_mem cls hu
    · simp only [hcls] at h
      exact classConstant_kept h

/-! ### Operations -/

/-- The candidates of a grounded operation are kept. -/
theorem candidates_kept {id : OpId} {op : Op} (hg : c.Grounded known op)
    (h : Known.LeOn (c.reads known op) known known') :
    Kept (c.candidates known id op) (c.candidates known' id op) := by
  cases op with
  | binary => exact binary_kept h
  | unary => exact unary_kept h
  | cast => exact cast_kept h
  | iterator => exact iterator_kept h
  | array => exact arrayLiteral_kept h
  | dimFetch => exact dimFetch_kept h
  | assign | assignRef | clone =>
    exact (kept_known h List.mem_cons_self).bind fun _ _ => .of_eq rfl
  | create cls =>
    have heq : c.classType known' cls = c.classType known cls := classType_eq hg h
    exact .of_eq (by simp only [candidates, heq])
  | staticCall | methodCall => exact methodCall_kept h
  | propertyFetch | staticPropertyFetch => exact propertyFetch_kept h
  | guarded expr guard =>
    simp only [candidates]
    rcases guardType_kept hg h with e | e
    · exact .inl (by rw [e]; rfl)
    · exact .of_eq (by rw [e])
  | constFetch => exact constFetch_kept h
  | classConstFetch => exact classConstFetch_kept h
  | _ => exact .of_eq rfl

end Context

/-- An answer that may still change: to wait, or a provisional type. -/
def Answer.Undecided (r : Except Fault Answer) : Prop :=
  r = .ok .wait ∨ ∃ t, r = .ok (.provisional t)

/-- A verdict that may still change: to wait, or a provisional type. -/
def Verdict.Undecided (r : Except Fault Verdict) : Prop :=
  r = .ok .wait ∨ ∃ t, r = .ok (.provisional t)

/-- A phi keeps its candidates. -/
theorem phi_kept {vars : List OperandId} (h : Known.LeOn vars known known') :
    Answer.Undecided (.ok (phi known vars)) ∨ phi known' vars = phi known vars := by
  rcases hm : Ty.merge? (vars.filterMap known) with - | t
  · exact .inl (.inl (by simp only [phi, hm]))
  · by_cases hall : vars.all fun v => (known v).isSome
    · -- all incoming values have types, which stay
      have heq : ∀ v ∈ vars, known' v = known v := fun v hv =>
        known_eq_of_isSome h hv (List.all_eq_true.mp hall v hv)
      have hall' : vars.all fun v => (known' v).isSome := by
        refine List.all_eq_true.mpr fun v hv => ?_
        rw [heq v hv]
        exact List.all_eq_true.mp hall v hv
      right
      have hf : vars.filterMap known' = vars.filterMap known :=
        List.filterMap_congr heq
      rw [phi, phi, hf, hm]
      simp only [hall, hall']
    · exact .inl (.inr ⟨t, by simp only [phi, hm, hall]; rfl⟩)

namespace Context

variable {c : Context}

/-- A grounded operation keeps its answer, faults included. -/
theorem answer_kept {id : OpId}
    (h : ∀ op, c.script.op id = .ok op →
      c.Grounded known op ∧ Known.LeOn (c.reads known op) known known') :
    Answer.Undecided (c.answer known id) ∨ c.answer known' id = c.answer known id := by
  rw [answer, answer]
  rcases e : c.script.op id with f | op
  · exact .inr rfl
  · obtain ⟨hg, hle⟩ := h op e
    have hk : Kept (c.candidates known id op) (c.candidates known' id op) :=
      candidates_kept hg hle
    cases op with
    | phi vars =>
      exact (phi_kept hle).imp_right fun hp => congrArg Except.ok hp
    | _ =>
      rcases hk with hk | hk
      · exact .inl (.inl (congrArg (Except.map Answer.of) hk))
      · exact .inr (congrArg (Except.map Answer.of) hk)

/-- Grounded operations keep what they say together. -/
theorem gather_kept {ids : List OpId}
    (h : ∀ id ∈ ids, ∀ op, c.script.op id = .ok op →
      c.Grounded known op ∧ Known.LeOn (c.reads known op) known known') :
    Answer.Undecided (c.gather known ids) ∨ c.gather known' ids = c.gather known ids := by
  induction ids with
  | nil => exact .inr rfl
  | cons id ids ih =>
    rw [gather, gather]
    rcases answer_kept (h id List.mem_cons_self) with (e | ⟨t, e⟩) | e
    · exact .inl (.inl (by rw [e]; rfl))
    · exact .inl (.inr ⟨t, by rw [e]; rfl⟩)
    · rw [e]
      rcases c.answer known id with f | - | t | ts
      · exact .inr rfl
      · exact .inl (.inl rfl)
      · exact .inl (.inr ⟨t, rfl⟩)
      · rcases ih fun i hi => h i (List.mem_cons_of_mem id hi) with (e' | ⟨t, e'⟩) | e'
        · exact .inl (.inl (by rw [e']; rfl))
        · exact .inl (.inr ⟨t, by rw [e']; rfl⟩)
        · exact .inr (by rw [e'])

/-- **Stability.**  If all producers of an operand are grounded, the verdict on
it is undecided or stays what it is, faults included, while more operands
become known. -/
theorem verdict_kept {v : OperandId}
    (h : ∀ op, c.script.Produces op v →
      c.Grounded known op ∧ Known.LeOn (c.reads known op) known known') :
    Verdict.Undecided (c.verdict known v) ∨ c.verdict known' v = c.verdict known v := by
  rw [verdict, verdict]
  rcases e : c.script.operand v with f | o
  · exact .inr rfl
  · have hops : ∀ id ∈ o.ops, ∀ op, c.script.op id = .ok op →
        c.Grounded known op ∧ Known.LeOn (c.reads known op) known known' :=
      fun id hid op hop => h op ⟨o, e, id, hid, hop⟩
    rcases gather_kept hops with (e' | ⟨t, e'⟩) | e'
    · exact .inl (.inl (by simp only [bind, Except.bind, e']; rfl))
    · exact .inl (.inr ⟨t, by simp only [bind, Except.bind, e']; rfl⟩)
    · exact .inr (by simp only [bind, Except.bind, e'])

end Context

end Inference

end SsaTypes
