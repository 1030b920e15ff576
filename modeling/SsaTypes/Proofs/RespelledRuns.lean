/-
SsaTypes/Proofs/RespelledRuns.lean

Runs over a script and over the same script in a new spelling.  Properties and operands
are seeded with types that are equal up to spelling; the rules then give verdicts that
are equal up to spelling, so both runs advance and stop together:

    types of infer (respell s)  ~  types of infer s,

with the same report, or with one fault in two spellings (`infer_respell`).  The lookup
tables are the same, up to the names that the missing parents go by.
-/
import SsaTypes.Proofs.RespelledTables

namespace SsaTypes

open Text

variable {f : String → String} {docs : Bool}

/-- The types of the operands, class names spelled anew. -/
def Script.operandTypes (f : String → String) (s : Script) : Array Ty :=
  s.operands.map fun o => o.ty.respell f

/-- The types of the properties, class by class, class names spelled anew. -/
def Script.propertyTypes (f : String → String) (s : Script) : Array (List Ty) :=
  s.classes.map fun d => d.properties.map fun p => p.ty.respell f

namespace Inference

open Context (outline)

/-! ### Properties -/

section Properties

variable (hf : Spelling f) {useDocs : Bool} (hdocs : useDocs = true → docs = true)
include hf hdocs

theorem propertyType_respell (p : Property) :
    Agree f (Ty.respell f) (propertyType useDocs (p.respell f docs)) (propertyType useDocs p) := by
  -- a comment that is read is there
  have hdoc : (if useDocs then DocComment.extract .var (p.respell f docs).doc else none) =
      if useDocs then DocComment.extract .var p.doc else none := by
    cases useDocs with
    | false => rfl
    | true =>
      obtain rfl := hdocs rfl
      rfl
  rw [propertyType, propertyType, hdoc]
  rcases (if useDocs then DocComment.extract .var p.doc else none : Option String) with - | text
  · rw [show (p.respell f docs).declared = p.declared.map f from rfl]
    rcases p.declared with - | text
    · exact .of_eq rfl
    · exact hf.reads text
  · exact .of_eq rfl

omit hf hdocs in
/-- Updates that agree on every element of a list agree on the list. -/
theorem updateUntil_map {α β : Type} (update : α → α × Option Fault) (view : α → β) {r : α → α}
    (hr : ∀ a, view (r a) = view a)
    (h : ∀ a, (update (r a)).map view (Option.map (Fault.respell f)) =
      (update a).map view (Option.map (Fault.respell f))) (as : List α) :
    (updateUntil update (as.map r)).map (List.map view) (Option.map (Fault.respell f)) =
      (updateUntil update as).map (List.map view) (Option.map (Fault.respell f)) := by
  have hrest (as : List α) : (as.map r).map view = as.map view := by
    rw [List.map_map]
    exact List.map_congr_left fun a _ => hr a
  induction as with
  | nil => rfl
  | cons a as ih =>
    have ha := h a
    rw [List.map_cons, updateUntil, updateUntil]
    generalize update (r a) = u' at ha ⊢
    generalize update a = u at ha ⊢
    obtain ⟨b', e'⟩ := u'
    obtain ⟨b, e⟩ := u
    obtain ⟨hb, he⟩ : view b' = view b ∧ e'.map (Fault.respell f) = e.map (Fault.respell f) :=
      Prod.mk.inj ha
    obtain ⟨rfl, rfl⟩ | ⟨e', e, rfl, rfl, he⟩ := cases_of_map_eq he
    · -- no fault so far
      obtain ⟨hbs, hes⟩ := Prod.mk.inj ih
      exact Prod.ext (List.cons_eq_cons.mpr ⟨hb, hbs⟩) hes
    · -- the rest stays as it is
      exact Prod.ext (List.cons_eq_cons.mpr ⟨hb, hrest as⟩) he

theorem seedProperty_respell (p : Property) :
    (seedProperty useDocs (p.respell f docs)).map (fun p => (p.name, p.ty.respell f))
        (Option.map (Fault.respell f)) =
      (seedProperty useDocs p).map (fun p => (p.name, p.ty.respell f))
        (Option.map (Fault.respell f)) := by
  rw [seedProperty, seedProperty]
  obtain ⟨e', e, h', h, he⟩ | ⟨t', t, h', h, ht⟩ := (propertyType_respell hf hdocs p).elim
  · rw [h', h]
    exact Prod.ext rfl (congrArg some he)
  · rw [h', h]
    exact Prod.ext (congrArg (Prod.mk p.name) ht) rfl

theorem seedClass_respell (d : ClassDecl) :
    (seedClass useDocs (d.respell f docs)).map (outline f) (Option.map (Fault.respell f)) =
      (seedClass useDocs d).map (outline f) (Option.map (Fault.respell f)) := by
  have hview (p : Property) : ((p.respell f docs).name, (p.respell f docs).ty.respell f) =
      (p.name, p.ty.respell f) := rfl
  obtain ⟨hps, he⟩ := Prod.mk.inj
    (updateUntil_map (seedProperty useDocs) (fun p => (p.name, p.ty.respell f)) hview
      (seedProperty_respell hf hdocs) d.properties)
  exact Prod.ext (congrArg (Prod.mk d.methods) hps) he

/-- **Properties** get the same types up to spelling, as far as the seeding goes. -/
theorem seedProperties_respell (s : Script) :
    (seedProperties useDocs (s.respell f docs)).1.classes.map (outline f) =
        (seedProperties useDocs s).1.classes.map (outline f) ∧
      (seedProperties useDocs (s.respell f docs)).2.map (Fault.respell f) =
        (seedProperties useDocs s).2.map (Fault.respell f) := by
  have houtline (d : ClassDecl) : outline f (d.respell f docs) = outline f d := by
    refine congrArg (Prod.mk d.methods) ?_
    show (d.properties.map (Property.respell f docs)).map _ = _
    rw [List.map_map]
    rfl
  have hclasses : (s.respell f docs).classes.toList =
      s.classes.toList.map (ClassDecl.respell f docs) := Array.toList_map
  obtain ⟨hcs, he⟩ := Prod.mk.inj
    (updateUntil_map (seedClass useDocs) (outline f) houtline (seedClass_respell hf hdocs)
      s.classes.toList)
  rw [seedProperties, seedProperties, hclasses]
  refine ⟨?_, he⟩
  rw [List.map_toArray, List.map_toArray]
  exact congrArg List.toArray hcs

end Properties

/-! ### Contexts -/

/-- **The context** of a run over a script in a new spelling. -/
theorem respelled_seedProperties (hf : Spelling f) {options : Options}
    (hdocs : options.useDocComments = true → docs = true) (s : Script) (l : Lookup) :
    Context.Respelled f docs ⟨(seedProperties options.useDocComments s).1, l, options⟩
      ⟨(seedProperties options.useDocComments (s.respell f docs)).1, l.respell f, options⟩ where
  toSpelling := hf
  useDocs := hdocs
  useDocComments := rfl
  operand id := Script.operand_of_map id rfl
  op id := Script.op_of_map id rfl
  function id := Script.function_of_map id rfl
  classDecl id := Script.classDecl_of_map id (seedProperties_respell hf hdocs s).1
  ancestors := rfl
  signatures := rfl
  functionsByName := rfl
  constantsByKey := rfl

/-! ### Operands -/

/-- The types entered, with class names spelled anew. -/
def respellTypes (f : String → String) (types : Table OperandId Ty) : Table OperandId Ty :=
  types.mapValues fun _ => Ty.respell f

/-- The progress with class names spelled anew. -/
def Progress.respell (f : String → String) (p : Progress) : Progress :=
  { p with types := respellTypes f p.types }

theorem find?_respellTypes (types : Table OperandId Ty) (v : OperandId) :
    (respellTypes f types).find? v = (types.find? v).map (Ty.respell f) :=
  Table.find?_mapValues _ types v

theorem respellTypes_insert (types : Table OperandId Ty) (v : OperandId) (t : Ty) :
    respellTypes f (types.insert v t) = (respellTypes f types).insert v (t.respell f) :=
  Table.mapValues_insert _ types v t

section Progress

variable {p p' : Progress}

section Types

variable {types types' : Table OperandId Ty} (h : respellTypes f types' = respellTypes f types)
include h

theorem Progress.respell_congr (pending : List OperandId) (rounds : Nat) :
    respell f ⟨types', pending, rounds⟩ = respell f ⟨types, pending, rounds⟩ := by
  rw [respell, respell, h]

/-- Rules see types that are equal up to spelling. -/
theorem known_respell : Known.respell f types'.find? = Known.respell f types.find? := by
  funext v
  rw [Known.respell, Known.respell, ← find?_respellTypes, h, find?_respellTypes]

theorem insert_respell (v : OperandId) {t' t : Ty} (ht : t'.respell f = t.respell f) :
    respellTypes f (types'.insert v t') = respellTypes f (types.insert v t) := by
  rw [respellTypes_insert, respellTypes_insert, h, ht]

end Types

theorem seedType_respell (hf : Spelling f) (o : Operand) :
    Agree f (Option.map (Ty.respell f)) (seedType (o.respell f)) (seedType o) := by
  rcases o with ⟨kind, ops, ty⟩
  rw [seedType, seedType]
  show Agree f _ (if !ty.isUnknown then .ok (some ty) else _)
    (if !ty.isUnknown then .ok (some ty) else _)
  split
  · exact .of_eq rfl
  · cases kind with
    | bound name scope owner =>
      cases scope with
      | receiver =>
        rcases owner with - | owner
        · exact .of_eq rfl
        · exact (hf.reads owner).map fun _ _ ht => congrArg some ht
      | _ => exact .of_eq rfl
    | _ => exact .of_eq rfl

theorem seedFrom_respell (hf : Spelling f) (os : List Operand) (id : OperandId)
    (h : p'.respell f = p.respell f) :
    Agree f (Progress.respell f) (seedFrom p' id (os.map (Operand.respell f)))
      (seedFrom p id os) := by
  induction os generalizing id p p' with
  | nil => exact .ok h
  | cons o os ih =>
    rw [List.map_cons, seedFrom, seedFrom]
    refine (seedType_respell hf o).bind fun r' r hr => ?_
    obtain ⟨types', pending', rounds'⟩ := p'
    obtain ⟨types, pending, rounds⟩ := p
    obtain ⟨htypes, rfl, rfl⟩ := Progress.mk.inj h
    obtain ⟨rfl, rfl⟩ | ⟨t', t, rfl, rfl, ht⟩ := cases_of_map_eq hr
    · exact ih (id + 1) (Progress.respell_congr htypes (pending' ++ [id]) rounds')
    · exact ih (id + 1) (Progress.respell_congr (insert_respell htypes id ht) pending' rounds')

/-- **Seeding** sees no spelling. -/
theorem seed_respell (hf : Spelling f) {s s' : Script}
    (h : s'.operands = s.operands.map (Operand.respell f)) :
    Agree f (Progress.respell f) (seed s') (seed s) := by
  rw [seed, seed, h, Array.toList_map]
  exact seedFrom_respell hf s.operands.toList 0 rfl

end Progress

/-! ### Rounds -/

namespace Context.Respelled

variable {c c' : Context} (h : Respelled f docs c c')
include h

/-- Both runs enter types in the same places and leave the same operands open. -/
theorem sweep (vs : List OperandId) {types types' : Table OperandId Ty}
    (ht : respellTypes f types' = respellTypes f types) :
    Agree f (Prod.map (respellTypes f) id) (c'.sweep types' vs) (c.sweep types vs) := by
  -- an operand that stays open is put before those that come after it
  have hopen (v : OperandId) (a b : Table OperandId Ty × List OperandId)
      (hab : a.map (respellTypes f) id = b.map (respellTypes f) id) :
      (a.1, v :: a.2).map (respellTypes f) id = (b.1, v :: b.2).map (respellTypes f) id := by
    obtain ⟨htypes, hrest⟩ := Prod.mk.inj hab
    exact Prod.ext htypes (congrArg (List.cons v) hrest)
  induction vs generalizing types types' with
  | nil => exact .ok (Prod.ext ht rfl)
  | cons v vs ih =>
    rw [Context.sweep, Context.sweep]
    refine (h.verdict (known_respell ht) v).bind fun a b hab => ?_
    cases a with
    | wait =>
      cases b with
      | wait => exact (ih ht).map (hopen v)
      | _ => cases hab
    | provisional t =>
      cases b with
      | provisional u =>
        exact (ih (insert_respell ht v (Verdict.provisional.inj hab))).map (hopen v)
      | _ => cases hab
    | confirmed t =>
      cases b with
      | confirmed u => exact ih (insert_respell ht v (Verdict.confirmed.inj hab))
      | _ => cases hab

variable {p p' : Progress}

theorem round (hp : p'.respell f = p.respell f) :
    Agree f (Progress.respell f) (c'.round p') (c.round p) := by
  obtain ⟨types', pending', rounds'⟩ := p'
  obtain ⟨types, pending, rounds⟩ := p
  obtain ⟨htypes, rfl, rfl⟩ := Progress.mk.inj hp
  refine (h.sweep pending' htypes).map fun a b hab => ?_
  obtain ⟨ht, hrest⟩ := Prod.mk.inj hab
  show Progress.respell f ⟨a.1, a.2, rounds' + 1⟩ = Progress.respell f ⟨b.1, b.2, rounds' + 1⟩
  rw [show a.2 = b.2 from hrest]
  exact Progress.respell_congr ht b.2 (rounds' + 1)

omit h in
theorem advanced_respell (p q : Progress) :
    advanced (p.respell f) (q.respell f) = advanced p q := by
  have hsize (p : Progress) : (p.respell f).types.size = p.types.size := List.length_map _
  rw [advanced, advanced, hsize, hsize]
  rfl

/-- **The rounds** see no spelling. -/
theorem iterate (limit : Nat) (hp : p'.respell f = p.respell f) :
    Agree f (Progress.respell f) (c'.iterate limit p') (c.iterate limit p) := by
  induction limit generalizing p p' with
  | zero => exact .ok hp
  | succ limit ih =>
    have hpending : p'.pending = p.pending := by
      show (p'.respell f).pending = (p.respell f).pending
      rw [hp]
    rw [Context.iterate, Context.iterate, hpending]
    split
    · exact .ok hp
    · refine (h.round hp).bind fun q' q hq => ?_
      rw [← advanced_respell p', hp, hq, advanced_respell]
      split
      · exact ih hq
      · exact .ok hq

end Context.Respelled

/-! ### The whole run -/

/-- The outcome with the names of the missing parents spelled anew. -/
def Outcome.respell (f : String → String) (out : Outcome) : Outcome :=
  { out with lookup := out.lookup.respell f }

/-- A run over seeded properties, once its tables are built. -/
theorem solve_of_build {s : Script} {signatures : Signatures} {l : Lookup}
    (h : Lookup.build s signatures = .ok l) (options : Options) :
    solve s signatures options =
      (seed s >>= Context.iterate ⟨s, l, options⟩ (options.roundLimit s.operands.size)).map
        (Prod.mk l) := by
  rw [solve, h]
  show (seed s >>= fun start => _ >>= fun last => .ok (l, last)) = _
  rcases seed s with e | start <;> rfl

section Final

variable (f : String → String)

theorem propertyTypes_eq (s : Script) :
    s.propertyTypes f = (s.classes.map (outline f)).map fun d => d.2.map Prod.snd := by
  rw [Array.map_map]
  refine Array.map_congr_left fun d _ => ?_
  rw [Function.comp_apply, outline, List.map_map]
  rfl

theorem final_respell (p : Progress) (id : OperandId) :
    (p.respell f).final id = (p.final id).respell f := by
  have hknown : (p.respell f).known id = (p.known id).map (Ty.respell f) :=
    find?_respellTypes p.types id
  rw [Progress.final, Progress.final, hknown]
  show (if id ∈ p.pending then _ else _) = _
  split
  · rfl
  · cases p.known id <;> rfl

theorem operandTypes_writeBack (s : Script) (p : Progress) :
    (writeBack s p).operandTypes f = (Array.range s.operands.size).map (p.respell f).final := by
  refine Array.ext_getElem? fun id => ?_
  rw [Script.operandTypes, Array.getElem?_map, getElem?_writeBack, Array.getElem?_map,
    Array.getElem?_range]
  split
  · next hid =>
    rw [Array.getElem?_eq_getElem hid]
    exact congrArg some (final_respell f p id).symm
  · next hid => rw [Array.getElem?_eq_none (Nat.le_of_not_lt hid)]; rfl

theorem report_respell (p : Progress) (operands : Nat) :
    (p.respell f).report operands = p.report operands :=
  rfl

end Final

section Run

variable {options : Options} (hf : Spelling f) (hdocs : options.useDocComments = true → docs = true)
variable (s : Script) (signatures : Signatures)
include hf hdocs

/-- The rounds of both runs, from their lookup tables on. -/
theorem rounds_respell (l : Lookup) (limit : Nat) :
    Agree f (Progress.respell f)
      (seed (seedProperties options.useDocComments (s.respell f docs)).1 >>=
        Context.iterate ⟨(seedProperties options.useDocComments (s.respell f docs)).1,
          l.respell f, options⟩ limit)
      (seed (seedProperties options.useDocComments s).1 >>=
        Context.iterate ⟨(seedProperties options.useDocComments s).1, l, options⟩ limit) :=
  (seed_respell hf rfl).bind fun _ _ hp =>
    (respelled_seedProperties hf hdocs s l).iterate limit hp

/-- **Two solutions.**  Both runs end with one fault in two spellings, or with states that
are equal up to spelling. -/
theorem solution_respell :
    (∃ e' e, solution (s.respell f docs) signatures options = .error e' ∧
      solution s signatures options = .error e ∧ e'.respell f = e.respell f) ∨
    ∃ l last' last, solution (s.respell f docs) signatures options =
        .ok (⟨(seedProperties options.useDocComments (s.respell f docs)).1, l.respell f, options⟩,
          last') ∧
      solution s signatures options =
        .ok (⟨(seedProperties options.useDocComments s).1, l, options⟩, last) ∧
      last'.respell f = last.respell f := by
  have hsize : (seedProperties options.useDocComments (s.respell f docs)).1.operands.size =
      (seedProperties options.useDocComments s).1.operands.size := Array.size_map
  have hfault := (seedProperties_respell hf hdocs s).2
  have hrounds := rounds_respell hf hdocs s
  have hbuild := Lookup.build_respell hf.fold docs s signatures
  rw [solution, solution]
  rcases h' : seedProperties options.useDocComments (s.respell f docs) with ⟨s₁', r'⟩
  rcases h : seedProperties options.useDocComments s with ⟨s₁, r⟩
  rw [h', h] at hfault hsize
  simp only [h', h] at hrounds
  obtain ⟨rfl, rfl⟩ | ⟨e', e, rfl, rfl, he⟩ := cases_of_map_eq hfault
  · rw [← Lookup.build_seedProperties h', ← Lookup.build_seedProperties h] at hbuild
    rcases hl : Lookup.build s₁ signatures with e | l <;> rw [hl] at hbuild
    · simp only [solve, hl, hbuild]
      exact .inl ⟨e, e, rfl, rfl, rfl⟩
    · simp only [solve_of_build hl, solve_of_build hbuild, hsize]
      obtain ⟨e', e, hq', hq, he⟩ | ⟨q', q, hq', hq, hqq⟩ :=
        (hrounds l (options.roundLimit s₁.operands.size)).elim
      · rw [hq', hq]
        exact .inl ⟨e', e, rfl, rfl, he⟩
      · rw [hq', hq]
        exact .inr ⟨l, q', q, rfl, rfl, hqq⟩
  · exact .inl ⟨e', e, rfl, rfl, he⟩

/-- **Runs see no spelling.**  Both end with one fault, or with one report and with the
same tables, in two spellings; and the types they leave are equal up to spelling. -/
theorem infer_respell :
    (infer (s.respell f docs) signatures options).1.operandTypes f =
        (infer s signatures options).1.operandTypes f ∧
      (infer (s.respell f docs) signatures options).1.propertyTypes f =
        (infer s signatures options).1.propertyTypes f ∧
      (infer (s.respell f docs) signatures options).2.mapError (Fault.respell f) =
        ((infer s signatures options).2.map (Outcome.respell f)).mapError (Fault.respell f) := by
  have hsize : (seedProperties options.useDocComments (s.respell f docs)).1.operands.size =
      (seedProperties options.useDocComments s).1.operands.size := Array.size_map
  have hoperands :
      (seedProperties options.useDocComments (s.respell f docs)).1.operandTypes f =
        (seedProperties options.useDocComments s).1.operandTypes f := Array.map_map
  have hproperties :
      (seedProperties options.useDocComments (s.respell f docs)).1.propertyTypes f =
        (seedProperties options.useDocComments s).1.propertyTypes f := by
    rw [propertyTypes_eq, propertyTypes_eq, (seedProperties_respell hf hdocs s).1]
  rw [infer_eq, infer_eq]
  obtain ⟨e', e, h', h, he⟩ | ⟨l, last', last, h', h, hlast⟩ :=
    solution_respell hf hdocs s signatures
  · rw [h', h]
    exact ⟨hoperands, hproperties, congrArg Except.error he⟩
  · rw [h', h]
    refine ⟨?_, hproperties, ?_⟩
    · rw [operandTypes_writeBack, operandTypes_writeBack, hlast, hsize]
    · show Except.ok _ = Except.ok _
      rw [hsize, ← report_respell f, hlast, report_respell]
      rfl

end Run

end Inference

end SsaTypes
