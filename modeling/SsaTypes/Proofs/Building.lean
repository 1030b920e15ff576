/-
SsaTypes/Proofs/Building.lean

Scripts that are built call by call, each call with no references but those that
earlier calls have returned.  A call mentions nothing new but what it is given and what
it returns, and takes no entry away,

    s'.Mentions r  →  s.Mentions r  ∨  r is passed  ∨  r is returned,
    s.Has r        →  s'.Has r,

so such a script is in range (`Built.inRange`).  Then its lookup tables lead to entries
only, and every number that a run looks up has an entry, in any round and for any rule
(`Built.never_dangling`).
-/
import SsaTypes.Proofs.Ancestors
import SsaTypes.Proofs.Inferred
import SsaTypes.Proofs.Visits

namespace SsaTypes

/-! ### Calls -/

/-- A call that builds on a script. -/
inductive Call
  | var (name : String)
  | temp
  | literal (value : Literal)
  | bound (name : String) (scope : Scope) (owner : Option String)
  | setType (id : OperandId) (t : Ty)
  | addProducer (result : OperandId) (op : OpId)
  | emit (op : Op) (result : OperandId)
  | assign (var expr result : OperandId)
  | declareClass (d : ClassDecl)
  | declareFunction (f : Function)
  /-- The class becomes the owner, whatever owner the function has. -/
  | declareMethod (cls : ClassId) (f : Function)
  | declareConstant (k : Constant)

namespace Call

/-- The references that a call is given. -/
def refs : Call → List Ref
  | .var _ | .temp | .literal _ | .bound .. => []
  | .setType id _ => [.operand id]
  | .addProducer result op => [.operand result, .op op]
  | .emit op result => .operand result :: op.refs
  | .assign target expr result => [.operand target, .operand expr, .operand result]
  | .declareClass d => d.refs
  | .declareFunction f => f.refs
  | .declareMethod cls _ => [.classDecl cls]
  | .declareConstant k => k.refs

/-- The script after a call, and the reference that the call returns. -/
def run (s : Script) : Call → Except Fault (Script × Option Ref)
  | .var name => .ok ((s.addVar name).map id fun id => some (.operand id))
  | .temp => .ok (s.addTemp.map id fun id => some (.operand id))
  | .literal value => .ok ((s.addLiteral value).map id fun id => some (.operand id))
  | .bound name scope owner =>
    .ok ((s.addBound name scope owner).map id fun id => some (.operand id))
  | .setType id t => (s.setType id t).map fun s => (s, none)
  | .addProducer result op => (s.addProducer result op).map fun s => (s, none)
  | .emit op result => (s.emit op result).map (Prod.map id fun id => some (.op id))
  | .assign target expr result =>
    (s.emitAssign target expr result).map (Prod.map id fun id => some (.op id))
  | .declareClass d => .ok ((s.addClass d).map id fun id => some (.classDecl id))
  | .declareFunction f => .ok ((s.addFunction f).map id fun id => some (.function id))
  | .declareMethod cls f => (s.addMethod cls f).map (Prod.map id fun id => some (.function id))
  | .declareConstant k => .ok (s.addConstant k, none)

end Call

/-- The scripts built from nothing by calls that are given no references but those
returned before; the list has these. -/
inductive Built : List Ref → Script → Prop
  | empty : Built [] {}
  | call {given : List Ref} {s s' : Script} {c : Call} {returned : Option Ref} :
      Built given s → (∀ r ∈ c.refs, r ∈ given) → c.run s = .ok (s', returned) →
      Built (returned.toList ++ given) s'

/-! ### What a call does -/

namespace Script

/-- From `s` to `s'` no entry is lost, nothing is mentioned but what was before, is
passed or is returned, and what is returned has its entry. -/
structure Grows (s s' : Script) (passed returned : List Ref) : Prop where
  keeps : ∀ r, s.Has r → s'.Has r
  mentions : ∀ r, s'.Mentions r → s.Mentions r ∨ r ∈ passed ∨ r ∈ returned
  has : ∀ r ∈ returned, s'.Has r

variable {s s' s'' : Script} {passed passed' returned returned' : List Ref}

/-- A second step may be passed what the first one returns. -/
theorem Grows.trans (h : Grows s s' passed returned) (h' : Grows s' s'' passed' returned')
    (hpassed : ∀ r ∈ passed', r ∈ passed ∨ r ∈ returned)
    (hreturned : ∀ r ∈ returned', r ∈ returned) :
    Grows s s'' passed returned where
  keeps r hr := h'.keeps r (h.keeps r hr)
  mentions r hr := by
    rcases h'.mentions r hr with hr | hr | hr
    · exact h.mentions r hr
    · exact .inr (hpassed r hr)
    · exact .inr (.inr (hreturned r hr))
  has r hr := h'.keeps r (h.has r hr)

theorem Grows.mono (h : Grows s s' passed returned) (hpassed : ∀ r ∈ passed, r ∈ passed') :
    Grows s s' passed' returned where
  keeps := h.keeps
  mentions r hr := (h.mentions r hr).imp_right (Or.imp_left (hpassed r))
  has := h.has

theorem Grows.inRange (h : Grows s s' passed returned) (hs : s.InRange)
    (hpassed : ∀ r ∈ passed, s.Has r) : s'.InRange := by
  intro r hr
  rcases h.mentions r hr with hr | hr | hr
  · exact h.keeps r (hs r hr)
  · exact h.keeps r (hpassed r hr)
  · exact h.has r hr

/-! New entries are appended, and operands and classes are changed in their places. -/

theorem grows_addOperand (s : Script) (kind : OperandKind) :
    Grows s (s.addOperand kind).1 [] [.operand s.operands.size] where
  keeps r hr := by cases r <;> grind [Has, addOperand]
  mentions r hr := by
    have hnew : ({ kind } : Operand).refs = [] := rfl
    simp only [Mentions, addOperand, Array.mem_push] at hr ⊢
    grind
  has r hr := by grind [Has, addOperand]

theorem grows_addOp (s : Script) (op : Op) :
    Grows s { s with ops := s.ops.push op } op.refs [.op s.ops.size] where
  keeps r hr := by cases r <;> grind [Has]
  mentions r hr := by
    simp only [Mentions, Array.mem_push] at hr ⊢
    grind
  has r hr := by grind [Has]

theorem grows_addClass (s : Script) (d : ClassDecl) :
    Grows s (s.addClass d).1 d.refs [.classDecl s.classes.size] where
  keeps r hr := by cases r <;> grind [Has, addClass]
  mentions r hr := by
    simp only [Mentions, addClass, Array.mem_push] at hr ⊢
    grind
  has r hr := by grind [Has, addClass]

theorem grows_addFunction (s : Script) (f : Function) :
    Grows s (s.addFunction f).1 f.refs [.function s.functions.size] where
  keeps r hr := by cases r <;> grind [Has, addFunction]
  mentions r hr := by
    simp only [Mentions, addFunction, Array.mem_push] at hr ⊢
    grind
  has r hr := by grind [Has, addFunction]

theorem grows_addConstant (s : Script) (k : Constant) :
    Grows s (s.addConstant k) k.refs [] where
  keeps r hr := by cases r <;> exact hr
  mentions r hr := by
    simp only [Mentions, addConstant, Array.mem_push] at hr ⊢
    grind
  has := nofun

theorem grows_updateOperand {id : OperandId} {f : Operand → Operand}
    (h : s.updateOperand id f = .ok s') (hf : ∀ o, ∀ r ∈ (f o).refs, r ∈ o.refs ∨ r ∈ passed) :
    Grows s s' passed [] := by
  rw [updateOperand] at h
  split at h
  · next hid =>
    obtain rfl := Except.ok.inj h
    refine ⟨fun r hr => by cases r <;> grind [Has], fun r hr => ?_, nofun⟩
    rcases hr with ⟨o, ho, hr⟩ | hr
    · rcases Array.mem_or_eq_of_mem_set (w := hid) ho with ho | rfl
      · exact .inl (.operand ho hr)
      · rcases hf _ r hr with hr | hr
        · exact .inl (.operand (Array.getElem_mem hid) hr)
        · exact .inr (.inl hr)
    · exact .inl (.inr hr)
  · cases h

theorem grows_addProducer {result : OperandId} {op : OpId}
    (h : s.addProducer result op = .ok s') : Grows s s' [.op op] [] :=
  grows_updateOperand h fun o r hr => by
    simpa [Operand.refs, or_comm] using hr

theorem grows_emit {op : Op} {result : OperandId} {id : OpId}
    (h : s.emit op result = .ok (s', id)) : Grows s s' op.refs [.op id] := by
  obtain ⟨s₁, h₁, heq⟩ := map_eq_ok.mp h
  obtain ⟨rfl, rfl⟩ := Prod.mk.inj heq
  exact (grows_addOp s op).trans (grows_addProducer h₁) (fun r hr => .inr hr) nofun

theorem grows_emitAssign {var expr result : OperandId} {id : OpId}
    (h : s.emitAssign var expr result = .ok (s', id)) :
    Grows s s' [.operand var, .operand expr] [.op id] := by
  rw [emitAssign, bind_eq_ok] at h
  obtain ⟨⟨s₁, id₁⟩, h₁, h⟩ := h
  have hemit : Grows s s₁ [.operand var, .operand expr] [.op id₁] := grows_emit h₁
  dsimp only at h
  split at h
  · obtain ⟨rfl, rfl⟩ := Prod.mk.inj (Except.ok.inj h)
    exact hemit
  · obtain ⟨s₂, h₂, heq⟩ := map_eq_ok.mp h
    obtain ⟨rfl, rfl⟩ := Prod.mk.inj heq
    exact hemit.trans (grows_addProducer h₂) (fun r hr => .inr hr) nofun

theorem grows_addMethod {cls : ClassId} {f : Function} {id : FunctionId}
    (h : s.addMethod cls f = .ok (s', id)) : Grows s s' [.classDecl cls] [.function id] := by
  rw [addMethod] at h
  split at h
  · next hcls =>
    obtain ⟨rfl, rfl⟩ := Prod.mk.inj (Except.ok.inj h)
    refine (grows_addFunction s { f with owner := some cls }).trans
      (?_ : Grows _ _ [.function _] []) (fun r hr => .inr hr) nofun
    refine ⟨fun r hr => by cases r <;> grind [Has, addFunction], fun r hr => ?_, nofun⟩
    rcases hr with hr | hr | ⟨d, hd, hr⟩ | hr
    · exact .inl (.inl hr)
    · exact .inl (.inr (.inl hr))
    · rcases Array.mem_or_eq_of_mem_set (w := hcls) hd with hd | rfl
      · exact .inl (.classDecl hd hr)
      · rw [ClassDecl.refs, List.map_append, List.mem_append] at hr
        rcases hr with hr | hr
        · exact .inl (.classDecl (Array.getElem_mem hcls) hr)
        · exact .inr (.inl hr)
    · exact .inl (.inr (.inr (.inr hr)))
  · cases h

theorem exists_updateOperand {id : OperandId} (hid : id < s.operands.size)
    (f : Operand → Operand) : ∃ s', s.updateOperand id f = .ok s' :=
  ⟨_, dif_pos hid⟩

theorem exists_emit (op : Op) {result : OperandId} (hresult : s.Has (.operand result)) :
    ∃ s' id, s.emit op result = .ok (s', id) := by
  obtain ⟨s₁, h₁⟩ := exists_updateOperand (s := { s with ops := s.ops.push op }) hresult _
  exact ⟨s₁, s.ops.size, map_eq_ok.mpr ⟨s₁, h₁, rfl⟩⟩

theorem exists_emitAssign {target result : OperandId} (htarget : s.Has (.operand target))
    (expr : OperandId) (hresult : s.Has (.operand result)) :
    ∃ s' id, s.emitAssign target expr result = .ok (s', id) := by
  obtain ⟨s₁, id, h₁⟩ := exists_emit (.assign target expr) hresult
  by_cases heq : target = result
  · exact ⟨s₁, id, bind_eq_ok.mpr ⟨(s₁, id), h₁, if_pos heq⟩⟩
  · obtain ⟨s₂, h₂⟩ := exists_updateOperand ((grows_emit h₁).keeps _ htarget) _
    refine ⟨s₂, id, bind_eq_ok.mpr ⟨(s₁, id), h₁, ?_⟩⟩
    dsimp only
    rw [if_neg heq]
    exact map_eq_ok.mpr ⟨s₂, h₂, rfl⟩

end Script

namespace Call

variable {s s' : Script} {returned : Option Ref}

/-- **What a call does.** -/
theorem run_grows {call : Call} (h : call.run s = .ok (s', returned)) :
    s.Grows s' call.refs returned.toList := by
  cases call with
  | var | temp | literal | bound =>
    obtain ⟨rfl, rfl⟩ := Prod.mk.inj (Except.ok.inj h)
    exact Script.grows_addOperand s _
  | setType id t =>
    obtain ⟨s₁, h₁, heq⟩ := map_eq_ok.mp h
    obtain ⟨rfl, rfl⟩ := Prod.mk.inj heq
    exact Script.grows_updateOperand h₁ fun o r hr => .inl hr
  | addProducer result op =>
    obtain ⟨s₁, h₁, heq⟩ := map_eq_ok.mp h
    obtain ⟨rfl, rfl⟩ := Prod.mk.inj heq
    exact (Script.grows_addProducer h₁).mono fun r hr => List.mem_cons_of_mem _ hr
  | emit op result =>
    obtain ⟨⟨s₁, id⟩, h₁, heq⟩ := map_eq_ok.mp h
    obtain ⟨rfl, rfl⟩ := Prod.mk.inj heq
    exact (Script.grows_emit h₁).mono fun r hr => List.mem_cons_of_mem _ hr
  | assign target expr result =>
    obtain ⟨⟨s₁, id⟩, h₁, heq⟩ := map_eq_ok.mp h
    obtain ⟨rfl, rfl⟩ := Prod.mk.inj heq
    exact (Script.grows_emitAssign h₁).mono (by simp [refs])
  | declareClass d =>
    obtain ⟨rfl, rfl⟩ := Prod.mk.inj (Except.ok.inj h)
    exact Script.grows_addClass s d
  | declareFunction f =>
    obtain ⟨rfl, rfl⟩ := Prod.mk.inj (Except.ok.inj h)
    exact Script.grows_addFunction s f
  | declareMethod cls f =>
    obtain ⟨⟨s₁, id⟩, h₁, heq⟩ := map_eq_ok.mp h
    obtain ⟨rfl, rfl⟩ := Prod.mk.inj heq
    exact Script.grows_addMethod h₁
  | declareConstant k =>
    obtain ⟨rfl, rfl⟩ := Prod.mk.inj (Except.ok.inj h)
    exact Script.grows_addConstant s k

/-- A call that is given references to entries is no fault. -/
theorem exists_run {call : Call} (h : ∀ r ∈ call.refs, s.Has r) :
    ∃ s' returned, call.run s = .ok (s', returned) := by
  cases call with
  | var | temp | literal | bound | declareClass | declareFunction | declareConstant =>
    exact ⟨_, _, rfl⟩
  | setType id t =>
    obtain ⟨s₁, h₁⟩ := Script.exists_updateOperand (h (.operand id) (by simp [refs])) _
    exact ⟨s₁, none, map_eq_ok.mpr ⟨s₁, h₁, rfl⟩⟩
  | addProducer result op =>
    obtain ⟨s₁, h₁⟩ := Script.exists_updateOperand (h (.operand result) (by simp [refs])) _
    exact ⟨s₁, none, map_eq_ok.mpr ⟨s₁, h₁, rfl⟩⟩
  | emit op result =>
    obtain ⟨s₁, id, h₁⟩ := Script.exists_emit op (h (.operand result) (by simp [refs]))
    exact ⟨s₁, _, map_eq_ok.mpr ⟨_, h₁, rfl⟩⟩
  | assign target expr result =>
    obtain ⟨s₁, id, h₁⟩ := Script.exists_emitAssign (h (.operand target) (by simp [refs])) expr
      (h (.operand result) (by simp [refs]))
    exact ⟨s₁, _, map_eq_ok.mpr ⟨_, h₁, rfl⟩⟩
  | declareMethod cls f =>
    have hcls : cls < s.classes.size := h (.classDecl cls) (by simp [refs])
    exact ⟨_, _, map_eq_ok.mpr ⟨_, dif_pos hcls, rfl⟩⟩

end Call

/-- **Scripts built call by call are in range**, and what calls have returned has its
entry. -/
theorem Built.inRange {given : List Ref} {s : Script} (h : Built given s) :
    s.InRange ∧ ∀ r ∈ given, s.Has r := by
  induction h with
  | empty => exact ⟨by simp [Script.InRange, Script.Mentions], nofun⟩
  | @call given s s' call returned _ hrefs hrun ih =>
    obtain ⟨hrange, hgiven⟩ := ih
    have hgrows := Call.run_grows hrun
    refine ⟨hgrows.inRange hrange fun r hr => hgiven r (hrefs r hr), fun r hr => ?_⟩
    rcases List.mem_append.mp hr with hr | hr
    · exact hgrows.has r hr
    · exact hgrows.keeps r (hgiven r hr)

/-! ### Lookups in range -/

namespace Script

variable {s : Script}

theorem InRange.leads (h : s.InRange) (F : Fault → Prop) : s.Leads F s.Has where
  operand v hv := by
    have hget : s.operands[v]? = some s.operands[v] := Array.getElem?_eq_getElem hv
    rw [Script.operand, hget]
    exact fun r hr => h r (.operand (Array.getElem_mem hv) hr)
  op id hid := by
    have hget : s.ops[id]? = some s.ops[id] := Array.getElem?_eq_getElem hid
    rw [Script.op, hget]
    exact fun r hr => h r (.op (Array.getElem_mem hid) hr)
  classDecl id hid := by
    have hget : s.classes[id]? = some s.classes[id] := Array.getElem?_eq_getElem hid
    rw [Script.classDecl, hget]
    exact fun r hr => h r (.classDecl (Array.getElem_mem hid) hr)
  function id hid := by
    have hget : s.functions[id]? = some s.functions[id] := Array.getElem?_eq_getElem hid
    rw [Script.function, hget]
    trivial

/-- The functions found by their names are functions of the script. -/
theorem has_of_indexFunctions {name : String} {ids : List FunctionId}
    (h : (Lookup.indexFunctions s).find? name = some ids) : ∀ id ∈ ids, s.Has (.function id) := by
  rw [Lookup.indexFunctions, ← List.foldl_filter, Table.find?_foldl_push_key] at h
  obtain rfl := (Table.unlessEmpty_eq_some.mp h).2
  intro id hid
  obtain ⟨f, hf, rfl⟩ := List.mem_map.mp hid
  rw [Has]
  simpa using (List.mem_zipIdx (List.mem_of_mem_filter (List.mem_of_mem_filter hf))).2.1

/-- The declared ancestors of a class are classes of the script. -/
theorem has_of_resolves {name : String} {set : AncestorSet}
    (h : (Hierarchy.build s.classes.toList).resolves name = some set) :
    ∀ cls ∈ set.values.filterMap id, s.Has (.classDecl cls) := by
  intro cls hcls
  rw [Hierarchy.resolves, Hierarchy.find?_ancestors] at h
  obtain ⟨_, -, rfl⟩ := Option.map_eq_some_iff.mp h
  obtain ⟨v, hv, rfl⟩ := List.mem_filterMap.mp hcls
  obtain ⟨⟨a, v⟩, ha, rfl⟩ := List.mem_map.mp hv
  -- an ancestor stands in the set once, with the number of its declaration
  have hfind := Table.findIn_of_mem (Hierarchy.nodup_keys_gather _) ha
  rw [← Table.find?, Hierarchy.find?_gather] at hfind
  split at hfind
  · obtain ⟨d, hd, hid⟩ := Option.map_eq_some_iff.mp (Option.some.inj hfind)
    have hmem : (d.decl, cls) ∈ s.classes.toList.zipIdx :=
      hid ▸ List.mem_of_find?_eq_some (Hierarchy.find?_declared_iff.mp hd).2
    rw [Has]
    simpa using (List.mem_zipIdx hmem).2.1
  · cases hfind

/-- Giving the properties their types changes no reference. -/
theorem InRange.seedProperties (h : s.InRange) (useDocs : Bool) :
    (Inference.seedProperties useDocs s).1.InRange := by
  have hmethods : (Inference.seedProperties useDocs s).1.classes.map ClassDecl.methods =
      s.classes.map ClassDecl.methods := by
    rw [← Array.toList_inj, Array.toList_map, Array.toList_map]
    exact Inference.map_updateUntil (fun _ => rfl) s.classes.toList
  have hsize := congrArg Array.size hmethods
  rw [Array.size_map, Array.size_map] at hsize
  intro r hr
  have hold : s.Mentions r := by
    rcases hr with hr | hr | ⟨d, hd, hr⟩ | hr
    · exact .inl hr
    · exact .inr (.inl hr)
    · have hd' : d.methods ∈ s.classes.map ClassDecl.methods :=
        hmethods ▸ Array.mem_map.mpr ⟨d, hd, rfl⟩
      obtain ⟨d₀, hd₀, heq⟩ := Array.mem_map.mp hd'
      refine .classDecl hd₀ ?_
      rwa [ClassDecl.refs, heq]
    · exact .inr (.inr (.inr hr))
  cases r with
  | classDecl id => exact Nat.lt_of_lt_of_eq (h _ hold) hsize.symm
  | _ => exact h _ hold

end Script

namespace Inference

variable {s : Script} {signatures : Signatures} {options : Options}

/-- The context of a run over a script in range looks up entries only. -/
theorem leads_of_setting {F : Fault → Prop}
    (hF : ∀ f : Fault, f.isEmptied = false → f.isDangling = false → F f) (hs : s.InRange)
    {c : Context} (h : setting s signatures options = .ok c) :
    c.script.InRange ∧ c.Leads F c.script.Has := by
  rw [setting] at h
  rcases e : seedProperties options.useDocComments s with ⟨s', - | f⟩
  · rw [e] at h
    obtain ⟨l, hl, rfl⟩ := map_eq_ok.mp h
    have hs' : s'.InRange := by
      have hs' := hs.seedProperties options.useDocComments
      rwa [e] at hs'
    obtain ⟨constants, -, rfl⟩ := map_eq_ok.mp hl
    exact ⟨hs', {
      toLeads := hs'.leads F
      plain := hF
      named := fun name ids => Script.has_of_indexFunctions
      ancestor := fun name set => Script.has_of_resolves }⟩
  · rw [e] at h
    cases h

/-- **A run over a script in range has no dangling numbers.** -/
theorem infer_inRange (hs : s.InRange) {f : Fault}
    (h : (infer s signatures options).2 = .error f) : f.isDangling = false := by
  have hplain : ∀ f : Fault, f.isEmptied = false → f.isDangling = false → f.isDangling = false :=
    fun _ _ h => h
  rcases fault_of_solution (infer_eq_error.mp h) with hc | ⟨c, hc, hfault⟩
  · have hs' := hs.seedProperties options.useDocComments
    have hsafe : Safe (fun f => f.isDangling = false) (setting s signatures options) :=
      safe_setting (fun _ => rfl) (hs'.leads _)
        (fun k hk r hr => hs' r (.constant hk hr)) signatures
    exact hsafe.of_error hc
  obtain ⟨hrange, hleads⟩ := leads_of_setting hplain hs hc
  rcases hfault with hseed | ⟨start, b, v, hseed, hb, hv, hfault⟩
  · exact (safe_seed hplain c.script).of_error hseed
  · -- an open operand has an entry, and so has all that the rules for it look up
    have hopen := ((Context.coherent_seed hseed).visits hb).isOpen v hv
    refine (Context.verdict_yields hleads Ty.class_all (fun _ _ _ => trivial)
      (Script.lt_size_of_isOpen hopen) fun op hop => ⟨fun _ _ _ _ => trivial, ?_⟩).of_error hfault
    rintro expr guard rfl
    obtain ⟨o, -, id, -, hop⟩ := hop
    have hmem := Array.mem_of_getElem? (Script.op_eq_ok.mp hop)
    refine (Context.safe_guardType hleads (fun _ _ => rfl) _ expr fun u hu => ?_).mono
      fun _ _ _ _ _ => trivial
    exact hrange _ (.op hmem (Op.operand_mem_refs (List.mem_cons_of_mem _ hu)))

end Inference

/-- **Scripts built call by call run without dangling numbers.** -/
theorem Built.never_dangling {given : List Ref} {s : Script} (h : Built given s) :
    (∀ call : Call, (∀ r ∈ call.refs, r ∈ given) →
      ∃ s' returned, call.run s = .ok (s', returned)) ∧
    ∀ signatures, (∃ l, Lookup.build s signatures = .ok l) ∧
      ∀ options f, (Inference.infer s signatures options).2 = .error f → f.isDangling = false := by
  obtain ⟨hrange, hgiven⟩ := h.inRange
  refine ⟨fun call hrefs => Call.exists_run fun r hr => hgiven r (hrefs r hr), fun signatures =>
    ⟨?_, fun options f => Inference.infer_inRange hrange⟩⟩
  -- the tables can only fault with a dangling number
  have hsafe : Safe (fun _ => False) (Lookup.build s signatures) :=
    Inference.safe_build (hrange.leads _) (fun k hk r hr => hrange r (.constant hk hr))
      signatures
  rcases e : Lookup.build s signatures with f | l
  · exact (hsafe.of_error e).elim
  · exact ⟨l, rfl⟩

/-- A class with a method, a parameter of it with null for default, and a call. -/
theorem Built.never_dangling_methodCall : ∃ given s, Built given s ∧ s.ops.size = 3 ∧
    ∀ signatures, (∃ l, Lookup.build s signatures = .ok l) ∧
      ∀ options f, (Inference.infer s signatures options).2 = .error f → f.isDangling = false := by
  have hclass : Built [.classDecl 0] _ :=
    .call (c := .declareClass { name := "Maker" }) .empty (by decide) rfl
  have hmethod : Built [.function 0, .classDecl 0] _ :=
    .call (c := .declareMethod 0 { name := "make", returns := some "int" }) hclass (by decide) rfl
  have hnull : Built (.operand 0 :: _) _ :=
    .call (c := .literal (.string "null")) hmethod (by decide) rfl
  have hdefault : Built (.operand 1 :: _) _ := .call (c := .temp) hnull (by decide) rfl
  have hfetch : Built (.op 0 :: _) _ :=
    .call (c := .emit (.constFetch 0) 1) hdefault (by decide) rfl
  have hparam : Built (.operand 2 :: _) _ := .call (c := .var "size") hfetch (by decide) rfl
  have hemit : Built (.op 1 :: _) _ :=
    .call (c := .emit (.param "size" none (some 1) (some 0)) 2) hparam (by decide) rfl
  have hname : Built (.operand 3 :: _) _ :=
    .call (c := .literal (.string "make")) hemit (by decide) rfl
  have hmaker : Built (.operand 4 :: _) _ :=
    .call (c := .bound "this" .receiver (some "Maker")) hname (by decide) rfl
  have hmade : Built (.operand 5 :: _) _ := .call (c := .temp) hmaker (by decide) rfl
  have hcall : Built (.op 2 :: _) _ :=
    .call (c := .emit (.methodCall 4 3 [2]) 5) hmade (by decide) rfl
  exact ⟨_, _, hcall, rfl, hcall.never_dangling.2⟩

end SsaTypes
