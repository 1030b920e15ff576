/-
SsaTypes/Proofs/MethodCalls.lean

What a call of a method contributes.

Every declared class among the ancestors of the receiver answers for itself: with its
first method of the name, else with its handler for all other names (`callee?`).  So the
candidates are

    the returns of  callee? name handler  over the declared ancestors, in their order

(`methodCall_perClass`), and a handler stands beside the declarations of other classes
(`handler_beside_declaration`).

What one method returns is its declared type, or that of its doc comment where this is a
strict subset.  Every type that a declaration can give is a subset of itself and of the
type of all values, so the doc comment narrows and never widens, and counts in full where
nothing is declared (`methodReturn_narrows`).
-/
import SsaTypes.Proofs.AncestorOrder
import SsaTypes.Proofs.Definite
import SsaTypes.Proofs.References
import SsaTypes.Proofs.SubsetUnions

namespace SsaTypes

open Relation Text

/-! ### What a method returns -/

namespace Ty

/-- Every type in normal form is a subset of the type of all values. -/
theorem isSubset_mixed {t : Ty} (h : t.isNormal = true) : isSubset t mixed = true := by
  have hself {p : Ty} (hp : p.isPlain = true) (hmem : p ∈ mixed.members)
      (hknown : p.isDefinite = true) : isSubset p mixed = true :=
    isSubset_union_of_isPlain hp hmem (isSubset_refl hknown)
  induction t using inductOn with
  | unknown => cases h
  | named c =>
    exact isSubset_union_of_isPlain (m := .object) rfl (by decide)
      (isSubset_of_below rfl rfl .object)
  | arrayOf e =>
    exact isSubset_union_of_isPlain (m := .array) rfl (by decide)
      (isSubset_of_below rfl rfl (.array rfl))
  | comb k ms ih =>
    obtain ⟨hlength, hms⟩ := isNormal_comb.mp h
    have hmembers : ∀ m ∈ ms, isSubset m mixed = true := fun m hm => ih m hm (hms m hm).1
    cases k with
    | union => exact isSubset_of_below rfl rfl (.unionLeft hmembers)
    | inter =>
      obtain ⟨m, hm⟩ := List.exists_mem_of_length_pos (Nat.lt_of_lt_of_le Nat.zero_lt_two hlength)
      exact isSubset_of_below rfl rfl (.interLeft rfl hm (hmembers m hm))
  | _ => exact hself rfl (by decide) rfl

/-- What can be read from a text is a subset of itself and of the type of all values. -/
theorem isSubset_of_ofDecl {text : String} {t : Ty} (h : ofDecl text = .ok t) :
    isSubset t t = true ∧ isSubset t mixed = true := by
  have hnormal := Decl.isNormal_of_parse h
  exact ⟨isSubset_refl (isDefinite_of_isNormal hnormal), isSubset_mixed hnormal⟩

end Ty

namespace Inference.Context

/-- A doc comment gives the type of its tag if doc comments are read, and some type
anyway. -/
theorem exists_docType {c : Context} {tag : DocTag} {comment : Option String} {tagged : Ty}
    (htagged : c.options.useDocComments = true → Ty.ofComment tag comment = .ok tagged) :
    ∃ doc, c.docType tag comment = .ok doc ∧
      (c.options.useDocComments = true → doc = tagged) := by
  rw [docType]
  by_cases huse : c.options.useDocComments = true
  · rw [if_pos huse, htagged huse]
    exact ⟨tagged, rfl, fun _ => rfl⟩
  · rw [if_neg huse]
    exact ⟨.mixed, rfl, fun h => absurd h huse⟩

/-- A method returns one of two types, once both have been read. -/
theorem methodReturn_eq {c : Context} {m : Function} {declared doc : Ty}
    (hdeclared : m.returns.elim (.ok .mixed) Ty.ofDecl = .ok declared)
    (hdoc : c.docType .returned m.doc = .ok doc) :
    c.methodReturn m = .ok (if doc.isStrictSubset declared then doc else declared) := by
  rw [methodReturn, hdoc]
  rcases hreturns : m.returns with - | text
  · rw [hreturns] at hdeclared
    obtain rfl := Except.ok.inj hdeclared
    rfl
  · rw [hreturns] at hdeclared
    have hread : readDecl text = .ok declared := by
      rw [readDecl, show Ty.ofDecl text = .ok declared from hdeclared]
      rfl
    show (readDecl text >>= fun declared => _) = _
    rw [hread]
    rfl

/-- **Doc comments narrow.**  The declared type of a method is that of its text, or
anything if it has none.  What the method returns is a subset of it; and where nothing is
declared and doc comments are read, it is the same as the type of the tag.  This comes
from what can be read from any text. -/
theorem methodReturn_narrows (c : Context) (m : Function) {declared tagged : Ty}
    (hdeclared : m.returns.elim (.ok .mixed) Ty.ofDecl = .ok declared)
    (htagged : c.options.useDocComments = true → Ty.ofComment .returned m.doc = .ok tagged) :
    (∃ t, c.methodReturn m = .ok t ∧ t.isSubset declared = true ∧
      (c.options.useDocComments = true → m.returns = none → Ty.same t tagged = true)) ∧
    ∀ text t, Ty.ofDecl text = .ok t → t.isSubset t = true ∧ t.isSubset .mixed = true := by
  refine ⟨?_, fun text t => Ty.isSubset_of_ofDecl⟩
  have hself : declared.isSubset declared = true := by
    rcases hreturns : m.returns with - | text
    · rw [hreturns] at hdeclared
      obtain rfl := Except.ok.inj hdeclared
      exact Ty.isSubset_mixed isNormal_mixed
    · rw [hreturns] at hdeclared
      exact (Ty.isSubset_of_ofDecl hdeclared).1
  obtain ⟨doc, hdoc, htag⟩ := exists_docType htagged
  refine ⟨_, methodReturn_eq hdeclared hdoc, ?_, fun huse hreturns => ?_⟩
  · split
    · next hstrict =>
      rw [Ty.isStrictSubset, Bool.and_eq_true] at hstrict
      exact hstrict.1
    · exact hself
  · obtain rfl := htag huse
    rw [hreturns] at hdeclared
    obtain rfl := Except.ok.inj hdeclared
    split
    · exact Ty.same_refl doc
    · next hstrict =>
      -- only a type that is the same as `mixed` is no strict subset of it
      have hmixed := Ty.isSubset_mixed (isNormal_of_docType hdoc)
      rw [Ty.isStrictSubset, hmixed, Bool.true_and, Bool.not_eq_true', Bool.not_eq_false] at hstrict
      exact Ty.same_symm hstrict

/-- A method with a doc comment that says more than its declaration. -/
def narrowed : Function where
  name := "handler"
  returns := some "(Foo&Bar)[]|callable|null"
  doc := some "/** @return ?Closure */"

/-- A method without a declared type; every value has the type of its doc comment. -/
def undeclared : Function where
  name := "any"
  doc := some "/** @return callable|int[]|object|string|float|int|bool|null */"

theorem methodReturn_narrows_undeclared :
    ∃ c, setting {} {} {} = .ok c ∧
      (∃ t, c.methodReturn narrowed = .ok t ∧
        t.isSubset (.union [.arrayOf (.inter [.named "Foo", .named "Bar"]), .callable, .null]) =
          true) ∧
      ∃ t, c.methodReturn undeclared = .ok t ∧
        Ty.same t (.union [.callable, .arrayOf .int, .object, .string, .float, .int, .bool,
          .null]) = true := by
  refine ⟨_, rfl, ?_, ?_⟩
  · have hdeclared : narrowed.returns.elim (.ok .mixed) Ty.ofDecl = .ok
        (.union [.arrayOf (.inter [.named "Foo", .named "Bar"]), .callable, .null]) :=
      toOption_eq_some.mp (by decide +kernel)
    have htagged : Ty.ofComment .returned narrowed.doc = .ok (.union [.named "Closure", .null]) :=
      toOption_eq_some.mp (by decide +kernel)
    obtain ⟨⟨t, ht, hsub, -⟩, -⟩ := methodReturn_narrows _ narrowed hdeclared fun _ => htagged
    exact ⟨t, ht, hsub⟩
  · have htagged : Ty.ofComment .returned undeclared.doc = .ok (.union [.callable, .arrayOf .int,
        .object, .string, .float, .int, .bool, .null]) :=
      toOption_eq_some.mp (by decide +kernel)
    obtain ⟨⟨t, ht, -, hsame⟩, -⟩ := methodReturn_narrows _ undeclared rfl fun _ => htagged
    exact ⟨t, ht, hsame rfl rfl⟩

end Inference.Context

/-! ### Which methods a call finds -/

theorem Operand.kind_of_literal? {o : Operand} {l : Literal} (h : o.literal? = some l) :
    o.kind = .literal l := by
  rw [Operand.literal?] at h
  split at h
  · next hkind => rw [hkind, Option.some.inj h]
  · cases h

namespace Script

/-- The first method of a class with a name. -/
def method? (s : Script) (name : String) (cls : ClassId) : Option Function :=
  s.classes[cls]?.bind fun d =>
    (d.methods.filterMap (s.functions[·]?)).find? fun f => sameName f.name name

/-- What a class has for the calls of a name: its method, else its handler. -/
def callee? (s : Script) (name handler : String) (cls : ClassId) : Option Function :=
  (s.method? name cls).or (s.method? handler cls)

/-- No method of the name is lost among the methods and handlers. -/
theorem sublist_callees (s : Script) (name handler : String) (classes : List ClassId) :
    (classes.filterMap (s.method? name)).Sublist (classes.filterMap (s.callee? name handler)) := by
  induction classes with
  | nil => exact List.Sublist.refl []
  | cons k classes ih =>
    rw [List.filterMap_cons, List.filterMap_cons, callee?]
    rcases s.method? name k with - | f
    · rcases s.method? handler k with - | g
      · exact ih
      · exact ih.cons g
    · exact ih.cons_cons f

/-- The operand is a string literal with this text. -/
def Spells (s : Script) (v : OperandId) (text : String) : Prop :=
  ∃ o, s.operand v = .ok o ∧ o.literal? = some (.string text)

end Script

/-- The receiver and the name of a call of a method, and whether the call is static. -/
def Op.methodCall? : Op → Option (OperandId × OperandId × Bool)
  | .methodCall var name _ => some (var, name, false)
  | .staticCall cls name _ => some (cls, name, true)
  | _ => none

namespace Inference.Context

variable {c : Context} {known : Known}

/-- A call on the operand is a call on the class: it is an object of the class, or a
literal that names the class. -/
def Receives (c : Context) (known : Known) (receiver : OperandId) (cls : String) : Prop :=
  known receiver = some (.named cls) ∨
    known receiver = some .string ∧ c.script.Spells receiver cls

theorem literalName_of_spells {v : OperandId} {text : String} (h : c.script.Spells v text)
    (role : NameRole) : c.literalName v role = .ok (some text) := by
  obtain ⟨⟨kind, ops, ty⟩, ho, htext⟩ := h
  obtain rfl := Operand.kind_of_literal? htext
  rw [literalName, ho]
  rfl

theorem candidates_methodCall {op : Op} {receiver name : OperandId} {isStatic : Bool}
    (hop : op.methodCall? = some (receiver, name, isStatic)) {text cls : String}
    (hname : c.script.Spells name text) (hcls : c.Receives known receiver cls) (id : OpId) :
    c.candidates known id op = c.methodOf cls text isStatic := by
  have hcall : c.candidates known id op = c.methodCall known receiver name isStatic := by
    cases op <;> cases hop <;> rfl
  rw [hcall, methodCall, literalName_of_spells hname]
  rcases hcls with hknown | ⟨hknown, hspells⟩
  · rw [hknown]
    rfl
  · rw [hknown]
    show (c.literalName receiver .className >>= fun n => _) = _
    rw [literalName_of_spells hspells]
    rfl

theorem methodNamed_eq {ids : List FunctionId}
    (hids : ∀ id ∈ ids, id < c.script.functions.size) (name : String) :
    c.methodNamed name ids = .ok ((ids.filterMap (c.script.functions[·]?)).find?
      fun f => sameName f.name name) := by
  induction ids with
  | nil => rfl
  | cons id ids ih =>
    obtain ⟨hid, hids⟩ := List.forall_mem_cons.mp hids
    have hf : c.script.functions[id]? = some c.script.functions[id] :=
      Array.getElem?_eq_getElem hid
    rw [methodNamed, Script.function, hf, List.filterMap_cons, hf, List.find?_cons]
    show (if sameName _ name = true then _ else c.methodNamed name ids) = _
    rw [ih hids]
    cases sameName c.script.functions[id].name name <;> rfl

section Find

variable (hrange : c.script.InRange)
include hrange

theorem findMethod_eq {cls : ClassId} (hcls : cls < c.script.classes.size)
    (name handler : String) :
    c.findMethod cls name handler = .ok (c.script.callee? name handler cls) := by
  have hd : c.script.classes[cls]? = some c.script.classes[cls] :=
    Array.getElem?_eq_getElem hcls
  have hmethods : ∀ id ∈ c.script.classes[cls].methods, id < c.script.functions.size :=
    fun id hid => hrange _ (.classDecl (Array.getElem_mem hcls) (List.mem_map_of_mem hid))
  have hnamed (n : String) : c.methodNamed n c.script.classes[cls].methods =
      .ok (c.script.method? n cls) := by
    rw [methodNamed_eq hmethods, Script.method?, hd]
    rfl
  rw [findMethod, Script.classDecl, hd, Script.callee?]
  show (c.methodNamed name _ >>= fun f => _) = _
  rw [hnamed name]
  cases c.script.method? name cls with
  | none => exact hnamed handler
  | some f => rfl

/-- Every class of a list answers for itself. -/
theorem methodReturns_eq {classes : List ClassId}
    (hclasses : ∀ cls ∈ classes, cls < c.script.classes.size) (name handler : String) :
    c.methodReturns name handler classes =
      (classes.filterMap (c.script.callee? name handler)).mapM c.methodReturn := by
  induction classes with
  | nil => rfl
  | cons cls classes ih =>
    obtain ⟨hcls, hclasses⟩ := List.forall_mem_cons.mp hclasses
    rw [methodReturns, findMethod_eq hrange hcls, ih hclasses, List.filterMap_cons]
    rcases c.script.callee? name handler cls with - | f
    · rfl
    · rw [List.mapM_cons]
      rfl

end Find

end Inference.Context

/-! ### Declared ancestors -/

namespace Hierarchy

/-- The declarations among the ancestors, in the order of the ancestors: each name has
the one that it stands for. -/
theorem values_resolves {classes : List ClassDecl} {name : String} {set : AncestorSet}
    (h : (build classes).resolves name = some set) :
    set.values = set.keys.map fun a => (standing classes a).map Prod.snd := by
  rw [resolves, find?_ancestors] at h
  obtain ⟨d, -, rfl⟩ := Option.map_eq_some_iff.mp h
  rw [Table.values, Table.keys, List.map_map]
  refine List.map_congr_left fun e he => ?_
  have hfind := (Table.find?_eq_some_iff (nodup_keys_gather _)).mpr he
  rw [find?_gather] at hfind
  split at hfind
  · next hmem =>
    have hleads : ReflTransGen (Inherits classes) (fold name) e.1 := inherits_of_mem_lineage hmem
    rw [← fold_of_inherits hleads, find?_declared, Option.map_map] at hfind
    exact (Option.some.inj hfind).symm
  · cases hfind

end Hierarchy

namespace Inference.Context

variable {c : Context} {known : Known}

/-- The numbers of the classes with these names, where they are declared. -/
def declaredClasses (c : Context) (names : List String) : List ClassId :=
  names.filterMap fun a => (Hierarchy.standing c.script.classes.toList a).map Prod.snd

/-- What methods return, as the candidates of a call. -/
def returnsOf (c : Context) (fs : List Function) : Except Fault Candidates :=
  (fs.mapM c.methodReturn).map orWait

theorem mem_declaredClasses {names : List String} {k : ClassId} (h : k ∈ c.declaredClasses names) :
    k < c.script.classes.size := by
  obtain ⟨a, -, hk⟩ := List.mem_filterMap.mp h
  obtain ⟨⟨d, k'⟩, hd, rfl⟩ := Option.map_eq_some_iff.mp hk
  exact Hierarchy.lt_length_of_standing hd

section Calls

variable (hrange : c.script.InRange)
  (hlookup : c.lookup.hierarchy = Hierarchy.build c.script.classes.toList)
include hrange hlookup

theorem candidates_of_resolves (id : OpId) {op : Op} {receiver nameId : OperandId}
    {isStatic : Bool} (hop : op.methodCall? = some (receiver, nameId, isStatic))
    {name cls : String} (hname : c.script.Spells nameId name)
    (hcls : c.Receives known receiver cls) {set : AncestorSet}
    (hset : c.lookup.hierarchy.resolves cls = some set) :
    c.candidates known id op =
      c.returnsOf ((c.declaredClasses set.keys).filterMap
        (c.script.callee? name (handlerName isStatic))) := by
  have hvalues : set.values.filterMap (fun v => v) = c.declaredClasses set.keys := by
    rw [Hierarchy.values_resolves (hlookup ▸ hset), List.filterMap_map]
    rfl
  rw [candidates_methodCall hop hname hcls, methodOf, hset]
  show (c.methodReturns name _ (set.values.filterMap fun v => v)).map orWait = _
  rw [hvalues, methodReturns_eq hrange fun _ => mem_declaredClasses]
  rfl

/-- **Each class among the ancestors answers for itself.**  A call of a method on a
declared class has as candidates the returns of what the declared ancestors have for the
name, in their order: each its first method of the name, else its handler.

No method of the name is lost.  A handler stands only for a class that has no such
method; so if every ancestor with a handler has the method too, the candidates are those
of the methods, and if no ancestor has the method, they are those of the handlers. -/
theorem methodCall_perClass (known : Known) (id : OpId) {op : Op} {receiver nameId : OperandId}
    {isStatic : Bool} (hop : op.methodCall? = some (receiver, nameId, isStatic))
    {name cls : String} (hname : c.script.Spells nameId name)
    (hcls : c.Receives known receiver cls) {set : AncestorSet}
    (hset : c.lookup.hierarchy.resolves cls = some set) :
    let handler := handlerName isStatic
    let classes := c.declaredClasses set.keys
    c.candidates known id op = c.returnsOf (classes.filterMap (c.script.callee? name handler)) ∧
    (classes.filterMap (c.script.method? name)).Sublist
      (classes.filterMap (c.script.callee? name handler)) ∧
    (∀ f ∈ classes.filterMap (c.script.callee? name handler),
      ∃ k ∈ classes, c.script.method? name k = some f ∨
        c.script.method? name k = none ∧ c.script.method? handler k = some f) ∧
    ((∀ k ∈ classes, (c.script.method? handler k).isSome → (c.script.method? name k).isSome) →
      c.candidates known id op = c.returnsOf (classes.filterMap (c.script.method? name))) ∧
    ((∀ k ∈ classes, c.script.method? name k = none) →
      c.candidates known id op = c.returnsOf (classes.filterMap (c.script.method? handler))) := by
  intro handler classes
  have hall : c.candidates known id op =
      c.returnsOf (classes.filterMap (c.script.callee? name handler)) :=
    candidates_of_resolves hrange hlookup id hop hname hcls hset
  refine ⟨hall, ?_, fun f hf => ?_, fun hhandler => ?_, fun hnone => ?_⟩
  · exact Script.sublist_callees c.script name handler classes
  · obtain ⟨k, hk, hf⟩ := List.mem_filterMap.mp hf
    refine ⟨k, hk, ?_⟩
    rw [Script.callee?] at hf
    rcases e : c.script.method? name k with - | g
    · rw [e] at hf
      exact .inr ⟨rfl, hf⟩
    · rw [e] at hf
      exact .inl hf
  · rw [hall]
    refine congrArg c.returnsOf (List.filterMap_congr fun k hk => ?_)
    have hk := hhandler k hk
    rw [Script.callee?]
    cases e : c.script.method? name k with
    | none =>
      rw [e] at hk
      simpa using hk
    | some f => rfl
  · rw [hall]
    refine congrArg c.returnsOf (List.filterMap_congr fun k hk => ?_)
    rw [Script.callee?, hnone k hk]
    rfl

end Calls

/-- A handler counts only where no ancestor has the method. -/
def HandlersLast (c : Context) : Prop :=
  ∀ (known : Known) (id : OpId) (op : Op) (receiver nameId : OperandId) (isStatic : Bool)
    (name cls : String) (set : AncestorSet),
    op.methodCall? = some (receiver, nameId, isStatic) → c.script.Spells nameId name →
    c.Receives known receiver cls → c.lookup.hierarchy.resolves cls = some set →
    let classes := c.declaredClasses set.keys
    (∃ k ∈ classes, (c.script.method? name k).isSome) →
      c.candidates known id op = c.returnsOf (classes.filterMap (c.script.method? name))

/-- A class with a handler for calls of objects, an interface that it implements, and its
parent with the other handler.  The last two have the method that is called. -/
def handledCalls : Script where
  operands := #[
    { kind := .literal (.string "Child") },
    { kind := .literal (.string "value") },
    { kind := .bound "this" .receiver (some "Child") },
    { kind := .variable none, ops := [0] },
    { kind := .variable none, ops := [1] }]
  ops := #[.staticCall 0 1 [], .methodCall 2 1 []]
  classes := #[
    { name := "Base", methods := [0, 1] },
    { name := "Child", parents := ["Base"], interfaces := ["Source"], methods := [2] },
    { name := "Source", kind := .interface, methods := [3] }]
  functions := #[
    { name := "__callStatic", returns := some "float", owner := some 0 },
    { name := "Value", returns := some "int", owner := some 0 },
    { name := "__call", returns := some "string", owner := some 1 },
    { name := "value", returns := some "int|string|null", owner := some 2
      doc := some "/** @return ?int */" }]

/-- The types of the two receivers in `handledCalls`. -/
def handledReceivers : Known := fun v =>
  if v = 0 then some .string else if v = 2 then some (.named "Child") else none

/-- The context of a run over `handledCalls`. -/
def handledContext : Context where
  script := handledCalls
  lookup := {
    hierarchy := Hierarchy.build handledCalls.classes.toList
    signatures := {}
    functionsByName := .empty
    constantsByKey := .empty
    creations := []
    methodCalls := [1] }
  options := {}

theorem inRange_handledCalls : handledCalls.InRange := by
  decide

section HandledCalls

open Hierarchy

theorem listed_handledCalls :
    listed handledCalls.classes.toList "Child" = some ["child", "source", "base"] := by
  have hsingle : SingleParents handledCalls.classes.toList := by
    intro a d id hd _
    have hall : ∀ d ∈ handledCalls.classes.toList, d.parents.length ≤ 1 := by decide
    exact hall d (mem_of_standing hd).1
  have hclimb : (climb (declared handledCalls.classes.toList) "child" ["child"] {}).visited =
      ["child", "base"] := by
    rw [visited_climb hsingle.declared _ List.length_singleton.le,
      closure_of_not_mem List.not_mem_nil]
    show Hierarchy.closure _ ["base"] ["child"] = _
    rw [closure_of_not_mem (by decide)]
    show Hierarchy.closure _ [] ["child", "base"] = _
    rw [Hierarchy.closure]
  have hsource : Hierarchy.closure (interfaceEdges (declared handledCalls.classes.toList))
      ["source"] [] = ["source"] := by
    rw [closure_of_not_mem List.not_mem_nil]
    show Hierarchy.closure _ [] ["source"] = _
    rw [Hierarchy.closure]
  rw [listed_eq]
  show some (addAll [] (lineage handledCalls.classes.toList "child")) = _
  rw [lineage, hclimb]
  show some (addAll [] ("child" :: (Hierarchy.closure _ ["source"] [] ++ []) ++ ["base"])) = _
  rw [hsource]
  rfl

theorem resolves_handledCalls :
    ∃ set, handledContext.lookup.hierarchy.resolves "Child" = some set ∧
      set.keys = ["child", "source", "base"] :=
  Option.map_eq_some_iff.mp listed_handledCalls

theorem spells_handledCalls : handledContext.script.Spells 1 "value" :=
  ⟨_, rfl, rfl⟩

/-- The static call in `handledCalls` finds the methods of the interface and of the
parent; the handler of the parent does not count, as the parent has the method. -/
theorem methodCall_perClass_static :
    ∃ c, setting handledCalls {} {} = .ok c ∧
      c.candidates handledReceivers 0 (.staticCall 0 1 []) =
        .ok (some [.union [.int, .null], .int]) := by
  refine ⟨handledContext, rfl, ?_⟩
  have hop : (Op.staticCall 0 1 []).methodCall? = some (0, 1, true) := rfl
  have hcls : handledContext.Receives handledReceivers 0 "Child" := .inr ⟨rfl, _, rfl, rfl⟩
  obtain ⟨set, hset, hkeys⟩ := resolves_handledCalls
  obtain ⟨-, -, -, hmethods, -⟩ := methodCall_perClass inRange_handledCalls rfl handledReceivers 0
    hop spells_handledCalls hcls hset
  rw [hkeys] at hmethods
  rw [hmethods (by decide +kernel)]
  exact toOption_eq_some.mp (by decide +kernel)

/-- In the call on the object in `handledCalls` the handler of its class stands before the
methods of the interface and of the parent. -/
theorem handler_beside_declaration :
    ∃ c, setting handledCalls {} {} = .ok c ∧ ¬ c.HandlersLast := by
  refine ⟨handledContext, rfl, fun hlaw => ?_⟩
  have hop : (Op.methodCall 2 1 []).methodCall? = some (2, 1, false) := rfl
  have hcls : handledContext.Receives handledReceivers 2 "Child" := .inl rfl
  obtain ⟨set, hset, hkeys⟩ := resolves_handledCalls
  have hcall := candidates_of_resolves inRange_handledCalls rfl 1 hop spells_handledCalls hcls hset
  have hlast := hlaw handledReceivers 1 _ 2 1 false "value" "Child" set hop spells_handledCalls hcls
    hset
  rw [hkeys] at hcall hlast
  have hsame := congrArg Except.toOption
    (hcall.symm.trans (hlast ⟨0, by decide +kernel, by decide +kernel⟩))
  revert hsame
  decide +kernel

end HandledCalls

end Inference.Context

end SsaTypes
