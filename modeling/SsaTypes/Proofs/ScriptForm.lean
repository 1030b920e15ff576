/-
SsaTypes/Proofs/ScriptForm.lean

The JSON form of a script keeps everything of the script: it is read back as the script,

    Script.ofJson? s.toJson = some s                                  (`Script.reads_back`).

A reader and a writer for the parts give a reader and a writer for the whole (`ReadsBack`).
A value that may be missing is written as null, so what is there may not be written as null
itself; this is where an array without an element type is told from one whose elements are
null.
-/
import SsaTypes.Script.Form

namespace SsaTypes

namespace Json

/-- What is written is read back. -/
def ReadsBack {α : Type} (read : Json → Option α) (write : α → Json) : Prop :=
  ∀ a, read (write a) = some a

namespace ReadsBack

variable {α : Type} {read : Json → Option α} {write : α → Json}

theorem string : ReadsBack string? .string := fun _ => rfl

theorem nat : ReadsBack nat? ofNat := fun _ => rfl

theorem list (h : ReadsBack read write) : ReadsBack (list? read) (ofList write) := by
  intro as
  show (as.map write).mapM read = some as
  induction as with
  | nil => rfl
  | cons a as ih => simp [h a, ih]

/-- A value that may be missing is read back if none that is there is written as null. -/
theorem option (h : ReadsBack read write) (hnull : ∀ a, write a ≠ .null) :
    ReadsBack (orNull? read) (ofOption write) := by
  intro a
  cases a with
  | none => rfl
  | some a =>
    have hread : orNull? read (write a) = (read (write a)).map some := by
      generalize hj : write a = j
      cases j with
      | null => exact absurd hj (hnull a)
      | _ => rfl
    rw [ofOption, hread, h a]
    rfl

theorem named {form : α → String} {all : List α}
    (h : ∀ a, all.find? (fun b => form b = form a) = some a) :
    ReadsBack (named? form all) fun a => .string (form a) :=
  h

end ReadsBack

end Json

open Json

/-! ### Types -/

theorem Comb.ofForm?_form (k : Comb) : ofForm? k.form = some k := by
  cases k <;> rfl

namespace Ty

theorem toJson_ne_null (t : Ty) : t.toJson ≠ .null := by
  cases t <;> simp [toJson]

theorem toJsonAll_eq (ts : List Ty) : toJsonAll ts = ts.map toJson := by
  induction ts with
  | nil => rfl
  | cons t ts ih => rw [toJsonAll, ih, List.map_cons]

/-- **Types are read back**, with the order and repetition of their members. -/
theorem ofJson?_toJson : ReadsBack ofJson? toJson := by
  intro t
  induction t using inductOn with
  | arrayOf e ih => simp [toJson, ofJson?, ih, toJson_ne_null e]
  | comb k ms ih =>
    have hms : ofJsonAll? (ms.map toJson) = some ms := by
      induction ms with
      | nil => rfl
      | cons m ms ihms =>
        obtain ⟨hm, hms⟩ := List.forall_mem_cons.mp ih
        simp [ofJsonAll?, hm, ihms hms]
    cases k <;> simp [toJson, toJsonAll_eq, ofJson?, hms, Comb.form, Comb.ofForm?]
  | _ => simp [toJson, ofJson?, ofForm?]

/-- An array of nulls, and one without an element type. -/
example : ofJson? (arrayOf .null).toJson = some (arrayOf .null) ∧
    ofJson? array.toJson = some array :=
  ⟨rfl, rfl⟩

end Ty

/-! ### Guards -/

namespace TypeTest

mutual

theorem ofJson?_toJson : (test : TypeTest) → ofJson? test.toJson = some test
  | .operand id => rfl
  | .comb k ms => by
    have hms := ofJsonAll?_toJsonAll ms
    simp [toJson, tagged, ofJson?, lookup, string?, Comb.ofForm?_form, membersIn?, hms]

theorem ofJsonAll?_toJsonAll : (tests : List TypeTest) →
    ofJsonAll? (toJsonAll tests) = some tests
  | [] => rfl
  | m :: ms => by
    simp [toJsonAll, ofJsonAll?, ofJson?_toJson m, ofJsonAll?_toJsonAll ms]

end

end TypeTest

theorem Guard.ofJson?_toJson : ReadsBack Guard.ofJson? Guard.toJson := by
  intro g
  induction g with
  | holds t => simp [Guard.toJson, Guard.ofJson?, TypeTest.ofJson?_toJson t]
  | fails g ih => simp [Guard.toJson, Guard.ofJson?, ih]

/-! ### Operations -/

namespace Op

theorem readsBack_ids : ReadsBack (list? nat?) idList :=
  .list .nat

theorem readsBack_id? : ReadsBack (orNull? nat?) idOrNull :=
  .option .nat nofun

theorem readsBack_text? : ReadsBack (orNull? string?) textOrNull :=
  .option .string nofun

theorem readsBack_binaryOp :
    ReadsBack (named? BinaryOp.name BinaryOp.all) fun op => .string op.name :=
  .named fun op => by cases op <;> decide

theorem readsBack_unaryOp :
    ReadsBack (named? UnaryOp.name UnaryOp.all) fun op => .string op.name :=
  .named fun op => by cases op <;> decide

theorem readsBack_castKind :
    ReadsBack (named? CastKind.name CastKind.all) fun kind => .string kind.name :=
  .named fun kind => by cases kind <;> decide

theorem readsBack_iteratorOp :
    ReadsBack (named? IteratorOp.name IteratorOp.all) fun op => .string op.name :=
  .named fun op => by cases op <;> decide

theorem ofJson?_toJson : ReadsBack ofJson? toJson := by
  intro op
  cases op <;>
    simp [toJson, tagged, ofJson?, tag, kindName, ofFields?, fields, need?, want?, get?, lookup,
      readsBack_ids _, readsBack_id? _, readsBack_text? _, readsBack_binaryOp _,
      readsBack_unaryOp _, readsBack_castKind _, readsBack_iteratorOp _, ReadsBack.nat _,
      ReadsBack.string _, Guard.ofJson?_toJson _, ReadsBack.list readsBack_id? _]

end Op

/-! ### Operands and declarations -/

theorem Literal.ofJson?_toJson : ReadsBack Literal.ofJson? Literal.toJson := by
  intro v
  cases v <;> rfl

theorem Scope.readsBack : ReadsBack Scope.ofJson? fun scope => .string scope.form :=
  .named fun scope => by cases scope <;> decide

theorem ClassKind.readsBack : ReadsBack ClassKind.ofJson? fun kind => .string kind.form :=
  .named fun kind => by cases kind <;> decide

theorem OperandKind.ofJson?_toJson : ReadsBack OperandKind.ofJson? OperandKind.toJson := by
  intro kind
  rcases kind with name | v | ⟨name, scope, owner⟩
  · simp [toJson, tagged, ofJson?, want?, get?, lookup, Op.readsBack_text? _]
  · simp [toJson, ofJson?, Literal.ofJson?_toJson v]
  · simp [toJson, tagged, ofJson?, need?, want?, get?, lookup, ReadsBack.string _,
      Scope.readsBack _, Op.readsBack_text? _]

theorem Operand.ofJson?_toJson : ReadsBack Operand.ofJson? Operand.toJson := by
  intro o
  simp [toJson, ofJson?, need?, get?, lookup, OperandKind.ofJson?_toJson _, Op.readsBack_ids _,
    Ty.ofJson?_toJson _]

theorem Property.ofJson?_toJson : ReadsBack Property.ofJson? Property.toJson := by
  intro p
  simp [toJson, ofJson?, need?, want?, get?, lookup, ReadsBack.string _, Op.readsBack_text? _,
    Ty.ofJson?_toJson _]

theorem ClassDecl.ofJson?_toJson : ReadsBack ClassDecl.ofJson? ClassDecl.toJson := by
  intro d
  simp [toJson, ofJson?, need?, get?, lookup, ReadsBack.string _, ClassKind.readsBack _,
    ReadsBack.list ReadsBack.string _, Op.readsBack_ids _,
    ReadsBack.list Property.ofJson?_toJson _]

theorem Function.ofJson?_toJson : ReadsBack Function.ofJson? Function.toJson := by
  intro f
  simp [toJson, ofJson?, need?, want?, get?, lookup, ReadsBack.string _, Op.readsBack_text? _,
    Op.readsBack_id? _]

theorem Constant.ofJson?_toJson : ReadsBack Constant.ofJson? Constant.toJson := by
  intro k
  simp [toJson, ofJson?, need?, want?, get?, lookup, ReadsBack.string _, ReadsBack.nat _,
    Op.readsBack_id? _]

/-- **Scripts are read back**, operand by operand and declaration by declaration.  A float
literal has the text that it was written with. -/
theorem Script.reads_back (s : Script) : ofJson? s.toJson = some s := by
  simp [toJson, ofJson?, need?, get?, lookup, ReadsBack.list Operand.ofJson?_toJson _,
    ReadsBack.list Op.ofJson?_toJson _, ReadsBack.list ClassDecl.ofJson?_toJson _,
    ReadsBack.list Function.ofJson?_toJson _, ReadsBack.list Constant.ofJson?_toJson _]

end SsaTypes
