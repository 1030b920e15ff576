/-
SsaTypes/Proofs/LetterCase.lean

The case of letters.  Two scripts that differ only in the case of the ASCII letters of
their names and declarations become one script when these are made small,

    s.respell fold true = s'.respell fold true,

and the run over that script is the run over each of them, up to spelling.  So the two
runs end in the same way: with the same fault, or with the same report, and with types
that differ at most in the case of class names (`infer_letterCase`).
-/
import SsaTypes.Proofs.RespelledRuns
import SsaTypes.Proofs.SmallLetters

namespace SsaTypes.Inference

open Text

/-- **The case of letters does not matter.**  The scripts may differ in the case of the
names of classes, of what they extend and implement, of functions and methods, of the
texts of declared types and of the owners of receivers; at the end, the types of
operands and properties differ at most in the case of class names. -/
theorem infer_letterCase {s s' : Script} (h : s.respell fold true = s'.respell fold true)
    (signatures : Signatures) (options : Options) :
    ((∃ e e', (infer s signatures options).2 = .error e ∧
        (infer s' signatures options).2 = .error e' ∧ e.respell fold = e'.respell fold) ∨
      ∃ out out', (infer s signatures options).2 = .ok out ∧
        (infer s' signatures options).2 = .ok out' ∧ out.report = out'.report) ∧
    (infer s signatures options).1.operandTypes fold =
      (infer s' signatures options).1.operandTypes fold ∧
    (infer s signatures options).1.propertyTypes fold =
      (infer s' signatures options).1.propertyTypes fold := by
  have hdocs : options.useDocComments = true → true = true := fun _ => rfl
  -- both runs are the run over the script in small letters
  obtain ⟨hoperands, hproperties, hend⟩ := infer_respell spelling_fold hdocs s signatures
  obtain ⟨hoperands', hproperties', hend'⟩ := infer_respell spelling_fold hdocs s' signatures
  rw [h] at hoperands hproperties hend
  refine ⟨?_, hoperands.symm.trans hoperands', hproperties.symm.trans hproperties'⟩
  have hboth := hend.symm.trans hend'
  rcases hs : (infer s signatures options).2 with e | out <;>
    rcases hs' : (infer s' signatures options).2 with e' | out' <;> rw [hs, hs'] at hboth
  · exact .inl ⟨e, e', rfl, rfl, Except.error.inj hboth⟩
  · cases hboth
  · cases hboth
  · have hout : out.respell fold = out'.respell fold := Except.ok.inj hboth
    have hreport : (out.respell fold).report = (out'.respell fold).report := by rw [hout]
    exact .inr ⟨out, out', rfl, rfl, hreport⟩

/-- A script that calls the function `load` in a method of an owner; the names and
declarations are given. -/
def loading (function returns owner limit : String) : Script where
  operands := #[
    { kind := .literal (.string "load") },
    { kind := .variable (some "rows"), ops := [0] },
    { kind := .bound "this" .receiver (some owner) },
    { kind := .variable (some "limit"), ops := [1] }]
  ops := #[.call 0 [], .param "limit" (some limit) none none]
  functions := #[{ name := function, returns := some returns }]

theorem loading_respell (function returns owner limit : String) :
    (loading function returns owner limit).respell fold true =
      loading (fold function) (fold returns) (fold owner) (fold limit) := by
  simp only [Script.respell, loading, List.map_toArray, List.map_cons, List.map_nil]
  rfl

/-- Both runs converge in the same way; the loaded rows are arrays of one class in two
spellings. -/
theorem infer_letterCase_loading :
    (loading "load" "Row[]" "Table" "?Int").respell fold true =
      (loading "Load" "ROW[]" "TABLE" "?INT").respell fold true ∧
    (∃ out out', (infer (loading "load" "Row[]" "Table" "?Int") {} {}).2 = .ok out ∧
      (infer (loading "Load" "ROW[]" "TABLE" "?INT") {} {}).2 = .ok out' ∧
      out.report = out'.report ∧ out.report.converged = true) ∧
    (infer (loading "load" "Row[]" "Table" "?Int") {} {}).1.operandTypes fold =
      (infer (loading "Load" "ROW[]" "TABLE" "?INT") {} {}).1.operandTypes fold ∧
    (infer (loading "load" "Row[]" "Table" "?Int") {} {}).1.operandTypes id ≠
      (infer (loading "Load" "ROW[]" "TABLE" "?INT") {} {}).1.operandTypes id := by
  have h : (loading "load" "Row[]" "Table" "?Int").respell fold true =
      (loading "Load" "ROW[]" "TABLE" "?INT").respell fold true := by
    have hnames : fold "load" = fold "Load" ∧ fold "Row[]" = fold "ROW[]" ∧
        fold "Table" = fold "TABLE" ∧ fold "?Int" = fold "?INT" := by decide
    obtain ⟨hfunction, hreturns, howner, hlimit⟩ := hnames
    rw [loading_respell, loading_respell, hfunction, hreturns, howner, hlimit]
  obtain ⟨hend, htypes, -⟩ := infer_letterCase h {} {}
  refine ⟨h, ?_, htypes, by decide +kernel⟩
  have hconverged : ((infer (loading "load" "Row[]" "Table" "?Int") {} {}).2.toOption.map
      fun out => out.report.converged) = some true := by decide +kernel
  rcases hend with ⟨e, e', he, -⟩ | ⟨out, out', hout, hout', hreport⟩
  · rw [he] at hconverged
    cases hconverged
  · rw [hout] at hconverged
    exact ⟨out, out', hout, hout', hreport, Option.some.inj hconverged⟩

end SsaTypes.Inference
