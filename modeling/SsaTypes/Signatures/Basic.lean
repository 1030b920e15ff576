/-
SsaTypes/Signatures/Basic.lean

What is known beforehand of functions, constants and classes that a script
does not declare.  Types are kept as the text of their declarations and read
when they are used.

Functions, classes and methods are found up to the case of ASCII letters;
constants are found as written.  What is registered last wins.
-/
import SsaTypes.Table
import SsaTypes.Text.Ascii

namespace SsaTypes

open Text

/-- What a function returns.  The text is empty or missing when that depends on
the arguments. -/
structure Signature where
  returns : Option String := none
deriving DecidableEq, Repr

/-- The declaration of what a function always returns. -/
def Signature.returned? (s : Signature) : Option String :=
  s.returns.filter fun text => text ≠ ""

/-- The methods of a class, and the names of the classes and interfaces from
which it has others. -/
structure ClassSignature where
  parents : List String := []
  methods : Table String Signature := .empty
deriving Repr

namespace ClassSignature

/-- The class with one more name from which it has methods. -/
def extending (c : ClassSignature) (parent : String) : ClassSignature :=
  { c with parents := c.parents ++ [fold parent] }

/-- The class with one more method. -/
def method (c : ClassSignature) (name returns : String) : ClassSignature :=
  { c with methods := c.methods.insert (fold name) ⟨some returns⟩ }

end ClassSignature

/-- A table of signatures. -/
structure Signatures where
  functions : Table String Signature := .empty
  constants : Table String String := .empty
  classes : Table String ClassSignature := .empty
deriving Repr

namespace Signatures

/-- The table without entries. -/
def empty : Signatures := {}

instance : Inhabited Signatures := ⟨empty⟩

/-! ### Registering -/

/-- The table with one more function. -/
def addFunction (t : Signatures) (name : String) (s : Signature) : Signatures :=
  { t with functions := t.functions.insert (fold name) s }

/-- The table with one more constant. -/
def addConstant (t : Signatures) (name type : String) : Signatures :=
  { t with constants := t.constants.insert name type }

/-- The table with one more class. -/
def addClass (t : Signatures) (name : String) (c : ClassSignature) : Signatures :=
  { t with classes := t.classes.insert (fold name) c }

/-! ### Looking up -/

/-- What a function returns, if it always returns the same type. -/
def functionReturn (t : Signatures) (name : String) : Option String :=
  (t.functions.find? (fold name)).bind Signature.returned?

/-- The type of a constant. -/
def constant (t : Signatures) (name : String) : Option String :=
  t.constants.find? name

/-- What a method returns in a class and then in every class from which that
class has methods, in their order; nothing where it does not always return the
same type, or where the class is not in the table. -/
def methodReturns (t : Signatures) (cls method : String) : List String :=
  match t.classes.find? (fold cls) with
  | none => []
  | some c =>
    (fold cls :: c.parents).filterMap fun name =>
      (t.classes.find? name).bind fun c =>
        (c.methods.find? (fold method)).bind Signature.returned?

end Signatures

end SsaTypes
