/-
SsaTypes/DocComment.lean

Types written in doc comments.

    @var T        the type of a property
    @return T     the type a function returns
    @param T $x   the type of the parameter x

A tag is followed by blanks and then by the text of a declaration, which ends
at the next blank.  The first tag in the comment counts.  `@var` and `@return`
are read as written; `@param` is read in any case of letters and counts for
the parameter it names.

`locate` tells where in the comment the text stands, `extract` gives the text.
-/
import SsaTypes.Decl.Parser
import SsaTypes.Text.Blank
import SsaTypes.Text.WordChar

namespace SsaTypes

open Text

/-- A tag of a doc comment. -/
inductive DocTag
  | var
  | returned
  /-- The tag for the parameter with this name. -/
  | param (name : String)
deriving DecidableEq, Repr

namespace DocComment

/-- A part of a comment: the number of characters before it and its own. -/
structure Span where
  start : Nat
  length : Nat
deriving DecidableEq, Repr

/-- The characters of a part. -/
def Span.slice (s : Span) (cs : List Char) : List Char :=
  (cs.drop s.start).take s.length

/-- The part that stands so many characters later. -/
def Span.shift (s : Span) (n : Nat) : Span :=
  { s with start := s.start + n }

/-- What follows a word at the start of a text, both read through `view`. -/
def afterWord? (view : Char → Char) : (word text : List Char) → Option (List Char)
  | [], cs => some cs
  | _ :: _, [] => none
  | w :: ws, c :: cs => if view c = w then afterWord? view ws cs else none

/-- The word after the blanks at the start of a text, as its place, and what
follows it; `none` without blanks or without a word. -/
def blanksThenWord? (cs : List Char) : Option (Span × List Char) :=
  let blanks := cs.takeWhile isBlank
  let rest := cs.dropWhile isBlank
  let word := rest.takeWhile fun c => !isBlank c
  if blanks.isEmpty || word.isEmpty then none
  else some (⟨blanks.length, word.length⟩, rest.dropWhile fun c => !isBlank c)

/-! ### Tags with a type alone -/

/-- The place of the type of a tag that begins with the text. -/
def typeAt? (tag cs : List Char) : Option Span :=
  (afterWord? id tag cs).bind fun rest =>
    (blanksThenWord? rest).map fun r => r.1.shift tag.length

/-- The place of the type of the first such tag in a text. -/
def findType? (tag : List Char) : List Char → Option Span
  | [] => none
  | c :: cs =>
    match typeAt? tag (c :: cs) with
    | some s => some s
    | none => (findType? tag cs).map (·.shift 1)

/-! ### Tags of parameters -/

/-- The tag of a parameter in small letters. -/
def paramTag : List Char := "@param".toList

/-- A tag of a parameter: the place of its type, its name, and the number of
characters up to its end. -/
structure ParamTag where
  type : Span
  name : List Char
  length : Nat
deriving DecidableEq, Repr

/-- The tag of a parameter that begins with the text. -/
def paramAt? (cs : List Char) : Option ParamTag :=
  (afterWord? Char.toLower paramTag cs).bind fun rest =>
    (blanksThenWord? rest).bind fun r =>
      match r.2.takeWhile isBlank, r.2.dropWhile isBlank with
      | b :: bs, '$' :: more =>
        let name := more.takeWhile isWordChar
        if name.isEmpty then none
        else
          let type := r.1.shift paramTag.length
          some ⟨type, name, type.start + type.length + (b :: bs).length + 1 + name.length⟩
      | _, _ => none

/-- All tags of parameters in a text, `skip` characters of which belong to a
tag already found.  A tag begins after the end of the one before. -/
def paramTags (skip : Nat) : List Char → List ParamTag
  | [] => []
  | c :: cs =>
    let later (skip : Nat) := (paramTags skip cs).map fun p => { p with type := p.type.shift 1 }
    match skip with
    | n + 1 => later n
    | 0 =>
      match paramAt? (c :: cs) with
      | some p => p :: later (p.length - 1)
      | none => later 0

/-! ### Reading a comment -/

/-- The place of the declaration that a tag gives in a comment. -/
def locate (tag : DocTag) (cs : List Char) : Option Span :=
  match tag with
  | .var => findType? "@var".toList cs
  | .returned => findType? "@return".toList cs
  | .param name =>
    ((paramTags 0 cs).find? fun p => sameName (String.ofList p.name) name).map ParamTag.type

/-- The text of the declaration that a tag gives in a comment, if there is one. -/
def extract (tag : DocTag) (comment : Option String) : Option String :=
  comment.bind fun text =>
    (locate tag text.toList).map fun s => String.ofList (s.slice text.toList)

end DocComment

/-- The type that a tag gives in a comment; anything if it gives none. -/
def Ty.ofComment (tag : DocTag) (comment : Option String) : Except DeclError Ty :=
  match DocComment.extract tag comment with
  | some text => Ty.ofDecl text
  | none => .ok .mixed

end SsaTypes
