/-
SsaTypes/Decl/Scan.lean

Finding the parenthesis that closes a group, and the leftmost combinator
outside all groups.

Both scans run over units of any kind, given what a unit is to the scan (its
`Mark`) and how wide it is; they answer with the offset of the unit found.
Over the bytes of the UTF-8 form every unit is one wide and only ASCII bytes
have a mark; over characters a unit is as wide as its UTF-8 form.

`cut` divides a text at a byte offset, and no character is lost:

    (cut n cs).1 ++ (cut n cs).2 = cs.
-/

namespace SsaTypes.Decl

/-- What a unit of the text is to a scan. -/
inductive Mark
  | opens
  | closes
  | joins
  | plain
deriving DecidableEq, Repr

/-- The mark of a character. -/
def charMark (c : Char) : Mark :=
  if c = '(' then .opens
  else if c = ')' then .closes
  else if c = '|' ∨ c = '&' then .joins
  else .plain

/-- The mark of a byte: `(` is 40, `)` is 41, `|` is 124 and `&` is 38. -/
def byteMark (b : UInt8) : Mark :=
  if b = 40 then .opens
  else if b = 41 then .closes
  else if b = 124 ∨ b = 38 then .joins
  else .plain

section Scans

variable {α : Type} (mark : α → Mark) (width : α → Nat)

/-- The offset of the unit that closes the group opened first, `depth` groups
being open and `offset` the place reached; `none` if a group is closed that
was not opened, or none is closed. -/
def closeFrom (depth offset : Nat) : List α → Option Nat
  | [] => none
  | u :: us =>
    match mark u with
    | .opens => closeFrom (depth + 1) (offset + width u) us
    | .closes =>
      match depth with
      | 0 => none
      | 1 => some offset
      | d + 2 => closeFrom (d + 1) (offset + width u) us
    | _ => closeFrom depth (offset + width u) us

/-- The outcome of looking for a combinator. -/
inductive Split
  /-- A group is closed that was not opened. -/
  | unmatched
  /-- There is no combinator outside of groups. -/
  | absent
  /-- The offset of the leftmost one. -/
  | found (offset : Nat)
deriving DecidableEq, Repr

/-- The leftmost combinator outside of groups, `depth` groups being open and
`offset` the place reached. -/
def splitFrom (depth offset : Nat) : List α → Split
  | [] => .absent
  | u :: us =>
    match mark u with
    | .opens => splitFrom (depth + 1) (offset + width u) us
    | .closes =>
      match depth with
      | 0 => .unmatched
      | d + 1 => splitFrom d (offset + width u) us
    | .joins => if depth = 0 then .found offset else splitFrom depth (offset + width u) us
    | .plain => splitFrom depth (offset + width u) us

end Scans

/-- The bytes of a text in UTF-8. -/
def utf8 (cs : List Char) : List UInt8 :=
  cs.flatMap String.utf8EncodeChar

/-- The byte offset of the parenthesis that closes the first group. -/
def closeOffset (cs : List Char) : Option Nat :=
  closeFrom byteMark (fun _ => 1) 0 0 (utf8 cs)

/-- The byte offset of the leftmost combinator outside of groups. -/
def splitOffset (cs : List Char) : Split :=
  splitFrom byteMark (fun _ => 1) 0 0 (utf8 cs)

/-! ### Cutting at a byte offset -/

/-- The characters before a byte offset and those from it on. -/
def cut : Nat → List Char → List Char × List Char
  | _, [] => ([], [])
  | 0, cs => ([], cs)
  | n + 1, c :: cs =>
    let (before, rest) := cut (n + 1 - c.utf8Size) cs
    (c :: before, rest)

@[simp] theorem cut_zero (cs : List Char) : cut 0 cs = ([], cs) := by
  cases cs <;> rfl

theorem cut_append (n : Nat) (cs : List Char) : (cut n cs).1 ++ (cut n cs).2 = cs := by
  induction cs generalizing n with
  | nil => simp [cut]
  | cons c cs ih =>
    cases n with
    | zero => simp
    | succ n => simp [cut, ih]

end SsaTypes.Decl
