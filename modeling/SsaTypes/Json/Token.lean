/-
SsaTypes/Json/Token.lean

The tokens of a JSON text, found by an automaton that takes one character at
a time.  A word (a number, `true`, `false` or `null`) ends with the first
character that cannot belong to it.

Escapes are kept as UTF-16 units until the end of the string, where a high
and a low surrogate are joined; a half that stands alone leaves a string
without a text.
-/
import SsaTypes.Json.Basic

namespace SsaTypes.Json

/-- A token of a JSON text. -/
inductive Token
  | openArray
  | closeArray
  | openObject
  | closeObject
  | comma
  | colon
  /-- A number, a truth value or null. -/
  | scalar (j : Json)
  /-- A string; `none` if it holds half of a surrogate pair. -/
  | text (s : Option String)
deriving Inhabited

/-! ### Numbers -/

/-- The number that a list of digits denotes. -/
def ofDigits (ds : List Char) : Nat :=
  ds.foldl (fun n d => 10 * n + (d.toNat - '0'.toNat)) 0

/-- Whether a list of characters is one digit or more. -/
def isDigits (cs : List Char) : Bool :=
  !cs.isEmpty && cs.all Char.isDigit

/-- Whether a list of characters is an exponent after its letter. -/
def isExponent (cs : List Char) : Bool :=
  match cs with
  | '+' :: ds => isDigits ds
  | '-' :: ds => isDigits ds
  | ds => isDigits ds

/-- Whether a list of characters is a fraction, an exponent or both. -/
def isFraction (cs : List Char) : Bool :=
  match cs with
  | '.' :: r =>
    let ds := r.takeWhile Char.isDigit
    match r.dropWhile Char.isDigit with
    | [] => isDigits ds
    | c :: e => isDigits ds && (c == 'e' || c == 'E') && isExponent e
  | c :: e => (c == 'e' || c == 'E') && isExponent e
  | [] => false

/-- The number that a word without sign denotes; `negative` tells of a sign in front. -/
def magnitude? (negative : Bool) (word : List Char) : Option Json :=
  let ds := word.takeWhile Char.isDigit
  let rest := word.dropWhile Char.isDigit
  let signed := String.ofList (if negative then '-' :: word else word)
  if !isDigits ds || (ds.head? == some '0' && ds.length ≠ 1) then none
  else if rest.isEmpty then
    if negative then
      if ofDigits ds = 0 then some (.decimal signed) else some (.int (-(ofDigits ds : Int)))
    else some (.int (ofDigits ds))
  else if isFraction rest then some (.decimal signed)
  else none

/-- The value that a word denotes. -/
def word? (word : List Char) : Option Json :=
  if word = "null".toList then some .null
  else if word = "true".toList then some (.bool true)
  else if word = "false".toList then some (.bool false)
  else match word with
    | '-' :: r => magnitude? true r
    | r => magnitude? false r

/-- Whether a character may belong to a word. -/
def isWordPart (c : Char) : Bool :=
  c.isAlphanum || c == '+' || c == '-' || c == '.'

/-! ### Strings -/

/-- A piece of a string: a character, or a UTF-16 unit from an escape. -/
inductive Piece
  | char (c : Char)
  | unit (n : Nat)

def isHigh (n : Nat) : Bool := 0xd800 ≤ n && n < 0xdc00

def isLow (n : Nat) : Bool := 0xdc00 ≤ n && n < 0xe000

/-- The characters of a string; `none` if half of a surrogate pair stands alone. -/
def assemble : List Piece → Option (List Char)
  | [] => some []
  | .char c :: ps => (assemble ps).map (c :: ·)
  | .unit n :: ps =>
    if isHigh n then
      match ps with
      | .unit m :: ps' =>
        if isLow m then
          (assemble ps').map (Char.ofNat (0x10000 + (n - 0xd800) * 0x400 + (m - 0xdc00)) :: ·)
        else none
      | _ => none
    else if isLow n then none
    else (assemble ps).map (Char.ofNat n :: ·)

/-- The character that an escape with one letter stands for. -/
def escape? (c : Char) : Option Char :=
  match c with
  | '"' => some '"'
  | '\\' => some '\\'
  | '/' => some '/'
  | 'b' => some '\x08'
  | 'f' => some '\x0c'
  | 'n' => some '\n'
  | 'r' => some '\r'
  | 't' => some '\t'
  | _ => none

/-- The value of a hexadecimal digit. -/
def hexDigit? (c : Char) : Option Nat :=
  if c.isDigit then some (c.toNat - '0'.toNat)
  else if 'a' ≤ c ∧ c ≤ 'f' then some (c.toNat - 'a'.toNat + 10)
  else if 'A' ≤ c ∧ c ≤ 'F' then some (c.toNat - 'A'.toNat + 10)
  else none

/-! ### The automaton -/

/-- Where the automaton stands.  Lists of what was read hold the latest first. -/
inductive Mode
  /-- Between tokens. -/
  | between
  /-- In a word. -/
  | word (read : List Char)
  /-- In a string. -/
  | text (read : List Piece)
  /-- After a backslash in a string. -/
  | escape (read : List Piece)
  /-- In an escape with a code, after `digits` of its four digits. -/
  | code (read : List Piece) (digits : Nat) (value : Nat)

/-- The token that a character is by itself. -/
def sign? (c : Char) : Option Token :=
  match c with
  | '[' => some .openArray
  | ']' => some .closeArray
  | '{' => some .openObject
  | '}' => some .closeObject
  | ',' => some .comma
  | ':' => some .colon
  | _ => none

/-- Whether a character separates tokens. -/
def isSpace (c : Char) : Bool :=
  c == ' ' || c == '\n' || c == '\t' || c == '\r'

/-- A character between tokens, after the tokens `done`. -/
def startToken (done : List Token) (c : Char) : Option (List Token × Mode) :=
  if isSpace c then some (done, .between)
  else if c = '"' then some (done, .text [])
  else if isWordPart c then some (done, .word [c])
  else (sign? c).map fun t => (t :: done, .between)

/-- One character.  The tokens found are listed latest first. -/
def readChar (state : List Token × Mode) (c : Char) : Option (List Token × Mode) :=
  let (done, mode) := state
  match mode with
  | .between => startToken done c
  | .word read =>
    if isWordPart c then some (done, .word (c :: read))
    else (word? read.reverse).bind fun j => startToken (.scalar j :: done) c
  | .text read =>
    if c = '"' then some (.text ((assemble read.reverse).map String.ofList) :: done, .between)
    else if c = '\\' then some (done, .escape read)
    else if c.toNat < 0x20 then none
    else some (done, .text (.char c :: read))
  | .escape read =>
    if c = 'u' then some (done, .code read 0 0)
    else (escape? c).map fun d => (done, .text (.char d :: read))
  | .code read digits value =>
    (hexDigit? c).map fun d =>
      if digits = 3 then (done, .text (.unit (16 * value + d) :: read))
      else (done, .code read (digits + 1) (16 * value + d))

/-- The tokens of a text in order. -/
def tokens (cs : List Char) : Option (List Token) :=
  match cs.foldlM readChar ([], .between) with
  | some (done, .between) => some done.reverse
  | some (done, .word read) => (word? read.reverse).map fun j => (Token.scalar j :: done).reverse
  | _ => none

end SsaTypes.Json
