/-
SsaTypes/Decl/Parser.lean

Reading a type from the text of a declaration, as written in a signature or a
doc comment.

`shape` looks at a text once and says what kind of declaration it is and which
shorter texts are its parts; `parse` reads the parts and puts them together:

    \Foo\Bar     a class name after the mark of the root namespace
    ?T           T or null
    int, mixed   keywords, in any case of letters
    T[]          an array of T
    (T)[]        a group, an array of it, then the end or a combinator
    T|U, T&U     split at the leftmost combinator outside of groups

Both combinators bind equally strongly and group to the right.
-/
import SsaTypes.Decl.Error
import SsaTypes.Decl.Scan
import SsaTypes.Text.Ascii
import SsaTypes.Ty.Combine

namespace SsaTypes.Decl

/-! ### Names and keywords -/

/-- Whether a character may begin a part of a name: a letter, an underscore,
or anything from U+007F on. -/
def isNameStart (c : Char) : Bool :=
  c.isAlpha || c == '_' || 0x7f ≤ c.toNat

/-- Whether a character may continue a part of a name. -/
def isNamePart (c : Char) : Bool :=
  isNameStart c || c.isDigit

mutual

/-- Whether a text is a name: one or more parts with a backslash between them. -/
def isName : List Char → Bool
  | [] => false
  | c :: cs => isNameStart c && isNameTail cs

/-- Whether a text completes a name whose last part has begun. -/
def isNameTail : List Char → Bool
  | [] => true
  | c :: cs => if c = '\\' then isName cs else isNamePart c && isNameTail cs

end

/-- The types that have a name of their own, by their name in small letters. -/
def keywords : List (String × Ty) :=
  [("boolean", .bool), ("bool", .bool), ("false", .bool), ("true", .bool),
   ("integer", .int), ("int", .int),
   ("double", .float), ("real", .float), ("float", .float),
   ("string", .string), ("array", .array), ("callable", .callable), ("object", .object),
   ("null", .null), ("void", .null),
   ("mixed", .mixed), ("numeric", .numeric)]

/-- The type a keyword stands for. -/
def keyword? (cs : List Char) : Option Ty :=
  let small := cs.map Char.toLower
  (keywords.find? fun k => k.1.toList == small).map Prod.snd

/-! ### The shape of a text -/

/-- What follows a group. -/
inductive Tail
  | nothing
  /-- Something that is neither the end nor a combinator. -/
  | junk (rest : List Char)
  | joined (kind : Comb) (right : List Char)
deriving DecidableEq, Repr

/-- What kind of declaration a text is, with the texts of its parts. -/
inductive Shape
  | refused (e : DeclError)
  /-- A keyword or the name of a class. -/
  | simple (t : Ty)
  | nullable (inner : List Char)
  | arrayOf (element : List Char)
  /-- A group, the number of brackets after it, and what comes next. -/
  | group (inner : List Char) (arrays : Nat) (tail : Tail)
  | joined (kind : Comb) (left right : List Char)
deriving DecidableEq, Repr

/-- The text without `[]` at its end. -/
def dropBrackets? (cs : List Char) : Option (List Char) :=
  match cs.reverse with
  | ']' :: '[' :: rest => some rest.reverse
  | _ => none

/-- The number of brackets at the start of a text, and the rest. -/
def takeBrackets : List Char → Nat × List Char
  | '[' :: ']' :: cs =>
    let (n, rest) := takeBrackets cs
    (n + 1, rest)
  | cs => (0, cs)

/-- The combinator with a given sign. -/
def combOf? (c : Char) : Option Comb :=
  if c = '|' then some .union
  else if c = '&' then some .inter
  else none

theorem combOf?_eq_none {c : Char} (h : charMark c ≠ .joins) : combOf? c = none := by
  grind [charMark, combOf?]

/-- What kind of tail a text is. -/
def tailOf : List Char → Tail
  | [] => .nothing
  | c :: cs =>
    match combOf? c with
    | some k => .joined k cs
    | none => .junk (c :: cs)

/-- The shape of a text that begins with a parenthesis. -/
def groupShape (cs : List Char) : Shape :=
  match closeOffset cs with
  | none => .refused (.unmatchedParens (String.ofList cs))
  | some n =>
    match cut n cs with
    | (_ :: inner, _ :: after) => .group inner (takeBrackets after).1 (tailOf (takeBrackets after).2)
    | _ => .refused (.unmatchedParens (String.ofList cs))

/-- The shape of any other text that holds a combinator or a parenthesis. -/
def joinedShape (cs : List Char) : Shape :=
  match splitOffset cs with
  | .unmatched => .refused (.unmatchedParens (String.ofList cs))
  | .absent => .refused (.missingCombinator (String.ofList cs))
  | .found 0 => .refused (.danglingCombinator (String.ofList cs))
  | .found n =>
    match cut n cs with
    | (left, c :: right) => .joined (if c = '|' then .union else .inter) left right
    | (_, []) => .refused (.missingCombinator (String.ofList cs))

/-- The shape of a non-empty text without a mark in front. -/
def bareShape (cs : List Char) : Shape :=
  match keyword? cs with
  | some t => .simple t
  | none =>
    if cs.any fun c => charMark c ≠ .plain then
      if cs.head? = some '(' then groupShape cs else joinedShape cs
    else
      match dropBrackets? cs with
      | some element => .arrayOf element
      | none =>
        if isName cs then .simple (.ofClass (String.ofList cs))
        else .refused (.invalidIdentifier (String.ofList cs))

/-- The shape of a text. -/
def shape : List Char → Shape
  | [] => .refused .empty
  | c :: cs =>
    if c = '\\' then
      if cs = [] then .refused .empty else bareShape cs
    else if c = '?' then .nullable cs
    else bareShape (c :: cs)

/-! ### The parts are shorter -/

theorem dropBrackets?_eq {cs front : List Char} (h : dropBrackets? cs = some front) :
    cs = front ++ ['[', ']'] := by
  unfold dropBrackets? at h
  split at h
  · rename_i rest hr
    have := congrArg List.reverse hr
    simp_all
  · simp at h

theorem takeBrackets_length (cs : List Char) : (takeBrackets cs).2.length ≤ cs.length := by
  fun_induction takeBrackets cs with
  | case1 cs n rest hr ih => simp_all; omega
  | case2 => exact Nat.le_refl _

theorem tailOf_joined {cs right : List Char} {k : Comb} (h : tailOf cs = .joined k right) :
    right.length < cs.length := by
  unfold tailOf at h
  split at h
  · cases h
  · split at h <;> cases h
    simp

theorem groupShape_parts {cs inner : List Char} {n : Nat} {tail : Tail}
    (h : groupShape cs = .group inner n tail) :
    inner.length < cs.length ∧ ∀ k right, tail = .joined k right → right.length < cs.length := by
  unfold groupShape at h
  split at h
  · cases h
  · rename_i m _
    split at h
    · rename_i a inner' b after hcut
      cases h
      have hlen := congrArg List.length (cut_append m cs)
      simp only [hcut, List.length_append, List.length_cons] at hlen
      refine ⟨by omega, fun k right ht => ?_⟩
      have := tailOf_joined ht
      have := takeBrackets_length after
      omega
    · cases h

theorem joinedShape_parts {cs left right : List Char} {k : Comb}
    (h : joinedShape cs = .joined k left right) :
    left.length < cs.length ∧ right.length < cs.length := by
  unfold joinedShape at h
  split at h <;> try cases h
  rename_i n _ _
  split at h
  · rename_i left' c right' hcut
    cases h
    have hlen := congrArg List.length (cut_append n cs)
    simp only [hcut, List.length_append, List.length_cons] at hlen
    omega
  · cases h

theorem bareShape_parts {cs : List Char} :
    (∀ element, bareShape cs = .arrayOf element → element.length < cs.length) ∧
    (∀ inner n tail, bareShape cs = .group inner n tail →
      inner.length < cs.length ∧ ∀ k right, tail = .joined k right → right.length < cs.length) ∧
    (∀ k left right, bareShape cs = .joined k left right →
      left.length < cs.length ∧ right.length < cs.length) ∧
    ∀ inner, bareShape cs ≠ .nullable inner := by
  have hg (inner) : groupShape cs ≠ .nullable inner ∧ groupShape cs ≠ .arrayOf inner ∧
      ∀ k right, groupShape cs ≠ .joined k inner right := by
    unfold groupShape; split <;> try split
    all_goals simp
  have hj (inner) : joinedShape cs ≠ .nullable inner ∧ joinedShape cs ≠ .arrayOf inner ∧
      ∀ n tail, joinedShape cs ≠ .group inner n tail := by
    unfold joinedShape; split <;> try split
    all_goals simp
  unfold bareShape
  split
  · simp
  · split
    · split
      · exact ⟨fun e h => absurd h (hg e).2.1, fun _ _ _ h => groupShape_parts h,
          fun k l r h => absurd h ((hg l).2.2 k r), fun e => (hg e).1⟩
      · exact ⟨fun e h => absurd h (hj e).2.1, fun i n t h => absurd h ((hj i).2.2 n t),
          fun _ _ _ h => joinedShape_parts h, fun e => (hj e).1⟩
    · split
      · rename_i front hf
        have := congrArg List.length (dropBrackets?_eq hf)
        simp_all
      · split <;> simp

/-- Every part that a shape names is shorter than the text. -/
theorem shape_parts {cs : List Char} :
    (∀ inner, shape cs = .nullable inner → inner.length < cs.length) ∧
    (∀ element, shape cs = .arrayOf element → element.length < cs.length) ∧
    (∀ inner n tail, shape cs = .group inner n tail →
      inner.length < cs.length ∧ ∀ k right, tail = .joined k right → right.length < cs.length) ∧
    (∀ k left right, shape cs = .joined k left right →
      left.length < cs.length ∧ right.length < cs.length) := by
  cases cs with
  | nil => simp [shape]
  | cons c cs =>
    have hr := @bareShape_parts cs
    have hs := @bareShape_parts (c :: cs)
    by_cases hc : c = '\\'
    · by_cases h0 : cs = []
      · simp [shape, hc, h0]
      · simp only [shape, hc, h0, if_true, if_false, List.length_cons]
        refine ⟨fun i h => absurd h (hr.2.2.2 i), fun e h => ?_, fun i n t h => ?_,
          fun k l r h => ?_⟩
        · have := hr.1 e h; omega
        · have := hr.2.1 i n t h
          exact ⟨by omega, fun k r ht => by have := this.2 k r ht; omega⟩
        · have := hr.2.2.1 k l r h; omega
    · by_cases hq : c = '?'
      · simp [shape, hq]
      · simp only [shape, hc, hq, if_false]
        exact ⟨fun i h => absurd h (hs.2.2.2 i), hs.1, hs.2.1, hs.2.2.1⟩

/-! ### Reading a type -/

/-- An array of an array of … of a type, to the given depth. -/
def arrays : Nat → Ty → Ty
  | 0, t => t
  | n + 1, t => .arrayOf (arrays n t)

/-- The type a text declares. -/
def parse (cs : List Char) : Except DeclError Ty :=
  match h : shape cs with
  | .refused e => .error e
  | .simple t => .ok t
  | .nullable inner =>
    have := shape_parts.1 _ h
    (parse inner).map fun t => t.orNull.simplify
  | .arrayOf element =>
    have := shape_parts.2.1 _ h
    (parse element).map Ty.arrayOf
  | .group inner n .nothing =>
    have := (shape_parts.2.2.1 _ _ _ h).1
    (parse inner).map fun t => (arrays n t).simplify
  | .group inner _ (.junk rest) =>
    have := (shape_parts.2.2.1 _ _ _ h).1
    (parse inner).bind fun _ => .error (.danglingCombinator (String.ofList rest))
  | .group inner n (.joined k right) =>
    have := (shape_parts.2.2.1 _ _ _ h).1
    have := (shape_parts.2.2.1 _ _ _ h).2 _ _ rfl
    (parse inner).bind fun l => (parse right).map fun r => (Ty.comb k [arrays n l, r]).simplify
  | .joined k left right =>
    have := (shape_parts.2.2.2 _ _ _ h).1
    have := (shape_parts.2.2.2 _ _ _ h).2
    (parse left).bind fun l => (parse right).map fun r => (Ty.comb k [l, r]).simplify
termination_by cs.length

end SsaTypes.Decl

namespace SsaTypes

/-- The type that a declaration declares. -/
def Ty.ofDecl (text : String) : Except DeclError Ty :=
  Decl.parse text.toList

end SsaTypes
