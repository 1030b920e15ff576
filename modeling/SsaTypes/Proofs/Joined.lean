/-
SsaTypes/Proofs/Joined.lean

Declarations with a combinator.  Let `u` be a text that can stand left of a combinator: its
parentheses are balanced, no combinator stands outside of them, and no mark in front.  Then

    u|v  is read  ↔  u and v are read,   as the union of the two types, flattened,

and so with `&` (`ofDecl_joined`).  Both combinators bind equally strongly and group to the
right, since nothing is asked of `v`.

A text that begins with a parenthesis is a group, brackets and a rest (`exists_close`).  If
there is a rest, the text is refused alone and with a combinator after it; the group is read
first, and only then the rest is found to be no combinator.
-/
import Mathlib.Data.List.Infix
import SsaTypes.Proofs.ReadBack

namespace SsaTypes

namespace Decl

/-! ### What stands left of a combinator -/

/-- A text with balanced parentheses and no combinator outside of them, and with no mark in
front. -/
structure IsOperand (u : List Char) : Prop where
  start : ∃ c cs, u = c :: cs ∧ c ≠ '\\' ∧ c ≠ '?'
  /-- No beginning of the text closes more groups than it opens. -/
  opened : ∀ p, p <+: u → p.count ')' ≤ p.count '('
  balanced : u.count ')' = u.count '('
  /-- Where a combinator stands, a group is open. -/
  grouped : ∀ p c, p ++ [c] <+: u → c = '|' ∨ c = '&' → p.count ')' < p.count '('

theorem IsOperand.nesting {u : List Char} (h : IsOperand u) : nesting false 0 u = some 0 := by
  simp only [nesting_iff, Nat.zero_add]
  exact ⟨h.balanced.symm, h.opened, fun _ => h.grouped⟩

/-! ### Groups and what follows them -/

/-- Where a group is open at the start of a text and none at its end, it is closed within. -/
theorem exists_close {u : List Char} {d : Nat} (h : Decl.nesting false (d + 1) u = some 0) :
    ∃ inner after, u = inner ++ ')' :: after ∧ Decl.nesting true d inner = some 0 ∧
      Decl.nesting false 0 after = some 0 := by
  induction u generalizing d with
  | nil => cases h
  | cons c u ih =>
    cases hc : charMark c with
    | opens =>
      simp only [Decl.nesting, hc] at h
      obtain ⟨inner, after, rfl, hinner, hafter⟩ := ih h
      exact ⟨c :: inner, after, rfl, by simpa only [Decl.nesting, hc] using hinner, hafter⟩
    | closes =>
      simp only [Decl.nesting, hc] at h
      rcases d with - | d
      · -- this character closes the group
        obtain rfl := charMark_closes.1 hc
        exact ⟨[], u, rfl, rfl, h⟩
      · obtain ⟨inner, after, rfl, hinner, hafter⟩ := ih h
        exact ⟨c :: inner, after, rfl, by simpa only [Decl.nesting, hc] using hinner, hafter⟩
    | joins =>
      simp only [Decl.nesting, hc, ne_eq, Nat.succ_ne_zero, not_false_eq_true, decide_true,
        Bool.or_true, if_true] at h
      obtain ⟨inner, after, rfl, hinner, hafter⟩ := ih h
      refine ⟨c :: inner, after, rfl, ?_, hafter⟩
      simpa only [Decl.nesting, hc, Bool.true_or, if_true] using hinner
    | plain =>
      simp only [Decl.nesting, hc] at h
      obtain ⟨inner, after, rfl, hinner, hafter⟩ := ih h
      exact ⟨c :: inner, after, rfl, by simpa only [Decl.nesting, hc] using hinner, hafter⟩

/-- Brackets and a rest that does not begin with them. -/
theorem exists_takeBrackets (cs : List Char) :
    ∃ n rest, cs = brackets n ++ rest ∧ takeBrackets rest = (0, rest) := by
  fun_induction takeBrackets cs with
  | case1 cs n rest hr ih =>
    obtain ⟨n, rest, rfl, hrest⟩ := ih
    exact ⟨n + 1, rest, rfl, hrest⟩
  | case2 cs hcs => exact ⟨0, cs, rfl, by rw [takeBrackets]; exact hcs⟩

/-- A combinator makes no brackets of what stands before it. -/
theorem takeBrackets_append_sign {rest : List Char} (h : takeBrackets rest = (0, rest)) (k : Comb)
    (v : List Char) : takeBrackets (rest ++ k.sign :: v) = (0, rest ++ k.sign :: v) := by
  match rest, h with
  | [], _ => exact takeBrackets_sign k v
  | [c], _ => cases k <;> simp [takeBrackets, Comb.sign]
  | c :: d :: cs, h =>
    rw [List.cons_append, List.cons_append, takeBrackets]
    rintro cs' hc
    obtain ⟨rfl, rfl, rfl⟩ : c = '[' ∧ d = ']' ∧ cs ++ k.sign :: v = cs' := by simpa using hc
    simp [takeBrackets] at h

/-- What follows a group and its brackets, where no combinator stands outside of groups. -/
theorem tailOf_cons {c : Char} {cs : List Char} (h : Decl.nesting false 0 (c :: cs) = some 0)
    (v : List Char) : tailOf (c :: v) = .junk (c :: v) := by
  have hjoins : charMark c ≠ .joins := by
    intro hc
    simp [Decl.nesting, hc] at h
  rw [tailOf, combOf?_eq_none hjoins]

/-! ### Both sides of a combinator -/

/-- A text that is a group with brackets after it is read up to a combinator; one with
anything else after them is refused in either case. -/
theorem parse_group_sign {inner after : List Char} (hinner : Decl.nesting true 0 inner = some 0)
    (hafter : Decl.nesting false 0 after = some 0) (k : Comb) (v : List Char) (t : Ty) :
    parse ('(' :: inner ++ ')' :: after ++ k.sign :: v) = .ok t ↔
      ∃ l r, parse ('(' :: inner ++ ')' :: after) = .ok l ∧ parse v = .ok r ∧
        t = (Ty.comb k [l, r]).simplify := by
  obtain ⟨n, rest, rfl, hrest⟩ := exists_takeBrackets after
  rw [nesting_append, nesting_plain (charMark_brackets n), Option.bind_some] at hafter
  have halone : shape ('(' :: inner ++ ')' :: (brackets n ++ rest)) =
      .group inner n (tailOf rest) := by
    rw [shape_group hinner, takeBrackets_brackets hrest]
  have hjoined : shape ('(' :: inner ++ ')' :: (brackets n ++ rest) ++ k.sign :: v) =
      .group inner n (tailOf (rest ++ k.sign :: v)) := by
    have h := shape_group hinner (brackets n ++ (rest ++ k.sign :: v))
    rw [takeBrackets_brackets (takeBrackets_append_sign hrest k v)] at h
    simpa using h
  rw [parse_eq, hjoined, parse_eq ('(' :: inner ++ _), halone]
  rcases rest with - | ⟨c, cs⟩
  · -- the end, and the combinator
    rw [List.nil_append, tailOf_sign, tailOf]
    dsimp only
    rcases hl : parse inner with e | l
    · simp [Except.bind, Except.map]
    · have hsimple := Ty.simplify_of_isNormal (isNormal_arrays (isNormal_of_parse hl) n)
      simp only [Except.bind, Except.map, hsimple]
      rcases parse v with e | r <;> simp [eq_comm]
  · -- neither the end nor a combinator
    rw [List.cons_append, tailOf_cons hafter, tailOf_cons hafter]
    dsimp only
    rcases parse inner with e | l <;> simp [Except.bind]

theorem IsOperand.parse_sign {u : List Char} (h : IsOperand u) (k : Comb) (v : List Char) (t : Ty) :
    parse (u ++ k.sign :: v) = .ok t ↔
      ∃ l r, parse u = .ok l ∧ parse v = .ok r ∧ t = (Ty.comb k [l, r]).simplify := by
  have hnesting := h.nesting
  obtain ⟨c, cs, rfl, h1, h2⟩ := h.start
  by_cases h3 : c = '('
  · subst h3
    have hopen : charMark '(' = .opens := rfl
    simp only [Decl.nesting, hopen] at hnesting
    obtain ⟨inner, after, rfl, hinner, hafter⟩ := exists_close hnesting
    exact parse_group_sign hinner hafter k v t
  · rw [Decl.parse_sign hnesting h1 h2 h3]
    rcases parse (c :: cs) with e | l
    · simp [Except.bind]
    · rcases parse v with e | r <;> simp [Except.bind, Except.map, eq_comm]

end Decl

/-- **Reading a declaration with a combinator.**  A text with balanced parentheses, no
combinator outside of them and no mark in front, then a combinator, then any text: this is read
exactly if both texts are, as the two types together, flattened. -/
theorem Ty.ofDecl_joined {u : String} (hu : Decl.IsOperand u.toList) (k : Comb) (v : String)
    (t : Ty) :
    Ty.ofDecl (u ++ k.sign.toString ++ v) = .ok t ↔
      ∃ l r, Ty.ofDecl u = .ok l ∧ Ty.ofDecl v = .ok r ∧ t = (Ty.comb k [l, r]).simplify := by
  have htext : (u ++ k.sign.toString ++ v).toList = u.toList ++ k.sign :: v.toList := by simp
  rw [Ty.ofDecl, htext]
  exact hu.parse_sign k v.toList t

/-- An array of a group before a nullable type with a combinator of its own. -/
theorem Ty.ofDecl_joined_group :
    Decl.IsOperand "(A|int)[]".toList ∧
      Ty.ofDecl "(A|int)[]&?B|null" = .ok (.inter [.arrayOf (.union [.named "A", .int]),
        .union [.named "B", .null, .null]]) := by
  have hu : Decl.IsOperand "(A|int)[]".toList := by
    refine ⟨⟨'(', "A|int)[]".toList, rfl, by decide, by decide⟩, fun p hp => ?_, by decide,
      fun p c hp hc => ?_⟩
    · have hall : ∀ n < 10, ("(A|int)[]".toList.take n).count ')' ≤
          ("(A|int)[]".toList.take n).count '(' := by decide
      rw [List.prefix_iff_eq_take.mp hp]
      exact hall p.length (Nat.lt_succ_of_le hp.length_le)
    · have hall : ∀ n < 9, ("(A|int)[]".toList.getD n ' ' = '|' ∨
          "(A|int)[]".toList.getD n ' ' = '&') →
          ("(A|int)[]".toList.take n).count ')' < ("(A|int)[]".toList.take n).count '(' := by decide
      have htotal : "(A|int)[]".toList.length = 9 := rfl
      have hlen := hp.length_le
      rw [List.length_append, List.length_singleton, htotal] at hlen
      obtain ⟨r, hr⟩ := hp
      have hbefore := hall p.length hlen
      rw [← hr] at hbefore
      simpa using hbefore (by simpa using hc)
  have hl : Ty.ofDecl "(A|int)[]" = .ok (.arrayOf (.union [.named "A", .int])) :=
    Ty.parse_text (t := .arrayOf (.union [.named "A", .int])) (by decide)
  have hinner : Decl.parse "B|null".toList = .ok (.union [.named "B", .null]) :=
    Ty.parse_text (t := .union [.named "B", .null]) (by decide)
  have hr : Ty.ofDecl "?B|null" = .ok (.union [.named "B", .null, .null]) := by
    rw [Ty.ofDecl, Decl.parse_eq, show Decl.shape "?B|null".toList =
      .nullable "B|null".toList by decide]
    simp only [hinner]
    rfl
  exact ⟨hu, (Ty.ofDecl_joined hu .inter "?B|null" _).mpr ⟨_, _, hl, hr, rfl⟩⟩

end SsaTypes
