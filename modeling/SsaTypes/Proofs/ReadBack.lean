/-
SsaTypes/Proofs/ReadBack.lean

The text of a type read as a declaration.  A member stands in a text as a word
or as a group, with brackets after it, and both are read alike where the text
ends and where a combinator follows (`Reads`):

    parse (u ++ brackets n)            = arrays n t
    parse (u ++ brackets n ++ '|' :: v) = arrays n t | parse v,   simplified.

Following the type, every normal one is read as itself from its own text
(`reads_text`); and what is read from any text is normal, so the types that can
be declared are those that are read back from how they are displayed.
-/
import SsaTypes.Proofs.NormalForm
import SsaTypes.Proofs.Scan
import SsaTypes.Ty.Display

namespace SsaTypes

namespace Decl

/-! ### Words -/

/-- A text with no combinator and no parenthesis, and no mark in front. -/
structure IsWord (u : List Char) : Prop where
  plain : ∀ c ∈ u, charMark c = .plain
  start : ∃ c cs, u = c :: cs ∧ c ≠ '\\' ∧ c ≠ '?'

/-- Keywords consist of letters. -/
theorem isAlpha_of_keyword? {cs : List Char} (h : keyword? cs ≠ none) :
    ∀ c ∈ cs, c.toLower.isAlpha = true := by
  obtain ⟨t, ht⟩ := Option.ne_none_iff_exists'.1 h
  obtain ⟨p, hp, -⟩ := Option.map_eq_some_iff.1 ht
  have hall : keywords.all (fun q => q.1.toList.all Char.isAlpha) = true := by decide
  have hletters := List.all_eq_true.1 hall p (List.mem_of_find?_eq_some hp)
  have hsmall : p.1.toList = cs.map Char.toLower := by simpa using List.find?_some hp
  intro c hc
  exact List.all_eq_true.1 hletters _ (hsmall ▸ List.mem_map_of_mem hc)

theorem keyword?_of_mem {cs : List Char} {c : Char} (hc : c ∈ cs)
    (h : c.toLower.isAlpha = false) : keyword? cs = none := by
  by_contra hk
  rw [isAlpha_of_keyword? hk c hc] at h
  cases h

theorem shape_of_start {c : Char} {cs : List Char} (h1 : c ≠ '\\') (h2 : c ≠ '?') :
    shape (c :: cs) = bareShape (c :: cs) := by
  rw [shape, if_neg h1, if_neg h2]

/-- A text with a combinator or a parenthesis is read as a group or by parts. -/
theorem bareShape_of_mark {cs : List Char} {c : Char} (hc : c ∈ cs) (h : charMark c ≠ .plain)
    (hl : c.toLower.isAlpha = false) :
    bareShape cs = if cs.head? = some '(' then groupShape cs else joinedShape cs := by
  have hany : (cs.any fun c => charMark c ≠ .plain) = true :=
    List.any_eq_true.2 ⟨c, hc, decide_eq_true h⟩
  rw [bareShape, keyword?_of_mem hc hl]
  simp only [hany, if_true]

theorem any_plain {cs : List Char} (h : ∀ c ∈ cs, charMark c = .plain) :
    (cs.any fun c => charMark c ≠ .plain) = false := by
  rw [List.any_eq_false]
  intro c hc
  simp [h c hc]

theorem plain_of_isNamePart {c : Char} (h : isNamePart c = true) : charMark c = .plain := by
  have hne (d : Char) (hd : isNamePart d = false) : c ≠ d := by
    rintro rfl
    rw [h] at hd
    cases hd
  rw [charMark, if_neg (hne _ (by decide)), if_neg (hne _ (by decide)),
    if_neg (not_or.2 ⟨hne _ (by decide), hne _ (by decide)⟩)]

mutual

theorem isNamePart_of_isName : (cs : List Char) → isName cs = true →
    ∀ c ∈ cs, c = '\\' ∨ isNamePart c = true
  | [], h => nomatch h
  | c :: cs, h => by
    rw [isName, Bool.and_eq_true] at h
    refine List.forall_mem_cons.2 ⟨.inr ?_, isNamePart_of_isNameTail cs h.2⟩
    rw [isNamePart, h.1, Bool.true_or]

theorem isNamePart_of_isNameTail : (cs : List Char) → isNameTail cs = true →
    ∀ c ∈ cs, c = '\\' ∨ isNamePart c = true
  | [], _ => nofun
  | c :: cs, h => by
    rw [isNameTail] at h
    split at h
    · exact List.forall_mem_cons.2 ⟨.inl ‹_›, isNamePart_of_isName cs h⟩
    · rw [Bool.and_eq_true] at h
      exact List.forall_mem_cons.2 ⟨.inr h.1, isNamePart_of_isNameTail cs h.2⟩

end

theorem isWord_of_isName {cs : List Char} (h : isName cs = true) : IsWord cs where
  plain c hc := by
    rcases isNamePart_of_isName cs h c hc with rfl | hp
    · rfl
    · exact plain_of_isNamePart hp
  start := by
    cases cs with
    | nil => cases h
    | cons c cs =>
      rw [isName, Bool.and_eq_true] at h
      refine ⟨c, cs, rfl, ?_, ?_⟩ <;> rintro rfl <;> exact absurd h.1 (by decide)

/-- A class name is read as the class. -/
theorem parse_name {c : String} (h : isName c.toList = true) (hk : keyword? c.toList = none) :
    parse c.toList = .ok (.named c) := by
  have hw := isWord_of_isName h
  obtain ⟨d, ds, hd, h1, h2⟩ := hw.start
  have hdrop : dropBrackets? c.toList = none := by
    by_contra hne
    obtain ⟨front, hf⟩ := Option.ne_none_iff_exists'.1 hne
    have hmem : '[' ∈ c.toList := by simp [dropBrackets?_eq hf]
    exact absurd (isNamePart_of_isName _ h _ hmem) (by decide)
  have hne : c ≠ "" := by
    rintro rfl
    cases hd
  have hs : shape c.toList = .simple (.named c) := by
    rw [hd, shape_of_start h1 h2, ← hd, bareShape]
    simp only [hk, any_plain hw.plain, hdrop, h, Bool.false_eq_true, if_false, if_true,
      Ty.ofClass, String.ofList_toList, if_neg hne]
  rw [parse_eq, hs]

/-! ### Brackets -/

/-- The brackets of a nested array. -/
def brackets : Nat → List Char
  | 0 => []
  | n + 1 => '[' :: ']' :: brackets n

theorem charMark_brackets (n : Nat) : ∀ c ∈ brackets n, charMark c = .plain := by
  induction n with
  | zero => nofun
  | succ n ih => exact List.forall_mem_cons.2 ⟨rfl, List.forall_mem_cons.2 ⟨rfl, ih⟩⟩

theorem arrays_arrayOf (n : Nat) (t : Ty) : arrays n (.arrayOf t) = arrays (n + 1) t := by
  induction n with
  | zero => rfl
  | succ n ih => rw [arrays, ih, arrays, arrays, arrays]

theorem takeBrackets_brackets {w : List Char} (h : takeBrackets w = (0, w)) (n : Nat) :
    takeBrackets (brackets n ++ w) = (n, w) := by
  induction n with
  | zero => exact h
  | succ n ih => rw [brackets, List.cons_append, List.cons_append, takeBrackets, ih]

namespace IsWord

variable {u : List Char} (h : IsWord u)
include h

theorem append {v : List Char} (hv : ∀ c ∈ v, charMark c = .plain) : IsWord (u ++ v) where
  plain c hc := (List.mem_append.1 hc).elim (h.plain c) (hv c)
  start := by
    obtain ⟨c, cs, rfl, h1, h2⟩ := h.start
    exact ⟨c, cs ++ v, rfl, h1, h2⟩

theorem array : IsWord (u ++ ['[', ']']) :=
  h.append (charMark_brackets 1)

/-- Brackets after a word are those of an array. -/
theorem parse_array : parse (u ++ ['[', ']']) = (parse u).map Ty.arrayOf := by
  have hw := h.array
  obtain ⟨c, cs, hc, h1, h2⟩ := hw.start
  have hdrop : dropBrackets? (u ++ ['[', ']']) = some u := by simp [dropBrackets?]
  have hkey : keyword? (u ++ ['[', ']']) = none :=
    keyword?_of_mem (c := ']') (by simp) (by decide)
  have hs : shape (u ++ ['[', ']']) = .arrayOf u := by
    rw [hc, shape_of_start h1 h2, ← hc, bareShape]
    simp only [hkey, any_plain hw.plain, hdrop, Bool.false_eq_true, if_false]
  rw [parse_eq, hs]

end IsWord

/-! ### Combinators -/

theorem charMark_sign (k : Comb) : charMark k.sign = .joins := by
  cases k <;> rfl

/-- **Up to the leftmost combinator.**  A text that begins with no mark and no
parenthesis, with none of its combinators outside of groups, is what stands
left of a combinator that follows it. -/
theorem parse_sign {c : Char} {cs : List Char} (h : nesting false 0 (c :: cs) = some 0)
    (h1 : c ≠ '\\') (h2 : c ≠ '?') (h3 : c ≠ '(') (k : Comb) (v : List Char) :
    parse (c :: cs ++ k.sign :: v) =
      (parse (c :: cs)).bind fun l => (parse v).map fun r => (Ty.comb k [l, r]).simplify := by
  have hbare : bareShape (c :: cs ++ k.sign :: v) = joinedShape (c :: cs ++ k.sign :: v) := by
    rw [bareShape_of_mark (c := k.sign) (by simp) (by simp [charMark_sign]) (by cases k <;> decide),
      List.cons_append, List.head?_cons, if_neg (by simpa using h3)]
  have hsize : size (c :: cs) ≠ 0 := Nat.ne_of_gt (size_pos (List.cons_ne_nil c cs))
  have hjoined : joinedShape (c :: cs ++ k.sign :: v) = .joined k (c :: cs) v := by
    rw [joinedShape, splitOffset_sign h (charMark_sign k)]
    obtain ⟨n, hn⟩ := Nat.exists_eq_succ_of_ne_zero hsize
    rw [hn]
    simp only [← hn, cut_size]
    cases k <;> rfl
  rw [List.cons_append] at hbare hjoined ⊢
  rw [parse_eq, shape_of_start h1 h2, hbare, hjoined]

/-! ### Groups -/

/-- A group is read up to the parenthesis that closes it. -/
theorem shape_group {inner : List Char} (h : nesting true 0 inner = some 0) (v : List Char) :
    shape ('(' :: inner ++ ')' :: v) =
      .group inner (takeBrackets v).1 (tailOf (takeBrackets v).2) := by
  have hbare : bareShape ('(' :: inner ++ ')' :: v) = groupShape ('(' :: inner ++ ')' :: v) := by
    rw [bareShape_of_mark (c := ')') (by simp) (by decide) (by decide), List.cons_append,
      List.head?_cons, if_pos rfl]
  have hgroup : groupShape ('(' :: inner ++ ')' :: v) =
      .group inner (takeBrackets v).1 (tailOf (takeBrackets v).2) := by
    rw [groupShape, closeOffset_group h]
    simp only [cut_size]
  rw [List.cons_append] at hbare hgroup ⊢
  rw [shape_of_start (by decide) (by decide), hbare, hgroup]

theorem tailOf_sign (k : Comb) (v : List Char) : tailOf (k.sign :: v) = .joined k v := by
  cases k <;> rfl

theorem takeBrackets_sign (k : Comb) (v : List Char) :
    takeBrackets (k.sign :: v) = (0, k.sign :: v) := by
  cases k <;> rfl

/-! ### Members -/

/-- A text is read as a type, with any brackets after it, where it ends and
where a combinator follows. -/
structure Reads (u : List Char) (t : Ty) : Prop where
  alone : ∀ n, parse (u ++ brackets n) = .ok (arrays n t)
  joined : ∀ n (k : Comb) v, parse (u ++ brackets n ++ k.sign :: v) =
    (parse v).map fun r => (Ty.comb k [arrays n t, r]).simplify

theorem IsWord.reads {u : List Char} {t : Ty} (hw : IsWord u) (h : parse u = .ok t) :
    Reads u t := by
  have halone (n : Nat) : parse (u ++ brackets n) = .ok (arrays n t) := by
    induction n generalizing u t with
    | zero => rw [brackets, List.append_nil, h, arrays]
    | succ n ih =>
      -- the word with the first brackets is a word again
      have := ih hw.array (by rw [hw.parse_array, h]; rfl)
      rwa [List.append_assoc, arrays_arrayOf] at this
  refine ⟨halone, fun n k v => ?_⟩
  obtain ⟨c, cs, hc, h1, h2⟩ := (hw.append (charMark_brackets n)).start
  have hplain := (hw.append (charMark_brackets n)).plain
  have h3 : c ≠ '(' := by
    rintro rfl
    exact absurd (hplain '(' (hc ▸ List.mem_cons_self)) (by decide)
  have hseal : nesting false 0 (c :: cs) = some 0 := hc ▸ nesting_plain hplain false 0
  rw [hc, parse_sign hseal h1 h2 h3, ← hc, halone]
  rfl

/-- The brackets of an array are the first of those after its element. -/
theorem Reads.array {u : List Char} {t : Ty} (h : Reads u t) :
    Reads (u ++ ['[', ']']) (.arrayOf t) where
  alone n := by
    have := h.alone (n + 1)
    rwa [List.append_assoc, arrays_arrayOf]
  joined n k v := by
    have := h.joined (n + 1) k v
    rwa [List.append_assoc u, arrays_arrayOf]

theorem reads_group {inner : List Char} {t : Ty} (hn : nesting true 0 inner = some 0)
    (h : parse inner = .ok t) (ht : t.isNormal = true) : Reads ('(' :: inner ++ [')']) t where
  alone n := by
    have htake := takeBrackets_brackets (w := []) rfl n
    rw [List.append_nil] at htake
    rw [List.append_assoc, List.singleton_append, parse_eq, shape_group hn, htake]
    simp only [tailOf, h, Except.map]
    rw [Ty.simplify_of_isNormal (isNormal_arrays ht n)]
  joined n k v := by
    rw [List.append_assoc, List.append_assoc, List.singleton_append, parse_eq, shape_group hn,
      takeBrackets_brackets (takeBrackets_sign k v) n]
    simp only [tailOf_sign, h, Except.bind]

end Decl

namespace Ty

open Decl

/-! ### Texts -/

/-- The texts of members, each with its groups closed. -/
theorem nesting_textMembers (k : Comb) {ms : List Ty}
    (h : ∀ m ∈ ms, nesting true 0 (text true m) = some 0) :
    nesting true 0 (textMembers k.sign ms) = some 0 := by
  induction ms with
  | nil => rfl
  | cons m ms ih =>
    obtain ⟨hm, hms⟩ := List.forall_mem_cons.1 h
    cases ms with
    | nil => exact hm
    | cons m' ms =>
      simp only [textMembers, nesting_append, hm, Option.bind_some, nesting, charMark_sign,
        Bool.true_or, if_true]
      exact ih hms

theorem reads_keyword {w : String} {t : Ty} (h : (w, t) ∈ keywords) : Reads w.toList t := by
  have hne : keywords.all (fun p => p.1.toList ≠ []) = true := by decide
  have hchars : keywords.all (fun p => p.1.toList.all fun c =>
      charMark c = .plain ∧ c ≠ '\\' ∧ c ≠ '?') = true := by decide
  have hkey : keywords.all (fun p => keyword? p.1.toList = some p.2) = true := by decide
  simp only [List.all_eq_true, decide_eq_true_eq] at hne hchars hkey
  obtain ⟨c, cs, hc⟩ := List.exists_cons_of_ne_nil (hne _ h)
  obtain ⟨-, h1, h2⟩ := hchars _ h c (hc ▸ List.mem_cons_self)
  refine IsWord.reads ⟨fun d hd => (hchars _ h d hd).1, c, cs, hc, h1, h2⟩ ?_
  have hs : shape w.toList = .simple t := by
    rw [show w.toList = c :: cs from hc, shape_of_start h1 h2, ← hc, bareShape, hkey _ h]
  rw [parse_eq, hs]

/-- The members of a union or an intersection are read one after the other. -/
theorem parse_textMembers {k : Comb} {ms : List Ty} (h2 : 2 ≤ ms.length)
    (hms : ∀ m ∈ ms, m.isNormal = true ∧ m.isComb k = false)
    (hr : ∀ m ∈ ms, Reads (text true m) m) :
    parse (textMembers k.sign ms) = .ok (.comb k ms) := by
  induction ms with
  | nil => simp at h2
  | cons m ms ih =>
    obtain ⟨⟨hm, hmk⟩, hrest⟩ := List.forall_mem_cons.1 hms
    obtain ⟨hrm, hrrest⟩ := List.forall_mem_cons.1 hr
    have hjoin (v : List Char) : parse (text true m ++ k.sign :: v) =
        (parse v).map fun r => (Ty.comb k [m, r]).simplify := by
      have := hrm.joined 0 k v
      rwa [brackets, List.append_nil] at this
    match ms, h2 with
    | [m'], _ =>
      obtain ⟨hm', hmk'⟩ := hrest m' List.mem_cons_self
      have hlast := (hrrest m' List.mem_cons_self).alone 0
      rw [brackets, List.append_nil] at hlast
      rw [textMembers, hjoin, textMembers, hlast, arrays, Except.map, simplify_pair k hm hm',
        parts_of_isComb hmk, parts_of_isComb hmk']
      · rfl
      · simp
    | m' :: m'' :: ms, _ =>
      have hlen : 2 ≤ (m' :: m'' :: ms).length := by simp
      have hnorm : (comb k (m' :: m'' :: ms)).isNormal = true := isNormal_comb.2 ⟨hlen, hrest⟩
      rw [textMembers, hjoin, ih hlen hrest hrrest, Except.map, simplify_pair k hm hnorm,
        parts_of_isComb hmk, parts, if_pos rfl]
      · rfl
      · simp

/-- **A member is read as itself.**  By induction on the type. -/
theorem reads_text {t : Ty} (h : t.isNormal = true) :
    Reads (text true t) t ∧ nesting true 0 (text true t) = some 0 := by
  induction t using inductOn with
  | unknown => cases h
  | null => exact ⟨reads_keyword (w := "null") (by decide), by decide⟩
  | bool => exact ⟨reads_keyword (w := "bool") (by decide), by decide⟩
  | int => exact ⟨reads_keyword (w := "int") (by decide), by decide⟩
  | float => exact ⟨reads_keyword (w := "float") (by decide), by decide⟩
  | string => exact ⟨reads_keyword (w := "string") (by decide), by decide⟩
  | callable => exact ⟨reads_keyword (w := "callable") (by decide), by decide⟩
  | object => exact ⟨reads_keyword (w := "object") (by decide), by decide⟩
  | array => exact ⟨reads_keyword (w := "array") (by decide), by decide⟩
  | named c =>
    rw [isNormal, Bool.and_eq_true, Option.isNone_iff_eq_none] at h
    have hw := isWord_of_isName h.1
    exact ⟨hw.reads (parse_name h.1 h.2), nesting_plain hw.plain true 0⟩
  | arrayOf e ih =>
    obtain ⟨hr, hn⟩ := ih h
    refine ⟨hr.array, ?_⟩
    have hb : nesting true 0 ['[', ']'] = some 0 := nesting_plain (charMark_brackets 1) true 0
    show nesting true 0 (text true e ++ ['[', ']']) = some 0
    rw [nesting_append, hn, Option.bind_some, hb]
  | comb k ms ih =>
    obtain ⟨hlen, hms⟩ := isNormal_comb.1 h
    have hn := nesting_textMembers k fun m hm => (ih m hm (hms m hm).1).2
    have hp := parse_textMembers hlen hms fun m hm => (ih m hm (hms m hm).1).1
    exact ⟨reads_group hn hp h, nesting_group hn true⟩

/-- **A type is read as itself.** -/
theorem parse_text {t : Ty} (h : t.isNormal = true) : parse (text false t) = .ok t := by
  by_cases hcomb : ∃ k ms, t = .comb k ms
  · obtain ⟨k, ms, rfl⟩ := hcomb
    obtain ⟨hlen, hms⟩ := isNormal_comb.1 h
    exact parse_textMembers hlen hms fun m hm => (reads_text (hms m hm).1).1
  · have hout : text false t = text true t := by
      cases t with
      | comb k ms => exact absurd ⟨k, ms, rfl⟩ hcomb
      | _ => rfl
    have := (reads_text h).1.alone 0
    rwa [brackets, List.append_nil, ← hout] at this

/-- **Declared types are read back.**  Every type in normal form is read from
its own text, down to the elements of arrays and the spelling of names; what is
read from a text is in normal form; so whatever is read is read back. -/
theorem ofDecl_display :
    (∀ t : Ty, t.isNormal = true → Ty.ofDecl t.display = .ok t) ∧
    (∀ (s : String) (t : Ty), Ty.ofDecl s = .ok t → t.isNormal = true) ∧
    ∀ (s : String) (t : Ty), Ty.ofDecl s = .ok t → Ty.ofDecl t.display = .ok t := by
  have hback (t : Ty) (h : t.isNormal = true) : Ty.ofDecl t.display = .ok t := by
    rw [Ty.ofDecl, display, String.toList_ofList]
    exact parse_text h
  exact ⟨hback, fun s t h => isNormal_of_parse h, fun s t h => hback t (isNormal_of_parse h)⟩

/-- A nullable array of a group, with a name from the root namespace, is shown
without its marks. -/
theorem ofDecl_display_nullable :
    Ty.ofDecl "?(A&\\N\\B)[]" =
        .ok (.union [.arrayOf (.inter [.named "A", .named "N\\B"]), .null]) ∧
      (Ty.union [.arrayOf (.inter [.named "A", .named "N\\B"]), .null]).isNormal = true ∧
      (Ty.union [.arrayOf (.inter [.named "A", .named "N\\B"]), .null]).display =
        "(A&N\\B)[]|null" ∧
      Ty.ofDecl "(A&N\\B)[]|null" =
        .ok (.union [.arrayOf (.inter [.named "A", .named "N\\B"]), .null]) ∧
      Ty.ofDecl (Ty.inter [.arrayOf .array, .numeric]).display =
        .ok (.inter [.arrayOf .array, .numeric]) := by
  have ha : parse "A".toList = .ok (.named "A") := by
    rw [parse_eq, show shape "A".toList = .simple (.named "A") by decide]
  have hb : parse "\\N\\B".toList = .ok (.named "N\\B") := by
    rw [parse_eq, show shape "\\N\\B".toList = .simple (.named "N\\B") by decide]
  have hinner : parse "A&\\N\\B".toList = .ok (.inter [.named "A", .named "N\\B"]) := by
    rw [parse_eq, show shape "A&\\N\\B".toList =
      .joined .inter "A".toList "\\N\\B".toList by decide]
    simp only [ha, hb]
    rfl
  have hgroup : parse "(A&\\N\\B)[]".toList =
      .ok (.arrayOf (.inter [.named "A", .named "N\\B"])) := by
    rw [parse_eq, show shape "(A&\\N\\B)[]".toList =
      .group "A&\\N\\B".toList 1 .nothing by decide]
    simp only [hinner]
    rfl
  have h : Ty.ofDecl "?(A&\\N\\B)[]" =
      .ok (.union [.arrayOf (.inter [.named "A", .named "N\\B"]), .null]) := by
    rw [Ty.ofDecl, parse_eq, show shape "?(A&\\N\\B)[]".toList =
      .nullable "(A&\\N\\B)[]".toList by decide]
    simp only [hgroup]
    rfl
  obtain ⟨hback, hnormal, hagain⟩ := ofDecl_display
  have hshown : (Ty.union [.arrayOf (.inter [.named "A", .named "N\\B"]), .null]).display =
      "(A&N\\B)[]|null" := by decide
  exact ⟨h, hnormal _ _ h, hshown, hshown ▸ hagain _ _ h, hback _ (by decide)⟩

end Ty

end SsaTypes
