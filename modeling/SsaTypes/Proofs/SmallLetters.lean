/-
SsaTypes/Proofs/SmallLetters.lean

Reading a declaration in small letters.  Signs are no letters, so a text and the same
text in small letters are divided in the same way (`shape_small`), and keywords are read
in any case of letters:

    parse (small cs) = (parse cs) with its names and texts in small letters  (`parse_small`)

Hence making names small is a spelling that changes declarations only in the spelling
of class names (`spelling_fold`).
-/
import SsaTypes.Proofs.NormalForm
import SsaTypes.Proofs.Respelled
import SsaTypes.Proofs.Scan

namespace SsaTypes

open Text

namespace Decl

/-! ### Characters -/

/-- A text in small letters. -/
def small (cs : List Char) : List Char := cs.map Char.toLower

theorem small_cons (c : Char) (cs : List Char) : small (c :: cs) = c.toLower :: small cs :=
  rfl

theorem ofList_small (cs : List Char) : String.ofList (small cs) = fold (String.ofList cs) := by
  rw [fold, String.toList_ofList, small]

theorem charMark_toLower (c : Char) : charMark c.toLower = charMark c := by
  simp only [charMark, toLower_eq_iff (d := '(') (by decide), toLower_eq_iff (d := ')') (by decide),
    toLower_eq_iff (d := '|') (by decide), toLower_eq_iff (d := '&') (by decide)]

theorem combOf?_toLower (c : Char) : combOf? c.toLower = combOf? c := by
  simp only [combOf?, toLower_eq_iff (d := '|') (by decide), toLower_eq_iff (d := '&') (by decide)]

theorem utf8Size_toLower (c : Char) : c.toLower.utf8Size = c.utf8Size := by
  have hascii {c : Char} (h : c.toNat ≤ 127) : c.utf8Size = 1 := by
    rw [Char.utf8Size]
    exact if_pos h
  obtain h | ⟨hc, -, hlower⟩ := toLower_cases c
  · rw [h]
  · rw [hascii (by omega), hascii (by omega)]

theorem isNameStart_toLower (c : Char) : isNameStart c.toLower = isNameStart c := by
  obtain h | ⟨hc, hlower⟩ := toLower_cases c
  · rw [h]
  · rw [isNameStart, isNameStart, (isAlpha_iff c).2 (.inl hc), (isAlpha_iff _).2 (.inr hlower)]
    rfl

theorem isNamePart_toLower (c : Char) : isNamePart c.toLower = isNamePart c := by
  obtain h | ⟨hc, hlower⟩ := toLower_cases c
  · rw [h]
  · have hstart : isNameStart c = true := by
      rw [isNameStart, (isAlpha_iff c).2 (.inl hc)]
      rfl
    rw [isNamePart, isNamePart, isNameStart_toLower, hstart]
    rfl

/-! ### Names and keywords -/

mutual

theorem isName_small : (cs : List Char) → isName (small cs) = isName cs
  | [] => rfl
  | c :: cs => by
    rw [small_cons, isName, isName, isNameStart_toLower, isNameTail_small cs]

theorem isNameTail_small : (cs : List Char) → isNameTail (small cs) = isNameTail cs
  | [] => rfl
  | c :: cs => by
    rw [small_cons, isNameTail, isNameTail, isNamePart_toLower, isName_small cs,
      isNameTail_small cs]
    simp only [toLower_eq_iff (d := '\\') (by decide)]

end

theorem keyword?_small (cs : List Char) : keyword? (small cs) = keyword? cs := by
  have h : Char.toLower ∘ Char.toLower = Char.toLower := funext toLower_toLower
  rw [keyword?, small, List.map_map, h, keyword?]

/-- Keywords stand for types without class names. -/
theorem respell_of_keyword? {cs : List Char} {t : Ty} (h : keyword? cs = some t) :
    t.respell fold = t := by
  obtain ⟨p, hp, rfl⟩ := Option.map_eq_some_iff.1 h
  have hall : ∀ p ∈ keywords, p.2.respell fold = p.2 := by decide
  exact hall p (List.mem_of_find?_eq_some hp)

theorem ofClass_fold (name : String) : Ty.ofClass (fold name) = (Ty.ofClass name).respell fold := by
  have hempty : fold name = "" ↔ name = "" := by
    rw [← String.toList_inj, ← String.toList_inj, toList_fold, String.toList_empty,
      List.map_eq_nil_iff]
  rw [Ty.ofClass, Ty.ofClass]
  simp only [hempty]
  split <;> rfl

/-! ### The shape of a text -/

/-- Scans see marks and widths only. -/
theorem closeFrom_map {α : Type} {mark : α → Mark} {width : α → Nat} {g : α → α}
    (hmark : ∀ u, mark (g u) = mark u) (hwidth : ∀ u, width (g u) = width u) (d o : Nat)
    (us : List α) : closeFrom mark width d o (us.map g) = closeFrom mark width d o us := by
  induction us generalizing d o with
  | nil => rfl
  | cons u us ih => simp only [List.map_cons, closeFrom, hmark, hwidth, ih]

theorem splitFrom_map {α : Type} {mark : α → Mark} {width : α → Nat} {g : α → α}
    (hmark : ∀ u, mark (g u) = mark u) (hwidth : ∀ u, width (g u) = width u) (d o : Nat)
    (us : List α) : splitFrom mark width d o (us.map g) = splitFrom mark width d o us := by
  induction us generalizing d o with
  | nil => rfl
  | cons u us ih => simp only [List.map_cons, splitFrom, hmark, hwidth, ih]

theorem closeOffset_small (cs : List Char) : closeOffset (small cs) = closeOffset cs := by
  rw [closeOffset, closeOffset, closeFrom_utf8, closeFrom_utf8, small,
    closeFrom_map charMark_toLower utf8Size_toLower]

theorem splitOffset_small (cs : List Char) : splitOffset (small cs) = splitOffset cs := by
  rw [splitOffset, splitOffset, splitFrom_utf8, splitFrom_utf8, small,
    splitFrom_map charMark_toLower utf8Size_toLower]

theorem cut_small (n : Nat) (cs : List Char) : cut n (small cs) = (cut n cs).map small small := by
  induction cs generalizing n with
  | nil => rw [small, List.map_nil, cut]; rfl
  | cons c cs ih =>
    cases n with
    | zero => rw [cut_zero, cut_zero]; rfl
    | succ n => rw [small_cons, cut, cut, utf8Size_toLower, ih]; rfl

theorem dropBrackets?_iff {cs u : List Char} :
    dropBrackets? cs = some u ↔ cs = u ++ ['[', ']'] := by
  refine ⟨dropBrackets?_eq, ?_⟩
  rintro rfl
  simp [dropBrackets?]

/-- A text ends in brackets if it does so in small letters. -/
theorem dropBrackets?_small (cs : List Char) :
    dropBrackets? (small cs) = (dropBrackets? cs).map small := by
  rcases h : dropBrackets? cs with - | u
  · rw [Option.map_none, Option.eq_none_iff_forall_ne_some]
    intro v hv
    obtain ⟨u, w, rfl, -, hw⟩ := List.map_eq_append_iff.1 (dropBrackets?_iff.1 hv)
    obtain ⟨c, w', rfl, hc, hw'⟩ := List.map_eq_cons_iff.1 hw
    obtain ⟨d, w, rfl, hd, hnil⟩ := List.map_eq_cons_iff.1 hw'
    obtain rfl := (toLower_eq_iff (by decide)).1 hc
    obtain rfl := (toLower_eq_iff (by decide)).1 hd
    obtain rfl := List.map_eq_nil_iff.1 hnil
    rw [dropBrackets?_iff.2 rfl] at h
    cases h
  · obtain rfl := dropBrackets?_iff.1 h
    exact dropBrackets?_iff.2 (List.map_append)

theorem takeBrackets_of_ne {cs : List Char} (h : ∀ rest, cs ≠ '[' :: ']' :: rest) :
    takeBrackets cs = (0, cs) := by
  rw [takeBrackets]
  exact h

theorem takeBrackets_small (cs : List Char) :
    takeBrackets (small cs) = (takeBrackets cs).map id small := by
  fun_induction takeBrackets cs with
  | case1 cs n rest hr ih =>
    show takeBrackets ('[' :: ']' :: small cs) = _
    rw [takeBrackets, ih, hr]
    rfl
  | case2 cs h =>
    refine takeBrackets_of_ne fun rest hrest => ?_
    obtain ⟨c, w, rfl, hc, hw⟩ := List.map_eq_cons_iff.1 hrest
    obtain ⟨d, w, rfl, hd, -⟩ := List.map_eq_cons_iff.1 hw
    exact h w (by rw [(toLower_eq_iff (by decide)).1 hc, (toLower_eq_iff (by decide)).1 hd])

/-- What follows a group, in small letters. -/
def Tail.small : Tail → Tail
  | .nothing => .nothing
  | .junk rest => .junk (Decl.small rest)
  | .joined k right => .joined k (Decl.small right)

theorem tailOf_small (cs : List Char) : tailOf (small cs) = (tailOf cs).small := by
  cases cs with
  | nil => rfl
  | cons c cs =>
    rw [small_cons, tailOf, tailOf, combOf?_toLower]
    split <;> rfl

/-- The shape of a text, in small letters. -/
def Shape.small : Shape → Shape
  | .refused e => .refused (e.respell fold)
  | .simple t => .simple (t.respell fold)
  | .nullable inner => .nullable (Decl.small inner)
  | .arrayOf element => .arrayOf (Decl.small element)
  | .group inner n tail => .group (Decl.small inner) n tail.small
  | .joined k left right => .joined k (Decl.small left) (Decl.small right)

theorem groupShape_small (cs : List Char) : groupShape (small cs) = (groupShape cs).small := by
  rw [groupShape, groupShape, closeOffset_small, ofList_small]
  split
  · rfl
  · next n _ =>
    rw [cut_small]
    rcases cut n cs with ⟨- | ⟨c, inner⟩, - | ⟨d, after⟩⟩
    · rfl
    · rfl
    · rfl
    · show Shape.group (small inner) (takeBrackets (small after)).1
        (tailOf (takeBrackets (small after)).2) = _
      rw [takeBrackets_small]
      show Shape.group (small inner) _ (tailOf (small (takeBrackets after).2)) = _
      rw [tailOf_small]
      rfl

theorem joinedShape_small (cs : List Char) : joinedShape (small cs) = (joinedShape cs).small := by
  rw [joinedShape, joinedShape, splitOffset_small, ofList_small]
  split
  · rfl
  · rfl
  · rfl
  · next n _ _ =>
    rw [cut_small]
    rcases cut n cs with ⟨left, - | ⟨c, right⟩⟩
    · rfl
    · show Shape.joined (if c.toLower = '|' then _ else _) (small left) (small right) = _
      simp only [toLower_eq_iff (d := '|') (by decide)]
      rfl

theorem bareShape_small (cs : List Char) : bareShape (small cs) = (bareShape cs).small := by
  have hmarks : ((small cs).any fun c => charMark c ≠ .plain) =
      cs.any fun c => charMark c ≠ .plain := by
    rw [small, List.any_map]
    simp only [Function.comp_def, charMark_toLower]
  have hhead : (small cs).head? = some '(' ↔ cs.head? = some '(' := by
    cases cs with
    | nil => exact Iff.rfl
    | cons c cs => simp [small_cons, toLower_eq_iff (d := '(') (by decide)]
  rw [bareShape, bareShape, keyword?_small, hmarks, dropBrackets?_small, isName_small, ofList_small]
  simp only [hhead]
  split
  · next t ht => exact congrArg Shape.simple (respell_of_keyword? ht).symm
  · split
    · split
      · exact groupShape_small cs
      · exact joinedShape_small cs
    · rcases dropBrackets? cs with - | element
      · show (if isName cs then _ else _) = Shape.small (if isName cs then _ else _)
        split
        · exact congrArg Shape.simple (ofClass_fold _)
        · rfl
      · rfl

/-- **The shape of a text in small letters.** -/
theorem shape_small (cs : List Char) : shape (small cs) = (shape cs).small := by
  cases cs with
  | nil => rfl
  | cons c cs =>
    have hnil : small cs = [] ↔ cs = [] := List.map_eq_nil_iff
    rw [small_cons, shape, shape, ← small_cons]
    simp only [toLower_eq_iff (d := '\\') (by decide), toLower_eq_iff (d := '?') (by decide), hnil]
    split
    · split
      · rfl
      · exact bareShape_small cs
    · split
      · rfl
      · exact bareShape_small (c :: cs)

/-! ### Reading a type -/

/-- What is read, in small letters. -/
def smallResult (r : Except DeclError Ty) : Except DeclError Ty :=
  (r.map (Ty.respell fold)).mapError (DeclError.respell fold)

theorem smallResult_map {g : Ty → Ty} (hg : ∀ t, (g t).respell fold = g (t.respell fold))
    (r : Except DeclError Ty) : smallResult (r.map g) = (smallResult r).map g := by
  rcases r with e | t
  · rfl
  · exact congrArg Except.ok (hg t)

theorem smallResult_bind {g g' : Ty → Except DeclError Ty}
    (hg : ∀ t, smallResult (g t) = g' (t.respell fold)) (r : Except DeclError Ty) :
    smallResult (r.bind g) = (smallResult r).bind g' := by
  rcases r with e | t
  · rfl
  · exact hg t

theorem arrays_respell (f : String → String) (n : Nat) (t : Ty) :
    (arrays n t).respell f = arrays n (t.respell f) := by
  induction n with
  | zero => rfl
  | succ n ih => rw [arrays, arrays, Ty.respell, ih]

/-- Both sides of a combinator are read in the same way. -/
theorem smallResult_pair (k : Comb) (n : Nat) (left right : Except DeclError Ty) :
    smallResult (left.bind fun l => right.map fun r => (Ty.comb k [arrays n l, r]).simplify) =
      (smallResult left).bind fun l =>
        (smallResult right).map fun r => (Ty.comb k [arrays n l, r]).simplify := by
  refine smallResult_bind (fun l => ?_) left
  rcases right with e | r
  · rfl
  · show Except.ok _ = Except.ok _
    rw [← Ty.simplify_respell, Ty.respell_comb, List.map_cons, arrays_respell]
    rfl

/-- **A text in small letters** is read as what the text is read as, in small letters. -/
theorem parse_small (cs : List Char) : parse (small cs) = smallResult (parse cs) := by
  induction cs using parse.induct with
  | case1 cs e hs =>
    rw [parse_eq, parse_eq cs, shape_small, hs]
    rfl
  | case2 cs u hs =>
    rw [parse_eq, parse_eq cs, shape_small, hs]
    rfl
  | case3 cs inner hs _ ih =>
    rw [parse_eq, parse_eq cs, shape_small, hs]
    show (parse (small inner)).map _ = _
    rw [ih, smallResult_map]
    intro t
    rw [← Ty.simplify_respell]
    rfl
  | case4 cs element hs _ ih =>
    rw [parse_eq, parse_eq cs, shape_small, hs]
    show (parse (small element)).map _ = _
    rw [ih, smallResult_map]
    exact fun t => rfl
  | case5 cs inner n hs _ ih =>
    rw [parse_eq, parse_eq cs, shape_small, hs]
    show (parse (small inner)).map _ = _
    rw [ih, smallResult_map]
    intro t
    rw [← Ty.simplify_respell, arrays_respell]
  | case6 cs inner n rest hs _ ih =>
    rw [parse_eq, parse_eq cs, shape_small, hs]
    show (parse (small inner)).bind (fun _ => .error (.danglingCombinator _)) = _
    rw [ih, ofList_small]
    exact (smallResult_bind (fun _ => rfl) _).symm
  | case7 cs inner n k right hs _ _ ihl ihr =>
    rw [parse_eq, parse_eq cs, shape_small, hs]
    show (parse (small inner)).bind (fun l => (parse (small right)).map _) = _
    rw [ihl, ihr]
    exact (smallResult_pair k n _ _).symm
  | case8 cs k left right hs _ _ ihl ihr =>
    rw [parse_eq, parse_eq cs, shape_small, hs]
    show (parse (small left)).bind (fun l => (parse (small right)).map _) = _
    rw [ihl, ihr]
    exact (smallResult_pair k 0 _ _).symm

end Decl

namespace Inference

theorem respell_fold_fold (t : Ty) : (t.respell fold).respell fold = t.respell fold := by
  have h : fold ∘ fold = fold := funext fold_fold
  rw [Ty.respell_respell, h]

/-- **Small letters** are a spelling of declarations. -/
theorem spelling_fold : Spelling fold where
  fold := fold_fold
  reads text := by
    show Agree fold _ (reading (Decl.parse (fold text).toList)) (reading (Decl.parse text.toList))
    rw [toList_fold, ← Decl.small, Decl.parse_small]
    rcases Decl.parse text.toList with e | t
    · refine .error (congrArg Fault.declaration ?_)
      cases e <;> simp only [DeclError.respell, fold_fold]
    · exact .ok (respell_fold_fold t)

end Inference

end SsaTypes
