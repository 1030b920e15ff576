/-
SsaTypes/Proofs/TagCase.lean

The case of letters in the words of tags.

The tag of a parameter is read in any case of letters, and so is the name in it.  Hence
it stands at the same place in a comment and in the comment in small letters,

    locate (.param name) (small cs) = locate (.param name) cs.

`@var` and `@return` are read as written: what is found does not change if the words of
tags are spelled anew and those in small letters, of the tag that is looked for, stay the
only ones (`locate_recased`).  But `@VAR` is no tag (`capitalTag_unseen`).
-/
import SsaTypes.DocComment
import SsaTypes.Proofs.SmallLetters

namespace SsaTypes

open Text Decl

/-! ### Blanks and word characters -/

namespace Text

theorem isBlank_of_letter {c : Char} (h : 65 ≤ c.toNat ∧ c.toNat ≤ 122) : isBlank c = false := by
  simp only [isBlank, blankRanges, List.any_cons, List.any_nil]
  grind

theorem isBlank_toLower (c : Char) : isBlank c.toLower = isBlank c := by
  obtain h | ⟨hc, hlower⟩ := toLower_cases c
  · rw [h]
  · rw [isBlank_of_letter (by omega), isBlank_of_letter (by omega)]

theorem isWordChar_of_isAlpha {c : Char} (h : c.isAlpha = true) : isWordChar c = true := by
  obtain hc | hc := (isAlpha_iff c).1 h
  · exact List.any_eq_true.2 ⟨(0x41, 0x5a), by decide, by grind⟩
  · exact List.any_eq_true.2 ⟨(0x61, 0x7a), by decide, by grind⟩

theorem isWordChar_toLower (c : Char) : isWordChar c.toLower = isWordChar c := by
  obtain h | ⟨hc, hlower⟩ := toLower_cases c
  · rw [h]
  · rw [isWordChar_of_isAlpha ((isAlpha_iff c).2 (.inl hc)),
      isWordChar_of_isAlpha ((isAlpha_iff _).2 (.inr hlower))]

end Text

namespace DocComment

/-! ### Comments in small letters -/

section Runs

variable {p : Char → Bool} (hp : ∀ c, p c.toLower = p c) (cs : List Char)
include hp

theorem takeWhile_small : (small cs).takeWhile p = small (cs.takeWhile p) := by
  have h : p ∘ Char.toLower = p := funext hp
  rw [small, List.takeWhile_map, h, small]

theorem dropWhile_small : (small cs).dropWhile p = small (cs.dropWhile p) := by
  have h : p ∘ Char.toLower = p := funext hp
  rw [small, List.dropWhile_map, h, small]

end Runs

theorem isEmpty_small (cs : List Char) : (small cs).isEmpty = cs.isEmpty :=
  List.isEmpty_map

theorem length_small (cs : List Char) : (small cs).length = cs.length :=
  List.length_map _

theorem blanksThenWord?_small (cs : List Char) :
    blanksThenWord? (small cs) = (blanksThenWord? cs).map (Prod.map id small) := by
  have htake := takeWhile_small (p := fun c => !isBlank c) fun c => congrArg not (isBlank_toLower c)
  have hdrop := dropWhile_small (p := fun c => !isBlank c) fun c => congrArg not (isBlank_toLower c)
  simp only [blanksThenWord?, takeWhile_small isBlank_toLower, dropWhile_small isBlank_toLower,
    htake, hdrop, isEmpty_small, length_small]
  split <;> rfl

/-- Comments that differ in the case of letters have their first words at the same place. -/
theorem place_eq_of_small_eq {cs ds : List Char} (h : small cs = small ds) :
    (blanksThenWord? cs).map Prod.fst = (blanksThenWord? ds).map Prod.fst := by
  have hplace (cs : List Char) :
      (blanksThenWord? (small cs)).map Prod.fst = (blanksThenWord? cs).map Prod.fst := by
    rw [blanksThenWord?_small, Option.map_map]
    rfl
  rw [← hplace cs, h, hplace ds]

/-! ### Tags of parameters -/

theorem afterWord?_small (word cs : List Char) :
    afterWord? Char.toLower word (small cs) = (afterWord? Char.toLower word cs).map small := by
  induction word generalizing cs with
  | nil => rfl
  | cons w word ih =>
    cases cs with
    | nil => rfl
    | cons c cs =>
      rw [small_cons, afterWord?, afterWord?, toLower_toLower, ih]
      split <;> rfl

/-- A tag of a parameter with its name in small letters. -/
def ParamTag.small (p : ParamTag) : ParamTag :=
  { p with name := Decl.small p.name }

theorem paramAt?_small (cs : List Char) :
    paramAt? (small cs) = (paramAt? cs).map ParamTag.small := by
  rw [paramAt?, paramAt?, afterWord?_small]
  cases afterWord? Char.toLower paramTag cs with
  | none => rfl
  | some rest =>
    rw [Option.map_some, Option.bind_some, Option.bind_some, blanksThenWord?_small]
    cases blanksThenWord? rest with
    | none => rfl
    | some r =>
      obtain ⟨type, after⟩ := r
      simp only [Option.map_some, Option.bind_some, Prod.map, id,
        takeWhile_small isBlank_toLower, dropWhile_small isBlank_toLower]
      rcases after.takeWhile isBlank with - | ⟨b, bs⟩
      · rfl
      · rcases after.dropWhile isBlank with - | ⟨c, more⟩
        · rfl
        · by_cases hc : c = '$'
          · obtain rfl := hc
            have hdollar : small ('$' :: more) = '$' :: small more := rfl
            simp only [hdollar, small_cons, takeWhile_small isWordChar_toLower, isEmpty_small,
              length_small, List.length_cons]
            split <;> rfl
          · have hc' : c.toLower ≠ '$' := mt (toLower_eq_iff (by decide)).1 hc
            rw [small_cons, small_cons]
            split
            · next h => exact absurd (List.cons.inj h).1 hc'
            · split
              · next h => exact absurd (List.cons.inj h).1 hc
              · rfl

theorem paramTags_small (skip : Nat) (cs : List Char) :
    paramTags skip (small cs) = (paramTags skip cs).map ParamTag.small := by
  induction cs generalizing skip with
  | nil => rfl
  | cons c cs ih =>
    have hlater (skip : Nat) :
        (paramTags skip (small cs)).map (fun p => { p with type := p.type.shift 1 }) =
          ((paramTags skip cs).map fun p => { p with type := p.type.shift 1 }).map
            ParamTag.small := by
      rw [ih, List.map_map, List.map_map]
      rfl
    cases skip with
    | succ n => exact hlater n
    | zero =>
      have hat : paramAt? (c.toLower :: small cs) = (paramAt? (c :: cs)).map ParamTag.small :=
        paramAt?_small (c :: cs)
      rw [small_cons, paramTags, paramTags, hat]
      cases paramAt? (c :: cs) with
      | none => exact hlater 0
      | some p => exact congrArg (p.small :: ·) (hlater (p.length - 1))

/-- **Tags of parameters** stand at the same places in the comment in small letters. -/
theorem locate_param_small (name : String) (cs : List Char) :
    locate (.param name) (small cs) = locate (.param name) cs := by
  have hname : (fun p : ParamTag => sameName (String.ofList p.name) name) ∘ ParamTag.small =
      fun p => sameName (String.ofList p.name) name := by
    funext p
    show sameName (String.ofList (small p.name)) name = _
    rw [ofList_small, sameName, fold_fold, sameName]
  rw [locate, locate, paramTags_small, List.find?_map, hname, Option.map_map]
  rfl

/-! ### Tags with a type alone -/

theorem afterWord?_id {word cs rest : List Char} :
    afterWord? id word cs = some rest ↔ cs = word ++ rest := by
  induction word generalizing cs with
  | nil => exact ⟨fun h => Option.some.inj h, fun h => congrArg some h⟩
  | cons w word ih =>
    cases cs with
    | nil => exact ⟨nofun, nofun⟩
    | cons c cs =>
      rw [afterWord?, List.cons_append, List.cons_eq_cons, ← ih]
      split
      · next h => exact (and_iff_right h).symm
      · next h => exact iff_of_false nofun fun h' => h h'.1

theorem typeAt?_append (tag rest : List Char) :
    typeAt? tag (tag ++ rest) =
      ((blanksThenWord? rest).map Prod.fst).map (Span.shift · tag.length) := by
  rw [typeAt?, afterWord?_id.2 rfl, Option.bind_some, Option.map_map]
  rfl

theorem typeAt?_eq_none {tag cs : List Char} (h : ¬tag <+: cs) : typeAt? tag cs = none := by
  have hword : afterWord? id tag cs = none := by
    rw [Option.eq_none_iff_forall_ne_some]
    intro rest hrest
    exact h ⟨rest, (afterWord?_id.1 hrest).symm⟩
  rw [typeAt?, hword, Option.bind_none]

/-- A tag is at the start of two comments that differ in the case of letters only, with its type
at one place, if it is spelled in the same way in both. -/
theorem typeAt?_congr {tag cs ds : List Char} (h : small cs = small ds)
    (htag : tag <+: cs ↔ tag <+: ds) : typeAt? tag cs = typeAt? tag ds := by
  by_cases hcs : tag <+: cs
  · obtain ⟨rest, rfl⟩ := hcs
    obtain ⟨rest', rfl⟩ := htag.1 ⟨rest, rfl⟩
    have hrest : small rest = small rest' := by
      rw [small, List.map_append, small, List.map_append] at h
      exact List.append_cancel_left h
    rw [typeAt?_append, typeAt?_append, place_eq_of_small_eq hrest]
  · rw [typeAt?_eq_none hcs, typeAt?_eq_none (mt htag.2 hcs)]

/-- The first tag is at one place in two comments that differ in the case of letters only, if it
is spelled at the same places in both. -/
theorem findType?_congr {tag cs ds : List Char} (h : small cs = small ds)
    (htag : ∀ n, tag <+: cs.drop n ↔ tag <+: ds.drop n) : findType? tag cs = findType? tag ds := by
  induction cs generalizing ds with
  | nil =>
    obtain rfl : ds = [] := List.map_eq_nil_iff.1 h.symm
    rfl
  | cons c cs ih =>
    obtain ⟨d, ds, rfl, -, hds⟩ := List.map_eq_cons_iff.1 h.symm
    rw [findType?, findType?, typeAt?_congr h (htag 0), ih hds.symm fun n => htag (n + 1)]

/-- A tag that is found is spelled in the comment. -/
theorem infix_of_findType? {tag cs : List Char} {s : Span} (h : findType? tag cs = some s) :
    tag <:+: cs := by
  induction cs generalizing s with
  | nil => cases h
  | cons c cs ih =>
    by_cases hat : tag <+: c :: cs
    · exact hat.isInfix
    · rw [findType?, typeAt?_eq_none hat] at h
      obtain ⟨s', hs', -⟩ := Option.map_eq_some_iff.1 h
      exact (ih hs').trans (List.suffix_cons c cs).isInfix

end DocComment

/-! ### Words spelled anew -/

/-- The word of a tag, in small letters. -/
def DocTag.word : DocTag → List Char
  | .var => "@var".toList
  | .returned => "@return".toList
  | .param _ => DocComment.paramTag

/-- Two spellings of the word of a tag, equal up to the case of letters. -/
def SameTagWord (w w' : List Char) : Prop :=
  small w = small w' ∧ ∃ tag : DocTag, small w = tag.word

/-- Two spellings of the word of a tag, both or none of which are its own to a tag that is read
as written. -/
def DocTag.ReadsAlike (tag : DocTag) (w w' : List Char) : Prop :=
  SameTagWord w w' ∧ ((∃ name, tag = .param name) ∨ (w = tag.word ↔ w' = tag.word))

/-- Comments that are the same but for words, each of which has been replaced by another. -/
inductive Recased (R : List Char → List Char → Prop) : List Char → List Char → Prop
  | nil : Recased R [] []
  | keep {cs ds : List Char} (c : Char) : Recased R cs ds → Recased R (c :: cs) (c :: ds)
  | word {w w' cs ds : List Char} : R w w' → Recased R cs ds → Recased R (w ++ cs) (w' ++ ds)

namespace DocTag

/-- Only the first character of a word is `@`. -/
theorem word_eq_cons (tag : DocTag) : ∃ l, tag.word = '@' :: l ∧ '@' ∉ l := by
  cases tag with
  | var => exact ⟨"var".toList, rfl, by decide⟩
  | returned => exact ⟨"return".toList, rfl, by decide⟩
  | param name => exact ⟨"param".toList, rfl, by decide⟩

theorem small_word (tag : DocTag) : small tag.word = tag.word := by
  cases tag <;> rfl

/-- No word begins another. -/
theorem word_eq_of_prefix {tag tag' : DocTag} (h : tag.word <+: tag'.word) :
    tag.word = tag'.word := by
  have hwords : ∀ w ∈ ["@var".toList, "@return".toList, DocComment.paramTag],
      ∀ w' ∈ ["@var".toList, "@return".toList, DocComment.paramTag], w <+: w' → w = w' := by
    decide
  have hmem (tag : DocTag) :
      tag.word ∈ ["@var".toList, "@return".toList, DocComment.paramTag] := by
    cases tag with
    | var => exact List.mem_cons_self
    | returned => exact List.mem_cons_of_mem _ List.mem_cons_self
    | param name => exact List.mem_cons_of_mem _ (List.mem_cons_of_mem _ List.mem_cons_self)
  exact hwords _ (hmem tag) _ (hmem tag') h

end DocTag

namespace SameTagWord

variable {w w' : List Char}

theorem symm (h : SameTagWord w w') : SameTagWord w' w :=
  ⟨h.1.symm, h.1 ▸ h.2⟩

theorem length_eq (h : SameTagWord w w') : w.length = w'.length := by
  rw [← DocComment.length_small w, h.1, DocComment.length_small]

/-- Only the first character of a spelling is `@`. -/
theorem eq_cons (h : SameTagWord w w') : ∃ l, w = '@' :: l ∧ '@' ∉ l := by
  obtain ⟨-, tag, htag⟩ := h
  obtain ⟨m, hm, hat⟩ := tag.word_eq_cons
  obtain ⟨c, l, rfl, hc, hl⟩ := List.map_eq_cons_iff.1 (htag.trans hm)
  obtain rfl := (toLower_eq_iff (by decide)).1 hc
  refine ⟨l, rfl, fun hmem => hat ?_⟩
  rw [← hl]
  exact List.mem_map_of_mem (f := Char.toLower) hmem

/-- A word is at the start of a text that begins with a spelling of a word if this is how the
word is spelled. -/
theorem word_prefix_append_iff (h : SameTagWord w w') (tag : DocTag) (cs : List Char) :
    tag.word <+: w ++ cs ↔ w = tag.word := by
  obtain ⟨-, tag', htag'⟩ := h
  have hlen : w.length = tag'.word.length := by
    rw [← htag', DocComment.length_small]
  have hsmall {u v : List Char} (h : u <+: v) : small u <+: small v := h.map Char.toLower
  constructor
  · intro hpre
    obtain hle | hle := Nat.le_total tag.word.length w.length
    · have hw := List.prefix_of_prefix_length_le hpre (List.prefix_append w cs) hle
      have heq : tag.word = tag'.word := by
        refine DocTag.word_eq_of_prefix ?_
        rw [← htag', ← tag.small_word]
        exact hsmall hw
      exact (hw.eq_of_length (by rw [heq, hlen])).symm
    · have hw := List.prefix_of_prefix_length_le (List.prefix_append w cs) hpre hle
      have heq : tag'.word = tag.word := by
        refine DocTag.word_eq_of_prefix ?_
        rw [← htag', ← tag.small_word]
        exact hsmall hw
      exact hw.eq_of_length (by rw [hlen, heq])
  · rintro rfl
    exact List.prefix_append _ cs

end SameTagWord

namespace Recased

variable {R R' : List Char → List Char → Prop} {cs ds : List Char}

theorem mono (hR : ∀ w w', R w w' → R' w w') (h : Recased R cs ds) : Recased R' cs ds := by
  induction h with
  | nil => exact .nil
  | keep c _ ih => exact .keep c ih
  | word hw _ ih => exact .word (hR _ _ hw) ih

theorem refl (cs : List Char) : Recased R cs cs := by
  induction cs with
  | nil => exact .nil
  | cons c cs ih => exact .keep c ih

/-- The words in a comment after a part that stays. -/
theorem append_left (u : List Char) (h : Recased R cs ds) : Recased R (u ++ cs) (u ++ ds) := by
  induction u with
  | nil => exact h
  | cons c u ih => exact .keep c ih

theorem small_eq (h : Recased SameTagWord cs ds) : small cs = small ds := by
  induction h with
  | nil => rfl
  | keep c _ ih => exact congrArg (c.toLower :: ·) ih
  | word hw _ ih =>
    rw [small, List.map_append, ← small, hw.1, ← small, ih, small, small, small, ← List.map_append]

/-- Letters at the start of a comment stay there, since words begin with `@`. -/
theorem prefix_iff (h : Recased SameTagWord cs ds) {l : List Char} (hl : '@' ∉ l) :
    l <+: cs ↔ l <+: ds := by
  induction h generalizing l with
  | nil => exact Iff.rfl
  | keep c _ ih =>
    cases l with
    | nil => exact iff_of_true List.nil_prefix List.nil_prefix
    | cons a l =>
      rw [List.cons_prefix_cons, List.cons_prefix_cons, ih fun h => hl (List.mem_cons_of_mem a h)]
  | word hw _ ih =>
    cases l with
    | nil => exact iff_of_true List.nil_prefix List.nil_prefix
    | cons a l =>
      have ha : a ≠ '@' := fun h => hl (h ▸ List.mem_cons_self)
      obtain ⟨m, rfl, -⟩ := hw.eq_cons
      obtain ⟨m', rfl, -⟩ := hw.symm.eq_cons
      rw [List.cons_append, List.cons_append, List.cons_prefix_cons, List.cons_prefix_cons]
      exact iff_of_false (fun h => ha h.1) fun h => ha h.1

end Recased

namespace DocComment

/-- A word does not begin among the letters of another. -/
theorem word_prefix_drop_append_iff {tag : DocTag} {l l' cs ds : List Char} (hl : '@' ∉ l)
    (hl' : '@' ∉ l') (hlen : l.length = l'.length)
    (h : ∀ n, tag.word <+: cs.drop n ↔ tag.word <+: ds.drop n) (n : Nat) :
    tag.word <+: (l ++ cs).drop n ↔ tag.word <+: (l' ++ ds).drop n := by
  induction l generalizing l' n with
  | nil =>
    obtain rfl := List.eq_nil_of_length_eq_zero hlen.symm
    exact h n
  | cons a l ih =>
    obtain ⟨a', l', rfl⟩ := List.exists_cons_of_length_eq_add_one hlen.symm
    simp only [List.mem_cons, not_or] at hl hl'
    cases n with
    | zero =>
      obtain ⟨m, hm, -⟩ := tag.word_eq_cons
      rw [hm, List.drop_zero, List.drop_zero, List.cons_append, List.cons_append,
        List.cons_prefix_cons, List.cons_prefix_cons]
      exact iff_of_false (fun h => hl.1 h.1) fun h => hl'.1 h.1
    | succ n => exact ih hl.2 hl'.2 (Nat.succ.inj hlen) n

/-- A tag that is read as written is spelled at the same places. -/
theorem word_prefix_drop_iff {tag : DocTag} (htag : ∀ name, tag ≠ .param name) {cs ds : List Char}
    (h : Recased tag.ReadsAlike cs ds) (n : Nat) :
    tag.word <+: cs.drop n ↔ tag.word <+: ds.drop n := by
  induction h generalizing n with
  | nil => exact Iff.rfl
  | keep c h ih =>
    cases n with
    | zero =>
      obtain ⟨l, hl, hat⟩ := tag.word_eq_cons
      rw [hl, List.drop_zero, List.drop_zero, List.cons_prefix_cons, List.cons_prefix_cons,
        (h.mono fun _ _ hw => hw.1).prefix_iff hat]
    | succ n => exact ih n
  | @word w w' cs ds hw h ih =>
    obtain ⟨hsame, ⟨name, hname⟩ | hword⟩ := hw
    · exact absurd hname (htag name)
    · cases n with
      | zero =>
        rw [List.drop_zero, List.drop_zero, hsame.word_prefix_append_iff,
          hsame.symm.word_prefix_append_iff, hword]
      | succ n =>
        obtain ⟨l, rfl, hl⟩ := hsame.eq_cons
        obtain ⟨l', rfl, hl'⟩ := hsame.symm.eq_cons
        exact word_prefix_drop_append_iff hl hl' (Nat.succ.inj hsame.length_eq) ih n

theorem fold_ofList_slice (s : Span) (cs : List Char) :
    fold (String.ofList (s.slice cs)) = String.ofList (s.slice (small cs)) := by
  rw [← ofList_small, Span.slice, Span.slice, small, small, List.map_take, List.map_drop]

/-- **Tags in any case of letters.**  If words of tags are spelled anew, without a change to which
of them a tag that is read as written takes for its own, the type stands at the same place.  The
tag of a parameter is taken in any spelling, the others are not seen unless their word is there
in small letters. -/
theorem locate_recased (tag : DocTag) {text text' : String}
    (h : Recased tag.ReadsAlike text.toList text'.toList) :
    locate tag text.toList = locate tag text'.toList ∧
      (extract tag (some text)).map fold = (extract tag (some text')).map fold ∧
      ((∃ name, tag = .param name) ∨ extract tag (some text) = none ∨
        tag.word <:+: text.toList) := by
  have hsmall := (h.mono fun _ _ hw => hw.1).small_eq
  have hlocate : locate tag text.toList = locate tag text'.toList := by
    cases tag with
    | var => exact findType?_congr hsmall (word_prefix_drop_iff (by simp) h)
    | returned => exact findType?_congr hsmall (word_prefix_drop_iff (by simp) h)
    | param name => rw [← locate_param_small, hsmall, locate_param_small]
  refine ⟨hlocate, ?_, ?_⟩
  · rw [extract, extract, Option.bind_some, Option.bind_some, hlocate, Option.map_map,
      Option.map_map]
    refine congrArg (Option.map · _) (funext fun s => ?_)
    show fold (String.ofList (s.slice _)) = fold (String.ofList (s.slice _))
    rw [fold_ofList_slice, hsmall, fold_ofList_slice]
  · cases hfound : locate tag text.toList with
    | none => exact .inr (.inl (by rw [extract, Option.bind_some, hfound, Option.map_none]))
    | some s =>
      cases tag with
      | var => exact .inr (.inr (infix_of_findType? hfound))
      | returned => exact .inr (.inr (infix_of_findType? hfound))
      | param name => exact .inl ⟨name, rfl⟩

/-- Two tags `@return` and other tags, the second of the two spelled in small letters. -/
def returnTags : String :=
  "@RETURN int @return Row[] @Param bool $On @var Foo"

/-- The same tags, each but that one spelled in another way. -/
def returnTagsRespelled : String :=
  "@Return int @return Row[] @PARAM bool $On @VAR Foo"

/-- In both, the second tag counts. -/
theorem locate_recased_returnTags :
    Recased DocTag.returned.ReadsAlike returnTags.toList returnTagsRespelled.toList ∧
      locate .returned returnTags.toList = some ⟨20, 5⟩ ∧
        locate .returned returnTagsRespelled.toList = some ⟨20, 5⟩ := by
  have hword {w w' : String} (tag : DocTag) (hsmall : small w.toList = tag.word)
      (hsmall' : small w'.toList = tag.word) (hw : w.toList ≠ DocTag.returned.word)
      (hw' : w'.toList ≠ DocTag.returned.word) :
      DocTag.returned.ReadsAlike w.toList w'.toList :=
    ⟨⟨hsmall.trans hsmall'.symm, tag, hsmall⟩, .inr (iff_of_false hw hw')⟩
  have htags : returnTags.toList = "@RETURN".toList ++ (" int @return Row[] ".toList ++
      ("@Param".toList ++ (" bool $On ".toList ++ ("@var".toList ++ " Foo".toList)))) := by
    decide +kernel
  have hrespelled : returnTagsRespelled.toList =
      "@Return".toList ++ (" int @return Row[] ".toList ++
        ("@PARAM".toList ++ (" bool $On ".toList ++ ("@VAR".toList ++ " Foo".toList)))) := by
    decide +kernel
  have h : Recased DocTag.returned.ReadsAlike returnTags.toList returnTagsRespelled.toList := by
    rw [htags, hrespelled]
    refine .word (hword .returned (by decide) (by decide) (by decide) (by decide)) ?_
    refine .append_left _ ?_
    refine .word (hword (.param "on") (by decide) (by decide) (by decide) (by decide)) ?_
    refine .append_left _ ?_
    exact .word (hword .var (by decide) (by decide) (by decide) (by decide)) (.refl _)
  have hfound : locate .returned returnTags.toList = some ⟨20, 5⟩ := by decide +kernel
  exact ⟨h, hfound, (locate_recased .returned h).1 ▸ hfound⟩

/-- **A tag in capitals** is overlooked, but for the tag of a parameter. -/
theorem capitalTag_unseen :
    (Recased SameTagWord "@var int".toList "@VAR int".toList ∧
      extract .var (some "@var int") = some "int" ∧ extract .var (some "@VAR int") = none) ∧
    (Recased SameTagWord "@return int".toList "@Return int".toList ∧
      extract .returned (some "@return int") = some "int" ∧
        extract .returned (some "@Return int") = none) ∧
    extract (.param "id") (some "@PARAM int $ID") = some "int" := by
  refine ⟨⟨?_, by decide +kernel, by decide +kernel⟩, ⟨?_, by decide +kernel, by decide +kernel⟩,
    by decide +kernel⟩
  · show Recased _ ("@var".toList ++ " int".toList) ("@VAR".toList ++ " int".toList)
    exact .word ⟨by decide, .var, by decide⟩ (.refl _)
  · show Recased _ ("@return".toList ++ " int".toList) ("@Return".toList ++ " int".toList)
    exact .word ⟨by decide, .returned, by decide⟩ (.refl _)

end DocComment

end SsaTypes
