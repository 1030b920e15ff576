/-
SsaTypes/Proofs/ByteOffsets.lean

The byte offsets that the two scans answer with.  They are those of the characters that
the same scans find when they count characters,

    closeOffset cs = (closeIndex cs).map (byteOffset cs),

and these are the parenthesis that closes the first group (`ClosesFirst`) and the leftmost
combinator outside of groups (`FirstOutside`), said with the numbers of parentheses alone:
a text is `Balanced` if it has as many of both kinds and none of its prefixes has more
closing ones.

Such a character is one byte wide, so the text can be cut before and after it.
`combinedShape?` takes a text apart with the bounds of each access checked, and no check
fails (`combinedShape?_eq`).
-/
import SsaTypes.Decl.Parser
import SsaTypes.Proofs.Scan

namespace SsaTypes.Decl

/-! ### Offsets and numbers of characters -/

theorem size_append (u v : List Char) : size (u ++ v) = size u + size v := by
  induction u with
  | nil => exact (Nat.zero_add _).symm
  | cons c u ih => rw [List.cons_append, size, size, ih, Nat.add_assoc]

theorem size_eq_utf8ByteSize (cs : List Char) : size cs = (String.ofList cs).utf8ByteSize := by
  induction cs with
  | nil => rfl
  | cons c cs ih =>
    rw [size, ih, ← List.singleton_append, String.ofList_append, String.utf8ByteSize_append,
      ← String.singleton_eq_ofList, String.utf8ByteSize_singleton]

/-- The byte offset of the character with a number. -/
def byteOffset (cs : List Char) (i : Nat) : Nat :=
  size (cs.take i)

/-- The number of the character that closes the first group. -/
def closeIndex (cs : List Char) : Option Nat :=
  closeFrom charMark (fun _ => 1) 0 0 cs

/-- The number of the leftmost combinator outside of groups. -/
def splitIndex (cs : List Char) : Split :=
  splitFrom charMark (fun _ => 1) 0 0 cs

/-- An outcome with its place counted in another way. -/
def Split.map (f : Nat → Nat) : Split → Split
  | .unmatched => .unmatched
  | .absent => .absent
  | .found n => .found (f n)

theorem byteOffset_length (u v : List Char) : byteOffset (u ++ v) u.length = size u := by
  rw [byteOffset, List.take_left]

/-- A scan that has run over `u` counts bytes or characters from there on. -/
theorem closeFrom_byteOffset (d : Nat) (u cs : List Char) :
    closeFrom charMark Char.utf8Size d (size u) cs =
      (closeFrom charMark (fun _ => 1) d u.length cs).map (byteOffset (u ++ cs)) := by
  induction cs generalizing d u with
  | nil => rfl
  | cons c cs ih =>
    have step (d : Nat) : closeFrom charMark Char.utf8Size d (size u + c.utf8Size) cs =
        (closeFrom charMark (fun _ => 1) d (u.length + 1) cs).map (byteOffset (u ++ c :: cs)) := by
      have h := ih d (u ++ [c])
      rwa [size_append, List.length_append, List.append_assoc] at h
    cases hc : charMark c with
    | closes =>
      rcases d with - | - | d <;> simp only [closeFrom, hc, step, Option.map_none, Option.map_some]
      rw [byteOffset_length]
    | _ => simp only [closeFrom, hc, step]

theorem splitFrom_byteOffset (d : Nat) (u cs : List Char) :
    splitFrom charMark Char.utf8Size d (size u) cs =
      (splitFrom charMark (fun _ => 1) d u.length cs).map (byteOffset (u ++ cs)) := by
  induction cs generalizing d u with
  | nil => rfl
  | cons c cs ih =>
    have step (d : Nat) : splitFrom charMark Char.utf8Size d (size u + c.utf8Size) cs =
        (splitFrom charMark (fun _ => 1) d (u.length + 1) cs).map (byteOffset (u ++ c :: cs)) := by
      have h := ih d (u ++ [c])
      rwa [size_append, List.length_append, List.append_assoc] at h
    cases hc : charMark c with
    | closes => rcases d with - | d <;> simp only [splitFrom, hc, step, Split.map]
    | joins =>
      simp only [splitFrom, hc, step]
      split
      · rw [Split.map, byteOffset_length]
      · rfl
    | _ => simp only [splitFrom, hc, step]

/-- **Counting bytes and counting characters**, a scan finds the same character. -/
theorem closeOffset_eq_closeIndex (cs : List Char) :
    closeOffset cs = (closeIndex cs).map (byteOffset cs) := by
  rw [closeOffset, closeFrom_utf8]
  exact closeFrom_byteOffset 0 [] cs

theorem splitOffset_eq_splitIndex (cs : List Char) :
    splitOffset cs = (splitIndex cs).map (byteOffset cs) := by
  rw [splitOffset, splitFrom_utf8]
  exact splitFrom_byteOffset 0 [] cs

/-- Characters beyond ASCII take more than one byte. -/
example : closeOffset "(é|ü)&Ω".toList = some 6 ∧ closeIndex "(é|ü)&Ω".toList = some 4 := by
  decide

/-! ### Groups by the numbers of parentheses -/

/-- Every group that is opened is closed, and none is closed that is not open. -/
structure Balanced (u : List Char) : Prop where
  count_eq : u.count ')' = u.count '('
  count_le : ∀ p, p <+: u → p.count ')' ≤ p.count '('

/-- Where a combinator stands, a group is open. -/
def Unjoined (u : List Char) : Prop :=
  ∀ p c, p ++ [c] <+: u → c = '|' ∨ c = '&' → p.count ')' < p.count '('

theorem balanced_iff {u : List Char} : Balanced u ↔ nesting true 0 u = some 0 := by
  simp only [nesting_iff, Nat.zero_add]
  exact ⟨fun h => ⟨h.count_eq.symm, h.count_le, nofun⟩, fun h => ⟨h.1.symm, h.2.1⟩⟩

theorem balanced_unjoined_iff {u : List Char} :
    Balanced u ∧ Unjoined u ↔ nesting false 0 u = some 0 := by
  simp only [nesting_iff, Nat.zero_add]
  exact ⟨fun h => ⟨h.1.count_eq.symm, h.1.count_le, fun _ => h.2⟩,
    fun h => ⟨⟨h.1.symm, h.2.1⟩, h.2.2 trivial⟩⟩

/-! ### What the scans find -/

/-- The parenthesis that closes the first group stands at a byte offset. -/
def ClosesFirst (cs : List Char) (n : Nat) : Prop :=
  ∃ u inner v, cs = u ++ '(' :: (inner ++ ')' :: v) ∧ ('(' ∉ u ∧ ')' ∉ u) ∧ Balanced inner ∧
    n = size (u ++ '(' :: inner)

/-- A character stands at a byte offset outside of all groups, and no combinator before it
does. -/
def FirstOutside (c : Char) (cs : List Char) (n : Nat) : Prop :=
  ∃ u v, cs = u ++ c :: v ∧ Balanced u ∧ Unjoined u ∧ n = size u

/-- Following the groups of a text comes to its end, or to a character that it stops at. -/
theorem nesting_cases (joins : Bool) (d : Nat) (cs : List Char) :
    (∃ e, nesting joins d cs = some e) ∨
      ∃ u c v, cs = u ++ c :: v ∧ nesting joins d u = some 0 ∧ nesting joins 0 [c] = none := by
  induction cs generalizing d with
  | nil => exact .inl ⟨d, rfl⟩
  | cons c cs ih =>
    cases hc : nesting joins d [c] with
    | none =>
      obtain rfl : d = 0 := by
        rcases d with - | d
        · rfl
        · cases hmark : charMark c <;> simp [nesting, hmark] at hc
      exact .inr ⟨[], c, cs, rfl, rfl, hc⟩
    | some d' =>
      have step (w : List Char) : nesting joins d (c :: w) = nesting joins d' w := by
        rw [← List.singleton_append, nesting_append, hc, Option.bind_some]
      obtain ⟨e, he⟩ | ⟨u, x, v, rfl, hu, hx⟩ := ih d'
      · exact .inl ⟨e, (step cs).trans he⟩
      · exact .inr ⟨c :: u, x, v, rfl, (step u).trans hu, hx⟩

/-- What it stops at is a closing parenthesis or, without `joins`, a combinator. -/
theorem nesting_singleton {joins : Bool} {c : Char} (h : nesting joins 0 [c] = none) :
    c = ')' ∨ joins = false ∧ (c = '|' ∨ c = '&') := by
  cases hmark : charMark c with
  | closes => exact .inl (charMark_closes.1 hmark)
  | joins =>
    refine .inr ⟨?_, charMark_joins.1 hmark⟩
    cases joins
    · rfl
    · simp [nesting, hmark] at h
  | _ => simp [nesting, hmark] at h

/-- The scan for a closing parenthesis runs over a text without parentheses. -/
theorem closeFrom_of_not_mem {u : List Char} (h : '(' ∉ u ∧ ')' ∉ u) (d o : Nat) (v : List Char) :
    closeFrom charMark Char.utf8Size d o (u ++ v) =
      closeFrom charMark Char.utf8Size d (o + size u) v := by
  induction u generalizing o with
  | nil => rfl
  | cons c u ih =>
    simp only [List.mem_cons, not_or] at h
    rw [List.cons_append, size, ← Nat.add_assoc, ← ih ⟨h.1.2, h.2.2⟩]
    cases hc : charMark c with
    | opens => exact absurd (charMark_opens.1 hc).symm h.1.1
    | closes => exact absurd (charMark_closes.1 hc).symm h.2.1
    | _ => simp only [closeFrom, hc]

/-- A text has no parentheses, or a first one. -/
theorem exists_first_paren (cs : List Char) : ('(' ∉ cs ∧ ')' ∉ cs) ∨
    ∃ u c v, cs = u ++ c :: v ∧ ('(' ∉ u ∧ ')' ∉ u) ∧ (c = '(' ∨ c = ')') := by
  induction cs with
  | nil => exact .inl ⟨List.not_mem_nil, List.not_mem_nil⟩
  | cons c cs ih =>
    by_cases hc : c = '(' ∨ c = ')'
    · exact .inr ⟨[], c, cs, rfl, ⟨List.not_mem_nil, List.not_mem_nil⟩, hc⟩
    · have hcons {u : List Char} (hu : '(' ∉ u ∧ ')' ∉ u) : '(' ∉ c :: u ∧ ')' ∉ c :: u := by
        grind
      obtain h | ⟨u, x, v, rfl, hu, hx⟩ := ih
      · exact .inl (hcons h)
      · exact .inr ⟨c :: u, x, v, rfl, hcons hu, hx⟩

/-- The scan for a closing parenthesis takes the one that closes the first group. -/
theorem closeOffset_of_closesFirst {cs : List Char} {n : Nat} (h : ClosesFirst cs n) :
    closeOffset cs = some n := by
  have hopen : charMark '(' = .opens := rfl
  have hclose : charMark ')' = .closes := rfl
  obtain ⟨u, inner, v, rfl, hu, hinner, rfl⟩ := h
  rw [closeOffset, closeFrom_utf8, closeFrom_of_not_mem hu]
  simp only [closeFrom, hopen, closeFrom_of_nesting (balanced_iff.1 hinner), hclose, size_append,
    size, Nat.zero_add, Nat.add_assoc]

/-- **The closing parenthesis.**  The scan finds the one that closes the first group, and
nothing if there is none. -/
theorem closeOffset_iff {cs : List Char} {n : Nat} :
    closeOffset cs = some n ↔ ClosesFirst cs n := by
  refine ⟨fun h => ?_, closeOffset_of_closesFirst⟩
  obtain hcs | ⟨u, c, w, rfl, hu, rfl | rfl⟩ := exists_first_paren cs
  · rw [closeOffset, closeFrom_utf8, ← List.append_nil cs, closeFrom_of_not_mem hcs] at h
    cases h
  · have hopen : charMark '(' = .opens := rfl
    obtain ⟨e, he⟩ | ⟨inner, x, v, rfl, hinner, hx⟩ := nesting_cases true 0 w
    · rw [closeOffset, closeFrom_utf8, closeFrom_of_not_mem hu, ← List.append_nil w] at h
      simp only [closeFrom, hopen, closeFrom_of_nesting he, reduceCtorEq] at h
    · obtain rfl | ⟨hx, -⟩ := nesting_singleton hx
      · have hfirst : ClosesFirst (u ++ '(' :: (inner ++ ')' :: v)) (size (u ++ '(' :: inner)) :=
          ⟨u, inner, v, rfl, hu, balanced_iff.2 hinner, rfl⟩
        rw [closeOffset_of_closesFirst hfirst] at h
        exact Option.some.inj h ▸ hfirst
      · cases hx
  · have hclose : charMark ')' = .closes := rfl
    rw [closeOffset, closeFrom_utf8, closeFrom_of_not_mem hu] at h
    simp only [closeFrom, hclose, reduceCtorEq] at h

/-- The scan for a combinator refuses a text in which a group is closed that was not opened. -/
theorem splitOffset_unmatched {u : List Char} (h : nesting false 0 u = some 0) (v : List Char) :
    splitOffset (u ++ ')' :: v) = .unmatched := by
  have hclose : charMark ')' = .closes := rfl
  rw [splitOffset, splitFrom_utf8, splitFrom_of_nesting h]
  simp only [splitFrom, hclose]

theorem splitOffset_cases (cs : List Char) :
    splitOffset cs = .absent ∨ ∃ c n, FirstOutside c cs n ∧
      (c = ')' ∧ splitOffset cs = .unmatched ∨
        (c = '|' ∨ c = '&') ∧ splitOffset cs = .found n) := by
  obtain ⟨e, he⟩ | ⟨u, c, v, rfl, hu, hc⟩ := nesting_cases false 0 cs
  · refine .inl ?_
    rw [splitOffset, splitFrom_utf8, ← List.append_nil cs, splitFrom_of_nesting he, splitFrom]
  · obtain ⟨hbalanced, hunjoined⟩ := balanced_unjoined_iff.2 hu
    refine .inr ⟨c, size u, ⟨u, v, rfl, hbalanced, hunjoined, rfl⟩, ?_⟩
    obtain rfl | ⟨-, hc⟩ := nesting_singleton hc
    · exact .inl ⟨rfl, splitOffset_unmatched hu v⟩
    · exact .inr ⟨hc, splitOffset_sign hu (charMark_joins.2 hc) v⟩

/-- **The leftmost combinator.**  The scan finds the first one outside of groups. -/
theorem splitOffset_found_iff {cs : List Char} {n : Nat} :
    splitOffset cs = .found n ↔ ∃ c, (c = '|' ∨ c = '&') ∧ FirstOutside c cs n := by
  constructor
  · intro h
    obtain h' | ⟨c, m, hfirst, ⟨-, h'⟩ | ⟨hc, h'⟩⟩ := splitOffset_cases cs
    · cases h'.symm.trans h
    · cases h'.symm.trans h
    · obtain rfl := Split.found.inj (h'.symm.trans h)
      exact ⟨c, hc, hfirst⟩
  · rintro ⟨c, hc, u, v, rfl, hbalanced, hunjoined, rfl⟩
    exact splitOffset_sign (balanced_unjoined_iff.1 ⟨hbalanced, hunjoined⟩) (charMark_joins.2 hc) v

/-- **Unmatched parentheses.**  The scan refuses a text in which a group is closed, before any
combinator outside of groups, that was not opened. -/
theorem splitOffset_unmatched_iff {cs : List Char} :
    splitOffset cs = .unmatched ↔ ∃ n, FirstOutside ')' cs n := by
  constructor
  · intro h
    obtain h' | ⟨c, n, hfirst, ⟨rfl, -⟩ | ⟨-, h'⟩⟩ := splitOffset_cases cs
    · cases h'.symm.trans h
    · exact ⟨n, hfirst⟩
    · cases h'.symm.trans h
  · rintro ⟨n, u, v, rfl, hbalanced, hunjoined, -⟩
    exact splitOffset_unmatched (balanced_unjoined_iff.1 ⟨hbalanced, hunjoined⟩) v

/-! ### Boundaries -/

/-- A byte offset at which a character begins, or the text ends. -/
def IsBoundary (cs : List Char) (n : Nat) : Prop :=
  (String.Pos.Raw.mk n).IsValid (String.ofList cs)

instance (cs : List Char) (n : Nat) : Decidable (IsBoundary cs n) :=
  inferInstanceAs (Decidable ((String.Pos.Raw.mk n).IsValid (String.ofList cs)))

theorem isBoundary_size (u v : List Char) : IsBoundary (u ++ v) (size u) := by
  refine String.Pos.Raw.isValid_ofList.2 ⟨u.length, ?_⟩
  rw [List.take_left]
  exact size_eq_utf8ByteSize u

/-- A sign is one byte wide, so the text can be cut on both sides of it. -/
theorem isBoundary_around {c : Char} (hc : c.utf8Size = 1) (u v : List Char) :
    IsBoundary (u ++ c :: v) (size u) ∧ IsBoundary (u ++ c :: v) (size u + 1) := by
  refine ⟨isBoundary_size u _, ?_⟩
  have h := isBoundary_size (u ++ [c]) v
  rwa [size_append, size, hc, List.append_assoc] at h

/-! ### Taking a text apart, with checks -/

/-- The part of a text between two byte offsets; `none` if they are no boundaries or out of
order. -/
def slice? (cs : List Char) (start stop : Nat) : Option (List Char) :=
  if IsBoundary cs start ∧ IsBoundary cs stop ∧ start ≤ stop then
    some (cut start (cut stop cs).1).2
  else none

theorem slice?_append (u w v : List Char) :
    slice? (u ++ w ++ v) (size u) (size (u ++ w)) = some w := by
  have hstart : IsBoundary (u ++ w ++ v) (size u) := by
    rw [List.append_assoc]
    exact isBoundary_size u _
  have hle : size u ≤ size (u ++ w) := by
    rw [size_append]
    exact Nat.le_add_right _ _
  rw [slice?, if_pos ⟨hstart, isBoundary_size _ v, hle⟩, cut_size, cut_size]

/-- The bytes of a text are those of the string. -/
theorem utf8_eq_toByteArray (cs : List Char) :
    utf8 cs = (String.ofList cs).toByteArray.data.toList := by
  rw [String.toByteArray_ofList, List.utf8Encode, List.toList_data_toByteArray, utf8]

theorem length_utf8 (cs : List Char) : (utf8 cs).length = size cs := by
  induction cs with
  | nil => rfl
  | cons c cs ih =>
    rw [utf8, List.flatMap_cons, ← utf8, List.length_append, String.length_utf8EncodeChar, ih, size]

/-- The byte of a combinator. -/
def combOfByte? (b : UInt8) : Option Comb :=
  if b = 124 then some .union
  else if b = 38 then some .inter
  else none

theorem combOfByte?_of_plain {b : UInt8} (h : byteMark b = .plain) : combOfByte? b = none := by
  grind [byteMark, combOfByte?]

/-- The first byte of a character is that of a combinator if the character is one. -/
theorem exists_head_utf8EncodeChar (c : Char) :
    ∃ b bs, String.utf8EncodeChar c = b :: bs ∧ combOfByte? b = combOf? c := by
  by_cases h : c.toNat ≤ 127
  · refine ⟨UInt8.ofNat c.toNat, [], ?_, ?_⟩
    · rw [String.utf8EncodeChar]
      exact if_pos h
    · simp only [combOfByte?, combOf?, ← UInt8.toNat_inj, ← Char.toNat_inj, UInt8.toNat_ofNat',
        Nat.mod_eq_of_lt (show c.toNat < 2 ^ 8 by omega)]
      rfl
  · obtain ⟨hbytes, hmark⟩ := utf8EncodeChar_beyond (Nat.lt_of_not_le h)
    obtain ⟨b, bs, hc⟩ := List.exists_cons_of_length_pos (l := String.utf8EncodeChar c)
      (String.length_utf8EncodeChar c ▸ c.utf8Size_pos)
    refine ⟨b, bs, hc, ?_⟩
    have hb : byteMark b = .plain := hbytes b (hc ▸ List.mem_cons_self)
    have hc : charMark c ≠ .joins := by
      rw [hmark]
      decide
    rw [combOfByte?_of_plain hb, combOf?_eq_none hc]

/-- The byte at the offset of a character. -/
theorem exists_getElem?_utf8 (u : List Char) (c : Char) (v : List Char) :
    ∃ b, (utf8 (u ++ c :: v))[size u]? = some b ∧ combOfByte? b = combOf? c := by
  obtain ⟨b, bs, hc, hb⟩ := exists_head_utf8EncodeChar c
  refine ⟨b, ?_, hb⟩
  rw [utf8, List.flatMap_append, ← utf8, List.flatMap_cons, hc, ← length_utf8,
    List.getElem?_append_right (Nat.le_refl _), Nat.sub_self]
  rfl

/-- What follows a group, with the access to its first byte checked. -/
def tailOf? (rest : List Char) : Option Tail :=
  if rest = [] then some .nothing
  else do
    let b ← (utf8 rest)[0]?
    match combOfByte? b with
    | none => return .junk rest
    | some k => return .joined k (← slice? rest 1 (size rest))

/-- `groupShape` with checks. -/
def groupShape? (cs : List Char) : Option Shape :=
  match closeOffset cs with
  | none => some (.refused (.unmatchedParens (String.ofList cs)))
  | some close => do
    let inner ← slice? cs 1 close
    let after ← slice? cs (close + 1) (size cs)
    let tail ← tailOf? (takeBrackets after).2
    return .group inner (takeBrackets after).1 tail

/-- `joinedShape` with checks. -/
def joinedShape? (cs : List Char) : Option Shape :=
  match splitOffset cs with
  | .unmatched => some (.refused (.unmatchedParens (String.ofList cs)))
  | .absent => some (.refused (.missingCombinator (String.ofList cs)))
  | .found 0 => some (.refused (.danglingCombinator (String.ofList cs)))
  | .found pos => do
    let left ← slice? cs 0 pos
    let right ← slice? cs (pos + 1) (size cs)
    let b ← (utf8 cs)[pos]?
    return .joined (if b = 124 then .union else .inter) left right

/-- The shape of a text that holds a combinator or a parenthesis, with checks. -/
def combinedShape? (cs : List Char) : Option Shape :=
  if cs.head? = some '(' then groupShape? cs else joinedShape? cs

theorem utf8Size_of_combOf? {c : Char} {k : Comb} (h : combOf? c = some k) : c.utf8Size = 1 := by
  have hc : c = '|' ∨ c = '&' := by grind [combOf?]
  obtain rfl | rfl := hc <;> rfl

theorem slice?_after {c : Char} (hc : c.utf8Size = 1) (u v : List Char) :
    slice? (u ++ c :: v) (size u + 1) (size (u ++ c :: v)) = some v := by
  have h := slice?_append (u ++ [c]) v []
  simpa only [List.append_nil, size_append, size, hc, List.append_assoc, List.singleton_append,
    Nat.add_zero] using h

theorem tailOf?_eq (rest : List Char) : tailOf? rest = some (tailOf rest) := by
  cases rest with
  | nil => rfl
  | cons c cs =>
    obtain ⟨b, hget, hb⟩ := exists_getElem?_utf8 [] c cs
    rw [tailOf?, if_neg (List.cons_ne_nil c cs), tailOf]
    rw [List.nil_append, size] at hget
    rw [hget, Option.bind_eq_bind, Option.bind_some, hb]
    cases hk : combOf? c with
    | none => rfl
    | some k =>
      have hslice := slice?_after (utf8Size_of_combOf? hk) [] cs
      rw [List.nil_append, size, Nat.zero_add] at hslice
      show (slice? (c :: cs) 1 _).bind _ = _
      rw [hslice]
      rfl

theorem groupShape?_eq {cs : List Char} (h : cs.head? = some '(') :
    groupShape? cs = some (groupShape cs) := by
  rw [groupShape?, groupShape]
  cases hclose : closeOffset cs with
  | none => rfl
  | some close =>
    obtain ⟨u, inner, after, rfl, ⟨hopen, -⟩, -, rfl⟩ := closeOffset_iff.1 hclose
    obtain rfl : u = [] := by
      cases u with
      | nil => rfl
      | cons c u => exact absurd (Option.some.inj h ▸ List.mem_cons_self) hopen
    have hinner : slice? ('(' :: (inner ++ ')' :: after)) 1 (size ('(' :: inner)) = some inner :=
      slice?_append ['('] inner (')' :: after)
    have hafter : slice? ('(' :: (inner ++ ')' :: after)) (size ('(' :: inner) + 1)
        (size ('(' :: (inner ++ ')' :: after))) = some after :=
      slice?_after rfl ('(' :: inner) after
    have hcut : cut (size ('(' :: inner)) ('(' :: (inner ++ ')' :: after)) =
        ('(' :: inner, ')' :: after) := cut_size ('(' :: inner) (')' :: after)
    simp only [List.nil_append, hinner, hafter, hcut, tailOf?_eq, Option.bind_eq_bind,
      Option.bind_some]
    rfl

theorem joinedShape?_eq (cs : List Char) : joinedShape? cs = some (joinedShape cs) := by
  rw [joinedShape?, joinedShape]
  cases hsplit : splitOffset cs with
  | unmatched => rfl
  | absent => rfl
  | found pos =>
    rcases pos with - | pos
    · rfl
    · obtain ⟨c, hc, u, right, rfl, -, -, hu⟩ := splitOffset_found_iff.1 hsplit
      have hwidth : c.utf8Size = 1 := by
        obtain rfl | rfl := hc <;> rfl
      have hleft : slice? (u ++ c :: right) 0 (size u) = some u := slice?_append [] u (c :: right)
      have hright := slice?_after hwidth u right
      obtain ⟨b, hget, hb⟩ := exists_getElem?_utf8 u c right
      have hsign : (b = 124) ↔ c = '|' := by
        grind [combOfByte?, combOf?]
      have hcut := cut_size u (c :: right)
      rw [← hu] at hleft hright hget hcut
      simp only [hleft, hright, hget, hcut, Option.bind_eq_bind, Option.bind_some, hsign]
      rfl

/-- **No access is out of range.** -/
theorem combinedShape?_eq (cs : List Char) : combinedShape? cs =
    some (if cs.head? = some '(' then groupShape cs else joinedShape cs) := by
  rw [combinedShape?]
  split
  · next h => exact groupShape?_eq h
  · exact joinedShape?_eq cs

/-- **The scans are exact.**  They run over the bytes of the text and answer with the offset of
the character that the same scans find over characters: the parenthesis that closes the first
group, and the leftmost combinator outside of groups, unless a group is closed before that was
not opened.  The text can be cut on both sides of it, and when it is taken apart there, every
offset is a boundary and every byte is there to be read. -/
theorem scans_exact (cs : List Char) :
    utf8 cs = (String.ofList cs).toByteArray.data.toList ∧
    (closeOffset cs = (closeIndex cs).map (byteOffset cs) ∧
      splitOffset cs = (splitIndex cs).map (byteOffset cs)) ∧
    ((∀ n, closeOffset cs = some n ↔ ClosesFirst cs n) ∧
      (∀ n, splitOffset cs = .found n ↔ ∃ c, (c = '|' ∨ c = '&') ∧ FirstOutside c cs n) ∧
      (splitOffset cs = .unmatched ↔ ∃ n, FirstOutside ')' cs n)) ∧
    (∀ n, closeOffset cs = some n ∨ splitOffset cs = .found n →
      IsBoundary cs n ∧ IsBoundary cs (n + 1)) ∧
    combinedShape? cs =
      some (if cs.head? = some '(' then groupShape cs else joinedShape cs) := by
  refine ⟨utf8_eq_toByteArray cs,
    ⟨closeOffset_eq_closeIndex cs, splitOffset_eq_splitIndex cs⟩,
    ⟨fun n => closeOffset_iff, fun n => splitOffset_found_iff, splitOffset_unmatched_iff⟩,
    ?_, combinedShape?_eq cs⟩
  rintro n (h | h)
  · obtain ⟨u, inner, v, rfl, -, -, rfl⟩ := closeOffset_iff.1 h
    have hb := isBoundary_around (c := ')') rfl (u ++ '(' :: inner) v
    rwa [List.append_assoc] at hb
  · obtain ⟨c, rfl | rfl, u, v, rfl, -, -, rfl⟩ := splitOffset_found_iff.1 h
    · exact isBoundary_around rfl u v
    · exact isBoundary_around rfl u v

end SsaTypes.Decl
