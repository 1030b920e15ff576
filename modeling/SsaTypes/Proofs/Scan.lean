/-
SsaTypes/Proofs/Scan.lean

What the two scans find.  They run over bytes, and find what the same scans over
characters find: a character of ASCII is one byte with the same mark, and the
bytes of any other are plain and as many as it is wide (`closeFrom_utf8`,
`splitFrom_utf8`).

`nesting` follows the groups of a text from one depth to another,

    nesting joins d (u ++ v) = nesting joins d u >>= (nesting joins · v),

which is to count its parentheses (`nesting_iff`).  A scan runs over a text that it takes
from a depth to a depth: the scan for a closing parenthesis over any
(`closeFrom_of_nesting`), the scan for a combinator over one with no combinator outside of
groups (`splitFrom_of_nesting`).
-/
import SsaTypes.Decl.Scan

namespace SsaTypes.Decl

/-! ### The marks of bytes and characters -/

/-- The mark of the byte and of the character with this number. -/
def codeMark (n : Nat) : Mark :=
  if n = 40 then .opens
  else if n = 41 then .closes
  else if n = 124 ∨ n = 38 then .joins
  else .plain

theorem byteMark_eq (b : UInt8) : byteMark b = codeMark b.toNat := by
  simp only [byteMark, codeMark, ← UInt8.toNat_inj]
  rfl

theorem charMark_eq (c : Char) : charMark c = codeMark c.toNat := by
  simp only [charMark, codeMark, ← Char.toNat_inj]
  rfl

theorem codeMark_of_lt {n : Nat} (h : 124 < n) : codeMark n = .plain := by
  rw [codeMark, if_neg (by omega), if_neg (by omega), if_neg (by omega)]

theorem charMark_opens {c : Char} : charMark c = .opens ↔ c = '(' := by
  grind [charMark]

theorem charMark_closes {c : Char} : charMark c = .closes ↔ c = ')' := by
  grind [charMark]

theorem charMark_joins {c : Char} : charMark c = .joins ↔ c = '|' ∨ c = '&' := by
  grind [charMark]

/-- A character of ASCII is one byte, with the mark of the character. -/
theorem utf8EncodeChar_ascii {c : Char} (h : c.toNat ≤ 127) :
    ∃ b, String.utf8EncodeChar c = [b] ∧ byteMark b = charMark c ∧ c.utf8Size = 1 := by
  refine ⟨UInt8.ofNat c.toNat, ?_, ?_, ?_⟩
  · rw [String.utf8EncodeChar]
    exact if_pos h
  · rw [byteMark_eq, charMark_eq, UInt8.toNat_ofNat', Nat.mod_eq_of_lt (by omega)]
  · rw [Char.utf8Size]
    exact if_pos h

/-- The bytes of any other character are plain, and so is the character. -/
theorem utf8EncodeChar_beyond {c : Char} (h : 127 < c.toNat) :
    (∀ b ∈ String.utf8EncodeChar c, byteMark b = .plain) ∧ charMark c = .plain := by
  refine ⟨fun b hb => ?_, charMark_eq c ▸ codeMark_of_lt (by omega)⟩
  have hlead : 128 ≤ b.toNat := by
    have hn : ¬ c.val.toNat ≤ 127 := Nat.not_le_of_lt h
    rw [String.utf8EncodeChar] at hb
    simp only [hn, if_false] at hb
    split at hb
    · simp only [List.mem_cons, List.not_mem_nil, or_false] at hb
      rcases hb with rfl | rfl <;> rw [UInt8.toNat_ofNat'] <;> omega
    split at hb
    · simp only [List.mem_cons, List.not_mem_nil, or_false] at hb
      rcases hb with rfl | rfl | rfl <;> rw [UInt8.toNat_ofNat'] <;> omega
    · simp only [List.mem_cons, List.not_mem_nil, or_false] at hb
      rcases hb with rfl | rfl | rfl | rfl <;> rw [UInt8.toNat_ofNat'] <;> omega
  exact byteMark_eq b ▸ codeMark_of_lt (by omega)

/-! ### Bytes and characters -/

/-- A scan runs over plain bytes. -/
theorem closeFrom_plain {bs : List UInt8} (h : ∀ b ∈ bs, byteMark b = .plain) (d o : Nat)
    (rest : List UInt8) :
    closeFrom byteMark (fun _ => 1) d o (bs ++ rest) =
      closeFrom byteMark (fun _ => 1) d (o + bs.length) rest := by
  induction bs generalizing o with
  | nil => rfl
  | cons b bs ih =>
    obtain ⟨hb, hbs⟩ := List.forall_mem_cons.1 h
    simp only [List.cons_append, closeFrom, hb, ih hbs, List.length_cons, Nat.add_assoc,
      Nat.add_comm 1]

theorem splitFrom_plain {bs : List UInt8} (h : ∀ b ∈ bs, byteMark b = .plain) (d o : Nat)
    (rest : List UInt8) :
    splitFrom byteMark (fun _ => 1) d o (bs ++ rest) =
      splitFrom byteMark (fun _ => 1) d (o + bs.length) rest := by
  induction bs generalizing o with
  | nil => rfl
  | cons b bs ih =>
    obtain ⟨hb, hbs⟩ := List.forall_mem_cons.1 h
    simp only [List.cons_append, splitFrom, hb, ih hbs, List.length_cons, Nat.add_assoc,
      Nat.add_comm 1]

/-- **Bytes and characters, closing.**  Over its bytes and over its characters,
a text has the same closing parenthesis. -/
theorem closeFrom_utf8 (d o : Nat) (cs : List Char) :
    closeFrom byteMark (fun _ => 1) d o (utf8 cs) = closeFrom charMark Char.utf8Size d o cs := by
  induction cs generalizing d o with
  | nil => rfl
  | cons c cs ih =>
    rw [utf8, List.flatMap_cons, ← utf8]
    by_cases h : c.toNat ≤ 127
    · obtain ⟨b, hb, hmark, hsize⟩ := utf8EncodeChar_ascii h
      rw [hb, List.singleton_append]
      cases hc : charMark c with
      | closes => rcases d with - | - | d <;> simp only [closeFrom, hmark, hc, hsize, ih]
      | _ => simp only [closeFrom, hmark, hc, hsize, ih]
    · obtain ⟨hbytes, hmark⟩ := utf8EncodeChar_beyond (Nat.lt_of_not_le h)
      rw [closeFrom_plain hbytes, String.length_utf8EncodeChar, ih]
      simp only [closeFrom, hmark]

/-- **Bytes and characters, splitting.**  Over its bytes and over its
characters, a text has the same leftmost combinator. -/
theorem splitFrom_utf8 (d o : Nat) (cs : List Char) :
    splitFrom byteMark (fun _ => 1) d o (utf8 cs) = splitFrom charMark Char.utf8Size d o cs := by
  induction cs generalizing d o with
  | nil => rfl
  | cons c cs ih =>
    rw [utf8, List.flatMap_cons, ← utf8]
    by_cases h : c.toNat ≤ 127
    · obtain ⟨b, hb, hmark, hsize⟩ := utf8EncodeChar_ascii h
      rw [hb, List.singleton_append]
      cases hc : charMark c with
      | closes => rcases d with - | d <;> simp only [splitFrom, hmark, hc, hsize, ih]
      | _ => simp only [splitFrom, hmark, hc, hsize, ih]
    · obtain ⟨hbytes, hmark⟩ := utf8EncodeChar_beyond (Nat.lt_of_not_le h)
      rw [splitFrom_plain hbytes, String.length_utf8EncodeChar, ih]
      simp only [splitFrom, hmark]

/-! ### Offsets -/

/-- The width of a text in UTF-8. -/
def size : List Char → Nat
  | [] => 0
  | c :: cs => c.utf8Size + size cs

theorem size_pos {cs : List Char} (h : cs ≠ []) : 0 < size cs := by
  cases cs with
  | nil => exact absurd rfl h
  | cons c cs =>
    have := c.utf8Size_pos
    rw [size]
    omega

/-- The offset of a text in a longer one is where it is cut off. -/
theorem cut_size (u v : List Char) : cut (size u) (u ++ v) = (u, v) := by
  induction u with
  | nil => exact cut_zero v
  | cons c u ih =>
    have hc := c.utf8Size_pos
    obtain ⟨n, hn⟩ : ∃ n, c.utf8Size = n + 1 := ⟨c.utf8Size - 1, by omega⟩
    rw [size, hn, Nat.add_right_comm, List.cons_append, cut,
      show n + size u + 1 - c.utf8Size = size u by omega, ih]

/-! ### Groups -/

/-- The number of groups open at the end of a text, `depth` of them being open
at its start; `none` if one is closed that is not open or, without `joins`, if a
combinator stands outside of all groups. -/
def nesting (joins : Bool) (depth : Nat) : List Char → Option Nat
  | [] => some depth
  | c :: cs =>
    match charMark c with
    | .opens => nesting joins (depth + 1) cs
    | .closes =>
      match depth with
      | 0 => none
      | d + 1 => nesting joins d cs
    | .joins => if joins || depth ≠ 0 then nesting joins depth cs else none
    | .plain => nesting joins depth cs

theorem nesting_append (joins : Bool) (d : Nat) (u v : List Char) :
    nesting joins d (u ++ v) = (nesting joins d u).bind (nesting joins · v) := by
  induction u generalizing d with
  | nil => rfl
  | cons c u ih =>
    rw [List.cons_append]
    cases hc : charMark c with
    | closes => rcases d with - | d <;> simp only [nesting, hc, ih, Option.bind_none]
    | joins =>
      simp only [nesting, hc, ih]
      split <;> rfl
    | _ => simp only [nesting, hc, ih]

theorem nesting_plain {u : List Char} (h : ∀ c ∈ u, charMark c = .plain) (joins : Bool)
    (d : Nat) : nesting joins d u = some d := by
  induction u with
  | nil => rfl
  | cons c u ih =>
    obtain ⟨hc, hu⟩ := List.forall_mem_cons.1 h
    simp only [nesting, hc, ih hu]

theorem count_opens_cons (c : Char) (u : List Char) :
    (c :: u).count '(' = u.count '(' + if charMark c = .opens then 1 else 0 := by
  simp only [List.count_cons, beq_iff_eq, charMark_opens]

theorem count_closes_cons (c : Char) (u : List Char) :
    (c :: u).count ')' = u.count ')' + if charMark c = .closes then 1 else 0 := by
  simp only [List.count_cons, beq_iff_eq, charMark_closes]

theorem forall_prefix_cons {c : Char} {u : List Char} {P : List Char → Prop} :
    (∀ p, p <+: c :: u → P p) ↔ P [] ∧ ∀ p, p <+: u → P (c :: p) := by
  constructor
  · intro h
    exact ⟨h [] List.nil_prefix, fun p hp => h _ (List.cons_prefix_cons.2 ⟨rfl, hp⟩)⟩
  · rintro ⟨hnil, hcons⟩ p hp
    obtain rfl | ⟨q, rfl, hq⟩ := List.prefix_cons_iff.1 hp
    · exact hnil
    · exact hcons q hq

theorem forall_concat_prefix_cons {c : Char} {u : List Char} {P : List Char → Char → Prop} :
    (∀ p x, p ++ [x] <+: c :: u → P p x) ↔ P [] c ∧ ∀ p x, p ++ [x] <+: u → P (c :: p) x := by
  constructor
  · intro h
    exact ⟨h [] c (List.prefix_append [c] u),
      fun p x hp => h (c :: p) x (List.cons_prefix_cons.2 ⟨rfl, hp⟩)⟩
  · rintro ⟨hnil, hcons⟩ p x hp
    cases p with
    | nil => exact (List.cons_prefix_cons.1 hp).1 ▸ hnil
    | cons y p =>
      obtain ⟨rfl, hq⟩ := List.cons_prefix_cons.1 hp
      exact hcons p x hq

/-- **Following groups is counting parentheses.**  Groups are followed from one depth to another
if none is closed that is not open and, without `joins`, combinators stand inside of groups. -/
theorem nesting_iff {joins : Bool} {d e : Nat} {u : List Char} : nesting joins d u = some e ↔
    d + u.count '(' = e + u.count ')' ∧ (∀ p, p <+: u → p.count ')' ≤ d + p.count '(') ∧
      (joins = false → ∀ p c, p ++ [c] <+: u → c = '|' ∨ c = '&' →
        p.count ')' < d + p.count '(') := by
  induction u generalizing d with
  | nil => simp [nesting]
  | cons c u ih =>
    rw [forall_prefix_cons, forall_concat_prefix_cons, ← charMark_joins]
    simp only [count_opens_cons, count_closes_cons]
    cases hc : charMark c with
    | opens => simp [nesting, hc, ih, Nat.add_assoc, Nat.add_comm 1]
    | closes =>
      rcases d with - | d
      · refine iff_of_false (by simp [nesting, hc]) fun ⟨_, h, _⟩ => ?_
        exact absurd (h.2 [] List.nil_prefix) (by decide)
      · simp [nesting, hc, ih, Nat.add_right_comm d 1, ← Nat.add_assoc]
    | joins =>
      rcases d with - | d
      · cases joins
        · exact iff_of_false (by simp [nesting, hc]) fun ⟨_, _, h⟩ => by simp at h
        · simp [nesting, hc, ih]
      · simp [nesting, hc, ih]
    | plain => simp [nesting, hc, ih]

/-- Inside one more group, combinators do not matter. -/
theorem nesting_inside {joins : Bool} {d e : Nat} {u : List Char} (h : nesting joins d u = some e)
    (joins' : Bool) : nesting joins' (d + 1) u = some (e + 1) := by
  induction u generalizing d with
  | nil =>
    obtain rfl := Option.some.inj h
    rfl
  | cons c u ih =>
    cases hc : charMark c with
    | closes =>
      rcases d with - | d <;> simp only [nesting, hc] at h ⊢
      · cases h
      · exact ih h
    | joins =>
      simp only [nesting, hc] at h
      simp only [nesting, hc, ne_eq, Nat.succ_ne_zero, not_false_eq_true, decide_true,
        Bool.or_true, if_true]
      split at h
      · exact ih h
      · cases h
    | _ =>
      simp only [nesting, hc] at h ⊢
      exact ih h

/-- The scan for a closing parenthesis runs over a text inside a group. -/
theorem closeFrom_of_nesting {joins : Bool} {d e : Nat} {u : List Char}
    (h : nesting joins d u = some e) (o : Nat) (v : List Char) :
    closeFrom charMark Char.utf8Size (d + 1) o (u ++ v) =
      closeFrom charMark Char.utf8Size (e + 1) (o + size u) v := by
  induction u generalizing d o with
  | nil =>
    obtain rfl := Option.some.inj h
    rfl
  | cons c u ih =>
    rw [List.cons_append, size, ← Nat.add_assoc]
    cases hc : charMark c with
    | closes =>
      rcases d with - | d <;> simp only [nesting, closeFrom, hc] at h ⊢
      · cases h
      · exact ih h _
    | joins =>
      simp only [nesting, closeFrom, hc] at h ⊢
      split at h
      · exact ih h _
      · cases h
    | _ =>
      simp only [nesting, closeFrom, hc] at h ⊢
      exact ih h _

/-- The scan for a combinator runs over a text that has none outside of groups. -/
theorem splitFrom_of_nesting {d e : Nat} {u : List Char} (h : nesting false d u = some e) (o : Nat)
    (v : List Char) :
    splitFrom charMark Char.utf8Size d o (u ++ v) =
      splitFrom charMark Char.utf8Size e (o + size u) v := by
  induction u generalizing d o with
  | nil =>
    obtain rfl := Option.some.inj h
    rfl
  | cons c u ih =>
    rw [List.cons_append, size, ← Nat.add_assoc]
    cases hc : charMark c with
    | closes =>
      rcases d with - | d <;> simp only [nesting, splitFrom, hc] at h ⊢
      · cases h
      · exact ih h _
    | joins =>
      rcases d with - | d <;> simp only [nesting, splitFrom, hc] at h ⊢
      · cases h
      · exact ih h _
    | _ =>
      simp only [nesting, splitFrom, hc] at h ⊢
      exact ih h _

/-- A group closes what it opens. -/
theorem nesting_group {inner : List Char} (h : nesting true 0 inner = some 0) (joins : Bool) :
    nesting joins 0 ('(' :: inner ++ [')']) = some 0 := by
  have hopen : charMark '(' = .opens := rfl
  have hclose : charMark ')' = .closes := rfl
  rw [List.cons_append]
  simp only [nesting, hopen, nesting_append, nesting_inside h, Option.bind_some, hclose]

/-- The parenthesis that closes the first group. -/
theorem closeOffset_group {inner : List Char} (h : nesting true 0 inner = some 0) (v : List Char) :
    closeOffset ('(' :: inner ++ ')' :: v) = some (size ('(' :: inner)) := by
  have hopen : charMark '(' = .opens := rfl
  have hclose : charMark ')' = .closes := rfl
  rw [closeOffset, closeFrom_utf8, List.cons_append]
  simp only [closeFrom, hopen, closeFrom_of_nesting h, hclose, size, Nat.zero_add]

/-- The leftmost combinator outside of groups. -/
theorem splitOffset_sign {u : List Char} {c : Char} (h : nesting false 0 u = some 0)
    (hc : charMark c = .joins) (v : List Char) : splitOffset (u ++ c :: v) = .found (size u) := by
  rw [splitOffset, splitFrom_utf8, splitFrom_of_nesting h]
  simp only [splitFrom, hc, if_true, Nat.zero_add]

end SsaTypes.Decl
