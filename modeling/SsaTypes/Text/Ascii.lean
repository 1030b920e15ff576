/-
SsaTypes/Text/Ascii.lean

Names that differ only in the case of ASCII letters.  Class, function and
method names are compared this way; every other character counts as written.

`fold` maps a name to its representative, and

    sameName a b = true ↔ fold a = fold b.
-/

namespace SsaTypes.Text

/-- A name with its ASCII capitals made small; all other characters stay. -/
def fold (s : String) : String :=
  String.ofList (s.toList.map Char.toLower)

/-- Whether two names are equal up to the case of ASCII letters. -/
def sameName (a b : String) : Bool :=
  fold a == fold b

@[simp] theorem toList_fold (s : String) : (fold s).toList = s.toList.map Char.toLower := by
  simp [fold]

/-- Capitals become the small letters 32 places on; every other character stays. -/
theorem toNat_toLower (c : Char) :
    c.toLower.toNat = if 65 ≤ c.toNat ∧ c.toNat ≤ 90 then c.toNat + 32 else c.toNat := by
  have hiff : (c.val ≥ 'A'.val ∧ c.val ≤ 'Z'.val) ↔ 65 ≤ c.toNat ∧ c.toNat ≤ 90 := Iff.rfl
  by_cases h : c.val ≥ 'A'.val ∧ c.val ≤ 'Z'.val
  · have hn := hiff.1 h
    rw [if_pos hn, show c.toLower = _ from dif_pos h]
    show (c.toNat + 32) % 2 ^ 32 = _
    omega
  · rw [if_neg (fun hn => h (hiff.2 hn)), show c.toLower = _ from dif_neg h]

theorem toLower_toLower (c : Char) : c.toLower.toLower = c.toLower := by
  rw [← Char.toNat_inj, toNat_toLower c.toLower, toNat_toLower c]
  split
  · exact if_neg (by omega)
  · rfl

theorem isAlpha_iff (c : Char) : c.isAlpha = true ↔
    (65 ≤ c.toNat ∧ c.toNat ≤ 90) ∨ (97 ≤ c.toNat ∧ c.toNat ≤ 122) := by
  have hupper : c.isUpper = true ↔ 65 ≤ c.toNat ∧ c.toNat ≤ 90 := decide_eq_true_iff
  have hlower : c.isLower = true ↔ 97 ≤ c.toNat ∧ c.toNat ≤ 122 :=
    Bool.and_eq_true_iff.trans (and_congr decide_eq_true_iff decide_eq_true_iff)
  rw [← hupper, ← hlower]
  exact Bool.or_eq_true_iff

/-- A character is made small without a change, or it is a capital. -/
theorem toLower_cases (c : Char) : c.toLower = c ∨
    (65 ≤ c.toNat ∧ c.toNat ≤ 90) ∧ 97 ≤ c.toLower.toNat ∧ c.toLower.toNat ≤ 122 := by
  rw [← Char.toNat_inj, toNat_toLower]
  split <;> omega

/-- A sign is no letter, so it comes from itself only. -/
theorem toLower_eq_iff {c d : Char} (hd : d.isAlpha = false) : c.toLower = d ↔ c = d := by
  have hd' := mt (isAlpha_iff d).mpr (Bool.eq_false_iff.mp hd)
  rw [← Char.toNat_inj, ← Char.toNat_inj, toNat_toLower]
  split <;> omega

@[simp] theorem fold_fold (s : String) : fold (fold s) = fold s := by
  have h : Char.toLower ∘ Char.toLower = Char.toLower := funext toLower_toLower
  rw [fold, toList_fold, List.map_map, h, fold]

/-- A sign stands in a name if it stands in the name in small letters. -/
theorem mem_fold_iff {d : Char} (hd : d.isAlpha = false) {s : String} :
    d ∈ (fold s).toList ↔ d ∈ s.toList := by
  rw [toList_fold, List.mem_map]
  constructor
  · rintro ⟨c, hc, hcd⟩
    exact (toLower_eq_iff hd).1 hcd ▸ hc
  · intro h
    exact ⟨d, h, (toLower_eq_iff hd).2 rfl⟩

theorem sameName_iff {a b : String} : sameName a b = true ↔ fold a = fold b := by
  simp [sameName]

end SsaTypes.Text
