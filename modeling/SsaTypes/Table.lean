/-
SsaTypes/Table.lean

Tables that remember the order in which their keys were first written.
Everything a reader of the results can see in an order (ancestors, lookups,
signatures) comes from such a table.

One operation writes: `alter k f` replaces the value at `k` by `f` of the old
value, in place, and appends a new key at the end.  Its two laws say all:

    (t.alter k f).find? k = some (f (t.find? k))
    (t.alter k f).find? j = t.find? j              for j ≠ k.
-/

namespace SsaTypes

/-- A finite map that lists its entries in the order their keys were first written. -/
structure Table (κ α : Type) where
  /-- The entries, oldest key first. -/
  entries : List (κ × α) := []
deriving Repr, DecidableEq

namespace Table

variable {κ α : Type}

/-- The table without entries. -/
def empty : Table κ α := ⟨[]⟩

instance : Inhabited (Table κ α) := ⟨empty⟩

/-- The keys, oldest first. -/
def keys (t : Table κ α) : List κ := t.entries.map Prod.fst

/-- The values in the order of their keys. -/
def values (t : Table κ α) : List α := t.entries.map Prod.snd

/-- The number of keys. -/
def size (t : Table κ α) : Nat := t.entries.length

/-- Every value replaced by its image, the keys kept. -/
def mapValues {β : Type} (f : κ → α → β) (t : Table κ α) : Table κ β :=
  ⟨t.entries.map fun e => (e.1, f e.1 e.2)⟩

variable [DecidableEq κ]

/-- The value of a key in a list of entries. -/
def findIn (k : κ) : List (κ × α) → Option α
  | [] => none
  | (j, v) :: es => if j = k then some v else findIn k es

/-- Replace the value of a key in its place, or append the key. -/
def alterIn (k : κ) (f : Option α → α) : List (κ × α) → List (κ × α)
  | [] => [(k, f none)]
  | (j, v) :: es => if j = k then (j, f (some v)) :: es else (j, v) :: alterIn k f es

/-- The value of a key. -/
def find? (t : Table κ α) (k : κ) : Option α := findIn k t.entries

/-- Whether a key has a value. -/
def contains (t : Table κ α) (k : κ) : Bool := (t.find? k).isSome

/-- Replace the value of a key; a new key goes to the end. -/
def alter (t : Table κ α) (k : κ) (f : Option α → α) : Table κ α := ⟨alterIn k f t.entries⟩

/-- Set the value of a key.  The last value wins, the first place stays. -/
def insert (t : Table κ α) (k : κ) (v : α) : Table κ α := t.alter k fun _ => v

/-- Set the value of a key that has none yet. -/
def insertNew (t : Table κ α) (k : κ) (v : α) : Table κ α := t.alter k fun old => old.getD v

/-- Add a value to the list kept under a key. -/
def push {β : Type} (t : Table κ (List β)) (k : κ) (v : β) : Table κ (List β) :=
  t.alter k fun old => old.getD [] ++ [v]

/-- The table after inserting pairs one by one. -/
def ofList (es : List (κ × α)) : Table κ α :=
  es.foldl (fun t e => t.insert e.1 e.2) empty

/-! ### What a write does to a lookup -/

@[simp] theorem find?_empty (k : κ) : (empty : Table κ α).find? k = none := rfl

theorem findIn_alterIn_self (k : κ) (f : Option α → α) (es : List (κ × α)) :
    findIn k (alterIn k f es) = some (f (findIn k es)) := by
  induction es with
  | nil => simp [alterIn, findIn]
  | cons e es ih => by_cases h : e.1 = k <;> simp [alterIn, findIn, h, ih]

theorem findIn_alterIn_ne {j k : κ} (h : j ≠ k) (f : Option α → α) (es : List (κ × α)) :
    findIn j (alterIn k f es) = findIn j es := by
  induction es with
  | nil => simp [alterIn, findIn, h.symm]
  | cons e es ih =>
    by_cases hk : e.1 = k
    · have : e.1 ≠ j := fun hj => h (hj.symm.trans hk)
      simp [alterIn, findIn, hk, h.symm]
    · by_cases hj : e.1 = j <;> simp [alterIn, findIn, hk, hj, ih, h]

@[simp] theorem find?_alter_self (t : Table κ α) (k : κ) (f : Option α → α) :
    (t.alter k f).find? k = some (f (t.find? k)) :=
  findIn_alterIn_self k f t.entries

theorem find?_alter_ne (t : Table κ α) {j k : κ} (h : j ≠ k) (f : Option α → α) :
    (t.alter k f).find? j = t.find? j :=
  findIn_alterIn_ne h f t.entries

theorem find?_insert (t : Table κ α) (j k : κ) (v : α) :
    (t.insert k v).find? j = if j = k then some v else t.find? j := by
  by_cases h : j = k
  · subst h; simp [insert]
  · simp [insert, find?_alter_ne t h, h]

theorem find?_insertNew (t : Table κ α) (j k : κ) (v : α) :
    (t.insertNew k v).find? j = if j = k then some ((t.find? k).getD v) else t.find? j := by
  by_cases h : j = k
  · subst h; simp [insertNew]
  · simp [insertNew, find?_alter_ne t h, h]

theorem find?_push {β : Type} (t : Table κ (List β)) (j k : κ) (v : β) :
    (t.push k v).find? j = if j = k then some ((t.find? k).getD [] ++ [v]) else t.find? j := by
  by_cases h : j = k
  · subst h; simp [push]
  · simp [push, find?_alter_ne t h, h]

/-! ### Keys -/

theorem findIn_isSome (k : κ) (es : List (κ × α)) :
    (findIn k es).isSome = true ↔ k ∈ es.map Prod.fst := by
  induction es with
  | nil => simp [findIn]
  | cons e es ih =>
    by_cases h : e.1 = k
    · simp [findIn, h]
    · simp [findIn, h, ih, Ne.symm h]

theorem contains_iff (t : Table κ α) (k : κ) : t.contains k = true ↔ k ∈ t.keys :=
  findIn_isSome k t.entries

theorem find?_eq_none_iff (t : Table κ α) (k : κ) : t.find? k = none ↔ k ∉ t.keys := by
  rw [← contains_iff, contains, Bool.not_eq_true, Option.isSome_eq_false_iff,
    Option.isNone_iff_eq_none]

theorem mem_of_findIn {k : κ} {v : α} {es : List (κ × α)} (h : findIn k es = some v) :
    (k, v) ∈ es := by
  induction es with
  | nil => cases h
  | cons e es ih =>
    rw [findIn] at h
    split at h
    · next hk =>
      obtain rfl := Option.some.inj h
      rw [← hk]
      exact List.mem_cons_self
    · exact List.mem_cons_of_mem e (ih h)

theorem findIn_map {β : Type} (f : κ → α → β) (k : κ) (es : List (κ × α)) :
    findIn k (es.map fun e => (e.1, f e.1 e.2)) = (findIn k es).map (f k) := by
  induction es with
  | nil => rfl
  | cons e es ih =>
    rw [List.map_cons, findIn, findIn, ih]
    split
    · next hk => rw [hk, Option.map_some]
    · rfl

theorem find?_mapValues {β : Type} (f : κ → α → β) (t : Table κ α) (k : κ) :
    (t.mapValues f).find? k = (t.find? k).map (f k) :=
  findIn_map f k t.entries

theorem map_alterIn {β : Type} (g : κ → α → β) (k : κ) {f : Option α → α} {f' : Option β → β}
    (h : ∀ old, g k (f old) = f' (old.map (g k))) (es : List (κ × α)) :
    (alterIn k f es).map (fun e => (e.1, g e.1 e.2)) =
      alterIn k f' (es.map fun e => (e.1, g e.1 e.2)) := by
  induction es with
  | nil => simp [alterIn, h]
  | cons e es ih =>
    by_cases hk : e.1 = k
    · subst hk
      simp [alterIn, h]
    · simp [alterIn, hk, ih]

/-- Values may be replaced by their images before a write or after it. -/
theorem mapValues_alter {β : Type} (g : κ → α → β) (t : Table κ α) (k : κ) {f : Option α → α}
    {f' : Option β → β} (h : ∀ old, g k (f old) = f' (old.map (g k))) :
    (t.alter k f).mapValues g = (t.mapValues g).alter k f' :=
  congrArg Table.mk (map_alterIn g k h t.entries)

theorem mapValues_insert {β : Type} (g : κ → α → β) (t : Table κ α) (k : κ) (v : α) :
    (t.insert k v).mapValues g = (t.mapValues g).insert k (g k v) :=
  mapValues_alter g t k fun _ => rfl

theorem mapValues_insertNew {β : Type} (g : κ → α → β) (t : Table κ α) (k : κ) (v : α) :
    (t.insertNew k v).mapValues g = (t.mapValues g).insertNew k (g k v) :=
  mapValues_alter g t k fun old => by cases old <;> rfl

omit [DecidableEq κ] in
theorem mapValues_mapValues {β γ : Type} (g : κ → α → β) (g' : κ → β → γ) (t : Table κ α) :
    (t.mapValues g).mapValues g' = t.mapValues fun k v => g' k (g k v) := by
  rw [mapValues, mapValues, mapValues, List.map_map]
  rfl

theorem map_fst_alterIn (k : κ) (f : Option α → α) (es : List (κ × α)) :
    (alterIn k f es).map Prod.fst
      = if k ∈ es.map Prod.fst then es.map Prod.fst else es.map Prod.fst ++ [k] := by
  induction es with
  | nil => simp [alterIn]
  | cons e es ih =>
    by_cases h : e.1 = k
    · simp [alterIn, h]
    · simp only [alterIn, h, if_false, List.map_cons, ih, List.mem_cons, Ne.symm h, false_or]
      split <;> simp_all

omit [DecidableEq κ] in
@[simp] theorem keys_mapValues {β : Type} (f : κ → α → β) (t : Table κ α) :
    (t.mapValues f).keys = t.keys := by
  rw [keys, mapValues, List.map_map]
  rfl

theorem keys_alter (t : Table κ α) (k : κ) (f : Option α → α) :
    (t.alter k f).keys = if k ∈ t.keys then t.keys else t.keys ++ [k] :=
  map_fst_alterIn k f t.entries

/-- A key that was there before is no new one. -/
theorem eraseDups_append_singleton (ks : List κ) (k : κ) :
    (ks ++ [k]).eraseDups = if k ∈ ks then ks.eraseDups else ks.eraseDups ++ [k] := by
  rw [List.eraseDups_append]
  split
  · next hk => simp [List.removeAll, hk]
  · next hk => simp [List.removeAll, hk, List.eraseDups_cons]

theorem nodup_keys_alter {t : Table κ α} (h : t.keys.Nodup) (k : κ) (f : Option α → α) :
    (t.alter k f).keys.Nodup := by
  rw [keys_alter]
  split
  · exact h
  · next hk =>
    refine List.nodup_append.2 ⟨h, by simp, ?_⟩
    rintro a ha b hb rfl
    exact hk (List.mem_singleton.1 hb ▸ ha)

theorem findIn_of_mem {k : κ} {v : α} {es : List (κ × α)} (h : (es.map Prod.fst).Nodup)
    (hv : (k, v) ∈ es) : findIn k es = some v := by
  induction es with
  | nil => cases hv
  | cons e es ih =>
    obtain ⟨hne, hes⟩ := List.nodup_cons.1 h
    rcases List.mem_cons.1 hv with rfl | hv
    · simp [findIn]
    · have hk : e.1 ≠ k := fun he => hne (he ▸ List.mem_map_of_mem hv)
      rw [findIn, if_neg hk, ih hes hv]

/-- Where no key is repeated, the entries are what a lookup finds. -/
theorem find?_eq_some_iff {t : Table κ α} (h : t.keys.Nodup) {k : κ} {v : α} :
    t.find? k = some v ↔ (k, v) ∈ t.entries :=
  ⟨mem_of_findIn, findIn_of_mem h⟩

theorem keys_prefix_insert (t : Table κ α) (k : κ) (v : α) : t.keys <+: (t.insert k v).keys := by
  rw [insert, keys_alter]
  split
  · exact List.prefix_rfl
  · exact List.prefix_append t.keys [k]

/-- A key that has a value already keeps its place. -/
theorem size_insert_of_find? {t : Table κ α} {k : κ} {u v : α} (h : t.find? k = some u) :
    (t.insert k v).size = t.size := by
  have hk : k ∈ t.keys := (contains_iff t k).mp (by rw [contains, h]; rfl)
  have hkeys : (t.insert k v).keys = t.keys := by rw [insert, keys_alter, if_pos hk]
  simpa [keys, size] using congrArg List.length hkeys

theorem alterIn_of_findIn {k : κ} {f : Option α → α} {v : α} (hf : f (some v) = v)
    {es : List (κ × α)} (h : findIn k es = some v) : alterIn k f es = es := by
  induction es with
  | nil => cases h
  | cons e es ih =>
    obtain ⟨j, u⟩ := e
    rw [findIn] at h
    rw [alterIn]
    split at h
    · next hj =>
      obtain rfl := Option.some.inj h
      rw [if_pos hj, hf]
    · next hj => rw [if_neg hj, ih h]

/-- Setting the value that a key has already changes nothing. -/
theorem insert_of_find? {t : Table κ α} {k : κ} {v : α} (h : t.find? k = some v) :
    t.insert k v = t := by
  rw [insert, alter, alterIn_of_findIn rfl h]

/-- A key that has a value keeps it when only new keys are set. -/
theorem insertNew_of_find? {t : Table κ α} {k : κ} {u : α} (h : t.find? k = some u) (v : α) :
    t.insertNew k v = t := by
  rw [insertNew, alter, alterIn_of_findIn rfl h]

theorem alterIn_of_findIn_eq_none {k : κ} (f : Option α → α) {es : List (κ × α)}
    (h : findIn k es = none) : alterIn k f es = es ++ [(k, f none)] := by
  induction es with
  | nil => rfl
  | cons e es ih =>
    obtain ⟨j, u⟩ := e
    rw [findIn] at h
    rw [alterIn]
    split at h
    · cases h
    · next hj => rw [if_neg hj, ih h, List.cons_append]

/-- A new key goes to the end. -/
theorem entries_alter_of_find? {t : Table κ α} {k : κ} (f : Option α → α)
    (h : t.find? k = none) : (t.alter k f).entries = t.entries ++ [(k, f none)] :=
  alterIn_of_findIn_eq_none f h

/-- Where no key is repeated, at most one entry has a given key. -/
theorem filter_entries {t : Table κ α} (h : t.keys.Nodup) (k : κ) :
    t.entries.filter (fun e => e.1 = k) = (t.find? k).toList.map fun v => (k, v) := by
  obtain ⟨es⟩ := t
  induction es with
  | nil => rfl
  | cons e es ih =>
    obtain ⟨hne, hes⟩ := List.nodup_cons.1 h
    by_cases hk : e.1 = k
    · have hnone : es.filter (fun e => e.1 = k) = [] := by
        refine List.filter_eq_nil_iff.2 fun e' he' => ?_
        rw [decide_eq_true_iff]
        exact fun hk' => hne (List.mem_map.2 ⟨e', he', hk'.trans hk.symm⟩)
      rw [List.filter_cons_of_pos (by simpa using hk), hnone, find?, findIn, if_pos hk, ← hk]
      rfl
    · rw [List.filter_cons_of_neg (by simpa using hk), find?, findIn, if_neg hk]
      exact ih hes

/-! ### Tables made by many writes -/

/-- Of the keys that have no value yet, each gets its own. -/
theorem find?_foldl_insertNew (f : κ → α) (ks : List κ) (t : Table κ α) (k : κ) :
    (ks.foldl (fun t a => t.insertNew a (f a)) t).find? k =
      (t.find? k).or (if k ∈ ks then some (f k) else none) := by
  induction ks generalizing t with
  | nil => simp
  | cons a ks ih =>
    rw [List.foldl_cons, ih, find?_insertNew]
    by_cases h : k = a
    · subst h
      cases t.find? k <;> simp
    · simp [h]

/-- One value is added under each key of a list. -/
theorem find?_foldl_push {β : Type} (v : β) {ks : List κ} (hks : ks.Nodup)
    (t : Table κ (List β)) (k : κ) :
    (ks.foldl (fun t a => t.push a v) t).find? k =
      if k ∈ ks then some ((t.find? k).getD [] ++ [v]) else t.find? k := by
  induction ks generalizing t with
  | nil => simp
  | cons a ks ih =>
    obtain ⟨ha, hks⟩ := List.nodup_cons.1 hks
    rw [List.foldl_cons, ih hks, find?_push]
    by_cases h : k = a
    · subst h
      simp [ha]
    · simp [h]

/-- A list, unless it is empty. -/
def unlessEmpty {β : Type} (vs : List β) : Option (List β) :=
  if vs.isEmpty then none else some vs

theorem unlessEmpty_eq_some {β : Type} {vs ws : List β} :
    unlessEmpty vs = some ws ↔ vs ≠ [] ∧ vs = ws := by
  rcases vs with - | ⟨v, vs⟩
  · simp [unlessEmpty]
  · simp [unlessEmpty]

/-- Under each key the values of the elements with this key, in their order, after those
that were there. -/
theorem find?_foldl_push_key {β γ : Type} (key : γ → κ) (val : γ → β) (es : List γ)
    (t : Table κ (List β)) (k : κ) :
    (es.foldl (fun t e => t.push (key e) (val e)) t).find? k =
      match t.find? k with
      | none => unlessEmpty ((es.filter fun e => key e = k).map val)
      | some vs => some (vs ++ (es.filter fun e => key e = k).map val) := by
  induction es generalizing t with
  | nil => rcases h : t.find? k with - | vs <;> simp [h, unlessEmpty]
  | cons e es ih =>
    rw [List.foldl_cons, ih, find?_push]
    by_cases hk : key e = k
    · rw [if_pos hk.symm, List.filter_cons_of_pos (by simpa using hk), hk, List.map_cons]
      rcases t.find? k with - | vs
      · rfl
      · simp
    · rw [if_neg (Ne.symm hk), List.filter_cons_of_neg (by simpa using hk)]

/-- Of the entries that pass a test, the images. -/
theorem findIn_filterMap {β : Type} (p : α → Prop) [DecidablePred p] (g : α → β) (k : κ)
    {es : List (κ × α)} (h : (es.map Prod.fst).Nodup) :
    findIn k (es.filterMap fun e => if p e.2 then some (e.1, g e.2) else none) =
      (findIn k es).bind fun v => if p v then some (g v) else none := by
  induction es with
  | nil => rfl
  | cons e es ih =>
    obtain ⟨he, hes⟩ := List.nodup_cons.1 h
    by_cases hk : e.1 = k
    · -- no later entry has the key
      have hnone : findIn k es = none := by
        rw [← Option.not_isSome_iff_eq_none, findIn_isSome]
        exact hk ▸ he
      by_cases hp : p e.2
      · simp [findIn, hk, hp]
      · simp [findIn, hk, hp, ih hes, hnone]
    · by_cases hp : p e.2
      · simp [findIn, hk, hp, ih hes]
      · simp [findIn, hk, hp, ih hes]

end Table

end SsaTypes
