/-!
# Maps that remember the order of insertion

A finite map whose keys stand in the order in which they were first inserted. Inserting a
key again replaces its value and leaves its place. Two views describe a map: `get?`, the
value of a key, and `entries`, the pairs in order; every operation below comes with the
lemma that says what it does to them.
-/

namespace DecisionTable

/-- A map from `κ` to `α` with its entries in order of first insertion. -/
structure OrderedMap (κ α : Type) where
  /-- The key and value pairs, in order. -/
  entries : List (κ × α)
  /-- No key stands in two entries. -/
  nodup : (entries.map Prod.fst).Nodup
  deriving DecidableEq

namespace OrderedMap

variable {κ α : Type}

@[ext] theorem ext {a b : OrderedMap κ α} (h : a.entries = b.entries) : a = b := by
  cases a
  cases b
  cases h
  rfl

instance [Repr κ] [Repr α] : Repr (OrderedMap κ α) := ⟨fun m n => reprPrec m.entries n⟩

/-- The map without entries. -/
def empty : OrderedMap κ α := ⟨[], List.nodup_nil⟩

instance : Inhabited (OrderedMap κ α) := ⟨empty⟩

/-- The map with one entry. -/
def single (k : κ) (v : α) : OrderedMap κ α := ⟨[(k, v)], by simp⟩

/-- The keys, in order. -/
def keys (m : OrderedMap κ α) : List κ := m.entries.map Prod.fst

/-- The number of entries. -/
def size (m : OrderedMap κ α) : Nat := m.entries.length

/-- Whether there are no entries. -/
def isEmpty (m : OrderedMap κ α) : Bool := m.entries.isEmpty

theorem nodup_keys (m : OrderedMap κ α) : m.keys.Nodup := m.nodup

@[simp] theorem entries_empty : (empty : OrderedMap κ α).entries = [] := rfl

@[simp] theorem keys_empty : (empty : OrderedMap κ α).keys = [] := rfl

@[simp] theorem size_empty : (empty : OrderedMap κ α).size = 0 := rfl

@[simp] theorem entries_single (k : κ) (v : α) : (single k v).entries = [(k, v)] := rfl

@[simp] theorem keys_single (k : κ) (v : α) : (single k v).keys = [k] := rfl

variable [DecidableEq κ]

/-! ## Looking up -/

/-- The value that a list of entries gives a key: that of the first entry with it. -/
def lookup (k : κ) : List (κ × α) → Option α
  | [] => none
  | e :: es => if e.1 = k then some e.2 else lookup k es

/-- The value of a key. -/
def get? (m : OrderedMap κ α) (k : κ) : Option α := lookup k m.entries

/-- Whether a key has a value. -/
def contains (m : OrderedMap κ α) (k : κ) : Bool := (m.get? k).isSome

theorem lookup_isSome {k : κ} {es : List (κ × α)} :
    (lookup k es).isSome ↔ k ∈ es.map Prod.fst := by
  induction es with
  | nil => simp [lookup]
  | cons e es ih =>
    rw [lookup, List.map_cons, List.mem_cons]
    split
    · next h => simp [h]
    · next h => rw [ih]; simp [Ne.symm h]

theorem lookup_eq_none {k : κ} {es : List (κ × α)} : lookup k es = none ↔ k ∉ es.map Prod.fst := by
  rw [← lookup_isSome, Bool.not_eq_true, Option.isSome_eq_false_iff, Option.isNone_iff_eq_none]

theorem lookup_eq_some {k : κ} {v : α} {es : List (κ × α)} (h : (es.map Prod.fst).Nodup) :
    lookup k es = some v ↔ (k, v) ∈ es := by
  induction es with
  | nil => simp [lookup]
  | cons e es ih =>
    obtain ⟨j, w⟩ := e
    rw [List.map_cons, List.nodup_cons] at h
    rw [lookup, List.mem_cons]
    split
    · next hj =>
      simp only at hj
      subst hj
      have hno : (j, v) ∉ es := fun hm => h.1 (List.mem_map.2 ⟨_, hm, rfl⟩)
      simp [hno, eq_comm]
    · next hj =>
      rw [ih h.2]
      simp [Ne.symm hj]

@[simp] theorem get?_empty (k : κ) : (empty : OrderedMap κ α).get? k = none := rfl

@[simp] theorem get?_single (j : κ) (v : α) (k : κ) :
    (single j v).get? k = if j = k then some v else none := rfl

theorem get?_eq_some_iff {m : OrderedMap κ α} {k : κ} {v : α} :
    m.get? k = some v ↔ (k, v) ∈ m.entries := lookup_eq_some m.nodup

theorem get?_eq_none_iff {m : OrderedMap κ α} {k : κ} : m.get? k = none ↔ k ∉ m.keys :=
  lookup_eq_none

theorem contains_iff {m : OrderedMap κ α} {k : κ} : m.contains k = true ↔ k ∈ m.keys :=
  lookup_isSome

theorem mem_keys_of_get? {m : OrderedMap κ α} {k : κ} {v : α} (h : m.get? k = some v) :
    k ∈ m.keys := by
  rw [← contains_iff, contains, h]
  rfl

/-! ## Inserting -/

/-- The entries after a value is given to a key: in place where the key is there, at the end
otherwise. -/
def insertEntry (k : κ) (v : α) : List (κ × α) → List (κ × α)
  | [] => [(k, v)]
  | e :: es => if e.1 = k then (e.1, v) :: es else e :: insertEntry k v es

theorem map_fst_insertEntry (k : κ) (v : α) (es : List (κ × α)) :
    (insertEntry k v es).map Prod.fst =
      if k ∈ es.map Prod.fst then es.map Prod.fst else es.map Prod.fst ++ [k] := by
  induction es with
  | nil => simp [insertEntry]
  | cons e es ih =>
    rw [insertEntry]
    split
    · next h => simp [h]
    · next h =>
      rw [List.map_cons, ih]
      split
      · next hk => rw [if_pos (by simp only [List.map_cons, List.mem_cons, hk, or_true]),
          List.map_cons]
      · next hk =>
        rw [if_neg (by simp only [List.map_cons, List.mem_cons, hk, or_false]; exact Ne.symm h),
          List.map_cons, List.cons_append]

/-- Gives a key a value. -/
def insert (m : OrderedMap κ α) (k : κ) (v : α) : OrderedMap κ α where
  entries := insertEntry k v m.entries
  nodup := by
    rw [map_fst_insertEntry]
    split
    · exact m.nodup
    · next h => exact List.nodup_append.2 ⟨m.nodup, by simp, by
        intro a ha b hb
        rw [List.mem_singleton] at hb
        exact fun hab => h (hb ▸ hab ▸ ha)⟩

/-- The map that arises from inserting pairs one by one. -/
def insertAll (m : OrderedMap κ α) (es : List (κ × α)) : OrderedMap κ α :=
  es.foldl (fun m e => m.insert e.1 e.2) m

/-- The map of a list of pairs: a repeated key keeps its first place and takes the last
value. -/
def ofList (es : List (κ × α)) : OrderedMap κ α := empty.insertAll es

theorem insertAll_cons (m : OrderedMap κ α) (e : κ × α) (es : List (κ × α)) :
    m.insertAll (e :: es) = (m.insert e.1 e.2).insertAll es := rfl

theorem keys_insert (m : OrderedMap κ α) (k : κ) (v : α) :
    (m.insert k v).keys = if k ∈ m.keys then m.keys else m.keys ++ [k] :=
  map_fst_insertEntry k v m.entries

/-- Inserting adds an entry for a new key only. -/
theorem size_insert (m : OrderedMap κ α) (k : κ) (v : α) :
    (m.insert k v).size = if k ∈ m.keys then m.size else m.size + 1 := by
  have hsize : ∀ m : OrderedMap κ α, m.size = m.keys.length := fun m => by simp [size, keys]
  rw [hsize, hsize, keys_insert]
  split
  · rfl
  · rw [List.length_append, List.length_singleton]

theorem mem_keys_insert {m : OrderedMap κ α} {k j : κ} {v : α} :
    j ∈ (m.insert k v).keys ↔ j = k ∨ j ∈ m.keys := by
  rw [keys_insert]
  split
  · next h =>
    constructor
    · exact .inr
    · rintro (rfl | hj)
      · exact h
      · exact hj
  · rw [List.mem_append, List.mem_singleton, or_comm]

theorem insertEntry_of_not_mem {k : κ} {es : List (κ × α)} (h : k ∉ es.map Prod.fst) (v : α) :
    insertEntry k v es = es ++ [(k, v)] := by
  induction es with
  | nil => rfl
  | cons e es ih =>
    rw [List.map_cons, List.mem_cons, not_or] at h
    rw [insertEntry, if_neg (Ne.symm h.1), ih h.2, List.cons_append]

/-- A new key is added at the end. -/
theorem entries_insert_of_not_mem {m : OrderedMap κ α} {k : κ} (h : k ∉ m.keys) (v : α) :
    (m.insert k v).entries = m.entries ++ [(k, v)] := insertEntry_of_not_mem h v

theorem mem_keys_insertAll {m : OrderedMap κ α} {es : List (κ × α)} {k : κ} :
    k ∈ (m.insertAll es).keys ↔ k ∈ m.keys ∨ k ∈ es.map Prod.fst := by
  induction es generalizing m with
  | nil => simp [insertAll]
  | cons e es ih =>
    rw [insertAll_cons, ih, mem_keys_insert, List.map_cons, List.mem_cons, or_comm (a := k = e.1),
      or_assoc]

/-- Entries with new keys, each another one, are added as they stand. -/
theorem entries_insertAll {m : OrderedMap κ α} {es : List (κ × α)}
    (h : ((m.entries ++ es).map Prod.fst).Nodup) : (m.insertAll es).entries = m.entries ++ es := by
  induction es generalizing m with
  | nil => rw [List.append_nil]; rfl
  | cons e es ih =>
    have hnew : e.1 ∉ m.keys := by
      rw [List.map_append, List.nodup_append] at h
      exact fun he => h.2.2 e.1 he e.1 (by simp) rfl
    have hinsert : (m.insert e.1 e.2).entries = m.entries ++ [e] :=
      entries_insert_of_not_mem hnew e.2
    rw [insertAll_cons, ih, hinsert, List.append_assoc, List.singleton_append]
    rwa [hinsert, List.append_assoc, List.singleton_append]

theorem lookup_insertEntry (k : κ) (v : α) (j : κ) (es : List (κ × α)) :
    lookup j (insertEntry k v es) = if k = j then some v else lookup j es := by
  induction es with
  | nil => rfl
  | cons e es ih =>
    rw [insertEntry]
    split
    · next h =>
      subst h
      simp only [lookup]
      split <;> rfl
    · next h =>
      rw [lookup, lookup, ih]
      split
      · next hj => rw [if_neg fun hk => h (hj.trans hk.symm)]
      · rfl

theorem get?_insert (m : OrderedMap κ α) (k : κ) (v : α) (j : κ) :
    (m.insert k v).get? j = if k = j then some v else m.get? j :=
  lookup_insertEntry k v j m.entries

theorem mem_entries_insert {m : OrderedMap κ α} {k : κ} {v : α} {e : κ × α}
    (h : e ∈ (m.insert k v).entries) : e = (k, v) ∨ e ∈ m.entries := by
  have hget := get?_eq_some_iff.2 h
  rw [get?_insert] at hget
  split at hget
  · next hk => exact .inl (Prod.ext hk.symm (Option.some.inj hget).symm)
  · exact .inr (get?_eq_some_iff.1 hget)

/-- Two maps are the same when their keys stand in the same order and have the same values. -/
theorem ext_get? {a b : OrderedMap κ α} (hkeys : a.keys = b.keys)
    (hget : ∀ k, a.get? k = b.get? k) : a = b := by
  have hentries (m : OrderedMap κ α) :
      m.entries.map some = m.keys.map fun k => (m.get? k).map (k, ·) := by
    rw [keys, List.map_map]
    refine List.map_congr_left fun e he => ?_
    rw [Function.comp_apply, get?_eq_some_iff.2 he]
    rfl
  have hsome : a.entries.map some = b.entries.map some := by
    rw [hentries a, hentries b, hkeys]
    exact List.map_congr_left fun k _ => by rw [hget]
  exact OrderedMap.ext (List.map_inj_right (fun _ _ => Option.some.inj) |>.1 hsome)

/-- Inserted one by one, entries with distinct keys decide where they have a value. -/
theorem get?_insertAll {es : List (κ × α)} (h : (es.map Prod.fst).Nodup) (m : OrderedMap κ α)
    (k : κ) : (m.insertAll es).get? k = (lookup k es).or (m.get? k) := by
  induction es generalizing m with
  | nil => rfl
  | cons e es ih =>
    rw [List.map_cons, List.nodup_cons] at h
    rw [insertAll_cons, ih h.2, get?_insert, lookup]
    split
    · next hk =>
      have hnone : lookup k es = none := lookup_eq_none.2 (hk ▸ h.1)
      rw [hnone, Option.none_or, Option.some_or]
    · rfl

/-- Inserted one by one, entries with distinct keys leave the keys that are there in their
places and add the others at the end. -/
theorem keys_insertAll {es : List (κ × α)} (h : (es.map Prod.fst).Nodup) (m : OrderedMap κ α) :
    (m.insertAll es).keys = m.keys ++ (es.map Prod.fst).filter (· ∉ m.keys) := by
  induction es generalizing m with
  | nil => exact (List.append_nil _).symm
  | cons e es ih =>
    rw [List.map_cons, List.nodup_cons] at h
    rw [insertAll_cons, ih h.2, keys_insert, List.map_cons]
    split
    · next hk => rw [List.filter_cons_of_neg (by simpa using hk)]
    · next hk =>
      rw [List.filter_cons_of_pos (by simpa using hk), List.append_assoc, List.singleton_append]
      -- the new key does not come again, so it is no reason to leave another one out
      congr 2
      refine List.filter_congr fun j hj => ?_
      have hne : j ≠ e.1 := fun hje => h.1 (hje ▸ hj)
      simp [hne]

/-- It makes no difference whether an entry is inserted before the entries of a map are inserted
into another, or after. -/
theorem insertAll_entries_insert (m n : OrderedMap κ α) (k : κ) (v : α) :
    m.insertAll (n.insert k v).entries = (m.insertAll n.entries).insert k v := by
  refine ext_get? ?_ fun j => ?_
  · have hmem : k ∈ (m.insertAll n.entries).keys ↔ k ∈ m.keys ∨ k ∈ n.keys := mem_keys_insertAll
    have hkeys (l : OrderedMap κ α) :
        (m.insertAll l.entries).keys = m.keys ++ l.keys.filter (· ∉ m.keys) :=
      keys_insertAll l.nodup m
    rw [hkeys, keys_insert n, keys_insert]
    -- a key that `n` has keeps its place there, one that only `m` has keeps its place in `m`
    by_cases hn : k ∈ n.keys
    · rw [if_pos hn, if_pos (hmem.2 (.inr hn)), hkeys n]
    · by_cases hm : k ∈ m.keys
      · rw [if_neg hn, if_pos (hmem.2 (.inl hm)), List.filter_append,
          List.filter_cons_of_neg (by simpa using hm), List.filter_nil, List.append_nil, hkeys n]
      · rw [if_neg hn, if_neg ((not_congr hmem).2 (not_or.2 ⟨hm, hn⟩)), List.filter_append,
          List.filter_cons_of_pos (by simpa using hm), List.filter_nil, hkeys n,
          List.append_assoc]
  · have hget (l : OrderedMap κ α) :
        (m.insertAll l.entries).get? j = (l.get? j).or (m.get? j) := get?_insertAll l.nodup m j
    rw [hget, get?_insert, get?_insert, hget]
    split
    · rfl
    · rfl

/-! ## Comparing -/

/-- Whether two maps give every key the same value, whatever the order of their entries. -/
def sameEntries [DecidableEq α] (a b : OrderedMap κ α) : Bool :=
  a.size = b.size && a.entries.all fun e => b.get? e.1 = some e.2

/-! ## Joining -/

/-- Whether every key of the second map has no value or the same value in the first. -/
def agrees [DecidableEq α] (a b : OrderedMap κ α) : Bool :=
  b.entries.all fun e => (a.get? e.1).all (· = e.2)

/-- The entries of the first map, then those of the second whose keys the first lacks. -/
def extend (a b : OrderedMap κ α) : OrderedMap κ α where
  entries := a.entries ++ b.entries.filter fun e => !a.contains e.1
  nodup := by
    rw [List.map_append]
    refine List.nodup_append.2 ⟨a.nodup, (List.filter_sublist.map _).nodup b.nodup, ?_⟩
    intro k ha j hj hkj
    obtain ⟨e, he, rfl⟩ := List.mem_map.1 hj
    have hk : e.1 ∉ a.keys := by
      have := (List.mem_filter.1 he).2
      rw [← contains_iff]
      simpa using this
    exact hk (hkj ▸ ha)

@[simp] theorem entries_extend (a b : OrderedMap κ α) :
    (a.extend b).entries = a.entries ++ b.entries.filter (fun e => !a.contains e.1) := rfl

theorem lookup_append (k : κ) (es fs : List (κ × α)) :
    lookup k (es ++ fs) = (lookup k es).or (lookup k fs) := by
  induction es with
  | nil => rfl
  | cons e es ih =>
    rw [List.cons_append, lookup, lookup, ih]
    split <;> rfl

theorem lookup_filter_of_pos (p : κ → Bool) {k : κ} (h : p k = true) (es : List (κ × α)) :
    lookup k (es.filter fun e => p e.1) = lookup k es := by
  induction es with
  | nil => rfl
  | cons e es ih =>
    by_cases hk : e.1 = k
    · rw [List.filter_cons_of_pos (by rw [hk, h]), lookup, lookup, if_pos hk, if_pos hk]
    · rw [List.filter_cons, lookup, if_neg hk]
      split
      · rw [lookup, if_neg hk, ih]
      · exact ih

/-- The first map decides where it has a value. -/
theorem get?_extend (a b : OrderedMap κ α) (k : κ) :
    (a.extend b).get? k = (a.get? k).or (b.get? k) := by
  rw [get?, entries_extend, lookup_append]
  cases ha : lookup k a.entries with
  | some v =>
    rw [get?, ha]
    rfl
  | none =>
    have hk : (!a.contains k) = true := by simp [contains, get?, ha]
    rw [lookup_filter_of_pos (fun j => !a.contains j) hk, get?, ha, get?]

theorem mem_keys_extend {a b : OrderedMap κ α} {k : κ} :
    k ∈ (a.extend b).keys ↔ k ∈ a.keys ∨ k ∈ b.keys := by
  simp only [← contains_iff, contains, get?_extend, Option.isSome_or, Bool.or_eq_true]

theorem agrees_iff [DecidableEq α] {a b : OrderedMap κ α} :
    a.agrees b = true ↔ ∀ k v w, a.get? k = some v → b.get? k = some w → v = w := by
  simp only [agrees, List.all_eq_true]
  constructor
  · intro h k v w ha hb
    have := h (k, w) (get?_eq_some_iff.1 hb)
    simpa [ha] using this
  · intro h e he
    cases ha : a.get? e.1 with
    | none => rfl
    | some v =>
      have := h e.1 v e.2 ha (get?_eq_some_iff.2 he)
      simpa using this

end OrderedMap

end DecisionTable
