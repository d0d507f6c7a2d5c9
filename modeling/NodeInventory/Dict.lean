/-!
# Dictionaries in key order

A dictionary maps texts to values and lists its entries by increasing key, where texts are compared
character by character on code points (which is also the order of their UTF-8 bytes). The entries
are kept as a strictly increasing association list, so a dictionary is determined by what it looks
up: there is one representation per finite map, and equality of dictionaries is equality of maps.

Everything that the program lists in key order is a dictionary: the labels of an object, the
resources of a node, the records of a store.
-/

namespace NodeInventory

universe u v

/-- A finite map from texts to values, listed by increasing key. -/
structure Dict (α : Type u) where
  /-- The entries, by increasing key. -/
  entries : List (String × α)
  sorted : entries.Pairwise fun a b ↦ a.1 < b.1
deriving DecidableEq

namespace Dict

variable {α : Type u} {β : Type v}

/-- The dictionary without entries. -/
def empty : Dict α := ⟨[], .nil⟩

instance : Inhabited (Dict α) := ⟨empty⟩

/-! ## Association lists in key order -/

/-- Puts an entry at its place, replacing one of the same key. -/
def insertEntry (k : String) (v : α) : List (String × α) → List (String × α)
  | [] => [(k, v)]
  | e :: rest =>
    if k < e.1 then (k, v) :: e :: rest
    else if k = e.1 then (k, v) :: rest
    else e :: insertEntry k v rest

theorem eq_or_mem_of_mem_insertEntry {k : String} {v : α} {e : String × α} :
    ∀ {l : List (String × α)}, e ∈ insertEntry k v l → e = (k, v) ∨ e ∈ l
  | [], h => by simpa [insertEntry] using h
  | a :: l, h => by
    unfold insertEntry at h
    split at h
    · simpa using h
    · split at h
      · simp only [List.mem_cons] at h ⊢
        exact h.imp id Or.inr
      · simp only [List.mem_cons] at h ⊢
        rcases h with h | h
        · exact .inr (.inl h)
        · exact (eq_or_mem_of_mem_insertEntry h).imp id Or.inr

theorem sorted_insertEntry (k : String) (v : α) :
    ∀ {l : List (String × α)}, (l.Pairwise fun a b ↦ a.1 < b.1) →
      (insertEntry k v l).Pairwise fun a b ↦ a.1 < b.1
  | [], _ => by simp [insertEntry]
  | a :: l, h => by
    rw [List.pairwise_cons] at h
    unfold insertEntry
    split
    · next hlt =>
      refine .cons (fun b hb ↦ ?_) (.cons h.1 h.2)
      rcases List.mem_cons.1 hb with rfl | hb
      · exact hlt
      · exact String.lt_trans hlt (h.1 b hb)
    · next hnlt =>
      split
      · next heq => exact .cons (fun b hb ↦ by simpa [heq] using h.1 b hb) h.2
      · next hne =>
        refine .cons (fun b hb ↦ ?_) (sorted_insertEntry k v h.2)
        rcases eq_or_mem_of_mem_insertEntry hb with rfl | hb
        · exact Classical.byContradiction fun hn ↦
            hne (String.le_antisymm (String.not_lt.1 hn) (String.not_lt.1 hnlt))
        · exact h.1 b hb

/-! ## Operations -/

/-- Maps `k` to `v`, whatever it was mapped to before. -/
def insert (d : Dict α) (k : String) (v : α) : Dict α :=
  ⟨insertEntry k v d.entries, sorted_insertEntry k v d.sorted⟩

/-- What `k` is mapped to, if anything. -/
def get? (d : Dict α) (k : String) : Option α :=
  (d.entries.find? fun e ↦ e.1 == k).map (·.2)

/-- Whether `k` is mapped to anything. -/
def contains (d : Dict α) (k : String) : Bool := d.entries.any fun e ↦ e.1 == k

/-- The dictionary without the key `k`. -/
def erase (d : Dict α) (k : String) : Dict α :=
  ⟨d.entries.filter fun e ↦ e.1 != k, d.sorted.filter _⟩

/-- The dictionary of a list of entries, a later entry taking the place of an earlier one of the
same key. -/
def ofList (l : List (String × α)) : Dict α := l.foldl (fun d e ↦ d.insert e.1 e.2) empty

/-- The entries by increasing key. -/
def toList (d : Dict α) : List (String × α) := d.entries

/-- The keys in increasing order. -/
def keys (d : Dict α) : List String := d.entries.map (·.1)

/-- The values by increasing key. -/
def values (d : Dict α) : List α := d.entries.map (·.2)

/-- The number of entries. -/
def size (d : Dict α) : Nat := d.entries.length

/-- Applies `f` to every value. -/
def map (f : α → β) (d : Dict α) : Dict β :=
  ⟨d.entries.map fun e ↦ (e.1, f e.2), by
    rw [List.pairwise_map]
    exact d.sorted⟩

/-- The entries whose key is greater than `k`. -/
def after (d : Dict α) (k : String) : List (String × α) := d.entries.filter fun e ↦ k < e.1

/-! ## Looking up

Each operation in terms of what it changes of the dictionary as a map.
-/

@[simp] theorem toList_empty : (empty : Dict α).toList = [] := rfl

@[simp] theorem get?_empty (k : String) : (empty : Dict α).get? k = none := rfl

theorem ext_toList {d e : Dict α} (h : d.toList = e.toList) : d = e := by
  cases d; cases e; cases h; rfl

theorem find?_insertEntry (k j : String) (v : α) (l : List (String × α)) :
    (insertEntry k v l).find? (fun e ↦ e.1 == j) =
      if j = k then some (k, v) else l.find? fun e ↦ e.1 == j := by
  induction l with
  | nil =>
    by_cases h : j = k
    · simp [insertEntry, h]
    · simp [insertEntry, h, Ne.symm h]
  | cons a l ih =>
    unfold insertEntry
    split
    · by_cases h : j = k
      · simp [h]
      · simp [h, Ne.symm h]
    · split
      · next hk =>
        by_cases h : j = k
        · simp [h]
        · simp [h, Ne.symm h, ← hk]
      · next hk =>
        by_cases ha : a.1 = j
        · have hjk : j ≠ k := fun h ↦ hk (h ▸ ha.symm)
          simp [ha, hjk]
        · simp [ha, ih]

/-- An insertion is seen under its own key and nowhere else. -/
theorem get?_insert (d : Dict α) (k j : String) (v : α) :
    (d.insert k v).get? j = if j = k then some v else d.get? j := by
  simp only [get?, insert, find?_insertEntry]
  split <;> rfl

@[simp] theorem get?_insert_self (d : Dict α) (k : String) (v : α) :
    (d.insert k v).get? k = some v := by
  simp [get?_insert]

/-- A key that was erased is mapped to nothing, and the others to what they were. -/
theorem get?_erase (d : Dict α) (k j : String) :
    (d.erase k).get? j = if j = k then none else d.get? j := by
  simp only [get?, erase, List.find?_filter]
  split
  · next h =>
    subst h
    rw [List.find?_eq_none.2]
    · rfl
    · intro e _
      by_cases he : e.1 = j <;> simp [he]
  · next h =>
    congr 2
    funext e
    by_cases he : e.1 = j
    · simp [he, h]
    · simp [he]

/-- The entries of a dictionary are what it maps. -/
theorem mem_toList_iff {d : Dict α} {k : String} {v : α} :
    (k, v) ∈ d.toList ↔ d.get? k = some v := by
  obtain ⟨l, hl⟩ := d
  simp only [toList, get?]
  induction l with
  | nil => simp
  | cons a l ih =>
    obtain ⟨ha, hl⟩ := List.pairwise_cons.1 hl
    by_cases h : a.1 = k
    · have hmem : (k, v) ∉ l := fun hm ↦ by simpa [h] using ha _ hm
      have hiff : (k, v) = a ↔ v = a.2 := by
        rw [Prod.ext_iff]
        simp [h]
      simp [h, hmem, hiff, eq_comm]
    · have hne : (k, v) ≠ a := fun e ↦ h (e ▸ rfl)
      simp [h, hne, ih hl]

end Dict

end NodeInventory
