import Mathlib.Algebra.Order.Floor.Div
import NodeInventory.Proofs.Dict
import NodeInventory.Proofs.Tour.System

/-!
# Reading a listing in parts

The keys of a dictionary are read in parts, and the dictionary may be another one for every part. A
token is the last key that was read, and each part takes up after it. So the keys that were read
increase all along, and a key that is there whenever a part is read is either among them or comes
after the token (`Reading`). When no token is left, nothing was missed (`Enumerated`).

Every part but the last has as many keys as were asked for, hence the number of parts is known from
the number of keys.
-/

namespace NodeInventory

namespace Dict

variable {α : Type} {d : Dict α} {token : Option String} {limit : ℕ} {t n : String}

/-- The keys in a part of a listing. -/
def part (d : Dict α) (token : Option String) (limit : ℕ) : List String :=
  ((d.remaining token).take (max limit 1)).map (·.1)

theorem sorted_keys (d : Dict α) : d.keys.Pairwise (· < ·) := List.pairwise_map.mpr d.sorted

theorem sorted_part (d : Dict α) (token : Option String) (limit : ℕ) :
    (d.part token limit).Pairwise (· < ·) :=
  List.pairwise_map.mpr ((d.sorted_remaining token).sublist (List.take_sublist _ _))

theorem mem_keys_of_mem_part (hn : n ∈ d.part token limit) : n ∈ d.keys := by
  obtain ⟨e, he, rfl⟩ := List.mem_map.mp hn
  exact List.mem_map_of_mem (mem_remaining_iff.mp (List.mem_of_mem_take he)).1

theorem lt_of_mem_part (hn : n ∈ d.part token limit) : ∀ t ∈ token, t < n := by
  obtain ⟨e, he, rfl⟩ := List.mem_map.mp hn
  exact (mem_remaining_iff.mp (List.mem_of_mem_take he)).2

theorem length_part_le : (d.part token limit).length ≤ max limit 1 := by
  rw [part, List.length_map, List.length_take]
  exact Nat.min_le_left _ _

theorem length_part_of_page_next (h : (d.page token limit).next = some t) :
    (d.part token limit).length = max limit 1 := by
  rw [part, List.length_map, List.length_take]
  exact Nat.min_eq_left (lt_of_page_next h).le

theorem getLast?_part (h : (d.page token limit).next = some t) :
    (d.part token limit).getLast? = some t := by
  simp only [page] at h
  split at h
  · cases h
  · rw [part, List.getLast?_map, h]

theorem mem_part_or_lt (hn : n ∈ d.keys) (htoken : ∀ t ∈ token, t < n) :
    n ∈ d.part token limit ∨ ∃ t, (d.page token limit).next = some t ∧ t < n := by
  obtain ⟨e, he, rfl⟩ := List.mem_map.mp hn
  have hmem : e ∈ d.remaining token := mem_remaining_iff.mpr ⟨he, htoken⟩
  cases hnext : (d.page token limit).next with
  | none =>
    refine .inl (List.mem_map_of_mem ?_)
    rwa [take_of_page_next_eq_none hnext]
  | some t =>
    rw [← List.take_append_drop (max limit 1) (d.remaining token), List.mem_append,
      ← remaining_of_page_next hnext] at hmem
    obtain hmem | hmem := hmem
    · exact .inl (List.mem_map_of_mem hmem)
    · exact .inr ⟨t, rfl, (mem_remaining_iff.mp hmem).2 t rfl⟩

theorem map_items_page {f : α → String} (hown : ∀ k v, d.get? k = some v → f v = k) :
    (d.page token limit).items.map f = d.part token limit := by
  rw [items_page, part]
  exact map_map_snd hown fun e he ↦ (mem_remaining_iff.mp (List.mem_of_mem_take he)).1

end Dict

namespace Tour

variable {α : Type} {d : Dict α} {limit : ℕ} {visits parts : List (List String)}
  {token : Option String} {t : String}

/-! ## Between two parts -/

/-- Some parts were read one after another, each of another dictionary, and there is more to read
after the token. -/
structure Reading (limit : ℕ) (visits parts : List (List String)) (token : Option String) :
    Prop where
  increasing : parts.flatten.Pairwise (· < ·)
  /-- The token is the last key that was read. -/
  last : parts.flatten.getLast? = token
  present : ∀ n ∈ parts.flatten, ∃ names ∈ visits, n ∈ names
  kept : ∀ n, (∀ names ∈ visits, n ∈ names) → n ∈ parts.flatten ∨ ∀ t ∈ token, t < n
  full : ∀ part ∈ parts, part.length = max limit 1
  length : parts.flatten.length = parts.length * max limit 1
  visited : visits.length = parts.length

theorem Reading.start (limit : ℕ) : Reading limit [] [] none :=
  ⟨by simp, by simp, by simp, by simp, by simp, by simp, by simp⟩

theorem Reading.lt_of_mem_part (h : Reading limit visits parts token) {m n : String}
    (hm : m ∈ parts.flatten) (hn : n ∈ d.part token limit) : m < n := by
  obtain ⟨before, t, hsplit⟩ :=
    (List.eq_nil_or_concat' parts.flatten).resolve_left (List.ne_nil_of_mem hm)
  have htoken : t ∈ token := by
    rw [← h.last, hsplit, List.getLast?_concat]
    rfl
  have hlt : t < n := Dict.lt_of_mem_part hn t htoken
  have hincreasing := h.increasing
  rw [hsplit, List.pairwise_append] at hincreasing
  rw [hsplit, List.mem_append, List.mem_singleton] at hm
  obtain hm | rfl := hm
  · exact String.lt_trans (hincreasing.2.2 m hm t (List.mem_singleton_self t)) hlt
  · exact hlt

theorem Reading.increasing_append (h : Reading limit visits parts token) :
    (parts.flatten ++ d.part token limit).Pairwise (· < ·) :=
  List.pairwise_append.mpr ⟨h.increasing, d.sorted_part token limit, fun _ hm _ hn ↦
    h.lt_of_mem_part hm hn⟩

theorem Reading.present_append (h : Reading limit visits parts token) :
    ∀ n ∈ parts.flatten ++ d.part token limit, ∃ names ∈ visits ++ [d.keys], n ∈ names := by
  intro n hn
  obtain hn | hn := List.mem_append.mp hn
  · obtain ⟨names, hnames, hmem⟩ := h.present n hn
    exact ⟨names, List.mem_append_left _ hnames, hmem⟩
  · exact ⟨d.keys, by simp, Dict.mem_keys_of_mem_part hn⟩

/-- What is there whenever a part is read was read, or comes after the token for what follows. -/
theorem Reading.kept_append (h : Reading limit visits parts token) {n : String}
    (hn : ∀ names ∈ visits ++ [d.keys], n ∈ names) :
    n ∈ parts.flatten ++ d.part token limit ∨
      ∃ t, (d.page token limit).next = some t ∧ t < n := by
  obtain hmem | htoken := h.kept n fun names hnames ↦ hn names (List.mem_append_left _ hnames)
  · exact .inl (List.mem_append_left _ hmem)
  · exact (Dict.mem_part_or_lt (hn _ (by simp)) htoken).imp_left (List.mem_append_right _)

theorem Reading.next (h : Reading limit visits parts token)
    (hnext : (d.page token limit).next = some t) :
    Reading limit (visits ++ [d.keys]) (parts ++ [d.part token limit]) (some t) := by
  have hflatten : (parts ++ [d.part token limit]).flatten =
      parts.flatten ++ d.part token limit := by simp
  have hlength := Dict.length_part_of_page_next hnext
  refine ⟨?_, ?_, ?_, fun n hn ↦ ?_, fun part hpart ↦ ?_, ?_, ?_⟩
  · rw [hflatten]
    exact h.increasing_append
  · rw [hflatten, List.getLast?_append, Dict.getLast?_part hnext]
    rfl
  · rw [hflatten]
    exact h.present_append
  · rw [hflatten]
    refine (h.kept_append hn).imp_right ?_
    rintro ⟨t', ht', hlt⟩ t'' ht''
    rw [hnext] at ht'
    cases ht'
    cases ht''
    exact hlt
  · obtain hpart | hpart := List.mem_append.mp hpart
    · exact h.full part hpart
    · rw [List.mem_singleton.mp hpart, hlength]
  · rw [hflatten, List.length_append, h.length, hlength, List.length_append, List.length_singleton,
      Nat.add_mul, Nat.one_mul]
  · rw [List.length_append, List.length_append, h.visited, List.length_singleton,
      List.length_singleton]

/-! ## After the last part -/

/-- Parts, and one more unless it is empty. -/
def addPart (parts : List (List String)) : List String → List (List String)
  | [] => parts
  | part => parts ++ [part]

theorem addPart_of_ne_nil {part : List String} (h : part ≠ []) :
    addPart parts part = parts ++ [part] := by
  cases part with
  | nil => exact absurd rfl h
  | cons n names => rfl

@[simp] theorem flatten_addPart (parts : List (List String)) (part : List String) :
    (addPart parts part).flatten = parts.flatten ++ part := by
  cases part with
  | nil => simp [addPart]
  | cons n names => simp [addPart]

/-- A listing was read to its end, in parts, each of another dictionary. -/
structure Enumerated (limit : ℕ) (visits parts : List (List String)) : Prop where
  increasing : parts.flatten.Pairwise (· < ·)
  /-- What was there whenever a part was read was read. -/
  complete : ∀ n, (∀ names ∈ visits, n ∈ names) → n ∈ parts.flatten
  /-- What was read was there when a part was read. -/
  present : ∀ n ∈ parts.flatten, ∃ names ∈ visits, n ∈ names
  sizes : ∀ part ∈ parts, 1 ≤ part.length ∧ part.length ≤ max limit 1
  number : parts.length = parts.flatten.length ⌈/⌉ max limit 1
  /-- If nothing changed meanwhile, all was read. -/
  unchanging : ∀ names, (∀ visit ∈ visits, visit = names) → parts.flatten = names
  visited : visits.length ≤ parts.length + 1

theorem succ_eq_ceilDiv {k m p : ℕ} (hp : 1 ≤ p) (hpm : p ≤ m) :
    k + 1 = (k * m + p) ⌈/⌉ m := by
  rw [Nat.ceilDiv_eq_add_pred_div]
  refine (Nat.div_eq_of_lt_le ?_ ?_).symm
  · rw [Nat.add_mul]
    omega
  · rw [Nat.add_mul, Nat.add_mul]
    omega

theorem nodup_of_increasing {l : List String} (h : l.Pairwise (· < ·)) : l.Nodup := by
  refine h.imp fun {m n} hlt heq ↦ ?_
  rw [heq] at hlt
  exact String.lt_irrefl n hlt

theorem eq_of_increasing {l l' : List String} (hl : l.Pairwise (· < ·)) (hl' : l'.Pairwise (· < ·))
    (h : ∀ n, n ∈ l ↔ n ∈ l') : l = l' := by
  have hperm : l.Perm l' :=
    (List.perm_ext_iff_of_nodup (nodup_of_increasing hl) (nodup_of_increasing hl')).mpr h
  refine hperm.eq_of_pairwise (fun a b _ _ hab hba ↦ ?_) hl hl'
  exact absurd (String.lt_trans hab hba) (String.lt_irrefl _)

theorem Reading.finish (h : Reading limit visits parts token)
    (hnext : (d.page token limit).next = none) :
    Enumerated limit (visits ++ [d.keys]) (addPart parts (d.part token limit)) := by
  have hcomplete : ∀ n, (∀ names ∈ visits ++ [d.keys], n ∈ names) →
      n ∈ parts.flatten ++ d.part token limit := fun n hn ↦
    (h.kept_append hn).resolve_right fun ⟨t, ht, _⟩ ↦ by
      rw [hnext] at ht
      cases ht
  have hpositive : 1 ≤ max limit 1 := Nat.le_max_right _ _
  refine ⟨?_, ?_, ?_, fun part hpart ↦ ?_, ?_, fun names hnames ↦ ?_, ?_⟩
  · rw [flatten_addPart]
    exact h.increasing_append
  · rw [flatten_addPart]
    exact hcomplete
  · rw [flatten_addPart]
    exact h.present_append
  · by_cases hempty : d.part token limit = []
    · rw [hempty] at hpart
      rw [h.full part hpart]
      exact ⟨hpositive, le_refl _⟩
    · rw [addPart_of_ne_nil hempty, List.mem_append, List.mem_singleton] at hpart
      obtain hpart | rfl := hpart
      · rw [h.full part hpart]
        exact ⟨hpositive, le_refl _⟩
      · exact ⟨List.length_pos_iff.mpr hempty, Dict.length_part_le⟩
  · rw [flatten_addPart, List.length_append, h.length]
    by_cases hempty : d.part token limit = []
    · rw [hempty, addPart, List.length_nil, Nat.add_zero, Nat.mul_comm]
      exact (smul_ceilDiv hpositive parts.length).symm
    · rw [addPart_of_ne_nil hempty, List.length_append, List.length_singleton]
      exact succ_eq_ceilDiv (List.length_pos_iff.mpr hempty) Dict.length_part_le
  · -- what was read is what was there for the last part, and hence for every part
    have hkeys : d.keys = names := hnames _ (by simp)
    rw [flatten_addPart]
    refine eq_of_increasing h.increasing_append (hkeys ▸ d.sorted_keys) fun n ↦ ⟨fun hn ↦ ?_,
      fun hn ↦ hcomplete n fun visit hvisit ↦ by rwa [hnames visit hvisit]⟩
    obtain ⟨visit, hvisit, hmem⟩ := h.present_append n hn
    rwa [hnames visit hvisit] at hmem
  · rw [List.length_append, List.length_singleton, h.visited]
    refine Nat.succ_le_succ ?_
    cases d.part token limit with
    | nil => exact le_refl _
    | cons n names => simp [addPart]

end Tour

end NodeInventory
