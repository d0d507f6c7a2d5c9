import Mathlib.Data.List.Sort
import NodeInventory.Listing

/-!
# Dictionaries and their listings

A dictionary is determined by how many entries it has and by what they are (`eq_of_size_eq`), and
every entry of it comes in one and only one part of a listing: what is left after a part is what was
left before it without the entries of the part (`remaining_of_page_next`).
-/

namespace NodeInventory.Dict

variable {α : Type} {d e : Dict α} {k : String} {v : α}

theorem fst_ne_of_lt {a b : String × α} (h : a.1 < b.1) : a.1 ≠ b.1 := by
  intro hab
  rw [hab] at h
  exact String.lt_irrefl _ h

theorem nodup_keys (d : Dict α) : d.keys.Nodup :=
  List.pairwise_map.mpr (d.sorted.imp fst_ne_of_lt)

theorem nodup_toList (d : Dict α) : d.toList.Nodup :=
  List.Nodup.of_map _ d.nodup_keys

theorem mem_keys_iff : k ∈ d.keys ↔ ∃ v, d.get? k = some v := by
  simp only [keys, List.mem_map, ← mem_toList_iff, toList]
  constructor
  · rintro ⟨⟨j, v⟩, hmem, rfl⟩
    exact ⟨v, hmem⟩
  · rintro ⟨v, hmem⟩
    exact ⟨_, hmem, rfl⟩

theorem mem_keys_insert {j : String} : j ∈ (d.insert k v).keys ↔ j = k ∨ j ∈ d.keys := by
  rw [mem_keys_iff, mem_keys_iff, get?_insert]
  split
  · next h => exact iff_of_true ⟨v, rfl⟩ (.inl h)
  · next h => exact (or_iff_right h).symm

theorem mem_keys_erase {j : String} : j ∈ (d.erase k).keys ↔ j ≠ k ∧ j ∈ d.keys := by
  rw [mem_keys_iff, mem_keys_iff, get?_erase]
  split
  · next h => exact iff_of_false (by rintro ⟨_, ⟨⟩⟩) fun hj ↦ hj.1 h
  · next h => exact (and_iff_right h).symm

/-- Of two dictionaries of one size, one that has all entries of the other is the other. -/
theorem eq_of_size_eq (hsize : d.size = e.size) (h : ∀ a ∈ e.toList, d.get? a.1 = some a.2) :
    d = e := by
  have hsub : e.toList ⊆ d.toList := fun a ha ↦ mem_toList_iff.mpr (h a ha)
  have hperm : e.toList.Perm d.toList :=
    (List.subperm_of_subset e.nodup_toList hsub).perm_of_length_le (Nat.le_of_eq hsize)
  refine ext_toList (hperm.symm.eq_of_pairwise (fun a b _ _ hab hba ↦ ?_) d.sorted e.sorted)
  exact absurd (String.lt_trans hab hba) (String.lt_irrefl _)

theorem keys_eq_of_iff {β : Type} {e : Dict β}
    (h : ∀ k, (∃ v, d.get? k = some v) ↔ ∃ v, e.get? k = some v) : d.keys = e.keys := by
  have hsorted : ∀ {γ : Type} (f : Dict γ), f.keys.Pairwise (· < ·) := fun f ↦
    List.pairwise_map.mpr f.sorted
  have hperm : d.keys.Perm e.keys := by
    rw [List.perm_ext_iff_of_nodup d.nodup_keys e.nodup_keys]
    intro k
    rw [mem_keys_iff, mem_keys_iff, h]
  apply hperm.eq_of_pairwise _ (hsorted d) (hsorted e)
  intro a b _ _ hab hba
  exact absurd (String.lt_trans hab hba) (String.lt_irrefl _)

theorem ext_get? (h : ∀ k, d.get? k = e.get? k) : d = e := by
  have hperm : d.toList.Perm e.toList := by
    rw [List.perm_ext_iff_of_nodup d.nodup_toList e.nodup_toList]
    rintro ⟨k, v⟩
    rw [mem_toList_iff, mem_toList_iff, h]
  refine ext_toList (hperm.eq_of_pairwise (fun a b _ _ hab hba ↦ ?_) d.sorted e.sorted)
  exact absurd (String.lt_trans hab hba) (String.lt_irrefl _)

theorem map_map_snd {f : α → String} (hown : ∀ k v, d.get? k = some v → f v = k)
    {l : List (String × α)} (hl : l ⊆ d.toList) : (l.map (·.2)).map f = l.map (·.1) := by
  rw [List.map_map]
  refine List.map_congr_left fun a ha ↦ ?_
  exact hown a.1 a.2 (mem_toList_iff.mp (hl ha))

theorem size_erase_lt (h : d.get? k = some v) : (d.erase k).size < d.size := by
  refine List.length_filter_lt_length_iff_exists.mpr ⟨(k, v), mem_toList_iff.mpr h, ?_⟩
  simp

/-! ## Listing in parts -/

theorem mem_remaining_iff {token : Option String} {a : String × α} :
    a ∈ d.remaining token ↔ a ∈ d.toList ∧ ∀ t ∈ token, t < a.1 := by
  cases token with
  | none => simp [remaining]
  | some t => simp [remaining, after, toList]

theorem sorted_remaining (d : Dict α) (token : Option String) :
    (d.remaining token).Pairwise fun a b ↦ a.1 < b.1 := by
  cases token with
  | none => exact d.sorted
  | some t => exact d.sorted.filter _

theorem length_remaining_erase_le (d : Dict α) (k : String) (token : Option String) :
    ((d.erase k).remaining token).length ≤ (d.remaining token).length := by
  have hsub : (d.erase k).toList.Sublist d.toList := List.filter_sublist
  cases token with
  | none => exact hsub.length_le
  | some t => exact (hsub.filter _).length_le

theorem items_page (d : Dict α) (token : Option String) (limit : Nat) :
    (d.page token limit).items = ((d.remaining token).take (max limit 1)).map (·.2) := rfl

theorem take_of_page_next_eq_none {token : Option String} {limit : Nat}
    (h : (d.page token limit).next = none) :
    (d.remaining token).take (max limit 1) = d.remaining token := by
  refine List.take_of_length_le (Nat.le_of_not_lt fun hlt ↦ ?_)
  simp only [page] at h
  rw [if_neg (Nat.not_le_of_lt hlt), Option.map_eq_none_iff, List.getLast?_eq_none_iff,
    List.take_eq_nil_iff] at h
  rcases h with h | h
  · omega
  · rw [h] at hlt
    exact Nat.not_lt_zero _ hlt

theorem lt_of_page_next {token : Option String} {limit : Nat} {next : String}
    (h : (d.page token limit).next = some next) : max limit 1 < (d.remaining token).length := by
  refine Nat.lt_of_not_le fun hle ↦ ?_
  simp only [page, if_pos hle] at h
  cases h

/-- Any other part leaves what was left before it, without the entries of the part. -/
theorem remaining_of_page_next {token : Option String} {limit : Nat} {next : String}
    (h : (d.page token limit).next = some next) :
    d.remaining (some next) = (d.remaining token).drop (max limit 1) := by
  simp only [page] at h
  split at h
  · cases h
  obtain ⟨last, hlast, rfl⟩ := Option.map_eq_some_iff.mp h
  have hsorted := d.sorted_remaining token
  have hmem : last ∈ d.remaining token := List.mem_of_mem_take (List.mem_of_getLast? hlast)
  -- nothing up to the token of before comes after the last entry of the part
  have htoken : d.remaining (some last.1) = (d.remaining token).filter (last.1 < ·.1) := by
    cases token with
    | none => rfl
    | some t =>
      have hlt : t < last.1 := (mem_remaining_iff.mp hmem).2 t rfl
      simp only [remaining, after, List.filter_filter]
      refine List.filter_congr fun a _ ↦ ?_
      by_cases ha : last.1 < a.1
      · simp [ha, String.lt_trans hlt ha]
      · simp [ha]
  obtain ⟨part, hpart⟩ := List.getLast?_eq_some_iff.mp hlast
  rw [htoken]
  conv_lhs => rw [← List.take_append_drop (max limit 1) (d.remaining token), hpart]
  have hsplit := hsorted
  rw [← List.take_append_drop (max limit 1) (d.remaining token), hpart,
    List.pairwise_append, List.pairwise_append] at hsplit
  obtain ⟨⟨-, -, hbefore⟩, -, hafter⟩ := hsplit
  rw [List.filter_append, List.filter_eq_nil_iff.mpr, List.nil_append, List.filter_eq_self.mpr]
  · intro a ha
    exact decide_eq_true (hafter last (by simp) a ha)
  · intro a ha
    rw [decide_eq_true_iff]
    rcases List.mem_append.mp ha with ha | ha
    · exact fun hlt ↦ String.lt_irrefl _ (String.lt_trans hlt (hbefore a ha last (by simp)))
    · rw [List.mem_singleton.mp ha]
      exact String.lt_irrefl _

end NodeInventory.Dict
