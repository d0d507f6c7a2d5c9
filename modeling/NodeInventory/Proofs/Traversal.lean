import Mathlib.Data.List.Forall2

/-!
# Item by item

A function that may have no value, applied to all items of a list, has the list of its values just
if it has a value for every item.
-/

namespace NodeInventory

universe u v w

variable {α : Type u} {β : Type v} {γ : Type w} {f : α → Option β}

theorem mapM_eq_some_iff {l : List α} {r : List β} :
    l.mapM f = some r ↔ List.Forall₂ (fun a b ↦ f a = some b) l r := by
  induction l generalizing r with
  | nil => simp [eq_comm]
  | cons a l ih =>
    rw [List.mapM_cons]
    cases r with
    | nil => simp [Option.bind_eq_some_iff]
    | cons b r => simp [ih, Option.bind_eq_some_iff]

theorem exists_of_mem_of_mapM {l : List α} {r : List β} (h : l.mapM f = some r) {b : β}
    (hb : b ∈ r) : ∃ a ∈ l, f a = some b := by
  have hall := mapM_eq_some_iff.mp h
  clear h
  induction hall with
  | nil => cases hb
  | cons hab _ ih =>
    rcases List.mem_cons.mp hb with rfl | hb
    · exact ⟨_, List.mem_cons_self, hab⟩
    · exact (ih hb).imp fun a ↦ And.imp_left (List.mem_cons_of_mem _)

theorem mapM_eq_some_iff_eq_map {g : β → α} (h : ∀ a b, f a = some b ↔ a = g b) {l : List α}
    {r : List β} : l.mapM f = some r ↔ l = r.map g := by
  rw [mapM_eq_some_iff, ← List.forall₂_eq_eq_eq, List.forall₂_map_right_iff]
  simp only [h]

theorem mapM_map {g : γ → α} {h : γ → β} {l : List γ} (hl : ∀ c ∈ l, f (g c) = some (h c)) :
    (l.map g).mapM f = some (l.map h) := by
  rw [mapM_eq_some_iff, List.forall₂_map_left_iff, List.forall₂_map_right_iff]
  exact List.forall₂_same.mpr hl

end NodeInventory
