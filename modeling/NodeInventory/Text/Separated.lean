/-!
# Separated texts

A text is cut at every occurrence of a separating character. There is always one piece more than
there are separators, and joining the pieces with separators gives the text back.
-/

namespace NodeInventory.Text

/-- The pieces of a text between separators. -/
def pieces (sep : Char) : List Char → List (List Char)
  | [] => [[]]
  | c :: cs =>
    if c = sep then [] :: pieces sep cs
    else
      match pieces sep cs with
      | [] => [[c]]
      | p :: ps => (c :: p) :: ps

/-- Joins pieces with separators. -/
def joinPieces (sep : Char) : List (List Char) → List Char
  | [] => []
  | [p] => p
  | p :: q :: ps => p ++ sep :: joinPieces sep (q :: ps)

/-- Cuts a text at every separator. -/
def split (sep : Char) (s : String) : List String := (pieces sep s.toList).map String.ofList

/-- Joins texts with separators. -/
def join (sep : Char) (l : List String) : String :=
  String.ofList (joinPieces sep (l.map String.toList))

theorem pieces_ne_nil (sep : Char) : ∀ cs, pieces sep cs ≠ []
  | [] => by simp [pieces]
  | c :: cs => by
    unfold pieces
    split
    · simp
    · split <;> simp

/-- There is one piece more than there are separators. -/
theorem length_pieces (sep : Char) (cs : List Char) :
    (pieces sep cs).length = cs.count sep + 1 := by
  induction cs with
  | nil => simp [pieces]
  | cons c cs ih =>
    unfold pieces
    split
    · next h => simp [h, ih]
    · next h =>
      split
      · next hp => exact absurd hp (pieces_ne_nil sep cs)
      · next p ps hp => rw [hp] at ih; simpa [List.count_cons, h] using ih

/-- Joining the pieces gives the text back. -/
theorem joinPieces_pieces (sep : Char) (cs : List Char) : joinPieces sep (pieces sep cs) = cs := by
  induction cs with
  | nil => rfl
  | cons c cs ih =>
    unfold pieces
    split
    · next h =>
      obtain ⟨p, ps, hp⟩ := List.exists_cons_of_ne_nil (pieces_ne_nil sep cs)
      rw [hp] at ih ⊢
      simp [joinPieces, ih, h]
    · split
      · next hp => exact absurd hp (pieces_ne_nil sep cs)
      · next p ps hp =>
        rw [hp] at ih
        cases ps with
        | nil => simpa [joinPieces] using ih
        | cons q ps => simpa [joinPieces] using ih

end NodeInventory.Text
