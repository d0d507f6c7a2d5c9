import NodeInventory.Word

/-!
# Calculations on words

An operation on words stops the calculation if its result leaves the word, so a calculation comes to
a value just if none of its operations does. An operation that looks at its result first stops
nothing: where the result does not fit, it gives none.
-/

namespace NodeInventory

/-- The kinds of words. -/
inductive Word.Kind
  | signed (bits : Nat)
  | unsigned (bits : Nat)
deriving DecidableEq, Repr

namespace Word.Kind

/-- The least number of a word. -/
def least : Kind → Int
  | signed bits => minInt bits
  | unsigned _ => 0

/-- The greatest number of a word. -/
def greatest : Kind → Int
  | signed bits => maxInt bits
  | unsigned bits => maxNat bits

/-- Whether a word has room for a number. -/
def Holds (k : Kind) (n : Int) : Prop := k.least ≤ n ∧ n ≤ k.greatest

instance (k : Kind) (n : Int) : Decidable (k.Holds n) := inferInstanceAs (Decidable (_ ∧ _))

/-- The number, if a word has room for it. -/
def checked (k : Kind) (n : Int) : Option Int := if k.Holds n then some n else none

theorem checked_eq_some_iff {k : Kind} {n m : Int} :
    k.checked n = some m ↔ k.Holds n ∧ m = n := by
  unfold checked
  split
  · next h => simp [h, eq_comm]
  · next h => simp [h]

end Word.Kind

/-- What a calculation comes to. -/
inductive Calculation (α : Type)
  | exact (value : α)
  /-- An operation has left its word. -/
  | overrun
deriving DecidableEq, Repr

namespace Calculation

variable {α β : Type}

instance : Monad Calculation where
  pure := exact
  bind c f :=
    match c with
    | exact a => f a
    | overrun => overrun

/-- An operation on words. -/
def operate (k : Word.Kind) (result : Int) : Calculation Int :=
  if k.Holds result then exact result else overrun

@[simp] theorem pure_eq (a : α) : (pure a : Calculation α) = exact a := rfl

@[simp] theorem exact_bind (a : α) (f : α → Calculation β) : (exact a >>= f) = f a := rfl

@[simp] theorem overrun_bind (f : α → Calculation β) : (overrun >>= f) = overrun := rfl

theorem operate_of_holds {k : Word.Kind} {n : Int} (h : k.Holds n) : operate k n = exact n :=
  if_pos h

/-- A calculation comes to a value if each of its parts does. -/
theorem bind_eq_exact_iff {c : Calculation α} {f : α → Calculation β} {b : β} :
    c >>= f = exact b ↔ ∃ a, c = exact a ∧ f a = exact b := by
  cases c with
  | exact a =>
    constructor
    · exact fun h ↦ ⟨a, rfl, h⟩
    · rintro ⟨_, ⟨⟩, h⟩
      exact h
  | overrun => exact iff_of_false (by rintro ⟨⟩) (by rintro ⟨_, ⟨⟩, _⟩)

variable {ε : Type} {c : Calculation (Except ε α)} {f : α → Calculation (Except ε β)}

/-- What follows on a calculation that may come to a failure, and then remains one. -/
def andThen (c : Calculation (Except ε α)) (f : α → Calculation (Except ε β)) :
    Calculation (Except ε β) :=
  match c with
  | exact (.ok a) => f a
  | exact (.error e) => exact (.error e)
  | overrun => overrun

@[simp] theorem ok_andThen (a : α) : (exact (.ok a)).andThen f = f a := rfl

theorem andThen_eq_ok_iff {b : β} :
    c.andThen f = exact (.ok b) ↔ ∃ a, c = exact (.ok a) ∧ f a = exact (.ok b) := by
  unfold andThen
  split
  · next a =>
    constructor
    · exact fun h ↦ ⟨a, rfl, h⟩
    · rintro ⟨_, ⟨⟩, h⟩
      exact h
  · exact iff_of_false (by rintro ⟨⟩) (by rintro ⟨_, ⟨⟩, _⟩)
  · exact iff_of_false (by rintro ⟨⟩) (by rintro ⟨_, ⟨⟩, _⟩)

end Calculation

end NodeInventory
