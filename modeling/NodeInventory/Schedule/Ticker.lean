/-!
# Tickers

A ticker says when the ticks of a period are due. The first is due a period after the start. A tick
that is taken late by no more than a small tolerance does not shift those after it; one that is
taken later makes the next one due a full period after it was taken.
-/

namespace NodeInventory.Schedule

/-- A period, and when the next tick is due. -/
structure Ticker where
  period : Nat
  due : Nat
deriving DecidableEq, Repr

namespace Ticker

/-- How late a tick may be taken without shifting the next, in milliseconds. -/
def tolerance : Nat := 5

/-- A ticker that starts now. -/
def start (period now : Nat) : Ticker := ⟨period, now + period⟩

/-- Takes the tick that is due. -/
def take (t : Ticker) (now : Nat) : Ticker :=
  { t with due := if now ≤ t.due + tolerance then t.due + t.period else now + t.period }

/-- The next tick is due no sooner than a period after the one taken was. -/
theorem due_add_period_le_due_take (t : Ticker) (now : Nat) :
    t.due + t.period ≤ (t.take now).due := by
  simp only [take]
  split <;> omega

end Ticker

end NodeInventory.Schedule
