import NodeInventory.Failure

/-!
# Bounded batches in time

Tasks that each take a known time run at most so many at once. They start in order, each as soon as
fewer than the bound are running; without a bound all start at once. A task that ends makes room in
the same moment for one that starts, so the two do not run together.
-/

namespace NodeInventory.Schedule

/-- When a task starts and ends. -/
structure Span where
  start : Nat
  finish : Nat
deriving DecidableEq, Repr

/-- Puts a number at its place in an increasing list. -/
def insertSorted (n : Nat) : List Nat → List Nat
  | [] => [n]
  | m :: ms => if n ≤ m then n :: m :: ms else m :: insertSorted n ms

/-- The spans of tasks, given when the tasks that hold the places end, in increasing order. While
there are places left a task starts at once; after that it starts when the first of them ends. -/
def spansFrom (bound : Nat) : (ends : List Nat) → (durations : List Nat) → List Span
  | _, [] => []
  | ends, d :: ds =>
    if ends.length < bound then ⟨0, d⟩ :: spansFrom bound (insertSorted d ends) ds
    else
      match ends with
      | [] => ⟨0, d⟩ :: spansFrom bound [] ds
      | e :: es => ⟨e, e + d⟩ :: spansFrom bound (insertSorted (e + d) es) ds

/-- The spans of tasks of the given durations, at most `parallelism` of them at once if this is
positive. -/
def spans (parallelism : Int) (durations : List Nat) : List Span :=
  if 0 < parallelism then spansFrom parallelism.toNat [] durations
  else durations.map fun d ↦ ⟨0, d⟩

/-- How many of the given tasks run together at some moment. A task that takes no time runs only
together with those that were under way when it started. -/
def peak (l : List Span) : Nat :=
  l.zipIdx.foldl (fun most (s, i) ↦
    max most (1 + ((l.take i).filter fun t ↦ s.start < t.finish).length)) 0

end NodeInventory.Schedule
