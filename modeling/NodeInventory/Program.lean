import NodeInventory.Action

/-!
# Programs

A program is an action with two more ways to go on. A *batch* runs a list of actions, a bounded
number of them at once, and goes on with all their results in order. A *loop* asks, acts on the
answer, and either asks again or goes on; how often is for the answers to say, so a loop need not
end. Every round of a loop begins with a request: a program is always either done or waiting for an
answer, whatever has been answered so far.

Run item by item, a program is a sequence of requests (`Program.view`).
-/

namespace NodeInventory

/-- Requests, batches and loops, and a value at the end. -/
inductive Program (α : Type) : Type 1
  | done (value : α)
  | ask (request : Request) (next : request.Answer → Program α)
  /-- All items, at most `parallelism` of them at once if this is positive. -/
  | batch (parallelism : Int) (items : List (Action (Result Unit)))
      (next : List (Result Unit) → Program α)
  /-- Asks and acts, from one state to the next, until there is a value to go on with. -/
  | loop {σ β : Type} (question : σ → Request)
      (act : (s : σ) → (question s).Answer → Action (σ ⊕ β)) (state : σ) (next : β → Program α)

namespace Program

variable {α β : Type}

/-- One program after another. -/
protected def bind : Program α → (α → Program β) → Program β
  | done a, f => f a
  | ask r next, f => ask r fun answer ↦ (next answer).bind f
  | batch p items next, f => batch p items fun results ↦ (next results).bind f
  | loop question act s next, f => loop question act s fun b ↦ (next b).bind f

instance : Monad Program where
  pure := done
  bind := Program.bind

/-- An action, and then a program. -/
def afterAction : Action α → (α → Program β) → Program β
  | .done a, f => f a
  | .ask r next, f => ask r fun answer ↦ afterAction (next answer) f

/-- An action as a program. -/
def ofAction (a : Action α) : Program α := afterAction a done

instance : Coe (Action α) (Program α) := ⟨ofAction⟩

/-- Runs the items of a batch, and joins the failures of all of them. -/
def joined (parallelism : Int) (items : List (Action (Result Unit))) : Program (Result Unit) :=
  batch parallelism items fun results ↦ done (Failure.join results)

@[simp] theorem pure_eq (a : α) : (pure a : Program α) = done a := rfl

@[simp] theorem done_bind (a : α) (f : α → Program β) : (done a >>= f) = f a := rfl

@[simp] theorem ask_bind (r : Request) (next : r.Answer → Program α) (f : α → Program β) :
    (ask r next >>= f) = ask r fun answer ↦ next answer >>= f := rfl

@[simp] theorem batch_bind (p : Int) (items : List (Action (Result Unit)))
    (next : List (Result Unit) → Program α) (f : α → Program β) :
    (batch p items next >>= f) = batch p items fun results ↦ next results >>= f := rfl

/-! ## One request at a time -/

/-- What a program does next: it is done, or it asks and goes on. -/
inductive View (α : Type) : Type 1
  | done (value : α)
  | ask (request : Request) (next : request.Answer → Program α)

/-- What a program does next that runs the items of a batch one after another. The results so far
come last first. -/
def viewItems (parallelism : Int) (next : List (Result Unit) → Program α)
    (viewNext : List (Result Unit) → View α) :
    List (Action (Result Unit)) → List (Result Unit) → View α
  | [], results => viewNext results.reverse
  | .done r :: items, results => viewItems parallelism next viewNext items (r :: results)
  | .ask q go :: items, results =>
    .ask q fun answer ↦ afterAction (go answer) fun r ↦
      batch parallelism items fun later ↦ next (results.reverse ++ r :: later)

/-- What a program does next, if it runs the items of a batch one after another. -/
def view : Program α → View α
  | done a => .done a
  | ask r next => .ask r next
  | batch p items next => viewItems p next (fun results ↦ (next results).view) items []
  | loop question act s next =>
    .ask (question s) fun answer ↦ afterAction (act s answer) fun
      | .inl s' => loop question act s' next
      | .inr b => next b

end Program

end NodeInventory
