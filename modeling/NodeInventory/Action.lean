import NodeInventory.Request

/-!
# Actions

An action asks one request after another, each depending on the answers so far, and ends with a
value. It ends on every sequence of answers, so it can be defined by recursion and reasoned about by
induction.
-/

namespace NodeInventory

/-- A sequence of requests that depends on their answers, and a value. -/
inductive Action (α : Type)
  | done (value : α)
  | ask (request : Request) (next : request.Answer → Action α)

namespace Action

variable {α β γ : Type}

/-- One action after another. -/
protected def bind : Action α → (α → Action β) → Action β
  | done a, f => f a
  | ask r next, f => ask r fun answer ↦ (next answer).bind f

instance : Monad Action where
  pure := done
  bind := Action.bind

@[simp] theorem pure_eq (a : α) : (pure a : Action α) = done a := rfl

@[simp] theorem done_bind (a : α) (f : α → Action β) : (done a >>= f) = f a := rfl

@[simp] theorem ask_bind (r : Request) (next : r.Answer → Action α) (f : α → Action β) :
    (ask r next >>= f) = ask r fun answer ↦ next answer >>= f := rfl

theorem bind_done (x : Action α) : x >>= done = x := by
  induction x with
  | done a => rfl
  | ask r next ih => simp only [ask_bind, ih]

theorem bind_assoc (x : Action α) (f : α → Action β) (g : β → Action γ) :
    x >>= f >>= g = x >>= fun a ↦ f a >>= g := by
  induction x with
  | done a => rfl
  | ask r next ih => simp only [ask_bind, ih]

/-! ## Single requests -/

/-- Reads a record. -/
def fetchRecord (name : String) : Action (Result (Option Record)) := ask (.fetchRecord name) done

/-- Stores a new record. -/
def createRecord (record : Record) : Action (Result Unit) := ask (.createRecord record) done

/-- Replaces a record that still has the given version. -/
def updateRecord (record : Record) (version : String) : Action (Result Unit) :=
  ask (.updateRecord record version) done

/-- Removes a record. -/
def deleteRecord (name : String) : Action (Result Unit) := ask (.deleteRecord name) done

/-- Reads the pods that are bound to a node. -/
def listPods (node : String) : Action (Result (List Pod)) := ask (.listPods node) done

/-- Calls the fleet registry. -/
def callFleet (call : Fleet.Call) : Action (Result Fleet.Response) := ask (.callFleet call) done

/-- Sets a key that is not set. -/
def setKey (key value : String) (ttl : Nat) : Action (Result Bool) :=
  ask (.setKey key value ttl) done

/-- Removes a key. -/
def deleteKey (key : String) : Action (Result Unit) := ask (.deleteKey key) done

/-- Puts a text at the end of a list. -/
def pushValue (list value : String) : Action (Result Unit) := ask (.pushValue list value) done

/-- Begins to extend a key time and again. -/
def startRenewal (key : String) (ttl : Nat) : Action Unit := ask (.startRenewal key ttl) done

/-- Stops extending a key. -/
def stopRenewal (key : String) : Action Unit := ask (.stopRenewal key) done

/-- Lets time pass. -/
def pause (millis : Nat) : Action Unit := ask (.pause millis) done

/-- Counts something. -/
def count (counter : Counter) : Action Unit := ask (.count counter) done

/-- Reports a failure. -/
def report (source : Report.Source) (subject : String) (failure : Failure) : Action Unit :=
  ask (.report ⟨source, subject, failure⟩) done

/-- Reports a result that is a failure. -/
def reportFailure (source : Report.Source) (subject : String) : Result Unit → Action Unit
  | .ok () => done ()
  | .error f => report source subject f

end Action

end NodeInventory
