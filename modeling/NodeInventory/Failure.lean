/-!
# Failures

A failure is a cause under any number of added contexts. A context says what was being attempted;
it is put in front of the text and changes nothing else, so the kind of a failure is the kind of
the cause at its root. The kinds matter to callers: a conflicting write is tried again, an object
that is already there or already gone is no failure at all to some.

The text of a failure is its chain, outermost first, joined by colons. A failed query and a failed
call keep the chain of what went wrong below them as part of their own text, and so do the failures
joined from the items of a batch.
-/

namespace NodeInventory

/-- A cause, under the contexts in which it arose. -/
inductive Failure
  /-- A cause that nobody tells apart. -/
  | plain (text : String)
  /-- What was attempted when the cause arose. -/
  | context (text : String) (cause : Failure)
  /-- The named object does not exist. -/
  | notFound (name : String)
  /-- The named object was created by somebody else first. -/
  | alreadyExists (name : String)
  /-- The named object was written with a stale version. -/
  | conflict (name : String)
  /-- A question to the cluster or to the record store went unanswered. -/
  | query (cause : Failure)
  /-- A call of the fleet registry failed. -/
  | rpc (cause : Failure)
  /-- A queued task is of a type that nothing handles. -/
  | unknownTask (type : String)
  /-- A queued task cannot be read. -/
  | malformedTask (text : String)
  /-- The failed items of a batch, in item order. -/
  | joined (failures : List Failure)
deriving Inhabited

/-- An answer, or why there is none. -/
abbrev Result (α : Type) := Except Failure α

namespace Failure

mutual

/-- The whole chain, outermost first, joined by colons. -/
def text : Failure → String
  | plain t => t
  | context t cause => t ++ ": " ++ cause.text
  | notFound name => "object not found: " ++ name
  | alreadyExists name => "object already exists: " ++ name
  | conflict name => "conflicting write to object: " ++ name
  | query cause => "query error: " ++ cause.text
  | rpc cause => "fleet rpc error: " ++ cause.text
  | unknownTask type => "unknown task type: " ++ type
  | malformedTask t => "malformed task payload: " ++ t
  | joined failures =>
    toString failures.length ++ " batch item(s) failed: " ++ "; ".intercalate (texts failures)

/-- The texts of several failures. -/
def texts : List Failure → List String
  | [] => []
  | f :: fs => f.text :: texts fs

end

theorem texts_eq_map : ∀ fs : List Failure, texts fs = fs.map text
  | [] => by simp [texts]
  | f :: fs => by simp [texts, texts_eq_map fs]

/-- The outermost text alone: the last context added, or the text of a failure without one. -/
def headline : Failure → String
  | context t _ => t
  | f => f.text

/-- The cause below all contexts. -/
def root : Failure → Failure
  | context _ cause => cause.root
  | f => f

/-- A failure whose chain is the given texts, outermost first. -/
def ofChain : List String → Failure
  | [] => plain ""
  | [t] => plain t
  | t :: ts => context t (ofChain ts)

/-- Adds contexts one after another, so the last of them is outermost. -/
def within (f : Failure) (contexts : List String) : Failure :=
  contexts.foldl (fun f t ↦ context t f) f

/-- Whether the named object does not exist. -/
def isNotFound (f : Failure) : Bool :=
  match f.root with
  | notFound _ => true
  | _ => false

/-- Whether the object was created by somebody else first. -/
def isAlreadyExists (f : Failure) : Bool :=
  match f.root with
  | alreadyExists _ => true
  | _ => false

/-- Whether a write carried a stale version. -/
def isConflict (f : Failure) : Bool :=
  match f.root with
  | conflict _ => true
  | _ => false

/-- The failed items among the results of a batch. -/
def collect : List (Result Unit) → List Failure
  | [] => []
  | .ok () :: rs => collect rs
  | .error f :: rs => f :: collect rs

/-- The result of a batch: every item was run, and all that failed are told together. -/
def join (results : List (Result Unit)) : Result Unit :=
  match collect results with
  | [] => .ok ()
  | fs => .error (joined fs)

@[simp] theorem root_context (t : String) (f : Failure) : (context t f).root = f.root := rfl

@[simp] theorem isConflict_context (t : String) (f : Failure) :
    (context t f).isConflict = f.isConflict := rfl

@[simp] theorem isNotFound_context (t : String) (f : Failure) :
    (context t f).isNotFound = f.isNotFound := rfl

@[simp] theorem isAlreadyExists_context (t : String) (f : Failure) :
    (context t f).isAlreadyExists = f.isAlreadyExists := rfl

end Failure

/-- Adds a context to a failure, and leaves an answer alone. -/
def Result.within {α : Type} (context : String) (r : Result α) : Result α :=
  r.mapError (Failure.context context)

@[simp] theorem Result.within_ok {α : Type} (context : String) (a : α) :
    Result.within context (.ok a) = .ok a := rfl

/-- There is an answer in the end if there is one at each step. -/
theorem Result.bind_eq_ok_iff {α β : Type} {r : Result α} {f : α → Result β} {b : β} :
    r >>= f = .ok b ↔ ∃ a, r = .ok a ∧ f a = .ok b := by
  cases r with
  | error e => exact iff_of_false (by rintro ⟨⟩) (by rintro ⟨a, ⟨⟩, -⟩)
  | ok a => exact ⟨fun h ↦ ⟨a, rfl, h⟩, fun ⟨_, ha, h⟩ ↦ Except.ok.inj ha ▸ h⟩

end NodeInventory
