import Mathlib.Data.Nat.Notation
import Mathlib.Logic.Function.Basic
import NodeInventory.Operation.Locked
import NodeInventory.Proofs.Interleaving
import NodeInventory.Proofs.Run
import NodeInventory.Simulation.Kernel

/-!
# Runs of one job, on many instances

Any number of runs of a job under its lock, each on some instance, share a store of keys. They begin
at any time, and ask in any order. A store command may fail, and one that fails may have had its
effect all the same. A renewal extends the key at any time from which it is due, late or not. An
instance may crash, and then its runs and their renewals are gone together. All other keys of the
store may change at any time, and what a run asks about other things may be answered in any way.

A step is *punctual* if no command about the lock fails, and if no time passes while a renewal is
due or while a run has something to do that takes no time.

Two things are kept beside the state that no step depends on: how each run stands to the lock, as
far as the run was told, and whose acquisition it was that set the key.
-/

namespace NodeInventory

open Simulation (Kernel Renewal World)

/-- The key that a request about a lock is about. -/
def Request.lockKey? : Request → Option String
  | setKey key _ _ | extendKey key _ | deleteKey key | startRenewal key _ | stopRenewal key =>
    some key
  | _ => none

/-- Whether a request only counts or reports something, which takes no time. -/
def Request.IsNote (r : Request) : Prop := r.kind ∈ [Kind.count, .report]

theorem Request.IsNote.lockKey?_eq_none {r : Request} (hr : r.IsNote) : r.lockKey? = none := by
  cases r with
  | count | report => rfl
  | _ => simp [IsNote, kind] at hr

namespace Lock

/-! ## Runs and instances -/

/-- A run of a job that is to be tried. -/
structure Attempt where
  /-- The instance on which it is tried. -/
  host : ℕ
  owner : String
  ttl : ℕ
  work : Program (Result Unit)

/-- A job, and all the runs of it. -/
structure Scene where
  job : String
  attempts : ℕ → Attempt

/-- The key that locks the job. -/
def Scene.key (c : Scene) : String := Lock.key c.job

/-- What a run does. -/
def Scene.program (c : Scene) (i : ℕ) : Program RunOutcome :=
  run (c.attempts i).owner c.job (c.attempts i).ttl (c.attempts i).work

/-- How a run stands to the lock. -/
inductive Standing
  /-- It has not tried to get the lock. -/
  | outside
  /-- It has got the lock, and nothing extends the key yet. -/
  | granted
  /-- It has got the lock, and extends the key. -/
  | kept
  /-- It has stopped extending the key. -/
  | leaving
  /-- It did not get the lock, or has given it up, or is gone. -/
  | gone
deriving DecidableEq, Repr

namespace Standing

/-- The run has got the lock, and has not given it up. -/
def Holds : Standing → Prop
  | granted | kept | leaving => True
  | outside | gone => False

/-- How a run stands to the lock of a key after it was answered. -/
def after (key : String) (st : Standing) : (r : Request) → r.Answer → Standing
  | .setKey k _ _, (answer : Result Bool) =>
    if k = key then
      match answer with
      | .ok true => granted
      | _ => gone
    else st
  | .startRenewal k _, _ => if k = key then kept else st
  | .stopRenewal k, _ => if k = key then leaving else st
  | .deleteKey k, _ => if k = key then gone else st
  | _, _ => st

variable {key value : String} {ttl : ℕ} (st : Standing)

@[simp] theorem after_setKey_true : st.after key (.setKey key value ttl) (.ok true) = granted :=
  if_pos rfl

@[simp] theorem after_setKey_false : st.after key (.setKey key value ttl) (.ok false) = gone :=
  if_pos rfl

@[simp] theorem after_setKey_error (f : Failure) :
    st.after key (.setKey key value ttl) (.error f) = gone := if_pos rfl

@[simp] theorem after_startRenewal (a : (Request.startRenewal key ttl).Answer) :
    st.after key (.startRenewal key ttl) a = kept := if_pos rfl

@[simp] theorem after_stopRenewal (a : (Request.stopRenewal key).Answer) :
    st.after key (.stopRenewal key) a = leaving := if_pos rfl

@[simp] theorem after_deleteKey (a : (Request.deleteKey key).Answer) :
    st.after key (.deleteKey key) a = gone := if_pos rfl

theorem after_of_ne {r : Request} (hr : r.lockKey? ≠ some key) (st : Standing)
    (a : r.Answer) : st.after key r a = st := by
  have hne : ∀ k, some k ≠ some key → k ≠ key := fun k hk hkey ↦ hk (congrArg some hkey)
  cases r with
  | setKey k | startRenewal k | stopRenewal k | deleteKey k => exact if_neg (hne k hr)
  | _ => rfl

end Standing

/-! ## States -/

/-- All that a lock is made of. -/
structure Board where
  /-- The time in milliseconds. -/
  now : ℕ
  keys : KeyStore
  renewals : List Renewal
  /-- How the runs stand to the lock. -/
  standing : ℕ → Standing
  /-- The run that set the key last, until the key is removed. -/
  setter : Option ℕ

/-- What a run is about. -/
inductive Stage
  | waiting
  | running (rest : Program RunOutcome)
  | crashed

/-- The lock, and the runs. -/
structure State where
  board : Board
  stages : ℕ → Stage

/-- No run has begun. -/
def Scene.start (now : ℕ) (keys : KeyStore) : State :=
  ⟨⟨now, keys, [], fun _ ↦ .outside, none⟩, fun _ ↦ .waiting⟩

namespace Board

/-- The entry of a key, whether its end has come or not. -/
def slot? (b : Board) (key : String) : Option KeyStore.Entry := b.keys.keys.get? key

/-- A key is set, and its end has not come. -/
def IsSet (b : Board) (key : String) : Prop := ∃ e, b.slot? key = some e ∧ b.now < e.expiry

/-- The board on which a run has a standing. -/
def place (b : Board) (i : ℕ) (st : Standing) : Board :=
  { b with standing := Function.update b.standing i st }

/-- The board on which a run has set a key. -/
def set (b : Board) (i : ℕ) (key value : String) (ttl : ℕ) : Board :=
  { b with keys := (b.keys.set b.now key value ttl).1, setter := some i }

/-- The board on which a key was removed. -/
def delete (b : Board) (key : String) : Board :=
  { b with keys := b.keys.delete key, setter := none }

/-- The board on which a run begins to extend a key. -/
def startRenewal (b : Board) (i : ℕ) (key : String) (ttl : ℕ) : Board :=
  { b with renewals := b.renewals ++ [{ agent := i, key, ttl, since := b.now }] }

/-- The board on which a run has stopped extending a key. -/
def stopRenewal (b : Board) (i : ℕ) (key : String) : Board :=
  { b with renewals := (Kernel.stopRenewal i key b.renewals).2 }

theorem place_standing (b : Board) (i : ℕ) : b.place i (b.standing i) = b := by
  rw [place, Function.update_eq_self]

theorem value?_eq_none_iff {b : Board} {key : String} :
    b.keys.value? b.now key = none ↔ ¬b.IsSet key := by
  rw [IsSet, slot?, KeyStore.value?]
  cases b.keys.keys.get? key with
  | none => simp
  | some e => simp

theorem set_eq_true_iff {b : Board} {key value : String} {ttl : ℕ} :
    (b.keys.set b.now key value ttl).2 = true ↔ ¬b.IsSet key := by
  rw [← value?_eq_none_iff, KeyStore.set]
  cases b.keys.value? b.now key <;> simp

theorem slot?_set {b : Board} {key value : String} {i ttl : ℕ} (h : ¬b.IsSet key) :
    (b.set i key value ttl).slot? key = some ⟨value, b.now + ttl⟩ := by
  rw [← value?_eq_none_iff] at h
  simp [set, slot?, KeyStore.set, h]

theorem value?_eq_some {b : Board} {key : String} {e : KeyStore.Entry}
    (he : b.slot? key = some e) (hopen : b.now < e.expiry) :
    b.keys.value? b.now key = some e.value := by
  rw [KeyStore.value?, show b.keys.keys.get? key = some e from he]
  exact if_pos hopen

theorem get?_extend {b : Board} {key : String} {e : KeyStore.Entry} (he : b.slot? key = some e)
    (hopen : b.now < e.expiry) (ttl : ℕ) :
    (b.keys.extend b.now key ttl).1.keys.get? key = some ⟨e.value, b.now + ttl⟩ := by
  simp [KeyStore.extend, value?_eq_some he hopen]

theorem extend_eq_self {b : Board} {key : String} {ttl : ℕ} (h : ¬b.IsSet key) :
    b.keys.extend b.now key ttl = (b.keys, false) := by
  rw [KeyStore.extend, value?_eq_none_iff.mpr h]

theorem slot?_delete (b : Board) (key : String) : (b.delete key).slot? key = none := by
  simp [delete, slot?, KeyStore.delete, Dict.get?_erase]

/-- The effect of a command about the lock, and its answer. -/
inductive Obeys (key : String) (b : Board) (i : ℕ) : (r : Request) → r.Answer → Board → Prop
  | set {value : String} {ttl : ℕ} (hset : (b.keys.set b.now key value ttl).2 = true) :
    Obeys key b i (.setKey key value ttl) (.ok true) (b.set i key value ttl)
  | taken {value : String} {ttl : ℕ} (hset : (b.keys.set b.now key value ttl).2 = false) :
    Obeys key b i (.setKey key value ttl) (.ok false) b
  | delete : Obeys key b i (.deleteKey key) (.ok ()) (b.delete key)
  | startRenewal (ttl : ℕ) : Obeys key b i (.startRenewal key ttl) () (b.startRenewal i key ttl)
  | stopRenewal : Obeys key b i (.stopRenewal key) () (b.stopRenewal i key)

/-- The answers to what a run asks, each with what becomes of the board. -/
inductive Answers (key : String) (b : Board) (i : ℕ) (r : Request) : r.Answer → Board → Prop
  | told {a : r.Answer} {b' : Board} (h : b.Obeys key i r a b') : Answers key b i r a b'
  /-- A command fails and has no effect. -/
  | refused {f : Failure} {a : r.Answer} (hr : r.lockKey? = some key)
      (ha : World.refuse f r = some a) : Answers key b i r a b
  /-- A command has its effect, but fails for the run. -/
  | unheard {f : Failure} {a a' : r.Answer} {b' : Board} (h : b.Obeys key i r a b')
      (ha : World.refuse f r = some a') : Answers key b i r a' b'
  /-- Other things are answered in any way. -/
  | other (hr : r.lockKey? ≠ some key) (a : r.Answer) : Answers key b i r a b

theorem Obeys.standing_eq {key : String} {b b' : Board} {i : ℕ} {r : Request} {a : r.Answer}
    (h : b.Obeys key i r a b') : b'.standing = b.standing := by
  cases h <;> rfl

theorem Obeys.lockKey? {key : String} {b b' : Board} {i : ℕ} {r : Request} {a : r.Answer}
    (h : b.Obeys key i r a b') : r.lockKey? = some key := by
  cases h <;> rfl

theorem Answers.standing_eq {key : String} {b b' : Board} {i : ℕ} {r : Request} {a : r.Answer}
    (h : b.Answers key i r a b') : b'.standing = b.standing := by
  cases h with
  | told h | unheard h => exact h.standing_eq
  | refused | other => rfl

theorem Answers.eq_of_ne {key : String} {b b' : Board} {i : ℕ} {r : Request} {a : r.Answer}
    (h : b.Answers key i r a b') (hr : r.lockKey? ≠ some key) : b' = b := by
  cases h with
  | told h | unheard h => exact absurd h.lockKey? hr
  | refused | other => rfl

/-- The answers to a renewal that extends its key, each with what becomes of the keys. -/
inductive Extends (b : Board) (r : Renewal) : Result Bool → KeyStore → Prop
  | told : Extends b r (.ok (b.keys.extend b.now r.key r.ttl).2) (b.keys.extend b.now r.key r.ttl).1
  | refused (f : Failure) : Extends b r (.error f) b.keys
  | unheard (f : Failure) : Extends b r (.error f) (b.keys.extend b.now r.key r.ttl).1

end Board

/-! ## Steps -/

/-- What can happen. -/
inductive Event
  | began (run : ℕ)
  | asked (run : ℕ) (exchange : Exchange)
  | extended (renewal : Renewal) (answer : Result Bool)
  | crashed (host : ℕ)
  | passed (millis : ℕ)
  /-- Something happens to other keys. -/
  | elsewhere

/-- The board after an instance is gone. -/
def Board.crash (c : Scene) (b : Board) (host : ℕ) : Board :=
  { b with
    renewals := b.renewals.filter fun r ↦ (c.attempts r.agent).host ≠ host
    standing := fun i ↦ if (c.attempts i).host = host then .gone else b.standing i }

/-- One thing happens. -/
inductive Step (c : Scene) : State → Event → State → Prop
  | began {s : State} {i : ℕ} (hstage : s.stages i = .waiting) :
    Step c s (.began i) { s with stages := Function.update s.stages i (.running (c.program i)) }
  | asked {s : State} {i : ℕ} {p q : Program RunOutcome} {r : Request} {a : r.Answer} {b : Board}
      (hstage : s.stages i = .running p) (hstep : p.Step r a q)
      (hanswer : s.board.Answers c.key i r a b) :
    Step c s (.asked i ⟨r, a⟩)
      ⟨b.place i ((b.standing i).after c.key r a), Function.update s.stages i (.running q)⟩
  | extended {s : State} {before after : List Renewal} {r : Renewal} {answer : Result Bool}
      {keys : KeyStore} (hr : s.board.renewals = before ++ r :: after) (hdue : r.due ≤ s.board.now)
      (hanswer : s.board.Extends r answer keys) :
    Step c s (.extended r answer)
      { s with board := { s.board with
          keys, renewals := before ++ { r with fired := r.fired + 1 } :: after } }
  | crashed {s : State} (host : ℕ) :
    Step c s (.crashed host) ⟨s.board.crash c host, fun i ↦
      if (c.attempts i).host = host then .crashed else s.stages i⟩
  | passed {s : State} (millis : ℕ) :
    Step c s (.passed millis) { s with board := { s.board with now := s.board.now + millis } }
  | elsewhere {s : State} {keys : KeyStore}
      (hkey : keys.keys.get? c.key = s.board.keys.keys.get? c.key) :
    Step c s .elsewhere { s with board := { s.board with keys } }

/-! ## Punctual steps -/

/-- Whether a request is about the lock of a key, or takes no time. -/
def IsPrompt (key : String) (r : Request) : Prop := r.lockKey? = some key ∨ r.IsNote

/-- What can happen if the store answers all commands about the lock, and if nothing that takes no
time is put off. -/
def Punctual (c : Scene) (s : State) : Event → Prop
  | .asked _ e => e.request.lockKey? = some c.key →
    ∀ f, World.refuse f e.request ≠ some e.answer
  | .extended _ answer => ∀ f, answer ≠ .error f
  | .passed millis => (∀ r ∈ s.board.renewals, s.board.now + millis ≤ r.due) ∧
    ∀ i p, s.stages i = .running p → ∀ r a q, p.Step r a q → ¬IsPrompt c.key r
  | _ => True

/-- One thing happens, and in time. -/
def PunctualStep (c : Scene) (s : State) (e : Event) (t : State) : Prop :=
  Step c s e t ∧ Punctual c s e

end Lock

end NodeInventory
