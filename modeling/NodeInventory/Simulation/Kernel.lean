import NodeInventory.Program
import NodeInventory.Simulation.World

/-!
# Running programs in a world

A thread runs a program until it is done. Requests are answered at once unless a direction delays
them, so a thread only waits when it pauses or when a request takes time. Whenever all threads wait,
time passes to the earliest moment at which one goes on.

Beside the threads there are renewals. A renewal extends a key at every multiple of half the time
for which the key is set, counted from when the renewal began. Stopping a renewal waits for it to
end, also if it is just extending its key.

Of several threads that go on at one time the one that has waited longest comes first, and renewals
come after them. A thread that has stopped a renewal comes last: all else that happens at that time
happens while it waits for the renewal to end. So a lock that is given up is still held for whoever
tries to get it at the very same time.
-/

namespace NodeInventory.Simulation

/-! ## Order at one time -/

/-- When something goes on, and since when it has waited for that. -/
structure Moment where
  time : Nat
  since : Nat
deriving DecidableEq, Repr

namespace Moment

/-- Whether a moment comes no later than another: of two at one time, the one that has been waited
for longer comes first. -/
def atMost (a b : Moment) : Bool := a.time < b.time || (a.time == b.time && a.since ≤ b.since)

/-- The place of the first moment in a list, the first of several. -/
def earliest? : List (Option Moment) → Option (Nat × Moment)
  | [] => none
  | t :: ts =>
    match t, earliest? ts with
    | none, none => none
    | none, some (i, m) => some (i + 1, m)
    | some n, none => some (0, n)
    | some n, some (i, m) => if n.atMost m then some (0, n) else some (i + 1, m)

end Moment

/-! ## Renewals -/

/-- Something that extends a key time and again. -/
structure Renewal where
  /-- Whose it is. -/
  agent : Nat
  key : String
  ttl : Nat
  /-- When it began. -/
  since : Nat
  /-- How often it has extended the key. -/
  fired : Nat := 0
  /-- The end of an extension under way, and the direction that delays it. -/
  busy : Option (Nat × Direction) := none
  /-- Whether it is to end with the extension under way. -/
  stopping : Bool := false

namespace Renewal

/-- When the `k`-th extension is due: `k` halves of the time for which the key is set, rounded up
to a millisecond. A half is at least one millisecond. -/
def extension (since ttl k : Nat) : Nat := since + (k * max ttl 2 + 1) / 2

/-- When the renewal goes on. -/
def due (r : Renewal) : Nat :=
  match r.busy with
  | some (time, _) => time
  | none => extension r.since r.ttl (r.fired + 1)

/-- When the renewal goes on, as one that begins to wait only then. -/
def moment? (r : Renewal) : Option Moment := some ⟨r.due, r.due⟩

/-- The request that a renewal makes. -/
def request (r : Renewal) : Request := .extendKey r.key r.ttl

/-- Lets a renewal go on. It is over if it was to end with an extension that is done. -/
def step (w : World) (r : Renewal) : World × Option Renewal :=
  match r.busy with
  | some (_, d) =>
    let (w, _) := w.answer d r.request
    (w, if r.stopping then none else some { r with busy := none })
  | none =>
    let w := w.note r.agent r.request
    let (d, w) := w.direction r.request
    let r := { r with fired := r.fired + 1 }
    if d.delay = 0 then
      let (w, _) := w.answer d r.request
      (w, some r)
    else (w, some { r with busy := some (w.now + d.delay, d) })

end Renewal

/-! ## Threads -/

/-- What a thread is about. -/
inductive Thread (α : Type) : Type 1
  /-- It goes on with a program. -/
  | due (moment : Moment) (program : Program α)
  /-- It goes on with an answer that takes time. -/
  | asking (moment : Moment) (direction : Direction) (request : Request)
      (next : request.Answer → Program α)
  /-- It is done. -/
  | ended (time : Nat) (value : α)

namespace Thread

variable {α : Type}

/-- When a thread goes on. -/
def moment? : Thread α → Option Moment
  | .due moment _ => some moment
  | .asking moment _ _ _ => some moment
  | .ended _ _ => none

/-- The value of a thread that is done, and when it was. -/
def ended? : Thread α → Option (Nat × α)
  | .ended time value => some (time, value)
  | _ => none

end Thread

/-! ## Threads and renewals in a world -/

/-- A world with the threads and renewals that run in it, each thread with the agent as whom it
asks. -/
structure Kernel (α : Type) : Type 1 where
  world : World
  renewals : List Renewal := []
  threads : List (Nat × Thread α) := []

namespace Kernel

variable {α : Type}

/-- Takes a renewal out, or lets it end with what it is doing. Says how long that takes. -/
def stopRenewal (agent : Nat) (key : String) : List Renewal → Nat × List Renewal
  | [] => (0, [])
  | r :: rs =>
    let (time, rs) := stopRenewal agent key rs
    if r.agent = agent ∧ r.key = key then
      match r.busy with
      | some (busy, _) => (max time busy, { r with stopping := true } :: rs)
      | none => (time, rs)
    else (time, r :: rs)

/-- Runs a program as the given agent until it waits or is done, for at most `fuel` requests. -/
def runProgram (agent : Nat) :
    (fuel : Nat) → World → List Renewal → Program α → World × List Renewal × Thread α
  | 0, w, rs, p => (w, rs, .due ⟨w.now, w.now⟩ p)
  | fuel + 1, w, rs, p =>
    match p.view with
    | .done a => (w, rs, .ended w.now a)
    | .ask request next =>
      let w := w.note agent request
      match request, next with
      | .pause millis, next =>
        if millis = 0 then runProgram agent fuel w rs (next ())
        else (w, rs, .due ⟨w.now + millis, w.now⟩ (next ()))
      | .startRenewal key ttl, next =>
        runProgram agent fuel w (rs ++ [{ agent, key, ttl, since := w.now }]) (next ())
      | .stopRenewal key, next =>
        let (time, rs) := stopRenewal agent key rs
        let time := max w.now time
        (w, rs, .due ⟨time, time + 1⟩ (next ()))
      | request, next =>
        let (d, w) := w.direction request
        if d.delay = 0 then
          let (w, a) := w.answer d request
          runProgram agent fuel w rs (next a)
        else (w, rs, .asking ⟨w.now + d.delay, w.now⟩ d request next)

/-- Lets a thread go on. -/
def runThread (agent fuel : Nat) (w : World) (rs : List Renewal) :
    Thread α → World × List Renewal × Thread α
  | .due _ p => runProgram agent fuel w rs p
  | .asking _ d request next =>
    let (w, a) := w.answer d request
    runProgram agent fuel w rs (next a)
  | .ended time a => (w, rs, .ended time a)

/-! ## The next thing to happen -/

/-- When the next renewal goes on, and which. -/
def nextRenewal? (k : Kernel α) : Option (Nat × Moment) :=
  Moment.earliest? (k.renewals.map (·.moment?))

/-- When the next thread goes on, and which. -/
def nextThread? (k : Kernel α) : Option (Nat × Moment) :=
  Moment.earliest? (k.threads.map (·.2.moment?))

/-- When something happens next. -/
def next? (k : Kernel α) : Option Moment :=
  match k.nextRenewal?, k.nextThread? with
  | none, none => none
  | some (_, n), none | none, some (_, n) => some n
  | some (_, n), some (_, m) => some (if m.atMost n then m else n)

/-- Lets a renewal go on. -/
def stepRenewal (k : Kernel α) (i : Nat) : Kernel α :=
  match k.renewals[i]? with
  | none => k
  | some r =>
    let (world, r) := r.step (k.world.atTime r.due)
    match r with
    | some r => { k with world, renewals := k.renewals.set i r }
    | none => { k with world, renewals := k.renewals.eraseIdx i }

/-- Lets a thread go on. -/
def stepThread (fuel : Nat) (k : Kernel α) (i : Nat) : Kernel α :=
  match k.threads[i]? with
  | none => k
  | some (agent, t) =>
    let w := k.world.atTime ((t.moment?.map (·.time)).getD 0)
    let (world, renewals, t) := runThread agent fuel w k.renewals t
    { world, renewals, threads := k.threads.set i (agent, t) }

/-- Lets the next thing happen; a thread comes before a renewal of the same moment. -/
def step (fuel : Nat) (k : Kernel α) : Kernel α :=
  match k.nextRenewal?, k.nextThread? with
  | none, none => k
  | some (i, _), none => k.stepRenewal i
  | none, some (j, _) => k.stepThread fuel j
  | some (i, n), some (j, m) => if m.atMost n then k.stepThread fuel j else k.stepRenewal i

/-! ## Runs -/

/-- Lets everything happen that happens before a time, in at most `fuel` steps, and goes to that
time. -/
def runTo (time : Nat) : (fuel : Nat) → Kernel α → Kernel α
  | 0, k => { k with world := k.world.atTime time }
  | fuel + 1, k =>
    match k.next? with
    | none => { k with world := k.world.atTime time }
    | some next =>
      if next.time < time then runTo time fuel (k.step fuel)
      else { k with world := k.world.atTime time }

/-- Lets things happen until all threads are done, in at most `fuel` steps. -/
def runAll : (fuel : Nat) → Kernel α → Kernel α
  | 0, k => k
  | fuel + 1, k => if k.nextThread?.isNone then k else runAll fuel (k.step fuel)

/-- Starts a thread of an agent at a time. -/
def spawn (k : Kernel α) (agent time : Nat) (p : Program α) : Kernel α :=
  { k with threads := k.threads ++ [(agent, .due ⟨time, k.world.now⟩ p)] }

/-- Takes out the threads that are done, and tells of which agents they were, when they ended and
with what. -/
def reap (k : Kernel α) : List (Nat × Nat × α) × Kernel α :=
  (k.threads.filterMap fun (agent, t) ↦ t.ended?.map (agent, ·),
    { k with threads := k.threads.filter (·.2.ended?.isNone) })

end Kernel

end NodeInventory.Simulation
