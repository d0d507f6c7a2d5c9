import NodeInventory.Failure
import NodeInventory.Text.Integer
import NodeInventory.Text.Separated
import NodeInventory.Word

/-!
# Settings

The settings of the program come from variables: pairs of a name and a text. Names are compared in
lower case and unknown ones do not count. The pairs are taken one after another and the first that
cannot be taken settles the outcome: a variable that was given before, or a text that does not
spell a number of the wanted range. Only then are the variables looked at that have no default. A
setting that is complete can still be unusable, and is then refused on grounds of its own.
-/

namespace NodeInventory

/-- What the program is told from outside. -/
structure Settings where
  /-- Directives for the log. -/
  logFilter : String
  /-- The name of this instance, which owns the locks that it takes. -/
  podName : String
  redisUrl : String
  fleetEndpoint : String
  rpcTimeoutMillis : Nat
  /-- The identity of the cluster, if it is not to be asked of the cluster. -/
  clusterId : Option String
  queueName : String
  workerCount : Nat
  trackedResources : List String
  nodePageSize : Nat
  recordPageSize : Nat
  /-- How many items of a batch run at once; there is no bound if this is not positive. -/
  parallelism : Int
  lockTtlSeconds : Nat
  syncPeriodSeconds : Nat
  gcPeriodSeconds : Nat
  heartbeatPeriodSeconds : Nat
  retryAttempts : Nat
  retryDelayMillis : Nat
  metricsPort : Nat
deriving DecidableEq, Repr

namespace Settings

/-! ## Variables -/

/-- The variables whose value is a text. -/
inductive TextVariable
  | logFilter | podName | redisUrl | fleetEndpoint | clusterId | queueName
deriving DecidableEq, Repr

/-- The variables whose value is a natural number. -/
inductive CountVariable
  | rpcTimeoutMillis | workerCount | nodePageSize | recordPageSize | lockTtlSeconds
  | syncPeriodSeconds | gcPeriodSeconds | heartbeatPeriodSeconds | retryAttempts
  | retryDelayMillis | metricsPort
deriving DecidableEq, Repr

/-- The variables. -/
inductive Variable
  | text (v : TextVariable)
  | count (v : CountVariable)
  | parallelism
  | trackedResources
deriving DecidableEq, Repr

/-- The name of a variable, in lower case. -/
def TextVariable.name : TextVariable → String
  | logFilter => "rust_log"
  | podName => "pod_name"
  | redisUrl => "redis_url"
  | fleetEndpoint => "fleet_endpoint"
  | clusterId => "cluster_id"
  | queueName => "queue_name"

/-- The name of a variable, in lower case. -/
def CountVariable.name : CountVariable → String
  | rpcTimeoutMillis => "rpc_timeout_millis"
  | workerCount => "worker_count"
  | nodePageSize => "node_page_size"
  | recordPageSize => "record_page_size"
  | lockTtlSeconds => "lock_ttl_seconds"
  | syncPeriodSeconds => "sync_period_seconds"
  | gcPeriodSeconds => "gc_period_seconds"
  | heartbeatPeriodSeconds => "heartbeat_period_seconds"
  | retryAttempts => "retry_attempts"
  | retryDelayMillis => "retry_delay_millis"
  | metricsPort => "metrics_port"

/-- The greatest value of a variable: words of 64, 32 and 16 bits. -/
def CountVariable.limit : CountVariable → Nat
  | nodePageSize | recordPageSize | retryAttempts => Word.maxNat 32
  | metricsPort => Word.maxNat 16
  | _ => Word.maxNat 64

/-- The greatest degree of parallelism; the least is one below its negative. -/
def parallelismLimit : Nat := Word.maxInt 64

/-- The name of a variable, in lower case. -/
def Variable.name : Variable → String
  | text v => v.name
  | count v => v.name
  | parallelism => "parallelism"
  | trackedResources => "tracked_resources"

/-- All variables. -/
def Variable.all : List Variable :=
  [.text .logFilter, .text .podName, .text .redisUrl, .text .fleetEndpoint,
    .count .rpcTimeoutMillis, .text .clusterId, .text .queueName, .count .workerCount, .trackedResources,
    .count .nodePageSize, .count .recordPageSize, .parallelism, .count .lockTtlSeconds,
    .count .syncPeriodSeconds, .count .gcPeriodSeconds, .count .heartbeatPeriodSeconds,
    .count .retryAttempts, .count .retryDelayMillis, .count .metricsPort]

/-- A character in lower case, as far as this decides whether a name is one of ours: of the
characters beyond ASCII the KELVIN SIGN alone has a lower case within it. -/
def lowerChar (c : Char) : Char := if c == '\u212A' then 'k' else c.toLower

/-- A name in lower case. -/
def lowerName (s : String) : String := String.ofList (s.toList.map lowerChar)

/-- The variable of a name. -/
def Variable.ofName? (s : String) : Option Variable := all.find? (·.name == lowerName s)

/-! ## Pairs -/

/-- A variable with a value that suits it. -/
inductive Assignment
  | text (v : TextVariable) (value : String)
  | count (v : CountVariable) (value : Nat)
  | parallelism (value : Int)
  | trackedResources (value : List String)
deriving DecidableEq, Repr

/-- The variable of an assignment. -/
def Assignment.variable : Assignment → Variable
  | text v _ => .text v
  | count v _ => .count v
  | parallelism _ => .parallelism
  | trackedResources _ => .trackedResources

/-- The items of a list that is written with commas. The empty text is the empty list. -/
def splitList (s : String) : List String := if s = "" then [] else Text.split ',' s

/-- Reads the value of a variable. -/
def Variable.read (v : Variable) (s : String) : Except Text.IntegerFault Assignment :=
  match v with
  | text v => .ok (.text v s)
  | count v => (Text.readNat v.limit s).map (.count v)
  | parallelism => (Text.readInt parallelismLimit s).map .parallelism
  | trackedResources => .ok (.trackedResources (splitList s))

/-- The failure of a variable that is given twice. -/
def duplicateFault (v : Variable) : Failure := .plain ("duplicate field `" ++ v.name ++ "`")

/-- The failure of a value that does not suit its variable. -/
def valueFault (name value : String) (fault : Text.IntegerFault) : Failure :=
  .plain (fault.message ++ " while parsing value '" ++ value ++ "' provided by " ++ name)

/-- Takes the pairs one after another. -/
def readPairs : List (String × String) → List Assignment → Result (List Assignment)
  | [], taken => .ok taken.reverse
  | (name, value) :: pairs, taken =>
    match Variable.ofName? name with
    | none => readPairs pairs taken
    | some v =>
      if taken.any (·.variable == v) then .error (duplicateFault v)
      else
        match v.read value with
        | .error fault => .error (valueFault name value fault)
        | .ok a => readPairs pairs (a :: taken)

/-! ## Settings -/

/-- The text given for a variable. -/
def text? (v : TextVariable) : List Assignment → Option String
  | [] => none
  | .text w s :: l => if w = v then some s else text? v l
  | _ :: l => text? v l

/-- The number given for a variable. -/
def count? (v : CountVariable) : List Assignment → Option Nat
  | [] => none
  | .count w n :: l => if w = v then some n else count? v l
  | _ :: l => count? v l

/-- The degree of parallelism, if it was given. -/
def parallelism? : List Assignment → Option Int
  | [] => none
  | .parallelism n :: _ => some n
  | _ :: l => parallelism? l

/-- The tracked resources, if they were given. -/
def trackedResources? : List Assignment → Option (List String)
  | [] => none
  | .trackedResources r :: _ => some r
  | _ :: l => trackedResources? l

/-- The text given for a variable without default. -/
def required (v : TextVariable) (l : List Assignment) : Result String :=
  match text? v l with
  | some s => .ok s
  | none => .error (.plain ("missing value for field " ++ v.name))

/-- The settings that assignments make. -/
def ofAssignments (l : List Assignment) : Result Settings := do
  let logFilter ← required .logFilter l
  let podName ← required .podName l
  let redisUrl ← required .redisUrl l
  let fleetEndpoint ← required .fleetEndpoint l
  pure {
    logFilter, podName, redisUrl, fleetEndpoint
    rpcTimeoutMillis := (count? .rpcTimeoutMillis l).getD 1000
    clusterId := text? .clusterId l
    queueName := (text? .queueName l).getD "task_queue"
    workerCount := (count? .workerCount l).getD 3
    trackedResources := (trackedResources? l).getD ["cpu", "memory", "nvidia.com/gpu"]
    nodePageSize := (count? .nodePageSize l).getD 50
    recordPageSize := (count? .recordPageSize l).getD 50
    parallelism := (parallelism? l).getD 3
    lockTtlSeconds := (count? .lockTtlSeconds l).getD 60
    syncPeriodSeconds := (count? .syncPeriodSeconds l).getD 30
    gcPeriodSeconds := (count? .gcPeriodSeconds l).getD 40
    heartbeatPeriodSeconds := (count? .heartbeatPeriodSeconds l).getD 60
    retryAttempts := (count? .retryAttempts l).getD 3
    retryDelayMillis := (count? .retryDelayMillis l).getD 1000
    metricsPort := (count? .metricsPort l).getD 9090 }

/-- Reads settings from pairs. -/
def ofPairs (pairs : List (String × String)) : Result Settings := do
  let assignments ← readPairs pairs []
  ofAssignments assignments

/-- The numbers that may not be zero, by the name of their variable. -/
def positives (s : Settings) : List (String × Nat) :=
  [("WORKER_COUNT", s.workerCount), ("NODE_PAGE_SIZE", s.nodePageSize),
    ("RECORD_PAGE_SIZE", s.recordPageSize), ("LOCK_TTL_SECONDS", s.lockTtlSeconds),
    ("SYNC_PERIOD_SECONDS", s.syncPeriodSeconds), ("GC_PERIOD_SECONDS", s.gcPeriodSeconds),
    ("HEARTBEAT_PERIOD_SECONDS", s.heartbeatPeriodSeconds), ("RETRY_ATTEMPTS", s.retryAttempts)]

/-- Refuses settings with which the program cannot run. -/
def validated (s : Settings) : Result Settings :=
  match s.positives.find? (·.2 == 0) with
  | some (name, _) => .error (.plain (name ++ " must be greater than 0"))
  | none =>
    if s.trackedResources.isEmpty then
      .error (.plain "TRACKED_RESOURCES must name at least one resource")
    else .ok s

/-- The variables of a process after the pairs were set one after another: a pair takes the place
of an earlier one of the same name. -/
def environment (pairs : List (String × String)) : List (String × String) :=
  pairs.foldl (fun env p ↦
    if env.any (·.1 == p.1) then env.map fun q ↦ if q.1 == p.1 then p else q
    else env ++ [p]) []

/-- The settings that the variables of a process make. -/
def ofEnvironment (pairs : List (String × String)) : Result Settings := do
  let s ← (ofPairs (environment pairs)).within "error building config from env"
  s.validated.within "invalid config"

/-! ## Times in milliseconds -/

/-- How long a lock is held without being renewed. -/
def lockTtlMillis (s : Settings) : Nat := s.lockTtlSeconds * 1000

end Settings

end NodeInventory
