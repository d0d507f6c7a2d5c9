import NodeInventory.Failure
import NodeInventory.Redis.Url
import NodeInventory.Word

/-!
# A client of a Redis server

Keys and lists on a server are changed by commands. All commands but those that wait go over one
connection; a waiting command takes a connection of its own, since it would hold up all others, and
leaves it for the next one if it succeeds.

A reply is taken for what the command is to give: a text, a number, or a list and a text from it.
Any other reply, an error and a closed connection are failures.
-/

namespace NodeInventory.Redis

/-- What a server replies. -/
inductive Reply
  | simple (text : String)
  | error (text : String)
  | int (n : Int)
  | bulk (text : String)
  | nil
  | array (items : List String)
  /-- The server closes the connection. -/
  | closed
deriving DecidableEq, Repr

/-- The text of a reply. -/
def Reply.text? : Reply → Option String
  | simple s | bulk s => some s
  | _ => none

/-- The text of a reply, or that there is none. -/
def Reply.optionText? : Reply → Option (Option String)
  | nil => some none
  | r => r.text?.map some

/-- The number of a reply. -/
def Reply.int? : Reply → Option Int
  | int n => some n
  | simple s | bulk s =>
    match Text.readInt (Word.maxInt 64) s with
    | .ok n => some n
    | .error _ => none
  | _ => none

/-- A list and a text that was taken from it, or that there was none. -/
def Reply.popped? : Reply → Option (Option (String × String))
  | nil => some none
  | array [list, value] => some (some (list, value))
  | _ => none

/-- A command, with the number of the connection that it went over. -/
structure Command where
  connection : Nat
  words : List String
deriving DecidableEq, Repr

/-- A client that is connected. Connection zero is for the commands that do not wait. -/
structure Client where
  database : Int
  usable : Bool := true
  /-- The connections left by waiting commands. -/
  idle : List Nat := []
  /-- The number of the next connection. -/
  next : Nat := 1
deriving DecidableEq, Repr

/-- The replies that are still to come, and the commands so far, last first. -/
structure Wire where
  replies : List Reply
  sent : List Command := []

namespace Wire

/-- Sends a command. A server without anything left to say agrees. -/
def send (w : Wire) (connection : Nat) (words : List String) : Reply × Wire :=
  (w.replies.headD (.simple "OK"), ⟨w.replies.tail, ⟨connection, words⟩ :: w.sent⟩)

end Wire

/-- The failure of a reply that is not what was asked for. -/
def fault (context : String) : Failure := .context context (.plain "unexpected reply")

/-- Opens a connection to a database. -/
def openConnection (w : Wire) (connection : Nat) (database : Int) : Bool × Wire :=
  if database = 0 then (true, w)
  else
    let (reply, w) := w.send connection ["SELECT", toString database]
    (reply == .simple "OK", w)

/-- Connects to the server at an address and makes sure that it answers. -/
def connect (url : String) (reachable : Bool) (w : Wire) : Result Client × Wire :=
  match addressedDatabase? url with
  | none => (.error (fault "invalid redis url"), w)
  | some database =>
    if !reachable then (.error (fault "error connecting to redis"), w)
    else
      match openConnection w 0 database with
      | (false, w) => (.error (fault "error connecting to redis"), w)
      | (true, w) =>
        let (reply, w) := w.send 0 ["PING"]
        match reply.text? with
        | some _ => (.ok { database }, w)
        | none => (.error (fault "error pinging redis"), w)

/-! ## Commands that do not wait -/

/-- Sends a command over the common connection and reads the reply. -/
def command {α : Type} (c : Client) (w : Wire) (context : String) (words : List String)
    (read : Reply → Option α) : Result α × Client × Wire :=
  if !c.usable then (.error (fault context), c, w)
  else
    let (reply, w) := w.send 0 words
    let c := { c with usable := reply != .closed }
    match read reply with
    | some a => (.ok a, c, w)
    | none => (.error (fault context), c, w)

/-- Sets a key that is not set, for so many milliseconds, and says whether it did. -/
def setKey (c : Client) (w : Wire) (key value : String) (ttl : Nat) : Result Bool × Client × Wire :=
  let (r, c, w) := command c w "error setting redis key"
    ["SET", key, value, "NX", "PX", toString ttl] Reply.optionText?
  (r.map (·.isSome), c, w)

/-- Lets a key be set for so many milliseconds from now, and says whether it was set. -/
def extendKey (c : Client) (w : Wire) (key : String) (ttl : Nat) : Result Bool × Client × Wire :=
  let (r, c, w) := command c w "error renewing redis key ttl"
    ["PEXPIRE", key, toString ttl] Reply.int?
  (r.map (· == 1), c, w)

/-- Removes a key. -/
def deleteKey (c : Client) (w : Wire) (key : String) : Result Unit × Client × Wire :=
  let (r, c, w) := command c w "error deleting redis key" ["DEL", key] Reply.int?
  (r.map fun _ ↦ (), c, w)

/-- Puts a text at the end of a list. -/
def pushValue (c : Client) (w : Wire) (list value : String) : Result Unit × Client × Wire :=
  let (r, c, w) := command c w "error pushing to redis list" ["RPUSH", list, value] Reply.int?
  (r.map fun _ ↦ (), c, w)

/-! ## Waiting for a text -/

/-- Asks for a text until there is one, at most `fuel` times. -/
def popFrom (connection : Nat) (list : String) : (fuel : Nat) → Wire → Result String × Wire
  | 0, w => (.error (fault "error popping from redis list"), w)
  | fuel + 1, w =>
    let (reply, w) := w.send connection ["BLPOP", list, "0"]
    match reply.popped? with
    | none => (.error (fault "error popping from redis list"), w)
    | some none => popFrom connection list fuel w
    | some (some (_, value)) => (.ok value, w)

/-- Takes a text from the front of a list, over a connection left by an earlier command or a new
one. Every reply that there is none is one of those to come. -/
def popValue (c : Client) (w : Wire) (list : String) : Result String × Client × Wire :=
  let (connection, ready, c, w) :=
    match c.idle with
    | n :: idle => (n, true, { c with idle }, w)
    | [] =>
      let (ready, w) := openConnection w c.next c.database
      (c.next, ready, { c with next := c.next + 1 }, w)
  if !ready then (.error (fault "error opening redis connection for blocking pop"), c, w)
  else
    let (r, w) := popFrom connection list (w.replies.length + 2) w
    match r with
    | .ok value => (.ok value, { c with idle := connection :: c.idle }, w)
    | .error f => (.error f, c, w)

end NodeInventory.Redis
