import NodeInventory.Fleet.Wire
import NodeInventory.Uri
import NodeInventory.Word

/-!
# Connections to the fleet registry

A call travels as one frame: a zero byte, the length of the message in four bytes, and the message.
The registry answers with frames and a status, or with nothing until the caller's patience ends, or
cannot be reached. Only an answer of one readable message under the status of success is one.
-/

namespace NodeInventory.Fleet

/-- Refuses an address at which there can be no registry. Nothing is connected yet. -/
def checkEndpoint (endpoint : String) : Result Unit :=
  if Uri.isAddress endpoint then .ok ()
  else .error (.context ("invalid fleet endpoint " ++ endpoint) (.plain "invalid URI"))

/-- The place at which a call is answered. -/
def Call.path (c : Call) : String := "/node.NodeManager/" ++ c.method

/-- The bytes of a frame. -/
def frame (message : List UInt8) : List UInt8 :=
  let n := message.length
  [0, UInt8.ofNat (n / Word.count 24), UInt8.ofNat (n / Word.count 16),
    UInt8.ofNat (n / Word.count 8), UInt8.ofNat n] ++ message

/-- What comes back from the registry. -/
inductive Reply
  /-- The message of a call that succeeded. -/
  | message (bytes : List UInt8)
  /-- A status and no message. -/
  | status (code : Int) (text : String)
  /-- No answer in time. -/
  | silence
  /-- Nobody listens. -/
  | unreachable
deriving DecidableEq, Repr

/-- Whether a reply shows that the call arrived. -/
def Reply.arrived : Reply → Bool
  | unreachable => false
  | _ => true

/-- What a reply means to a caller. -/
def Call.receive (c : Call) : Reply → Result Response
  | .message bytes =>
    match Wire.readResponse bytes with
    | some r => .ok r
    | none => .error (.context ("error calling fleet " ++ c.method) (.plain "unreadable message"))
  | .status _ text => .error (.context ("error calling fleet " ++ c.method) (.plain text))
  | .silence =>
    .error (.context ("timeout calling fleet " ++ c.method) (.plain "deadline has elapsed"))
  | .unreachable =>
    .error (.context ("error calling fleet " ++ c.method) (.plain "transport error"))

/-- A request as the registry sees it. -/
structure Delivery where
  path : String
  contentType : String
  frame : List UInt8
deriving DecidableEq, Repr

/-- What arrives at the registry of a call. -/
def Call.deliveries (c : Call) (reply : Reply) : List Delivery :=
  if reply.arrived then [⟨c.path, "application/grpc", Fleet.frame (Wire.writeCall c)⟩] else []

end NodeInventory.Fleet
