import NodeInventory.Fleet.Basic
import NodeInventory.Word

/-!
# Messages of the fleet registry as bytes

A message is a sequence of fields. A field is a key, which gives the number of the field and how its
value is laid out, and the value: a number in groups of seven bits, four or eight bytes, a length
and as many bytes, or a group of fields up to a key that ends the group.

Writing leaves out values that are empty, false or zero. Reading starts from the empty message and
takes the fields one after another: a later value takes the place of an earlier one, a resource
joins those before it, and fields of unknown numbers do not count. A known field has to be laid out
as it is written.
-/

namespace NodeInventory.Fleet.Wire

/-! ## Writing -/

/-- A number in groups of seven bits, the lowest first; all but the last have the high bit. -/
def writeNat (n : Nat) : List UInt8 :=
  if n < 128 then [UInt8.ofNat n] else UInt8.ofNat (n % 128 + 128) :: writeNat (n / 128)
termination_by n

/-- The layouts of values that are written. -/
inductive Layout
  | number | sized
deriving DecidableEq, Repr

/-- The number of a layout within a key. -/
def Layout.code : Layout → Nat
  | number => 0
  | sized => 2

/-- The key of a field. -/
def writeKey (field : Nat) (layout : Layout) : List UInt8 := writeNat (field * 8 + layout.code)

/-- A field of bytes. -/
def writeSized (field : Nat) (bytes : List UInt8) : List UInt8 :=
  writeKey field .sized ++ writeNat bytes.length ++ bytes

/-- The bytes of a text. -/
def utf8 (s : String) : List UInt8 := s.toUTF8.toList

/-- A field of text, left out if empty. -/
def writeText (field : Nat) (s : String) : List UInt8 :=
  if s.isEmpty then [] else writeSized field (utf8 s)

/-- A field of a truth value, left out if false. -/
def writeBool (field : Nat) (b : Bool) : List UInt8 :=
  if b then writeKey field .number ++ [1] else []

/-- A field of an integer, left out if zero. A negative one is written as a word of 64 bits. -/
def writeInt (field : Nat) (n : Int) : List UInt8 :=
  if n = 0 then [] else writeKey field .number ++ writeNat (n % Word.count 64).toNat

/-- The bytes of a resource. -/
def writeResource (r : Resource) : List UInt8 :=
  writeText 1 r.name ++ writeText 2 r.capacity ++ writeText 3 r.allocatable ++ writeText 4 r.unit ++
    writeBool 5 r.removed

/-- The bytes of a response. -/
def writeResponse (r : Response) : List UInt8 :=
  writeInt 1 r.code ++ writeText 2 r.message ++ (if r.data.isEmpty then [] else writeSized 3 r.data)

/-- The bytes of a report. -/
def writeReport (r : NodeReport) : List UInt8 :=
  writeText 1 r.nodeName ++ writeText 2 r.clusterId ++ writeText 3 r.status ++
    r.resources.flatMap fun x ↦ writeSized 4 (writeResource x)

/-- The bytes of a reference. -/
def writeReference (r : NodeReference) : List UInt8 :=
  writeText 1 r.nodeName ++ writeText 2 r.clusterId

/-- The bytes of a call. -/
def writeCall : Call → List UInt8
  | .add r | .update r => writeReport r
  | .delete n | .heartbeat n => writeReference n

/-! ## Reading fields -/

/-- The value of a field. -/
inductive Value
  | number (n : Nat)
  | fixed
  | sized (bytes : List UInt8)
  | group
deriving DecidableEq, Repr

/-- Reads a number of at most 64 bits: of ten groups, the last may hold one bit. -/
def readNatFrom : Nat → Nat → Nat → List UInt8 → Option (Nat × List UInt8)
  | 0, _, _, _ => none
  | _, _, _, [] => none
  | groups + 1, shift, acc, b :: bs =>
    let acc := acc + b.toNat % 128 * Nat.pow 2 shift
    if b.toNat < 128 then
      if groups = 0 ∧ 2 ≤ b.toNat then none else some (acc, bs)
    else readNatFrom groups (shift + 7) acc bs

/-- Reads a number of at most 64 bits. -/
def readNat (bs : List UInt8) : Option (Nat × List UInt8) := readNatFrom 10 0 0 bs

/-- Reads a key: the number of a field, which is not zero, and the code of a layout. -/
def readKey (bs : List UInt8) : Option (Nat × Nat × List UInt8) := do
  let (key, bs) ← readNat bs
  if key < Word.count 32 ∧ 8 ≤ key ∧ key % 8 ≤ 5 then some (key / 8, key % 8, bs) else none

/-- Takes a number of bytes. -/
def takeBytes (n : Nat) (bs : List UInt8) : Option (List UInt8 × List UInt8) :=
  if n ≤ bs.length then some (bs.take n, bs.drop n) else none

mutual

/-- Reads the value of a field, within at most `depth` groups. -/
def readValue : Nat → Nat → Nat → Nat → List UInt8 → Option (Value × List UInt8)
  | 0, _, _, _, _ => none
  | _, 0, _, _, _ => none
  | fuel + 1, depth + 1, field, layout, bs =>
    match layout with
    | 0 => (readNat bs).map fun (n, bs) ↦ (.number n, bs)
    | 1 => (takeBytes 8 bs).map fun (_, bs) ↦ (.fixed, bs)
    | 2 => do
      let (n, bs) ← readNat bs
      let (taken, bs) ← takeBytes n bs
      some (.sized taken, bs)
    | 3 => (skipGroup fuel depth field bs).map fun bs ↦ (.group, bs)
    | 5 => (takeBytes 4 bs).map fun (_, bs) ↦ (.fixed, bs)
    | _ => none

/-- Skips the fields of a group and the key that ends it. -/
def skipGroup : Nat → Nat → Nat → List UInt8 → Option (List UInt8)
  | 0, _, _, _ => none
  | fuel + 1, depth, group, bs => do
    let (field, layout, bs) ← readKey bs
    if layout = 4 then
      if field = group then some bs else none
    else
      let (_, bs) ← readValue fuel depth field layout bs
      skipGroup fuel depth group bs

end

/-- Reads the fields of a message. Every field takes at least its key, so the length of the message
bounds the number of steps. -/
def readFields (depth : Nat) : Nat → List UInt8 → Option (List (Nat × Value))
  | _, [] => some []
  | 0, _ => none
  | fuel + 1, bs => do
    let (field, layout, bs) ← readKey bs
    let (value, bs) ← readValue (2 * bs.length + 2) depth field layout bs
    let fields ← readFields depth fuel bs
    some ((field, value) :: fields)

/-! ## Reading messages -/

/-- The greatest number of messages and groups within each other. -/
def maxDepth : Nat := 100

/-- Reads a message field by field. -/
def readMessage {α : Type} (depth : Nat) (empty : α) (take : α → Nat × Value → Option α)
    (bs : List UInt8) : Option α := do
  let fields ← readFields depth bs.length bs
  fields.foldlM take empty

/-- The text of a value. -/
def text? : Value → Option String
  | .sized bytes => String.fromUTF8? (ByteArray.mk bytes.toArray)
  | _ => none

/-- The truth value of a value. -/
def bool? : Value → Option Bool
  | .number n => some (n != 0)
  | _ => none

/-- The integer of a value: its low 32 bits, the highest of which is a sign. -/
def int32? : Value → Option Int
  | .number n => some ((n : Int).bmod (Word.count 32))
  | _ => none

/-- The bytes of a value. -/
def bytes? : Value → Option (List UInt8)
  | .sized bytes => some bytes
  | _ => none

/-- Takes a field of a resource. -/
def takeResource (r : Resource) : Nat × Value → Option Resource
  | (1, v) => (text? v).map fun s ↦ { r with name := s }
  | (2, v) => (text? v).map fun s ↦ { r with capacity := s }
  | (3, v) => (text? v).map fun s ↦ { r with allocatable := s }
  | (4, v) => (text? v).map fun s ↦ { r with unit := s }
  | (5, v) => (bool? v).map fun b ↦ { r with removed := b }
  | _ => some r

/-- Takes a field of a response. -/
def takeResponse (r : Response) : Nat × Value → Option Response
  | (1, v) => (int32? v).map fun n ↦ { r with code := n }
  | (2, v) => (text? v).map fun s ↦ { r with message := s }
  | (3, v) => (bytes? v).map fun b ↦ { r with data := b }
  | _ => some r

/-- Takes a field of a report. -/
def takeReport (r : NodeReport) : Nat × Value → Option NodeReport
  | (1, v) => (text? v).map fun s ↦ { r with nodeName := s }
  | (2, v) => (text? v).map fun s ↦ { r with clusterId := s }
  | (3, v) => (text? v).map fun s ↦ { r with status := s }
  | (4, v) => do
    let bytes ← bytes? v
    let x ← readMessage (maxDepth - 1) {} takeResource bytes
    some { r with resources := r.resources ++ [x] }
  | _ => some r

/-- Takes a field of a reference. -/
def takeReference (r : NodeReference) : Nat × Value → Option NodeReference
  | (1, v) => (text? v).map fun s ↦ { r with nodeName := s }
  | (2, v) => (text? v).map fun s ↦ { r with clusterId := s }
  | _ => some r

/-- Reads a resource. -/
def readResource (bs : List UInt8) : Option Resource := readMessage maxDepth {} takeResource bs

/-- Reads a response. -/
def readResponse (bs : List UInt8) : Option Response := readMessage maxDepth {} takeResponse bs

/-- Reads a report. -/
def readReport (bs : List UInt8) : Option NodeReport := readMessage maxDepth {} takeReport bs

/-- Reads a reference. -/
def readReference (bs : List UInt8) : Option NodeReference :=
  readMessage maxDepth {} takeReference bs

end NodeInventory.Fleet.Wire
