import NdnCxx.Foundation.Run
import NdnCxx.Lp.Fields

/-!
# Link protocol packets

`lp::Packet` keeps its fields as the sub-elements of a block, which may also hold the wire that was
decoded or encoded last. Every change drops the wire. A packet whose only field is a fragment is
encoded as the network packet in the fragment. A call that throws may have changed the packet, so
the operations return the packet together with the exception.
-/

namespace NdnCxx.Lp

/-- `lp::Packet`: the wire in `m_wire`, and its sub-elements as far as they have been parsed. -/
structure Packet where
  wire : Option Block
  subBlocks : List Block
  deriving DecidableEq

namespace Packet

def empty : Packet := ⟨none, []⟩

/-- `Block::parse` on `m_wire`. A packet whose wire does not parse stays as it is. -/
def parse (packet : Packet) : Except Fault Packet :=
  if !packet.subBlocks.isEmpty then .ok packet
  else
    match packet.wire with
    | none => .ok packet
    | some wire => do return { packet with subBlocks := ← ofTlv (Block.parse wire.value) }

def list (field : Field) (packet : Packet) : Except Fault (List field.Value) := do
  let parsed ← packet.parse
  (parsed.subBlocks.filter fun element ↦ element.type == field.tlvType).mapM field.decode

def comparePos (first : Block) (second : ℕ) : Bool :=
  FieldInfo.compareFieldSortOrder (.ofType first.type) (.ofType second)

/-- `std::lower_bound` and `Block::insert`, in elements that are in order -/
def insert (packet : Packet) (field : Field) (block : Block) : Packet where
  wire := none
  subBlocks :=
    packet.subBlocks.takeWhile (comparePos · field.tlvType) ++
      block :: packet.subBlocks.dropWhile (comparePos · field.tlvType)

def makeElement (field : Field) (value : field.Value) : Except Fault Block := do
  let bytes ← field.encode value
  ofTlv (Block.fromWire bytes)

/-- `add`. No field is repeatable, so `has` always parses first. -/
def add (packet : Packet) (field : Field) (value : field.Value) : Packet × Option Fault :=
  match packet.parse with
  | .error fault => (packet, some fault)
  | .ok parsed =>
      if !field.isRepeatable && parsed.subBlocks.any (·.type == field.tlvType) then
        (parsed, some (.lengthError "Field cannot be repeated"))
      else
        match makeElement field value with
        | .error fault => (parsed, some fault)
        | .ok block => (parsed.insert field block, none)

/-- The elements without the one of a type at an index; `none` if there is none. -/
def eraseAt (type : ℕ) : ℕ → List Block → Option (List Block)
  | _, [] => none
  | index, element :: rest =>
      if element.type = type then
        if index = 0 then some rest else (eraseAt type (index - 1) rest).map (element :: ·)
      else (eraseAt type index rest).map (element :: ·)

def remove (packet : Packet) (field : Field) (index : ℕ) : Packet × Option Fault :=
  match packet.parse with
  | .error fault => (packet, some fault)
  | .ok parsed =>
      match eraseAt field.tlvType index parsed.subBlocks with
      | none => (parsed, some (.outOfRange "Index out of range"))
      | some rest => (⟨none, rest⟩, none)

def clear (packet : Packet) (field : Field) : Packet × Option Fault :=
  match packet.parse with
  | .error fault => (packet, some fault)
  | .ok parsed =>
      (⟨none, parsed.subBlocks.filter fun element ↦ element.type != field.tlvType⟩, none)

def set (packet : Packet) (field : Field) (value : field.Value) : Packet × Option Fault :=
  match packet.clear field with
  | (cleared, some fault) => (cleared, some fault)
  | (cleared, none) => cleared.add field value

/-! ## Wire formats -/

/-- The `LpPacket` block that is encoded from elements which have a wire -/
def encodeElements (elements : List Block) : Except Fault Block :=
  ofTlv (Block.fromWire (Tlv.prependByteArrayBlock Tlv.lpPacket
    (elements.flatMap fun element ↦ Block.prependWire element.wire)))

/-- The network packet in a fragment, in front of which there is no header -/
def barePacket (fragment : Block) : Except Fault Block := do
  match ← ofTlv (Block.parse fragment.value) with
  -- the first one of no elements
  | [] => .error .undefinedBehaviour
  | networkPacket :: _ =>
      let _ ← ofTlv (Block.parse networkPacket.value)
      return networkPacket

/-- The fragment of a packet that has no header and no trailer -/
def bareFragment (packet : Packet) : Option Block :=
  match packet.subBlocks with
  | [element] => if element.type = Tlv.fragment then some element else none
  | _ => none

def wireEncode (packet : Packet) : Packet × Except Fault Block :=
  match packet.wire with
  | some wire => (packet, .ok wire)
  | none =>
      match packet.bareFragment with
      | some fragment => (packet, barePacket fragment)
      | none =>
          match encodeElements packet.subBlocks with
          | .error fault => (packet, .error fault)
          | .ok wire => (⟨some wire, []⟩, .ok wire)

/-- The loop of `wireDecode`, behind the element with the first argument -/
def checkFields : Option FieldInfo → List Block → Option Fault
  | _, [] => none
  | prev, element :: rest =>
      let info := FieldInfo.ofType element.type
      if !info.isRecognized && !info.canIgnore then
        some (.packet "unrecognized field cannot be ignored")
      else
        match prev with
        | none => checkFields (some info) rest
        | some prev =>
            if info.tlvType = prev.tlvType && !info.isRepeatable then
              some (.packet "non-repeatable field cannot be repeated")
            else if info.tlvType ≠ prev.tlvType && !FieldInfo.compareFieldSortOrder prev info then
              some (.packet "fields are not in correct sort order")
            else checkFields (some info) rest

def wireDecode (packet : Packet) (wire : Block) : Packet × Option Fault :=
  if wire.type = NdnCxx.Tlv.interest ∨ wire.type = NdnCxx.Tlv.data then
    empty.add .fragment wire.wire
  else if wire.type ≠ Tlv.lpPacket then
    (packet, some (.packet ("unrecognized TLV-TYPE " ++ toString wire.type)))
  else
    match ofTlv (Block.parse wire.value) with
    | .error fault => (packet, some fault)
    | .ok elements =>
        match checkFields none elements with
        | some fault => (packet, some fault)
        | none => (⟨some wire, elements⟩, none)

/-! ## Calls -/

/-- A call that may change a packet -/
inductive Call
  | add (field : Field) (value : field.Value)
  | set (field : Field) (value : field.Value)
  | remove (field : Field) (index : ℕ)
  | clear (field : Field)
  | wireEncode
  | wireDecode (wire : Block)

/-- The packet after a call, which may have thrown -/
def call (packet : Packet) : Call → Packet
  | .add field value => (packet.add field value).1
  | .set field value => (packet.set field value).1
  | .remove field index => (packet.remove field index).1
  | .clear field => (packet.clear field).1
  | .wireEncode => packet.wireEncode.1
  | .wireDecode wire => (packet.wireDecode wire).1

def step (packet : Packet) (next : Call) : Option Packet := some (packet.call next)

end Packet

end NdnCxx.Lp
