import NdnCxx.Encoding.Block
import NdnCxx.Name.Number

/-!
# Responses to status dataset requests

`StatusDatasetContext` collects blocks in a buffer of half a packet and sends the buffer as a segment
when more data arrive than fit. `Dispatcher::sendStatusDatasetSegment` makes a Data packet of every
segment. A call that throws may have changed the state before, so the operations return the state
together with what was sent and with the exception.
-/

namespace NdnCxx

def Name.appendVersion (name : Name) (version : ℕ) : Name := name ++ [Component.fromVersion version]

/-- `StatusDatasetContext::State` -/
inductive StatusDatasetContext.State
  | initial
  | responded
  | finalized
  deriving DecidableEq

/-- The exceptions of a `StatusDatasetContext` -/
inductive StatusDatasetContext.Thrown
  | invalidArgument (what : String)
  | domainError (what : String)
  deriving DecidableEq

/-- `StatusDatasetContext`. The prefix has a version component and no segment component. -/
structure StatusDatasetContext where
  interestName : Name
  dataPrefix : Name
  expiry : ℤ := 1000
  buffer : Bytes := []
  segmentNo : ℕ := 0
  state : StatusDatasetContext.State := .initial
  deriving DecidableEq

/-- The arguments of a call of `DataSender` -/
structure DatasetSegment where
  dataName : Name
  content : Bytes
  imsFresh : ℤ
  isFinalBlock : Bool
  deriving DecidableEq

namespace StatusDatasetContext

/-- What a call sends: segments of a response, or a `ControlResponse` as a negative one. -/
inductive Sent (R : Type*)
  | data (segment : DatasetSegment)
  | nack (response : R)
  deriving DecidableEq

variable {R : Type*}

abbrev Result (R : Type*) :=
  StatusDatasetContext × List (Sent R) × Option Thrown

/-- The prefix as `setPrefix` stores it; the number is the current time. -/
def withVersion (dataPrefix : Name) (version : ℕ) : Name :=
  match dataPrefix.get (-1) with
  | some last => if last.isVersion then dataPrefix else dataPrefix.appendVersion version
  -- an access outside an empty name
  | none => dataPrefix.appendVersion version

/-- The constructor -/
def init (interestName : Name) (version : ℕ) : StatusDatasetContext where
  interestName := interestName
  dataPrefix := withVersion interestName version

def setPrefix (context : StatusDatasetContext) (dataPrefix : Name) (version : ℕ) :
    Result R :=
  if !context.interestName.isPrefixOf dataPrefix then
    (context, [], some (.invalidArgument "prefix does not start with Interest Name"))
  else if context.state ≠ .initial then
    (context, [], some (.domainError "state is not in INITIAL"))
  else ({ context with dataPrefix := withVersion dataPrefix version }, [], none)

def setExpiry (context : StatusDatasetContext) (expiry : ℤ) : Result R :=
  ({ context with expiry := expiry }, [], none)

/-- The arguments of `m_dataSender` -/
def segment (context : StatusDatasetContext) (isFinalBlock : Bool) : DatasetSegment where
  dataName := context.dataPrefix.appendSegment context.segmentNo
  content := context.buffer
  imsFresh := context.expiry
  isFinalBlock := isFinalBlock

def segmentSize : ℕ := Tlv.maxNdnPacketSize / 2

/-- The loop of `append`. Every round but the first takes a byte, so the number of bytes bounds the
number of rounds. -/
def appendLoop : ℕ → StatusDatasetContext → Bytes → StatusDatasetContext × List DatasetSegment
  | 0, context, _ => (context, [])
  | rounds + 1, context, bytesLeft =>
      if bytesLeft.isEmpty then (context, [])
      else
        let nBytesAppend := min bytesLeft.length (segmentSize - context.buffer.length)
        let filled := { context with buffer := context.buffer ++ bytesLeft.take nBytesAppend }
        let rest := bytesLeft.drop nBytesAppend
        if rest.isEmpty then (filled, [])
        else
          let (final, later) := appendLoop rounds
            { filled with buffer := [], segmentNo := (filled.segmentNo + 1) % 2 ^ 64 } rest
          (final, filled.segment false :: later)

/-- `append`; the size of a block has 32 bits. -/
def append (context : StatusDatasetContext) (block : Block) : Result R :=
  if context.state = .finalized then
    (context, [], some (.domainError "state is in FINALIZED"))
  else
    let bytes := block.wire.take (block.wire.length % 2 ^ 32)
    let (final, segments) := appendLoop (bytes.length + 1) { context with state := .responded } bytes
    (final, segments.map .data, none)

def endResponse (context : StatusDatasetContext) : Result R :=
  if context.state = .finalized then
    (context, [], some (.domainError "state is in FINALIZED"))
  else ({ context with state := .finalized }, [.data (context.segment true)], none)

def reject (context : StatusDatasetContext) (response : R) : Result R :=
  if context.state ≠ .initial then
    (context, [], some (.domainError "state is in REPONSED or FINALIZED"))
  else ({ context with state := .finalized }, [.nack response], none)

/-- A call of a handler -/
inductive Call (R : Type*)
  | setPrefix (dataPrefix : Name) (version : ℕ)
  | setExpiry (expiry : ℤ)
  | append (block : Block)
  | endResponse
  | reject (response : R)

def call (context : StatusDatasetContext) : Call R → Result R
  | .setPrefix dataPrefix version => context.setPrefix dataPrefix version
  | .setExpiry expiry => context.setExpiry expiry
  | .append block => context.append block
  | .endResponse => context.endResponse
  | .reject response => context.reject response

/-- The state after a list of calls, some of which may throw, and what they send -/
def respond : StatusDatasetContext → List (Call R) →
    StatusDatasetContext × List (Sent R)
  | context, [] => (context, [])
  | context, first :: rest =>
      let (next, sent, _) := context.call first
      let (final, later) := respond next rest
      (final, sent ++ later)

end StatusDatasetContext

/-! ## Sending -/

/-- `Dispatcher::SendDestination` -/
inductive SendDestination
  | face
  | ims
  | faceAndIms
  deriving DecidableEq

/-- The arguments of `Dispatcher::sendData`; the empty component stands for no FinalBlockId. -/
structure DatasetData where
  dataName : Name
  content : Bytes
  finalBlockId : Component
  destination : SendDestination
  imsFresh : ℤ
  deriving DecidableEq

def DatasetSegment.sendStatusDatasetSegment (segment : DatasetSegment) : Except Error DatasetData :=
  let last := (segment.dataName.get (-1)).getD Component.empty
  do
    let segmentNo ← last.toSegment
    return {
      dataName := segment.dataName
      content := segment.content
      finalBlockId := if segment.isFinalBlock then last else Component.empty
      destination := if segmentNo = 0 then .faceAndIms else .ims
      imsFresh := segment.imsFresh }

end NdnCxx
