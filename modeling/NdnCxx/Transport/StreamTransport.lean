import NdnCxx.Encoding.Block
import NdnCxx.Foundation.Run

/-!
# Stream transports

`StreamTransportImpl` on one connection that stays open, from the moment `connect` has been called.
The socket is part of the state: whether an asynchronous receive is outstanding, and which
asynchronous writes are. A completion runs its handler at once. Cancelling the socket completes all
outstanding operations with `operation_aborted`, for which both handlers return at once, and it
loses no byte; so cancelling takes the operations out of the state.

The blocks handed to the receive callback and the block sequences written to the socket are recorded
in the order in which that happens.
-/

namespace NdnCxx

/-- An element of `m_transmissionQueue`; the number identifies the list node. -/
structure QueueItem where
  id : ℕ
  sequence : List Block
  deriving DecidableEq

/-- The transport, its socket, and the record of what went through it. -/
structure StreamTransport where
  connectionInProgress : Bool
  isConnected : Bool
  isExpectingData : Bool
  inputBuffer : Bytes
  transmissionQueue : List QueueItem
  isReceiving : Bool
  writes : List ℕ
  nextId : ℕ
  received : List Block
  written : List (List Block)
  deriving DecidableEq

namespace StreamTransport

def connecting : StreamTransport :=
  { connectionInProgress := true
    isConnected := false
    isExpectingData := false
    inputBuffer := []
    transmissionQueue := []
    isReceiving := false
    writes := []
    nextId := 0
    received := []
    written := [] }

/-! ## Receiving -/

/-- `processAll`: the blocks at the front of the buffer, and the bytes from the final `offset` on.
Each round consumes a block, so the number of bytes bounds the number of rounds. -/
def processAll : ℕ → Bytes → List Block × Bytes
  | 0, buffer => ([], buffer)
  | rounds + 1, buffer =>
      if buffer.isEmpty then ([], [])
      else
        match Block.fromBuffer buffer with
        | none => ([], buffer)
        | some element =>
            let (elements, remaining) := processAll rounds (buffer.drop element.wire.length)
            (element :: elements, remaining)

/-- `handleAsyncReceive` without an error; `none` when it closes the transport and throws. -/
def handleAsyncReceive (transport : StreamTransport) (chunk : Bytes) : Option StreamTransport :=
  let available := transport.inputBuffer ++ chunk
  let (elements, remaining) := processAll available.length available
  if remaining ≠ [] ∧ available.length = Tlv.maxNdnPacketSize ∧ elements = [] then none
  else
    some { transport with
      inputBuffer := remaining
      received := transport.received ++ elements
      isReceiving := true }

def cancel (transport : StreamTransport) : StreamTransport :=
  { transport with isReceiving := false, writes := [] }

def pause (transport : StreamTransport) : StreamTransport :=
  if transport.connectionInProgress then transport
  else if transport.isExpectingData then { transport.cancel with isExpectingData := false }
  else transport

def resume (transport : StreamTransport) : StreamTransport :=
  if transport.connectionInProgress then transport
  else if !transport.isExpectingData then
    { transport with isExpectingData := true, inputBuffer := [], isReceiving := true }
  else transport

/-! ## Sending -/

def asyncWrite (transport : StreamTransport) : StreamTransport :=
  match transport.transmissionQueue with
  | [] => transport
  | item :: _ => { transport with writes := transport.writes ++ [item.id] }

theorem asyncWrite_eq (transport : StreamTransport) :
    transport.asyncWrite = { transport with
      writes := transport.writes ++
        (transport.transmissionQueue.head?.map QueueItem.id).toList } := by
  unfold asyncWrite
  split
  · next hqueue =>
    have hnone : (transport.transmissionQueue.head?.map QueueItem.id).toList = [] := by
      simp [hqueue]
    rw [hnone, List.append_nil]
  · next item others hqueue => simp [hqueue]

/-- The common body of the two forms of `send`. -/
def sendSequence (transport : StreamTransport) (sequence : List Block) : StreamTransport :=
  let queued :=
    { transport with
      transmissionQueue := transport.transmissionQueue ++ [⟨transport.nextId, sequence⟩]
      nextId := transport.nextId + 1 }
  if queued.isConnected && queued.transmissionQueue.length == 1 then queued.asyncWrite else queued

def handleAsyncWrite (transport : StreamTransport) (queueItem : ℕ) : StreamTransport :=
  if !transport.isConnected then transport
  else
    let done := transport.transmissionQueue.filter fun item ↦ item.id == queueItem
    let erased :=
      { transport with
        transmissionQueue := transport.transmissionQueue.filter fun item ↦ item.id != queueItem
        written := transport.written ++ done.map QueueItem.sequence }
    if !erased.transmissionQueue.isEmpty then erased.asyncWrite else erased

def connectHandler (transport : StreamTransport) : StreamTransport :=
  let connected :=
    { ({ transport with connectionInProgress := false } : StreamTransport).resume with
      isConnected := true }
  if !connected.transmissionQueue.isEmpty then connected.asyncWrite else connected

/-! ## Runs -/

/-- What can happen to a transport: completions of socket operations, and calls. -/
inductive Event
  | connected
  | writeDone
  | receive (chunk : Bytes)
  | send (wire : Block)
  | sendTwo (header payload : Block)
  | pause
  | resume
  deriving DecidableEq

/-- One event. A chunk arrives only at an outstanding receive and fits the space it was given. -/
def step (transport : StreamTransport) : Event → Option StreamTransport
  | .connected =>
      if transport.connectionInProgress then some transport.connectHandler else none
  | .writeDone =>
      match transport.writes with
      | [] => none
      | queueItem :: others =>
          some (({ transport with writes := others } : StreamTransport).handleAsyncWrite queueItem)
  | .receive chunk =>
      if transport.isReceiving = true ∧ chunk ≠ [] ∧
          chunk.length ≤ Tlv.maxNdnPacketSize - transport.inputBuffer.length then
        transport.handleAsyncReceive chunk
      else none
  | .send wire => some (transport.sendSequence [wire])
  | .sendTwo header payload => some (transport.sendSequence [header, payload])
  | .pause => some transport.pause
  | .resume => some transport.resume

/-- The call has an effect: the transport is not connecting and is not in the wanted state yet. -/
def isEffective (transport : StreamTransport) : Event → Bool
  | .pause => !transport.connectionInProgress && transport.isExpectingData
  | .resume => !transport.connectionInProgress && !transport.isExpectingData
  | _ => true

end StreamTransport

end NdnCxx
