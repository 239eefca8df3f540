import NdnCxx.Packet.Interest

/-!
# Pending Interests of a face

`Face` and `Face::Impl` as far as pending Interests are concerned. All work is done by handlers of
one `io_service` thread. Removing Interests and shutting down are posted to it; expressing an
Interest is dispatched, so it happens at once when the caller is in that thread, in particular in a
callback, and is posted otherwise. A callback is called in the middle of a handler, and the state
says where: in the loop over the pending Interest table, with the iterator that the loop goes on
with, or in a timeout event.

An iterator is the number of the entry it points to, or `none` for the past-the-end iterator of the
list; using an iterator of an erased entry is undefined in the source and has no next state. The
timeout event of an entry is scheduled when the entry is created and cancelled when it is destroyed.

The timeout callback is called if it is not empty. The other two are called in any case, and an empty
one throws `std::bad_function_call` out of the loop. `processEvents` clears the table before it throws
the exception on.
-/

namespace NdnCxx

/-- Which of the callbacks of an expressed Interest are not empty -/
structure Face.Callbacks where
  hasData : Bool
  hasNack : Bool
  hasTimeout : Bool
  deriving DecidableEq

/-- A `PendingInterest`. The number is its `PendingInterestId`. -/
structure PendingInterest where
  id : ℕ
  interest : Interest
  wire : Bytes
  callbacks : Face.Callbacks
  deriving DecidableEq

namespace Face

/-- A network packet that answers Interests. A Nack carries the wire of the nacked Interest. -/
inductive Packet
  | data (data : Data)
  | nack (interest : Bytes) (reason : NackReason)
  deriving DecidableEq

/-- The test in the loops of `satisfyPendingInterests` and `nackPendingInterests`; Interests are
compared by their wires. -/
def Packet.answers (sha256 : Bytes → Bytes) (packet : Packet) (entry : PendingInterest) : Bool :=
  match packet with
  | .data received => entry.interest.matchesData sha256 received
  | .nack interest _ => entry.wire == interest

/-- The processing of one packet: the pending Interests at its beginning, and those whose callbacks
it has invoked. -/
structure Processing where
  packet : Packet
  table : List PendingInterest
  invoked : List ℕ
  deriving DecidableEq

/-- Which callback is running. -/
inductive Control
  | idle
  | packet (matchedEntry : ℕ) (entry : Option ℕ) (processing : Processing)
  | timeout (expired : ℕ)
  deriving DecidableEq

/-- A handler that was posted. -/
inductive Posted
  | asyncExpressInterest (entry : PendingInterest)
  | asyncRemovePendingInterest (id : ℕ)
  | asyncRemoveAllPendingInterests
  | asyncShutdown
  deriving DecidableEq

/-- The three callbacks of an expressed Interest. -/
inductive Callback
  | data
  | nack
  | timeout
  deriving DecidableEq

def Packet.callback : Packet → Callback
  | .data _ => .data
  | .nack _ _ => .nack

/-- The callback that a packet invokes is not empty. -/
def Packet.isHandledBy (packet : Packet) (callbacks : Callbacks) : Bool :=
  match packet with
  | .data _ => callbacks.hasData
  | .nack _ _ => callbacks.hasNack

/-- The invocation of a callback of an expressed Interest. -/
structure Invocation where
  id : ℕ
  callback : Callback
  deriving DecidableEq

end Face

/-- A face, with the record of invocations and processed packets. Its `io_service` is run by
`processEvents` or by the user. -/
structure Face where
  pendingInterestTable : List PendingInterest
  timeoutEvents : List ℕ
  posted : List Face.Posted
  control : Face.Control
  isInProcessEvents : Bool
  nextId : ℕ
  invocations : List Face.Invocation
  processed : List Face.Processing
  deriving DecidableEq

namespace Face

def initial : Face :=
  { pendingInterestTable := []
    timeoutEvents := []
    posted := []
    control := .idle
    isInProcessEvents := false
    nextId := 0
    invocations := []
    processed := [] }

def cancelTimeouts (face : Face) (destroyed : List ℕ) : Face :=
  { face with timeoutEvents := face.timeoutEvents.filter fun id ↦ id ∉ destroyed }

def asyncExpressInterest (face : Face) (entry : PendingInterest) : Face :=
  { face with
    pendingInterestTable := face.pendingInterestTable ++ [entry]
    timeoutEvents := face.timeoutEvents ++ [entry.id] }

/-- `Face::expressInterest`; it throws, with no other effect, when the Interest is too large. -/
def expressInterest (face : Face) (interest : Interest) (wire : Bytes) (callbacks : Callbacks)
    (isSameThread : Bool) : Face :=
  if wire.length > Tlv.maxNdnPacketSize then face
  else
    let entry : PendingInterest := ⟨face.nextId, interest, wire, callbacks⟩
    let created := { face with nextId := face.nextId + 1 }
    if isSameThread then created.asyncExpressInterest entry
    else { created with posted := created.posted ++ [.asyncExpressInterest entry] }

/-- Remove the entries with the given property from the table. -/
def removeIf (face : Face) (predicate : PendingInterest → Bool) : Face :=
  let destroyed := (face.pendingInterestTable.filter predicate).map PendingInterest.id
  { face.cancelTimeouts destroyed with
    pendingInterestTable := face.pendingInterestTable.filter fun entry ↦ !predicate entry }

def runPosted (face : Face) : Posted → Face
  | .asyncExpressInterest entry => face.asyncExpressInterest entry
  | .asyncRemovePendingInterest id => face.removeIf fun entry ↦ entry.id == id
  | .asyncRemoveAllPendingInterests => face.removeIf fun _ ↦ true
  | .asyncShutdown => face.removeIf fun _ ↦ true

/-- The handler of `processEvents` for an exception that leaves the `io_service` -/
def leaveByException (face : Face) : Face :=
  if face.isInProcessEvents then face.removeIf fun _ ↦ true else face

/-- The callback of an entry that has been erased is empty and throws. -/
def leaveLoop (face : Face) (matchedEntry : PendingInterest) (processing : Processing) : Face :=
  leaveByException { face.cancelTimeouts [matchedEntry.id] with
    pendingInterestTable :=
      face.pendingInterestTable.eraseP fun other ↦ other.id == matchedEntry.id
    control := .idle
    processed := face.processed ++ [processing] }

/-- `satisfyPendingInterests` and `nackPendingInterests` from an iterator on, up to the next
callback or to the end of the loop. -/
def processFrom (sha256 : Bytes → Bytes) (face : Face) (entry : Option ℕ)
    (processing : Processing) : Option Face :=
  let finished := { face with control := .idle, processed := face.processed ++ [processing] }
  match entry with
  | none => some finished
  | some id =>
      match face.pendingInterestTable.dropWhile fun other ↦ other.id != id with
      | [] => none
      | rest =>
          match rest.dropWhile fun other ↦ !processing.packet.answers sha256 other with
          | [] => some finished
          | matchedEntry :: later =>
              if processing.packet.isHandledBy matchedEntry.callbacks then
                some { face with
                  pendingInterestTable :=
                    face.pendingInterestTable.eraseP fun other ↦ other.id == matchedEntry.id
                  control := .packet matchedEntry.id (later.head?.map PendingInterest.id)
                    { processing with invoked := processing.invoked ++ [matchedEntry.id] }
                  invocations :=
                    face.invocations ++ [⟨matchedEntry.id, processing.packet.callback⟩] }
              else some (face.leaveLoop matchedEntry processing)

def processPacket (sha256 : Bytes → Bytes) (face : Face) (packet : Packet) : Option Face :=
  face.processFrom sha256 (face.pendingInterestTable.head?.map PendingInterest.id)
    ⟨packet, face.pendingInterestTable, []⟩

def deleter (face : Face) (id : ℕ) : Option Face :=
  if face.pendingInterestTable.any fun entry ↦ entry.id == id then
    some { face.cancelTimeouts [id] with
      pendingInterestTable := face.pendingInterestTable.eraseP fun entry ↦ entry.id == id }
  else none

/-- `invokeTimeoutCallback`, called by the timeout event of an entry, up to the callback if there is
one -/
def invokeTimeoutCallback (face : Face) (id : ℕ) : Option Face :=
  match face.pendingInterestTable.find? fun entry ↦ entry.id == id with
  | none => none
  | some entry =>
      let fired := face.cancelTimeouts [id]
      if entry.callbacks.hasTimeout then
        some { fired with
          control := .timeout id
          invocations := fired.invocations ++ [⟨id, .timeout⟩] }
      else fired.deleter id

/-! ## Runs -/

/-- Calls, handlers run by the `io_service`, and the return of the running callback. -/
inductive Event
  | expressInterest (interest : Interest) (wire : Bytes) (callbacks : Callbacks)
      (isSameThread : Bool)
  | removePendingInterest (id : ℕ)
  | removeAllPendingInterests
  | shutdown
  | runIoService (isInProcessEvents : Bool)
  | runPosted
  | receive (packet : Packet)
  | timeout (id : ℕ)
  | callbackReturn
  deriving DecidableEq

def post (face : Face) (handler : Posted) : Face := { face with posted := face.posted ++ [handler] }

/-- One event. Handlers start only when no callback is running. -/
def step (sha256 : Bytes → Bytes) (face : Face) : Event → Option Face
  | .expressInterest interest wire callbacks isSameThread =>
      some (face.expressInterest interest wire callbacks isSameThread)
  | .removePendingInterest id => some (face.post (.asyncRemovePendingInterest id))
  | .removeAllPendingInterests => some (face.post .asyncRemoveAllPendingInterests)
  | .shutdown => some (face.post .asyncShutdown)
  | .runIoService isInProcessEvents =>
      match face.control with
      | .idle => some { face with isInProcessEvents := isInProcessEvents }
      | _ => none
  | .runPosted =>
      match face.control, face.posted with
      | .idle, handler :: later => some (({ face with posted := later } : Face).runPosted handler)
      | _, _ => none
  | .receive packet =>
      match face.control with
      | .idle => face.processPacket sha256 packet
      | _ => none
  | .timeout id =>
      match face.control with
      | .idle => if id ∈ face.timeoutEvents then face.invokeTimeoutCallback id else none
      | _ => none
  | .callbackReturn =>
      match face.control with
      | .idle => none
      | .packet matchedEntry entry processing =>
          (face.cancelTimeouts [matchedEntry]).processFrom sha256 entry processing
      | .timeout expired => ({ face with control := .idle } : Face).deleter expired

end Face

end NdnCxx
