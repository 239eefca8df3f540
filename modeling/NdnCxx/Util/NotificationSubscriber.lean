import NdnCxx.Foundation.RequestTable
import NdnCxx.Packet.InterestWire

/-!
# Subscribing to a notification stream

`NotificationSubscriber` keeps one Interest pending in the face, first for the latest notification
and then for the notification after the one that was received. The face invokes at most one callback
of an Interest, and removes an Interest some time after it was asked to: until then the Interest can
still be answered. A callback that emits a signal goes on when the handlers have returned, and the
handlers may call `start` and `stop` and may connect and disconnect.
-/

namespace NdnCxx

namespace NotificationSubscriber

/-- Where the thread is: in no callback, or in the handlers of a signal that was emitted in the
callback of an Interest. A run ends in a failed assertion, or where a component is read that a name
does not have. -/
inductive Control (Notification : Type)
  | idle
  | onNotification (answered : ℕ) (data : Packet.Data) (notification : Notification)
  | onDecodeError (answered : ℕ) (data : Packet.Data)
  | onTimeout (answered : ℕ)
  | assertionFailed
  | outOfBounds
  deriving DecidableEq

end NotificationSubscriber

/-- `NotificationSubscriber`, with the number of handlers of `onNotification` and with its Interests
in the face. -/
structure NotificationSubscriber (Notification : Type) where
  prefixName : Name
  interestLifetime : ℤ
  isRunning : Bool
  lastSequenceNo : ℕ
  lastInterestId : Option ℕ
  interests : RequestTable Packet.Interest
  nHandlers : ℕ
  control : NotificationSubscriber.Control Notification
  deriving DecidableEq

namespace NotificationSubscriber

variable {Notification : Type}

/-- `std::numeric_limits<uint64_t>::max()` -/
def maxSequenceNo : ℕ := 2 ^ 64 - 1

/-- `NotificationSubscriber::NotificationSubscriber` -/
def create (prefixName : Name) (interestLifetime : ℤ) : NotificationSubscriber Notification where
  prefixName := prefixName
  interestLifetime := interestLifetime
  isRunning := false
  lastSequenceNo := maxSequenceNo
  lastInterestId := none
  interests := .empty
  nHandlers := 0
  control := .idle

/-- `onNotification.isEmpty()`; a signal that is being emitted is not empty. -/
def isEmpty (subscriber : NotificationSubscriber Notification) : Bool :=
  match subscriber.control with
  | .onNotification _ _ _ => false
  | _ => subscriber.nHandlers == 0

def stop (subscriber : NotificationSubscriber Notification) : NotificationSubscriber Notification :=
  if !subscriber.isRunning then subscriber
  else
    { subscriber with
      isRunning := false
      interests :=
        match subscriber.lastInterestId with
        | none => subscriber.interests
        | some id => subscriber.interests.cancel id
      lastInterestId := none }

def shouldStop (subscriber : NotificationSubscriber Notification) :
    Bool × NotificationSubscriber Notification :=
  if !subscriber.isRunning then (true, subscriber)
  else if subscriber.isEmpty then (true, subscriber.stop)
  else (false, subscriber)

/-- The size check of `Face::expressInterest`, which also throws what the encoding throws. The word
drawn for the nonce does not matter for the size. -/
def isExpressible (interest : Packet.Interest) : Bool :=
  match interest.wireEncodeInto 0 with
  | .ok wire => wire.length ≤ Tlv.maxNdnPacketSize
  | .error _ => false

/-- Express an Interest and remember its identifier. Nothing happens when `expressInterest` throws,
and nothing is done after it in the subscriber. -/
def expressInterest (subscriber : NotificationSubscriber Notification) (interest : Packet.Interest) :
    NotificationSubscriber Notification :=
  if isExpressible interest then
    { subscriber with
      lastInterestId := some subscriber.interests.nextId
      interests := subscriber.interests.issue interest }
  else subscriber

def sendInitialInterest (subscriber : NotificationSubscriber Notification) :
    NotificationSubscriber Notification :=
  match subscriber.shouldStop with
  | (true, stopped) => stopped
  | (false, running) =>
      running.expressInterest {
        name := running.prefixName
        selectors := { mustBeFresh := true, childSelector := 1 }
        interestLifetime := running.interestLifetime }

def sendNextInterest (subscriber : NotificationSubscriber Notification) :
    NotificationSubscriber Notification :=
  match subscriber.shouldStop with
  | (true, stopped) => stopped
  | (false, running) =>
      if running.lastSequenceNo = maxSequenceNo then { running with control := .assertionFailed }
      else
        running.expressInterest {
          name := running.prefixName ++ [.fromSequenceNumber (running.lastSequenceNo + 1)]
          interestLifetime := running.interestLifetime }

def start (subscriber : NotificationSubscriber Notification) : NotificationSubscriber Notification :=
  if subscriber.isRunning then subscriber
  else sendInitialInterest { subscriber with isRunning := true }

/-- The sequence number in the name of a Data packet; an exception of `toSequenceNumber`, or `none`
for a name without a last component. -/
def sequenceNumberOf (data : Packet.Data) : Option (Except Error ℕ) :=
  (data.name.get (-1)).map Component.toSequenceNumber

/-- The handler `catch (tlv::Error&)` of `afterReceiveData`, up to the handlers of the signal. Other
exceptions leave the callback. -/
def afterDecodeError (subscriber : NotificationSubscriber Notification) (answered : ℕ)
    (data : Packet.Data) (error : Error) : NotificationSubscriber Notification :=
  if error.isTlvError then { subscriber with control := .onDecodeError answered data }
  else subscriber

variable (wireDecode : Block → Except Error Notification)

def decodeContent (data : Packet.Data) : Except Error Notification := do
  let content ← data.getContent
  wireDecode (← Block.blockFromValue content.value)

/-- `NotificationSubscriber::afterReceiveData`, up to the handlers -/
def afterReceiveData (subscriber : NotificationSubscriber Notification) (answered : ℕ)
    (data : Packet.Data) : NotificationSubscriber Notification :=
  match subscriber.shouldStop with
  | (true, stopped) => stopped
  | (false, running) =>
      match sequenceNumberOf data with
      | none => { running with control := .outOfBounds }
      | some (.error error) => running.afterDecodeError answered data error
      | some (.ok sequenceNo) =>
          let numbered := { running with lastSequenceNo := sequenceNo }
          match decodeContent wireDecode data with
          | .error error => numbered.afterDecodeError answered data error
          | .ok notification =>
              { numbered with control := .onNotification answered data notification }

/-- `NotificationSubscriber::afterTimeout`, up to the handlers; a Nack comes here as well. -/
def afterTimeout (subscriber : NotificationSubscriber Notification) (answered : ℕ) :
    NotificationSubscriber Notification :=
  match subscriber.shouldStop with
  | (true, stopped) => stopped
  | (false, running) => { running with control := .onTimeout answered }

/-- The rest of a callback, when the handlers of the signal have returned -/
def afterHandlers (subscriber : NotificationSubscriber Notification) :
    Option (NotificationSubscriber Notification) :=
  let idle := { subscriber with control := .idle }
  match subscriber.control with
  | .onNotification _ _ _ => some idle.sendNextInterest
  | .onDecodeError _ _ => some idle.sendInitialInterest
  | .onTimeout _ => some idle.sendInitialInterest
  | _ => none

/-! ## Runs -/

/-- Calls of the user, in or outside handlers; callbacks of the face; the removal of an Interest; and
the end of the handlers, by a return or by an exception. -/
inductive Event
  | start
  | stop
  | connect
  | disconnect
  | receiveData (id : ℕ) (data : Packet.Data)
  | timeout (id : ℕ)
  | removePendingInterest (id : ℕ)
  | handlersReturn
  | handlersThrow
  deriving DecidableEq

/-- Whether the handlers of a signal are running; they can then call back. -/
def Control.isInHandlers : Control Notification → Bool
  | .onNotification _ _ _ | .onDecodeError _ _ | .onTimeout _ => true
  | _ => false

def Control.isCallable : Control Notification → Bool
  | .idle => true
  | control => control.isInHandlers

/-- Whether an Interest waits for its callback. -/
def isPending (subscriber : NotificationSubscriber Notification) (id : ℕ) : Bool :=
  subscriber.interests.pending.any fun entry ↦ entry.id == id

/-- Whether an Interest waits for its removal. -/
def isCancelled (subscriber : NotificationSubscriber Notification) (id : ℕ) : Bool :=
  subscriber.interests.pending.any fun entry ↦ entry.id == id && entry.isCancelled

/-- The Interest of a callback leaves the face. -/
def removeInterest (subscriber : NotificationSubscriber Notification) (id : ℕ) :
    NotificationSubscriber Notification :=
  { subscriber with interests := subscriber.interests.remove id }

/-- One event. The face calls only when no callback is running. -/
def step (subscriber : NotificationSubscriber Notification) :
    Event → Option (NotificationSubscriber Notification)
  | .start => if subscriber.control.isCallable then some subscriber.start else none
  | .stop => if subscriber.control.isCallable then some subscriber.stop else none
  | .connect =>
      if subscriber.control.isCallable then
        some { subscriber with nHandlers := subscriber.nHandlers + 1 }
      else none
  | .disconnect =>
      if subscriber.control.isCallable ∧ subscriber.nHandlers ≠ 0 then
        some { subscriber with nHandlers := subscriber.nHandlers - 1 }
      else none
  | .receiveData id data =>
      match subscriber.control with
      | .idle =>
          if subscriber.isPending id then
            some ((subscriber.removeInterest id).afterReceiveData wireDecode id data)
          else none
      | _ => none
  | .timeout id =>
      match subscriber.control with
      | .idle =>
          if subscriber.isPending id then some ((subscriber.removeInterest id).afterTimeout id)
          else none
      | _ => none
  | .removePendingInterest id =>
      match subscriber.control with
      | .idle => if subscriber.isCancelled id then some (subscriber.removeInterest id) else none
      | _ => none
  | .handlersReturn => subscriber.afterHandlers
  | .handlersThrow =>
      if subscriber.control.isInHandlers then some { subscriber with control := .idle } else none

end NotificationSubscriber

end NdnCxx
