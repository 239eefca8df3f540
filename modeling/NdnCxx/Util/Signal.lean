import NdnCxx.Foundation.Run

/-!
# Signals

`Signal` keeps its handlers in a linked list. A handler that disconnects itself while it runs stays in
the list: `disconnect` sets `m_currentSlot` to `end()`, and the loop of the emission erases the slot
when the handler returns. What a handler does while it runs comes as events between the invocation and
its end, so a handler may do anything each time.

An iterator is the number of the slot it points to; slots are numbered as they are connected. Emitting
from a handler and disconnecting another handler from a handler are undefined; the model stops there.
-/

namespace NdnCxx

/-- `Signal::Slot`. The function `disconnect` is what the weak pointers of the connections refer to;
the handler of a single-shot connection disconnects when the wrapped handler has returned. -/
structure Slot where
  id : ℕ
  isSingleShot : Bool
  hasDisconnect : Bool
  deriving DecidableEq

namespace Signal

/-- The locals of `operator()` -/
structure Loop where
  it : ℕ
  last : ℕ
  deriving DecidableEq

/-- What is recorded of an emission: the handlers that were connected and not disconnected when it
started, those it has invoked, and whether the last one threw. -/
structure Emission where
  connected : List ℕ
  invoked : List ℕ
  thrown : Bool
  deriving DecidableEq

end Signal

/-- `Signal`; `m_isExecuting` is whether there is a loop, and a `currentSlot` without a value is
`end()`. The record: the handlers that are connected; those whose `disconnect()` has returned or that
were single-shot and have run; the emission in progress and the finished ones; and the handlers that
were invoked after they were retired. -/
structure Signal where
  slots : List Slot
  executing : Option Signal.Loop
  currentSlot : Option ℕ
  nextId : ℕ
  connected : List ℕ
  retired : List ℕ
  emission : Signal.Emission
  emissions : List Signal.Emission
  late : List ℕ
  deriving DecidableEq

namespace Signal

def initial : Signal :=
  { slots := []
    executing := none
    currentSlot := none
    nextId := 0
    connected := []
    retired := []
    emission := ⟨[], [], false⟩
    emissions := []
    late := [] }

def isEmpty (signal : Signal) : Bool := !signal.executing.isSome && signal.slots.isEmpty

/-- `++it`; `none` is `end()`. -/
def next (slots : List Slot) (it : ℕ) : Option ℕ :=
  ((slots.dropWhile fun slot ↦ slot.id != it).tail.head?).map Slot.id

def erase (slots : List Slot) (it : ℕ) : List Slot := slots.filter fun slot ↦ slot.id != it

def expire (slots : List Slot) (it : ℕ) : List Slot :=
  slots.map fun slot ↦ if slot.id = it then { slot with hasDisconnect := false } else slot

def connect (signal : Signal) (isSingleShot : Bool) : Signal :=
  { signal with
    slots := signal.slots ++ [⟨signal.nextId, isSingleShot, true⟩]
    nextId := signal.nextId + 1
    connected := signal.connected ++ [signal.nextId] }

/-- `Connection::disconnect`, which does nothing when its weak pointer has expired, and
`Signal::disconnect` -/
def disconnect (signal : Signal) (id : ℕ) : Option Signal :=
  if signal.slots.any fun slot ↦ slot.id == id && slot.hasDisconnect then
    match signal.executing with
    | none => some { signal with slots := erase signal.slots id }
    | some _ =>
        -- "cannot disconnect another handler from a handler"
        if signal.currentSlot = some id then
          some { signal with currentSlot := none, slots := expire signal.slots id }
        else none
  else some signal

/-- Note that a handler is not to run any more. -/
def retire (signal : Signal) (id : ℕ) : Signal :=
  { signal with connected := signal.connected.erase id, retired := signal.retired ++ [id] }

/-- The head of the loop: the slot becomes the current one and its handler is called. -/
def invoke (signal : Signal) (it last : ℕ) : Signal :=
  { signal with
    executing := some ⟨it, last⟩
    currentSlot := some it
    emission := { signal.emission with invoked := signal.emission.invoked ++ [it] }
    late := if it ∈ signal.retired then signal.late ++ [it] else signal.late }

/-- The end of an emission -/
def finish (signal : Signal) (thrown : Bool) : Signal :=
  { signal with
    executing := none
    emissions := signal.emissions ++ [{ signal.emission with thrown := thrown }] }

def isSingleShot (signal : Signal) (it : ℕ) : Bool :=
  signal.slots.any fun slot ↦ slot.id == it && slot.isSingleShot

/-- `operator()`, up to the first call -/
def emit (signal : Signal) : Option Signal :=
  if signal.executing.isSome then none
  else
    let started := { signal with emission := ⟨signal.connected, [], false⟩ }
    match signal.slots.head?, signal.slots.getLast? with
    | some first, some last => some (started.invoke first.id last.id)
    | _, _ => some (started.finish false)

/-- The rest of the loop's body after the handler has returned, and the next call -/
def advance (signal : Signal) (loop : Loop) : Option Signal :=
  let following := next signal.slots loop.it
  let moved :=
    if signal.currentSlot = none then { signal with slots := erase signal.slots loop.it }
    else signal
  if loop.it = loop.last then some (moved.finish false)
  else following.map fun it ↦ moved.invoke it loop.last

/-- The handler of the current slot returns. -/
def returns (signal : Signal) : Option Signal := do
  let loop ← signal.executing
  let after ←
    if signal.isSingleShot loop.it then (signal.disconnect loop.it).map fun s ↦ s.retire loop.it
    else some signal
  after.advance loop

/-- The handler of the current slot throws: the `catch` clause of `operator()`. -/
def throws (signal : Signal) : Option Signal := do
  let loop ← signal.executing
  let after := if signal.isSingleShot loop.it then signal.retire loop.it else signal
  return after.finish true

/-- What the owner, the handlers and the holders of connections do. -/
inductive Event
  | connect
  | connectSingleShot
  | disconnect (id : ℕ)
  | emit
  | returns
  | throws
  deriving DecidableEq

def step (signal : Signal) : Event → Option Signal
  | .connect => some (signal.connect false)
  | .connectSingleShot => some (signal.connect true)
  | .disconnect id =>
      -- a connection is of a slot that was made
      if id < signal.nextId then (signal.disconnect id).map fun s ↦ s.retire id else none
  | .emit => signal.emit
  | .returns => signal.returns
  | .throws => signal.throws

end Signal

end NdnCxx
