import Mathlib.Data.List.Sort
import NdnCxx.Foundation.Run

/-!
# The scheduler

`Scheduler` together with its deadline timer and the clock. A wait that completes leaves a handler
to be dispatched; cancelling the timer, or setting it anew, aborts a wait that has not completed yet
and does not take back a handler that is already due to run. A callback runs in the middle of
`onEvent`, and all operations are possible meanwhile, so the point reached in `onEvent` is part of
the state.

An iterator is the number of the event it was obtained for. Using one whose event is no longer
queued is undefined in the source; such a call has no next state.

What was scheduled, executed, cancelled and dropped is recorded, in order.
-/

namespace NdnCxx

/-- `Scheduler::EventInfo`; the number stands for the callback, the node and its `EventIdImpl`. -/
structure EventInfo where
  id : ℕ
  scheduledTime : ℤ
  deriving DecidableEq

abbrev EventId := Option ℕ

/-- The invocation of a callback. -/
structure Execution where
  event : EventInfo
  time : ℤ
  deriving DecidableEq

structure Scheduler where
  events : List EventInfo
  scheduledEvent : Option ℕ
  isEventExecuting : Bool
  /-- The `EventIdImpl`s with `m_isValid`. -/
  valid : List ℕ
  /-- The expiry time of `m_deadlineTimer`. -/
  expiresAt : ℤ
  isWaiting : Bool
  /-- The completed waits whose handlers have not run yet. -/
  nReady : ℕ
  /-- How long before the timer was set the clock was read for it. -/
  lateness : ℤ
  clock : ℤ
  /-- While a callback runs, the time up to which `onEvent` processes events. -/
  executingUntil : Option ℤ
  eventIds : List EventId
  scheduled : List EventInfo
  executed : List Execution
  cancelled : List ℕ
  dropped : List ℕ
  deriving DecidableEq

namespace Scheduler

def initial : Scheduler :=
  { events := []
    scheduledEvent := none
    isEventExecuting := false
    valid := []
    expiresAt := 0
    isWaiting := false
    nReady := 0
    lateness := 0
    clock := 0
    executingUntil := none
    eventIds := []
    scheduled := []
    executed := []
    cancelled := []
    dropped := [] }

/-- Find the event that an iterator points to. -/
def deref (scheduler : Scheduler) (id : ℕ) : Option EventInfo :=
  scheduler.events.find? fun info ↦ info.id == id

def cancelTimer (scheduler : Scheduler) : Scheduler := { scheduler with isWaiting := false }

/-- `m_deadlineTimer.expires_from_now(..)` and `async_wait`, for the given event -/
def arm (scheduler : Scheduler) (event : EventInfo) (after lateness : ℤ) : Scheduler :=
  { scheduler with
    expiresAt := scheduler.clock + after
    isWaiting := true
    lateness := lateness
    scheduledEvent := some event.id }

def expiresFromNow (scheduler : Scheduler) (event : EventInfo) : ℤ :=
  if scheduler.clock > event.scheduledTime then 0 else event.scheduledTime - scheduler.clock

/-- `scheduleEvent`. The queue is a `std::multiset`, which puts an event behind those of the same
time. -/
def scheduleEvent (scheduler : Scheduler) (after : ℤ) : Option (Scheduler × EventId) :=
  let event : EventInfo := ⟨scheduler.scheduled.length, scheduler.clock + after⟩
  let inserted :=
    { scheduler with
      events := scheduler.events.orderedInsert (fun first second ↦
        first.scheduledTime < second.scheduledTime) event
      valid := event.id :: scheduler.valid
      scheduled := scheduler.scheduled ++ [event] }
  if !inserted.isEventExecuting then
    match inserted.scheduledEvent with
    | none => some (inserted.arm event after 0, some event.id)
    | some iterator =>
        match scheduler.deref iterator with
        | none => none
        | some current =>
            if event.scheduledTime < current.scheduledTime then
              some (inserted.arm event after 0, some event.id)
            else some (inserted, some event.id)
  else some (inserted, some event.id)

/-- Erase an event from the queue on behalf of `cancelEvent`, and invalidate its `EventIdImpl`. -/
def eraseEvent (scheduler : Scheduler) (id : ℕ) : Scheduler :=
  { scheduler with
    events := scheduler.events.eraseP fun info ↦ info.id == id
    valid := scheduler.valid.filter fun other ↦ other != id
    cancelled := scheduler.cancelled ++ [id] }

/-- Set the timer for the first event of the queue, if there is one. -/
def rearm (scheduler : Scheduler) : Scheduler :=
  match scheduler.events with
  | [] => { scheduler with scheduledEvent := none }
  | head :: _ => scheduler.arm head (scheduler.expiresFromNow head) 0

def cancelEvent (scheduler : Scheduler) (eventId : EventId) : Option Scheduler :=
  match eventId with
  | none => some scheduler
  | some id =>
      if id ∉ scheduler.valid then some scheduler
      else if (scheduler.deref id).isNone then none
      else if scheduler.scheduledEvent ≠ some id then some (scheduler.eraseEvent id)
      else
        let erased := scheduler.cancelTimer.eraseEvent id
        if !erased.isEventExecuting then some erased.rearm else some erased

def cancelAllEvents (scheduler : Scheduler) : Scheduler :=
  { scheduler with
    events := []
    isWaiting := false
    dropped := scheduler.dropped ++ scheduler.events.map EventInfo.id }

/-- `onEvent` from the head of its loop on, up to the next callback or to its end. -/
def processExpired (scheduler : Scheduler) (now : ℤ) : Scheduler :=
  match scheduler.events with
  | [] =>
      { scheduler with
        scheduledEvent := none
        isEventExecuting := false
        executingUntil := none }
  | head :: rest =>
      if head.scheduledTime ≤ now then
        { scheduler with
          events := rest
          valid := scheduler.valid.filter fun other ↦ other != head.id
          executingUntil := some now
          executed := scheduler.executed ++ [⟨head, scheduler.clock⟩] }
      else
        { scheduler.arm head (head.scheduledTime - now) (scheduler.clock - now) with
          isEventExecuting := false
          executingUntil := none }

def onEvent (scheduler : Scheduler) : Scheduler :=
  ({ scheduler with isEventExecuting := true } : Scheduler).processExpired scheduler.clock

/-! ## Runs -/

/-- Calls, the passage of time, completions and dispatches of waits, and the two ways in which a
callback ends. -/
inductive Event
  | scheduleEvent (after : ℤ)
  | cancelEvent (eventId : EventId)
  | cancelAllEvents
  | advance (elapsed : ℕ)
  | expire
  | dispatch
  | callbackReturn
  | callbackThrow
  deriving DecidableEq

def step (scheduler : Scheduler) : Event → Option Scheduler
  | .scheduleEvent after =>
      (scheduler.scheduleEvent after).map fun (next, eventId) ↦
        { next with eventIds := next.eventIds ++ [eventId] }
  | .cancelEvent eventId => scheduler.cancelEvent eventId
  | .cancelAllEvents => some scheduler.cancelAllEvents
  | .advance elapsed => some { scheduler with clock := scheduler.clock + elapsed }
  | .expire =>
      if scheduler.isWaiting = true ∧ scheduler.expiresAt ≤ scheduler.clock then
        some { scheduler with isWaiting := false, nReady := scheduler.nReady + 1 }
      else none
  | .dispatch =>
      if scheduler.executingUntil = none ∧ 0 < scheduler.nReady then
        some ({ scheduler with nReady := scheduler.nReady - 1 } : Scheduler).onEvent
      else none
  | .callbackReturn =>
      match scheduler.executingUntil with
      | none => none
      | some now => some (scheduler.processExpired now)
  | .callbackThrow =>
      match scheduler.executingUntil with
      | none => none
      | some _ => some { scheduler with executingUntil := none }

end Scheduler

end NdnCxx
