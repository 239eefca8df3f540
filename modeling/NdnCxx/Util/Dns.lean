import NdnCxx.Foundation.Run

/-!
# Name resolution with a timeout

`dns::asyncResolve` starts a resolution and schedules a timeout event. Each of the two, when it is
executed, cancels the other. The timeout event leaves the scheduler when it is cancelled. What
`cancel()` does to a resolution is up to the resolver, and is a parameter: one that has completed
before keeps its result, and its handler stays in the queue of the `io_service`. One that is pending
completes with `operation_aborted`, or goes on where the system call cannot be stopped.
-/

namespace NdnCxx

/-- `dns::IpAddress` -/
inductive IpAddress
  | v4 (address : UInt32)
  | v6 (address : BitVec 128) (scopeId : ℕ)
deriving DecidableEq

namespace IpAddress

def isV4 : IpAddress → Bool
  | v4 _ => true
  | v6 _ _ => false

def isV6 : IpAddress → Bool
  | v4 _ => false
  | v6 _ _ => true

def isMulticast : IpAddress → Bool
  | v4 address => address &&& 0xf0000000 = 0xe0000000
  | v6 address _ => address >>> 120 = 0xff

end IpAddress

namespace Dns

/-! ## Selectors -/

abbrev AddressSelector := IpAddress → Bool

def anyAddress : AddressSelector := fun _ ↦ true

def ipv4Only : AddressSelector := IpAddress.isV4

def ipv6Only : AddressSelector := IpAddress.isV6

/-- The part of a result from the first address that the selector accepts, which is empty for the
iterator past the end. -/
def selectAddress (addressSelector : AddressSelector) (it : List IpAddress) : List IpAddress :=
  it.dropWhile fun address ↦ !addressSelector address

/-! ## The resolver -/

/-- An invocation of a callback -/
inductive Callback
  | success (address : IpAddress)
  | error (reason : String)
deriving DecidableEq

/-- The error code and the result that the completion handler is given -/
inductive Completion
  | aborted
  | failed (message : String)
  | resolved (addresses : List IpAddress)
deriving DecidableEq

/-- A call of `asyncResolve`: its selector, and which of its callbacks are not empty -/
structure Request where
  addressSelector : AddressSelector
  hasSuccess : Bool
  hasError : Bool

/-- The `async_resolve` operation; a handler that is executed has been given its completion. -/
inductive Resolution
  | pending
  | completed (completion : Completion)
  | handled (completion : Completion)
deriving DecidableEq

/-- What `cancel()` of a resolver may do to its operation. A pending one that it does not abort goes
on to complete with a result. -/
structure Cancels (cancel : Resolution → Resolution) : Prop where
  pending : cancel .pending = .completed .aborted ∨ cancel .pending = .pending
  completed : ∀ completion, cancel (.completed completion) = .completed completion
  handled : ∀ completion, cancel (.handled completion) = .handled completion

/-- A `Resolver` after `asyncResolve`: its two asynchronous operations, and the callbacks it has
invoked -/
structure Resolver where
  resolution : Resolution
  isTimeoutScheduled : Bool
  callbacks : List Callback
deriving DecidableEq

inductive Event
  | complete (result : Except String (List IpAddress))
  | executeHandler
  | executeTimeout

def completionOf : Except String (List IpAddress) → Completion
  | .error message => .failed message
  | .ok addresses => .resolved addresses

def noMatch : String := "No endpoints match the specified address selector"

def timedOut : String := "Hostname resolution timed out"

namespace Request

def invokeError (request : Request) (reason : String) : List Callback :=
  if request.hasError then [.error reason] else []

def invokeResult (request : Request) : Completion → List Callback
  | .aborted => []
  | .failed message => request.invokeError ("Hostname cannot be resolved: " ++ message)
  | .resolved addresses =>
      match selectAddress request.addressSelector addresses with
      | address :: _ =>
          if request.hasSuccess then [.success address] else request.invokeError noMatch
      | [] => request.invokeError noMatch

end Request

namespace Resolver

def asyncResolve : Resolver :=
  { resolution := .pending
    isTimeoutScheduled := true
    callbacks := [] }

def onResolveResult (request : Request) (resolver : Resolver) (completion : Completion) :
    Resolver :=
  { resolver with
    isTimeoutScheduled := false
    callbacks := resolver.callbacks ++ request.invokeResult completion }

variable (cancel : Resolution → Resolution) (request : Request)

def onResolveTimeout (resolver : Resolver) : Resolver :=
  { resolver with
    resolution := cancel resolver.resolution
    callbacks := resolver.callbacks ++ request.invokeError timedOut }

/-- The scheduler invalidates an event before it executes it. -/
def step (resolver : Resolver) : Event → Option Resolver
  | .complete result =>
      match resolver.resolution with
      | .pending => some { resolver with resolution := .completed (completionOf result) }
      | .completed _ | .handled _ => none
  | .executeHandler =>
      match resolver.resolution with
      | .completed completion =>
          some ({ resolver with resolution := .handled completion }.onResolveResult request
            completion)
      | .pending | .handled _ => none
  | .executeTimeout =>
      if resolver.isTimeoutScheduled then
        some ({ resolver with isTimeoutScheduled := false }.onResolveTimeout cancel request)
      else none

end Resolver

end Dns

end NdnCxx
