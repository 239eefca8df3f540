import Mathlib.Data.List.TakeWhile
import NdnCxx.Util.Dns

/-!
# Orders of completion and timeout

The timeout event is executed once at most, and never behind the completion handler. If it aborts
the resolution, the handler is given `operation_aborted` and invokes nothing. If the resolution has
completed or goes on, the handler invokes a callback behind the one that has reported the timeout.
-/

namespace NdnCxx.Dns

variable {cancel : Resolution → Resolution} {request : Request} {resolver next : Resolver}
  {event : Event} {past : List Event}

def Event.isTimeout : Event → Bool
  | .executeTimeout => true
  | .complete _ | .executeHandler => false

namespace Resolution

def completion : Resolution → Option Completion
  | pending => none
  | completed completion | handled completion => some completion

/-- The callbacks invoked by the handler, once it has been executed. -/
def invoked (request : Request) : Resolution → List Callback
  | pending | completed _ => []
  | handled completion => request.invokeResult completion

end Resolution

variable {completion : Completion} {addresses : List IpAddress}

namespace Request

theorem length_invokeError_le (request : Request) (reason : String) :
    (request.invokeError reason).length ≤ 1 := by
  unfold invokeError
  split_ifs <;> simp

theorem length_invokeResult_le (request : Request) (completion : Completion) :
    (request.invokeResult completion).length ≤ 1 := by
  unfold invokeResult
  split
  · decide
  · exact length_invokeError_le _ _
  · split
    · split_ifs
      · exact Nat.le_refl 1
      · exact length_invokeError_le _ _
    · exact length_invokeError_le _ _

theorem length_invoked_le (request : Request) (resolution : Resolution) :
    (resolution.invoked request).length ≤ 1 := by
  cases resolution with
  | pending | completed _ => exact Nat.zero_le 1
  | handled completion => exact length_invokeResult_le _ _

theorem mem_invokeError {reason : String} {callback : Callback}
    (hcallback : callback ∈ request.invokeError reason) : callback = .error reason := by
  unfold invokeError at hcallback
  split_ifs at hcallback
  · exact List.mem_singleton.mp hcallback
  · cases hcallback

/-- With a success callback, the first address that the selector accepts is what is reported. -/
theorem invokeResult_resolved (hsuccess : request.hasSuccess = true)
    (haccepted : ∃ address ∈ addresses, request.addressSelector address = true) :
    ∃ address, request.invokeResult (.resolved addresses) = [.success address] := by
  obtain ⟨accepted, hmem, haccepted⟩ := haccepted
  unfold invokeResult
  cases hselect : selectAddress request.addressSelector addresses with
  | nil =>
    have hrejected := List.dropWhile_eq_nil_iff.mp hselect accepted hmem
    simp [haccepted] at hrejected
  | cons address rest => exact ⟨address, by simp only [hselect, hsuccess, if_true]⟩

theorem length_invokeResult_eq_one (hsuccess : request.hasSuccess = true)
    (herror : request.hasError = true) (hne : completion ≠ .aborted) :
    (request.invokeResult completion).length = 1 := by
  unfold invokeResult invokeError
  simp only [hsuccess, herror, if_true]
  split
  · exact absurd rfl hne
  · rfl
  · split <;> rfl

end Request

namespace Resolver

/-- What each event does -/
theorem step_cases (hstep : resolver.step cancel request event = some next) :
    (∃ result, event = .complete result ∧ resolver.resolution = .pending ∧
      next = { resolver with resolution := .completed (completionOf result) }) ∨
    (∃ completion, event = .executeHandler ∧ resolver.resolution = .completed completion ∧
      next = ⟨.handled completion, false,
        resolver.callbacks ++ request.invokeResult completion⟩) ∨
    (event = .executeTimeout ∧ resolver.isTimeoutScheduled = true ∧
      next = ⟨cancel resolver.resolution, false,
        resolver.callbacks ++ request.invokeError timedOut⟩) := by
  cases event with
  | complete result =>
    simp only [step] at hstep
    split at hstep
    case h_1 hpending => exact .inl ⟨result, rfl, hpending, (Option.some.inj hstep).symm⟩
    all_goals cases hstep
  | executeHandler =>
    simp only [step] at hstep
    split at hstep
    case h_1 completion hcompleted =>
      exact .inr (.inl ⟨completion, rfl, hcompleted, (Option.some.inj hstep).symm⟩)
    all_goals cases hstep
  | executeTimeout =>
    simp only [step] at hstep
    split_ifs at hstep with hscheduled
    refine .inr (.inr ⟨rfl, hscheduled, ?_⟩)
    rw [← Option.some.inj hstep, onResolveTimeout]

/-- How far a call has come after the events of a run -/
structure Progress (request : Request) (past : List Event) (resolver : Resolver) : Prop where
  callbacks : resolver.callbacks =
    (if past.any Event.isTimeout then request.invokeError timedOut else []) ++
      resolver.resolution.invoked request
  scheduled : resolver.isTimeoutScheduled = true → past.any Event.isTimeout = false ∧
    ∀ completion, resolver.resolution ≠ .handled completion
  pending : resolver.resolution = .pending → ∀ result, Event.complete result ∉ past
  completed : ∀ result, Event.complete result ∈ past →
    resolver.resolution.completion = some (completionOf result)
  aborted : past.any Event.isTimeout = false → resolver.resolution.completion ≠ some .aborted

namespace Progress

theorem asyncResolve (request : Request) : Progress request [] asyncResolve where
  callbacks := rfl
  scheduled _ := ⟨rfl, nofun⟩
  pending _ _ := List.not_mem_nil
  completed _ hmem := nomatch hmem
  aborted _ := nofun

theorem complete (hprogress : Progress request past resolver)
    (hpending : resolver.resolution = .pending) (result : Except String (List IpAddress)) :
    Progress request (past ++ [.complete result])
      { resolver with resolution := .completed (completionOf result) } := by
  have htimedOut : (past ++ [Event.complete result]).any Event.isTimeout =
      past.any Event.isTimeout := by
    rw [List.any_append]
    exact Bool.or_false _
  refine ⟨?_, fun hscheduled ↦ ⟨?_, nofun⟩, nofun, fun other hother ↦ ?_, fun _ ↦ ?_⟩
  · have hcallbacks := hprogress.callbacks
    rw [hpending] at hcallbacks
    rw [htimedOut]
    exact hcallbacks
  · rw [htimedOut]
    exact (hprogress.scheduled hscheduled).1
  · obtain hpast | hlast := List.mem_append.mp hother
    · exact absurd hpast (hprogress.pending hpending other)
    · obtain rfl : other = result := by simpa using hlast
      rfl
  · cases result <;> nofun

theorem executeHandler (hprogress : Progress request past resolver)
    (hcompleted : resolver.resolution = .completed completion) :
    Progress request (past ++ [.executeHandler]) ⟨.handled completion, false,
      resolver.callbacks ++ request.invokeResult completion⟩ := by
  have htimedOut : (past ++ [Event.executeHandler]).any Event.isTimeout = past.any Event.isTimeout := by
    rw [List.any_append]
    exact Bool.or_false _
  refine ⟨?_, nofun, nofun, fun result hresult ↦ ?_, fun hnotTimedOut ↦ ?_⟩
  · have hcallbacks := hprogress.callbacks
    rw [hcompleted] at hcallbacks
    rw [htimedOut, hcallbacks, Resolution.invoked, List.append_nil]
    rfl
  · have hpast : Event.complete result ∈ past := by simpa using hresult
    have hcompletion := hprogress.completed result hpast
    rwa [hcompleted] at hcompletion
  · have haborted := hprogress.aborted (htimedOut ▸ hnotTimedOut)
    rwa [hcompleted] at haborted

theorem executeTimeout (hcancel : Cancels cancel) (hprogress : Progress request past resolver)
    (hscheduled : resolver.isTimeoutScheduled = true) :
    Progress request (past ++ [.executeTimeout]) ⟨cancel resolver.resolution, false,
      resolver.callbacks ++ request.invokeError timedOut⟩ := by
  obtain ⟨hnotTimedOut, hnotHandled⟩ := hprogress.scheduled hscheduled
  have htimedOut : (past ++ [Event.executeTimeout]).any Event.isTimeout = true := by
    rw [List.any_append]
    exact Bool.or_true _
  have hcallbacks : resolver.callbacks = resolver.resolution.invoked request := by
    simpa [hnotTimedOut] using hprogress.callbacks
  have hmem {result : Except String (List IpAddress)}
      (hresult : Event.complete result ∈ past ++ [.executeTimeout]) :
      Event.complete result ∈ past := by simpa using hresult
  -- nothing has been invoked so far, and the handler has yet to be executed
  have hnext {resolution : Resolution}
      (hnone : resolver.resolution.invoked request = []) (hlater : resolution.invoked request = [])
      (hpending : resolution = .pending → ∀ result, Event.complete result ∉ past)
      (hcompleted : ∀ result, Event.complete result ∈ past →
        resolution.completion = some (completionOf result)) :
      Progress request (past ++ [.executeTimeout]) ⟨resolution, false,
        resolver.callbacks ++ request.invokeError timedOut⟩ := by
    refine ⟨?_, nofun, fun heq result hresult ↦ hpending heq result (hmem hresult),
      fun result hresult ↦ hcompleted result (hmem hresult), fun hfalse ↦ ?_⟩
    · rw [htimedOut, hcallbacks, hnone, hlater, if_pos rfl, List.append_nil]
      rfl
    · rw [htimedOut] at hfalse
      cases hfalse
  cases hresolution : resolver.resolution with
  | pending =>
    have hnone := hprogress.pending hresolution
    obtain haborted | hgoesOn := hcancel.pending
    · rw [haborted]
      exact hnext (by rw [hresolution]; rfl) rfl nofun
        fun result hresult ↦ absurd hresult (hnone result)
    · rw [hgoesOn]
      exact hnext (by rw [hresolution]; rfl) rfl (fun _ ↦ hnone)
        fun result hresult ↦ absurd hresult (hnone result)
  | completed completion =>
    rw [hcancel.completed]
    refine hnext (by rw [hresolution]; rfl) rfl nofun fun result hresult ↦ ?_
    have hcompletion := hprogress.completed result hresult
    rwa [hresolution] at hcompletion
  | handled completion => exact absurd hresolution (hnotHandled completion)

end Progress

theorem progress_step (hcancel : Cancels cancel) (hprogress : Progress request past resolver)
    (hstep : resolver.step cancel request event = some next) : Progress request (past ++ [event]) next := by
  obtain ⟨result, rfl, hpending, rfl⟩ | ⟨completion, rfl, hcompleted, rfl⟩ |
    ⟨rfl, hscheduled, rfl⟩ := step_cases hstep
  · exact hprogress.complete hpending result
  · exact hprogress.executeHandler hcompleted
  · exact hprogress.executeTimeout hcancel hscheduled

variable {events : List Event}

theorem progress_of_run (hcancel : Cancels cancel)
    (hrun : Run.run (step cancel request) asyncResolve events = some resolver) :
    Progress request events resolver :=
  Run.invariant_of_run (Progress request) (fun _ _ _ _ ↦ progress_step hcancel) (.asyncResolve request) hrun

/-- The timeout event, where it is executed, aborts the resolution. -/
def Timely (cancel : Resolution → Resolution) (resolver : Resolver) (event : Event) : Prop :=
  event = .executeTimeout → cancel resolver.resolution = .completed .aborted

/-- After timely steps, only an aborted resolution can follow a timeout. -/
theorem completion_eq_of_guarded
    (hguarded : Run.Guarded (step cancel request) (Timely cancel) asyncResolve events)
    (hrun : Run.run (step cancel request) asyncResolve events = some resolver)
    (htimedOut : events.any Event.isTimeout = true) :
    resolver.resolution.completion = some .aborted := by
  let Inv (past : List Event) (resolver : Resolver) : Prop :=
    past.any Event.isTimeout = true → resolver.resolution.completion = some .aborted
  have hinv : Inv events resolver := by
    refine Run.invariant_of_guarded Inv (fun past resolver event next haborted htimely hstep ↦ ?_)
      nofun hguarded hrun
    intro hany
    rw [List.any_append, Bool.or_eq_true] at hany
    obtain ⟨result, rfl, hpending, rfl⟩ | ⟨completion, rfl, hcompleted, rfl⟩ | ⟨rfl, -, rfl⟩ :=
      step_cases hstep
    · obtain hpast | hlast := hany
      · have hcompletion := haborted hpast
        rw [hpending] at hcompletion
        cases hcompletion
      · cases hlast
    · obtain hpast | hlast := hany
      · have hcompletion := haborted hpast
        rwa [hcompleted] at hcompletion
      · cases hlast
    · simp only [htimely rfl, Resolution.completion]
  exact hinv htimedOut

theorem invoked_of_aborted {resolution : Resolution}
    (haborted : resolution.completion = some .aborted) : resolution.invoked request = [] := by
  cases resolution with
  | pending | completed _ => rfl
  | handled completion =>
    obtain rfl := Option.some.inj haborted
    rfl

/-- Where a timeout aborts the resolution, the callbacks are those of the timeout or those of the
handler. -/
theorem callbacks_eq_of_run (hcancel : Cancels cancel)
    (hrun : Run.run (step cancel request) asyncResolve events = some resolver)
    (haborted : events.any Event.isTimeout = true →
      resolver.resolution.completion = some .aborted) :
    resolver.callbacks = if events.any Event.isTimeout then request.invokeError timedOut
      else resolver.resolution.invoked request := by
  rw [(progress_of_run hcancel hrun).callbacks]
  split_ifs with htimedOut
  · rw [invoked_of_aborted (haborted htimedOut), List.append_nil]
  · rfl

/-- Once the handler of a call with both callbacks has been executed, exactly one of them has been
invoked, unless the handler was given a result in spite of the timeout. -/
theorem length_callbacks_eq_one_iff (hcancel : Cancels cancel)
    (hsuccess : request.hasSuccess = true) (herror : request.hasError = true)
    (hrun : Run.run (step cancel request) asyncResolve events = some resolver)
    (hhandled : resolver.resolution = .handled completion) :
    resolver.callbacks.length = 1 ↔
      (events.any Event.isTimeout = true → completion = .aborted) := by
  have hprogress := progress_of_run hcancel hrun
  have hinvokeError : (request.invokeError timedOut).length = 1 := by
    rw [Request.invokeError, if_pos herror]
    rfl
  have hinvoked (hne : completion ≠ .aborted) :
      (resolver.resolution.invoked request).length = 1 := by
    rw [hhandled]
    exact Request.length_invokeResult_eq_one hsuccess herror hne
  rw [hprogress.callbacks, List.length_append]
  split_ifs with htimedOut
  · rw [hinvokeError, Nat.add_eq_left]
    constructor
    · intro hnone _
      by_contra hne
      rw [hinvoked hne] at hnone
      cases hnone
    · intro haborted
      rw [hhandled, haborted htimedOut]
      rfl
  · have hne : completion ≠ .aborted := by
      rintro rfl
      have haborted := hprogress.aborted (Bool.eq_false_iff.mpr htimedOut)
      rw [hhandled] at haborted
      exact haborted rfl
    simp [hinvoked hne, htimedOut]

/-- The callbacks of a call are invoked once at most, and not for the lack of an endpoint where the
selector accepts an address of the result. -/
structure ReportsOnce (request : Request) (events : List Event) (callbacks : List Callback) :
    Prop where
  atMostOnce : callbacks.length ≤ 1
  selected : ∀ addresses, Event.complete (.ok addresses) ∈ events →
    (∃ address ∈ addresses, request.addressSelector address = true) →
      .error noMatch ∉ callbacks

/-- With a success callback, an accepted address is never reported as a lack of endpoints. -/
theorem noMatch_not_mem_of_run (hcancel : Cancels cancel) (hsuccess : request.hasSuccess = true)
    (hrun : Run.run (step cancel request) asyncResolve events = some resolver)
    (hcomplete : Event.complete (.ok addresses) ∈ events)
    (haccepted : ∃ address ∈ addresses, request.addressSelector address = true) :
    .error noMatch ∉ resolver.callbacks := by
  have hprogress := progress_of_run hcancel hrun
  have hcompletion := hprogress.completed _ hcomplete
  have hinvoked : .error noMatch ∉ resolver.resolution.invoked request := by
    cases hresolution : resolver.resolution with
    | pending | completed _ => exact List.not_mem_nil
    | handled completion =>
      rw [hresolution] at hcompletion
      obtain rfl : completion = .resolved addresses := Option.some.inj hcompletion
      obtain ⟨address, hinvoke⟩ := Request.invokeResult_resolved hsuccess haccepted
      rw [Resolution.invoked, hinvoke]
      simp
  rw [hprogress.callbacks, List.mem_append, not_or]
  refine ⟨fun hmem ↦ ?_, hinvoked⟩
  split_ifs at hmem
  · exact absurd (Request.mem_invokeError hmem) (by decide)
  · cases hmem

/-- Where a second callback is invoked, the first one has reported the timeout. -/
theorem eq_timedOut_of_run (hcancel : Cancels cancel)
    (hrun : Run.run (step cancel request) asyncResolve events = some resolver)
    {first second : Callback} {rest : List Callback}
    (hcallbacks : resolver.callbacks = first :: second :: rest) :
    first = .error timedOut ∧ rest = [] := by
  have hinvoked := Request.length_invoked_le request resolver.resolution
  rw [(progress_of_run hcancel hrun).callbacks] at hcallbacks
  split_ifs at hcallbacks
  · unfold Request.invokeError at hcallbacks
    split_ifs at hcallbacks
    · rw [List.singleton_append, List.cons.injEq] at hcallbacks
      obtain ⟨hfirst, hrest⟩ := hcallbacks
      rw [hrest, List.length_cons] at hinvoked
      exact ⟨hfirst.symm, List.length_eq_zero_iff.mp (by omega)⟩
    · rw [List.nil_append] at hcallbacks
      simp [hcallbacks] at hinvoked
  · rw [List.nil_append] at hcallbacks
    simp [hcallbacks] at hinvoked

/-- The callbacks are invoked once at most where the timeout aborts the resolution. Otherwise the
timeout is reported first, and one callback at most is invoked behind it. -/
theorem reports_of_run (hcancel : Cancels cancel)
    (hrun : Run.run (step cancel request) asyncResolve events = some resolver) :
    (Run.Guarded (step cancel request) (Timely cancel) asyncResolve events →
      resolver.callbacks.length ≤ 1) ∧
      (∀ first second rest, resolver.callbacks = first :: second :: rest →
        first = .error timedOut ∧ rest = []) ∧
      (request.hasSuccess = true → ∀ addresses, Event.complete (.ok addresses) ∈ events →
        (∃ address ∈ addresses, request.addressSelector address = true) →
          .error noMatch ∉ resolver.callbacks) := by
  refine ⟨fun hguarded ↦ ?_, fun first second rest ↦ eq_timedOut_of_run hcancel hrun,
    fun hsuccess addresses ↦ noMatch_not_mem_of_run hcancel hsuccess hrun⟩
  rw [callbacks_eq_of_run hcancel hrun (completion_eq_of_guarded hguarded hrun)]
  split_ifs
  · exact Request.length_invokeError_le _ _
  · exact Request.length_invoked_le _ _

def anyRequest : Request := ⟨anyAddress, true, true⟩

def exampleAddress : IpAddress := .v4 0xc0000201

def abortPending : Resolution → Resolution
  | .pending => .completed .aborted
  | .completed completion => .completed completion
  | .handled completion => .handled completion

theorem cancels_abortPending : Cancels abortPending := ⟨.inl rfl, fun _ ↦ rfl, fun _ ↦ rfl⟩

/-- The system call of a pending resolution is not stopped. -/
theorem cancels_id : Cancels id := ⟨.inr rfl, fun _ ↦ rfl, fun _ ↦ rfl⟩

/-- A call that times out while its resolution is pending, and one whose system call goes on -/
theorem reports_of_run_timedOut :
    (∃ resolver, Run.run (step abortPending anyRequest) asyncResolve
      [.executeTimeout, .executeHandler] = some resolver ∧ resolver.callbacks.length ≤ 1) ∧
    ∃ resolver, Run.run (step id anyRequest) asyncResolve
      [.executeTimeout, .complete (.ok [exampleAddress]), .executeHandler] = some resolver ∧
        resolver.callbacks.length = 2 ∧ .error noMatch ∉ resolver.callbacks := by
  have haborted : Run.run (step abortPending anyRequest) asyncResolve
      [.executeTimeout, .executeHandler] =
        some ⟨.handled .aborted, false, [.error timedOut]⟩ := rfl
  have hrun : Run.run (step id anyRequest) asyncResolve
      [.executeTimeout, .complete (.ok [exampleAddress]), .executeHandler] =
        some ⟨.handled (.resolved [exampleAddress]), false,
          [.error timedOut, .success exampleAddress]⟩ := rfl
  obtain ⟨hatMostOnce, -, -⟩ := reports_of_run cancels_abortPending haborted
  obtain ⟨-, -, hselected⟩ := reports_of_run cancels_id hrun
  exact ⟨⟨_, haborted, hatMostOnce ⟨fun _ ↦ rfl, fun _ _ ↦ ⟨nofun, fun _ _ ↦ trivial⟩⟩⟩, _, hrun, rfl,
    hselected rfl [exampleAddress] (.tail _ List.mem_cons_self)
      ⟨exampleAddress, List.mem_cons_self, rfl⟩⟩

/-- The handler is queued with an address when the timeout event is executed: the call reports that
it has timed out, and then the address. A call without a success callback reports an address that
its selector accepts as a lack of endpoints. -/
theorem not_reportsOnce_queued :
    (¬∀ resolver, Run.run (step abortPending anyRequest) asyncResolve
      [.complete (.ok [exampleAddress]), .executeTimeout, .executeHandler] = some resolver →
        ReportsOnce anyRequest
          [.complete (.ok [exampleAddress]), .executeTimeout, .executeHandler]
          resolver.callbacks) ∧
      ¬∀ resolver, Run.run (step abortPending { anyRequest with hasSuccess := false })
        asyncResolve [.complete (.ok [exampleAddress]), .executeHandler] = some resolver →
          ReportsOnce { anyRequest with hasSuccess := false }
            [.complete (.ok [exampleAddress]), .executeHandler] resolver.callbacks := by
  refine ⟨fun hall ↦ absurd (hall _ rfl).atMostOnce (by decide), fun hall ↦ ?_⟩
  exact (hall _ rfl).selected [exampleAddress] List.mem_cons_self
    ⟨exampleAddress, List.mem_cons_self, rfl⟩ List.mem_cons_self

end Resolver

/-- A call of `asyncResolve` with both callbacks, up to the execution of its completion handler -/
structure Lookup (cancel : Resolution → Resolution) (addressSelector : AddressSelector) where
  events : List Event
  resolver : Resolver
  completion : Completion
  ran : Run.run (Resolver.step cancel ⟨addressSelector, true, true⟩) Resolver.asyncResolve events =
    some resolver
  handled : resolver.resolution = .handled completion

namespace Lookup

variable {addressSelector : AddressSelector}

/-- The timeout, where it is executed, aborts the resolution. -/
def IsTimely (lookup : Lookup cancel addressSelector) : Prop :=
  lookup.events.any Event.isTimeout = true → lookup.completion = .aborted

theorem length_callbacks_eq_one_iff (hcancel : Cancels cancel)
    (lookup : Lookup cancel addressSelector) :
    lookup.resolver.callbacks.length = 1 ↔ lookup.IsTimely :=
  Resolver.length_callbacks_eq_one_iff hcancel rfl rfl lookup.ran lookup.handled

/-- A lookup that finds an address before the timeout -/
def found (cancel : Resolution → Resolution) (addressSelector : AddressSelector)
    (address : IpAddress) : Lookup cancel addressSelector where
  events := [.complete (.ok [address]), .executeHandler]
  resolver := ⟨.handled (.resolved [address]), false,
    Request.invokeResult ⟨addressSelector, true, true⟩ (.resolved [address])⟩
  completion := .resolved [address]
  ran := rfl
  handled := rfl

/-- A lookup whose handler is queued with an address when the timeout is executed -/
def foundLate (addressSelector : AddressSelector) (address : IpAddress) :
    Lookup Resolver.abortPending addressSelector where
  events := [.complete (.ok [address]), .executeTimeout, .executeHandler]
  resolver := ⟨.handled (.resolved [address]), false, .error timedOut ::
    Request.invokeResult ⟨addressSelector, true, true⟩ (.resolved [address])⟩
  completion := .resolved [address]
  ran := rfl
  handled := rfl

end Lookup

end NdnCxx.Dns
