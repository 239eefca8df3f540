import Mathlib.Data.List.Basic
import Mathlib.Data.Option.Basic

/-!
# Finite runs of partial step functions

A component is modelled by a partial step function: `step state event` is `none` when the event
is not enabled or the call does not return normally. This module executes whole event lists and
supplies the induction principles used by every run-level result. An invariant may mention the
events performed so far, and it may be carried under a condition on each step; the condition is
evaluated in the state the step starts from, never in the state it produces.
-/

namespace NdnCxx.Run

variable {State Event : Type*}

/-- Perform every event in order, stopping with `none` at the first one that is not enabled. -/
def run (step : State → Event → Option State) : State → List Event → Option State
  | state, [] => some state
  | state, event :: events => (step state event).bind fun next ↦ run step next events

def Guarded (step : State → Event → Option State) (allowed : State → Event → Prop) :
    State → List Event → Prop
  | _, [] => True
  | state, event :: events =>
      allowed state event ∧ ∀ next, step state event = some next → Guarded step allowed next events

variable {step : State → Event → Option State} {allowed : State → Event → Prop}

@[simp]
theorem run_nil (state : State) : run step state [] = some state := rfl

variable {events : List Event} {state : State} {finish : State}

theorem run_cons_eq_some {event : Event} :
    run step state (event :: events) = some finish ↔
      ∃ next, step state event = some next ∧ run step next events = some finish := by
  simp [run, Option.bind_eq_some_iff]

/-- With decidable conditions, guarded runs can be checked by evaluation. -/
instance decidableGuarded [∀ state event, Decidable (allowed state event)] :
    (state : State) → (events : List Event) → Decidable (Guarded step allowed state events)
  | _, [] => isTrue trivial
  | state, event :: events =>
      match hstep : step state event with
      | none => decidable_of_iff (allowed state event) (by simp [Guarded, hstep])
      | some next =>
          have := decidableGuarded next events
          decidable_of_iff (allowed state event ∧ Guarded step allowed next events)
            (by simp [Guarded, hstep])

/-- A run is guarded when each of its events is allowed in the state that the events before it lead
to. -/
theorem guarded_of_forall_split
    (hallowed : ∀ before event after middle, events = before ++ event :: after →
      run step state before = some middle → allowed middle event) :
    Guarded step allowed state events := by
  induction events generalizing state with
  | nil => trivial
  | cons event events ih =>
    refine ⟨hallowed [] event events state rfl rfl, fun next hnext ↦ ih ?_⟩
    intro before event' after middle hsplit hrun
    apply hallowed (event :: before) event' after middle
    · rw [hsplit, List.cons_append]
    · exact run_cons_eq_some.mpr ⟨next, hnext, hrun⟩

theorem Guarded.and {other : State → Event → Prop} (hallowed : Guarded step allowed state events)
    (hother : Guarded step other state events) :
    Guarded step (fun state event ↦ allowed state event ∧ other state event) state events := by
  induction events generalizing state with
  | nil => trivial
  | cons event events ih =>
    exact ⟨⟨hallowed.1, hother.1⟩,
      fun next hnext ↦ ih (hallowed.2 next hnext) (hother.2 next hnext)⟩

theorem Guarded.of_append {before after : List Event}
    (hguarded : Guarded step allowed state (before ++ after)) :
    Guarded step allowed state before := by
  induction before generalizing state with
  | nil => trivial
  | cons event before ih => exact ⟨hguarded.1, fun next hnext ↦ ih (hguarded.2 next hnext)⟩

section Invariant

variable (Inv : List Event → State → Prop)

theorem invariant_of_guarded_append
    (hstep : ∀ past state event next, Inv past state → allowed state event →
      step state event = some next → Inv (past ++ [event]) next) {past : List Event}
    (hinit : Inv past state) (hguarded : Guarded step allowed state events)
    (hrun : run step state events = some finish) : Inv (past ++ events) finish := by
  induction events generalizing past state with
  | nil =>
    obtain rfl : state = finish := by simpa using hrun
    simpa using hinit
  | cons event events ih =>
    obtain ⟨next, hnext, hrest⟩ := run_cons_eq_some.mp hrun
    have hinv := hstep past state event next hinit hguarded.1 hnext
    simpa using ih hinv (hguarded.2 next hnext) hrest

/-- The general run rule: an invariant over the past events and the current state that every
allowed step preserves holds after every guarded run. -/
theorem invariant_of_guarded
    (hstep : ∀ past state event next, Inv past state → allowed state event →
      step state event = some next → Inv (past ++ [event]) next) (hinit : Inv [] state)
    (hguarded : Guarded step allowed state events) (hrun : run step state events = some finish) :
    Inv events finish := by
  simpa using invariant_of_guarded_append Inv hstep hinit hguarded hrun

theorem guarded_of_true : Guarded step (fun _ _ ↦ True) state events := by
  induction events generalizing state with
  | nil => trivial
  | cons event events ih => exact ⟨trivial, fun _ _ ↦ ih⟩

/-- The same rule for a component whose every step preserves the invariant. -/
theorem invariant_of_run (hstep : ∀ past state event next, Inv past state →
      step state event = some next → Inv (past ++ [event]) next) (hinit : Inv [] state)
    (hrun : run step state events = some finish) : Inv events finish :=
  invariant_of_guarded Inv (fun past state event next hinv _ hnext ↦
    hstep past state event next hinv hnext) hinit guarded_of_true hrun

end Invariant

/-! ## Counting along a run -/

section Count

variable (weight : State → Event → State → ℕ)

/-- The sum of the weights of the steps that a run performs. -/
def total (step : State → Event → Option State) (weight : State → Event → State → ℕ) :
    State → List Event → ℕ
  | _, [] => 0
  | state, event :: events =>
      match step state event with
      | none => 0
      | some next => weight state event next + total step weight next events

/-- A potential that every allowed step lowers by its weight bounds what a run adds up to. -/
theorem total_add_le_of_guarded (Inv : State → Prop) (potential : State → ℕ)
    (hinv : ∀ state event next, Inv state → step state event = some next → Inv next)
    (hstep : ∀ state event next, Inv state → allowed state event → step state event = some next →
      weight state event next + potential next ≤ potential state) (hinit : Inv state)
    (hguarded : Guarded step allowed state events) (hrun : run step state events = some finish) :
    total step weight state events + potential finish ≤ potential state := by
  induction events generalizing state with
  | nil =>
    obtain rfl : state = finish := by simpa using hrun
    simp [total]
  | cons event events ih =>
    obtain ⟨next, hnext, hrest⟩ := run_cons_eq_some.mp hrun
    have hfirst := hstep state event next hinit hguarded.1 hnext
    have htail := ih (hinv state event next hinit hnext) (hguarded.2 next hnext) hrest
    simp only [total, hnext]
    omega

/-- A guard that looks at the events only. -/
theorem guarded_of_forall_mem {wanted : Event → Prop} (hwanted : ∀ event ∈ events, wanted event) :
    Guarded step (fun _ event ↦ wanted event) state events := by
  induction events generalizing state with
  | nil => trivial
  | cons event events ih =>
    exact ⟨hwanted event (by simp), fun _ _ ↦ ih fun event' hmem ↦ hwanted event' (by simp [hmem])⟩

end Count

/-! ## Runs in parts -/

theorem run_append (before after : List Event) (state : State) :
    run step state (before ++ after) = (run step state before).bind fun middle ↦
      run step middle after := by
  induction before generalizing state with
  | nil => rfl
  | cons event before ih =>
    simp only [List.cons_append, run, ih, Option.bind_assoc]

/-! ## Two components -/

/-- Where each allowed step of one component is matched by a step of another, so is each guarded run. -/
theorem simulation_of_guarded {Other : Type*} {otherStep : Other → Event → Option Other}
    (Related : State → Other → Prop)
    (hstep : ∀ state other event next, Related state other → allowed state event →
      step state event = some next → ∃ matching, otherStep other event = some matching ∧
      Related next matching) {other : Other} (hinit : Related state other)
    (hguarded : Guarded step allowed state events) (hrun : run step state events = some finish) :
    ∃ matching, run otherStep other events = some matching ∧ Related finish matching := by
  induction events generalizing state other with
  | nil =>
    obtain rfl : state = finish := by simpa using hrun
    exact ⟨other, rfl, hinit⟩
  | cons event events ih =>
    obtain ⟨next, hnext, hrest⟩ := run_cons_eq_some.mp hrun
    obtain ⟨middle, hmiddle, hrelated⟩ := hstep state other event next hinit hguarded.1 hnext
    obtain ⟨matching, hmatching, hfinish⟩ := ih hrelated (hguarded.2 next hnext) hrest
    exact ⟨matching, run_cons_eq_some.mpr ⟨middle, hmiddle, hmatching⟩, hfinish⟩

end NdnCxx.Run
