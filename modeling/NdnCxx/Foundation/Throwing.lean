import Mathlib.Logic.Basic
import Mathlib.Tactic.SplitIfs

/-!
# Calls that throw

A call on an object returns a value or throws, and it leaves the object in some state in either
case: what was done before an exception stays done, and a handler goes on from there. The rules of
pre- and postconditions below are for such calls; one postcondition is for values and one for
exceptions.
-/

namespace NdnCxx

abbrev Throwing (State Exception Value : Type) := EStateM Exception State Value

namespace Throwing

open EStateM

variable {State Part Exception Value Other : Type}

def reads (look : State → Except Exception Value) : Throwing State Exception Value := fun state ↦
  match look state with
  | .ok value => .ok value state
  | .error exception => .error exception state

def onPart (part : State → Part) (withPart : Part → State → State)
    (call : Throwing Part Exception Value) : Throwing State Exception Value := fun state ↦
  match call.run (part state) with
  | .ok value final => .ok value (withPart final state)
  | .error exception final => .error exception (withPart final state)

theorem run_reads (look : State → Except Exception Value) (state : State) :
    (reads look).run state =
      match look state with
      | .ok value => .ok value state
      | .error exception => .error exception state := rfl

theorem run_tryCatch (call : Throwing State Exception Value)
    (handler : Exception → Throwing State Exception Value) (state : State) :
    (tryCatch call handler).run state =
      match call.run state with
      | .ok value middle => .ok value middle
      | .error exception middle => (handler exception).run middle := by
  change EStateM.tryCatch call handler state = _
  unfold EStateM.tryCatch EStateM.run
  cases call state <;> rfl

/-! ## Pre- and postconditions -/

/-- A call has returned with one postcondition, or it has thrown with the other. -/
def Ends (post : Value → State → Prop) (fail : Exception → State → Prop) :
    Result Exception State Value → Prop
  | .ok value final => post value final
  | .error exception final => fail exception final

variable {fail' : Exception → State → Prop} {post' : Value → State → Prop}
    {look : State → Except Exception Value} {next : Value → Throwing State Exception Other}
    {last : Other → State → Prop}

namespace Ends

variable {post : Value → State → Prop} {fail : Exception → State → Prop}
    {call : Throwing State Exception Value} {state : State} {result : Result Exception State Value}

theorem weaken (hresult : Ends post fail result)
    (hpost : ∀ value final, post value final → post' value final)
    (hfail : ∀ exception final, fail exception final → fail' exception final) :
    Ends post' fail' result := by
  cases result with
  | ok value final => exact hpost value final hresult
  | error exception final => exact hfail exception final hresult

theorem and (hresult : Ends post fail result) (hresult' : Ends post' fail' result) :
    Ends (fun value final ↦ post value final ∧ post' value final)
      (fun exception final ↦ fail exception final ∧ fail' exception final) result := by
  cases result with
  | ok value final => exact ⟨hresult, hresult'⟩
  | error exception final => exact ⟨hresult, hresult'⟩

theorem of_reads (hpost : ∀ value, look state = .ok value → post value state)
    (hfail : ∀ exception, look state = .error exception → fail exception state) :
    Ends post fail ((reads look).run state) := by
  rw [run_reads]
  cases hlook : look state with
  | ok value => exact hpost value hlook
  | error exception => exact hfail exception hlook

theorem bind (post : Value → State → Prop) (hcall : Ends post fail (call.run state))
    (hnext : ∀ value middle, post value middle → Ends last fail ((next value).run middle)) :
    Ends last fail ((call >>= next).run state) := by
  rw [EStateM.run_bind]
  cases hrun : call.run state with
  | ok value middle =>
    rw [hrun] at hcall
    exact hnext value middle hcall
  | error exception middle =>
    rw [hrun] at hcall
    exact hcall

/-- A handler starts in the state the exception left. -/
theorem tryCatch {handler : Exception → Throwing State Exception Value}
    (thrown : Exception → State → Prop) (hcall : Ends post thrown (call.run state))
    (hhandler : ∀ exception middle, thrown exception middle →
      Ends post fail ((handler exception).run middle)) :
    Ends post fail ((MonadExcept.tryCatch call handler).run state) := by
  rw [run_tryCatch]
  cases hrun : call.run state with
  | ok value middle =>
    rw [hrun] at hcall
    exact hcall
  | error exception middle =>
    rw [hrun] at hcall
    exact hhandler exception middle hcall

/-- The rest of the state is not looked at. -/
theorem onPart {part : State → Part} {withPart : Part → State → State}
    {call : Throwing Part Exception Value} {postPart : Value → Part → Prop}
    {failPart : Exception → Part → Prop} (hcall : Ends postPart failPart (call.run (part state)))
    (hpost : ∀ value final, postPart value final → post value (withPart final state))
    (hfail : ∀ exception final, failPart exception final →
      fail exception (withPart final state)) :
    Ends post fail ((call.onPart part withPart).run state) := by
  change Ends post fail (Throwing.onPart part withPart call state)
  unfold Throwing.onPart
  cases hrun : call.run (part state) with
  | ok value final =>
    rw [hrun] at hcall
    exact hpost value final hcall
  | error exception final =>
    rw [hrun] at hcall
    exact hfail exception final hcall

end Ends

/-- From a state with the precondition a call ends with a postcondition. -/
def Meets (pre : State → Prop) (call : Throwing State Exception Value)
    (post : Value → State → Prop) (fail : Exception → State → Prop) : Prop :=
  ∀ state, pre state → Ends post fail (call.run state)

abbrev Keeps (invariant : State → Prop) (call : Throwing State Exception Value) : Prop :=
  Meets invariant call (fun _ ↦ invariant) fun _ ↦ invariant

namespace Meets

variable {pre : State → Prop} {post : Value → State → Prop} {fail : Exception → State → Prop}
  {call : Throwing State Exception Value}

theorem of_pure {value : Value} (hpost : ∀ state, pre state → post value state) :
    Meets pre (pure value : Throwing State Exception Value) post fail := hpost

theorem of_throw {exception : Exception} (hfail : ∀ state, pre state → fail exception state) :
    Meets pre (throw exception : Throwing State Exception Value) post fail := hfail

theorem of_get {post : State → State → Prop} (hpost : ∀ state, pre state → post state state) :
    Meets pre (get : Throwing State Exception State) post fail := hpost

theorem of_modify {change : State → State} {post : Unit → State → Prop}
    (hpost : ∀ state, pre state → post () (change state)) :
    Meets pre (modify change : Throwing State Exception Unit) post fail := hpost

theorem of_reads (hpost : ∀ state value, pre state → look state = .ok value → post value state)
    (hfail : ∀ state exception, pre state → look state = .error exception → fail exception state) :
    Meets pre (reads look) post fail := fun state hpre ↦
  Ends.of_reads (fun value ↦ hpost state value hpre) fun exception ↦ hfail state exception hpre

theorem bind (post : Value → State → Prop) (hcall : Meets pre call post fail)
    (hnext : ∀ value, Meets (post value) (next value) last fail) :
    Meets pre (call >>= next) last fail := fun state hpre ↦
  Ends.bind post (hcall state hpre) hnext

variable {pre' : State → Prop}

theorem and (hcall : Meets pre call post fail) (hcall' : Meets pre' call post' fail') :
    Meets (fun state ↦ pre state ∧ pre' state) call
      (fun value state ↦ post value state ∧ post' value state)
      fun exception state ↦ fail exception state ∧ fail' exception state := fun state hpre ↦
  (hcall state hpre.1).and (hcall' state hpre.2)

theorem weaken (hcall : Meets pre call post fail) (hpre : ∀ state, pre' state → pre state)
    (hpost : ∀ value state, post value state → post' value state)
    (hfail : ∀ exception state, fail exception state → fail' exception state) :
    Meets pre' call post' fail' := fun state hstate ↦
  (hcall state (hpre state hstate)).weaken hpost hfail

theorem ite {condition : Prop} [Decidable condition] {other : Throwing State Exception Value}
    (hcall : condition → Meets pre call post fail)
    (hother : ¬ condition → Meets pre other post fail) :
    Meets pre (if condition then call else other) post fail := by
  split_ifs with hcondition
  · exact hcall hcondition
  · exact hother hcondition

end Meets

end Throwing

end NdnCxx
