import Mathlib.Order.WellFounded
import Mathlib.Tactic.Common
import NdnCxx.Foundation.Run

/-!
# Recursive calls with a bound on their depth

A recursive program that need not be structurally recursive is modelled with a bound on the depth of
its calls, and gives `none` where it needs more. It returns for every large enough bound if the
calls it makes are well founded.
-/

namespace NdnCxx.CallDepth

variable {κ σ α : Type*}

def Returns (run : κ → ℕ → σ → Option α) (call : κ) : Prop :=
  ∃ depth, ∀ bound ≥ depth, ∀ state, (run call bound state).isSome = true

variable {run : κ → ℕ → σ → Option α}

/-- Finitely many calls return together. -/
theorem exists_depth {calls : List κ} (hreturns : ∀ call ∈ calls, Returns run call) :
    ∃ depth, ∀ call ∈ calls, ∀ bound ≥ depth, ∀ state, (run call bound state).isSome = true := by
  induction calls with
  | nil => exact ⟨0, by simp⟩
  | cons call calls ih =>
    obtain ⟨first, hfirst⟩ := hreturns call List.mem_cons_self
    obtain ⟨later, hlater⟩ := ih fun other hother ↦ hreturns other (List.mem_cons_of_mem call hother)
    refine ⟨max first later, ?_⟩
    intro other hother bound hbound
    rcases List.mem_cons.mp hother with rfl | hother
    · exact hfirst bound (le_trans (le_max_left first later) hbound)
    · exact hlater other hother bound (le_trans (le_max_right first later) hbound)

/-- If a call returns one level above the calls that it makes, and these are well founded, then
every call returns. -/
theorem returns_of_wellFounded {callees : κ → List κ}
    (hwellFounded : WellFounded fun callee call ↦ callee ∈ callees call) (hstep : ∀ call bound,
      (∀ callee ∈ callees call, ∀ state, (run callee bound state).isSome = true) →
      ∀ state, (run call (bound + 1) state).isSome = true) (call : κ) : Returns run call := by
  induction call using hwellFounded.induction with
  | _ call ih =>
    obtain ⟨depth, hdepth⟩ := exists_depth ih
    refine ⟨depth + 1, ?_⟩
    intro bound hbound
    obtain ⟨previous, rfl⟩ : ∃ previous, bound = previous + 1 := ⟨bound - 1, by omega⟩
    apply hstep
    intro callee hcallee
    exact hdepth callee hcallee previous (Nat.le_of_succ_le_succ hbound)

/-- A run returns for every large enough bound if each of its steps does. The bound that a step needs,
and what the next step needs, depend on the shape of the state only. -/
theorem exists_depth_run {State Event Shape : Type*} {step : ℕ → State → Event → Option State}
    {shape : State → Shape}
    (hstep : ∀ shaped event, ∃ depth next, ∀ bound ≥ depth, ∀ state, shape state = shaped →
      ∃ after, step bound state event = some after ∧ shape after = next)
    (events : List Event) (shaped : Shape) :
    ∃ depth, ∀ bound ≥ depth, ∀ state, shape state = shaped →
      ∃ final, Run.run (step bound) state events = some final := by
  induction events generalizing shaped with
  | nil => exact ⟨0, fun _ _ state _ ↦ ⟨state, rfl⟩⟩
  | cons event events ih =>
    obtain ⟨first, next, hfirst⟩ := hstep shaped event
    obtain ⟨later, hlater⟩ := ih next
    refine ⟨max first later, ?_⟩
    intro bound hbound state hshaped
    obtain ⟨after, hafter, hnext⟩ :=
      hfirst bound (le_trans (le_max_left first later) hbound) state hshaped
    obtain ⟨final, hfinal⟩ :=
      hlater bound (le_trans (le_max_right first later) hbound) after hnext
    exact ⟨final, Run.run_cons_eq_some.mpr ⟨after, hafter, hfinal⟩⟩

end NdnCxx.CallDepth
