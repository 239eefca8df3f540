import NdnCxx.Util.SegmentFetcher

/-!
# How a fetch ends

At any moment exactly one thing is there: a callback that can still be called, a completion or an
error. So the two user callbacks together are called at most once, and a fetch that has called one of
them does nothing more. The number bound to the callback of a Nack bounds how often an Interest is
expressed again before the next Data is received.
-/

namespace NdnCxx.SegmentFetcher

open Run

/-- The callbacks that a step has registered, in place of the one that it has called. -/
def registered (before after : SegmentFetcher) : List Pending :=
  after.pending.drop (before.pending.length - 1)

/-- An expressed Interest, with the number of times it has been expressed again. -/
def Pending.expression : Pending → Option (Interest × ℕ)
  | interest origInterest _ reExpressCount => some (origInterest, reExpressCount)
  | validation _ _ _ => none
  | reExpression _ _ _ => none

def expressed (before after : SegmentFetcher) : List (Interest × ℕ) :=
  (registered before after).filterMap Pending.expression

/-- How many of the Interests that a step expresses are re-expressions. -/
def reExpressions (before : SegmentFetcher) (_ : Event) (after : SegmentFetcher) : ℕ :=
  (expressed before after).countP fun expression ↦ 0 < expression.2

def Event.receivesData : Event → Bool
  | data _ _ => true
  | _ => false

/-- How often an Interest may be expressed again on behalf of a callback. -/
def Pending.remaining : Pending → ℕ
  | interest _ _ reExpressCount => maxInterestReexpress - reExpressCount
  | validation _ _ _ => maxInterestReexpress
  | reExpression _ reExpressCount _ => maxInterestReexpress - reExpressCount

def Pending.IsBelowLimit : Pending → Prop
  | reExpression _ reExpressCount _ => reExpressCount < maxInterestReexpress
  | _ => True

/-- Exactly one callback is pending, or exactly one callback of the user has been called. -/
structure IsSettledOnce (fetcher : SegmentFetcher) : Prop where
  once : fetcher.pending.length + fetcher.completions.length + fetcher.errors.length = 1
  belowLimit : ∀ callback ∈ fetcher.pending, callback.IsBelowLimit

theorem isSettledOnce_fetch (baseInterest : Interest) : IsSettledOnce (fetch baseInterest) :=
  ⟨rfl, by simp [fetch, Pending.IsBelowLimit]⟩

/-- The number of re-expressions, which is zero or one, that the registration of a callback is. -/
def Pending.reExpressed : Pending → ℕ
  | interest _ _ reExpressCount => if 0 < reExpressCount then 1 else 0
  | _ => 0

section Step

variable {sha256 : Bytes → Bytes} {fetcher next : SegmentFetcher} {callback : Pending}
  {event : Event}

/-- What the call of a callback leads to: another callback, a completion or an error. The other
callback has no more re-expressions left than the called one, unless a Data packet was received. -/
inductive Outcome (fetcher : SegmentFetcher) (callback : Pending) (event : Event) :
    SegmentFetcher → Prop
  | goesOn (buffer : Bytes) (following : Pending) (hlimit : following.IsBelowLimit)
      (hremaining : event.receivesData = true ∨
        following.reExpressed + following.remaining ≤ callback.remaining) :
      Outcome fetcher callback event
        { fetcher with pending := fetcher.pending ++ [following], buffer := buffer }
  | completes (buffer : Bytes) :
      Outcome fetcher callback event
        { fetcher with buffer := buffer, completions := fetcher.completions ++ [buffer] }
  | fails (code : ErrorCode) (message : String) :
      Outcome fetcher callback event (fetcher.errorCallback code message)

variable {isSegmentZeroExpected : Bool}

theorem outcome_afterValidationSuccess {data : Data} {origInterest : Interest}
    (hnext : fetcher.afterValidationSuccess data isSegmentZeroExpected origInterest = some next) :
    Outcome fetcher (.validation data isSegmentZeroExpected origInterest) event next := by
  simp only [afterValidationSuccess, Option.bind_eq_bind, Option.pure_def,
    Option.bind_eq_some_iff] at hnext
  obtain ⟨currentSegment, -, hnext⟩ := hnext
  by_cases hisSegment : currentSegment.isSegment = true
  · rw [if_pos hisSegment, Option.bind_eq_some_iff] at hnext
    obtain ⟨segment, -, hnext⟩ := hnext
    split_ifs at hnext
    all_goals obtain rfl := Option.some.inj hnext
    · exact .goesOn fetcher.buffer _ trivial (.inr le_rfl)
    · exact .goesOn (fetcher.buffer ++ data.content) _ trivial (.inr le_rfl)
    · exact .completes (fetcher.buffer ++ data.content)
  · rw [if_neg hisSegment] at hnext
    obtain rfl := Option.some.inj hnext
    exact .fails _ _

theorem outcome_afterNackReceived {interest : Interest} {reExpressCount : ℕ} (reason : NackReason) :
    Outcome fetcher (.interest interest isSegmentZeroExpected reExpressCount) event
      (fetcher.afterNackReceived interest reason reExpressCount) := by
  unfold afterNackReceived
  split_ifs with hlimit
  · exact .fails _ _
  · have hcount : reExpressCount < maxInterestReexpress := Nat.lt_of_not_le hlimit
    cases reason with
    | duplicate =>
      refine .goesOn fetcher.buffer _ trivial (.inr ?_)
      simp only [Pending.reExpressed, Pending.remaining, Nat.succ_pos, if_true]
      omega
    | congestion =>
      exact .goesOn fetcher.buffer _ hcount (.inr (by simp [Pending.reExpressed, Pending.remaining]))
    | none => exact .fails _ _
    | noRoute => exact .fails _ _

theorem outcome_call (hlimit : callback.IsBelowLimit)
    (hcall : call sha256 fetcher callback event = some next) :
    Outcome fetcher callback event next := by
  cases callback with
  | interest interest isSegmentZeroExpected reExpressCount =>
    cases event with
    | data index data =>
      simp only [call] at hcall
      split_ifs at hcall with hmatch
      obtain rfl := Option.some.inj hcall
      exact .goesOn fetcher.buffer _ trivial (.inl rfl)
    | nack index reason =>
      obtain rfl := Option.some.inj hcall
      exact outcome_afterNackReceived reason
    | timeout index =>
      obtain rfl := Option.some.inj hcall
      exact .fails _ _
    | _ => cases hcall
  | validation data isSegmentZeroExpected origInterest =>
    cases event with
    | validationSuccess index => exact outcome_afterValidationSuccess hcall
    | validationFailure index =>
      obtain rfl := Option.some.inj hcall
      exact .fails _ _
    | _ => cases hcall
  | reExpression interest reExpressCount milliseconds =>
    cases event with
    | delayElapsed index =>
      obtain rfl := Option.some.inj hcall
      have hcount : reExpressCount < maxInterestReexpress := hlimit
      refine .goesOn fetcher.buffer _ trivial (.inr ?_)
      simp only [Pending.reExpressed, Pending.remaining, Nat.succ_pos, if_true]
      omega
    | _ => cases hcall

/-- A step calls the one pending callback, before any callback of the user has been called. -/
theorem IsSettledOnce.step_cases (hinv : IsSettledOnce fetcher)
    (hstep : step sha256 fetcher event = some next) :
    ∃ callback, fetcher.pending = [callback] ∧ fetcher.completions = [] ∧ fetcher.errors = [] ∧
      Outcome { fetcher with pending := [] } callback event next := by
  unfold step at hstep
  split at hstep
  · cases hstep
  · rename_i callback hget
    have hindex := (List.getElem?_eq_some_iff.mp hget).1
    have honce := hinv.once
    have hlength : fetcher.pending.length = 1 := by omega
    obtain ⟨only, honly⟩ := List.length_eq_one_iff.mp hlength
    obtain rfl : only = callback := by
      rw [honly, show event.index = 0 by omega] at hget
      simpa using hget
    have hrest : fetcher.pending.eraseIdx event.index = [] := by
      rw [honly, show event.index = 0 by omega]
      rfl
    refine ⟨only, honly, List.length_eq_zero_iff.mp (by omega),
      List.length_eq_zero_iff.mp (by omega), ?_⟩
    rw [hrest] at hstep
    exact outcome_call (hinv.belowLimit only (by simp [honly])) hstep

theorem IsSettledOnce.step (hinv : IsSettledOnce fetcher)
    (hstep : SegmentFetcher.step sha256 fetcher event = some next) : IsSettledOnce next := by
  obtain ⟨callback, -, hcompletions, herrors, houtcome⟩ := hinv.step_cases hstep
  cases houtcome with
  | goesOn buffer following hlimit _ =>
    exact ⟨by simp [hcompletions, herrors], by simpa using hlimit⟩
  | completes buffer => exact ⟨by simp [hcompletions, herrors], by simp⟩
  | fails code message =>
    exact ⟨by simp [errorCallback, hcompletions, herrors], by simp [errorCallback]⟩

/-- A step in which, or before which, a callback of the user is called expresses no Interest. -/
theorem IsSettledOnce.expressed_eq_nil (hinv : IsSettledOnce fetcher)
    (hstep : SegmentFetcher.step sha256 fetcher event = some next)
    (hended : next.completions ≠ [] ∨ next.errors ≠ []) : expressed fetcher next = [] := by
  have honce := (hinv.step hstep).once
  have hpending : next.pending = [] := by
    rcases hended with hended | hended <;>
    · have := List.length_pos_iff.mpr hended
      exact List.length_eq_zero_iff.mp (by omega)
  simp [expressed, registered, hpending]

/-- What the pending callbacks leave for re-expressions. -/
def remaining (fetcher : SegmentFetcher) : ℕ := (fetcher.pending.map Pending.remaining).sum

theorem IsSettledOnce.remaining_le (hinv : IsSettledOnce fetcher) :
    fetcher.remaining ≤ maxInterestReexpress := by
  have honce := hinv.once
  rcases hpending : fetcher.pending with _ | ⟨callback, others⟩
  · simp [remaining, hpending]
  · have hothers : others = [] := by
      rw [hpending, List.length_cons] at honce
      exact List.length_eq_zero_iff.mp (by omega)
    simp only [remaining, hpending, hothers, List.map_cons, List.map_nil, List.sum_cons,
      List.sum_nil, Nat.add_zero]
    cases callback <;> simp [Pending.remaining]

/-- Without a received Data packet, a re-expression is paid for by what the called callback had left
for it. -/
theorem IsSettledOnce.reExpressions_add_remaining_le (hinv : IsSettledOnce fetcher)
    (hdata : event.receivesData = false)
    (hstep : SegmentFetcher.step sha256 fetcher event = some next) :
    reExpressions fetcher event next + next.remaining ≤ fetcher.remaining := by
  obtain ⟨callback, hpending, -, -, houtcome⟩ := hinv.step_cases hstep
  have hregistered : registered fetcher next = next.pending := by simp [registered, hpending]
  cases houtcome with
  | goesOn buffer following hlimit hremaining =>
    have hpaid : following.reExpressed + following.remaining ≤ callback.remaining := by
      simpa [hdata] using hremaining
    have hcount : reExpressions fetcher event { fetcher with
        pending := [] ++ [following], buffer := buffer } = following.reExpressed := by
      rw [reExpressions, expressed, hregistered]
      cases following <;> simp [Pending.expression, Pending.reExpressed, List.countP_cons]
    rw [hcount]
    simpa [remaining, hpending] using hpaid
  | completes buffer => simp [reExpressions, expressed, hregistered, remaining]
  | fails code message =>
    rw [reExpressions, expressed, hregistered]
    simp [remaining, errorCallback]

end Step

/-! ## Runs -/

theorem IsSettledOnce.run {sha256 : Bytes → Bytes} {start fetcher : SegmentFetcher}
    {events : List Event} (hinit : IsSettledOnce start)
    (hrun : Run.run (SegmentFetcher.step sha256) start events = some fetcher) :
    IsSettledOnce fetcher :=
  invariant_of_run (fun _ state ↦ IsSettledOnce state)
    (fun _ _ _ _ hinv hstep ↦ hinv.step hstep) hinit hrun

/-- For every run of a fetch: the user callbacks are called at most once together; the step that
calls one and every later step express no Interest; and in every part of the run without a received
Data packet at most `maxInterestReexpress` Interests are re-expressions. A callback is removed when
it is called, so an expressed Interest is answered at most once and a Data packet validated once. -/
theorem fetch_ends_once (sha256 : Bytes → Bytes) (baseInterest : Interest) (events : List Event)
    (fetcher : SegmentFetcher)
    (hrun : Run.run (SegmentFetcher.step sha256) (fetch baseInterest) events = some fetcher) :
    fetcher.completions.length + fetcher.errors.length ≤ 1 ∧
      (∀ before event after earlier later, events = before ++ event :: after →
        Run.run (SegmentFetcher.step sha256) (fetch baseInterest) before = some earlier →
        SegmentFetcher.step sha256 earlier event = some later →
        later.completions ≠ [] ∨ later.errors ≠ [] → expressed earlier later = []) ∧
      (∀ before window after earlier, events = before ++ window ++ after →
        Run.run (SegmentFetcher.step sha256) (fetch baseInterest) before = some earlier →
        (∀ event ∈ window, event.receivesData = false) →
        total (SegmentFetcher.step sha256) reExpressions earlier window ≤
          maxInterestReexpress) := by
  have hinit := isSettledOnce_fetch baseInterest
  refine ⟨?_, ?_, ?_⟩
  · have honce := (hinit.run hrun).once
    omega
  · intro before event after earlier later _ hbefore hstep hended
    exact (hinit.run hbefore).expressed_eq_nil hstep hended
  · rintro before window after earlier rfl hbefore hwindow
    have hinv := hinit.run hbefore
    rw [List.append_assoc, run_append, hbefore, Option.bind_some, run_append] at hrun
    obtain ⟨middle, hmiddle, -⟩ := Option.bind_eq_some_iff.mp hrun
    have htotal : total (SegmentFetcher.step sha256) reExpressions earlier window +
        middle.remaining ≤ earlier.remaining :=
      total_add_le_of_guarded reExpressions IsSettledOnce remaining
        (fun _ _ _ hinv hstep ↦ hinv.step hstep)
        (fun _ _ _ hinv hdata hstep ↦ hinv.reExpressions_add_remaining_le hdata hstep)
        hinv (guarded_of_forall_mem hwindow) hmiddle
    calc
      _ ≤ earlier.remaining := by omega
      _ ≤ _ := hinv.remaining_le

/-- An Interest that is expressed again as often as it may be, and times out. -/
def nackedEvents : List Event :=
  [.nack 0 .duplicate, .nack 0 .congestion, .delayElapsed 0, .nack 0 .duplicate, .timeout 0]

theorem fetch_ends_once_nacked :
    ∃ fetcher, Run.run (SegmentFetcher.step fun _ ↦ []) (fetch { name := [] }) nackedEvents =
      some fetcher ∧ fetcher.errors = [(.interestTimeout, "Timeout")] ∧
      total (SegmentFetcher.step fun _ ↦ []) reExpressions (fetch { name := [] }) nackedEvents = 3 ∧
      fetcher.completions.length + fetcher.errors.length ≤ 1 :=
  ⟨_, rfl, rfl, by decide, (fetch_ends_once (fun _ ↦ []) { name := [] } nackedEvents _ rfl).1⟩

end NdnCxx.SegmentFetcher
