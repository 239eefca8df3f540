import NdnCxx.Util.SegmentFetcher

/-!
# The order of fetched segments

Against a producer of one segmented object, the buffer handed to the completion callback consists of
all segments, once each and in order, as long as no Interest for a later segment is re-expressed.
`reExpressInterest` expects segment zero of every answer, so after a Nack for a later segment the
fetcher goes back to segment zero while keeping what it has in its buffer.
-/

namespace NdnCxx

/-- A producer of segments below a version. Segments may announce the final one, which does. -/
structure Producer where
  namePrefix : Name
  version : Component
  content : ℕ → Bytes
  finalSegment : ℕ
  announces : ℕ → Bool
  signatureInfo : ℕ → SignatureInfo
  wire : ℕ → Bytes
  finalSegment_lt : finalSegment < 2 ^ 64
  announces_finalSegment : announces finalSegment = true

variable {sha256 : Bytes → Bytes} {interest : Interest} {segment : ℕ}

namespace Producer

variable (producer : Producer)

def name (segment : ℕ) : Name :=
  Name.appendSegment (producer.namePrefix ++ [producer.version]) segment

def data (segment : ℕ) : Data where
  name := producer.name segment
  finalBlockId :=
    if producer.announces segment then Component.fromSegment producer.finalSegment
    else Component.empty
  content := producer.content segment
  signatureInfo := producer.signatureInfo segment
  wire := producer.wire segment

/-- The contents of the first segments. -/
def contents (count : ℕ) : Bytes := (List.range count).flatMap producer.content

theorem contents_succ (count : ℕ) :
    producer.contents (count + 1) = producer.contents count ++ producer.content count := by
  simp [contents, List.range_succ]

theorem get_name (segment : ℕ) :
    Name.get (producer.name segment) (-1) = some (Component.fromSegment segment) :=
  Name.get_append_singleton _ _

theorem appendSegment_getPrefix (segment next : ℕ) :
    Name.appendSegment (Name.getPrefix (producer.name segment) (-1)) next = producer.name next := by
  simp only [name, Name.appendSegment, Name.getPrefix_append_singleton]

/-- An Interest for a segment is answered by that segment only. -/
theorem eq_of_matchesData {answer : ℕ} (hsegment : segment < 2 ^ 64) (hanswer : answer < 2 ^ 64)
    (hname : interest.name = producer.name segment)
    (hmatch : interest.matchesData sha256 (producer.data answer) = true) : answer = segment := by
  have hprefixed := Interest.matchesPrefix_of_matchesData sha256 hmatch
  have hlength : interest.name.length = (producer.data answer).name.length := by
    simp [hname, data, name, Name.appendSegment]
  rw [Interest.matchesPrefix, if_neg (by omega), Name.isPrefixOf_iff, hname] at hprefixed
  have hvalues := hprefixed.eq_of_length (by simp [data, name, Name.appendSegment])
  apply Component.fromSegment_inj hanswer hsegment
  simpa [data, name, Name.appendSegment] using hvalues.symm

end Producer

namespace SegmentFetcher

open Run

/-- The event is a Nack that makes the fetcher re-express an Interest for a segment after the first
one. -/
def reExpressesLaterSegment (fetcher : SegmentFetcher) : Event → Bool
  | .nack index reason =>
      match fetcher.pending[index]? with
      | some (.interest interest false reExpressCount) =>
          reExpressCount < maxInterestReexpress &&
            (reason == .duplicate || reason == .congestion) &&
            Name.get interest.name (-1) != some (Component.fromSegment 0)
      | _ => false
  | _ => false

/-- Segment zero is expected, or the next segment to come is the one after those in the buffer. -/
def Continues (producer : Producer) (buffer : Bytes) : Pending → Prop
  | .interest _ true _ => buffer = []
  | .interest interest false _ => ∃ segment ≤ producer.finalSegment,
      interest.name = producer.name segment ∧ buffer = producer.contents segment
  | .validation data true _ => buffer = [] ∧ ∃ segment < 2 ^ 64, data = producer.data segment
  | .validation data false _ => ∃ segment ≤ producer.finalSegment,
      data = producer.data segment ∧ buffer = producer.contents segment
  | .reExpression _ _ _ => buffer = []

/-- At most one callback is pending and it continues the buffer; completions are complete. -/
structure InOrder (producer : Producer) (fetcher : SegmentFetcher) : Prop where
  pending : fetcher.pending = [] ∨
    ∃ callback, fetcher.pending = [callback] ∧ Continues producer fetcher.buffer callback
  completions : ∀ buffer ∈ fetcher.completions,
    buffer = producer.contents (producer.finalSegment + 1)

section Step

variable {producer : Producer} {fetcher next : SegmentFetcher} {callback : Pending} {event : Event}

theorem InOrder.addPending (hinv : InOrder producer fetcher) (hpending : fetcher.pending = [])
    (hcontinues : Continues producer fetcher.buffer callback) :
    InOrder producer (fetcher.addPending callback) :=
  ⟨.inr ⟨callback, by simp [SegmentFetcher.addPending, hpending], hcontinues⟩, hinv.completions⟩

theorem InOrder.errorCallback {code : ErrorCode} {message : String}
    (hinv : InOrder producer fetcher) : InOrder producer (fetcher.errorCallback code message) :=
  ⟨hinv.pending, hinv.completions⟩

theorem InOrder.afterNackReceived {reason : NackReason} {reExpressCount : ℕ}
    (hinv : InOrder producer fetcher) (hpending : fetcher.pending = [])
    (hbuffer : reExpressCount < maxInterestReexpress →
      reason = .duplicate ∨ reason = .congestion → fetcher.buffer = []) :
    InOrder producer (fetcher.afterNackReceived interest reason reExpressCount) := by
  unfold SegmentFetcher.afterNackReceived
  split_ifs with hlimit
  · exact hinv.errorCallback
  · have hcount : reExpressCount < maxInterestReexpress := Nat.lt_of_not_le hlimit
    cases reason with
    | duplicate => exact hinv.addPending hpending (hbuffer hcount (.inl rfl))
    | congestion => exact hinv.addPending hpending (hbuffer hcount (.inr rfl))
    | none => exact hinv.errorCallback
    | noRoute => exact hinv.errorCallback

variable {origInterest : Interest}

/-- Whatever is asked for next, it is the segment after those in the buffer. -/
theorem InOrder.fetchNextSegment {following : ℕ} (hinv : InOrder producer fetcher)
    (hpending : fetcher.pending = []) (hfollowing : following ≤ producer.finalSegment)
    (hbuffer : fetcher.buffer = producer.contents following) :
    InOrder producer (fetcher.fetchNextSegment origInterest (producer.name segment) following) :=
  hinv.addPending hpending
    ⟨following, hfollowing, producer.appendSegment_getPrefix segment following, hbuffer⟩

/-- The FinalBlockId decides about going on as the segment numbers do. -/
theorem isBeforeFinal_iff (hsegment : segment ≤ producer.finalSegment) :
    ((producer.data segment).finalBlockId.isEmpty ||
      (producer.data segment).finalBlockId > Component.fromSegment segment) = true ↔
      segment < producer.finalSegment := by
  have hfinal := producer.finalSegment_lt
  have hmarked (number : ℕ) : (Component.fromSegment number).isEmpty = false := by
    simp [Component.isEmpty, Component.fromSegment, Component.fromNumberWithMarker,
      Component.generic]
  by_cases hannounces : producer.announces segment = true
  · simp only [Producer.data, hannounces, if_true, hmarked, Bool.false_or, decide_eq_true_eq,
      gt_iff_lt]
    exact Component.fromSegment_lt_fromSegment (by omega) hfinal
  · have hne : segment ≠ producer.finalSegment := by
      rintro rfl
      exact hannounces producer.announces_finalSegment
    simp only [Producer.data, hannounces]
    simp [Component.isEmpty, Component.empty, lt_of_le_of_ne hsegment hne]

/-- A validated segment: back to segment zero with an empty buffer, on to the next one, or done. -/
theorem InOrder.afterValidationSuccess {isSegmentZeroExpected : Bool}
    (hinv : InOrder producer fetcher) (hpending : fetcher.pending = [])
    (hsegment : segment < 2 ^ 64) (hexpected : isSegmentZeroExpected = true ∧ fetcher.buffer = [] ∨
      isSegmentZeroExpected = false ∧ segment ≤ producer.finalSegment ∧
      fetcher.buffer = producer.contents segment)
    (hnext : fetcher.afterValidationSuccess (producer.data segment) isSegmentZeroExpected
      origInterest = some next) : InOrder producer next := by
  have hget : Name.get (producer.data segment).name (-1) = some (Component.fromSegment segment) :=
    producer.get_name segment
  simp only [SegmentFetcher.afterValidationSuccess, hget, Component.isSegment_fromSegment,
    Component.toSegment_fromSegment hsegment, Option.bind_eq_bind, Option.bind_some, if_true,
    Except.toOption, Option.pure_def] at hnext
  split_ifs at hnext with hzero hgoesOn
  · -- another segment than the expected segment zero
    obtain rfl := Option.some.inj hnext
    have hbuffer : fetcher.buffer = [] := by
      rcases hexpected with ⟨-, hbuffer⟩ | ⟨hfalse, -⟩
      · exact hbuffer
      · simp [hfalse] at hzero
    exact hinv.fetchNextSegment hpending (Nat.zero_le _) (by simp [hbuffer, Producer.contents])
  all_goals
    have hkept : segment ≤ producer.finalSegment ∧ fetcher.buffer = producer.contents segment := by
      rcases hexpected with ⟨htrue, hbuffer⟩ | ⟨-, hkept⟩
      · obtain rfl : segment = 0 := by simpa [htrue] using hzero
        exact ⟨Nat.zero_le _, by simp [hbuffer, Producer.contents]⟩
      · exact hkept
    obtain rfl := Option.some.inj hnext
    have hwritten : fetcher.buffer ++ (producer.data segment).content =
        producer.contents (segment + 1) := by
      rw [hkept.2, producer.contents_succ]
      rfl
    rw [isBeforeFinal_iff hkept.1] at hgoesOn
  · have hfinal := producer.finalSegment_lt
    rw [Nat.mod_eq_of_lt (by omega)]
    exact InOrder.fetchNextSegment ⟨.inl hpending, hinv.completions⟩ hpending (by omega) hwritten
  · obtain rfl : segment = producer.finalSegment := by omega
    refine ⟨.inl hpending, fun buffer hbuffer ↦ ?_⟩
    rcases List.mem_append.mp hbuffer with hold | hnew
    · exact hinv.completions buffer hold
    · rw [List.mem_singleton.mp hnew, hwritten]

theorem inOrder_call (hinv : InOrder producer fetcher) (hpending : fetcher.pending = [callback])
    (hcontinues : Continues producer fetcher.buffer callback) (hindex : event.index = 0)
    (hdata : ∀ index data, event = .data index data →
      ∃ segment < 2 ^ 64, data = producer.data segment)
    (hallowed : fetcher.reExpressesLaterSegment event = false)
    (hcall : call sha256 { fetcher with pending := [] } callback event = some next) :
    InOrder producer next := by
  have hrest : InOrder producer { fetcher with pending := [] } := ⟨.inl rfl, hinv.completions⟩
  have hfinal := producer.finalSegment_lt
  cases callback with
  | interest interest isSegmentZeroExpected reExpressCount =>
    cases event with
    | data index data =>
      obtain ⟨answer, hanswer, rfl⟩ := hdata index data rfl
      simp only [call] at hcall
      split_ifs at hcall with hmatch
      obtain rfl := Option.some.inj hcall
      apply hrest.addPending rfl
      cases isSegmentZeroExpected with
      | true => exact ⟨hcontinues, answer, hanswer, rfl⟩
      | false =>
        obtain ⟨segment, hle, hname, hbuffer⟩ := hcontinues
        obtain rfl := producer.eq_of_matchesData (by omega) hanswer hname hmatch
        exact ⟨answer, hle, rfl, hbuffer⟩
    | nack index reason =>
      obtain rfl : index = 0 := hindex
      obtain rfl := Option.some.inj hcall
      refine hrest.afterNackReceived rfl fun hcount hreason ↦ ?_
      cases isSegmentZeroExpected with
      | true => exact hcontinues
      | false =>
        obtain ⟨segment, hle, hname, hbuffer⟩ := hcontinues
        -- the Nack is allowed for segment zero only, whose Interest leaves the buffer empty
        have hzero : Name.get interest.name (-1) = some (Component.fromSegment 0) := by
          simpa [reExpressesLaterSegment, hpending, hcount, hreason] using hallowed
        rw [hname, producer.get_name, Option.some_inj] at hzero
        obtain rfl :=
          Component.fromSegment_inj (by omega) (by omega) (congrArg Component.value hzero)
        simpa [Producer.contents] using hbuffer
    | timeout index =>
      obtain rfl := Option.some.inj hcall
      exact hrest.errorCallback
    | _ => cases hcall
  | validation data isSegmentZeroExpected origInterest =>
    cases event with
    | validationSuccess index =>
      cases isSegmentZeroExpected with
      | true =>
        obtain ⟨hbuffer, segment, hsegment, rfl⟩ := hcontinues
        exact hrest.afterValidationSuccess rfl hsegment (.inl ⟨rfl, hbuffer⟩) hcall
      | false =>
        obtain ⟨segment, hle, rfl, hbuffer⟩ := hcontinues
        exact hrest.afterValidationSuccess rfl (by omega) (.inr ⟨rfl, hle, hbuffer⟩) hcall
    | validationFailure index =>
      obtain rfl := Option.some.inj hcall
      exact hrest.errorCallback
    | _ => cases hcall
  | reExpression interest reExpressCount milliseconds =>
    cases event with
    | delayElapsed index =>
      obtain rfl := Option.some.inj hcall
      exact hrest.addPending rfl hcontinues
    | _ => cases hcall

theorem inOrder_step (hinv : InOrder producer fetcher)
    (hdata : ∀ index data, event = .data index data →
      ∃ segment < 2 ^ 64, data = producer.data segment)
    (hallowed : fetcher.reExpressesLaterSegment event = false)
    (hstep : step sha256 fetcher event = some next) : InOrder producer next := by
  rcases hinv.pending with hpending | ⟨callback, hpending, hcontinues⟩
  · simp [step, hpending] at hstep
  · have hindex : event.index = 0 := by
      by_contra hne
      have hnone : fetcher.pending[event.index]? = none := by
        rw [hpending, List.getElem?_eq_none_iff, List.length_singleton]
        omega
      simp [step, hnone] at hstep
    have hcall : call sha256 { fetcher with pending := [] } callback event = some next := by
      simpa [step, hindex, hpending] using hstep
    exact inOrder_call hinv hpending hcontinues hindex hdata hallowed hcall

end Step

/-! ## Runs -/

/-- For every run against a producer, with any answers, Nacks, timeouts and validation results: if
no Interest for a segment after the first is re-expressed, then a completion hands over all
segments, once each and in order. -/
theorem completion_eq_contents (sha256 : Bytes → Bytes) (producer : Producer)
    (baseInterest : Interest) (events : List Event) (fetcher : SegmentFetcher)
    (hrun : run (step sha256) (fetch baseInterest) events = some fetcher)
    (hproducer : ∀ index data, .data index data ∈ events →
      ∃ segment < 2 ^ 64, data = producer.data segment)
    (hguarded : Guarded (step sha256)
      (fun state event ↦ state.reExpressesLaterSegment event = false) (fetch baseInterest) events) :
    ∀ buffer ∈ fetcher.completions,
      buffer = (List.range (producer.finalSegment + 1)).flatMap producer.content := by
  have hinit : InOrder producer (fetch baseInterest) := ⟨.inr ⟨_, rfl, rfl⟩, by simp [fetch]⟩
  have hinv : InOrder producer fetcher := by
    refine invariant_of_guarded (fun past state ↦
      (∀ index data, .data index data ∈ past → ∃ segment < 2 ^ 64, data = producer.data segment) →
        InOrder producer state) ?_ (fun _ ↦ hinit) hguarded hrun hproducer
    intro past state event next ih hallowed hstep hpast
    refine inOrder_step (ih fun index data h ↦ hpast index data (by simp [h])) ?_ hallowed hstep
    rintro index data rfl
    exact hpast index data (by simp)
  exact hinv.completions

/-! ## A segment received twice -/

def twoSegments : Producer where
  namePrefix := [.generic [65]]
  version := .generic [1]
  content := fun segment ↦ [UInt8.ofNat segment]
  finalSegment := 1
  announces := fun _ ↦ true
  signatureInfo := fun _ ↦ ⟨Tlv.digestSha256, none, []⟩
  wire := fun _ ↦ []
  finalSegment_lt := by decide
  announces_finalSegment := rfl

/-- A run that first meets the last segment, and in which the Interests for the version and for
segment zero are re-expressed. -/
def zeroNackedEvents : List Event :=
  [.nack 0 .congestion, .delayElapsed 0, .data 0 (twoSegments.data 1), .validationSuccess 0,
    .nack 0 .duplicate, .data 0 (twoSegments.data 0), .validationSuccess 0,
    .data 0 (twoSegments.data 1), .validationSuccess 0]

def laterNackedEvents : List Event :=
  [.data 0 (twoSegments.data 0), .validationSuccess 0, .nack 0 .duplicate,
    .data 0 (twoSegments.data 1), .validationSuccess 0, .data 0 (twoSegments.data 0),
    .validationSuccess 0, .data 0 (twoSegments.data 1), .validationSuccess 0]

theorem completion_eq_contents_zeroNacked :
    ∃ fetcher, run (step fun _ ↦ []) (fetch { name := [.generic [65]] }) zeroNackedEvents =
      some fetcher ∧ fetcher.completions ≠ [] ∧
      ∀ buffer ∈ fetcher.completions, buffer = [0, 1] := by
  refine ⟨_, rfl, by decide, ?_⟩
  refine completion_eq_contents (fun _ ↦ []) twoSegments { name := [.generic [65]] }
    zeroNackedEvents _ rfl ?_ (by decide)
  intro index data hmem
  simp only [zeroNackedEvents, List.mem_cons, Event.data.injEq, reduceCtorEq, List.not_mem_nil,
    false_or, or_false] at hmem
  rcases hmem with ⟨-, rfl⟩ | ⟨-, rfl⟩ | ⟨-, rfl⟩
  · exact ⟨1, by decide, rfl⟩
  · exact ⟨0, by decide, rfl⟩
  · exact ⟨1, by decide, rfl⟩

/-- After the Nack the answer for segment one sends the fetcher back to segment zero, whose content
is then in the buffer twice. -/
theorem completion_ne_contents_laterNacked :
    ∃ fetcher, run (step fun _ ↦ []) (fetch { name := [.generic [65]] }) laterNackedEvents =
      some fetcher ∧ fetcher.completions = [[0, 0, 1]] ∧
      (List.range (twoSegments.finalSegment + 1)).flatMap twoSegments.content = [0, 1] :=
  ⟨_, rfl, by decide, by decide⟩

end SegmentFetcher

end NdnCxx
