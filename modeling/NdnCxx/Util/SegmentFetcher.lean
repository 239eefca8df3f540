import NdnCxx.Name.Number
import NdnCxx.Packet.Interest

/-!
# Fetching segmented data

`SegmentFetcher` is a chain of callbacks, each bound to the arguments it will be called with. The
state holds what can still call back (an expressed Interest, a validation in progress, a scheduled
re-expression), the output buffer, and the invocations of the completion and the error callback. The
face hands over a Data packet only for an Interest that it matches.
-/

namespace NdnCxx

/-- `SegmentFetcher::ErrorCode` -/
inductive SegmentFetcher.ErrorCode
  | interestTimeout
  | dataHasNoSegment
  | segmentValidationFail
  | nackError
  deriving DecidableEq

/-- What can still call back, with the arguments bound to the callback. -/
inductive SegmentFetcher.Pending
  | interest (interest : Interest) (isSegmentZeroExpected : Bool) (reExpressCount : ℕ)
  | validation (data : Data) (isSegmentZeroExpected : Bool) (origInterest : Interest)
  | reExpression (interest : Interest) (reExpressCount : ℕ) (milliseconds : ℕ)
  deriving DecidableEq

structure SegmentFetcher where
  pending : List SegmentFetcher.Pending
  buffer : Bytes
  completions : List Bytes
  errors : List (SegmentFetcher.ErrorCode × String)
  deriving DecidableEq

namespace SegmentFetcher

def maxInterestReexpress : ℕ := 3

def addPending (fetcher : SegmentFetcher) (callback : Pending) : SegmentFetcher :=
  { fetcher with pending := fetcher.pending ++ [callback] }

def errorCallback (fetcher : SegmentFetcher) (code : ErrorCode) (message : String) :
    SegmentFetcher :=
  { fetcher with errors := fetcher.errors ++ [(code, message)] }

def fetch (baseInterest : Interest) : SegmentFetcher :=
  { pending := [.interest { baseInterest with childSelector := 1, mustBeFresh := true } true 0]
    buffer := []
    completions := []
    errors := [] }

def fetchNextSegment (fetcher : SegmentFetcher) (origInterest : Interest) (dataName : Name)
    (segmentNo : ℕ) : SegmentFetcher :=
  let interest :=
    { origInterest with
      childSelector := 0
      mustBeFresh := false
      name := Name.appendSegment (Name.getPrefix dataName (-1)) segmentNo }
  fetcher.addPending (.interest interest false 0)

/-- `afterSegmentReceived`: the validator takes over. -/
def afterSegmentReceived (fetcher : SegmentFetcher) (origInterest : Interest) (data : Data)
    (isSegmentZeroExpected : Bool) : SegmentFetcher :=
  fetcher.addPending (.validation data isSegmentZeroExpected origInterest)

/-- `afterValidationSuccess`; `none` is an access outside an empty name. -/
def afterValidationSuccess (fetcher : SegmentFetcher) (data : Data) (isSegmentZeroExpected : Bool)
    (origInterest : Interest) : Option SegmentFetcher := do
  let currentSegment ← Name.get data.name (-1)
  if currentSegment.isSegment then
    let segment ← currentSegment.toSegment.toOption
    if isSegmentZeroExpected && segment != 0 then
      return fetcher.fetchNextSegment origInterest data.name 0
    else
      let fetcher := { fetcher with buffer := fetcher.buffer ++ data.content }
      if data.finalBlockId.isEmpty || data.finalBlockId > currentSegment then
        return fetcher.fetchNextSegment origInterest data.name ((segment + 1) % 2 ^ 64)
      else return { fetcher with completions := fetcher.completions ++ [fetcher.buffer] }
  else return fetcher.errorCallback .dataHasNoSegment "Data Name has no segment number."

def afterValidationFailure (fetcher : SegmentFetcher) : SegmentFetcher :=
  fetcher.errorCallback .segmentValidationFail "Segment validation fail"

def reExpressInterest (fetcher : SegmentFetcher) (interest : Interest) (reExpressCount : ℕ) :
    SegmentFetcher :=
  fetcher.addPending (.interest interest true (reExpressCount + 1))

def afterNackReceived (fetcher : SegmentFetcher) (origInterest : Interest) (reason : NackReason)
    (reExpressCount : ℕ) : SegmentFetcher :=
  if reExpressCount ≥ maxInterestReexpress then fetcher.errorCallback .nackError "Nack Error"
  else
    match reason with
    | .duplicate => fetcher.reExpressInterest origInterest reExpressCount
    | .congestion =>
        fetcher.addPending (.reExpression origInterest reExpressCount (2 ^ (reExpressCount + 1)))
    | _ => fetcher.errorCallback .nackError "Nack Error"

/-! ## Runs -/

/-- What can happen to a fetcher; the number says which pending callback is called. -/
inductive Event
  | data (index : ℕ) (data : Data)
  | nack (index : ℕ) (reason : NackReason)
  | timeout (index : ℕ)
  | validationSuccess (index : ℕ)
  | validationFailure (index : ℕ)
  | delayElapsed (index : ℕ)
  deriving DecidableEq

def Event.index : Event → ℕ
  | data index _ => index
  | nack index _ => index
  | timeout index => index
  | validationSuccess index => index
  | validationFailure index => index
  | delayElapsed index => index

/-- The callback runs, being no longer pending; `none` when the event does not fit it. -/
def call (sha256 : Bytes → Bytes) (fetcher : SegmentFetcher) : Pending → Event →
    Option SegmentFetcher
  | .interest interest isSegmentZeroExpected _, .data _ data =>
      if interest.matchesData sha256 data then
        some (fetcher.afterSegmentReceived interest data isSegmentZeroExpected)
      else none
  | .interest interest _ reExpressCount, .nack _ reason =>
      some (fetcher.afterNackReceived interest reason reExpressCount)
  | .interest _ _ _, .timeout _ => some (fetcher.errorCallback .interestTimeout "Timeout")
  | .validation data isSegmentZeroExpected origInterest, .validationSuccess _ =>
      fetcher.afterValidationSuccess data isSegmentZeroExpected origInterest
  | .validation _ _ _, .validationFailure _ => some fetcher.afterValidationFailure
  | .reExpression interest reExpressCount _, .delayElapsed _ =>
      some (fetcher.reExpressInterest interest reExpressCount)
  | _, _ => none

def step (sha256 : Bytes → Bytes) (fetcher : SegmentFetcher) (event : Event) :
    Option SegmentFetcher :=
  match fetcher.pending[event.index]? with
  | none => none
  | some callback =>
      call sha256 { fetcher with pending := fetcher.pending.eraseIdx event.index } callback event

end SegmentFetcher

end NdnCxx
