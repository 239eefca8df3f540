import NdnCxx.Foundation.CodeStore

/-!
# Objects that are decoded again

An object that stores its code may also be decoded from a code at any time. It then stores the code it
was given, which need not be the one it would be encoded to, so the stored code cannot be compared with
an encoding. It can be compared with what it says: decoded into a fresh object it shows the contents
of the object that stores it.
-/

namespace NdnCxx

variable {Object Code Fault Contents Call : Type*}

/-- How an object is encoded and decoded, and what counts as its contents. -/
structure Codec (Object Code Fault Contents : Type*) extends CodeStore Object Code Fault where
  fresh : Object
  decode : Object → Code → Except Fault Object
  contents : Object → Contents

namespace Codec

/-- A call of a mutator, a request for the code, or a code to decode. -/
inductive Event (Call Code : Type*)
  | change (call : Call)
  | recallCode
  | decode (code : Code)

variable (codec : Codec Object Code Fault Contents)

def read (code : Code) : Except Fault Contents :=
  (codec.decode codec.fresh code).map codec.contents

/-- Perform an event that returns normally. -/
def step (perform : Object → Call → Option Object) (object : Object) : Event Call Code → Option Object
  | .change call => perform object call
  | .recallCode => (codec.recallCode object).toOption.map Prod.snd
  | .decode code => (codec.decode object code).toOption

def StoresContents (object : Object) : Prop :=
  ∀ code, codec.stored object = some code → codec.read code = .ok (codec.contents object)

/-- After these events every answer says what the object contains, and a code that was decoded last
says it too. -/
structure ShowsContents (events : List (Event Call Code)) (object : Object) : Prop where
  answer : ∀ code next, codec.recallCode object = .ok (code, next) →
    codec.read code = .ok (codec.contents object) ∧ codec.contents next = codec.contents object
  decoded : ∀ past code, events = past ++ [.decode code] →
    codec.read code = .ok (codec.contents object)

/-- What the operations of an object do to its stored code, each from a state in which it is allowed.
A change either discards the code or leaves the contents as they were. -/
structure KeepsCode (perform : Object → Call → Option Object)
    (allowed : Object → Event Call Code → Prop) (Good : Object → Prop) : Prop where
  read_of_encode : ∀ {object code}, Good object → codec.encode object = .ok code →
    codec.read code = .ok (codec.contents object)
  of_store : ∀ {object code next}, Good object → codec.store object code = .ok next →
    Good next ∧ codec.stored next = some code ∧ codec.contents next = codec.contents object
  of_perform : ∀ {object call next}, Good object → allowed object (.change call) →
    perform object call = some next →
      Good next ∧ (codec.stored next = none ∨
        codec.stored next = codec.stored object ∧ codec.contents next = codec.contents object)
  of_decode : ∀ {object code next}, Good object → allowed object (.decode code) →
    codec.decode object code = .ok next →
      Good next ∧ codec.stored next = some code ∧ codec.read code = .ok (codec.contents next)

variable {codec} {perform : Object → Call → Option Object}
  {allowed : Object → Event Call Code → Prop} {Good : Object → Prop} {object next start finish : Object}
  {code : Code} {events : List (Event Call Code)}

theorem step_decode_eq_some_iff :
    codec.step perform object (.decode code) = some next ↔ codec.decode object code = .ok next := by
  cases hdecode : codec.decode object code <;> simp [step, hdecode, Except.toOption]

theorem step_recall_eq_some_iff :
    codec.step perform object .recallCode = some next ↔
      ∃ code, codec.recallCode object = .ok (code, next) := by
  cases hrecall : codec.recallCode object with
  | error fault => simp [step, hrecall, Except.toOption]
  | ok answer =>
    obtain ⟨code, kept⟩ := answer
    simp [step, hrecall, Except.toOption]

/-- An object that can be encoded answers, whatever it has stored. -/
theorem exists_recall (hencode : codec.encode object = .ok code)
    (hstore : codec.store object code = .ok next) :
    ∃ answer kept, codec.recallCode object = .ok (answer, kept) := by
  cases hstored : codec.stored object with
  | some known => exact ⟨known, object, by simp only [CodeStore.recallCode, hstored]⟩
  | none => exact ⟨code, next, by simp only [CodeStore.recallCode, hstored, hencode, hstore]⟩

namespace KeepsCode

section

variable (hkeeps : codec.KeepsCode perform allowed Good)
include hkeeps

/-- An answer says what the object contains, and the contents stay as they were. -/
theorem of_recall (hgood : Good object) (hstores : codec.StoresContents object)
    (hrecall : codec.recallCode object = .ok (code, next)) :
    codec.read code = .ok (codec.contents object) ∧ Good next ∧ codec.StoresContents next ∧
      codec.contents next = codec.contents object := by
  rcases CodeStore.recall_cases hrecall with ⟨hstored, rfl⟩ | ⟨-, hencode, hstore⟩
  · exact ⟨hstores code hstored, hgood, hstores, rfl⟩
  · have hread := hkeeps.read_of_encode hgood hencode
    obtain ⟨hnext, hstored, hcontents⟩ := hkeeps.of_store hgood hstore
    refine ⟨hread, hnext, fun known hknown ↦ ?_, hcontents⟩
    rw [hstored, Option.some.injEq] at hknown
    rw [← hknown, hread, hcontents]

/-- Every event that is allowed leaves the stored code saying what the object contains. -/
theorem of_step {event : Event Call Code} (hgood : Good object)
    (hstores : codec.StoresContents object) (hallowed : allowed object event)
    (hnext : codec.step perform object event = some next) :
    Good next ∧ codec.StoresContents next := by
  cases event with
  | change call =>
    obtain ⟨hgoodNext, hnone | ⟨hstored, hcontents⟩⟩ := hkeeps.of_perform hgood hallowed hnext
    · refine ⟨hgoodNext, fun known hknown ↦ ?_⟩
      rw [hnone] at hknown
      cases hknown
    · refine ⟨hgoodNext, fun known hknown ↦ ?_⟩
      rw [hcontents]
      exact hstores known (hstored ▸ hknown)
  | recallCode =>
    obtain ⟨code, hrecall⟩ := step_recall_eq_some_iff.mp hnext
    obtain ⟨-, hgoodNext, hstoresNext, -⟩ := hkeeps.of_recall hgood hstores hrecall
    exact ⟨hgoodNext, hstoresNext⟩
  | decode code =>
    obtain ⟨hgoodNext, hstored, hread⟩ :=
      hkeeps.of_decode hgood hallowed (step_decode_eq_some_iff.mp hnext)
    refine ⟨hgoodNext, fun known hknown ↦ ?_⟩
    rw [hstored, Option.some.injEq] at hknown
    rw [← hknown, hread]

theorem of_run (hgood : Good start) (hnone : codec.stored start = none)
    (hguarded : Run.Guarded (codec.step perform) allowed start events)
    (hrun : Run.run (codec.step perform) start events = some finish) :
    Good finish ∧ codec.StoresContents finish ∧
      ∀ past code, events = past ++ [.decode code] → codec.read code = .ok (codec.contents finish) := by
  have hstart : codec.StoresContents start := by
    intro known hknown
    rw [hnone] at hknown
    cases hknown
  apply Run.invariant_of_guarded
    (fun (events : List (Event Call Code)) object ↦ Good object ∧ codec.StoresContents object ∧
      ∀ (past : List (Event Call Code)) code, events = past ++ [Event.decode code] →
        codec.read code = .ok (codec.contents object))
    _ ⟨hgood, hstart, by simp⟩ hguarded hrun
  rintro past object event next ⟨hgood, hstores, -⟩ hallowed hnext
  obtain ⟨hgoodNext, hstoresNext⟩ := hkeeps.of_step hgood hstores hallowed hnext
  refine ⟨hgoodNext, hstoresNext, ?_⟩
  intro front code hlast
  have hsame : event = .decode code := by simpa using (List.append_inj' hlast rfl).2
  subst hsame
  obtain ⟨-, -, hread⟩ := hkeeps.of_decode hgood hallowed (step_decode_eq_some_iff.mp hnext)
  exact hread

/-- A run of allowed events from an object without a code shows the contents at its end. -/
theorem showsContents_of_guarded (hgood : Good start) (hnone : codec.stored start = none)
    (hguarded : Run.Guarded (codec.step perform) allowed start events)
    (hrun : Run.run (codec.step perform) start events = some finish) :
    codec.ShowsContents events finish := by
  obtain ⟨hfinish, hstores, hdecoded⟩ := hkeeps.of_run hgood hnone hguarded hrun
  refine ⟨fun code next hrecall ↦ ?_, hdecoded⟩
  obtain ⟨hread, -, -, hcontents⟩ := hkeeps.of_recall hfinish hstores hrecall
  exact ⟨hread, hcontents⟩

end

end KeepsCode

end Codec

end NdnCxx
