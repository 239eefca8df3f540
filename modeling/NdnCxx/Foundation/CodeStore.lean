import NdnCxx.Foundation.Run

/-!
# Objects that store their own code

An object that can be encoded and keeps the result until it changes. The stored code is fresh when
encoding the object as it is now gives the same code. Between two changes the code is computed at
most once, so a change that forgets to discard the stored code shows in every later answer.

Storing may itself change the object, for instance when the object is read back from its code.
-/

namespace NdnCxx

variable {Object Code Fault Call : Type*}

/-- How an object is encoded, and where it keeps its code. -/
structure CodeStore (Object Code Fault : Type*) where
  encode : Object → Except Fault Code
  stored : Object → Option Code
  store : Object → Code → Except Fault Object

namespace CodeStore

variable (codes : CodeStore Object Code Fault)

/-- Answer with the stored code, or encode the object and store the result. -/
def recallCode (object : Object) : Except Fault (Code × Object) :=
  match codes.stored object with
  | some code => .ok (code, object)
  | none =>
      match codes.encode object with
      | .error fault => .error fault
      | .ok code =>
          match codes.store object code with
          | .error fault => .error fault
          | .ok next => .ok (code, next)

/-- Without a stored code, the code is that of the object, if it can be stored. -/
theorem map_fst_recall_of_none {codes : CodeStore Object Code Fault} {object : Object}
    (hnone : codes.stored object = none) :
    (codes.recallCode object).map Prod.fst =
      codes.encode object >>= fun code ↦ (codes.store object code).map fun _ ↦ code := by
  simp only [recallCode, hnone]
  cases codes.encode object with
  | error fault => rfl
  | ok code =>
    cases hstore : codes.store object code with
    | error fault => simp [bind, Except.bind, hstore, Except.map]
    | ok next => simp [bind, Except.bind, hstore, Except.map]

def IsFresh (object : Object) : Prop :=
  ∀ code, codes.stored object = some code → codes.encode object = .ok code

variable {codes} {object next : Object} {code : Code}

theorem isFresh_of_stored_eq_none (hnone : codes.stored object = none) : codes.IsFresh object := by
  intro code hstored
  rw [hnone] at hstored
  cases hstored

/-- An answer either repeats what is stored or stores what it says. -/
theorem recall_cases (hrecall : codes.recallCode object = .ok (code, next)) :
    codes.stored object = some code ∧ next = object ∨
      codes.stored object = none ∧ codes.encode object = .ok code ∧
        codes.store object code = .ok next := by
  unfold recallCode at hrecall
  cases hstored : codes.stored object with
  | some known =>
    simp only [hstored, Except.ok.injEq, Prod.mk.injEq] at hrecall
    obtain ⟨rfl, rfl⟩ := hrecall
    exact Or.inl ⟨rfl, rfl⟩
  | none =>
    simp only [hstored] at hrecall
    cases hencode : codes.encode object with
    | error fault => simp [hencode] at hrecall
    | ok made =>
      simp only [hencode] at hrecall
      cases hstore : codes.store object made with
      | error fault => simp [hstore] at hrecall
      | ok kept =>
        simp only [hstore, Except.ok.injEq, Prod.mk.injEq] at hrecall
        obtain ⟨rfl, rfl⟩ := hrecall
        exact Or.inr ⟨rfl, rfl, hstore⟩

theorem IsFresh.encode_eq_of_recall (hfresh : codes.IsFresh object)
    (hrecall : codes.recallCode object = .ok (code, next)) : codes.encode object = .ok code := by
  rcases recall_cases hrecall with ⟨hstored, -⟩ | ⟨-, hencode, -⟩
  · exact hfresh code hstored
  · exact hencode

/-- If the object can be encoded and stored, an answer is given. -/
theorem IsFresh.exists_recall (hfresh : codes.IsFresh object) (hencode : codes.encode object = .ok code)
    (hstore : codes.store object code = .ok next) :
    ∃ answered, codes.recallCode object = .ok (code, answered) := by
  unfold recallCode
  cases hstored : codes.stored object with
  | some known =>
    have hknown := hfresh known hstored
    rw [hencode] at hknown
    cases hknown
    exact ⟨object, rfl⟩
  | none => exact ⟨next, by simp only [hencode, hstore]⟩

/-! ## Runs of changes and answers -/

/-- A call of a mutator, or a request for the code. -/
inductive Event (Call : Type*)
  | change (call : Call)
  | recallCode
  deriving DecidableEq

/-- Perform an event that returns normally. -/
def step (codes : CodeStore Object Code Fault) (perform : Object → Call → Option Object)
    (object : Object) : Event Call → Option Object
  | .change call => perform object call
  | .recallCode => (codes.recallCode object).toOption.map Prod.snd

theorem step_recall_eq_some_iff {perform : Object → Call → Option Object} :
    codes.step perform object .recallCode = some next ↔
      ∃ code, codes.recallCode object = .ok (code, next) := by
  cases hrecall : codes.recallCode object with
  | error fault => simp [step, hrecall, Except.toOption]
  | ok answer =>
    obtain ⟨code, kept⟩ := answer
    simp [step, hrecall, Except.toOption]

/-! ## Codes that are never stale -/

/-- An object that stores no code goes through allowed events. Whatever it answers then is what the
object with the same fields and without stored codes answers, which is made by `fresh`. -/
def NeverStale (codes : CodeStore Object Code Fault) (perform : Object → Call → Option Object)
    (allowed : Object → Event Call → Prop) (fresh : Object → Object) : Prop :=
  ∀ start events finish code next, fresh start = start →
    Run.Guarded (codes.step perform) allowed start events →
    Run.run (codes.step perform) start events = some finish →
    codes.recallCode finish = .ok (code, next) →
      ∃ kept, codes.recallCode (fresh finish) = .ok (code, kept)

/-- A condition on the changes alone. -/
def Event.OnChange (allowed : Object → Call → Prop) (object : Object) : Event Call → Prop
  | .change call => allowed object call
  | .recallCode => True

variable {events : List (Event Call)}

section NeverStale

variable {perform : Object → Call → Option Object} {fresh : Object → Object}

theorem neverStale_of_invariant {allowed : Object → Event Call → Prop} (Inv : Object → Prop)
    (hstart : ∀ object, fresh object = object → Inv object)
    (hstep : ∀ object event next, Inv object → allowed object event →
      codes.step perform object event = some next → Inv next)
    (hanswer : ∀ object code next, Inv object → codes.recallCode object = .ok (code, next) →
      ∃ kept, codes.recallCode (fresh object) = .ok (code, kept)) :
    codes.NeverStale perform allowed fresh := by
  intro start events finish code next hfresh hguarded hrun hrecall
  have hfinish : Inv finish :=
    Run.invariant_of_guarded (fun _ object ↦ Inv object)
      (fun _ object event next hinv hallowed hnext ↦ hstep object event next hinv hallowed hnext)
      (hstart start hfresh) hguarded hrun
  exact hanswer finish code next hfinish hrecall

/-- What is answered after some events, and what the same object answers without stored codes. -/
def answersAfter (codes : CodeStore Object Code Fault) (perform : Object → Call → Option Object)
    (fresh : Object → Object) (start : Object) (events : List (Event Call)) : Option (Code × Code) :=
  (Run.run (codes.step perform) start events).bind fun finish ↦
    (codes.recallCode finish).toOption.bind fun answered ↦
      (codes.recallCode (fresh finish)).toOption.map fun other ↦ (answered.1, other.1)

/-- A run after which the two answers differ. -/
theorem not_neverStale {start : Object} {other : Code} (hstart : fresh start = start)
    (hanswers : codes.answersAfter perform fresh start events = some (code, other))
    (hne : code ≠ other) : ¬ codes.NeverStale perform (fun _ _ ↦ True) fresh := by
  intro hnever
  obtain ⟨finish, hrun, hanswers⟩ := Option.bind_eq_some_iff.mp hanswers
  obtain ⟨answered, hrecall, hanswers⟩ := Option.bind_eq_some_iff.mp hanswers
  obtain ⟨known, hother, hanswers⟩ := Option.map_eq_some_iff.mp hanswers
  obtain ⟨rfl, rfl⟩ := Prod.mk.inj hanswers
  cases hfinish : codes.recallCode finish with
  | error fault =>
    rw [hfinish] at hrecall
    cases hrecall
  | ok answer =>
    rw [hfinish] at hrecall
    obtain rfl := Option.some.inj hrecall
    obtain ⟨kept, hsame⟩ :=
      hnever start events finish answer.1 answer.2 hstart Run.guarded_of_true hrun hfinish
    rw [hsame] at hother
    obtain rfl := Option.some.inj hother
    exact hne rfl

/-- Storing a code changes nothing else, and a fresh object is encoded alike. -/
structure OnlyStores (codes : CodeStore Object Code Fault) (fresh : Object → Object) : Prop where
  stored_fresh : ∀ object, codes.stored (fresh object) = none
  encode_fresh : ∀ object, codes.encode (fresh object) = codes.encode object
  store : ∀ object code, ∃ next, codes.store object code = .ok next ∧
    codes.stored next = some code ∧ codes.encode next = codes.encode object

section

variable (hstores : codes.OnlyStores fresh)
include hstores

theorem OnlyStores.isFresh_of_fresh (hfresh : fresh object = object) : codes.IsFresh object := by
  apply isFresh_of_stored_eq_none
  rw [← hfresh]
  exact hstores.stored_fresh object

theorem OnlyStores.isFresh_of_recall (hfresh : codes.IsFresh object)
    (hrecall : codes.recallCode object = .ok (code, next)) : codes.IsFresh next := by
  rcases recall_cases hrecall with ⟨-, rfl⟩ | ⟨-, hencode, hstore⟩
  · exact hfresh
  · obtain ⟨kept, hkept, hstored, hsame⟩ := hstores.store object code
    obtain rfl := Except.ok.inj (hstore.symm.trans hkept)
    intro known hknown
    rw [hstored, Option.some.injEq] at hknown
    rw [← hknown, hsame, hencode]

/-- A code that is not stale is the one that the object is encoded to. -/
theorem OnlyStores.map_fst_recall (hfresh : codes.IsFresh object) :
    (codes.recallCode object).map Prod.fst = codes.encode object := by
  cases hstored : codes.stored object with
  | some known =>
    simp only [recallCode, hstored, Except.map]
    exact (hfresh known hstored).symm
  | none =>
    rw [map_fst_recall_of_none hstored]
    cases codes.encode object with
    | error fault => rfl
    | ok made =>
      obtain ⟨kept, hkept, -⟩ := hstores.store object made
      simp only [bind, Except.bind, hkept, Except.map]

theorem OnlyStores.map_fst_recall_fresh (hfresh : codes.IsFresh object) :
    (codes.recallCode (fresh object)).map Prod.fst = (codes.recallCode object).map Prod.fst := by
  rw [hstores.map_fst_recall (isFresh_of_stored_eq_none (hstores.stored_fresh object)),
    hstores.encode_fresh, hstores.map_fst_recall hfresh]

end

theorem exists_of_map_fst_recall {other : Object}
    (hsame : (codes.recallCode other).map Prod.fst = (codes.recallCode object).map Prod.fst)
    (hrecall : codes.recallCode object = .ok (code, next)) :
    ∃ kept, codes.recallCode other = .ok (code, kept) := by
  rw [hrecall] at hsame
  cases hother : codes.recallCode other with
  | error fault =>
    rw [hother] at hsame
    cases hsame
  | ok answer =>
    rw [hother] at hsame
    exact ⟨answer.2, congrArg (fun answered ↦ Except.ok (answered, answer.2)) (Except.ok.inj hsame)⟩

section Changes

variable {allowed : Object → Call → Prop} (hstores : codes.OnlyStores fresh)
  (hchange : ∀ object call next, codes.IsFresh object → allowed object call →
    perform object call = some next → codes.IsFresh next)
include hstores hchange

theorem OnlyStores.isFresh_step {event : Event Call} (hfresh : codes.IsFresh object)
    (hallowed : Event.OnChange allowed object event)
    (hnext : codes.step perform object event = some next) : codes.IsFresh next := by
  cases event with
  | change call => exact hchange object call next hfresh hallowed hnext
  | recallCode =>
    obtain ⟨code, hrecall⟩ := step_recall_eq_some_iff.mp hnext
    exact hstores.isFresh_of_recall hfresh hrecall

theorem OnlyStores.isFresh_of_run {start finish : Object} (hstart : fresh start = start)
    (hguarded : Run.Guarded (codes.step perform) (Event.OnChange allowed) start events)
    (hrun : Run.run (codes.step perform) start events = some finish) : codes.IsFresh finish :=
  Run.invariant_of_guarded (fun _ object ↦ codes.IsFresh object)
    (fun _ _ _ _ hfresh hallowed hnext ↦ hstores.isFresh_step hchange hfresh hallowed hnext)
    (hstores.isFresh_of_fresh hstart) hguarded hrun

/-- If every allowed change leaves a code that is not stale, so does every run. -/
theorem OnlyStores.neverStale : codes.NeverStale perform (Event.OnChange allowed) fresh :=
  neverStale_of_invariant codes.IsFresh (fun _ hfresh ↦ hstores.isFresh_of_fresh hfresh)
    (fun _ _ _ hfresh hallowed hnext ↦ hstores.isFresh_step hchange hfresh hallowed hnext)
    fun _ _ _ hfresh hrecall ↦ exists_of_map_fst_recall (hstores.map_fst_recall_fresh hfresh) hrecall

end Changes

end NeverStale

/-! ## Objects that discard their code whenever they change -/

/-- Every change discards the stored code, and storing it changes nothing but the stored code. -/
structure Discards (codes : CodeStore Object Code Fault) (perform : Object → Call → Option Object) :
    Prop where
  stored_perform : ∀ {object call next}, perform object call = some next → codes.stored next = none
  stored_store : ∀ {object code next}, codes.store object code = .ok next →
    codes.stored next = some code
  encode_store : ∀ {object code next}, codes.store object code = .ok next →
    codes.encode next = codes.encode object
  store_stored : ∀ {object code}, codes.stored object = some code →
    codes.store object code = .ok object

variable {perform : Object → Call → Option Object}

theorem Discards.isFresh_of_run (hdiscards : codes.Discards perform) {start finish : Object}
    (hstart : codes.IsFresh start)
    (hrun : Run.run (codes.step perform) start events = some finish) : codes.IsFresh finish := by
  apply Run.invariant_of_run (fun _ object ↦ codes.IsFresh object) _ hstart hrun
  intro _ object event next hfresh hnext
  cases event with
  | change call => exact isFresh_of_stored_eq_none (hdiscards.stored_perform hnext)
  | recallCode =>
    obtain ⟨code, hrecall⟩ := step_recall_eq_some_iff.mp hnext
    rcases recall_cases hrecall with ⟨-, rfl⟩ | ⟨-, hencode, hstore⟩
    · exact hfresh
    · intro known hknown
      rw [hdiscards.stored_store hstore, Option.some.injEq] at hknown
      rw [← hknown, hdiscards.encode_store hstore, hencode]

/-- The object answers with a code, and decoding it into any object gives the one that has
answered. -/
def ReadsBack (codes : CodeStore Object Code Fault) (decode : Object → Code → Except Fault Object)
    (object : Object) : Prop :=
  ∃ code kept, codes.recallCode object = .ok (code, kept) ∧ codes.store object code = .ok kept ∧
    ∀ other, decode other code = .ok kept

theorem Discards.readsBack (hdiscards : codes.Discards perform)
    {decode : Object → Code → Except Fault Object} {kept : Object} (hfresh : codes.IsFresh object)
    (hencode : codes.encode object = .ok code) (hstore : codes.store object code = .ok kept)
    (hdecode : ∀ other, decode other code = .ok kept) : codes.ReadsBack decode object := by
  refine ⟨code, kept, ?_, hstore, hdecode⟩
  cases hstored : codes.stored object with
  | none => simp only [recallCode, hstored, hencode, hstore]
  | some known =>
    have hknown := hfresh known hstored
    rw [hencode, Except.ok.injEq] at hknown
    have hkept := hdiscards.store_stored hstored
    rw [← hknown, hstore, Except.ok.injEq] at hkept
    simp only [recallCode, hstored, hkept, hknown]

end CodeStore

end NdnCxx
