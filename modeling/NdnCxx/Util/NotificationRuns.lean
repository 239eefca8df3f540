import NdnCxx.Util.NotificationSubscriber

/-!
# Runs of a notification subscriber

A callback goes on after its handlers, and sends the next Interest if the subscriber is running. That
is right as long as the Interest it sends follows the Interest that was answered. Handlers that stop
and start the subscriber have already sent one, and so has a restart before the callback of an
Interest that was to be removed. In runs without these, and without the last sequence number, one
Interest at most is outstanding, and none while the subscriber is stopped.
-/

namespace NdnCxx.NotificationSubscriber

variable {Notification : Type} {subscriber next : NotificationSubscriber Notification}

/-- One Interest at most is outstanding, none while the subscriber is stopped, and no assertion has
failed. -/
structure IsSafe (subscriber : NotificationSubscriber Notification) : Prop where
  atMostOne : subscriber.interests.outstanding.length ≤ 1
  noneWhileStopped : subscriber.isRunning = false → subscriber.interests.outstanding = []
  noAssertion : subscriber.control ≠ .assertionFailed

def Control.answered : Control Notification → Option ℕ
  | .onNotification answered _ _ | .onDecodeError answered _ | .onTimeout answered => some answered
  | _ => none

def Control.notified : Control Notification → Option Packet.Data
  | .onNotification _ data _ => some data
  | _ => none

/-- When handlers return to a running subscriber, the last Interest is the one that was answered, and
the notification they were given does not have the last sequence number. -/
def Follows (subscriber : NotificationSubscriber Notification) : Event → Prop
  | .handlersReturn =>
      subscriber.isRunning = true → subscriber.nHandlers ≠ 0 →
        (∀ id ∈ subscriber.lastInterestId, id ∈ subscriber.control.answered) ∧
          ∀ data ∈ subscriber.control.notified, sequenceNumberOf data ≠ some (.ok maxSequenceNo)
  | _ => True

instance (subscriber : NotificationSubscriber Notification) (event : Event) :
    Decidable (subscriber.Follows event) :=
  match event with
  | .handlersReturn => inferInstanceAs (Decidable (_ → _ → _ ∧ _))
  | .start | .stop | .connect | .disconnect | .receiveData _ _ | .timeout _
  | .removePendingInterest _ | .handlersThrow => inferInstanceAs (Decidable True)

/-- The remembered Interest is the only one outstanding; the answered one has left the face. -/
structure Inv (subscriber : NotificationSubscriber Notification) : Prop where
  tracks : subscriber.interests.Tracks subscriber.lastInterestId
  stopped : subscriber.isRunning = false → subscriber.lastInterestId = none
  answered : ∀ id ∈ subscriber.control.answered, id < subscriber.interests.nextId ∧
    ∀ entry ∈ subscriber.interests.outstanding, entry.id ≠ id
  numbered : ∀ data ∈ subscriber.control.notified,
    sequenceNumberOf data = some (.ok subscriber.lastSequenceNo)
  noAssertion : subscriber.control ≠ .assertionFailed

namespace Inv

theorem isSafe (hinv : Inv subscriber) : IsSafe subscriber where
  atMostOne := hinv.tracks.length_le_one
  noneWhileStopped hstopped := (hinv.stopped hstopped ▸ hinv.tracks).eq_nil_of_none
  noAssertion := hinv.noAssertion

theorem create (prefixName : Name) (interestLifetime : ℤ) :
    Inv (create prefixName interestLifetime : NotificationSubscriber Notification) where
  tracks := .of_eq_nil rfl
  stopped _ := rfl
  answered _ hanswered := nomatch hanswered
  numbered _ hnotified := nomatch hnotified
  noAssertion := nofun

/-- A change of the handlers, of the sequence number or of the thread, which comes to no handlers -/
theorem of_idle (hinv : Inv subscriber) (hinterests : next.interests = subscriber.interests)
    (hlast : next.lastInterestId = subscriber.lastInterestId)
    (hrunning : next.isRunning = subscriber.isRunning)
    (hanswered : next.control.answered = none) (hnotified : next.control.notified = none)
    (hassertion : next.control ≠ .assertionFailed) : Inv next where
  tracks := by
    rw [hinterests, hlast]
    exact hinv.tracks
  stopped hstopped := by
    rw [hlast]
    exact hinv.stopped (hrunning ▸ hstopped)
  answered id hid := by
    rw [hanswered] at hid
    cases hid
  numbered data hdata := by
    rw [hnotified] at hdata
    cases hdata
  noAssertion := hassertion

/-! ## Stopping and sending -/

theorem stop (hinv : Inv subscriber) : Inv subscriber.stop := by
  unfold NotificationSubscriber.stop
  split_ifs with hrunning
  · exact hinv
  · cases hlast : subscriber.lastInterestId with
    | none =>
      have htracks : subscriber.interests.Tracks none := hlast ▸ hinv.tracks
      exact ⟨htracks, fun _ ↦ rfl, hinv.answered, hinv.numbered, hinv.noAssertion⟩
    | some id =>
      have htracks : subscriber.interests.Tracks (some id) := hlast ▸ hinv.tracks
      refine ⟨htracks.cancel, fun _ ↦ rfl, fun answered hanswered ↦ ?_, hinv.numbered,
        hinv.noAssertion⟩
      obtain ⟨hlt, hothers⟩ := hinv.answered answered hanswered
      exact ⟨hlt, fun entry hentry ↦ hothers entry (RequestTable.mem_outstanding_cancel.mp hentry).1⟩

/-- `shouldStop` leaves a running subscriber with handlers alone and stops any other. -/
theorem shouldStop_cases (subscriber : NotificationSubscriber Notification) :
    subscriber.shouldStop = (true, subscriber.stop) ∨
      (subscriber.shouldStop = (false, subscriber) ∧ subscriber.isRunning = true ∧
        subscriber.isEmpty = false) := by
  unfold shouldStop
  split_ifs with hrunning hempty
  · left
    rw [NotificationSubscriber.stop, if_pos hrunning]
  · exact .inl rfl
  · exact .inr ⟨rfl, by simpa using hrunning, by simpa using hempty⟩

theorem expressInterest (hinv : Inv subscriber) (hrunning : subscriber.isRunning = true)
    (hnone : subscriber.interests.outstanding = []) (interest : Packet.Interest) :
    Inv (subscriber.expressInterest interest) := by
  unfold NotificationSubscriber.expressInterest
  split_ifs
  · refine ⟨.issue interest hnone, fun hstopped ↦ ?_, fun id hid ↦ ?_, hinv.numbered,
      hinv.noAssertion⟩
    · exact absurd hstopped (by simp [hrunning])
    · obtain ⟨hlt, -⟩ := hinv.answered id hid
      refine ⟨Nat.lt_succ_of_lt hlt, fun entry hentry ↦ ?_⟩
      simp only [RequestTable.outstanding_issue, hnone, List.nil_append, List.mem_singleton]
        at hentry
      rw [hentry]
      exact (Nat.ne_of_lt hlt).symm
  · exact hinv

theorem sendInitialInterest (hinv : Inv subscriber)
    (hnone : subscriber.isRunning = true → subscriber.isEmpty = false →
      subscriber.interests.outstanding = []) : Inv subscriber.sendInitialInterest := by
  unfold NotificationSubscriber.sendInitialInterest
  rcases shouldStop_cases subscriber with hstop | ⟨hgo, hrunning, hempty⟩
  · rw [hstop]
    exact hinv.stop
  · rw [hgo]
    exact hinv.expressInterest hrunning (hnone hrunning hempty) _

theorem sendNextInterest (hinv : Inv subscriber)
    (hnone : subscriber.isRunning = true → subscriber.isEmpty = false →
      subscriber.interests.outstanding = [] ∧ subscriber.lastSequenceNo ≠ maxSequenceNo) :
    Inv subscriber.sendNextInterest := by
  unfold NotificationSubscriber.sendNextInterest
  rcases shouldStop_cases subscriber with hstop | ⟨hgo, hrunning, hempty⟩
  · rw [hstop]
    exact hinv.stop
  · obtain ⟨hoverall, hsequenceNo⟩ := hnone hrunning hempty
    simp only [hgo, if_neg hsequenceNo]
    exact hinv.expressInterest hrunning hoverall _

theorem start (hinv : Inv subscriber) : Inv subscriber.start := by
  unfold NotificationSubscriber.start
  split_ifs with hrunning
  · exact hinv
  · have hstopped : subscriber.isRunning = false := by simpa using hrunning
    have hnone : subscriber.interests.outstanding = [] := hinv.isSafe.noneWhileStopped hstopped
    refine sendInitialInterest ⟨hinv.tracks, nofun, hinv.answered, hinv.numbered,
      hinv.noAssertion⟩ fun _ _ ↦ hnone

/-! ## Callbacks -/

theorem removeInterest (hinv : Inv subscriber) (id : ℕ) : Inv (subscriber.removeInterest id) where
  tracks := hinv.tracks.remove id
  stopped := hinv.stopped
  answered answered hanswered := by
    obtain ⟨hlt, hothers⟩ := hinv.answered answered hanswered
    exact ⟨hlt, fun entry hentry ↦ hothers entry (RequestTable.mem_outstanding_remove.mp hentry).1⟩
  numbered := hinv.numbered
  noAssertion := hinv.noAssertion

variable {id : ℕ}

/-- Before the handlers: the Interest of the callback has left the face. -/
theorem in_handlers (hinv : Inv subscriber) (hpending : subscriber.isPending id = true)
    (control : Control Notification) (hanswered : ∀ answered ∈ control.answered, answered = id)
    (hnumbered : ∀ data ∈ control.notified,
      sequenceNumberOf data = some (.ok subscriber.lastSequenceNo))
    (hassertion : control ≠ .assertionFailed) :
    Inv { subscriber.removeInterest id with control := control } := by
  have hremoved := hinv.removeInterest id
  refine ⟨hremoved.tracks, hremoved.stopped, fun answered hmem ↦ ?_, hnumbered, hassertion⟩
  obtain rfl := hanswered answered hmem
  obtain ⟨entry, hentry, hid⟩ := List.any_eq_true.mp hpending
  refine ⟨?_, fun other hother ↦ (RequestTable.mem_outstanding_remove.mp hother).2⟩
  rw [← eq_of_beq hid]
  exact subscriber.interests.id_lt entry hentry

theorem afterDecodeError (hinv : Inv subscriber) (hpending : subscriber.isPending id = true)
    (hidle : subscriber.control = .idle) (sequenceNo : ℕ) (data : Packet.Data) (error : Error) :
    Inv (({ subscriber.removeInterest id with lastSequenceNo := sequenceNo }).afterDecodeError id data
      error) := by
  have hnumbered : Inv { subscriber with lastSequenceNo := sequenceNo } :=
    hinv.of_idle rfl rfl rfl (by rw [hidle]; rfl) (by rw [hidle]; rfl) hinv.noAssertion
  unfold NotificationSubscriber.afterDecodeError
  split_ifs
  · exact hnumbered.in_handlers hpending (.onDecodeError id data) (by simp [Control.answered])
      (by simp [Control.notified]) nofun
  · exact hnumbered.removeInterest id

theorem afterReceiveData (wireDecode : Block → Except Error Notification) (hinv : Inv subscriber)
    (hpending : subscriber.isPending id = true) (hidle : subscriber.control = .idle)
    (data : Packet.Data) :
    Inv ((subscriber.removeInterest id).afterReceiveData wireDecode id data) := by
  unfold NotificationSubscriber.afterReceiveData
  rcases shouldStop_cases (subscriber.removeInterest id) with hstop | ⟨hgo, -, -⟩
  · rw [hstop]
    exact (hinv.removeInterest id).stop
  · simp only [hgo]
    cases hsequenceNo : sequenceNumberOf data with
    | none =>
      exact hinv.in_handlers hpending .outOfBounds (by simp [Control.answered])
        (by simp [Control.notified]) nofun
    | some read =>
      cases read with
      | error error => exact hinv.afterDecodeError hpending hidle subscriber.lastSequenceNo data error
      | ok sequenceNo =>
        cases hdecode : decodeContent wireDecode data with
        | error error => exact hinv.afterDecodeError hpending hidle sequenceNo data error
        | ok notification =>
          have hnumbered : Inv { subscriber with lastSequenceNo := sequenceNo } :=
            hinv.of_idle rfl rfl rfl (by rw [hidle]; rfl) (by rw [hidle]; rfl) hinv.noAssertion
          refine hnumbered.in_handlers hpending (.onNotification id data notification)
            (by simp [Control.answered]) (fun notified hnotified ↦ ?_) nofun
          obtain rfl : data = notified := Option.some.inj hnotified
          exact hsequenceNo

theorem afterTimeout (hinv : Inv subscriber) (hpending : subscriber.isPending id = true) :
    Inv ((subscriber.removeInterest id).afterTimeout id) := by
  unfold NotificationSubscriber.afterTimeout
  rcases shouldStop_cases (subscriber.removeInterest id) with hstop | ⟨hgo, -, -⟩
  · rw [hstop]
    exact (hinv.removeInterest id).stop
  · rw [hgo]
    exact hinv.in_handlers hpending (.onTimeout id) (by simp [Control.answered])
      (by simp [Control.notified]) nofun

/-- The answered Interest has left the face, so nothing is outstanding when the remembered Interest is
the answered one. -/
theorem outstanding_eq_nil (hinv : Inv subscriber)
    (hlast : ∀ id ∈ subscriber.lastInterestId, id ∈ subscriber.control.answered) :
    subscriber.interests.outstanding = [] := by
  refine List.eq_nil_iff_forall_not_mem.mpr fun entry hentry ↦ ?_
  have hanswered := hlast entry.id (hinv.tracks entry hentry)
  exact (hinv.answered entry.id hanswered).2 entry hentry rfl

theorem afterHandlers (hinv : Inv subscriber) (hfollows : subscriber.Follows .handlersReturn)
    (hnext : subscriber.afterHandlers = some next) : Inv next := by
  have hidle : Inv { subscriber with control := .idle } :=
    hinv.of_idle rfl rfl rfl rfl rfl nofun
  have hnone (hrunning : subscriber.isRunning = true)
      (hempty :
        ({ subscriber with control := .idle } : NotificationSubscriber Notification).isEmpty = false) :
      subscriber.interests.outstanding = [] ∧
        ∀ data ∈ subscriber.control.notified, sequenceNumberOf data ≠ some (.ok maxSequenceNo) := by
    obtain ⟨hlast, hnumber⟩ := hfollows hrunning (by simpa [isEmpty] using hempty)
    exact ⟨hinv.outstanding_eq_nil hlast, hnumber⟩
  unfold NotificationSubscriber.afterHandlers at hnext
  cases hcontrol : subscriber.control with
  | onNotification answered data notification =>
    simp only [hcontrol, Option.some.injEq] at hnext
    subst hnext
    refine hidle.sendNextInterest fun hrunning hempty ↦ ?_
    obtain ⟨hoverall, hnumber⟩ := hnone hrunning hempty
    refine ⟨hoverall, fun hmax ↦ ?_⟩
    have hnotified : data ∈ subscriber.control.notified := by
      rw [hcontrol]
      rfl
    exact hnumber data hnotified (hmax ▸ hinv.numbered data hnotified)
  | onDecodeError answered data =>
    simp only [hcontrol, Option.some.injEq] at hnext
    subst hnext
    exact hidle.sendInitialInterest fun hrunning hempty ↦ (hnone hrunning hempty).1
  | onTimeout answered =>
    simp only [hcontrol, Option.some.injEq] at hnext
    subst hnext
    exact hidle.sendInitialInterest fun hrunning hempty ↦ (hnone hrunning hempty).1
  | idle => simp [hcontrol] at hnext
  | assertionFailed => simp [hcontrol] at hnext
  | outOfBounds => simp [hcontrol] at hnext

/-! ## Steps and runs -/

theorem step (wireDecode : Block → Except Error Notification) {event : Event}
    (hinv : Inv subscriber) (hfollows : subscriber.Follows event)
    (hnext : subscriber.step wireDecode event = some next) : Inv next := by
  cases event with
  | start =>
    obtain ⟨-, hsome⟩ := Option.ite_none_right_eq_some.mp hnext
    obtain rfl := Option.some.inj hsome
    exact hinv.start
  | stop =>
    obtain ⟨-, hsome⟩ := Option.ite_none_right_eq_some.mp hnext
    obtain rfl := Option.some.inj hsome
    exact hinv.stop
  | connect =>
    obtain ⟨-, hsome⟩ := Option.ite_none_right_eq_some.mp hnext
    obtain rfl := Option.some.inj hsome
    exact ⟨hinv.tracks, hinv.stopped, hinv.answered, hinv.numbered, hinv.noAssertion⟩
  | disconnect =>
    obtain ⟨-, hsome⟩ := Option.ite_none_right_eq_some.mp hnext
    obtain rfl := Option.some.inj hsome
    exact ⟨hinv.tracks, hinv.stopped, hinv.answered, hinv.numbered, hinv.noAssertion⟩
  | receiveData id data =>
    cases hcontrol : subscriber.control with
    | idle =>
      simp only [NotificationSubscriber.step, hcontrol] at hnext
      obtain ⟨hpending, hsome⟩ := Option.ite_none_right_eq_some.mp hnext
      obtain rfl := Option.some.inj hsome
      exact hinv.afterReceiveData wireDecode hpending hcontrol data
    | _ => simp [NotificationSubscriber.step, hcontrol] at hnext
  | timeout id =>
    cases hcontrol : subscriber.control with
    | idle =>
      simp only [NotificationSubscriber.step, hcontrol] at hnext
      obtain ⟨hpending, hsome⟩ := Option.ite_none_right_eq_some.mp hnext
      obtain rfl := Option.some.inj hsome
      exact hinv.afterTimeout hpending
    | _ => simp [NotificationSubscriber.step, hcontrol] at hnext
  | removePendingInterest id =>
    cases hcontrol : subscriber.control with
    | idle =>
      simp only [NotificationSubscriber.step, hcontrol] at hnext
      obtain ⟨-, hsome⟩ := Option.ite_none_right_eq_some.mp hnext
      obtain rfl := Option.some.inj hsome
      exact hinv.removeInterest id
    | _ => simp [NotificationSubscriber.step, hcontrol] at hnext
  | handlersReturn => exact hinv.afterHandlers hfollows hnext
  | handlersThrow =>
    obtain ⟨-, hsome⟩ := Option.ite_none_right_eq_some.mp hnext
    obtain rfl := Option.some.inj hsome
    exact hinv.of_idle rfl rfl rfl rfl rfl nofun

end Inv

theorem isSafe_of_run (wireDecode : Block → Except Error Notification) {prefixName : Name}
    {interestLifetime : ℤ} {events : List Event} {finish : NotificationSubscriber Notification}
    (hfollows : Run.Guarded (step wireDecode) Follows (create prefixName interestLifetime) events)
    (hrun : Run.run (step wireDecode) (create prefixName interestLifetime) events = some finish) :
    finish.IsSafe :=
  (Run.invariant_of_guarded (fun _ ↦ Inv)
    (fun _ _ _ _ hinv hallowed hnext ↦ hinv.step wireDecode hallowed hnext)
    (Inv.create prefixName interestLifetime) hfollows hrun).isSafe

def sampleData (sequenceNo : ℕ) : Packet.Data :=
  { name := [.fromSequenceNumber sequenceNo]
    content := ⟨Tlv.content, .value [0x80, 0x00], []⟩ }

/-- Two notifications after another, a stop, and the removal of the last Interest -/
theorem isSafe_of_run_two_notifications :
    ∃ finish : NotificationSubscriber Unit, finish.IsSafe ∧
      finish.interests.pending.length = 0 ∧ finish.lastSequenceNo = 8 := by
  have hfollows : Run.Guarded (step fun _ ↦ .ok ()) Follows (create [] 60000)
      [.connect, .start, .receiveData 0 (sampleData 7), .handlersReturn,
        .receiveData 1 (sampleData 8), .handlersReturn, .stop, .removePendingInterest 2] := by
    decide +kernel
  have hrun := Option.eq_some_of_isSome (o := Run.run (step fun _ ↦ .ok ()) (create [] 60000)
    [.connect, .start, .receiveData 0 (sampleData 7), .handlersReturn,
      .receiveData 1 (sampleData 8), .handlersReturn, .stop, .removePendingInterest 2])
    (by decide +kernel)
  exact ⟨_, isSafe_of_run _ hfollows hrun, by decide +kernel, by decide +kernel⟩

/-- A handler that stops and starts the subscriber leaves two Interests outstanding, one of them when
the subscriber is stopped later; so does a restart before the answer to an Interest that was to be
removed; and the last sequence number makes the assertion fail. -/
theorem not_isSafe_restart :
    (∃ finish : NotificationSubscriber Unit, Run.run (step fun _ ↦ .ok ()) (create [] 60000)
        [.connect, .start, .receiveData 0 (sampleData 7), .stop, .start, .handlersReturn, .stop] =
          some finish ∧
      finish.isRunning = false ∧ finish.interests.outstanding ≠ []) ∧
    (∃ finish : NotificationSubscriber Unit, Run.run (step fun _ ↦ .ok ()) (create [] 60000)
        [.connect, .start, .stop, .start, .receiveData 0 (sampleData 7), .handlersReturn] =
          some finish ∧
      finish.interests.outstanding.length = 2) ∧
    ∃ finish : NotificationSubscriber Unit, Run.run (step fun _ ↦ .ok ()) (create [] 60000)
        [.connect, .start, .receiveData 0 (sampleData (2 ^ 64 - 1)), .handlersReturn] =
          some finish ∧
      finish.control = .assertionFailed :=
  ⟨⟨_, Option.eq_some_of_isSome (by decide +kernel), by decide +kernel, by decide +kernel⟩,
    ⟨_, Option.eq_some_of_isSome (by decide +kernel), by decide +kernel⟩,
    ⟨_, Option.eq_some_of_isSome (by decide +kernel), by decide +kernel⟩⟩

end NdnCxx.NotificationSubscriber
