import NdnCxx.Util.Scheduler

/-!
# What holds of every run of a scheduler

Two invariants. The records account for every event: each one that was scheduled is queued,
executed, cancelled or dropped, once and exclusively, and no callback was invoked early; this holds
after every operation, also after a callback that threw. The timer is set for the first event of the
queue whenever no callback is running; this is kept up by every operation, as long as no callback
throws.

An `EventId` stays non-null for good. What follows the queue is the validity of the `EventIdImpl` it
points to, which `cancelAllEvents` leaves alone.
-/

namespace NdnCxx.Scheduler

open Run

/-! ## Accounting for the events -/

/-- Every event is accounted for, and callbacks are invoked on time. -/
structure Consistent (scheduler : Scheduler) : Prop where
  partition : (scheduler.events.map EventInfo.id ++ (scheduler.executed.map fun execution ↦
    execution.event.id) ++ scheduler.cancelled ++ scheduler.dropped).Perm
      (List.range scheduler.scheduled.length)
  valid : ∀ id, id ∈ scheduler.valid ↔
    id ∈ scheduler.events.map EventInfo.id ∨ id ∈ scheduler.dropped
  sorted : scheduler.events.Pairwise fun first second ↦ first.scheduledTime ≤ second.scheduledTime
  queued : ∀ event ∈ scheduler.events, scheduler.scheduled[event.id]? = some event
  executed : ∀ execution ∈ scheduler.executed,
    scheduler.scheduled[execution.event.id]? = some execution.event ∧
      execution.event.scheduledTime ≤ execution.time
  clock : ∀ now ∈ scheduler.executingUntil, now ≤ scheduler.clock
  issued : scheduler.eventIds = (List.range scheduler.scheduled.length).map some

variable {event : EventInfo} {eventId : EventId} {executingUntil : Option ℤ}
    {isEventExecuting : Bool} {after : ℤ}

section Accounting

variable {scheduler next : Scheduler}

/-- The records do not depend on the timer, and on the clock only while a callback runs. -/
theorem Consistent.frame {scheduledEvent : Option ℕ} {isWaiting : Bool}
    {expiresAt lateness clock : ℤ} {nReady : ℕ} (hinv : Consistent scheduler)
    (hclock : ∀ now ∈ executingUntil, now ≤ clock) :
    Consistent { scheduler with
      scheduledEvent := scheduledEvent
      isEventExecuting := isEventExecuting
      expiresAt := expiresAt
      isWaiting := isWaiting
      nReady := nReady
      lateness := lateness
      clock := clock
      executingUntil := executingUntil } :=
  ⟨hinv.partition, hinv.valid, hinv.sorted, hinv.queued, hinv.executed, hclock, hinv.issued⟩

theorem Consistent.nodup (hinv : Consistent scheduler) :
    (scheduler.events.map EventInfo.id ++ (scheduler.executed.map fun execution ↦
      execution.event.id) ++ scheduler.cancelled ++ scheduler.dropped).Nodup :=
  hinv.partition.nodup_iff.mpr List.nodup_range

theorem pairwise_orderedInsert {events : List EventInfo}
    (hsorted : events.Pairwise fun first second ↦ first.scheduledTime ≤ second.scheduledTime) :
    (events.orderedInsert (fun first second ↦ first.scheduledTime < second.scheduledTime)
      event).Pairwise fun first second ↦ first.scheduledTime ≤ second.scheduledTime := by
  induction events with
  | nil => simp
  | cons head rest ih =>
    obtain ⟨hhead, hrest⟩ := List.pairwise_cons.mp hsorted
    rw [List.orderedInsert_cons]
    split_ifs with hbefore
    · refine List.pairwise_cons.mpr ⟨fun other hother ↦ ?_, hsorted⟩
      rcases List.mem_cons.mp hother with rfl | hlater
      · exact hbefore.le
      · exact hbefore.le.trans (hhead other hlater)
    · refine List.pairwise_cons.mpr ⟨fun other hother ↦ ?_, ih hrest⟩
      rcases (List.mem_orderedInsert _).mp hother with rfl | hlater
      · exact not_lt.mp hbefore
      · exact hhead other hlater

/-- Whatever happens to the timer, `scheduleEvent` inserts one event. -/
theorem scheduleEvent_cases (hnext : scheduler.scheduleEvent after = some (next, eventId)) :
    eventId = some scheduler.scheduled.length ∧
      ∃ scheduledEvent expiresAt isWaiting lateness, next =
        { scheduler with
          events := scheduler.events.orderedInsert (fun first second ↦
            first.scheduledTime < second.scheduledTime)
            ⟨scheduler.scheduled.length, scheduler.clock + after⟩
          valid := scheduler.scheduled.length :: scheduler.valid
          scheduled := scheduler.scheduled ++
            [⟨scheduler.scheduled.length, scheduler.clock + after⟩]
          scheduledEvent := scheduledEvent
          expiresAt := expiresAt
          isWaiting := isWaiting
          lateness := lateness } := by
  simp only [scheduleEvent] at hnext
  split at hnext
  · split at hnext
    · obtain ⟨rfl, rfl⟩ := by simpa using hnext
      exact ⟨rfl, _, _, _, _, rfl⟩
    · split at hnext
      · cases hnext
      · split at hnext <;> obtain ⟨rfl, rfl⟩ := by simpa using hnext
        · exact ⟨rfl, _, _, _, _, rfl⟩
        · exact ⟨rfl, _, _, _, _, rfl⟩
  · obtain ⟨rfl, rfl⟩ := by simpa using hnext
    exact ⟨rfl, _, _, _, _, rfl⟩

/-- A new event joins the queue and the records. -/
theorem Consistent.insert (hinv : Consistent scheduler)
    (hid : event.id = scheduler.scheduled.length) :
    Consistent { scheduler with
      events := scheduler.events.orderedInsert (fun first second ↦
        first.scheduledTime < second.scheduledTime) event
      valid := event.id :: scheduler.valid
      scheduled := scheduler.scheduled ++ [event]
      eventIds := scheduler.eventIds ++ [some event.id] } := by
  have hperm := scheduler.events.perm_orderedInsert (fun first second ↦
    first.scheduledTime < second.scheduledTime) event
  have hlookup {id : ℕ} {info : EventInfo} (h : scheduler.scheduled[id]? = some info) :
      (scheduler.scheduled ++ [event])[id]? = some info := by
    rw [List.getElem?_append_left (List.getElem?_eq_some_iff.mp h).1, h]
  refine ⟨?_, ?_, pairwise_orderedInsert hinv.sorted, ?_, ?_, hinv.clock, ?_⟩
  · have hcons := ((hperm.map EventInfo.id).append_right (scheduler.executed.map fun execution ↦
      execution.event.id)).append_right scheduler.cancelled |>.append_right scheduler.dropped
    calc
      List.Perm _ (event.id :: (scheduler.events.map EventInfo.id ++ (scheduler.executed.map
          fun execution ↦ execution.event.id) ++ scheduler.cancelled ++ scheduler.dropped)) := hcons
      List.Perm _ (event.id :: List.range scheduler.scheduled.length) := hinv.partition.cons _
      List.Perm _ (List.range scheduler.scheduled.length ++ [event.id]) :=
        (List.perm_append_singleton _ _).symm
      _ = List.range (scheduler.scheduled ++ [event]).length := by
        rw [hid, List.length_append, List.length_singleton, List.range_succ]
  · intro id
    simp only [(hperm.map EventInfo.id).mem_iff, List.map_cons, List.mem_cons, hinv.valid id,
      or_assoc]
  · intro info hmem
    rcases (List.mem_orderedInsert _).mp hmem with rfl | hold
    · simp [hid]
    · exact hlookup (hinv.queued info hold)
  · intro execution hmem
    obtain ⟨hinfo, hdue⟩ := hinv.executed execution hmem
    exact ⟨hlookup hinfo, hdue⟩
  · simp [hinv.issued, List.range_succ, hid]

variable {id : ℕ}

theorem mem_of_deref (hfound : scheduler.deref id = some event) :
    event ∈ scheduler.events ∧ event.id = id := by
  unfold deref at hfound
  exact ⟨List.mem_of_find?_eq_some hfound, by simpa using List.find?_some hfound⟩

/-- An iterator that can be used splits the queue at its event. -/
theorem eraseP_of_deref (hqueued : (scheduler.deref id).isNone = false) :
    ∃ before event after, scheduler.events = before ++ event :: after ∧ event.id = id ∧
      scheduler.events.eraseP (fun info ↦ info.id == id) = before ++ after := by
  cases hfound : scheduler.deref id with
  | none => simp [hfound] at hqueued
  | some event =>
    obtain ⟨hmem, hid⟩ := mem_of_deref hfound
    obtain ⟨first, before, after, -, hfirst, hsplit, herased⟩ :=
      @List.exists_of_eraseP _ (fun info ↦ info.id == id) _ _ hmem (by simpa using hid)
    exact ⟨before, first, after, hsplit, by simpa using hfirst, herased⟩

theorem Consistent.eraseEvent (hinv : Consistent scheduler)
    (hqueued : (scheduler.deref id).isNone = false) : Consistent (scheduler.eraseEvent id) := by
  obtain ⟨before, event, after, hsplit, rfl, herased⟩ := eraseP_of_deref hqueued
  have hnodup := hinv.nodup
  have hvalid := hinv.valid
  have hpartition := hinv.partition
  rw [hsplit] at hnodup hvalid hpartition
  refine ⟨?_, ?_, ?_, ?_, hinv.executed, hinv.clock, hinv.issued⟩
  · refine List.perm_iff_count.mpr fun other ↦ ?_
    have hcount := hpartition.count_eq other
    simp only [Scheduler.eraseEvent, herased, List.map_append, List.map_cons, List.count_append,
      List.count_cons, List.count_nil] at hcount ⊢
    omega
  · intro other
    simp only [Scheduler.eraseEvent, herased, List.mem_filter, hvalid, bne_iff_ne]
    simp only [List.map_append, List.map_cons, List.append_assoc, List.cons_append,
      List.nodup_append, List.nodup_cons] at hnodup
    grind
  · exact hinv.sorted.sublist List.eraseP_sublist
  · exact fun info hmem ↦ hinv.queued info (List.mem_of_mem_eraseP hmem)

/-- What `cancelEvent` can do. -/
theorem cancelEvent_cases (hnext : scheduler.cancelEvent eventId = some next) :
    next = scheduler ∨
    ∃ id, (scheduler.deref id).isNone = false ∧
      (scheduler.scheduledEvent ≠ some id ∧ next = scheduler.eraseEvent id ∨
        scheduler.scheduledEvent = some id ∧
          (scheduler.isEventExecuting = true ∧ next = scheduler.cancelTimer.eraseEvent id ∨
            scheduler.isEventExecuting = false ∧
              next = (scheduler.cancelTimer.eraseEvent id).rearm)) := by
  cases eventId with
  | none => exact .inl (Option.some.inj hnext).symm
  | some id =>
    simp only [Scheduler.cancelEvent] at hnext
    by_cases hvalid : id ∉ scheduler.valid
    · rw [if_pos hvalid] at hnext
      exact .inl (Option.some.inj hnext).symm
    rw [if_neg hvalid] at hnext
    cases hdangling : (scheduler.deref id).isNone with
    | true => simp [hdangling] at hnext
    | false =>
      refine .inr ⟨id, hdangling, ?_⟩
      rw [if_neg (by simp [hdangling])] at hnext
      by_cases hother : scheduler.scheduledEvent = some id
      · rw [if_neg (by simp [hother])] at hnext
        refine .inr ⟨hother, ?_⟩
        cases hexecuting : scheduler.isEventExecuting <;>
          simpa [eraseEvent, cancelTimer, hexecuting, eq_comm] using hnext
      · rw [if_pos hother] at hnext
        exact .inl ⟨hother, (Option.some.inj hnext).symm⟩

section

variable (hinv : Consistent scheduler)
include hinv

theorem Consistent.rearm : Consistent scheduler.rearm := by
  unfold Scheduler.rearm
  split <;> exact hinv.frame hinv.clock

theorem Consistent.cancelEvent (hnext : scheduler.cancelEvent eventId = some next) :
    Consistent next := by
  rcases cancelEvent_cases hnext with rfl | ⟨id, hqueued, ⟨-, rfl⟩ | ⟨-, hnext'⟩⟩
  · exact hinv
  · exact hinv.eraseEvent hqueued
  · have hcancelled : Consistent scheduler.cancelTimer := hinv.frame hinv.clock
    have herased : Consistent (scheduler.cancelTimer.eraseEvent id) := hcancelled.eraseEvent hqueued
    rcases hnext' with ⟨-, rfl⟩ | ⟨-, rfl⟩
    · exact herased
    · exact herased.rearm

theorem Consistent.cancelAllEvents : Consistent scheduler.cancelAllEvents := by
  refine ⟨?_, ?_, by simp [Scheduler.cancelAllEvents], by simp [Scheduler.cancelAllEvents],
    hinv.executed, hinv.clock, hinv.issued⟩
  · refine List.perm_iff_count.mpr fun other ↦ ?_
    have hcount := hinv.partition.count_eq other
    simp only [Scheduler.cancelAllEvents, List.map_nil, List.count_append, List.count_nil]
      at hcount ⊢
    omega
  · intro other
    simp only [Scheduler.cancelAllEvents, hinv.valid other, List.map_nil, List.not_mem_nil,
      false_or, List.mem_append]
    tauto

/-- The head of the queue leaves it for the executed events, at a time it has reached. -/
theorem Consistent.processExpired {now : ℤ} (hnow : now ≤ scheduler.clock) :
    Consistent (scheduler.processExpired now) := by
  unfold Scheduler.processExpired
  split
  · exact hinv.frame (by simp)
  · next head rest hevents =>
    have hnodup := hinv.nodup
    have hpartition := hinv.partition
    have hvalid := hinv.valid
    have hsorted := hinv.sorted
    have hqueued := hinv.queued
    rw [hevents] at hnodup hpartition hvalid hsorted hqueued
    split_ifs with hdue
    · refine ⟨?_, ?_, (List.pairwise_cons.mp hsorted).2, ?_, ?_, by simpa using hnow, hinv.issued⟩
      · refine List.perm_iff_count.mpr fun other ↦ ?_
        have hcount := hpartition.count_eq other
        simp only [List.map_append, List.map_cons, List.map_nil, List.count_append, List.count_cons,
          List.count_nil] at hcount ⊢
        omega
      · intro other
        simp only [List.mem_filter, hvalid, bne_iff_ne]
        simp only [List.map_cons, List.append_assoc, List.cons_append, List.nodup_cons,
          List.mem_append] at hnodup
        grind
      · exact fun info hmem ↦ hqueued info (List.mem_cons_of_mem head hmem)
      · intro execution hmem
        rcases List.mem_append.mp hmem with hold | hnew
        · exact hinv.executed execution hold
        · obtain rfl := List.mem_singleton.mp hnew
          exact ⟨hqueued head (by simp), hdue.trans hnow⟩
    · exact hinv.frame (by simp)

theorem consistent_step {event : Event} (hstep : scheduler.step event = some next) :
    Consistent next := by
  cases event with
  | scheduleEvent after =>
    obtain ⟨⟨inserted, eventId⟩, hscheduled, rfl⟩ := Option.map_eq_some_iff.mp hstep
    obtain ⟨rfl, _, _, _, _, rfl⟩ := scheduleEvent_cases hscheduled
    exact (hinv.insert rfl).frame hinv.clock
  | cancelEvent eventId => exact hinv.cancelEvent hstep
  | cancelAllEvents =>
    obtain rfl := Option.some.inj hstep
    exact hinv.cancelAllEvents
  | advance elapsed =>
    obtain rfl := Option.some.inj hstep
    refine hinv.frame fun now hnow ↦ ?_
    have hreached := hinv.clock now hnow
    omega
  | expire =>
    simp only [step] at hstep
    split_ifs at hstep
    obtain rfl := Option.some.inj hstep
    exact hinv.frame hinv.clock
  | dispatch =>
    simp only [step] at hstep
    split_ifs at hstep
    obtain rfl := Option.some.inj hstep
    refine Consistent.processExpired ?_ le_rfl
    exact hinv.frame hinv.clock
  | callbackReturn =>
    simp only [step] at hstep
    split at hstep
    · cases hstep
    · next now huntil =>
      obtain rfl := Option.some.inj hstep
      exact hinv.processExpired (hinv.clock now huntil)
  | callbackThrow =>
    simp only [step] at hstep
    split at hstep
    · cases hstep
    · obtain rfl := Option.some.inj hstep
      exact hinv.frame (by simp)

end

end Accounting

/-! ## The timer -/

/-- The timer is set for an event: `m_scheduledEvent` designates it, a wait is pending or has
completed and is about to be handled, and it does not end early. It ends when the event is due,
later by the time that callbacks took before the timer was set, or at once for an event that was
overdue. -/
structure IsArmedFor (scheduler : Scheduler) (event : EventInfo) : Prop where
  designated : scheduler.scheduledEvent = some event.id
  waits : scheduler.isWaiting = true ∨ 0 < scheduler.nReady
  notEarly : event.scheduledTime ≤ scheduler.expiresAt
  onTime : scheduler.expiresAt = event.scheduledTime + scheduler.lateness ∨
    scheduler.expiresAt ≤ scheduler.clock

/-- While no callback runs, the timer is set for the first event. -/
structure Armed (scheduler : Scheduler) : Prop where
  executing : scheduler.isEventExecuting = scheduler.executingUntil.isSome
  first : scheduler.executingUntil = none →
    ∀ head ∈ scheduler.events.head?, scheduler.IsArmedFor head

section Timer

variable {scheduler next : Scheduler}

/-- The queue and the records do not matter to a timer that has been set. -/
theorem IsArmedFor.frame {events scheduled : List EventInfo} {eventIds : List EventId}
    {valid cancelled dropped : List ℕ} {executed : List Execution}
    (harmed : scheduler.IsArmedFor event) :
    IsArmedFor { scheduler with
      events := events
      isEventExecuting := isEventExecuting
      valid := valid
      executingUntil := executingUntil
      eventIds := eventIds
      scheduled := scheduled
      executed := executed
      cancelled := cancelled
      dropped := dropped } event :=
  ⟨harmed.designated, harmed.waits, harmed.notEarly, harmed.onTime⟩

theorem isArmedFor_arm {lateness : ℤ} (hafter : event.scheduledTime ≤ scheduler.clock + after)
    (hexact : scheduler.clock + after = event.scheduledTime + lateness ∨ after ≤ 0) :
    (scheduler.arm event after lateness).IsArmedFor event := by
  refine ⟨rfl, .inl rfl, hafter, hexact.imp id fun hoverdue ↦ ?_⟩
  simp only [arm]
  omega

theorem Armed.scheduleEvent (hinv : Armed scheduler)
    (hnext : scheduler.scheduleEvent after = some (next, eventId)) : Armed next := by
  have hnow {inserted : Scheduler} (hclock : inserted.clock = scheduler.clock) :
      (inserted.arm ⟨scheduler.scheduled.length, scheduler.clock + after⟩ after 0).IsArmedFor
        ⟨scheduler.scheduled.length, scheduler.clock + after⟩ :=
    isArmedFor_arm (by simp [hclock]) (.inl (by simp [hclock]))
  simp only [Scheduler.scheduleEvent] at hnext
  cases hexecuting : scheduler.isEventExecuting with
  | true =>
    obtain ⟨rfl, rfl⟩ : _ ∧ _ := by simpa [hexecuting] using hnext
    have huntil := hinv.executing
    rw [hexecuting] at huntil
    refine ⟨huntil, fun hidle ↦ ?_⟩
    simp only at hidle
    simp [hidle] at huntil
  | false =>
    have hidle : scheduler.executingUntil = none := by
      have huntil := hinv.executing
      simpa [hexecuting] using huntil
    simp only [hexecuting, Bool.not_false, if_true] at hnext
    cases hscheduled : scheduler.scheduledEvent with
    | none =>
      -- nothing is designated, so nothing was queued
      have hempty : scheduler.events = [] := by
        cases hevents : scheduler.events with
        | nil => rfl
        | cons head rest =>
          have hdesignated := (hinv.first hidle head (by simp [hevents])).designated
          simp [hscheduled] at hdesignated
      simp only [hscheduled] at hnext
      obtain ⟨rfl, rfl⟩ : _ ∧ _ := by simpa using hnext
      refine ⟨by simp [arm, hidle], fun _ head hhead ↦ ?_⟩
      obtain rfl : _ = head := by simpa [arm, hempty] using hhead
      exact hnow rfl
    | some iterator =>
      simp only [hscheduled] at hnext
      cases hcurrent : scheduler.deref iterator with
      | none => simp [hcurrent] at hnext
      | some current =>
        -- the designated event is the first one
        obtain ⟨rest, hevents⟩ : ∃ rest, scheduler.events = current :: rest := by
          have hmem := (mem_of_deref hcurrent).1
          cases hevents : scheduler.events with
          | nil => simp [hevents] at hmem
          | cons head rest =>
            have hdesignated := (hinv.first hidle head (by simp [hevents])).designated
            obtain rfl : iterator = head.id := by simpa [hscheduled] using hdesignated
            obtain rfl : head = current := by simpa [deref, hevents] using hcurrent
            exact ⟨rest, rfl⟩
        have harmed := hinv.first hidle current (by simp [hevents])
        simp only [hcurrent] at hnext
        split_ifs at hnext with hbefore
        · obtain ⟨rfl, rfl⟩ : _ ∧ _ := by simpa using hnext
          refine ⟨by simp [arm, hidle], fun _ head hhead ↦ ?_⟩
          obtain rfl : _ = head := by simpa [arm, hevents, hbefore] using hhead
          exact hnow rfl
        · obtain ⟨rfl, rfl⟩ : _ ∧ _ := by simpa using hnext
          refine ⟨by simp [hidle], fun _ head hhead ↦ ?_⟩
          obtain rfl : current = head := by simpa [hevents, hbefore] using hhead
          exact hscheduled ▸ harmed.frame

theorem armed_rearm (hexecuting : scheduler.isEventExecuting = scheduler.executingUntil.isSome) :
    Armed scheduler.rearm := by
  unfold rearm
  split
  · next hevents => exact ⟨hexecuting, by simp [hevents]⟩
  · next first rest hevents =>
    refine ⟨hexecuting, fun _ head hhead ↦ ?_⟩
    obtain rfl : first = head := by simpa [arm, hevents] using hhead
    unfold expiresFromNow
    split_ifs with hoverdue
    · exact isArmedFor_arm (by omega) (.inr le_rfl)
    · exact isArmedFor_arm (by omega) (.inl (by omega))

theorem Armed.cancelEvent (hinv : Armed scheduler)
    (hnext : scheduler.cancelEvent eventId = some next) : Armed next := by
  rcases cancelEvent_cases hnext with
    rfl | ⟨id, -, ⟨hother, rfl⟩ | ⟨-, ⟨hexecuting, rfl⟩ | ⟨-, rfl⟩⟩⟩
  · exact hinv
  · refine ⟨hinv.executing, fun hidle head hhead ↦ ?_⟩
    -- another event than the designated one goes, so the first one stays
    cases hevents : scheduler.events with
    | nil => simp [eraseEvent, hevents] at hhead
    | cons first rest =>
      have harmed := hinv.first hidle first (by simp [hevents])
      have hkept : (first.id == id) = false := by
        rw [beq_eq_false_iff_ne]
        rintro rfl
        exact hother harmed.designated
      obtain rfl : first = head := by simpa [eraseEvent, hevents, hkept] using hhead
      exact harmed.frame
  · have huntil := hinv.executing
    refine ⟨huntil, fun hidle ↦ ?_⟩
    simp only [eraseEvent, cancelTimer] at hidle
    simp [hexecuting, hidle] at huntil
  · exact armed_rearm hinv.executing

theorem armed_processExpired {now : ℤ} (hexecuting : scheduler.isEventExecuting = true)
    (hnow : now ≤ scheduler.clock) : Armed (scheduler.processExpired now) := by
  unfold processExpired
  split
  · next hevents => exact ⟨rfl, by simp [hevents]⟩
  · next first rest hevents =>
    split_ifs with hdue
    · exact ⟨by simp [hexecuting], by simp⟩
    · refine ⟨rfl, fun _ head hhead ↦ ?_⟩
      obtain rfl : first = head := by simpa [arm, hevents] using hhead
      have harmed : (scheduler.arm first (first.scheduledTime - now)
          (scheduler.clock - now)).IsArmedFor first :=
        isArmedFor_arm (by omega) (.inl (by omega))
      exact harmed.frame

theorem armed_step {event : Event} (hconsistent : Consistent scheduler) (hinv : Armed scheduler)
    (hreturns : event ≠ .callbackThrow) (hstep : scheduler.step event = some next) :
    Armed next := by
  cases event with
  | scheduleEvent after =>
    obtain ⟨⟨inserted, eventId⟩, hscheduled, rfl⟩ := Option.map_eq_some_iff.mp hstep
    have harmed := hinv.scheduleEvent hscheduled
    refine ⟨harmed.executing, fun hidle head hhead ↦ ?_⟩
    exact (harmed.first hidle head hhead).frame
  | cancelEvent eventId => exact hinv.cancelEvent hstep
  | cancelAllEvents =>
    obtain rfl := Option.some.inj hstep
    exact ⟨hinv.executing, by simp [Scheduler.cancelAllEvents]⟩
  | advance elapsed =>
    obtain rfl := Option.some.inj hstep
    refine ⟨hinv.executing, fun hidle head hhead ↦ ?_⟩
    have hfirst := hinv.first hidle head hhead
    refine ⟨hfirst.designated, hfirst.waits, hfirst.notEarly, hfirst.onTime.imp id fun h ↦ ?_⟩
    simp only
    omega
  | expire =>
    simp only [step] at hstep
    split_ifs at hstep
    obtain rfl := Option.some.inj hstep
    refine ⟨hinv.executing, fun hidle head hhead ↦ ?_⟩
    have hfirst := hinv.first hidle head hhead
    exact ⟨hfirst.designated, .inr (Nat.succ_pos _), hfirst.notEarly, hfirst.onTime⟩
  | dispatch =>
    simp only [step] at hstep
    split_ifs at hstep
    obtain rfl := Option.some.inj hstep
    exact armed_processExpired rfl le_rfl
  | callbackReturn =>
    simp only [step] at hstep
    split at hstep
    · cases hstep
    · next now huntil =>
      obtain rfl := Option.some.inj hstep
      have hexecuting : scheduler.isEventExecuting = true := by simp [hinv.executing, huntil]
      exact armed_processExpired hexecuting (hconsistent.clock now huntil)
  | callbackThrow => exact absurd rfl hreturns

end Timer

/-! ## Runs -/

theorem consistent_initial : Consistent initial :=
  ⟨by simp [initial], by simp [initial], by simp [initial], by simp [initial], by simp [initial],
    by simp [initial], by simp [initial]⟩

theorem armed_initial : Armed initial := ⟨rfl, by simp [initial]⟩

/-- After every run: if no callback has thrown, then whenever none is running the timer is set for
the earliest event of the queue. Every `EventId` returned is non-null, and its event is queued
exactly while it is valid, unless `cancelAllEvents` dropped the event. Every callback was invoked at
most once, not before its event was due, and not for an event that was cancelled or dropped. -/
theorem callbacks_run_once_of_run (events : List Event) (scheduler : Scheduler)
    (hrun : run step initial events = some scheduler) :
    (.callbackThrow ∉ events → scheduler.executingUntil = none →
      ∀ first rest, scheduler.events = first :: rest →
        scheduler.IsArmedFor first ∧ ∀ other ∈ rest, first.scheduledTime ≤ other.scheduledTime) ∧
    (∀ eventId ∈ scheduler.eventIds, ∃ id, eventId = some id ∧
      (id ∉ scheduler.dropped → (id ∈ scheduler.valid ↔ id ∈ scheduler.events.map EventInfo.id))) ∧
    (scheduler.executed.map fun execution ↦ execution.event.id).Nodup ∧
    (∀ execution ∈ scheduler.executed, scheduler.scheduled[execution.event.id]? =
      some execution.event ∧ execution.event.scheduledTime ≤ execution.time ∧
      execution.event.id ∉ scheduler.cancelled ∧ execution.event.id ∉ scheduler.dropped) := by
  obtain ⟨hinv, harmed⟩ : Consistent scheduler ∧ (.callbackThrow ∉ events → Armed scheduler) := by
    refine invariant_of_run
      (fun past state ↦ Consistent state ∧ (.callbackThrow ∉ past → Armed state)) ?_
      ⟨consistent_initial, fun _ ↦ armed_initial⟩ hrun
    rintro past state event next ⟨hinv, harmed⟩ hstep
    refine ⟨consistent_step hinv hstep, fun hreturns ↦ ?_⟩
    simp only [List.mem_append, List.mem_singleton, not_or] at hreturns
    exact armed_step hinv (harmed hreturns.1) (Ne.symm hreturns.2) hstep
  have hnodup := hinv.nodup
  simp only [List.nodup_append, List.mem_append] at hnodup
  refine ⟨?_, ?_, hnodup.1.1.2.1, ?_⟩
  · intro hreturns hidle first rest hevents
    refine ⟨(harmed hreturns).first hidle first (by simp [hevents]), ?_⟩
    have hsorted := hinv.sorted
    rw [hevents] at hsorted
    exact (List.pairwise_cons.mp hsorted).1
  · intro eventId hmem
    obtain ⟨id, -, rfl⟩ := List.mem_map.mp (hinv.issued ▸ hmem)
    exact ⟨id, rfl, fun hkept ↦ by rw [hinv.valid, or_iff_left hkept]⟩
  · intro execution hmem
    obtain ⟨hinfo, hdue⟩ := hinv.executed execution hmem
    have hid : execution.event.id ∈ scheduler.executed.map fun execution ↦ execution.event.id :=
      List.mem_map_of_mem hmem
    exact ⟨hinfo, hdue, fun h ↦ hnodup.1.2.2 _ (.inr hid) _ h rfl,
      fun h ↦ hnodup.2.2 _ (.inl (.inr hid)) _ h rfl⟩

/-- A callback that schedules and cancels events, and an event scheduled afterwards. -/
theorem callbacks_run_once_reentrant :
    ∃ scheduler, run step initial
      [.scheduleEvent 5, .scheduleEvent 3, .scheduleEvent 4, .cancelEvent (some 1), .advance 4,
        .expire, .dispatch, .scheduleEvent 0, .cancelEvent (some 0), .callbackReturn,
        .callbackReturn, .scheduleEvent 7] = some scheduler ∧
      scheduler.IsArmedFor ⟨4, 11⟩ ∧ scheduler.executed = [⟨⟨2, 4⟩, 4⟩, ⟨⟨3, 4⟩, 4⟩] ∧
      (scheduler.executed.map fun execution ↦ execution.event.id).Nodup := by
  refine ⟨_, rfl, ?_⟩
  have hspec := callbacks_run_once_of_run
    [.scheduleEvent 5, .scheduleEvent 3, .scheduleEvent 4, .cancelEvent (some 1), .advance 4,
      .expire, .dispatch, .scheduleEvent 0, .cancelEvent (some 0), .callbackReturn, .callbackReturn,
      .scheduleEvent 7] _ rfl
  exact ⟨(hspec.1 (by decide) rfl ⟨4, 11⟩ [] rfl).1, rfl, hspec.2.2.1⟩

/-- The `EventId` of an executed event is still non-null. -/
theorem eventId_nonnull_after_execution :
    ∃ scheduler, run step initial
      [.scheduleEvent 5, .advance 5, .expire, .dispatch, .callbackReturn] = some scheduler ∧
      ¬ ∀ eventId ∈ scheduler.eventIds, (eventId.isSome = true ↔
        ∃ event ∈ scheduler.events, eventId = some event.id) :=
  ⟨_, rfl, by decide⟩

end NdnCxx.Scheduler
