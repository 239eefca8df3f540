import NdnCxx.Transport.StreamTransport

/-!
# Transmission of queued blocks

A write is started by `connectHandler`, by `send` when the queue holds just the new element, and by
the completion of the write before it; none is started when a write is aborted. `pause` aborts the
outstanding write together with the receive. So the queue keeps moving exactly as long as `pause`
takes effect only with an empty transmission queue.
-/

namespace NdnCxx.StreamTransport

open Run

def sent : List Event → List (List Block)
  | [] => []
  | .send wire :: events => [wire] :: sent events
  | .sendTwo header payload :: events => [header, payload] :: sent events
  | _ :: events => sent events

theorem sent_append (first second : List Event) :
    sent (first ++ second) = sent first ++ sent second := by
  induction first with
  | nil => rfl
  | cons event events ih => cases event <;> simp [sent, ih]

/-- `pause` takes effect only when nothing waits for transmission. -/
def PausesWhenDrained (transport : StreamTransport) (event : Event) : Prop :=
  event = .pause → transport.isEffective .pause = true → transport.transmissionQueue = []

instance (transport : StreamTransport) (event : Event) :
    Decidable (transport.PausesWhenDrained event) :=
  inferInstanceAs (Decidable (_ → _ → _))

/-! ## The invariant -/

/-- The writes that should be outstanding: one for the front of a connected transport's queue. -/
def frontWrites (transport : StreamTransport) : List ℕ :=
  if transport.isConnected then (transport.transmissionQueue.head?.map QueueItem.id).toList else []

/-- Queue, socket and history agree. -/
structure Transmits (past : List Event) (transport : StreamTransport) : Prop where
  connected : transport.isConnected = !transport.connectionInProgress
  outstanding : transport.writes = transport.frontWrites
  history : transport.written ++ transport.transmissionQueue.map QueueItem.sequence = sent past
  distinct : (transport.transmissionQueue.map QueueItem.id).Nodup
  fresh : ∀ item ∈ transport.transmissionQueue, item.id < transport.nextId

section Invariant

variable {past : List Event} {transport next : StreamTransport} {event : Event}

/-- Transmission does not depend on the receiving side. -/
theorem Transmits.frame {isExpectingData isReceiving : Bool} {inputBuffer : Bytes}
    {received : List Block} (hinv : Transmits past transport) (hsent : sent [event] = []) :
    Transmits (past ++ [event]) { transport with
      isExpectingData := isExpectingData
      inputBuffer := inputBuffer
      isReceiving := isReceiving
      received := received } := by
  refine ⟨hinv.connected, hinv.outstanding, ?_, hinv.distinct, hinv.fresh⟩
  rw [hinv.history, sent_append, hsent, List.append_nil]

/-- The queue's elements are distinct, so erasing the first one leaves the others. -/
theorem filter_ne_of_nodup {item : QueueItem} {others : List QueueItem}
    (hdistinct : ((item :: others).map QueueItem.id).Nodup) :
    (item :: others).filter (fun other ↦ other.id != item.id) = others ∧
      (item :: others).filter (fun other ↦ other.id == item.id) = [item] := by
  have hother (other : QueueItem) (h : other ∈ others) : other.id ≠ item.id := by
    intro heq
    simp only [List.map_cons, List.nodup_cons] at hdistinct
    exact hdistinct.1 (heq ▸ List.mem_map_of_mem h)
  constructor
  · simpa using hother
  · simpa using hother

section

variable (hinv : Transmits past transport)
include hinv

/-- Sending: the new element is the front only if the queue was empty, and then its write starts. -/
theorem Transmits.sendSequence {sequence : List Block} (hsent : sent [event] = [sequence]) :
    Transmits (past ++ [event]) (transport.sendSequence sequence) := by
  have hhistory : transport.written ++
      (transport.transmissionQueue ++ [QueueItem.mk transport.nextId sequence]).map
        QueueItem.sequence = sent (past ++ [event]) := by
    rw [sent_append, hsent, ← hinv.history]
    simp
  have hdistinct : ((transport.transmissionQueue ++ [QueueItem.mk transport.nextId sequence]).map
      QueueItem.id).Nodup := by
    rw [List.map_append, List.nodup_append]
    refine ⟨hinv.distinct, by simp, ?_⟩
    rintro _ hid _ hnew rfl
    obtain ⟨item, hitem, rfl⟩ := List.mem_map.mp hid
    have hless := hinv.fresh item hitem
    simp only [List.map_cons, List.map_nil, List.mem_singleton] at hnew
    omega
  have hfresh : ∀ item ∈ transport.transmissionQueue ++ [QueueItem.mk transport.nextId sequence],
      item.id < transport.nextId + 1 := by
    intro item hitem
    rcases List.mem_append.mp hitem with hold | hnew
    · exact Nat.lt_succ_of_lt (hinv.fresh item hold)
    · simp [List.mem_singleton.mp hnew]
  have houtstanding := hinv.outstanding
  unfold StreamTransport.sendSequence
  simp only
  split_ifs with hstart
  · rw [asyncWrite_eq]
    refine ⟨hinv.connected, ?_, hhistory, hdistinct, hfresh⟩
    have hempty : transport.transmissionQueue = [] := by
      simpa using (Bool.and_eq_true_iff.mp hstart).2
    simp [frontWrites, hempty] at houtstanding ⊢
    simp [houtstanding, (Bool.and_eq_true_iff.mp hstart).1]
  · refine ⟨hinv.connected, ?_, hhistory, hdistinct, hfresh⟩
    -- nothing starts: not connected yet, or another element is the front
    rw [houtstanding]
    cases hqueue : transport.transmissionQueue with
    | nil => simpa [frontWrites, hqueue] using hstart
    | cons item others => simp [frontWrites, hqueue]

variable {others : List ℕ} {queueItem : ℕ}

/-- A completed write is that of the front; its element goes, and the next one's write starts. -/
theorem Transmits.handleAsyncWrite (hwrites : transport.writes = queueItem :: others) :
    ∃ item rest, transport.transmissionQueue = item :: rest ∧
      ({ transport with writes := others } : StreamTransport).handleAsyncWrite queueItem =
        { transport with
          transmissionQueue := rest
          writes := (rest.head?.map QueueItem.id).toList
          written := transport.written ++ [item.sequence] } := by
  have hfront : queueItem :: others = transport.frontWrites := hwrites ▸ hinv.outstanding
  rw [frontWrites] at hfront
  split_ifs at hfront with hconnected
  cases hqueue : transport.transmissionQueue with
  | nil => simp [hqueue] at hfront
  | cons item rest =>
    obtain ⟨rfl, rfl⟩ : queueItem = item.id ∧ others = [] := by simpa [hqueue] using hfront
    obtain ⟨hrest, hdone⟩ := filter_ne_of_nodup (hqueue ▸ hinv.distinct)
    refine ⟨item, rest, rfl, ?_⟩
    rw [StreamTransport.handleAsyncWrite]
    simp only [hconnected, hrest, hdone, asyncWrite_eq]
    cases rest <;> simp

theorem Transmits.writeDone (hwrites : transport.writes = queueItem :: others) :
    Transmits (past ++ [.writeDone])
      (({ transport with writes := others } : StreamTransport).handleAsyncWrite queueItem) := by
  obtain ⟨item, rest, hqueue, hnext⟩ := hinv.handleAsyncWrite hwrites
  have hconnected : transport.isConnected = true := by
    by_contra hnot
    have hnone := hinv.outstanding
    simp [frontWrites, hnot, hwrites] at hnone
  have hdistinct := hinv.distinct
  have hfresh := hinv.fresh
  have hhistory := hinv.history
  rw [hqueue] at hdistinct hfresh hhistory
  rw [hnext]
  refine ⟨hinv.connected, by simp [frontWrites, hconnected], ?_, ?_, ?_⟩
  · simpa [sent_append, sent] using hhistory
  · exact (List.nodup_cons.mp hdistinct).2
  · exact fun other hother ↦ hfresh other (List.mem_cons_of_mem item hother)

/-- The connection comes up: the write of what was queued meanwhile starts. -/
theorem Transmits.connectHandler (hconnecting : transport.connectionInProgress = true) :
    Transmits (past ++ [.connected]) transport.connectHandler := by
  have hwrites : transport.writes = [] := by
    simp [hinv.outstanding, frontWrites, hinv.connected, hconnecting]
  have hsame : ∃ isExpectingData inputBuffer isReceiving, transport.connectHandler =
      { transport with
        connectionInProgress := false
        isConnected := true
        isExpectingData := isExpectingData
        inputBuffer := inputBuffer
        isReceiving := isReceiving
        writes := (transport.transmissionQueue.head?.map QueueItem.id).toList } := by
    unfold StreamTransport.connectHandler StreamTransport.resume
    simp only [asyncWrite_eq]
    cases hqueue : transport.transmissionQueue <;> split_ifs <;> simp_all
  obtain ⟨isExpectingData, inputBuffer, isReceiving, hnext⟩ := hsame
  rw [hnext]
  refine ⟨rfl, by simp [frontWrites], ?_, hinv.distinct, hinv.fresh⟩
  simpa [sent_append, sent] using hinv.history

theorem transmits_step (hallowed : transport.PausesWhenDrained event)
    (hstep : transport.step event = some next) : Transmits (past ++ [event]) next := by
  cases event with
  | send wire =>
    obtain rfl : transport.sendSequence [wire] = next := by simpa [step] using hstep
    exact hinv.sendSequence rfl
  | sendTwo header payload =>
    obtain rfl : transport.sendSequence [header, payload] = next := by simpa [step] using hstep
    exact hinv.sendSequence rfl
  | writeDone =>
    simp only [step] at hstep
    split at hstep
    · cases hstep
    · next queueItem others hwrites =>
      obtain rfl := Option.some.inj hstep
      exact hinv.writeDone hwrites
  | pause =>
    obtain rfl : transport.pause = next := by simpa [step] using hstep
    unfold pause
    split_ifs with hconnecting hexpecting
    · exact hinv.frame rfl
    · have hempty : transport.transmissionQueue = [] :=
        hallowed rfl (by simp [isEffective, hconnecting, hexpecting])
      have hidle : transport.writes = [] := by simp [hinv.outstanding, frontWrites, hempty]
      rw [cancel, ← hidle]
      exact hinv.frame rfl
    · exact hinv.frame rfl
  | resume =>
    obtain rfl : transport.resume = next := by simpa [step] using hstep
    unfold resume
    split_ifs <;> exact hinv.frame rfl
  | connected =>
    simp only [step] at hstep
    split_ifs at hstep with hconnecting
    obtain rfl := Option.some.inj hstep
    exact hinv.connectHandler hconnecting
  | receive chunk =>
    simp only [step, handleAsyncReceive] at hstep
    split_ifs at hstep
    obtain rfl := Option.some.inj hstep
    exact hinv.frame rfl

end

theorem transmits_connecting : Transmits [] connecting :=
  ⟨rfl, rfl, rfl, by simp [connecting], by simp [connecting]⟩

/-- Write completions alone drain the queue of a connected transport. -/
theorem Transmits.drains (hinv : Transmits past transport)
    (hconnected : transport.isConnected = true) :
    ∃ finish, run step transport (List.replicate transport.transmissionQueue.length .writeDone) =
      some finish ∧ finish.transmissionQueue = [] ∧ finish.written = sent past := by
  induction hlength : transport.transmissionQueue.length generalizing past transport with
  | zero =>
    have hempty : transport.transmissionQueue = [] := List.length_eq_zero_iff.mp hlength
    exact ⟨transport, rfl, hempty, by simpa [hempty] using hinv.history⟩
  | succ length ih =>
    obtain ⟨item, rest, hqueue⟩ := List.exists_cons_of_length_eq_add_one hlength
    have hwrites : transport.writes = [item.id] := by
      simp [hinv.outstanding, frontWrites, hconnected, hqueue]
    obtain ⟨item', rest', hqueue', hnext⟩ := hinv.handleAsyncWrite hwrites
    obtain ⟨rfl, rfl⟩ : item = item' ∧ rest = rest' := by simpa [hqueue] using hqueue'
    have hinv' := hinv.writeDone hwrites
    obtain ⟨finish, hrun, hempty, hwritten⟩ := ih hinv' (by rw [hnext]; exact hconnected)
      (by rw [hnext]; simpa [hqueue] using hlength)
    refine ⟨finish, ?_, hempty, by simpa [sent_append, sent] using hwritten⟩
    rw [List.replicate_succ, run_cons_eq_some]
    exact ⟨_, by simp [step, hwrites], hrun⟩

end Invariant

/-! ## Runs -/

/-- In every run in which `pause` takes effect only with an empty queue: a connected transport with
a non-empty queue has exactly one outstanding write, for the front of the queue; what has been
written and what is queued are together the sequences sent, in order and each once; and the
completions of the writes lead to all of them being written. -/
theorem written_eq_of_pausesWhenDrained (events : List Event) (transport : StreamTransport)
    (hrun : run step connecting events = some transport)
    (hguarded : Guarded step PausesWhenDrained connecting events) :
    (∀ item rest, transport.isConnected = true → transport.transmissionQueue = item :: rest →
      transport.writes = [item.id]) ∧
    transport.written ++ transport.transmissionQueue.map QueueItem.sequence = sent events ∧
    (transport.isConnected = true →
      ∃ finish, run step transport (List.replicate transport.transmissionQueue.length .writeDone) =
        some finish ∧ finish.transmissionQueue = [] ∧ finish.written = sent events) := by
  have hinv : Transmits events transport :=
    invariant_of_guarded Transmits
      (fun _ _ _ _ hinv hallowed hstep ↦ transmits_step hinv hallowed hstep)
      transmits_connecting hguarded hrun
  refine ⟨fun item rest hconnected hqueue ↦ ?_, hinv.history, hinv.drains⟩
  simp [hinv.outstanding, frontWrites, hconnected, hqueue]

/-- Two sends, the first before the connection is there, and a pause after both were written. -/
theorem written_eq_of_pause_after_writes :
    ∃ transport, run step connecting
      [.send ⟨5, [0], [5, 1, 0]⟩, .connected, .sendTwo ⟨80, [], [80, 0]⟩ ⟨6, [], [6, 0]⟩,
        .writeDone, .writeDone, .pause, .resume, .send ⟨6, [], [6, 0]⟩] = some transport ∧
      transport.writes = [2] ∧
      transport.written = [[⟨5, [0], [5, 1, 0]⟩], [⟨80, [], [80, 0]⟩, ⟨6, [], [6, 0]⟩]] := by
  refine ⟨_, rfl, ?_⟩
  have hmain := written_eq_of_pausesWhenDrained
    [.send ⟨5, [0], [5, 1, 0]⟩, .connected, .sendTwo ⟨80, [], [80, 0]⟩ ⟨6, [], [6, 0]⟩, .writeDone,
      .writeDone, .pause, .resume, .send ⟨6, [], [6, 0]⟩] _ rfl (by decide)
  exact ⟨hmain.1 _ _ rfl rfl, List.append_cancel_right hmain.2.1⟩

/-- A pause during a write: the transport stays connected with a non-empty queue and no write, and
later sends start none. -/
theorem stalls_of_pause_during_write :
    ∃ transport, run step connecting
      [.connected, .send ⟨5, [0], [5, 1, 0]⟩, .pause, .resume, .send ⟨6, [], [6, 0]⟩] =
        some transport ∧
      transport.isConnected = true ∧
      transport.transmissionQueue = [⟨0, [⟨5, [0], [5, 1, 0]⟩]⟩, ⟨1, [⟨6, [], [6, 0]⟩]⟩] ∧
      transport.writes = [] ∧ transport.written = [] :=
  ⟨_, rfl, rfl, rfl, rfl, rfl⟩

end NdnCxx.StreamTransport
