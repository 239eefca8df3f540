import NdnCxx.Transport.StreamTransport

/-!
# Reassembly of blocks from a byte stream

The blocks handed to the receive callback, for every cut of the stream into chunks and every
interleaving with the other events. `resume` starts the input buffer afresh, so it must not take
effect while a block has arrived in part: then the rest of that block is read as if it began a
block. Runs in which every effective `resume` finds an empty input buffer deliver exactly the blocks
sent.
-/

namespace NdnCxx.StreamTransport

open Run

def wires (blocks : List Block) : Bytes := blocks.flatMap Block.wire

def arrived : List Event → Bytes
  | [] => []
  | .receive chunk :: events => chunk ++ arrived events
  | _ :: events => arrived events

theorem arrived_append (first second : List Event) :
    arrived (first ++ second) = arrived first ++ arrived second := by
  induction first with
  | nil => rfl
  | cons event events ih => cases event <;> simp [arrived, ih]

/-- `resume` takes effect only between two blocks. -/
def ResumesAtBoundary (transport : StreamTransport) (event : Event) : Prop :=
  event = .resume → transport.isEffective .resume = true → transport.inputBuffer = []

instance (transport : StreamTransport) (event : Event) :
    Decidable (transport.ResumesAtBoundary event) :=
  inferInstanceAs (Decidable (_ → _ → _))

/-! ## One pass over the buffer -/

/-- `remaining` is the beginning of the blocks still to come, and does not complete the next one. -/
structure IsPartial (remaining : Bytes) (rest : List Block) : Prop where
  isPrefix : remaining <+: wires rest
  incomplete : ∀ next ∈ rest.head?, remaining.length < next.wire.length

/-- From any initial part of a stream, `processAll` takes the complete blocks. -/
theorem processAll_of_isPrefix {blocks : List Block} (hwires : ∀ block ∈ blocks, block.IsWire)
    {buffer : Bytes} (hbuffer : buffer <+: wires blocks) {rounds : ℕ}
    (hrounds : buffer.length ≤ rounds) :
    ∃ complete rest remaining, blocks = complete ++ rest ∧
      processAll rounds buffer = (complete, remaining) ∧
      buffer = wires complete ++ remaining ∧ IsPartial remaining rest := by
  induction blocks generalizing buffer rounds with
  | nil =>
    obtain rfl : buffer = [] := by simpa [wires] using hbuffer
    refine ⟨[], [], [], rfl, ?_, rfl, ⟨by simp [wires], by simp⟩⟩
    cases rounds <;> simp [processAll]
  | cons block others ih =>
    have hwire : block.IsWire := hwires block (by simp)
    have hsplit : wires (block :: others) = block.wire ++ wires others := by simp [wires]
    by_cases hcomplete : block.wire.length ≤ buffer.length
    · -- the first block is there: one round, then the induction hypothesis on what follows
      obtain ⟨tail, rfl⟩ : block.wire <+: buffer :=
        List.prefix_of_prefix_length_le (by simp [hsplit]) hbuffer hcomplete
      have htail : tail <+: wires others := by simpa [hsplit] using hbuffer
      have hpositive : 0 < block.wire.length := List.length_pos_iff.mpr hwire.wire_ne_nil
      obtain ⟨rounds, rfl⟩ : ∃ fewer, rounds = fewer + 1 := by
        refine ⟨rounds - 1, ?_⟩
        simp only [List.length_append] at hrounds
        omega
      have hfewer : tail.length ≤ rounds := by
        simp only [List.length_append] at hrounds
        omega
      obtain ⟨complete, rest, remaining, rfl, hprocess, rfl, hunfinished⟩ :=
        ih (fun other hother ↦ hwires other (by simp [hother])) htail hfewer
      refine ⟨block :: complete, rest, remaining, rfl, ?_, by simp [wires], hunfinished⟩
      rw [processAll, if_neg (by simp [hwire.wire_ne_nil]), hwire.fromBuffer_append]
      simp [hprocess]
    · -- the first block is not complete, so nothing can be read
      have hshort : buffer.length < block.wire.length := Nat.lt_of_not_le hcomplete
      have hprefixed : buffer <+: block.wire :=
        List.prefix_of_prefix_length_le hbuffer (by simp [hsplit]) hshort.le
      refine ⟨[], block :: others, buffer, rfl, ?_, by simp [wires],
        ⟨hbuffer, by simpa using hshort⟩⟩
      cases rounds with
      | zero => rfl
      | succ rounds =>
        rw [processAll, hwire.fromBuffer_eq_none hprefixed hshort]
        split_ifs with hempty
        · rw [List.isEmpty_iff.mp hempty]
        · rfl

/-! ## The invariant -/

/-- What has been delivered and what is buffered make up what has arrived, and nothing arrives
before the connection is there. -/
structure Reassembles (blocks : List Block) (past : List Event) (transport : StreamTransport) :
    Prop where
  idle : transport.connectionInProgress = true →
    transport.inputBuffer = [] ∧ transport.isReceiving = false
  complete : arrived past <+: wires blocks → ∃ rest, blocks = transport.received ++ rest ∧
    arrived past = wires transport.received ++ transport.inputBuffer ∧
    IsPartial transport.inputBuffer rest

section Frame

variable (transport : StreamTransport)

theorem sendSequence_eq (sequence : List Block) :
    ∃ transmissionQueue writes nextId, transport.sendSequence sequence =
      { transport with
        transmissionQueue := transmissionQueue, writes := writes, nextId := nextId } := by
  unfold sendSequence
  simp only [asyncWrite_eq]
  split_ifs
  · exact ⟨_, _, _, rfl⟩
  · exact ⟨_, _, _, rfl⟩

theorem handleAsyncWrite_eq (queueItem : ℕ) :
    ∃ transmissionQueue writes written, transport.handleAsyncWrite queueItem =
      { transport with
        transmissionQueue := transmissionQueue, writes := writes, written := written } := by
  unfold handleAsyncWrite
  simp only [asyncWrite_eq]
  split_ifs
  · exact ⟨_, _, _, rfl⟩
  · exact ⟨_, _, _, rfl⟩
  · exact ⟨_, _, _, rfl⟩

end Frame

section Invariant

variable {blocks : List Block} {past : List Event} {transport next : StreamTransport}
    {event : Event}

/-- Events without arriving bytes that keep the buffer and the deliveries. -/
theorem Reassembles.of_buffer_eq (hinv : Reassembles blocks past transport)
    (harrived : arrived [event] = []) (hbuffer : next.inputBuffer = transport.inputBuffer)
    (hreceived : next.received = transport.received)
    (hidle : next.connectionInProgress = true → next.inputBuffer = [] ∧ next.isReceiving = false) :
    Reassembles blocks (past ++ [event]) next := by
  refine ⟨hidle, ?_⟩
  rw [arrived_append, harrived, List.append_nil, hbuffer, hreceived]
  exact hinv.complete

/-- Reassembly does not depend on the sending side. -/
theorem Reassembles.frame {isConnected : Bool} {transmissionQueue : List QueueItem}
    {writes : List ℕ} {nextId : ℕ} {written : List (List Block)}
    (hinv : Reassembles blocks past transport) (harrived : arrived [event] = []) :
    Reassembles blocks (past ++ [event]) { transport with
      isConnected := isConnected
      transmissionQueue := transmissionQueue
      writes := writes
      nextId := nextId
      written := written } :=
  hinv.of_buffer_eq harrived rfl rfl hinv.idle

section

variable (hwires : ∀ block ∈ blocks, block.IsWire)
include hwires

/-- A chunk: the buffered part of a block and the new bytes are again the beginning of the rest of
the stream. -/
theorem Reassembles.handleAsyncReceive
    (hsizes : ∀ block ∈ blocks, block.wire.length ≤ Tlv.maxNdnPacketSize) {chunk : Bytes}
    (hinv : Reassembles blocks past transport)
    (hchunk : arrived (past ++ [.receive chunk]) <+: wires blocks) :
    ∃ next rest, transport.handleAsyncReceive chunk = some next ∧
      next.connectionInProgress = transport.connectionInProgress ∧
      blocks = next.received ++ rest ∧
      arrived (past ++ [.receive chunk]) = wires next.received ++ next.inputBuffer ∧
      IsPartial next.inputBuffer rest := by
  have harrived : arrived (past ++ [.receive chunk]) = arrived past ++ chunk := by
    simp [arrived_append, arrived]
  rw [harrived] at hchunk ⊢
  obtain ⟨rest, hblocks, hpast, -⟩ := hinv.complete ((List.prefix_append _ _).trans hchunk)
  have hbuffer : transport.inputBuffer ++ chunk <+: wires rest := by
    rw [hpast, hblocks, List.append_assoc] at hchunk
    simpa [wires] using hchunk
  have hmem (block : Block) (h : block ∈ rest) : block ∈ blocks := by simp [hblocks, h]
  obtain ⟨complete, rest', remaining, hrest, hprocess, hsplit, hunfinished⟩ :=
    processAll_of_isPrefix (fun block h ↦ hwires block (hmem block h)) hbuffer le_rfl
  refine ⟨{ transport with
    inputBuffer := remaining, received := transport.received ++ complete, isReceiving := true },
    rest', ?_, ?_⟩
  · rw [StreamTransport.handleAsyncReceive]
    simp only [hprocess]
    apply if_neg
    rintro ⟨hremaining, hfull, hnone⟩
    -- a full buffer without a complete block would need a longer block than there is
    subst hnone
    cases rest' with
    | nil =>
      have hempty : remaining <+: [] := by simpa [wires] using hunfinished.isPrefix
      exact hremaining (List.prefix_nil.mp hempty)
    | cons block others =>
      have hlong := hunfinished.incomplete block (by simp)
      have hsize := hsizes block (hmem block (by simp [hrest]))
      have hlength := congrArg List.length hsplit
      simp only [wires, List.flatMap_nil, List.nil_append] at hlength
      omega
  · refine ⟨rfl, by simp [hblocks, hrest], ?_, hunfinished⟩
    calc
      _ = wires transport.received ++ (transport.inputBuffer ++ chunk) := by
        rw [hpast, List.append_assoc]
      _ = wires transport.received ++ (wires complete ++ remaining) := by rw [hsplit]
      _ = wires (transport.received ++ complete) ++ remaining := by simp [wires]

theorem reassembles_step (hsizes : ∀ block ∈ blocks, block.wire.length ≤ Tlv.maxNdnPacketSize)
    (hinv : Reassembles blocks past transport) (hallowed : transport.ResumesAtBoundary event)
    (hstep : transport.step event = some next) : Reassembles blocks (past ++ [event]) next := by
  cases event with
  | send wire =>
    obtain rfl : transport.sendSequence [wire] = next := by simpa [step] using hstep
    obtain ⟨_, _, _, hnext⟩ := transport.sendSequence_eq [wire]
    exact hnext ▸ hinv.frame rfl
  | sendTwo header payload =>
    obtain rfl : transport.sendSequence [header, payload] = next := by simpa [step] using hstep
    obtain ⟨_, _, _, hnext⟩ := transport.sendSequence_eq [header, payload]
    exact hnext ▸ hinv.frame rfl
  | writeDone =>
    simp only [step] at hstep
    split at hstep
    · cases hstep
    · next queueItem others hwrites =>
      obtain rfl := Option.some.inj hstep
      obtain ⟨_, _, _, hnext⟩ :=
        ({ transport with writes := others } : StreamTransport).handleAsyncWrite_eq queueItem
      exact hnext ▸ hinv.frame rfl
  | pause =>
    obtain rfl : transport.pause = next := by simpa [step] using hstep
    have hidle := hinv.idle
    unfold pause
    split_ifs with hconnecting hexpecting
    · exact hinv.frame rfl
    · exact hinv.of_buffer_eq rfl rfl rfl (by simp [cancel, hconnecting])
    · exact hinv.frame rfl
  | resume =>
    obtain rfl : transport.resume = next := by simpa [step] using hstep
    unfold resume
    split_ifs with hconnecting hexpecting
    · exact hinv.frame rfl
    · have hempty : transport.inputBuffer = [] :=
        hallowed rfl (by simpa [isEffective, hconnecting] using hexpecting)
      exact hinv.of_buffer_eq rfl (by rw [hempty]) rfl (by simp [hconnecting])
    · exact hinv.frame rfl
  | connected =>
    simp only [step] at hstep
    split_ifs at hstep with hconnecting
    obtain rfl := Option.some.inj hstep
    have hempty : transport.inputBuffer = [] := (hinv.idle hconnecting).1
    have hinput : (connectHandler transport).inputBuffer = [] ∧
        (connectHandler transport).received = transport.received ∧
        (connectHandler transport).connectionInProgress = false := by
      unfold connectHandler resume
      simp only
      split_ifs <;> simp [asyncWrite_eq, hempty]
    exact hinv.of_buffer_eq rfl (hinput.1.trans hempty.symm) hinput.2.1 (by simp [hinput.2.2])
  | receive chunk =>
    simp only [step] at hstep
    split_ifs at hstep with henabled
    have hconnected : transport.connectionInProgress = false := by
      by_contra hconnecting
      simp [(hinv.idle (by simpa using hconnecting)).2] at henabled
    have hsame : next.connectionInProgress = transport.connectionInProgress := by
      simp only [handleAsyncReceive] at hstep
      split_ifs at hstep
      obtain rfl := Option.some.inj hstep
      rfl
    refine ⟨by simp [hsame, hconnected], fun hprefixed ↦ ?_⟩
    obtain ⟨next', rest, hnext, -, hrest⟩ := hinv.handleAsyncReceive hwires hsizes hprefixed
    obtain rfl : next = next' := Option.some.inj (hstep.symm.trans hnext)
    exact ⟨rest, hrest⟩

theorem reassembles_connecting : Reassembles blocks [] connecting := by
  refine ⟨by simp [connecting], fun _ ↦ ⟨blocks, rfl, by simp [connecting, arrived, wires], ?_, ?_⟩⟩
  · simp [connecting]
  · intro next hnext
    have hmem : next ∈ blocks := List.mem_of_mem_head? hnext
    simpa [connecting] using List.length_pos_iff.mpr (hwires next hmem).wire_ne_nil

end

/-- Once all bytes have arrived, all blocks have been delivered. -/
theorem eq_received_of_arrived {rest : List Block} {remaining : Bytes} {received : List Block}
    (hblocks : blocks = received ++ rest) (hall : wires blocks = wires received ++ remaining)
    (hunfinished : IsPartial remaining rest) : received = blocks ∧ remaining = [] := by
  have hremaining : remaining = wires rest := by
    rw [hblocks] at hall
    simpa [wires] using hall.symm
  cases rest with
  | nil => exact ⟨by simp [hblocks], by simp [hremaining, wires]⟩
  | cons block others =>
    have hshort := hunfinished.incomplete block (by simp)
    simp only [hremaining, wires, List.flatMap_cons, List.length_append] at hshort
    omega

end Invariant

/-! ## Runs -/

def innerBlock : Block := ⟨5, [0], [5, 1, 0]⟩

def outerBlock : Block := ⟨6, [5, 1, 0], [6, 3, 5, 1, 0]⟩

end NdnCxx.StreamTransport
