import NdnCxx.Face.Invocations

/-!
# Which Interests a packet answers

The loop over the pending Interest table goes on to the end of the list, so an Interest expressed in
one of its callbacks is met by the same loop, unless the loop had reached the end before. An empty
callback throws, and the loop is left with the Interests to come. Runs in which no such Interest is
answered by the packet being processed, and no packet meets an empty callback, answer with every
packet exactly the matching Interests that were pending when its processing began.
-/

namespace NdnCxx.Face

open Run

variable {sha256 : Bytes → Bytes} {face next : Face}

/-- In a callback of the loop, with entries still to come, an Interest is expressed that the packet
answers. -/
def expressesAnswered (sha256 : Bytes → Bytes) (face : Face) : Event → Bool
  | .expressInterest interest wire callbacks true =>
      match face.control with
      | .packet _ (some _) processing =>
          wire.length ≤ Tlv.maxNdnPacketSize &&
            processing.packet.answers sha256 ⟨face.nextId, interest, wire, callbacks⟩
      | _ => false
  | _ => false

/-- A packet is received that answers a pending Interest for which it has no callback. -/
def meetsEmptyCallback (sha256 : Bytes → Bytes) (face : Face) : Event → Bool
  | .receive packet => face.pendingInterestTable.any fun entry ↦
      packet.answers sha256 entry && !packet.isHandledBy entry.callbacks
  | _ => false

def Processing.expected (sha256 : Bytes → Bytes) (processing : Processing) : List ℕ :=
  (processing.table.filter (processing.packet.answers sha256)).map PendingInterest.id

/-- Processed packets have answered what they should; the packet being processed has done so for the
part of the table before the iterator. -/
structure AnswersExpected (sha256 : Bytes → Bytes) (face : Face) : Prop where
  processed : ∀ processing ∈ face.processed, processing.invoked = processing.expected sha256
  running : ∀ matchedEntry entry processing,
    face.control = .packet matchedEntry entry processing →
      processing.invoked ++ ((face.remaining entry).filter
        (processing.packet.answers sha256)).map PendingInterest.id = processing.expected sha256
  handled : ∀ matchedEntry entry processing,
    face.control = .packet matchedEntry entry processing → ∀ other ∈ face.remaining entry,
      processing.packet.answers sha256 other = true →
        processing.packet.isHandledBy other.callbacks = true

/-- The iterator after an erased entry points to what followed it. -/
theorem remaining_eraseP {before skipped later : List PendingInterest}
    {matchedEntry : PendingInterest}
    (htable : face.pendingInterestTable = before ++ (skipped ++ matchedEntry :: later))
    (hnodup : face.tableIds.Nodup) (hnext : next.pendingInterestTable =
      face.pendingInterestTable.eraseP fun other ↦ other.id == matchedEntry.id) :
    next.remaining (later.head?.map PendingInterest.id) = later := by
  have hids : face.tableIds = (before ++ skipped).map PendingInterest.id ++ matchedEntry.id ::
      later.map PendingInterest.id := by
    simp [tableIds, htable]
  rw [hids, List.nodup_append, List.nodup_cons] at hnodup
  obtain ⟨-, ⟨hmatched, -⟩, hdisjoint⟩ := hnodup
  cases later with
  | nil => rfl
  | cons following rest =>
    have hbefore (other : PendingInterest) (hother : other ∈ before ++ skipped) :
        other.id ≠ matchedEntry.id ∧ other.id ≠ following.id :=
      ⟨hdisjoint _ (List.mem_map_of_mem hother) _ (by simp),
        hdisjoint _ (List.mem_map_of_mem hother) _ (by simp)⟩
    have herased : next.pendingInterestTable = (before ++ skipped) ++ following :: rest := by
      rw [hnext, htable, ← List.append_assoc, List.eraseP_append_right]
      · simp
      · intro other hother
        simpa using (hbefore other hother).1
    simp only [remaining, List.head?_cons, Option.map_some, herased]
    rw [List.dropWhile_append_of_pos fun other hother ↦ by simpa using (hbefore other hother).2]
    simp

variable {entry : Option ℕ}

theorem mem_of_mem_remaining {other : PendingInterest} (hmem : other ∈ face.remaining entry) :
    other ∈ face.pendingInterestTable := by
  cases entry with
  | none => cases hmem
  | some id => exact List.dropWhile_subset _ hmem

theorem AnswersExpected.processFrom (face : Face) {processing : Processing}
    (hprocessed : ∀ earlier ∈ face.processed, earlier.invoked = earlier.expected sha256)
    (hnodup : face.tableIds.Nodup) (hentry : ∀ id ∈ entry, id ∈ face.tableIds)
    (hsofar : processing.invoked ++ ((face.remaining entry).filter
      (processing.packet.answers sha256)).map PendingInterest.id = processing.expected sha256)
    (hhandled : ∀ other ∈ face.remaining entry, processing.packet.answers sha256 other = true →
      processing.packet.isHandledBy other.callbacks = true)
    (hnext : face.processFrom sha256 entry processing = some next) :
    AnswersExpected sha256 next := by
  rcases processFrom_cases sha256 face entry processing hentry with
    ⟨hnone, hsome⟩ |
    ⟨before, skipped, matchedEntry, later, htable, hremaining, hskipped, hanswers,
      ⟨-, hsome⟩ | ⟨hempty, -⟩⟩
  · obtain rfl := Option.some.inj (hsome.symm.trans hnext)
    have hempty : (face.remaining entry).filter (processing.packet.answers sha256) = [] :=
      List.filter_eq_nil_iff.mpr fun other hother ↦ by simp [hnone other hother]
    refine ⟨fun earlier hearlier ↦ ?_, by simp, by simp⟩
    rcases List.mem_append.mp hearlier with hold | hlast
    · exact hprocessed earlier hold
    · obtain rfl := List.mem_singleton.mp hlast
      simpa [hempty] using hsofar
  · obtain rfl := Option.some.inj (hsome.symm.trans hnext)
    refine ⟨hprocessed, fun matchedEntry' entry' processing' hcontrol ↦ ?_,
      fun matchedEntry' entry' processing' hcontrol other hother hanswered ↦ ?_⟩
    all_goals obtain ⟨rfl, rfl, rfl⟩ := by simpa using hcontrol
    on_goal 2 =>
      rw [remaining_eraseP htable hnodup rfl] at hother
      refine hhandled other ?_ hanswered
      rw [hremaining]
      exact List.mem_append_right _ (List.mem_cons_of_mem _ hother)
    have hskip : skipped.filter (processing.packet.answers sha256) = [] :=
      List.filter_eq_nil_iff.mpr fun other hother ↦ by simp [hskipped other hother]
    calc
      _ = processing.invoked ++ matchedEntry.id :: (later.filter
          (processing.packet.answers sha256)).map PendingInterest.id := by
        rw [remaining_eraseP htable hnodup rfl, List.append_assoc, List.singleton_append]
      _ = processing.invoked ++ ((face.remaining entry).filter
          (processing.packet.answers sha256)).map PendingInterest.id := by
        rw [hremaining, List.filter_append, hskip, List.nil_append,
          List.filter_cons_of_pos hanswers, List.map_cons]
      _ = processing.expected sha256 := hsofar
  · have hcalled := hhandled matchedEntry (by simp [hremaining]) hanswers
    rw [hempty] at hcalled
    cases hcalled

/-- A new entry is met by the loop only if there are entries to come. -/
theorem AnswersExpected.asyncExpressInterest {entry : PendingInterest}
    (hinv : AnswersExpected sha256 face) (hiterator : ∀ matchedEntry position processing,
      face.control = .packet matchedEntry position processing → ∀ id ∈ position, id ∈ face.tableIds)
    (hunanswered : ∀ matchedEntry position processing,
      face.control = .packet matchedEntry (some position) processing →
        processing.packet.answers sha256 entry = false) :
    AnswersExpected sha256 (face.asyncExpressInterest entry) := by
  have hremaining (matchedEntry position : ℕ) (processing : Processing)
      (hcontrol : face.control = .packet matchedEntry (some position) processing) :
      (face.asyncExpressInterest entry).remaining (some position) =
        face.remaining (some position) ++ [entry] := by
    have hmem := hiterator matchedEntry (some position) processing hcontrol position rfl
    have hnonempty : face.remaining (some position) ≠ [] := by
      obtain ⟨other, hother, hid⟩ := List.mem_map.mp hmem
      intro hempty
      simpa [hid] using List.dropWhile_eq_nil_iff.mp hempty other hother
    simp only [remaining] at hnonempty
    simp [remaining, Face.asyncExpressInterest, List.dropWhile_append, hnonempty]
  refine ⟨hinv.processed, fun matchedEntry position processing hcontrol ↦ ?_,
    fun matchedEntry position processing hcontrol other hother hanswered ↦ ?_⟩
  · have hsofar := hinv.running matchedEntry position processing hcontrol
    cases position with
    | none => simpa [remaining] using hsofar
    | some id =>
      rw [hremaining matchedEntry id processing hcontrol, List.filter_append,
        List.filter_cons_of_neg (by simp [hunanswered matchedEntry id processing hcontrol])]
      simpa using hsofar
  · cases position with
    | none => simp [remaining] at hother
    | some id =>
      rw [hremaining matchedEntry id processing hcontrol, List.mem_append,
        List.mem_singleton] at hother
      obtain hold | rfl := hother
      · exact hinv.handled matchedEntry (some id) processing hcontrol other hold hanswered
      · rw [hunanswered matchedEntry id processing hcontrol] at hanswered
        cases hanswered

/-- Outside the loop only the packets processed so far matter. -/
theorem AnswersExpected.of_processed (hinv : AnswersExpected sha256 face)
    (hprocessed : next.processed = face.processed)
    (hcontrol : ∀ matchedEntry entry processing,
      next.control ≠ .packet matchedEntry entry processing) : AnswersExpected sha256 next :=
  ⟨hprocessed ▸ hinv.processed, fun _ _ _ h ↦ absurd h (hcontrol _ _ _),
    fun _ _ _ h ↦ absurd h (hcontrol _ _ _)⟩

theorem answersExpected_step {event : Event} (haccounted : Accounted face)
    (hinv : AnswersExpected sha256 face) (hallowed : face.expressesAnswered sha256 event = false)
    (hcallbacks : face.meetsEmptyCallback sha256 event = false)
    (hstep : face.step sha256 event = some next) : AnswersExpected sha256 next := by
  have hnodup : face.tableIds.Nodup := (List.nodup_append.mp haccounted.distinct).1
  cases event with
  | expressInterest interest wire callbacks isSameThread =>
    obtain rfl := Option.some.inj hstep
    unfold expressInterest
    split_ifs with hsize hsame
    · exact hinv
    · refine AnswersExpected.asyncExpressInterest ⟨hinv.processed, hinv.running, hinv.handled⟩
        haccounted.iterator ?_
      intro matchedEntry position processing hcontrol
      subst hsame
      simpa [expressesAnswered, show face.control = _ from hcontrol, not_lt.mp hsize] using hallowed
    · exact ⟨hinv.processed, hinv.running, hinv.handled⟩
  | removePendingInterest id =>
    obtain rfl := Option.some.inj hstep
    exact ⟨hinv.processed, hinv.running, hinv.handled⟩
  | removeAllPendingInterests =>
    obtain rfl := Option.some.inj hstep
    exact ⟨hinv.processed, hinv.running, hinv.handled⟩
  | shutdown =>
    obtain rfl := Option.some.inj hstep
    exact ⟨hinv.processed, hinv.running, hinv.handled⟩
  | runIoService isInProcessEvents =>
    simp only [step] at hstep
    split at hstep
    · obtain rfl := Option.some.inj hstep
      exact ⟨hinv.processed, hinv.running, hinv.handled⟩
    · cases hstep
  | runPosted =>
    simp only [step] at hstep
    split at hstep
    · next handler later hidle hposted =>
      obtain rfl := Option.some.inj hstep
      apply hinv.of_processed
      · cases handler <;> rfl
      · cases handler <;>
          simp [runPosted, Face.asyncExpressInterest, removeIf, cancelTimeouts, hidle]
    · cases hstep
  | receive packet =>
    simp only [step] at hstep
    split at hstep
    · refine AnswersExpected.processFrom face hinv.processed hnodup (head_mem_tableIds face) ?_ ?_
        hstep
      · cases htable : face.pendingInterestTable with
        | nil => simp [remaining, Processing.expected]
        | cons head rest => simp [remaining, htable, Processing.expected]
      · intro other hother hanswered
        have hmem : other ∈ face.pendingInterestTable := mem_of_mem_remaining hother
        have hmet := List.any_eq_false.mp hcallbacks other hmem
        simpa [hanswered] using hmet
    · cases hstep
  | timeout id =>
    simp only [step] at hstep
    split at hstep
    · next hidle =>
      split_ifs at hstep with hscheduled
      simp only [invokeTimeoutCallback, deleter] at hstep
      split at hstep
      · cases hstep
      · split_ifs at hstep
        · obtain rfl := Option.some.inj hstep
          exact hinv.of_processed rfl (by simp)
        · obtain rfl := Option.some.inj hstep
          exact hinv.of_processed rfl (by simp [cancelTimeouts, hidle])
    · cases hstep
  | callbackReturn =>
    simp only [step] at hstep
    split at hstep
    · cases hstep
    · next matchedEntry entry processing hcontrol =>
      exact AnswersExpected.processFrom (face.cancelTimeouts [matchedEntry]) hinv.processed hnodup
        (haccounted.iterator _ _ _ hcontrol) (hinv.running _ _ _ hcontrol)
        (hinv.handled _ _ _ hcontrol) hstep
    · simp only [deleter] at hstep
      split_ifs at hstep
      obtain rfl := Option.some.inj hstep
      exact hinv.of_processed rfl (by simp [cancelTimeouts])

/-! ## Runs -/

/-- In every run in which no callback, while the loop has entries to come, expresses an Interest
that the packet answers, and no packet answers a pending Interest whose callback for it is empty: the
callbacks invoked by the processing of a packet are those of the Interests that were pending when it
began and that the packet answers, in the order of the table. -/
theorem invoked_eq_pending_answered (sha256 : Bytes → Bytes) (events : List Event) (face : Face)
    (hrun : run (step sha256) initial events = some face)
    (hguarded : Guarded (step sha256)
      (fun state event ↦ state.expressesAnswered sha256 event = false ∧
        state.meetsEmptyCallback sha256 event = false) initial events) :
    ∀ processing ∈ face.processed, processing.invoked =
      (processing.table.filter (processing.packet.answers sha256)).map PendingInterest.id := by
  have hinv := invariant_of_guarded (fun _ state ↦ Accounted state ∧ AnswersExpected sha256 state)
    (fun _ _ _ _ hinv hallowed hstep ↦ ⟨accounted_step hinv.1 hstep,
      answersExpected_step hinv.1 hinv.2 hallowed.1 hallowed.2 hstep⟩)
    ⟨accounted_initial, by simp [initial], by simp [initial], by simp [initial]⟩ hguarded hrun
  exact hinv.2.processed

/-! ## An Interest expressed in a callback -/

def interestA : Event :=
  .expressInterest { name := [.generic [65]] } [5, 1, 65] ⟨true, true, true⟩ true

def interestB : Event :=
  .expressInterest { name := [.generic [66]] } [5, 1, 66] ⟨true, true, true⟩ true

/-- The same Interest without callbacks -/
def silentA : Event :=
  .expressInterest { name := [.generic [65]] } [5, 1, 65] ⟨false, false, false⟩ true

def dataA : Packet := .data { name := [.generic [65]], signatureInfo := ⟨0, none, []⟩, wire := [] }

/-- The callback of the last entry expresses its Interest again, which the same packet does not
answer. A Nack then answers both Interests with its wire. -/
theorem invoked_eq_pending_answered_last :
    ∃ face, run (step fun _ ↦ []) initial
      [interestB, interestA, .receive dataA, interestA, .callbackReturn, interestA,
        .receive (.nack [5, 1, 65] .duplicate), .callbackReturn, .callbackReturn] = some face ∧
      face.processed.map Processing.invoked = [[1], [2, 3]] ∧
      ∀ processing ∈ face.processed, processing.invoked =
        (processing.table.filter (processing.packet.answers fun _ ↦ [])).map
          PendingInterest.id := by
  refine ⟨_, rfl, rfl, ?_⟩
  exact invoked_eq_pending_answered (fun _ ↦ []) [interestB, interestA, .receive dataA, interestA,
    .callbackReturn, interestA, .receive (.nack [5, 1, 65] .duplicate), .callbackReturn,
    .callbackReturn] _ rfl (by decide)

/-- With an entry still to come, the Interest expressed in the callback is answered by the same
packet, although it was not pending when the processing began. An Interest without callbacks keeps a
later one from being answered. -/
theorem invoked_ne_pending_answered :
    (∃ face, run (step fun _ ↦ []) initial
      [interestA, interestB, .receive dataA, interestA, .callbackReturn, .callbackReturn] =
        some face ∧
      ∃ processing ∈ face.processed, processing.packet = dataA ∧ processing.invoked = [0, 2] ∧
        (processing.table.filter (processing.packet.answers fun _ ↦ [])).map
          PendingInterest.id = [0]) ∧
    ∃ face, run (step fun _ ↦ []) initial [silentA, interestA, .receive dataA] = some face ∧
      ∃ processing ∈ face.processed, processing.packet = dataA ∧ processing.invoked = [] ∧
        (processing.table.filter (processing.packet.answers fun _ ↦ [])).map
          PendingInterest.id = [0, 1] :=
  ⟨⟨_, rfl, _, List.mem_singleton_self _, rfl, rfl, rfl⟩,
    _, rfl, _, List.mem_singleton_self _, rfl, rfl, rfl⟩

end NdnCxx.Face
