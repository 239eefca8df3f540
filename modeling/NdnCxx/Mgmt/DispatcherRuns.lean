import NdnCxx.Mgmt.Dispatcher

/-!
# Runs of a dispatcher

Registrations are checked against the keys of `m_streams`, and posting a notification adds one. Two
invariants carry the runs. Next to a run stands the run of the same calls without the notifications:
the two have the same registrations as long as no relative prefix is refused for a posted name alone.
And every counter in `m_streams` is the number of notifications posted under its key, as long as the
container recognises the names.
-/

namespace NdnCxx

namespace StoredName

theorem overlaps_congr {name name' : StoredName} (hequals : name.equals name' = true)
    (other : StoredName) : name.overlaps other = name'.overlaps other := by
  have hvalues := Name.equals_iff.mp hequals
  have hfirst : name.components.isPrefixOf other.components =
      name'.components.isPrefixOf other.components := by
    rw [Bool.eq_iff_iff, Name.isPrefixOf_iff, Name.isPrefixOf_iff, hvalues]
  have hsecond : other.components.isPrefixOf name.components =
      other.components.isPrefixOf name'.components := by
    rw [Bool.eq_iff_iff, Name.isPrefixOf_iff, Name.isPrefixOf_iff, hvalues]
  rw [overlaps, overlaps, hfirst, hsecond]

theorem equals_of_sameKey {hashRange : Bytes → ℕ} {name other : StoredName}
    (hsame : name.sameKey hashRange other = true) : name.equals other = true := by
  simp only [sameKey, Bool.and_eq_true] at hsame
  exact hsame.2

theorem equals_refl (name : StoredName) : name.equals name = true := equals_iff.mpr rfl

end StoredName

namespace Dispatcher

variable {hashRange : Bytes → ℕ} {dispatcher quiet : Dispatcher hashRange}

/-! ## Registered prefixes do not overlap -/

/-- No name is a prefix of another. -/
def Apart (names : List StoredName) : Prop :=
  names.Pairwise fun name other ↦ name.overlaps other = false

theorem apart_assign {Value : Type*}
    {container : UnorderedMap StoredName Value (StoredName.sameKey hashRange)}
    (hapart : Apart container.keys) {name : StoredName} {value : Value}
    (hnone : container.keys.any (·.overlaps name) = false) :
    Apart (container.assign name value).keys := by
  rw [UnorderedMap.keys_assign]
  split_ifs
  · exact hapart
  · refine List.pairwise_append.mpr ⟨hapart, List.pairwise_singleton _ _, ?_⟩
    intro other hother added hadded
    rw [List.mem_singleton.mp hadded]
    simpa using List.any_eq_false.mp hnone other hother

variable {relPrefix : StoredName}

theorem isOverlappedWithOthers_eq_false
    (hoverlapped : ¬ dispatcher.isOverlappedWithOthers relPrefix = true) :
    dispatcher.handlers.keys.any (·.overlaps relPrefix) = false ∧
      dispatcher.streams.keys.any (·.overlaps relPrefix) = false := by
  rwa [Bool.not_eq_true, isOverlappedWithOthers, Bool.or_eq_false_iff] at hoverlapped

theorem apart_addHandler (hapart : Apart dispatcher.handlers.keys) (registration : Registration)
    (overlapped : String) (relPrefix : StoredName) :
    Apart (dispatcher.addHandler registration overlapped relPrefix).handlers.keys := by
  unfold addHandler
  split_ifs with htop hoverlapped hstream
  · exact hapart
  · exact hapart
  · exact apart_assign hapart (isOverlappedWithOthers_eq_false hoverlapped).1
  · exact apart_assign hapart (isOverlappedWithOthers_eq_false hoverlapped).1

theorem apart_addTopPrefix (hapart : Apart dispatcher.topLevelPrefixes.keys)
    (topPrefix : StoredName) (wantRegister registers : Bool) :
    Apart (dispatcher.addTopPrefix topPrefix wantRegister registers).topLevelPrefixes.keys := by
  unfold addTopPrefix
  split_ifs with hoverlapped hfails
  · exact hapart
  · exact apart_assign hapart (Bool.not_eq_true _ ▸ hoverlapped)
  · exact apart_assign hapart (Bool.not_eq_true _ ▸ hoverlapped)

theorem topLevelPrefixes_addHandler (registration : Registration) (overlapped : String)
    (relPrefix : StoredName) :
    (dispatcher.addHandler registration overlapped relPrefix).topLevelPrefixes =
      dispatcher.topLevelPrefixes := by
  unfold addHandler
  split_ifs <;> rfl

theorem handlers_addTopPrefix (topPrefix : StoredName) (wantRegister registers : Bool) :
    (dispatcher.addTopPrefix topPrefix wantRegister registers).handlers = dispatcher.handlers := by
  unfold addTopPrefix
  split_ifs <;> rfl

/-- Posting changes the counters and the record of what was posted. -/
theorem postNotification_frame (dispatcher : Dispatcher hashRange) (notification : Bytes)
    (relPrefix : StoredName) (signs : Bool) :
    (dispatcher.postNotification notification relPrefix signs).topLevelPrefixes =
        dispatcher.topLevelPrefixes ∧
      (dispatcher.postNotification notification relPrefix signs).handlers = dispatcher.handlers ∧
      (dispatcher.postNotification notification relPrefix signs).outcomes =
        dispatcher.outcomes := by
  unfold postNotification
  split
  · exact ⟨rfl, rfl, rfl⟩
  · split_ifs <;> exact ⟨rfl, rfl, rfl⟩

theorem apart_apply (hhandlers : Apart dispatcher.handlers.keys)
    (hprefixes : Apart dispatcher.topLevelPrefixes.keys) (event : Event) :
    Apart (dispatcher.apply event).handlers.keys ∧
      Apart (dispatcher.apply event).topLevelPrefixes.keys := by
  cases event with
  | addTopPrefix topPrefix wantRegister registers =>
    refine ⟨?_, apart_addTopPrefix hprefixes topPrefix wantRegister registers⟩
    rw [apply, handlers_addTopPrefix]
    exact hhandlers
  | removeTopPrefix topPrefix =>
    exact ⟨hhandlers, hprefixes.sublist (dispatcher.topLevelPrefixes.keys_erase_sublist topPrefix)⟩
  | addControlCommand relPrefix | addStatusDataset relPrefix | addNotificationStream relPrefix =>
    refine ⟨apart_addHandler hhandlers _ _ relPrefix, ?_⟩
    simp only [apply, addControlCommand, addStatusDataset, addNotificationStream,
      topLevelPrefixes_addHandler]
    exact hprefixes
  | postNotification notification relPrefix signs =>
    obtain ⟨htop, hkept, -⟩ :=
      postNotification_frame dispatcher notification relPrefix signs
    rw [apply, htop, hkept]
    exact ⟨hhandlers, hprefixes⟩

/-! ## Registrations with and without the notifications -/

def Event.relPrefix? : Event → Option StoredName
  | .addControlCommand relPrefix | .addStatusDataset relPrefix | .addNotificationStream relPrefix =>
      some relPrefix
  | _ => none

/-- A registration does not overlap a key of the streams alone. -/
def Undisturbed (dispatcher : Dispatcher hashRange) (event : Event) : Prop :=
  ∀ relPrefix ∈ event.relPrefix?, dispatcher.topLevelPrefixes.entries = [] →
    dispatcher.streams.keys.any (·.overlaps relPrefix) = true →
    dispatcher.handlers.keys.any (·.overlaps relPrefix) = true

/-- The same registrations, and in the run without notifications no stream apart from them. -/
structure SameRegistrations (dispatcher quiet : Dispatcher hashRange) : Prop where
  topLevelPrefixes : quiet.topLevelPrefixes = dispatcher.topLevelPrefixes
  handlers : quiet.handlers = dispatcher.handlers
  outcomes : quiet.outcomes = dispatcher.outcomes
  streams : ∀ key ∈ quiet.streams.keys, ∃ other ∈ quiet.handlers.keys, other.equals key = true

variable {event : Event}

section

variable (hsame : SameRegistrations dispatcher quiet)
include hsame

theorem SameRegistrations.isOverlappedWithOthers
    (hundisturbed : dispatcher.streams.keys.any (·.overlaps relPrefix) = true →
      dispatcher.handlers.keys.any (·.overlaps relPrefix) = true) :
    quiet.isOverlappedWithOthers relPrefix = dispatcher.isOverlappedWithOthers relPrefix := by
  have hquiet : quiet.streams.keys.any (·.overlaps relPrefix) = true →
      dispatcher.handlers.keys.any (·.overlaps relPrefix) = true := by
    intro hany
    obtain ⟨key, hkey, hoverlaps⟩ := List.any_eq_true.mp hany
    obtain ⟨other, hother, hequals⟩ := hsame.streams key hkey
    refine List.any_eq_true.mpr ⟨other, hsame.handlers ▸ hother, ?_⟩
    rw [StoredName.overlaps_congr hequals]
    exact hoverlaps
  unfold Dispatcher.isOverlappedWithOthers
  rw [hsame.handlers, Bool.eq_iff_iff, Bool.or_eq_true, Bool.or_eq_true]
  exact ⟨fun h ↦ .inl (h.elim id hquiet), fun h ↦ .inl (h.elim id hundisturbed)⟩

theorem SameRegistrations.addHandler {registration : Registration} {overlapped : String}
    (hundisturbed : dispatcher.topLevelPrefixes.entries = [] →
      dispatcher.streams.keys.any (·.overlaps relPrefix) = true →
      dispatcher.handlers.keys.any (·.overlaps relPrefix) = true) :
    SameRegistrations (dispatcher.addHandler registration overlapped relPrefix)
      (quiet.addHandler registration overlapped relPrefix) := by
  have hlogged (outcome : Option Thrown) :
      SameRegistrations (dispatcher.record outcome) (quiet.record outcome) :=
    ⟨hsame.topLevelPrefixes, hsame.handlers, by rw [record, record, hsame.outcomes], hsame.streams⟩
  unfold Dispatcher.addHandler
  rw [hsame.topLevelPrefixes]
  by_cases htop : dispatcher.topLevelPrefixes.entries = []
  · rw [hsame.isOverlappedWithOthers (hundisturbed htop), htop]
    simp only [List.isEmpty_nil, Bool.not_true, Bool.false_eq_true, if_false]
    split_ifs with hoverlapped hstream
    · exact hlogged _
    · refine ⟨rfl, ?_, ?_, ?_⟩
      · simp only [record, hsame.handlers]
      · simp only [record, hsame.outcomes]
      · intro key hkey
        rcases UnorderedMap.mem_keys_of_mem_keys_assign hkey with hold | rfl
        · obtain ⟨other, hother, hequals⟩ := hsame.streams key hold
          exact ⟨other, UnorderedMap.mem_keys_assign_of_mem _ hother, hequals⟩
        · obtain ⟨other, hother, rfl | hkeySame⟩ :=
            quiet.handlers.exists_mem_keys_assign key registration
          · exact ⟨_, hother, StoredName.equals_refl _⟩
          · exact ⟨other, hother, StoredName.equals_of_sameKey hkeySame⟩
    · refine ⟨rfl, ?_, ?_, ?_⟩
      · simp only [record, hsame.handlers]
      · simp only [record, hsame.outcomes]
      · intro key hkey
        obtain ⟨other, hother, hequals⟩ := hsame.streams key hkey
        exact ⟨other, UnorderedMap.mem_keys_assign_of_mem _ hother, hequals⟩
  · have hnonempty : (!dispatcher.topLevelPrefixes.entries.isEmpty) = true := by
      simpa using htop
    rw [if_pos hnonempty, if_pos hnonempty]
    exact hlogged _

theorem SameRegistrations.addTopPrefix (topPrefix : StoredName) (wantRegister registers : Bool) :
    SameRegistrations (dispatcher.addTopPrefix topPrefix wantRegister registers)
      (quiet.addTopPrefix topPrefix wantRegister registers) := by
  unfold Dispatcher.addTopPrefix
  rw [hsame.topLevelPrefixes, hsame.handlers]
  split_ifs
  all_goals
    refine ⟨?_, ?_, by simp only [record, hsame.outcomes], ?_⟩
    · simp only [record, hsame.topLevelPrefixes]
    · simp only [record, hsame.handlers]
    · simpa only [record, hsame.handlers] using hsame.streams

/-- A call keeps the registrations the same; a notification is not made in the other run. -/
theorem SameRegistrations.apply
    (hundisturbed : dispatcher.Undisturbed event) :
    SameRegistrations (dispatcher.apply event) (if event.isPost then quiet else quiet.apply event) := by
  cases event with
  | addTopPrefix topPrefix wantRegister registers =>
    exact hsame.addTopPrefix topPrefix wantRegister registers
  | removeTopPrefix topPrefix =>
    refine ⟨?_, hsame.handlers, ?_, hsame.streams⟩
    · simp only [Event.isPost, Dispatcher.apply, removeTopPrefix, record, hsame.topLevelPrefixes,
        Bool.false_eq_true, if_false]
    · simp only [Event.isPost, Dispatcher.apply, removeTopPrefix, record, hsame.outcomes,
        Bool.false_eq_true, if_false]
  | addControlCommand relPrefix | addStatusDataset relPrefix | addNotificationStream relPrefix =>
    exact hsame.addHandler (hundisturbed relPrefix rfl)
  | postNotification notification relPrefix signs =>
    obtain ⟨htop, hhandlers, houtcomes⟩ :=
      postNotification_frame dispatcher notification relPrefix signs
    exact ⟨hsame.topLevelPrefixes.trans htop.symm, hsame.handlers.trans hhandlers.symm,
      hsame.outcomes.trans houtcomes.symm, hsame.streams⟩

end

theorem run_cons (event : Event) (events : List Event) :
    Run.run step dispatcher (event :: events) = Run.run step (dispatcher.apply event) events := rfl

variable {events : List Event} {streamName : StoredName} {notification : Bytes}

/-- The run without the notifications ends with the same registrations. -/
theorem SameRegistrations.run (hsame : SameRegistrations dispatcher quiet)
    {finish : Dispatcher hashRange} (hguarded : Run.Guarded step Undisturbed dispatcher events)
    (hrun : Run.run step dispatcher events = some finish) :
    ∃ quietFinish, Run.run step quiet (events.filter fun event ↦ !event.isPost) = some quietFinish ∧
      SameRegistrations finish quietFinish := by
  induction events generalizing dispatcher quiet with
  | nil =>
    obtain rfl : dispatcher = finish := by simpa using hrun
    exact ⟨quiet, rfl, hsame⟩
  | cons event events ih =>
    rw [run_cons] at hrun
    obtain ⟨quietFinish, hquiet, hfinish⟩ :=
      ih (hsame.apply hguarded.1) (hguarded.2 _ rfl) hrun
    refine ⟨quietFinish, ?_, hfinish⟩
    cases hpost : event.isPost with
    | true =>
      rw [List.filter_cons_of_neg (by simp [hpost])]
      simpa [hpost] using hquiet
    | false =>
      rw [List.filter_cons_of_pos (by simp [hpost]), run_cons]
      simpa [hpost] using hquiet

/-! ## Sequence numbers -/

def postedUnder (dispatcher : Dispatcher hashRange) (full : Name) : List Posted :=
  dispatcher.posted.filter fun posted ↦ (posted.dataName.getPrefix (-1)).equals full

/-- The notifications of every stream carry the numbers from zero on. -/
def IsNumbered (dispatcher : Dispatcher hashRange) : Prop :=
  ∀ (full : Name) (index : ℕ) (posted : Posted),
    (dispatcher.postedUnder full)[index]? = some posted →
      (posted.dataName.get (-1)).map Component.toSequenceNumber = some (.ok index)

/-- A notification is signed, its stream's name hashes as equal names in `m_streams` do, and the
next number has 64 bits. -/
def Countable (dispatcher : Dispatcher hashRange) : Event → Prop
  | .postNotification _ relPrefix signs =>
      ∀ streamName ∈ dispatcher.streamName? relPrefix, signs = true ∧
        (∀ key ∈ dispatcher.streams.keys, key.equals streamName = true →
          key.hash hashRange = streamName.hash hashRange) ∧
        (dispatcher.postedUnder streamName.components).length < 2 ^ 64
  | _ => True

/-- Every key of `m_streams` counts the notifications posted under it, and every name with a
notification has a key. -/
structure Counts (dispatcher : Dispatcher hashRange) : Prop where
  counter : ∀ entry ∈ dispatcher.streams.entries,
    entry.2 = (dispatcher.postedUnder entry.1.components).length % 2 ^ 64
  known : ∀ full, dispatcher.postedUnder full ≠ [] →
    ∃ key ∈ dispatcher.streams.keys, key.components.equals full = true
  numbered : dispatcher.IsNumbered

theorem postedUnder_congr {name other : Name} (hequals : name.equals other = true) :
    dispatcher.postedUnder name = dispatcher.postedUnder other := by
  unfold postedUnder
  congr 1
  funext posted
  rw [Bool.eq_iff_iff, Name.equals_iff, Name.equals_iff, Name.equals_iff.mp hequals]

theorem counts_initial : (initial hashRange).Counts where
  counter := by simp [initial, UnorderedMap.empty]
  known := fun full hposted ↦ absurd rfl hposted
  numbered := by simp [IsNumbered, postedUnder, initial]

variable {next : Dispatcher hashRange}

section

variable (hcounts : dispatcher.Counts)
include hcounts

/-- Calls that post nothing and make no stream leave the counters alone. -/
theorem Counts.of_frame (hstreams : next.streams = dispatcher.streams)
    (hposted : next.posted = dispatcher.posted) : next.Counts := by
  have hunder (full : Name) : next.postedUnder full = dispatcher.postedUnder full := by
    rw [postedUnder, postedUnder, hposted]
  refine ⟨?_, ?_, ?_⟩
  · simpa only [hstreams, hunder] using hcounts.counter
  · simpa only [hstreams, hunder] using hcounts.known
  · simpa only [IsNumbered, hunder] using hcounts.numbered

/-- A stream whose relative prefix overlaps no key starts at zero: nothing was posted under it. -/
theorem Counts.assign_zero (hfree : dispatcher.streams.keys.any (·.overlaps relPrefix) = false)
    (hstreams : next.streams = dispatcher.streams.assign relPrefix 0)
    (hposted : next.posted = dispatcher.posted) : next.Counts := by
  have hunder (full : Name) : next.postedUnder full = dispatcher.postedUnder full := by
    rw [postedUnder, postedUnder, hposted]
  have hnothing : dispatcher.postedUnder relPrefix.components = [] := by
    by_contra hsome
    obtain ⟨key, hkey, hequals⟩ := hcounts.known _ hsome
    exact List.any_eq_false.mp hfree key hkey (StoredName.overlaps_of_equals hequals)
  refine ⟨?_, ?_, ?_⟩
  · intro entry hentry
    rw [hstreams] at hentry
    rw [hunder]
    rcases UnorderedMap.mem_entries_assign hentry with ⟨hold, -⟩ | ⟨hvalue, hkey⟩
    · exact hcounts.counter entry hold
    · have hequals : entry.1.equals relPrefix = true := by
        rcases hkey with hkey | hkey
        · rw [hkey, StoredName.equals_refl]
        · exact StoredName.equals_of_sameKey hkey
      rw [hvalue, postedUnder_congr hequals, hnothing]
      rfl
  · intro full hsome
    rw [hunder] at hsome
    obtain ⟨key, hkey, hequals⟩ := hcounts.known full hsome
    exact ⟨key, hstreams ▸ UnorderedMap.mem_keys_assign_of_mem 0 hkey, hequals⟩
  · simpa only [IsNumbered, hunder] using hcounts.numbered

/-- The counter a notification finds is the number of those posted before it. -/
theorem Counts.getD_find? (hhash : ∀ key ∈ dispatcher.streams.keys, key.equals streamName = true →
      key.hash hashRange = streamName.hash hashRange)
    (hshort : (dispatcher.postedUnder streamName.components).length < 2 ^ 64) :
    (dispatcher.streams.find? streamName).getD 0 =
      (dispatcher.postedUnder streamName.components).length := by
  cases hfind : dispatcher.streams.find? streamName with
  | some value =>
    obtain ⟨key, hentry, hsame⟩ := UnorderedMap.exists_of_find?_eq_some hfind
    have hvalue := hcounts.counter _ hentry
    rw [postedUnder_congr (StoredName.equals_of_sameKey hsame), Nat.mod_eq_of_lt hshort] at hvalue
    exact hvalue
  | none =>
    have hnothing : dispatcher.postedUnder streamName.components = [] := by
      by_contra hsome
      obtain ⟨key, hkey, hequals⟩ := hcounts.known _ hsome
      have hdifferent := UnorderedMap.find?_eq_none_iff.mp hfind key hkey
      rw [StoredName.sameKey, hhash key hkey hequals, StoredName.equals, hequals] at hdifferent
      simp at hdifferent
    rw [hnothing]
    rfl

/-- A notification is counted under its stream's name and carries the number of those before. -/
theorem Counts.post (hhash : ∀ key ∈ dispatcher.streams.keys, key.equals streamName = true →
      key.hash hashRange = streamName.hash hashRange)
    (hshort : (dispatcher.postedUnder streamName.components).length < 2 ^ 64)
    (hstreams : next.streams = dispatcher.streams.assign streamName
      (((dispatcher.postedUnder streamName.components).length + 1) % 2 ^ 64))
    (hposted : next.posted = dispatcher.posted ++
      [⟨streamName.components.appendSequenceNumber
      (dispatcher.postedUnder streamName.components).length, notification⟩]) : next.Counts := by
  have hunder (full : Name) : next.postedUnder full = dispatcher.postedUnder full ++
      if streamName.components.equals full then
        [⟨streamName.components.appendSequenceNumber
          (dispatcher.postedUnder streamName.components).length, notification⟩]
      else [] := by
    rw [postedUnder, hposted, List.filter_append, List.filter_singleton, Name.appendSequenceNumber,
      Name.getPrefix_append_singleton, Bool.cond_eq_ite]
    rfl
  refine ⟨?_, ?_, ?_⟩
  · intro entry hentry
    rw [hstreams] at hentry
    rw [hunder]
    rcases UnorderedMap.mem_entries_assign hentry with ⟨hold, hother⟩ | ⟨hvalue, hkey⟩
    · -- a key that the container takes for another one is another name
      have hdifferent : ¬ streamName.components.equals entry.1.components = true := by
        intro hequals
        have hreverse : entry.1.equals streamName = true :=
          Name.equals_iff.mpr (Name.equals_iff.mp hequals).symm
        have hsame := hhash entry.1 (List.mem_map_of_mem hold) hreverse
        rw [StoredName.sameKey, hsame, hreverse] at hother
        simp at hother
      rw [if_neg hdifferent, List.append_nil]
      exact hcounts.counter entry hold
    · have hequals : streamName.components.equals entry.1.components = true := by
        rcases hkey with hkey | hkey
        · rw [hkey]
          exact StoredName.equals_refl streamName
        · exact Name.equals_iff.mpr
            (Name.equals_iff.mp (StoredName.equals_of_sameKey hkey)).symm
      rw [if_pos hequals, List.length_append, List.length_singleton, hvalue,
        postedUnder_congr hequals]
  · intro full hsome
    rw [hunder] at hsome
    by_cases hequals : streamName.components.equals full = true
    · obtain ⟨key, hkey, hname⟩ := dispatcher.streams.exists_mem_keys_assign streamName
        (((dispatcher.postedUnder streamName.components).length + 1) % 2 ^ 64)
      refine ⟨key, hstreams ▸ hkey, ?_⟩
      rcases hname with rfl | hname
      · exact hequals
      · rw [Name.equals_iff, Name.equals_iff.mp (StoredName.equals_of_sameKey hname),
          Name.equals_iff.mp hequals]
    · rw [if_neg hequals, List.append_nil] at hsome
      obtain ⟨key, hkey, hknown⟩ := hcounts.known full hsome
      exact ⟨key, hstreams ▸ UnorderedMap.mem_keys_assign_of_mem _ hkey, hknown⟩
  · intro full index posted hindex
    rw [hunder] at hindex
    by_cases hequals : streamName.components.equals full = true
    · rw [if_pos hequals] at hindex
      rcases lt_trichotomy index (dispatcher.postedUnder full).length with hless | heq | hmore
      · rw [List.getElem?_append_left hless] at hindex
        exact hcounts.numbered full index posted hindex
      · rw [List.getElem?_append_right heq.ge, heq, Nat.sub_self] at hindex
        obtain rfl := Option.some.inj hindex
        rw [Name.appendSequenceNumber, Name.get_append_singleton, heq,
          ← postedUnder_congr hequals]
        exact congrArg some (Component.toNumberWithMarker_fromNumberWithMarker _ hshort)
      · rw [List.getElem?_eq_none (by simpa using Nat.succ_le_of_lt hmore)] at hindex
        cases hindex
    · rw [if_neg hequals, List.append_nil] at hindex
      exact hcounts.numbered full index posted hindex

theorem Counts.addHandler (registration : Registration) (overlapped : String)
    (relPrefix : StoredName) :
    (dispatcher.addHandler registration overlapped relPrefix).Counts := by
  unfold Dispatcher.addHandler
  split_ifs with htop hoverlapped hstream
  · exact hcounts.of_frame rfl rfl
  · exact hcounts.of_frame rfl rfl
  · exact hcounts.assign_zero (isOverlappedWithOthers_eq_false hoverlapped).2 rfl rfl
  · exact hcounts.of_frame rfl rfl

theorem Counts.addTopPrefix (topPrefix : StoredName) (wantRegister registers : Bool) :
    (dispatcher.addTopPrefix topPrefix wantRegister registers).Counts := by
  unfold Dispatcher.addTopPrefix
  split_ifs
  all_goals exact hcounts.of_frame rfl rfl

theorem Counts.postNotification {signs : Bool}
    (hcountable : dispatcher.Countable (.postNotification notification relPrefix signs)) :
    (dispatcher.postNotification notification relPrefix signs).Counts := by
  unfold Dispatcher.postNotification
  cases hname : dispatcher.streamName? relPrefix with
  | none => exact hcounts
  | some streamName =>
    obtain ⟨hsigns, hhash, hshort⟩ := hcountable streamName hname
    have hcounter := hcounts.getD_find? hhash hshort
    simp only [hsigns, if_true]
    exact hcounts.post hhash hshort (by rw [hcounter]) (by rw [hcounter])

theorem Counts.apply (hcountable : dispatcher.Countable event) :
    (dispatcher.apply event).Counts := by
  cases event with
  | addTopPrefix topPrefix wantRegister registers =>
    exact hcounts.addTopPrefix topPrefix wantRegister registers
  | removeTopPrefix topPrefix => exact hcounts.of_frame rfl rfl
  | addControlCommand relPrefix | addStatusDataset relPrefix | addNotificationStream relPrefix =>
    exact hcounts.addHandler _ _ relPrefix
  | postNotification notification relPrefix signs => exact hcounts.postNotification hcountable

end

instance (dispatcher : Dispatcher hashRange) (event : Event) :
    Decidable (dispatcher.Undisturbed event) :=
  inferInstanceAs (Decidable (∀ relPrefix ∈ event.relPrefix?, _ → _ → _))

instance (dispatcher : Dispatcher hashRange) (event : Event) :
    Decidable (dispatcher.Countable event) :=
  match event with
  | .postNotification _ relPrefix signs =>
      inferInstanceAs (Decidable (∀ streamName ∈ dispatcher.streamName? relPrefix, signs = true ∧ _))
  | .addTopPrefix .. | .removeTopPrefix _ | .addControlCommand _ | .addStatusDataset _
  | .addNotificationStream _ => isTrue trivial

/-! ## The contract -/

/-- In every run the registered prefixes do not overlap. Registrations end as they do without the
notifications when none is refused for the name of a posted notification alone, and the notifications
of each stream are numbered from zero when each of them can be counted. -/
theorem contract_of_run {dispatcher : Dispatcher hashRange}
    (hrun : Run.run step (initial hashRange) events = some dispatcher) :
    Apart dispatcher.handlers.keys ∧ Apart dispatcher.topLevelPrefixes.keys ∧
      (Run.Guarded step Undisturbed (initial hashRange) events →
        ∃ quiet, Run.run step (initial hashRange) (events.filter fun event ↦ !event.isPost) =
            some quiet ∧ quiet.outcomes = dispatcher.outcomes) ∧
      (Run.Guarded step Countable (initial hashRange) events → dispatcher.IsNumbered) := by
  have happly {dispatcher next : Dispatcher hashRange} {event : Event}
      (hnext : step dispatcher event = some next) : dispatcher.apply event = next :=
    Option.some.inj hnext
  have hapart : Apart dispatcher.handlers.keys ∧ Apart dispatcher.topLevelPrefixes.keys := by
    have hempty : Apart (initial hashRange).handlers.keys ∧
        Apart (initial hashRange).topLevelPrefixes.keys :=
      ⟨List.Pairwise.nil, List.Pairwise.nil⟩
    refine Run.invariant_of_run
      (fun _ state ↦ Apart state.handlers.keys ∧ Apart state.topLevelPrefixes.keys) ?_ hempty hrun
    rintro - state event next ⟨hhandlers, hprefixes⟩ hnext
    rw [← happly hnext]
    exact apart_apply hhandlers hprefixes event
  refine ⟨hapart.1, hapart.2, fun hguarded ↦ ?_, fun hguarded ↦ ?_⟩
  · have hinitial : SameRegistrations (initial hashRange) (initial hashRange) :=
      ⟨rfl, rfl, rfl, by simp [initial, UnorderedMap.keys, UnorderedMap.empty]⟩
    obtain ⟨quiet, hquiet, hsame⟩ := hinitial.run hguarded hrun
    exact ⟨quiet, hquiet, hsame.outcomes⟩
  · have hcounts : dispatcher.Counts := by
      refine Run.invariant_of_guarded (fun _ state ↦ state.Counts) ?_ counts_initial hguarded hrun
      intro _ state event next hcounts hcountable hnext
      rw [← happly hnext]
      exact hcounts.apply hcountable
    exact hcounts.numbered

/-- A stream added before the top-level prefix, and one notification. -/
theorem contract_of_run_notification :
    ∃ dispatcher : Dispatcher List.length, dispatcher.posted.length = 1 ∧ dispatcher.IsNumbered ∧
      ∃ quiet : Dispatcher List.length, quiet.outcomes = dispatcher.outcomes := by
  let stream : StoredName := StoredName.empty.append ⟨8, [98], [8, 1, 98]⟩ (by decide)
  let top : StoredName := StoredName.empty.append ⟨8, [97], [8, 1, 97]⟩ (by decide)
  obtain ⟨-, -, hsame, hnumbered⟩ :=
    contract_of_run (show Run.run step (initial List.length)
      [.addNotificationStream stream, .addTopPrefix top false true,
        .postNotification [] stream true] = some _ from rfl)
  obtain ⟨quiet, -, houtcomes⟩ := hsame (by decide)
  exact ⟨_, rfl, hnumbered (by decide), quiet, houtcomes⟩

/-- The name of a notification makes the dispatcher refuse a relative prefix that no registered one
overlaps. -/
theorem registration_refused_after_notification :
    ∃ stream top command : StoredName, ∃ dispatcher quiet : Dispatcher List.length,
      Run.run step (initial List.length)
          [.addNotificationStream stream, .addTopPrefix top false true,
            .postNotification [] stream true, .removeTopPrefix top, .addControlCommand command] =
        some dispatcher ∧
      Run.run step (initial List.length)
          [.addNotificationStream stream, .addTopPrefix top false true, .removeTopPrefix top,
            .addControlCommand command] = some quiet ∧
      dispatcher.outcomes =
        [none, none, none, some (.outOfRange "relPrefix overlaps with another relPrefix")] ∧
      quiet.outcomes = [none, none, none, none] := by
  let stream : StoredName := StoredName.empty.append ⟨8, [98], [8, 1, 98]⟩ (by decide)
  let top : StoredName := StoredName.empty.append ⟨8, [97], [8, 1, 97]⟩ (by decide)
  exact ⟨stream, top, (top.appendName stream).append ⟨8, [99], [8, 1, 99]⟩ (by decide), _, _, rfl,
    rfl, by decide, by decide⟩

end Dispatcher

end NdnCxx
