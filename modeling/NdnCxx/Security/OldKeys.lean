import NdnCxx.Foundation.MapIterator
import NdnCxx.Security.Timestamp

/-!
# The bound on tracked keys

`cleanOldKeys` walks over the records with one iterator and remembers the oldest record with another,
which starts at the first record although that may be erased. It is followed here iterator by
iterator. No call finds more records than may be tracked; so where the loop has erased any, it has
made room, and the iterator to the oldest record is used only after a loop that has erased none. The
time to live is read through a reference, so that the object that was given for it must still exist
whenever records are compared with it.
-/

namespace NdnCxx.ValidatorConfig

open Run

variable (config : ValidatorConfig)

/-- `oldestKeyIt` and `oldestTimestamp` after a record that is not erased -/
def visitRecord (oldest record : Name × ℤ) : Name × ℤ :=
  if record.2 < oldest.2 then record else oldest

/-- `ValidatorConfig::cleanOldKeys`, with its iterators; `none` is the use of one that does not point
to a record. -/
def cleanOldKeysByIterator (now : ℤ) (lastTimestamp : LastTimestampMap) :
    Option LastTimestampMap :=
  if lastTimestamp.entries.length < config.maxTrackedKeys then some lastTimestamp
  else
    lastTimestamp.begin.bind fun oldestKeyIt ↦
      (lastTimestamp.find oldestKeyIt).bind fun oldestTimestamp ↦
        (OrderedMap.sweep (config.isExpired now) visitRecord lastTimestamp.entries.length
          lastTimestamp lastTimestamp.begin (oldestKeyIt, oldestTimestamp)).bind
            fun (swept, oldest) ↦
              if swept.entries.length ≥ config.maxTrackedKeys then swept.eraseAt oldest.1
              else some swept

/-- `ValidatorConfig::checkTimestamp`, with its iterators -/
def checkTimestampByIterator (interestName keyName : Name) (currentTime now : ℤ)
    (lastTimestamp : LastTimestampMap) : Option (Call × LastTimestampMap) :=
  match interestTime interestName with
  | .error _ => some (.failed "Cannot decode signature related TLVs", lastTimestamp)
  | .ok time =>
      match lastTimestamp.find keyName with
      | none =>
          if ¬ (currentTime - config.graceInterval ≤ time ∧
              time ≤ currentTime + config.graceInterval) then
            some (.failed ("The command is not in grace interval: " ++ interestName.toUri),
              lastTimestamp)
          else
            (config.cleanOldKeysByIterator now lastTimestamp).map fun cleaned ↦
              (.validated, cleaned.assign keyName time)
      | some recorded =>
          if time ≤ recorded then
            some (.failed ("The command is outdated: " ++ interestName.toUri), lastTimestamp)
          else some (.validated, lastTimestamp.setValue keyName time)

/-- One call of `checkTimestamp`, at whatever readings of the clock. -/
def receiveByIterator (state : TimestampState) (arrival : Arrival) : Option TimestampState :=
  (config.checkTimestampByIterator arrival.interestName arrival.keyName arrival.currentTime
    arrival.now state.lastTimestamp).map fun result ↦ ⟨result.2, arrival.now, state.durationLives⟩

/-- The time to live still exists if the event makes `cleanOldKeys` read it. -/
def ReadsLiving (state : TimestampState) (event : TimestampEvent) : Prop :=
  ∀ arrival, event = .arrive arrival → config.ReadsDuration state arrival →
    state.durationLives = true

/-- Only expired records are gone, or, where there are none, one record with the least timestamp. -/
def IsCleaned (now : ℤ) (before after : LastTimestampMap) : Prop :=
  (∀ record ∈ after, record ∈ before) ∧
    ((∀ record ∈ before, record ∉ after → config.isExpired now record.2 = true) ∨
      (∀ record ∈ before, config.isExpired now record.2 = false) ∧
        ∃ oldest ∈ before, (∀ record ∈ before, oldest.2 ≤ record.2) ∧
          ∀ record, record ∈ after ↔ record ∈ before ∧ record ≠ oldest)

/-! ## The oldest record -/

theorem foldl_visitRecord_mem (first : Name × ℤ) (records : List (Name × ℤ)) :
    records.foldl visitRecord first ∈ first :: records := by
  induction records generalizing first with
  | nil => exact List.mem_singleton_self _
  | cons record records ih =>
    rw [List.foldl_cons]
    have hvisit : visitRecord first record = record ∨ visitRecord first record = first := by
      unfold visitRecord
      split_ifs
      · exact .inl rfl
      · exact .inr rfl
    have hmem := ih (visitRecord first record)
    rcases hvisit with hvisit | hvisit <;> rw [hvisit] at hmem ⊢
    · exact List.mem_cons_of_mem _ hmem
    · rcases List.mem_cons.mp hmem with hfirst | hrest
      · rw [hfirst]
        exact List.mem_cons_self
      · exact List.mem_cons_of_mem _ (List.mem_cons_of_mem _ hrest)

theorem foldl_visitRecord_le (first : Name × ℤ) (records : List (Name × ℤ)) :
    ∀ record ∈ first :: records, (records.foldl visitRecord first).2 ≤ record.2 := by
  induction records generalizing first with
  | nil =>
    intro record hmem
    rw [List.mem_singleton.mp hmem]
    exact le_rfl
  | cons visited records ih =>
    have hle : (visitRecord first visited).2 ≤ first.2 ∧
        (visitRecord first visited).2 ≤ visited.2 := by
      unfold visitRecord
      split_ifs with hlt
      · exact ⟨hlt.le, le_rfl⟩
      · exact ⟨le_rfl, not_lt.mp hlt⟩
    intro record hmem
    rw [List.foldl_cons]
    have hleast := ih (visitRecord first visited)
    rcases List.mem_cons.mp hmem with rfl | hmem
    · exact (hleast _ List.mem_cons_self).trans hle.1
    · rcases List.mem_cons.mp hmem with rfl | hmem
      · exact (hleast _ List.mem_cons_self).trans hle.2
      · exact hleast record (List.mem_cons_of_mem _ hmem)

/-! ## One cleaning -/

variable {config} {now : ℤ} {lastTimestamp : LastTimestampMap} {first : Name × ℤ}
    {rest : List (Name × ℤ)}

/-- The oldest record of a table that has a first one is a record of it. -/
theorem oldest_mem (hentries : lastTimestamp.entries = first :: rest) :
    lastTimestamp.entries.foldl visitRecord first ∈ lastTimestamp := by
  have hmem := foldl_visitRecord_mem first lastTimestamp.entries
  rcases List.mem_cons.mp hmem with hfirst | hmem
  · rw [hfirst, OrderedMap.mem_def, hentries]
    exact List.mem_cons_self
  · exact hmem

/-- The loop over the table -/
theorem sweep_lastTimestamp (config : ValidatorConfig) (now : ℤ) (lastTimestamp : LastTimestampMap)
    (first : Name × ℤ) :
    OrderedMap.sweep (config.isExpired now) visitRecord lastTimestamp.entries.length
        lastTimestamp lastTimestamp.begin first =
      some (config.eraseExpired now lastTimestamp,
        (config.eraseExpired now lastTimestamp).entries.foldl visitRecord first) := by
  have hsplit : lastTimestamp.entries = [] ++ lastTimestamp.entries := rfl
  obtain ⟨swept, hswept, hleft⟩ :
      ∃ swept, OrderedMap.sweep (config.isExpired now) visitRecord lastTimestamp.entries.length
          lastTimestamp lastTimestamp.begin first = some (swept, (lastTimestamp.entries.filter
            fun entry ↦ !config.isExpired now entry.2).foldl visitRecord first) ∧
        swept.entries =
          [] ++ lastTimestamp.entries.filter fun entry ↦ !config.isExpired now entry.2 :=
    OrderedMap.sweep_of_split hsplit le_rfl
  have hsame : swept = config.eraseExpired now lastTimestamp :=
    OrderedMap.eq_of_entries_eq (by rw [hleft]; rfl)
  rw [← hsame, hleft]
  exact hswept

theorem cleanOldKeys_of_cons (hentries : lastTimestamp.entries = first :: rest)
    (hroom : ¬ lastTimestamp.entries.length < config.maxTrackedKeys) (now : ℤ) :
    config.cleanOldKeys now lastTimestamp =
      if (config.eraseExpired now lastTimestamp).entries.length ≥ config.maxTrackedKeys then
        (config.eraseExpired now lastTimestamp).eraseKey
          ((config.eraseExpired now lastTimestamp).entries.foldl visitRecord first).1
      else config.eraseExpired now lastTimestamp := by
  unfold cleanOldKeys
  rw [if_neg hroom]
  split
  · rename_i hnil
    rw [hentries] at hnil
    cases hnil
  · rename_i first' rest' hcons
    obtain ⟨rfl, -⟩ := List.cons.inj (hcons.symm.trans hentries)
    rfl

/-- If as many records are left as there were, none has expired. -/
theorem eraseExpired_eq_self
    (hfull : lastTimestamp.entries.length ≤
      (config.eraseExpired now lastTimestamp).entries.length) :
    config.eraseExpired now lastTimestamp = lastTimestamp ∧
      ∀ record ∈ lastTimestamp, config.isExpired now record.2 = false := by
  have hall : lastTimestamp.entries.filter (fun record ↦ !config.isExpired now record.2) =
      lastTimestamp.entries :=
    List.filter_sublist.eq_of_length_le hfull
  refine ⟨OrderedMap.eq_of_entries_eq hall, fun record hmem ↦ ?_⟩
  have hfresh := List.filter_eq_self.mp hall record hmem
  simpa using hfresh

/-- A table that is full and no more is cleaned without the use of an invalid iterator. -/
theorem cleanOldKeysByIterator_eq (hkeys : 1 ≤ config.maxTrackedKeys) (now : ℤ)
    (hsize : lastTimestamp.entries.length ≤ config.maxTrackedKeys) :
    config.cleanOldKeysByIterator now lastTimestamp =
      some (config.cleanOldKeys now lastTimestamp) := by
  by_cases hroom : lastTimestamp.entries.length < config.maxTrackedKeys
  · rw [cleanOldKeysByIterator, cleanOldKeys, if_pos hroom, if_pos hroom]
  obtain ⟨first, rest, hentries⟩ : ∃ first rest, lastTimestamp.entries = first :: rest := by
    apply List.exists_cons_of_length_pos
    omega
  have hbegin : lastTimestamp.begin = some first.1 := by
    rw [OrderedMap.begin, hentries]
    rfl
  have hsplit : lastTimestamp.entries = [] ++ (first.1, first.2) :: rest := hentries
  have hfind : lastTimestamp.find first.1 = some first.2 := OrderedMap.find_of_split hsplit
  have hsweep := sweep_lastTimestamp config now lastTimestamp first
  rw [cleanOldKeys_of_cons hentries hroom, cleanOldKeysByIterator, if_neg hroom]
  rw [hbegin] at hsweep ⊢
  rw [Option.bind_some, hfind, Option.bind_some, hsweep, Option.bind_some]
  dsimp only
  split_ifs with hfull
  · -- nothing was erased, so the iterator to the oldest record is valid
    obtain ⟨hsame, -⟩ := eraseExpired_eq_self (hsize.trans hfull)
    have hoccurs := OrderedMap.find_eq_some_iff.mpr (oldest_mem hentries)
    rw [hsame, OrderedMap.eraseAt, hoccurs]
    rfl
  · rfl

/-- What a cleaning removes, and that it makes room for one more record. -/
theorem isCleaned_cleanOldKeys (hkeys : 1 ≤ config.maxTrackedKeys) (now : ℤ)
    (hsize : lastTimestamp.entries.length ≤ config.maxTrackedKeys) :
    config.IsCleaned now lastTimestamp (config.cleanOldKeys now lastTimestamp) ∧
      (config.cleanOldKeys now lastTimestamp).entries.length + 1 ≤ config.maxTrackedKeys := by
  by_cases hroom : lastTimestamp.entries.length < config.maxTrackedKeys
  · rw [cleanOldKeys, if_pos hroom]
    exact ⟨⟨fun _ hmem ↦ hmem, .inl fun _ hmem hgone ↦ absurd hmem hgone⟩, hroom⟩
  obtain ⟨first, rest, hentries⟩ : ∃ first rest, lastTimestamp.entries = first :: rest := by
    apply List.exists_cons_of_length_pos
    omega
  rw [cleanOldKeys_of_cons hentries hroom]
  split_ifs with hfull
  · obtain ⟨hsame, hfresh⟩ := eraseExpired_eq_self (hsize.trans hfull)
    rw [hsame]
    obtain ⟨oldest, holdest⟩ : ∃ oldest, oldest = lastTimestamp.entries.foldl visitRecord first :=
      ⟨_, rfl⟩
    rw [← holdest]
    have hmem : oldest ∈ lastTimestamp := by
      rw [holdest]
      exact oldest_mem hentries
    have hleast : ∀ record ∈ lastTimestamp, oldest.2 ≤ record.2 := by
      intro record hrecord
      rw [holdest]
      exact foldl_visitRecord_le first lastTimestamp.entries record (List.mem_cons_of_mem _ hrecord)
    have hleft : ∀ record, record ∈ lastTimestamp.eraseKey oldest.1 ↔
        record ∈ lastTimestamp ∧ record ≠ oldest := by
      intro record
      rw [OrderedMap.mem_eraseKey]
      refine and_congr_right fun hrecord ↦ not_congr ?_
      constructor
      · intro hkey
        exact OrderedMap.entry_unique hrecord hmem hkey
      · intro hrecord
        rw [hrecord]
    refine ⟨⟨fun record hrecord ↦ ((hleft record).mp hrecord).1,
      .inr ⟨hfresh, oldest, hmem, hleast, hleft⟩⟩, ?_⟩
    obtain ⟨front, back, hsplit⟩ := List.append_of_mem hmem
    have hsplit' : lastTimestamp.entries = front ++ (oldest.1, oldest.2) :: back := hsplit
    obtain ⟨-, herased⟩ := OrderedMap.eraseAt_of_split hsplit'
    have hlength : lastTimestamp.entries.length = (front ++ back).length + 1 := by
      rw [hsplit, List.length_append, List.length_append, List.length_cons]
      omega
    rw [herased]
    omega
  · refine ⟨⟨fun record hmem ↦ (mem_eraseExpired.mp hmem).1, .inl fun record hmem hgone ↦ ?_⟩, ?_⟩
    · by_contra hfresh
      exact hgone (mem_eraseExpired.mpr ⟨hmem, by simpa using hfresh⟩)
    · omega

/-! ## Every run -/

/-- Within the bound the iterators are those of the check on the table. -/
theorem checkTimestampByIterator_eq (hkeys : 1 ≤ config.maxTrackedKeys)
    (hsize : lastTimestamp.entries.length ≤ config.maxTrackedKeys) (interestName keyName : Name)
    (currentTime now : ℤ) :
    config.checkTimestampByIterator interestName keyName currentTime now lastTimestamp =
      some (config.checkTimestamp interestName keyName currentTime now lastTimestamp) := by
  have hclean := cleanOldKeysByIterator_eq hkeys now hsize
  unfold checkTimestampByIterator checkTimestamp
  cases interestTime interestName with
  | error error => rfl
  | ok time =>
    dsimp only
    cases lastTimestamp.find keyName with
    | none =>
      dsimp only
      rw [hclean]
      split_ifs <;> rfl
    | some recorded =>
      dsimp only
      split_ifs <;> rfl

/-- One call keeps the bound and uses no invalid iterator. -/
theorem receiveByIterator_spec (hkeys : 1 ≤ config.maxTrackedKeys) (state : TimestampState)
    (arrival : Arrival) (hsize : state.lastTimestamp.entries.length ≤ config.maxTrackedKeys) :
    ∃ next, config.receiveByIterator state arrival = some next ∧
      next.lastTimestamp.entries.length ≤ config.maxTrackedKeys := by
  obtain ⟨-, hmakesRoom⟩ := isCleaned_cleanOldKeys hkeys arrival.now hsize
  refine ⟨_, by rw [receiveByIterator, checkTimestampByIterator_eq hkeys hsize]; rfl, ?_⟩
  rcases checkTimestamp_cases config arrival state.lastTimestamp with ⟨-, hresult⟩ |
    ⟨time, -, -, -, hresult⟩ | ⟨time, recorded, -, -, -, hresult⟩
  · dsimp only
    rw [hresult]
    exact hsize
  · dsimp only
    rw [hresult]
    exact (OrderedMap.length_assign_le _ _ _).trans hmakesRoom
  · dsimp only
    rw [hresult, OrderedMap.length_setValue]
    exact hsize

/-- An event has a result just where it reads no time to live that is gone, and keeps the bound. -/
theorem stepByIterator_spec (hkeys : 1 ≤ config.maxTrackedKeys) (state : TimestampState)
    (event : TimestampEvent) (hsize : state.lastTimestamp.entries.length ≤ config.maxTrackedKeys) :
    ((∃ next, config.step config.receiveByIterator state event = some next) ↔
      config.ReadsLiving state event) ∧
    ∀ next, config.step config.receiveByIterator state event = some next →
      next.lastTimestamp.entries.length ≤ config.maxTrackedKeys := by
  cases event with
  | endDuration =>
    refine ⟨iff_of_true ⟨_, rfl⟩ fun arrival heq ↦ (by cases heq), fun next hstep ↦ ?_⟩
    rw [← Option.some.inj hstep]
    exact hsize
  | arrive arrival =>
    obtain ⟨next, hreceive, hnext⟩ := receiveByIterator_spec hkeys state arrival hsize
    have hliving : config.ReadsLiving state (.arrive arrival) ↔
        ¬(config.ReadsDuration state arrival ∧ state.durationLives = false) := by
      simp [ReadsLiving]
    rw [hliving, step]
    split_ifs with hgone
    · simp [hgone]
    · refine ⟨iff_of_true ⟨next, hreceive⟩ hgone, fun other hother ↦ ?_⟩
      rw [← Option.some.inj (hreceive.symm.trans hother)]
      exact hnext

/-- A run has a result, without the use of an invalid iterator, just where each time to live that is
read still exists. The table is then within the bound, and so does the next cleaning find it, which
removes expired records only or else the oldest one. -/
theorem tracks_within_bound_of_run (config : ValidatorConfig) (hkeys : 1 ≤ config.maxTrackedKeys)
    (clock : ℤ) (events : List TimestampEvent) :
    ((∃ state, run (config.step config.receiveByIterator) ⟨OrderedMap.empty, clock, true⟩ events =
        some state) ↔
      Guarded (config.step config.receiveByIterator) config.ReadsLiving
        ⟨OrderedMap.empty, clock, true⟩ events) ∧
    ∀ state, run (config.step config.receiveByIterator) ⟨OrderedMap.empty, clock, true⟩ events =
        some state →
      state.lastTimestamp.entries.length ≤ config.maxTrackedKeys ∧
      (state.lastTimestamp.entries.length < config.maxTrackedKeys ∨ state.durationLives = true →
        ∀ now, ∃ cleaned, config.cleanOldKeysByIterator now state.lastTimestamp = some cleaned ∧
          config.IsCleaned now state.lastTimestamp cleaned) := by
  have hruns : ∀ start : TimestampState,
      start.lastTimestamp.entries.length ≤ config.maxTrackedKeys →
        ((∃ state, run (config.step config.receiveByIterator) start events = some state) ↔
          Guarded (config.step config.receiveByIterator) config.ReadsLiving start events) ∧
        ∀ state, run (config.step config.receiveByIterator) start events = some state →
          state.lastTimestamp.entries.length ≤ config.maxTrackedKeys := by
    induction events with
    | nil =>
      refine fun start hstart ↦ ⟨iff_of_true ⟨start, rfl⟩ trivial, fun state hrun ↦ ?_⟩
      rwa [← Option.some.inj hrun]
    | cons event events ih =>
      intro start hstart
      obtain ⟨hdefined, hkept⟩ := stepByIterator_spec hkeys start event hstart
      simp only [run_cons_eq_some, Guarded, ← hdefined]
      refine ⟨⟨?_, ?_⟩, ?_⟩
      · rintro ⟨state, next, hnext, hrun⟩
        refine ⟨⟨next, hnext⟩, fun other hother ↦ ?_⟩
        obtain rfl := Option.some.inj (hnext.symm.trans hother)
        exact (ih next (hkept next hnext)).1.mp ⟨state, hrun⟩
      · rintro ⟨⟨next, hnext⟩, hguarded⟩
        obtain ⟨state, hrun⟩ := (ih next (hkept next hnext)).1.mpr (hguarded next hnext)
        exact ⟨state, next, hnext, hrun⟩
      · rintro state ⟨next, hnext, hrun⟩
        exact (ih next (hkept next hnext)).2 state hrun
  obtain ⟨hdefined, hbound⟩ := hruns ⟨OrderedMap.empty, clock, true⟩ (Nat.zero_le _)
  refine ⟨hdefined, fun state hrun ↦ ⟨hbound state hrun, fun _ now ↦ ?_⟩⟩
  have hsize := hbound state hrun
  exact ⟨_, cleanOldKeysByIterator_eq hkeys now hsize, (isCleaned_cleanOldKeys hkeys now hsize).1⟩

/-- Two keys where one may be tracked -/
def twoArrivals : List TimestampEvent :=
  [.arrive (arrivalOf [.generic [65]] 1000000), .arrive (arrivalOf [.generic [66]] 2000000)]

/-- One key is tracked; the second one takes the place of the first. -/
theorem tracks_within_bound_of_run_oneKey :
    ∃ state, run (oneKey.step oneKey.receiveByIterator) ⟨OrderedMap.empty, 0, true⟩ twoArrivals =
        some state ∧
      state.lastTimestamp.entries.length ≤ oneKey.maxTrackedKeys ∧
      ∀ now, ∃ cleaned, oneKey.cleanOldKeysByIterator now state.lastTimestamp = some cleaned ∧
        oneKey.IsCleaned now state.lastTimestamp cleaned := by
  have hsome : ((run (oneKey.step oneKey.receiveByIterator) ⟨OrderedMap.empty, 0, true⟩
      twoArrivals).map TimestampState.durationLives) = some true := by decide +kernel
  obtain ⟨state, hrun, hlives⟩ := Option.map_eq_some_iff.mp hsome
  obtain ⟨hsize, hcleaned⟩ := (tracks_within_bound_of_run oneKey (by decide) 0 twoArrivals).2 _ hrun
  exact ⟨state, hrun, hsize, hcleaned (.inr hlives)⟩

/-- A time to live that was a temporary of the constructor call is gone when the second key finds the
table full. -/
theorem not_defined_endDuration :
    ¬∃ state, run (oneKey.step oneKey.receiveByIterator) ⟨OrderedMap.empty, 0, true⟩
      (.endDuration :: twoArrivals) = some state := by
  rintro ⟨state, hrun⟩
  have hnone : run (oneKey.step oneKey.receiveByIterator) ⟨OrderedMap.empty, 0, true⟩
      (.endDuration :: twoArrivals) = none := by decide +kernel
  rw [hnone] at hrun
  cases hrun

end NdnCxx.ValidatorConfig
