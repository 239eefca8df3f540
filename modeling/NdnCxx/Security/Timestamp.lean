import NdnCxx.Security.ValidatorConfig

/-!
# Replay protection of signed Interests

`checkTimestamp` remembers the last timestamp of each key. This module follows the table over whole
runs with a non-decreasing clock. As long as the record of a key is only dropped because of its age,
the accepted timestamps of that key are strictly increasing, so nothing is accepted twice. The
number of tracked keys is bounded by design: when the bound is reached the oldest record gives way
although it has not expired, and its key then starts afresh within the grace interval.

The validator keeps a reference to the time to live that it is given. The reference is read when an
untracked key finds the table full, and by then the object may be gone: nothing is known of what the
code does from there on.
-/

namespace NdnCxx.ValidatorConfig

open Run

/-- A signed Interest at `checkTimestamp`, with the two readings of the clock. -/
structure Arrival where
  interestName : Name
  keyName : Name
  currentTime : ℤ
  now : ℤ

/-- The table of timestamps, the last reading of the clock, and whether the object still exists that
`m_keyTimestampTtl` refers to -/
structure TimestampState where
  lastTimestamp : LastTimestampMap
  clock : ℤ
  durationLives : Bool

variable (config : ValidatorConfig)

/-- One call of `checkTimestamp`; the clock does not go back. -/
def receive (state : TimestampState) (arrival : Arrival) : Option TimestampState :=
  if state.clock ≤ arrival.currentTime ∧ arrival.currentTime ≤ arrival.now then
    some ⟨(config.checkTimestamp arrival.interestName arrival.keyName arrival.currentTime
      arrival.now state.lastTimestamp).2, arrival.now, state.durationLives⟩
  else none

def Accepts (state : TimestampState) (arrival : Arrival) : Prop :=
  (config.checkTimestamp arrival.interestName arrival.keyName arrival.currentTime arrival.now
    state.lastTimestamp).1 = .validated

instance (state : TimestampState) (arrival : Arrival) : Decidable (config.Accepts state arrival) :=
  inferInstanceAs (Decidable (_ = _))

/-- `cleanOldKeys` compares the ages of the records with `m_keyTimestampTtl`. -/
def ReadsDuration (state : TimestampState) (arrival : Arrival) : Prop :=
  config.Accepts state arrival ∧ state.lastTimestamp.find arrival.keyName = none ∧
    config.maxTrackedKeys ≤ state.lastTimestamp.entries.length

instance (state : TimestampState) (arrival : Arrival) :
    Decidable (config.ReadsDuration state arrival) :=
  inferInstanceAs (Decidable (_ ∧ _ ∧ _))

/-- A signed Interest, or the end of the object that was given as time to live -/
inductive TimestampEvent
  | arrive (arrival : Arrival)
  | endDuration

/-- One event, over a model of the call; `none` is also the use of an object that has ended. -/
def step (receive : TimestampState → Arrival → Option TimestampState) (state : TimestampState) :
    TimestampEvent → Option TimestampState
  | .arrive arrival =>
      if config.ReadsDuration state arrival ∧ state.durationLives = false then none
      else receive state arrival
  | .endDuration => some { state with durationLives := false }

/-- The arrival of an untracked key makes the record of `keyName` give way: all expired records are
gone, the table is still full, and the record is the oldest. -/
def EvictsForCapacity (state : TimestampState) (arrival : Arrival) (keyName : Name) : Prop :=
  config.Accepts state arrival ∧ state.lastTimestamp.find arrival.keyName = none ∧
    config.maxTrackedKeys ≤ (config.eraseExpired arrival.now state.lastTimestamp).entries.length ∧
    ∃ first rest, state.lastTimestamp.entries = first :: rest ∧
      oldestKey first (config.eraseExpired arrival.now state.lastTimestamp).entries = keyName

/-! ## What one call does to the table -/

section Step

variable {config} {state next : TimestampState} {arrival : Arrival}

theorem receive_eq_some_iff :
    config.receive state arrival = some next ↔
      state.clock ≤ arrival.currentTime ∧ arrival.currentTime ≤ arrival.now ∧
        next = ⟨(config.checkTimestamp arrival.interestName arrival.keyName arrival.currentTime
          arrival.now state.lastTimestamp).2, arrival.now, state.durationLives⟩ := by
  unfold receive
  split_ifs with hclock
  · simp [hclock, eq_comm]
  · apply iff_of_false (by simp)
    rintro ⟨hfirst, hsecond, -⟩
    exact hclock ⟨hfirst, hsecond⟩

/-- Every way `checkTimestamp` can end. -/
theorem checkTimestamp_cases (config : ValidatorConfig) (arrival : Arrival)
    (lastTimestamp : LastTimestampMap) :
    let result := config.checkTimestamp arrival.interestName arrival.keyName arrival.currentTime
      arrival.now lastTimestamp
    (result.1 ≠ .validated ∧ result.2 = lastTimestamp) ∨
    (∃ time, interestTime arrival.interestName = .ok time ∧
      lastTimestamp.find arrival.keyName = none ∧
      arrival.currentTime - config.graceInterval ≤ time ∧
      result = (.validated, (config.cleanOldKeys arrival.now lastTimestamp).assign
        arrival.keyName time)) ∨
    (∃ time recorded, interestTime arrival.interestName = .ok time ∧
      lastTimestamp.find arrival.keyName = some recorded ∧ recorded < time ∧
      result = (.validated, lastTimestamp.setValue arrival.keyName time)) := by
  unfold checkTimestamp
  cases htime : interestTime arrival.interestName with
  | error error => exact Or.inl ⟨by simp, rfl⟩
  | ok time =>
    cases hfind : lastTimestamp.find arrival.keyName with
    | none =>
      simp only
      by_cases hgrace : arrival.currentTime - config.graceInterval ≤ time ∧
          time ≤ arrival.currentTime + config.graceInterval
      · rw [if_neg (not_not.mpr hgrace)]
        exact Or.inr (Or.inl ⟨time, rfl, trivial, hgrace.1, rfl⟩)
      · rw [if_pos hgrace]
        exact Or.inl ⟨by simp, rfl⟩
    | some recorded =>
      simp only
      split_ifs with houtdated
      · exact Or.inl ⟨by simp, rfl⟩
      · exact Or.inr (Or.inr ⟨time, recorded, rfl, rfl, not_le.mp houtdated, rfl⟩)

variable {lastTimestamp : LastTimestampMap} {entry : Name × ℤ} {now : ℤ}

theorem mem_eraseExpired :
    entry ∈ config.eraseExpired now lastTimestamp ↔
      entry ∈ lastTimestamp ∧ config.isExpired now entry.2 = false := by
  simp [OrderedMap.mem_def, eraseExpired]

theorem mem_of_mem_cleanOldKeys (hmem : entry ∈ config.cleanOldKeys now lastTimestamp) :
    entry ∈ lastTimestamp := by
  unfold cleanOldKeys at hmem
  split_ifs at hmem
  · exact hmem
  · split at hmem
    · exact hmem
    · simp only at hmem
      split_ifs at hmem
      · exact (mem_eraseExpired.mp (OrderedMap.mem_eraseKey.mp hmem).1).1
      · exact (mem_eraseExpired.mp hmem).1

/-- A record that is neither expired nor the one that gives way stays. -/
theorem mem_cleanOldKeys (hmem : entry ∈ lastTimestamp)
    (hfresh : config.isExpired now entry.2 = false)
    (hkept : ∀ first rest, lastTimestamp.entries = first :: rest →
      config.maxTrackedKeys ≤ (config.eraseExpired now lastTimestamp).entries.length →
      oldestKey first (config.eraseExpired now lastTimestamp).entries ≠ entry.1) :
    entry ∈ config.cleanOldKeys now lastTimestamp := by
  have hremains : entry ∈ config.eraseExpired now lastTimestamp :=
    mem_eraseExpired.mpr ⟨hmem, hfresh⟩
  unfold cleanOldKeys
  split_ifs
  · exact hmem
  · split
    · exact hmem
    · next first rest hentries =>
      simp only
      split_ifs with hfull
      · exact OrderedMap.mem_eraseKey.mpr ⟨hremains, (hkept first rest hentries hfull).symm⟩
      · exact hremains

/-- What an event does where nothing is undefined -/
theorem step_cases {receive : TimestampState → Arrival → Option TimestampState}
    {event : TimestampEvent} (hstep : config.step receive state event = some next) :
    (∃ arrival, event = .arrive arrival ∧ receive state arrival = some next) ∨
      event = .endDuration ∧ next = { state with durationLives := false } := by
  cases event with
  | arrive arrival =>
    rw [step] at hstep
    split_ifs at hstep
    exact .inl ⟨arrival, rfl, hstep⟩
  | endDuration => exact .inr ⟨rfl, (Option.some.inj hstep).symm⟩

end Step

/-! ## What the table remembers of an accepted timestamp -/

/-- The key is tracked with a timestamp not below `time`, or `time` lies too far back to be accepted
for an untracked key. -/
def Remembers (keyName : Name) (time : ℤ) (state : TimestampState) : Prop :=
  (∃ recorded, (keyName, recorded) ∈ state.lastTimestamp ∧ time ≤ recorded) ∨
    (∀ entry ∈ state.lastTimestamp, entry.1 ≠ keyName) ∧ time + config.graceInterval < state.clock

section Memory

variable {config} {state next : TimestampState} {arrival : Arrival} {keyName : Name} {time : ℤ}

theorem remembers_of_accepts (haccepts : config.Accepts state arrival)
    (hstep : config.receive state arrival = some next)
    (htime : interestTime arrival.interestName = .ok time) :
    config.Remembers arrival.keyName time next := by
  obtain ⟨-, -, rfl⟩ := receive_eq_some_iff.mp hstep
  unfold Accepts at haccepts
  rcases checkTimestamp_cases config arrival state.lastTimestamp with ⟨hrejected, -⟩ |
    ⟨time', htime', -, -, hresult⟩ | ⟨time', recorded, htime', hfind, -, hresult⟩
  · exact absurd haccepts hrejected
  · obtain rfl : time' = time := by simpa [htime'] using htime
    left
    rw [hresult]
    exact ⟨time', OrderedMap.mem_assign.mpr (Or.inl rfl), le_rfl⟩
  · obtain rfl : time' = time := by simpa [htime'] using htime
    left
    rw [hresult]
    have hmem := OrderedMap.find_eq_some_iff.mp hfind
    exact ⟨time', (OrderedMap.mem_setValue ⟨recorded, hmem⟩).mpr (Or.inl rfl), le_rfl⟩

/-- One call keeps the memory of an earlier acceptance, unless the record makes room for another
key. -/
theorem remembers_receive (httl : config.graceInterval ≤ config.keyTimestampTtl)
    (hremembers : config.Remembers keyName time state)
    (hkept : ¬ config.EvictsForCapacity state arrival keyName)
    (hstep : config.receive state arrival = some next) :
    config.Remembers keyName time next := by
  obtain ⟨hclock, hnow, rfl⟩ := receive_eq_some_iff.mp hstep
  rcases checkTimestamp_cases config arrival state.lastTimestamp with ⟨-, hresult⟩ |
    ⟨arrived, -, habsent, hgrace, hresult⟩ | ⟨arrived, recorded', -, hfind, hnewer, hresult⟩
  · -- a rejected Interest leaves the table alone
    rw [Remembers, hresult]
    refine hremembers.imp id fun hgone ↦ ⟨hgone.1, ?_⟩
    have hlate := hgone.2
    simp only
    omega
  · have haccepts : config.Accepts state arrival := by rw [Accepts, hresult]
    rw [Remembers, hresult]
    rw [OrderedMap.find_eq_none_iff] at habsent
    by_cases hkey : arrival.keyName = keyName
    · left
      refine ⟨arrived, OrderedMap.mem_assign.mpr (Or.inl (by rw [hkey])), ?_⟩
      rcases hremembers with ⟨recorded, hmem, -⟩ | ⟨-, hlate⟩
      · exact absurd hkey.symm (habsent _ hmem)
      · omega
    · rcases hremembers with ⟨recorded, hmem, hle⟩ | ⟨hgone, hlate⟩
      · by_cases hstays : (keyName, recorded) ∈ config.cleanOldKeys arrival.now state.lastTimestamp
        · exact Or.inl ⟨recorded, OrderedMap.mem_assign.mpr (Or.inr ⟨hstays, Ne.symm hkey⟩), hle⟩
        · right
          refine ⟨fun entry hentry hname ↦ ?_, ?_⟩
          · rcases OrderedMap.mem_assign.mp hentry with rfl | ⟨hold, -⟩
            · exact hkey hname
            · have hsame := OrderedMap.entry_unique (mem_of_mem_cleanOldKeys hold) hmem hname
              exact hstays (hsame ▸ hold)
          · -- it did not give way, so it was dropped because of its age
            have hexpired : config.isExpired arrival.now recorded = true := by
              by_contra hfresh
              refine hstays (mem_cleanOldKeys hmem (by simpa using hfresh) ?_)
              intro first rest hentries hfull holdest
              exact hkept ⟨haccepts, OrderedMap.find_eq_none_iff.mpr habsent, hfull, first, rest,
                hentries, holdest⟩
            simp only [isExpired, gt_iff_lt, decide_eq_true_eq] at hexpired
            simp only
            omega
      · right
        refine ⟨fun entry hentry ↦ ?_, by simp only; omega⟩
        rcases OrderedMap.mem_assign.mp hentry with rfl | ⟨hold, -⟩
        · exact hkey
        · exact hgone entry (mem_of_mem_cleanOldKeys hold)
  · rw [Remembers, hresult]
    have hmem' := OrderedMap.find_eq_some_iff.mp hfind
    rcases hremembers with ⟨recorded, hmem, hle⟩ | ⟨hgone, hlate⟩
    · left
      by_cases hkey : arrival.keyName = keyName
      · have hsame := OrderedMap.entry_unique hmem hmem' hkey.symm
        obtain rfl : recorded = recorded' := congrArg Prod.snd hsame
        exact ⟨arrived, (OrderedMap.mem_setValue ⟨recorded, hmem'⟩).mpr (Or.inl (by rw [hkey])),
          by omega⟩
      · exact ⟨recorded, (OrderedMap.mem_setValue ⟨recorded', hmem'⟩).mpr
          (Or.inr ⟨hmem, Ne.symm hkey⟩), hle⟩
    · right
      refine ⟨fun entry hentry ↦ ?_, by simp only; omega⟩
      rcases (OrderedMap.mem_setValue ⟨recorded', hmem'⟩).mp hentry with rfl | ⟨hold, -⟩
      · exact hgone (arrival.keyName, recorded') hmem'
      · exact hgone entry hold

/-- What is remembered is not accepted again. -/
theorem lt_of_remembers (hremembers : config.Remembers keyName time state)
    (haccepts : config.Accepts state arrival) (hclock : state.clock ≤ arrival.currentTime)
    (hkey : arrival.keyName = keyName) {arrived : ℤ}
    (htime : interestTime arrival.interestName = .ok arrived) : time < arrived := by
  rcases checkTimestamp_cases config arrival state.lastTimestamp with ⟨hrejected, -⟩ |
    ⟨arrived', htime', habsent, hgrace, -⟩ | ⟨arrived', recorded', htime', hfind, hnewer, -⟩
  · exact absurd haccepts hrejected
  · obtain rfl : arrived' = arrived := by simpa [htime'] using htime
    rcases hremembers with ⟨recorded, hmem, -⟩ | ⟨-, hlate⟩
    · exact absurd hkey.symm (OrderedMap.find_eq_none_iff.mp habsent _ hmem)
    · omega
  · obtain rfl : arrived' = arrived := by simpa [htime'] using htime
    have hmem' := OrderedMap.find_eq_some_iff.mp hfind
    rcases hremembers with ⟨recorded, hmem, hle⟩ | ⟨hgone, -⟩
    · have hsame := OrderedMap.entry_unique hmem hmem' hkey.symm
      obtain rfl : recorded = recorded' := congrArg Prod.snd hsame
      omega
    · exact absurd hkey (hgone _ hmem')

theorem interestTime_of_accepts (haccepts : config.Accepts state arrival) :
    ∃ time, interestTime arrival.interestName = .ok time := by
  rcases checkTimestamp_cases config arrival state.lastTimestamp with ⟨hrejected, -⟩ |
    ⟨time, htime, -⟩ | ⟨time, recorded, htime, -⟩
  · exact absurd haccepts hrejected
  · exact ⟨time, htime⟩
  · exact ⟨time, htime⟩

end Memory

/-! ## Runs -/

/-- An event that does not let the record of the key give way to another one -/
def Keeps (config : ValidatorConfig) (keyName : Name) (state : TimestampState)
    (event : TimestampEvent) : Prop :=
  ∀ arrival, event = .arrive arrival → ¬ config.EvictsForCapacity state arrival keyName

/-- Between two acceptances for one key without an eviction, the timestamp has grown. -/
theorem interestTime_lt_of_accepts {config : ValidatorConfig}
    (httl : config.graceInterval ≤ config.keyTimestampTtl) {start afterFirst later : TimestampState}
    {first second : Arrival} {between : List TimestampEvent} {time time' : ℤ}
    (hfirst : config.Accepts start first)
    (hstep : config.receive start first = some afterFirst)
    (hrun : run (config.step config.receive) afterFirst between = some later)
    (hkept : Guarded (config.step config.receive) (config.Keeps first.keyName) afterFirst between)
    (hsecond : config.Accepts later second) (hclock : later.clock ≤ second.currentTime)
    (hkey : second.keyName = first.keyName) (htime : interestTime first.interestName = .ok time)
    (htime' : interestTime second.interestName = .ok time') : time < time' := by
  have hremembers : config.Remembers first.keyName time later := by
    refine invariant_of_guarded (fun _ state ↦ config.Remembers first.keyName time state) ?_
      (remembers_of_accepts hfirst hstep htime) hkept hrun
    intro _ state event next hinv hallowed hnext
    obtain ⟨arrival, rfl, hreceive⟩ | ⟨rfl, rfl⟩ := step_cases hnext
    · exact remembers_receive httl hinv (hallowed arrival rfl) hreceive
    · exact hinv
  exact lt_of_remembers hremembers hsecond hclock hkey htime'

/-- An Interest that carries the key and the timestamp of an accepted one is only accepted if, in
between, the record of the key gave way to another key in a full table. -/
theorem replay_requires_eviction (config : ValidatorConfig)
    (httl : config.graceInterval ≤ config.keyTimestampTtl) (start later : TimestampState)
    (first second : Arrival) (between : List TimestampEvent) (hfirst : config.Accepts start first)
    (hrun : run (config.step config.receive) start (.arrive first :: between) = some later)
    (hsecond : config.Accepts later second) (hclock : later.clock ≤ second.currentTime)
    (hkey : second.keyName = first.keyName)
    (htime : interestTime second.interestName = interestTime first.interestName) :
    ∃ before arrival after state, between = before ++ .arrive arrival :: after ∧
      run (config.step config.receive) start (.arrive first :: before) = some state ∧
      config.EvictsForCapacity state arrival first.keyName := by
  by_contra hnever
  push Not at hnever
  obtain ⟨time, hfirstTime⟩ := interestTime_of_accepts hfirst
  obtain ⟨afterFirst, hstep, hrest⟩ := run_cons_eq_some.mp hrun
  have hkept : Guarded (config.step config.receive) (config.Keeps first.keyName) afterFirst
      between := by
    refine guarded_of_forall_split fun before event after middle hsplit hmiddle ↦ ?_
    rintro arrival rfl
    exact hnever before arrival after middle hsplit
      (run_cons_eq_some.mpr ⟨afterFirst, hstep, hmiddle⟩)
  obtain ⟨arrival, heq, hreceive⟩ | ⟨hends, -⟩ := step_cases hstep
  · obtain rfl := TimestampEvent.arrive.inj heq
    have hlt := interestTime_lt_of_accepts httl hfirst hreceive hrest hkept hsecond hclock hkey
      hfirstTime (htime.trans hfirstTime)
    exact lt_irrefl time hlt
  · cases hends

/-! ## A replay -/

def oneKey : ValidatorConfig :=
  { shouldValidate := true
    stepLimit := 10
    interestRules := []
    dataRules := []
    graceInterval := 120000000000
    maxTrackedKeys := 1
    keyTimestampTtl := 3600000000000 }

/-- An Interest with timestamp 1, signed by the given key, that arrives a moment later. -/
def arrivalOf (keyName : Name) (currentTime : ℤ) : Arrival :=
  { interestName := [.generic [1], .generic [2], .generic [3], .generic [4]]
    keyName := keyName
    currentTime := currentTime
    now := currentTime }

/-- With room for one key, an Interest of a second key lets the first one be replayed. -/
theorem accepts_replay :
    1 ≤ oneKey.maxTrackedKeys ∧ oneKey.graceInterval ≤ oneKey.keyTimestampTtl ∧
    oneKey.Accepts ⟨OrderedMap.empty, 0, true⟩ (arrivalOf [.generic [65]] 1000000) ∧
    ∃ later, run (oneKey.step oneKey.receive) ⟨OrderedMap.empty, 0, true⟩
      [.arrive (arrivalOf [.generic [65]] 1000000),
        .arrive (arrivalOf [.generic [66]] 2000000)] = some later ∧
      oneKey.Accepts later (arrivalOf [.generic [65]] 3000000) :=
  ⟨by decide, by decide, by decide, _, rfl, by decide⟩

/-- The same run contains the eviction that makes the replay possible. -/
theorem replay_requires_eviction_oneKey :
    ∃ before arrival after state,
      [TimestampEvent.arrive (arrivalOf [.generic [66]] 2000000)] =
        before ++ .arrive arrival :: after ∧
      run (oneKey.step oneKey.receive) ⟨OrderedMap.empty, 0, true⟩
        (.arrive (arrivalOf [.generic [65]] 1000000) :: before) = some state ∧
      oneKey.EvictsForCapacity state arrival [.generic [65]] :=
  replay_requires_eviction oneKey (by decide) ⟨OrderedMap.empty, 0, true⟩ _
    (arrivalOf [.generic [65]] 1000000) (arrivalOf [.generic [65]] 3000000)
    [.arrive (arrivalOf [.generic [66]] 2000000)] (by decide) rfl (by decide) (by decide) rfl rfl

end NdnCxx.ValidatorConfig
