import Mathlib.Algebra.Order.Group.Abs
import Mathlib.Algebra.Order.Group.Int
import NdnCxx.Foundation.Wrapped
import NdnCxx.Name.Number
import NdnCxx.Security.OldKeys

/-!
# The timestamp number of a signed Interest

The timestamp component holds a 64-bit number of milliseconds. `checkTimestamp` turns it into a time
point of the system clock, a signed 64-bit number of nanoseconds, and compares that with the ends of
the grace interval or with the record of the key, all computed in the same 64 bits. This module
repeats the check with that arithmetic and says for which numbers it decides as the exact integers
do. A number from about the year 2262 on is wrapped: it can look like the present, and for a key that
is tracked it is never taken for what it is.
-/

namespace NdnCxx

open Wrapped

/-! ## The system clock -/

namespace SystemClock

def counts : ℕ := 2 ^ 64

def nanoseconds (milliseconds : ℤ) : ℤ := milliseconds * 1000000

def earlier (point interval : ℤ) : ℤ :=
  Int.bmod (point - Int.bmod (nanoseconds interval) counts) counts

def later (point interval : ℤ) : ℤ :=
  Int.bmod (point + Int.bmod (nanoseconds interval) counts) counts

theorem earlier_eq {point interval : ℤ}
    (hfits : IsCount counts (point - nanoseconds interval)) :
    earlier point interval = point - nanoseconds interval := by
  unfold earlier
  rw [Int.sub_bmod_bmod, bmod_eq_self hfits]

theorem later_eq {point interval : ℤ} (hfits : IsCount counts (point + nanoseconds interval)) :
    later point interval = point + nanoseconds interval := by
  unfold later
  rw [Int.add_bmod_bmod, bmod_eq_self hfits]

theorem isCount_earlier (point interval : ℤ) : IsCount counts (earlier point interval) :=
  isCount_bmod (by decide) _

theorem isCount_later (point interval : ℤ) : IsCount counts (later point interval) :=
  isCount_bmod (by decide) _

end SystemClock

open SystemClock

/-! ## The check -/

/-- What `checkTimestamp` uses of a validator, with `m_graceInterval` in milliseconds. -/
structure TimestampPolicy where
  graceInterval : ℤ
  maxTrackedKeys : ℕ
  keyTimestampTtl : ℤ

namespace TimestampPolicy

def defaultGraceInterval : ℤ := 3000

/-- The constructor of `ValidatorConfig` does not take a negative interval. -/
def create (graceInterval : ℤ) (maxTrackedKeys : ℕ) (keyTimestampTtl : ℤ) : TimestampPolicy where
  graceInterval := if graceInterval < 0 then defaultGraceInterval else graceInterval
  maxTrackedKeys := maxTrackedKeys
  keyTimestampTtl := keyTimestampTtl

variable (policy : TimestampPolicy)

/-- A record that `cleanOldKeys` removes because of its age, which is counted in 64 bits. -/
def isExpired (now timestamp : ℤ) : Bool := Int.bmod (now - timestamp) counts > policy.keyTimestampTtl

def cleanOldKeys (now : ℤ) (lastTimestamp : LastTimestampMap) : LastTimestampMap :=
  if lastTimestamp.entries.length < policy.maxTrackedKeys then lastTimestamp
  else
    match lastTimestamp.entries with
    -- only when no key may be tracked at all
    | [] => lastTimestamp
    | first :: _ =>
        let remaining : LastTimestampMap :=
          { entries := lastTimestamp.entries.filter fun entry ↦ !policy.isExpired now entry.2
            sorted := lastTimestamp.sorted.sublist List.filter_sublist }
        if remaining.entries.length ≥ policy.maxTrackedKeys then
          remaining.eraseKey (ValidatorConfig.oldestKey first remaining.entries)
        else remaining

/-- `ValidatorConfig::checkTimestamp` in the arithmetic of the clock. The clock is read once for the
check and a second time by `cleanOldKeys`. -/
def checkTimestamp (interestName keyName : Name) (currentTime now : ℤ)
    (lastTimestamp : LastTimestampMap) : Call × LastTimestampMap :=
  match ValidatorConfig.interestTime interestName with
  | .error _ => (.failed "Cannot decode signature related TLVs", lastTimestamp)
  | .ok time =>
      match lastTimestamp.find keyName with
      | none =>
          if ¬ (earlier currentTime policy.graceInterval ≤ time ∧
              time ≤ later currentTime policy.graceInterval) then
            (.failed ("The command is not in grace interval: " ++ interestName.toUri),
              lastTimestamp)
          else (.validated, (policy.cleanOldKeys now lastTimestamp).assign keyName time)
      | some recorded =>
          if time ≤ recorded then
            (.failed ("The command is outdated: " ++ interestName.toUri), lastTimestamp)
          else (.validated, lastTimestamp.setValue keyName time)

/-- The validator has these parameters, with the grace interval in nanoseconds. -/
structure IsPolicyOf (config : ValidatorConfig) : Prop where
  graceInterval : config.graceInterval = nanoseconds policy.graceInterval
  maxTrackedKeys : config.maxTrackedKeys = policy.maxTrackedKeys
  keyTimestampTtl : config.keyTimestampTtl = policy.keyTimestampTtl

/-! ## Deciding as the exact integers do -/

/-- What the exact integers say: an Interest of a key that is not tracked is within the grace
interval, and one of a tracked key is later than its record. -/
def IsTimely (keyName : Name) (currentTime : ℤ) (lastTimestamp : LastTimestampMap) (number : ℕ) :
    Prop :=
  match lastTimestamp.find keyName with
  | none => |nanoseconds number - currentTime| ≤ nanoseconds policy.graceInterval
  | some recorded => recorded < nanoseconds number

instance (keyName : Name) (currentTime : ℤ) (lastTimestamp : LastTimestampMap) (number : ℕ) :
    Decidable (policy.IsTimely keyName currentTime lastTimestamp number) :=
  match hfind : lastTimestamp.find keyName with
  | none =>
      decidable_of_iff (|nanoseconds number - currentTime| ≤ nanoseconds policy.graceInterval)
        (by simp only [IsTimely, hfind])
  | some recorded =>
      decidable_of_iff (recorded < nanoseconds number) (by simp only [IsTimely, hfind])

/-- The check accepts just the timely Interests, and takes the time of those for what it is. -/
def DecidesExactly (interestName keyName : Name) (currentTime now : ℤ)
    (lastTimestamp : LastTimestampMap) (number : ℕ) : Prop :=
  let accepted :=
    (policy.checkTimestamp interestName keyName currentTime now lastTimestamp).1 = .validated
  (accepted ↔ policy.IsTimely keyName currentTime lastTimestamp number) ∧
    (accepted → ValidatorConfig.fromUnixTimestamp number = nanoseconds number)

instance (interestName keyName : Name) (currentTime now : ℤ) (lastTimestamp : LastTimestampMap)
    (number : ℕ) : Decidable (policy.DecidesExactly interestName keyName currentTime now
      lastTimestamp number) :=
  inferInstanceAs (Decidable (_ ∧ _))

/-- The number lies in the 64-bit grace interval after a number of turns of the clock. -/
def IsInGraceInterval (currentTime : ℤ) (number : ℕ) (turns : ℤ) : Prop :=
  earlier currentTime policy.graceInterval ≤ nanoseconds number + turns * counts ∧
    nanoseconds number + turns * counts ≤ later currentTime policy.graceInterval

/-- For a tracked key the number fits the clock. For a key that is not tracked, no whole number of
turns of the clock takes the number into the grace interval, and the ends of the interval, as the
clock computes them, are the right ones for the number. -/
def IsUnmistakable (keyName : Name) (currentTime : ℤ) (lastTimestamp : LastTimestampMap)
    (number : ℕ) : Prop :=
  match lastTimestamp.find keyName with
  | none =>
      (∀ turns : ℤ, turns ≠ 0 → ¬ policy.IsInGraceInterval currentTime number turns) ∧
        (policy.IsInGraceInterval currentTime number 0 ↔
          |nanoseconds number - currentTime| ≤ nanoseconds policy.graceInterval)
  | some _ => nanoseconds number < 2 ^ 63

section Check

variable {policy} {interestName keyName : Name} {currentTime now : ℤ}
  {lastTimestamp : LastTimestampMap} {number : ℕ}

theorem fromUnixTimestamp_eq_bmod (number : ℕ) :
    ValidatorConfig.fromUnixTimestamp number = Int.bmod (nanoseconds number) counts := rfl

theorem interestTime_of_toNumber
    (hnumber : ((interestName.get (-SignedInterest.minLength)).getD Component.empty).toNumber =
      .ok number) :
    ValidatorConfig.interestTime interestName =
      .ok (ValidatorConfig.fromUnixTimestamp number) := by
  simp only [ValidatorConfig.interestTime, hnumber, bind, Except.bind, pure, Except.pure]

theorem checkTimestamp_validated_iff_of_untracked {time : ℤ}
    (htime : ValidatorConfig.interestTime interestName = .ok time)
    (hfind : lastTimestamp.find keyName = none) :
    (policy.checkTimestamp interestName keyName currentTime now lastTimestamp).1 = .validated ↔
      earlier currentTime policy.graceInterval ≤ time ∧
        time ≤ later currentTime policy.graceInterval := by
  simp only [checkTimestamp, htime, hfind]
  by_cases hgrace : earlier currentTime policy.graceInterval ≤ time ∧
      time ≤ later currentTime policy.graceInterval
  · rw [if_neg (not_not.mpr hgrace)]
    exact iff_of_true rfl hgrace
  · rw [if_pos hgrace]
    exact iff_of_false (by simp) hgrace

theorem checkTimestamp_validated_iff_of_tracked {time recorded : ℤ}
    (htime : ValidatorConfig.interestTime interestName = .ok time)
    (hfind : lastTimestamp.find keyName = some recorded) :
    (policy.checkTimestamp interestName keyName currentTime now lastTimestamp).1 = .validated ↔
      recorded < time := by
  simp only [checkTimestamp, htime, hfind]
  split_ifs with houtdated
  · exact iff_of_false (by simp) (not_lt.mpr houtdated)
  · exact iff_of_true rfl (not_le.mp houtdated)

/-- The timestamp check decides as the exact integers do just for the numbers that cannot be
mistaken. -/
theorem decidesExactly_iff
    (hnumber : ((interestName.get (-SignedInterest.minLength)).getD Component.empty).toNumber =
      .ok number)
    (hrecorded : ∀ recorded, lastTimestamp.find keyName = some recorded → IsCount counts recorded) :
    policy.DecidesExactly interestName keyName currentTime now lastTimestamp number ↔
      policy.IsUnmistakable keyName currentTime lastTimestamp number := by
  have htime := interestTime_of_toNumber hnumber
  cases hfind : lastTimestamp.find keyName with
  | none =>
    have hbounds := between_bmod_iff (isCount_earlier currentTime policy.graceInterval)
      (isCount_later currentTime policy.graceInterval) (nanoseconds number)
      (|nanoseconds number - currentTime| ≤ nanoseconds policy.graceInterval)
    simp only [DecidesExactly, IsUnmistakable, IsTimely, IsInGraceInterval, hfind,
      checkTimestamp_validated_iff_of_untracked htime hfind, fromUnixTimestamp_eq_bmod, zero_mul,
      add_zero]
    exact hbounds
  | some recorded =>
    have hbound := lt_bmod_iff (nanoseconds number) (hrecorded recorded hfind)
      (by unfold nanoseconds; omega)
    have hfits : nanoseconds number * 2 < counts ↔ nanoseconds number < 2 ^ 63 := by
      unfold counts
      omega
    simp only [DecidesExactly, IsUnmistakable, IsTimely, hfind,
      checkTimestamp_validated_iff_of_tracked htime hfind, fromUnixTimestamp_eq_bmod]
    rw [hbound, hfits]

variable {config : ValidatorConfig}

theorem cleanOldKeys_eq (hpolicy : policy.IsPolicyOf config)
    (hages : ∀ entry ∈ lastTimestamp, IsCount counts (now - entry.2)) :
    policy.cleanOldKeys now lastTimestamp = config.cleanOldKeys now lastTimestamp := by
  have hkept : lastTimestamp.entries.filter (fun entry ↦ !policy.isExpired now entry.2) =
      lastTimestamp.entries.filter fun entry ↦ !config.isExpired now entry.2 := by
    apply List.filter_congr
    intro entry hmem
    rw [isExpired, ValidatorConfig.isExpired, bmod_eq_self (hages entry hmem),
      hpolicy.keyTimestampTtl]
  unfold cleanOldKeys ValidatorConfig.cleanOldKeys ValidatorConfig.eraseExpired
  obtain ⟨entries, sorted⟩ := lastTimestamp
  cases entries with
  | nil => simp only [hpolicy.maxTrackedKeys]
  | cons first rest =>
    dsimp only at hkept
    simp only [hkept, hpolicy.maxTrackedKeys]

/-- Without wrapping the check is the one on exact time points, and where at least one key may be
tracked and no more are, it uses no invalid iterator. -/
theorem checkTimestamp_eq (hpolicy : policy.IsPolicyOf config)
    (hearlier : IsCount counts (currentTime - nanoseconds policy.graceInterval))
    (hlater : IsCount counts (currentTime + nanoseconds policy.graceInterval))
    (hages : ∀ entry ∈ lastTimestamp, IsCount counts (now - entry.2)) :
    policy.checkTimestamp interestName keyName currentTime now lastTimestamp =
        config.checkTimestamp interestName keyName currentTime now lastTimestamp ∧
      (1 ≤ config.maxTrackedKeys → lastTimestamp.entries.length ≤ config.maxTrackedKeys →
        config.checkTimestampByIterator interestName keyName currentTime now lastTimestamp =
          some (policy.checkTimestamp interestName keyName currentTime now lastTimestamp)) := by
  have hsame : policy.checkTimestamp interestName keyName currentTime now lastTimestamp =
      config.checkTimestamp interestName keyName currentTime now lastTimestamp := by
    unfold checkTimestamp ValidatorConfig.checkTimestamp
    cases ValidatorConfig.interestTime interestName with
    | error error => rfl
    | ok time =>
      cases lastTimestamp.find keyName with
      | none =>
        simp only [cleanOldKeys_eq hpolicy hages, earlier_eq hearlier, later_eq hlater,
          hpolicy.graceInterval]
      | some recorded => rfl
  refine ⟨hsame, fun hkeys hsize ↦ ?_⟩
  rw [hsame]
  exact ValidatorConfig.checkTimestampByIterator_eq hkeys hsize _ _ _ _

/-- The table of a validator that tracks one key -/
def trackedKey : LastTimestampMap :=
  OrderedMap.empty.assign [Component.generic [0x61]] 1399999999000000000

/-- An Interest of the year 2014 that carries the present time -/
def presentName : Name :=
  [Component.fromNumber 1400000000000, Component.generic [1], Component.generic [2],
    Component.generic [3]]

def trackingOne : ValidatorConfig := ⟨true, 10, [], [], 3000000000, 1, 3600000000000⟩

/-- An Interest of another key is in the grace interval, and takes the place of the tracked one. -/
theorem checkTimestamp_eq_evicting :
    trackingOne.checkTimestampByIterator presentName [Component.generic [0x62]]
        1400000001000000000 1400000001000000000 trackedKey =
      some ((create 3000 1 3600000000000).checkTimestamp presentName [Component.generic [0x62]]
        1400000001000000000 1400000001000000000 trackedKey) ∧
    trackingOne.checkTimestamp presentName [Component.generic [0x62]]
        1400000001000000000 1400000001000000000 trackedKey =
      (.validated, OrderedMap.empty.assign [Component.generic [0x62]] 1400000000000000000) := by
  have hages : ∀ entry ∈ trackedKey, IsCount counts (1400000001000000000 - entry.2) := by
    intro entry hmem
    obtain rfl : entry = ([Component.generic [0x61]], 1399999999000000000) :=
      List.mem_singleton.mp hmem
    decide
  obtain ⟨hsame, hiterator⟩ := @checkTimestamp_eq (create 3000 1 3600000000000) presentName
    [Component.generic [0x62]] 1400000001000000000 1400000001000000000 trackedKey trackingOne
    ⟨rfl, rfl, rfl⟩ (by decide) (by decide) hages
  refine ⟨hiterator (by decide) (by decide), ?_⟩
  rw [← hsame]
  decide +kernel

end Check

/-- An Interest of the year 2014 that carries the present time, and 2 ^ 58 milliseconds more. -/
def mistakenName : Name :=
  [Component.fromNumber (1400000000000 + 2 ^ 58), Component.generic [1], Component.generic [2],
    Component.generic [3]]

theorem not_decidesExactly_mistakenName :
    ((mistakenName.get (-SignedInterest.minLength)).getD Component.empty).toNumber =
        .ok (1400000000000 + 2 ^ 58) ∧
      ¬ (create 3000 1000 3600000000000).DecidesExactly mistakenName [] 1400000000000000000
        1400000000000000000 OrderedMap.empty (1400000000000 + 2 ^ 58) := by
  decide +kernel

theorem decidesExactly_iff_mistakenName :
    (create 3000 1000 3600000000000).DecidesExactly mistakenName [] 1400000000000000000
        1400000000000000000 OrderedMap.empty (1400000000000 + 2 ^ 58) ↔
      (create 3000 1000 3600000000000).IsUnmistakable [] 1400000000000000000 OrderedMap.empty
        (1400000000000 + 2 ^ 58) :=
  decidesExactly_iff (by decide +kernel) (by simp [OrderedMap.find, OrderedMap.empty])

end TimestampPolicy

end NdnCxx
