import Mathlib.Algebra.Order.Group.Int
import Mathlib.Algebra.Ring.Int.Defs
import Mathlib.Algebra.Ring.Nat
import NdnCxx.Foundation.RequestTable

/-!
# Alarms that go off once

A clock and the alarms set on it. An alarm has a number, by which it is turned off, the time when it
is due, and what it is set for. It goes off at its time or later, once, unless it is turned off
before. The clock is settled when every alarm that is due has gone off. Nothing is said about the
order in which alarms go off.
-/

namespace NdnCxx

/-- When an alarm is due and what for. -/
structure Alarm (Purpose : Type*) where
  due : ℤ
  purpose : Purpose
  deriving DecidableEq

/-- The time, and the alarms that have neither gone off nor been turned off. -/
structure AlarmClock (Purpose : Type*) where
  now : ℤ
  alarms : RequestTable (Alarm Purpose)
  deriving DecidableEq

/-- A time that fits 64 bits is right although the delay before it has wrapped around. -/
theorem bmod_add_bmod_of_fits {now delay : ℤ} (hlower : -2 ^ 63 ≤ now + delay)
    (hupper : now + delay < 2 ^ 63) :
    Int.bmod (now + Int.bmod delay (2 ^ 64)) (2 ^ 64) = now + delay := by
  calc
    _ = Int.bmod (now + delay) (2 ^ 64) := Int.add_bmod_bmod
    _ = now + delay := Int.bmod_eq_of_le_mul_two (by omega) (by omega)

namespace AlarmClock

variable {Purpose : Type*} (clock : AlarmClock Purpose)

def start (now : ℤ) : AlarmClock Purpose := ⟨now, .empty⟩

def nextId : ℕ := clock.alarms.nextId

def set (due : ℤ) (purpose : Purpose) : AlarmClock Purpose :=
  { clock with alarms := clock.alarms.issue ⟨due, purpose⟩ }

/-- Turn an alarm off, if it has not gone off yet. -/
def cancel (id : ℕ) : AlarmClock Purpose := { clock with alarms := clock.alarms.remove id }

def advance (elapsed : ℕ) : AlarmClock Purpose := { clock with now := clock.now + elapsed }

/-- The alarm with this number, if there is one. -/
def find? (id : ℕ) : Option (Alarm Purpose) :=
  (clock.alarms.pending.find? fun entry ↦ entry.id == id).map RequestTable.Entry.request

def goesOff? (id : ℕ) : Option Purpose :=
  (clock.find? id).bind fun alarm ↦ if alarm.due ≤ clock.now then some alarm.purpose else none

def IsSettled : Prop := ∀ entry ∈ clock.alarms.pending, clock.now < entry.request.due

instance : Decidable clock.IsSettled := inferInstanceAs (Decidable (∀ _ ∈ _, _))

variable {clock} {id other : ℕ} {alarm : Alarm Purpose}

theorem find?_eq_some_iff : clock.find? id = some alarm ↔
    ∃ entry ∈ clock.alarms.pending, entry.id = id ∧ entry.request = alarm := by
  rw [find?, Option.map_eq_some_iff]
  constructor
  · rintro ⟨entry, hfind, rfl⟩
    have hid : entry.id = id := by simpa using List.find?_some hfind
    exact ⟨entry, List.mem_of_find?_eq_some hfind, hid, rfl⟩
  · rintro ⟨entry, hmem, rfl, rfl⟩
    refine ⟨entry, ?_, rfl⟩
    have hsome : (clock.alarms.pending.find? fun candidate ↦ candidate.id == entry.id).isSome :=
      List.find?_isSome.mpr ⟨entry, hmem, by simp⟩
    obtain ⟨found, hfind⟩ := Option.isSome_iff_exists.mp hsome
    have hid : found.id = entry.id := by simpa using List.find?_some hfind
    rw [hfind, List.inj_on_of_nodup_map clock.alarms.nodup (List.mem_of_find?_eq_some hfind) hmem
      hid]

theorem id_lt_nextId (hfind : clock.find? id = some alarm) : id < clock.nextId := by
  obtain ⟨entry, hmem, rfl, -⟩ := find?_eq_some_iff.mp hfind
  exact clock.alarms.id_lt entry hmem

@[simp]
theorem now_set (due : ℤ) (purpose : Purpose) : (clock.set due purpose).now = clock.now := rfl

@[simp]
theorem now_cancel (id : ℕ) : (clock.cancel id).now = clock.now := rfl

@[simp]
theorem nextId_cancel (id : ℕ) : (clock.cancel id).nextId = clock.nextId := rfl

theorem now_le_now_advance (elapsed : ℕ) : clock.now ≤ (clock.advance elapsed).now :=
  Int.le_add_of_nonneg_right (Int.natCast_nonneg elapsed)

theorem find?_set (due : ℤ) (purpose : Purpose) :
    (clock.set due purpose).find? id =
      if id = clock.nextId then some ⟨due, purpose⟩ else clock.find? id := by
  ext alarm
  rw [find?_eq_some_iff]
  change (∃ entry ∈ clock.alarms.pending ++ [_], _) ↔ _
  simp only [List.mem_append, List.mem_singleton, or_and_right, exists_or, exists_eq_left]
  rw [← find?_eq_some_iff]
  split_ifs with hnew
  · have hfresh : clock.find? id ≠ some alarm := fun hfind ↦
      absurd (id_lt_nextId hfind) (hnew ▸ lt_irrefl _)
    rw [or_iff_right hfresh]
    simp [hnew, nextId]
  · rw [nextId] at hnew
    simp [Ne.symm hnew]

theorem find?_cancel (id other : ℕ) :
    (clock.cancel id).find? other = if other = id then none else clock.find? other := by
  ext alarm
  rw [find?_eq_some_iff]
  simp only [cancel, RequestTable.remove, List.mem_filter, bne_iff_ne]
  split_ifs with hsame
  · subst hsame
    simp only [iff_false]
    rintro ⟨entry, ⟨-, hother⟩, hid, -⟩
    exact hother hid
  · rw [find?_eq_some_iff]
    constructor
    · rintro ⟨entry, ⟨hmem, -⟩, hid, hrequest⟩
      exact ⟨entry, hmem, hid, hrequest⟩
    · rintro ⟨entry, hmem, rfl, hrequest⟩
      exact ⟨entry, ⟨hmem, hsame⟩, rfl, hrequest⟩

variable {Entry : Type*}

/-- Turning off several alarms -/
theorem find?_foldl_cancel (number : Entry → ℕ) (entries : List Entry) (id : ℕ) :
    (entries.foldl (fun clock entry ↦ clock.cancel (number entry)) clock).find? id =
      if id ∈ entries.map number then none else clock.find? id := by
  induction entries generalizing clock with
  | nil => simp
  | cons entry entries ih =>
    rw [List.foldl_cons, ih, find?_cancel, List.map_cons]
    by_cases hlater : id ∈ entries.map number
    · rw [if_pos hlater, if_pos (List.mem_cons_of_mem _ hlater)]
    · simp [hlater]

theorem now_foldl_cancel (number : Entry → ℕ) (entries : List Entry) :
    (entries.foldl (fun clock entry ↦ clock.cancel (number entry)) clock).now = clock.now := by
  induction entries generalizing clock with
  | nil => rfl
  | cons entry entries ih => rw [List.foldl_cons, ih, now_cancel]

theorem nextId_foldl_cancel (number : Entry → ℕ) (entries : List Entry) :
    (entries.foldl (fun clock entry ↦ clock.cancel (number entry)) clock).nextId =
      clock.nextId := by
  induction entries generalizing clock with
  | nil => rfl
  | cons entry entries ih => rw [List.foldl_cons, ih, nextId_cancel]

/-- What goes off is a set alarm that is due. -/
theorem goesOff?_eq_some_iff {purpose : Purpose} : clock.goesOff? id = some purpose ↔
    ∃ alarm, clock.find? id = some alarm ∧ alarm.due ≤ clock.now ∧ alarm.purpose = purpose := by
  simp [goesOff?, Option.bind_eq_some_iff]

/-- On a settled clock an alarm that is still set is not due. -/
theorem IsSettled.lt_due (hsettled : clock.IsSettled) (hfind : clock.find? id = some alarm) :
    clock.now < alarm.due := by
  obtain ⟨entry, hmem, -, rfl⟩ := find?_eq_some_iff.mp hfind
  exact hsettled entry hmem

end AlarmClock

end NdnCxx
