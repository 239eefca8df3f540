import Mathlib.Data.List.Basic
import Mathlib.Data.List.Nodup

/-!
# Requests that wait for an answer

A table gives every request a number of its own and keeps it until it is answered or removed. The
removal happens some time after it was asked for: in between, the request is cancelled but can still
be answered. Outstanding are the requests that are not cancelled. A client that remembers only the
number of its last request has no more than one outstanding as long as it issues a request only while
none is.
-/

namespace NdnCxx

/-- A request in the table. -/
structure RequestTable.Entry (Request : Type*) where
  id : ℕ
  request : Request
  isCancelled : Bool
  deriving DecidableEq

/-- The requests in the order of their numbers. -/
structure RequestTable (Request : Type*) where
  pending : List (RequestTable.Entry Request)
  nextId : ℕ
  nodup : (pending.map RequestTable.Entry.id).Nodup
  id_lt : ∀ entry ∈ pending, entry.id < nextId
  deriving DecidableEq

namespace RequestTable

variable {Request : Type*} (table : RequestTable Request)

def empty : RequestTable Request := ⟨[], 0, List.nodup_nil, by simp⟩

/-- Enter a new request. -/
def issue (request : Request) : RequestTable Request where
  pending := table.pending ++ [⟨table.nextId, request, false⟩]
  nextId := table.nextId + 1
  nodup := by
    have hfresh : table.nextId ∉ table.pending.map Entry.id := by
      intro hmem
      obtain ⟨entry, hentry, hid⟩ := List.mem_map.mp hmem
      exact Nat.ne_of_lt (table.id_lt entry hentry) hid
    simpa [List.nodup_append, table.nodup] using fun entry hentry hid ↦
      hfresh (List.mem_map.mpr ⟨entry, hentry, hid⟩)
  id_lt := by
    intro entry hmem
    rcases List.mem_append.mp hmem with hold | hnew
    · exact Nat.lt_succ_of_lt (table.id_lt entry hold)
    · rw [List.mem_singleton.mp hnew]
      exact Nat.lt_succ_self table.nextId

def Entry.cancelIf (id : ℕ) (entry : Entry Request) : Entry Request :=
  { entry with isCancelled := entry.isCancelled || entry.id == id }

theorem Entry.cancelIf_of_ne {id : ℕ} {entry : Entry Request} (hother : entry.id ≠ id) :
    entry.cancelIf id = entry := by
  have hdiffer : (entry.id == id) = false := by simpa using hother
  rw [cancelIf, hdiffer, Bool.or_false]

/-- Ask for the removal of a request. -/
def cancel (id : ℕ) : RequestTable Request where
  pending := table.pending.map (Entry.cancelIf id)
  nextId := table.nextId
  nodup := by
    have hids : (table.pending.map (Entry.cancelIf id)).map Entry.id = table.pending.map Entry.id := by
      rw [List.map_map]
      rfl
    rw [hids]
    exact table.nodup
  id_lt := by
    intro entry hmem
    obtain ⟨old, hold, rfl⟩ := List.mem_map.mp hmem
    exact table.id_lt old hold

def remove (id : ℕ) : RequestTable Request where
  pending := table.pending.filter fun entry ↦ entry.id != id
  nextId := table.nextId
  nodup := table.nodup.sublist (List.filter_sublist.map Entry.id)
  id_lt entry hmem := table.id_lt entry (List.mem_of_mem_filter hmem)

def outstanding : List (Entry Request) := table.pending.filter fun entry ↦ !entry.isCancelled

section Outstanding

variable {table} {id : ℕ} {entry : Entry Request}

theorem outstanding_issue (request : Request) :
    (table.issue request).outstanding = table.outstanding ++ [⟨table.nextId, request, false⟩] := by
  simp [outstanding, issue]

theorem mem_outstanding_cancel :
    entry ∈ (table.cancel id).outstanding ↔ entry ∈ table.outstanding ∧ entry.id ≠ id := by
  simp only [outstanding, cancel, List.mem_filter, List.mem_map, Bool.not_eq_true']
  constructor
  · rintro ⟨⟨old, hold, rfl⟩, hkept⟩
    obtain ⟨hkept, hother⟩ : old.isCancelled = false ∧ old.id ≠ id := by
      simpa [Entry.cancelIf] using hkept
    rw [Entry.cancelIf_of_ne hother]
    exact ⟨⟨hold, hkept⟩, hother⟩
  · rintro ⟨⟨hold, hkept⟩, hother⟩
    exact ⟨⟨entry, hold, Entry.cancelIf_of_ne hother⟩, hkept⟩

theorem mem_outstanding_remove :
    entry ∈ (table.remove id).outstanding ↔ entry ∈ table.outstanding ∧ entry.id ≠ id := by
  simp only [outstanding, remove, List.mem_filter, bne_iff_ne]
  exact and_right_comm

end Outstanding

/-! ## A client that remembers its last request -/

/-- Nothing but the remembered request is outstanding. -/
def Tracks (last : Option ℕ) : Prop := ∀ entry ∈ table.outstanding, last = some entry.id

namespace Tracks

variable {table} {last : Option ℕ}

theorem length_le_one (htracks : table.Tracks last) : table.outstanding.length ≤ 1 := by
  have hnodup : (table.outstanding.map Entry.id).Nodup :=
    table.nodup.sublist (List.filter_sublist.map Entry.id)
  have hsame : ∀ first ∈ table.outstanding, ∀ second ∈ table.outstanding, first.id = second.id :=
    fun first hfirst second hsecond ↦
      Option.some.inj ((htracks first hfirst).symm.trans (htracks second hsecond))
  cases hlist : table.outstanding with
  | nil => simp
  | cons first rest =>
    cases rest with
    | nil => simp
    | cons second rest =>
      rw [hlist, List.map_cons, List.map_cons, List.nodup_cons] at hnodup
      rw [hlist] at hsame
      exact absurd (by simp [hsame first (by simp) second (by simp)]) hnodup.1

theorem eq_nil_of_none (htracks : table.Tracks none) : table.outstanding = [] :=
  List.eq_nil_iff_forall_not_mem.mpr fun entry hmem ↦ nomatch htracks entry hmem

theorem of_eq_nil (hnone : table.outstanding = []) : table.Tracks last := by
  intro entry hmem
  rw [hnone] at hmem
  cases hmem

/-- A request issued while none is outstanding -/
theorem issue (request : Request) (hnone : table.outstanding = []) :
    (table.issue request).Tracks (some table.nextId) := by
  intro entry hmem
  rw [outstanding_issue, hnone, List.nil_append, List.mem_singleton] at hmem
  rw [hmem]

theorem remove (id : ℕ) (htracks : table.Tracks last) : (table.remove id).Tracks last :=
  fun entry hmem ↦ htracks entry (mem_outstanding_remove.mp hmem).1

/-- Cancelling the remembered request leaves none outstanding. -/
theorem cancel {id : ℕ} (htracks : table.Tracks (some id)) : (table.cancel id).Tracks none := by
  refine of_eq_nil (List.eq_nil_iff_forall_not_mem.mpr fun entry hmem ↦ ?_)
  obtain ⟨hold, hother⟩ := mem_outstanding_cancel.mp hmem
  exact hother (Option.some.inj (htracks entry hold)).symm

end Tracks

end RequestTable

end NdnCxx
