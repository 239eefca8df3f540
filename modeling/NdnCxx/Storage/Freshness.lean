import NdnCxx.Foundation.AlarmClock
import NdnCxx.Storage.Capacity

/-!
# Freshness windows

An insertion with a positive MustBeFresh window schedules an event that marks the entry stale. The
event is bound to the object that keeps the entry, and objects come from a pool, so an event must not
outlast the entry that it was scheduled for: `release` cancels it. A window of zero schedules
nothing, like the infinite window, and such a packet stays fresh; and a packet that `find` locates by
its full name is returned whether it is fresh or not.

Which object of the pool an insertion takes is left open, as long as it is one that keeps no entry.
-/

namespace NdnCxx

/-- An object that keeps a stored entry, with the event in `m_markStaleEventId`. When the entry was
inserted, in nanoseconds, and its window, in milliseconds, are recorded for the results. -/
structure StorageHolder where
  object : ℕ
  fullName : Name
  event : Option ℕ
  inserted : ℤ
  window : ℤ
  deriving DecidableEq

/-- The end of the window, in nanoseconds -/
def StorageHolder.deadline (holder : StorageHolder) : ℤ := holder.inserted + holder.window * 1000000

/-- An `InMemoryStorage` with a scheduler; the events are bound to objects. -/
structure TimedStorage (sha256 : Bytes → Bytes) where
  managed : ManagedStorage sha256
  holders : List StorageHolder
  scheduler : AlarmClock ℕ

namespace TimedStorage

variable {sha256 : Bytes → Bytes}

def wrap (count : ℤ) : ℤ := Int.bmod count (2 ^ 64)

/-- The storage after a call. Entries leave the cache through `freeEntry`, which calls `release` on
their objects; with the unique pointer goes the scheduled event. -/
def release (state : TimedStorage sha256) (next : ManagedStorage sha256) : TimedStorage sha256 where
  managed := next
  holders := state.holders.filter fun holder ↦ holder.fullName ∈ next.storage.fullNames
  scheduler :=
    ((state.holders.filter fun holder ↦ holder.fullName ∉ next.storage.fullNames).filterMap
      StorageHolder.event).foldl (fun scheduler eventId ↦ scheduler.cancel eventId) state.scheduler

/-- `setData` of an object from the pool, and the event that `insert` schedules. -/
def hold (state : TimedStorage sha256) (fullName : Name) (window : ℤ) (object : ℕ) :
    TimedStorage sha256 :=
  let isScheduled := 0 < window
  { managed := state.managed
    holders :=
      { object := object
        fullName := fullName
        event := if isScheduled then some state.scheduler.nextId else none
        inserted := state.scheduler.now
        window := window } :: state.holders
    scheduler :=
      if isScheduled then
        state.scheduler.set (wrap (state.scheduler.now + wrap (window * 1000000))) object
      else state.scheduler }

variable (policy : StoragePolicy)

/-- `insert`, into an object that keeps no entry when it is taken. -/
def insert (state : TimedStorage sha256) (data : Data) (window : ℤ) (object : ℕ) :
    Option (TimedStorage sha256) :=
  if (state.managed.storage.findByFullName (data.getFullName sha256)).isSome then some state
  else
    match state.managed.insert policy data with
    | .error _ => none
    | .ok next =>
        let released := state.release next
        if object ∈ released.holders.map StorageHolder.object then none
        else some (released.hold (data.getFullName sha256) window object)

/-- `InMemoryStorageEntry::markStale` of an object -/
def markStale (state : TimedStorage sha256) (object : ℕ) : TimedStorage sha256 :=
  match state.holders.find? fun holder ↦ holder.object == object with
  | some holder =>
      { state with managed :=
          { state.managed with storage := state.managed.storage.markStale holder.fullName } }
  | none => state

/-- The calls, the passage of time, and the events of the scheduler. -/
inductive Event
  | insert (data : Data) (window : ℤ) (object : ℕ)
  | findName (name : Name)
  | findInterest (interest : Interest)
  | erase (name : Name) (isPrefix : Bool)
  | advance (elapsed : ℕ)
  | fire (eventId : ℕ)

/-- One event. An event of the scheduler fires only if it is due. -/
def step (state : TimedStorage sha256) : Event → Option (TimedStorage sha256)
  | .insert data window object => state.insert policy data window object
  | .findName name => (state.managed.step policy (.findName name)).map state.release
  | .findInterest interest => (state.managed.step policy (.findInterest interest)).map state.release
  | .erase name isPrefix => (state.managed.step policy (.erase name isPrefix)).map state.release
  | .advance elapsed => some { state with scheduler := state.scheduler.advance elapsed }
  | .fire eventId =>
      (state.scheduler.goesOff? eventId).map fun object ↦
        { state with scheduler := state.scheduler.cancel eventId }.markStale object

def init (sha256 : Bytes → Bytes) (limit : ℕ) (now : ℤ) : TimedStorage sha256 :=
  ⟨.init sha256 limit, [], .start now⟩

/-! ## What the window is for -/

/-- The object keeps this entry, and its window ends. -/
def Holds (state : TimedStorage sha256) (holder : StorageHolder) (entry : InMemoryStorageEntry) :
    Prop :=
  holder ∈ state.holders ∧ entry ∈ state.managed.storage.cache ∧
    entry.getFullName sha256 = holder.fullName ∧ 0 ≤ holder.window

/-- A find with MustBeFresh, for one Interest: an entry whose window is not over is no less found
than without MustBeFresh, and is itself what is returned if the leftmost child is asked for; an entry
whose window is over is not returned. -/
def AnswersByClock (state : TimedStorage sha256) (interest : Interest) : Prop :=
  ∀ holder entry, state.Holds holder entry →
    (state.scheduler.now < holder.deadline →
      state.managed.storage.find { interest with mustBeFresh := false } = some entry →
        state.managed.storage.find interest ≠ none ∧
          (interest.childSelector ≤ 0 → state.managed.storage.find interest = some entry)) ∧
    (holder.deadline ≤ state.scheduler.now → state.managed.storage.find interest ≠ some entry)

/-- An event of the scheduler is bound to an object that keeps the entry it was scheduled for, and
when it fires nothing changes but the flag of that entry. -/
def MarksOwnEntry (state : TimedStorage sha256) (eventId : ℕ) : Prop :=
  ∀ next, state.scheduler.goesOff? eventId = some next →
    ∃ holder ∈ state.holders, holder.object = next ∧ holder.event = some eventId ∧
      (state.markStale next).managed.storage =
        state.managed.storage.markStale holder.fullName

/-- The window is not zero, and it fits in 64 bits as nanoseconds, and so does the time when it is
over. -/
def Allowed (state : TimedStorage sha256) : Event → Prop
  | .insert _ window _ =>
      window ≠ 0 ∧ (-2 ^ 63 ≤ window * 1000000 ∧ window * 1000000 < 2 ^ 63) ∧
        -2 ^ 63 ≤ state.scheduler.now + window * 1000000 ∧
          state.scheduler.now + window * 1000000 < 2 ^ 63
  | _ => True

instance (state : TimedStorage sha256) : (event : Event) → Decidable (state.Allowed event)
  | .insert _ window _ => inferInstanceAs (Decidable (window ≠ 0 ∧ (_ ∧ _) ∧ _ ∧ _))
  | .findName _ | .findInterest _ | .erase _ _ | .advance _ | .fire _ =>
      inferInstanceAs (Decidable True)

/-- The Interest does not have the full name of an entry whose window is over. -/
def LocatesNoneExpired (state : TimedStorage sha256) (interest : Interest) : Prop :=
  ∀ holder entry, state.Holds holder entry → holder.fullName = interest.name →
    state.scheduler.now < holder.deadline

/-! ## What the calls do to the cache -/

variable {data : Data} {event : Event}

section Cache

variable {policy : StoragePolicy} {state next : ManagedStorage sha256}

open ManagedStorage

theorem eraseEntry_subset (storage : InMemoryStorage sha256) (fullName : Name) :
    (storage.eraseEntry fullName).cache ⊆ storage.cache :=
  List.filter_subset_self _

theorem evictItem_subset (policy : StoragePolicy) (state : ManagedStorage sha256) :
    (evictItem policy state).2.storage.cache ⊆ state.storage.cache := by
  unfold evictItem eraseImpl
  split
  · exact List.Subset.refl _
  · exact List.Subset.refl _
  · dsimp only
    split_ifs
    · exact eraseEntry_subset _ _
    · exact List.Subset.refl _

theorem evictLoop_subset {rounds : ℕ} {nAllowedFailures : ℤ}
    (hloop : evictLoop policy rounds nAllowedFailures state = .ok next) :
    next.storage.cache ⊆ state.storage.cache := by
  induction rounds generalizing nAllowedFailures state with
  | zero =>
    obtain rfl := Except.ok.inj hloop
    exact List.Subset.refl _
  | succ rounds ih =>
    have hevicted := evictItem_subset policy state
    unfold evictLoop at hloop
    by_cases hfull : state.nPackets > state.capacity
    · rw [if_pos hfull] at hloop
      cases hevict : evictItem policy state with
      | mk isEvicted after =>
        rw [hevict] at hloop hevicted
        cases isEvicted with
        | true => exact List.Subset.trans (ih hloop) hevicted
        | false =>
          dsimp only at hloop
          split_ifs at hloop
          exact List.Subset.trans (ih hloop) hevicted
    · rw [if_neg hfull] at hloop
      obtain rfl := Except.ok.inj hloop
      exact List.Subset.refl _

theorem setCapacity_subset {capacity : ℕ} (hset : setCapacity policy state capacity = .ok next) :
    next.storage.cache ⊆ state.storage.cache := by
  obtain ⟨evicted, hloop, hrest⟩ := bind_eq_ok_iff.mp hset
  obtain ⟨resized, hresize, hcheck⟩ := bind_eq_ok_iff.mp hrest
  have hresized : resized.storage = evicted.storage := by
    unfold resizePool at hresize
    split_ifs at hresize <;> obtain rfl := Except.ok.inj hresize <;> rfl
  have hchecked : next = resized := by
    unfold checkPool at hcheck
    split_ifs at hcheck
    exact (Except.ok.inj hcheck).symm
  rw [hchecked, hresized]
  have hstorage : evicted.storage.cache ⊆
      { state with capacity := capacity : ManagedStorage sha256 }.storage.cache :=
    evictLoop_subset hloop
  exact hstorage

theorem afterInsert_storage {fullName : Name}
    (hafter : afterInsert policy state fullName = .ok next) : next.storage = state.storage := by
  unfold afterInsert at hafter
  split_ifs at hafter
  obtain rfl := Except.ok.inj hafter
  rfl

/-- A new packet is stored fresh, beside entries that were there. -/
theorem insert_cache (hinsert : ManagedStorage.insert policy state data = .ok next)
    (habsent : data.getFullName sha256 ∉ state.storage.fullNames) :
    (⟨data, true⟩ : InMemoryStorageEntry) ∈ next.storage.cache ∧
      ∀ entry ∈ next.storage.cache, entry = ⟨data, true⟩ ∨ entry ∈ state.storage.cache := by
  have hnew : ¬ (state.storage.findByFullName (data.getFullName sha256)).isSome = true :=
    mt InMemoryStorage.isSome_findByFullName_iff.mp habsent
  unfold ManagedStorage.insert at hinsert
  rw [if_neg hnew] at hinsert
  obtain ⟨grown, hgrow, hstore⟩ := bind_eq_ok_iff.mp hinsert
  have hgrown : grown.storage.cache ⊆ state.storage.cache := by
    unfold doubleCapacity at hgrow
    split_ifs at hgrow
    · exact setCapacity_subset hgrow
    · obtain rfl := Except.ok.inj hgrow
      exact List.Subset.refl _
  dsimp only at hstore
  generalize hroomy : (if grown.isFull ∧ state.limit = state.capacity then
    (evictItem policy grown).2 else grown) = roomy at hstore
  have hkept : roomy.storage.cache ⊆ state.storage.cache := by
    rw [← hroomy]
    split_ifs
    · exact List.Subset.trans (evictItem_subset policy grown) hgrown
    · exact hgrown
  unfold storeData at hstore
  split_ifs at hstore
  have hstorage : next.storage = roomy.storage.insertEntry ⟨data, true⟩ := afterInsert_storage hstore
  have hroomyAbsent : data.getFullName sha256 ∉ roomy.storage.fullNames := by
    intro hmem
    obtain ⟨entry, hentry, hname⟩ := List.mem_map.mp hmem
    exact habsent (List.mem_map.mpr ⟨entry, hkept hentry, hname⟩)
  have hperm : (roomy.storage.insertEntry ⟨data, true⟩).fullNames.Perm
      (data.getFullName sha256 :: roomy.storage.fullNames) :=
    InMemoryStorage.fullNames_insertEntry hroomyAbsent
  constructor
  · obtain ⟨entry, hentry, hname⟩ := List.mem_map.mp (hperm.mem_iff.mpr List.mem_cons_self)
    rw [hstorage]
    rcases InMemoryStorage.mem_insertSorted hentry with rfl | hold
    · exact hentry
    · exact absurd (List.mem_map.mpr ⟨entry, hold, hname⟩) hroomyAbsent
  · intro entry hentry
    rw [hstorage] at hentry
    exact (InMemoryStorage.mem_insertSorted hentry).imp_right fun hold ↦ hkept hold

theorem access_storage {found : Option InMemoryStorageEntry}
    (haccess : access policy state found = .ok next) : next.storage = state.storage := by
  unfold access at haccess
  split at haccess
  · unfold afterAccess at haccess
    split at haccess
    · have hstorage := afterInsert_storage haccess
      exact hstorage
    · obtain rfl := Except.ok.inj haccess
      rfl
    · obtain rfl := Except.ok.inj haccess
      rfl
    · obtain rfl := Except.ok.inj haccess
      rfl
  · obtain rfl := Except.ok.inj haccess
    rfl

theorem removeEntries_subset (policy : StoragePolicy) (state : ManagedStorage sha256)
    (entries : List InMemoryStorageEntry) :
    (entries.foldl (removeEntry policy) state).storage.cache ⊆ state.storage.cache := by
  induction entries generalizing state with
  | nil => exact List.Subset.refl _
  | cons entry entries ih =>
    rw [List.foldl_cons]
    exact List.Subset.trans (ih _) (eraseEntry_subset state.storage _)

theorem erase_subset {name : Name} {isPrefix : Bool}
    (herase : ManagedStorage.erase policy state name isPrefix = .ok next) :
    next.storage.cache ⊆ state.storage.cache := by
  unfold ManagedStorage.erase at herase
  dsimp only at herase
  split_ifs at herase
  · obtain rfl := Except.ok.inj herase
    exact List.Subset.refl _
  · unfold halveCapacity at herase
    split_ifs at herase
    · exact List.Subset.trans (setCapacity_subset herase) (removeEntries_subset _ _ _)
    · obtain rfl := Except.ok.inj herase
      exact removeEntries_subset _ _ _

end Cache

/-! ## Objects and events -/

/-- Objects, names and events are told apart, and every event that is set belongs to an object that
keeps an entry. -/
structure Wired (holders : List StorageHolder) (scheduler : AlarmClock ℕ) : Prop where
  objects : ∀ holder ∈ holders, ∀ other ∈ holders, holder.object = other.object → holder = other
  names : ∀ holder ∈ holders, ∀ other ∈ holders, holder.fullName = other.fullName → holder = other
  events : ∀ holder ∈ holders, ∀ other ∈ holders, ∀ eventId, holder.event = some eventId →
    other.event = some eventId → holder = other
  issued : ∀ holder ∈ holders, ∀ eventId, holder.event = some eventId → eventId < scheduler.nextId
  timers : ∀ eventId alarm, scheduler.find? eventId = some alarm →
    ∃ holder ∈ holders, holder.object = alarm.purpose ∧ holder.event = some eventId

variable {eventId : ℕ} {holder : StorageHolder} {managed : ManagedStorage sha256}

section Wired

variable {holders : List StorageHolder} {scheduler : AlarmClock ℕ}

theorem Wired.start (now : ℤ) : Wired [] (.start now) where
  objects holder hmem := by cases hmem
  names holder hmem := by cases hmem
  events holder hmem := by cases hmem
  issued holder hmem := by cases hmem
  timers eventId alarm halarm := by cases halarm

/-- The events of some holders are cancelled, and of no others. -/
theorem find?_cancelled {cancelled : List StorageHolder} :
    ((cancelled.filterMap StorageHolder.event).foldl
        (fun scheduler eventId ↦ scheduler.cancel eventId) scheduler).find? eventId =
      if ∃ holder ∈ cancelled, holder.event = some eventId then none
      else scheduler.find? eventId := by
  have hcancel := @AlarmClock.find?_foldl_cancel _ scheduler _ id
    (cancelled.filterMap StorageHolder.event) eventId
  rw [List.map_id] at hcancel
  refine hcancel.trans ?_
  simp only [List.mem_filterMap]

/-- Where the entries of some objects go, so do their events. -/
theorem Wired.release (hwired : Wired holders scheduler) (keeps : StorageHolder → Bool) :
    Wired (holders.filter keeps)
      (((holders.filter fun holder ↦ !keeps holder).filterMap StorageHolder.event).foldl
        (fun scheduler eventId ↦ scheduler.cancel eventId) scheduler) where
  objects holder hmem other hother :=
    hwired.objects holder (List.mem_of_mem_filter hmem) other (List.mem_of_mem_filter hother)
  names holder hmem other hother :=
    hwired.names holder (List.mem_of_mem_filter hmem) other (List.mem_of_mem_filter hother)
  events holder hmem other hother :=
    hwired.events holder (List.mem_of_mem_filter hmem) other (List.mem_of_mem_filter hother)
  issued holder hmem eventId hevent := by
    have hlt := hwired.issued holder (List.mem_of_mem_filter hmem) eventId hevent
    exact hlt.trans_eq (AlarmClock.nextId_foldl_cancel id _).symm
  timers eventId alarm halarm := by
    rw [find?_cancelled] at halarm
    split_ifs at halarm with hcancelled
    obtain ⟨holder, hmem, hobject, hevent⟩ := hwired.timers eventId alarm halarm
    refine ⟨holder, List.mem_filter.mpr ⟨hmem, ?_⟩, hobject, hevent⟩
    by_contra hgone
    have hnot : (!keeps holder) = true := by simpa using hgone
    exact hcancelled ⟨holder, List.mem_filter.mpr ⟨hmem, hnot⟩, hevent⟩

/-- The event of an object that keeps its entry is still set. -/
theorem Wired.find?_release (hwired : Wired holders scheduler) {keeps : StorageHolder → Bool}
    (hmem : holder ∈ holders) (hkept : keeps holder = true) (hevent : holder.event = some eventId) :
    (((holders.filter fun holder ↦ !keeps holder).filterMap StorageHolder.event).foldl
        (fun scheduler eventId ↦ scheduler.cancel eventId) scheduler).find? eventId =
      scheduler.find? eventId := by
  rw [find?_cancelled, if_neg]
  rintro ⟨other, hother, hsame⟩
  obtain ⟨hotherMem, hgone⟩ := List.mem_filter.mp hother
  obtain rfl := hwired.events holder hmem other hotherMem eventId hevent hsame
  rw [hkept] at hgone
  cases hgone

/-- One more holder, which differs from the others in what tells them apart. -/
theorem eq_of_mem_cons {Key : Type} {key : StorageHolder → Key}
    (hnew : key holder ∉ holders.map key)
    (hold : ∀ first ∈ holders, ∀ second ∈ holders, key first = key second → first = second) :
    ∀ first ∈ holder :: holders, ∀ second ∈ holder :: holders, key first = key second →
      first = second := by
  intro first hfirst second hsecond hsame
  rcases List.mem_cons.mp hfirst with hfirstNew | hfirstOld <;>
    rcases List.mem_cons.mp hsecond with hsecondNew | hsecondOld
  · rw [hfirstNew, hsecondNew]
  · rw [hfirstNew] at hsame
    exact absurd (List.mem_map.mpr ⟨second, hsecondOld, hsame.symm⟩) hnew
  · rw [hsecondNew] at hsame
    exact absurd (List.mem_map.mpr ⟨first, hfirstOld, hsame⟩) hnew
  · exact hold first hfirstOld second hsecondOld hsame

/-- An object without an entry takes one, and an event is scheduled for it or not. -/
theorem Wired.hold (hwired : Wired holders scheduler) (holder : StorageHolder) (isScheduled : Bool)
    (due : ℤ) (hobject : holder.object ∉ holders.map StorageHolder.object)
    (hname : holder.fullName ∉ holders.map StorageHolder.fullName)
    (hevent : holder.event = if isScheduled then some scheduler.nextId else none) :
    Wired (holder :: holders)
      (if isScheduled then scheduler.set due holder.object else scheduler) := by
  have hfresh : ∀ other ∈ holders, ∀ eventId, holder.event = some eventId →
      other.event ≠ some eventId := by
    intro other hother eventId hset hsame
    rw [hevent] at hset
    split_ifs at hset
    obtain rfl := Option.some.inj hset
    exact lt_irrefl _ (hwired.issued other hother _ hsame)
  refine ⟨eq_of_mem_cons hobject hwired.objects, eq_of_mem_cons hname hwired.names, ?_, ?_, ?_⟩
  · intro first hfirst second hsecond eventId hset hsame
    rcases List.mem_cons.mp hfirst with hfirstNew | hfirstOld <;>
      rcases List.mem_cons.mp hsecond with hsecondNew | hsecondOld
    · rw [hfirstNew, hsecondNew]
    · rw [hfirstNew] at hset
      exact absurd hsame (hfresh second hsecondOld eventId hset)
    · rw [hsecondNew] at hsame
      exact absurd hset (hfresh first hfirstOld eventId hsame)
    · exact hwired.events first hfirstOld second hsecondOld eventId hset hsame
  · intro other hother eventId hset
    have hgrows : scheduler.nextId ≤
        (if isScheduled then scheduler.set due holder.object else scheduler).nextId := by
      cases isScheduled with
      | true => exact Nat.le_succ _
      | false => exact le_rfl
    rcases List.mem_cons.mp hother with rfl | hother
    · rw [hevent] at hset
      cases isScheduled with
      | true =>
        obtain rfl := Option.some.inj hset
        exact Nat.lt_succ_self _
      | false => cases hset
    · exact (hwired.issued other hother eventId hset).trans_le hgrows
  · intro eventId alarm halarm
    cases isScheduled with
    | true =>
      change (scheduler.set due holder.object).find? eventId = some alarm at halarm
      rw [AlarmClock.find?_set] at halarm
      split_ifs at halarm with hnew
      · obtain rfl := Option.some.inj halarm
        exact ⟨holder, List.mem_cons_self, rfl, by rw [hevent, hnew]; rfl⟩
      · obtain ⟨other, hother, hpurpose, hset⟩ := hwired.timers eventId alarm halarm
        exact ⟨other, List.mem_cons_of_mem _ hother, hpurpose, hset⟩
    | false =>
      obtain ⟨other, hother, hpurpose, hset⟩ := hwired.timers eventId alarm halarm
      exact ⟨other, List.mem_cons_of_mem _ hother, hpurpose, hset⟩

theorem Wired.cancel (hwired : Wired holders scheduler) (eventId : ℕ) :
    Wired holders (scheduler.cancel eventId) where
  objects := hwired.objects
  names := hwired.names
  events := hwired.events
  issued := hwired.issued
  timers other alarm halarm := by
    rw [AlarmClock.find?_cancel] at halarm
    split_ifs at halarm
    exact hwired.timers other alarm halarm

theorem Wired.advance (hwired : Wired holders scheduler) (elapsed : ℕ) :
    Wired holders (scheduler.advance elapsed) :=
  ⟨hwired.objects, hwired.names, hwired.events, hwired.issued, hwired.timers⟩

end Wired

/-! ## What one event can do -/

section Step

variable {policy : StoragePolicy} {state next : TimedStorage sha256}

theorem step_cases (hstep : state.step policy event = some next) :
    next = state ∨
    (∃ data window object managed, event = .insert data window object ∧
      data.getFullName sha256 ∉ state.managed.storage.fullNames ∧
      state.managed.insert policy data = .ok managed ∧
      object ∉ (state.release managed).holders.map StorageHolder.object ∧
      next = (state.release managed).hold (data.getFullName sha256) window object) ∨
    (∃ managed, managed.storage.cache ⊆ state.managed.storage.cache ∧
      next = state.release managed) ∨
    (∃ elapsed, next = { state with scheduler := state.scheduler.advance elapsed }) ∨
    ∃ eventId alarm, state.scheduler.find? eventId = some alarm ∧
      alarm.due ≤ state.scheduler.now ∧
      next = { state with scheduler := state.scheduler.cancel eventId }.markStale alarm.purpose := by
  have hcall : ∀ call managed, state.managed.step policy call = some managed →
      state.managed.perform policy call = .ok managed :=
    fun call managed hmanaged ↦ toOption_eq_some_iff.mp hmanaged
  cases event with
  | insert data window object =>
    have hinsert : state.insert policy data window object = some next := hstep
    unfold insert at hinsert
    split_ifs at hinsert with hstored
    · exact .inl (Option.some.inj hinsert).symm
    · right; left
      have habsent : data.getFullName sha256 ∉ state.managed.storage.fullNames :=
        fun hmem ↦ hstored (InMemoryStorage.isSome_findByFullName_iff.mpr hmem)
      cases hmanaged : state.managed.insert policy data with
      | error failure =>
        rw [hmanaged] at hinsert
        cases hinsert
      | ok managed =>
        rw [hmanaged] at hinsert
        dsimp only at hinsert
        split_ifs at hinsert with hobject
        exact ⟨data, window, object, managed, rfl, habsent, hmanaged, hobject,
          (Option.some.inj hinsert).symm⟩
  | findName name =>
    right; right; left
    obtain ⟨managed, hmanaged, hnext⟩ := Option.map_eq_some_iff.mp hstep
    have hstorage := access_storage (hcall _ _ hmanaged)
    exact ⟨managed, by rw [hstorage]; exact List.Subset.refl _, hnext.symm⟩
  | findInterest interest =>
    right; right; left
    obtain ⟨managed, hmanaged, hnext⟩ := Option.map_eq_some_iff.mp hstep
    have hstorage := access_storage (hcall _ _ hmanaged)
    exact ⟨managed, by rw [hstorage]; exact List.Subset.refl _, hnext.symm⟩
  | erase name isPrefix =>
    right; right; left
    obtain ⟨managed, hmanaged, hnext⟩ := Option.map_eq_some_iff.mp hstep
    exact ⟨managed, erase_subset (hcall _ _ hmanaged), hnext.symm⟩
  | advance elapsed => exact .inr (.inr (.inr (.inl ⟨elapsed, (Option.some.inj hstep).symm⟩)))
  | fire eventId =>
    right; right; right; right
    obtain ⟨object, hgoes, hnext⟩ := Option.map_eq_some_iff.mp hstep
    obtain ⟨alarm, halarm, hdue, rfl⟩ := AlarmClock.goesOff?_eq_some_iff.mp hgoes
    exact ⟨eventId, alarm, halarm, hdue, hnext.symm⟩

end Step

/-! ## Every entry has its object -/

/-- The objects that are taken keep exactly the stored entries. -/
structure Linked (state : TimedStorage sha256) : Prop where
  wired : Wired state.holders state.scheduler
  held : ∀ name, name ∈ state.holders.map StorageHolder.fullName ↔
    name ∈ state.managed.storage.fullNames

variable {alarm : Alarm ℕ}

section Linked

variable {policy : StoragePolicy} {state next : TimedStorage sha256}

theorem release_eq (state : TimedStorage sha256) (managed : ManagedStorage sha256) :
    state.release managed =
      { managed := managed
        holders := state.holders.filter fun holder ↦
          decide (holder.fullName ∈ managed.storage.fullNames)
        scheduler := ((state.holders.filter fun holder ↦
          !decide (holder.fullName ∈ managed.storage.fullNames)).filterMap
            StorageHolder.event).foldl (fun scheduler eventId ↦ scheduler.cancel eventId)
              state.scheduler } := by
  unfold release
  simp only [decide_not]

theorem wired_release (hlinked : state.Linked) (managed : ManagedStorage sha256) :
    Wired (state.release managed).holders (state.release managed).scheduler := by
  rw [release_eq]
  exact hlinked.wired.release _

/-- The names kept by a release: those that were kept before and are still in the cache. -/
theorem mem_names_release (hlinked : state.Linked) {name : Name} :
    name ∈ (state.release managed).holders.map StorageHolder.fullName ↔
      name ∈ state.managed.storage.fullNames ∧ name ∈ managed.storage.fullNames := by
  rw [← hlinked.held, release, List.mem_map, List.mem_map]
  constructor
  · rintro ⟨holder, hmem, rfl⟩
    obtain ⟨hholder, hkept⟩ := List.mem_filter.mp hmem
    exact ⟨⟨holder, hholder, rfl⟩, of_decide_eq_true hkept⟩
  · rintro ⟨⟨holder, hholder, rfl⟩, hkept⟩
    exact ⟨holder, List.mem_filter.mpr ⟨hholder, decide_eq_true hkept⟩, rfl⟩

theorem fullNames_subset {before after : InMemoryStorage sha256}
    (hsubset : after.cache ⊆ before.cache) : after.fullNames ⊆ before.fullNames :=
  List.map_subset _ hsubset

theorem Linked.release (hlinked : state.Linked)
    (hsubset : managed.storage.cache ⊆ state.managed.storage.cache) :
    (state.release managed).Linked where
  wired := wired_release hlinked managed
  held name := by
    rw [mem_names_release hlinked]
    exact and_iff_right_of_imp fun hmem ↦ fullNames_subset hsubset hmem

theorem Linked.insert (hlinked : state.Linked) {object : ℕ}
    (habsent : data.getFullName sha256 ∉ state.managed.storage.fullNames)
    (hinsert : state.managed.insert policy data = .ok managed)
    (hobject : object ∉ (state.release managed).holders.map StorageHolder.object) (window : ℤ) :
    ((state.release managed).hold (data.getFullName sha256) window object).Linked := by
  obtain ⟨hnew, hcache⟩ := insert_cache hinsert habsent
  have hname : data.getFullName sha256 ∉
      (state.release managed).holders.map StorageHolder.fullName := by
    rw [mem_names_release hlinked]
    exact fun hmem ↦ habsent hmem.1
  constructor
  · have hwired := (wired_release hlinked managed).hold
      { object := object
        fullName := data.getFullName sha256
        event := if 0 < window then some (state.release managed).scheduler.nextId else none
        inserted := (state.release managed).scheduler.now
        window := window } (decide (0 < window))
      (wrap ((state.release managed).scheduler.now + wrap (window * 1000000))) hobject hname
      (by simp)
    simpa [hold] using hwired
  · intro name
    change name ∈ data.getFullName sha256 ::
      (state.release managed).holders.map StorageHolder.fullName ↔ name ∈ managed.storage.fullNames
    rw [List.mem_cons, mem_names_release hlinked]
    constructor
    · rintro (rfl | ⟨-, hmem⟩)
      · exact List.mem_map.mpr ⟨_, hnew, rfl⟩
      · exact hmem
    · intro hmem
      obtain ⟨entry, hentry, rfl⟩ := List.mem_map.mp hmem
      rcases hcache entry hentry with rfl | hold
      · exact .inl rfl
      · exact .inr ⟨List.mem_map.mpr ⟨entry, hold, rfl⟩, hmem⟩

/-- The object that an event is bound to keeps an entry, and this is marked. -/
theorem markStale_eq (hwired : Wired state.holders state.scheduler)
    (hmem : holder ∈ state.holders) :
    state.markStale holder.object =
      { state with managed := { state.managed with
          storage := state.managed.storage.markStale holder.fullName } } := by
  have hfind : (state.holders.find? fun other ↦ other.object == holder.object) = some holder := by
    cases hfind : state.holders.find? fun other ↦ other.object == holder.object with
    | none =>
      have hnone := List.find?_eq_none.mp hfind holder hmem
      simp at hnone
    | some other =>
      have hobject : other.object = holder.object := by simpa using List.find?_some hfind
      rw [hwired.objects other (List.mem_of_find?_eq_some hfind) holder hmem hobject]
  rw [markStale, hfind]

/-- A fired event marks the entry that it was scheduled for. -/
theorem fire_eq (hlinked : state.Linked) (halarm : state.scheduler.find? eventId = some alarm) :
    ∃ holder ∈ state.holders, holder.object = alarm.purpose ∧ holder.event = some eventId ∧
      { state with scheduler := state.scheduler.cancel eventId }.markStale alarm.purpose =
        { state with
          managed := { state.managed with
            storage := state.managed.storage.markStale holder.fullName }
          scheduler := state.scheduler.cancel eventId } := by
  obtain ⟨holder, hmem, hobject, hevent⟩ := hlinked.wired.timers eventId alarm halarm
  refine ⟨holder, hmem, hobject, hevent, ?_⟩
  rw [← hobject]
  exact @markStale_eq _ _ { state with scheduler := state.scheduler.cancel eventId }
    (hlinked.wired.cancel eventId) hmem

theorem Linked.init (limit : ℕ) (now : ℤ) : (TimedStorage.init sha256 limit now).Linked where
  wired := .start now
  held _ := Iff.rfl

theorem Linked.step (hlinked : state.Linked) (hstep : state.step policy event = some next) :
    next.Linked := by
  rcases step_cases hstep with rfl | ⟨data, window, object, managed, -, habsent, hinsert, hobject,
    rfl⟩ | ⟨managed, hsubset, rfl⟩ | ⟨elapsed, rfl⟩ | ⟨eventId, alarm, halarm, -, rfl⟩
  · exact hlinked
  · exact hlinked.insert habsent hinsert hobject window
  · exact hlinked.release hsubset
  · exact ⟨hlinked.wired.advance elapsed, hlinked.held⟩
  · obtain ⟨holder, -, -, -, hnext⟩ := fire_eq hlinked halarm
    rw [hnext]
    refine ⟨hlinked.wired.cancel eventId, fun name ↦ ?_⟩
    rw [hlinked.held]
    change _ ↔ name ∈ (state.managed.storage.markStale holder.fullName).fullNames
    rw [InMemoryStorage.fullNames_markStale]

theorem Linked.marksOwnEntry (hlinked : state.Linked) (eventId : ℕ) :
    state.MarksOwnEntry eventId := by
  intro object hgoes
  obtain ⟨alarm, halarm, -, rfl⟩ := AlarmClock.goesOff?_eq_some_iff.mp hgoes
  obtain ⟨holder, hmem, hobject, hevent⟩ := hlinked.wired.timers eventId alarm halarm
  refine ⟨holder, hmem, hobject, hevent, ?_⟩
  rw [← hobject, markStale_eq hlinked.wired hmem]

end Linked

/-! ## Flags and time -/

/-- A fresh entry has an event at the end of its window, unless the window is infinite; the window of
a stale entry is over. -/
def IsTimed (scheduler : AlarmClock ℕ) (holder : StorageHolder) : Bool → Prop
  | true => holder.window < 0 ∧ holder.event = none ∨
      0 < holder.window ∧ ∃ eventId, holder.event = some eventId ∧
        scheduler.find? eventId = some ⟨holder.deadline, holder.object⟩
  | false => 0 < holder.window ∧ holder.deadline ≤ scheduler.now

/-- Every flag agrees with the window of its entry. -/
def Timed (state : TimedStorage sha256) : Prop :=
  ∀ holder ∈ state.holders, ∀ entry ∈ state.managed.storage.cache,
    entry.getFullName sha256 = holder.fullName → IsTimed state.scheduler holder entry.isFresh

section Timed

variable {policy : StoragePolicy} {state next : TimedStorage sha256}

/-- A later clock on which the event of the holder is still set. -/
theorem IsTimed.mono {scheduler later : AlarmClock ℕ} {isFresh : Bool}
    (htimed : IsTimed scheduler holder isFresh) (hnow : scheduler.now ≤ later.now)
    (hkept : ∀ eventId, holder.event = some eventId →
      later.find? eventId = scheduler.find? eventId) : IsTimed later holder isFresh := by
  cases isFresh with
  | true =>
    refine htimed.imp_right fun hset ↦ ⟨hset.1, ?_⟩
    obtain ⟨-, eventId, hevent, hfind⟩ := hset
    exact ⟨eventId, hevent, (hkept eventId hevent).trans hfind⟩
  | false => exact ⟨htimed.1, htimed.2.trans hnow⟩

theorem now_release (state : TimedStorage sha256) (managed : ManagedStorage sha256) :
    (state.release managed).scheduler.now = state.scheduler.now :=
  AlarmClock.now_foldl_cancel id _

/-- The event of an object that keeps its entry is still set after a release. -/
theorem find?_release (hlinked : state.Linked) (hmem : holder ∈ (state.release managed).holders)
    (hevent : holder.event = some eventId) :
    (state.release managed).scheduler.find? eventId = state.scheduler.find? eventId := by
  rw [release_eq] at hmem ⊢
  obtain ⟨hholder, hkept⟩ := List.mem_filter.mp hmem
  exact hlinked.wired.find?_release hholder hkept hevent

theorem Timed.release (htimed : state.Timed) (hlinked : state.Linked)
    (hold : ∀ entry ∈ managed.storage.cache,
      entry.getFullName sha256 ∈ state.managed.storage.fullNames →
      entry ∈ state.managed.storage.cache) : (state.release managed).Timed := by
  intro holder hmem entry hentry hname
  have hholder : holder ∈ state.holders := List.mem_of_mem_filter hmem
  have hstored : entry.getFullName sha256 ∈ state.managed.storage.fullNames := by
    rw [hname, ← hlinked.held]
    exact List.mem_map_of_mem hholder
  refine (htimed holder hholder entry (hold entry hentry hstored) hname).mono ?_ ?_
  · rw [now_release]
  · exact fun eventId hevent ↦ find?_release hlinked hmem hevent

/-- Without an overflow the event is due at the end of the window. -/
theorem wrap_eq_of_fits {now window : ℤ}
    (hlower : -2 ^ 63 ≤ now + window * 1000000) (hupper : now + window * 1000000 < 2 ^ 63) :
    wrap (now + wrap (window * 1000000)) = now + window * 1000000 :=
  bmod_add_bmod_of_fits hlower hupper

theorem Timed.insert (htimed : state.Timed) (hlinked : state.Linked) {window : ℤ} {object : ℕ}
    (hallowed : state.Allowed (.insert data window object))
    (habsent : data.getFullName sha256 ∉ state.managed.storage.fullNames)
    (hinsert : state.managed.insert policy data = .ok managed) :
    ((state.release managed).hold (data.getFullName sha256) window object).Timed := by
  obtain ⟨-, hcache⟩ := insert_cache hinsert habsent
  obtain ⟨hwindow, -, hlower, hupper⟩ := hallowed
  have hstays : ∀ entry ∈ managed.storage.cache,
      entry.getFullName sha256 ∈ state.managed.storage.fullNames →
        entry ∈ state.managed.storage.cache := by
    intro entry hentry hname
    refine (hcache entry hentry).resolve_left ?_
    rintro rfl
    exact habsent hname
  have hreleased := htimed.release hlinked hstays
  intro holder hmem entry hentry hname
  rcases List.mem_cons.mp hmem with rfl | hholder
  · have hnew : entry = ⟨data, true⟩ := by
      refine (hcache entry hentry).resolve_right fun hmem ↦ habsent ?_
      exact List.mem_map.mpr ⟨entry, hmem, hname⟩
    rw [hnew]
    rcases lt_or_gt_of_ne hwindow with hnegative | hpositive
    · exact .inl ⟨hnegative, if_neg hnegative.not_gt⟩
    · refine .inr ⟨hpositive, (state.release managed).scheduler.nextId, if_pos hpositive, ?_⟩
      have hset : ((state.release managed).hold (data.getFullName sha256) window
          object).scheduler = (state.release managed).scheduler.set
            (wrap ((state.release managed).scheduler.now + wrap (window * 1000000))) object :=
        if_pos hpositive
      rw [hset, AlarmClock.find?_set, if_pos rfl, StorageHolder.deadline]
      dsimp only
      rw [now_release, wrap_eq_of_fits hlower hupper]
  · refine (hreleased holder hholder entry hentry hname).mono ?_ ?_
    · unfold hold
      dsimp only
      split_ifs <;> exact le_rfl
    · intro eventId hevent
      have hlt := (wired_release hlinked managed).issued holder hholder eventId hevent
      unfold hold
      dsimp only
      split_ifs
      · rw [AlarmClock.find?_set, if_neg hlt.ne]
      · rfl

/-- The entry that is marked is past its window, because its event was due. -/
theorem Timed.fire (htimed : state.Timed) (hlinked : state.Linked)
    (halarm : state.scheduler.find? eventId = some alarm) (hdue : alarm.due ≤ state.scheduler.now) :
    ({ state with scheduler := state.scheduler.cancel eventId }.markStale alarm.purpose).Timed := by
  obtain ⟨fired, hfired, hobject, hevent, hnext⟩ := fire_eq hlinked halarm
  rw [hnext]
  intro holder hholder entry hentry hname
  obtain ⟨old, hentryOld, rfl⟩ := List.mem_map.mp hentry
  have hnameOld : old.getFullName sha256 = holder.fullName := by
    rw [← hname]
    split_ifs <;> rfl
  have htimedOld := htimed holder hholder old hentryOld hnameOld
  by_cases hsame : holder = fired
  · subst hsame
    rw [if_pos hnameOld]
    cases hfresh : old.isFresh with
    | false =>
      rw [hfresh] at htimedOld
      exact htimedOld
    | true =>
      rw [hfresh] at htimedOld
      rcases htimedOld with ⟨-, hnone⟩ | ⟨hpositive, own, hown, hset⟩
      · rw [hnone] at hevent
        cases hevent
      · obtain rfl : own = eventId := Option.some.inj (hown.symm.trans hevent)
        obtain rfl : alarm = ⟨holder.deadline, holder.object⟩ :=
          Option.some.inj (halarm.symm.trans hset)
        exact ⟨hpositive, hdue⟩
  · have hother : old.getFullName sha256 ≠ fired.fullName := by
      rw [hnameOld]
      exact fun heq ↦ hsame (hlinked.wired.names holder hholder fired hfired heq)
    rw [if_neg hother]
    refine htimedOld.mono le_rfl fun other hset ↦ ?_
    change (state.scheduler.cancel eventId).find? other = _
    rw [AlarmClock.find?_cancel, if_neg]
    rintro rfl
    exact hsame (hlinked.wired.events holder hholder fired hfired _ hset hevent)

end Timed

/-! ## Finds that ask for freshness -/

section Find

open InMemoryStorage

variable {interest : Interest} {storage : InMemoryStorage sha256} {entry : InMemoryStorageEntry}

/-- An eligible entry that a walk reaches is reached also if the others may be skipped. -/
theorem mem_takeWhile_filter {wanted eligible : InMemoryStorageEntry → Bool}
    {entries : List InMemoryStorageEntry} (hmem : entry ∈ entries.takeWhile wanted)
    (heligible : eligible entry = true) : entry ∈ (entries.filter eligible).takeWhile wanted := by
  induction entries with
  | nil => cases hmem
  | cons first rest ih =>
    rw [List.takeWhile_cons] at hmem
    split_ifs at hmem with hwanted
    · rcases List.mem_cons.mp hmem with rfl | hrest
      · rw [List.filter_cons_of_pos heligible, List.takeWhile_cons_of_pos hwanted]
        exact List.mem_cons_self
      · rw [List.filter_cons]
        split_ifs
        · rw [List.takeWhile_cons_of_pos hwanted]
          exact List.mem_cons_of_mem _ (ih hrest)
        · exact ih hrest
    · cases hmem

/-- Without MustBeFresh the walk is a prefix of the entries from the starting point on. -/
theorem walk_plain (sha256 : Bytes → Bytes) (interest : Interest)
    (startingPoint : List InMemoryStorageEntry) :
    walk { interest with mustBeFresh := false } sha256 startingPoint =
      match startingPoint with
      | [] => []
      | start :: rest =>
          start ::
            rest.takeWhile fun entry ↦ interest.name.isPrefixOf (entry.getFullName sha256) := by
  have hall : startingPoint.filter (isEligible { interest with mustBeFresh := false }) =
      startingPoint :=
    List.filter_eq_self.mpr fun _ _ ↦ rfl
  cases startingPoint with
  | nil => rfl
  | cons start rest => simp only [walk, hall]

theorem walk_plain_prefix (sha256 : Bytes → Bytes) (interest : Interest)
    (startingPoint : List InMemoryStorageEntry) :
    walk { interest with mustBeFresh := false } sha256 startingPoint <+: startingPoint := by
  rw [walk_plain]
  cases startingPoint with
  | nil => exact List.prefix_rfl
  | cons start rest => exact (List.prefix_cons_inj start).mpr (List.takeWhile_prefix _)

theorem mem_walk {startingPoint : List InMemoryStorageEntry}
    (hmem : entry ∈ walk { interest with mustBeFresh := false } sha256 startingPoint)
    (hfresh : entry.isFresh = true) : entry ∈ walk interest sha256 startingPoint := by
  have heligible : isEligible interest entry = true := isEligible_iff.mpr fun _ ↦ hfresh
  rw [walk_plain] at hmem
  cases startingPoint with
  | nil => cases hmem
  | cons start rest =>
    unfold walk
    rcases List.mem_cons.mp hmem with rfl | hrest
    · rw [List.filter_cons_of_pos heligible]
      exact List.mem_cons_self
    · have hwalked := mem_takeWhile_filter hrest heligible
      rw [List.filter_cons]
      split_ifs
      · exact List.mem_cons_of_mem _ hwalked
      · -- the starting point is skipped, and the first eligible entry takes its place
        cases hfilter : rest.filter (isEligible interest) with
        | nil =>
          rw [hfilter] at hwalked
          cases hwalked
        | cons first later =>
          rw [hfilter, List.takeWhile_cons] at hwalked
          split_ifs at hwalked
          · exact hwalked
          · cases hwalked

/-- Two entries that are each the first match of a list in the order of the cache. -/
theorem eq_of_first_matches {wanted : InMemoryStorageEntry → Bool} {other : InMemoryStorageEntry}
    {entries others : List InMemoryStorageEntry}
    (hsorted : entries.Pairwise fun first second ↦
      first.getFullName sha256 < second.getFullName sha256)
    (hsortedOthers : others.Pairwise fun first second ↦
      first.getFullName sha256 < second.getFullName sha256)
    (hfind : entries.find? wanted = some entry) (hfindOther : others.find? wanted = some other)
    (hmem : entry ∈ others) (hmemOther : other ∈ entries) : entry = other := by
  have hbefore : ∀ {first second : InMemoryStorageEntry} {list : List InMemoryStorageEntry},
      (list.Pairwise fun first second ↦ first.getFullName sha256 < second.getFullName sha256) →
        list.find? wanted = some first → second ∈ list → wanted second = true →
          first = second ∨ first.getFullName sha256 < second.getFullName sha256 := by
    intro first second list hlist hfirst hsecond hwanted
    obtain ⟨-, front, back, rfl, hfront⟩ := List.find?_eq_some_iff_append.mp hfirst
    rcases List.mem_append.mp hsecond with hin | hin
    · have hnot := hfront second hin
      rw [hwanted] at hnot
      cases hnot
    · rcases List.mem_cons.mp hin with rfl | hin
      · exact .inl rfl
      · rw [List.pairwise_append, List.pairwise_cons] at hlist
        exact .inr (hlist.2.1.1 second hin)
  rcases hbefore hsorted hfind hmemOther (List.find?_some hfindOther) with hsame | hlt
  · exact hsame
  · rcases hbefore hsortedOthers hfindOther hmem (List.find?_some hfind) with hsame | hgt
    · exact hsame.symm
    · exact absurd hgt hlt.not_gt

/-- A fresh entry that is found without MustBeFresh keeps a find with MustBeFresh from coming back
empty, and is the leftmost one it can return. -/
theorem find_of_fresh
    (hfind : storage.find { interest with mustBeFresh := false } = some entry)
    (hfresh : entry.isFresh = true) :
    storage.find interest ≠ none ∧
      (interest.childSelector ≤ 0 → storage.find interest = some entry) := by
  cases hstored : storage.findByFullName interest.name with
  | some stored =>
    have hsame : storage.find interest = some stored := find_of_stored hstored
    have hplain : storage.find { interest with mustBeFresh := false } = some stored :=
      find_of_stored hstored
    rw [hsame]
    exact ⟨Option.some_ne_none _, fun _ ↦ hplain.symm.trans hfind⟩
  | none =>
    obtain ⟨hsearched, -, hmatch, -⟩ :=
      (@find_spec _ storage { interest with mustBeFresh := false } hstored).1 entry hfind
    have hmem : entry ∈ storage.searched interest := by
      unfold searched at hsearched ⊢
      split_ifs at hsearched ⊢ with hend
      · cases hsearched
      · exact mem_walk hsearched hfresh
    have hcandidate : storage.IsCandidate interest entry :=
      isCandidate_of_mem_searched hmem hmatch
    constructor
    · intro hnone
      exact (find_spec hstored).2 hnone entry hmem hcandidate
    · intro hleft
      cases hfound : storage.find interest with
      | none => exact absurd hcandidate ((find_spec hstored).2 hfound entry hmem)
      | some other =>
        -- both are the first match behind the starting point
        have hplain := (@find_leftmost _ storage { interest with mustBeFresh := false } hstored
          hleft).symm.trans hfind
        have hwalked := (find_leftmost hstored hleft).symm.trans hfound
        have hend : storage.lowerBound interest.name ≠ storage.cache.length := by
          intro hend
          rw [searched, if_pos hend] at hmem
          cases hmem
        have hbehind : (storage.cache.drop (storage.lowerBound interest.name - 1)).find?
            (fun entry ↦ interest.matchesData sha256 entry.data) = some entry := by
          rw [searched, if_neg hend] at hplain
          obtain ⟨rest, hrest⟩ := walk_plain_prefix sha256 interest
            (storage.cache.drop (storage.lowerBound interest.name - 1))
          rw [← hrest, List.find?_append]
          exact Option.or_eq_some_iff.mpr (.inl hplain)
        have hother : other ∈ storage.cache.drop (storage.lowerBound interest.name - 1) := by
          have hin := List.mem_of_find?_eq_some hwalked
          rw [searched, if_neg hend] at hin
          exact List.mem_of_mem_filter ((walk_sublist _).subset hin)
        rw [eq_of_first_matches (storage.sorted.sublist (List.drop_sublist _ _))
          (searched_sorted storage interest) hbehind hwalked hmem hother]

end Find

/-! ## Every run -/

section Run

variable {policy : StoragePolicy} {state next : TimedStorage sha256}

theorem Timed.step (htimed : state.Timed) (hlinked : state.Linked) (hallowed : state.Allowed event)
    (hstep : state.step policy event = some next) : next.Timed := by
  rcases step_cases hstep with rfl | ⟨data, window, object, managed, rfl, habsent, hinsert, -, rfl⟩ |
    ⟨managed, hsubset, rfl⟩ | ⟨elapsed, rfl⟩ | ⟨eventId, alarm, halarm, hdue, rfl⟩
  · exact htimed
  · exact htimed.insert hlinked hallowed habsent hinsert
  · exact htimed.release hlinked fun entry hentry _ ↦ hsubset hentry
  · intro holder hholder entry hentry hname
    exact (htimed holder hholder entry hentry hname).mono (AlarmClock.now_le_now_advance elapsed)
      fun _ _ ↦ rfl
  · exact htimed.fire hlinked halarm hdue

variable {entry : InMemoryStorageEntry} {interest : Interest}

/-- The flag of an entry with a window, when every due event has fired. -/
theorem Timed.isFresh_iff (htimed : state.Timed) (hsettled : state.scheduler.IsSettled)
    (hholds : state.Holds holder entry) :
    entry.isFresh = true ↔ state.scheduler.now < holder.deadline := by
  obtain ⟨hholder, hentry, hname, hwindow⟩ := hholds
  have hflag := htimed holder hholder entry hentry hname
  cases hfresh : entry.isFresh with
  | true =>
    rw [hfresh] at hflag
    refine iff_of_true rfl ?_
    rcases hflag with ⟨hnegative, -⟩ | ⟨-, eventId, -, hset⟩
    · exact absurd hnegative hwindow.not_gt
    · exact hsettled.lt_due hset
  | false =>
    rw [hfresh] at hflag
    exact iff_of_false Bool.false_ne_true hflag.2.not_gt

/-- Where an entry has the name of the Interest, it is what is found. -/
theorem find_of_getFullName_eq {storage : InMemoryStorage sha256} (hentry : entry ∈ storage.cache)
    (hname : entry.getFullName sha256 = interest.name) : storage.find interest = some entry :=
  InMemoryStorage.find_of_stored
    (InMemoryStorage.findByFullName_eq_some_iff.mpr ⟨hentry, hname⟩)

theorem Timed.answersByClock_iff (htimed : state.Timed) (hsettled : state.scheduler.IsSettled)
    (hfresh : interest.mustBeFresh = true) :
    state.AnswersByClock interest ↔ state.LocatesNoneExpired interest := by
  constructor
  · intro hanswers holder entry hholds hlocated
    by_contra hexpired
    have hfind : state.managed.storage.find interest = some entry :=
      find_of_getFullName_eq hholds.2.1 (hholds.2.2.1.trans hlocated)
    exact (hanswers holder entry hholds).2 (not_lt.mp hexpired) hfind
  · intro hlocates holder entry hholds
    have hflag := htimed.isFresh_iff hsettled hholds
    refine ⟨fun hlives hplain ↦ find_of_fresh hplain (hflag.mpr hlives), fun hexpired hfind ↦ ?_⟩
    cases hstored : state.managed.storage.findByFullName interest.name with
    | some stored =>
      rw [InMemoryStorage.find_of_stored hstored, Option.some.injEq] at hfind
      have hname : stored.getFullName sha256 = interest.name :=
        (InMemoryStorage.findByFullName_eq_some_iff.mp hstored).2
      have hlocated : holder.fullName = interest.name := by
        rw [← hholds.2.2.1, ← hfind, hname]
      exact absurd (hlocates holder entry hholds hlocated) hexpired.not_gt
    | none =>
      obtain ⟨-, -, -, heligible⟩ := (InMemoryStorage.find_spec hstored).1 entry hfind
      exact absurd (hflag.mp (heligible hfresh)) hexpired.not_gt

end Run

open ManagedStorage (packet zeroDigest)

def freshInterest (value : Bytes) : Interest := { name := [.generic value], mustBeFresh := true }

/-- At the limit the second packet takes the object of the first, whose event would be due first. -/
def reuse : List Event :=
  [.insert (packet [97]) 10 0, .insert (packet [98]) 30 0, .advance 20000000]

end TimedStorage

end NdnCxx
