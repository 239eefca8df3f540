import NdnCxx.Storage.InMemoryStorage

/-!
# Capacity and replacement

The calls that change an `InMemoryStorage`: `insert`, `erase` and the accesses made by `find`, with
the pool of free entries, the capacity that is doubled and halved, and the four replacement
policies. An entry of the pool holds nothing, so the pool is counted only; a stored entry is told
apart by its full name, which the cache keeps unique. Sizes are values of `size_t`.
-/

namespace NdnCxx

/-- The derived classes of `InMemoryStorage`. -/
inductive StoragePolicy
  | fifo
  | lru
  | lfu
  | persistent
  deriving DecidableEq, Repr

/-- An element of a cleanup index; `frequency` is that of `InMemoryStorageLfu::CleanupEntry`. -/
structure CleanupEntry where
  fullName : Name
  frequency : ℕ
  deriving DecidableEq

/-- Why a call does not return: `InMemoryStorage::Error`, a failed assertion, or `top()` of an empty
pool. -/
inductive StorageFailure
  | cannotReduce
  | assertion
  | emptyPool
  deriving DecidableEq, Repr

/-! ## Cleanup indexes -/

namespace StoragePolicy

/-- Insertion into the index by frequency, behind the elements with the same one. -/
def insertByFrequency (entry : CleanupEntry) (index : List CleanupEntry) : List CleanupEntry :=
  index.takeWhile (fun other ↦ other.frequency ≤ entry.frequency) ++
    entry :: index.dropWhile (fun other ↦ other.frequency ≤ entry.frequency)

/-- The insertion of `afterInsert`. The index by entity refuses an entry that it has. -/
def addToIndex (policy : StoragePolicy) (fullName : Name) (index : List CleanupEntry) :
    List CleanupEntry :=
  if index.any fun entry ↦ entry.fullName = fullName then index
  else
    match policy with
    | .fifo | .lru => index ++ [⟨fullName, 0⟩]
    | .lfu => insertByFrequency ⟨fullName, 0⟩ index
    | .persistent => index

def beforeErase (policy : StoragePolicy) (fullName : Name) (index : List CleanupEntry) :
    List CleanupEntry :=
  match policy with
  | .fifo | .lru | .lfu => index.filter fun entry ↦ entry.fullName ≠ fullName
  | .persistent => index

/-- `modify` keeps an element in its place between these neighbours. -/
def staysInPlace (before : List CleanupEntry) (entry : CleanupEntry) (after : List CleanupEntry) :
    Bool :=
  before.getLast?.all (fun other ↦ other.frequency ≤ entry.frequency) &&
    after.head?.all fun other ↦ entry.frequency ≤ other.frequency

/-- `InMemoryStorageLfu::afterAccess`; the frequency is a `uint64_t`. -/
def countAccess (fullName : Name) (index : List CleanupEntry) : List CleanupEntry :=
  let before := index.takeWhile fun other ↦ other.fullName ≠ fullName
  match index.dropWhile fun other ↦ other.fullName ≠ fullName with
  | [] => index
  | entry :: after =>
      let counted := { entry with frequency := (entry.frequency + 1) % 2 ^ 64 }
      if staysInPlace before counted after then before ++ counted :: after
      else insertByFrequency counted (before ++ after)

end StoragePolicy

/-! ## The cache -/

namespace InMemoryStorage

variable {sha256 : Bytes → Bytes}

/-- Insertion at the place of the full name; an entry with the same one is kept. -/
def insertSorted (sha256 : Bytes → Bytes) (entry : InMemoryStorageEntry) :
    List InMemoryStorageEntry → List InMemoryStorageEntry
  | [] => [entry]
  | other :: rest =>
      if other.getFullName sha256 < entry.getFullName sha256 then
        other :: insertSorted sha256 entry rest
      else if other.getFullName sha256 = entry.getFullName sha256 then other :: rest
      else entry :: other :: rest

variable {cache : List InMemoryStorageEntry}

theorem mem_insertSorted {entry other : InMemoryStorageEntry}
    (hmem : other ∈ insertSorted sha256 entry cache) : other = entry ∨ other ∈ cache := by
  induction cache with
  | nil => simpa [insertSorted] using hmem
  | cons first rest ih =>
    rw [insertSorted] at hmem
    split_ifs at hmem
    · rcases List.mem_cons.mp hmem with rfl | hrest
      · exact .inr List.mem_cons_self
      · exact (ih hrest).imp_right (List.mem_cons_of_mem first)
    · exact .inr hmem
    · exact List.mem_cons.mp hmem

theorem insertSorted_sorted {entry : InMemoryStorageEntry}
    (hsorted : cache.Pairwise fun first second ↦
      first.getFullName sha256 < second.getFullName sha256) :
    (insertSorted sha256 entry cache).Pairwise fun first second ↦
      first.getFullName sha256 < second.getFullName sha256 := by
  induction cache with
  | nil => exact List.pairwise_singleton _ _
  | cons first rest ih =>
    have hrest := List.pairwise_cons.mp hsorted
    rw [insertSorted]
    split_ifs with hlt heq
    · refine List.pairwise_cons.mpr ⟨?_, ih hrest.2⟩
      intro other hother
      rcases mem_insertSorted hother with rfl | hother
      · exact hlt
      · exact hrest.1 other hother
    · exact hsorted
    · have hbefore : entry.getFullName sha256 < first.getFullName sha256 :=
        lt_of_le_of_ne (not_lt.mp hlt) (Ne.symm heq)
      refine List.pairwise_cons.mpr ⟨?_, hsorted⟩
      intro other hother
      rcases List.mem_cons.mp hother with rfl | hother
      · exact hbefore
      · exact hbefore.trans (hrest.1 other hother)

def insertEntry (storage : InMemoryStorage sha256) (entry : InMemoryStorageEntry) :
    InMemoryStorage sha256 :=
  ⟨insertSorted sha256 entry storage.cache, insertSorted_sorted storage.sorted⟩

def eraseEntry (storage : InMemoryStorage sha256) (fullName : Name) : InMemoryStorage sha256 :=
  ⟨storage.cache.filter fun entry ↦ entry.getFullName sha256 ≠ fullName,
    storage.sorted.sublist List.filter_sublist⟩

/-- `InMemoryStorageEntry::markStale` of the entry with this full name -/
def markStale (storage : InMemoryStorage sha256) (fullName : Name) : InMemoryStorage sha256 :=
  ⟨storage.cache.map fun entry ↦
      if entry.getFullName sha256 = fullName then { entry with isFresh := false } else entry, by
    rw [List.pairwise_map]
    apply storage.sorted.imp
    intro first second hlt
    split_ifs <;> exact hlt⟩

/-- The entries that `erase` removes by a prefix: from the lower bound on, as long as the prefix
fits. -/
def underPrefix (storage : InMemoryStorage sha256) (name : Name) : List InMemoryStorageEntry :=
  (storage.cache.drop (storage.lowerBound name)).takeWhile fun entry ↦
    name.isPrefixOf entry.data.name

def findUnder (storage : InMemoryStorage sha256) (name : Name) : Option InMemoryStorageEntry :=
  ((storage.cache.drop (storage.lowerBound name)).head?).filter fun entry ↦
    name.isPrefixOf (entry.getFullName sha256)

/-- The entry that `find(const Interest&)` hands to `afterAccess`: none if it was located by its
full name. -/
def accessed (storage : InMemoryStorage sha256) (interest : Interest) :
    Option InMemoryStorageEntry :=
  if (storage.findByFullName interest.name).isSome then none else storage.find interest

end InMemoryStorage

/-! ## The calls -/

/-- An `InMemoryStorage` with its pool and the cleanup index of its policy. -/
structure ManagedStorage (sha256 : Bytes → Bytes) where
  storage : InMemoryStorage sha256
  limit : ℕ
  capacity : ℕ
  nPackets : ℕ
  freeEntries : ℕ
  cleanupIndex : List CleanupEntry

namespace ManagedStorage

variable {sha256 : Bytes → Bytes} (policy : StoragePolicy)

def init (sha256 : Bytes → Bytes) (limit : ℕ) : ManagedStorage sha256 :=
  let capacity := if limit ≠ 2 ^ 64 - 1 ∧ 10 > limit then limit else 10
  { storage := ⟨[], .nil⟩, limit := limit, capacity := capacity, nPackets := 0,
    freeEntries := capacity, cleanupIndex := [] }

def isFull (state : ManagedStorage sha256) : Bool := state.nPackets ≥ state.capacity

def freeEntry (state : ManagedStorage sha256) (fullName : Name) : ManagedStorage sha256 :=
  { state with
    storage := state.storage.eraseEntry fullName
    nPackets := state.nPackets - 1
    freeEntries := state.freeEntries + 1 }

def eraseImpl (state : ManagedStorage sha256) (name : Name) : ManagedStorage sha256 :=
  if (state.storage.findByFullName name).isSome then state.freeEntry name else state

def evictItem (state : ManagedStorage sha256) : Bool × ManagedStorage sha256 :=
  match policy, state.cleanupIndex with
  | .persistent, _ => (false, state)
  | _, [] => (false, state)
  | _, entry :: rest => (true, { state.eraseImpl entry.fullName with cleanupIndex := rest })

def afterInsert (state : ManagedStorage sha256) (fullName : Name) :
    Except StorageFailure (ManagedStorage sha256) :=
  if policy ≠ .persistent ∧ ¬ state.cleanupIndex.length ≤ state.nPackets then .error .assertion
  else .ok { state with cleanupIndex := policy.addToIndex fullName state.cleanupIndex }

/-- The loop of `setCapacity`. A round takes an element of the cleanup index or one of the allowed
failures, so their number bounds the rounds. -/
def evictLoop : ℕ → ℤ → ManagedStorage sha256 → Except StorageFailure (ManagedStorage sha256)
  | 0, _, state => .ok state
  | rounds + 1, nAllowedFailures, state =>
      if state.nPackets > state.capacity then
        match evictItem policy state with
        | (true, next) => evictLoop rounds nAllowedFailures next
        | (false, next) =>
            if nAllowedFailures - 1 < 0 then .error .cannotReduce
            else evictLoop rounds (nAllowedFailures - 1) next
      else .ok state

/-- The end of `setCapacity`: entries are added to the pool or deleted from it. -/
def resizePool (oldCapacity : ℕ) (state : ManagedStorage sha256) :
    Except StorageFailure (ManagedStorage sha256) :=
  if state.capacity ≥ oldCapacity then
    .ok { state with freeEntries := state.freeEntries + (state.capacity - oldCapacity) }
  else if state.freeEntries < oldCapacity - state.capacity then .error .emptyPool
  else .ok { state with freeEntries := state.freeEntries - (oldCapacity - state.capacity) }

/-- The assertion at the end of `setCapacity` -/
def checkPool (state : ManagedStorage sha256) : Except StorageFailure (ManagedStorage sha256) :=
  if state.nPackets + state.freeEntries = state.capacity then .ok state else .error .assertion

def setCapacity (state : ManagedStorage sha256) (capacity : ℕ) :
    Except StorageFailure (ManagedStorage sha256) := do
  let excess := state.nPackets - capacity
  let evicted ← evictLoop policy (state.cleanupIndex.length + excess + 1) excess
    { state with capacity := capacity }
  let resized ← resizePool state.capacity evicted
  checkPool resized

/-- The doubling in `insert`; the product is a `size_t`. -/
def doubleCapacity (state : ManagedStorage sha256) :
    Except StorageFailure (ManagedStorage sha256) :=
  if state.isFull ∧ ¬ state.limit = state.capacity then
    setCapacity policy state (min (2 * state.capacity % 2 ^ 64) state.limit)
  else .ok state

/-- The end of `insert`: an entry is taken from the pool. -/
def storeData (data : Data) (state : ManagedStorage sha256) :
    Except StorageFailure (ManagedStorage sha256) :=
  if state.freeEntries > 0 then
    afterInsert policy { state with
      storage := state.storage.insertEntry ⟨data, true⟩
      nPackets := state.nPackets + 1
      freeEntries := state.freeEntries - 1 } (data.getFullName sha256)
  else .error .assertion

def insert (state : ManagedStorage sha256) (data : Data) :
    Except StorageFailure (ManagedStorage sha256) :=
  if (state.storage.findByFullName (data.getFullName sha256)).isSome then .ok state
  else do
    let doesReachLimit := state.limit = state.capacity
    let grown ← doubleCapacity policy state
    let evicted := if grown.isFull ∧ doesReachLimit then (evictItem policy grown).2 else grown
    storeData policy data evicted

def afterAccess (state : ManagedStorage sha256) (fullName : Name) :
    Except StorageFailure (ManagedStorage sha256) :=
  match policy with
  | .lru =>
      afterInsert policy { state with
        cleanupIndex := policy.beforeErase fullName state.cleanupIndex } fullName
  | .lfu =>
      .ok { state with cleanupIndex := StoragePolicy.countAccess fullName state.cleanupIndex }
  | .fifo | .persistent => .ok state

/-- `beforeErase` and `freeEntry` of one entry -/
def removeEntry (state : ManagedStorage sha256) (entry : InMemoryStorageEntry) :
    ManagedStorage sha256 :=
  freeEntry { state with
    cleanupIndex := policy.beforeErase (entry.getFullName sha256) state.cleanupIndex }
    (entry.getFullName sha256)

/-- The halving at the end of `erase`; the product is a `size_t`. -/
def halveCapacity (state : ManagedStorage sha256) :
    Except StorageFailure (ManagedStorage sha256) :=
  if state.freeEntries > 2 * state.nPackets % 2 ^ 64 then
    setCapacity policy state (state.capacity / 2)
  else .ok state

def erased (state : ManagedStorage sha256) (name : Name) (isPrefix : Bool) :
    List InMemoryStorageEntry :=
  if isPrefix then state.storage.underPrefix name else (state.storage.findByFullName name).toList

/-- `erase`. It returns early if no entry has the full name that is asked for. -/
def erase (state : ManagedStorage sha256) (name : Name) (isPrefix : Bool) :
    Except StorageFailure (ManagedStorage sha256) :=
  let entries := state.erased name isPrefix
  if !isPrefix && entries.isEmpty then .ok state
  else halveCapacity policy (entries.foldl (removeEntry policy) state)

/-- The calls of a run. An entry may go stale at any time in between. -/
inductive Call
  | insert (data : Data)
  | findName (name : Name)
  | findInterest (interest : Interest)
  | erase (name : Name) (isPrefix : Bool)
  | markStale (fullName : Name)

/-- What `find` leaves behind when it returns an entry. -/
def access (state : ManagedStorage sha256) :
    Option InMemoryStorageEntry → Except StorageFailure (ManagedStorage sha256)
  | some entry => afterAccess policy state (entry.getFullName sha256)
  | none => .ok state

def perform (state : ManagedStorage sha256) :
    Call → Except StorageFailure (ManagedStorage sha256)
  | .insert data => insert policy state data
  | .findName name => access policy state (state.storage.findUnder name)
  | .findInterest interest => access policy state (state.storage.accessed interest)
  | .erase name isPrefix => erase policy state name isPrefix
  | .markStale fullName => .ok { state with storage := state.storage.markStale fullName }

def step (state : ManagedStorage sha256) (call : Call) : Option (ManagedStorage sha256) :=
  (perform policy state call).toOption

end ManagedStorage

end NdnCxx
