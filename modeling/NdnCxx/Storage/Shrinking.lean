import NdnCxx.Storage.Capacity

/-!
# Reducing the capacity

`setCapacity` writes the new capacity first, then asks the policy to evict, as often as there are
packets too many and with as many refusals allowed, and adjusts the pool last. Here the policy is any
derived class, and what is left behind is recorded also where the call throws: the new capacity and
the evictions made so far stay. So the call either succeeds or breaks the assertion that the packets
and the pool make up the capacity, and it succeeds exactly if the policy grants enough evictions in
time.
-/

namespace NdnCxx

/-- `evictItem` of a derived class. It erases one stored packet through `eraseImpl` and tells so, or
refuses; `Index` is what the class keeps. -/
structure EvictionPolicy (sha256 : Bytes → Bytes) (Index : Type) where
  evictItem : (storage : InMemoryStorage sha256) → Index →
    Option { fullName : Name // fullName ∈ storage.fullNames } × Index

/-- What `setCapacity` works on. -/
structure EvictableStorage (sha256 : Bytes → Bytes) (Index : Type) where
  storage : InMemoryStorage sha256
  capacity : ℕ
  nPackets : ℕ
  freeEntries : ℕ
  index : Index

/-- Between two calls the packets are counted, and the packets and the pool make up the capacity. -/
structure SettledStorage (sha256 : Bytes → Bytes) (Index : Type) extends
    EvictableStorage sha256 Index where
  nPackets_eq : nPackets = storage.cache.length
  pool_eq : nPackets + freeEntries = capacity

variable {sha256 : Bytes → Bytes} {Index : Type}

/-- What the policy answers when it is asked to evict again and again. -/
def EvictionPolicy.answers (policy : EvictionPolicy sha256 Index) :
    ℕ → InMemoryStorage sha256 → Index → List Bool
  | 0, _, _ => []
  | count + 1, storage, index =>
      match policy.evictItem storage index with
      | (some fullName, next) => true :: policy.answers count (storage.eraseEntry fullName) next
      | (none, next) => false :: policy.answers count storage next

namespace EvictableStorage

variable (policy : EvictionPolicy sha256 Index)

def freeEntry (state : EvictableStorage sha256 Index) (fullName : Name) :
    EvictableStorage sha256 Index :=
  { state with
    storage := state.storage.eraseEntry fullName
    nPackets := state.nPackets - 1
    freeEntries := state.freeEntries + 1 }

def evictItem (state : EvictableStorage sha256 Index) : Bool × EvictableStorage sha256 Index :=
  match policy.evictItem state.storage state.index with
  | (some fullName, next) => (true, { state.freeEntry fullName with index := next })
  | (none, next) => (false, { state with index := next })

abbrev Failed (sha256 : Bytes → Bytes) (Index : Type) :=
  StorageFailure × EvictableStorage sha256 Index

/-- The loop of `setCapacity`. Every round removes a packet or uses up one of the allowed failures,
so their number bounds the rounds. -/
def evictLoop : ℕ → ℤ → EvictableStorage sha256 Index →
    Except (Failed sha256 Index) (EvictableStorage sha256 Index)
  | 0, _, state => .ok state
  | rounds + 1, nAllowedFailures, state =>
      if state.nPackets > state.capacity then
        match evictItem policy state with
        | (true, next) => evictLoop rounds nAllowedFailures next
        | (false, next) =>
            if nAllowedFailures - 1 < 0 then .error (.cannotReduce, next)
            else evictLoop rounds (nAllowedFailures - 1) next
      else .ok state

/-- The end of `setCapacity`: entries are added to the pool or deleted from it. -/
def resizePool (oldCapacity : ℕ) (state : EvictableStorage sha256 Index) :
    Except (Failed sha256 Index) (EvictableStorage sha256 Index) :=
  if state.capacity ≥ oldCapacity then
    .ok { state with freeEntries := state.freeEntries + (state.capacity - oldCapacity) }
  else if state.freeEntries < oldCapacity - state.capacity then
    .error (.emptyPool, { state with freeEntries := 0 })
  else .ok { state with freeEntries := state.freeEntries - (oldCapacity - state.capacity) }

/-- The assertion at the end of `setCapacity` -/
def checkPool (state : EvictableStorage sha256 Index) :
    Except (Failed sha256 Index) (EvictableStorage sha256 Index) :=
  if state.nPackets + state.freeEntries = state.capacity then .ok state
  else .error (.assertion, state)

/-- `setCapacity`; the number of allowed failures is an `ssize_t`. -/
def setCapacity (state : EvictableStorage sha256 Index) (capacity : ℕ) :
    Except (Failed sha256 Index) (EvictableStorage sha256 Index) := do
  let excess := state.nPackets - capacity
  let evicted ← evictLoop policy (2 * excess + 1) (Int.bmod excess (2 ^ 64))
    { state with capacity := capacity }
  let resized ← resizePool state.capacity evicted
  checkPool resized

end EvictableStorage

namespace SettledStorage

/-- The call returns with the new capacity and has evicted no more packets than it had to, or throws
`Error` and leaves the storage as it was. -/
def SetsOrKeeps (policy : EvictionPolicy sha256 Index) (state : SettledStorage sha256 Index)
    (capacity : ℕ) : Prop :=
  match EvictableStorage.setCapacity policy state.toEvictableStorage capacity with
  | .ok after => after.capacity = capacity ∧
      after.storage.cache.Sublist state.storage.cache ∧
        after.storage.cache.length = min state.storage.cache.length capacity ∧
          after.nPackets = after.storage.cache.length ∧
            after.nPackets + after.freeEntries = capacity
  | .error (failure, after) => failure = .cannotReduce ∧ after.capacity = state.capacity ∧
      after.storage = state.storage ∧ after.nPackets = state.nPackets ∧
        after.freeEntries = state.freeEntries

/-- The policy, asked as often as there are packets too many and refusals allowed, grants as many
evictions as there are packets too many. -/
def GrantsEnough (policy : EvictionPolicy sha256 Index) (state : SettledStorage sha256 Index)
    (capacity : ℕ) : Prop :=
  let excess := state.nPackets - capacity
  excess ≤ (policy.answers (excess + (Int.bmod excess (2 ^ 64)).toNat) state.storage
    state.index).count true

instance (policy : EvictionPolicy sha256 Index) (state : SettledStorage sha256 Index)
    (capacity : ℕ) : Decidable (state.GrantsEnough policy capacity) :=
  inferInstanceAs (Decidable (_ ≤ _))

end SettledStorage

/-! ## The loop -/

section Loop

variable {policy : EvictionPolicy sha256 Index} {state : EvictableStorage sha256 Index}

theorem EvictionPolicy.length_answers (policy : EvictionPolicy sha256 Index) (count : ℕ)
    (storage : InMemoryStorage sha256) (index : Index) :
    (policy.answers count storage index).length = count := by
  induction count generalizing storage index with
  | zero => rfl
  | succ count ih =>
    unfold answers
    split <;> rw [List.length_cons, ih]

/-- Where no further refusal is allowed, a refusal leaves too few answers. -/
theorem EvictionPolicy.count_answers_le (policy : EvictionPolicy sha256 Index) (count : ℕ)
    (storage : InMemoryStorage sha256) (index : Index) :
    (policy.answers count storage index).count true ≤ count :=
  calc (policy.answers count storage index).count true
      ≤ (policy.answers count storage index).length := List.count_le_length
    _ = count := policy.length_answers count storage index

namespace EvictableStorage

/-- What the loop leaves of the packets when it ends: no more than fit, and as many as can be. -/
structure Shrunk (state after : EvictableStorage sha256 Index) : Prop where
  capacity_eq : after.capacity = state.capacity
  sublist : after.storage.cache.Sublist state.storage.cache
  nPackets_eq : after.nPackets = min state.nPackets state.capacity
  counted : after.nPackets = after.storage.cache.length
  pool_eq : after.nPackets + after.freeEntries = state.nPackets + state.freeEntries

/-- How often the policy evicts when the loop asks it as often as it may. -/
def grants (policy : EvictionPolicy sha256 Index) (state : EvictableStorage sha256 Index)
    (nAllowedFailures : ℤ) : ℕ :=
  (policy.answers (state.nPackets - state.capacity + nAllowedFailures.toNat) state.storage
    state.index).count true

/-- The loop ends by what the policy grants. -/
def EndsBy (policy : EvictionPolicy sha256 Index) (state : EvictableStorage sha256 Index)
    (nAllowedFailures : ℤ) :
    Except (Failed sha256 Index) (EvictableStorage sha256 Index) → Prop
  | .ok after => state.Shrunk after ∧ state.nPackets - state.capacity ≤
      grants policy state nAllowedFailures
  | .error (failure, after) => (failure = .cannotReduce ∧ after.capacity = state.capacity) ∧
      grants policy state nAllowedFailures < state.nPackets - state.capacity

variable {fullName : { fullName : Name // fullName ∈ state.storage.fullNames }}

section Round

variable {nAllowedFailures : ℤ} {index : Index}
  {outcome : Except (Failed sha256 Index) (EvictableStorage sha256 Index)}

/-- A packet less is one packet less to evict. -/
theorem EndsBy.granted (hfull : state.nPackets > state.capacity)
    (hanswer : policy.evictItem state.storage state.index = (some fullName, index))
    (hrest : EndsBy policy { state.freeEntry fullName with index := index } nAllowedFailures
      outcome) : EndsBy policy state nAllowedFailures outcome := by
  have hgrants : grants policy state nAllowedFailures =
      grants policy { state.freeEntry fullName with index := index } nAllowedFailures + 1 := by
    have hasked : state.nPackets - state.capacity + nAllowedFailures.toNat =
        state.nPackets - 1 - state.capacity + nAllowedFailures.toNat + 1 := by omega
    rw [grants, hasked, EvictionPolicy.answers, hanswer]
    exact List.count_cons_self
  have hexcess : state.nPackets - state.capacity = state.nPackets - 1 - state.capacity + 1 := by
    omega
  cases outcome with
  | error failed =>
    obtain ⟨hfailure, hcount⟩ := hrest
    refine ⟨hfailure, ?_⟩
    rw [hgrants, hexcess]
    exact Nat.succ_lt_succ hcount
  | ok after =>
    obtain ⟨hshrunk, hcount⟩ := hrest
    constructor
    · have hsize : after.nPackets = min (state.nPackets - 1) state.capacity := hshrunk.nPackets_eq
      have hpool : after.nPackets + after.freeEntries =
          state.nPackets - 1 + (state.freeEntries + 1) := hshrunk.pool_eq
      exact ⟨hshrunk.capacity_eq, hshrunk.sublist.trans List.filter_sublist, by omega,
        hshrunk.counted, by omega⟩
    · rw [hgrants, hexcess]
      exact Nat.succ_le_succ hcount

theorem grants_of_refused (hanswer : policy.evictItem state.storage state.index = (none, index))
    {asked : ℕ} (hasked : state.nPackets - state.capacity + nAllowedFailures.toNat = asked + 1) :
    grants policy state nAllowedFailures =
      (policy.answers asked state.storage index).count true := by
  rw [grants, hasked, EvictionPolicy.answers, hanswer]
  exact List.count_cons_of_ne Bool.false_ne_true

/-- A refusal uses up one of the allowed failures. -/
theorem EndsBy.refused (hallowed : 0 < nAllowedFailures)
    (hanswer : policy.evictItem state.storage state.index = (none, index))
    (hrest : EndsBy policy { state with index := index } (nAllowedFailures - 1) outcome) :
    EndsBy policy state nAllowedFailures outcome := by
  have hgrants : grants policy state nAllowedFailures =
      grants policy { state with index := index } (nAllowedFailures - 1) :=
    grants_of_refused hanswer (by dsimp only; omega)
  cases outcome with
  | error failed => exact ⟨hrest.1, hgrants ▸ hrest.2⟩
  | ok after =>
    obtain ⟨hshrunk, hcount⟩ := hrest
    exact ⟨⟨hshrunk.capacity_eq, hshrunk.sublist, hshrunk.nPackets_eq, hshrunk.counted,
      hshrunk.pool_eq⟩, hgrants ▸ hcount⟩

/-- Where no refusal is allowed any more, the answers that are left are too few. -/
theorem EndsBy.givenUp (hfull : state.nPackets > state.capacity) (hnone : nAllowedFailures ≤ 0)
    (hanswer : policy.evictItem state.storage state.index = (none, index)) :
    EndsBy policy state nAllowedFailures
      (.error (.cannotReduce, { state with index := index })) := by
  refine ⟨⟨rfl, rfl⟩, ?_⟩
  have hasked : state.nPackets - state.capacity + nAllowedFailures.toNat =
      state.nPackets - state.capacity - 1 + 1 := by omega
  rw [grants_of_refused hanswer hasked]
  calc (policy.answers (state.nPackets - state.capacity - 1) state.storage index).count true
      ≤ state.nPackets - state.capacity - 1 := policy.count_answers_le _ _ _
    _ < state.nPackets - state.capacity := by omega

end Round

theorem evictItem_of_granted {index : Index}
    (hanswer : policy.evictItem state.storage state.index = (some fullName, index)) :
    evictItem policy state = (true, { state.freeEntry fullName with index := index }) := by
  rw [evictItem, hanswer]

theorem evictItem_of_refused {index : Index}
    (hanswer : policy.evictItem state.storage state.index = (none, index)) :
    evictItem policy state = (false, { state with index := index }) := by
  rw [evictItem, hanswer]

theorem evictLoop_endsBy {rounds : ℕ} {nAllowedFailures : ℤ}
    (hcounted : state.nPackets = state.storage.cache.length)
    (hrounds : state.nPackets - state.capacity + nAllowedFailures.toNat < rounds) :
    EndsBy policy state nAllowedFailures (evictLoop policy rounds nAllowedFailures state) := by
  induction rounds generalizing nAllowedFailures state with
  | zero => exact absurd hrounds (Nat.not_lt_zero _)
  | succ rounds ih =>
    unfold evictLoop
    by_cases hfull : state.nPackets > state.capacity
    · rw [if_pos hfull]
      cases hanswer : policy.evictItem state.storage state.index with
      | mk answer index =>
        cases answer with
        | some fullName =>
          rw [evictItem_of_granted hanswer]
          have hlength := length_eraseEntry fullName.property
          have hless : state.nPackets - 1 = (state.storage.eraseEntry fullName).cache.length := by
            omega
          have hleft : state.nPackets - 1 - state.capacity + nAllowedFailures.toNat < rounds := by
            omega
          exact .granted hfull hanswer (ih hless hleft)
        | none =>
          rw [evictItem_of_refused hanswer]
          dsimp only
          split_ifs with hgives
          · exact .givenUp hfull (by omega) hanswer
          · exact .refused (by omega) hanswer (ih hcounted (by dsimp only; omega))
    · rw [if_neg hfull]
      have hnone : state.nPackets - state.capacity = 0 := by omega
      refine ⟨⟨rfl, List.Sublist.refl _, by omega, hcounted, rfl⟩, ?_⟩
      rw [hnone]
      exact Nat.zero_le _

end EvictableStorage

end Loop

/-! ## The call -/

namespace SettledStorage

variable {policy : EvictionPolicy sha256 Index}

theorem grants_eq (state : SettledStorage sha256 Index) (capacity : ℕ) :
    state.GrantsEnough policy capacity ↔ state.nPackets - capacity ≤
      EvictableStorage.grants policy { state.toEvictableStorage with capacity := capacity }
        (Int.bmod (state.nPackets - capacity : ℕ) (2 ^ 64)) := Iff.rfl

/-- After the loop the pool can be adjusted, and the assertion holds. -/
theorem setCapacity_of_shrunk {state : SettledStorage sha256 Index} {capacity : ℕ}
    {evicted : EvictableStorage sha256 Index}
    (hshrunk : EvictableStorage.Shrunk { state.toEvictableStorage with capacity := capacity }
      evicted) :
    (EvictableStorage.resizePool state.capacity evicted >>= EvictableStorage.checkPool) =
      .ok { evicted with freeEntries := capacity - evicted.nPackets } := by
  have hpool := state.pool_eq
  have hcapacity : evicted.capacity = capacity := hshrunk.capacity_eq
  have hsize : evicted.nPackets = min state.nPackets capacity := hshrunk.nPackets_eq
  have hkept : evicted.nPackets + evicted.freeEntries = state.nPackets + state.freeEntries :=
    hshrunk.pool_eq
  have hresize : EvictableStorage.resizePool state.capacity evicted =
      .ok { evicted with freeEntries := capacity - evicted.nPackets } := by
    unfold EvictableStorage.resizePool
    rw [hcapacity]
    split_ifs with hgrows hempty
    · have hfree : evicted.freeEntries + (capacity - state.capacity) =
          capacity - evicted.nPackets := by omega
      rw [hfree]
    · omega
    · have hfree : evicted.freeEntries - (state.capacity - capacity) =
          capacity - evicted.nPackets := by omega
      rw [hfree]
  have hsum : evicted.nPackets + (capacity - evicted.nPackets) = evicted.capacity := by omega
  rw [hresize]
  exact if_pos hsum

/-- For every policy, storage and capacity, `setCapacity` either succeeds or throws and leaves the
storage as it was exactly if the policy grants enough evictions in time. -/
theorem setsOrKeeps_iff_grantsEnough (policy : EvictionPolicy sha256 Index)
    (state : SettledStorage sha256 Index) (capacity : ℕ) :
    state.SetsOrKeeps policy capacity ↔ state.GrantsEnough policy capacity := by
  have hbound : (Int.bmod (state.nPackets - capacity : ℕ) (2 ^ 64)).toNat ≤
      state.nPackets - capacity := by
    rw [Int.bmod_def]
    split_ifs <;> omega
  have hends := @EvictableStorage.evictLoop_endsBy _ _ policy
    { state.toEvictableStorage with capacity := capacity } (2 * (state.nPackets - capacity) + 1)
    (Int.bmod (state.nPackets - capacity : ℕ) (2 ^ 64)) state.nPackets_eq (by dsimp only; omega)
  rw [grants_eq, SetsOrKeeps, EvictableStorage.setCapacity]
  revert hends
  generalize EvictableStorage.evictLoop policy _ _ _ = outcome
  cases outcome with
  | error failed =>
    obtain ⟨failure, after⟩ := failed
    rintro ⟨⟨-, hcapacity⟩, hcount⟩
    have hpool := state.pool_eq
    refine iff_of_false ?_ hcount.not_ge
    rintro ⟨-, hkept, -⟩
    have hchanged : state.capacity = capacity := hkept.symm.trans hcapacity
    dsimp only at hcount
    omega
  | ok evicted =>
    rintro ⟨hshrunk, hcount⟩
    refine iff_of_true ?_ hcount
    have hok := setCapacity_of_shrunk hshrunk
    have hsize : evicted.nPackets = min state.nPackets capacity := hshrunk.nPackets_eq
    have hlength : evicted.nPackets = evicted.storage.cache.length := hshrunk.counted
    have hleft : evicted.storage.cache.length = min state.storage.cache.length capacity := by
      rw [← hlength, hsize, state.nPackets_eq]
    have hfits : evicted.nPackets ≤ capacity := hsize.trans_le (min_le_right _ _)
    dsimp only [bind, Except.bind] at hok ⊢
    rw [hok]
    exact ⟨hshrunk.capacity_eq, hshrunk.sublist, hleft, hlength, Nat.add_sub_cancel' hfits⟩

end SettledStorage

/-! ## The four policies -/

/-- `evictItem` of the four policies. The element at the front of a cleanup index is stored. -/
def StoragePolicy.evictions (policy : StoragePolicy) :
    EvictionPolicy sha256 (List CleanupEntry) where
  evictItem storage index :=
    match policy, index with
    | .persistent, _ => (none, index)
    | _, [] => (none, [])
    | _, entry :: rest =>
        if hstored : entry.fullName ∈ storage.fullNames then (some ⟨entry.fullName, hstored⟩, rest)
        else (none, rest)

namespace ManagedStorage

variable {policy : StoragePolicy} {state : ManagedStorage sha256}

/-- The storage as `setCapacity` sees it. -/
def evictable (state : ManagedStorage sha256) : EvictableStorage sha256 (List CleanupEntry) where
  storage := state.storage
  capacity := state.capacity
  nPackets := state.nPackets
  freeEntries := state.freeEntries
  index := state.cleanupIndex

def settled (state : ManagedStorage sha256) (hstate : state.Consistent policy) :
    SettledStorage sha256 (List CleanupEntry) where
  toEvictableStorage := state.evictable
  nPackets_eq := hstate.nPackets_eq
  pool_eq := hstate.pool_eq

variable {storage : InMemoryStorage sha256} {nAllowedFailures : ℤ}

theorem evictItem_of_indexed {entry : CleanupEntry} {rest : List CleanupEntry}
    (hpolicy : policy ≠ .persistent) (hstored : entry.fullName ∈ storage.fullNames) :
    policy.evictions.evictItem storage (entry :: rest) =
      (some ⟨entry.fullName, hstored⟩, rest) := by
  cases policy with
  | persistent => exact absurd rfl hpolicy
  | fifo | lru | lfu => exact dif_pos hstored

/-- A policy that evicts grants an eviction as long as a packet is stored. -/
theorem le_count_answers (hpolicy : policy ≠ .persistent) {index : List CleanupEntry}
    (hindexed : (index.map CleanupEntry.fullName).Perm storage.fullNames) (count : ℕ) :
    min count index.length ≤ (policy.evictions.answers count storage index).count true := by
  induction count generalizing storage index with
  | zero => exact Nat.min_le_left _ _
  | succ count ih =>
    cases index with
    | nil => exact Nat.zero_le _
    | cons entry rest =>
      have hstored : entry.fullName ∈ storage.fullNames := hindexed.subset List.mem_cons_self
      rw [EvictionPolicy.answers, evictItem_of_indexed hpolicy hstored, List.count_cons_self,
        List.length_cons, Nat.succ_min_succ]
      exact Nat.succ_le_succ (ih (perm_fullNames_eraseEntry hindexed))

theorem count_answers_persistent (count : ℕ) (storage : InMemoryStorage sha256)
    (index : List CleanupEntry) :
    (StoragePolicy.persistent.evictions.answers count storage index).count true = 0 := by
  induction count with
  | zero => rfl
  | succ count ih =>
    rw [EvictionPolicy.answers]
    exact (List.count_cons_of_ne Bool.false_ne_true).trans ih

def onePacket : SettledStorage zeroDigest (List CleanupEntry) where
  storage := ⟨[⟨packet [97], true⟩], List.pairwise_singleton _ _⟩
  capacity := 10
  nPackets := 1
  freeEntries := 9
  index := []
  nPackets_eq := rfl
  pool_eq := rfl

/-- The packet is not evicted, and the capacity is zero afterwards. -/
theorem not_setsOrKeeps_persistent :
    ¬ onePacket.SetsOrKeeps StoragePolicy.persistent.evictions 0 := by
  intro hkeeps
  have hcapacity : 0 = 10 := hkeeps.2.1
  exact absurd hcapacity (by decide)

/-! ### The calls of the four policies -/

/-- Refused in every round, the two loops give up together. -/
theorem evictLoop_evictable_persistent {rounds rounds' : ℕ} (hallowed : 0 ≤ nAllowedFailures)
    (hrounds : nAllowedFailures.toNat < rounds) (hrounds' : nAllowedFailures.toNat < rounds') :
    (evictLoop .persistent rounds nAllowedFailures state).map evictable =
      (EvictableStorage.evictLoop StoragePolicy.persistent.evictions rounds' nAllowedFailures
        state.evictable).mapError Prod.fst := by
  induction rounds generalizing rounds' nAllowedFailures with
  | zero => exact absurd hrounds (Nat.not_lt_zero _)
  | succ rounds ih =>
    cases rounds' with
    | zero => exact absurd hrounds' (Nat.not_lt_zero _)
    | succ rounds' =>
      have hrefuses : evictItem .persistent state = (false, state) := rfl
      have hrefuses' : EvictableStorage.evictItem StoragePolicy.persistent.evictions
          state.evictable = (false, state.evictable) := rfl
      have hsame : state.evictable.nPackets > state.evictable.capacity ↔
          state.nPackets > state.capacity := Iff.rfl
      rw [evictLoop, EvictableStorage.evictLoop, hrefuses, hrefuses']
      simp only [hsame]
      split_ifs
      · rfl
      · exact ih (by omega) (by omega) (by omega)
      · rfl

/-- With an index of what is stored, the two loops evict the same packets. -/
theorem evictLoop_evictable_of_indexed (hpolicy : policy ≠ .persistent) {rounds rounds' : ℕ}
    (hcounted : state.nPackets = state.storage.cache.length)
    (hindexed : state.indexedNames.Perm state.storage.fullNames)
    (hrounds : state.nPackets - state.capacity < rounds)
    (hrounds' : state.nPackets - state.capacity < rounds') :
    (evictLoop policy rounds nAllowedFailures state).map evictable =
      (EvictableStorage.evictLoop policy.evictions rounds' nAllowedFailures
        state.evictable).mapError Prod.fst := by
  induction rounds generalizing rounds' state with
  | zero => exact absurd hrounds (Nat.not_lt_zero _)
  | succ rounds ih =>
    cases rounds' with
    | zero => exact absurd hrounds' (Nat.not_lt_zero _)
    | succ rounds' =>
      rw [evictLoop, EvictableStorage.evictLoop]
      by_cases hfull : state.nPackets > state.capacity
      · have hfull' : state.evictable.nPackets > state.evictable.capacity := hfull
        rw [if_pos hfull, if_pos hfull']
        cases hindex : state.cleanupIndex with
        | nil =>
          have hempty := hindexed.length_eq
          rw [indexedNames, hindex, InMemoryStorage.length_fullNames, ← hcounted] at hempty
          change 0 = state.nPackets at hempty
          omega
        | cons entry rest =>
          rw [indexedNames, hindex, List.map_cons] at hindexed
          have hstored : entry.fullName ∈ state.storage.fullNames :=
            hindexed.subset List.mem_cons_self
          have hanswer : policy.evictions.evictItem state.storage state.cleanupIndex =
              (some ⟨entry.fullName, hstored⟩, rest) := by
            rw [hindex, evictItem_of_indexed hpolicy hstored]
          have hevicts' : EvictableStorage.evictItem policy.evictions state.evictable = (true,
              { state.evictable.freeEntry entry.fullName with index := rest }) :=
            @EvictableStorage.evictItem_of_granted _ _ _ state.evictable _ _ hanswer
          have hlength := length_eraseEntry hstored
          rw [Consistent.evictItem_eq hpolicy hindex hstored, hevicts']
          refine ih ?_ (perm_fullNames_eraseEntry hindexed) ?_ ?_
          · change state.nPackets - 1 = (state.storage.eraseEntry entry.fullName).cache.length
            omega
          · change state.nPackets - 1 - state.capacity < rounds
            omega
          · change state.nPackets - 1 - state.capacity < rounds'
            omega
      · have hfits : ¬ state.evictable.nPackets > state.evictable.capacity := hfull
        rw [if_neg hfull, if_neg hfits]
        rfl

theorem resizePool_evictable {oldCapacity : ℕ} (evicted : ManagedStorage sha256) :
    (resizePool oldCapacity evicted >>= checkPool).map evictable =
      (EvictableStorage.resizePool oldCapacity evicted.evictable >>=
        EvictableStorage.checkPool).mapError Prod.fst := by
  have hcheck : ∀ resized : ManagedStorage sha256, (checkPool resized).map evictable =
      (EvictableStorage.checkPool resized.evictable).mapError Prod.fst := by
    intro resized
    have hsum : resized.evictable.nPackets + resized.evictable.freeEntries =
        resized.evictable.capacity ↔
          resized.nPackets + resized.freeEntries = resized.capacity := Iff.rfl
    rw [checkPool, EvictableStorage.checkPool]
    simp only [hsum]
    split_ifs <;> rfl
  have hgrows : evicted.evictable.capacity ≥ oldCapacity ↔ evicted.capacity ≥ oldCapacity :=
    Iff.rfl
  have hempty : evicted.evictable.freeEntries < oldCapacity - evicted.evictable.capacity ↔
      evicted.freeEntries < oldCapacity - evicted.capacity := Iff.rfl
  rw [resizePool, EvictableStorage.resizePool]
  simp only [hgrows, hempty]
  split_ifs
  · exact hcheck _
  · rfl
  · exact hcheck _

/-- For the four policies the two models of `setCapacity` agree on what a call that returns leaves
behind, and on why a call does not. -/
theorem Consistent.setCapacity_evictable (hstate : state.Consistent policy)
    (hmemory : state.nPackets < 2 ^ 63) (capacity : ℕ) :
    (ManagedStorage.setCapacity policy state capacity).map evictable =
      (EvictableStorage.setCapacity policy.evictions state.evictable capacity).mapError
        Prod.fst := by
  have hcount : Int.bmod (state.nPackets - capacity : ℕ) (2 ^ 64) =
      (state.nPackets - capacity : ℕ) := Int.bmod_eq_of_le (by omega) (by omega)
  have hloop : (evictLoop policy (state.cleanupIndex.length + (state.nPackets - capacity) + 1)
        (state.nPackets - capacity : ℕ) { state with capacity := capacity }).map evictable =
      (EvictableStorage.evictLoop policy.evictions (2 * (state.nPackets - capacity) + 1)
        (state.nPackets - capacity : ℕ)
        { state.evictable with capacity := capacity }).mapError Prod.fst := by
    by_cases hpolicy : policy = .persistent
    · subst hpolicy
      exact evictLoop_evictable_persistent (by omega) (by omega) (by omega)
    · exact evictLoop_evictable_of_indexed hpolicy hstate.nPackets_eq (hstate.indexed hpolicy)
        (by dsimp only; omega) (by dsimp only; omega)
  rw [ManagedStorage.setCapacity, EvictableStorage.setCapacity]
  dsimp only [evictable] at hloop ⊢
  rw [hcount]
  revert hloop
  generalize evictLoop policy _ _ _ = outcome
  generalize EvictableStorage.evictLoop policy.evictions _ _ _ = outcome'
  intro hloop
  cases outcome with
  | error failure =>
    cases outcome' with
    | error failed => exact hloop
    | ok after => cases hloop
  | ok evicted =>
    cases outcome' with
    | error failed => cases hloop
    | ok after =>
      obtain rfl : evicted.evictable = after := Except.ok.inj hloop
      exact resizePool_evictable evicted

/-- Of the four policies, only the persistent one fails, and only if it would have to evict. With less
than 2 ^ 63 packets this is what the call does to the storages. -/
theorem Consistent.setsOrKeeps_iff (hstate : state.Consistent policy) (capacity : ℕ) :
    ((state.settled hstate).SetsOrKeeps policy.evictions capacity ↔
      policy ≠ .persistent ∨ state.nPackets ≤ capacity) ∧
    (state.nPackets < 2 ^ 63 → (ManagedStorage.setCapacity policy state capacity).map evictable =
      (EvictableStorage.setCapacity policy.evictions state.evictable capacity).mapError
        Prod.fst) := by
  refine ⟨?_, fun hmemory ↦ hstate.setCapacity_evictable hmemory capacity⟩
  rw [SettledStorage.setsOrKeeps_iff_grantsEnough]
  change state.nPackets - capacity ≤ (policy.evictions.answers _ state.storage
    state.cleanupIndex).count true ↔ _
  by_cases hpolicy : policy = .persistent
  · subst hpolicy
    rw [count_answers_persistent, Nat.le_zero, Nat.sub_eq_zero_iff_le]
    simp
  · refine iff_of_true ?_ (.inl hpolicy)
    have hindexed := hstate.indexed hpolicy
    have hlength : state.cleanupIndex.length = state.nPackets := by
      rw [hstate.nPackets_eq_fullNames, ← hindexed.length_eq, indexedNames, List.length_map]
    refine le_trans ?_ (le_count_answers hpolicy hindexed _)
    rw [hlength]
    exact le_min (Nat.le_add_right _ _) (Nat.sub_le _ _)

def twoPackets : ManagedStorage zeroDigest :=
  (Run.run (step .lru) (init zeroDigest 20)
    [.insert (packet [97]), .insert (packet [98])]).get (by decide)

theorem consistent_twoPackets : twoPackets.Consistent .lru where
  nPackets_eq := by decide
  pool_eq := by decide
  capacity_le := by decide
  indexed _ := by decide
  unlimited := nofun

/-- One of two packets has to be evicted. -/
theorem setsOrKeeps_iff_lru : twoPackets.nPackets = 2 ∧
    (twoPackets.settled consistent_twoPackets).SetsOrKeeps StoragePolicy.lru.evictions 1 ∧
    (ManagedStorage.setCapacity .lru twoPackets 1).map evictable =
      (EvictableStorage.setCapacity StoragePolicy.lru.evictions twoPackets.evictable 1).mapError
        Prod.fst :=
  ⟨by decide, (consistent_twoPackets.setsOrKeeps_iff 1).1.mpr (.inl (by decide)),
    (consistent_twoPackets.setsOrKeeps_iff 1).2 (by decide)⟩

end ManagedStorage

end NdnCxx
