import NdnCxx.Storage.BestMatch
import NdnCxx.Storage.Replacement

/-!
# The capacity invariant

In every state the stored packets and the pool make up the capacity, which stays below the limit,
and the cleanup index of a policy that evicts holds the stored entries. An insertion finds a free
entry as long as the capacity is positive. Halving is not stopped at one: an `erase` that leaves a
storage of capacity one empty takes the capacity to zero, from where doubling does not lead out.
-/

namespace NdnCxx

variable {name fullName : Name} {entry : InMemoryStorageEntry} {index : List CleanupEntry}

namespace InMemoryStorage

variable {sha256 : Bytes → Bytes}

def fullNames (storage : InMemoryStorage sha256) : List Name :=
  storage.cache.map (InMemoryStorageEntry.getFullName sha256)

theorem nodup_fullNames (storage : InMemoryStorage sha256) : storage.fullNames.Nodup := by
  apply List.pairwise_map.mpr
  exact storage.sorted.imp ne_of_lt

theorem length_fullNames (storage : InMemoryStorage sha256) :
    storage.fullNames.length = storage.cache.length := List.length_map _

variable {storage : InMemoryStorage sha256}

theorem isSome_findByFullName_iff :
    (storage.findByFullName name).isSome = true ↔ name ∈ storage.fullNames := by
  simp [findByFullName, fullNames]

/-- At most one entry has a full name. -/
theorem findByFullName_eq_some_iff : storage.findByFullName name = some entry ↔
      entry ∈ storage.cache ∧ entry.getFullName sha256 = name := by
  constructor
  · intro hfound
    exact ⟨List.mem_of_find?_eq_some hfound, by simpa using List.find?_some hfound⟩
  · rintro ⟨hmem, hname⟩
    have hstored : (storage.findByFullName name).isSome = true :=
      isSome_findByFullName_iff.mpr (List.mem_map.mpr ⟨entry, hmem, hname⟩)
    obtain ⟨found, hfound⟩ := Option.isSome_iff_exists.mp hstored
    have hfoundName : found.getFullName sha256 = name := by simpa using List.find?_some hfound
    rw [hfound, eq_of_getFullName_eq (List.mem_of_find?_eq_some hfound) hmem
      (hfoundName.trans hname.symm)]

theorem fullNames_eraseEntry (storage : InMemoryStorage sha256) (fullName : Name) :
    (storage.eraseEntry fullName).fullNames = storage.fullNames.filter (· ≠ fullName) := by
  simp only [fullNames, eraseEntry, List.filter_map]
  rfl

theorem fullNames_markStale (storage : InMemoryStorage sha256) (fullName : Name) :
    (storage.markStale fullName).fullNames = storage.fullNames := by
  simp only [fullNames, markStale, List.map_map]
  apply List.map_congr_left
  intro entry _
  rw [Function.comp_apply]
  split_ifs <;> rfl

theorem fullNames_insertEntry (habsent : entry.getFullName sha256 ∉ storage.fullNames) :
    (storage.insertEntry entry).fullNames.Perm
      (entry.getFullName sha256 :: storage.fullNames) := by
  simp only [fullNames, insertEntry] at habsent ⊢
  generalize storage.cache = cache at habsent ⊢
  induction cache with
  | nil => exact .refl _
  | cons first rest ih =>
    rw [List.map_cons, List.mem_cons, not_or] at habsent
    rw [insertSorted]
    split_ifs with hlt heq
    · exact ((ih habsent.2).cons _).trans (.swap _ _ _)
    · exact absurd heq.symm habsent.1
    · exact .refl _

end InMemoryStorage

variable {names : List Name}

/-- A name moved to the front of a list without duplicates. -/
theorem perm_cons_filter (hnodup : names.Nodup) (hmem : name ∈ names) :
    (name :: names.filter (· ≠ name)).Perm names := by
  have herase : names.filter (· ≠ name) = names.erase name := by
    rw [hnodup.erase_eq_filter]
    apply List.filter_congr
    intro other _
    by_cases hother : other = name <;> simp [hother]
  rw [herase]
  exact (List.perm_cons_erase hmem).symm

theorem length_eraseEntry {sha256 : Bytes → Bytes} {storage : InMemoryStorage sha256}
    (hmem : fullName ∈ storage.fullNames) :
    (storage.eraseEntry fullName).cache.length + 1 = storage.cache.length := by
  have hperm := perm_cons_filter storage.nodup_fullNames hmem
  rw [← InMemoryStorage.length_fullNames, ← InMemoryStorage.length_fullNames,
    InMemoryStorage.fullNames_eraseEntry, ← hperm.length_eq, List.length_cons]

/-- The names that are left when the first of them leaves the storage. -/
theorem perm_fullNames_eraseEntry {sha256 : Bytes → Bytes} {storage : InMemoryStorage sha256}
    (hperm : (fullName :: names).Perm storage.fullNames) :
    names.Perm (storage.eraseEntry fullName).fullNames := by
  have hnodup : (fullName :: names).Nodup := hperm.nodup_iff.mpr storage.nodup_fullNames
  have hfilter := hperm.filter (· ≠ fullName)
  rw [List.filter_cons_of_neg (by simp)] at hfilter
  have hkept : names.filter (· ≠ fullName) = names := by
    apply List.filter_eq_self.mpr
    intro name hname
    apply decide_eq_true
    rintro rfl
    exact (List.nodup_cons.mp hnodup).1 hname
  rw [hkept] at hfilter
  rw [InMemoryStorage.fullNames_eraseEntry]
  exact hfilter

theorem perm_insertByFrequency (entry : CleanupEntry) (index : List CleanupEntry) :
    ((StoragePolicy.insertByFrequency entry index).map CleanupEntry.fullName).Perm
      (entry.fullName :: index.map CleanupEntry.fullName) := by
  rw [StoragePolicy.insertByFrequency, List.map_append, List.map_cons]
  apply List.perm_middle.trans
  rw [← List.map_append, List.takeWhile_append_dropWhile]

/-- Where an accessed element stands in the index, and where it stands afterwards. -/
theorem countAccess_cases (hmem : fullName ∈ index.map CleanupEntry.fullName) :
    ∃ before entry after, index = before ++ entry :: after ∧ entry.fullName = fullName ∧
      StoragePolicy.countAccess fullName index =
        if StoragePolicy.staysInPlace before
            { entry with frequency := (entry.frequency + 1) % 2 ^ 64 } after then
          before ++ { entry with frequency := (entry.frequency + 1) % 2 ^ 64 } :: after
        else
          StoragePolicy.insertByFrequency
            { entry with frequency := (entry.frequency + 1) % 2 ^ 64 } (before ++ after) := by
  have hsplit := List.takeWhile_append_dropWhile
    (p := fun other : CleanupEntry ↦ decide (other.fullName ≠ fullName)) (l := index)
  cases hrest : index.dropWhile fun other ↦ other.fullName ≠ fullName with
  | nil =>
    obtain ⟨entry, hentry, rfl⟩ := List.mem_map.mp hmem
    have hother := List.dropWhile_eq_nil_iff.mp hrest entry hentry
    simp at hother
  | cons entry after =>
    have hname : entry.fullName = fullName := by
      have hhead := List.head?_dropWhile_not
        (fun other : CleanupEntry ↦ decide (other.fullName ≠ fullName)) index
      rw [hrest] at hhead
      simpa using hhead
    rw [hrest] at hsplit
    refine ⟨_, entry, after, hsplit.symm, hname, ?_⟩
    simp only [StoragePolicy.countAccess, hrest]

namespace ManagedStorage

variable {sha256 : Bytes → Bytes} {policy : StoragePolicy}

def indexedNames (state : ManagedStorage sha256) : List Name :=
  state.cleanupIndex.map CleanupEntry.fullName

/-- What holds between two calls. -/
structure Consistent (policy : StoragePolicy) (state : ManagedStorage sha256) : Prop where
  nPackets_eq : state.nPackets = state.storage.cache.length
  pool_eq : state.nPackets + state.freeEntries = state.capacity
  capacity_le : state.capacity ≤ state.limit
  indexed : policy ≠ .persistent → state.indexedNames.Perm state.storage.fullNames
  unlimited : policy = .persistent → state.limit = 2 ^ 64 - 1

variable {state : ManagedStorage sha256}

namespace Consistent

theorem nPackets_eq_fullNames (hstate : state.Consistent policy) :
    state.nPackets = state.storage.fullNames.length := by
  rw [hstate.nPackets_eq, InMemoryStorage.length_fullNames]

theorem init {limit : ℕ} (hpersistent : policy = .persistent → limit = 2 ^ 64 - 1) :
    (ManagedStorage.init sha256 limit).Consistent policy where
  nPackets_eq := rfl
  pool_eq := Nat.zero_add _
  capacity_le := by
    simp only [ManagedStorage.init]
    split_ifs <;> omega
  indexed _ := .refl _
  unlimited := hpersistent

/-! ## Removing entries -/

/-- An entry that leaves the cache and the index goes to the pool. -/
theorem freeEntry (hstate : state.Consistent policy) (hmem : fullName ∈ state.storage.fullNames)
    (hindex : policy ≠ .persistent → (index.map CleanupEntry.fullName).Perm
      (state.storage.fullNames.filter (· ≠ fullName))) :
    ({ state.freeEntry fullName with cleanupIndex := index }).Consistent policy := by
  have hlength := length_eraseEntry hmem
  have hsize := hstate.nPackets_eq
  have hpool := hstate.pool_eq
  constructor
  · change state.nPackets - 1 = (state.storage.eraseEntry fullName).cache.length
    omega
  · change state.nPackets - 1 + (state.freeEntries + 1) = state.capacity
    omega
  · exact hstate.capacity_le
  · intro hpolicy
    change (index.map CleanupEntry.fullName).Perm (state.storage.eraseEntry fullName).fullNames
    rw [InMemoryStorage.fullNames_eraseEntry]
    exact hindex hpolicy
  · exact hstate.unlimited

theorem filter_indexed (hstate : state.Consistent policy) (fullName : Name)
    (hpolicy : policy ≠ .persistent) :
    ((policy.beforeErase fullName state.cleanupIndex).map CleanupEntry.fullName).Perm
      (state.storage.fullNames.filter (· ≠ fullName)) := by
  have hfilter : (policy.beforeErase fullName state.cleanupIndex).map CleanupEntry.fullName =
      state.indexedNames.filter (· ≠ fullName) := by
    rw [indexedNames, List.filter_map]
    cases policy with
    | persistent => exact absurd rfl hpolicy
    | fifo | lru | lfu => rfl
  rw [hfilter]
  exact (hstate.indexed hpolicy).filter _

/-- The entry at the front of the cleanup index is evicted. -/
theorem evictItem_eq {entry : CleanupEntry} {rest : List CleanupEntry}
    (hpolicy : policy ≠ .persistent) (hindex : state.cleanupIndex = entry :: rest)
    (hstored : entry.fullName ∈ state.storage.fullNames) :
    ManagedStorage.evictItem policy state =
      (true, { state.freeEntry entry.fullName with cleanupIndex := rest }) := by
  have hfound := InMemoryStorage.isSome_findByFullName_iff.mpr hstored
  unfold ManagedStorage.evictItem
  rw [hindex]
  cases policy with
  | persistent => exact absurd rfl hpolicy
  | fifo | lru | lfu => simp [eraseImpl, hfound]

/-- The entries of a policy that evicts are in the cleanup index, so there is one to evict. -/
theorem evictItem (hstate : state.Consistent policy) (hpolicy : policy ≠ .persistent)
    (hpositive : 0 < state.nPackets) :
    ((ManagedStorage.evictItem policy state).2).Consistent policy ∧
      ((ManagedStorage.evictItem policy state).2).nPackets + 1 = state.nPackets ∧
      ((ManagedStorage.evictItem policy state).2).storage.fullNames ⊆ state.storage.fullNames ∧
      ∃ victim, state.cleanupIndex =
        victim :: ((ManagedStorage.evictItem policy state).2).cleanupIndex := by
  have hperm := hstate.indexed hpolicy
  cases hindex : state.cleanupIndex with
  | nil =>
    have hempty := hperm.length_eq
    rw [indexedNames, hindex, List.map_nil, List.length_nil,
      ← hstate.nPackets_eq_fullNames] at hempty
    omega
  | cons entry rest =>
    rw [indexedNames, hindex, List.map_cons] at hperm
    have hmem : entry.fullName ∈ state.storage.fullNames := hperm.subset List.mem_cons_self
    have hrest : (rest.map CleanupEntry.fullName).Perm
        (state.storage.eraseEntry entry.fullName).fullNames := perm_fullNames_eraseEntry hperm
    rw [InMemoryStorage.fullNames_eraseEntry] at hrest
    have hresult : (ManagedStorage.evictItem policy state).2 =
        { state.freeEntry entry.fullName with cleanupIndex := rest } := by
      rw [evictItem_eq hpolicy hindex hmem]
    rw [hresult]
    refine ⟨hstate.freeEntry hmem fun _ ↦ hrest, ?_, ?_, entry, rfl⟩
    · change state.nPackets - 1 + 1 = state.nPackets
      omega
    · change (state.storage.eraseEntry entry.fullName).fullNames ⊆ state.storage.fullNames
      rw [InMemoryStorage.fullNames_eraseEntry]
      exact fun name hname ↦ List.mem_of_mem_filter hname

/-! ## Changing the capacity -/

/-- Where the stored packets fit into the new capacity, nothing is evicted. -/
theorem setCapacity_eq (hstate : state.Consistent policy) (capacity : ℕ)
    (hfits : state.nPackets ≤ capacity) :
    ManagedStorage.setCapacity policy state capacity = .ok
      { state with capacity := capacity, freeEntries := capacity - state.nPackets } := by
  have hpool := hstate.pool_eq
  have hloop : ∀ rounds failures, evictLoop policy (rounds + 1) failures
      { state with capacity := capacity } = .ok { state with capacity := capacity } := by
    intro rounds failures
    rw [evictLoop, if_neg (not_lt.mpr hfits)]
  have hresize : resizePool state.capacity { state with capacity := capacity } = .ok
      { state with capacity := capacity, freeEntries := capacity - state.nPackets } := by
    unfold resizePool
    dsimp only
    split_ifs with hgrows hempty
    · have hfree : state.freeEntries + (capacity - state.capacity) = capacity - state.nPackets := by
        omega
      rw [hfree]
    · omega
    · have hfree : state.freeEntries - (state.capacity - capacity) = capacity - state.nPackets := by
        omega
      rw [hfree]
  have hcheck : state.nPackets + (capacity - state.nPackets) = capacity := by omega
  simp [ManagedStorage.setCapacity, hloop, hresize, checkPool, hcheck, bind, Except.bind]

theorem withCapacity (hstate : state.Consistent policy) {capacity : ℕ}
    (hfits : state.nPackets ≤ capacity) (hlimit : capacity ≤ state.limit) :
    ({ state with capacity := capacity, freeEntries := capacity - state.nPackets }).Consistent
      policy :=
  ⟨hstate.nPackets_eq, Nat.add_sub_cancel' hfits, hlimit, hstate.indexed, hstate.unlimited⟩

/-! ## Inserting -/

theorem perm_addToIndex (hpolicy : policy ≠ .persistent)
    (habsent : fullName ∉ index.map CleanupEntry.fullName) :
    ((policy.addToIndex fullName index).map CleanupEntry.fullName).Perm
      (fullName :: index.map CleanupEntry.fullName) := by
  have hnew : ¬ (index.any fun entry ↦ entry.fullName = fullName) = true := by
    simpa using habsent
  unfold StoragePolicy.addToIndex
  rw [if_neg hnew]
  cases policy with
  | persistent => exact absurd rfl hpolicy
  | fifo | lru =>
    rw [List.map_append]
    exact List.perm_append_singleton _ _
  | lfu => exact perm_insertByFrequency ⟨fullName, 0⟩ index

/-- An insertion of a new full name takes an entry from the pool. -/
theorem storeData {data : Data} (hstate : state.Consistent policy) (hfree : 0 < state.freeEntries)
    (habsent : data.getFullName sha256 ∉ state.storage.fullNames) :
    ∃ after, ManagedStorage.storeData policy data state = .ok after ∧ after.Consistent policy ∧
      after.capacity = state.capacity ∧ after.limit = state.limit ∧
        after.cleanupIndex =
          policy.addToIndex (data.getFullName sha256) state.cleanupIndex := by
  have hinsert : (state.storage.insertEntry ⟨data, true⟩).fullNames.Perm
      (data.getFullName sha256 :: state.storage.fullNames) :=
    InMemoryStorage.fullNames_insertEntry habsent
  have hsize := hstate.nPackets_eq_fullNames
  have hpool := hstate.pool_eq
  have hassert : ¬ (policy ≠ .persistent ∧
      ¬ state.cleanupIndex.length ≤ state.nPackets + 1) := by
    rintro ⟨hpolicy, hlong⟩
    have hlength := (hstate.indexed hpolicy).length_eq
    rw [indexedNames, List.length_map, ← hsize] at hlength
    omega
  refine ⟨{ state with
      storage := state.storage.insertEntry ⟨data, true⟩
      nPackets := state.nPackets + 1
      freeEntries := state.freeEntries - 1
      cleanupIndex := policy.addToIndex (data.getFullName sha256) state.cleanupIndex }, ?_, ?_,
    rfl, rfl, rfl⟩
  · rw [ManagedStorage.storeData, if_pos hfree, afterInsert, if_neg hassert]
  constructor
  · change state.nPackets + 1 = (state.storage.insertEntry ⟨data, true⟩).cache.length
    rw [← InMemoryStorage.length_fullNames, hinsert.length_eq, List.length_cons, hsize]
  · change state.nPackets + 1 + (state.freeEntries - 1) = state.capacity
    omega
  · exact hstate.capacity_le
  · intro hpolicy
    have hindex := hstate.indexed hpolicy
    have hnew : data.getFullName sha256 ∉ state.indexedNames :=
      fun hmem ↦ habsent (hindex.subset hmem)
    exact ((perm_addToIndex hpolicy hnew).trans (hindex.cons _)).trans hinsert.symm
  · exact hstate.unlimited

theorem evictItem_sizes (policy : StoragePolicy) (state : ManagedStorage sha256) :
    ((ManagedStorage.evictItem policy state).2).capacity = state.capacity ∧
      ((ManagedStorage.evictItem policy state).2).limit = state.limit := by
  unfold ManagedStorage.evictItem eraseImpl ManagedStorage.freeEntry
  split <;> (try split_ifs) <;> exact ⟨rfl, rfl⟩

/-- Before a new packet is stored, `insert` makes room for it: the storage grows, or at its limit
gives up the entry at the front of the index. -/
theorem makesRoom {data : Data} (hstate : state.Consistent policy) (hpositive : 0 < state.capacity)
    (hmemory : state.capacity < 2 ^ 63)
    (habsent : data.getFullName sha256 ∉ state.storage.fullNames) :
    ∃ roomy, ManagedStorage.insert policy state data = ManagedStorage.storeData policy data roomy ∧
      roomy.Consistent policy ∧ 0 < roomy.freeEntries ∧ 0 < roomy.capacity ∧
        roomy.limit = state.limit ∧ roomy.storage.fullNames ⊆ state.storage.fullNames ∧
          (roomy.cleanupIndex = state.cleanupIndex ∨
            ∃ victim, state.cleanupIndex = victim :: roomy.cleanupIndex) := by
  have hstored : ¬ (state.storage.findByFullName (data.getFullName sha256)).isSome = true :=
    mt InMemoryStorage.isSome_findByFullName_iff.mp habsent
  have hpool := hstate.pool_eq
  unfold ManagedStorage.insert
  rw [if_neg hstored]
  by_cases hfull : state.nPackets ≥ state.capacity
  · by_cases hlimit : state.limit = state.capacity
    · -- full at the limit: the policy evicts an entry
      have hpolicy : policy ≠ .persistent := by
        rintro rfl
        have hunlimited := hstate.unlimited rfl
        omega
      obtain ⟨hevicted, hsize, hsubset, hvictim⟩ := hstate.evictItem hpolicy (by omega)
      obtain ⟨hcapacity, hkept⟩ := evictItem_sizes policy state
      have hpool' := hevicted.pool_eq
      refine ⟨(ManagedStorage.evictItem policy state).2, ?_, hevicted, by omega, by omega, hkept,
        hsubset, .inr hvictim⟩
      simp [doubleCapacity, isFull, hfull, hlimit, bind, Except.bind]
    · -- full below the limit: the capacity is doubled
      have hless : state.capacity < state.limit :=
        lt_of_le_of_ne hstate.capacity_le fun heq ↦ hlimit heq.symm
      have hfits : state.nPackets ≤ min (2 * state.capacity % 2 ^ 64) state.limit := by omega
      have hdouble : doubleCapacity policy state = .ok { state with
          capacity := min (2 * state.capacity % 2 ^ 64) state.limit
          freeEntries := min (2 * state.capacity % 2 ^ 64) state.limit - state.nPackets } := by
        rw [doubleCapacity, if_pos ⟨decide_eq_true hfull, hlimit⟩]
        exact hstate.setCapacity_eq _ hfits
      refine ⟨_, ?_, hstate.withCapacity hfits (min_le_right _ _), ?_, ?_, rfl,
        List.Subset.refl _, .inl rfl⟩
      · simp [hdouble, hlimit, bind, Except.bind]
      · change 0 < min (2 * state.capacity % 2 ^ 64) state.limit - state.nPackets
        omega
      · change 0 < min (2 * state.capacity % 2 ^ 64) state.limit
        omega
  · refine ⟨state, ?_, hstate, by omega, hpositive, rfl, List.Subset.refl _, .inl rfl⟩
    simp [doubleCapacity, isFull, hfull, bind, Except.bind]

/-- With a positive capacity there is always room for a new packet. -/
theorem insert (hstate : state.Consistent policy) (hpositive : 0 < state.capacity)
    (hmemory : state.capacity < 2 ^ 63) (data : Data) :
    ∃ after, ManagedStorage.insert policy state data = .ok after ∧ after.Consistent policy ∧
      after.limit = state.limit ∧ 0 < after.capacity := by
  by_cases hstored : data.getFullName sha256 ∈ state.storage.fullNames
  · have hfound := InMemoryStorage.isSome_findByFullName_iff.mpr hstored
    exact ⟨state, by rw [ManagedStorage.insert, if_pos hfound], hstate, rfl, hpositive⟩
  · obtain ⟨roomy, heq, hroomy, hfree, hcapacity, hlimit, hsubset, -⟩ :=
      hstate.makesRoom hpositive hmemory hstored
    obtain ⟨after, hok, hafter, hsame, hsameLimit, -⟩ :=
      hroomy.storeData hfree (fun hmem ↦ hstored (hsubset hmem))
    exact ⟨after, heq.trans hok, hafter, hsameLimit.trans hlimit, hsame ▸ hcapacity⟩

/-! ## Erasing -/

theorem removeEntries {entries : List InMemoryStorageEntry} (hstate : state.Consistent policy)
    (hnodup : (entries.map (InMemoryStorageEntry.getFullName sha256)).Nodup)
    (hsubset : ∀ entry ∈ entries, entry.getFullName sha256 ∈ state.storage.fullNames) :
    (entries.foldl (removeEntry policy) state).Consistent policy ∧
      (entries.foldl (removeEntry policy) state).capacity = state.capacity ∧
        (entries.foldl (removeEntry policy) state).limit = state.limit ∧
          (entries.foldl (removeEntry policy) state).nPackets =
            state.nPackets - entries.length := by
  induction entries generalizing state with
  | nil => exact ⟨hstate, rfl, rfl, rfl⟩
  | cons entry entries ih =>
    rw [List.map_cons, List.nodup_cons] at hnodup
    have hremoved : (removeEntry policy state entry).Consistent policy :=
      hstate.freeEntry (hsubset entry List.mem_cons_self)
        (hstate.filter_indexed (entry.getFullName sha256))
    have hkept : ∀ other ∈ entries,
        other.getFullName sha256 ∈ (removeEntry policy state entry).storage.fullNames := by
      intro other hother
      change _ ∈ (state.storage.eraseEntry (entry.getFullName sha256)).fullNames
      rw [InMemoryStorage.fullNames_eraseEntry, List.mem_filter]
      refine ⟨hsubset other (List.mem_cons_of_mem entry hother), decide_eq_true ?_⟩
      intro hsame
      exact hnodup.1 (hsame ▸ List.mem_map_of_mem hother)
    obtain ⟨hconsistent, hcapacity, hlimit, hsize⟩ := ih hremoved hnodup.2 hkept
    refine ⟨hconsistent, hcapacity, hlimit, hsize.trans ?_⟩
    change state.nPackets - 1 - entries.length = state.nPackets - (entries.length + 1)
    omega

theorem erased_sublist (state : ManagedStorage sha256) (name : Name) (isPrefix : Bool) :
    (state.erased name isPrefix).Sublist state.storage.cache := by
  cases isPrefix with
  | true => exact (List.takeWhile_sublist _).trans (List.drop_sublist _ _)
  | false =>
    cases hfind : state.storage.findByFullName name with
    | none => simp [erased, hfind]
    | some entry => simpa [erased, hfind] using List.mem_of_find?_eq_some hfind

/-- What `erase` removes goes to the pool. -/
theorem removeErased (hstate : state.Consistent policy) (name : Name) (isPrefix : Bool) :
    ((state.erased name isPrefix).foldl (removeEntry policy) state).Consistent policy ∧
      ((state.erased name isPrefix).foldl (removeEntry policy) state).capacity =
        state.capacity ∧
      ((state.erased name isPrefix).foldl (removeEntry policy) state).limit = state.limit ∧
      ((state.erased name isPrefix).foldl (removeEntry policy) state).nPackets =
        state.nPackets - (state.erased name isPrefix).length := by
  have hsublist := (erased_sublist state name isPrefix).map
    (InMemoryStorageEntry.getFullName sha256)
  apply hstate.removeEntries (state.storage.nodup_fullNames.sublist hsublist)
  intro entry hentry
  exact hsublist.subset (List.mem_map_of_mem hentry)

/-- Halving changes no more than the capacity and the pool, and leads to zero only from an empty
storage of capacity one. -/
theorem halveCapacity_eq (hstate : state.Consistent policy) (hmemory : state.capacity < 2 ^ 63) :
    ∃ capacity, ManagedStorage.halveCapacity policy state =
        .ok { state with capacity := capacity, freeEntries := capacity - state.nPackets } ∧
      state.nPackets ≤ capacity ∧ capacity ≤ state.limit ∧
        (0 < state.capacity → (capacity = 0 ↔ state.capacity = 1 ∧ state.nPackets = 0)) := by
  have hpool := hstate.pool_eq
  have hlimit := hstate.capacity_le
  have hproduct : 2 * state.nPackets % 2 ^ 64 = 2 * state.nPackets :=
    Nat.mod_eq_of_lt (by omega)
  rw [ManagedStorage.halveCapacity, hproduct]
  split_ifs with hshrinks
  · refine ⟨state.capacity / 2, hstate.setCapacity_eq (state.capacity / 2) (by omega), by omega,
      by omega, ?_⟩
    omega
  · have hsame : state.freeEntries = state.capacity - state.nPackets := by omega
    refine ⟨state.capacity, ?_, by omega, hlimit, by omega⟩
    rw [← hsame]

theorem halveCapacity (hstate : state.Consistent policy) (hmemory : state.capacity < 2 ^ 63) :
    ∃ after, ManagedStorage.halveCapacity policy state = .ok after ∧ after.Consistent policy ∧
      after.limit = state.limit ∧ after.cleanupIndex = state.cleanupIndex ∧
        (0 < state.capacity →
          (after.capacity = 0 ↔ state.capacity = 1 ∧ state.nPackets = 0)) := by
  obtain ⟨capacity, hok, hfits, hlimit, hzero⟩ := hstate.halveCapacity_eq hmemory
  exact ⟨_, hok, hstate.withCapacity hfits hlimit, rfl, rfl, hzero⟩

/-! ## Accesses -/

theorem withIndex (hstate : state.Consistent policy) (hindex : policy ≠ .persistent →
      (index.map CleanupEntry.fullName).Perm state.storage.fullNames) :
    ({ state with cleanupIndex := index }).Consistent policy :=
  ⟨hstate.nPackets_eq, hstate.pool_eq, hstate.capacity_le, hindex, hstate.unlimited⟩

/-- An access reorders the cleanup index. -/
theorem afterAccess (hstate : state.Consistent policy) (hmem : fullName ∈ state.storage.fullNames) :
    ∃ after, ManagedStorage.afterAccess policy state fullName = .ok after ∧
      after.Consistent policy ∧ after.limit = state.limit ∧ after.capacity = state.capacity := by
  have hmoved := perm_cons_filter state.storage.nodup_fullNames hmem
  cases hpolicy : policy with
  | fifo => exact ⟨state, rfl, hpolicy ▸ hstate, rfl, rfl⟩
  | persistent => exact ⟨state, rfl, hpolicy ▸ hstate, rfl, rfl⟩
  | lru =>
    subst hpolicy
    have hfiltered := hstate.filter_indexed fullName (by simp)
    have habsent : fullName ∉ (StoragePolicy.lru.beforeErase fullName state.cleanupIndex).map
        CleanupEntry.fullName := by
      intro hname
      simpa using hfiltered.subset hname
    have hassert : ¬ (StoragePolicy.lru ≠ .persistent ∧
        ¬ (StoragePolicy.lru.beforeErase fullName state.cleanupIndex).length ≤
          state.nPackets) := by
      rintro ⟨-, hlong⟩
      have hlength := hfiltered.length_eq
      have hcache := hmoved.length_eq
      rw [List.length_map] at hlength
      rw [List.length_cons, ← hstate.nPackets_eq_fullNames] at hcache
      omega
    refine ⟨_, if_neg hassert, hstate.withIndex fun hevicts ↦ ?_, rfl, rfl⟩
    exact ((perm_addToIndex hevicts habsent).trans (hfiltered.cons fullName)).trans hmoved
  | lfu =>
    subst hpolicy
    refine ⟨_, rfl, hstate.withIndex fun hevicts ↦ ?_, rfl, rfl⟩
    have hindex := hstate.indexed hevicts
    have hindexed : fullName ∈ state.cleanupIndex.map CleanupEntry.fullName :=
      hindex.symm.subset hmem
    obtain ⟨before, entry, after, hsplit, hname, hcounted⟩ := countAccess_cases hindexed
    rw [indexedNames, hsplit, List.map_append, List.map_cons] at hindex
    rw [hcounted]
    split_ifs
    · rw [List.map_append, List.map_cons]
      exact hindex
    · apply (perm_insertByFrequency _ _).trans
      rw [List.map_append]
      exact List.perm_middle.symm.trans hindex

theorem access {found : Option InMemoryStorageEntry} (hstate : state.Consistent policy)
    (hfound : ∀ entry ∈ found, entry ∈ state.storage.cache) :
    ∃ after, ManagedStorage.access policy state found = .ok after ∧ after.Consistent policy ∧
      after.limit = state.limit ∧ after.capacity = state.capacity := by
  cases found with
  | none => exact ⟨state, rfl, hstate, rfl, rfl⟩
  | some entry => exact hstate.afterAccess (List.mem_map_of_mem (hfound entry rfl))

end Consistent

/-! ## Runs -/

/-- The call takes the capacity to zero: it erases all that is left in a storage of capacity one.
An erasure by a full name that is not stored returns early. -/
def EmptiesLast (state : ManagedStorage sha256) : Call → Prop
  | .erase name isPrefix =>
      state.capacity = 1 ∧ (state.erased name isPrefix).length = state.nPackets ∧
        (isPrefix = true ∨ state.erased name isPrefix ≠ [])
  | _ => False

instance (state : ManagedStorage sha256) : (call : Call) → Decidable (state.EmptiesLast call)
  | .erase name isPrefix => inferInstanceAs (Decidable (state.capacity = 1 ∧
      (state.erased name isPrefix).length = state.nPackets ∧
        (isPrefix = true ∨ state.erased name isPrefix ≠ [])))
  | .insert _ | .findName _ | .findInterest _ | .markStale _ => inferInstanceAs (Decidable False)

/-- A step that does not take the capacity to zero. Half of the address space does not hold as many
entries as to make `2 * capacity` overflow. -/
def Allowed (state : ManagedStorage sha256) (call : Call) : Prop :=
  state.capacity < 2 ^ 63 ∧ ¬ state.EmptiesLast call

instance (state : ManagedStorage sha256) (call : Call) : Decidable (state.Allowed call) :=
  inferInstanceAs (Decidable (_ ∧ _))

variable {isPrefix : Bool}

theorem erase_eq_self (hearly : isPrefix = false ∧ state.erased name isPrefix = []) :
    ManagedStorage.erase policy state name isPrefix = .ok state := by
  obtain ⟨rfl, hnothing⟩ := hearly
  simp [ManagedStorage.erase, hnothing]

theorem erase_eq_halveCapacity (hlate : ¬ (isPrefix = false ∧ state.erased name isPrefix = [])) :
    ManagedStorage.erase policy state name isPrefix =
      halveCapacity policy ((state.erased name isPrefix).foldl (removeEntry policy) state) := by
  rw [ManagedStorage.erase, if_neg]
  simpa using hlate

theorem Consistent.erase (hstate : state.Consistent policy) (hmemory : state.capacity < 2 ^ 63)
    (name : Name) (isPrefix : Bool) :
    ∃ after, ManagedStorage.erase policy state name isPrefix = .ok after ∧
      after.Consistent policy ∧ after.limit = state.limit ∧
        (0 < state.capacity →
          (after.capacity = 0 ↔ state.EmptiesLast (.erase name isPrefix))) := by
  have hsublist := (erased_sublist state name isPrefix).length_le
  rw [← hstate.nPackets_eq] at hsublist
  by_cases hearly : isPrefix = false ∧ state.erased name isPrefix = []
  · refine ⟨state, erase_eq_self hearly, hstate, rfl, fun hpositive ↦ ?_⟩
    obtain ⟨rfl, hnothing⟩ := hearly
    simp only [EmptiesLast, hnothing]
    simpa using hpositive.ne'
  · have hshrinks : isPrefix = true ∨ state.erased name isPrefix ≠ [] := by
      cases isPrefix with
      | true => exact .inl rfl
      | false => exact .inr fun hnothing ↦ hearly ⟨rfl, hnothing⟩
    obtain ⟨hremoved, hcapacity, hlimit, hsize⟩ := hstate.removeErased name isPrefix
    obtain ⟨after, hok, hafter, hsame, -, hzero⟩ :=
      hremoved.halveCapacity (hcapacity ▸ hmemory)
    refine ⟨after, (erase_eq_halveCapacity hearly).trans hok, hafter, hsame.trans hlimit, ?_⟩
    intro hpositive
    rw [hzero (hcapacity ▸ hpositive), hcapacity, hsize]
    simp only [EmptiesLast]
    constructor
    · rintro ⟨hone, hempty⟩
      exact ⟨hone, by omega, hshrinks⟩
    · rintro ⟨hone, hempty, -⟩
      exact ⟨hone, by omega⟩

variable {storage : InMemoryStorage sha256}

theorem mem_cache_of_findUnder (hentry : entry ∈ storage.findUnder name) : entry ∈ storage.cache :=
  List.mem_of_mem_drop (List.mem_of_mem_head? (Option.mem_filter_iff.mp hentry).1)

theorem mem_cache_of_accessed {interest : Interest} (hentry : entry ∈ storage.accessed interest) :
    entry ∈ storage.cache := by
  rw [InMemoryStorage.accessed] at hentry
  split_ifs at hentry with hlocated
  · cases hentry
  · have habsent : storage.findByFullName interest.name = none := by simpa using hlocated
    exact ((InMemoryStorage.find_spec habsent).1 entry hentry).2.1

theorem Consistent.markStale (hstate : state.Consistent policy) (fullName : Name) :
    ({ state with storage := state.storage.markStale fullName }).Consistent policy where
  nPackets_eq := hstate.nPackets_eq.trans (List.length_map _).symm
  pool_eq := hstate.pool_eq
  capacity_le := hstate.capacity_le
  indexed hpolicy := by
    change state.indexedNames.Perm (state.storage.markStale fullName).fullNames
    rw [InMemoryStorage.fullNames_markStale]
    exact hstate.indexed hpolicy
  unlimited := hstate.unlimited

/-- A call that is allowed returns, and keeps the storage consistent with room for packets. -/
theorem Consistent.perform (hstate : state.Consistent policy) (hpositive : 0 < state.capacity)
    {call : Call} (hallowed : state.Allowed call) :
    ∃ after, ManagedStorage.perform policy state call = .ok after ∧ after.Consistent policy ∧
      after.limit = state.limit ∧ 0 < after.capacity := by
  cases call with
  | insert data => exact hstate.insert hpositive hallowed.1 data
  | findName name =>
    obtain ⟨after, hok, hafter, hlimit, hcapacity⟩ :=
      hstate.access fun _ ↦ mem_cache_of_findUnder
    exact ⟨after, hok, hafter, hlimit, hcapacity ▸ hpositive⟩
  | findInterest interest =>
    obtain ⟨after, hok, hafter, hlimit, hcapacity⟩ :=
      hstate.access fun _ ↦ mem_cache_of_accessed
    exact ⟨after, hok, hafter, hlimit, hcapacity ▸ hpositive⟩
  | erase name isPrefix =>
    obtain ⟨after, hok, hafter, hlimit, hzero⟩ := hstate.erase hallowed.1 name isPrefix
    exact ⟨after, hok, hafter, hlimit,
      Nat.pos_of_ne_zero (mt (hzero hpositive).mp hallowed.2)⟩
  | markStale fullName => exact ⟨_, rfl, hstate.markStale fullName, rfl, hpositive⟩

/-- Without any capacity, doubling leads nowhere and an insertion finds no free entry. -/
theorem Consistent.insert_eq_error (hstate : state.Consistent policy) (hzero : state.capacity = 0)
    (data : Data) : ManagedStorage.insert policy state data = .error .assertion := by
  have hpool := hstate.pool_eq
  have hsize : state.nPackets = 0 := by omega
  have hnames : state.storage.fullNames = [] :=
    List.length_eq_zero_iff.mp (hstate.nPackets_eq_fullNames.symm.trans hsize)
  have hstored : ¬ (state.storage.findByFullName (data.getFullName sha256)).isSome = true := by
    rw [InMemoryStorage.isSome_findByFullName_iff, hnames]
    exact List.not_mem_nil
  have hfull : state.isFull = true := decide_eq_true (by omega)
  rw [ManagedStorage.insert, if_neg hstored]
  by_cases hlimit : state.limit = state.capacity
  · have hevicted : (ManagedStorage.evictItem policy state).2 = state := by
      by_cases hpolicy : policy = .persistent
      · subst hpolicy
        rfl
      · have hindex : state.cleanupIndex = [] := by
          have hlength := (hstate.indexed hpolicy).length_eq
          rw [hnames, indexedNames, List.length_map] at hlength
          exact List.length_eq_zero_iff.mp hlength
        unfold ManagedStorage.evictItem
        rw [hindex]
        cases policy <;> rfl
    have hempty : ¬ state.freeEntries > 0 := by omega
    simp [doubleCapacity, hlimit, hfull, hevicted, ManagedStorage.storeData, hempty, bind,
      Except.bind]
  · have hdouble : doubleCapacity policy state =
        .ok { state with capacity := 0, freeEntries := 0 - state.nPackets } := by
      rw [doubleCapacity, if_pos ⟨hfull, hlimit⟩, hzero]
      exact hstate.setCapacity_eq 0 (by omega)
    simp [hdouble, hlimit, ManagedStorage.storeData, bind, Except.bind]

/-- In a run of calls that never erase all that is left in a storage of capacity one, the packets
and the pool make up the capacity in every state, and every further call of this kind returns: an
insertion finds a free entry. After a call of the other kind no insertion does. -/
theorem capacity_invariant {limit : ℕ} (hlimit : 1 ≤ limit)
    (hpersistent : policy = .persistent → limit = 2 ^ 64 - 1) {calls : List Call}
    (hguarded : Run.Guarded (step policy) Allowed (init sha256 limit) calls)
    (hrun : Run.run (step policy) (init sha256 limit) calls = some state) :
    (state.nPackets + state.freeEntries = state.capacity ∧ state.capacity ≤ limit ∧
        state.nPackets = state.storage.cache.length) ∧
      (∀ call, state.Allowed call → ∃ after, perform policy state call = .ok after) ∧
      ∀ call, state.capacity < 2 ^ 63 → state.EmptiesLast call →
        ∃ after, perform policy state call = .ok after ∧
          ∀ data, perform policy after (.insert data) = .error .assertion := by
  have hinvariant : state.Consistent policy ∧ state.limit = limit ∧ 0 < state.capacity := by
    refine Run.invariant_of_guarded (fun _ state ↦ state.Consistent policy ∧ state.limit = limit ∧
      0 < state.capacity) ?_ ⟨.init hpersistent, rfl, ?_⟩ hguarded hrun
    · rintro past state call next ⟨hstate, hlimit, hpositive⟩ hallowed hstep
      obtain ⟨after, hok, hafter, hsame, hroom⟩ := hstate.perform hpositive hallowed
      obtain rfl : after = next := by simpa [step, hok, Except.toOption] using hstep
      exact ⟨hafter, hsame.trans hlimit, hroom⟩
    · simp only [init]
      split_ifs <;> omega
  obtain ⟨hstate, rfl, hpositive⟩ := hinvariant
  refine ⟨⟨hstate.pool_eq, hstate.capacity_le, hstate.nPackets_eq⟩, ?_, ?_⟩
  · intro call hallowed
    obtain ⟨after, hok, -⟩ := hstate.perform hpositive hallowed
    exact ⟨after, hok⟩
  · intro call hmemory hempties
    cases call with
    | erase name isPrefix =>
      obtain ⟨after, hok, hafter, hsame, hzero⟩ := hstate.erase hmemory name isPrefix
      have hnone : after.capacity = 0 := (hzero hpositive).mpr hempties
      exact ⟨after, hok, hafter.insert_eq_error hnone⟩
    | insert | findName | findInterest | markStale => cases hempties

def zeroDigest : Bytes → Bytes := fun _ ↦ List.replicate 32 0

def packet (value : Bytes) : Data :=
  { name := [.generic value], signatureInfo := ⟨0, none, []⟩, wire := [] }

/-- At the limit the third packet takes the place of the first, and then one of the two is erased. -/
theorem capacity_invariant_evicting :
    ∃ state, Run.run (step .lru) (init zeroDigest 2)
        [.insert (packet [97]), .insert (packet [98]), .insert (packet [99]),
          .erase [.generic [98]] true] = some state ∧
      state.nPackets + state.freeEntries = state.capacity ∧ state.capacity ≤ 2 ∧
        state.nPackets = state.storage.cache.length := by
  have hguarded : Run.Guarded (step .lru) Allowed (init zeroDigest 2)
      [.insert (packet [97]), .insert (packet [98]), .insert (packet [99]),
        .erase [.generic [98]] true] := by decide
  exact ⟨_, rfl, (capacity_invariant (by decide) (by simp) hguarded rfl).1⟩

/-- With a limit of one packet, the only packet is inserted and erased again. The capacity is zero
then, and no packet can be inserted. -/
theorem insert_after_erase_fails :
    ∃ state, Run.run (step .fifo) (init zeroDigest 1)
        [.insert (packet [97]), .erase [.generic [97]] true] = some state ∧
      perform .fifo state (.insert (packet [98])) = .error .assertion :=
  ⟨_, rfl, rfl⟩

end ManagedStorage

end NdnCxx
