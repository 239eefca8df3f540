import NdnCxx.Storage.Ranking

/-!
# The order of evictions

The cleanup index of a policy has the entries of the cache and is in the order in which they are to
be evicted, as long as the policy is told of every entry that a `find` returns. It is not told of an
entry that `find(const Interest&)` locates by its full name.
-/

namespace NdnCxx

namespace ManagedStorage

open StoragePolicy

variable {sha256 : Bytes → Bytes} {policy : StoragePolicy}

/-- What a call is to a policy: an insertion of a packet that is not yet stored, or the return of an
entry. -/
def happening (state : ManagedStorage sha256) : Call → Option Happening
  | .insert data =>
      if (state.storage.findByFullName (data.getFullName sha256)).isSome then none
      else some (.inserted (data.getFullName sha256))
  | .findName name =>
      (state.storage.findUnder name).map fun entry ↦ .returned (entry.getFullName sha256)
  | .findInterest interest =>
      (state.storage.find interest).map fun entry ↦ .returned (entry.getFullName sha256)
  | .erase _ _ | .markStale _ => none

def askedToErase (state : ManagedStorage sha256) : Call → List Name
  | .erase name isPrefix =>
      (state.erased name isPrefix).map (InMemoryStorageEntry.getFullName sha256)
  | .insert _ | .findName _ | .findInterest _ | .markStale _ => []

/-- A storage with the record of what has happened to it, the latest first. -/
structure Recorded (sha256 : Bytes → Bytes) where
  state : ManagedStorage sha256
  history : List Happening

namespace Recorded

def init (sha256 : Bytes → Bytes) (limit : ℕ) : Recorded sha256 :=
  ⟨ManagedStorage.init sha256 limit, []⟩

/-- A call, which the record does not influence. -/
def step (policy : StoragePolicy) (recorded : Recorded sha256) (call : Call) :
    Option (Recorded sha256) :=
  (ManagedStorage.step policy recorded.state call).map fun next ↦
    ⟨next, (recorded.state.happening call).toList ++ recorded.history⟩

/-- Half of the address space does not hold as many entries as to make `2 * capacity` overflow. -/
def FitsMemory (recorded : Recorded sha256) (_ : Call) : Prop := recorded.state.capacity < 2 ^ 63

instance (recorded : Recorded sha256) (call : Call) : Decidable (recorded.FitsMemory call) :=
  inferInstanceAs (Decidable (_ < _))

/-- The frequency of a returned entry does not overflow. -/
def FitsFrequency (recorded : Recorded sha256) (found : Option InMemoryStorageEntry) : Prop :=
  ∀ entry ∈ found, ∀ indexed ∈ recorded.state.cleanupIndex,
    indexed.fullName = entry.getFullName sha256 → indexed.frequency + 1 < 2 ^ 64

/-- The policy gets to know that an entry is returned: LRU and LFU do not if an Interest locates it
by its full name, and LFU starts to count again after `2 ^ 64` times. -/
def IsCounted (policy : StoragePolicy) (recorded : Recorded sha256) (call : Call) : Prop :=
  match policy, call with
  | .lru, .findInterest interest => recorded.state.storage.findByFullName interest.name = none
  | .lfu, .findInterest interest =>
      recorded.state.storage.findByFullName interest.name = none ∧
        recorded.FitsFrequency (recorded.state.storage.find interest)
  | .lfu, .findName name => recorded.FitsFrequency (recorded.state.storage.findUnder name)
  | _, _ => True

instance (recorded : Recorded sha256) (found : Option InMemoryStorageEntry) :
    Decidable (recorded.FitsFrequency found) :=
  match found with
  | none => isTrue (by rintro entry ⟨⟩)
  | some entry =>
      decidable_of_iff (∀ indexed ∈ recorded.state.cleanupIndex,
        indexed.fullName = entry.getFullName sha256 → indexed.frequency + 1 < 2 ^ 64)
        (by simp [FitsFrequency])

instance (policy : StoragePolicy) (recorded : Recorded sha256) :
    (call : Call) → Decidable (recorded.IsCounted policy call)
  | .findInterest interest => by
      cases policy <;> simp only [IsCounted] <;> infer_instance
  | .findName name => by
      cases policy <;> simp only [IsCounted] <;> infer_instance
  | .insert _ | .erase _ _ | .markStale _ => by
      cases policy <;> exact isTrue trivial

/-- An entry that the call removes without having been asked to. -/
def Evicts (before after : Recorded sha256) (call : Call) (fullName : Name) : Prop :=
  fullName ∈ before.state.storage.fullNames ∧ fullName ∉ after.state.storage.fullNames ∧
    fullName ∉ before.state.askedToErase call

instance (before after : Recorded sha256) (call : Call) (fullName : Name) :
    Decidable (before.Evicts after call fullName) :=
  inferInstanceAs (Decidable (_ ∧ _ ∧ _))

end Recorded

/-! ## What a call does to the index -/

variable {state : ManagedStorage sha256} {call : Call} {next : ManagedStorage sha256}

/-- Whatever the capacity is, a call that returns leaves a consistent storage. -/
theorem Consistent.of_perform (hstate : state.Consistent policy) (hmemory : state.capacity < 2 ^ 63)
    (hok : ManagedStorage.perform policy state call = .ok next) : next.Consistent policy := by
  cases call with
  | insert data =>
    by_cases hzero : state.capacity = 0
    · have herror := hstate.insert_eq_error hzero data
      exact absurd (hok.symm.trans herror) (by simp)
    · obtain ⟨after, hafter, hconsistent, -⟩ :=
        hstate.insert (Nat.pos_of_ne_zero hzero) hmemory data
      obtain rfl := Except.ok.inj (hafter.symm.trans hok)
      exact hconsistent
  | findName name =>
    obtain ⟨after, hafter, hconsistent, -⟩ :=
      hstate.access fun _ hentry ↦ mem_cache_of_findUnder hentry
    obtain rfl := Except.ok.inj (hafter.symm.trans hok)
    exact hconsistent
  | findInterest interest =>
    obtain ⟨after, hafter, hconsistent, -⟩ :=
      hstate.access fun _ hentry ↦ mem_cache_of_accessed hentry
    obtain rfl := Except.ok.inj (hafter.symm.trans hok)
    exact hconsistent
  | erase name isPrefix =>
    obtain ⟨after, hafter, hconsistent, -⟩ := hstate.erase hmemory name isPrefix
    obtain rfl := Except.ok.inj (hafter.symm.trans hok)
    exact hconsistent
  | markStale fullName =>
    obtain rfl := Except.ok.inj hok
    exact hstate.markStale fullName

variable {fullName : Name} {found : Option InMemoryStorageEntry}

/-- The cleanup index has the names of the cache. -/
theorem Consistent.mem_indexedNames (hstate : state.Consistent policy)
    (hpolicy : policy ≠ .persistent) :
    fullName ∈ state.indexedNames ↔ fullName ∈ state.storage.fullNames :=
  (hstate.indexed hpolicy).mem_iff

/-- An insertion puts the new entry into the index, from which an eviction has removed the front
before. -/
theorem Consistent.insert_index {data : Data} (hstate : state.Consistent policy)
    (hmemory : state.capacity < 2 ^ 63)
    (habsent : data.getFullName sha256 ∉ state.storage.fullNames)
    (hok : ManagedStorage.insert policy state data = .ok next) :
    ∃ roomy : ManagedStorage sha256, roomy.Consistent policy ∧
      data.getFullName sha256 ∉ roomy.storage.fullNames ∧
      next.cleanupIndex = policy.addToIndex (data.getFullName sha256) roomy.cleanupIndex ∧
      (roomy.cleanupIndex = state.cleanupIndex ∨
        ∃ victim, state.cleanupIndex = victim :: roomy.cleanupIndex) := by
  by_cases hzero : state.capacity = 0
  · have herror := hstate.insert_eq_error hzero data
    exact absurd (hok.symm.trans herror) (by simp)
  · obtain ⟨roomy, heq, hroomy, hfree, -, -, hsubset, hindex⟩ :=
      hstate.makesRoom (Nat.pos_of_ne_zero hzero) hmemory habsent
    have hnew : data.getFullName sha256 ∉ roomy.storage.fullNames := fun hmem ↦
      habsent (hsubset hmem)
    obtain ⟨after, hafter, -, -, -, hadded⟩ := hroomy.storeData hfree hnew
    obtain rfl := Except.ok.inj (hafter.symm.trans (heq.symm.trans hok))
    exact ⟨roomy, hroomy, hnew, hadded, hindex⟩

/-- What `afterAccess` does to the index. -/
theorem afterAccess_index (hok : ManagedStorage.afterAccess policy state fullName = .ok next) :
    next.storage = state.storage ∧ next.cleanupIndex =
      match policy with
      | .lru => StoragePolicy.lru.addToIndex fullName
          (StoragePolicy.lru.beforeErase fullName state.cleanupIndex)
      | .lfu => StoragePolicy.countAccess fullName state.cleanupIndex
      | .fifo | .persistent => state.cleanupIndex := by
  cases policy with
  | lru =>
    unfold ManagedStorage.afterAccess afterInsert at hok
    split_ifs at hok
    obtain rfl := Except.ok.inj hok
    exact ⟨rfl, rfl⟩
  | fifo | lfu | persistent =>
    obtain rfl := Except.ok.inj hok
    exact ⟨rfl, rfl⟩

/-- A `find` leaves the cache, and the index of FIFO. -/
theorem access_storage (hok : ManagedStorage.access policy state found = .ok next) :
    next.storage = state.storage ∧ (policy = .fifo → next.cleanupIndex = state.cleanupIndex) := by
  cases found with
  | none =>
    obtain rfl := Except.ok.inj hok
    exact ⟨rfl, fun _ ↦ rfl⟩
  | some entry =>
    rw [access] at hok
    obtain ⟨hstorage, hindex⟩ := afterAccess_index hok
    refine ⟨hstorage, ?_⟩
    rintro rfl
    exact hindex

/-- Removing entries keeps the others, and the order of the index. -/
theorem foldl_removeEntry (policy : StoragePolicy) (entries : List InMemoryStorageEntry)
    (state : ManagedStorage sha256) :
    (entries.foldl (removeEntry policy) state).cleanupIndex.Sublist state.cleanupIndex ∧
      ∀ fullName ∈ state.storage.fullNames,
        fullName ∉ entries.map (InMemoryStorageEntry.getFullName sha256) →
          fullName ∈ (entries.foldl (removeEntry policy) state).storage.fullNames := by
  induction entries generalizing state with
  | nil => exact ⟨List.Sublist.refl _, fun _ hmem _ ↦ hmem⟩
  | cons entry entries ih =>
    obtain ⟨hsublist, hkept⟩ := ih (removeEntry policy state entry)
    constructor
    · apply hsublist.trans
      change (policy.beforeErase _ state.cleanupIndex).Sublist state.cleanupIndex
      cases policy with
      | persistent => exact List.Sublist.refl _
      | fifo | lru | lfu => exact List.filter_sublist
    · intro fullName hmem hother
      rw [List.map_cons, List.mem_cons, not_or] at hother
      refine hkept fullName ?_ hother.2
      change fullName ∈ (state.storage.eraseEntry (entry.getFullName sha256)).fullNames
      rw [InMemoryStorage.fullNames_eraseEntry, List.mem_filter]
      exact ⟨hmem, decide_eq_true hother.1⟩

theorem Consistent.erase_index {name : Name} {isPrefix : Bool} (hpolicy : policy ≠ .persistent)
    (hstate : state.Consistent policy) (hmemory : state.capacity < 2 ^ 63)
    (hok : ManagedStorage.erase policy state name isPrefix = .ok next) :
    next.cleanupIndex.Sublist state.cleanupIndex ∧
      ∀ fullName ∈ state.storage.fullNames,
        fullName ∉ state.askedToErase (.erase name isPrefix) →
          fullName ∈ next.storage.fullNames := by
  by_cases hearly : isPrefix = false ∧ state.erased name isPrefix = []
  · obtain rfl := Except.ok.inj ((erase_eq_self hearly).symm.trans hok)
    exact ⟨List.Sublist.refl _, fun _ hmem _ ↦ hmem⟩
  · obtain ⟨hremoved, hcapacity, -⟩ := hstate.removeErased name isPrefix
    obtain ⟨after, hafter, hconsistent, -, hindex, -⟩ :=
      hremoved.halveCapacity (hcapacity ▸ hmemory)
    obtain rfl := Except.ok.inj
      (hafter.symm.trans ((erase_eq_halveCapacity hearly).symm.trans hok))
    obtain ⟨hsublist, hkept⟩ := foldl_removeEntry policy (state.erased name isPrefix) state
    refine ⟨hindex ▸ hsublist, fun fullName hmem hother ↦ ?_⟩
    have hnames : after.indexedNames =
        ((state.erased name isPrefix).foldl (removeEntry policy) state).indexedNames := by
      rw [indexedNames, indexedNames, hindex]
    rw [← hconsistent.mem_indexedNames hpolicy, hnames, hremoved.mem_indexedNames hpolicy]
    exact hkept fullName hmem hother

/-- The name of an accessed entry stands in the index once. -/
theorem Consistent.nodup_indexedNames (hstate : state.Consistent policy)
    (hpolicy : policy ≠ .persistent) : state.indexedNames.Nodup :=
  (hstate.indexed hpolicy).nodup_iff.mpr state.storage.nodup_fullNames

/-- The return of an entry, of which the policy is told. -/
theorem tracks_afterAccess {history : List Happening} (hpolicy : policy ≠ .persistent)
    (hstate : state.Consistent policy) (htracks : Tracks policy history state.cleanupIndex)
    (hmem : fullName ∈ state.storage.fullNames)
    (hfits : policy = .lfu → ∀ indexed ∈ state.cleanupIndex, indexed.fullName = fullName →
      indexed.frequency + 1 < 2 ^ 64)
    (hok : ManagedStorage.afterAccess policy state fullName = .ok next) :
    Tracks policy (.returned fullName :: history) next.cleanupIndex := by
  rw [(afterAccess_index hok).2]
  cases policy with
  | persistent => exact absurd rfl hpolicy
  | fifo => exact htracks.returned_fifo
  | lru => exact htracks.returned_lru
  | lfu =>
    exact htracks.countAccess (hstate.nodup_indexedNames hpolicy)
      ((hstate.mem_indexedNames hpolicy).mpr hmem) (hfits rfl)

/-! ## Runs -/

namespace Recorded

/-- Between two calls the index is that of the cache and in the order that the record asks for. -/
structure Follows (policy : StoragePolicy) (recorded : Recorded sha256) : Prop where
  consistent : recorded.state.Consistent policy
  tracks : Tracks policy recorded.history recorded.state.cleanupIndex

variable {recorded : Recorded sha256}

theorem step_eq_some_iff {next : Recorded sha256} :
    recorded.step policy call = some next ↔
      ∃ state, ManagedStorage.perform policy recorded.state call = .ok state ∧
        next = ⟨state, (recorded.state.happening call).toList ++ recorded.history⟩ := by
  simp only [step, ManagedStorage.step, Option.map_eq_some_iff, toOption_eq_some_iff]
  constructor
  · rintro ⟨state, hok, rfl⟩
    exact ⟨state, hok, rfl⟩
  · rintro ⟨state, hok, rfl⟩
    exact ⟨state, hok, rfl⟩

section

variable (hpolicy : policy ≠ .persistent)
include hpolicy

section

variable (hfollows : recorded.Follows policy)
include hfollows

/-- A `find` that tells the policy of the entry it returns, if there is one. -/
theorem tracks_access (hfound : ∀ entry ∈ found, entry ∈ recorded.state.storage.cache)
    (hfits : policy = .lfu → recorded.FitsFrequency found)
    (hok : ManagedStorage.access policy recorded.state found = .ok state) :
    Tracks policy ((found.map fun entry ↦ Happening.returned (entry.getFullName sha256)).toList ++
      recorded.history) state.cleanupIndex := by
  cases found with
  | none =>
    obtain rfl := Except.ok.inj hok
    exact hfollows.tracks
  | some entry =>
    exact tracks_afterAccess hpolicy hfollows.consistent hfollows.tracks
      (List.mem_map_of_mem (hfound entry rfl)) (fun hlfu ↦ hfits hlfu entry rfl) hok

/-- A `find` by an Interest, which tells the policy of the entry that it returns unless the Interest
holds its full name. -/
theorem tracks_findInterest {interest : Interest}
    (hcounted : recorded.IsCounted policy (.findInterest interest))
    (hok : ManagedStorage.perform policy recorded.state (.findInterest interest) = .ok state) :
    Tracks policy ((recorded.state.happening (.findInterest interest)).toList ++
      recorded.history) state.cleanupIndex := by
  have htold (habsent : recorded.state.storage.findByFullName interest.name = none)
      (hfits : policy = .lfu → recorded.FitsFrequency (recorded.state.storage.find interest)) :
      Tracks policy ((recorded.state.happening (.findInterest interest)).toList ++
        recorded.history) state.cleanupIndex := by
    have haccessed : recorded.state.storage.accessed interest =
        recorded.state.storage.find interest := by
      rw [InMemoryStorage.accessed, habsent]
      rfl
    apply tracks_access hpolicy hfollows (fun entry hentry ↦ ?_) hfits
    · rw [← haccessed]
      exact hok
    · exact mem_cache_of_accessed (haccessed ▸ hentry)
  cases policy with
  | persistent => exact absurd rfl hpolicy
  | lru => exact htold hcounted (by simp)
  | lfu => exact htold hcounted.1 fun _ ↦ hcounted.2
  | fifo =>
    rw [(access_storage hok).2 rfl, happening]
    cases recorded.state.storage.find interest with
    | none => exact hfollows.tracks
    | some entry => exact hfollows.tracks.returned_fifo

/-- An insertion takes the entry at the front of the index out, if any, and puts the new one in. -/
theorem tracks_insert {data : Data} (hmemory : recorded.FitsMemory (.insert data))
    (hok : ManagedStorage.insert policy recorded.state data = .ok state) :
    Tracks policy ((recorded.state.happening (.insert data)).toList ++ recorded.history)
      state.cleanupIndex := by
  by_cases hstored : (recorded.state.storage.findByFullName (data.getFullName sha256)).isSome
  · rw [ManagedStorage.insert, if_pos hstored] at hok
    obtain rfl := Except.ok.inj hok
    rw [happening, if_pos hstored]
    exact hfollows.tracks
  · obtain ⟨roomy, hroomy, hnew, hadded, hindex⟩ := hfollows.consistent.insert_index hmemory
      (mt InMemoryStorage.isSome_findByFullName_iff.mpr hstored) hok
    have hsublist : roomy.cleanupIndex.Sublist recorded.state.cleanupIndex := by
      rcases hindex with hsame | ⟨victim, hfront⟩
      · exact hsame ▸ List.Sublist.refl _
      · exact hfront ▸ List.sublist_cons_self victim _
    rw [happening, if_neg hstored, hadded]
    exact (hfollows.tracks.sublist hsublist).addToIndex hpolicy
      (mt (hroomy.mem_indexedNames hpolicy).mp hnew)

theorem Follows.step {next : Recorded sha256} (hmemory : recorded.FitsMemory call)
    (hcounted : recorded.IsCounted policy call) (hstep : recorded.step policy call = some next) :
    next.Follows policy := by
  obtain ⟨state, hok, rfl⟩ := step_eq_some_iff.mp hstep
  refine ⟨hfollows.consistent.of_perform hmemory hok, ?_⟩
  cases call with
  | insert data => exact tracks_insert hpolicy hfollows hmemory hok
  | findName name =>
    apply tracks_access hpolicy hfollows (fun _ hentry ↦ mem_cache_of_findUnder hentry) ?_ hok
    rintro rfl
    exact hcounted
  | findInterest interest => exact tracks_findInterest hpolicy hfollows hcounted hok
  | erase name isPrefix =>
    exact hfollows.tracks.sublist (hfollows.consistent.erase_index hpolicy hmemory hok).1
  | markStale fullName =>
    obtain rfl := Except.ok.inj hok
    exact hfollows.tracks

/-- What a call evicts is the front of the index. -/
theorem Follows.rank_le_of_evicts {next : Recorded sha256} {victim : Name}
    (hmemory : recorded.FitsMemory call) (hstep : recorded.step policy call = some next)
    (hevicts : recorded.Evicts next call victim) {other : Name}
    (hother : other ∈ recorded.state.storage.fullNames) :
    policy.rank recorded.history victim ≤ policy.rank recorded.history other := by
  obtain ⟨state, hok, rfl⟩ := step_eq_some_iff.mp hstep
  obtain ⟨hbefore, hafter, hasked⟩ := hevicts
  have hconsistent := hfollows.consistent.of_perform hmemory hok
  cases call with
  | insert data =>
    by_cases hstored : (recorded.state.storage.findByFullName (data.getFullName sha256)).isSome
    · change ManagedStorage.insert policy _ _ = _ at hok
      rw [ManagedStorage.insert, if_pos hstored] at hok
      obtain rfl := Except.ok.inj hok
      exact absurd hbefore hafter
    · obtain ⟨roomy, hroomy, hnew, hadded, hindex⟩ := hfollows.consistent.insert_index hmemory
        (mt InMemoryStorage.isSome_findByFullName_iff.mpr hstored) hok
      have hgone : victim ∉ roomy.indexedNames := by
        intro hmem
        apply hafter
        rw [← hconsistent.mem_indexedNames hpolicy, indexedNames, hadded]
        exact (Consistent.perm_addToIndex hpolicy
          (mt (hroomy.mem_indexedNames hpolicy).mp hnew)).mem_iff.mpr (List.mem_cons_of_mem _ hmem)
      rw [← hfollows.consistent.mem_indexedNames hpolicy] at hbefore hother
      rcases hindex with hsame | ⟨front, hfront⟩
      · rw [indexedNames, hsame] at hgone
        exact absurd hbefore hgone
      · have hordered := hfollows.tracks.ordered
        rw [hfront] at hordered
        rw [indexedNames, hfront, List.map_cons, List.mem_cons] at hbefore hother
        obtain rfl : victim = front.fullName := hbefore.resolve_right hgone
        rcases hother with rfl | hother
        · exact le_rfl
        · obtain ⟨entry, hentry, rfl⟩ := List.mem_map.mp hother
          exact (List.pairwise_cons.mp hordered).1 entry hentry
  | findName name =>
    rw [(access_storage hok).1] at hafter
    exact absurd hbefore hafter
  | findInterest interest =>
    rw [(access_storage hok).1] at hafter
    exact absurd hbefore hafter
  | erase name isPrefix =>
    exact absurd ((hfollows.consistent.erase_index hpolicy hmemory hok).2 victim hbefore hasked)
      hafter
  | markStale fullName =>
    obtain rfl := Except.ok.inj hok
    exact absurd ((InMemoryStorage.fullNames_markStale _ fullName).symm ▸ hbefore) hafter

end

variable {calls : List Call}

theorem consistent_of_run {limit : ℕ}
    (hmemory : Run.Guarded (step policy) FitsMemory (init sha256 limit) calls)
    (hrun : Run.run (step policy) (init sha256 limit) calls = some recorded) :
    recorded.state.Consistent policy := by
  refine Run.invariant_of_guarded (fun _ recorded ↦ recorded.state.Consistent policy) ?_
    (Consistent.init fun h ↦ absurd h hpolicy) hmemory hrun
  intro past recorded call next hstate hmemory hstep
  obtain ⟨state, hok, rfl⟩ := step_eq_some_iff.mp hstep
  exact hstate.of_perform hmemory hok

/-- In every run of a policy that evicts, the cleanup index has the entries of the cache, each once.
As long as every entry that a `find` returns is counted, an eviction takes an entry of the least
rank: the one inserted first, the one inserted or returned the longest time ago, or one returned the
fewest times since its insertion. -/
theorem evicts_least_rank {limit : ℕ}
    (hmemory : Run.Guarded (step policy) FitsMemory (init sha256 limit) calls)
    (hrun : Run.run (step policy) (init sha256 limit) calls = some recorded) :
    (recorded.state.indexedNames.Nodup ∧ ∀ fullName,
        fullName ∈ recorded.state.indexedNames ↔ fullName ∈ recorded.state.storage.fullNames) ∧
      (Run.Guarded (step policy) (IsCounted policy) (init sha256 limit) calls →
        ∀ call next, recorded.FitsMemory call → recorded.step policy call = some next →
          ∀ victim, recorded.Evicts next call victim →
            ∀ other ∈ recorded.state.storage.fullNames,
              policy.rank recorded.history victim ≤ policy.rank recorded.history other) := by
  have hconsistent := consistent_of_run hpolicy hmemory hrun
  refine ⟨⟨hconsistent.nodup_indexedNames hpolicy,
    fun fullName ↦ hconsistent.mem_indexedNames hpolicy⟩, fun hcounted ↦ ?_⟩
  have hfollows : recorded.Follows policy := by
    refine Run.invariant_of_guarded (fun _ recorded ↦ recorded.Follows policy) ?_
      ⟨Consistent.init fun h ↦ absurd h hpolicy, ⟨.nil, by simp [init, ManagedStorage.init]⟩⟩
      (hmemory.and hcounted) hrun
    intro past recorded call next hfollows hallowed hstep
    exact hfollows.step hpolicy hallowed.1 hallowed.2 hstep
  intro call next hfits hstep victim hevicts other hother
  exact hfollows.rank_le_of_evicts hpolicy hfits hstep hevicts hother

end

/-- The first of two packets is returned for its name, so the second one is evicted. -/
theorem evicts_least_rank_found :
    ∃ recorded next, Run.run (step .lru) (init zeroDigest 2)
        [.insert (packet [97]), .insert (packet [98]), .findName [.generic [97]]] = some recorded ∧
      recorded.step .lru (.insert (packet [99])) = some next ∧
      recorded.Evicts next (.insert (packet [99])) ((packet [98]).getFullName zeroDigest) ∧
      ∀ other ∈ recorded.state.storage.fullNames,
        StoragePolicy.lru.rank recorded.history ((packet [98]).getFullName zeroDigest) ≤
          StoragePolicy.lru.rank recorded.history other := by
  have hmemory : Run.Guarded (step .lru) FitsMemory (init zeroDigest 2)
      [.insert (packet [97]), .insert (packet [98]), .findName [.generic [97]]] := by decide
  have hcounted : Run.Guarded (step .lru) (IsCounted .lru) (init zeroDigest 2)
      [.insert (packet [97]), .insert (packet [98]), .findName [.generic [97]]] := by decide
  refine ⟨_, _, rfl, rfl, ?_, ?_⟩
  · decide
  · exact (evicts_least_rank (by simp) hmemory rfl).2 hcounted (.insert (packet [99])) _ (by decide)
      rfl ((packet [98]).getFullName zeroDigest) (by decide)

/-- The first of two packets is returned for an Interest with its full name, and evicted although the
second one has not been used since. -/
theorem evicts_used_of_full_name :
    ∃ recorded next, Run.run (step .lru) (init zeroDigest 2)
        [.insert (packet [97]), .insert (packet [98]),
          .findInterest { name := (packet [97]).getFullName zeroDigest }] = some recorded ∧
      recorded.step .lru (.insert (packet [99])) = some next ∧
      recorded.Evicts next (.insert (packet [99])) ((packet [97]).getFullName zeroDigest) ∧
      (packet [98]).getFullName zeroDigest ∈ recorded.state.storage.fullNames ∧
      StoragePolicy.lru.rank recorded.history ((packet [98]).getFullName zeroDigest) <
        StoragePolicy.lru.rank recorded.history ((packet [97]).getFullName zeroDigest) := by
  refine ⟨_, _, rfl, rfl, ?_, ?_, ?_⟩
  all_goals decide

end Recorded

end ManagedStorage

end NdnCxx
