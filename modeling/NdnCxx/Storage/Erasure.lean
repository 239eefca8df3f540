import NdnCxx.Storage.Capacity

/-!
# Erasing

`erase` by a prefix starts at the lower bound of the prefix among the full names and goes on as long
as `isPrefixOf` holds of the name of the packet. The entries under a prefix are neighbours in the
index, but the two tests do not delimit the same neighbours: an entry whose full name is the prefix
itself stands in front of them and ends the walk at once, and `isPrefixOf` reads no component types,
so that the walk can go on behind them.
-/

namespace NdnCxx

namespace InMemoryStorage

variable {sha256 : Bytes → Bytes}

/-- The entries that `erase` is to remove. -/
def isAsked (sha256 : Bytes → Bytes) (name : Name) (isPrefix : Bool)
    (entry : InMemoryStorageEntry) : Bool :=
  if isPrefix then name <+: entry.data.name else entry.getFullName sha256 = name

def firstBeyond (storage : InMemoryStorage sha256) (name : Name) : Option InMemoryStorageEntry :=
  storage.cache.find? fun entry ↦
    name ≤ entry.getFullName sha256 ∧ ¬ name <+: entry.data.name

/-- If the name is the full name of an entry, no packet is under the name; and the first entry
beyond the packets under the name does not have the name as a prefix by the component values. -/
def DelimitsPrefix (storage : InMemoryStorage sha256) (name : Name) : Prop :=
  (name ∈ storage.fullNames → ∀ entry ∈ storage.cache, ¬ name <+: entry.data.name) ∧
    ∀ entry ∈ storage.firstBeyond name, name.isPrefixOf entry.data.name = false

instance (storage : InMemoryStorage sha256) (name : Name) :
    Decidable (storage.DelimitsPrefix name) :=
  inferInstanceAs (Decidable ((_ → _) ∧ _))

section Walk

variable {storage : InMemoryStorage sha256} {name : Name} {entry other : InMemoryStorageEntry}

theorem name_isPrefix_getFullName (sha256 : Bytes → Bytes) (entry : InMemoryStorageEntry) :
    entry.data.name <+: entry.getFullName sha256 := List.prefix_append _ _

/-- What stands between the name and an entry under the name is under the name too, or has the name
as its full name. -/
theorem isPrefix_or_getFullName_eq (hunder : name <+: entry.data.name)
    (hlow : name ≤ other.getFullName sha256)
    (hhigh : other.getFullName sha256 ≤ entry.getFullName sha256) :
    name <+: other.data.name ∨ other.getFullName sha256 = name := by
  have hprefixed : name <+: other.data.name ++ [_] := Lexicographic.isPrefix_of_between
    (hunder.trans (name_isPrefix_getFullName sha256 entry)) hlow hhigh
  rcases List.prefix_concat_iff.mp hprefixed with hsame | hshorter
  · exact .inr hsame.symm
  · exact .inl hshorter

/-- A name does not fit into the packet that has it as its full name. -/
theorem isPrefixOf_eq_false_of_getFullName_eq (hname : entry.getFullName sha256 = name) :
    name.isPrefixOf entry.data.name = false := by
  have hlength : name.length = entry.data.name.length + 1 := by
    rw [← hname]
    exact List.length_append
  rw [Name.isPrefixOf, if_pos (by omega)]

theorem le_getFullName_of_isPrefix (hunder : name <+: entry.data.name) :
    name ≤ entry.getFullName sha256 :=
  Lexicographic.le_of_isPrefix (hunder.trans (name_isPrefix_getFullName sha256 entry))

/-- An entry that the walk comes to before one that it removes is removed. -/
theorem mem_underPrefix_of_le (hentry : entry ∈ storage.underPrefix name)
    (hother : other ∈ storage.cache) (hlow : name ≤ other.getFullName sha256)
    (hhigh : other.getFullName sha256 ≤ entry.getFullName sha256) :
    other ∈ storage.underPrefix name := by
  have hwalk := mem_drop_lowerBound hother hlow
  have hsorted := storage.sorted.sublist
    (List.drop_sublist (storage.lowerBound name) storage.cache)
  rw [underPrefix] at hentry ⊢
  rw [← List.takeWhile_append_dropWhile
    (p := fun entry : InMemoryStorageEntry ↦ name.isPrefixOf entry.data.name)
    (l := storage.cache.drop (storage.lowerBound name))] at hwalk hsorted
  refine (List.mem_append.mp hwalk).resolve_right fun hbehind ↦ ?_
  have hlt := (List.pairwise_append.mp hsorted).2.2 entry hentry other hbehind
  exact absurd hhigh hlt.not_ge

theorem mem_underPrefix_of_forall_le (hmem : entry ∈ storage.cache)
    (hlow : name ≤ entry.getFullName sha256)
    (hbefore : ∀ other ∈ storage.cache, name ≤ other.getFullName sha256 →
      other.getFullName sha256 ≤ entry.getFullName sha256 →
        name.isPrefixOf other.data.name = true) :
    entry ∈ storage.underPrefix name := by
  have hwalk := mem_drop_lowerBound hmem hlow
  have hsorted := storage.sorted.sublist
    (List.drop_sublist (storage.lowerBound name) storage.cache)
  obtain ⟨front, back, hsplit⟩ := List.append_of_mem hwalk
  rw [hsplit] at hsorted
  have hfront : ∀ other ∈ front, name.isPrefixOf other.data.name = true := by
    intro other hother
    have hin : other ∈ storage.cache.drop (storage.lowerBound name) := by
      rw [hsplit]
      exact List.mem_append_left _ hother
    have hlt := (List.pairwise_append.mp hsorted).2.2 other hother entry List.mem_cons_self
    exact hbefore other (List.mem_of_mem_drop hin) (le_of_mem_drop_lowerBound hin) hlt.le
  rw [underPrefix, hsplit, List.takeWhile_append_of_pos hfront,
    List.takeWhile_cons_of_pos (by exact hbefore entry hmem hlow le_rfl)]
  exact List.mem_append_right _ List.mem_cons_self

theorem mem_cache_of_underPrefix (hmem : entry ∈ storage.underPrefix name) :
    entry ∈ storage.cache ∧ name ≤ entry.getFullName sha256 ∧
      name.isPrefixOf entry.data.name = true := by
  have hwalk := (List.takeWhile_sublist _).subset hmem
  exact ⟨List.mem_of_mem_drop hwalk, le_of_mem_drop_lowerBound hwalk,
    List.mem_takeWhile_imp (p := fun entry : InMemoryStorageEntry ↦
      name.isPrefixOf entry.data.name) hmem⟩

/-- The first entry beyond the packets under a name precedes all others. -/
theorem firstBeyond_spec {first : InMemoryStorageEntry}
    (hfirst : storage.firstBeyond name = some first) :
    first ∈ storage.cache ∧ (name ≤ first.getFullName sha256 ∧ ¬ name <+: first.data.name) ∧
      ∀ other ∈ storage.cache, name ≤ other.getFullName sha256 → ¬ name <+: other.data.name →
        first.getFullName sha256 ≤ other.getFullName sha256 := by
  rw [firstBeyond, List.find?_eq_some_iff_append] at hfirst
  obtain ⟨hbeyond, front, back, hsplit, hfront⟩ := hfirst
  have hsorted := storage.sorted
  rw [hsplit] at hsorted ⊢
  refine ⟨List.mem_append_right _ List.mem_cons_self, of_decide_eq_true hbeyond, ?_⟩
  intro other hother hlow hnot
  rcases List.mem_append.mp hother with hin | hin
  · have hunder := hfront other hin
    simp [hlow, hnot] at hunder
  · rcases List.mem_cons.mp hin with rfl | hin
    · exact le_rfl
    · exact ((List.pairwise_cons.mp (List.pairwise_append.mp hsorted).2.1).1 other hin).le

/-- The walk removes the packets under the name, and no others, exactly if the two tests delimit
them. -/
theorem mem_underPrefix_iff_delimitsPrefix :
    (∀ entry ∈ storage.cache, entry ∈ storage.underPrefix name ↔ name <+: entry.data.name) ↔
      storage.DelimitsPrefix name := by
  constructor
  · intro hexact
    constructor
    · intro hstored entry hentry hunder
      obtain ⟨located, hlocated, hname⟩ := List.mem_map.mp hstored
      have hremoved : entry ∈ storage.underPrefix name := (hexact entry hentry).mpr hunder
      have hwalked : located ∈ storage.underPrefix name := by
        refine mem_underPrefix_of_le hremoved hlocated hname.ge ?_
        rw [hname]
        exact le_getFullName_of_isPrefix hunder
      have hfits := (mem_cache_of_underPrefix hwalked).2.2
      rw [isPrefixOf_eq_false_of_getFullName_eq hname] at hfits
      cases hfits
    · intro first hfirst
      obtain ⟨hmem, ⟨hlow, hnot⟩, hleast⟩ := firstBeyond_spec hfirst
      by_contra hfits
      rw [Bool.not_eq_false] at hfits
      -- the walk comes only to packets under the name before it comes to this one
      refine hnot ((hexact first hmem).mp (mem_underPrefix_of_forall_le hmem hlow ?_))
      intro other hother hotherLow hotherHigh
      by_cases hunder : name <+: other.data.name
      · exact Name.isPrefixOf_of_isPrefix hunder
      · have hsame : other = first := eq_of_getFullName_eq hother hmem
          (le_antisymm hotherHigh (hleast other hother hotherLow hunder))
        rw [hsame]
        exact hfits
  · rintro ⟨hfull, hfirst⟩ entry hentry
    constructor
    · intro hremoved
      by_contra hnot
      obtain ⟨-, hlow, -⟩ := mem_cache_of_underPrefix hremoved
      have hbeyond : (storage.firstBeyond name).isSome = true :=
        List.find?_isSome.mpr ⟨entry, hentry, decide_eq_true ⟨hlow, hnot⟩⟩
      obtain ⟨first, hsome⟩ := Option.isSome_iff_exists.mp hbeyond
      obtain ⟨hmem, ⟨hfirstLow, -⟩, hleast⟩ := firstBeyond_spec hsome
      have hstays : first ∈ storage.underPrefix name :=
        mem_underPrefix_of_le hremoved hmem hfirstLow (hleast entry hentry hlow hnot)
      have hends := hfirst first hsome
      rw [(mem_cache_of_underPrefix hstays).2.2] at hends
      cases hends
    · intro hunder
      refine mem_underPrefix_of_forall_le hentry (le_getFullName_of_isPrefix hunder) ?_
      intro other hother hlow hhigh
      rcases isPrefix_or_getFullName_eq hunder hlow hhigh with hotherUnder | hname
      · exact Name.isPrefixOf_of_isPrefix hotherUnder
      · exact absurd hunder (hfull (List.mem_map.mpr ⟨other, hother, hname⟩) entry hentry)

theorem mem_findByFullName_iff (hmem : entry ∈ storage.cache) :
    entry ∈ (storage.findByFullName name).toList ↔ entry.getFullName sha256 = name := by
  rw [Option.mem_toList, findByFullName_eq_some_iff]
  exact and_iff_right hmem

end Walk

end InMemoryStorage

namespace ManagedStorage

open InMemoryStorage

variable {sha256 : Bytes → Bytes}

/-- `erase` returns, the entries that it was asked to remove have left, and all others stand as they
did in the cache and in the cleanup index. -/
def ErasesExactly (policy : StoragePolicy) (state : ManagedStorage sha256) (name : Name)
    (isPrefix : Bool) : Prop :=
  ∃ after, erase policy state name isPrefix = .ok after ∧
    after.storage.cache =
      state.storage.cache.filter (fun entry ↦ !isAsked sha256 name isPrefix entry) ∧
    (policy ≠ .persistent → after.cleanupIndex = state.cleanupIndex.filter fun element ↦
      element.fullName ∉ (state.storage.cache.filter (isAsked sha256 name isPrefix)).map
        (InMemoryStorageEntry.getFullName sha256))

section Erase

variable {policy : StoragePolicy} {state : ManagedStorage sha256} {name : Name} {isPrefix : Bool}

theorem filter_notMem_cons {Element : Type*} (list : List Element) (key : Element → Name)
    (head : Name) (tail : List Name) :
    (list.filter fun element ↦ key element ≠ head).filter (fun element ↦ key element ∉ tail) =
      list.filter fun element ↦ key element ∉ head :: tail := by
  rw [List.filter_filter]
  apply List.filter_congr
  intro element _
  simp only [List.mem_cons, not_or, Bool.decide_and, Bool.and_comm]

/-- The loop of `erase` filters the cache and the index. -/
theorem removeEntries_eq_filter (policy : StoragePolicy) (state : ManagedStorage sha256)
    (entries : List InMemoryStorageEntry) :
    (entries.foldl (removeEntry policy) state).storage.cache =
        state.storage.cache.filter (fun entry ↦ entry.getFullName sha256 ∉
          entries.map (InMemoryStorageEntry.getFullName sha256)) ∧
      (policy ≠ .persistent → (entries.foldl (removeEntry policy) state).cleanupIndex =
        state.cleanupIndex.filter fun element ↦ element.fullName ∉
          entries.map (InMemoryStorageEntry.getFullName sha256)) := by
  induction entries generalizing state with
  | nil => simp
  | cons entry entries ih =>
    obtain ⟨hcache, hindex⟩ := ih (removeEntry policy state entry)
    rw [List.foldl_cons]
    constructor
    · rw [hcache, List.map_cons]
      exact filter_notMem_cons state.storage.cache _ _ _
    · intro hpolicy
      rw [hindex hpolicy, List.map_cons]
      have hfiltered : (removeEntry policy state entry).cleanupIndex =
          state.cleanupIndex.filter fun element ↦
            element.fullName ≠ entry.getFullName sha256 := by
        cases policy with
        | persistent => exact absurd rfl hpolicy
        | fifo | lru | lfu => rfl
      rw [hfiltered]
      exact filter_notMem_cons state.cleanupIndex _ _ _

/-- Whatever `erase` removes, it does not touch the rest. -/
theorem Consistent.erase_eq_filter (hstate : state.Consistent policy)
    (hmemory : state.capacity < 2 ^ 63) (name : Name) (isPrefix : Bool) :
    ∃ after, ManagedStorage.erase policy state name isPrefix = .ok after ∧
      after.storage.cache = state.storage.cache.filter (fun entry ↦ entry.getFullName sha256 ∉
        (state.erased name isPrefix).map (InMemoryStorageEntry.getFullName sha256)) ∧
      (policy ≠ .persistent → after.cleanupIndex = state.cleanupIndex.filter fun element ↦
        element.fullName ∉
          (state.erased name isPrefix).map (InMemoryStorageEntry.getFullName sha256)) := by
  have hfiltered := removeEntries_eq_filter policy state (state.erased name isPrefix)
  by_cases hearly : isPrefix = false ∧ state.erased name isPrefix = []
  · rw [hearly.2, List.foldl_nil] at hfiltered
    rw [hearly.2]
    exact ⟨state, erase_eq_self hearly, hfiltered⟩
  · obtain ⟨hremoved, hcapacity, -, -⟩ := hstate.removeErased name isPrefix
    obtain ⟨capacity, hhalved, -⟩ := hremoved.halveCapacity_eq (hcapacity ▸ hmemory)
    exact ⟨_, (erase_eq_halveCapacity hearly).trans hhalved, hfiltered⟩

/-- The call does what it is asked to do exactly if it removes the right entries. -/
theorem Consistent.erasesExactly_iff (hstate : state.Consistent policy)
    (hmemory : state.capacity < 2 ^ 63) :
    state.ErasesExactly policy name isPrefix ↔
      ∀ entry ∈ state.storage.cache,
        entry ∈ state.erased name isPrefix ↔ isAsked sha256 name isPrefix entry = true := by
  obtain ⟨after, hok, hcache, hindex⟩ := hstate.erase_eq_filter hmemory name isPrefix
  have hsubset := (Consistent.erased_sublist state name isPrefix).subset
  have hnames : ∀ entry ∈ state.storage.cache, entry.getFullName sha256 ∈
      (state.erased name isPrefix).map (InMemoryStorageEntry.getFullName sha256) ↔
        entry ∈ state.erased name isPrefix := by
    intro entry hentry
    constructor
    · intro hname
      obtain ⟨other, hother, hsame⟩ := List.mem_map.mp hname
      rwa [eq_of_getFullName_eq hentry (hsubset hother) hsame.symm]
    · exact List.mem_map_of_mem
  constructor
  · rintro ⟨after', hok', hcache', -⟩ entry hentry
    obtain rfl : after = after' := Except.ok.inj (hok.symm.trans hok')
    have hkept : entry ∈ after.storage.cache ↔ entry ∉ state.erased name isPrefix := by
      rw [hcache, List.mem_filter, decide_eq_true_iff, hnames entry hentry]
      exact and_iff_right hentry
    have hkept' : entry ∈ after.storage.cache ↔ isAsked sha256 name isPrefix entry = false := by
      rw [hcache', List.mem_filter, Bool.not_eq_true']
      exact and_iff_right hentry
    rw [← not_iff_not, ← hkept, hkept', Bool.not_eq_true]
  · intro hexact
    have hsame : ∀ fullName : Name, fullName ∈
        (state.storage.cache.filter (isAsked sha256 name isPrefix)).map
          (InMemoryStorageEntry.getFullName sha256) ↔
        fullName ∈
          (state.erased name isPrefix).map (InMemoryStorageEntry.getFullName sha256) := by
      intro fullName
      simp only [List.mem_map, List.mem_filter]
      constructor
      · rintro ⟨entry, ⟨hentry, hasked⟩, hname⟩
        exact ⟨entry, (hexact entry hentry).mpr hasked, hname⟩
      · rintro ⟨entry, herased, hname⟩
        exact ⟨entry, ⟨hsubset herased, (hexact entry (hsubset herased)).mp herased⟩, hname⟩
    refine ⟨after, hok, ?_, fun hpolicy ↦ ?_⟩
    · rw [hcache]
      apply List.filter_congr
      intro entry hentry
      rw [Bool.eq_iff_iff, decide_eq_true_iff, hnames entry hentry, hexact entry hentry,
        Bool.not_eq_true', Bool.not_eq_true]
    · rw [hindex hpolicy]
      apply List.filter_congr
      intro element _
      rw [Bool.eq_iff_iff, decide_eq_true_iff, decide_eq_true_iff, hsame]

end Erase

/-! ## Every run -/

section Run

variable {policy : StoragePolicy} {state next : ManagedStorage sha256}

/-- The calls that return keep the storage consistent, also with no capacity left. -/
theorem Consistent.step (hstate : state.Consistent policy) (hmemory : state.capacity < 2 ^ 63)
    {call : Call} (hstep : ManagedStorage.step policy state call = some next) :
    next.Consistent policy := by
  have hok : ManagedStorage.perform policy state call = .ok next := by
    unfold ManagedStorage.step at hstep
    cases hperform : ManagedStorage.perform policy state call with
    | error failure =>
      rw [hperform] at hstep
      cases hstep
    | ok after =>
      rw [hperform] at hstep
      exact congrArg Except.ok (Option.some.inj hstep)
  have hreturns : ∀ {after}, ManagedStorage.perform policy state call = .ok after →
      after.Consistent policy → next.Consistent policy := by
    intro after hafter hconsistent
    obtain rfl : after = next := Except.ok.inj (hafter.symm.trans hok)
    exact hconsistent
  cases call with
  | insert data =>
    by_cases hpositive : 0 < state.capacity
    · obtain ⟨after, hafter, hconsistent, -⟩ := hstate.insert hpositive hmemory data
      exact hreturns hafter hconsistent
    · have hfails := hstate.insert_eq_error (Nat.eq_zero_of_not_pos hpositive) data
      cases hfails.symm.trans hok
  | findName name =>
    obtain ⟨after, hafter, hconsistent, -⟩ := hstate.access fun _ ↦ mem_cache_of_findUnder
    exact hreturns hafter hconsistent
  | findInterest interest =>
    obtain ⟨after, hafter, hconsistent, -⟩ := hstate.access fun _ ↦ mem_cache_of_accessed
    exact hreturns hafter hconsistent
  | erase name isPrefix =>
    obtain ⟨after, hafter, hconsistent, -⟩ := hstate.erase hmemory name isPrefix
    exact hreturns hafter hconsistent
  | markStale fullName => exact hreturns rfl (hstate.markStale fullName)

/-- Half of the address space does not hold as many entries as to make `2 * size()` overflow. -/
def FitsInMemory (state : ManagedStorage sha256) (_ : Call) : Prop := state.capacity < 2 ^ 63

variable {calls : List Call}

theorem consistent_of_run {limit : ℕ} (hpersistent : policy = .persistent → limit = 2 ^ 64 - 1)
    (hmemory : Run.Guarded (ManagedStorage.step policy) FitsInMemory (init sha256 limit) calls)
    (hrun : Run.run (ManagedStorage.step policy) (init sha256 limit) calls = some state) :
    state.Consistent policy :=
  Run.invariant_of_guarded (fun _ state ↦ state.Consistent policy)
    (fun _ _ _ _ hstate hfits hstep ↦ hstate.step hfits hstep) (.init hpersistent) hmemory hrun

instance (state : ManagedStorage sha256) (call : Call) : Decidable (state.FitsInMemory call) :=
  inferInstanceAs (Decidable (_ < _))

/-- After every run, `erase` by a full name removes what it is asked to remove, and `erase` by a
prefix does so exactly if the two tests delimit the packets under the prefix. -/
theorem erasesExactly_iff_of_run {limit : ℕ}
    (hpersistent : policy = .persistent → limit = 2 ^ 64 - 1)
    (hmemory : Run.Guarded (ManagedStorage.step policy) FitsInMemory (init sha256 limit) calls)
    (hrun : Run.run (ManagedStorage.step policy) (init sha256 limit) calls = some state)
    (hfits : state.capacity < 2 ^ 63) (name : Name) :
    state.ErasesExactly policy name false ∧
      (state.ErasesExactly policy name true ↔ state.storage.DelimitsPrefix name) := by
  have hstate := consistent_of_run hpersistent hmemory hrun
  constructor
  · rw [hstate.erasesExactly_iff hfits]
    intro entry hentry
    have hasked : isAsked sha256 name false entry = true ↔ entry.getFullName sha256 = name :=
      decide_eq_true_iff
    rw [hasked]
    exact mem_findByFullName_iff hentry
  · rw [hstate.erasesExactly_iff hfits, ← mem_underPrefix_iff_delimitsPrefix]
    have hasked : ∀ entry, isAsked sha256 name true entry = true ↔ name <+: entry.data.name :=
      fun entry ↦ decide_eq_true_iff
    simp only [hasked]
    rfl

end Run

def threePackets : List Call :=
  [.insert { packet [97] with name := [.generic [97], .generic [1]] },
    .insert { packet [97] with name := [.generic [97], .generic [2]] }, .insert (packet [98])]

/-- The packets under the first component are erased. -/
theorem erasesExactly_iff_of_run_threePackets :
    ∃ state, Run.run (step .lru) (init zeroDigest 10) threePackets = some state ∧
      state.ErasesExactly .lru [.generic [97]] true := by
  have hmemory : Run.Guarded (step .lru) FitsInMemory (init zeroDigest 10) threePackets := by
    decide
  refine ⟨_, rfl, ?_⟩
  refine (erasesExactly_iff_of_run (by simp) hmemory rfl (by decide) _).2.mpr ?_
  decide

/-- A packet whose name is a generic component of 32 zero bytes. -/
def zeroPacket : Data := packet (List.replicate 32 0)

def zeroStorage : ManagedStorage zeroDigest where
  storage := ⟨[⟨zeroPacket, true⟩], List.pairwise_singleton _ _⟩
  limit := 10
  capacity := 10
  nPackets := 1
  freeEntries := 9
  cleanupIndex := [⟨zeroPacket.getFullName zeroDigest, 0⟩]

/-- The packet is erased under the digest component of the same bytes. -/
theorem not_erasesExactly_digest :
    Run.run (step .fifo) (init zeroDigest 10) [.insert zeroPacket] = some zeroStorage ∧
      ¬ zeroStorage.ErasesExactly .fifo
        [⟨Tlv.implicitSha256DigestComponent, List.replicate 32 0⟩] true := by
  refine ⟨rfl, ?_⟩
  rintro ⟨after, hok, hcache, -⟩
  have hkept : after.storage.cache.length = 1 := by
    rw [hcache]
    decide
  have herased : ((erase .fifo zeroStorage
      [⟨Tlv.implicitSha256DigestComponent, List.replicate 32 0⟩] true).toOption.map
        fun after ↦ after.storage.cache.length) = some 0 := by decide
  rw [hok] at herased
  have hnone : after.storage.cache.length = 0 := Option.some.inj herased
  omega

end ManagedStorage

end NdnCxx
