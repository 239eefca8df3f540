import NdnCxx.Storage.Capacity

/-!
# The rank of an entry

A policy is told of insertions and of the entries that a `find` returns. The record of what has
happened to the entries gives each of them a rank, by which FIFO, LRU and LFU are meant to evict. The
cleanup indexes are kept in the order of these ranks.
-/

namespace NdnCxx

/-- What a policy bases its choice on. -/
inductive Happening
  | inserted (fullName : Name)
  | returned (fullName : Name)
  deriving DecidableEq

namespace Happening

def isInsertion (fullName : Name) (happening : Happening) : Bool :=
  happening = .inserted fullName

def isUse (fullName : Name) (happening : Happening) : Bool :=
  happening = .inserted fullName || happening = .returned fullName

/-- When something has happened last, in a record whose latest happening comes first. -/
def lastTime (happens : Happening → Bool) : List Happening → ℕ
  | [] => 0
  | happening :: past =>
      if happens happening then past.length + 1 else lastTime happens past

/-- How often the entry has been returned since its insertion. -/
def returnsSinceInsertion (fullName : Name) : List Happening → ℕ
  | [] => 0
  | .inserted other :: past => if other = fullName then 0 else returnsSinceInsertion fullName past
  | .returned other :: past =>
      if other = fullName then returnsSinceInsertion fullName past + 1
      else returnsSinceInsertion fullName past

theorem lastTime_le_length (happens : Happening → Bool) (history : List Happening) :
    lastTime happens history ≤ history.length := by
  induction history with
  | nil => exact le_rfl
  | cons happening past ih =>
    rw [lastTime, List.length_cons]
    split_ifs
    · exact le_rfl
    · exact ih.trans (Nat.le_succ _)

end Happening

open Happening

/-- What a policy evicts by, the least first: the time of the insertion, the time of the last use, or
the number of uses. -/
def StoragePolicy.rank (history : List Happening) (fullName : Name) : StoragePolicy → ℕ
  | .fifo => lastTime (isInsertion fullName) history
  | .lru => lastTime (isUse fullName) history
  | .lfu => returnsSinceInsertion fullName history
  | .persistent => 0

namespace StoragePolicy

variable {policy : StoragePolicy} {history : List Happening} {index : List CleanupEntry}
  {fullName : Name}

/-- What happens to one entry leaves the rank of the others. -/
theorem rank_cons_of_ne (policy : StoragePolicy) {other : Name} (hne : other ≠ fullName) :
    policy.rank (.inserted fullName :: history) other = policy.rank history other ∧
      policy.rank (.returned fullName :: history) other = policy.rank history other := by
  cases policy <;>
    simp [rank, lastTime, returnsSinceInsertion, isInsertion, isUse, hne.symm]

/-- The index is in the order of the ranks, and its frequencies are those of the record. -/
structure Tracks (policy : StoragePolicy) (history : List Happening) (index : List CleanupEntry) :
    Prop where
  ordered : index.Pairwise fun first second ↦
    policy.rank history first.fullName ≤ policy.rank history second.fullName
  counted : policy = .lfu →
    ∀ entry ∈ index, entry.frequency = returnsSinceInsertion entry.fullName history

namespace Tracks

theorem sublist {smaller : List CleanupEntry} (htracks : Tracks policy history index)
    (hsublist : smaller.Sublist index) : Tracks policy history smaller :=
  ⟨htracks.ordered.sublist hsublist,
    fun hpolicy entry hentry ↦ htracks.counted hpolicy entry (hsublist.subset hentry)⟩

/-- A happening to an entry that is not in the index does not matter to the index. -/
theorem cons_of_not_mem (htracks : Tracks policy history index)
    (habsent : fullName ∉ index.map CleanupEntry.fullName) :
    Tracks policy (.inserted fullName :: history) index ∧
      Tracks policy (.returned fullName :: history) index := by
  have hne : ∀ entry ∈ index, entry.fullName ≠ fullName := by
    rintro entry hentry rfl
    exact habsent (List.mem_map_of_mem hentry)
  constructor <;> constructor
  · refine htracks.ordered.imp_of_mem fun {first second} hfirst hsecond hle ↦ ?_
    rwa [(rank_cons_of_ne policy (hne first hfirst)).1, (rank_cons_of_ne policy (hne second hsecond)).1]
  · rintro rfl entry hentry
    exact (htracks.counted rfl entry hentry).trans
      (rank_cons_of_ne .lfu (hne entry hentry)).1.symm
  · refine htracks.ordered.imp_of_mem fun {first second} hfirst hsecond hle ↦ ?_
    rwa [(rank_cons_of_ne policy (hne first hfirst)).2, (rank_cons_of_ne policy (hne second hsecond)).2]
  · rintro rfl entry hentry
    exact (htracks.counted rfl entry hentry).trans
      (rank_cons_of_ne .lfu (hne entry hentry)).2.symm

/-- The entry used last goes to the end of the index. -/
theorem append_latest {happening : Happening} (hpolicy : policy = .fifo ∨ policy = .lru)
    (htracks : Tracks policy (happening :: history) index)
    (hlatest : policy.rank (happening :: history) fullName = history.length + 1) :
    Tracks policy (happening :: history) (index ++ [⟨fullName, 0⟩]) := by
  constructor
  · refine List.pairwise_append.mpr ⟨htracks.ordered, List.pairwise_singleton _ _, ?_⟩
    intro entry _ latest hmem
    obtain rfl := List.mem_singleton.mp hmem
    rw [hlatest]
    rcases hpolicy with rfl | rfl <;> exact lastTime_le_length _ (happening :: history)
  · rintro rfl
    simp at hpolicy

end Tracks

def OrderedByFrequency (index : List CleanupEntry) : Prop :=
  index.Pairwise fun first second ↦ first.frequency ≤ second.frequency

theorem OrderedByFrequency.insertByFrequency (hordered : OrderedByFrequency index)
    (entry : CleanupEntry) : OrderedByFrequency (insertByFrequency entry index) := by
  induction index with
  | nil => exact List.pairwise_singleton _ _
  | cons first rest ih =>
    obtain ⟨hfirst, hrest⟩ := List.pairwise_cons.mp hordered
    by_cases hle : first.frequency ≤ entry.frequency
    · have hinsert : StoragePolicy.insertByFrequency entry (first :: rest) =
          first :: StoragePolicy.insertByFrequency entry rest := by
        simp [StoragePolicy.insertByFrequency, hle]
      rw [hinsert]
      refine List.pairwise_cons.mpr ⟨fun other hother ↦ ?_, ih hrest⟩
      simp only [StoragePolicy.insertByFrequency, List.mem_append, List.mem_cons] at hother
      rcases hother with hother | rfl | hother
      · exact hfirst other ((List.takeWhile_sublist _).subset hother)
      · exact hle
      · exact hfirst other ((List.dropWhile_sublist _).subset hother)
    · have hinsert : StoragePolicy.insertByFrequency entry (first :: rest) =
          entry :: first :: rest := by
        simp [StoragePolicy.insertByFrequency, hle]
      rw [hinsert]
      refine List.pairwise_cons.mpr ⟨fun other hother ↦ ?_, hordered⟩
      rcases List.mem_cons.mp hother with rfl | hother
      · omega
      · have hbefore := hfirst other hother
        omega

/-- The neighbours of an element that stays in its place are in order with it. -/
theorem OrderedByFrequency.of_staysInPlace {before after : List CleanupEntry}
    {entry : CleanupEntry} (hordered : OrderedByFrequency (before ++ after))
    (hstays : staysInPlace before entry after = true) :
    OrderedByFrequency (before ++ entry :: after) := by
  obtain ⟨hbefore, hafter, hacross⟩ := List.pairwise_append.mp hordered
  obtain ⟨hlast, hhead⟩ := (Bool.and_eq_true _ _).mp hstays
  have hlow : ∀ other ∈ before, other.frequency ≤ entry.frequency := by
    rcases List.eq_nil_or_concat' before with rfl | ⟨init, last, rfl⟩
    · simp
    · have hle : last.frequency ≤ entry.frequency := by simpa using hlast
      intro other hother
      rcases List.mem_append.mp hother with hother | hother
      · exact ((List.pairwise_append.mp hbefore).2.2 other hother last (by simp)).trans hle
      · rwa [List.mem_singleton.mp hother]
  have hhigh : ∀ other ∈ after, entry.frequency ≤ other.frequency := by
    rcases after with _ | ⟨head, rest⟩
    · simp
    · have hle : entry.frequency ≤ head.frequency := by simpa using hhead
      intro other hother
      rcases List.mem_cons.mp hother with rfl | hother
      · exact hle
      · exact hle.trans ((List.pairwise_cons.mp hafter).1 other hother)
  refine List.pairwise_append.mpr ⟨hbefore, List.pairwise_cons.mpr ⟨hhigh, hafter⟩, ?_⟩
  intro first hfirst second hsecond
  rcases List.mem_cons.mp hsecond with rfl | hsecond
  · exact hlow first hfirst
  · exact hacross first hfirst second hsecond

theorem tracks_lfu_iff : Tracks .lfu history index ↔ OrderedByFrequency index ∧
    ∀ entry ∈ index, entry.frequency = returnsSinceInsertion entry.fullName history := by
  constructor
  · intro htracks
    have hcounted := htracks.counted rfl
    refine ⟨htracks.ordered.imp_of_mem fun {first second} hfirst hsecond hle ↦ ?_, hcounted⟩
    rwa [hcounted first hfirst, hcounted second hsecond]
  · rintro ⟨hordered, hcounted⟩
    refine ⟨hordered.imp_of_mem fun {first second} hfirst hsecond hle ↦ ?_, fun _ ↦ hcounted⟩
    change returnsSinceInsertion first.fullName history ≤
      returnsSinceInsertion second.fullName history
    rwa [← hcounted first hfirst, ← hcounted second hsecond]

theorem mem_insertByFrequency {entry other : CleanupEntry} :
    other ∈ insertByFrequency entry index ↔ other = entry ∨ other ∈ index := by
  have hsplit := List.takeWhile_append_dropWhile
    (p := fun other : CleanupEntry ↦ decide (other.frequency ≤ entry.frequency)) (l := index)
  conv_rhs => rw [← hsplit]
  simp only [insertByFrequency, List.mem_append, List.mem_cons]
  tauto

/-- The insertion of an entry that is not in the index. -/
theorem Tracks.addToIndex (hpolicy : policy ≠ .persistent) (htracks : Tracks policy history index)
    (habsent : fullName ∉ index.map CleanupEntry.fullName) :
    Tracks policy (.inserted fullName :: history) (policy.addToIndex fullName index) := by
  have hkept := (htracks.cons_of_not_mem habsent).1
  have hnew : ¬ (index.any fun entry ↦ entry.fullName = fullName) = true := by
    simpa using habsent
  unfold StoragePolicy.addToIndex
  rw [if_neg hnew]
  cases policy with
  | persistent => exact absurd rfl hpolicy
  | fifo => exact hkept.append_latest (.inl rfl) (by simp [rank, lastTime, isInsertion])
  | lru => exact hkept.append_latest (.inr rfl) (by simp [rank, lastTime, isUse])
  | lfu =>
    obtain ⟨hordered, hcounted⟩ := tracks_lfu_iff.mp hkept
    refine tracks_lfu_iff.mpr ⟨hordered.insertByFrequency _, fun entry hentry ↦ ?_⟩
    rcases mem_insertByFrequency.mp hentry with rfl | hentry
    · simp [returnsSinceInsertion]
    · exact hcounted entry hentry

/-- The index by which LFU evicts stays in order where a frequency does not overflow. -/
theorem Tracks.countAccess (htracks : Tracks .lfu history index)
    (hnodup : (index.map CleanupEntry.fullName).Nodup)
    (hmem : fullName ∈ index.map CleanupEntry.fullName)
    (hfits : ∀ entry ∈ index, entry.fullName = fullName → entry.frequency + 1 < 2 ^ 64) :
    Tracks .lfu (.returned fullName :: history) (StoragePolicy.countAccess fullName index) := by
  obtain ⟨hordered, hcounted⟩ := tracks_lfu_iff.mp htracks
  obtain ⟨before, entry, after, rfl, rfl, haccessed⟩ := countAccess_cases hmem
  have hcount : (entry.frequency + 1) % 2 ^ 64 = entry.frequency + 1 :=
    Nat.mod_eq_of_lt (hfits entry (by simp) rfl)
  rw [hcount] at haccessed
  have hrest : OrderedByFrequency (before ++ after) :=
    hordered.sublist ((List.sublist_cons_self entry after).append_left before)
  have hother : ∀ other ∈ before ++ after, other.fullName ≠ entry.fullName := by
    rw [List.map_append, List.map_cons, List.nodup_middle, List.nodup_cons] at hnodup
    rintro other hmem heq
    rw [← List.map_append] at hnodup
    exact hnodup.1 (heq ▸ List.mem_map_of_mem hmem)
  have hothers : ∀ other ∈ before ++ after, other.frequency =
      returnsSinceInsertion other.fullName (.returned entry.fullName :: history) := by
    intro other hmem
    rw [hcounted other (by simp only [List.mem_append, List.mem_cons] at hmem ⊢; tauto)]
    exact (rank_cons_of_ne .lfu (hother other hmem)).2.symm
  have hentry : entry.frequency + 1 =
      returnsSinceInsertion entry.fullName (.returned entry.fullName :: history) := by
    rw [returnsSinceInsertion, if_pos rfl, hcounted entry (by simp)]
  rw [haccessed]
  split_ifs with hstays
  · refine tracks_lfu_iff.mpr ⟨hrest.of_staysInPlace hstays, fun other hmem ↦ ?_⟩
    rcases List.mem_append.mp hmem with hmem | hmem
    · exact hothers other (List.mem_append_left _ hmem)
    · rcases List.mem_cons.mp hmem with rfl | hmem
      · exact hentry
      · exact hothers other (List.mem_append_right _ hmem)
  · refine tracks_lfu_iff.mpr ⟨hrest.insertByFrequency _, fun other hmem ↦ ?_⟩
    rcases mem_insertByFrequency.mp hmem with rfl | hmem
    · exact hentry
    · exact hothers other hmem

/-- A `find` that returns an entry makes it the latest one for LRU; FIFO does not care. -/
theorem Tracks.returned_fifo (htracks : Tracks .fifo history index) :
    Tracks .fifo (.returned fullName :: history) index := by
  refine ⟨htracks.ordered.imp fun {first second} hle ↦ ?_, by simp⟩
  simpa [rank, lastTime, isInsertion] using hle

theorem Tracks.returned_lru (htracks : Tracks .lru history index) :
    Tracks .lru (.returned fullName :: history)
      (StoragePolicy.lru.addToIndex fullName
        (StoragePolicy.lru.beforeErase fullName index)) := by
  have habsent : fullName ∉
      (StoragePolicy.lru.beforeErase fullName index).map CleanupEntry.fullName := by
    simp [StoragePolicy.beforeErase]
  have hkept := ((htracks.sublist List.filter_sublist).cons_of_not_mem habsent).2
  have hnew : ¬ ((StoragePolicy.lru.beforeErase fullName index).any fun entry ↦
      entry.fullName = fullName) = true := by
    simpa using habsent
  unfold StoragePolicy.addToIndex
  rw [if_neg hnew]
  exact hkept.append_latest (.inr rfl) (by simp [rank, lastTime, isUse])

end StoragePolicy

end NdnCxx
