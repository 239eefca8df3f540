import Mathlib.Data.List.Basic
import Mathlib.Data.List.Pairwise

/-!
# Unordered associative containers

A hashed map with an explicit identity of keys, in the role of `std::unordered_map`: two keys are
the same for it when they hash equally and compare equal. The entries are kept as a list in the order
in which they were made; that no two keys are the same is a field of the structure. Nothing here asks
the identity to be an equivalence.
-/

namespace NdnCxx

/-- A container in which no two keys are the same. -/
structure UnorderedMap (Key Value : Type*) (same : Key → Key → Bool) where
  entries : List (Key × Value)
  distinct : entries.Pairwise fun first second ↦ same first.1 second.1 = false

namespace UnorderedMap

variable {Key Value : Type*} {same : Key → Key → Bool}

def empty : UnorderedMap Key Value same where
  entries := []
  distinct := List.Pairwise.nil

def keys (container : UnorderedMap Key Value same) : List Key := container.entries.map Prod.fst

def contains (container : UnorderedMap Key Value same) (key : Key) : Bool :=
  container.entries.any fun entry ↦ same entry.1 key

def find? (container : UnorderedMap Key Value same) (key : Key) : Option Value :=
  (container.entries.find? fun entry ↦ same entry.1 key).map Prod.snd

/-- Assignment through `operator[]`: the entry keeps the key it was made with. -/
def assign (container : UnorderedMap Key Value same) (key : Key) (value : Value) :
    UnorderedMap Key Value same :=
  if hcontains : container.contains key then
    { entries := container.entries.map fun entry ↦
        if same entry.1 key then (entry.1, value) else entry
      distinct := by
        refine List.pairwise_map.mpr (container.distinct.imp fun {first second} hdistinct ↦ ?_)
        have hkey (entry : Key × Value) :
            (if same entry.1 key then (entry.1, value) else entry).1 = entry.1 := by
          split_ifs <;> rfl
        rw [hkey first, hkey second]
        exact hdistinct }
  else
    { entries := container.entries ++ [(key, value)]
      distinct := by
        refine List.pairwise_append.mpr ⟨container.distinct, List.pairwise_singleton _ _, ?_⟩
        intro entry hentry added hadded
        rw [List.mem_singleton.mp hadded]
        have hnone : ∀ entry ∈ container.entries, ¬ same entry.1 key = true := by
          simpa [contains] using hcontains
        simpa using hnone entry hentry }

def erase (container : UnorderedMap Key Value same) (key : Key) : UnorderedMap Key Value same where
  entries := container.entries.filter fun entry ↦ !same entry.1 key
  distinct := container.distinct.filter _

theorem contains_eq_true_iff {container : UnorderedMap Key Value same} {key : Key} :
    container.contains key = true ↔ ∃ other ∈ container.keys, same other key = true := by
  simp [contains, keys]

theorem contains_eq_false_iff {container : UnorderedMap Key Value same} {key : Key} :
    container.contains key = false ↔ ∀ other ∈ container.keys, same other key = false := by
  simp [contains, keys]

variable {value : Value}

/-- What is found belongs to an entry whose key is the same. -/
theorem exists_of_find?_eq_some {container : UnorderedMap Key Value same} {key : Key}
    (hfind : container.find? key = some value) :
    ∃ other, (other, value) ∈ container.entries ∧ same other key = true := by
  obtain ⟨⟨other, found⟩, hentry, rfl⟩ := Option.map_eq_some_iff.mp hfind
  exact ⟨other, List.mem_of_find?_eq_some hentry, by simpa using List.find?_some hentry⟩

theorem find?_eq_none_iff {container : UnorderedMap Key Value same} {key : Key} :
    container.find? key = none ↔ ∀ other ∈ container.keys, same other key = false := by
  simp [find?, keys]

theorem keys_assign (container : UnorderedMap Key Value same) (key : Key) (value : Value) :
    (container.assign key value).keys =
      if container.contains key then container.keys else container.keys ++ [key] := by
  unfold assign
  split_ifs with hcontains
  · rw [keys, List.map_map, keys]
    refine List.map_congr_left fun entry _ ↦ ?_
    simp only [Function.comp_apply]
    split_ifs <;> rfl
  · exact List.map_append

theorem mem_keys_of_mem_keys_assign {container : UnorderedMap Key Value same} {key other : Key}
    (hmem : other ∈ (container.assign key value).keys) : other ∈ container.keys ∨ other = key := by
  rw [keys_assign] at hmem
  split_ifs at hmem
  · exact .inl hmem
  · simpa using hmem

theorem mem_keys_assign_of_mem {container : UnorderedMap Key Value same} {key other : Key}
    (value : Value) (hmem : other ∈ container.keys) :
    other ∈ (container.assign key value).keys := by
  rw [keys_assign]
  split_ifs
  · exact hmem
  · exact List.mem_append_left _ hmem

/-- After an assignment the key itself is there, or one that is the same. -/
theorem exists_mem_keys_assign (container : UnorderedMap Key Value same) (key : Key)
    (value : Value) :
    ∃ other ∈ (container.assign key value).keys, other = key ∨ same other key = true := by
  rw [keys_assign]
  split_ifs with hcontains
  · obtain ⟨other, hother, hsame⟩ := contains_eq_true_iff.mp hcontains
    exact ⟨other, hother, .inr hsame⟩
  · exact ⟨key, by simp, .inl rfl⟩

/-- An entry after an assignment is an earlier one of another key, or the assigned one. -/
theorem mem_entries_assign {container : UnorderedMap Key Value same} {key : Key}
    {entry : Key × Value} (hmem : entry ∈ (container.assign key value).entries) :
    entry ∈ container.entries ∧ same entry.1 key = false ∨
      entry.2 = value ∧ (entry.1 = key ∨ same entry.1 key = true) := by
  unfold assign at hmem
  split_ifs at hmem with hcontains
  · obtain ⟨old, hold, rfl⟩ := List.mem_map.mp hmem
    split_ifs with hsame
    · exact .inr ⟨rfl, .inr hsame⟩
    · exact .inl ⟨hold, by simpa using hsame⟩
  · rcases List.mem_append.mp hmem with hold | hadded
    · have hall := contains_eq_false_iff.mp (Bool.eq_false_iff.mpr hcontains)
      exact .inl ⟨hold, hall entry.1 (List.mem_map_of_mem hold)⟩
    · rw [List.mem_singleton.mp hadded]
      exact .inr ⟨rfl, .inl rfl⟩

theorem keys_erase_sublist (container : UnorderedMap Key Value same) (key : Key) :
    List.Sublist (container.erase key).keys container.keys :=
  List.filter_sublist.map Prod.fst

/-! ## Keys told apart by equality -/

section Equality

variable [DecidableEq Key] {container : UnorderedMap Key Value fun key other ↦ decide (key = other)}

@[simp]
theorem find?_empty (key : Key) :
    (empty : UnorderedMap Key Value fun key other ↦ decide (key = other)).find? key = none := rfl

/-- Writing to the entries of one key does not change which entry is found. -/
theorem find?_overwrite (entries : List (Key × Value)) (key other : Key) (value : Value) :
    ((entries.map fun entry ↦ if decide (entry.1 = key) = true then (entry.1, value) else entry).find?
        fun entry ↦ decide (entry.1 = other)) =
      (entries.find? fun entry ↦ decide (entry.1 = other)).map fun entry ↦
        if decide (entry.1 = key) = true then (entry.1, value) else entry := by
  rw [List.find?_map]
  congr 2
  funext entry
  by_cases hentryKey : entry.1 = key <;> simp [hentryKey]

theorem find?_assign (key other : Key) (value : Value) :
    (container.assign key value).find? other =
      if other = key then some value else container.find? other := by
  unfold assign
  split_ifs with hcontains hsame hsame
  · subst hsame
    obtain ⟨stored, hstored, hkey⟩ := contains_eq_true_iff.mp hcontains
    obtain ⟨entry, hentry, rfl⟩ := List.mem_map.mp hstored
    have hsome : (container.entries.find? fun entry ↦ decide (entry.1 = other)).isSome = true :=
      List.find?_isSome.mpr ⟨entry, hentry, hkey⟩
    obtain ⟨found, hfound⟩ := Option.isSome_iff_exists.mp hsome
    have hfoundKey : found.1 = other := by simpa using List.find?_some hfound
    rw [find?, find?_overwrite, hfound]
    simp [hfoundKey]
  · rw [find?, find?, find?_overwrite]
    cases hfound : container.entries.find? fun entry ↦ decide (entry.1 = other) with
    | none => rfl
    | some found =>
      have hfoundKey : found.1 = other := by simpa using List.find?_some hfound
      have hother : found.1 ≠ key := fun hkey ↦ hsame (hfoundKey.symm.trans hkey)
      simp [hother]
  · subst hsame
    have hnone : container.find? other = none :=
      find?_eq_none_iff.mpr (contains_eq_false_iff.mp (Bool.eq_false_iff.mpr hcontains))
    rw [find?, Option.map_eq_none_iff] at hnone
    simp [find?, List.find?_append, hnone]
  · simp [find?, List.find?_append, Ne.symm hsame]

end Equality

end UnorderedMap

end NdnCxx
