import Mathlib.Order.Defs.LinearOrder
import Mathlib.Order.RelClasses
import Mathlib.Data.List.Basic
import Mathlib.Data.List.Pairwise
import Mathlib.Data.List.Nodup
import Mathlib.Data.List.Sort

/-!
# Ordered associative containers

An ordered map with an explicit comparator, in the role of `std::map<Key, Value, Compare>` and of
an ordered unique index. The entries are kept as a list in iteration order, and the strict
sortedness of the keys is a field of the structure, so that an unordered or duplicated container
cannot be built. An iterator is represented by the key it points to, which is how iterators of a
node-based container behave under unrelated insertions and erasures.

Every operation is specified by the entries it leaves in the container.
-/

namespace NdnCxx

/-- A container strictly sorted by the comparator `lt`. -/
structure OrderedMap (Key Value : Type*) (lt : Key → Key → Prop) where
  /-- The entries in iteration order. -/
  entries : List (Key × Value)
  sorted : entries.Pairwise fun first second ↦ lt first.1 second.1

namespace OrderedMap

variable {Key Value : Type*} {lt : Key → Key → Prop}

instance [DecidableEq Key] [DecidableEq Value] : DecidableEq (OrderedMap Key Value lt) :=
  fun left right ↦ decidable_of_iff (left.entries = right.entries)
    ⟨fun h ↦ by cases left; cases right; simpa using h, fun h ↦ by rw [h]⟩

instance : Membership (Key × Value) (OrderedMap Key Value lt) :=
  ⟨fun container entry ↦ entry ∈ container.entries⟩

variable {container : OrderedMap Key Value lt} {entry : Key × Value} {key : Key} {value : Value}

theorem mem_def : entry ∈ container ↔ entry ∈ container.entries := Iff.rfl

theorem eq_of_entries_eq {left right : OrderedMap Key Value lt}
    (hentries : left.entries = right.entries) : left = right := by
  cases left
  cases right
  simpa using hentries

/-- A container is determined by its entries, whatever their order was. -/
theorem eq_of_mem_iff [Std.Asymm lt] {left right : OrderedMap Key Value lt}
    (hmem : ∀ entry, entry ∈ left ↔ entry ∈ right) : left = right := by
  have hirrefl : Std.Irrefl fun first second : Key × Value ↦ lt first.1 second.1 :=
    ⟨fun entry hlt ↦ asymm_of lt hlt hlt⟩
  have hantisymm : Std.Antisymm fun first second : Key × Value ↦ lt first.1 second.1 :=
    ⟨fun first second hlt hgt ↦ absurd hgt (asymm_of lt hlt)⟩
  exact eq_of_entries_eq (left.sorted.eq_of_mem_iff right.sorted hmem)

def empty : OrderedMap Key Value lt where
  entries := []
  sorted := List.Pairwise.nil

@[simp]
theorem not_mem_empty (entry : Key × Value) :
    entry ∉ (empty : OrderedMap Key Value lt) := by
  simp [mem_def, empty]

/-- A key occurs in at most one entry. -/
theorem entry_unique [Std.Irrefl lt] {first second : Key × Value} (hfirst : first ∈ container)
    (hsecond : second ∈ container) (hkey : first.1 = second.1) : first = second := by
  have hnodup : (container.entries.map Prod.fst).Nodup := by
    rw [List.nodup_iff_pairwise_ne, List.pairwise_map]
    apply container.sorted.imp
    intro left right hlt heq
    exact irrefl_of lt left.1 (by rwa [← heq] at hlt)
  exact List.inj_on_of_nodup_map hnodup hfirst hsecond hkey

/-- The first entry in iteration order that satisfies a condition is the least such entry. -/
theorem find?_eq_some_iff_least [IsStrictTotalOrder Key lt] (container : OrderedMap Key Value lt)
    (condition : Key → Bool) (entry : Key × Value) :
    (container.entries.find? fun candidate ↦ condition candidate.1) = some entry ↔
      entry ∈ container ∧ condition entry.1 = true ∧
        ∀ other ∈ container, condition other.1 = true → ¬ lt other.1 entry.1 := by
  constructor
  · intro hfind
    have hentry : condition entry.1 = true := by simpa using List.find?_some hfind
    refine ⟨List.mem_of_find?_eq_some hfind, hentry, ?_⟩
    intro other hother hcondition hlt
    obtain ⟨_, front, back, hsplit, hfront⟩ := List.find?_eq_some_iff_append.mp hfind
    have hsorted := container.sorted
    rw [mem_def, hsplit, List.mem_append, List.mem_cons] at hother
    rw [hsplit, List.pairwise_append, List.pairwise_cons] at hsorted
    rcases hother with hin | rfl | hin
    · exact absurd hcondition (by simpa using hfront other hin)
    · exact irrefl_of lt _ hlt
    · exact irrefl_of lt _ (trans_of lt hlt (hsorted.2.1.1 other hin))
  · rintro ⟨hmem, hcondition, hleast⟩
    cases hfind : container.entries.find? fun candidate ↦ condition candidate.1 with
    | none => exact absurd hcondition (List.find?_eq_none.mp hfind entry hmem)
    | some found =>
      have hfound := List.mem_of_find?_eq_some hfind
      have hbefore := hleast found hfound (by simpa using List.find?_some hfind)
      obtain ⟨_, front, back, hsplit, hfront⟩ := List.find?_eq_some_iff_append.mp hfind
      have hsorted := container.sorted
      rw [mem_def, hsplit, List.mem_append, List.mem_cons] at hmem
      rw [hsplit, List.pairwise_append, List.pairwise_cons] at hsorted
      rcases hmem with hin | rfl | hin
      · exact absurd hcondition (by simpa using hfront entry hin)
      · rfl
      · exact absurd (hsorted.2.1.1 entry hin) hbefore

/-! ## Operations -/

section Operations

variable [DecidableEq Key]

def find (container : OrderedMap Key Value lt) (key : Key) : Option Value :=
  (container.entries.find? fun entry ↦ entry.1 = key).map Prod.snd

/-- Change the value of an existing entry through its iterator. -/
def setValue (container : OrderedMap Key Value lt) (key : Key) (value : Value) :
    OrderedMap Key Value lt where
  entries := container.entries.map fun entry ↦ if entry.1 = key then (key, value) else entry
  sorted := by
    refine List.pairwise_map.mpr (container.sorted.imp fun {first second} hlt ↦ ?_)
    have hkey (entry : Key × Value) :
        (if entry.1 = key then (key, value) else entry).1 = entry.1 := by
      split_ifs with h
      · exact h.symm
      · rfl
    rw [hkey, hkey]
    exact hlt

/-- Remove the entry at `key`, if there is one. -/
def eraseKey (container : OrderedMap Key Value lt) (key : Key) : OrderedMap Key Value lt where
  entries := container.entries.filter fun entry ↦ entry.1 ≠ key
  sorted := container.sorted.sublist List.filter_sublist

@[simp]
theorem find_empty (key : Key) : (empty : OrderedMap Key Value lt).find key = none := rfl

theorem find_eq_some_iff [Std.Irrefl lt] :
    container.find key = some value ↔ (key, value) ∈ container := by
  constructor
  · intro hfind
    obtain ⟨entry, hentry, rfl⟩ := Option.map_eq_some_iff.mp hfind
    have hkey : entry.1 = key := by simpa using List.find?_some hentry
    exact hkey ▸ List.mem_of_find?_eq_some hentry
  · intro hmem
    cases hfind : container.entries.find? fun entry ↦ decide (entry.1 = key) with
    | none =>
      have habsent := List.find?_eq_none.mp hfind (key, value) hmem
      simp at habsent
    | some entry =>
      have hkey : entry.1 = key := by simpa using List.find?_some hfind
      have hentry := entry_unique (List.mem_of_find?_eq_some hfind) hmem hkey
      simp [find, hfind, hentry]

theorem find_eq_none_iff : container.find key = none ↔ ∀ entry ∈ container, entry.1 ≠ key := by
  simp [find, mem_def]

theorem mem_setValue [Std.Irrefl lt] (hkey : ∃ old, (key, old) ∈ container) :
    entry ∈ container.setValue key value ↔
      entry = (key, value) ∨ entry ∈ container ∧ entry.1 ≠ key := by
  simp only [mem_def, setValue, List.mem_map]
  constructor
  · rintro ⟨old, hold, rfl⟩
    split_ifs with h
    · exact Or.inl rfl
    · exact Or.inr ⟨hold, h⟩
  · rintro (rfl | ⟨hold, hne⟩)
    · obtain ⟨old, hmem⟩ := hkey
      exact ⟨(key, old), hmem, by simp⟩
    · exact ⟨entry, hold, by simp [hne]⟩

theorem mem_eraseKey : entry ∈ container.eraseKey key ↔ entry ∈ container ∧ entry.1 ≠ key := by
  simp [mem_def, eraseKey, List.mem_filter]

theorem find_eraseKey [Std.Irrefl lt] (container : OrderedMap Key Value lt) (key other : Key) :
    (container.eraseKey key).find other = if other = key then none else container.find other := by
  ext stored
  rw [find_eq_some_iff, mem_eraseKey]
  split_ifs with heq
  · simp [heq]
  · simp [heq, find_eq_some_iff]

/-- A container is determined by its lookups. -/
theorem eq_of_find_eq [Std.Asymm lt] {left right : OrderedMap Key Value lt}
    (hfind : ∀ key, left.find key = right.find key) : left = right := by
  refine eq_of_mem_iff fun entry ↦ ?_
  rw [← find_eq_some_iff, ← find_eq_some_iff, hfind]

theorem eraseKey_eq_self [Std.Asymm lt] (hnone : container.find key = none) :
    container.eraseKey key = container := by
  refine eq_of_find_eq fun other ↦ ?_
  rw [find_eraseKey]
  split_ifs with heq
  · rw [heq, hnone]
  · rfl

end Operations

/-- Remove every entry whose key satisfies a condition, one iterator after the other. -/
def eraseIf (container : OrderedMap Key Value lt) (condition : Key → Bool) :
    OrderedMap Key Value lt where
  entries := container.entries.filter fun entry ↦ !condition entry.1
  sorted := container.sorted.sublist List.filter_sublist

theorem mem_eraseIf {condition : Key → Bool} :
    entry ∈ container.eraseIf condition ↔ entry ∈ container ∧ condition entry.1 = false := by
  simp [mem_def, eraseIf, List.mem_filter]

/-! ## Operations that consult the comparator -/

section Comparator

variable [DecidableRel lt]

/-- The first entry whose key is not ordered before `key`; `none` is the past-the-end iterator. -/
def lowerBound (container : OrderedMap Key Value lt) (key : Key) : Option (Key × Value) :=
  container.entries.find? fun entry ↦ !decide (lt entry.1 key)

/-- The entry after the one at `key`; `none` is the past-the-end iterator. -/
def next (container : OrderedMap Key Value lt) (key : Key) : Option (Key × Value) :=
  container.entries.find? fun entry ↦ decide (lt key entry.1)

/-- Remove the entries of the iterator range `[first, last)`. -/
def eraseRange (container : OrderedMap Key Value lt) (first last : Key) :
    OrderedMap Key Value lt where
  entries := container.entries.filter fun entry ↦ decide (lt entry.1 first ∨ ¬ lt entry.1 last)
  sorted := container.sorted.sublist List.filter_sublist

theorem mem_eraseRange {first last : Key} :
    entry ∈ container.eraseRange first last ↔
      entry ∈ container ∧ (lt entry.1 first ∨ ¬ lt entry.1 last) := by
  simp [mem_def, eraseRange, List.mem_filter]

theorem lowerBound_eq_some_iff [IsStrictTotalOrder Key lt] :
    container.lowerBound key = some entry ↔
      entry ∈ container ∧ ¬ lt entry.1 key ∧
        ∀ other ∈ container, ¬ lt other.1 key → ¬ lt other.1 entry.1 := by
  have h := find?_eq_some_iff_least container (fun candidate ↦ !decide (lt candidate key)) entry
  simpa [lowerBound] using h

theorem lowerBound_eq_none_iff :
    container.lowerBound key = none ↔ ∀ entry ∈ container, lt entry.1 key := by
  simp [lowerBound, mem_def]

theorem next_eq_some_iff [IsStrictTotalOrder Key lt] :
    container.next key = some entry ↔
      entry ∈ container ∧ lt key entry.1 ∧
        ∀ other ∈ container, lt key other.1 → ¬ lt other.1 entry.1 := by
  have h := find?_eq_some_iff_least container (fun candidate ↦ decide (lt key candidate)) entry
  simpa [next] using h

theorem next_eq_none_iff : container.next key = none ↔ ∀ entry ∈ container, ¬ lt key entry.1 := by
  simp [next, mem_def]

/-! ## Insertion -/

/-- Insertion at the sorted position; an entry with an equivalent key is left alone. -/
def insertEntry (lt : Key → Key → Prop) [DecidableRel lt] (key : Key) (value : Value) :
    List (Key × Value) → List (Key × Value)
  | [] => [(key, value)]
  | entry :: rest =>
      if lt entry.1 key then entry :: insertEntry lt key value rest
      else if lt key entry.1 then (key, value) :: entry :: rest
      else entry :: rest

variable {entries : List (Key × Value)}

theorem eq_or_mem_of_mem_insertEntry (hmem : entry ∈ insertEntry lt key value entries) :
    entry = (key, value) ∨ entry ∈ entries := by
  induction entries with
  | nil => simpa [insertEntry] using hmem
  | cons head rest ih =>
    unfold insertEntry at hmem
    split_ifs at hmem with hbefore hafter
    · rcases List.mem_cons.mp hmem with rfl | htail
      · simp
      · rcases ih htail with h | h <;> simp [h]
    · simpa using hmem
    · exact Or.inr hmem

theorem mem_insertEntry_of_mem (hmem : entry ∈ entries) :
    entry ∈ insertEntry lt key value entries := by
  induction entries with
  | nil => simp at hmem
  | cons head rest ih =>
    unfold insertEntry
    rcases List.mem_cons.mp hmem with rfl | htail
    · split_ifs <;> simp
    · split_ifs <;> simp [ih htail, htail]

section StrictTotalOrder

variable [IsStrictTotalOrder Key lt]

theorem insertEntry_sorted (hsorted : entries.Pairwise fun first second ↦ lt first.1 second.1) :
    (insertEntry lt key value entries).Pairwise fun first second ↦ lt first.1 second.1 := by
  induction entries with
  | nil => simp [insertEntry]
  | cons head rest ih =>
    obtain ⟨hhead, hrest⟩ := List.pairwise_cons.mp hsorted
    unfold insertEntry
    split_ifs with hbefore hafter
    · refine List.pairwise_cons.mpr ⟨fun entry hentry ↦ ?_, ih hrest⟩
      rcases eq_or_mem_of_mem_insertEntry hentry with rfl | hold
      · exact hbefore
      · exact hhead entry hold
    · refine List.pairwise_cons.mpr ⟨fun entry hentry ↦ ?_, hsorted⟩
      rcases List.mem_cons.mp hentry with rfl | hold
      · exact hafter
      · exact trans_of lt hafter (hhead entry hold)
    · exact hsorted

/-- Insert without overwriting, as `std::map::insert` does. -/
def insert (container : OrderedMap Key Value lt) (key : Key) (value : Value) :
    OrderedMap Key Value lt where
  entries := insertEntry lt key value container.entries
  sorted := insertEntry_sorted container.sorted

/-- Whatever was stored before, the key is present after an insertion. -/
theorem key_mem_insert (container : OrderedMap Key Value lt) (key : Key) (value : Value) :
    ∃ stored, (key, stored) ∈ container.insert key value := by
  change ∃ stored, (key, stored) ∈ insertEntry lt key value container.entries
  induction container.entries with
  | nil => exact ⟨value, by simp [insertEntry]⟩
  | cons head rest ih =>
    unfold insertEntry
    split_ifs with hbefore hafter
    · obtain ⟨stored, hstored⟩ := ih
      exact ⟨stored, List.mem_cons_of_mem head hstored⟩
    · exact ⟨value, by simp⟩
    · obtain heq : head.1 = key :=
        (trichotomous_of lt head.1 key).resolve_left hbefore |>.resolve_right hafter
      exact ⟨head.2, by simp [← heq]⟩

theorem mem_insert :
    entry ∈ container.insert key value ↔
      entry ∈ container ∨ entry = (key, value) ∧ ∀ old ∈ container, old.1 ≠ key := by
  constructor
  · intro hmem
    by_cases hold : entry ∈ container
    · exact Or.inl hold
    obtain rfl := (eq_or_mem_of_mem_insertEntry hmem).resolve_right hold
    refine Or.inr ⟨rfl, fun old hin hkey ↦ hold ?_⟩
    -- an entry already stored under the key survives, so it is the one found there now
    have hstays : old ∈ container.insert key value := mem_insertEntry_of_mem hin
    exact entry_unique hstays hmem hkey ▸ hin
  · rintro (hold | ⟨rfl, habsent⟩)
    · exact mem_insertEntry_of_mem hold
    · obtain ⟨stored, hstored⟩ := container.key_mem_insert key value
      rcases eq_or_mem_of_mem_insertEntry hstored with heq | hold
      · exact heq ▸ hstored
      · exact absurd rfl (habsent _ hold)

/-- Overwrite the value at `key`, inserting it when absent, as `std::map::operator[]` does. -/
def assign [DecidableEq Key] (container : OrderedMap Key Value lt) (key : Key) (value : Value) :
    OrderedMap Key Value lt :=
  (container.insert key value).setValue key value

theorem mem_assign [DecidableEq Key] :
    entry ∈ container.assign key value ↔
      entry = (key, value) ∨ entry ∈ container ∧ entry.1 ≠ key := by
  rw [assign, mem_setValue (container.key_mem_insert key value), mem_insert]
  constructor
  · rintro (rfl | ⟨hold | ⟨rfl, _⟩, hne⟩)
    · exact Or.inl rfl
    · exact Or.inr ⟨hold, hne⟩
    · exact Or.inl rfl
  · rintro (rfl | ⟨hold, hne⟩)
    · exact Or.inl rfl
    · exact Or.inr ⟨Or.inl hold, hne⟩

/-! ## Lookups -/

section Find

variable [DecidableEq Key]

theorem find_assign (container : OrderedMap Key Value lt) (key other : Key) (value : Value) :
    (container.assign key value).find other =
      if other = key then some value else container.find other := by
  ext stored
  rw [find_eq_some_iff, mem_assign]
  split_ifs with heq
  · simp [heq, eq_comm]
  · simp [heq, find_eq_some_iff]

theorem find_insert (container : OrderedMap Key Value lt) (key other : Key) (value : Value) :
    (container.insert key value).find other =
      if other = key ∧ container.find key = none then some value else container.find other := by
  ext stored
  rw [find_eq_some_iff, mem_insert]
  split_ifs with habsent
  · obtain ⟨rfl, hnone⟩ := habsent
    have hfresh := find_eq_none_iff.mp hnone
    constructor
    · rintro (hold | ⟨hentry, -⟩)
      · exact absurd rfl (hfresh _ hold)
      · exact congrArg some (Prod.ext_iff.mp hentry).2.symm
    · intro hsame
      exact .inr ⟨Prod.ext rfl (Option.some.inj hsame).symm, hfresh⟩
  · rw [find_eq_some_iff]
    refine or_iff_left_of_imp ?_
    rintro ⟨hentry, hfresh⟩
    exact absurd ⟨(Prod.ext_iff.mp hentry).1, find_eq_none_iff.mpr hfresh⟩ habsent

theorem insert_eq_self (value : Value) (hpresent : (container.find key).isSome) :
    container.insert key value = container := by
  refine eq_of_find_eq fun other ↦ ?_
  rw [find_insert, if_neg]
  rintro ⟨-, hnone⟩
  rw [hnone] at hpresent
  cases hpresent

theorem assign_eq_self (hfind : container.find key = some value) :
    container.assign key value = container := by
  refine eq_of_find_eq fun other ↦ ?_
  rw [find_assign]
  split_ifs with heq
  · rw [heq, hfind]
  · rfl

/-! ## Many assignments -/

/-- Assign the entries one after another, so that a later one replaces an earlier one. -/
def assignAll (container : OrderedMap Key Value lt) (entries : List (Key × Value)) :
    OrderedMap Key Value lt :=
  entries.foldl (fun assigned entry ↦ assigned.assign entry.1 entry.2) container

/-- What a key leads to afterwards depends on the container only if the key was not assigned. -/
theorem find_assignAll_congr {other : OrderedMap Key Value lt}
    (hkey : key ∈ entries.map Prod.fst ∨ container.find key = other.find key) :
    (container.assignAll entries).find key = (other.assignAll entries).find key := by
  induction entries generalizing container other with
  | nil => simpa [assignAll] using hkey
  | cons entry entries ih =>
    simp only [assignAll, List.foldl_cons]
    apply ih
    rw [find_assign, find_assign]
    split_ifs with hsame
    · exact .inr rfl
    · rcases hkey with hmem | hfind
      · rw [List.map_cons, List.mem_cons] at hmem
        exact .inl (hmem.resolve_left hsame)
      · exact .inr hfind

theorem assignAll_eq_self (hmem : ∀ entry ∈ entries, entry ∈ container) :
    container.assignAll entries = container := by
  induction entries with
  | nil => rfl
  | cons entry entries ih =>
    have hfirst : container.assign entry.1 entry.2 = container :=
      assign_eq_self (find_eq_some_iff.mpr (hmem entry List.mem_cons_self))
    rw [assignAll, List.foldl_cons, hfirst]
    exact ih fun other hother ↦ hmem other (List.mem_cons_of_mem entry hother)

/-- Assigning to a container all of whose keys are assigned is like assigning to an empty one. -/
theorem assignAll_eq_of_forall_mem (hkeys : ∀ entry ∈ container, entry.1 ∈ entries.map Prod.fst) :
    container.assignAll entries = (empty : OrderedMap Key Value lt).assignAll entries := by
  refine eq_of_find_eq fun key ↦ find_assignAll_congr ?_
  cases hfind : container.find key with
  | none => exact .inr (by rw [find_empty])
  | some value => exact .inl (hkeys (key, value) (find_eq_some_iff.mp hfind))

/-- A container is rebuilt from its entries. -/
theorem assignAll_entries (container : OrderedMap Key Value lt) :
    (empty : OrderedMap Key Value lt).assignAll container.entries = container := by
  rw [← assignAll_eq_of_forall_mem fun entry hmem ↦ List.mem_map_of_mem hmem]
  exact assignAll_eq_self fun entry hmem ↦ hmem

end Find

/-- A key that is ordered before all others becomes the first entry. -/
theorem entries_assign_of_forall_lt [DecidableEq Key]
    (hbefore : ∀ entry ∈ container, lt key entry.1) :
    (container.assign key value).entries = (key, value) :: container.entries := by
  have hinsert : (container.insert key value).entries = (key, value) :: container.entries := by
    change insertEntry lt key value container.entries = _
    cases hentries : container.entries with
    | nil => rfl
    | cons head rest =>
      have hhead : lt key head.1 := hbefore head (by simp [mem_def, hentries])
      have hnot : ¬ lt head.1 key := fun hlt ↦ irrefl_of lt key (trans_of lt hhead hlt)
      rw [insertEntry, if_neg hnot, if_pos hhead]
  have hothers : (container.entries.map fun entry ↦
      if entry.1 = key then (key, value) else entry) = container.entries := by
    calc _ = container.entries.map id := by
          apply List.map_congr_left
          intro entry hentry
          have hne : entry.1 ≠ key := by
            intro hkey
            exact irrefl_of lt key (hkey ▸ hbefore entry hentry)
          exact if_neg hne
      _ = container.entries := List.map_id _
  simp only [assign, setValue, hinsert, List.map_cons, hothers, if_true]

end StrictTotalOrder

end Comparator

end OrderedMap

end NdnCxx
