import Mathlib.Data.List.Basic
import Mathlib.Data.List.Nodup
import Mathlib.Data.List.Lemmas
import Mathlib.Order.Basic
import Mathlib.Order.Lattice

/-!
# Tables with a default row for each owner

A database table whose rows have an integer primary key, an owner, a key with a unique index, a value
and a default mark. Triggers keep at most one marked row for each owner: marking a row first unmarks the
rows of its owner, and the first row inserted for an owner without a marked row is marked.

The two unique columns and the uniqueness of the mark are fields of the table, so every statement is
shown to keep them where it is defined. Each statement is specified by the rows it leaves.
-/

namespace NdnCxx

/-- A row of a table -/
structure DefaultTable.Row (Owner Key Value : Type*) where
  id : ℕ
  owner : Owner
  key : Key
  value : Value
  isDefault : Bool
  deriving DecidableEq

/-- A table with unique keys and at most one default row for each owner -/
structure DefaultTable (Owner Key Value : Type*) where
  rows : List (DefaultTable.Row Owner Key Value)
  ids : (rows.map DefaultTable.Row.id).Nodup
  keys : (rows.map DefaultTable.Row.key).Nodup
  defaults : ∀ first ∈ rows, ∀ second ∈ rows, first.isDefault = true → second.isDefault = true →
    first.owner = second.owner → first = second

namespace DefaultTable

variable {Owner Key Value : Type*}

def empty : DefaultTable Owner Key Value where
  rows := []
  ids := List.nodup_nil
  keys := List.nodup_nil
  defaults := nofun

variable (table : DefaultTable Owner Key Value)

theorem row_eq_of_key_eq {table : DefaultTable Owner Key Value} {first second : Row Owner Key Value}
    (hfirst : first ∈ table.rows) (hsecond : second ∈ table.rows) (hkey : first.key = second.key) :
    first = second :=
  List.inj_on_of_nodup_map table.keys hfirst hsecond hkey

theorem row_eq_of_id_eq {table : DefaultTable Owner Key Value} {first second : Row Owner Key Value}
    (hfirst : first ∈ table.rows) (hsecond : second ∈ table.rows) (hid : first.id = second.id) :
    first = second :=
  List.inj_on_of_nodup_map table.ids hfirst hsecond hid

/-! ## Deletion -/

def deleteWhere (condition : Row Owner Key Value → Bool) : DefaultTable Owner Key Value where
  rows := table.rows.filter fun row ↦ !condition row
  ids := table.ids.sublist (List.filter_sublist.map _)
  keys := table.keys.sublist (List.filter_sublist.map _)
  defaults := fun first hfirst second hsecond ↦
    table.defaults first (List.mem_of_mem_filter hfirst) second (List.mem_of_mem_filter hsecond)

variable {row : Row Owner Key Value}

@[simp]
theorem mem_deleteWhere {condition : Row Owner Key Value → Bool} :
    row ∈ (table.deleteWhere condition).rows ↔ row ∈ table.rows ∧ condition row = false := by
  simp [deleteWhere]

/-! ## Lookups -/

def nextId : ℕ := (table.rows.map Row.id).foldr max 0 + 1

theorem id_lt_nextId {table : DefaultTable Owner Key Value} (hrow : row ∈ table.rows) :
    row.id < table.nextId := by
  have hle : ∀ ids : List ℕ, ∀ id ∈ ids, id ≤ ids.foldr max 0 := by
    intro ids
    induction ids with
    | nil => simp
    | cons head rest ih =>
      intro id hid
      rcases List.mem_cons.mp hid with rfl | hlater
      · exact le_max_left _ _
      · exact (ih id hlater).trans (le_max_right _ _)
  exact Nat.lt_succ_of_le (hle _ row.id (List.mem_map_of_mem hrow))

/-- `NOT EXISTS (SELECT id FROM … WHERE is_default=1 AND owner=…)`, negated -/
def hasDefault [DecidableEq Owner] (owner : Owner) : Bool :=
  table.rows.any fun row ↦ row.isDefault && row.owner = owner

variable {owner : Owner}

theorem hasDefault_eq_true_iff [DecidableEq Owner] {table : DefaultTable Owner Key Value} :
    table.hasDefault owner = true ↔
      ∃ row ∈ table.rows, row.isDefault = true ∧ row.owner = owner := by
  simp [hasDefault]

section Keys

variable [DecidableEq Key]

def row? (key : Key) : Option (Row Owner Key Value) := table.rows.find? fun row ↦ row.key = key

variable {key : Key}

theorem row?_eq_some_iff {table : DefaultTable Owner Key Value} :
    table.row? key = some row ↔ row ∈ table.rows ∧ row.key = key := by
  constructor
  · intro hfind
    exact ⟨List.mem_of_find?_eq_some hfind, by simpa using List.find?_some hfind⟩
  · rintro ⟨hmem, hkey⟩
    cases hfind : table.row? key with
    | none => exact absurd hkey (by simpa using List.find?_eq_none.mp hfind row hmem)
    | some found =>
      have hfound : found.key = key := by simpa using List.find?_some hfind
      rw [row_eq_of_key_eq (List.mem_of_find?_eq_some hfind) hmem (hfound.trans hkey.symm)]

theorem row?_eq_none_iff {table : DefaultTable Owner Key Value} :
    table.row? key = none ↔ ∀ row ∈ table.rows, row.key ≠ key := by
  simp [row?]

variable [DecidableEq Owner]

/-! ## The default mark -/

/-- A row after the mark of its owner has moved to the row with a key -/
def Row.remark (owner : Owner) (key : Key) (row : Row Owner Key Value) : Row Owner Key Value :=
  { row with
    isDefault := if row.key = key then true else if row.owner = owner then false else row.isDefault }

@[simp]
theorem Row.remark_owner (owner : Owner) (key : Key) (row : Row Owner Key Value) :
    (row.remark owner key).owner = row.owner := rfl

/-- `UPDATE … SET is_default=1 WHERE key=…`: the trigger before the update of an unmarked row unmarks
the rows of its owner. -/
def setDefault (key : Key) : DefaultTable Owner Key Value :=
  match htarget : table.row? key with
  | none => table
  | some target =>
      if target.isDefault then table
      else
        { rows := table.rows.map (Row.remark target.owner key)
          ids := by
            rw [List.map_map]
            exact table.ids
          keys := by
            rw [List.map_map]
            exact table.keys
          defaults := by
            obtain ⟨hmem, hkey⟩ := row?_eq_some_iff.mp htarget
            have hmarked : ∀ row ∈ table.rows, (row.remark target.owner key).isDefault = true →
                row.key = key ∨ row.owner ≠ target.owner ∧ row.isDefault = true := by
              intro row _ hdefault
              simp only [Row.remark] at hdefault
              split_ifs at hdefault with hsame howner
              · exact .inl hsame
              · exact .inr ⟨howner, hdefault⟩
            have howner : ∀ row ∈ table.rows, row.key = key → row.owner = target.owner := by
              intro row hrow hsame
              rw [row_eq_of_key_eq hrow hmem (hsame.trans hkey.symm)]
            simp only [List.forall_mem_map, Row.remark_owner]
            intro first hfirst second hsecond hfirstDefault hsecondDefault hsame
            have heq : first = second := by
              rcases hmarked first hfirst hfirstDefault with hkey₁ | ⟨howner₁, hdefault₁⟩ <;>
                rcases hmarked second hsecond hsecondDefault with hkey₂ | ⟨howner₂, hdefault₂⟩
              · exact row_eq_of_key_eq hfirst hsecond (hkey₁.trans hkey₂.symm)
              · exact absurd (hsame.symm.trans (howner first hfirst hkey₁)) howner₂
              · exact absurd (hsame.trans (howner second hsecond hkey₂)) howner₁
              · exact table.defaults first hfirst second hsecond hdefault₁ hdefault₂ hsame
            rw [heq] }

theorem setDefault_eq_self {table : DefaultTable Owner Key Value} (hnone : table.row? key = none) :
    table.setDefault key = table := by
  unfold setDefault
  split
  · rfl
  · rename_i hsome
    rw [hnone] at hsome
    cases hsome

/-- Whether or not the row was marked, the mark of its owner is on it alone. -/
theorem mem_setDefault {table : DefaultTable Owner Key Value} {target : Row Owner Key Value}
    (htarget : target ∈ table.rows) :
    row ∈ (table.setDefault target.key).rows ↔
      ∃ old ∈ table.rows, row = old.remark target.owner target.key := by
  have hfound : table.row? target.key = some target := row?_eq_some_iff.mpr ⟨htarget, rfl⟩
  unfold setDefault
  split
  · rename_i hnone
    rw [hfound] at hnone
    cases hnone
  · rename_i found hsome
    obtain rfl := Option.some.inj (hfound.symm.trans hsome)
    split_ifs with hdefault
    · -- the only marked row of the owner keeps its mark, and no other row changes
      have hkept : ∀ old ∈ table.rows, old.remark target.owner target.key = old := by
        intro old hold
        have hmark : (old.remark target.owner target.key).isDefault = old.isDefault := by
          simp only [Row.remark]
          split_ifs with hsame howner
          · rw [row_eq_of_key_eq hold htarget hsame, hdefault]
          · cases hold' : old.isDefault with
            | false => rfl
            | true =>
              exact absurd (congrArg Row.key
                (table.defaults old hold target htarget hold' hdefault howner)) hsame
          · rfl
        exact congrArg (fun mark ↦ { old with isDefault := mark }) hmark
      constructor
      · exact fun hrow ↦ ⟨row, hrow, (hkept row hrow).symm⟩
      · rintro ⟨old, hold, rfl⟩
        rwa [hkept old hold]
    · simp only [List.mem_map, eq_comm]

/-! ## Insertion -/

def insertRow (owner : Owner) (key : Key) (value : Value) (hnew : table.row? key = none) :
    DefaultTable Owner Key Value where
  rows := table.rows ++ [⟨table.nextId, owner, key, value, false⟩]
  ids := by
    rw [List.map_append, List.nodup_append']
    refine ⟨table.ids, List.nodup_singleton _, ?_⟩
    simp only [List.map_cons, List.map_nil, List.disjoint_singleton, List.mem_map, not_exists, not_and]
    exact fun row hrow hid ↦ (id_lt_nextId hrow).ne hid
  keys := by
    rw [List.map_append, List.nodup_append']
    refine ⟨table.keys, List.nodup_singleton _, ?_⟩
    simp only [List.map_cons, List.map_nil, List.disjoint_singleton, List.mem_map, not_exists, not_and]
    exact row?_eq_none_iff.mp hnew
  defaults := by
    have hmarked : ∀ row ∈ table.rows ++ [⟨table.nextId, owner, key, value, false⟩],
        row.isDefault = true → row ∈ table.rows := by
      intro row hrow hdefault
      rcases List.mem_append.mp hrow with hold | hnewRow
      · exact hold
      · rw [List.mem_singleton.mp hnewRow] at hdefault
        cases hdefault
    intro first hfirst second hsecond hfirstDefault hsecondDefault
    exact table.defaults first (hmarked first hfirst hfirstDefault) second
      (hmarked second hsecond hsecondDefault) hfirstDefault hsecondDefault

/-- `INSERT INTO … VALUES …`: a second row with the key violates the unique index, and the trigger after
the insertion marks the row where its owner has no marked row. -/
def insert (owner : Owner) (key : Key) (value : Value) : DefaultTable Owner Key Value :=
  if hnew : table.row? key = none then
    let inserted := table.insertRow owner key value hnew
    if inserted.hasDefault owner then inserted else inserted.setDefault key
  else table

theorem insert_eq_self {table : DefaultTable Owner Key Value} (hrow : row ∈ table.rows)
    (owner : Owner) (value : Value) : table.insert owner row.key value = table := by
  have hfound : table.row? row.key = some row := row?_eq_some_iff.mpr ⟨hrow, rfl⟩
  rw [insert, dif_neg (by simp [hfound])]

variable {value : Value}

/-- A new row is marked exactly where its owner had no marked row, and no other row changes. -/
theorem mem_insert {table : DefaultTable Owner Key Value} (hnew : table.row? key = none) :
    row ∈ (table.insert owner key value).rows ↔
      row ∈ table.rows ∨ row = ⟨table.nextId, owner, key, value, !table.hasDefault owner⟩ := by
  have hmem : ∀ {old : Row Owner Key Value}, old ∈ (table.insertRow owner key value hnew).rows ↔
      old ∈ table.rows ∨ old = ⟨table.nextId, owner, key, value, false⟩ := by
    intro old
    simp [insertRow]
  have hsame : (table.insertRow owner key value hnew).hasDefault owner = table.hasDefault owner := by
    simp [hasDefault, insertRow]
  rw [insert, dif_pos hnew]
  dsimp only
  rw [hsame]
  split_ifs with hdefault
  · rw [hmem, hdefault, Bool.not_true]
  · have hnone := row?_eq_none_iff.mp hnew
    rw [mem_setDefault (hmem.mpr (.inr rfl))]
    have hkept : ∀ old ∈ table.rows, old.remark owner key = old := by
      intro old hold
      have hmark : (old.remark owner key).isDefault = old.isDefault := by
        simp only [Row.remark]
        rw [if_neg (hnone old hold)]
        split_ifs with howner
        · cases hmarked : old.isDefault with
          | false => rfl
          | true =>
            exact absurd (hasDefault_eq_true_iff.mpr ⟨old, hold, hmarked, howner⟩) hdefault
        · rfl
      exact congrArg (fun mark ↦ { old with isDefault := mark }) hmark
    constructor
    · rintro ⟨old, hold, rfl⟩
      rcases hmem.mp hold with hearlier | rfl
      · exact .inl (by rwa [hkept old hearlier])
      · exact .inr (by simp [Row.remark, hdefault])
    · rintro (hold | rfl)
      · exact ⟨row, hmem.mpr (.inl hold), (hkept row hold).symm⟩
      · exact ⟨_, hmem.mpr (.inr rfl), by simp [Row.remark, hdefault]⟩

/-! ## Rows up to the mark -/

/-- Moving a mark changes no other column. -/
theorem exists_mem_setDefault_iff {table : DefaultTable Owner Key Value}
    (condition : ℕ → Owner → Key → Value → Prop) :
    (∃ row ∈ (table.setDefault key).rows, condition row.id row.owner row.key row.value) ↔
      ∃ row ∈ table.rows, condition row.id row.owner row.key row.value := by
  cases hfind : table.row? key with
  | none => rw [setDefault_eq_self hfind]
  | some target =>
    obtain ⟨htarget, rfl⟩ := row?_eq_some_iff.mp hfind
    constructor
    · rintro ⟨row, hrow, hcondition⟩
      obtain ⟨old, hold, rfl⟩ := (mem_setDefault htarget).mp hrow
      exact ⟨old, hold, hcondition⟩
    · rintro ⟨old, hold, hcondition⟩
      exact ⟨_, (mem_setDefault htarget).mpr ⟨old, hold, rfl⟩, hcondition⟩

/-- An insertion keeps every row. -/
theorem mem_insert_of_mem {table : DefaultTable Owner Key Value} (hrow : row ∈ table.rows)
    (owner : Owner) (key : Key) (value : Value) : row ∈ (table.insert owner key value).rows := by
  cases hfind : table.row? key with
  | none => exact (mem_insert hfind).mpr (.inl hrow)
  | some found =>
    obtain ⟨hfound, rfl⟩ := row?_eq_some_iff.mp hfind
    rwa [insert_eq_self hfound]

/-- A row that was not there belongs to the owner it was inserted for. -/
theorem owner_of_mem_insert {table : DefaultTable Owner Key Value}
    (hrow : row ∈ (table.insert owner key value).rows) : row ∈ table.rows ∨ row.owner = owner := by
  cases hfind : table.row? key with
  | none =>
    rcases (mem_insert hfind).mp hrow with hold | rfl
    · exact .inl hold
    · exact .inr rfl
  | some found =>
    obtain ⟨hfound, rfl⟩ := row?_eq_some_iff.mp hfind
    rw [insert_eq_self hfound] at hrow
    exact .inl hrow

end Keys

end DefaultTable

end NdnCxx
