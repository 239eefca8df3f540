import Mathlib.Data.List.Nodup
import Mathlib.Data.List.Lemmas
import Mathlib.Data.Set.Basic

/-!
# Tables whose marks are moved by their callers

A database table with a primary key, whose rows have an owner, a value and a mark. No index and no
trigger looks at the marks: a caller moves the mark of an owner in two statements, one that unmarks the
rows of the owner and one that marks a row. The uniqueness of the primary key is a field of the table;
that an owner has one marked row at most is an invariant which every statement is shown to keep, and
under it the marks are a partial function from owners to rows.
-/

namespace NdnCxx

/-- A row of a table -/
structure MarkedTable.Row (Owner Key Value : Type*) where
  owner : Owner
  key : Key
  value : Value
  isMarked : Bool
  deriving DecidableEq

/-- A table with a primary key -/
structure MarkedTable (Owner Key Value : Type*) where
  rows : List (MarkedTable.Row Owner Key Value)
  keys : (rows.map MarkedTable.Row.key).Nodup

namespace MarkedTable

variable {Owner Key Value : Type*}

def empty : MarkedTable Owner Key Value := ⟨[], List.nodup_nil⟩

variable {table : MarkedTable Owner Key Value} {row : Row Owner Key Value}

theorem row_eq_of_key_eq {first second : Row Owner Key Value} (hfirst : first ∈ table.rows)
    (hsecond : second ∈ table.rows) (hkey : first.key = second.key) : first = second :=
  List.inj_on_of_nodup_map table.keys hfirst hsecond hkey

/-! ## Statements -/

section Statements

variable (table : MarkedTable Owner Key Value)

def deleteWhere (condition : Row Owner Key Value → Bool) : MarkedTable Owner Key Value where
  rows := table.rows.filter fun row ↦ !condition row
  keys := table.keys.sublist (List.filter_sublist.map _)

def setMark (isMarked : Bool) (condition : Row Owner Key Value → Bool) :
    MarkedTable Owner Key Value where
  rows := table.rows.map fun row ↦ if condition row then { row with isMarked := isMarked } else row
  keys := by
    have hsame : Row.key ∘ (fun row : Row Owner Key Value ↦
        if condition row then { row with isMarked := isMarked } else row) = Row.key := by
      funext row
      simp only [Function.comp]
      split <;> rfl
    rw [List.map_map, hsame]
    exact table.keys

section Owners

variable [DecidableEq Owner]

def marked? (owner : Owner) : Option (Row Owner Key Value) :=
  table.rows.find? fun row ↦ row.isMarked && row.owner = owner

def unmark (owner : Owner) : MarkedTable Owner Key Value :=
  table.setMark false fun row ↦ row.isMarked && row.owner = owner

end Owners

variable [DecidableEq Key]

/-- `SELECT … WHERE key=…` -/
def row? (key : Key) : Option (Row Owner Key Value) := table.rows.find? fun row ↦ row.key = key

def insertOrReplace (owner : Owner) (key : Key) (value : Value) : MarkedTable Owner Key Value where
  rows := (table.deleteWhere fun row ↦ row.key = key).rows ++ [⟨owner, key, value, false⟩]
  keys := by
    rw [List.map_append, List.nodup_append']
    refine ⟨(table.deleteWhere _).keys, List.nodup_singleton _, ?_⟩
    simp [deleteWhere]

def mark [DecidableEq Owner] (owner : Owner) (key : Key) : MarkedTable Owner Key Value :=
  table.setMark true fun row ↦ row.owner = owner && row.key = key

end Statements

/-! ## Rows after a statement -/

@[simp]
theorem mem_empty : row ∈ (empty : MarkedTable Owner Key Value).rows ↔ False := by simp [empty]

variable {condition : Row Owner Key Value → Bool} {key : Key} {owner : Owner}

@[simp]
theorem mem_deleteWhere :
    row ∈ (table.deleteWhere condition).rows ↔ row ∈ table.rows ∧ condition row = false := by
  simp [deleteWhere]

variable {Reading : Type*}

/-- The readings that a deletion leaves -/
theorem setOf_deleteWhere {read : Row Owner Key Value → Reading} (gone : Reading → Prop)
    (hgone : ∀ row ∈ table.rows, condition row = true ↔ gone (read row)) :
    {reading | ∃ row ∈ (table.deleteWhere condition).rows, read row = reading} =
      {reading ∈ {reading | ∃ row ∈ table.rows, read row = reading} | ¬ gone reading} := by
  ext reading
  constructor
  · rintro ⟨row, hrow, rfl⟩
    obtain ⟨hold, hkept⟩ := mem_deleteWhere.mp hrow
    exact ⟨⟨row, hold, rfl⟩, fun h ↦ by simp [(hgone row hold).mpr h] at hkept⟩
  · rintro ⟨⟨row, hrow, rfl⟩, hkept⟩
    exact ⟨row, mem_deleteWhere.mpr ⟨hrow, by simpa [← hgone row hrow] using hkept⟩, rfl⟩

variable {value : Value}

section Keys

variable [DecidableEq Key]

theorem row?_eq_some_iff : table.row? key = some row ↔ row ∈ table.rows ∧ row.key = key := by
  constructor
  · intro hfind
    exact ⟨List.mem_of_find?_eq_some hfind, by simpa using List.find?_some hfind⟩
  · rintro ⟨hmem, hkey⟩
    cases hfind : table.row? key with
    | none => exact absurd hkey (by simpa using List.find?_eq_none.mp hfind row hmem)
    | some found =>
      have hfound : found.key = key := by simpa using List.find?_some hfind
      rw [row_eq_of_key_eq (List.mem_of_find?_eq_some hfind) hmem (hfound.trans hkey.symm)]

theorem row?_eq_none_iff : table.row? key = none ↔ ∀ row ∈ table.rows, row.key ≠ key := by
  simp [row?]

theorem isSome_row?_iff : (table.row? key).isSome = true ↔ ∃ row ∈ table.rows, row.key = key := by
  simp [row?]

/-- A new row comes behind the old ones. -/
theorem rows_insertOrReplace (hnew : table.row? key = none) :
    (table.insertOrReplace owner key value).rows = table.rows ++ [⟨owner, key, value, false⟩] := by
  have hkept : (table.deleteWhere fun row ↦ row.key = key).rows = table.rows := by
    refine List.filter_eq_self.mpr fun row hrow ↦ ?_
    simpa using row?_eq_none_iff.mp hnew row hrow
  exact congrArg (· ++ [⟨owner, key, value, false⟩]) hkept

theorem mem_insertOrReplace (hnew : table.row? key = none) :
    row ∈ (table.insertOrReplace owner key value).rows ↔
      row ∈ table.rows ∨ row = ⟨owner, key, value, false⟩ := by
  rw [rows_insertOrReplace hnew, List.mem_append, List.mem_singleton]

end Keys

/-! ## One marked row for each owner -/

def IsMarkedOnce (table : MarkedTable Owner Key Value) : Prop :=
  ∀ first ∈ table.rows, ∀ second ∈ table.rows, first.isMarked = true → second.isMarked = true →
    first.owner = second.owner → first = second

theorem isMarkedOnce_empty : (empty : MarkedTable Owner Key Value).IsMarkedOnce := by
  intro first hfirst
  exact absurd hfirst (by simp)

theorem IsMarkedOnce.deleteWhere (hmarked : table.IsMarkedOnce)
    (condition : Row Owner Key Value → Bool) : (table.deleteWhere condition).IsMarkedOnce := by
  intro first hfirst second hsecond
  exact hmarked first (mem_deleteWhere.mp hfirst).1 second (mem_deleteWhere.mp hsecond).1

theorem IsMarkedOnce.insertOrReplace [DecidableEq Key] (hmarked : table.IsMarkedOnce)
    (hnew : table.row? key = none) : (table.insertOrReplace owner key value).IsMarkedOnce := by
  have hold : ∀ row ∈ (table.insertOrReplace owner key value).rows, row.isMarked = true →
      row ∈ table.rows := by
    intro row hrow hmark
    rcases (mem_insertOrReplace hnew).mp hrow with hmem | rfl
    · exact hmem
    · cases hmark
  intro first hfirst second hsecond hmark₁ hmark₂
  exact hmarked first (hold first hfirst hmark₁) second (hold second hsecond hmark₂) hmark₁ hmark₂

variable [DecidableEq Owner]

section

variable (hmarked : table.IsMarkedOnce)
include hmarked

theorem marked?_eq_some_iff :
    table.marked? owner = some row ↔
      row ∈ table.rows ∧ row.isMarked = true ∧ row.owner = owner := by
  constructor
  · intro hfind
    have hcondition := List.find?_some hfind
    simp only [Bool.and_eq_true, decide_eq_true_eq] at hcondition
    exact ⟨List.mem_of_find?_eq_some hfind, hcondition⟩
  · rintro ⟨hmem, hmark, howner⟩
    cases hfind : table.marked? owner with
    | none =>
      have hnone := List.find?_eq_none.mp hfind row hmem
      simp [hmark, howner] at hnone
    | some found =>
      have hcondition := List.find?_some hfind
      simp only [Bool.and_eq_true, decide_eq_true_eq] at hcondition
      rw [hmarked found (List.mem_of_find?_eq_some hfind) row hmem hcondition.1 hmark
        (hcondition.2.trans howner.symm)]

theorem marked?_deleteWhere :
    (table.deleteWhere condition).marked? owner =
      (table.marked? owner).filter fun row ↦ !condition row := by
  refine Option.ext fun row ↦ ?_
  rw [marked?_eq_some_iff (hmarked.deleteWhere condition), Option.filter_eq_some_iff,
    marked?_eq_some_iff hmarked, mem_deleteWhere, Bool.not_eq_true']
  tauto

/-- The readings of the marked rows that a deletion leaves -/
theorem map_marked?_deleteWhere {read : Row Owner Key Value → Reading} (gone : Reading → Prop)
    [DecidablePred gone]
    (hgone : ∀ row ∈ table.rows, row.owner = owner → (condition row = true ↔ gone (read row))) :
    ((table.deleteWhere condition).marked? owner).map read =
      ((table.marked? owner).map read).filter fun reading ↦ ¬ gone reading := by
  rw [marked?_deleteWhere hmarked]
  cases hrow : table.marked? owner with
  | none => rfl
  | some row =>
    obtain ⟨hmem, -, howner⟩ := (marked?_eq_some_iff hmarked).mp hrow
    have hrow := hgone row hmem howner
    by_cases h : gone (read row)
    · simp [Option.filter, hrow.mpr h, h]
    · simp [Option.filter, show condition row = false by simpa [← hrow] using h, h]

/-- Where whole owners are deleted, the others keep their marks. -/
theorem marked?_deleteWhere_owner (gone : Owner → Prop) [DecidablePred gone] (owner : Owner) :
    (table.deleteWhere fun row ↦ gone row.owner).marked? owner =
      if gone owner then none else table.marked? owner := by
  rw [marked?_deleteWhere hmarked]
  cases hrow : table.marked? owner with
  | none => simp
  | some row =>
    obtain ⟨-, -, rfl⟩ := (marked?_eq_some_iff hmarked).mp hrow
    by_cases h : gone row.owner <;> simp [Option.filter, h]

end

variable [DecidableEq Key]

theorem marked?_insertOrReplace {owner' : Owner} (hnew : table.row? key = none) :
    (table.insertOrReplace owner key value).marked? owner' = table.marked? owner' := by
  rw [marked?, rows_insertOrReplace hnew, List.find?_append]
  simp [marked?]

/-! ## Moving the mark -/

def Row.remark (owner : Owner) (key : Key) (row : Row Owner Key Value) : Row Owner Key Value :=
  if row.owner = owner then { row with isMarked := row.key = key } else row

@[simp]
theorem Row.remark_key (owner : Owner) (key : Key) (row : Row Owner Key Value) :
    (row.remark owner key).key = row.key := by
  unfold remark
  split <;> rfl

@[simp]
theorem Row.remark_owner (owner : Owner) (key : Key) (row : Row Owner Key Value) :
    (row.remark owner key).owner = row.owner := by
  unfold remark
  split <;> rfl

@[simp]
theorem Row.remark_value (owner : Owner) (key : Key) (row : Row Owner Key Value) :
    (row.remark owner key).value = row.value := by
  unfold remark
  split <;> rfl

theorem rows_mark_unmark (owner : Owner) (key : Key) :
    ((table.unmark owner).mark owner key).rows = table.rows.map (Row.remark owner key) := by
  change (table.rows.map _).map _ = _
  rw [List.map_map]
  refine List.map_congr_left fun row _ ↦ ?_
  obtain ⟨rowOwner, rowKey, value, isMarked⟩ := row
  by_cases howner : rowOwner = owner <;> by_cases hkey : rowKey = key <;> cases isMarked <;>
    simp [Row.remark, howner, hkey]

theorem mem_mark_unmark :
    row ∈ ((table.unmark owner).mark owner key).rows ↔
      ∃ old ∈ table.rows, old.remark owner key = row := by
  rw [rows_mark_unmark, List.mem_map]

/-- Moving a mark changes no other column. -/
theorem exists_mem_mark_unmark_iff (condition : Owner → Key → Value → Prop) :
    (∃ row ∈ ((table.unmark owner).mark owner key).rows, condition row.owner row.key row.value) ↔
      ∃ row ∈ table.rows, condition row.owner row.key row.value := by
  constructor
  · rintro ⟨row, hrow, hcondition⟩
    obtain ⟨old, hold, rfl⟩ := mem_mark_unmark.mp hrow
    exact ⟨old, hold, by simpa using hcondition⟩
  · rintro ⟨row, hrow, hcondition⟩
    exact ⟨_, mem_mark_unmark.mpr ⟨row, hrow, rfl⟩, by simpa using hcondition⟩

theorem IsMarkedOnce.mark_unmark (hmarked : table.IsMarkedOnce) (owner : Owner) (key : Key) :
    ((table.unmark owner).mark owner key).IsMarkedOnce := by
  intro first hfirst second hsecond hmark₁ hmark₂ howner
  obtain ⟨old₁, hold₁, rfl⟩ := mem_mark_unmark.mp hfirst
  obtain ⟨old₂, hold₂, rfl⟩ := mem_mark_unmark.mp hsecond
  rw [Row.remark_owner, Row.remark_owner] at howner
  have hsame : old₁ = old₂ := by
    by_cases howner₁ : old₁.owner = owner
    · -- both are the row that got the mark
      have howner₂ : old₂.owner = owner := howner.symm.trans howner₁
      simp only [Row.remark, if_pos howner₁, if_pos howner₂, decide_eq_true_eq] at hmark₁ hmark₂
      exact row_eq_of_key_eq hold₁ hold₂ (hmark₁.trans hmark₂.symm)
    · have howner₂ : old₂.owner ≠ owner := howner ▸ howner₁
      simp only [Row.remark, if_neg howner₁, if_neg howner₂] at hmark₁ hmark₂
      exact hmarked old₁ hold₁ old₂ hold₂ hmark₁ hmark₂ howner
  rw [hsame]

/-- The owner's marked row is the one with the key, and the other owners keep theirs. -/
theorem marked?_mark_unmark (hmarked : table.IsMarkedOnce) {target : Row Owner Key Value}
    (htarget : target ∈ table.rows) (owner : Owner) :
    ((table.unmark target.owner).mark target.owner target.key).marked? owner =
      if owner = target.owner then some { target with isMarked := true }
      else table.marked? owner := by
  refine Option.ext fun row ↦ ?_
  rw [marked?_eq_some_iff (hmarked.mark_unmark _ _), mem_mark_unmark]
  split_ifs with howner
  · subst howner
    rw [Option.some.injEq]
    constructor
    · rintro ⟨⟨old, hold, rfl⟩, hmark, hsame⟩
      rw [Row.remark_owner] at hsame
      simp only [Row.remark, if_pos hsame, decide_eq_true_eq] at hmark
      rw [row_eq_of_key_eq hold htarget hmark, Row.remark, if_pos rfl]
      simp
    · rintro rfl
      exact ⟨⟨target, htarget, by simp [Row.remark]⟩, rfl, rfl⟩
  · rw [marked?_eq_some_iff hmarked]
    constructor
    · rintro ⟨⟨old, hold, rfl⟩, hmark, hsame⟩
      rw [Row.remark_owner] at hsame
      have hother : old.owner ≠ target.owner := fun heq ↦ howner (hsame.symm.trans heq)
      rw [Row.remark, if_neg hother] at hmark ⊢
      exact ⟨hold, hmark, hsame⟩
    · rintro ⟨hmem, hmark, hsame⟩
      have hother : row.owner ≠ target.owner := fun heq ↦ howner (hsame.symm.trans heq)
      exact ⟨⟨row, hmem, if_neg hother⟩, hmark, hsame⟩

end MarkedTable

end NdnCxx
