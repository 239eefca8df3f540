import NdnCxx.Foundation.DefaultTable

/-!
# Tables that represent maps

A map from indices to values and a map from holders to default indices are kept in a table with default
marks: an index is written into the column of the keys, the holder of an entry is told by its index and
its value, and the owner of the row is related to that holder. Each statement on the table is followed
by the change of the maps that keeps the representation.
-/

namespace NdnCxx

namespace DefaultTable

variable {Owner Key Value Index Holder : Type*}

/-- Every owner is related to one holder and every holder to one owner. -/
def IsPairing (owns : Owner → Holder → Prop) : Prop :=
  ∀ {owner other held otherHeld}, owns owner held → owns other otherHeld →
    (owner = other ↔ held = otherHeld)

variable {owner : Owner} {id : ℕ}

theorem IsPairing.iff {owns : Owner → Holder → Prop} (hunique : IsPairing owns)
    {held other : Holder} (howns : owns owner held) : owns owner other ↔ held = other := by
  constructor
  · exact fun hother ↦ (hunique howns hother).mp rfl
  · rintro rfl
    exact howns

/-- The row with a primary key has the column of this index. -/
def Identifies (column : Index → Key) (table : DefaultTable Owner Key Value) (id : ℕ)
    (index : Index) : Prop :=
  ∃ row ∈ table.rows, row.id = id ∧ row.key = column index

theorem isPairing_identifies {column : Index → Key} {table : DefaultTable Owner Key Value}
    (hcolumn : Function.Injective column) : IsPairing (table.Identifies column) := by
  rintro _ _ index other ⟨first, hmem, rfl, hkey⟩ ⟨second, hmem', rfl, hkey'⟩
  constructor
  · intro hid
    rw [row_eq_of_id_eq hmem hmem' hid, hkey'] at hkey
    exact (hcolumn hkey).symm
  · rintro rfl
    rw [row_eq_of_key_eq hmem hmem' (hkey.trans hkey'.symm)]

/-- The rows of the table are the entries of a map, and its marked rows those of a map of defaults. -/
structure Represents (column : Index → Key) (holder : Index → Value → Holder)
    (owns : Owner → Holder → Prop) (table : DefaultTable Owner Key Value)
    (entries : Index → Option Value) (defaults : Holder → Option Index) : Prop where
  entry : ∀ {index value}, entries index = some value ↔
    ∃ row ∈ table.rows, row.key = column index ∧ row.value = value
  default : ∀ {held index}, defaults held = some index ↔
    ∃ row ∈ table.rows, row.key = column index ∧ row.isDefault = true ∧
      holder index row.value = held
  owner : ∀ row ∈ table.rows, ∃ index, row.key = column index ∧
    owns row.owner (holder index row.value)

variable {index : Index} {condition : Row Owner Key Value → Bool}

section Represents

variable {column : Index → Key} {holder : Index → Value → Holder} {owns owns' : Owner → Holder → Prop}
  {table : DefaultTable Owner Key Value} {entries entries' : Index → Option Value}
  {defaults defaults' : Holder → Option Index}

theorem represents_empty : (empty : DefaultTable Owner Key Value).Represents column holder owns
    (fun _ ↦ none) (fun _ ↦ none) where
  entry := by simp [empty]
  default := by simp [empty]
  owner := nofun

theorem Represents.mono (hrepresents : table.Represents column holder owns entries defaults)
    (howns : ∀ {owner held}, owns owner held → owns' owner held) :
    table.Represents column holder owns' entries defaults where
  entry := hrepresents.entry
  default := hrepresents.default
  owner := fun row hrow ↦
    let ⟨index, hkey, howner⟩ := hrepresents.owner row hrow
    ⟨index, hkey, howns howner⟩

variable {row : Row Owner Key Value}

section

variable (hrepresents : table.Represents column holder owns entries defaults)
include hrepresents

/-- An index that has an entry has the value of its row. -/
theorem Represents.entry_of_mem (hrow : row ∈ table.rows) (hkey : row.key = column index) :
    entries index = some row.value :=
  hrepresents.entry.mpr ⟨row, hrow, hkey, rfl⟩

theorem Represents.owns_of_mem (hcolumn : Function.Injective column) (hrow : row ∈ table.rows)
    (hkey : row.key = column index) : owns row.owner (holder index row.value) := by
  obtain ⟨other, hother, howner⟩ := hrepresents.owner row hrow
  rwa [hcolumn (hkey.symm.trans hother)]

/-- A default has an entry, of its holder. -/
theorem Represents.entry_of_default {held : Holder} (hdefault : defaults held = some index) :
    ∃ value, entries index = some value ∧ holder index value = held := by
  obtain ⟨row, hrow, hkey, -, hheld⟩ := hrepresents.default.mp hdefault
  exact ⟨row.value, hrepresents.entry_of_mem hrow hkey, hheld⟩

end

/-! ## Lookups -/

theorem Represents.row?_eq [DecidableEq Key]
    (hrepresents : table.Represents column holder owns entries defaults) (index : Index) :
    (table.row? (column index)).map Row.value = entries index := by
  refine Option.ext fun value ↦ ?_
  simp only [Option.map_eq_some_iff, row?_eq_some_iff, hrepresents.entry, and_assoc]

/-- A search for the marked row of a holder finds the default. -/
theorem Represents.find?_default (hrepresents : table.Represents column holder owns entries defaults)
    (condition : Row Owner Key Value → Bool) (held : Holder)
    (hcondition : ∀ row ∈ table.rows, ∀ index, row.key = column index →
      (condition row = true ↔ row.isDefault = true ∧ holder index row.value = held)) :
    table.rows.find? condition = none ∧ defaults held = none ∨
      ∃ row index, table.rows.find? condition = some row ∧ row.key = column index ∧
        defaults held = some index ∧ entries index = some row.value := by
  cases hfind : table.rows.find? condition with
  | none =>
    refine .inl ⟨rfl, Option.eq_none_iff_forall_ne_some.mpr fun index hdefault ↦ ?_⟩
    obtain ⟨row, hrow, hkey, hmark⟩ := hrepresents.default.mp hdefault
    exact List.find?_eq_none.mp hfind row hrow ((hcondition row hrow index hkey).mpr hmark)
  | some row =>
    have hrow := List.mem_of_find?_eq_some hfind
    obtain ⟨index, hkey, -⟩ := hrepresents.owner row hrow
    obtain ⟨hmark, hheld⟩ := (hcondition row hrow index hkey).mp (List.find?_some hfind)
    exact .inr ⟨row, index, rfl, hkey, hrepresents.default.mpr ⟨row, hrow, hkey, hmark, hheld⟩,
      hrepresents.entry_of_mem hrow hkey⟩

/-! ## Statements -/

theorem Represents.deleteWhere (hrepresents : table.Represents column holder owns entries defaults)
    (removed : Index → Value → Prop)
    (hcondition : ∀ row ∈ table.rows, ∀ index, row.key = column index →
      (condition row = true ↔ removed index row.value))
    (hentries : ∀ {index value}, entries' index = some value ↔
      entries index = some value ∧ ¬ removed index value)
    (hdefaults : ∀ {held index}, defaults' held = some index ↔
      defaults held = some index ∧ ∀ value ∈ entries index, ¬ removed index value)
    (howns : ∀ {owner index value}, ¬ removed index value → owns owner (holder index value) →
      owns' owner (holder index value)) :
    (table.deleteWhere condition).Represents column holder owns' entries' defaults' := by
  have hrows {row : Row Owner Key Value} {index : Index} (hkey : row.key = column index) :
      row ∈ (table.deleteWhere condition).rows ↔
        row ∈ table.rows ∧ ¬ removed index row.value := by
    rw [mem_deleteWhere]
    refine and_congr_right fun hrow ↦ ?_
    rw [← hcondition row hrow index hkey, Bool.not_eq_true]
  refine ⟨fun {index value} ↦ ?_, fun {held index} ↦ ?_, fun row hrow ↦ ?_⟩
  · rw [hentries, hrepresents.entry]
    constructor
    · rintro ⟨⟨row, hrow, hkey, rfl⟩, hkept⟩
      exact ⟨row, (hrows hkey).mpr ⟨hrow, hkept⟩, hkey, rfl⟩
    · rintro ⟨row, hrow, hkey, rfl⟩
      obtain ⟨hold, hkept⟩ := (hrows hkey).mp hrow
      exact ⟨⟨row, hold, hkey, rfl⟩, hkept⟩
  · rw [hdefaults]
    constructor
    · rintro ⟨hdefault, hkept⟩
      obtain ⟨row, hrow, hkey, hmark⟩ := hrepresents.default.mp hdefault
      exact ⟨row, (hrows hkey).mpr ⟨hrow, hkept _ (hrepresents.entry_of_mem hrow hkey)⟩, hkey,
        hmark⟩
    · rintro ⟨row, hrow, hkey, hmark⟩
      obtain ⟨hold, hkept⟩ := (hrows hkey).mp hrow
      refine ⟨hrepresents.default.mpr ⟨row, hold, hkey, hmark⟩, fun value hvalue ↦ ?_⟩
      rwa [← Option.some.inj ((hrepresents.entry_of_mem hold hkey).symm.trans hvalue)]
  · obtain ⟨index, hkey, howner⟩ :=
      hrepresents.owner row ((mem_deleteWhere table).mp hrow).1
    exact ⟨index, hkey, howns ((hrows hkey).mp hrow).2 howner⟩

variable [DecidableEq Owner]

theorem Represents.hasDefault_eq
    (hrepresents : table.Represents column holder owns entries defaults)
    (hcolumn : Function.Injective column) (hunique : IsPairing owns) {held : Holder}
    (howns : owns owner held) : table.hasDefault owner = (defaults held).isSome := by
  rw [Bool.eq_iff_iff, hasDefault_eq_true_iff, Option.isSome_iff_exists]
  constructor
  · rintro ⟨row, hrow, hmark, rfl⟩
    obtain ⟨index, hkey, howner⟩ := hrepresents.owner row hrow
    exact ⟨index, hrepresents.default.mpr
      ⟨row, hrow, hkey, hmark, (hunique howner howns).mp rfl⟩⟩
  · rintro ⟨index, hdefault⟩
    obtain ⟨row, hrow, hkey, hmark, hheld⟩ := hrepresents.default.mp hdefault
    exact ⟨row, hrow, hmark, (hunique (hrepresents.owns_of_mem hcolumn hrow hkey) howns).mpr hheld⟩

variable [DecidableEq Key] [DecidableEq Holder]

/-- A new row is an entry, and the default of its holder if that had none. -/
theorem Represents.insert [DecidableEq Index]
    (hrepresents : table.Represents column holder owns entries defaults)
    (hcolumn : Function.Injective column) (hunique : IsPairing owns) {value : Value}
    (hnew : entries index = none) (howns : owns owner (holder index value))
    (hentries : ∀ other, entries' other = if other = index then some value else entries other)
    (hdefaults : ∀ held, defaults' held =
      if held = holder index value ∧ defaults held = none then some index else defaults held) :
    (table.insert owner (column index) value).Represents column holder owns entries' defaults' := by
  have habsent : ∀ row ∈ table.rows, row.key ≠ column index := by
    intro row hrow hkey
    rw [hrepresents.entry_of_mem hrow hkey] at hnew
    cases hnew
  have hrows {row : Row Owner Key Value} : row ∈ (table.insert owner (column index) value).rows ↔
      row ∈ table.rows ∨ row = ⟨table.nextId, owner, column index, value,
        !(defaults (holder index value)).isSome⟩ := by
    rw [← hrepresents.hasDefault_eq hcolumn hunique howns]
    exact mem_insert (row?_eq_none_iff.mpr habsent)
  refine ⟨fun {other stored} ↦ ?_, fun {held other} ↦ ?_, fun row hrow ↦ ?_⟩
  · simp only [hentries, hrows, or_and_right, exists_or, exists_eq_left, hcolumn.eq_iff,
      ← hrepresents.entry]
    split_ifs with hsame
    · subst hsame
      simp [hnew]
    · simp [Ne.symm hsame]
  · simp only [hdefaults, hrows, or_and_right, exists_or, exists_eq_left, hcolumn.eq_iff,
      ← hrepresents.default]
    by_cases hheld : held = holder index value
    · subst hheld
      cases hdefault : defaults (holder index value) with
      | none =>
        have hholder : index = other → holder other value = holder index value := by
          rintro rfl
          rfl
        simpa using hholder
      | some stored => simp
    · have hother : ¬ (index = other ∧ holder other value = held) := by
        rintro ⟨rfl, rfl⟩
        exact hheld rfl
      have hunmarked : ¬ (index = other ∧ (!(defaults (holder index value)).isSome) = true ∧
          holder other value = held) := fun h ↦ hother ⟨h.1, h.2.2⟩
      simp only [hheld, false_and, if_false, hunmarked, or_false]
  · rcases hrows.mp hrow with hold | rfl
    · exact hrepresents.owner row hold
    · exact ⟨index, rfl, howns⟩

/-- The mark of the holder moves to an entry that is there. -/
theorem Represents.setDefault (hrepresents : table.Represents column holder owns entries defaults)
    (hcolumn : Function.Injective column) (hunique : IsPairing owns) {value : Value}
    (hentry : entries index = some value) (hdefaults : ∀ held, defaults' held =
      if held = holder index value then some index else defaults held) :
    (table.setDefault (column index)).Represents column holder owns entries defaults' := by
  obtain ⟨target, htarget, hkey, rfl⟩ := hrepresents.entry.mp hentry
  have howner := hrepresents.owns_of_mem hcolumn htarget hkey
  have hrows {row : Row Owner Key Value} : row ∈ (table.setDefault (column index)).rows ↔
      ∃ old ∈ table.rows, row = old.remark target.owner (column index) := by
    rw [← hkey]
    exact mem_setDefault htarget
  refine ⟨fun {other stored} ↦ ?_, fun {held other} ↦ ?_, fun row hrow ↦ ?_⟩
  · exact hrepresents.entry.trans
      (exists_mem_setDefault_iff fun _ _ key value ↦ key = column other ∧ value = stored).symm
  · rw [hdefaults]
    split_ifs with hheld
    · subst hheld
      constructor
      · rintro ⟨⟩
        exact ⟨_, hrows.mpr ⟨target, htarget, rfl⟩, hkey, by simp [Row.remark, hkey], rfl⟩
      · rintro ⟨row, hrow, hname, hmark, hholder⟩
        obtain ⟨old, hold, rfl⟩ := hrows.mp hrow
        simp only [Row.remark] at hname hmark hholder
        split_ifs at hmark with hsame hother
        · rw [hcolumn (hsame.symm.trans hname)]
        · exact absurd ((hunique (hrepresents.owns_of_mem hcolumn hold hname) howner).mpr hholder)
            hother
    · rw [hrepresents.default]
      constructor
      · rintro ⟨row, hrow, hname, hmark, hholder⟩
        have hother : row.owner ≠ target.owner := by
          intro hsame
          exact hheld (hholder.symm.trans
            ((hunique (hrepresents.owns_of_mem hcolumn hrow hname) howner).mp hsame))
        exact ⟨_, hrows.mpr ⟨row, hrow, rfl⟩, hname, by simp [Row.remark, hother, hmark], hholder⟩
      · rintro ⟨row, hrow, hname, hmark, hholder⟩
        obtain ⟨old, hold, rfl⟩ := hrows.mp hrow
        simp only [Row.remark] at hname hmark hholder
        refine ⟨old, hold, hname, ?_, hholder⟩
        split_ifs at hmark with hsame hother
        · refine absurd ?_ hheld
          obtain rfl := row_eq_of_key_eq hold htarget (hsame.trans hkey.symm)
          rw [← hholder, hcolumn (hname.symm.trans hsame)]
        · exact hmark
  · obtain ⟨old, hold, rfl⟩ := hrows.mp hrow
    exact hrepresents.owner old hold

end Represents

/-! ## Rows that others refer to -/

theorem Identifies.insert [DecidableEq Owner] [DecidableEq Key] {column : Index → Key}
    {table : DefaultTable Owner Key Value} (hidentifies : table.Identifies column id index)
    (owner : Owner) (key : Key) (value : Value) :
    (table.insert owner key value).Identifies column id index :=
  let ⟨row, hrow, hboth⟩ := hidentifies
  ⟨row, mem_insert_of_mem hrow owner key value, hboth⟩

theorem identifies_setDefault_iff [DecidableEq Owner] [DecidableEq Key] {column : Index → Key}
    {table : DefaultTable Owner Key Value} {key : Key} :
    (table.setDefault key).Identifies column id index ↔ table.Identifies column id index :=
  exists_mem_setDefault_iff fun rowId _ rowKey _ ↦ rowId = id ∧ rowKey = column index

theorem Identifies.deleteWhere {column : Index → Key} {table : DefaultTable Owner Key Value}
    (hidentifies : table.Identifies column id index)
    (hkept : ∀ row ∈ table.rows, row.key = column index → condition row = false) :
    (table.deleteWhere condition).Identifies column id index :=
  let ⟨row, hrow, hid, hkey⟩ := hidentifies
  ⟨row, (mem_deleteWhere table).mpr ⟨hrow, hkept row hrow hkey⟩, hid, hkey⟩

end DefaultTable

end NdnCxx
