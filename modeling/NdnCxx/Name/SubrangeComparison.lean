import NdnCxx.Name.SubName

/-!
# Comparison of ranges of components

`Name::compare` compares ranges of two names in place. It takes as many components as there are behind
a position, by a subtraction in 64 bits that wraps around for a position behind the end, and then walks
on from there. `Name::getSubName`, to which it is documented to be equivalent, stops at the end of the
name. In both the numbers of components are subtracted from each other and narrowed to an `int`.
-/

namespace NdnCxx

/-- The difference of two numbers of type `size_t` -/
def subUInt64 (number other : ℕ) : ℕ := (number + (2 ^ 64 - other)) % 2 ^ 64

namespace Name

/-- The loop of `Name::compare`; `none` is an exception of `Name::at`. -/
def compareComponents (name : Name) (pos1 : ℕ) (other : Name) (pos2 : ℕ) :
    ℕ → ℕ → Option Ordering
  | 0, _ => some .eq
  | rounds + 1, i => do
      let component ← name.atOrThrow (toInt64 (pos1 + i))
      let component' ← other.atOrThrow (toInt64 (pos2 + i))
      match component.compare component' with
      | .eq => compareComponents name pos1 other pos2 rounds (i + 1)
      | unequal => some unequal

/-- `Name::compare` of two ranges, by its sign -/
def compareSubrange (name : Name) (pos1 count1 : ℕ) (other : Name) (pos2 count2 : ℕ) :
    Option Ordering := do
  let count1 := min count1 (subUInt64 name.length pos1)
  let count2 := min count2 (subUInt64 other.length pos2)
  let comp ← compareComponents name pos1 other pos2 (min count1 count2) 0
  match comp with
  | .eq => some (Ord.compare (toInt32 (subUInt64 count1 count2)) 0)
  | unequal => some unequal

/-- `Name::compare(const Name&)`, as it is defined by the other one -/
def compareWhole (name other : Name) : Option Ordering :=
  name.compareSubrange 0 npos other 0 npos

/-! ## The components that are walked over -/

/-- The comparison takes exactly these components for the range. -/
structure Walks (name : Name) (pos count : ℕ) (walked : Name) : Prop where
  length_eq : min count (subUInt64 name.length pos) = walked.length
  atOrThrow_eq : ∀ i (hi : i < walked.length), name.atOrThrow (toInt64 (pos + i)) = some walked[i]

def firstDifference : Name → Name → Ordering
  | component :: rest, component' :: rest' =>
      match component.compare component' with
      | .eq => firstDifference rest rest'
      | unequal => unequal
  | _, _ => .eq

/-- The sign for two lists of components, their lengths narrowed as in the code -/
def signOf (walked walked' : Name) : Ordering :=
  match firstDifference walked walked' with
  | .eq => Ord.compare (toInt32 (subUInt64 walked.length walked'.length)) 0
  | unequal => unequal

variable {name : Name} {count : ℕ} {other : Name} {back : ℕ}

theorem compareComponents_eq {walked walked' : Name} {pos1 pos2 : ℕ}
    (hwalked : ∀ i (hi : i < walked.length), name.atOrThrow (toInt64 (pos1 + i)) = some walked[i])
    (hwalked' : ∀ i (hi : i < walked'.length),
      other.atOrThrow (toInt64 (pos2 + i)) = some walked'[i]) {rounds i : ℕ}
    (hrounds : i + rounds = min walked.length walked'.length) :
    compareComponents name pos1 other pos2 rounds i =
      some (firstDifference (walked.drop i) (walked'.drop i)) := by
  induction rounds generalizing i with
  | zero =>
    have hend : walked.drop i = [] ∨ walked'.drop i = [] := by
      rw [List.drop_eq_nil_iff, List.drop_eq_nil_iff]
      omega
    rcases hend with hend | hend
    · rw [hend]
      rfl
    · rw [hend]
      cases walked.drop i <;> rfl
  | succ rounds ih =>
    have hi : i < walked.length := by omega
    have hi' : i < walked'.length := by omega
    rw [compareComponents, hwalked i hi, hwalked' i hi', List.drop_eq_getElem_cons hi,
      List.drop_eq_getElem_cons hi', firstDifference, ih (by omega)]
    simp only [Option.bind_eq_bind, Option.bind_some]
    cases walked[i].compare walked'[i] <;> rfl

/-- The comparison of two ranges is that of the components walked over. -/
theorem compareSubrange_eq {walked walked' : Name} {pos1 count1 pos2 count2 : ℕ}
    (hwalks : Walks name pos1 count1 walked) (hwalks' : Walks other pos2 count2 walked') :
    name.compareSubrange pos1 count1 other pos2 count2 = some (signOf walked walked') := by
  have hloop := compareComponents_eq hwalks.atOrThrow_eq hwalks'.atOrThrow_eq
    (Nat.zero_add (min walked.length walked'.length))
  rw [List.drop_zero, List.drop_zero] at hloop
  rw [compareSubrange, hwalks.length_eq, hwalks'.length_eq, hloop, signOf]
  cases firstDifference walked walked' <;> rfl

/-- A whole name is walked over from its beginning to its end. -/
theorem walks_whole (hsize : name.length < 2 ^ 63) : Walks name 0 npos name where
  length_eq := by
    unfold npos subUInt64
    omega
  atOrThrow_eq := by
    intro i hi
    rw [Nat.zero_add]
    exact atOrThrow_of_lt hsize hi

theorem compareWhole_eq (hsize : name.length < 2 ^ 63) (hsize' : other.length < 2 ^ 63) :
    name.compareWhole other = some (signOf name other) :=
  compareSubrange_eq (walks_whole hsize) (walks_whole hsize')

/-! ## Ranges that are sub-names -/

/-- The range is empty, or it begins inside the name or at its end and its own end does not wrap around,
or its position is a negative index and the range does not go beyond the end of the name. -/
def IsRegular (size pos count : ℕ) : Prop :=
  count = 0 ∨ (pos ≤ size ∧ (pos = size ∨ count = npos ∨ pos + count < 2 ^ 64)) ∨
    (2 ^ 64 ≤ pos + size ∧ pos + count ≤ 2 ^ 64)

instance (size pos count : ℕ) : Decidable (IsRegular size pos count) :=
  inferInstanceAs (Decidable (_ ∨ _))

/-- The comparison returns, and has the sign of the comparison of the sub-names. -/
def Agrees (name : Name) (pos1 count1 : ℕ) (other : Name) (pos2 count2 : ℕ) : Prop :=
  ∃ sub sub' sign, name.getSubNameAt (toInt64 pos1) count1 = some sub ∧
    other.getSubNameAt (toInt64 pos2) count2 = some sub' ∧
    name.compareSubrange pos1 count1 other pos2 count2 = some sign ∧
    sub.compareWhole sub' = some sign

variable {pos size : ℕ}

/-- A part of the name that begins at `start` is walked over where the indices lead there. -/
theorem walks_part {start length : ℕ} (hend : start + length ≤ name.length)
    (hlength : min count (subUInt64 name.length pos) = length)
    (hindex : ∀ i < length, name.atOrThrow (toInt64 (pos + i)) = name[start + i]?) :
    Walks name pos count ((name.drop start).take length) where
  length_eq := by
    rw [hlength, List.length_take, List.length_drop]
    omega
  atOrThrow_eq := by
    intro i hi
    rw [List.length_take, List.length_drop] at hi
    rw [hindex i (by omega), List.getElem_take, List.getElem_drop, List.getElem?_eq_getElem]

/-- An index that was negative before its conversion counts from the end. -/
theorem atOrThrow_negative (hsize : name.length < 2 ^ 63) (hpos : 0 < back)
    (hback : back ≤ name.length) :
    name.atOrThrow (toInt64 (2 ^ 64 - back)) = name[name.length - back]? := by
  have hindex : toInt64 (2 ^ 64 - back) = -(back : ℤ) := by
    unfold toInt64
    split_ifs <;> omega
  have hbound : toUInt64 (-(-(back : ℤ))) = back := by
    unfold toUInt64
    omega
  have hposition : (name.length + -(back : ℤ)).toNat = name.length - back := by omega
  rw [atOrThrow, hindex, hbound, if_neg (by omega), get, if_neg (by omega), if_pos (by omega),
    hposition]

theorem toInt64_of_lt {number : ℕ} (hnumber : number < 2 ^ 63) : toInt64 number = number := by
  unfold toInt64
  rw [if_pos (by omega), Nat.mod_eq_of_lt (by omega)]

section

variable (hsize : name.length < 2 ^ 63)
include hsize

theorem walks_inside (hpos : pos ≤ name.length) (hcount : count < 2 ^ 64)
    (hend : pos = name.length ∨ count = npos ∨ pos + count < 2 ^ 64) :
    ∃ sub, name.getSubNameAt (toInt64 pos) count = some sub ∧ Walks name pos count sub := by
  have hstart : name.subNameStart (toInt64 pos) = pos := by
    rw [toInt64_of_lt (by omega), subNameStart, if_neg (by omega)]
    omega
  have hlength : min count (subUInt64 name.length pos) = name.subNameEnd pos count - pos := by
    unfold subUInt64 subNameEnd npos at *
    split_ifs <;> omega
  have hinside : pos + (name.subNameEnd pos count - pos) ≤ name.length := by
    rw [← hlength]
    unfold subUInt64
    omega
  rw [getSubNameAt_eq hsize, hstart]
  refine ⟨_, rfl, walks_part hinside hlength ?_⟩
  intro i hi
  rw [atOrThrow_of_lt hsize (by omega), List.getElem?_eq_getElem]

theorem subNameStart_of_back (hpos : 0 < back) (hback : back ≤ name.length) :
    name.subNameStart (toInt64 (2 ^ 64 - back)) = name.length - back := by
  have hindex : toInt64 (2 ^ 64 - back) = -(back : ℤ) := by
    unfold toInt64
    split_ifs <;> omega
  have hsum : toInt64 (name.length + toUInt64 (-(back : ℤ))) = (name.length - back : ℕ) := by
    have hmod : toUInt64 (-(back : ℤ)) = 2 ^ 64 - back := by
      unfold toUInt64
      omega
    rw [hmod]
    unfold toInt64
    split_ifs <;> omega
  rw [hindex, subNameStart, if_pos (by omega), hsum]
  omega

theorem walks_fromEnd (hpos : 0 < back) (hback : back ≤ name.length) (hcount : count ≤ back) :
    ∃ sub, name.getSubNameAt (toInt64 (2 ^ 64 - back)) count = some sub ∧
      Walks name (2 ^ 64 - back) count sub := by
  have hend : name.subNameEnd (name.length - back) count - (name.length - back) = count := by
    unfold subNameEnd npos
    rw [if_pos (by omega)]
    omega
  rw [getSubNameAt_eq hsize, subNameStart_of_back hsize hpos hback, hend]
  refine ⟨_, rfl, walks_part (by omega) ?_ ?_⟩
  · unfold subUInt64
    omega
  · intro i hi
    have hindex : 2 ^ 64 - back + i = 2 ^ 64 - (back - i) := by omega
    rw [hindex, atOrThrow_negative hsize (by omega) (by omega)]
    congr 1
    omega

/-- The sub-name of a regular range is what the comparison walks over. -/
theorem walks_getSubNameAt (hpos : pos < 2 ^ 64) (hcount : count < 2 ^ 64)
    (hregular : IsRegular name.length pos count) :
    ∃ sub, name.getSubNameAt (toInt64 pos) count = some sub ∧ Walks name pos count sub := by
  rcases hregular with rfl | ⟨hinside, hend⟩ | ⟨hback, hend⟩
  · have hnone : name.subNameEnd (name.subNameStart (toInt64 pos)) 0 -
        name.subNameStart (toInt64 pos) = 0 := by
      unfold subNameEnd npos
      rw [if_pos (by decide)]
      omega
    rw [getSubNameAt_eq hsize, hnone]
    exact ⟨_, rfl, Nat.zero_min _, fun i hi ↦ absurd hi (by simp)⟩
  · exact walks_inside hsize hinside hcount hend
  · obtain ⟨back, rfl⟩ : ∃ back, pos = 2 ^ 64 - back := ⟨2 ^ 64 - pos, by omega⟩
    exact walks_fromEnd hsize (by omega) (by omega) (by omega)

theorem length_le_of_getSubNameAt {sub : Name} {i : ℤ}
    (hsub : name.getSubNameAt i count = some sub) : sub.length ≤ name.length := by
  rw [getSubNameAt_eq hsize] at hsub
  cases hsub
  rw [List.length_take, List.length_drop]
  omega

theorem agrees_of_isRegular {pos1 count1 pos2 count2 : UInt64} (hsize' : other.length < 2 ^ 63)
    (hregular : IsRegular name.length pos1.toNat count1.toNat)
    (hregular' : IsRegular other.length pos2.toNat count2.toNat) :
    Agrees name pos1.toNat count1.toNat other pos2.toNat count2.toNat := by
  obtain ⟨sub, hsub, hwalks⟩ := walks_getSubNameAt hsize pos1.toNat_lt count1.toNat_lt hregular
  obtain ⟨sub', hsub', hwalks'⟩ := walks_getSubNameAt hsize' pos2.toNat_lt count2.toNat_lt hregular'
  have hshort := length_le_of_getSubNameAt hsize hsub
  have hshort' := length_le_of_getSubNameAt hsize' hsub'
  exact ⟨sub, sub', signOf sub sub', hsub, hsub', compareSubrange_eq hwalks hwalks',
    compareWhole_eq (by omega) (by omega)⟩

end

/-! ## Ranges that are not -/

def oneByte : Component := .generic [1]

/-- A name of so many components with one byte -/
def uniform (size : ℕ) : Name := List.replicate size oneByte

def withEmptyEnd (count : ℕ) : Name := uniform count ++ [Component.generic []]

theorem length_uniform (size : ℕ) : (uniform size).length = size := List.length_replicate

theorem length_withEmptyEnd (count : ℕ) : (withEmptyEnd count).length = count + 1 := by
  rw [withEmptyEnd, List.length_append, length_uniform, List.length_singleton]

theorem atOrThrow_uniform (hsize : size < 2 ^ 63)
    (hinside : pos % 2 ^ 64 < size ∨ 2 ^ 64 - size ≤ pos % 2 ^ 64) :
    atOrThrow (uniform size) (toInt64 pos) = some oneByte := by
  have hget {i : ℕ} (hi : i < size) : (uniform size)[i]? = some oneByte := by
    rw [uniform, List.getElem?_replicate, if_pos hi]
  have hmod : toInt64 pos = toInt64 (pos % 2 ^ 64) := by
    unfold toInt64
    rw [Nat.mod_mod]
  rw [hmod]
  by_cases hfront : pos % 2 ^ 64 < size
  · rw [atOrThrow_of_lt (by rw [length_uniform]; exact hsize) (by rw [length_uniform]; exact hfront),
      ← List.getElem?_eq_getElem, hget hfront]
  · obtain ⟨back, hback⟩ : ∃ back, pos % 2 ^ 64 = 2 ^ 64 - back := ⟨2 ^ 64 - pos % 2 ^ 64, by omega⟩
    have hlast : pos % 2 ^ 64 < 2 ^ 64 := Nat.mod_lt _ (by decide)
    rw [hback, atOrThrow_negative (by rw [length_uniform]; exact hsize) (by omega)
      (by rw [length_uniform]; omega), length_uniform, hget (by omega)]

theorem walks_uniform {walked : ℕ} (hsize : size < 2 ^ 63)
    (hwalked : min count (subUInt64 size pos) = walked)
    (hinside : ∀ i < walked, (pos + i) % 2 ^ 64 < size ∨ 2 ^ 64 - size ≤ (pos + i) % 2 ^ 64) :
    Walks (uniform size) pos count (uniform walked) where
  length_eq := by rw [length_uniform, length_uniform, hwalked]
  atOrThrow_eq := by
    intro i hi
    rw [length_uniform] at hi
    rw [atOrThrow_uniform hsize (hinside i hi)]
    simp [uniform]

theorem getSubNameAt_uniform (hsize : size < 2 ^ 63) (i : ℤ) (count : ℕ) :
    (uniform size).getSubNameAt i count =
      some (uniform (min (subNameEnd (uniform size) (subNameStart (uniform size) i) count -
        subNameStart (uniform size) i) (size - subNameStart (uniform size) i))) := by
  rw [getSubNameAt_eq (by rw [length_uniform]; exact hsize)]
  conv_lhs => rw [uniform]
  rw [List.drop_replicate, List.take_replicate]
  rfl

theorem firstDifference_replicate {count' : ℕ} (hless : count' < count) :
    firstDifference (uniform count) (withEmptyEnd count') = .gt := by
  unfold uniform withEmptyEnd uniform
  induction count' generalizing count with
  | zero =>
    obtain ⟨fewer, rfl⟩ : ∃ fewer, count = fewer + 1 := ⟨count - 1, by omega⟩
    rfl
  | succ count' ih =>
    obtain ⟨fewer, rfl⟩ : ∃ fewer, count = fewer + 1 := ⟨count - 1, by omega⟩
    rw [List.replicate_succ, List.replicate_succ, List.cons_append, firstDifference, ih (by omega)]
    rfl

theorem firstDifference_prefix (count : ℕ) :
    firstDifference (uniform count) (withEmptyEnd count) = .eq := by
  unfold withEmptyEnd uniform
  induction count with
  | zero => rfl
  | succ count ih =>
    rw [List.replicate_succ, List.cons_append, firstDifference, ih]
    rfl

theorem getSubNameAt_whole (hsize : name.length < 2 ^ 63) :
    name.getSubNameAt (toInt64 0) npos = some name := by
  have hstart : name.subNameStart (toInt64 0) = 0 := by
    rw [toInt64_of_lt (by decide), subNameStart, if_neg (by omega)]
    rfl
  have hend : name.subNameEnd 0 npos = name.length := if_neg (not_not.mpr rfl)
  rw [getSubNameAt_eq hsize, hstart, hend, List.drop_zero, Nat.sub_zero, List.take_length]

/-- The comparison walks beyond the sub-name, and finds a greater component where the other name has
its last one. -/
theorem not_agrees_of_walks {taken walked : ℕ} (htaken : taken ≤ size) (hsize : size < 2 ^ 63 - 1)
    (hless : taken < walked)
    (hsub : (uniform size).getSubNameAt (toInt64 pos) count = some (uniform taken))
    (hwalks : Walks (uniform size) pos count (uniform walked)) :
    ¬ Agrees (uniform size) pos count (withEmptyEnd taken) 0 npos := by
  have hlength := length_withEmptyEnd taken
  have hshort : (withEmptyEnd taken).length < 2 ^ 63 := by omega
  have hsmall : (uniform taken).length < 2 ^ 63 := by
    rw [length_uniform]
    omega
  rintro ⟨sub, sub', sign, hsub', hother, hcompare, hplain⟩
  rw [hsub] at hsub'
  rw [getSubNameAt_whole hshort] at hother
  cases hsub'
  cases hother
  have hgreater : signOf (uniform walked) (withEmptyEnd taken) = .gt := by
    rw [signOf, firstDifference_replicate hless]
  have hlesser : signOf (uniform taken) (withEmptyEnd taken) = .lt := by
    have hdifference : toInt32 (subUInt64 taken (taken + 1)) = -1 := by
      unfold toInt32 subUInt64
      split_ifs <;> omega
    rw [signOf, hlength, length_uniform, firstDifference_prefix]
    simp only [hdifference]
    rfl
  rw [compareSubrange_eq hwalks (walks_whole hshort), hgreater] at hcompare
  rw [compareWhole_eq hsmall hshort, hlesser] at hplain
  cases hcompare
  cases hplain

/-- Of the irregular ranges there are three kinds: the end wraps around, the position is behind the end,
or it is a negative index and the range goes beyond the end. -/
theorem irregular_cases (hirregular : ¬ IsRegular size pos count) :
    count ≠ 0 ∧
      ((pos < size ∧ count ≠ npos ∧ 2 ^ 64 ≤ pos + count) ∨
        (size < pos ∧ pos + size < 2 ^ 64) ∨
        (size < pos ∧ 2 ^ 64 ≤ pos + size ∧ 2 ^ 64 < pos + count)) := by
  unfold IsRegular npos at *
  omega

section

variable (hsize : size < 2 ^ 63 - 1)
include hsize

theorem not_agrees_of_wrap (hcount : count < 2 ^ 64) (hinside : pos < size) (hnpos : count ≠ npos)
    (hwraps : 2 ^ 64 ≤ pos + count) :
    ¬ Agrees (uniform size) pos count (withEmptyEnd 0) 0 npos := by
  have hstart : subNameStart (uniform size) (toInt64 pos) = pos := by
    rw [toInt64_of_lt (by omega), subNameStart, if_neg (by omega)]
    omega
  have hend : subNameEnd (uniform size) pos count - pos = 0 := by
    rw [subNameEnd, if_pos hnpos]
    omega
  have hwalked : min count (subUInt64 size pos) = size - pos := by
    unfold subUInt64
    omega
  apply not_agrees_of_walks (Nat.zero_le size) hsize (Nat.sub_pos_of_lt hinside)
  · rw [getSubNameAt_uniform (by omega), hstart, hend, Nat.zero_min]
  · exact walks_uniform (by omega) hwalked (by omega)

theorem not_agrees_of_behind (hnonzero : count ≠ 0) (hpos : size < pos)
    (hbehind : pos + size < 2 ^ 64) :
    ¬ Agrees (uniform size) pos count (withEmptyEnd 0) 0 npos := by
  have hthrows : (uniform size).atOrThrow (toInt64 (pos + 0)) = none := by
    rw [atOrThrow, if_pos]
    rw [length_uniform]
    unfold toInt64 toUInt64
    split_ifs <;> omega
  have hrounds : min (min count (subUInt64 (uniform size).length pos))
      (min npos (subUInt64 (withEmptyEnd 0).length 0)) = 1 := by
    rw [length_withEmptyEnd, length_uniform]
    unfold subUInt64 npos
    omega
  rintro ⟨sub, sub', sign, -, -, hcompare, -⟩
  simp only [compareSubrange, hrounds, compareComponents, hthrows] at hcompare
  cases hcompare

theorem not_agrees_of_beyond (hpos : pos < 2 ^ 64) (hback : 2 ^ 64 ≤ pos + size)
    (hbeyond : 2 ^ 64 < pos + count) :
    ∃ taken ≤ size, ¬ Agrees (uniform size) pos count (withEmptyEnd taken) 0 npos := by
  obtain ⟨back, rfl⟩ : ∃ back, pos = 2 ^ 64 - back := ⟨2 ^ 64 - pos, by omega⟩
  have hsmall : size < 2 ^ 63 := by omega
  have hsub := getSubNameAt_uniform hsmall (toInt64 (2 ^ 64 - back)) count
  rw [subNameStart_of_back (by rw [length_uniform]; omega) (by omega)
    (by rw [length_uniform]; omega), length_uniform] at hsub
  have hwalked : min count (subUInt64 size (2 ^ 64 - back)) = min count (size + back) := by
    unfold subUInt64
    omega
  refine ⟨_, ?_, not_agrees_of_walks ?_ hsize ?_ hsub (walks_uniform (by omega) hwalked ?_)⟩
  all_goals omega

/-- A range is compared as its sub-name, with every range that is regular, on the one side and on the
other, exactly if it is regular itself. -/
theorem agrees_iff_isRegular (pos count : UInt64) :
    (∀ (name other : Name) (pos' count' : UInt64), name.length = size →
      other.length < 2 ^ 63 → IsRegular other.length pos'.toNat count'.toNat →
      Agrees name pos.toNat count.toNat other pos'.toNat count'.toNat ∧
        Agrees other pos'.toNat count'.toNat name pos.toNat count.toNat) ↔
      IsRegular size pos.toNat count.toNat := by
  constructor
  · intro hagrees
    by_contra hirregular
    have hpos := pos.toNat_lt
    have hcount := count.toNat_lt
    have hfails : ∃ taken ≤ size,
        ¬ Agrees (uniform size) pos.toNat count.toNat (withEmptyEnd taken) 0 npos := by
      obtain ⟨hnonzero, ⟨hinside, hnpos, hwraps⟩ | ⟨hbehind, hfar⟩ | ⟨-, hback, hbeyond⟩⟩ :=
        irregular_cases hirregular
      · exact ⟨0, Nat.zero_le size, not_agrees_of_wrap hsize hcount hinside hnpos hwraps⟩
      · exact ⟨0, Nat.zero_le size, not_agrees_of_behind hsize hnonzero hbehind hfar⟩
      · exact not_agrees_of_beyond hsize hpos hback hbeyond
    obtain ⟨taken, htaken, hfails⟩ := hfails
    have hlength := length_withEmptyEnd taken
    have hwhole := hagrees (uniform size) (withEmptyEnd taken) 0 (UInt64.ofNat npos)
      (length_uniform size) (by omega) (.inr (.inl ⟨Nat.zero_le _, .inr (.inl (by decide))⟩))
    exact hfails hwhole.1
  · intro hregular name other pos' count' hlength hshort hregular'
    rw [← hlength] at hregular hsize
    exact ⟨agrees_of_isRegular (by omega) hshort hregular hregular',
      agrees_of_isRegular hshort (by omega) hregular' hregular⟩

end

/-- The components of /a/b from the second one on -/
theorem agrees_iff_isRegular_one :
    (∀ (name other : Name) (pos' count' : UInt64), name.length = 2 →
      other.length < 2 ^ 63 → IsRegular other.length pos'.toNat count'.toNat →
      Agrees name (1 : UInt64).toNat (7 : UInt64).toNat other pos'.toNat count'.toNat ∧
        Agrees other pos'.toNat count'.toNat name (1 : UInt64).toNat (7 : UInt64).toNat) ↔
      IsRegular 2 (1 : UInt64).toNat (7 : UInt64).toNat :=
  agrees_iff_isRegular (by decide) 1 7

/-- Behind the end of /a there is nothing to compare with /b, but the comparison throws; from the third
component of /a/b/c on it compares %63 where the sub-name is empty, the end of the range having wrapped
around. -/
theorem not_agrees_behind :
    compareSubrange [.generic [97]] 2 1 [.generic [98]] 0 1 = none ∧
      getSubNameAt [.generic [97]] 2 1 = some [] ∧
      ¬ Agrees [.generic [97]] 2 1 [.generic [98]] 0 1 ∧
      compareSubrange [.generic [97], .generic [98], .generic [99]] 2 (2 ^ 64 - 2)
        [.generic [97]] 0 1 = some .gt ∧
      getSubNameAt [.generic [97], .generic [98], .generic [99]] 2 (2 ^ 64 - 2) = some [] := by
  have hthrows : compareSubrange [.generic [97]] 2 1 [.generic [98]] 0 1 = none := by decide
  refine ⟨hthrows, by decide, ?_, by decide, by decide⟩
  rintro ⟨sub, sub', sign, -, -, hcompare, -⟩
  rw [hthrows] at hcompare
  cases hcompare

end Name

end NdnCxx
