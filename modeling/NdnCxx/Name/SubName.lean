import NdnCxx.Encoding.Elements
import NdnCxx.Name.Name

/-!
# Sub-names

`Name::getSubName` takes a signed start and an unsigned number of components, and adds them in 64 bits
to find the end. `Name::getPrefix` leaves it to `getSubName`, and turns a negative number into one
counted from the front first. Either sum can wrap around: the sub-name is then empty where it should
not be, or the prefix is the whole name.
-/

namespace NdnCxx

namespace Name

def npos : ℕ := 2 ^ 64 - 1

/-- `Name::at`; `none` is the exception for an index that is out of bounds. -/
def atOrThrow (name : Name) (i : ℤ) : Option Component :=
  if (i ≥ 0 ∧ i.toNat ≥ name.length) ∨ (i < 0 ∧ toUInt64 (-i) > name.length) then none
  else name.get i

/-- Where `Name::getSubName` starts: the sum for a negative index is unsigned and then converted. -/
def subNameStart (name : Name) (iStartComponent : ℤ) : ℕ :=
  let iStart :=
    if iStartComponent < 0 then toInt64 (name.length + toUInt64 iStartComponent)
    else iStartComponent
  (max iStart 0).toNat

/-- Where it ends -/
def subNameEnd (name : Name) (iStart nComponents : ℕ) : ℕ :=
  if nComponents ≠ npos then min name.length ((iStart + nComponents) % 2 ^ 64) else name.length

def getSubNameAt (name : Name) (iStartComponent : ℤ) (nComponents : ℕ) : Option Name :=
  let iStart := name.subNameStart iStartComponent
  let iEnd := name.subNameEnd iStart nComponents
  (List.range' iStart (iEnd - iStart)).mapM fun i ↦ name.atOrThrow (toInt64 i)

def getPrefixBySubName (name : Name) (nComponents : ℤ) : Option Name :=
  if nComponents < 0 then
    name.getSubNameAt 0 ((name.length + toUInt64 nComponents) % 2 ^ 64)
  else name.getSubNameAt 0 (toUInt64 nComponents)

/-! ## The loop -/

variable {name : Name}

theorem atOrThrow_of_lt {i : ℕ} (hsize : name.length < 2 ^ 63) (hi : i < name.length) :
    name.atOrThrow (toInt64 i) = some name[i] := by
  have hindex : toInt64 i = i := by
    unfold toInt64
    rw [if_pos (by omega)]
    omega
  rw [atOrThrow, hindex, if_neg (by omega), get, if_pos (by omega), Int.toNat_natCast,
    List.getElem?_eq_getElem hi]

/-- What the loop over the indices collects. -/
theorem mapM_atOrThrow (hsize : name.length < 2 ^ 63) {iStart count : ℕ}
    (hend : iStart + count ≤ name.length) :
    ((List.range' iStart count).mapM fun i ↦ name.atOrThrow (toInt64 i)) =
      some ((name.drop iStart).take count) := by
  induction count generalizing iStart with
  | zero => simp
  | succ count ih =>
    have hi : iStart < name.length := by omega
    rw [List.range'_succ, List.mapM_cons, atOrThrow_of_lt hsize hi, ih (by omega),
      List.drop_eq_getElem_cons hi]
    rfl

theorem getSubNameAt_eq (hsize : name.length < 2 ^ 63) (iStartComponent : ℤ) (nComponents : ℕ) :
    name.getSubNameAt iStartComponent nComponents =
      some ((name.drop (name.subNameStart iStartComponent)).take
        (name.subNameEnd (name.subNameStart iStartComponent) nComponents -
          name.subNameStart iStartComponent)) := by
  rw [getSubNameAt]
  generalize name.subNameStart iStartComponent = iStart
  have hend : name.subNameEnd iStart nComponents ≤ name.length := by
    unfold subNameEnd
    split_ifs
    · exact Nat.min_le_left _ _
    · exact le_rfl
  by_cases horder : iStart ≤ name.subNameEnd iStart nComponents
  · exact mapM_atOrThrow hsize (by omega)
  · have hnone : name.subNameEnd iStart nComponents - iStart = 0 := by omega
    simp only [hnone, List.range'_zero, List.mapM_nil, List.take_zero]
    rfl

/-! ## What is meant -/

/-- The first position of a sub-name: a negative index counts from the end, up to the beginning. -/
def startOf (name : Name) (iStartComponent : ℤ) : ℕ :=
  if iStartComponent < 0 then (max 0 (name.length + iStartComponent)).toNat
  else iStartComponent.toNat

/-- At most so many components from that position on. -/
def subNameOf (name : Name) (iStartComponent : ℤ) (nComponents : ℕ) : Name :=
  (name.drop (name.startOf iStartComponent)).take nComponents

/-- The first components, or all but the last ones. -/
def prefixOf (name : Name) (nComponents : ℤ) : Name :=
  if nComponents < 0 then name.take (max 0 (name.length + nComponents)).toNat
  else name.take nComponents.toNat

/-- Taken together, the start and the number do not leave 64 bits, or there is nothing to take. -/
def EndFits (name : Name) (iStartComponent : ℤ) (nComponents : ℕ) : Prop :=
  nComponents = npos ∨ name.startOf iStartComponent + nComponents < 2 ^ 64 ∨
    name.length ≤ name.startOf iStartComponent

/-- No more components are taken off the end than there are. -/
def PrefixFits (name : Name) (nComponents : ℤ) : Prop :=
  0 ≤ nComponents ∨ -nComponents ≤ name.length ∨ name = []

theorem subNameStart_eq (hsize : name.length < 2 ^ 63) (iStartComponent : Int64) :
    name.subNameStart iStartComponent.toInt = name.startOf iStartComponent.toInt := by
  have hlower := iStartComponent.le_toInt
  have hupper := iStartComponent.toInt_lt
  simp only [subNameStart, startOf, toInt64, toUInt64]
  split_ifs <;> omega

/-- A sub-name is empty where its end has wrapped around. -/
theorem getSubNameAt_eq_iff (hsize : name.length < 2 ^ 63) (iStartComponent : Int64)
    (nComponents : UInt64) :
    name.getSubNameAt iStartComponent.toInt nComponents.toNat =
        some (name.subNameOf iStartComponent.toInt nComponents.toNat) ↔
      name.EndFits iStartComponent.toInt nComponents.toNat := by
  have hcount := nComponents.toNat_lt
  have hupper := iStartComponent.toInt_lt
  rw [getSubNameAt_eq hsize, subNameStart_eq hsize, Option.some.injEq, subNameOf, EndFits]
  have hstart : name.startOf iStartComponent.toInt < 2 ^ 63 := by
    unfold startOf
    split_ifs <;> omega
  generalize name.startOf iStartComponent.toInt = iStart at *
  generalize nComponents.toNat = count at *
  by_cases hlate : name.length ≤ iStart
  · rw [List.drop_of_length_le hlate]
    simp [hlate]
  · have hrest : (name.drop iStart).length = name.length - iStart := List.length_drop
    unfold subNameEnd npos
    constructor
    · intro hsame
      by_contra hwraps
      have hlength := congrArg List.length hsame
      rw [List.length_take, List.length_take, hrest] at hlength
      rw [if_pos (by omega)] at hlength
      omega
    · intro hfits
      rw [List.take_eq_take_iff, hrest]
      split_ifs <;> omega

/-- The sub-name that `getPrefix` asks for, whatever becomes of the sum in between. -/
theorem getPrefixBySubName_eq (hsize : name.length < 2 ^ 63) (nComponents : Int64) :
    name.getPrefixBySubName nComponents.toInt = some (name.getPrefix nComponents.toInt) := by
  have hlower := nComponents.le_toInt
  have hupper := nComponents.toInt_lt
  -- from the beginning, a sub-name has as many components as the number says
  have hsub (number : ℕ) : name.getSubNameAt 0 number = some (name.take (name.subNameEnd 0 number)) := by
    have hzero : name.subNameStart 0 = 0 := by
      rw [subNameStart, if_neg (by omega)]
      rfl
    rw [getSubNameAt_eq hsize, hzero, List.drop_zero, Nat.sub_zero]
  rw [getPrefixBySubName, getPrefix, hsub, hsub]
  generalize nComponents.toInt = count at *
  by_cases hnegative : count < 0
  · have hmod : toUInt64 count = (count + 2 ^ 64).toNat := by
      unfold toUInt64
      omega
    rw [if_pos hnegative, if_pos hnegative, hmod]
    unfold subNameEnd npos
    by_cases hinside : 0 ≤ name.length + count
    · rw [if_pos hinside, Option.some.injEq, List.take_eq_take_iff]
      split_ifs <;> omega
    · rw [if_neg hinside, Option.some.injEq, List.take_eq_self_iff]
      split_ifs <;> omega
  · have hmod : toUInt64 count = count.toNat := by
      unfold toUInt64
      omega
    rw [if_neg hnegative, if_neg hnegative, hmod, Option.some.injEq, List.take_eq_take_iff]
    unfold subNameEnd npos
    split_ifs <;> omega

/-- A prefix is the whole name where more is taken off than there is. -/
theorem getPrefix_eq_iff (name : Name) (nComponents : ℤ) :
    name.getPrefix nComponents = name.prefixOf nComponents ↔ name.PrefixFits nComponents := by
  rw [getPrefix, prefixOf, PrefixFits, ← List.length_eq_zero_iff]
  by_cases hnegative : nComponents < 0
  · rw [if_pos hnegative, if_pos hnegative]
    by_cases hinside : 0 ≤ name.length + nComponents
    · rw [if_pos hinside, max_eq_right hinside]
      exact iff_of_true rfl (.inr (.inl (by omega)))
    · rw [if_neg hinside, max_eq_left (by omega), Int.toNat_zero, List.take_zero,
        ← List.length_eq_zero_iff]
      omega
  · rw [if_neg hnegative, if_neg hnegative]
    exact iff_of_true rfl (.inl (not_lt.mp hnegative))

/-- Sub-names and prefixes are what is meant exactly where the sums they are made with do not wrap
around. -/
theorem getSubNameAt_getPrefix_iff (hsize : name.length < 2 ^ 63) (iStartComponent : Int64)
    (nComponents : UInt64) (count : Int64) :
    (name.getSubNameAt iStartComponent.toInt nComponents.toNat =
        some (name.subNameOf iStartComponent.toInt nComponents.toNat) ↔
      name.EndFits iStartComponent.toInt nComponents.toNat) ∧
    (name.getPrefixBySubName count.toInt = some (name.prefixOf count.toInt) ↔
      name.PrefixFits count.toInt) := by
  refine ⟨getSubNameAt_eq_iff hsize iStartComponent nComponents, ?_⟩
  rw [getPrefixBySubName_eq hsize, Option.some.injEq]
  exact name.getPrefix_eq_iff count.toInt

/-- From the second component of /a/b/c one component on, and /a/b/c without its last. -/
theorem getSubNameAt_getPrefix_abc :
    (getSubNameAt [.generic [97], .generic [98], .generic [99]] (1 : Int64).toInt
          (1 : UInt64).toNat =
        some (subNameOf [.generic [97], .generic [98], .generic [99]] (1 : Int64).toInt
          (1 : UInt64).toNat) ↔
      EndFits [.generic [97], .generic [98], .generic [99]] (1 : Int64).toInt
        (1 : UInt64).toNat) ∧
    (getPrefixBySubName [.generic [97], .generic [98], .generic [99]] (-1 : Int64).toInt =
        some (prefixOf [.generic [97], .generic [98], .generic [99]] (-1 : Int64).toInt) ↔
      PrefixFits [.generic [97], .generic [98], .generic [99]] (-1 : Int64).toInt) :=
  getSubNameAt_getPrefix_iff (by decide) 1 1 (-1)

/-- The end of /a/b/c from the third component on is lost for a large number that is not `npos`, and
/a/b is left whole where three components are to be taken off. -/
theorem getSubNameAt_getPrefix_wrap :
    getSubNameAt [.generic [97], .generic [98], .generic [99]] 2 (2 ^ 64 - 2) = some [] ∧
      subNameOf [.generic [97], .generic [98], .generic [99]] 2 (2 ^ 64 - 2) = [.generic [99]] ∧
      getPrefixBySubName [.generic [97], .generic [98]] (-3) =
        some [.generic [97], .generic [98]] ∧
      prefixOf [.generic [97], .generic [98]] (-3) = [] := by
  decide

end Name

end NdnCxx
