import NdnCxx.Packet.Interest

/-!
# Matching by name and by packet

`matchesData` avoids computing the implicit digest. It is meant to decide the same as `matchesName`
does for the full name, as long as no key locator is asked for. The prefix, the numbers of further
components and the exclude filter are decided alike for all lengths of the two names. The one
difference comes from names of the same length: `matchesData` requires a digest component at the end,
while `matchesName` compares the bytes of components and not their types.
-/

namespace NdnCxx.Interest

def matchesName (interest : Interest) (name : Name) : Bool :=
  if name.length < interest.name.length then false
  else if !interest.name.isPrefixOf name then false
  else if interest.minSuffixComponents ≥ 0 ∧
      ¬ name.length - interest.name.length ≥ interest.minSuffixComponents.toNat then false
  else if interest.maxSuffixComponents ≥ 0 ∧
      ¬ name.length - interest.name.length ≤ interest.maxSuffixComponents.toNat then false
  else if !interest.exclude.boundaries.entries.isEmpty ∧ name.length > interest.name.length ∧
      (name.get interest.name.length).any interest.exclude.isExcluded then false
  else true

variable {sha256 : Bytes → Bytes} {interest : Interest} {data : Data}

/-- The number of components behind the Interest's name is within the two selectors. -/
def FitsSuffix (interest : Interest) (length : ℕ) : Prop :=
  interest.name.length + interest.minSuffixComponents.toNat ≤ length ∧
    (0 ≤ interest.maxSuffixComponents →
      length ≤ interest.name.length + interest.maxSuffixComponents.toNat)

/-- The component that follows the Interest's name is excluded. -/
def excludesNext (interest : Interest) (name : Name) : Bool :=
  !interest.exclude.boundaries.entries.isEmpty && decide (name.length > interest.name.length) &&
    (name.get interest.name.length).any interest.exclude.isExcluded

/-- A check that returns false, in front of the others. -/
theorem check_eq_true_iff {condition : Prop} [Decidable condition] {rest : Bool} :
    (if condition then false else rest) = true ↔ ¬ condition ∧ rest = true := by
  split_ifs with hcondition <;> simp [hcondition]

theorem matchesName_iff {name : Name} :
    interest.matchesName name = true ↔ interest.FitsSuffix name.length ∧
      interest.name.isPrefixOf name = true ∧ interest.excludesNext name = false := by
  simp only [matchesName, check_eq_true_iff, FitsSuffix, excludesNext, Bool.not_eq_true',
    Bool.not_eq_false, Bool.and_eq_false_iff, Bool.not_eq_false', decide_eq_false_iff_not]
  constructor
  · rintro ⟨hlength, hprefixed, hmin, hmax, hexclude, -⟩
    refine ⟨⟨by omega, fun hpresent ↦ by omega⟩, hprefixed, ?_⟩
    by_contra hnot
    simp_all
  · rintro ⟨⟨hlower, hupper⟩, hprefixed, hexclude⟩
    refine ⟨by omega, hprefixed, fun hmin ↦ by omega, fun hmax ↦ ?_, ?_, trivial⟩
    · have hbound := hupper hmax.1
      omega
    · rintro ⟨hpresent, hlonger, hexcluded⟩
      simp_all

theorem matchesData_iff (hpublisher : interest.publisherPublicKeyLocator.isEmpty = true) :
    interest.matchesData sha256 data = true ↔ interest.FitsSuffix (data.name.length + 1) ∧
      interest.matchesPrefix sha256 data = true ∧ interest.violatesExclude sha256 data = false := by
  have hmatch : interest.matchesPublisher data = true := by simp [matchesPublisher, hpublisher]
  have hmin : (if interest.minSuffixComponents ≥ 0 then interest.minSuffixComponents.toNat else 0) =
      interest.minSuffixComponents.toNat := by
    split_ifs <;> omega
  simp only [matchesData, check_eq_true_iff, FitsSuffix, hmatch, hmin, Bool.not_eq_true',
    Bool.not_eq_false, Bool.not_eq_true, not_not]
  constructor
  · rintro ⟨hlower, hupper, hprefixed, hexclude, -⟩
    exact ⟨⟨hlower, fun hpresent ↦ by omega⟩, hprefixed, hexclude⟩
  · rintro ⟨⟨hlower, hupper⟩, hprefixed, hexclude⟩
    refine ⟨hlower, fun hmax ↦ ?_, hprefixed, hexclude, trivial⟩
    have hbound := hupper hmax.1
    omega

/-- A name that is shorter than the full name is a prefix of it through the name of the packet. -/
theorem isPrefixOf_getFullName_iff (hshorter : interest.name.length ≤ data.name.length) :
    interest.name.isPrefixOf (data.getFullName sha256) = interest.name.isPrefixOf data.name := by
  rw [Bool.eq_iff_iff, Name.isPrefixOf_iff, Name.isPrefixOf_iff, Data.getFullName, List.map_append]
  constructor
  · intro hprefixed
    apply List.prefix_of_prefix_length_le hprefixed (List.prefix_append _ _)
    simpa using hshorter
  · intro hprefixed
    exact hprefixed.trans (List.prefix_append _ _)

theorem isPrefixOf_getFullName_eq_equals (hsame : interest.name.length = data.name.length + 1) :
    interest.name.isPrefixOf (data.getFullName sha256) =
      interest.name.equals (data.getFullName sha256) := by
  have hlength : interest.name.length = (data.getFullName sha256).length := by
    rw [hsame, Data.length_getFullName]
  rw [Name.isPrefixOf, Name.equals, if_neg (by omega), if_neg (not_not.mpr hlength)]

theorem get_getFullName_of_lt {place : ℕ} (hplace : place < data.name.length) :
    (data.getFullName sha256).get place = data.name.get place := by
  simp [Name.get, Data.getFullName, List.getElem?_append_left hplace]

/-- The Interest has the bytes of the full name, but its last component is not a digest. -/
def HasUntypedDigest (sha256 : Bytes → Bytes) (interest : Interest) (data : Data) : Prop :=
  interest.name.equals (data.getFullName sha256) = true ∧
    (interest.name.get (-1)).any Component.isImplicitSha256Digest = false ∧
    interest.minSuffixComponents ≤ 0

/-- The component that may be excluded is the one of the full name, also where the full name is not
computed. -/
theorem violatesExclude_eq :
    interest.violatesExclude sha256 data = interest.excludesNext (data.getFullName sha256) := by
  rw [violatesExclude, excludesNext, Data.length_getFullName]
  by_cases hlonger : data.name.length + 1 > interest.name.length
  · cases hempty : interest.exclude.boundaries.entries.isEmpty with
    | true => simp
    | false =>
      simp only [hlonger, Bool.not_false, decide_true, Bool.and_self, if_true, Bool.true_and]
      split_ifs with hlast
      · rfl
      · rw [get_getFullName_of_lt (by omega)]
  · simp [hlonger]

theorem fitsSuffix_iff_of_length_eq {length : ℕ} (hsame : interest.name.length = length) :
    interest.FitsSuffix length ↔ interest.minSuffixComponents ≤ 0 := by
  unfold FitsSuffix
  omega

/-- The two functions agree, except where the Interest has the bytes of the full name without its last
component being a digest. -/
theorem matchesData_eq_matchesName_iff
    (hpublisher : interest.publisherPublicKeyLocator.isEmpty = true) :
    interest.matchesData sha256 data = interest.matchesName (data.getFullName sha256) ↔
      ¬ interest.HasUntypedDigest sha256 data := by
  rw [Bool.eq_iff_iff, matchesData_iff hpublisher, matchesName_iff, violatesExclude_eq,
    Data.length_getFullName, HasUntypedDigest]
  by_cases hsame : interest.name.length = data.name.length + 1
  · have hnext : interest.excludesNext (data.getFullName sha256) = false := by
      simp [excludesNext, hsame]
    rw [fitsSuffix_iff_of_length_eq hsame, isPrefixOf_getFullName_eq_equals hsame, matchesPrefix,
      if_pos hsame, hnext]
    cases (interest.name.get (-1)).any Component.isImplicitSha256Digest with
    | true => simp
    | false =>
      cases interest.name.equals (data.getFullName sha256) <;> simp
  · have hdiffer : interest.name.equals (data.getFullName sha256) = false := by
      rw [Name.equals, Data.length_getFullName, if_pos hsame]
    have hprefixed : interest.FitsSuffix (data.name.length + 1) →
        interest.matchesPrefix sha256 data =
          interest.name.isPrefixOf (data.getFullName sha256) := by
      rintro ⟨hlower, -⟩
      rw [matchesPrefix, if_neg hsame, isPrefixOf_getFullName_iff (by omega)]
    rw [hdiffer]
    simp only [Bool.false_eq_true, false_and, not_false_eq_true, iff_true]
    constructor
    · rintro ⟨hfits, hmatch, hnext⟩
      exact ⟨hfits, hprefixed hfits ▸ hmatch, hnext⟩
    · rintro ⟨hfits, hmatch, hnext⟩
      exact ⟨hfits, (hprefixed hfits).trans hmatch, hnext⟩

def emptyNamePacket : Data where
  name := []
  signatureInfo := ⟨0, none, []⟩
  wire := [6, 13, 7, 0, 20, 0, 21, 0, 22, 3, 27, 1, 0, 23, 0]

def emptyNameDigest : Bytes :=
  [29, 37, 175, 189, 13, 97, 68, 213, 198, 111, 129, 243, 228, 36, 69, 51, 35, 69, 61, 82, 31, 228,
    74, 211, 14, 212, 15, 15, 94, 9, 184, 11]

theorem matchesData_eq_matchesName_digest :
    matchesData (fun _ ↦ emptyNameDigest)
        { name := [⟨Tlv.implicitSha256DigestComponent, emptyNameDigest⟩] } emptyNamePacket =
      matchesName { name := [⟨Tlv.implicitSha256DigestComponent, emptyNameDigest⟩] }
        (emptyNamePacket.getFullName fun _ ↦ emptyNameDigest) :=
  (matchesData_eq_matchesName_iff rfl).mpr fun huntyped ↦ absurd huntyped.2.1 (by decide)

/-- A generic component with the bytes of the digest matches by name, but not by packet. -/
theorem matchesName_untyped_digest :
    matchesName { name := [Component.generic emptyNameDigest] }
        (emptyNamePacket.getFullName fun _ ↦ emptyNameDigest) = true ∧
      matchesData (fun _ ↦ emptyNameDigest) { name := [Component.generic emptyNameDigest] }
        emptyNamePacket = false := by
  decide

end NdnCxx.Interest
