import NdnCxx.Packet.Decoded

/-!
# Integers of a wire and of a packet

A wire carries integers of up to 64 bits. Each decoder stores them in members of a type of its own
and does not look at what it cuts off, while `tlv::readType` throws for a number that is too large for
its result. A getter shows the integer of the wire exactly when that integer fits the member.
-/

namespace NdnCxx

/-! ## Narrowing -/

theorem toInt32_eq_iff (number : ℕ) : toInt32 number = number ↔ number < 2 ^ 31 := by
  unfold toInt32
  split_ifs <;> omega

theorem toInt64_eq_iff {number : ℕ} (hnumber : number < 2 ^ 64) :
    toInt64 number = number ↔ number < 2 ^ 63 := by
  unfold toInt64
  split_ifs <;> omega

variable {block : Block}

theorem readNonNegativeInteger_lt {number : ℕ} (hread : block.readNonNegativeInteger = .ok number) :
    number < 2 ^ 64 := by
  have hlt := Bytes.toNumber_lt block.value
  unfold Block.readNonNegativeInteger Tlv.readNonNegativeInteger at hread
  split_ifs at hread with hsize
  have hnumber : number = Bytes.toNumber block.value := by
    simpa [Tlv.readFixed, eq_comm] using hread
  subst hnumber
  rcases hsize with hsize | hsize | hsize | hsize <;> rw [hsize] at hlt <;> omega

namespace Packet

/-! ## Fields -/

/-- An integer of a wire that a decoder stores in a member: its value if the wire has the element, and
the least integer that is too large for the member. -/
structure IntegerField where
  onWire : Option ℕ
  limit : ℕ
  deriving DecidableEq

variable {found : Option Block}

namespace IntegerField

/-- The field of an element that a decoder has looked for. -/
def ofFound (found : Option Block) (limit : ℕ) : Except Error IntegerField :=
  match found with
  | none => .ok ⟨none, limit⟩
  | some element => do return ⟨some (← element.readNonNegativeInteger), limit⟩

def IsShownBy (field : IntegerField) (shown : ℤ) : Prop := ∀ number ∈ field.onWire, shown = number

def Fits (field : IntegerField) : Prop := ∀ number ∈ field.onWire, number < field.limit

/-- Each getter shows the integer of its field, if and only if that fits. -/
def ShowExactly (fields : List IntegerField) (shown : List ℤ) : Prop :=
  List.Forall₂ (fun field value ↦ field.IsShownBy value ↔ field.Fits) fields shown

theorem ShowExactly.append {fields later : List IntegerField} {shown laterShown : List ℤ}
    (hfields : ShowExactly fields shown) (hlater : ShowExactly later laterShown) :
    ShowExactly (fields ++ later) (shown ++ laterShown) :=
  List.rel_append hfields hlater

theorem ShowExactly.forall₂_iff {fields : List IntegerField} {shown : List ℤ}
    (hexact : ShowExactly fields shown) :
    List.Forall₂ IsShownBy fields shown ↔ ∀ field ∈ fields, field.Fits := by
  induction hexact with
  | nil => simp
  | cons hfirst _ ih => rw [List.forall₂_cons, hfirst, ih, List.forall_mem_cons]

/-- A decoder that stores an integer through `narrow` keeps it if and only if it fits. -/
theorem exists_ofFound {Value : Type} {absent value : Value} {limit : ℕ} (narrow : ℕ → Value)
    (shown : Value → ℤ)
    (hnarrow : ∀ number < 2 ^ 64, shown (narrow number) = number ↔ number < limit)
    (hdecode : Block.decodeIfFound found absent
      (fun element ↦ do return narrow (← element.readNonNegativeInteger)) = .ok value) :
    ∃ field, ofFound found limit = .ok field ∧ (field.IsShownBy (shown value) ↔ field.Fits) := by
  cases found with
  | none => exact ⟨⟨none, limit⟩, rfl, by simp [IsShownBy, Fits]⟩
  | some element =>
    obtain ⟨number, hread, hvalue⟩ := bind_eq_ok_iff.mp hdecode
    cases hvalue
    refine ⟨⟨some number, limit⟩, by simp [ofFound, hread, bind, Except.bind, pure, Except.pure], ?_⟩
    have hlt : number < 2 ^ 64 := readNonNegativeInteger_lt hread
    simpa [IsShownBy, Fits] using hnarrow number hlt

theorem exists_ofFound_int32 {absent value : ℤ}
    (hdecode : Block.decodeIfFound found absent Block.readInt32 = .ok value) :
    ∃ field, ofFound found (2 ^ 31) = .ok field ∧ (field.IsShownBy value ↔ field.Fits) :=
  exists_ofFound toInt32 id (fun number _ ↦ toInt32_eq_iff number) hdecode

theorem exists_ofFound_int64 {absent value : ℤ}
    (hdecode : Block.decodeIfFound found absent Block.readInt64 = .ok value) :
    ∃ field, ofFound found (2 ^ 63) = .ok field ∧ (field.IsShownBy value ↔ field.Fits) :=
  exists_ofFound toInt64 id (fun _ hnumber ↦ toInt64_eq_iff hnumber) hdecode

theorem exists_ofFound_uint32 {absent value : ℕ}
    (hdecode : Block.decodeIfFound found absent Block.readUInt32 = .ok value) :
    ∃ field, ofFound found (2 ^ 32) = .ok field ∧ (field.IsShownBy value ↔ field.Fits) := by
  have hnarrow : ∀ number < 2 ^ 64, ((number % 2 ^ 32 : ℕ) : ℤ) = number ↔ number < 2 ^ 32 := by
    intro number _
    omega
  exact exists_ofFound (· % 2 ^ 32) Nat.cast hnarrow hdecode

end IntegerField

/-! ## Decoders -/

open IntegerField (ShowExactly exists_ofFound_int32 exists_ofFound_int64 exists_ofFound_uint32)

namespace Selectors

def integerFields (wire : Block) : Except Error (List IntegerField) := do
  let elements ← Block.parse wire.value
  let minSuffixComponents ←
    IntegerField.ofFound (Block.find elements Tlv.minSuffixComponents) (2 ^ 31)
  let maxSuffixComponents ←
    IntegerField.ofFound (Block.find elements Tlv.maxSuffixComponents) (2 ^ 31)
  let childSelector ← IntegerField.ofFound (Block.find elements Tlv.childSelector) (2 ^ 31)
  return [minSuffixComponents, maxSuffixComponents, childSelector]

/-- What the getters show of them. -/
def integers (selectors : Selectors) : List ℤ :=
  [selectors.minSuffixComponents, selectors.maxSuffixComponents, selectors.childSelector]

theorem showExactly_of_wireDecode {prior decoded : Selectors}
    (hdecode : prior.wireDecode block = .ok decoded) :
    ∃ fields, integerFields block = .ok fields ∧ ShowExactly fields decoded.integers := by
  unfold wireDecode at hdecode
  split_ifs at hdecode with htype
  simp only [bind_eq_ok_iff] at hdecode
  obtain ⟨elements, hparse, minSuffixComponents, hmin, maxSuffixComponents, hmax, keyLocator, -,
    exclude, -, childSelector, hchild, hdecoded⟩ := hdecode
  cases hdecoded
  obtain ⟨minField, hminField, hminExact⟩ := exists_ofFound_int32 hmin
  obtain ⟨maxField, hmaxField, hmaxExact⟩ := exists_ofFound_int32 hmax
  obtain ⟨childField, hchildField, hchildExact⟩ := exists_ofFound_int32 hchild
  refine ⟨[minField, maxField, childField], ?_, ?_⟩
  · simp only [integerFields, hparse, hminField, hmaxField, hchildField, bind, Except.bind, pure,
      Except.pure]
  · exact .cons hminExact (.cons hmaxExact (.cons hchildExact .nil))

end Selectors

namespace MetaInfo

def integerFields (wire : Block) : Except Error (List IntegerField) := do
  let elements ← Block.parse wire.value
  let (contentType, afterType) := takeIf Tlv.contentType elements
  let type ← IntegerField.ofFound contentType (2 ^ 32)
  let freshnessPeriod ←
    IntegerField.ofFound (takeIf Tlv.freshnessPeriod afterType).1 (2 ^ 63)
  return [type, freshnessPeriod]

/-- What the getters show of them. -/
def integers (metaInfo : MetaInfo) : List ℤ := [metaInfo.type, metaInfo.freshnessPeriod]

theorem showExactly_of_wireDecode {prior decoded : MetaInfo}
    (hdecode : prior.wireDecode block = .ok decoded) :
    ∃ fields, integerFields block = .ok fields ∧ ShowExactly fields decoded.integers := by
  simp only [wireDecode, bind_eq_ok_iff] at hdecode
  obtain ⟨elements, hparse, type, htype, freshnessPeriod, hfreshness, finalBlockId, -,
    hdecoded⟩ := hdecode
  cases hdecoded
  obtain ⟨typeField, htypeField, htypeExact⟩ := exists_ofFound_uint32 htype
  obtain ⟨freshnessField, hfreshnessField, hfreshnessExact⟩ := exists_ofFound_int64 hfreshness
  refine ⟨[typeField, freshnessField], ?_, .cons htypeExact (.cons hfreshnessExact .nil)⟩
  simp only [integerFields, hparse, htypeField, hfreshnessField, bind, Except.bind, pure,
    Except.pure]

end MetaInfo

namespace SignatureInfo

/-- The integers of a SignatureInfo block. -/
def integerFields (wire : Block) : Except Error (List IntegerField) := do
  let elements ← Block.parse wire.value
  return [← IntegerField.ofFound elements.head? (2 ^ 31)]

/-- What the getters show of them. -/
def integers (info : SignatureInfo) : List ℤ := [info.type]

theorem showExactly_of_wireDecode {prior decoded : SignatureInfo}
    (hdecode : prior.wireDecode block = .ok decoded) :
    ∃ fields, integerFields block = .ok fields ∧ ShowExactly fields decoded.integers := by
  obtain ⟨-, first, rest, type, hparse, -, hread, hdecoded⟩ := wireDecode_eq_ok_iff.mp hdecode
  have htype : decoded.type = type := by
    rcases hdecoded with ⟨second, others, keyLocator, -, -, -, rfl⟩ | ⟨-, rfl⟩
    · rfl
    · rfl
  have hfirst : Block.decodeIfFound (first :: rest).head? 0 Block.readInt32 = .ok type := hread
  obtain ⟨field, hfield, hexact⟩ := exists_ofFound_int32 hfirst
  refine ⟨[field], ?_, ?_⟩
  · simp only [integerFields, hparse, hfield, bind, Except.bind, pure, Except.pure]
  · rw [integers, htype]
    exact .cons hexact .nil

end SignatureInfo

namespace Data

/-- The integers of a Data packet. -/
def integerFields (wire : Block) : Except Error (List IntegerField) := do
  let elements ← Block.parse wire.value
  let metaInfo ← MetaInfo.integerFields (← Block.get elements Tlv.metaInfo)
  let info ← SignatureInfo.integerFields (← Block.get elements Tlv.signatureInfo)
  return metaInfo ++ info

/-- What the getters show of them. -/
def integers (data : Data) : List ℤ := data.metaInfo.integers ++ data.signature.info.integers

theorem showExactly_of_wireDecode {prior decoded : Data}
    (hdecode : prior.wireDecode block = .ok decoded) :
    ∃ fields, integerFields block = .ok fields ∧ ShowExactly fields decoded.integers := by
  simp only [wireDecode, Signature.setInfo, bind_eq_ok_iff] at hdecode
  obtain ⟨elements, hparse, nameBlock, -, name, -, metaInfoBlock, hmetaInfoBlock, metaInfo,
    hmetaInfo, content, -, infoBlock, hinfoBlock, unvalued, ⟨info, hinfo, hunvalued⟩, signature,
    hsignature, hdecoded⟩ := hdecode
  cases hdecoded
  cases hunvalued
  have hkept : signature.info = info := by
    refine Block.decodeIfFound_rule (fun signature : Signature ↦ signature.info = info) hsignature
      rfl ?_
    intro element value _ hset
    unfold Signature.setValue at hset
    split_ifs at hset
    cases hset
    rfl
  obtain ⟨metaFields, hmetaFields, hmetaExact⟩ := MetaInfo.showExactly_of_wireDecode hmetaInfo
  obtain ⟨infoFields, hinfoFields, hinfoExact⟩ := SignatureInfo.showExactly_of_wireDecode hinfo
  refine ⟨metaFields ++ infoFields, ?_, ?_⟩
  · simp only [integerFields, hparse, hmetaInfoBlock, hmetaFields, hinfoBlock, hinfoFields, bind,
      Except.bind, pure, Except.pure]
  · rw [integers, hkept]
    exact hmetaExact.append hinfoExact

end Data

namespace Interest

def integerFields (wire : Block) : Except Error (List IntegerField) := do
  let elements ← Block.parse wire.value
  let selectors ← Block.decodeIfFound (Block.find elements Tlv.selectors)
    [⟨none, 2 ^ 31⟩, ⟨none, 2 ^ 31⟩, ⟨none, 2 ^ 31⟩] Selectors.integerFields
  let interestLifetime ←
    IntegerField.ofFound (Block.find elements Tlv.interestLifetime) (2 ^ 63)
  return selectors ++ [interestLifetime]

/-- What the getters show of them. -/
def integers (interest : Interest) : List ℤ :=
  interest.selectors.integers ++ [interest.interestLifetime]

theorem showExactly_selectors {prior selectors : Selectors}
    (hdecode : Block.decodeIfFound found {} prior.wireDecode = .ok selectors) :
    ∃ fields, Block.decodeIfFound found [⟨none, 2 ^ 31⟩, ⟨none, 2 ^ 31⟩, ⟨none, 2 ^ 31⟩]
      Selectors.integerFields = .ok fields ∧ ShowExactly fields selectors.integers := by
  cases found with
  | some element =>
    have hsome : prior.wireDecode element = .ok selectors := hdecode
    exact Selectors.showExactly_of_wireDecode hsome
  | none =>
    cases hdecode
    have habsent : ∀ shown : ℤ, (IntegerField.mk none (2 ^ 31)).IsShownBy shown ↔
        (IntegerField.mk none (2 ^ 31)).Fits := by
      simp [IntegerField.IsShownBy, IntegerField.Fits]
    exact ⟨_, rfl, .cons (habsent _) (.cons (habsent _) (.cons (habsent _) .nil))⟩

theorem showExactly_of_wireDecode {prior decoded : Interest}
    (hdecode : prior.wireDecode block = .ok decoded) :
    ∃ fields, integerFields block = .ok fields ∧ ShowExactly fields decoded.integers := by
  rw [wireDecode, bind_eq_ok_iff] at hdecode
  obtain ⟨elements, hparse, hdecode⟩ := hdecode
  rw [decodeElements] at hdecode
  split_ifs at hdecode with htype
  simp only [bind_eq_ok_iff] at hdecode
  obtain ⟨nameBlock, -, name, -, selectors, hselectors, nonce, -, interestLifetime, hlifetime,
    index, -, hdecoded⟩ := hdecode
  cases hdecoded
  obtain ⟨fields, hfields, hexact⟩ := showExactly_selectors hselectors
  obtain ⟨lifetime, hlifetimeField, hlifetimeExact⟩ := exists_ofFound_int64 hlifetime
  refine ⟨fields ++ [lifetime], ?_, hexact.append (.cons hlifetimeExact .nil)⟩
  simp only [integerFields, hparse, hfields, hlifetimeField, bind, Except.bind, pure, Except.pure]

end Interest

/-! ## Delegations of a link -/

namespace Link

def delegationOnWire (delegation : Block) : Except Error (ℕ ×ₗ Name) := do
  match ← Block.parse delegation.value with
  | first :: second :: _ =>
      return toLex (← first.readNonNegativeInteger, ← Name.ofBlock second)
  | _ => throw ⟨.tlv, "A delegation consists of a Preference and a Name"⟩

/-- The delegations in the content of a link, as the wire has them. -/
def delegationsOnWire (wire : Block) : Except Error (List (ℕ ×ₗ Name)) := do
  (← delegationsFromWire wire).mapM delegationOnWire

/-- What is stored of a delegation, with the preference as a `uint32_t`. -/
def narrow (delegation : ℕ ×ₗ Name) : ℕ ×ₗ Name :=
  toLex ((ofLex delegation).1 % 2 ^ 32, (ofLex delegation).2)

theorem narrow_eq_self {delegation : ℕ ×ₗ Name} (hfits : (ofLex delegation).1 < 2 ^ 32) :
    narrow delegation = delegation := by
  rw [narrow, Nat.mod_eq_of_lt hfits]
  rfl

theorem exists_delegationOnWire {delegation : Block} {decoded : ℕ ×ₗ Name}
    (hdecode : decodeDelegation delegation = .ok decoded) :
    ∃ onWire, delegationOnWire delegation = .ok onWire ∧ decoded = narrow onWire := by
  rw [decodeDelegation, bind_eq_ok_iff] at hdecode
  obtain ⟨elements, hparse, hdecode⟩ := hdecode
  match elements with
  | [] => cases hdecode
  | first :: rest =>
    dsimp only at hdecode
    obtain ⟨preference, hpreference, hdecode⟩ := bind_eq_ok_iff.mp hdecode
    match rest with
    | [] => cases hdecode
    | second :: later =>
      dsimp only at hdecode
      obtain ⟨name, hname, hdecoded⟩ := bind_eq_ok_iff.mp hdecode
      cases hdecoded
      have hread : first.readUInt32 = .ok preference := by
        unfold decodePreference at hpreference
        split at hpreference
        · rename_i hread
          rw [hread, hpreference]
        · cases hpreference
      obtain ⟨number, hnumber, hnarrow⟩ := bind_eq_ok_iff.mp hread
      cases hnarrow
      refine ⟨toLex (number, name), ?_, rfl⟩
      simp only [delegationOnWire, hparse, hnumber, hname, bind, Except.bind, pure, Except.pure]

theorem exists_mapM_delegationOnWire {blocks : List Block} {decoded : List (ℕ ×ₗ Name)}
    (hread : readDelegations blocks = .ok decoded) :
    ∃ onWire, blocks.mapM delegationOnWire = .ok onWire ∧ decoded = onWire.map narrow := by
  induction blocks generalizing decoded with
  | nil =>
    cases hread
    exact ⟨[], rfl, rfl⟩
  | cons delegation later ih =>
    simp only [readDelegations, bind_eq_ok_iff] at hread
    obtain ⟨first, hfirst, rest, hrest, hdecoded⟩ := hread
    cases hdecoded
    obtain ⟨firstOnWire, hfirstOnWire, rfl⟩ := exists_delegationOnWire hfirst
    obtain ⟨restOnWire, hrestOnWire, rfl⟩ := ih hrest
    refine ⟨firstOnWire :: restOnWire, ?_, rfl⟩
    simp only [List.mapM_cons, hfirstOnWire, hrestOnWire, bind, Except.bind, pure, Except.pure]

theorem exists_delegationsOnWire {prior link : Link} (hdecode : prior.wireDecode block = .ok link) :
    ∃ onWire, delegationsOnWire block = .ok onWire ∧
      link.delegations = insertDelegations prior.delegations (onWire.map narrow) := by
  obtain ⟨data, blocks, decoded, -, -, hblocks, hdecoded, rfl⟩ := wireDecode_eq_ok_iff.mp hdecode
  obtain ⟨onWire, honWire, rfl⟩ := exists_mapM_delegationOnWire hdecoded
  refine ⟨onWire, ?_, rfl⟩
  simp only [delegationsOnWire, hblocks, bind, Except.bind, honWire]

/-- The preferences of a set are `uint32_t`. -/
def HasWordPreferences (delegations : DelegationSet) : Prop :=
  ∀ delegation, (delegation, ()) ∈ delegations → (ofLex delegation).1 < 2 ^ 32

variable {delegations : DelegationSet}

theorem hasWordPreferences_insertDelegations (hwords : HasWordPreferences delegations)
    (onWire : List (ℕ ×ₗ Name)) :
    HasWordPreferences (insertDelegations delegations (onWire.map narrow)) := by
  intro delegation hmem
  rcases mem_insertDelegations.mp hmem with hold | hnew
  · exact hwords delegation hold
  · obtain ⟨wide, -, rfl⟩ := List.mem_map.mp hnew
    exact Nat.mod_lt _ (by decide)

theorem insertDelegations_narrow_eq_iff (hwords : HasWordPreferences delegations)
    (onWire : List (ℕ ×ₗ Name)) :
    insertDelegations delegations (onWire.map narrow) = insertDelegations delegations onWire ↔
      ∀ delegation ∈ onWire, (ofLex delegation).1 < 2 ^ 32 := by
  constructor
  · intro hequal delegation hmem
    apply hasWordPreferences_insertDelegations hwords onWire
    rw [hequal]
    exact mem_insertDelegations.mpr (Or.inr hmem)
  · intro hfits
    have hself : ∀ delegation ∈ onWire, narrow delegation = id delegation :=
      fun delegation hmem ↦ narrow_eq_self (hfits delegation hmem)
    rw [List.map_congr_left hself, List.map_id]

end Link

/-! ## Integers that are kept -/

/-- Of every wire that a decoder accepts the getters show the integers, if and only if they fit. -/
def ShowsWhatFits {Object : Type} (wireDecode : Object → Block → Except Error Object)
    (integerFields : Block → Except Error (List IntegerField)) (integers : Object → List ℤ) : Prop :=
  ∀ (prior decoded : Object) (block : Block), wireDecode prior block = .ok decoded →
    ∃ fields, integerFields block = .ok fields ∧
      (List.Forall₂ IntegerField.IsShownBy fields (integers decoded) ↔
        ∀ field ∈ fields, field.Fits)

theorem showsWhatFits_of_showExactly {Object : Type}
    {wireDecode : Object → Block → Except Error Object}
    {integerFields : Block → Except Error (List IntegerField)} {integers : Object → List ℤ}
    (hexact : ∀ {prior decoded : Object} {block : Block}, wireDecode prior block = .ok decoded →
      ∃ fields, integerFields block = .ok fields ∧ ShowExactly fields (integers decoded)) :
    ShowsWhatFits wireDecode integerFields integers := by
  intro prior decoded block hdecode
  obtain ⟨fields, hfields, hshown⟩ := hexact hdecode
  exact ⟨fields, hfields, hshown.forall₂_iff⟩

/-- The delegations of a link are those it had and those of the wire, with the preferences of the
wire, if and only if these fit. -/
theorem Link.showsWhatFits_of_wireDecode {prior link : Link}
    (hwords : HasWordPreferences prior.delegations) (hdecode : prior.wireDecode block = .ok link) :
    ∃ fields delegations, Data.integerFields block = .ok fields ∧
      delegationsOnWire block = .ok delegations ∧
      (List.Forall₂ IntegerField.IsShownBy fields link.data.integers ∧
          link.delegations = insertDelegations prior.delegations delegations ↔
        (∀ field ∈ fields, field.Fits) ∧
          ∀ delegation ∈ delegations, (ofLex delegation).1 < 2 ^ 32) := by
  obtain ⟨data, blocks, decoded, hdata, -, -, -, hlink⟩ := wireDecode_eq_ok_iff.mp hdecode
  obtain ⟨fields, hfields, hexact⟩ := Data.showExactly_of_wireDecode hdata
  obtain ⟨onWire, honWire, hdelegations⟩ := exists_delegationsOnWire hdecode
  refine ⟨fields, onWire, hfields, honWire, ?_⟩
  have hshown : link.data = data := by rw [hlink]
  rw [hshown, hexact.forall₂_iff, hdelegations, insertDelegations_narrow_eq_iff hwords]

/-- The integers that the getters show are those of the accepted wire if and only if each of them
fits the type of its member: an `int` or `int32_t` for the selectors and the SignatureType, a
`uint32_t` for the ContentType and the preferences, a signed number of milliseconds for the
FreshnessPeriod and the InterestLifetime. -/
theorem integers_eq_wire_iff (prior : Link) (block : Block) :
    ShowsWhatFits Selectors.wireDecode Selectors.integerFields Selectors.integers ∧
    ShowsWhatFits MetaInfo.wireDecode MetaInfo.integerFields MetaInfo.integers ∧
    ShowsWhatFits SignatureInfo.wireDecode SignatureInfo.integerFields SignatureInfo.integers ∧
    ShowsWhatFits Interest.wireDecode Interest.integerFields Interest.integers ∧
    ∀ link, Link.HasWordPreferences prior.delegations → prior.wireDecode block = .ok link →
      ∃ fields delegations, Data.integerFields block = .ok fields ∧
        Link.delegationsOnWire block = .ok delegations ∧
        (List.Forall₂ IntegerField.IsShownBy fields link.data.integers ∧
            link.delegations = Link.insertDelegations prior.delegations delegations ↔
          (∀ field ∈ fields, field.Fits) ∧
            ∀ delegation ∈ delegations, (ofLex delegation).1 < 2 ^ 32) :=
  ⟨showsWhatFits_of_showExactly Selectors.showExactly_of_wireDecode,
    showsWhatFits_of_showExactly MetaInfo.showExactly_of_wireDecode,
    showsWhatFits_of_showExactly SignatureInfo.showExactly_of_wireDecode,
    showsWhatFits_of_showExactly Interest.showExactly_of_wireDecode,
    fun _ hwords hdecode ↦ Link.showsWhatFits_of_wireDecode hwords hdecode⟩

def minSuffixSelectors (number : Bytes) : Block :=
  Block.ofElements Tlv.selectors [Block.ofValue Tlv.minSuffixComponents number]

theorem integers_eq_wire_minSuffixSelectors : ∃ decoded fields,
    Selectors.wireDecode {} (minSuffixSelectors [5]) = .ok decoded ∧
      Selectors.integerFields (minSuffixSelectors [5]) = .ok fields ∧
      List.Forall₂ IntegerField.IsShownBy fields decoded.integers := by
  let decoded : Selectors :=
    { minSuffixComponents := 5, wire := some (minSuffixSelectors [5]).wire }
  let fields : List IntegerField := [⟨some 5, 2 ^ 31⟩, ⟨none, 2 ^ 31⟩, ⟨none, 2 ^ 31⟩]
  have hdecode : Selectors.wireDecode {} (minSuffixSelectors [5]) = .ok decoded := by decide
  have hfields : Selectors.integerFields (minSuffixSelectors [5]) = .ok fields := by decide
  obtain ⟨found, hfound, hshown⟩ :=
    (integers_eq_wire_iff {} (minSuffixSelectors [5])).1 {} decoded _ hdecode
  obtain rfl : fields = found := Except.ok.inj (hfields.symm.trans hfound)
  refine ⟨decoded, fields, hdecode, hfields, hshown.mpr ?_⟩
  simp [fields, IntegerField.Fits]

/-- A MinSuffixComponents of `2 ^ 32 + 5` is accepted and shown as `5`. -/
theorem not_integers_eq_wire_minSuffixSelectors : ∃ decoded fields,
    Selectors.wireDecode {} (minSuffixSelectors [0, 0, 0, 1, 0, 0, 0, 5]) = .ok decoded ∧
      decoded.minSuffixComponents = 5 ∧
      Selectors.integerFields (minSuffixSelectors [0, 0, 0, 1, 0, 0, 0, 5]) = .ok fields ∧
      ¬ List.Forall₂ IntegerField.IsShownBy fields decoded.integers := by
  refine ⟨{ minSuffixComponents := 5
            wire := some (minSuffixSelectors [0, 0, 0, 1, 0, 0, 0, 5]).wire },
    [⟨some (2 ^ 32 + 5), 2 ^ 31⟩, ⟨none, 2 ^ 31⟩, ⟨none, 2 ^ 31⟩], by decide, rfl, by decide, ?_⟩
  simp [Selectors.integers, IntegerField.IsShownBy]

end Packet

end NdnCxx
