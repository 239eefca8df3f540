import NdnCxx.Packet.ExcludeWire

/-!
# Selectors

The optional selectors of an Interest. A negative integer means that the selector is absent. All six
elements are looked up by their types when a wire is decoded, and decoding starts from default
selectors.
-/

namespace NdnCxx.Packet

open Block (integerElement prependInteger presentIf)

/-- The integer that a decoder stores as an `int`, or the value it keeps if the element is absent. -/
def readInt (elements : List Block) (type : ℕ) (absent : ℤ) : Except Error ℤ :=
  Block.decodeIfFound (Block.find elements type) absent Block.readInt32

/-- `Selectors` with its members. -/
structure Selectors where
  minSuffixComponents : ℤ := -1
  maxSuffixComponents : ℤ := -1
  publisherPublicKeyLocator : KeyLocator := {}
  exclude : Exclude := {}
  childSelector : ℤ := -1
  mustBeFresh : Bool := false
  wire : Option Bytes := none
  deriving DecidableEq

namespace Selectors

def isEmpty (selectors : Selectors) : Bool :=
  selectors.minSuffixComponents < 0 && selectors.maxSuffixComponents < 0 &&
    selectors.publisherPublicKeyLocator.isEmpty && selectors.exclude.isEmpty &&
    selectors.childSelector < 0 && !selectors.mustBeFresh

/-- `Selectors::wireEncode(EncodingImpl<TAG>&)`; the elements are prepended last to first. -/
def wireEncodeInto (selectors : Selectors) : Except Error Bytes := do
  let mustBeFresh :=
    if selectors.mustBeFresh then Block.prependEmptyBlock Tlv.mustBeFresh else []
  let childSelector := prependInteger Tlv.childSelector selectors.childSelector
  let exclude ← Block.writtenIf (!selectors.exclude.isEmpty) selectors.exclude.wireEncodeInto
  let keyLocator ← Block.writtenIf (!selectors.publisherPublicKeyLocator.isEmpty)
    selectors.publisherPublicKeyLocator.wireEncodeInto
  let maxSuffixComponents := prependInteger Tlv.maxSuffixComponents selectors.maxSuffixComponents
  let minSuffixComponents := prependInteger Tlv.minSuffixComponents selectors.minSuffixComponents
  return Tlv.prependByteArrayBlock Tlv.selectors
    (minSuffixComponents ++ (maxSuffixComponents ++ (keyLocator ++ (exclude ++
      (childSelector ++ mustBeFresh)))))

def codes : CodeStore Selectors Bytes Error where
  encode selectors := selectors.wireEncodeInto >>= bufferBlock
  stored := Selectors.wire
  store selectors wire := .ok { selectors with wire := some wire }

def wireEncode (selectors : Selectors) : Except Error (Bytes × Selectors) := codes.recallCode selectors

/-- `Selectors::wireDecode`; `*this = Selectors()` comes before anything is read. -/
def wireDecode (_selectors : Selectors) (wire : Block) : Except Error Selectors :=
  if wire.type ≠ Tlv.selectors then throw ⟨.tlv, "Unexpected TLV type when decoding Selectors"⟩
  else do
    let fresh : Selectors := {}
    let elements ← Block.parse wire.value
    let minSuffixComponents ←
      readInt elements Tlv.minSuffixComponents fresh.minSuffixComponents
    let maxSuffixComponents ←
      readInt elements Tlv.maxSuffixComponents fresh.maxSuffixComponents
    let keyLocator ← Block.decodeIfFound (Block.find elements Tlv.keyLocator)
      fresh.publisherPublicKeyLocator fresh.publisherPublicKeyLocator.wireDecode
    let exclude ← Block.decodeIfFound (Block.find elements Tlv.exclude) fresh.exclude
      fresh.exclude.wireDecode
    let childSelector ← readInt elements Tlv.childSelector fresh.childSelector
    return {
      minSuffixComponents := minSuffixComponents
      maxSuffixComponents := maxSuffixComponents
      publisherPublicKeyLocator := keyLocator
      exclude := exclude
      childSelector := childSelector
      mustBeFresh := (Block.find elements Tlv.mustBeFresh).isSome
      wire := some wire.wire }

/-! ## Setters -/

def setMinSuffixComponents (selectors : Selectors) (minSuffixComponents : ℤ) : Selectors :=
  { selectors with minSuffixComponents := minSuffixComponents, wire := none }

def setMaxSuffixComponents (selectors : Selectors) (maxSuffixComponents : ℤ) : Selectors :=
  { selectors with maxSuffixComponents := maxSuffixComponents, wire := none }

def setPublisherPublicKeyLocator (selectors : Selectors) (keyLocator : KeyLocator) : Selectors :=
  { selectors with publisherPublicKeyLocator := keyLocator, wire := none }

def setExclude (selectors : Selectors) (exclude : Exclude) : Selectors :=
  { selectors with exclude := exclude, wire := none }

def setChildSelector (selectors : Selectors) (childSelector : ℤ) : Selectors :=
  { selectors with childSelector := childSelector, wire := none }

def setMustBeFresh (selectors : Selectors) (mustBeFresh : Bool) : Selectors :=
  { selectors with mustBeFresh := mustBeFresh, wire := none }

/-! ## Reading back what was written -/

/-- The selectors can be written and read again. -/
structure IsEncodable (selectors : Selectors) : Prop where
  minSuffixComponents : selectors.minSuffixComponents < 2 ^ 31
  maxSuffixComponents : selectors.maxSuffixComponents < 2 ^ 31
  childSelector : selectors.childSelector < 2 ^ 31
  keyLocator : selectors.publisherPublicKeyLocator.IsEncodable
  exclude : Exclude.IsValid selectors.exclude.filter

def fields (selectors : Selectors) : List (ℕ × Option Block) :=
  [(Tlv.minSuffixComponents, integerElement Tlv.minSuffixComponents selectors.minSuffixComponents),
    (Tlv.maxSuffixComponents, integerElement Tlv.maxSuffixComponents selectors.maxSuffixComponents),
    (Tlv.keyLocator, presentIf (!selectors.publisherPublicKeyLocator.isEmpty)
      selectors.publisherPublicKeyLocator.toBlock),
    (Tlv.exclude, presentIf (!selectors.exclude.isEmpty)
      (Exclude.toBlock selectors.exclude.filter)),
    (Tlv.childSelector, integerElement Tlv.childSelector selectors.childSelector),
    (Tlv.mustBeFresh, presentIf selectors.mustBeFresh (Block.ofValue Tlv.mustBeFresh []))]

def toBlock (selectors : Selectors) : Block :=
  Block.ofElements Tlv.selectors (Block.fieldElements selectors.fields)

/-- The members after `wireDecode` of what the selectors were encoded to. -/
def reread (selectors : Selectors) : Selectors where
  minSuffixComponents := max selectors.minSuffixComponents (-1)
  maxSuffixComponents := max selectors.maxSuffixComponents (-1)
  publisherPublicKeyLocator :=
    if !selectors.publisherPublicKeyLocator.isEmpty then
      KeyLocator.overwrite {} selectors.publisherPublicKeyLocator
    else {}
  exclude :=
    if !selectors.exclude.isEmpty then
      ⟨selectors.exclude.filter, some (Exclude.toBlock selectors.exclude.filter).wire⟩
    else {}
  childSelector := max selectors.childSelector (-1)
  mustBeFresh := selectors.mustBeFresh
  wire := some selectors.toBlock.wire

theorem hasTypes_fields (selectors : Selectors) : Block.HasTypes selectors.fields := by
  simp only [Block.HasTypes, fields, List.forall_mem_cons, List.not_mem_nil, false_implies,
    implies_true, and_true, Block.forall_mem_presentIf]
  exact ⟨Block.integerElement_type, Block.integerElement_type, fun _ ↦ rfl, fun _ ↦ rfl,
    Block.integerElement_type, fun _ ↦ rfl⟩

variable {selectors : Selectors}

theorem find_fields {type : ℕ} {element : Option Block}
    (hmem : (type, element) ∈ selectors.fields) :
    Block.find (Block.fieldElements selectors.fields) type = element := by
  have hdistinct : (selectors.fields.map Prod.fst).Nodup := by
    simp only [fields, List.map_cons, List.map_nil]
    decide
  exact Block.find_fieldElements selectors.hasTypes_fields hdistinct hmem

theorem wireEncodeInto_eq (hencodable : selectors.IsEncodable) :
    selectors.wireEncodeInto = .ok selectors.toBlock.wire := by
  have hexclude : Block.writtenIf (!selectors.exclude.isEmpty) selectors.exclude.wireEncodeInto =
      .ok ((presentIf (!selectors.exclude.isEmpty)
        (Exclude.toBlock selectors.exclude.filter)).toList.flatMap Block.wire) :=
    Block.writtenIf_eq fun hpresent ↦ Exclude.wireEncodeInto_eq (by simpa using hpresent)
  have hkeyLocator : Block.writtenIf (!selectors.publisherPublicKeyLocator.isEmpty)
      selectors.publisherPublicKeyLocator.wireEncodeInto =
      .ok ((presentIf (!selectors.publisherPublicKeyLocator.isEmpty)
        selectors.publisherPublicKeyLocator.toBlock).toList.flatMap Block.wire) :=
    Block.writtenIf_eq fun _ ↦ KeyLocator.wireEncodeInto_eq hencodable.keyLocator
  have hfresh : (Block.ofValue Tlv.mustBeFresh []).wire = Block.prependEmptyBlock Tlv.mustBeFresh :=
    Block.prependByteArrayBlock_nil Tlv.mustBeFresh
  simp only [wireEncodeInto, hexclude, hkeyLocator, bind, Except.bind, pure, Except.pure]
  simp only [toBlock, Block.ofElements, Block.fieldElements, fields, List.flatMap_cons,
    List.flatMap_nil, List.flatMap_append, Block.flatMap_wire_presentIf, ← Block.prependInteger_eq,
    hfresh, List.append_nil]
  rfl

theorem elements_isWire (hsize : selectors.toBlock.wire.length < 2 ^ 64) :
    ∀ element ∈ Block.fieldElements selectors.fields, element.IsWire := by
  intro element hmem
  have hshort := Block.length_wire_lt_of_mem hsize hmem
  obtain ⟨field, hfield, helement⟩ := Block.mem_fieldElements.mp hmem
  simp only [fields, List.mem_cons, List.not_mem_nil, or_false] at hfield
  rcases hfield with rfl | rfl | rfl | rfl | rfl | rfl
  · exact Block.integerElement_isWire (by decide) element helement
  · exact Block.integerElement_isWire (by decide) element helement
  · obtain ⟨-, rfl⟩ := Block.mem_presentIf.mp helement
    exact Block.ofElements_isWire (by decide) hshort
  · obtain ⟨-, rfl⟩ := Block.mem_presentIf.mp helement
    exact Block.ofElements_isWire (by decide) hshort
  · exact Block.integerElement_isWire (by decide) element helement
  · obtain ⟨-, rfl⟩ := Block.mem_presentIf.mp helement
    exact Block.ofValue_isWire_of_length (by decide) hshort

theorem readInt_fieldElements {type : ℕ} {value : ℤ}
    (hmem : (type, integerElement type value) ∈ selectors.fields) (hfits : value < 2 ^ 31) :
    readInt (Block.fieldElements selectors.fields) type (-1) = .ok (max value (-1)) := by
  rw [readInt, find_fields hmem, Block.decodeIfFound_readInt32 (-1) hfits]
  simp only [decide_eq_true_eq, Except.ok.injEq]
  split_ifs with hpresent
  · exact (max_eq_left (by omega)).symm
  · exact (max_eq_right (by omega)).symm

variable {written : Selectors}

/-- All that is left of decoding what was encoded is to decode the exclude filter. -/
theorem wireDecode_toBlock_eq (prior : Selectors) (hencodable : written.IsEncodable)
    (hsize : written.toBlock.wire.length < 2 ^ 64) :
    prior.wireDecode written.toBlock =
      (fun exclude ↦ { written.reread with exclude := exclude }) <$>
        Block.decodeIfFound (presentIf (!written.exclude.isEmpty)
          (Exclude.toBlock written.exclude.filter)) {} (Exclude.wireDecode {}) := by
  have hparse : Block.parse written.toBlock.value = .ok (Block.fieldElements written.fields) :=
    Block.parse_ofElements (elements_isWire hsize)
  have htype : written.toBlock.type = Tlv.selectors := rfl
  have hmin : readInt (Block.fieldElements written.fields) Tlv.minSuffixComponents (-1) =
      .ok written.reread.minSuffixComponents :=
    readInt_fieldElements (by simp [fields]) hencodable.minSuffixComponents
  have hmax : readInt (Block.fieldElements written.fields) Tlv.maxSuffixComponents (-1) =
      .ok written.reread.maxSuffixComponents :=
    readInt_fieldElements (by simp [fields]) hencodable.maxSuffixComponents
  have hchild : readInt (Block.fieldElements written.fields) Tlv.childSelector (-1) =
      .ok written.reread.childSelector :=
    readInt_fieldElements (by simp [fields]) hencodable.childSelector
  have hkeyLocator : Block.decodeIfFound
      (Block.find (Block.fieldElements written.fields) Tlv.keyLocator) {} (KeyLocator.wireDecode {}) =
      .ok written.reread.publisherPublicKeyLocator := by
    have hmem : (Tlv.keyLocator, presentIf (!written.publisherPublicKeyLocator.isEmpty)
        written.publisherPublicKeyLocator.toBlock) ∈ written.fields := by simp [fields]
    rw [find_fields hmem]
    apply Block.decodeIfFound_presentIf
    intro hpresent
    exact KeyLocator.wireDecode_toBlock {} hencodable.keyLocator
      (Block.length_wire_lt_of_presentIf hsize hmem hpresent)
  have hexclude : Block.find (Block.fieldElements written.fields) Tlv.exclude =
      presentIf (!written.exclude.isEmpty) (Exclude.toBlock written.exclude.filter) :=
    find_fields (by simp [fields])
  have hfresh : (Block.find (Block.fieldElements written.fields) Tlv.mustBeFresh).isSome =
      written.reread.mustBeFresh := by
    have hmem : (Tlv.mustBeFresh, presentIf written.mustBeFresh (Block.ofValue Tlv.mustBeFresh [])) ∈
        written.fields := by simp [fields]
    rw [find_fields hmem]
    cases hflag : written.mustBeFresh <;> simp [presentIf, reread, hflag]
  simp only [wireDecode, if_neg (not_not.mpr htype), hparse, hmin, hmax, hkeyLocator, hexclude,
    hchild, hfresh, bind, Except.bind, pure, Except.pure]
  cases Block.decodeIfFound (presentIf (!written.exclude.isEmpty)
    (Exclude.toBlock written.exclude.filter)) {} (Exclude.wireDecode {}) with
  | error error => rfl
  | ok exclude => rfl

/-- Decoding what was encoded gives the same selectors, whatever the object held before. -/
theorem wireDecode_toBlock (prior : Selectors) (hencodable : written.IsEncodable)
    (hunambiguous : Exclude.IsUnambiguous written.exclude.filter)
    (hsize : written.toBlock.wire.length < 2 ^ 64) :
    prior.wireDecode written.toBlock = .ok written.reread := by
  have hexclude : Block.decodeIfFound (presentIf (!written.exclude.isEmpty)
      (Exclude.toBlock written.exclude.filter)) {} (Exclude.wireDecode {}) =
      .ok written.reread.exclude := by
    apply Block.decodeIfFound_presentIf
    intro hpresent
    have hmem : (Tlv.exclude, presentIf (!written.exclude.isEmpty)
        (Exclude.toBlock written.exclude.filter)) ∈ written.fields := by simp [fields]
    have hnonempty : written.exclude.filter.boundaries.entries ≠ [] := by
      simpa [Exclude.isEmpty] using hpresent
    exact Exclude.wireDecode_toBlock {} hnonempty hencodable.exclude hunambiguous
      (Block.length_wire_lt_of_presentIf hsize hmem hpresent)
  rw [wireDecode_toBlock_eq prior hencodable hsize, hexclude]
  rfl

end Selectors

end NdnCxx.Packet
