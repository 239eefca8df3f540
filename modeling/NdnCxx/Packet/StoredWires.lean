import NdnCxx.Packet.InterestUnchanged

/-!
# Stored wires

Mutators discard the stored wire, apart from `Exclude::appendExclude` and
`SignatureInfo::appendTypeSpecificTlv`, which change the object under it. A received wire is stored as
it is, also if the fields that were read from it would be written in another way.
-/

namespace NdnCxx.Packet

open Block (presentIf)

variable {block : Block}

theorem bufferBlock_of_isWire (hwire : block.IsWire) : bufferBlock block.wire = .ok block.wire := by
  rw [bufferBlock, Block.fromWire_eq_ok_iff.mpr ⟨rfl, hwire⟩]
  rfl

/-! ## Key locators -/

variable {wire : Block} {call : Call}

namespace KeyLocator

def withoutWires (keyLocator : KeyLocator) : KeyLocator := { keyLocator with wire := none }

/-- A call of a mutator. -/
inductive Call
  | clear
  | setName (name : Name)
  | setKeyDigest (keyDigest : Block.Element)
  | setKeyDigestBuffer (keyDigest : Bytes)
  | wireDecode (wire : Block)

/-- Perform a call that returns normally. -/
def perform (keyLocator : KeyLocator) : Call → Option KeyLocator
  | .clear => some keyLocator.clear
  | .setName name => some (keyLocator.setName name)
  | .setKeyDigest keyDigest => (keyLocator.setKeyDigest keyDigest).toOption
  | .setKeyDigestBuffer keyDigest => (keyLocator.setKeyDigestBuffer keyDigest).toOption
  | .wireDecode wire => (keyLocator.wireDecode wire).toOption

/-- A received wire holds what it is read as, in the form in which this is written. -/
def Allows (keyLocator : KeyLocator) : Call → Prop
  | .wireDecode wire => wire.IsWire ∧ ∀ decoded, keyLocator.wireDecode wire = .ok decoded →
      decoded.IsEncodable ∧ decoded.toBlock = wire
  | _ => True

theorem wire_of_wireDecode {prior decoded : KeyLocator}
    (hdecode : prior.wireDecode wire = .ok decoded) : decoded.wire = some wire.wire := by
  unfold wireDecode at hdecode
  split_ifs at hdecode with htype
  obtain ⟨elements, -, hdecode⟩ := bind_eq_ok_iff.mp hdecode
  cases elements with
  | nil =>
    cases hdecode
    rfl
  | cons first rest =>
    dsimp only at hdecode
    split_ifs at hdecode with hname hdigest
    · obtain ⟨name, -, hdecoded⟩ := bind_eq_ok_iff.mp hdecode
      cases hdecoded
      rfl
    · cases hdecode
      rfl
    · cases hdecode
      rfl

theorem isFresh_of_wireDecode {prior decoded : KeyLocator} (hwire : wire.IsWire)
    (hdecode : prior.wireDecode wire = .ok decoded) (hencodable : decoded.IsEncodable)
    (hwritten : decoded.toBlock = wire) : codes.IsFresh decoded := by
  intro stored hstored
  obtain rfl := Option.some.inj ((wire_of_wireDecode hdecode).symm.trans hstored)
  apply bind_eq_ok_iff.mpr
  rw [← hwritten] at hwire ⊢
  exact ⟨_, wireEncodeInto_eq hencodable, bufferBlock_of_isWire hwire⟩

theorem isFresh_perform {keyLocator next : KeyLocator} (hallows : keyLocator.Allows call)
    (hnext : keyLocator.perform call = some next) : codes.IsFresh next := by
  cases call with
  | setKeyDigest keyDigest =>
    have hset := toOption_eq_some_iff.mp hnext
    unfold setKeyDigest at hset
    split_ifs at hset
    cases hset
    exact CodeStore.isFresh_of_stored_eq_none rfl
  | setKeyDigestBuffer keyDigest =>
    obtain ⟨block, -, hset⟩ := bind_eq_ok_iff.mp (toOption_eq_some_iff.mp hnext)
    unfold setKeyDigest at hset
    split_ifs at hset
    cases hset
    exact CodeStore.isFresh_of_stored_eq_none rfl
  | wireDecode wire =>
    have hdecode := toOption_eq_some_iff.mp hnext
    obtain ⟨hencodable, hwritten⟩ := hallows.2 next hdecode
    exact isFresh_of_wireDecode hallows.1 hdecode hencodable hwritten
  | _ =>
    obtain rfl := Option.some.inj hnext
    exact CodeStore.isFresh_of_stored_eq_none rfl

theorem onlyStores : codes.OnlyStores withoutWires :=
  ⟨fun _ ↦ rfl, fun _ ↦ rfl, fun _ _ ↦ ⟨_, rfl, rfl, rfl⟩⟩

theorem neverStale : codes.NeverStale perform (CodeStore.Event.OnChange Allows) withoutWires :=
  onlyStores.neverStale fun _ _ _ _ hallows hnext ↦ isFresh_perform hallows hnext

@[simp]
theorem toBlock_overwrite (prior written : KeyLocator) :
    (prior.overwrite written).toBlock = written.toBlock := by
  have helements : (prior.overwrite written).elements = written.elements := by
    cases hkind : written.type <;> simp [elements, overwrite, hkind]
  rw [toBlock, toBlock, helements]

/-- What is read back can be written again, if its digest does not outgrow the encoder. -/
theorem isEncodable_overwrite {prior written : KeyLocator} (hencodable : written.IsEncodable)
    (hsize : written.toBlock.wire.length < 2 ^ 64)
    (hshort : written.type = .keyDigest → written.keyDigest.toBlock.wire.length < 2 ^ 32) :
    (prior.overwrite written).IsEncodable := by
  refine (isEncodable_of_wireDecode_fits (wireDecode_toBlock prior hencodable hsize) ?_).resolve_left
    ?_
  · intro hdigest
    have hkind : written.type = .keyDigest := hdigest
    simpa [overwrite, hkind] using hshort hkind
  · intro hunknown
    have hkind : written.type = .unknown := hunknown
    simp [IsEncodable, hkind] at hencodable

end KeyLocator

/-! ## Meta information -/

namespace MetaInfo

def withoutWires (metaInfo : MetaInfo) : MetaInfo := { metaInfo with wire := none }

/-- A call of a mutator. -/
inductive Call
  | setType (type : ℕ)
  | setFreshnessPeriod (freshnessPeriod : ℤ)
  | setFinalBlockId (finalBlockId : Component)
  | setAppMetaInfo (info : List Block.Element)
  | addAppMetaInfo (block : Block.Element)
  | removeAppMetaInfo (tlvType : ℕ)
  | wireDecode (wire : Block)

/-- Perform a call that returns normally. -/
def perform (metaInfo : MetaInfo) : Call → Option MetaInfo
  | .setType type => some (metaInfo.setType type)
  | .setFreshnessPeriod freshnessPeriod => some (metaInfo.setFreshnessPeriod freshnessPeriod)
  | .setFinalBlockId finalBlockId => some (metaInfo.setFinalBlockId finalBlockId)
  | .setAppMetaInfo info => (metaInfo.setAppMetaInfo info).toOption
  | .addAppMetaInfo block => (metaInfo.addAppMetaInfo block).toOption
  | .removeAppMetaInfo tlvType => some (metaInfo.removeAppMetaInfo tlvType).2
  | .wireDecode wire => (metaInfo.wireDecode wire).toOption

/-- A received wire holds what it is read as, in the form in which this is written. -/
def Allows (metaInfo : MetaInfo) : Call → Prop
  | .wireDecode wire => wire.IsWire ∧ ∀ decoded, metaInfo.wireDecode wire = .ok decoded →
      (∀ block ∈ decoded.appMetaInfo, block.Fits) ∧ decoded.toBlock = wire
  | _ => True

theorem wire_of_wireDecode {prior decoded : MetaInfo}
    (hdecode : prior.wireDecode wire = .ok decoded) : decoded.wire = some wire.wire := by
  simp only [wireDecode, bind_eq_ok_iff] at hdecode
  obtain ⟨elements, -, type, -, freshnessPeriod, -, finalBlockId, -, hdecoded⟩ := hdecode
  cases hdecoded
  rfl

variable {metaInfo : MetaInfo}

theorem isFresh_perform {next : MetaInfo} (hfresh : codes.IsFresh metaInfo)
    (hallows : metaInfo.Allows call) (hnext : metaInfo.perform call = some next) :
    codes.IsFresh next := by
  cases call with
  | setAppMetaInfo info =>
    have hset := toOption_eq_some_iff.mp hnext
    unfold setAppMetaInfo at hset
    split_ifs at hset
    cases hset
    exact CodeStore.isFresh_of_stored_eq_none rfl
  | addAppMetaInfo block =>
    have hset := toOption_eq_some_iff.mp hnext
    unfold addAppMetaInfo at hset
    split_ifs at hset
    cases hset
    exact CodeStore.isFresh_of_stored_eq_none rfl
  | removeAppMetaInfo tlvType =>
    obtain rfl := Option.some.inj hnext
    unfold removeAppMetaInfo
    split_ifs
    · exact CodeStore.isFresh_of_stored_eq_none rfl
    · exact hfresh
  | wireDecode wire =>
    have hdecode := toOption_eq_some_iff.mp hnext
    obtain ⟨hwire, hcanonical⟩ := hallows
    obtain ⟨hfits, hwritten⟩ := hcanonical next hdecode
    intro stored hstored
    obtain rfl := Option.some.inj ((wire_of_wireDecode hdecode).symm.trans hstored)
    change bufferBlock next.wireEncodeInto = _
    rw [wireEncodeInto_eq_of_fits hfits, hwritten]
    exact bufferBlock_of_isWire hwire
  | _ =>
    obtain rfl := Option.some.inj hnext
    exact CodeStore.isFresh_of_stored_eq_none rfl

theorem onlyStores : codes.OnlyStores withoutWires :=
  ⟨fun _ ↦ rfl, fun _ ↦ rfl, fun _ _ ↦ ⟨_, rfl, rfl, rfl⟩⟩

theorem neverStale : codes.NeverStale perform (CodeStore.Event.OnChange Allows) withoutWires :=
  onlyStores.neverStale fun _ _ _ hfresh hallows hnext ↦ isFresh_perform hfresh hallows hnext

/-- No block of an application is taken in once more, and a FinalBlockId is not a digest, which would
be dropped. -/
structure ComesBack (metaInfo : MetaInfo) : Prop where
  appMetaInfo : metaInfo.appMetaInfo = []
  finalBlockId : metaInfo.finalBlockId.isEmpty = true ∨ metaInfo.finalBlockId.isGeneric = true

theorem ComesBack.isEncodable (hback : metaInfo.ComesBack)
    (hrepresentable : metaInfo.IsRepresentable) : metaInfo.IsEncodable where
  type := hrepresentable.type
  freshnessPeriod := hrepresentable.freshnessPeriod
  finalBlockId := fun hpresent ↦ hback.finalBlockId.resolve_left (by simp [hpresent])
  appMetaInfo := by simp [hback.appMetaInfo]

theorem toBlock_overwrite (hnone : metaInfo.appMetaInfo = []) :
    (metaInfo.overwrite metaInfo).toBlock = metaInfo.toBlock := by
  have hfreshness : Block.integerElement Tlv.freshnessPeriod
      (metaInfo.overwrite metaInfo).freshnessPeriod =
      Block.integerElement Tlv.freshnessPeriod metaInfo.freshnessPeriod := by
    simp only [overwrite]
    split_ifs with hpresent
    · rfl
    · simp [Block.integerElement, presentIf, hpresent, millisecondsMin]
  have hfinal : (metaInfo.overwrite metaInfo).finalBlockIdElement = metaInfo.finalBlockIdElement := by
    by_cases hempty : metaInfo.finalBlockId.isEmpty = true
    · have hreset : (metaInfo.overwrite metaInfo).finalBlockId.isEmpty = true := by
        simp only [overwrite, if_pos hempty]
        rfl
      rw [finalBlockIdElement, finalBlockIdElement, hempty, hreset]
      rfl
    · have hkept : (metaInfo.overwrite metaInfo).finalBlockId = metaInfo.finalBlockId := if_neg hempty
      rw [finalBlockIdElement, finalBlockIdElement, hkept]
  have helements : (metaInfo.overwrite metaInfo).elements = metaInfo.elements := by
    simp only [elements, hfreshness, hfinal]
    simp [overwrite, contentTypeElement, hnone]
  rw [toBlock, toBlock, helements]

end MetaInfo

/-! ## Signature information -/

namespace SignatureInfo

def withoutWires (info : SignatureInfo) : SignatureInfo :=
  { info with keyLocator := info.keyLocator.withoutWires, wire := none }

/-- A call of a mutator. -/
inductive Call
  | setSignatureType (type : ℤ)
  | setKeyLocator (keyLocator : KeyLocator)
  | unsetKeyLocator
  | setValidityPeriod (validityPeriod : Block)
  | unsetValidityPeriod
  | appendTypeSpecificTlv (block : Block.Element)
  | wireDecode (wire : Block)

/-- Perform a call that returns normally. -/
def perform (info : SignatureInfo) : Call → Option SignatureInfo
  | .setSignatureType type => some (info.setSignatureType type)
  | .setKeyLocator keyLocator => some (info.setKeyLocator keyLocator)
  | .unsetKeyLocator => some info.unsetKeyLocator
  | .setValidityPeriod validityPeriod => some (info.setValidityPeriod validityPeriod)
  | .unsetValidityPeriod => some info.unsetValidityPeriod
  | .appendTypeSpecificTlv block => some (info.appendTypeSpecificTlv block)
  | .wireDecode wire => (info.wireDecode wire).toOption

/-- The key locator, if there is one, and the TLVs can be written. -/
structure IsWritable (info : SignatureInfo) : Prop where
  keyLocator : info.hasKeyLocator = true → info.keyLocator.IsEncodable
  otherTlvs : ∀ block ∈ info.otherTlvs, block.IsWellFormed ∧ block.Fits

/-- TLVs are appended while no wire is stored, and a received wire holds what it is read as, in the
form in which this is written. -/
def Allows (info : SignatureInfo) : Call → Prop
  | .appendTypeSpecificTlv _ => info.wire = none
  | .wireDecode wire => wire.IsWire ∧ ∀ decoded, info.wireDecode wire = .ok decoded →
      decoded.IsWritable ∧ decoded.toBlock = wire
  | _ => True

theorem encode_eq_ok_of_isWritable {info : SignatureInfo} (hwritable : info.IsWritable)
    (hwire : info.toBlock.IsWire) : codes.encode info = .ok info.toBlock.wire := by
  apply bind_eq_ok_iff.mpr
  exact ⟨_, wireEncodeInto_eq_toBlock hwritable.keyLocator hwritable.otherTlvs,
    bufferBlock_of_isWire hwire⟩

theorem isFresh_of_wireDecode {prior decoded : SignatureInfo} (hwire : wire.IsWire)
    (hdecode : prior.wireDecode wire = .ok decoded) (hwritable : decoded.IsWritable)
    (hwritten : decoded.toBlock = wire) : codes.IsFresh decoded := by
  intro stored hstored
  obtain rfl := Option.some.inj ((wireDecode_type_wire hdecode).2.symm.trans hstored)
  rw [← hwritten] at hwire ⊢
  exact encode_eq_ok_of_isWritable hwritable hwire

theorem isFresh_perform {info next : SignatureInfo} (hallows : info.Allows call)
    (hnext : info.perform call = some next) : codes.IsFresh next := by
  cases call with
  | appendTypeSpecificTlv block =>
    obtain rfl := Option.some.inj hnext
    exact CodeStore.isFresh_of_stored_eq_none hallows
  | wireDecode wire =>
    have hdecode := toOption_eq_some_iff.mp hnext
    obtain ⟨hwire, hcanonical⟩ := hallows
    obtain ⟨hwritable, hwritten⟩ := hcanonical next hdecode
    exact isFresh_of_wireDecode hwire hdecode hwritable hwritten
  | _ =>
    obtain rfl := Option.some.inj hnext
    exact CodeStore.isFresh_of_stored_eq_none rfl

theorem onlyStores : codes.OnlyStores withoutWires :=
  ⟨fun _ ↦ rfl, fun _ ↦ rfl, fun _ _ ↦ ⟨_, rfl, rfl, rfl⟩⟩

theorem neverStale : codes.NeverStale perform (CodeStore.Event.OnChange Allows) withoutWires :=
  onlyStores.neverStale fun _ _ _ _ hallows hnext ↦ isFresh_perform hallows hnext

/-- The information was made by such calls. -/
def IsMade (info : SignatureInfo) : Prop :=
  ∃ start events, start.withoutWires = start ∧
    Run.Guarded (codes.step perform) (CodeStore.Event.OnChange Allows) start events ∧
    Run.run (codes.step perform) start events = some info

theorem IsMade.isFresh {info : SignatureInfo} (hmade : info.IsMade) : codes.IsFresh info := by
  obtain ⟨start, events, hstart, hguarded, hrun⟩ := hmade
  exact onlyStores.isFresh_of_run (fun _ _ _ _ hallows hnext ↦ isFresh_perform hallows hnext)
    hstart hguarded hrun

/-! ### Information that is read back -/

def behindType (info : SignatureInfo) : List Block :=
  (presentIf info.hasKeyLocator info.keyLocator.toBlock).toList ++ info.writtenTlvs

/-- Behind the signature type stands a key locator or none, and the TLVs are the same in reverse
order. -/
structure ComesBackAs (info : SignatureInfo) (keyLocator : Option KeyLocator) (tlvs : List Block) :
    Prop where
  behindType : info.behindType = (keyLocator.map KeyLocator.toBlock).toList ++ tlvs
  isEncodable : ∀ written ∈ keyLocator, written.IsEncodable
  notKeyLocator : keyLocator = none → ∀ tlv ∈ tlvs.head?, tlv.type ≠ Tlv.keyLocator
  reverse : tlvs.reverse = tlvs

section ReadBack

variable {info : SignatureInfo}

theorem toBlock_eq_of_behindType (other info : SignatureInfo) (htype : other.type = info.type)
    (hbehind : other.behindType = info.behindType) : other.toBlock = info.toBlock := by
  have helements : other.elements = info.elements := by
    change other.typeElement :: other.behindType = info.typeElement :: info.behindType
    rw [hbehind, typeElement, typeElement, htype]
  rw [toBlock, toBlock, helements]

theorem writtenTlvs_map_toElement {tlvs : List Block} {other : SignatureInfo}
    (hothers : other.otherTlvs = tlvs.map Block.toElement) (hreverse : tlvs.reverse = tlvs) :
    other.writtenTlvs = tlvs := by
  rw [writtenTlvs, hothers, ← List.map_reverse, hreverse, Block.map_toBlock_map_toElement]

theorem fits_toElement (hshort : block.wire.length < 2 ^ 32) : block.toElement.Fits :=
  fits_of_length_wire_lt (by rwa [Block.toBlock_toElement])

variable {keyLocator : Option KeyLocator} {tlvs : List Block} {decoded : SignatureInfo}
  (hback : info.ComesBackAs keyLocator tlvs) (hrepresentable : info.IsRepresentable)
  (hshort : info.toBlock.wire.length < 2 ^ 32)
  (hdecode : wireDecode {} info.toBlock = .ok decoded)
include hback hrepresentable hshort hdecode

/-- What is read is written as the wire that it was read from. -/
theorem ComesBackAs.toBlock_of_wireDecode :
    decoded.IsWritable ∧ decoded.type = info.type ∧ decoded.toBlock = info.toBlock := by
  have hsize : info.toBlock.wire.length < 2 ^ 64 := hshort.trans (by decide)
  have hparse := parse_toBlock hrepresentable.otherTlvs hsize
  have hwires := (Block.parse_eq_ok_iff.mp hparse).2
  have hlengths : ∀ element ∈ info.behindType, element.IsWire ∧ element.wire.length < 2 ^ 32 := by
    intro element hmem
    have hin : element ∈ info.elements := List.mem_cons_of_mem _ hmem
    exact ⟨hwires element hin, Block.length_wire_lt_of_mem hshort hin⟩
  obtain ⟨-, first, rest, type, hread, -, htype, hcases⟩ := wireDecode_eq_ok_iff.mp hdecode
  obtain ⟨rfl, hrest⟩ := List.cons.inj (Except.ok.inj (hparse.symm.trans hread))
  rw [readInt32_typeElement hrepresentable.type_lower hrepresentable.type_upper] at htype
  obtain rfl := Except.ok.inj htype
  have hsplit : rest = (keyLocator.map KeyLocator.toBlock).toList ++ tlvs :=
    hrest.symm.trans hback.behindType
  have htlvs : ∀ block ∈ tlvs.map Block.toElement, block.IsWellFormed ∧ block.Fits := by
    intro block hblock
    obtain ⟨tlv, hmem, rfl⟩ := List.mem_map.mp hblock
    have hin : tlv ∈ info.behindType := by
      rw [hback.behindType]
      exact List.mem_append_right _ hmem
    exact ⟨Block.toElement_isWellFormed (hlengths tlv hin).1, fits_toElement (hlengths tlv hin).2⟩
  rcases hcases with ⟨second, others, read, rfl, hsecond, hlocator, rfl⟩ | ⟨hnot, rfl⟩
  · cases hkeyLocator : keyLocator with
    | none =>
      rw [hkeyLocator] at hsplit
      have hhead : second ∈ tlvs.head? := by
        rw [← show second :: others = tlvs from hsplit]
        rfl
      exact absurd hsecond (hback.notKeyLocator hkeyLocator second hhead)
    | some written =>
      rw [hkeyLocator] at hsplit
      obtain ⟨rfl, rfl⟩ := List.cons.inj hsplit
      have hencodable := hback.isEncodable written hkeyLocator
      have hmem : written.toBlock ∈ info.behindType := by
        rw [hback.behindType, hkeyLocator]
        exact List.mem_cons_self
      have hlocatorShort := (hlengths _ hmem).2
      have hlocatorSize : written.toBlock.wire.length < 2 ^ 64 := hlocatorShort.trans (by decide)
      obtain rfl := Except.ok.inj
        (hlocator.symm.trans (KeyLocator.wireDecode_toBlock _ hencodable hlocatorSize))
      have hdigest : written.type = .keyDigest →
          written.keyDigest.toBlock.wire.length < 2 ^ 32 := by
        intro hkind
        exact Block.length_wire_lt_of_mem hlocatorShort (by simp [KeyLocator.elements, hkind])
      refine ⟨⟨fun _ ↦ KeyLocator.isEncodable_overwrite hencodable hlocatorSize hdigest, htlvs⟩, rfl,
        toBlock_eq_of_behindType _ _ rfl ?_⟩
      rw [hback.behindType, hkeyLocator, SignatureInfo.behindType,
        writtenTlvs_map_toElement (List.nil_append _) hback.reverse]
      simp [presentIf]
  · cases hkeyLocator : keyLocator with
    | some written =>
      have hhead : written.toBlock ∈ rest.head? := by
        rw [hsplit, hkeyLocator]
        rfl
      exact absurd rfl (hnot _ hhead)
    | none =>
      rw [hkeyLocator] at hsplit
      obtain rfl : rest = tlvs := hsplit
      refine ⟨⟨fun hpresent ↦ absurd hpresent Bool.false_ne_true, htlvs⟩, rfl,
        toBlock_eq_of_behindType _ _ rfl ?_⟩
      rw [hback.behindType, hkeyLocator, SignatureInfo.behindType,
        writtenTlvs_map_toElement (List.nil_append _) hback.reverse]
      simp [presentIf]

end ReadBack

/-- What the information is written as, if it is written without a stored wire. -/
theorem IsRepresentable.eq_toBlock_of_encode {info : SignatureInfo} {bytes : Bytes}
    (hrepresentable : info.IsRepresentable) (hencode : codes.encode info = .ok bytes) :
    info.IsWritable ∧ bytes = info.toBlock.wire := by
  obtain ⟨written, hwritten, hbuffer⟩ := bind_eq_ok_iff.mp hencode
  have hkeyLocator : info.hasKeyLocator = true → info.keyLocator.IsEncodable :=
    hrepresentable.isEncodable_of_wireEncodeInto hwritten
  obtain rfl := Except.ok.inj (hwritten.symm.trans
    (wireEncodeInto_eq_toBlock hkeyLocator hrepresentable.otherTlvs))
  obtain ⟨-, rfl⟩ := (bufferBlock_eq_ok_iff (by decide)).mp hbuffer
  exact ⟨⟨hkeyLocator, hrepresentable.otherTlvs⟩, rfl⟩

end SignatureInfo

/-! ## Exclude filters -/

namespace Exclude

/-- The same filter without a stored wire. -/
def withoutWires (exclude : Exclude) : Exclude := { exclude with wire := none }

/-- A boundary is appended while no wire is stored, unless it is there already, and a received wire
holds the filter it is read as, in the form in which this is written. -/
def Allows (exclude : Exclude) : Call → Prop
  | .appendExclude name any => exclude.wire = none ∨ exclude.appendExclude name any = exclude
  | .wireDecode wire => wire.IsWire ∧ ∀ decoded, exclude.wireDecode wire = .ok decoded →
      toBlock decoded.filter = wire
  | _ => True

variable {exclude : Exclude}

theorem wire_decodeItems {decoded : Exclude} {elements : List Block}
    (hdecode : decodeItems exclude elements = .ok decoded) : decoded.wire = exclude.wire := by
  induction exclude, elements using decodeItems.induct with
  | case1 exclude =>
    cases hdecode
    rfl
  | case2 exclude element =>
    rw [decodeItems, bind_eq_ok_iff] at hdecode
    obtain ⟨component, -, hdecode⟩ := hdecode
    cases hdecode
    rfl
  | case3 exclude element next later hflagged hplain =>
    rw [decodeItems, bind_eq_ok_iff] at hdecode
    obtain ⟨component, -, hdecode⟩ := hdecode
    split_ifs at hdecode with hany
    · exact hflagged component hdecode
    · exact hplain component hdecode

/-- What decoding leaves when it returns: a wire with at least one element. -/
theorem wireDecode_cases {prior decoded : Exclude} (hdecode : prior.wireDecode wire = .ok decoded) :
    decoded.wire = some wire.wire ∧
      ∃ first rest, Block.parse wire.value = .ok (first :: rest) := by
  unfold wireDecode at hdecode
  split_ifs at hdecode with htype
  rw [bind_eq_ok_iff] at hdecode
  obtain ⟨elements, hparse, hdecode⟩ := hdecode
  cases elements with
  | nil => cases hdecode
  | cons first rest =>
    refine ⟨?_, first, rest, hparse⟩
    dsimp only at hdecode
    split_ifs at hdecode with hany
    · exact wire_decodeItems hdecode
    · exact wire_decodeItems hdecode

theorem isEmpty_eq_false_of_toBlock {first : Block} {rest : List Block}
    (hparse : Block.parse (toBlock exclude.filter).value = .ok (first :: rest)) :
    exclude.isEmpty = false := by
  by_contra hempty
  have hentries : exclude.filter.boundaries.entries = [] := by simpa [isEmpty] using hempty
  have hvalue : (toBlock exclude.filter).value = [] := by
    simp [toBlock, Block.ofElements, Block.ofValue, elements, hentries]
  rw [hvalue] at hparse
  cases hparse

theorem isFresh_perform {next : Exclude} (hfresh : codes.IsFresh exclude)
    (hallows : exclude.Allows call) (hnext : exclude.perform call = some next) :
    codes.IsFresh next := by
  cases call with
  | excludeOne component =>
    obtain rfl := Option.some.inj hnext
    unfold excludeOne
    split_ifs
    · exact CodeStore.isFresh_of_stored_eq_none rfl
    · exact hfresh
  | excludeRange lower upper =>
    obtain ⟨filter, -, hset⟩ := bind_eq_ok_iff.mp (toOption_eq_some_iff.mp hnext)
    cases hset
    exact CodeStore.isFresh_of_stored_eq_none rfl
  | excludeBefore upper =>
    obtain ⟨filter, -, hset⟩ := bind_eq_ok_iff.mp (toOption_eq_some_iff.mp hnext)
    cases hset
    exact CodeStore.isFresh_of_stored_eq_none rfl
  | appendExclude name any =>
    obtain rfl := Option.some.inj hnext
    rcases hallows with hnone | hsame
    · exact CodeStore.isFresh_of_stored_eq_none hnone
    · rw [hsame]
      exact hfresh
  | wireDecode wire =>
    have hdecode := toOption_eq_some_iff.mp hnext
    obtain ⟨hwire, hcanonical⟩ := hallows
    have hwritten := hcanonical next hdecode
    obtain ⟨hkept, first, rest, hparse⟩ := wireDecode_cases hdecode
    rw [← hwritten] at hwire hkept hparse
    intro stored hstored
    obtain rfl := Option.some.inj (hkept.symm.trans hstored)
    apply bind_eq_ok_iff.mpr
    exact ⟨_, wireEncodeInto_eq (isEmpty_eq_false_of_toBlock hparse), bufferBlock_of_isWire hwire⟩
  | _ =>
    obtain rfl := Option.some.inj hnext
    exact CodeStore.isFresh_of_stored_eq_none rfl

theorem onlyStores : codes.OnlyStores withoutWires :=
  ⟨fun _ ↦ rfl, fun _ ↦ rfl, fun _ _ ↦ ⟨_, rfl, rfl, rfl⟩⟩

theorem neverStale : codes.NeverStale perform (CodeStore.Event.OnChange Allows) withoutWires :=
  onlyStores.neverStale fun _ _ _ hfresh hallows hnext ↦ isFresh_perform hfresh hallows hnext

variable {filter : NdnCxx.Exclude}

/-- An ambiguous filter is read as another one, but that one is written in the same way. -/
theorem toBlock_of_wireDecode {prior decoded : Exclude} (hnonempty : filter.boundaries.entries ≠ [])
    (hvalid : IsValid filter) (hsize : (toBlock filter).wire.length < 2 ^ 64)
    (hdecode : prior.wireDecode (toBlock filter) = .ok decoded) :
    toBlock decoded.filter = toBlock filter := by
  rcases isUnambiguous_or_anyBetween hvalid with ⟨hclear, -⟩ |
    ⟨-, above, below, digest, flag, hbetween, -⟩
  · rw [wireDecode_toBlock prior hnonempty hvalid hclear hsize] at hdecode
    cases hdecode
    rfl
  · cases flag with
    | true =>
      rw [hbetween.wireDecode_flagged hvalid prior hsize] at hdecode
      cases hdecode
    | false =>
      obtain ⟨found, hfound, hmoved⟩ := hbetween.wireDecode_unflagged hvalid prior hsize
      obtain rfl := Except.ok.inj (hfound.symm.trans hdecode)
      have hplain : IsPlain (digest, true) := fun hempty ↦
        absurd (eq_empty_of_isEmpty (hbetween.valid_digest hvalid) hempty) hbetween.digest_lt.ne
      have hany : itemElements (Component.empty, true) = [Block.ofValue Tlv.any []] := rfl
      have helements : elements found.filter = elements filter := by
        simp [elements, hmoved, hbetween.entries, hany,
          itemElements_of_isPlain (hbetween.isPlain_digest hvalid), itemElements_of_isPlain hplain]
      rw [toBlock, toBlock, helements]

theorem isEmpty_eq_false_of_wireDecode {prior decoded : Exclude}
    (hdecode : prior.wireDecode (toBlock filter) = .ok decoded)
    (hsame : toBlock decoded.filter = toBlock filter) : decoded.isEmpty = false := by
  obtain ⟨-, first, rest, hparse⟩ := wireDecode_cases hdecode
  rw [← hsame] at hparse
  exact isEmpty_eq_false_of_toBlock hparse

end Exclude

/-! ## Selectors -/

namespace Selectors

def withoutWires (selectors : Selectors) : Selectors :=
  { selectors with
    publisherPublicKeyLocator := selectors.publisherPublicKeyLocator.withoutWires
    exclude := selectors.exclude.withoutWires
    wire := none }

/-- A call of a mutator. -/
inductive Call
  | setMinSuffixComponents (minSuffixComponents : ℤ)
  | setMaxSuffixComponents (maxSuffixComponents : ℤ)
  | setPublisherPublicKeyLocator (keyLocator : KeyLocator)
  | setExclude (exclude : Exclude)
  | setChildSelector (childSelector : ℤ)
  | setMustBeFresh (mustBeFresh : Bool)
  | wireDecode (wire : Block)

/-- Perform a call that returns normally. -/
def perform (selectors : Selectors) : Call → Option Selectors
  | .setMinSuffixComponents minSuffixComponents =>
      some (selectors.setMinSuffixComponents minSuffixComponents)
  | .setMaxSuffixComponents maxSuffixComponents =>
      some (selectors.setMaxSuffixComponents maxSuffixComponents)
  | .setPublisherPublicKeyLocator keyLocator =>
      some (selectors.setPublisherPublicKeyLocator keyLocator)
  | .setExclude exclude => some (selectors.setExclude exclude)
  | .setChildSelector childSelector => some (selectors.setChildSelector childSelector)
  | .setMustBeFresh mustBeFresh => some (selectors.setMustBeFresh mustBeFresh)
  | .wireDecode wire => (selectors.wireDecode wire).toOption

/-- A received wire holds what it is read as, in the form in which this is written. -/
def Allows (selectors : Selectors) : Call → Prop
  | .wireDecode wire => wire.IsWire ∧ ∀ decoded, selectors.wireDecode wire = .ok decoded →
      decoded.IsEncodable ∧ decoded.toBlock = wire
  | _ => True

theorem wire_of_wireDecode {prior decoded : Selectors}
    (hdecode : prior.wireDecode wire = .ok decoded) : decoded.wire = some wire.wire := by
  unfold wireDecode at hdecode
  split_ifs at hdecode with htype
  simp only [bind_eq_ok_iff] at hdecode
  obtain ⟨elements, -, minSuffixComponents, -, maxSuffixComponents, -, keyLocator, -, exclude, -,
    childSelector, -, hdecoded⟩ := hdecode
  cases hdecoded
  rfl

theorem isFresh_perform {selectors next : Selectors} (hallows : selectors.Allows call)
    (hnext : selectors.perform call = some next) : codes.IsFresh next := by
  cases call with
  | wireDecode wire =>
    have hdecode := toOption_eq_some_iff.mp hnext
    obtain ⟨hwire, hcanonical⟩ := hallows
    obtain ⟨hencodable, hwritten⟩ := hcanonical next hdecode
    intro stored hstored
    obtain rfl := Option.some.inj ((wire_of_wireDecode hdecode).symm.trans hstored)
    rw [← hwritten] at hwire ⊢
    apply bind_eq_ok_iff.mpr
    exact ⟨_, wireEncodeInto_eq hencodable, bufferBlock_of_isWire hwire⟩
  | _ =>
    obtain rfl := Option.some.inj hnext
    exact CodeStore.isFresh_of_stored_eq_none rfl

theorem onlyStores : codes.OnlyStores withoutWires :=
  ⟨fun _ ↦ rfl, fun _ ↦ rfl, fun _ _ ↦ ⟨_, rfl, rfl, rfl⟩⟩

theorem neverStale : codes.NeverStale perform (CodeStore.Event.OnChange Allows) withoutWires :=
  onlyStores.neverStale fun _ _ _ _ hallows hnext ↦ isFresh_perform hallows hnext

/-! ### Selectors that are read back -/

theorem isEncodable_default : IsEncodable {} where
  minSuffixComponents := by decide
  maxSuffixComponents := by decide
  childSelector := by decide
  keyLocator := trivial
  exclude := fun entry hentry ↦ absurd hentry (OrderedMap.not_mem_empty entry)

theorem integerElement_max (type : ℕ) (value : ℤ) :
    Block.integerElement type (max value (-1)) = Block.integerElement type value := by
  rcases lt_or_ge value 0 with habsent | hpresent
  · have hmax : ¬ max value (-1) ≥ 0 := by omega
    have hnot : ¬ value ≥ 0 := by omega
    simp [Block.integerElement, presentIf, hmax, hnot]
  · rw [max_eq_left (by omega)]

section ReadBack

variable {written decoded : Selectors} (hencodable : written.IsEncodable)
  (hshort : written.publisherPublicKeyLocator.type = .keyDigest →
    written.publisherPublicKeyLocator.keyDigest.toBlock.wire.length < 2 ^ 32)
  (hsize : written.toBlock.wire.length < 2 ^ 64)
  (hdecode : wireDecode {} written.toBlock = .ok decoded)
include hencodable hsize hdecode

/-- Exclude filters are absent together, and are written the same. -/
theorem exclude_of_wireDecode : decoded.exclude.isEmpty = written.exclude.isEmpty ∧
    (written.exclude.isEmpty = false →
      Exclude.toBlock decoded.exclude.filter = Exclude.toBlock written.exclude.filter) ∧
    Exclude.IsValid decoded.exclude.filter := by
  obtain ⟨exclude, rfl, ⟨hempty, rfl⟩ | ⟨hempty, hexcludeSize, hread⟩⟩ :=
    exists_decoded_exclude hencodable hsize hdecode
  · refine ⟨hempty.symm, fun hpresent ↦ ?_, fun entry hentry ↦
      absurd hentry (OrderedMap.not_mem_empty entry)⟩
    rw [hempty] at hpresent
    cases hpresent
  · have hnonempty : written.exclude.filter.boundaries.entries ≠ [] := by
      simpa [Exclude.isEmpty] using hempty
    have hsame := Exclude.toBlock_of_wireDecode hnonempty hencodable.exclude hexcludeSize hread
    exact ⟨(Exclude.isEmpty_eq_false_of_wireDecode hread hsame).trans hempty.symm, fun _ ↦ hsame,
      Exclude.isValid_of_wireDecode hread⟩

theorem isEmpty_of_wireDecode : decoded.isEmpty = written.isEmpty := by
  obtain ⟨hexclude, -, -⟩ := exclude_of_wireDecode hencodable hsize hdecode
  obtain ⟨exclude, rfl, -⟩ := exists_decoded_exclude hencodable hsize hdecode
  have hkeyLocator : written.reread.publisherPublicKeyLocator.isEmpty =
      written.publisherPublicKeyLocator.isEmpty := by
    unfold reread
    cases hempty : written.publisherPublicKeyLocator.isEmpty with
    | true => simp [KeyLocator.isEmpty]
    | false => simpa [KeyLocator.isEmpty, KeyLocator.overwrite] using hempty
  have hinteger : ∀ value : ℤ, max value (-1) < 0 ↔ value < 0 := by
    intro value
    omega
  simp only at hexclude
  simp only [isEmpty, hkeyLocator, hexclude]
  simp only [reread, hinteger]

theorem toBlock_of_wireDecode : decoded.toBlock = written.toBlock := by
  obtain ⟨hexcludeEmpty, hexclude, -⟩ := exclude_of_wireDecode hencodable hsize hdecode
  obtain ⟨exclude, rfl, -⟩ := exists_decoded_exclude hencodable hsize hdecode
  simp only at hexcludeEmpty hexclude
  have hkeyLocator : presentIf (!written.reread.publisherPublicKeyLocator.isEmpty)
      written.reread.publisherPublicKeyLocator.toBlock =
      presentIf (!written.publisherPublicKeyLocator.isEmpty)
        written.publisherPublicKeyLocator.toBlock := by
    unfold reread
    cases hempty : written.publisherPublicKeyLocator.isEmpty with
    | true => simp [KeyLocator.isEmpty, presentIf]
    | false =>
      have hsame : (KeyLocator.overwrite {} written.publisherPublicKeyLocator).isEmpty = false :=
        hempty
      simp [hsame]
  have hfilter : presentIf (!exclude.isEmpty) (Exclude.toBlock exclude.filter) =
      presentIf (!written.exclude.isEmpty) (Exclude.toBlock written.exclude.filter) := by
    rw [hexcludeEmpty]
    cases hempty : written.exclude.isEmpty with
    | true => rfl
    | false => rw [hexclude hempty]
  have hfields : { written.reread with exclude := exclude }.fields = written.fields := by
    simp only [fields, hkeyLocator, hfilter]
    simp only [reread, integerElement_max]
  rw [toBlock, toBlock, hfields]

include hshort

theorem isEncodable_of_wireDecode : decoded.IsEncodable := by
  obtain ⟨-, -, hvalid⟩ := exclude_of_wireDecode hencodable hsize hdecode
  obtain ⟨exclude, rfl, -⟩ := exists_decoded_exclude hencodable hsize hdecode
  refine ⟨max_lt hencodable.minSuffixComponents (by decide),
    max_lt hencodable.maxSuffixComponents (by decide),
    max_lt hencodable.childSelector (by decide), ?_, hvalid⟩
  change written.reread.publisherPublicKeyLocator.IsEncodable
  unfold reread
  cases hempty : written.publisherPublicKeyLocator.isEmpty with
  | true => exact trivial
  | false =>
    have hmem : (Tlv.keyLocator, presentIf (!written.publisherPublicKeyLocator.isEmpty)
        written.publisherPublicKeyLocator.toBlock) ∈ written.fields := by simp [fields]
    exact KeyLocator.isEncodable_overwrite hencodable.keyLocator
      (Block.length_wire_lt_of_presentIf hsize hmem (by simp [hempty])) hshort

end ReadBack

end Selectors

end NdnCxx.Packet
