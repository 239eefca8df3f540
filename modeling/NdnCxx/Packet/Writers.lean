import NdnCxx.Encoding.Writer
import NdnCxx.Packet.DataRoundTrip

/-!
# Packets on an encoder

`wireEncode(EncodingImpl<TAG>&)` of the classes that a Data packet is made of, on an encoder that may
hold bytes already. All of them put in front what the byte functions of the wire modules say, apart
from signature information: its type-specific TLVs are appended, so they come behind the bytes that
were there, and last to first, so they come in reverse order.
-/

namespace NdnCxx

open Encoder (Writer)

/-! ## Writers that only prepend -/

def Component.wireEncodeOn (component : Component) : Writer :=
  ((Writer.writeIf (decide (component.value.length > 0)) (Writer.ofOperation fun encoder ↦
    encoder.prependByteArray component.value)).andThen (Writer.ofOperation fun encoder ↦
    encoder.prependVarNumber component.value.length)).andThen (Writer.ofOperation fun encoder ↦
    encoder.prependVarNumber component.type)

def Name.wireEncodeOn (name : Name) : Writer :=
  Writer.element Tlv.name (Writer.lastToFirst (name.map Component.wireEncodeOn))

theorem Component.puts_wireEncodeOn (component : Component) :
    component.wireEncodeOn.Puts (.ok component.wireEncode) := by
  have hvalue : Block.writtenIf (decide (component.value.length > 0)) (.ok component.value) =
      .ok component.value := by
    cases component.value <;> rfl
  have harray : (Writer.ofOperation fun encoder ↦ encoder.prependByteArray component.value).Puts
      (.ok component.value) :=
    Writer.puts_ofOperation fun encoder ↦ encoder.prependByteArray_spec component.value
  have hbody := harray.writeIf (decide (component.value.length > 0))
  rw [hvalue] at hbody
  exact (hbody.andThen (Writer.puts_ofOperation fun encoder ↦ encoder.prependVarNumber_spec _)).andThen
    (Writer.puts_ofOperation fun encoder ↦ encoder.prependVarNumber_spec _)

theorem Name.puts_wireEncodeOn (name : Name) : name.wireEncodeOn.Puts (.ok name.wireEncode) :=
  (Writer.puts_lastToFirst fun component _ ↦ component.puts_wireEncodeOn).element Tlv.name

namespace Packet

def KeyLocator.wireEncodeOn (keyLocator : KeyLocator) : Writer :=
  Writer.element Tlv.keyLocator
    (match keyLocator.type with
    | .none => Writer.skip
    | .name => keyLocator.name.wireEncodeOn
    | .keyDigest => Writer.ofOperation fun encoder ↦ encoder.prependBlock keyLocator.keyDigest
    | .unknown => fun _ ↦ .error ⟨.keyLocator, "Unsupported KeyLocator type"⟩)

theorem KeyLocator.puts_wireEncodeOn (keyLocator : KeyLocator) :
    keyLocator.wireEncodeOn.Puts keyLocator.wireEncodeInto := by
  unfold wireEncodeOn wireEncodeInto
  cases keyLocator.type with
  | none => exact Writer.puts_skip.element Tlv.keyLocator
  | name => exact keyLocator.name.puts_wireEncodeOn.element Tlv.keyLocator
  | keyDigest =>
    exact (Writer.puts_ofOperation fun encoder ↦
      encoder.prependBlock_spec keyLocator.keyDigest).element Tlv.keyLocator
  | unknown => exact fun encoder ↦ rfl

def MetaInfo.wireEncodeOn (metaInfo : MetaInfo) : Writer :=
  let appMetaInfo := Writer.lastToFirst (metaInfo.appMetaInfo.map fun block ↦
    Writer.ofOperation fun encoder ↦ encoder.prependBlock block)
  let finalBlockId := Writer.writeIf (!metaInfo.finalBlockId.isEmpty)
    (Writer.element Tlv.finalBlockId metaInfo.finalBlockId.wireEncodeOn)
  let freshnessPeriod := Writer.writeIf (decide (metaInfo.freshnessPeriod ≥ 0))
    (Writer.nonNegativeIntegerBlock Tlv.freshnessPeriod (toUInt64 metaInfo.freshnessPeriod))
  let contentType := Writer.writeIf (decide (metaInfo.type ≠ Tlv.contentTypeBlob))
    (Writer.nonNegativeIntegerBlock Tlv.contentType metaInfo.type)
  Writer.element Tlv.metaInfo
    (((appMetaInfo.andThen finalBlockId).andThen freshnessPeriod).andThen contentType)

theorem MetaInfo.puts_wireEncodeOn (metaInfo : MetaInfo) :
    metaInfo.wireEncodeOn.Puts (.ok metaInfo.wireEncodeInto) := by
  have happ : (Writer.lastToFirst (metaInfo.appMetaInfo.map fun block ↦
      Writer.ofOperation fun encoder ↦ encoder.prependBlock block)).Puts
        (.ok (metaInfo.appMetaInfo.flatMap Block.Element.prependBlock)) :=
    Writer.puts_lastToFirst fun block _ ↦
      Writer.puts_ofOperation fun encoder ↦ encoder.prependBlock_spec block
  have hfinal := (metaInfo.finalBlockId.puts_wireEncodeOn.element Tlv.finalBlockId).writeIf
    (!metaInfo.finalBlockId.isEmpty)
  have hfreshness := (Writer.puts_nonNegativeIntegerBlock Tlv.freshnessPeriod
    (toUInt64 metaInfo.freshnessPeriod)).writeIf (decide (metaInfo.freshnessPeriod ≥ 0))
  have htype := (Writer.puts_nonNegativeIntegerBlock Tlv.contentType metaInfo.type).writeIf
    (decide (metaInfo.type ≠ Tlv.contentTypeBlob))
  have hwritten : ∀ (condition : Bool) (bytes : Bytes), Block.writtenIf condition (.ok bytes) =
      .ok (if condition then bytes else []) := by
    intro condition bytes
    cases condition <;> rfl
  have hwhole := (((happ.andThen hfinal).andThen hfreshness).andThen htype).element Tlv.metaInfo
  simp only [bind, Except.bind, pure, Except.pure, hwritten, decide_eq_true_eq] at hwhole
  exact hwhole

/-- The elements of a Data packet, without the signature value if only the unsigned portion is asked
for. -/
def Data.elementsOn (data : Data) (unsignedPortion : Bool) : Writer :=
  let signatureValue := Writer.writeIf (!unsignedPortion) (Writer.block data.signature.value.encode)
  let signatureInfo : Writer := fun encoder ↦ do
    let (wire, _) ← data.signature.info.wireEncode
    return encoder.prependByteArray (Block.prependWire wire)
  (((signatureValue.andThen signatureInfo).andThen (Writer.block data.getContent)).andThen
    data.metaInfo.wireEncodeOn).andThen data.name.wireEncodeOn

def Data.wireEncodeOn (data : Data) (unsignedPortion : Bool) : Writer :=
  if unsignedPortion = false ∧ data.signature.info.type = -1 then
    fun _ ↦ .error ⟨.tlv, "Requested wire format, but data packet has not been signed yet"⟩
  else if unsignedPortion then data.elementsOn true
  else Writer.element Tlv.data (data.elementsOn false)

def Data.unsignedBytes (data : Data) : Except Error Bytes := do
  let info ← data.signature.info.wireEncode
  let content ← data.getContent
  return data.name.wireEncode ++ (data.metaInfo.wireEncodeInto ++
    (Block.prependWire content.wire ++ Block.prependWire info.1))

theorem Data.puts_elementsOn (data : Data) {unsignedPortion : Bool} {value : Except Error Bytes}
    (hvalue : (Writer.writeIf (!unsignedPortion)
      (Writer.block data.signature.value.encode)).Puts value) :
    (data.elementsOn unsignedPortion).Puts (do
      let valueBytes ← value
      let unsignedBytes ← data.unsignedBytes
      return unsignedBytes ++ valueBytes) := by
  have hinfo : Writer.Puts (fun encoder ↦ do
      let (wire, _) ← data.signature.info.wireEncode
      return encoder.prependByteArray (Block.prependWire wire))
      (do return Block.prependWire (← data.signature.info.wireEncode).1) := by
    cases data.signature.info.wireEncode with
    | error error => exact fun encoder ↦ rfl
    | ok answer => exact fun encoder ↦ ⟨_, rfl, encoder.prependByteArray_spec _⟩
  have hportion := (((hvalue.andThen hinfo).andThen (Writer.puts_block data.getContent)).andThen
    data.metaInfo.puts_wireEncodeOn).andThen data.name.puts_wireEncodeOn
  unfold elementsOn
  convert hportion using 1
  rw [unsignedBytes]
  cases value with
  | error error => rfl
  | ok valueBytes =>
    cases data.signature.info.wireEncode with
    | error error => rfl
    | ok answer =>
      cases data.getContent with
      | error error => rfl
      | ok content => simp only [bind, Except.bind, pure, Except.pure, List.append_assoc]

theorem Data.puts_wireEncodeOn_unsigned (data : Data) :
    (data.wireEncodeOn true).Puts data.unsignedBytes := by
  have hskip : (Writer.writeIf (!true) (Writer.block data.signature.value.encode)).Puts (.ok []) :=
    Writer.puts_skip
  have hputs := data.puts_elementsOn hskip
  rw [wireEncodeOn, if_neg (by simp), if_pos rfl]
  convert hputs using 1
  cases data.unsignedBytes with
  | error error => rfl
  | ok bytes => simp only [bind, Except.bind, pure, Except.pure, List.append_nil]

/-- What is written on an encoder is what the byte function says. -/
theorem Data.puts_wireEncodeOn (data : Data) :
    (data.wireEncodeOn false).Puts data.wireEncodeInto := by
  by_cases hunsigned : data.signature.info.type = -1
  · rw [wireEncodeOn, wireEncodeInto, if_pos ⟨rfl, hunsigned⟩, if_pos hunsigned]
    exact fun encoder ↦ rfl
  · have hvalue := (Writer.puts_block data.signature.value.encode).writeIf (!false)
    have hputs := (data.puts_elementsOn hvalue).element Tlv.data
    rw [wireEncodeOn, wireEncodeInto, if_neg (fun hboth ↦ hunsigned hboth.2), if_neg (by simp),
      if_neg hunsigned]
    convert hputs using 1
    rw [unsignedBytes]
    cases data.signature.value.encode with
    | error error => rfl
    | ok value =>
      cases data.signature.info.wireEncode with
      | error error => rfl
      | ok answer =>
        cases data.getContent with
        | error error => rfl
        | ok content =>
          simp only [Block.writtenIf, bind, Except.bind, pure, Except.pure, List.append_assoc,
            Bool.not_false, if_true]

/-! ## The writer that also appends -/

namespace SignatureInfo

/-- `SignatureInfo::wireEncode(EncodingImpl<TAG>&)` -/
def wireEncodeOn (info : SignatureInfo) : Writer :=
  let otherTlvs := Writer.lastToFirst (info.otherTlvs.map fun block ↦
    Writer.ofOperation fun encoder ↦ encoder.appendBlock block)
  let keyLocator := Writer.writeIf info.hasKeyLocator info.keyLocator.wireEncodeOn
  let type := Writer.nonNegativeIntegerBlock Tlv.signatureType (toUInt64 info.type)
  Writer.element Tlv.signatureInfo ((otherTlvs.andThen keyLocator).andThen type)

def tlvBytes (info : SignatureInfo) : Bytes :=
  info.otherTlvs.reverse.flatMap Block.Element.prependBlock

def leadBytes (info : SignatureInfo) : Except Error Bytes := do
  let keyLocator ← Block.writtenIf info.hasKeyLocator info.keyLocator.wireEncodeInto
  return Block.prependNonNegativeIntegerBlock Tlv.signatureType (toUInt64 info.type) ++ keyLocator

/-- All that is prepended, where the length counts the appended bytes too. -/
def frontBytes (info : SignatureInfo) (lead : Bytes) : Bytes :=
  Tlv.writeVarNumber Tlv.signatureInfo ++
    (Tlv.writeVarNumber (lead ++ info.tlvBytes).length ++ lead)

theorem wireEncodeInto_eq_leadBytes (info : SignatureInfo) :
    info.wireEncodeInto = (fun lead ↦ info.frontBytes lead ++ info.tlvBytes) <$> info.leadBytes := by
  rw [wireEncodeInto, leadBytes]
  cases Block.writtenIf info.hasKeyLocator info.keyLocator.wireEncodeInto with
  | error error => rfl
  | ok keyLocator =>
    simp only [bind, Except.bind, pure, Except.pure, Functor.map, Except.map, frontBytes, tlvBytes,
      Tlv.prependByteArrayBlock, List.append_assoc]

/-- The type-specific TLVs are appended in reverse order. -/
theorem appends_otherTlvs (blocks : List Block.Element) (encoder : Encoder) :
    ∃ result, Writer.lastToFirst (blocks.map fun block ↦
      Writer.ofOperation fun encoder ↦ encoder.appendBlock block) encoder = .ok result ∧
      encoder.Appends result (blocks.reverse.flatMap Block.Element.prependBlock) := by
  induction blocks with
  | nil => exact ⟨(0, encoder), rfl, by simp [Encoder.Appends]⟩
  | cons block blocks ih =>
    obtain ⟨result, hresult, happends⟩ := ih
    have hboth := happends.comp (result.2.appendBlock_spec block)
    rw [List.reverse_cons, List.flatMap_append, List.flatMap_singleton]
    exact ⟨_, Writer.andThen_of_eq_ok hresult rfl, hboth⟩

theorem wireEncodeOn_spec (info : SignatureInfo) (encoder : Encoder) :
    match info.leadBytes with
    | .ok lead => ∃ result, info.wireEncodeOn encoder = .ok result ∧
        result.2.content = info.frontBytes lead ++ (encoder.content ++ info.tlvBytes)
    | .error error => info.wireEncodeOn encoder = .error error := by
  obtain ⟨appended, happended, hcontent, hcount⟩ := appends_otherTlvs info.otherTlvs encoder
  have hlead : ((Writer.writeIf info.hasKeyLocator info.keyLocator.wireEncodeOn).andThen
      (Writer.nonNegativeIntegerBlock Tlv.signatureType (toUInt64 info.type))).Puts
        info.leadBytes :=
    (info.keyLocator.puts_wireEncodeOn.writeIf info.hasKeyLocator).andThen
      (Writer.puts_nonNegativeIntegerBlock Tlv.signatureType (toUInt64 info.type))
  unfold wireEncodeOn
  rw [Writer.andThen_assoc]
  cases hbytes : info.leadBytes with
  | error error =>
    rw [hbytes] at hlead
    have hbody := Writer.andThen_of_eq_error happended (hlead appended.2)
    simp only [Writer.element, hbody]
    rfl
  | ok lead =>
    rw [hbytes] at hlead
    obtain ⟨result, hresult, hfront, hlength⟩ := hlead appended.2
    have hbody := Writer.andThen_of_eq_ok happended hresult
    obtain ⟨closed, hclosed, hwhole⟩ := Writer.content_element hbody Tlv.signatureInfo
    refine ⟨closed, hclosed, ?_⟩
    have htotal : appended.1 + result.1 = (lead ++ info.tlvBytes).length := by
      rw [hcount, hlength, List.length_append, tlvBytes, Nat.add_comm]
    rw [hwhole, htotal, hfront, hcontent, frontBytes]
    simp only [List.append_assoc]
    rfl

end SignatureInfo

end Packet

end NdnCxx
