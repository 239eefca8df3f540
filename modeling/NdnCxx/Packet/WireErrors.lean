import NdnCxx.Packet.DataWire

/-!
# Exceptions of the packet codecs

Encoding a Data packet, or reading back what was encoded, throws nothing but exceptions that derive
from `tlv::Error`. There is one lemma for each function of the codecs, and each follows the steps of
its function.
-/

namespace NdnCxx

namespace OnlyTlvErrors

variable {Value Value' : Type}

/-- Answering from a store throws what encoding and storing throw. -/
theorem recallCode {codes : CodeStore Value Value' Error} {object : Value}
    (hencode : OnlyTlvErrors (codes.encode object))
    (hstore : ∀ code, OnlyTlvErrors (codes.store object code)) :
    OnlyTlvErrors (codes.recallCode object) := by
  unfold CodeStore.recallCode
  cases codes.stored object with
  | some code => exact ok _
  | none =>
    cases hcode : codes.encode object with
    | error error => exact throw (hencode error hcode)
    | ok code =>
      dsimp only
      cases hnext : codes.store object code with
      | error error => exact throw (hstore code error hnext)
      | ok next => exact ok _

end OnlyTlvErrors

namespace Block

theorem fromWire_onlyTlvErrors (wire : Bytes) : OnlyTlvErrors (fromWire wire) :=
  .bind (Tlv.readTypeOrThrow_onlyTlvErrors wire) fun _ ↦
    .bind (Tlv.readVarNumberOrThrow_onlyTlvErrors _) fun _ ↦ .ite (.throw rfl) (.ok _)

theorem assignWire_onlyTlvErrors (type : ℕ) (wire : Bytes) : OnlyTlvErrors (assignWire type wire) :=
  .bind (Tlv.readTypeOrThrow_onlyTlvErrors wire) fun _ ↦
    .bind (Tlv.readVarNumberOrThrow_onlyTlvErrors _) fun _ ↦ .ok _

theorem Element.size_onlyTlvErrors (element : Element) : OnlyTlvErrors element.size := by
  unfold Element.size
  split
  · exact .ok _
  · exact .ok _
  · exact .throw rfl

theorem Element.write_onlyTlvErrors (element : Element) : OnlyTlvErrors element.write := by
  unfold Element.write
  split
  · exact .ok _
  · exact .ok _
  · exact .throw rfl

theorem Unencoded.encode_onlyTlvErrors (block : Unencoded) : OnlyTlvErrors block.encode := by
  unfold Unencoded.encode
  split
  · exact .ok _
  · exact assignWire_onlyTlvErrors _ _
  · refine .ite (assignWire_onlyTlvErrors _ _) ?_
    exact .bind (.mapM Element.size_onlyTlvErrors _) fun _ ↦
      .bind (.mapM Element.write_onlyTlvErrors _) fun _ ↦ assignWire_onlyTlvErrors _ _

theorem get_onlyTlvErrors (elements : List Block) (type : ℕ) :
    OnlyTlvErrors (get elements type) := by
  unfold get
  split
  · exact .ok _
  · exact .throw rfl

theorem readNonNegativeInteger_onlyTlvErrors (block : Block) :
    OnlyTlvErrors block.readNonNegativeInteger :=
  Tlv.readNonNegativeInteger_onlyTlvErrors _ _

theorem decodeIfFound_onlyTlvErrors {Value : Type} (found : Option Block) (absent : Value)
    {decode : Block → Except Error Value} (hdecode : ∀ element, OnlyTlvErrors (decode element)) :
    OnlyTlvErrors (decodeIfFound found absent decode) := by
  cases found with
  | none => exact .ok _
  | some element => exact hdecode element

theorem writtenIf_onlyTlvErrors (condition : Bool) {write : Except Error Bytes}
    (hwrite : OnlyTlvErrors write) : OnlyTlvErrors (writtenIf condition write) :=
  .ite hwrite (.ok _)

end Block

namespace Packet

theorem bufferBlock_onlyTlvErrors (buffer : Bytes) : OnlyTlvErrors (bufferBlock buffer) :=
  .map _ (Block.fromWire_onlyTlvErrors buffer)

namespace KeyLocator

theorem wireEncodeInto_onlyTlvErrors (keyLocator : KeyLocator) :
    OnlyTlvErrors keyLocator.wireEncodeInto := by
  unfold wireEncodeInto
  split
  · exact .ok _
  · exact .ok _
  · exact .ok _
  · exact .throw rfl

theorem wireDecode_onlyTlvErrors (keyLocator : KeyLocator) (wire : Block) :
    OnlyTlvErrors (keyLocator.wireDecode wire) := by
  refine .ite (.throw rfl) (.bind (Block.parse_onlyTlvErrors _) fun elements ↦ ?_)
  cases elements with
  | nil => exact .ok _
  | cons first rest =>
    exact .ite (.bind (Name.wireDecode_onlyTlvErrors first) fun _ ↦ .ok _) (.ite (.ok _) (.ok _))

end KeyLocator

namespace SignatureInfo

theorem wireEncode_onlyTlvErrors (info : SignatureInfo) : OnlyTlvErrors info.wireEncode := by
  have hinto : OnlyTlvErrors info.wireEncodeInto :=
    .bind (Block.writtenIf_onlyTlvErrors _ info.keyLocator.wireEncodeInto_onlyTlvErrors) fun _ ↦
      .ok _
  exact .recallCode (.bind hinto fun _ ↦ bufferBlock_onlyTlvErrors _) fun _ ↦ .ok _

theorem wireDecode_onlyTlvErrors (info : SignatureInfo) (wire : Block) :
    OnlyTlvErrors (info.wireDecode wire) := by
  refine .bind (Block.parse_onlyTlvErrors _) fun elements ↦ .ite (.throw rfl) ?_
  cases elements with
  | nil => exact .throw rfl
  | cons first rest =>
    have htype : OnlyTlvErrors first.readInt32 :=
      .bind first.readNonNegativeInteger_onlyTlvErrors fun _ ↦ .ok _
    refine .ite (.throw rfl) (.bind htype fun _ ↦ ?_)
    cases rest with
    | nil => exact .ok _
    | cons second others =>
      exact .ite (.bind (KeyLocator.wireDecode_onlyTlvErrors _ second) fun _ ↦ .ok _) (.ok _)

end SignatureInfo

theorem MetaInfo.decodeFinalBlockId_onlyTlvErrors (element : Block) :
    OnlyTlvErrors (decodeFinalBlockId element) := by
  have hofBlock : ∀ type value, OnlyTlvErrors (Component.ofBlock type value) :=
    fun _ _ ↦ .ite (.throw rfl) (.ok _)
  exact .bind (Block.blockFromValue_onlyTlvErrors _) fun _ ↦
    .bind (hofBlock _ _) fun _ ↦ .ite (.ok _) (.ok _)

theorem MetaInfo.wireDecode_onlyTlvErrors (metaInfo : MetaInfo) (wire : Block) :
    OnlyTlvErrors (metaInfo.wireDecode wire) := by
  have hnumber : ∀ element : Block, OnlyTlvErrors element.readUInt32 := fun element ↦
    .bind element.readNonNegativeInteger_onlyTlvErrors fun _ ↦ .ok _
  have hperiod : ∀ element : Block, OnlyTlvErrors element.readInt64 := fun element ↦
    .bind element.readNonNegativeInteger_onlyTlvErrors fun _ ↦ .ok _
  refine .bind (Block.parse_onlyTlvErrors _) fun elements ↦ ?_
  exact .bind (Block.decodeIfFound_onlyTlvErrors _ _ hnumber) fun _ ↦
    .bind (Block.decodeIfFound_onlyTlvErrors _ _ hperiod) fun _ ↦
      .bind (Block.decodeIfFound_onlyTlvErrors _ _ decodeFinalBlockId_onlyTlvErrors) fun _ ↦ .ok _

theorem Signature.setValue_onlyTlvErrors (signature : Signature) (value : Block.Unencoded) :
    OnlyTlvErrors (signature.setValue value) := .ite (.throw rfl) (.ok _)

namespace Data

theorem getContent_onlyTlvErrors (data : Data) : OnlyTlvErrors data.getContent :=
  .ite (Block.fromWire_onlyTlvErrors _) data.content.encode_onlyTlvErrors

theorem wireEncodeInto_onlyTlvErrors (data : Data) : OnlyTlvErrors data.wireEncodeInto :=
  .ite (.throw rfl) <| .bind data.signature.value.encode_onlyTlvErrors fun _ ↦
    .bind data.signature.info.wireEncode_onlyTlvErrors fun _ ↦
      .bind data.getContent_onlyTlvErrors fun _ ↦ .ok _

theorem wireDecode_onlyTlvErrors (data : Data) (wire : Block) :
    OnlyTlvErrors (data.wireDecode wire) := by
  refine .bind (Block.parse_onlyTlvErrors _) fun elements ↦ ?_
  refine .bind (Block.get_onlyTlvErrors _ _) fun nameBlock ↦ ?_
  refine .bind (Name.wireDecode_onlyTlvErrors nameBlock) fun name ↦ ?_
  refine .bind (Block.get_onlyTlvErrors _ _) fun metaInfoBlock ↦ ?_
  refine .bind (MetaInfo.wireDecode_onlyTlvErrors _ metaInfoBlock) fun metaInfo ↦ ?_
  refine .bind (Block.get_onlyTlvErrors _ _) fun content ↦ ?_
  refine .bind (Block.get_onlyTlvErrors _ _) fun infoBlock ↦ ?_
  have hinfo : OnlyTlvErrors (data.signature.setInfo infoBlock) :=
    .bind (SignatureInfo.wireDecode_onlyTlvErrors _ infoBlock) fun _ ↦ .ok _
  refine .bind hinfo fun unvalued ↦ ?_
  exact .bind (Block.decodeIfFound_onlyTlvErrors _ _ fun value ↦
    unvalued.setValue_onlyTlvErrors value.toUnencoded) fun _ ↦ .ok _

theorem wireEncode_onlyTlvErrors (data : Data) : OnlyTlvErrors data.wireEncode := by
  refine .recallCode (.bind data.wireEncodeInto_onlyTlvErrors fun _ ↦ bufferBlock_onlyTlvErrors _) ?_
  intro wire
  exact .bind data.signature.value.encode_onlyTlvErrors fun _ ↦
    .bind (Block.fromWire_onlyTlvErrors wire) fun block ↦ wireDecode_onlyTlvErrors _ block

end Data

end Packet

end NdnCxx
