import Mathlib.Algebra.Order.BigOperators.Group.List
import NdnCxx.Encoding.Writer
import NdnCxx.Lp.Packet

/-!
# Writing a link protocol packet to an encoder

`lp::Packet::wireEncode` with an encoder writes the elements of the packet behind one another and the
header in front. A packet that holds a wire, because it was decoded or encoded before, only returns the
size of it: nothing is written.
-/

namespace NdnCxx.Lp

namespace Packet

open Encoder (Writer)

def wireEncodeTo (packet : Packet) : Writer :=
  match packet.wire with
  | some wire => fun encoder ↦ .ok (wire.size, encoder)
  | none =>
      Writer.element Tlv.lpPacket (Writer.lastToFirst (packet.subBlocks.map fun element ↦
        Writer.ofOperation fun encoder ↦ encoder.prependBlock element.toElement))

/-- `wireEncode(EncodingImpl<EstimatorTag>&)` -/
def estimate (packet : Packet) : ℕ :=
  match packet.wire with
  | some wire => wire.size
  | none =>
      let length := (packet.subBlocks.map fun element ↦ Estimator.prependBlock element.toElement).sum
      let length := length + Estimator.prependVarNumber length
      length + Estimator.prependVarNumber Tlv.lpPacket

def lpPacketOf (elements : List Block) : Bytes :=
  Tlv.prependByteArrayBlock Tlv.lpPacket (elements.flatMap Block.wire)

/-- The encoder gets the `LpPacket` TLV of the elements that the packet has, and as many bytes are
returned, by the estimator too. -/
def WritesElements (packet : Packet) : Prop :=
  ∃ parsed, packet.parse = .ok parsed ∧
    (∀ encoder, ∃ result, packet.wireEncodeTo encoder = .ok result ∧
      encoder.Prepends result (lpPacketOf parsed.subBlocks)) ∧
    packet.estimate = (lpPacketOf parsed.subBlocks).length

/-- What the packet is written as: of each element as many bytes as its size says. -/
theorem puts_elements (elements : List Block) :
    (Writer.element Tlv.lpPacket (Writer.lastToFirst (elements.map fun element ↦
      Writer.ofOperation fun encoder ↦ encoder.prependBlock element.toElement))).Puts
      (.ok (Tlv.prependByteArrayBlock Tlv.lpPacket
        (elements.flatMap fun element ↦ Block.prependWire element.wire))) := by
  have hparts : ∀ element ∈ elements,
      (Writer.ofOperation fun encoder ↦ encoder.prependBlock element.toElement).Puts
        (.ok (Block.prependWire element.wire)) := by
    intro element _
    exact Writer.puts_ofOperation fun encoder ↦ encoder.prependBlock_spec element.toElement
  exact (Writer.puts_lastToFirst hparts).element Tlv.lpPacket

theorem estimate_eq (elements : List Block) :
    estimate ⟨none, elements⟩ = (Tlv.prependByteArrayBlock Tlv.lpPacket
      (elements.flatMap fun element ↦ Block.prependWire element.wire)).length := by
  have hsum : (elements.map fun element ↦ Estimator.prependBlock element.toElement).sum =
      (elements.flatMap fun element ↦ Block.prependWire element.wire).length := by
    rw [List.length_flatMap]
    congr 1
    apply List.map_congr_left
    intro element _
    exact Estimator.prependBlock_eq element.toElement
  rw [← Estimator.prependByteArrayBlock_eq, Estimator.prependByteArrayBlock, estimate, hsum]

/-- Nothing of the elements is missing where their sizes fit. -/
theorem flatMap_prependWire_eq_iff (elements : List Block) :
    (elements.flatMap fun element ↦ Block.prependWire element.wire) = elements.flatMap Block.wire ↔
      ∀ element ∈ elements, element.wire.length < 2 ^ 32 := by
  constructor
  · intro hsame element hmem
    have hle (element : Block) : (Block.prependWire element.wire).length ≤ element.wire.length := by
      rw [Block.prependWire, List.length_take]
      exact Nat.min_le_right _ _
    have hsum : (elements.map fun element ↦ (Block.prependWire element.wire).length).sum =
        (elements.map fun element ↦ element.wire.length).sum := by
      have hlength := congrArg List.length hsame
      rwa [List.length_flatMap, List.length_flatMap] at hlength
    -- no element is written in fewer bytes, for the others cannot make up for it
    have hwhole : (Block.prependWire element.wire).length = element.wire.length := by
      by_contra hless
      have hshorter := List.sum_lt_sum _ _ (fun element _ ↦ hle element)
        ⟨element, hmem, lt_of_le_of_ne (hle element) hless⟩
      omega
    rw [Block.prependWire, List.length_take] at hwhole
    have hsmall : element.wire.length % 2 ^ 32 < 2 ^ 32 := Nat.mod_lt _ (by decide)
    omega
  · intro hfits
    apply List.flatMap_congr
    intro element hmem
    exact Block.prependWire_eq (hfits element hmem)

/-- A packet is written where it holds no wire, and every element has a size that 32 bits count. -/
theorem writesElements_iff (packet : Packet) :
    packet.WritesElements ↔
      packet.wire = none ∧ ∀ element ∈ packet.subBlocks, element.wire.length < 2 ^ 32 := by
  obtain ⟨wire, elements⟩ := packet
  cases wire with
  | some wire =>
    constructor
    · rintro ⟨parsed, -, hwrites, -⟩
      obtain ⟨result, hresult, hprepends⟩ := hwrites (.make 0 0)
      cases hresult
      -- the encoder is left as it was
      have hnothing : (Encoder.make 0 0).content.length =
          (lpPacketOf parsed.subBlocks ++ (Encoder.make 0 0).content).length :=
        congrArg List.length hprepends.1
      rw [List.length_append, lpPacketOf, Tlv.prependByteArrayBlock, List.length_append,
        Tlv.length_writeVarNumber] at hnothing
      have hheader : 0 < Tlv.sizeOfVarNumber Tlv.lpPacket := by decide
      omega
    · rintro ⟨hnone, -⟩
      cases hnone
  | none =>
    have hparse : parse ⟨none, elements⟩ = .ok ⟨none, elements⟩ := by
      unfold parse
      split_ifs <;> rfl
    have hiff := flatMap_prependWire_eq_iff elements
    constructor
    · rintro ⟨parsed, hparsed, hwrites, -⟩
      obtain rfl : ⟨none, elements⟩ = parsed := Except.ok.inj (hparse.symm.trans hparsed)
      refine ⟨rfl, hiff.mp ?_⟩
      obtain ⟨result, hresult, hprepends⟩ := hwrites (.make 0 0)
      obtain ⟨result', hresult', hprepends'⟩ := puts_elements elements (.make 0 0)
      obtain rfl : result' = result := Except.ok.inj (hresult'.symm.trans hresult)
      have hbytes := hprepends'.1.symm.trans hprepends.1
      rw [Encoder.content_make, List.append_nil, List.append_nil] at hbytes
      exact Block.prependByteArrayBlock_injective hbytes
    · rintro ⟨-, hfits⟩
      refine ⟨⟨none, elements⟩, hparse, ?_, ?_⟩
      · intro encoder
        have hputs := puts_elements elements encoder
        rw [hiff.mpr hfits] at hputs
        exact hputs
      · rw [estimate_eq, hiff.mpr hfits]
        rfl

/-- A packet decoded from the wire of an `LpPacket` without elements -/
def ofEmptyWire : Packet := (wireDecode empty ⟨Tlv.lpPacket, [], [100, 0]⟩).1

/-- Two bytes are returned and none is written. -/
theorem not_writesElements_ofEmptyWire :
    ofEmptyWire.wireEncodeTo (.make 2 0) = .ok (2, .make 2 0) ∧ ofEmptyWire.estimate = 2 ∧
      ¬ ofEmptyWire.WritesElements := by
  refine ⟨rfl, by decide, ?_⟩
  rw [writesElements_iff]
  rintro ⟨hnone, -⟩
  cases hnone

end Packet

end NdnCxx.Lp
