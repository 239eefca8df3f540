import NdnCxx.Lp.FieldOrder

/-!
# Encoding and decoding packets

A packet is encoded in an `LpPacket`, which gives it back, or, if a fragment is all it has, as the
network packet in the fragment. The second form takes the first block of the fragment for the network
packet and drops the rest, and it is not decoded unless that block is an Interest or a Data packet.
-/

namespace NdnCxx

namespace Block

variable {block : Block}

/-- The header takes a byte at least. -/
theorem IsWire.length_value_lt (hwire : block.IsWire) : block.value.length < block.wire.length := by
  have hle := hwire.length_wire_ofValue_le le_rfl
  have hpositive := Tlv.sizeOfVarNumber_pos block.type
  rw [length_wire_ofValue] at hle
  omega

/-- A length has at most 64 bits. -/
theorem IsWire.length_value_lt_two_pow (hwire : block.IsWire) : block.value.length < 2 ^ 64 := by
  obtain ⟨afterType, length, tempBegin, -, hlength, hle, hvalue, -⟩ :=
    fromBuffer_eq_some_iff.mp hwire
  have hcount : block.value.length = length := by
    rw [hvalue, List.length_take]
    omega
  have hfixed {width : ℕ} {bytes rest : Bytes} {number : ℕ}
      (hread : Tlv.readFixed width bytes = some (number, rest)) : number < 256 ^ width := by
    unfold Tlv.readFixed at hread
    split_ifs at hread with hshort
    obtain ⟨rfl, -⟩ := by simpa using hread
    refine lt_of_lt_of_le (Bytes.toNumber_lt _) (Nat.pow_le_pow_right (by decide) ?_)
    rw [List.length_take]
    exact Nat.min_le_left _ _
  rw [hcount]
  cases afterType with
  | nil => simp [Tlv.readVarNumber] at hlength
  | cons firstOctet body =>
    simp only [Tlv.readVarNumber] at hlength
    split_ifs at hlength with hone htwo hfour
    · obtain ⟨rfl, -⟩ := by simpa using hlength
      have hbyte := firstOctet.toNat_lt
      omega
    all_goals
      have hlt := hfixed hlength
      omega

end Block

namespace Lp.Packet

open FieldInfo

variable {packet : Packet} {elements : List Block}

/-- A new packet accepts what the packet is encoded as, and shows the same fields. -/
def RoundTrips (packet : Packet) : Prop :=
  ∃ wire other, packet.wireEncode.2 = .ok wire ∧ empty.wireDecode wire = (other, none) ∧
    ∀ field, other.list field = packet.list field

/-- The bytes are one Interest or Data packet, with blocks for a value. -/
def IsNetworkPacket (range : Bytes) : Prop :=
  ∃ networkPacket, Block.parse range = .ok [networkPacket] ∧
    (networkPacket.type = NdnCxx.Tlv.interest ∨ networkPacket.type = NdnCxx.Tlv.data) ∧
    ∃ inner, Block.parse networkPacket.value = .ok inner

theorem list_of_holds (hholds : Holds packet elements) (field : Field) :
    packet.list field =
      (elements.filter fun element ↦ element.type == field.tlvType).mapM field.decode := by
  rw [list, hholds.parsed]
  rfl

/-- The value of a field depends on the type and the value of its element. -/
theorem decode_congr {first second : Block} (htype : first.type = second.type)
    (hvalue : first.value = second.value) (field : Field) :
    field.decode first = field.decode second := by
  have hnumber : first.readNonNegativeInteger = second.readNonNegativeInteger := by
    simp only [Block.readNonNegativeInteger, hvalue]
  unfold Field.decode
  cases field <;>
    simp only [Field.decodeHelper, Field.decodeNumber, Field.decodeRange, NackHeader.wireDecode,
      CachePolicy.wireDecode, htype, hvalue, hnumber]

variable {range : Bytes}

theorem holds_ofValue (hrange : range.length < 2 ^ 64) :
    WellFormed [Block.ofValue Tlv.fragment range] where
  inOrder := by simp
  known element hmem := by
    rw [List.mem_singleton.mp hmem]
    exact isKnown_tlvType .fragment
  isWire element hmem := by
    rw [List.mem_singleton.mp hmem]
    exact Block.ofValue_isWire (by decide) hrange

theorem add_fragment (hrange : range.length < 2 ^ 64) :
    empty.add .fragment range = (⟨none, [Block.ofValue Tlv.fragment range]⟩, none) := by
  have hwire : Block.fromWire (Tlv.prependByteArrayBlock Tlv.fragment range) =
      .ok (Block.ofValue Tlv.fragment range) :=
    (Block.fromWire_prependByteArrayBlock_eq_ok_iff (by decide)).mpr ⟨hrange, rfl⟩
  have hmake : makeElement .fragment range = .ok (Block.ofValue Tlv.fragment range) := by
    simp [makeElement, Field.encode, bind, Except.bind, hwire, ofTlv]
  simp [add, parse, empty, Field.isRepeatable, hmake, insert]

variable {fragment : Block}

theorem list_fragment_of_singleton (htype : fragment.type = Tlv.fragment)
    (hvalue : fragment.value ≠ []) (hwell : WellFormed [fragment]) :
    (⟨none, [fragment]⟩ : Packet).list .fragment = .ok [fragment.value] := by
  rw [list_of_holds hwell.holds]
  simp [Field.tlvType, htype, Field.decode, Field.decodeHelper, Field.decodeRange, hvalue, bind,
    Except.bind, pure, Except.pure]

/-- Packets with one fragment each show the same fields if the fragments have the same value. -/
theorem list_eq_of_value_eq {first second : Block} (hfirst : WellFormed [first])
    (hsecond : WellFormed [second]) (htype : first.type = second.type)
    (hvalue : first.value = second.value) (field : Field) :
    (⟨none, [first]⟩ : Packet).list field = (⟨none, [second]⟩ : Packet).list field := by
  rw [list_of_holds hfirst.holds, list_of_holds hsecond.holds]
  cases hsame : second.type == field.tlvType with
  | false => simp [htype, hsame]
  | true => simp [htype, hsame, decode_congr htype hvalue]

/-- A list of values is one for every element of the type. -/
theorem exists_of_list_fragment (hholds : Holds packet elements)
    (hlist : packet.list .fragment = .ok [range]) :
    ∃ element ∈ elements, element.value = range := by
  rw [list_of_holds hholds] at hlist
  have hmem (element : Block)
      (helement : element ∈ elements.filter fun element ↦ element.type == Field.fragment.tlvType) :
      element ∈ elements := (List.mem_filter.mp helement).1
  cases hfound : elements.filter fun element ↦ element.type == Field.fragment.tlvType with
  | nil =>
    rw [hfound] at hlist
    cases hlist
  | cons element rest =>
    rw [hfound] at hlist hmem
    refine ⟨element, hmem element List.mem_cons_self, ?_⟩
    rw [List.mapM_cons, bind_eq_ok_iff] at hlist
    obtain ⟨value, hvalue, hlist⟩ := hlist
    rw [bind_eq_ok_iff] at hlist
    obtain ⟨values, -, hlist⟩ := hlist
    obtain rfl : value = range := (List.cons.inj (Except.ok.inj hlist)).1
    unfold Field.decode at hvalue
    split_ifs at hvalue
    simp only [Field.decodeHelper, Field.decodeRange] at hvalue
    split_ifs at hvalue
    exact Except.ok.inj hvalue

/-- A bare network packet is what is decoded if and only if it is all of the fragment. -/
theorem roundTrips_bare_iff (htype : fragment.type = Tlv.fragment) (hwell : WellFormed [fragment]) :
    RoundTrips ⟨none, [fragment]⟩ ↔ IsNetworkPacket fragment.value := by
  have hfragment : fragment.IsWire := hwell.isWire fragment (List.mem_singleton.mpr rfl)
  have hencode : (⟨none, [fragment]⟩ : Packet).wireEncode.2 = barePacket fragment := by
    simp [wireEncode, bareFragment, htype]
  unfold RoundTrips
  rw [hencode]
  constructor
  · rintro ⟨wire, other, hwire, hdecode, hlists⟩
    have hlist := hlists .fragment
    unfold barePacket at hwire
    cases hparse : Block.parse fragment.value with
    | error error => simp [hparse, ofTlv, bind, Except.bind] at hwire
    | ok elements =>
    cases elements with
    | nil => simp [hparse, ofTlv, bind, Except.bind] at hwire
    | cons networkPacket rest =>
    cases hinner : Block.parse networkPacket.value with
    | error error => simp [hparse, hinner, ofTlv, bind, Except.bind] at hwire
    | ok inner =>
    obtain rfl : networkPacket = wire := by
      simpa [hparse, hinner, ofTlv, bind, Except.bind, pure, Except.pure] using hwire
    obtain ⟨hvalue, hwires⟩ := Block.parse_eq_ok_iff.mp hparse
    have hpacket : networkPacket.IsWire := hwires networkPacket List.mem_cons_self
    rw [List.flatMap_cons] at hvalue
    have hnonempty : fragment.value ≠ [] := by
      rw [hvalue]
      simp [hpacket.wire_ne_nil]
    rw [list_fragment_of_singleton htype hnonempty hwell] at hlist
    have hshorter : networkPacket.wire.length ≤ fragment.value.length := by
      rw [hvalue, List.length_append]
      exact Nat.le_add_right _ _
    have hrange : networkPacket.wire.length < 2 ^ 64 :=
      lt_of_le_of_lt hshorter hfragment.length_value_lt_two_pow
    unfold wireDecode at hdecode
    split_ifs at hdecode with hnetwork hlp
    · -- the fragment of the new packet is the wire of the network packet
      rw [add_fragment hrange] at hdecode
      obtain rfl := (Prod.mk.inj hdecode).1
      rw [list_fragment_of_singleton rfl hpacket.wire_ne_nil (holds_ofValue hrange)] at hlist
      have hsame : networkPacket.wire = fragment.value :=
        (List.cons.inj (Except.ok.inj hlist)).1
      have hrest : rest = [] := by
        cases rest with
        | nil => rfl
        | cons second others =>
          rw [← hsame, List.flatMap_cons] at hvalue
          have hempty : second.wire ++ others.flatMap Block.wire = [] := by
            simpa using hvalue
          have hsecond := hwires second (List.mem_cons_of_mem _ List.mem_cons_self)
          exact absurd (List.append_eq_nil_iff.mp hempty).1 hsecond.wire_ne_nil
      exact ⟨networkPacket, by rw [hparse, hrest], hnetwork, inner, hinner⟩
    · simp at hdecode
    · -- an `LpPacket` in the fragment is too short to hold the fragment
      rw [hinner] at hdecode
      simp only [ofTlv] at hdecode
      cases hcheck : checkFields none inner with
      | some fault => simp [hcheck] at hdecode
      | none =>
      rw [hcheck] at hdecode
      obtain rfl := (Prod.mk.inj hdecode).1
      have hholds := (wellFormed_of_checkFields hcheck hinner).holds_wire (not_not.mp hlp) hinner
      obtain ⟨element, helement, hsame⟩ := exists_of_list_fragment hholds hlist
      have hinside : element.wire.length ≤ networkPacket.value.length := by
        rw [(Block.parse_eq_ok_iff.mp hinner).1]
        simpa using ((List.singleton_sublist.mpr helement).flatMap Block.wire).length_le
      have hvalueShorter := ((Block.parse_eq_ok_iff.mp hinner).2 element helement).length_value_lt
      have hpacketShorter := hpacket.length_value_lt
      rw [hsame] at hvalueShorter
      omega
  · rintro ⟨networkPacket, hparse, hnetwork, inner, hinner⟩
    have hvalue : fragment.value = networkPacket.wire := by
      simpa using (Block.parse_eq_ok_iff.mp hparse).1
    have hrange : networkPacket.wire.length < 2 ^ 64 := by
      rw [← hvalue]
      exact hfragment.length_value_lt_two_pow
    refine ⟨networkPacket, ⟨none, [Block.ofValue Tlv.fragment networkPacket.wire]⟩, ?_, ?_, ?_⟩
    · simp [barePacket, hparse, hinner, ofTlv, bind, Except.bind, pure, Except.pure]
    · rw [wireDecode, if_pos hnetwork, add_fragment hrange]
    · exact list_eq_of_value_eq (holds_ofValue hrange) hwell htype.symm hvalue.symm

/-- After any calls, in which no element that is too long was written to a new wire, and with
elements that are not too long if there is no wire yet, a packet is encoded and decoded with the same
fields if and only if it has a wire, a header, or for its only field a fragment that is one network
packet. -/
theorem roundTrips_iff_of_run {calls : List Call}
    (hguarded : Run.Guarded step Encodable empty calls)
    (hrun : Run.run step empty calls = some packet) (hencodable : Encodable packet .wireEncode) :
    RoundTrips packet ↔ ∀ fragment, packet.wire = none → packet.bareFragment = some fragment →
      IsNetworkPacket fragment.value := by
  obtain ⟨elements, hholds⟩ := holds_of_run hguarded hrun
  have hlpPacket {wire : Block} (hwire : packet.wireEncode.2 = .ok wire)
      (htype : wire.type = Tlv.lpPacket) (hparse : Block.parse wire.value = .ok elements) :
      RoundTrips packet := by
    refine ⟨wire, ⟨some wire, elements⟩, hwire,
      wireDecode_of_wellFormed hholds.wellFormed htype hparse empty, fun field ↦ ?_⟩
    rw [list_of_holds (hholds.wellFormed.holds_wire htype hparse), list_of_holds hholds]
  cases hwire : packet.wire with
  | some wire =>
    have hencode : packet.wireEncode.2 = .ok wire := by simp [wireEncode, hwire]
    obtain ⟨htype, hparse⟩ := hholds.wire wire hwire
    exact iff_of_true (hlpPacket hencode htype hparse) (by simp)
  | none =>
    have helements := hholds.subBlocks_eq hwire
    cases hbare : packet.bareFragment with
    | none =>
      have hfits := hencodable hwire hbare
      have hencode : packet.wireEncode.2 = .ok (Block.ofElements Tlv.lpPacket elements) := by
        rw [helements] at hfits
        simp [wireEncode, hwire, hbare, helements, hholds.wellFormed.encodeElements_eq hfits]
      exact iff_of_true
        (hlpPacket hencode rfl (Block.parse_ofElements hholds.wellFormed.isWire)) (by simp)
    | some fragment =>
      obtain ⟨wire, subBlocks⟩ := packet
      obtain rfl : wire = none := hwire
      obtain rfl : subBlocks = elements := helements
      unfold bareFragment at hbare
      split at hbare
      · rename_i element hsingle
        obtain rfl : subBlocks = [element] := hsingle
        split_ifs at hbare with htype
        obtain rfl := Option.some.inj hbare
        simp [roundTrips_bare_iff htype hholds.wellFormed]
      · simp at hbare

/-- A Data packet with an empty name, sent without a header -/
theorem roundTrips_bareData :
    ∃ packet, Run.run step empty [.add .fragment [6, 2, 7, 0]] = some packet ∧
      packet.bareFragment.isSome = true ∧ RoundTrips packet := by
  refine ⟨_, rfl, by decide, ?_⟩
  have hguarded : Run.Guarded step Encodable empty [.add .fragment [6, 2, 7, 0]] := by decide
  refine (roundTrips_iff_of_run hguarded rfl (by decide)).mpr fun fragment _ hfragment ↦ ?_
  obtain rfl := Option.some.inj hfragment
  exact ⟨⟨6, [7, 0], [6, 2, 7, 0]⟩, rfl, by decide, [⟨7, [], [7, 0]⟩], rfl⟩

/-- A fragment that is no block cannot be encoded, and what follows a block is lost. -/
theorem not_roundTrips_fragment :
    (∃ packet, Run.run step empty [.add .fragment [65]] = some packet ∧ ¬ RoundTrips packet) ∧
    ∃ packet wire other, Run.run step empty [.add .fragment [6, 0, 6, 0]] = some packet ∧
      packet.wireEncode.2 = .ok wire ∧ empty.wireDecode wire = (other, none) ∧
      packet.list .fragment = .ok [([6, 0, 6, 0] : Bytes)] ∧
      other.list .fragment = .ok [([6, 0] : Bytes)] := by
  constructor
  · refine ⟨_, rfl, ?_⟩
    rintro ⟨wire, other, hwire, -⟩
    cases hwire
  · exact ⟨_, _, _, rfl, rfl, rfl, rfl, rfl⟩

end Lp.Packet

end NdnCxx
