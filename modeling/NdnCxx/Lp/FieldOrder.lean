import Mathlib.Algebra.Order.BigOperators.Group.List
import Mathlib.Data.List.Chain
import NdnCxx.Lp.Packet

/-!
# The order of the fields

The elements of a packet are in the order of `compareFieldSortOrder` after any calls, whatever unknown
fields it was decoded with, so that a field occurs once at most and `wireDecode` accepts what the
elements are encoded as. Only the size of a block, which has 32 bits, is in the way: an element that
is longer is cut off where it is written.
-/

namespace NdnCxx.Lp

variable {second : ℕ}

namespace FieldInfo

/-- The order of TLV-TYPEs: the fragment comes last. -/
def Precedes (first second : ℕ) : Prop :=
  first ≠ Tlv.fragment ∧ (second = Tlv.fragment ∨ first < second)

theorem Precedes.trans {first third : ℕ} (hfirst : Precedes first second)
    (hsecond : Precedes second third) : Precedes first third := by
  obtain ⟨hne, hlt⟩ := hfirst
  obtain ⟨hne', hlt'⟩ := hsecond
  refine ⟨hne, hlt'.imp_right fun hlt' ↦ ?_⟩
  exact (hlt.resolve_left hne').trans hlt'

theorem Precedes.ne {first : ℕ} (hprecedes : Precedes first second) : first ≠ second := by
  rintro rfl
  exact hprecedes.2.elim hprecedes.1 (lt_irrefl _)

theorem precedes_or_precedes {first : ℕ} (hne : first ≠ second) :
    Precedes first second ∨ Precedes second first := by
  unfold Precedes
  omega

def IsDeclared (tlvType : ℕ) : Prop := ∃ field : Field, field.tlvType = tlvType

variable {tlvType : ℕ}

theorem foldl_extract_of_not_isDeclared (hnot : ¬ IsDeclared tlvType) (fields : List Field) :
    fields.foldl extract { tlvType := tlvType } = { tlvType := tlvType } := by
  induction fields with
  | nil => rfl
  | cons field rest ih =>
    have hne : field.tlvType ≠ tlvType := fun heq ↦ hnot ⟨field, heq⟩
    rw [List.foldl_cons, extract, if_pos hne]
    exact ih

theorem ofType_tlvType (field : Field) :
    ofType field.tlvType =
      { tlvType := field.tlvType
        isRecognized := true
        locationSortOrder := field.location.sortOrder } := by
  cases field <;> rfl

theorem ofType_of_not_isDeclared (hnot : ¬ IsDeclared tlvType) :
    ofType tlvType =
      { tlvType := tlvType
        canIgnore := Tlv.header3Min ≤ tlvType && tlvType ≤ Tlv.header3Max && tlvType % 2 == 1 } := by
  unfold ofType
  rw [foldl_extract_of_not_isDeclared hnot]
  rfl

/-- What matters of a TLV-TYPE: its order, that it cannot be repeated, and whether it is known. -/
theorem ofType_spec (tlvType : ℕ) :
    (ofType tlvType).tlvType = tlvType ∧ (ofType tlvType).isRepeatable = false ∧
      (ofType tlvType).locationSortOrder = (if tlvType = Tlv.fragment then 2 else 1) ∧
      (((ofType tlvType).isRecognized || (ofType tlvType).canIgnore) = true → tlvType < 960) := by
  by_cases hdeclared : IsDeclared tlvType
  · obtain ⟨field, rfl⟩ := hdeclared
    rw [ofType_tlvType]
    cases field <;> decide
  · have hfragment : tlvType ≠ Tlv.fragment := fun heq ↦ hdeclared ⟨.fragment, heq.symm⟩
    rw [ofType_of_not_isDeclared hdeclared]
    refine ⟨rfl, rfl, (if_neg hfragment).symm, fun hknown ↦ ?_⟩
    simp only [Bool.false_or, Bool.and_eq_true, decide_eq_true_eq] at hknown
    exact Nat.lt_succ_of_le hknown.1.2

theorem compareFieldSortOrder_iff (first second : ℕ) :
    compareFieldSortOrder (ofType first) (ofType second) = true ↔ Precedes first second := by
  obtain ⟨htype, -, horder, -⟩ := ofType_spec first
  obtain ⟨htype', -, horder', -⟩ := ofType_spec second
  simp only [compareFieldSortOrder, htype, htype', horder, horder', Bool.or_eq_true,
    Bool.and_eq_true, decide_eq_true_eq, beq_iff_eq, Precedes]
  split_ifs <;> omega

/-- The field is declared, or it can be ignored. -/
def IsKnown (tlvType : ℕ) : Prop :=
  ((ofType tlvType).isRecognized || (ofType tlvType).canIgnore) = true

theorem isKnown_tlvType (field : Field) : IsKnown field.tlvType := by
  rw [IsKnown, ofType_tlvType]
  rfl

theorem lt_of_isKnown (hknown : IsKnown tlvType) : tlvType < 960 :=
  (ofType_spec tlvType).2.2.2 hknown

end FieldInfo

namespace Packet

open FieldInfo

/-- Elements as `wireDecode` accepts them: known fields in order. -/
structure WellFormed (elements : List Block) : Prop where
  inOrder : elements.Pairwise fun first second ↦ Precedes first.type second.type
  known : ∀ element ∈ elements, IsKnown element.type
  isWire : ∀ element ∈ elements, element.IsWire

/-! ## Decoding -/

theorem checkFields_cons (prev : Option FieldInfo) (element : Block) (rest : List Block) :
    checkFields prev (element :: rest) =
      if !(ofType element.type).isRecognized && !(ofType element.type).canIgnore then
        some (.packet "unrecognized field cannot be ignored")
      else
        match prev with
        | none => checkFields (some (ofType element.type)) rest
        | some prev =>
            if (ofType element.type).tlvType = prev.tlvType &&
                !(ofType element.type).isRepeatable then
              some (.packet "non-repeatable field cannot be repeated")
            else if (ofType element.type).tlvType ≠ prev.tlvType &&
                !compareFieldSortOrder prev (ofType element.type) then
              some (.packet "fields are not in correct sort order")
            else checkFields (some (ofType element.type)) rest := by
  cases prev <;> rfl

variable {rest : List Block}

/-- One round of the loop -/
theorem checkFields_cons_eq_none_iff {prev : Option ℕ} {element : Block} :
    checkFields (prev.map ofType) (element :: rest) = none ↔
      IsKnown element.type ∧ (∀ before ∈ prev, Precedes before element.type) ∧
        checkFields (some (ofType element.type)) rest = none := by
  obtain ⟨htype, hrepeatable, -, -⟩ := ofType_spec element.type
  have hcompare (before : ℕ) := compareFieldSortOrder_iff before element.type
  have hprev (before : ℕ) := (ofType_spec before).1
  rw [checkFields_cons]
  unfold IsKnown
  generalize ofType element.type = info at *
  cases hknown : info.isRecognized || info.canIgnore with
  | false =>
    have hfail : (!info.isRecognized && !info.canIgnore) = true := by
      rw [← Bool.not_or, hknown]
      rfl
    simp [hfail]
  | true =>
    have hpass : (!info.isRecognized && !info.canIgnore) = false := by
      rw [← Bool.not_or, hknown]
      rfl
    cases prev with
    | none => simp [hpass]
    | some before =>
      have hbefore := hprev before
      have horder := hcompare before
      simp only [Option.map_some, hpass, htype, hrepeatable, Option.mem_def, Option.some.injEq,
        forall_eq', true_and]
      generalize ofType before = beforeInfo at *
      rw [← horder]
      by_cases hsame : element.type = before
      · have hnot : ¬ Precedes before element.type := fun hprecedes ↦ hprecedes.ne hsame.symm
        rw [← horder] at hnot
        simp [hsame, hbefore, hnot]
      · cases hless : beforeInfo.compareFieldSortOrder info with
        | false => simp [hsame, hbefore]
        | true => simp [hsame, hbefore]

/-- The loop lets pass known fields that are in order, also with the one before them. -/
theorem checkFields_eq_none_iff (prev : Option ℕ) (elements : List Block) :
    checkFields (prev.map ofType) elements = none ↔
      (∀ element ∈ elements, IsKnown element.type) ∧
        (prev.toList ++ elements.map Block.type).IsChain Precedes := by
  induction elements generalizing prev with
  | nil => cases prev <;> simp [checkFields]
  | cons element rest ih =>
    have hrest := ih (some element.type)
    rw [Option.map_some] at hrest
    rw [checkFields_cons_eq_none_iff, hrest, List.forall_mem_cons]
    cases prev with
    | none => simp [and_assoc]
    | some before =>
      simp only [Option.mem_def, Option.some.injEq, forall_eq', Option.toList_some,
        List.singleton_append, List.map_cons, List.isChain_cons_cons]
      exact ⟨fun ⟨hfirst, hbefore, hknown, hchain⟩ ↦ ⟨⟨hfirst, hknown⟩, hbefore, hchain⟩,
        fun ⟨⟨hfirst, hknown⟩, hbefore, hchain⟩ ↦ ⟨hfirst, hbefore, hknown, hchain⟩⟩

theorem checkFields_none_iff {elements : List Block} :
    checkFields none elements = none ↔
      (∀ element ∈ elements, IsKnown element.type) ∧
        elements.Pairwise fun first second ↦ Precedes first.type second.type := by
  have hcheck := checkFields_eq_none_iff none elements
  have : Trans Precedes Precedes Precedes := ⟨Precedes.trans⟩
  rw [Option.map_none, Option.toList_none, List.nil_append, List.isChain_iff_pairwise,
    List.pairwise_map] at hcheck
  exact hcheck

/-! ## Changing the elements -/

variable {elements : List Block} {packet : Packet} {field : Field}

theorem comparePos_iff {first : Block} :
    comparePos first second = true ↔ Precedes first.type second :=
  compareFieldSortOrder_iff _ _

theorem WellFormed.sublist (hwell : WellFormed elements) (hsublist : rest.Sublist elements) :
    WellFormed rest where
  inOrder := hwell.inOrder.sublist hsublist
  known element hmem := hwell.known element (hsublist.subset hmem)
  isWire element hmem := hwell.isWire element (hsublist.subset hmem)

theorem mem_insert (packet : Packet) (field : Field) (block element : Block) :
    element ∈ (packet.insert field block).subBlocks ↔
      element = block ∨ element ∈ packet.subBlocks := by
  rw [insert, List.perm_middle.mem_iff, List.mem_cons, List.takeWhile_append_dropWhile]

variable {block : Block} {calls : List Call}

/-- An element of a new type is put where it belongs. -/
theorem inOrder_insert (htype : block.type = field.tlvType)
    (hinOrder : elements.Pairwise fun first second ↦ Precedes first.type second.type)
    (hnew : ∀ element ∈ elements, element.type ≠ field.tlvType) :
    (elements.takeWhile (comparePos · field.tlvType) ++
      block :: elements.dropWhile (comparePos · field.tlvType)).Pairwise
        fun first second ↦ Precedes first.type second.type := by
  induction elements with
  | nil => simp
  | cons first rest ih =>
    obtain ⟨hfirst, hrest⟩ := List.pairwise_cons.mp hinOrder
    by_cases hbefore : Precedes first.type field.tlvType
    · have hcompare := comparePos_iff.mpr hbefore
      have hinserted := ih hrest fun element hmem ↦ hnew element (List.mem_cons_of_mem _ hmem)
      simp only [List.takeWhile_cons, List.dropWhile_cons, hcompare, if_true]
      rw [List.cons_append, List.pairwise_cons]
      refine ⟨fun element hmem ↦ ?_, hinserted⟩
      rw [List.perm_middle.mem_iff, List.mem_cons, List.takeWhile_append_dropWhile] at hmem
      rcases hmem with rfl | hmem
      · rwa [htype]
      · exact hfirst element hmem
    · have hcompare : comparePos first field.tlvType = false := by
        rwa [← Bool.not_eq_true, comparePos_iff]
      have hafter : Precedes field.tlvType first.type :=
        (precedes_or_precedes (hnew first List.mem_cons_self).symm).resolve_right hbefore
      simp only [List.takeWhile_cons, List.dropWhile_cons, hcompare, Bool.false_eq_true, if_false]
      rw [List.nil_append, List.pairwise_cons, htype]
      refine ⟨fun element hmem ↦ ?_, hinOrder⟩
      rcases List.mem_cons.mp hmem with rfl | hmem
      · exact hafter
      · exact hafter.trans (hfirst element hmem)

/-- An added element has the type of its field, and a wire. -/
theorem makeElement_spec {value : field.Value} (hmake : makeElement field value = .ok block) :
    block.type = field.tlvType ∧ block.IsWire ∧ ∃ range, range.length < 2 ^ 64 ∧
      block = Block.ofValue field.tlvType range ∧
        field.encode value = .ok (Tlv.prependByteArrayBlock field.tlvType range) := by
  have htype : field.tlvType < 2 ^ 32 := by cases field <;> decide
  have hencode : ∀ bytes, field.encode value = .ok bytes →
      ∃ range, bytes = Tlv.prependByteArrayBlock field.tlvType range := by
    intro bytes hbytes
    cases field with
    | cachePolicy =>
      simp only [Field.encode, CachePolicy.wireEncode] at hbytes
      split_ifs at hbytes
      cases hbytes
      exact ⟨_, rfl⟩
    | _ => cases hbytes; exact ⟨_, rfl⟩
  rw [makeElement, bind_eq_ok_iff] at hmake
  obtain ⟨bytes, hbytes, hmake⟩ := hmake
  obtain ⟨range, rfl⟩ := hencode bytes hbytes
  cases hwire : Block.fromWire (Tlv.prependByteArrayBlock field.tlvType range) with
  | error error => simp [hwire, ofTlv] at hmake
  | ok found =>
    obtain rfl : found = block := by simpa [hwire, ofTlv] using hmake
    obtain ⟨hrange, rfl⟩ := (Block.fromWire_prependByteArrayBlock_eq_ok_iff htype).mp hwire
    exact ⟨rfl, Block.ofValue_isWire htype hrange, range, hrange, rfl, hbytes⟩

theorem eraseAt_sublist {type index : ℕ} (herase : eraseAt type index elements = some rest) :
    rest.Sublist elements := by
  induction elements generalizing index rest with
  | nil => simp [eraseAt] at herase
  | cons element others ih =>
    rw [eraseAt] at herase
    split_ifs at herase
    · obtain rfl := Option.some.inj herase
      exact List.sublist_cons_self _ _
    all_goals
      obtain ⟨later, hlater, rfl⟩ := Option.map_eq_some_iff.mp herase
      exact (ih hlater).cons_cons element

/-! ## Calls -/

/-- The elements of a packet, which its wire has as well -/
structure Holds (packet : Packet) (elements : List Block) : Prop where
  wellFormed : WellFormed elements
  parsed : packet.parse = .ok ⟨packet.wire, elements⟩
  wire : ∀ wire, packet.wire = some wire →
    wire.type = Tlv.lpPacket ∧ Block.parse wire.value = .ok elements

theorem WellFormed.holds (hwell : WellFormed elements) : Holds ⟨none, elements⟩ elements :=
  ⟨hwell, by cases elements <;> rfl, by simp⟩

/-- Parsing the wire of a packet gives elements that it has already. -/
theorem WellFormed.holds_wire {wire : Block} (hwell : WellFormed elements)
    (htype : wire.type = Tlv.lpPacket) (hparse : Block.parse wire.value = .ok elements) :
    Holds ⟨some wire, elements⟩ elements := by
  refine ⟨hwell, ?_, fun other hother ↦ ?_⟩
  · cases elements with
    | cons element rest => rfl
    | nil => simp [parse, hparse, ofTlv, bind, Except.bind, pure, Except.pure]
  · obtain rfl := Option.some.inj hother
    exact ⟨htype, hparse⟩

theorem wellFormed_of_checkFields {value : Bytes} (hcheck : checkFields none elements = none)
    (hparse : Block.parse value = .ok elements) : WellFormed elements :=
  ⟨(checkFields_none_iff.mp hcheck).2, (checkFields_none_iff.mp hcheck).1,
    (Block.parse_eq_ok_iff.mp hparse).2⟩

theorem WellFormed.nil : WellFormed [] := ⟨by simp, by simp, by simp⟩

section

variable (hholds : Holds packet elements)
include hholds

/-- Parsing again changes nothing. -/
theorem Holds.of_parsed : Holds ⟨packet.wire, elements⟩ elements := by
  cases hwire : packet.wire with
  | none => exact hholds.wellFormed.holds
  | some wire =>
    obtain ⟨htype, hparse⟩ := hholds.wire wire hwire
    exact hholds.wellFormed.holds_wire htype hparse

theorem Holds.add (field : Field) (value : field.Value) :
    ∃ after, Holds (packet.add field value).1 after := by
  unfold Packet.add
  rw [hholds.parsed]
  dsimp only
  split_ifs with hrepeated
  · exact ⟨elements, hholds.of_parsed⟩
  · cases hmake : makeElement field value with
    | error fault => exact ⟨elements, hholds.of_parsed⟩
    | ok block =>
      obtain ⟨htype, hwire, -⟩ := makeElement_spec hmake
      have hnew : ∀ element ∈ elements, element.type ≠ field.tlvType := by
        simpa [Field.isRepeatable] using hrepeated
      have hmem := mem_insert ⟨packet.wire, elements⟩ field block
      refine ⟨_, WellFormed.holds ⟨inOrder_insert htype hholds.wellFormed.inOrder hnew, ?_, ?_⟩⟩
      · intro element helement
        rcases (hmem element).mp helement with rfl | helement
        · rw [htype]
          exact isKnown_tlvType field
        · exact hholds.wellFormed.known element helement
      · intro element helement
        rcases (hmem element).mp helement with rfl | helement
        · exact hwire
        · exact hholds.wellFormed.isWire element helement

theorem Holds.clear (field : Field) :
    packet.clear field =
        (⟨none, elements.filter fun element ↦ element.type != field.tlvType⟩, none) ∧
      Holds (packet.clear field).1
        (elements.filter fun element ↦ element.type != field.tlvType) := by
  have hclear : packet.clear field =
      (⟨none, elements.filter fun element ↦ element.type != field.tlvType⟩, none) := by
    rw [Packet.clear, hholds.parsed]
  refine ⟨hclear, ?_⟩
  rw [hclear]
  exact (hholds.wellFormed.sublist List.filter_sublist).holds

theorem Holds.remove (field : Field) (index : ℕ) :
    ∃ after, Holds (packet.remove field index).1 after := by
  unfold Packet.remove
  rw [hholds.parsed]
  dsimp only
  cases herase : eraseAt field.tlvType index elements with
  | none => exact ⟨elements, hholds.of_parsed⟩
  | some rest => exact ⟨rest, (hholds.wellFormed.sublist (eraseAt_sublist herase)).holds⟩

theorem Holds.set (value : field.Value) : ∃ after, Holds (packet.set field value).1 after := by
  obtain ⟨hclear, hcleared⟩ := hholds.clear field
  rw [hclear] at hcleared
  unfold Packet.set
  rw [hclear]
  exact hcleared.add field value

end

/-! ## Encoding -/

/-- Known fields in order are few. -/
theorem WellFormed.length_le (hwell : WellFormed elements) : elements.length ≤ 960 := by
  have hnodup : (elements.map Block.type).Nodup := by
    rw [List.Nodup, List.pairwise_map]
    exact hwell.inOrder.imp fun hprecedes ↦ hprecedes.ne
  have hsubset : elements.map Block.type ⊆ List.range 960 := by
    intro tlvType hmem
    obtain ⟨element, helement, rfl⟩ := List.mem_map.mp hmem
    exact List.mem_range.mpr (lt_of_isKnown (hwell.known element helement))
  have hle := (List.subperm_of_subset hnodup hsubset).length_le
  rwa [List.length_map, List.length_range] at hle

/-- Elements whose size fits into 32 bits are written as they are. -/
theorem WellFormed.encodeElements_eq (hwell : WellFormed elements)
    (hfits : ∀ element ∈ elements, element.wire.length < 2 ^ 32) :
    encodeElements elements = .ok (Block.ofElements Tlv.lpPacket elements) := by
  have hwritten : (elements.flatMap fun element ↦ Block.prependWire element.wire) =
      elements.flatMap Block.wire :=
    List.flatMap_congr fun element hmem ↦ Block.prependWire_eq (hfits element hmem)
  have htotal : (elements.flatMap Block.wire).length < 2 ^ 64 := by
    have hsum : (elements.flatMap Block.wire).length ≤ elements.length * 2 ^ 32 := by
      rw [List.length_flatMap]
      have hbound := (elements.map fun element ↦ element.wire.length).sum_le_card_nsmul
        (2 ^ 32) (by simpa using fun element hmem ↦ (hfits element hmem).le)
      simpa using hbound
    have hcount := hwell.length_le
    calc
      _ ≤ elements.length * 2 ^ 32 := hsum
      _ ≤ 960 * 2 ^ 32 := Nat.mul_le_mul_right _ hcount
      _ < 2 ^ 64 := by decide
  have hmake : Block.fromWire (Tlv.prependByteArrayBlock Tlv.lpPacket
      (elements.flatMap Block.wire)) = .ok (Block.ofElements Tlv.lpPacket elements) :=
    (Block.fromWire_prependByteArrayBlock_eq_ok_iff (by decide)).mpr ⟨htotal, rfl⟩
  rw [encodeElements, hwritten, hmake]
  rfl

theorem wireDecode_of_wellFormed (hwell : WellFormed elements) {wire : Block}
    (htype : wire.type = Tlv.lpPacket) (hparse : Block.parse wire.value = .ok elements)
    (other : Packet) : other.wireDecode wire = (⟨some wire, elements⟩, none) := by
  have hcheck := checkFields_none_iff.mpr ⟨hwell.known, hwell.inOrder⟩
  have hbare : ¬ (wire.type = NdnCxx.Tlv.interest ∨ wire.type = NdnCxx.Tlv.data) := by
    rw [htype]
    decide
  unfold wireDecode
  rw [if_neg hbare, if_neg (not_not.mpr htype), hparse]
  simp [ofTlv, hcheck]

/-- A wire that is accepted holds elements in order; a network packet becomes a fragment. -/
theorem Holds.wireDecode (hholds : Holds packet elements) (wire : Block) :
    ∃ after, Holds (packet.wireDecode wire).1 after := by
  unfold Packet.wireDecode
  split_ifs with hbare htype
  · exact WellFormed.nil.holds.add .fragment wire.wire
  · exact ⟨elements, hholds⟩
  · cases hparse : Block.parse wire.value with
    | error error => exact ⟨elements, hholds⟩
    | ok found =>
      simp only [ofTlv]
      cases hcheck : checkFields none found with
      | some fault => exact ⟨elements, hholds⟩
      | none =>
        exact ⟨found, (wellFormed_of_checkFields hcheck hparse).holds_wire (not_not.mp htype) hparse⟩

/-- Every element that would be written to a new wire has a size that fits into 32 bits. -/
def Encodable (packet : Packet) : Call → Prop
  | .wireEncode => packet.wire = none → packet.bareFragment = none →
      ∀ element ∈ packet.subBlocks, element.wire.length < 2 ^ 32
  | _ => True

instance decidableEncodable : (packet : Packet) → (next : Call) → Decidable (Encodable packet next)
  | packet, .wireEncode => inferInstanceAs (Decidable (packet.wire = none →
      packet.bareFragment = none → ∀ element ∈ packet.subBlocks, element.wire.length < 2 ^ 32))
  | _, .add _ _ | _, .set _ _ | _, .remove _ _ | _, .clear _ | _, .wireDecode _ => isTrue trivial

theorem Holds.subBlocks_eq (hholds : Holds packet elements) (hwire : packet.wire = none) :
    packet.subBlocks = elements := by
  have hparsed := hholds.parsed
  unfold parse at hparsed
  rw [hwire] at hparsed
  obtain ⟨wire, subBlocks⟩ := packet
  split_ifs at hparsed <;> simp_all

theorem Holds.wireEncode (hholds : Holds packet elements) (hencodable : Encodable packet .wireEncode) :
    ∃ after, Holds packet.wireEncode.1 after := by
  unfold Packet.wireEncode
  cases hwire : packet.wire with
  | some wire => exact ⟨elements, hholds⟩
  | none =>
    cases hbare : packet.bareFragment with
    | some fragment => exact ⟨elements, hholds⟩
    | none =>
      have helements := hholds.subBlocks_eq hwire
      have hfits := hencodable hwire hbare
      rw [helements] at hfits ⊢
      rw [hholds.wellFormed.encodeElements_eq hfits]
      have hparse : Block.parse (Block.ofElements Tlv.lpPacket elements).value = .ok elements :=
        Block.parse_ofElements hholds.wellFormed.isWire
      refine ⟨elements, hholds.wellFormed, ?_, fun other hother ↦ ?_⟩
      · simp [parse, hparse, ofTlv, bind, Except.bind, pure, Except.pure]
      · obtain rfl := Option.some.inj hother
        exact ⟨rfl, hparse⟩

theorem holds_of_run (hguarded : Run.Guarded step Encodable empty calls)
    (hrun : Run.run step empty calls = some packet) : ∃ elements, Holds packet elements := by
  apply Run.invariant_of_guarded (fun _ packet ↦ ∃ elements, Holds packet elements) _
    ⟨[], WellFormed.nil.holds⟩ hguarded hrun
  rintro past current next after ⟨elements, hholds⟩ hencodable hstep
  obtain rfl := Option.some.inj hstep
  cases next with
  | add field value => exact hholds.add field value
  | set field value => exact hholds.set value
  | remove field index => exact hholds.remove field index
  | clear field => exact ⟨_, (hholds.clear field).2⟩
  | wireEncode => exact hholds.wireEncode hencodable
  | wireDecode wire => exact hholds.wireDecode wire

/-- After any calls, in which no element that is too long was written to a new wire, the elements are
strictly in the order of `compareFieldSortOrder`, so that each TLV-TYPE occurs once at most; and if
the elements are not too long themselves, what they are encoded as is accepted and gives them back. -/
theorem inOrder_and_accepted_of_run (hguarded : Run.Guarded step Encodable empty calls)
    (hrun : Run.run step empty calls = some packet) :
    ∃ elements, packet.parse = .ok ⟨packet.wire, elements⟩ ∧
      (elements.Pairwise fun first second ↦
        compareFieldSortOrder (ofType first.type) (ofType second.type) = true) ∧
      (∀ tlvType, (elements.filter fun element ↦ element.type == tlvType).length ≤ 1) ∧
      ((∀ element ∈ elements, element.wire.length < 2 ^ 32) →
        ∃ wire, encodeElements elements = .ok wire ∧
          ∀ other : Packet, other.wireDecode wire = (⟨some wire, elements⟩, none)) := by
  obtain ⟨elements, hholds⟩ := holds_of_run hguarded hrun
  have hwell := hholds.wellFormed
  refine ⟨elements, hholds.parsed, ?_, fun tlvType ↦ ?_, fun hfits ↦ ?_⟩
  · exact hwell.inOrder.imp fun hprecedes ↦ (compareFieldSortOrder_iff _ _).mpr hprecedes
  · have hsame := hwell.inOrder.sublist
      (List.filter_sublist (p := fun element ↦ element.type == tlvType))
    have htypes (element : Block)
        (hmem : element ∈ elements.filter fun element ↦ element.type == tlvType) :
        element.type = tlvType := by
      simpa using (List.mem_filter.mp hmem).2
    generalize elements.filter (fun element ↦ element.type == tlvType) = found at hsame htypes
    match found with
    | [] => simp
    | [_] => simp
    | first :: second :: _ =>
      have hprecedes := (List.pairwise_cons.mp hsame).1 second (by simp)
      rw [htypes first (by simp), htypes second (by simp)] at hprecedes
      exact absurd rfl hprecedes.ne
  · exact ⟨_, hwell.encodeElements_eq hfits, wireDecode_of_wellFormed hwell rfl
      (Block.parse_ofElements hwell.isWire)⟩

/-- A packet with an unknown field between two fields, to which others are added -/
def withUnknown : List Call :=
  [.wireDecode (Block.ofElements Tlv.lpPacket [Block.ofValue 803 [], Block.ofValue 80 [6, 0]]),
    .add .sequence (7 : UInt64), .wireEncode, .add .nack (⟨50⟩ : NackHeader)]

theorem inOrder_withUnknown :
    ∃ packet, Run.run step empty withUnknown = some packet ∧
      packet.subBlocks.map Block.type = [81, 800, 803, 80] ∧
      packet.subBlocks.Pairwise fun first second ↦
        compareFieldSortOrder (ofType first.type) (ofType second.type) = true := by
  refine ⟨_, rfl, by decide, ?_⟩
  have hguarded : Run.Guarded step Encodable empty withUnknown := by decide
  obtain ⟨elements, hparse, hinOrder, -⟩ := inOrder_and_accepted_of_run hguarded rfl
  obtain rfl : _ = elements := congrArg Packet.subBlocks (Except.ok.inj hparse)
  exact hinOrder

/-! ## Elements that are too long -/

/-- The header of a fragment with 2^32 bytes is all that is written of it. -/
theorem not_accepted_of_length {range : Bytes} (hlength : range.length = 2 ^ 32) :
    ∃ packet wire, Run.run step empty [.add .fragment range] = some packet ∧
      encodeElements packet.subBlocks = .ok wire ∧ (empty.wireDecode wire).2 ≠ none := by
  have hmake : makeElement .fragment range = .ok (Block.ofValue Tlv.fragment range) := by
    have hwire : Block.fromWire (Tlv.prependByteArrayBlock Tlv.fragment range) =
        .ok (Block.ofValue Tlv.fragment range) :=
      (Block.fromWire_prependByteArrayBlock_eq_ok_iff (by decide)).mpr ⟨by omega, rfl⟩
    simp [makeElement, Field.encode, bind, Except.bind, hwire, ofTlv]
  let header : Bytes := [80, 255, 0, 0, 0, 1, 0, 0, 0, 0]
  have hwire : (Block.ofValue Tlv.fragment range).wire = header ++ range := by
    have hnumber : Tlv.writeVarNumber range.length = header.tail := by
      rw [hlength]
      decide
    rw [Block.ofValue, NdnCxx.Tlv.prependByteArrayBlock, hnumber, ← List.append_assoc]
    rfl
  have hwritten : Block.prependWire (Block.ofValue Tlv.fragment range).wire = header := by
    have hsize : (header ++ range).length % 2 ^ 32 = header.length := by
      rw [List.length_append, hlength]
      decide
    rw [Block.prependWire, hwire, hsize, List.take_left]
  have hadd : (empty.add .fragment range).1 = ⟨none, [Block.ofValue Tlv.fragment range]⟩ := by
    simp [add, parse, empty, Field.isRepeatable, hmake, insert]
  refine ⟨⟨none, [Block.ofValue Tlv.fragment range]⟩, Block.ofValue Tlv.lpPacket header, ?_, ?_,
    by decide⟩
  · exact congrArg some hadd
  · rw [encodeElements, List.flatMap_singleton, hwritten]
    rfl

def zeros (length : ℕ) : Bytes := List.replicate length 0

theorem not_accepted_zeros :
    ∃ packet wire, Run.run step empty [.add .fragment (zeros (2 ^ 32))] = some packet ∧
      encodeElements packet.subBlocks = .ok wire ∧ (empty.wireDecode wire).2 ≠ none :=
  not_accepted_of_length List.length_replicate

end Packet

end NdnCxx.Lp
