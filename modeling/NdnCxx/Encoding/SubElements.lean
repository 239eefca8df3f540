import NdnCxx.Encoding.Elements

/-!
# Sub-elements of a block object

`Block::parse` collects the sub-elements in a member of the block and does nothing when there are some
already. Where the length of an element exceeds what is left, the collected ones are dropped before the
exception. Where its type or its length cannot be read they stay, and the next `parse` takes the block
for a parsed one.
-/

namespace NdnCxx

namespace Block

/-- The bytes that `Block::value` points to, as many as `Block::value_size` says -/
def Element.value (element : Element) : Bytes := element.toBlock.value

namespace Unencoded

def value (block : Unencoded) : Bytes := Element.value ⟨block.type, block.content⟩

/-- The loop of `Block::parse`: the exception it ends with, and `m_subBlocks` at that point. Each round
consumes a header, so the number of bytes bounds the number of rounds. -/
def parseInto : ℕ → List Block → Bytes → Option Error × List Block
  | _, subBlocks, [] => (none, subBlocks)
  | 0, subBlocks, _ :: _ => (none, subBlocks)
  | rounds + 1, subBlocks, elementBegin =>
      match Tlv.readTypeOrThrow elementBegin with
      | .error error => (some error, subBlocks)
      | .ok (type, afterType) =>
          match Tlv.readVarNumberOrThrow afterType with
          | .error error => (some error, subBlocks)
          | .ok (length, valueBegin) =>
              if length > valueBegin.length then
                (some ⟨.tlv, "TLV length exceeds buffer length"⟩, [])
              else
                let element : Block :=
                  { type := type
                    value := valueBegin.take length
                    wire := elementBegin.take
                      (elementBegin.length - valueBegin.length + length) }
                parseInto rounds (subBlocks ++ [element]) (valueBegin.drop length)

/-- `Block::parse` as the object sees it: the exception, if there is one, and the block afterwards. -/
def parse (block : Unencoded) : Option Error × Unencoded :=
  if !block.subBlocks.isEmpty || block.value.isEmpty then (none, block)
  else
    let (thrown, subBlocks) := parseInto block.value.length [] block.value
    (thrown, { block with subBlocks := subBlocks.map toElement })

/-- The block after some calls of `parse`, whose exceptions have been caught. -/
def afterParses (block : Unencoded) : ℕ → Unencoded
  | 0 => block
  | calls + 1 => (afterParses block calls).parse.2

/-! ## The loop -/

/-- The type and the length at the beginning of the bytes can be read. -/
def HasHeader (bytes : Bytes) : Prop :=
  ∃ type afterType length valueBegin, Tlv.readType bytes = some (type, afterType) ∧
    Tlv.readVarNumber afterType = some (length, valueBegin)

variable {element : Block}

theorem hasHeader_of_fromBuffer {bytes : Bytes} (hread : fromBuffer bytes = some element) :
    HasHeader bytes := by
  obtain ⟨afterType, length, tempBegin, htype, hlength, -⟩ := fromBuffer_eq_some_iff.mp hread
  exact ⟨element.type, afterType, length, tempBegin, htype, hlength⟩

variable {elementBegin : Bytes} {subBlocks front : List Block} {block : Unencoded}
    {content : Content} {type : ℕ} {rounds : ℕ} {rest : Bytes} {elements : List Block}

/-- A round that finds an element. -/
theorem parseInto_of_fromBuffer (hread : fromBuffer elementBegin = some element) :
    parseInto (rounds + 1) subBlocks elementBegin =
      parseInto rounds (subBlocks ++ [element]) (elementBegin.drop element.wire.length) := by
  have hnonempty : elementBegin ≠ [] := by
    rintro rfl
    simp [fromBuffer, Tlv.readType, Tlv.readVarNumber] at hread
  obtain ⟨afterType, length, valueBegin, htype, hlength, hle, hvalue, hwire⟩ :=
    fromBuffer_eq_some_iff.mp hread
  have hdrop : elementBegin.drop element.wire.length = valueBegin.drop length :=
    drop_length_wire htype hlength hle hwire
  have helement : element = ⟨element.type, valueBegin.take length,
      elementBegin.take (elementBegin.length - valueBegin.length + length)⟩ := by
    rw [← hvalue, ← hwire]
  rw [parseInto, Tlv.readTypeOrThrow_eq_ok_iff.mpr htype]
  · simp only [Tlv.readVarNumberOrThrow_eq_ok_iff.mpr hlength]
    rw [if_neg (Nat.not_lt.mpr hle), hdrop, ← helement]
  · exact hnonempty

/-- A round that finds a header only: the elements are dropped. -/
theorem parseInto_of_hasHeader (hheader : HasHeader elementBegin)
    (hread : fromBuffer elementBegin = none) :
    parseInto (rounds + 1) subBlocks elementBegin =
      (some ⟨.tlv, "TLV length exceeds buffer length"⟩, []) := by
  obtain ⟨type, afterType, length, valueBegin, htype, hlength⟩ := hheader
  have hnonempty : elementBegin ≠ [] := by
    rintro rfl
    simp [Tlv.readType, Tlv.readVarNumber] at htype
  have hshort : length > valueBegin.length := by
    by_contra hlong
    simp [fromBuffer, htype, hlength, if_neg hlong] at hread
  rw [parseInto, Tlv.readTypeOrThrow_eq_ok_iff.mpr htype]
  · simp only [Tlv.readVarNumberOrThrow_eq_ok_iff.mpr hlength, if_pos hshort]
  · exact hnonempty

/-- A round that finds no header: the elements stay. -/
theorem parseInto_of_not_hasHeader (hnonempty : elementBegin ≠ [])
    (hheader : ¬ HasHeader elementBegin) :
    ∃ error, parseInto (rounds + 1) subBlocks elementBegin = (some error, subBlocks) := by
  rw [parseInto]
  · cases htype : Tlv.readTypeOrThrow elementBegin with
    | error error => exact ⟨error, rfl⟩
    | ok found =>
      obtain ⟨type, afterType⟩ := found
      cases hlength : Tlv.readVarNumberOrThrow afterType with
      | error error => exact ⟨error, by simp only [hlength]⟩
      | ok found' =>
        exact absurd ⟨type, afterType, found'.1, found'.2, Tlv.readTypeOrThrow_eq_ok_iff.mp htype,
          Tlv.readVarNumberOrThrow_eq_ok_iff.mp hlength⟩ hheader
  · exact hnonempty

/-- Complete elements in front are collected first. -/
theorem parseInto_append (hwires : ∀ element ∈ front, element.IsWire) (rest : Bytes) (rounds : ℕ)
    (subBlocks : List Block) (hrounds : (front.flatMap Block.wire ++ rest).length ≤ rounds) :
    ∃ later, rest.length ≤ later ∧ parseInto rounds subBlocks (front.flatMap Block.wire ++ rest) =
      parseInto later (subBlocks ++ front) rest := by
  induction front generalizing rounds subBlocks with
  | nil => exact ⟨rounds, hrounds, by rw [List.append_nil]; rfl⟩
  | cons element front ih =>
    have helement : element.IsWire := hwires element List.mem_cons_self
    have hpos : 0 < element.wire.length := List.length_pos_iff.mpr helement.wire_ne_nil
    rw [List.flatMap_cons, List.append_assoc] at hrounds ⊢
    rw [List.length_append] at hrounds
    obtain ⟨fewer, rfl⟩ : ∃ fewer, rounds = fewer + 1 := ⟨rounds - 1, by omega⟩
    obtain ⟨later, hlater, hparse⟩ :=
      ih (fun other hmem ↦ hwires other (List.mem_cons_of_mem element hmem)) fewer
        (subBlocks ++ [element]) (by omega)
    refine ⟨later, hlater, ?_⟩
    rw [parseInto_of_fromBuffer (helement.fromBuffer_append _), List.drop_left, hparse,
      List.append_assoc, List.singleton_append]

/-- Every value is made of complete elements and of bytes that do not begin with one. -/
theorem exists_front (value : Bytes) :
    ∃ (front : List Block) (rest : Bytes), value = front.flatMap Block.wire ++ rest ∧
      (∀ element ∈ front, element.IsWire) ∧ (rest = [] ∨ fromBuffer rest = none) := by
  induction hlength : value.length using Nat.strong_induction_on generalizing value with
  | _ count ih =>
    cases hread : fromBuffer value with
    | none => exact ⟨[], value, rfl, by simp, .inr hread⟩
    | some element =>
      have hwire : element.IsWire := isWire_of_fromBuffer hread
      have hpos : 0 < element.wire.length := List.length_pos_iff.mpr hwire.wire_ne_nil
      obtain ⟨tail, htail⟩ := wire_isPrefix hread
      have hshorter : tail.length < count := by
        rw [← hlength, ← htail, List.length_append]
        omega
      obtain ⟨front, rest, hvalue, hwires, hrest⟩ := ih tail.length hshorter tail rfl
      refine ⟨element :: front, rest, ?_, List.forall_mem_cons.mpr ⟨hwire, hwires⟩, hrest⟩
      rw [List.flatMap_cons, List.append_assoc, ← hvalue, htail]

/-! ## Calls of parse -/

/-- A block that has not been parsed. -/
def unparsed (type : ℕ) (content : Content) : Unencoded := ⟨type, content, []⟩

/-- The value is a concatenation of these TLVs. -/
def IsConcatenation (value : Bytes) (elements : List Block) : Prop :=
  value = elements.flatMap Block.wire ∧ ∀ element ∈ elements, element.IsWire

/-- Every call returns, and the block has these sub-elements after it and is otherwise the same. -/
def AlwaysYields (block : Unencoded) (elements : List Block) : Prop :=
  ∀ calls, (block.afterParses calls).parse =
    (none, { block with subBlocks := elements.map toElement })

/-- Every call throws, and the block has no sub-elements after it. -/
def AlwaysThrows (block : Unencoded) : Prop :=
  ∀ calls, ∃ error, (block.afterParses calls).parse = (some error, { block with subBlocks := [] })

/-- A concatenation of TLVs is taken apart, and any other value refused, whenever it is asked. -/
def ParsesSoundly (block : Unencoded) : Prop :=
  (∀ elements, IsConcatenation block.value elements → block.AlwaysYields elements) ∧
    ((¬ ∃ elements, IsConcatenation block.value elements) → block.AlwaysThrows)

/-- Whatever is left behind some complete TLVs has a type and a length that can be read. -/
def LeavesHeaders (value : Bytes) : Prop :=
  ∀ (front : List Block) (rest : Bytes), value = front.flatMap Block.wire ++ rest →
    (∀ element ∈ front, element.IsWire) → front ≠ [] → rest ≠ [] → HasHeader rest

theorem parse_of_subBlocks (hparsed : block.subBlocks ≠ []) : block.parse = (none, block) := by
  rw [parse, if_pos]
  rw [Bool.or_eq_true, Bool.not_eq_true', List.isEmpty_eq_false_iff]
  exact .inl hparsed

/-- The first call, on a value split into its complete elements and the rest. -/
theorem parse_unparsed (hvalue : (unparsed type content).value = front.flatMap Block.wire ++ rest)
    (hwires : ∀ element ∈ front, element.IsWire) :
    ∃ later, rest.length ≤ later ∧ (unparsed type content).parse =
      ((parseInto later front rest).1,
        ⟨type, content, (parseInto later front rest).2.map toElement⟩) := by
  by_cases hempty : (unparsed type content).value = []
  · rw [hempty] at hvalue
    obtain ⟨hfront, rfl⟩ := List.append_eq_nil_iff.mp hvalue.symm
    have hnone : front = [] := by
      cases front with
      | nil => rfl
      | cons element front =>
        rw [List.flatMap_cons, List.append_eq_nil_iff] at hfront
        exact absurd hfront.1 (hwires element List.mem_cons_self).wire_ne_nil
    subst hnone
    refine ⟨0, le_rfl, ?_⟩
    rw [parse, hempty, if_pos (by rw [List.isEmpty_nil, Bool.or_true])]
    rfl
  · obtain ⟨later, hlater, hparse⟩ := parseInto_append hwires rest
      (unparsed type content).value.length [] (by rw [hvalue])
    refine ⟨later, hlater, ?_⟩
    have hnot : ¬ (!(unparsed type content).subBlocks.isEmpty ||
        (unparsed type content).value.isEmpty) = true := by
      simpa [unparsed] using hempty
    rw [parse, if_neg hnot]
    rw [List.nil_append, ← hvalue] at hparse
    simp only [hparse]
    rfl

/-- Something is left behind the elements, so that there is another round. -/
theorem parse_unparsed_of_rest
    (hvalue : (unparsed type content).value = front.flatMap Block.wire ++ rest)
    (hwires : ∀ element ∈ front, element.IsWire) (hrest : rest ≠ []) :
    ∃ fewer, (unparsed type content).parse = ((parseInto (fewer + 1) front rest).1,
      ⟨type, content, (parseInto (fewer + 1) front rest).2.map toElement⟩) := by
  obtain ⟨later, hlater, hparse⟩ := parse_unparsed hvalue hwires
  have hpos : 0 < rest.length := List.length_pos_iff.mpr hrest
  obtain ⟨fewer, rfl⟩ : ∃ fewer, later = fewer + 1 := ⟨later - 1, by omega⟩
  exact ⟨fewer, hparse⟩

/-- One call that changes nothing is repeated. -/
theorem afterParses_of_parse {thrown : Option Error} (hparse : block.parse = (thrown, block))
    (calls : ℕ) : block.afterParses calls = block := by
  induction calls with
  | zero => rfl
  | succ calls ih => rw [afterParses, ih, hparse]

theorem afterParses_succ (block : Unencoded) (calls : ℕ) :
    block.afterParses (calls + 1) = block.parse.2.afterParses calls := by
  induction calls with
  | zero => rfl
  | succ calls ih => rw [afterParses, ih, afterParses]

theorem alwaysYields_of_parse
    (hparse : block.parse = (none, { block with subBlocks := elements.map toElement }))
    (hstays : ({ block with subBlocks := elements.map toElement } : Unencoded).parse =
      (none, { block with subBlocks := elements.map toElement })) :
    block.AlwaysYields elements := by
  intro calls
  cases calls with
  | zero => exact hparse
  | succ calls => rw [afterParses_succ, hparse, afterParses_of_parse hstays, hstays]

/-- Behind an element that is complete there is nothing to be read. -/
theorem not_isConcatenation (hwires : ∀ element ∈ front, element.IsWire) (hrest : rest ≠ [])
    (hread : fromBuffer rest = none) :
    ¬ ∃ elements, IsConcatenation (front.flatMap Block.wire ++ rest) elements := by
  rintro ⟨elements, hconcatenation⟩
  obtain ⟨later, -, hlater⟩ :=
    parse_flatMap_wire_append hwires (Block.parse_eq_ok_iff.mpr hconcatenation)
  obtain ⟨hvalue, hwires'⟩ := Block.parse_eq_ok_iff.mp hlater
  cases later with
  | nil => exact hrest hvalue
  | cons element later =>
    rw [hvalue, List.flatMap_cons,
      (hwires' element List.mem_cons_self).fromBuffer_append] at hread
    cases hread

theorem IsConcatenation.unique {value : Bytes} {others : List Block}
    (hconcatenation : IsConcatenation value elements) (hother : IsConcatenation value others) :
    elements = others := by
  have hparse := Block.parse_eq_ok_iff.mpr hconcatenation
  rw [Block.parse_eq_ok_iff.mpr hother] at hparse
  exact (Except.ok.inj hparse).symm

theorem alwaysYields_unparsed
    (hconcatenation : IsConcatenation (unparsed type content).value elements) :
    (unparsed type content).AlwaysYields elements := by
  obtain ⟨hvalue, hwires⟩ := hconcatenation
  have hsplit : (unparsed type content).value = elements.flatMap Block.wire ++ [] := by
    rw [hvalue, List.append_nil]
  obtain ⟨later, -, hparse⟩ := parse_unparsed hsplit hwires
  have hnil : parseInto later elements [] = (none, elements) := by cases later <;> rfl
  rw [hnil] at hparse
  apply alwaysYields_of_parse hparse
  cases elements with
  | nil => exact hparse
  | cons element elements => exact parse_of_subBlocks (by simp)

/-- A call that returns has found the value to be a concatenation. -/
theorem isConcatenation_of_parse (hparse : (unparsed type content).parse = (none, block)) :
    ∃ elements, IsConcatenation (unparsed type content).value elements ∧
      block.subBlocks = elements.map toElement := by
  obtain ⟨front, rest, hvalue, hwires, hend⟩ := exists_front (unparsed type content).value
  by_cases hrest : rest = []
  · subst hrest
    have hconcatenation : IsConcatenation (unparsed type content).value front :=
      ⟨by rw [hvalue, List.append_nil], hwires⟩
    have hyields := alwaysYields_unparsed hconcatenation 0
    rw [afterParses, hparse] at hyields
    exact ⟨front, hconcatenation, by rw [(Prod.mk.inj hyields).2]⟩
  · obtain ⟨fewer, hthrown⟩ := parse_unparsed_of_rest hvalue hwires hrest
    rw [hparse] at hthrown
    by_cases hheader : HasHeader rest
    · rw [parseInto_of_hasHeader hheader (hend.resolve_left hrest)] at hthrown
      cases hthrown
    · obtain ⟨error, hstayed⟩ : ∃ error, parseInto (fewer + 1) front rest = (some error, front) :=
        parseInto_of_not_hasHeader hrest hheader
      rw [hstayed] at hthrown
      cases hthrown

/-- A value is parsed soundly if no exception comes from a header behind a complete element. -/
theorem parsesSoundly_iff (type : ℕ) (content : Content) :
    (unparsed type content).ParsesSoundly ↔ LeavesHeaders (unparsed type content).value := by
  constructor
  · rintro ⟨-, hthrows⟩ front rest hvalue hwires hfront hrest
    by_contra hheader
    have hread : fromBuffer rest = none := by
      cases hfound : fromBuffer rest with
      | none => rfl
      | some element => exact absurd (hasHeader_of_fromBuffer hfound) hheader
    have hmalformed := not_isConcatenation hwires hrest hread
    rw [← hvalue] at hmalformed
    -- the elements in front have stayed, so that the block does not come out empty
    obtain ⟨thrown, hempty⟩ := hthrows hmalformed 0
    obtain ⟨fewer, hparse⟩ := parse_unparsed_of_rest hvalue hwires hrest
    obtain ⟨error, hstayed⟩ : ∃ error, parseInto (fewer + 1) front rest = (some error, front) :=
      parseInto_of_not_hasHeader hrest hheader
    rw [hstayed] at hparse
    rw [afterParses, hparse] at hempty
    simp only [Prod.mk.injEq, mk.injEq, List.map_eq_nil_iff] at hempty
    exact hfront hempty.2.2.2
  · intro hleaves
    refine ⟨fun elements ↦ alwaysYields_unparsed, ?_⟩
    intro hmalformed
    obtain ⟨front, rest, hvalue, hwires, hend⟩ := exists_front (unparsed type content).value
    have hrest : rest ≠ [] := by
      rintro rfl
      exact hmalformed ⟨front, by rw [hvalue, List.append_nil], hwires⟩
    have hread : fromBuffer rest = none := hend.resolve_left hrest
    obtain ⟨fewer, hparse⟩ := parse_unparsed_of_rest hvalue hwires hrest
    obtain ⟨error, hthrown⟩ : ∃ error, parseInto (fewer + 1) front rest = (some error, []) := by
      by_cases hheader : HasHeader rest
      · exact ⟨_, parseInto_of_hasHeader hheader hread⟩
      · have hnone : front = [] := by
          by_contra hfront
          exact hheader (hleaves front rest hvalue hwires hfront hrest)
        subst hnone
        exact parseInto_of_not_hasHeader hrest hheader
    rw [hthrown] at hparse
    intro calls
    exact ⟨error, by rw [afterParses_of_parse hparse]; exact hparse⟩

/-- A complete element and a single byte of a header: the second call returns. -/
theorem not_parsesSoundly_truncated :
    (unparsed 7 (.value [8, 0, 8])).parse =
        (some ⟨.tlv, "Empty buffer during TLV processing"⟩,
          ⟨7, .value [8, 0, 8], [⟨8, .wire [] [8, 0]⟩]⟩) ∧
      (unparsed 7 (.value [8, 0, 8])).parse.2.parse.1 = none ∧
      ¬ (unparsed 7 (.value [8, 0, 8])).ParsesSoundly := by
  have hfirst : (unparsed 7 (.value [8, 0, 8])).parse =
      (some ⟨.tlv, "Empty buffer during TLV processing"⟩,
        ⟨7, .value [8, 0, 8], [⟨8, .wire [] [8, 0]⟩]⟩) := by decide
  refine ⟨hfirst, by decide, ?_⟩
  rw [parsesSoundly_iff]
  intro hleaves
  have hheader := hleaves [⟨8, [], [8, 0]⟩] [8] (by decide) (by decide) (by decide) (by decide)
  obtain ⟨type, afterType, length, valueBegin, htype, hlength⟩ := hheader
  have hafter : Tlv.readType [8] = some (8, []) := by decide
  rw [hafter] at htype
  cases htype
  cases hlength

end Unencoded

end Block

end NdnCxx
