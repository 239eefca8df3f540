import NdnCxx.Foundation.Redecoding
import NdnCxx.Packet.Decoded
import NdnCxx.Mgmt.OptionalFields

/-!
# Additional descriptions of certificates

An `AdditionalDescription` is a map from keys to values. It is encoded with one entry for each key, in
the order of the keys. Decoding assigns the entries of the wire to the map that is there already.
-/

namespace NdnCxx

namespace Tlv

def additionalDescription : ℕ := 258
def descriptionEntry : ℕ := 512
def descriptionKey : ℕ := 513
def descriptionValue : ℕ := 514

end Tlv

namespace Security

/-- Strings are compared by their bytes. -/
instance : IsStrictTotalOrder Bytes (· < ·) where
  trichotomous := fun _ _ ↦ Std.Trichotomous.trichotomous _ _
  irrefl := fun _ ↦ Std.Irrefl.irrefl _
  trans := fun _ _ _ ↦ IsTrans.trans _ _ _

abbrev DescriptionMap := OrderedMap Bytes Bytes (· < ·)

/-- `AdditionalDescription` with its members. -/
structure AdditionalDescription where
  info : DescriptionMap := .empty
  wire : Option Block := none
  deriving DecidableEq

namespace AdditionalDescription

/-- `AdditionalDescription::set`, after which the wire is still there -/
def set (description : AdditionalDescription) (key value : Bytes) : AdditionalDescription :=
  { description with info := description.info.assign key value }

/-- The loop body of `AdditionalDescription::wireEncode` -/
def encodeEntry (entry : Bytes × Bytes) : Bytes :=
  Tlv.prependByteArrayBlock Tlv.descriptionEntry
    (Tlv.prependByteArrayBlock Tlv.descriptionKey entry.1 ++
      Tlv.prependByteArrayBlock Tlv.descriptionValue entry.2)

/-- `AdditionalDescription::wireEncode(EncodingImpl<TAG>&)` -/
def wireEncodeInto (description : AdditionalDescription) : Bytes :=
  Tlv.prependByteArrayBlock Tlv.additionalDescription (description.info.entries.flatMap encodeEntry)

def readEntry (entry : Block) : Except Error (Bytes × Bytes) := do
  let elements ← Block.parse entry.value
  if entry.type ≠ Tlv.descriptionEntry then
    throw ⟨.tlv, "Unexpected TLV type when decoding DescriptionEntry"⟩
  else match elements with
    | [key, value] =>
        if key.type ≠ Tlv.descriptionKey ∨ value.type ≠ Tlv.descriptionValue then
          throw ⟨.tlv, "Invalid DescriptionKey or DescriptionValue field"⟩
        else return (← key.readString, ← value.readString)
    | _ => throw ⟨.tlv, "DescriptionEntry does not have two sub-TLVs"⟩

/-- The loop of `AdditionalDescription::wireDecode` -/
def decodeEntries (info : DescriptionMap) : List Block → Except Error DescriptionMap
  | [] => .ok info
  | element :: later => do
      let entry ← readEntry element
      decodeEntries (info.assign entry.1 entry.2) later

def wireDecode (description : AdditionalDescription) (wire : Block) :
    Except Error AdditionalDescription := do
  let elements ← Block.parse wire.value
  if wire.type ≠ Tlv.additionalDescription then
    throw ⟨.tlv, "Unexpected TLV type when decoding AdditionalDescription"⟩
  else return { info := ← decodeEntries description.info elements, wire := some wire }

/-- How a description is encoded, decoded and looked at. A wire that has been made is parsed before
it is returned. -/
def codec : Codec AdditionalDescription Block Error DescriptionMap where
  encode description := Block.fromWire description.wireEncodeInto
  stored := AdditionalDescription.wire
  store description wire := do
    let _ ← Block.parse wire.value
    return { description with wire := some wire }
  fresh := {}
  decode := wireDecode
  contents := AdditionalDescription.info

def wireEncode (description : AdditionalDescription) : Except Error (Block × AdditionalDescription) :=
  codec.recallCode description

/-- A call of the only mutator. -/
inductive Call
  | set (key value : Bytes)

def perform (description : AdditionalDescription) : Call → Option AdditionalDescription
  | .set key value => some (description.set key value)

def keysOf (wire : Block) : Except Error (List Bytes) := do
  let entries ← (← Block.parse wire.value).mapM readEntry
  return entries.map Prod.fst

/-- A value is only changed while no wire is kept, and a wire is only decoded if it has an entry for
every key that is there. -/
def IsSafe (description : AdditionalDescription) : Codec.Event Call Block → Prop
  | .change (.set key value) => description.wire = none ∨ description.info.find key = some value
  | .decode wire => ∀ keys, keysOf wire = .ok keys → ∀ entry ∈ description.info, entry.1 ∈ keys
  | .recallCode => True

instance (description : AdditionalDescription) :
    (event : Codec.Event Call Block) → Decidable (description.IsSafe event)
  | .change (.set key value) => inferInstanceAs
      (Decidable (description.wire = none ∨ description.info.find key = some value))
  | .recallCode => isTrue trivial
  | .decode wire =>
      match hkeys : keysOf wire with
      | .error error => isTrue fun keys hok ↦ by simp [hkeys] at hok
      | .ok keys => decidable_of_iff (∀ entry ∈ description.info.entries, entry.1 ∈ keys)
          (by simp [IsSafe, hkeys, OrderedMap.mem_def])

/-! ## Reading entries -/

variable {info : DescriptionMap}

theorem decodeEntries_eq_ok_iff {next : DescriptionMap} {elements : List Block} :
    decodeEntries info elements = .ok next ↔
      ∃ entries, elements.mapM readEntry = .ok entries ∧ next = info.assignAll entries := by
  induction elements generalizing info with
  | nil => simp [decodeEntries, OrderedMap.assignAll, pure, Except.pure, eq_comm]
  | cons element elements ih =>
    simp only [decodeEntries, List.mapM_cons, bind_eq_ok_iff, ih]
    constructor
    · rintro ⟨entry, hentry, entries, hentries, rfl⟩
      exact ⟨entry :: entries, ⟨entry, hentry, entries, hentries, rfl⟩, rfl⟩
    · rintro ⟨_, ⟨entry, hentry, entries, hentries, hcons⟩, rfl⟩
      cases hcons
      exact ⟨entry, hentry, entries, hentries, rfl⟩

variable {description : AdditionalDescription}

theorem wireDecode_eq_ok_iff {next : AdditionalDescription} {wire : Block} :
    description.wireDecode wire = .ok next ↔
      wire.type = Tlv.additionalDescription ∧ ∃ elements entries,
        Block.parse wire.value = .ok elements ∧ elements.mapM readEntry = .ok entries ∧
          next = { info := description.info.assignAll entries, wire := some wire } := by
  rw [wireDecode, bind_eq_ok_iff]
  constructor
  · rintro ⟨elements, hparse, hdecode⟩
    split_ifs at hdecode with htype
    obtain ⟨info, hinfo, hnext⟩ := bind_eq_ok_iff.mp hdecode
    obtain ⟨entries, hentries, rfl⟩ := decodeEntries_eq_ok_iff.mp hinfo
    exact ⟨not_not.mp htype, elements, entries, hparse, hentries, (Except.ok.inj hnext).symm⟩
  · rintro ⟨htype, elements, entries, hparse, hentries, rfl⟩
    refine ⟨elements, hparse, ?_⟩
    rw [if_neg (not_not.mpr htype)]
    exact bind_eq_ok_iff.mpr ⟨_, decodeEntries_eq_ok_iff.mpr ⟨entries, hentries, rfl⟩, rfl⟩

/-! ## What a description is encoded to -/

def entryBlock (entry : Bytes × Bytes) : Block :=
  Block.ofElements Tlv.descriptionEntry
    [Block.ofValue Tlv.descriptionKey entry.1, Block.ofValue Tlv.descriptionValue entry.2]

def toBlock (info : DescriptionMap) : Block :=
  Block.ofElements Tlv.additionalDescription (info.entries.map entryBlock)

theorem readEntry_entryBlock {entry : Bytes × Bytes}
    (hsize : (entryBlock entry).wire.length < 2 ^ 64) : readEntry (entryBlock entry) = .ok entry := by
  have hparse : Block.parse (entryBlock entry).value =
      .ok [Block.ofValue Tlv.descriptionKey entry.1, Block.ofValue Tlv.descriptionValue entry.2] := by
    apply Block.parse_ofElements
    intro element hmem
    have hshort := Block.length_wire_lt_of_mem hsize hmem
    simp only [List.mem_cons, List.not_mem_nil, or_false] at hmem
    rcases hmem with rfl | rfl <;> exact Block.ofValue_isWire_of_length (by decide) hshort
  have htype : (entryBlock entry).type = Tlv.descriptionEntry := rfl
  have hkey : (Block.ofValue Tlv.descriptionKey entry.1).type = Tlv.descriptionKey := rfl
  have hvalue : (Block.ofValue Tlv.descriptionValue entry.2).type = Tlv.descriptionValue := rfl
  simp only [readEntry, hparse, htype, hkey, hvalue, ne_eq, not_true_eq_false, or_self, if_false,
    Block.readString_ofValue, bind, Except.bind, pure, Except.pure]

theorem mapM_readEntry {entries : List (Bytes × Bytes)}
    (hshort : ∀ entry ∈ entries, (entryBlock entry).wire.length < 2 ^ 64) :
    (entries.map entryBlock).mapM readEntry = .ok entries := by
  induction entries with
  | nil => rfl
  | cons entry entries ih =>
    have hfirst := readEntry_entryBlock (hshort entry List.mem_cons_self)
    have hlater := ih fun other hmem ↦ hshort other (List.mem_cons_of_mem entry hmem)
    simp only [List.map_cons, List.mapM_cons, hfirst, hlater, bind, Except.bind, pure, Except.pure]

theorem wireEncodeInto_eq (description : AdditionalDescription) :
    description.wireEncodeInto = (toBlock description.info).wire := by
  have hentry : encodeEntry = fun entry ↦ (entryBlock entry).wire := by
    funext entry
    simp only [encodeEntry, entryBlock, Block.ofElements, List.flatMap_cons, List.flatMap_nil,
      List.append_nil]
    rfl
  simp only [wireEncodeInto, hentry, toBlock, Block.ofElements, List.flatMap_map]
  rfl

theorem encode_eq_ok_iff {code : Block} :
    codec.encode description = .ok code ↔
      (toBlock description.info).value.length < 2 ^ 64 ∧ code = toBlock description.info := by
  simp only [codec, wireEncodeInto_eq]
  exact Block.fromWire_prependByteArrayBlock_eq_ok_iff (by decide)

theorem parse_toBlock (hvalue : (toBlock info).value.length < 2 ^ 64) :
    Block.parse (toBlock info).value = .ok (info.entries.map entryBlock) ∧
      (info.entries.map entryBlock).mapM readEntry = .ok info.entries := by
  have hshort : ∀ entry ∈ info.entries, (entryBlock entry).wire.length < 2 ^ 64 := fun entry hmem ↦
    lt_of_le_of_lt (Block.length_wire_le_of_mem (List.mem_map_of_mem hmem)) hvalue
  constructor
  · apply Block.parse_ofElements
    intro element hmem
    obtain ⟨entry, hentry, rfl⟩ := List.mem_map.mp hmem
    exact Block.ofElements_isWire (by decide) (hshort entry hentry)
  · exact mapM_readEntry hshort

theorem read_toBlock (hvalue : (toBlock info).value.length < 2 ^ 64) :
    codec.read (toBlock info) = .ok info := by
  obtain ⟨hparse, hentries⟩ := parse_toBlock hvalue
  have hdecode : wireDecode {} (toBlock info) =
      .ok { info := (OrderedMap.empty : DescriptionMap).assignAll info.entries,
            wire := some (toBlock info) } :=
    wireDecode_eq_ok_iff.mpr ⟨rfl, _, _, hparse, hentries, rfl⟩
  rw [OrderedMap.assignAll_entries] at hdecode
  exact congrArg (Except.map codec.contents) hdecode

theorem exists_wireEncode (hsize : description.wireEncodeInto.length < 2 ^ 64) :
    ∃ code next, description.wireEncode = .ok (code, next) := by
  have hvalue : (toBlock description.info).value.length < 2 ^ 64 := by
    rw [wireEncodeInto_eq] at hsize
    exact lt_of_le_of_lt (Block.length_value_le_wire_ofValue _ _) hsize
  have hencode := encode_eq_ok_iff.mpr ⟨hvalue, rfl⟩
  have hstore : codec.store description (toBlock description.info) =
      .ok { description with wire := some (toBlock description.info) } := by
    simp only [codec, (parse_toBlock hvalue).1, bind, Except.bind, pure, Except.pure]
  exact Codec.exists_recall hencode hstore

theorem keepsCode : codec.KeepsCode perform IsSafe fun _ ↦ True where
  read_of_encode := by
    intro description code _ hencode
    obtain ⟨hvalue, rfl⟩ := encode_eq_ok_iff.mp hencode
    exact read_toBlock hvalue
  of_store := by
    intro description code next _ hstore
    obtain ⟨elements, -, hnext⟩ := bind_eq_ok_iff.mp hstore
    cases hnext
    exact ⟨trivial, rfl, rfl⟩
  of_perform := by
    intro description call next _ hsafe hnext
    cases call with
    | set key value =>
      cases hnext
      refine ⟨trivial, hsafe.imp id fun hfind ↦ ⟨rfl, ?_⟩⟩
      simp only [codec, set, OrderedMap.assign_eq_self hfind]
  of_decode := by
    intro description code next _ hsafe hdecode
    obtain ⟨htype, elements, entries, hparse, hentries, rfl⟩ :=
      wireDecode_eq_ok_iff.mp (show description.wireDecode code = .ok next from hdecode)
    have hkeys : keysOf code = .ok (entries.map Prod.fst) := by
      simp only [keysOf, hparse, hentries, bind, Except.bind, pure, Except.pure]
    have hfresh : wireDecode {} code =
        .ok { info := (OrderedMap.empty : DescriptionMap).assignAll entries, wire := some code } :=
      wireDecode_eq_ok_iff.mpr ⟨htype, elements, entries, hparse, hentries, rfl⟩
    refine ⟨trivial, rfl, ?_⟩
    -- no key is left over from what was there before
    rw [← OrderedMap.assignAll_eq_of_forall_mem (hsafe _ hkeys)] at hfresh
    exact congrArg (Except.map codec.contents) hfresh

end AdditionalDescription

end Security

end NdnCxx
