import NdnCxx.Mgmt.OptionalFields

/-!
# Control parameters

`ControlParameters` with its ten members, each of which may be absent. The decoder finds the elements
by their types. A member of the object and its bit in `m_hasFields` are one optional value here: a
member whose bit is not set cannot be read.
-/

namespace NdnCxx

namespace Tlv.Nfd

def controlParameters : ℕ := 104
def faceId : ℕ := 105
def cost : ℕ := 106
def strategy : ℕ := 107
def flags : ℕ := 108
def expirationPeriod : ℕ := 109
def localControlFeature : ℕ := 110
def origin : ℕ := 111
def uri : ℕ := 114
def faceStatus : ℕ := 128
def localUri : ℕ := 129
def uriScheme : ℕ := 131
def faceScope : ℕ := 132
def facePersistency : ℕ := 133
def linkType : ℕ := 134
def nInInterests : ℕ := 144
def nInDatas : ℕ := 145
def nOutInterests : ℕ := 146
def nOutDatas : ℕ := 147
def nInBytes : ℕ := 148
def nOutBytes : ℕ := 149
def faceQueryFilter : ℕ := 150
def nInNacks : ℕ := 151
def nOutNacks : ℕ := 152

end Tlv.Nfd

namespace Mgmt

abbrev LocalControlFeature := UInt32

def LocalControlFeature.incomingFaceId : LocalControlFeature := 1

def LocalControlFeature.nextHopFaceId : LocalControlFeature := 2

abbrev FaceScope := UInt8

abbrev FacePersistency := UInt8

abbrev LinkType := UInt8

open Block (prependOptional readOptional)

/-- `ControlParameters` with its members. -/
structure ControlParameters where
  name : Option Name := none
  faceId : Option UInt64 := none
  uri : Option Bytes := none
  localControlFeature : Option LocalControlFeature := none
  origin : Option UInt64 := none
  cost : Option UInt64 := none
  flags : Option UInt64 := none
  strategy : Option Name := none
  expirationPeriod : Option Int64 := none
  facePersistency : Option FacePersistency := none
  wire : Option Block := none
  deriving DecidableEq

namespace ControlParameters

/-- `ControlParameters::wireEncode(EncodingImpl<TAG>&)`; the elements are prepended last to first. -/
def wireEncodeInto (parameters : ControlParameters) : Bytes :=
  let facePersistency := prependOptional parameters.facePersistency fun facePersistency ↦
    Block.prependNonNegativeIntegerBlock Tlv.Nfd.facePersistency facePersistency.toNat
  let expirationPeriod := prependOptional parameters.expirationPeriod fun expirationPeriod ↦
    Block.prependNonNegativeIntegerBlock Tlv.Nfd.expirationPeriod
      (countMilliseconds expirationPeriod)
  let strategy := prependOptional parameters.strategy fun strategy ↦
    Tlv.prependByteArrayBlock Tlv.Nfd.strategy strategy.wireEncode
  let flags := prependOptional parameters.flags fun flags ↦
    Block.prependNonNegativeIntegerBlock Tlv.Nfd.flags flags.toNat
  let cost := prependOptional parameters.cost fun cost ↦
    Block.prependNonNegativeIntegerBlock Tlv.Nfd.cost cost.toNat
  let origin := prependOptional parameters.origin fun origin ↦
    Block.prependNonNegativeIntegerBlock Tlv.Nfd.origin origin.toNat
  let localControlFeature := prependOptional parameters.localControlFeature
    fun localControlFeature ↦
      Block.prependNonNegativeIntegerBlock Tlv.Nfd.localControlFeature localControlFeature.toNat
  let uri := prependOptional parameters.uri fun uri ↦ Tlv.prependByteArrayBlock Tlv.Nfd.uri uri
  let faceId := prependOptional parameters.faceId fun faceId ↦
    Block.prependNonNegativeIntegerBlock Tlv.Nfd.faceId faceId.toNat
  let name := prependOptional parameters.name Name.wireEncode
  Tlv.prependByteArrayBlock Tlv.Nfd.controlParameters
    (name ++ (faceId ++ (uri ++ (localControlFeature ++ (origin ++ (cost ++ (flags ++
      (strategy ++ (expirationPeriod ++ facePersistency)))))))))

def codes : CodeStore ControlParameters Block Error where
  encode parameters := Block.fromWire parameters.wireEncodeInto
  stored := ControlParameters.wire
  store parameters wire := .ok { parameters with wire := some wire }

def wireEncode (parameters : ControlParameters) : Except Error (Block × ControlParameters) :=
  codes.recallCode parameters

def decodeStrategy (element : Block) : Except Error Name := do
  match ← Block.parse element.value with
  | [] => throw ⟨.tlv, "Expecting Strategy/Name"⟩
  | first :: _ => Name.wireDecode first

/-- `ControlParameters::wireDecode`; every member is replaced or becomes absent. -/
def wireDecode (_parameters : ControlParameters) (block : Block) :
    Except Error ControlParameters := do
  if block.type ≠ Tlv.Nfd.controlParameters then
    throw ⟨.tlv, "Expecting TLV-TYPE ControlParameters"⟩
  let elements ← Block.parse block.value
  let name ← readOptional (Block.find elements Tlv.name) Name.wireDecode
  let faceId ← readOptional (Block.find elements Tlv.Nfd.faceId) Block.readUInt64
  let uri ← readOptional (Block.find elements Tlv.Nfd.uri) Block.readString
  let localControlFeature ←
    readOptional (Block.find elements Tlv.Nfd.localControlFeature) Block.readEnum32
  let origin ← readOptional (Block.find elements Tlv.Nfd.origin) Block.readUInt64
  let cost ← readOptional (Block.find elements Tlv.Nfd.cost) Block.readUInt64
  let flags ← readOptional (Block.find elements Tlv.Nfd.flags) Block.readUInt64
  let strategy ← readOptional (Block.find elements Tlv.Nfd.strategy) decodeStrategy
  let expirationPeriod ←
    readOptional (Block.find elements Tlv.Nfd.expirationPeriod) Block.readMilliseconds
  let facePersistency ← readOptional (Block.find elements Tlv.Nfd.facePersistency) Block.readEnum8
  return {
    name := name
    faceId := faceId
    uri := uri
    localControlFeature := localControlFeature
    origin := origin
    cost := cost
    flags := flags
    strategy := strategy
    expirationPeriod := expirationPeriod
    facePersistency := facePersistency
    wire := some block }

/-! ## Setters -/

/-- The calls of the setters and the unsetters -/
inductive Call
  | setName (name : Name)
  | unsetName
  | setFaceId (faceId : UInt64)
  | unsetFaceId
  | setUri (uri : Bytes)
  | unsetUri
  | setLocalControlFeature (localControlFeature : LocalControlFeature)
  | unsetLocalControlFeature
  | setOrigin (origin : UInt64)
  | unsetOrigin
  | setCost (cost : UInt64)
  | unsetCost
  | setFlags (flags : UInt64)
  | unsetFlags
  | setStrategy (strategy : Name)
  | unsetStrategy
  | setExpirationPeriod (expirationPeriod : Int64)
  | unsetExpirationPeriod
  | setFacePersistency (persistency : FacePersistency)
  | unsetFacePersistency
  deriving DecidableEq

/-- The setters and unsetters; each of them resets `m_wire`. -/
def call (parameters : ControlParameters) : Call → ControlParameters
  | .setName name => { parameters with name := some name, wire := none }
  | .unsetName => { parameters with name := none, wire := none }
  | .setFaceId faceId => { parameters with faceId := some faceId, wire := none }
  | .unsetFaceId => { parameters with faceId := none, wire := none }
  | .setUri uri => { parameters with uri := some uri, wire := none }
  | .unsetUri => { parameters with uri := none, wire := none }
  | .setLocalControlFeature localControlFeature =>
      { parameters with localControlFeature := some localControlFeature, wire := none }
  | .unsetLocalControlFeature => { parameters with localControlFeature := none, wire := none }
  | .setOrigin origin => { parameters with origin := some origin, wire := none }
  | .unsetOrigin => { parameters with origin := none, wire := none }
  | .setCost cost => { parameters with cost := some cost, wire := none }
  | .unsetCost => { parameters with cost := none, wire := none }
  | .setFlags flags => { parameters with flags := some flags, wire := none }
  | .unsetFlags => { parameters with flags := none, wire := none }
  | .setStrategy strategy => { parameters with strategy := some strategy, wire := none }
  | .unsetStrategy => { parameters with strategy := none, wire := none }
  | .setExpirationPeriod expirationPeriod =>
      { parameters with expirationPeriod := some expirationPeriod, wire := none }
  | .unsetExpirationPeriod => { parameters with expirationPeriod := none, wire := none }
  | .setFacePersistency persistency =>
      { parameters with facePersistency := some persistency, wire := none }
  | .unsetFacePersistency => { parameters with facePersistency := none, wire := none }

/-- The setters return normally. -/
def perform (parameters : ControlParameters) (call : Call) : Option ControlParameters :=
  some (parameters.call call)

/-- The types of the components of a name that is set have 32 bits. -/
def Call.IsWellFormed : Call → Prop
  | .setName name => name.IsWellFormed
  | .setStrategy strategy => strategy.IsWellFormed
  | _ => True

instance : (call : Call) → Decidable call.IsWellFormed
  | .setName name => inferInstanceAs (Decidable name.IsWellFormed)
  | .setStrategy strategy => inferInstanceAs (Decidable strategy.IsWellFormed)
  | .unsetName | .setFaceId _ | .unsetFaceId | .setUri _ | .unsetUri | .setLocalControlFeature _
  | .unsetLocalControlFeature | .setOrigin _ | .unsetOrigin | .setCost _ | .unsetCost
  | .setFlags _ | .unsetFlags | .unsetStrategy | .setExpirationPeriod _ | .unsetExpirationPeriod
  | .setFacePersistency _ | .unsetFacePersistency => isTrue trivial

/-! ## Reading back what was written -/

/-- The names of the parameters can be written. -/
structure IsWellFormed (parameters : ControlParameters) : Prop where
  name : ∀ name ∈ parameters.name, name.IsWellFormed
  strategy : ∀ strategy ∈ parameters.strategy, strategy.IsWellFormed

def strategyBlock (strategy : Name) : Block := Block.ofElements Tlv.Nfd.strategy [strategy.toBlock]

def fields (parameters : ControlParameters) : List (ℕ × Option Block) :=
  [(Tlv.name, parameters.name.map Name.toBlock),
    (Tlv.Nfd.faceId, parameters.faceId.map fun faceId ↦
      Block.ofNumber Tlv.Nfd.faceId faceId.toNat),
    (Tlv.Nfd.uri, parameters.uri.map (Block.ofValue Tlv.Nfd.uri)),
    (Tlv.Nfd.localControlFeature, parameters.localControlFeature.map fun localControlFeature ↦
      Block.ofNumber Tlv.Nfd.localControlFeature localControlFeature.toNat),
    (Tlv.Nfd.origin, parameters.origin.map fun origin ↦
      Block.ofNumber Tlv.Nfd.origin origin.toNat),
    (Tlv.Nfd.cost, parameters.cost.map fun cost ↦ Block.ofNumber Tlv.Nfd.cost cost.toNat),
    (Tlv.Nfd.flags, parameters.flags.map fun flags ↦ Block.ofNumber Tlv.Nfd.flags flags.toNat),
    (Tlv.Nfd.strategy, parameters.strategy.map strategyBlock),
    (Tlv.Nfd.expirationPeriod, parameters.expirationPeriod.map fun expirationPeriod ↦
      Block.ofNumber Tlv.Nfd.expirationPeriod (countMilliseconds expirationPeriod)),
    (Tlv.Nfd.facePersistency, parameters.facePersistency.map fun facePersistency ↦
      Block.ofNumber Tlv.Nfd.facePersistency facePersistency.toNat)]

def elements (parameters : ControlParameters) : List Block := Block.fieldElements parameters.fields

def toBlock (parameters : ControlParameters) : Block :=
  Block.ofElements Tlv.Nfd.controlParameters parameters.elements

theorem wireEncodeInto_eq (parameters : ControlParameters) :
    parameters.wireEncodeInto = parameters.toBlock.wire := by
  have hname : Name.wireEncode = fun name ↦ name.toBlock.wire := funext Name.wireEncode_eq
  have hstrategy : ∀ strategy : Name, (strategyBlock strategy).wire =
      Tlv.prependByteArrayBlock Tlv.Nfd.strategy strategy.toBlock.wire := by
    intro strategy
    simp only [strategyBlock, Block.ofElements, Block.ofValue, List.flatMap_singleton]
  simp only [wireEncodeInto, hname, toBlock, Block.ofElements, elements, Block.fieldElements, fields,
    List.flatMap_cons, List.flatMap_nil, List.flatMap_append, Block.flatMap_wire_map, hstrategy,
    List.append_nil]
  rfl

theorem isRecord_fields (parameters : ControlParameters) : Block.IsRecord parameters.fields where
  elements := by
    simp only [fields, List.forall_mem_cons, List.not_mem_nil, false_implies, implies_true, and_true,
      Block.forall_mem_map]
    exact ⟨fun _ _ ↦ ⟨_, rfl⟩, fun _ _ ↦ ⟨_, rfl⟩, fun _ _ ↦ ⟨_, rfl⟩, fun _ _ ↦ ⟨_, rfl⟩,
      fun _ _ ↦ ⟨_, rfl⟩, fun _ _ ↦ ⟨_, rfl⟩, fun _ _ ↦ ⟨_, rfl⟩, fun _ _ ↦ ⟨_, rfl⟩,
      fun _ _ ↦ ⟨_, rfl⟩, fun _ _ ↦ ⟨_, rfl⟩⟩
  small := of_decide_eq_true rfl
  distinct := of_decide_eq_true rfl

theorem decodeStrategy_strategyBlock {strategy : Name} (hwell : strategy.IsWellFormed)
    (hsize : (strategyBlock strategy).wire.length < 2 ^ 64) :
    decodeStrategy (strategyBlock strategy) = .ok strategy := by
  have hname : strategy.toBlock.wire.length < 2 ^ 64 :=
    Block.length_wire_lt_of_mem hsize List.mem_cons_self
  have hparse : Block.parse (strategyBlock strategy).value = .ok [strategy.toBlock] :=
    Block.parse_ofElements
      (List.forall_mem_singleton.mpr (Block.ofElements_isWire (by decide) hname))
  simp only [decodeStrategy, hparse, bind, Except.bind]
  exact Name.wireDecode_toBlock hwell hname

theorem wireDecode_toBlock {written : ControlParameters} (prior : ControlParameters)
    (hwell : written.IsWellFormed) (hsize : written.toBlock.wire.length < 2 ^ 64) :
    prior.wireDecode written.toBlock = .ok { written with wire := some written.toBlock } := by
  have hparse : Block.parse written.toBlock.value = .ok (Block.fieldElements written.fields) :=
    written.isRecord_fields.parse_eq hsize
  have htype : written.toBlock.type = Tlv.Nfd.controlParameters := rfl
  have hrecord : Block.IsRecord written.fields := written.isRecord_fields
  have hnameMem : (Tlv.name, written.name.map Name.toBlock) ∈ written.fields := by simp [fields]
  have hname := hrecord.readOptional_find Tlv.name written.name
    (fun name hname ↦ Name.wireDecode_toBlock (hwell.name name hname)
      (Block.length_wire_lt_of_map hsize hnameMem name hname)) hnameMem
  have hfaceId := hrecord.readOptional_find Tlv.Nfd.faceId written.faceId
    (fun _ _ ↦ Block.readUInt64_ofNumber Tlv.Nfd.faceId _) (by simp [fields])
  have huri := hrecord.readOptional_find Tlv.Nfd.uri written.uri
    (fun _ _ ↦ Block.readString_ofValue Tlv.Nfd.uri _) (by simp [fields])
  have hlocalControlFeature := hrecord.readOptional_find Tlv.Nfd.localControlFeature written.localControlFeature
    (fun _ _ ↦ Block.readEnum32_ofNumber Tlv.Nfd.localControlFeature _) (by simp [fields])
  have horigin := hrecord.readOptional_find Tlv.Nfd.origin written.origin
    (fun _ _ ↦ Block.readUInt64_ofNumber Tlv.Nfd.origin _) (by simp [fields])
  have hcost := hrecord.readOptional_find Tlv.Nfd.cost written.cost
    (fun _ _ ↦ Block.readUInt64_ofNumber Tlv.Nfd.cost _) (by simp [fields])
  have hflags := hrecord.readOptional_find Tlv.Nfd.flags written.flags
    (fun _ _ ↦ Block.readUInt64_ofNumber Tlv.Nfd.flags _) (by simp [fields])
  have hstrategyMem : (Tlv.Nfd.strategy, written.strategy.map strategyBlock) ∈ written.fields := by
    simp [fields]
  have hstrategy := hrecord.readOptional_find Tlv.Nfd.strategy written.strategy
    (fun strategy hstrategy ↦ decodeStrategy_strategyBlock (hwell.strategy strategy hstrategy)
      (Block.length_wire_lt_of_map hsize hstrategyMem strategy hstrategy)) hstrategyMem
  have hexpirationPeriod := hrecord.readOptional_find Tlv.Nfd.expirationPeriod written.expirationPeriod
    (fun _ _ ↦ Block.readMilliseconds_ofNumber Tlv.Nfd.expirationPeriod _) (by simp [fields])
  have hfacePersistency := hrecord.readOptional_find Tlv.Nfd.facePersistency written.facePersistency
    (fun _ _ ↦ Block.readEnum8_ofNumber Tlv.Nfd.facePersistency _) (by simp [fields])
  simp only [wireDecode, if_neg (not_not.mpr htype), hparse, hname, hfaceId, huri,
    hlocalControlFeature, horigin, hcost, hflags, hstrategy, hexpirationPeriod, hfacePersistency,
    bind, Except.bind, pure, Except.pure]

/-! ## Runs of setters -/

theorem discards : codes.Discards perform where
  stored_perform := by
    rintro object call next hnext
    cases hnext
    cases call <;> rfl
  stored_store := by
    rintro object code next hstore
    cases hstore
    rfl
  encode_store := by
    rintro object code next hstore
    cases hstore
    rfl
  store_stored := by
    rintro object code hstored
    simp only [codes] at hstored ⊢
    rw [← hstored]

variable {parameters : ControlParameters}

theorem IsWellFormed.call {call : Call} (hwell : parameters.IsWellFormed)
    (hcall : call.IsWellFormed) : (parameters.call call).IsWellFormed := by
  obtain ⟨hname, hstrategy⟩ := hwell
  cases call with
  | setName name =>
    refine ⟨?_, hstrategy⟩
    rintro _ ⟨rfl⟩
    exact hcall
  | setStrategy strategy =>
    refine ⟨hname, ?_⟩
    rintro _ ⟨rfl⟩
    exact hcall
  | unsetName => exact ⟨fun _ habsent ↦ (nomatch habsent), hstrategy⟩
  | unsetStrategy => exact ⟨hname, fun _ habsent ↦ nomatch habsent⟩
  | _ => exact ⟨hname, hstrategy⟩

theorem isWellFormed_of_run {events : List (CodeStore.Event Call)} {finish : ControlParameters}
    (hcalls : ∀ call, .change call ∈ events → call.IsWellFormed)
    (hrun : Run.run (codes.step perform) {} events = some finish) : finish.IsWellFormed := by
  have hallowed : Run.Guarded (codes.step perform)
      (fun _ event ↦ ∀ call, event = .change call → call.IsWellFormed) {} events := by
    apply Run.guarded_of_forall_mem
    rintro event hmem call rfl
    exact hcalls call hmem
  refine Run.invariant_of_guarded (fun _ parameters ↦ IsWellFormed parameters) ?_ ?_ hallowed hrun
  · rintro _ parameters event next hwell hevent hnext
    cases event with
    | change call =>
      cases hnext
      exact hwell.call (hevent call rfl)
    | recallCode =>
      obtain ⟨code, hrecall⟩ := CodeStore.step_recall_eq_some_iff.mp hnext
      rcases CodeStore.recall_cases hrecall with ⟨-, rfl⟩ | ⟨-, -, hstore⟩
      · exact hwell
      · cases hstore
        exact ⟨hwell.name, hwell.strategy⟩
  · exact ⟨fun _ habsent ↦ (nomatch habsent), fun _ habsent ↦ nomatch habsent⟩

theorem encode_eq (hsize : parameters.wireEncodeInto.length < 2 ^ 64) :
    codes.encode parameters = .ok parameters.toBlock := by
  rw [wireEncodeInto_eq] at hsize
  simp only [codes, wireEncodeInto_eq]
  exact Block.fromWire_ofElements (by decide) hsize

theorem readsBack (hwell : parameters.IsWellFormed) (hfresh : codes.IsFresh parameters)
    (hsize : parameters.wireEncodeInto.length < 2 ^ 64) :
    codes.ReadsBack wireDecode parameters := by
  apply discards.readsBack hfresh (encode_eq hsize) rfl
  intro prior
  rw [wireEncodeInto_eq] at hsize
  exact wireDecode_toBlock prior hwell hsize

end ControlParameters

end Mgmt

end NdnCxx
