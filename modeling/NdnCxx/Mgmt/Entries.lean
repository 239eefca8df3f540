import NdnCxx.Mgmt.ControlParameters
import NdnCxx.Security.AdditionalDescription

/-!
# Entries of the RIB and of the FIB

A `RibEntry` is a name with routes and a `FibEntry` is a name with next hops. An entry is encoded from
the members of its records, whatever wire a record may keep, so the records are modelled without one.
Decoding rebuilds the list from the elements behind the name.
-/

namespace NdnCxx

namespace Tlv.Nfd

def fibEntry : ℕ := 128
def nextHopRecord : ℕ := 129
def ribEntry : ℕ := 128
def route : ℕ := 129

end Tlv.Nfd

namespace Mgmt

open Block (prependOptional takeOptional takeRequired)

/-! ## Lists of records -/

section Records

variable {Record : Type}

/-- The loop over the elements behind the name of an entry. The error of an element that is no record
may look at the element. -/
def decodeRecords (type : ℕ) (read : Block → Except Error Record) (unexpected : Block → Error) :
    List Block → Except Error (List Record)
  | [] => .ok []
  | element :: later =>
      if element.type ≠ type then throw (unexpected element)
      else do
        let record ← read element
        return record :: (← decodeRecords type read unexpected later)

theorem decodeRecords_map {type : ℕ} {read : Block → Except Error Record}
    {unexpected : Block → Error} {element : Record → Block} {records : List Record}
    (htype : ∀ record, (element record).type = type)
    (hread : ∀ record ∈ records, read (element record) = .ok record) :
    decodeRecords type read unexpected (records.map element) = .ok records := by
  induction records with
  | nil => rfl
  | cons record records ih =>
    have hfirst := hread record List.mem_cons_self
    have hlater := ih fun other hmem ↦ hread other (List.mem_cons_of_mem record hmem)
    simp only [List.map_cons, decodeRecords, htype, ne_eq, not_true_eq_false, if_false, hfirst, hlater]
    rfl

def entryBlock (type : ℕ) (element : Record → Block) (name : Name) (records : List Record) : Block :=
  Block.ofElements type (name.toBlock :: records.map element)

variable {type : ℕ} {element : Record → Block} {name : Name} {records : List Record}

/-- What an entry was encoded to has the elements it was made of, and none of them is too long. -/
theorem parse_entryBlock (hrecord : ∀ record, (element record).wire.length < 2 ^ 64 →
      (element record).IsWire)
    (hvalue : (entryBlock type element name records).value.length < 2 ^ 64) :
    Block.parse (entryBlock type element name records).value =
        .ok (name.toBlock :: records.map element) ∧
      name.toBlock.wire.length < 2 ^ 64 ∧
      ∀ record ∈ records, (element record).wire.length < 2 ^ 64 := by
  have hshort : ∀ sub ∈ name.toBlock :: records.map element, sub.wire.length < 2 ^ 64 :=
    fun sub hmem ↦ lt_of_le_of_lt (Block.length_wire_le_of_mem hmem) hvalue
  have hname := hshort name.toBlock List.mem_cons_self
  have hrecords : ∀ record ∈ records, (element record).wire.length < 2 ^ 64 := fun record hmem ↦
    hshort _ (List.mem_cons_of_mem _ (List.mem_map_of_mem hmem))
  refine ⟨Block.parse_ofElements (List.forall_mem_cons.mpr ⟨?_, ?_⟩), hname, hrecords⟩
  · exact Block.ofElements_isWire (by decide) hname
  · intro sub hmem
    obtain ⟨record, hrecordMem, rfl⟩ := List.mem_map.mp hmem
    exact hrecord record (hrecords record hrecordMem)

/-- What was taken was read from an element. -/
theorem exists_of_takeRequired {type : ℕ} {Value : Type} {read : Block → Except Error Value}
    {error : Error} {elements later : List Block} {value : Value}
    (htake : takeRequired type read error elements = .ok (value, later)) :
    ∃ element, read element = .ok value := by
  unfold takeRequired at htake
  split at htake
  · obtain ⟨read, hread, htake⟩ := bind_eq_ok_iff.mp htake
    cases htake
    exact ⟨_, hread⟩
  · cases htake

end Records

/-! ## Routes -/

/-- `Route`. Without an expiration period `m_hasInfiniteExpirationPeriod` is set, and the period is
`INFINITE_EXPIRATION_PERIOD`. -/
structure Route where
  faceId : UInt64 := 0
  origin : UInt64 := 0
  cost : UInt64 := 0
  flags : UInt64 := 1
  expirationPeriod : Option Int64 := none
  deriving DecidableEq

namespace Route

/-- `Route::wireEncode(EncodingImpl<TAG>&)`; the elements are prepended last to first. -/
def wireEncodeInto (route : Route) : Bytes :=
  let expirationPeriod := prependOptional route.expirationPeriod fun expirationPeriod ↦
    Block.prependNonNegativeIntegerBlock Tlv.Nfd.expirationPeriod
      (countMilliseconds expirationPeriod)
  let flags := Block.prependNonNegativeIntegerBlock Tlv.Nfd.flags route.flags.toNat
  let cost := Block.prependNonNegativeIntegerBlock Tlv.Nfd.cost route.cost.toNat
  let origin := Block.prependNonNegativeIntegerBlock Tlv.Nfd.origin route.origin.toNat
  let faceId := Block.prependNonNegativeIntegerBlock Tlv.Nfd.faceId route.faceId.toNat
  Tlv.prependByteArrayBlock Tlv.Nfd.route
    (faceId ++ (origin ++ (cost ++ (flags ++ expirationPeriod))))

def missing (field : String) : Error := ⟨.tlv, "Missing required " ++ field ++ " field"⟩

def wireDecode (wire : Block) : Except Error Route := do
  if wire.type ≠ Tlv.Nfd.route then
    throw ⟨.tlv, "Expected Route Block, but Block is of a different type: #" ++ toString wire.type⟩
  let val ← Block.parse wire.value
  let (faceId, val) ← takeRequired Tlv.Nfd.faceId Block.readUInt64 (missing "FaceId") val
  let (origin, val) ← takeRequired Tlv.Nfd.origin Block.readUInt64 (missing "Origin") val
  let (cost, val) ← takeRequired Tlv.Nfd.cost Block.readUInt64 (missing "Cost") val
  let (flags, val) ← takeRequired Tlv.Nfd.flags Block.readUInt64 (missing "Flags") val
  let (expirationPeriod, _) ← takeOptional Tlv.Nfd.expirationPeriod Block.readMilliseconds val
  return {
    faceId := faceId
    origin := origin
    cost := cost
    flags := flags
    expirationPeriod := expirationPeriod }

def fields (route : Route) : List (ℕ × Option Block) :=
  [(Tlv.Nfd.faceId, some (Block.ofNumber Tlv.Nfd.faceId route.faceId.toNat)),
    (Tlv.Nfd.origin, some (Block.ofNumber Tlv.Nfd.origin route.origin.toNat)),
    (Tlv.Nfd.cost, some (Block.ofNumber Tlv.Nfd.cost route.cost.toNat)),
    (Tlv.Nfd.flags, some (Block.ofNumber Tlv.Nfd.flags route.flags.toNat)),
    (Tlv.Nfd.expirationPeriod, route.expirationPeriod.map fun expirationPeriod ↦
      Block.ofNumber Tlv.Nfd.expirationPeriod (countMilliseconds expirationPeriod))]

def toBlock (route : Route) : Block :=
  Block.ofElements Tlv.Nfd.route (Block.fieldElements route.fields)

theorem wireEncodeInto_eq (route : Route) : route.wireEncodeInto = route.toBlock.wire := by
  simp only [wireEncodeInto, toBlock, Block.ofElements, Block.fieldElements, fields,
    List.flatMap_cons, List.flatMap_nil, List.flatMap_append, Block.flatMap_wire_map,
    Option.toList_some, List.append_nil]
  rfl

theorem isRecord_fields (route : Route) : Block.IsRecord route.fields where
  elements := by
    simp only [fields, List.forall_mem_cons, List.not_mem_nil, false_implies, implies_true, and_true,
      Block.forall_mem_map, Option.mem_some_iff, forall_eq']
    exact ⟨⟨_, rfl⟩, ⟨_, rfl⟩, ⟨_, rfl⟩, ⟨_, rfl⟩, fun _ _ ↦ ⟨_, rfl⟩⟩
  small := of_decide_eq_true rfl
  distinct := of_decide_eq_true rfl

theorem isWire_toBlock (route : Route) (hsize : route.toBlock.wire.length < 2 ^ 64) :
    route.toBlock.IsWire :=
  Block.ofElements_isWire (by decide) hsize

theorem wireDecode_toBlock {route : Route} (hsize : route.toBlock.wire.length < 2 ^ 64) :
    wireDecode route.toBlock = .ok route := by
  have hparse : Block.parse route.toBlock.value = .ok (Block.fieldElements route.fields) :=
    route.isRecord_fields.parse_eq hsize
  have htype : route.toBlock.type = Tlv.Nfd.route := rfl
  -- what is left of the record in front of each member is a record again
  have hfaceId := route.isRecord_fields
  have horigin := hfaceId.tail
  have hcost := horigin.tail
  have hflags := hcost.tail
  have hexpirationPeriod := hflags.tail
  replace hfaceId := hfaceId.takeRequired_eq (missing "FaceId") (Block.readUInt64_ofNumber _ _)
  replace horigin := horigin.takeRequired_eq (missing "Origin") (Block.readUInt64_ofNumber _ _)
  replace hcost := hcost.takeRequired_eq (missing "Cost") (Block.readUInt64_ofNumber _ _)
  replace hflags := hflags.takeRequired_eq (missing "Flags") (Block.readUInt64_ofNumber _ _)
  replace hexpirationPeriod := hexpirationPeriod.takeOptional_eq fun _ _ ↦
    Block.readMilliseconds_ofNumber _ _
  simp only [wireDecode, if_neg (not_not.mpr htype), hparse, fields, hfaceId, horigin, hcost,
    hflags, hexpirationPeriod, bind, Except.bind, pure, Except.pure]

end Route

/-! ## RIB entries -/

/-- `RibEntry` with its members. -/
structure RibEntry where
  name : Name := []
  routes : List Route := []
  wire : Option Block := none
  deriving DecidableEq

namespace RibEntry

def wireEncodeInto (entry : RibEntry) : Bytes :=
  Tlv.prependByteArrayBlock Tlv.Nfd.ribEntry
    (entry.name.wireEncode ++ entry.routes.flatMap Route.wireEncodeInto)

/-- The exception for an element that is no route, which names the type of the entry -/
def unexpected (type : ℕ) (_element : Block) : Error :=
  ⟨.tlv, "Expected Route Block, but Block is of a different type: #" ++ toString type⟩

def wireDecode (_entry : RibEntry) (wire : Block) : Except Error RibEntry :=
  if wire.type ≠ Tlv.Nfd.ribEntry then
    throw ⟨.tlv, "Expected RibEntry Block, but Block is of a different type: #" ++
      toString wire.type⟩
  else do
    let val ← Block.parse wire.value
    let (name, val) ← takeRequired Tlv.name Name.wireDecode (Route.missing "Name") val
    let routes ← decodeRecords Tlv.Nfd.route Route.wireDecode (unexpected wire.type) val
    return { name := name, routes := routes, wire := some wire }

def codec : Codec RibEntry Block Error (Name × List Route) where
  encode entry := Block.fromWire entry.wireEncodeInto
  stored := RibEntry.wire
  store entry wire := .ok { entry with wire := some wire }
  fresh := {}
  decode := wireDecode
  contents entry := (entry.name, entry.routes)

def wireEncode (entry : RibEntry) : Except Error (Block × RibEntry) := codec.recallCode entry

def setName (entry : RibEntry) (name : Name) : RibEntry := { entry with name := name, wire := none }

def addRoute (entry : RibEntry) (route : Route) : RibEntry :=
  { entry with routes := entry.routes ++ [route], wire := none }

/-- `RibEntry::clearRoutes`, after which the wire is still there -/
def clearRoutes (entry : RibEntry) : RibEntry := { entry with routes := [] }

/-- A call of a mutator. -/
inductive Call
  | setName (name : Name)
  | addRoute (route : Route)
  | clearRoutes

def perform (entry : RibEntry) : Call → Option RibEntry
  | .setName name => some (entry.setName name)
  | .addRoute route => some (entry.addRoute route)
  | .clearRoutes => some entry.clearRoutes

/-- The routes are only cleared while no wire is kept or no route is there, and the types of the
components of a name have 32 bits. -/
def IsSafe (entry : RibEntry) : Codec.Event Call Block → Prop
  | .change (.setName name) => name.IsWellFormed
  | .change .clearRoutes => entry.wire = none ∨ entry.routes = []
  | _ => True

instance (entry : RibEntry) : (event : Codec.Event Call Block) → Decidable (entry.IsSafe event)
  | .change (.setName name) => inferInstanceAs (Decidable name.IsWellFormed)
  | .change .clearRoutes => inferInstanceAs (Decidable (entry.wire = none ∨ entry.routes = []))
  | .change (.addRoute _) | .recallCode | .decode _ => isTrue trivial

theorem wireEncodeInto_eq (entry : RibEntry) :
    entry.wireEncodeInto =
      (entryBlock Tlv.Nfd.ribEntry Route.toBlock entry.name entry.routes).wire := by
  have hroute : Route.wireEncodeInto = fun route ↦ route.toBlock.wire :=
    funext Route.wireEncodeInto_eq
  simp only [wireEncodeInto, entryBlock, Block.ofElements, List.flatMap_cons, List.flatMap_map,
    Name.wireEncode_eq, hroute]
  rfl

variable {entry : RibEntry}

theorem encode_eq_ok_iff {code : Block} :
    codec.encode entry = .ok code ↔
      (entryBlock Tlv.Nfd.ribEntry Route.toBlock entry.name entry.routes).value.length < 2 ^ 64 ∧
        code = entryBlock Tlv.Nfd.ribEntry Route.toBlock entry.name entry.routes := by
  simp only [codec, wireEncodeInto_eq]
  exact Block.fromWire_prependByteArrayBlock_eq_ok_iff (by decide)

theorem wireDecode_entryBlock {name : Name} {routes : List Route} (prior : RibEntry)
    (hwell : name.IsWellFormed)
    (hvalue : (entryBlock Tlv.Nfd.ribEntry Route.toBlock name routes).value.length < 2 ^ 64) :
    prior.wireDecode (entryBlock Tlv.Nfd.ribEntry Route.toBlock name routes) =
      .ok { name := name, routes := routes,
            wire := some (entryBlock Tlv.Nfd.ribEntry Route.toBlock name routes) } := by
  obtain ⟨hparse, hname, hroutes⟩ := parse_entryBlock Route.isWire_toBlock hvalue
  have htype : (entryBlock Tlv.Nfd.ribEntry Route.toBlock name routes).type = Tlv.Nfd.ribEntry := rfl
  have htake : takeRequired Tlv.name Name.wireDecode (Route.missing "Name")
      (name.toBlock :: routes.map Route.toBlock) = .ok (name, routes.map Route.toBlock) := by
    have hfirst : name.toBlock.type = Tlv.name := rfl
    simp only [takeRequired, Packet.takeIf, hfirst, if_true, Name.wireDecode_toBlock hwell hname]
    rfl
  have hrecords : decodeRecords Tlv.Nfd.route Route.wireDecode (unexpected Tlv.Nfd.ribEntry)
      (routes.map Route.toBlock) = .ok routes :=
    decodeRecords_map (fun _ ↦ rfl) fun route hmem ↦ Route.wireDecode_toBlock (hroutes route hmem)
  simp only [wireDecode, htype, ne_eq, not_true_eq_false, if_false, hparse, htake, hrecords, bind,
    Except.bind, pure, Except.pure]

theorem exists_wireEncode (hsize : entry.wireEncodeInto.length < 2 ^ 64) :
    ∃ code next, entry.wireEncode = .ok (code, next) := by
  rw [wireEncodeInto_eq] at hsize
  have hvalue := lt_of_le_of_lt (Block.length_value_le_wire_ofValue _ _) hsize
  exact Codec.exists_recall (encode_eq_ok_iff.mpr ⟨hvalue, rfl⟩) rfl

theorem of_wireDecode {prior next : RibEntry} {wire : Block}
    (hdecode : prior.wireDecode wire = .ok next) :
    next.name.IsWellFormed ∧ next.wire = some wire := by
  unfold wireDecode at hdecode
  split_ifs at hdecode with htype
  obtain ⟨elements, hparse, hdecode⟩ := bind_eq_ok_iff.mp hdecode
  obtain ⟨⟨name, later⟩, htake, hdecode⟩ := bind_eq_ok_iff.mp hdecode
  obtain ⟨routes, -, hdecode⟩ := bind_eq_ok_iff.mp hdecode
  obtain ⟨element, hread⟩ := exists_of_takeRequired htake
  cases hdecode
  exact ⟨Name.isWellFormed_of_wireDecode hread, rfl⟩

theorem keepsCode : codec.KeepsCode perform IsSafe fun entry ↦ entry.name.IsWellFormed where
  read_of_encode := by
    intro entry code hwell hencode
    obtain ⟨hvalue, rfl⟩ := encode_eq_ok_iff.mp hencode
    exact congrArg (Except.map codec.contents) (wireDecode_entryBlock codec.fresh hwell hvalue)
  of_store := by
    rintro entry code next hwell hstore
    cases hstore
    exact ⟨hwell, rfl, rfl⟩
  of_perform := by
    intro entry call next hwell hsafe hnext
    cases call with
    | setName name =>
      cases hnext
      exact ⟨hsafe, .inl rfl⟩
    | addRoute route =>
      cases hnext
      exact ⟨hwell, .inl rfl⟩
    | clearRoutes =>
      cases hnext
      refine ⟨hwell, hsafe.imp id fun hroutes ↦ ⟨rfl, ?_⟩⟩
      simp only [codec, clearRoutes, hroutes]
  of_decode := by
    intro entry code next _ _ hdecode
    obtain ⟨hwell, hwire⟩ := of_wireDecode (show entry.wireDecode code = .ok next from hdecode)
    -- what the entry held before is not looked at
    have hfresh : codec.decode codec.fresh code = .ok next := hdecode
    exact ⟨hwell, hwire, congrArg (Except.map codec.contents) hfresh⟩

end RibEntry

/-! ## Next hops -/

/-- `NextHopRecord` -/
structure NextHopRecord where
  faceId : UInt64 := 2 ^ 64 - 1
  cost : UInt64 := 0
  deriving DecidableEq

section Next

variable {Value : Type} {read : Block → Except Error Value}

/-- The element that has to come next, and what stands behind it. -/
def takeNext (type : ℕ) (read : Block → Except Error Value) (ended : Error)
    (unexpected : Block → Error) : List Block → Except Error (Value × List Block)
  | [] => throw ended
  | element :: later =>
      if element.type ≠ type then throw (unexpected element)
      else do return (← read element, later)

variable {value : Value}

theorem takeNext_cons (type : ℕ) {element : Block} (ended : Error) (unexpected : Block → Error)
    (later : List Block) (htype : element.type = type) (hread : read element = .ok value) :
    takeNext type read ended unexpected (element :: later) = .ok (value, later) := by
  simp only [takeNext, htype, ne_eq, not_true_eq_false, if_false, hread]
  rfl

theorem exists_of_takeNext {type : ℕ} {ended : Error} {unexpected : Block → Error}
    {elements later : List Block}
    (htake : takeNext type read ended unexpected elements = .ok (value, later)) :
    ∃ element, read element = .ok value := by
  cases elements with
  | nil => cases htake
  | cons element elements =>
    rw [takeNext] at htake
    split_ifs at htake with htype
    obtain ⟨read, hread, htake⟩ := bind_eq_ok_iff.mp htake
    cases htake
    exact ⟨element, hread⟩

end Next

/-- The exception for an element of another type than the expected one -/
def expected (what : String) (type : ℕ) : Error :=
  ⟨.tlv, "Expected " ++ what ++ ", but Block is of a different type: #" ++ toString type⟩

namespace NextHopRecord

/-- `NextHopRecord::wireEncode(EncodingImpl<TAG>&)` -/
def wireEncodeInto (record : NextHopRecord) : Bytes :=
  let cost := Block.prependNonNegativeIntegerBlock Tlv.Nfd.cost record.cost.toNat
  let faceId := Block.prependNonNegativeIntegerBlock Tlv.Nfd.faceId record.faceId.toNat
  Tlv.prependByteArrayBlock Tlv.Nfd.nextHopRecord (faceId ++ cost)

def ended : Error := ⟨.tlv, "Unexpected end of NextHopRecord"⟩

/-- `NextHopRecord::wireDecode`, which sets both members. The error of the second one names the type
of the record. -/
def wireDecode (wire : Block) : Except Error NextHopRecord :=
  if wire.type ≠ Tlv.Nfd.nextHopRecord then
    throw ⟨.tlv, "Requested decoding of NextHopRecord, but Block is of a different type: #" ++
      toString wire.type⟩
  else do
    let val ← Block.parse wire.value
    let (faceId, val) ←
      takeNext Tlv.Nfd.faceId Block.readUInt64 ended (fun element ↦ expected "FaceId" element.type) val
    let (cost, _) ←
      takeNext Tlv.Nfd.cost Block.readUInt64 ended (fun _ ↦ expected "Cost" wire.type) val
    return { faceId := faceId, cost := cost }

def elements (record : NextHopRecord) : List Block :=
  [Block.ofNumber Tlv.Nfd.faceId record.faceId.toNat, Block.ofNumber Tlv.Nfd.cost record.cost.toNat]

def toBlock (record : NextHopRecord) : Block :=
  Block.ofElements Tlv.Nfd.nextHopRecord record.elements

theorem wireEncodeInto_eq (record : NextHopRecord) :
    record.wireEncodeInto = record.toBlock.wire := by
  simp only [wireEncodeInto, toBlock, Block.ofElements, elements, List.flatMap_cons,
    List.flatMap_nil, List.append_nil]
  rfl

theorem isWire_toBlock (record : NextHopRecord) (hsize : record.toBlock.wire.length < 2 ^ 64) :
    record.toBlock.IsWire :=
  Block.ofElements_isWire (by decide) hsize

theorem wireDecode_toBlock {record : NextHopRecord} (hsize : record.toBlock.wire.length < 2 ^ 64) :
    wireDecode record.toBlock = .ok record := by
  have hparse : Block.parse record.toBlock.value = .ok record.elements := by
    apply Block.parse_ofElements
    intro element hmem
    have hshort := Block.length_wire_lt_of_mem hsize hmem
    simp only [elements, List.mem_cons, List.not_mem_nil, or_false] at hmem
    rcases hmem with rfl | rfl <;> exact Block.ofValue_isWire_of_length (by decide) hshort
  have htype : record.toBlock.type = Tlv.Nfd.nextHopRecord := rfl
  have hfaceId := takeNext_cons Tlv.Nfd.faceId ended (fun element ↦ expected "FaceId" element.type)
    [Block.ofNumber Tlv.Nfd.cost record.cost.toNat] rfl
    (Block.readUInt64_ofNumber Tlv.Nfd.faceId record.faceId)
  have hcost := takeNext_cons Tlv.Nfd.cost ended (fun _ ↦ expected "Cost" Tlv.Nfd.nextHopRecord) [] rfl
    (Block.readUInt64_ofNumber Tlv.Nfd.cost record.cost)
  simp only [wireDecode, htype, ne_eq, not_true_eq_false, if_false, hparse, elements, hfaceId, hcost,
    bind, Except.bind, pure, Except.pure]

end NextHopRecord

/-! ## FIB entries -/

/-- `FibEntry` with its members. -/
structure FibEntry where
  name : Name := []
  nextHopRecords : List NextHopRecord := []
  wire : Option Block := none
  deriving DecidableEq

namespace FibEntry

def wireEncodeInto (entry : FibEntry) : Bytes :=
  Tlv.prependByteArrayBlock Tlv.Nfd.fibEntry
    (entry.name.wireEncode ++ entry.nextHopRecords.flatMap NextHopRecord.wireEncodeInto)

def ended : Error := ⟨.tlv, "Unexpected end of FibEntry"⟩

def wireDecode (_entry : FibEntry) (wire : Block) : Except Error FibEntry :=
  if wire.type ≠ Tlv.Nfd.fibEntry then
    throw ⟨.tlv, "Requested decoding of FibEntry, but Block is of a different type: #" ++
      toString wire.type⟩
  else do
    let val ← Block.parse wire.value
    let (name, val) ←
      takeNext Tlv.name Name.wireDecode ended (fun element ↦ expected "Name" element.type) val
    let nextHopRecords ← decodeRecords Tlv.Nfd.nextHopRecord NextHopRecord.wireDecode
      (fun element ↦ expected "NextHopRecords" element.type) val
    return { name := name, nextHopRecords := nextHopRecords, wire := some wire }

def codec : Codec FibEntry Block Error (Name × List NextHopRecord) where
  encode entry := Block.fromWire entry.wireEncodeInto
  stored := FibEntry.wire
  store entry wire := .ok { entry with wire := some wire }
  fresh := {}
  decode := wireDecode
  contents entry := (entry.name, entry.nextHopRecords)

def wireEncode (entry : FibEntry) : Except Error (Block × FibEntry) := codec.recallCode entry

def setPrefix (entry : FibEntry) (name : Name) : FibEntry := { entry with name := name, wire := none }

def addNextHopRecord (entry : FibEntry) (record : NextHopRecord) : FibEntry :=
  { entry with nextHopRecords := entry.nextHopRecords ++ [record], wire := none }

def setNextHopRecords (entry : FibEntry) (records : List NextHopRecord) : FibEntry :=
  { entry with nextHopRecords := records, wire := none }

/-- A call of a mutator. -/
inductive Call
  | setPrefix (name : Name)
  | addNextHopRecord (record : NextHopRecord)
  | setNextHopRecords (records : List NextHopRecord)

def perform (entry : FibEntry) : Call → Option FibEntry
  | .setPrefix name => some (entry.setPrefix name)
  | .addNextHopRecord record => some (entry.addNextHopRecord record)
  | .setNextHopRecords records => some (entry.setNextHopRecords records)

/-- The types of the components of a name have 32 bits. -/
def IsSafe (_entry : FibEntry) : Codec.Event Call Block → Prop
  | .change (.setPrefix name) => name.IsWellFormed
  | _ => True

instance (entry : FibEntry) : (event : Codec.Event Call Block) → Decidable (entry.IsSafe event)
  | .change (.setPrefix name) => inferInstanceAs (Decidable name.IsWellFormed)
  | .change (.addNextHopRecord _) | .change (.setNextHopRecords _) | .recallCode | .decode _ =>
      isTrue trivial

theorem wireEncodeInto_eq (entry : FibEntry) :
    entry.wireEncodeInto =
      (entryBlock Tlv.Nfd.fibEntry NextHopRecord.toBlock entry.name entry.nextHopRecords).wire := by
  have hrecord : NextHopRecord.wireEncodeInto = fun record ↦ record.toBlock.wire :=
    funext NextHopRecord.wireEncodeInto_eq
  simp only [wireEncodeInto, entryBlock, Block.ofElements, List.flatMap_cons, List.flatMap_map,
    Name.wireEncode_eq, hrecord]
  rfl

variable {entry : FibEntry}

theorem encode_eq_ok_iff {code : Block} :
    codec.encode entry = .ok code ↔
      (entryBlock Tlv.Nfd.fibEntry NextHopRecord.toBlock entry.name
        entry.nextHopRecords).value.length < 2 ^ 64 ∧
      code = entryBlock Tlv.Nfd.fibEntry NextHopRecord.toBlock entry.name entry.nextHopRecords := by
  simp only [codec, wireEncodeInto_eq]
  exact Block.fromWire_prependByteArrayBlock_eq_ok_iff (by decide)

theorem wireDecode_entryBlock {name : Name} {records : List NextHopRecord} (prior : FibEntry)
    (hwell : name.IsWellFormed)
    (hvalue : (entryBlock Tlv.Nfd.fibEntry NextHopRecord.toBlock name records).value.length <
      2 ^ 64) :
    prior.wireDecode (entryBlock Tlv.Nfd.fibEntry NextHopRecord.toBlock name records) =
      .ok { name := name, nextHopRecords := records,
            wire := some (entryBlock Tlv.Nfd.fibEntry NextHopRecord.toBlock name records) } := by
  obtain ⟨hparse, hname, hshort⟩ := parse_entryBlock NextHopRecord.isWire_toBlock hvalue
  have htype : (entryBlock Tlv.Nfd.fibEntry NextHopRecord.toBlock name records).type =
      Tlv.Nfd.fibEntry := rfl
  have htake := takeNext_cons Tlv.name ended (fun element ↦ expected "Name" element.type)
    (records.map NextHopRecord.toBlock) rfl (Name.wireDecode_toBlock hwell hname)
  have hrecords : decodeRecords Tlv.Nfd.nextHopRecord NextHopRecord.wireDecode
      (fun element ↦ expected "NextHopRecords" element.type) (records.map NextHopRecord.toBlock) =
        .ok records :=
    decodeRecords_map (fun _ ↦ rfl) fun record hmem ↦
      NextHopRecord.wireDecode_toBlock (hshort record hmem)
  simp only [wireDecode, htype, ne_eq, not_true_eq_false, if_false, hparse, htake, hrecords, bind,
    Except.bind, pure, Except.pure]

theorem exists_wireEncode (hsize : entry.wireEncodeInto.length < 2 ^ 64) :
    ∃ code next, entry.wireEncode = .ok (code, next) := by
  rw [wireEncodeInto_eq] at hsize
  have hvalue := lt_of_le_of_lt (Block.length_value_le_wire_ofValue _ _) hsize
  exact Codec.exists_recall (encode_eq_ok_iff.mpr ⟨hvalue, rfl⟩) rfl

theorem of_wireDecode {prior next : FibEntry} {wire : Block}
    (hdecode : prior.wireDecode wire = .ok next) :
    next.name.IsWellFormed ∧ next.wire = some wire := by
  unfold wireDecode at hdecode
  split_ifs at hdecode with htype
  obtain ⟨elements, -, hdecode⟩ := bind_eq_ok_iff.mp hdecode
  obtain ⟨⟨name, later⟩, htake, hdecode⟩ := bind_eq_ok_iff.mp hdecode
  obtain ⟨records, -, hdecode⟩ := bind_eq_ok_iff.mp hdecode
  obtain ⟨element, hread⟩ := exists_of_takeNext htake
  cases hdecode
  exact ⟨Name.isWellFormed_of_wireDecode hread, rfl⟩

theorem keepsCode : codec.KeepsCode perform IsSafe fun entry ↦ entry.name.IsWellFormed where
  read_of_encode := by
    intro entry code hwell hencode
    obtain ⟨hvalue, rfl⟩ := encode_eq_ok_iff.mp hencode
    exact congrArg (Except.map codec.contents) (wireDecode_entryBlock codec.fresh hwell hvalue)
  of_store := by
    rintro entry code next hwell hstore
    cases hstore
    exact ⟨hwell, rfl, rfl⟩
  of_perform := by
    intro entry call next hwell hsafe hnext
    cases call with
    | setPrefix name =>
      cases hnext
      exact ⟨hsafe, .inl rfl⟩
    | addNextHopRecord record =>
      cases hnext
      exact ⟨hwell, .inl rfl⟩
    | setNextHopRecords records =>
      cases hnext
      exact ⟨hwell, .inl rfl⟩
  of_decode := by
    intro entry code next _ _ hdecode
    obtain ⟨hwell, hwire⟩ := of_wireDecode (show entry.wireDecode code = .ok next from hdecode)
    have hfresh : codec.decode codec.fresh code = .ok next := hdecode
    exact ⟨hwell, hwire, congrArg (Except.map codec.contents) hfresh⟩

end FibEntry

/-! ## Every run -/

open Security (AdditionalDescription)

/-- However an object was changed, encoded and decoded before, what it is encoded to shows what it
contains, and a wire that it has just decoded shows it too. Routes are cleared, and values of a
description are changed, only while no wire is kept, and a description is decoded only from a wire
with its keys. -/
theorem showsContents_of_run (ribEvents : List (Codec.Event RibEntry.Call Block))
    (fibEvents : List (Codec.Event FibEntry.Call Block))
    (descriptionEvents : List (Codec.Event AdditionalDescription.Call Block)) :
    (∀ finish,
      Run.Guarded (RibEntry.codec.step RibEntry.perform) RibEntry.IsSafe {} ribEvents →
      Run.run (RibEntry.codec.step RibEntry.perform) {} ribEvents = some finish →
        RibEntry.codec.ShowsContents ribEvents finish ∧
        (finish.wireEncodeInto.length < 2 ^ 64 →
          ∃ code next, finish.wireEncode = .ok (code, next))) ∧
    (∀ finish,
      Run.Guarded (FibEntry.codec.step FibEntry.perform) FibEntry.IsSafe {} fibEvents →
      Run.run (FibEntry.codec.step FibEntry.perform) {} fibEvents = some finish →
        FibEntry.codec.ShowsContents fibEvents finish ∧
        (finish.wireEncodeInto.length < 2 ^ 64 →
          ∃ code next, finish.wireEncode = .ok (code, next))) ∧
    (∀ finish,
      Run.Guarded (AdditionalDescription.codec.step AdditionalDescription.perform)
        AdditionalDescription.IsSafe {} descriptionEvents →
      Run.run (AdditionalDescription.codec.step AdditionalDescription.perform) {}
        descriptionEvents = some finish →
        AdditionalDescription.codec.ShowsContents descriptionEvents finish ∧
        (finish.wireEncodeInto.length < 2 ^ 64 →
          ∃ code next, finish.wireEncode = .ok (code, next))) := by
  have hempty : Name.IsWellFormed [] := by simp [Name.IsWellFormed]
  refine ⟨?_, ?_, ?_⟩
  · intro finish hguarded hrun
    exact ⟨RibEntry.keepsCode.showsContents_of_guarded hempty rfl hguarded hrun,
      RibEntry.exists_wireEncode⟩
  · intro finish hguarded hrun
    exact ⟨FibEntry.keepsCode.showsContents_of_guarded hempty rfl hguarded hrun,
      FibEntry.exists_wireEncode⟩
  · intro finish hguarded hrun
    exact ⟨AdditionalDescription.keepsCode.showsContents_of_guarded trivial rfl hguarded hrun,
      AdditionalDescription.exists_wireEncode⟩

def ribEntryBlock : Block := entryBlock Tlv.Nfd.ribEntry Route.toBlock [.generic [97]] [{ faceId := 7 }]

def fibEntryBlock : Block :=
  entryBlock Tlv.Nfd.fibEntry NextHopRecord.toBlock [.generic [97]] [{ faceId := 7 }]

def descriptionBlock (value : Bytes) : Block :=
  AdditionalDescription.toBlock ((OrderedMap.empty : Security.DescriptionMap).assign [107] value)

theorem showsContents_of_run_decode :
    RibEntry.codec.ShowsContents [.change RibEntry.Call.clearRoutes, .change (.addRoute {}), .recallCode,
        .decode ribEntryBlock]
      { name := [.generic [97]], routes := [{ faceId := 7 }], wire := some ribEntryBlock } ∧
    FibEntry.codec.ShowsContents [.change (FibEntry.Call.setPrefix [.generic [98]]), .recallCode,
        .change (.addNextHopRecord {}), .decode fibEntryBlock]
      { name := [.generic [97]], nextHopRecords := [{ faceId := 7 }], wire := some fibEntryBlock } ∧
    AdditionalDescription.codec.ShowsContents [.change (AdditionalDescription.Call.set [107] [1]),
        .recallCode, .change (.set [107] [1]), .decode (descriptionBlock [2])]
      { info := (OrderedMap.empty : Security.DescriptionMap).assign [107] [2],
        wire := some (descriptionBlock [2]) } := by
  obtain ⟨hrib, hfib, hdescription⟩ := showsContents_of_run
    [.change .clearRoutes, .change (.addRoute {}), .recallCode, .decode ribEntryBlock]
    [.change (.setPrefix [.generic [98]]), .recallCode, .change (.addNextHopRecord {}),
      .decode fibEntryBlock]
    [.change (.set [107] [1]), .recallCode, .change (.set [107] [1]), .decode (descriptionBlock [2])]
  refine ⟨?_, ?_, ?_⟩
  · exact (hrib _ (by decide +kernel) (by decide +kernel)).1
  · exact (hfib _ (by decide +kernel) (by decide +kernel)).1
  · exact (hdescription _ (by decide +kernel) (by decide +kernel)).1

/-- After the routes are cleared the wire still has them, after a value is set the wire still has the
old one, and after decoding an old key is still there. -/
theorem not_showsContents_clearRoutes :
    (∃ finish, Run.run (RibEntry.codec.step RibEntry.perform) {}
        [.change (.setName [.generic [97]]), .change (.addRoute { faceId := 7 }), .recallCode,
          .change .clearRoutes] = some finish ∧
      finish.wireEncode = .ok (ribEntryBlock, finish) ∧
      RibEntry.codec.read ribEntryBlock = .ok ([.generic [97]], [{ faceId := 7 }]) ∧
      RibEntry.codec.contents finish = ([.generic [97]], [])) ∧
    (∃ finish, Run.run (AdditionalDescription.codec.step AdditionalDescription.perform) {}
        [.change (.set [107] [1]), .recallCode, .change (.set [107] [2])] = some finish ∧
      finish.wireEncode = .ok (descriptionBlock [1], finish) ∧
      AdditionalDescription.codec.read (descriptionBlock [1]) ≠
        .ok (AdditionalDescription.codec.contents finish)) ∧
    ∃ finish, Run.run (AdditionalDescription.codec.step AdditionalDescription.perform) {}
        [.change (.set [108] [1]), .decode (descriptionBlock [1])] = some finish ∧
      AdditionalDescription.codec.read (descriptionBlock [1]) ≠
        .ok (AdditionalDescription.codec.contents finish) := by
  refine ⟨⟨{ name := [.generic [97]], wire := some ribEntryBlock }, ?_⟩,
    ⟨⟨(OrderedMap.empty : Security.DescriptionMap).assign [107] [2], some (descriptionBlock [1])⟩, ?_⟩,
    ⟨⟨((OrderedMap.empty : Security.DescriptionMap).assign [108] [1]).assign [107] [1],
      some (descriptionBlock [1])⟩, ?_⟩⟩
  all_goals decide +kernel

end Mgmt

end NdnCxx
