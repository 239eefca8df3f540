import NdnCxx.Mgmt.ControlCommand
import NdnCxx.Packet.WireErrors

/-!
# Responses to control commands

What a command says about its responses, about the defaults of its requests and about the text of
both. A getter asserts that its member is present, so a text is missing when a member is read that is
absent.
-/

namespace NdnCxx

namespace Tlv.Nfd

def controlResponse : ℕ := 101
def statusCode : ℕ := 102
def statusText : ℕ := 103

end Tlv.Nfd

namespace Mgmt

/-! ## Decoding -/

/-- `ControlResponse`, as it is decoded -/
structure ControlResponse where
  code : UInt32
  text : Bytes
  body : Option Block
  deriving DecidableEq

def ControlResponse.wireDecode (wire : Block) : Except Error ControlResponse := do
  let elements ← Block.parse wire.value
  if wire.type ≠ Tlv.Nfd.controlResponse then
    throw ⟨.tlv, "Requested decoding of ControlResponse, but Block is of different type"⟩
  else
    match elements with
    | [] => throw ⟨.tlv,
        "Incorrect ControlResponse format (StatusCode missing or not the first item)"⟩
    | statusCode :: later =>
        if statusCode.type ≠ Tlv.Nfd.statusCode then
          throw ⟨.tlv,
            "Incorrect ControlResponse format (StatusCode missing or not the first item)"⟩
        else do
          let code ← statusCode.readAs UInt32.ofNat
          match later with
          | [] => throw ⟨.tlv,
              "Incorrect ControlResponse format (StatusText missing or not the second item)"⟩
          | statusText :: rest =>
              if statusText.type ≠ Tlv.Nfd.statusText then
                throw ⟨.tlv,
                  "Incorrect ControlResponse format (StatusText missing or not the second item)"⟩
              else return ⟨code, statusText.value, rest.head?⟩

/-- The decoding of the body of a response; a response without one has a default `Block()`. -/
def ControlResponse.decodeBody (response : ControlResponse) : Except Error ControlParameters :=
  match response.body with
  | none => .error ⟨.tlv, "Expecting TLV-TYPE ControlParameters"⟩
  | some body => ControlParameters.wireDecode {} body

theorem ControlResponse.wireDecode_onlyTlvErrors (wire : Block) :
    OnlyTlvErrors (ControlResponse.wireDecode wire) := by
  refine .bind (Block.parse_onlyTlvErrors _) fun elements ↦ .ite (.throw rfl) ?_
  cases elements with
  | nil => exact .throw rfl
  | cons statusCode later =>
    refine .ite (.throw rfl) (.bind (.bind (Block.readNonNegativeInteger_onlyTlvErrors _)
      fun _ ↦ .ok _) fun code ↦ ?_)
    cases later with
    | nil => exact .throw rfl
    | cons statusText rest => exact .ite (.throw rfl) (.ok _)

theorem readOptional_onlyTlvErrors {Value : Type} {read : Block → Except Error Value}
    (hread : ∀ element, OnlyTlvErrors (read element)) (found : Option Block) :
    OnlyTlvErrors (Block.readOptional found read) := by
  cases found with
  | none => exact .ok _
  | some element => exact .map _ (hread element)

theorem ControlParameters.wireDecode_onlyTlvErrors (parameters : ControlParameters)
    (block : Block) : OnlyTlvErrors (parameters.wireDecode block) := by
  have hnumber {Value : Type} (cast : ℕ → Value) (element : Block) :
      OnlyTlvErrors (element.readAs cast) :=
    .bind (Block.readNonNegativeInteger_onlyTlvErrors element) fun _ ↦ .ok _
  have hstrategy (element : Block) : OnlyTlvErrors (decodeStrategy element) := by
    refine .bind (Block.parse_onlyTlvErrors _) fun elements ↦ ?_
    cases elements with
    | nil => exact .throw rfl
    | cons first rest => exact Name.wireDecode_onlyTlvErrors first
  unfold ControlParameters.wireDecode
  refine .ite (fun error hthrow ↦ ?_) (.bind (Block.parse_onlyTlvErrors _) fun _ ↦
    .bind (readOptional_onlyTlvErrors Name.wireDecode_onlyTlvErrors _) fun _ ↦
    .bind (readOptional_onlyTlvErrors (hnumber _) _) fun _ ↦
    .bind (readOptional_onlyTlvErrors (fun _ ↦ .ok _) _) fun _ ↦
    .bind (readOptional_onlyTlvErrors (hnumber _) _) fun _ ↦
    .bind (readOptional_onlyTlvErrors (hnumber _) _) fun _ ↦
    .bind (readOptional_onlyTlvErrors (hnumber _) _) fun _ ↦
    .bind (readOptional_onlyTlvErrors (hnumber _) _) fun _ ↦
    .bind (readOptional_onlyTlvErrors hstrategy _) fun _ ↦
    .bind (readOptional_onlyTlvErrors (hnumber _) _) fun _ ↦
    .bind (readOptional_onlyTlvErrors (hnumber _) _) fun _ ↦ .ok _)
  cases hthrow
  rfl

theorem ControlResponse.decodeBody_onlyTlvErrors (response : ControlResponse) :
    OnlyTlvErrors response.decodeBody := by
  unfold ControlResponse.decodeBody
  cases response.body with
  | none => exact .throw rfl
  | some body => exact ControlParameters.wireDecode_onlyTlvErrors {} body

/-! ## Printing -/

/-- A text that is written to a stream -/
def textBytes (text : String) : Bytes := bytesOf text.toList

def FacePersistency.print (facePersistency : FacePersistency) : Bytes :=
  textBytes (if facePersistency = 255 then "none"
    else if facePersistency = 0 then "persistent"
    else if facePersistency = 1 then "on-demand"
    else if facePersistency = 2 then "permanent"
    else toString facePersistency.toNat)

def printMilliseconds (duration : Int64) : Bytes :=
  textBytes (toString duration.toInt ++
    (if duration = 1 ∨ duration = -1 then " millisecond" else " milliseconds"))

def ControlParameters.print (parameters : ControlParameters) : Bytes :=
  let field {Value : Type} (label : String) (member : Option Value) (text : Value → Bytes) : Bytes :=
    Block.prependOptional member fun value ↦
      textBytes (label ++ ": ") ++ text value ++ textBytes ", "
  let number (value : UInt64) : Bytes := textBytes (toString value.toNat)
  textBytes "ControlParameters(" ++
    field "Name" parameters.name (fun name ↦ textBytes name.toUri) ++
    field "FaceId" parameters.faceId number ++
    field "Uri" parameters.uri id ++
    field "LocalControlFeature" parameters.localControlFeature
      (fun feature ↦ textBytes (toString feature.toNat)) ++
    field "Origin" parameters.origin number ++
    field "Cost" parameters.cost number ++
    field "Flags" parameters.flags number ++
    field "Strategy" parameters.strategy (fun strategy ↦ textBytes strategy.toUri) ++
    field "ExpirationPeriod" parameters.expirationPeriod printMilliseconds ++
    textBytes ")"

/-! ## Commands -/

/-- One `if (!parameters.has…()) parameters.set…(…)` of the defaults of a command -/
structure FieldDefault where
  field : ControlParameterField
  setter : ControlParameters.Call
  deriving DecidableEq

def FieldDefault.apply (parameters : ControlParameters) (default : FieldDefault) :
    ControlParameters :=
  if !parameters.presentField default.field then parameters.call default.setter else parameters

/-- A `ControlCommand` with its defaults, its responses and its texts. A text is `none` when an
assertion of a getter fails. No command has defaults for its responses. -/
structure ReplyingCommand extends ControlCommand where
  requestDefaults : List FieldDefault := []
  validateResponse : ControlParameters → Except Thrown Unit
  printRequestParameters : ControlParameters → Option Bytes := fun parameters ↦ some parameters.print
  printResponseParameters : ControlParameters → Option Bytes := fun parameters ↦ some parameters.print

namespace ReplyingCommand

def applyDefaultsToRequest (command : ReplyingCommand) (parameters : ControlParameters) :
    ControlParameters :=
  command.requestDefaults.foldl FieldDefault.apply parameters

def applyDefaultsToResponse (_command : ReplyingCommand) (parameters : ControlParameters) :
    ControlParameters :=
  parameters

/-- The check of the overrides of `validateResponse` that look at the FaceId -/
def checkFaceId (parameters : ControlParameters) : Except Thrown Unit :=
  if parameters.faceId = some 0 then .error (.argumentError "FaceId must not be zero") else .ok ()

/-- A response validator, and the check behind it -/
def validatedBy (validator : FieldValidator)
    (check : ControlParameters → Except Thrown Unit) (parameters : ControlParameters) :
    Except Thrown Unit := do
  validator.validate parameters
  check parameters

def faceCreate : ReplyingCommand where
  toControlCommand := .faceCreate
  requestDefaults := [⟨.facePersistency, .setFacePersistency 0⟩]
  validateResponse := validatedBy { required := [.uri, .faceId, .facePersistency] } checkFaceId
  printRequestParameters parameters := do
    let uri ← parameters.uri
    let facePersistency ← parameters.facePersistency
    return uri ++ textBytes "," ++ facePersistency.print
  printResponseParameters parameters := do
    let faceId ← parameters.faceId
    let uri ← parameters.uri
    return textBytes (toString faceId.toNat) ++ textBytes "," ++ uri

/-- The text of both a request and a response of `FaceDestroyCommand` -/
def printFaceId (parameters : ControlParameters) : Option Bytes :=
  parameters.faceId.map fun faceId ↦ textBytes (toString faceId.toNat)

def faceDestroy : ReplyingCommand where
  toControlCommand := .faceDestroy
  validateResponse := ControlCommand.faceDestroy.validateRequest
  printRequestParameters := printFaceId
  printResponseParameters := printFaceId

def faceEnableLocalControl : ReplyingCommand where
  toControlCommand := .faceEnableLocalControl
  validateResponse := ControlCommand.faceEnableLocalControl.validateRequest

def faceDisableLocalControl : ReplyingCommand where
  toControlCommand := .faceDisableLocalControl
  validateResponse := ControlCommand.faceDisableLocalControl.validateRequest

def fibAddNextHop : ReplyingCommand where
  toControlCommand := .fibAddNextHop
  requestDefaults := [⟨.faceId, .setFaceId 0⟩, ⟨.cost, .setCost 0⟩]
  validateResponse := validatedBy { required := [.name, .faceId, .cost] } checkFaceId

def fibRemoveNextHop : ReplyingCommand where
  toControlCommand := .fibRemoveNextHop
  requestDefaults := [⟨.faceId, .setFaceId 0⟩]
  validateResponse := validatedBy { required := [.name, .faceId] } checkFaceId

def strategyChoiceSet : ReplyingCommand where
  toControlCommand := .strategyChoiceSet
  validateResponse := validatedBy ControlCommand.strategyChoiceSet.requestValidator fun _ ↦ .ok ()

def strategyChoiceUnset : ReplyingCommand where
  toControlCommand := .strategyChoiceUnset
  validateResponse := ControlCommand.strategyChoiceUnset.validateRequest

def ribRegister : ReplyingCommand where
  toControlCommand := .ribRegister
  requestDefaults :=
    [⟨.faceId, .setFaceId 0⟩, ⟨.origin, .setOrigin 0⟩, ⟨.cost, .setCost 0⟩, ⟨.flags, .setFlags 1⟩]
  validateResponse := validatedBy
    { required := [.name, .faceId, .origin, .cost, .flags], optional := [.expirationPeriod] }
    checkFaceId

def ribUnregister : ReplyingCommand where
  toControlCommand := .ribUnregister
  requestDefaults := [⟨.faceId, .setFaceId 0⟩, ⟨.origin, .setOrigin 0⟩]
  validateResponse := validatedBy { required := [.name, .faceId, .origin] } checkFaceId

def all : List ReplyingCommand :=
  [faceCreate, faceDestroy, faceEnableLocalControl, faceDisableLocalControl, fibAddNextHop,
    fibRemoveNextHop, strategyChoiceSet, strategyChoiceUnset, ribRegister, ribUnregister]

end ReplyingCommand

/-! ## Defaults -/

/-- The setter of a default sets its field and unsets none. -/
def FieldDefault.SetsField (default : FieldDefault) : Prop :=
  ∀ parameters : ControlParameters,
    (parameters.call default.setter).presentField default.field = true ∧
    ∀ other, parameters.presentField other = true →
      (parameters.call default.setter).presentField other = true

section Defaults

variable {parameters : ControlParameters} {defaults : List FieldDefault}

theorem presentField_apply (parameters : ControlParameters) {default : FieldDefault} (hsets : default.SetsField) :
    (default.apply parameters).presentField default.field = true ∧
      ∀ other, parameters.presentField other = true →
        (default.apply parameters).presentField other = true := by
  unfold FieldDefault.apply
  split_ifs with habsent
  · exact hsets parameters
  · exact ⟨by simpa using habsent, fun _ hpresent ↦ hpresent⟩

theorem presentField_foldl (parameters : ControlParameters)
    (hsets : ∀ default ∈ defaults, default.SetsField) :
    (∀ default ∈ defaults,
      (defaults.foldl FieldDefault.apply parameters).presentField default.field = true) ∧
      ∀ other, parameters.presentField other = true →
        (defaults.foldl FieldDefault.apply parameters).presentField other = true := by
  induction defaults generalizing parameters with
  | nil => exact ⟨by simp, fun _ hpresent ↦ hpresent⟩
  | cons first later ih =>
    obtain ⟨hfirst, hkept⟩ := presentField_apply parameters
      (hsets first List.mem_cons_self)
    obtain ⟨hall, hother⟩ := ih (FieldDefault.apply parameters first)
      fun default hmem ↦ hsets default (List.mem_cons_of_mem first hmem)
    refine ⟨fun default hmem ↦ ?_, fun other hpresent ↦ hother other (hkept other hpresent)⟩
    rcases List.mem_cons.mp hmem with rfl | hlater
    · exact hother _ hfirst
    · exact hall default hlater

theorem foldl_apply_eq_self
    (hpresent : ∀ default ∈ defaults, parameters.presentField default.field = true) :
    defaults.foldl FieldDefault.apply parameters = parameters := by
  induction defaults with
  | nil => rfl
  | cons first later ih =>
    rw [List.forall_mem_cons] at hpresent
    have hself : FieldDefault.apply parameters first = parameters := by
      rw [FieldDefault.apply, hpresent.1]
      rfl
    rw [List.foldl_cons, hself]
    exact ih hpresent.2

end Defaults

namespace ReplyingCommand

variable {command : ReplyingCommand} {parameters : ControlParameters}

theorem forall_mem_all {Property : ReplyingCommand → Prop} :
    (∀ command ∈ all, Property command) ↔
      Property faceCreate ∧ Property faceDestroy ∧ Property faceEnableLocalControl ∧
        Property faceDisableLocalControl ∧ Property fibAddNextHop ∧ Property fibRemoveNextHop ∧
        Property strategyChoiceSet ∧ Property strategyChoiceUnset ∧ Property ribRegister ∧
        Property ribUnregister := by
  simp [all]

theorem setsField_of_mem (hmem : command ∈ all) :
    ∀ default ∈ command.requestDefaults, default.SetsField := by
  have hsetter {field : ControlParameterField} {setter : ControlParameters.Call}
      (hsets : (field, setter) ∈ [(.faceId, .setFaceId 0), (.origin, .setOrigin 0),
        (.cost, .setCost 0), (.flags, .setFlags 1), (.facePersistency, .setFacePersistency 0)]) :
      FieldDefault.SetsField ⟨field, setter⟩ := by
    intro parameters
    simp only [List.mem_cons, Prod.mk.injEq, List.not_mem_nil, or_false] at hsets
    rcases hsets with ⟨rfl, rfl⟩ | ⟨rfl, rfl⟩ | ⟨rfl, rfl⟩ | ⟨rfl, rfl⟩ | ⟨rfl, rfl⟩ <;>
      refine ⟨rfl, fun other hpresent ↦ ?_⟩ <;>
      cases other <;> first | rfl | exact hpresent
  suffices hall : ∀ command ∈ all, ∀ default ∈ command.requestDefaults, default.SetsField from
    hall command hmem
  rw [forall_mem_all]
  refine ⟨?_, ?_, ?_, ?_, ?_, ?_, ?_, ?_, ?_, ?_⟩ <;>
    intro default hdefault <;> apply hsetter <;> revert default <;> decide

/-- Defaults have been applied exactly when the fields that have one are present. -/
theorem exists_applyDefaultsToRequest_eq_iff (hmem : command ∈ all) :
    (∃ base, command.applyDefaultsToRequest base = parameters) ↔
      ∀ default ∈ command.requestDefaults, parameters.presentField default.field = true := by
  constructor
  · rintro ⟨base, rfl⟩
    exact (presentField_foldl _ (setsField_of_mem hmem)).1
  · exact fun hpresent ↦ ⟨parameters, foldl_apply_eq_self hpresent⟩

/-! ## What the validators establish -/

variable {thrown : Thrown} {validator : FieldValidator}

/-- The two checks of a validator throw nothing but an `ArgumentError`. -/
theorem validate_argumentError (hthrown : validator.validate parameters = .error thrown) :
    ∃ what, thrown = .argumentError what := by
  have hloop : ∀ fields : List ControlParameterField,
      forM fields (validator.validateField parameters) = .error thrown →
        ∃ what, thrown = .argumentError what := by
    intro fields
    induction fields with
    | nil => nofun
    | cons field fields ih =>
      intro hfields
      rw [List.forM_cons] at hfields
      cases hfield : validator.validateField parameters field with
      | ok value =>
        rw [hfield] at hfields
        exact ih hfields
      | error first =>
        rw [hfield] at hfields
        obtain rfl : first = thrown := Except.error.inj hfields
        unfold FieldValidator.validateField at hfield
        split_ifs at hfield <;> exact ⟨_, (Except.error.inj hfield).symm⟩
  exact hloop _ hthrown

theorem argumentError_of_validatedBy (validator : FieldValidator)
    (check : ControlParameters → Except Thrown Unit)
    (hcheck : ∀ thrown, check parameters = .error thrown → ∃ what, thrown = .argumentError what)
    (hthrown : validatedBy validator check parameters = .error thrown) :
    ∃ what, thrown = .argumentError what := by
  unfold validatedBy at hthrown
  cases hvalidate : validator.validate parameters with
  | error first =>
    rw [hvalidate] at hthrown
    obtain rfl : first = thrown := Except.error.inj hthrown
    exact validate_argumentError hvalidate
  | ok value =>
    rw [hvalidate] at hthrown
    exact hcheck thrown hthrown

theorem validateResponse_argumentError (hmem : command ∈ all)
    (hthrown : command.validateResponse parameters = .error thrown) :
    ∃ what, thrown = .argumentError what := by
  have hnone : ∀ thrown, (.ok () : Except Thrown Unit) = .error thrown →
      ∃ what, thrown = .argumentError what := nofun
  have hone {condition : Prop} [Decidable condition] (what : String) : ∀ thrown,
      (if condition then .error (.argumentError what) else .ok () : Except Thrown Unit) =
        .error thrown → ∃ what, thrown = .argumentError what := by
    intro thrown hthrown
    split_ifs at hthrown
    exact ⟨what, (Except.error.inj hthrown).symm⟩
  have hfeature : ∀ thrown, ControlCommand.faceEnableLocalControl.checkRequest parameters =
      .error thrown → ∃ what, thrown = .argumentError what := by
    intro thrown hthrown
    simp only [ControlCommand.faceEnableLocalControl, ControlCommand.faceLocalControl] at hthrown
    split_ifs at hthrown
    exact ⟨_, (Except.error.inj hthrown).symm⟩
  suffices hall : ∀ command ∈ all, ∀ thrown, command.validateResponse parameters = .error thrown →
      ∃ what, thrown = .argumentError what from hall command hmem thrown hthrown
  rw [forall_mem_all]
  exact ⟨fun _ ↦ argumentError_of_validatedBy _ checkFaceId (hone _),
    fun _ ↦ argumentError_of_validatedBy _ ControlCommand.faceDestroy.checkRequest (hone _),
    fun _ ↦ argumentError_of_validatedBy _ _ hfeature,
    fun _ ↦ argumentError_of_validatedBy _ _ hfeature,
    fun _ ↦ argumentError_of_validatedBy _ checkFaceId (hone _),
    fun _ ↦ argumentError_of_validatedBy _ checkFaceId (hone _),
    fun _ ↦ argumentError_of_validatedBy _ (fun _ ↦ .ok ()) hnone,
    fun _ ↦ argumentError_of_validatedBy _ ControlCommand.strategyChoiceUnset.checkRequest (hone _),
    fun _ ↦ argumentError_of_validatedBy _ checkFaceId (hone _),
    fun _ ↦ argumentError_of_validatedBy _ checkFaceId (hone _)⟩

/-- A required field of an accepted request or response is present. -/
theorem presentField_of_validatedBy {check : ControlParameters → Except Thrown Unit}
    (field : ControlParameterField) (hrequired : field ∈ validator.required)
    (haccepted : validatedBy validator check parameters = .ok ()) :
    parameters.presentField field = true := by
  obtain ⟨_, hvalidate, -⟩ := bind_eq_ok_iff.mp haccepted
  simpa [hrequired] using FieldValidator.validate_eq_ok_iff.mp hvalidate field

/-- The text of an accepted request whose defaults have been applied reads present members only. -/
theorem isSome_printRequestParameters (hmem : command ∈ all)
    (haccepted : command.validateRequest parameters = .ok ())
    (hpresent : ∀ default ∈ command.requestDefaults, parameters.presentField default.field = true) :
    (command.printRequestParameters parameters).isSome = true := by
  revert haccepted hpresent
  suffices hall : ∀ command ∈ all, command.validateRequest parameters = .ok () →
      (∀ default ∈ command.requestDefaults, parameters.presentField default.field = true) →
        (command.printRequestParameters parameters).isSome = true from hall command hmem
  have hplain {Text : Type} (text : Text) : (some text).isSome = true := rfl
  rw [forall_mem_all]
  refine ⟨fun haccepted hpresent ↦ ?_, fun haccepted _ ↦ ?_, fun _ _ ↦ hplain _, fun _ _ ↦ hplain _,
    fun _ _ ↦ hplain _, fun _ _ ↦ hplain _, fun _ _ ↦ hplain _, fun _ _ ↦ hplain _,
    fun _ _ ↦ hplain _, fun _ _ ↦ hplain _⟩
  · obtain ⟨uri, huri⟩ := Option.isSome_iff_exists.mp
      (presentField_of_validatedBy .uri (by decide) haccepted)
    obtain ⟨facePersistency, hfacePersistency⟩ := Option.isSome_iff_exists.mp
      (hpresent _ List.mem_cons_self)
    simp [faceCreate, huri, hfacePersistency]
  · obtain ⟨faceId, hfaceId⟩ := Option.isSome_iff_exists.mp
      (presentField_of_validatedBy .faceId (by decide) haccepted)
    simp [faceDestroy, printFaceId, hfaceId]

/-- So does the text of an accepted response. -/
theorem isSome_printResponseParameters (hmem : command ∈ all)
    (haccepted : command.validateResponse parameters = .ok ()) :
    (command.printResponseParameters parameters).isSome = true := by
  revert haccepted
  suffices hall : ∀ command ∈ all, command.validateResponse parameters = .ok () →
      (command.printResponseParameters parameters).isSome = true from hall command hmem
  have hplain {Text : Type} (text : Text) : (some text).isSome = true := rfl
  rw [forall_mem_all]
  refine ⟨fun haccepted ↦ ?_, fun haccepted ↦ ?_, fun _ ↦ hplain _, fun _ ↦ hplain _,
    fun _ ↦ hplain _, fun _ ↦ hplain _, fun _ ↦ hplain _, fun _ ↦ hplain _, fun _ ↦ hplain _,
    fun _ ↦ hplain _⟩
  · obtain ⟨faceId, hfaceId⟩ := Option.isSome_iff_exists.mp
      (presentField_of_validatedBy .faceId (by decide) haccepted)
    obtain ⟨uri, huri⟩ := Option.isSome_iff_exists.mp
      (presentField_of_validatedBy .uri (by decide) haccepted)
    simp [faceCreate, hfaceId, huri]
  · obtain ⟨faceId, hfaceId⟩ := Option.isSome_iff_exists.mp
      (presentField_of_validatedBy .faceId (by decide) haccepted)
    simp [faceDestroy, printFaceId, hfaceId]

/-! ## Kept wires -/

/-- The wire that parameters keep when they are encoded -/
theorem exists_wire_of_wireEncode {kept : ControlParameters} {block : Block}
    (hencode : parameters.wireEncode = .ok (block, kept)) :
    ∃ wire, kept = { parameters with wire := wire } := by
  unfold ControlParameters.wireEncode CodeStore.recallCode at hencode
  split at hencode
  · cases hencode
    exact ⟨_, rfl⟩
  · split at hencode
    · cases hencode
    · simp only [ControlParameters.codes, Except.ok.injEq, Prod.mk.injEq] at hencode
      exact ⟨_, hencode.2.symm⟩

@[simp]
theorem presentField_withWire (parameters : ControlParameters) (wire : Option Block) :
    ControlParameters.presentField { parameters with wire := wire } = parameters.presentField := by
  funext field
  cases field <;> rfl

theorem validateRequest_withWire (hmem : command ∈ all) (wire : Option Block) :
    command.validateRequest { parameters with wire := wire } = command.validateRequest parameters := by
  have hcheck : ∀ command ∈ all, command.checkRequest { parameters with wire := wire } =
      command.checkRequest parameters := by
    rw [forall_mem_all]
    exact ⟨rfl, rfl, rfl, rfl, rfl, rfl, rfl, rfl, rfl, rfl⟩
  have hfield : command.requestValidator.validateField { parameters with wire := wire } =
      command.requestValidator.validateField parameters := by
    funext field
    simp only [FieldValidator.validateField, presentField_withWire]
  simp only [ControlCommand.validateRequest, FieldValidator.validate, hfield, hcheck command hmem]

end ReplyingCommand

end Mgmt

end NdnCxx
