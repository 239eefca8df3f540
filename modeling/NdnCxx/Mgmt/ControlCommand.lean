import NdnCxx.Mgmt.FaceQueryFilter
import NdnCxx.Mgmt.FaceStatus
import NdnCxx.Name.FromUri
import NdnCxx.Security.SigningTimestamps

/-!
# Control commands

The name of a request carries its parameters in the component behind the verb, as a whole
ControlParameters block. Only parameters that the validator of the command accepts are written.
-/

namespace NdnCxx.Mgmt

/-- `ControlParameterField` -/
inductive ControlParameterField
  | name
  | faceId
  | uri
  | localControlFeature
  | origin
  | cost
  | flags
  | strategy
  | expirationPeriod
  | facePersistency
  deriving DecidableEq

namespace ControlParameterField

def all : List ControlParameterField :=
  [name, faceId, uri, localControlFeature, origin, cost, flags, strategy, expirationPeriod,
    facePersistency]

def toText : ControlParameterField → String
  | name => "Name"
  | faceId => "FaceId"
  | uri => "Uri"
  | localControlFeature => "LocalControlFeature"
  | origin => "Origin"
  | cost => "Cost"
  | flags => "Flags"
  | strategy => "Strategy"
  | expirationPeriod => "ExpirationPeriod"
  | facePersistency => "FacePersistency"

end ControlParameterField

def ControlParameters.presentField (parameters : ControlParameters) : ControlParameterField → Bool
  | .name => parameters.name.isSome
  | .faceId => parameters.faceId.isSome
  | .uri => parameters.uri.isSome
  | .localControlFeature => parameters.localControlFeature.isSome
  | .origin => parameters.origin.isSome
  | .cost => parameters.cost.isSome
  | .flags => parameters.flags.isSome
  | .strategy => parameters.strategy.isSome
  | .expirationPeriod => parameters.expirationPeriod.isSome
  | .facePersistency => parameters.facePersistency.isSome

/-- How making a request name ends when it does not return. -/
inductive Thrown
  /-- `ControlCommand::ArgumentError` -/
  | argumentError (what : String)
  | tlv (error : Error)
  deriving DecidableEq

/-- `ControlCommand::FieldValidator`, by the fields that are declared -/
structure FieldValidator where
  required : List ControlParameterField := []
  optional : List ControlParameterField := []

variable {parameters : ControlParameters}

namespace FieldValidator

/-- One round of the loop in `validate` -/
def validateField (validator : FieldValidator) (parameters : ControlParameters)
    (field : ControlParameterField) : Except Thrown Unit :=
  if field ∈ validator.required then
    if !parameters.presentField field then
      .error (.argumentError (field.toText ++ " is required but missing"))
    else .ok ()
  else if parameters.presentField field && field ∉ validator.optional then
    .error (.argumentError (field.toText ++ " is forbidden but present"))
  else .ok ()

def validate (validator : FieldValidator) (parameters : ControlParameters) : Except Thrown Unit :=
  forM ControlParameterField.all (validator.validateField parameters)

variable {validator : FieldValidator}

theorem validateField_eq_ok_iff {field : ControlParameterField} :
    validator.validateField parameters field = .ok () ↔
      if field ∈ validator.required then parameters.presentField field = true
      else parameters.presentField field = true → field ∈ validator.optional := by
  unfold validateField
  by_cases hrequired : field ∈ validator.required
  · cases parameters.presentField field <;> simp [hrequired]
  · by_cases hoptional : field ∈ validator.optional <;>
      cases parameters.presentField field <;> simp [hrequired, hoptional]

/-- Parameters are accepted if every required field is present and every present field is required
or optional. -/
theorem validate_eq_ok_iff :
    validator.validate parameters = .ok () ↔
      ∀ field, if field ∈ validator.required then parameters.presentField field = true
        else parameters.presentField field = true → field ∈ validator.optional := by
  have hloop : ∀ fields : List ControlParameterField,
      forM fields (validator.validateField parameters) = .ok () ↔
        ∀ field ∈ fields, validator.validateField parameters field = .ok () := by
    intro fields
    induction fields with
    | nil => simp [pure, Except.pure]
    | cons field fields ih =>
      rw [List.forM_cons, List.forall_mem_cons, ← ih]
      cases validator.validateField parameters field <;> simp [bind, Except.bind]
  have hall : ∀ field, field ∈ ControlParameterField.all := by
    intro field
    cases field <;> decide
  rw [validate, hloop]
  constructor
  · exact fun haccepted field ↦ validateField_eq_ok_iff.mp (haccepted field (hall field))
  · exact fun haccepted field _ ↦ validateField_eq_ok_iff.mpr (haccepted field)

end FieldValidator

/-- `ControlCommand`, with what its subclass checks in a request behind the field validator -/
structure ControlCommand where
  module : Component
  verb : Component
  requestValidator : FieldValidator
  checkRequest : ControlParameters → Except Thrown Unit := fun _ ↦ .ok ()

namespace ControlCommand

/-- `name::Component::Component(const std::string&)` -/
def ofText (text : String) : Component := .generic (bytesOf text.toList)

/-- `ControlCommand::validateRequest` and its overrides -/
def validateRequest (command : ControlCommand) (parameters : ControlParameters) :
    Except Thrown Unit := do
  command.requestValidator.validate parameters
  command.checkRequest parameters

/-- `ControlCommand::getRequestName`; the parameters keep the wire that is made. -/
def getRequestName (command : ControlCommand) (commandPrefix : Name)
    (parameters : ControlParameters) : Except Thrown (Name × ControlParameters) := do
  command.validateRequest parameters
  match parameters.wireEncode with
  | .error error => throw (.tlv error)
  | .ok (block, kept) =>
      return (commandPrefix ++ [command.module, command.verb] ++ [Component.ofAppended block], kept)

def faceCreate : ControlCommand where
  module := ofText "faces"
  verb := ofText "create"
  requestValidator := { required := [.uri], optional := [.facePersistency] }

def faceDestroy : ControlCommand where
  module := ofText "faces"
  verb := ofText "destroy"
  requestValidator := { required := [.faceId] }
  checkRequest parameters :=
    if parameters.faceId = some 0 then .error (.argumentError "FaceId must not be zero") else .ok ()

def faceLocalControl (verb : String) : ControlCommand where
  module := ofText "faces"
  verb := ofText verb
  requestValidator := { required := [.localControlFeature] }
  checkRequest parameters :=
    if parameters.localControlFeature = some LocalControlFeature.incomingFaceId ∨
        parameters.localControlFeature = some LocalControlFeature.nextHopFaceId then .ok ()
    else .error (.argumentError "LocalControlFeature is invalid")

def faceEnableLocalControl : ControlCommand := faceLocalControl "enable-local-control"

def faceDisableLocalControl : ControlCommand := faceLocalControl "disable-local-control"

def fibAddNextHop : ControlCommand where
  module := ofText "fib"
  verb := ofText "add-nexthop"
  requestValidator := { required := [.name], optional := [.faceId, .cost] }

def fibRemoveNextHop : ControlCommand where
  module := ofText "fib"
  verb := ofText "remove-nexthop"
  requestValidator := { required := [.name], optional := [.faceId] }

def strategyChoiceSet : ControlCommand where
  module := ofText "strategy-choice"
  verb := ofText "set"
  requestValidator := { required := [.name, .strategy] }

def strategyChoiceUnset : ControlCommand where
  module := ofText "strategy-choice"
  verb := ofText "unset"
  requestValidator := { required := [.name] }
  checkRequest parameters :=
    if parameters.name = some [] then .error (.argumentError "Name must not be ndn:/") else .ok ()

def ribRegister : ControlCommand where
  module := ofText "rib"
  verb := ofText "register"
  requestValidator :=
    { required := [.name], optional := [.faceId, .origin, .cost, .flags, .expirationPeriod] }

def ribUnregister : ControlCommand where
  module := ofText "rib"
  verb := ofText "unregister"
  requestValidator := { required := [.name], optional := [.faceId, .origin] }

/-- The component behind the prefix, the module and the verb in the name of a request -/
def parametersComponent (commandPrefix requestName : Name) : Option Component :=
  requestName[commandPrefix.length + 2]?

/-- The name of a request is made, and from the component with the parameters every object reads the
members of the parameters. -/
def CarriesParameters (command : ControlCommand) (commandPrefix : Name)
    (parameters : ControlParameters) : Prop :=
  ∃ requestName kept component block,
    command.getRequestName commandPrefix parameters = .ok (requestName, kept) ∧
    parametersComponent commandPrefix requestName = some component ∧
    Block.blockFromValue component.value = .ok block ∧
    kept = { parameters with wire := some block } ∧
    ∀ other : ControlParameters, other.wireDecode block = .ok kept

theorem carriesParameters {command : ControlCommand} (commandPrefix : Name)
    (haccepted : command.validateRequest parameters = .ok ()) (hwell : parameters.IsWellFormed)
    (hfresh : ControlParameters.codes.IsFresh parameters)
    (hsize : parameters.wireEncodeInto.length < 2 ^ 64) :
    command.CarriesParameters commandPrefix parameters := by
  obtain ⟨block, kept, hrecall, hstore, hdecode⟩ := ControlParameters.readsBack hwell hfresh hsize
  have hblock : block = parameters.toBlock := by
    have hencode := hfresh.encode_eq_of_recall hrecall
    rw [ControlParameters.encode_eq hsize] at hencode
    exact (Except.ok.inj hencode).symm
  subst hblock
  have hcomponent : Component.ofAppended parameters.toBlock = .generic parameters.toBlock.wire := rfl
  rw [ControlParameters.wireEncodeInto_eq] at hsize
  have hname : command.getRequestName commandPrefix parameters =
      .ok (commandPrefix ++ [command.module, command.verb] ++
        [Component.generic parameters.toBlock.wire], kept) := by
    simp only [getRequestName, haccepted, ControlParameters.wireEncode, hrecall, hcomponent, bind,
      Except.bind, pure, Except.pure]
  refine ⟨_, kept, Component.generic parameters.toBlock.wire, parameters.toBlock, hname, ?_, ?_, ?_,
    hdecode⟩
  · simp [parametersComponent]
  · exact Block.blockFromValue_wire_ofValue (by decide) hsize
  · exact (Except.ok.inj hstore).symm

end ControlCommand

/-! ## Every run of setters -/

/-- However setters, unsetters and `wireEncode` were called before, the encoding shows the members as
they are, and so does the name of every request that is accepted. The encoding has a length that a
`size_t` can hold. -/
theorem readsBack_of_run :
    (∀ events finish, (∀ call, .change call ∈ events → ControlParameters.Call.IsWellFormed call) →
      Run.run (ControlParameters.codes.step ControlParameters.perform) {} events = some finish →
      finish.wireEncodeInto.length < 2 ^ 64 →
        ControlParameters.codes.ReadsBack ControlParameters.wireDecode finish ∧
        ∀ (command : ControlCommand) (commandPrefix : Name),
          command.validateRequest finish = .ok () →
            command.CarriesParameters commandPrefix finish) ∧
    (∀ events finish,
      Run.run (FaceQueryFilter.codes.step FaceQueryFilter.perform) {} events = some finish →
      finish.wireEncodeInto.length < 2 ^ 64 →
        FaceQueryFilter.codes.ReadsBack FaceQueryFilter.wireDecode finish) ∧
    (∀ events finish,
      Run.run (FaceStatus.codes.step FaceStatus.perform) {} events = some finish →
      finish.wireEncodeInto.length < 2 ^ 64 →
        FaceStatus.codes.ReadsBack FaceStatus.wireDecode finish) := by
  refine ⟨?_, ?_, ?_⟩
  · intro events finish hcalls hrun hsize
    have hwell := ControlParameters.isWellFormed_of_run hcalls hrun
    have hfresh := ControlParameters.discards.isFresh_of_run
      (CodeStore.isFresh_of_stored_eq_none rfl) hrun
    exact ⟨ControlParameters.readsBack hwell hfresh hsize, fun command commandPrefix haccepted ↦
      ControlCommand.carriesParameters commandPrefix haccepted hwell hfresh hsize⟩
  · intro events finish hrun hsize
    have hfresh := FaceQueryFilter.discards.isFresh_of_run
      (CodeStore.isFresh_of_stored_eq_none rfl) hrun
    exact FaceQueryFilter.readsBack hfresh hsize
  · intro events finish hrun hsize
    have hfresh := FaceStatus.discards.isFresh_of_run
      (CodeStore.isFresh_of_stored_eq_none rfl) hrun
    exact FaceStatus.readsBack hfresh hsize

/-- Parameters that were encoded with a Uri and without a Strategy, and have changed since -/
def strategyOfRoot : ControlParameters :=
  { name := some [], strategy := some [.generic [1], .generic []] }

theorem readsBack_of_run_strategyOfRoot :
    (ControlParameters.codes.ReadsBack ControlParameters.wireDecode strategyOfRoot ∧
      ControlCommand.strategyChoiceSet.CarriesParameters [.generic [7]] strategyOfRoot) ∧
    FaceQueryFilter.codes.ReadsBack FaceQueryFilter.wireDecode
      { uriScheme := some [117, 100, 112], linkType := some 1 } ∧
    FaceStatus.codes.ReadsBack FaceStatus.wireDecode
      { faceId := 300, expirationPeriod := some (-1), nOutBytes := 2 ^ 64 - 1 } := by
  obtain ⟨hparameters, hfilter, hstatus⟩ := readsBack_of_run
  refine ⟨?_, ?_, ?_⟩
  · have hsame := hparameters [.change (.setName []), .change (.setUri [1]), .recallCode,
      .change .unsetUri, .change (.setStrategy [.generic [1], .generic []])] strategyOfRoot
      (by simp [ControlParameters.Call.IsWellFormed, Name.IsWellFormed, Component.generic,
        Tlv.nameComponent]) (by decide +kernel) (by decide +kernel)
    exact ⟨hsame.1, hsame.2 ControlCommand.strategyChoiceSet [.generic [7]] (by decide +kernel)⟩
  · exact hfilter [.change (.setFaceId 5), .change (.setUriScheme [117, 100, 112]), .recallCode,
      .change .unsetFaceId, .change (.setLinkType 1)] _ (by decide +kernel) (by decide +kernel)
  · exact hstatus [.change (.setFaceId 300), .recallCode, .change (.setExpirationPeriod (-1)), .recallCode,
      .change (.setNOutBytes (2 ^ 64 - 1))] _ (by decide +kernel) (by decide +kernel)

end NdnCxx.Mgmt
