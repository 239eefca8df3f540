import NdnCxx.Mgmt.ControlResponse
import NdnCxx.Mgmt.Dispatcher
import NdnCxx.Mgmt.StatusDatasetContext

/-!
# Handling control commands

What a dispatcher does with an Interest for a control command: it takes the component behind the
prefixes for the parameters, has the command authorized and validated, calls the handler and sends
the responses. The component is read without a check, and outside of the block that catches the
errors of the parser; the filter only says that the name has the prefixes, so that nothing need stand
behind them.
-/

namespace NdnCxx

/-- `InterestFilter::doesMatch` of a filter without a regular expression -/
def InterestFilter.doesMatch (filterPrefix name : Name) : Bool :=
  if name.length < filterPrefix.length then false else filterPrefix.isPrefixOf name

/-- An access to a name is within it exactly below its length. -/
theorem Name.isSome_get_natCast_iff {name : Name} {index : ℕ} :
    (name.get index).isSome = true ↔ index < name.length := by
  simp [Name.get]

namespace Mgmt

/-- `RejectReply` -/
inductive RejectReply
  | silent
  | status403
  deriving DecidableEq, Repr

/-- The continuation that an `Authorization` calls -/
inductive Authorized
  | accept (requester : String)
  | reject (act : RejectReply)
  deriving DecidableEq, Repr

/-- The arguments of `addControlCommand` besides the relative prefix. `decode` is the constructor of
the parameters from a block; the parsers of control parameters throw `tlv::Error`. The handler passes
its responses to `done`. -/
structure CommandRegistration (Parameters : Type) where
  decode : Block → Except Error Parameters
  decode_onlyTlvErrors : ∀ block, OnlyTlvErrors (decode block)
  authorization : Name → Interest → Parameters → Authorized
  validateParams : Parameters → Bool
  handler : Name → Interest → Parameters → List ControlResponse

/-- A response on its way to the face: the Data packet that `sendData` makes of it. -/
structure Reply where
  dataName : Name
  content : ControlResponse
  deriving DecidableEq

/-- How the handling of an Interest ends if it does not return: the name is accessed behind its last
component, where nothing is defined, or an exception leaves the dispatcher. -/
inductive CommandFault
  | outsideName
  | thrown (error : Error)
  deriving DecidableEq

/-! ## Sending -/

section Sending

variable (signedSize : Reply → ℕ)

/-- `Dispatcher::sendOnFace`. `Face::put` throws `Face::Error` for an oversized packet, which is
caught. -/
def sendOnFace (reply : Reply) : List Reply :=
  if signedSize reply > Tlv.maxNdnPacketSize then [] else [reply]

def sendControlResponse (response : ControlResponse) (interest : Interest) : List Reply :=
  sendOnFace signedSize ⟨interest.name, response⟩

def afterAuthorizationRejected (act : RejectReply) (interest : Interest) : List Reply :=
  match act with
  | .status403 =>
      sendControlResponse signedSize ⟨403, textBytes "authorization rejected", none⟩ interest
  | .silent => []

end Sending

/-! ## The handler of a command -/

namespace CommandRegistration

variable {Parameters : Type} (signedSize : Reply → ℕ) (command : CommandRegistration Parameters)

/-- The `ControlParametersParser` that `addControlCommand` makes -/
def parser (component : Component) : Except Error Parameters := do
  let block ← Block.blockFromValue component.value
  command.decode block

def processAuthorizedControlCommandInterest (topPrefix : Name) (interest : Interest)
    (parameters : Parameters) : List Reply :=
  if command.validateParams parameters then
    (command.handler topPrefix interest parameters).flatMap fun response ↦
      sendControlResponse signedSize response interest
  else
    sendControlResponse signedSize ⟨400, textBytes "failed in validating parameters", none⟩ interest

/-- What follows the call of the `Authorization` -/
def authorize (topPrefix : Name) (interest : Interest) (parameters : Parameters) : List Reply :=
  match command.authorization topPrefix interest parameters with
  | .accept _ =>
      command.processAuthorizedControlCommandInterest signedSize topPrefix interest parameters
  | .reject act => afterAuthorizationRejected signedSize act interest

def processControlCommandInterest (topPrefix relPrefix : Name) (interest : Interest) :
    Except CommandFault (List Reply) :=
  let parametersLoc := topPrefix.length + relPrefix.length
  match interest.name.get parametersLoc with
  | none => .error .outsideName
  | some pc =>
      match command.parser pc with
      | .error error => if error.isTlvError then .ok [] else .error (.thrown error)
      | .ok parameters => .ok (command.authorize signedSize topPrefix interest parameters)

/-- The parameters component is within the name, and the Interest is ignored or answered under its
own name. -/
def HandlesWithinName (topPrefix relPrefix : Name) (interest : Interest) : Prop :=
  (interest.name.get (topPrefix.length + relPrefix.length : ℕ)).isSome = true ∧
    ∃ replies, command.processControlCommandInterest signedSize topPrefix relPrefix interest =
        .ok replies ∧ ∀ reply ∈ replies, reply.dataName = interest.name

end CommandRegistration

end Mgmt

/-- The face hands the Interest to the handler of a control command: the command is registered, the
top-level prefix has a filter for it, and the name matches the filter. -/
def Dispatcher.Delivers {hashRange : Bytes → ℕ} (dispatcher : Dispatcher hashRange)
    (topPrefix relPrefix : StoredName) (interest : Interest) : Prop :=
  dispatcher.handlers.find? relPrefix = some .controlCommand ∧
    (∃ entry ∈ dispatcher.topLevelPrefixes.entries, entry.2.topPrefix = topPrefix ∧
      topPrefix.appendName relPrefix ∈ entry.2.interestFilters) ∧
    InterestFilter.doesMatch (topPrefix.appendName relPrefix).components interest.name = true

namespace Mgmt

/-! ## Within the name -/

variable {interest : Interest}

section Replies

variable {signedSize : Reply → ℕ} {reply : Reply}

theorem dataName_of_sendControlResponse {response : ControlResponse}
    (hmem : reply ∈ sendControlResponse signedSize response interest) :
    reply.dataName = interest.name := by
  unfold sendControlResponse sendOnFace at hmem
  split_ifs at hmem
  · cases hmem
  · rw [List.mem_singleton.mp hmem]

namespace CommandRegistration

variable {Parameters : Type} {command : CommandRegistration Parameters}

theorem parser_onlyTlvErrors (command : CommandRegistration Parameters) (component : Component) :
    OnlyTlvErrors (command.parser component) :=
  .bind (Block.blockFromValue_onlyTlvErrors _) command.decode_onlyTlvErrors

variable {topPrefix : Name}

/-- Whatever the outcome of the authorization, answers go out under the name of the Interest. -/
theorem dataName_of_authorize {parameters : Parameters}
    (hmem : reply ∈ command.authorize signedSize topPrefix interest parameters) :
    reply.dataName = interest.name := by
  unfold authorize at hmem
  cases hdecision : command.authorization topPrefix interest parameters with
  | accept requester =>
    rw [hdecision] at hmem
    unfold processAuthorizedControlCommandInterest at hmem
    split_ifs at hmem
    · obtain ⟨response, -, hsent⟩ := List.mem_flatMap.mp hmem
      exact dataName_of_sendControlResponse hsent
    · exact dataName_of_sendControlResponse hmem
  | reject act =>
    rw [hdecision] at hmem
    cases act with
    | silent => cases hmem
    | status403 => exact dataName_of_sendControlResponse hmem

/-- With a component for the parameters, the Interest is ignored or authorized. -/
theorem processControlCommandInterest_of_component {relPrefix : Name} {pc : Component}
    (hget : interest.name.get (topPrefix.length + relPrefix.length : ℕ) = some pc) :
    command.processControlCommandInterest signedSize topPrefix relPrefix interest =
      .ok (match command.parser pc with
        | .error _ => []
        | .ok parameters => command.authorize signedSize topPrefix interest parameters) := by
  unfold processControlCommandInterest
  dsimp only
  rw [hget]
  cases hparse : command.parser pc with
  | error error =>
    have htlv : error.isTlvError = true := command.parser_onlyTlvErrors pc error hparse
    dsimp only
    rw [hparse]
    exact if_pos htlv
  | ok parameters =>
    dsimp only
    rw [hparse]

theorem handlesWithinName_iff_lt {relPrefix : Name} :
    command.HandlesWithinName signedSize topPrefix relPrefix interest ↔
      topPrefix.length + relPrefix.length < interest.name.length := by
  constructor
  · rintro ⟨hwithin, -⟩
    exact Name.isSome_get_natCast_iff.mp hwithin
  · intro hlonger
    have hwithin := Name.isSome_get_natCast_iff.mpr hlonger
    obtain ⟨pc, hget⟩ := Option.isSome_iff_exists.mp hwithin
    refine ⟨hwithin, _, processControlCommandInterest_of_component hget, ?_⟩
    intro reply hmem
    cases hparse : command.parser pc with
    | error error =>
      rw [hparse] at hmem
      cases hmem
    | ok parameters =>
      rw [hparse] at hmem
      exact dataName_of_authorize hmem

end CommandRegistration

end Replies

/-! ## Requests of the controllers -/

def CommandRegistration.ofControlParameters
    (authorization : Name → Interest → ControlParameters → Authorized)
    (validateParams : ControlParameters → Bool)
    (handler : Name → Interest → ControlParameters → List ControlResponse) :
    CommandRegistration ControlParameters where
  decode := ControlParameters.wireDecode {}
  decode_onlyTlvErrors := ControlParameters.wireDecode_onlyTlvErrors {}
  authorization := authorization
  validateParams := validateParams
  handler := handler

/-- The name that a controller makes is long enough, and what is authorized are its parameters,
whatever the signature appends to the name. -/
theorem processControlCommandInterest_request {command : ControlCommand}
    {parameters : ControlParameters} (commandPrefix : Name)
    (haccepted : command.validateRequest parameters = .ok ()) (hwell : parameters.IsWellFormed)
    (hfresh : ControlParameters.codes.IsFresh parameters)
    (hsize : parameters.wireEncodeInto.length < 2 ^ 64) (signedSize : Reply → ℕ)
    {authorization : Name → Interest → ControlParameters → Authorized}
    {validateParams : ControlParameters → Bool}
    {handler : Name → Interest → ControlParameters → List ControlResponse} :
    ∃ requestName kept, command.getRequestName commandPrefix parameters = .ok (requestName, kept) ∧
      ∀ (signature : Name) (interest : Interest), interest.name = requestName ++ signature →
        (CommandRegistration.ofControlParameters authorization validateParams
          handler).processControlCommandInterest signedSize commandPrefix
            [command.module, command.verb] interest =
          .ok ((CommandRegistration.ofControlParameters authorization validateParams
            handler).authorize signedSize commandPrefix interest kept) := by
  obtain ⟨requestName, kept, component, block, hname, hcomponent, hblock, -, hdecode⟩ :=
    ControlCommand.carriesParameters commandPrefix haccepted hwell hfresh hsize
  refine ⟨requestName, kept, hname, fun signature interest hinterest ↦ ?_⟩
  have hget : interest.name.get (commandPrefix.length + [command.module, command.verb].length : ℕ) =
      some component := by
    have hlonger : commandPrefix.length + 2 < requestName.length :=
      (List.getElem?_eq_some_iff.mp hcomponent).1
    rw [hinterest, Name.get, if_pos (Int.natCast_nonneg _), Int.toNat_natCast]
    exact (List.getElem?_append_left hlonger).trans hcomponent
  rw [CommandRegistration.processControlCommandInterest_of_component hget]
  have hparse : (CommandRegistration.ofControlParameters authorization validateParams
      handler).parser component = .ok kept := by
    unfold CommandRegistration.parser
    rw [hblock]
    exact hdecode {}
  rw [hparse]

/-- Whoever asks may destroy the face 300, and no other one. -/
def destroyCommand : CommandRegistration ControlParameters :=
  .ofControlParameters
    (fun _ _ parameters ↦ if parameters.faceId = some 300 then .accept "" else .reject .silent)
    (fun _ ↦ true) fun _ _ _ ↦ [⟨200, [], none⟩]

/-- The face 300 is what the dispatcher authorizes. -/
theorem processControlCommandInterest_request_destroy :
    ∃ requestName kept, ControlCommand.faceDestroy.getRequestName [.generic [7]]
        { faceId := some 300 } = .ok (requestName, kept) ∧ kept.faceId = some 300 ∧
      ∀ (signature : Name) (interest : Interest), interest.name = requestName ++ signature →
        destroyCommand.processControlCommandInterest (fun _ ↦ 100) [.generic [7]]
            [ControlCommand.faceDestroy.module, ControlCommand.faceDestroy.verb] interest =
          .ok (destroyCommand.processAuthorizedControlCommandInterest (fun _ ↦ 100) [.generic [7]]
            interest kept) := by
  obtain ⟨requestName, kept, hname, hprocess⟩ := @processControlCommandInterest_request
    ControlCommand.faceDestroy { faceId := some 300 } [.generic [7]] (by decide +kernel)
    ⟨by simp, by simp⟩ (CodeStore.isFresh_of_stored_eq_none rfl) (by decide +kernel) (fun _ ↦ 100)
    (fun _ _ parameters ↦ if parameters.faceId = some 300 then .accept "" else .reject .silent)
    (fun _ ↦ true) fun _ _ _ ↦ [⟨200, [], none⟩]
  have hface : (ControlCommand.faceDestroy.getRequestName [.generic [7]]
      { faceId := some 300 }).map (fun request ↦ request.2.faceId) = .ok (some 300) := by
    decide +kernel
  rw [hname] at hface
  refine ⟨requestName, kept, hname, Except.ok.inj hface, fun signature interest hinterest ↦ ?_⟩
  have hauthorized : destroyCommand.authorization [.generic [7]] interest kept = .accept "" :=
    if_pos (Except.ok.inj hface)
  refine (hprocess signature interest hinterest).trans (congrArg Except.ok ?_)
  change destroyCommand.authorize _ _ _ _ = _
  rw [CommandRegistration.authorize, hauthorized]

/-! ## Delivered Interests -/

/-- An Interest that is delivered to a command is handled within its name exactly if the name has a
component behind the prefixes. -/
theorem handlesWithinName_iff_of_delivers {hashRange : Bytes → ℕ}
    {dispatcher : Dispatcher hashRange} {topPrefix relPrefix : StoredName}
    (hdelivers : dispatcher.Delivers topPrefix relPrefix interest) {Parameters : Type}
    (command : CommandRegistration Parameters) (signedSize : Reply → ℕ) :
    command.HandlesWithinName signedSize topPrefix.components relPrefix.components interest ↔
      interest.name.length ≠ (topPrefix.appendName relPrefix).components.length := by
  obtain ⟨-, -, hmatch⟩ := hdelivers
  have hlength : (topPrefix.appendName relPrefix).components.length =
      topPrefix.components.length + relPrefix.components.length := by
    simp [StoredName.components, StoredName.appendName]
  have hreaches : topPrefix.components.length + relPrefix.components.length ≤
      interest.name.length := by
    unfold InterestFilter.doesMatch at hmatch
    split_ifs at hmatch with hshort
    omega
  rw [CommandRegistration.handlesWithinName_iff_lt, hlength]
  omega

/-- A command that any Interest may give, and that always succeeds. -/
def openCommand : CommandRegistration ControlParameters :=
  .ofControlParameters (fun _ _ _ ↦ .accept "") (fun _ ↦ true) fun _ _ _ ↦ [⟨200, [], none⟩]

def topName : StoredName := StoredName.empty.append ⟨8, [97], [8, 1, 97]⟩ (by decide)
def verbName : StoredName := StoredName.empty.append ⟨8, [98], [8, 1, 98]⟩ (by decide)

def served : Dispatcher List.length :=
  ((Dispatcher.initial List.length).addControlCommand verbName).addTopPrefix topName false true

theorem delivers_served
    (hmatch : InterestFilter.doesMatch [.generic [97], .generic [98]] interest.name = true) :
    served.Delivers topName verbName interest := by
  refine ⟨by decide, ⟨_, List.mem_singleton_self _, rfl, ?_⟩, hmatch⟩
  exact List.mem_singleton_self _

/-- An Interest with empty parameters behind the prefixes. -/
theorem handlesWithinName_iff_of_delivers_parameters :
    openCommand.HandlesWithinName (fun _ ↦ 100) topName.components verbName.components
      { name := [.generic [97], .generic [98], .generic [104, 0]] } := by
  have hdelivers : served.Delivers topName verbName
      { name := [.generic [97], .generic [98], .generic [104, 0]] } := delivers_served (by decide)
  exact (handlesWithinName_iff_of_delivers hdelivers openCommand _).mpr (by decide)

/-- The Interest `/a/b` is delivered, and its name is accessed behind its last component. -/
theorem not_handlesWithinName_bare :
    served.Delivers topName verbName { name := [.generic [97], .generic [98]] } ∧
      openCommand.processControlCommandInterest (fun _ ↦ 100) topName.components verbName.components
        { name := [.generic [97], .generic [98]] } = .error .outsideName ∧
      ¬ openCommand.HandlesWithinName (fun _ ↦ 100) topName.components verbName.components
        { name := [.generic [97], .generic [98]] } := by
  refine ⟨delivers_served (by decide), rfl, ?_⟩
  rintro ⟨hwithin, -⟩
  exact absurd hwithin (by decide)

end Mgmt

end NdnCxx
