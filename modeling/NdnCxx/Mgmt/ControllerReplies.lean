import NdnCxx.Mgmt.Controller

/-!
# What the controller answers and prints

A reply ends in one of seven exits, and the exit is an accepted response or a failure. Responses are
answered with the callback if it is there; for a Nack and for a timeout the callback is called without
looking. Requests are printed without their defaults, so the text of a request can read a member that
is absent.
-/

namespace NdnCxx.Mgmt.Controller

/-- One of the two callbacks -/
inductive Callback
  | success
  | failure
  deriving DecidableEq

def Action.callback : Action → Option Callback
  | .onSuccess _ => some .success
  | .onFailure _ _ => some .failure
  | _ => none

def Transcript.callbacks (transcript : Transcript) : List Callback :=
  transcript.actions.filterMap Action.callback

variable {action : Action} {command : ReplyingCommand} {level : LogLevel}

namespace Call

/-- The reply is a response that the command accepts. -/
def Succeeds (call : Call) (reply : Reply) : Prop :=
  ∃ data response parameters, reply = .data data ∧ decodeResponse data = .ok response ∧
    response.code.toNat < errorLbound ∧ response.decodeBody = .ok parameters ∧
    call.command.validateResponse parameters = .ok ()

/-- Nothing is thrown, and the callback that the reply calls for is invoked if it is present, the
other one never. -/
structure Answers (call : Call) (reply : Reply) (transcript : Transcript) : Prop where
  returned : transcript.outcome = .returned
  success : call.Succeeds reply →
    transcript.callbacks = if call.hasOnSuccess then [.success] else []
  failure : ¬call.Succeeds reply →
    transcript.callbacks = if call.hasOnFailure then [.failure] else []

/-- The level at which the processing of a reply prints the request -/
def logLevel (call : Call) : Reply → LogLevel
  | .data data =>
      match decodeResponse data with
      | .error _ => .warn
      | .ok response =>
          if response.code.toNat ≥ errorLbound then .debug
          else
            match response.decodeBody with
            | .error _ => .warn
            | .ok parameters =>
                match call.command.validateResponse parameters with
                | .error _ => .warn
                | .ok () => .debug
  | _ => .warn

def Reply.isWithoutData : Reply → Bool
  | .data _ => false
  | _ => true

section Answers

variable {call : Call} {reply : Reply} {parameters : ControlParameters} {rest : Transcript}

/-- A print leaves the callbacks alone, and fails without a text. -/
theorem answers_print_iff {text : Option Bytes}
    (haction : action.callback = none) :
    call.Answers reply (.print text action rest) ↔ text.isSome = true ∧ call.Answers reply rest := by
  cases text with
  | none => exact iff_of_false (fun h ↦ nomatch h.returned) (by simp)
  | some bytes =>
    have hcallbacks : (Transcript.print (some bytes) action rest).callbacks = rest.callbacks := by
      simp [Transcript.callbacks, Transcript.print, haction]
    have houtcome : (Transcript.print (some bytes) action rest).outcome = rest.outcome := rfl
    refine (Iff.intro (fun h ↦ ?_) fun h ↦ ?_).trans (and_iff_right rfl).symm
    · exact ⟨houtcome ▸ h.returned, hcallbacks ▸ h.success, hcallbacks ▸ h.failure⟩
    · exact ⟨houtcome ▸ h.returned, hcallbacks ▸ h.success, hcallbacks ▸ h.failure⟩

theorem answers_logRequest_iff :
    call.Answers reply (call.logRequest level parameters rest) ↔
      (call.level.isLevelEnabled level = true →
        (call.command.printRequestParameters parameters).isSome = true) ∧
      call.Answers reply rest := by
  unfold logRequest
  split_ifs with henabled
  · rw [answers_print_iff rfl, imp_iff_right henabled]
  · simp [henabled]

theorem answers_onFailure {code : ℕ} {what : Bytes} (hfails : ¬call.Succeeds reply) :
    call.Answers reply (.invokeIfPresent call.hasOnFailure (.onFailure code what)) := by
  refine ⟨?_, fun hsucceeds ↦ absurd hsucceeds hfails, fun _ ↦ ?_⟩
  · cases call.hasOnFailure <;> rfl
  · cases call.hasOnFailure <;> rfl

theorem answers_onSuccess {response : ControlParameters} (hsucceeds : call.Succeeds reply) :
    call.Answers reply (.invokeIfPresent call.hasOnSuccess (.onSuccess response)) := by
  refine ⟨?_, fun _ ↦ ?_, fun hfails ↦ absurd hsucceeds hfails⟩
  · cases call.hasOnSuccess <;> rfl
  · cases call.hasOnSuccess <;> rfl

/-- A callback that is called without looking has to be there. -/
theorem answers_invoke_iff {code : ℕ} {what : Bytes} (hfails : ¬call.Succeeds reply) :
    call.Answers reply (.invoke call.hasOnFailure (.onFailure code what)) ↔
      call.hasOnFailure = true := by
  cases hpresent : call.hasOnFailure with
  | false => exact iff_of_false (fun h ↦ nomatch h.returned) (by simp)
  | true =>
    refine iff_of_true ⟨rfl, fun hsucceeds ↦ absurd hsucceeds hfails, fun _ ↦ ?_⟩ rfl
    rw [hpresent]
    rfl

theorem not_succeeds_of_isWithoutData (hwithout : reply.isWithoutData = true) :
    ¬call.Succeeds reply := by
  rintro ⟨data, response, parameters, rfl, -⟩
  exact absurd hwithout (by simp [Reply.isWithoutData])

theorem decodeResponse_onlyTlvErrors (data : Packet.Data) : OnlyTlvErrors (decodeResponse data) :=
  .bind (Packet.Data.getContent_onlyTlvErrors data) fun content ↦
    .bind (Block.blockFromValue_onlyTlvErrors content.value) ControlResponse.wireDecode_onlyTlvErrors

/-- Every exit of the processing of a response answers, if it can print the request. -/
theorem answers_processCommandResponse_iff (hmem : call.command ∈ ReplyingCommand.all)
    (data : Packet.Data) :
    call.Answers (.data data) (call.processCommandResponse parameters data) ↔
      (call.level.isLevelEnabled (call.logLevel (.data data)) = true →
        (call.command.printRequestParameters parameters).isSome = true) := by
  unfold processCommandResponse
  cases hresponse : decodeResponse data with
  | error error =>
    have hfails : ¬call.Succeeds (.data data) := by
      rintro ⟨_, response, _, ⟨⟩, hdecoded, -⟩
      rw [hresponse] at hdecoded
      cases hdecoded
    have htlv : error.isTlvError = true := decodeResponse_onlyTlvErrors data error hresponse
    simp only [htlv, if_true, answers_logRequest_iff, answers_onFailure hfails, and_true, logLevel,
      hresponse]
  | ok response =>
    by_cases hcode : response.code.toNat ≥ errorLbound
    · have hfails : ¬call.Succeeds (.data data) := by
        rintro ⟨_, other, _, ⟨⟩, hdecoded, hless, -⟩
        obtain rfl : response = other := Except.ok.inj (hresponse.symm.trans hdecoded)
        exact absurd hless (Nat.not_lt.mpr hcode)
      simp only [if_pos hcode, answers_logRequest_iff, answers_onFailure hfails, and_true, logLevel,
        hresponse]
    · cases hbody : response.decodeBody with
      | error error =>
        have hfails : ¬call.Succeeds (.data data) := by
          rintro ⟨_, other, _, ⟨⟩, hdecoded, -, hother, -⟩
          obtain rfl : response = other := Except.ok.inj (hresponse.symm.trans hdecoded)
          rw [hbody] at hother
          cases hother
        have htlv : error.isTlvError = true := response.decodeBody_onlyTlvErrors error hbody
        simp only [if_neg hcode, htlv, if_true, answers_logRequest_iff, answers_onFailure hfails,
          and_true, logLevel, hresponse, hbody]
      | ok body =>
        cases hvalid : call.command.validateResponse body with
        | error thrown =>
          have hfails : ¬call.Succeeds (.data data) := by
            rintro ⟨_, other, accepted, ⟨⟩, hdecoded, -, hother, haccepted⟩
            obtain rfl : response = other := Except.ok.inj (hresponse.symm.trans hdecoded)
            obtain rfl : body = accepted := Except.ok.inj (hbody.symm.trans hother)
            rw [hvalid] at haccepted
            cases haccepted
          obtain ⟨what, rfl⟩ := ReplyingCommand.validateResponse_argumentError hmem hvalid
          simp only [if_neg hcode, hvalid, answers_logRequest_iff, answers_onFailure hfails,
            and_true, logLevel, hresponse, hbody]
        | ok accepted =>
          have hsucceeds : call.Succeeds (.data data) :=
            ⟨data, response, body, rfl, hresponse, Nat.lt_of_not_le hcode, hbody, hvalid⟩
          have hprint : (call.command.printResponseParameters body).isSome = true :=
            ReplyingCommand.isSome_printResponseParameters hmem hvalid
          have hrest : call.Answers (.data data)
              (if call.level.isLevelEnabled .debug then
                .print (call.command.printResponseParameters body) (.printResponseParameters body)
                  (.invokeIfPresent call.hasOnSuccess (.onSuccess body))
              else .invokeIfPresent call.hasOnSuccess (.onSuccess body)) := by
            split_ifs
            · exact (answers_print_iff rfl).mpr ⟨hprint, answers_onSuccess hsucceeds⟩
            · exact answers_onSuccess hsucceeds
          simp only [if_neg hcode, hvalid, answers_logRequest_iff, logLevel, hresponse, hbody,
            ReplyingCommand.applyDefaultsToResponse, hrest, and_true]

end Answers

/-- The processing of every reply answers exactly when it does not call an absent `onFailure` and
prints no request whose text reads an absent member. -/
theorem answers_processReply_iff {call : Call} (hmem : call.command ∈ ReplyingCommand.all)
    (parameters : ControlParameters) (reply : Reply) :
    call.Answers reply (call.processReply parameters reply) ↔
      (reply.isWithoutData = true → call.hasOnFailure = true) ∧
      (call.level.isLevelEnabled (call.logLevel reply) = true →
        (call.command.printRequestParameters parameters).isSome = true) := by
  cases reply with
  | data data =>
    have hdata : (Reply.data data).isWithoutData = true → call.hasOnFailure = true := nofun
    rw [and_iff_right hdata]
    exact answers_processCommandResponse_iff hmem data
  | nack reason =>
    have hfails : ¬call.Succeeds (.nack reason) := not_succeeds_of_isWithoutData rfl
    simp only [processReply, answers_logRequest_iff, answers_invoke_iff hfails, logLevel,
      Reply.isWithoutData, forall_const, and_comm]
  | timeout =>
    have hfails : ¬call.Succeeds .timeout := not_succeeds_of_isWithoutData rfl
    simp only [processReply, answers_logRequest_iff, answers_invoke_iff hfails, logLevel,
      Reply.isWithoutData, forall_const, and_comm]

def sampleCall : Call where
  command := .faceDestroy
  parameters := { faceId := some 5 }
  hasOnSuccess := true
  hasOnFailure := false
  commandPrefix := [.generic [1]]
  level := .all
  sign := .ok ()
  expressInterest := .ok ()

theorem answers_processReply_iff_sample :
    sampleCall.startCommand.1.outcome = .returned ∧
    { sampleCall with hasOnFailure := true }.Answers .timeout
      ({ sampleCall with hasOnFailure := true }.processReply { faceId := some 5 } .timeout) ∧
    ¬sampleCall.Answers .timeout (sampleCall.processReply { faceId := some 5 } .timeout) := by
  refine ⟨by decide +kernel, ?_, ?_⟩
  · exact (answers_processReply_iff (by simp [sampleCall, ReplyingCommand.all]) _ _).mpr
      ⟨fun _ ↦ rfl, fun _ ↦ rfl⟩
  · rw [answers_processReply_iff (by simp [sampleCall, ReplyingCommand.all])]
    exact fun hanswers ↦ Bool.false_ne_true (hanswers.1 rfl)

/-- A command that times out without an `onFailure` callback throws. -/
theorem thrown_processReply_timeout :
    sampleCall.startCommand.1.outcome = .returned ∧
    (sampleCall.processReply { faceId := some 5 } .timeout).outcome = .thrown "bad_function_call" ∧
    ¬sampleCall.Answers .timeout (sampleCall.processReply { faceId := some 5 } .timeout) := by
  have hthrown : (sampleCall.processReply { faceId := some 5 } .timeout).outcome =
      .thrown "bad_function_call" := by decide +kernel
  exact ⟨by decide +kernel, hthrown, fun hanswers ↦ nomatch hthrown.symm.trans hanswers.returned⟩

end Call

/-! ## Printing -/

/-- The documented precondition of a print: the parameters are valid and their defaults have been
applied. -/
def Action.MeetsPrecondition (command : ReplyingCommand) : Action → Prop
  | .printRequestParameters parameters =>
      command.validateRequest parameters = .ok () ∧
        ∃ base, command.applyDefaultsToRequest base = parameters
  | .printResponseParameters parameters =>
      command.validateResponse parameters = .ok () ∧
        ∃ base, command.applyDefaultsToResponse base = parameters
  | _ => True

/-- No getter that the print reaches reads an absent member. -/
def Action.ReadsPresentMembers (command : ReplyingCommand) : Action → Prop
  | .printRequestParameters parameters =>
      (command.printRequestParameters parameters).isSome = true
  | .printResponseParameters parameters =>
      (command.printResponseParameters parameters).isSome = true
  | _ => True

namespace Call

variable {call : Call} {parameters : ControlParameters} {rest : Transcript}

/-- The prints of the request are of the given parameters, and those of the response of parameters
that the command accepts. -/
def PrintsOnly (command : ReplyingCommand) (parameters : ControlParameters) (action : Action) :
    Prop :=
  match action with
  | .printRequestParameters printed => printed = parameters
  | .printResponseParameters printed => command.validateResponse printed = .ok ()
  | _ => True

theorem printsOnly_logRequest
    (hrest : ∀ action ∈ rest.actions, PrintsOnly call.command parameters action) :
    ∀ action ∈ (call.logRequest level parameters rest).actions,
      PrintsOnly call.command parameters action := by
  unfold logRequest
  split_ifs
  · unfold Transcript.print
    cases call.command.printRequestParameters parameters with
    | none => simp [PrintsOnly]
    | some text => exact List.forall_mem_cons.mpr ⟨rfl, hrest⟩
  · exact hrest

theorem printsOnly_of_callback (command : ReplyingCommand) (parameters : ControlParameters)
    (hcallback : action.callback.isSome = true) : PrintsOnly command parameters action := by
  cases action with
  | printRequestParameters printed => cases hcallback
  | printResponseParameters printed => cases hcallback
  | onSuccess parameters => trivial
  | onFailure code what => trivial

theorem printsOnly_invoke (isPresent : Bool) (hcallback : action.callback.isSome = true) :
    ∀ invoked ∈ (Transcript.invoke isPresent action).actions,
      PrintsOnly command parameters invoked := by
  cases isPresent with
  | false => simp [Transcript.invoke]
  | true =>
    simpa [Transcript.invoke] using printsOnly_of_callback command parameters hcallback

theorem printsOnly_invokeIfPresent (isPresent : Bool) (hcallback : action.callback.isSome = true) :
    ∀ invoked ∈ (Transcript.invokeIfPresent isPresent action).actions,
      PrintsOnly command parameters invoked := by
  unfold Transcript.invokeIfPresent
  split_ifs
  · exact printsOnly_invoke isPresent hcallback
  · simp

theorem printsOnly_processCommandResponse (data : Packet.Data) :
    ∀ action ∈ (call.processCommandResponse parameters data).actions,
      PrintsOnly call.command parameters action := by
  unfold processCommandResponse
  cases decodeResponse data with
  | error error =>
    dsimp only
    split_ifs
    · exact printsOnly_logRequest (printsOnly_invokeIfPresent _ rfl)
    · simp
  | ok response =>
    by_cases hcode : response.code.toNat ≥ errorLbound
    · simp only [if_pos hcode]
      exact printsOnly_logRequest (printsOnly_invokeIfPresent _ rfl)
    · simp only [if_neg hcode]
      cases response.decodeBody with
      | error error =>
        dsimp only
        split_ifs
        · exact printsOnly_logRequest (printsOnly_invokeIfPresent _ rfl)
        · simp
      | ok body =>
        cases hvalid : call.command.validateResponse body with
        | error thrown =>
          simp only [hvalid]
          cases thrown with
          | argumentError what => exact printsOnly_logRequest (printsOnly_invokeIfPresent _ rfl)
          | tlv error => simp
        | ok accepted =>
          simp only [hvalid]
          refine printsOnly_logRequest ?_
          split_ifs
          · unfold Transcript.print
            cases call.command.printResponseParameters _ with
            | none => exact List.forall_mem_singleton.mpr hvalid
            | some text =>
              exact List.forall_mem_cons.mpr ⟨hvalid, printsOnly_invokeIfPresent _ rfl⟩
          · exact printsOnly_invokeIfPresent _ rfl

theorem printsOnly_processReply (reply : Reply) :
    ∀ action ∈ (call.processReply parameters reply).actions,
      PrintsOnly call.command parameters action := by
  cases reply with
  | data data => exact printsOnly_processCommandResponse data
  | nack reason => exact printsOnly_logRequest (printsOnly_invoke _ rfl)
  | timeout => exact printsOnly_logRequest (printsOnly_invoke _ rfl)

/-- Every print of a call is of the parameters with the wire that they keep, or of an accepted
response. -/
theorem printsOnly_actions (call : Call) (reply : Reply) (haction : action ∈ call.actions reply) :
    ∃ requestName parameters, call.command.getRequestName call.commandPrefix call.parameters =
        .ok (requestName, parameters) ∧ PrintsOnly call.command parameters action := by
  unfold actions startCommand at haction
  cases hname : call.command.getRequestName call.commandPrefix call.parameters with
  | error thrown => simp [hname] at haction
  | ok made =>
    obtain ⟨requestName, parameters⟩ := made
    refine ⟨requestName, parameters, rfl, ?_⟩
    cases hsign : call.sign with
    | error what => simp [hname, hsign] at haction
    | ok signed =>
      simp only [hname, hsign] at haction
      have hstart : ∀ sent, sent.actions = [] →
          ∀ started ∈ (call.logRequest .debug parameters sent).actions,
            PrintsOnly call.command parameters started := by
        intro sent hsilent
        refine printsOnly_logRequest ?_
        simp [hsilent]
      split_ifs at haction
      · rcases List.mem_append.mp haction with hstarted | hreplied
        · exact hstart _ (by cases call.expressInterest <;> rfl) action hstarted
        · exact printsOnly_processReply reply action hreplied
      · exact hstart _ (by cases call.expressInterest <;> rfl) action haction

variable {kept : ControlParameters}

theorem exists_wire_of_getRequestName {commandPrefix requestName : Name}
    (hname : command.getRequestName commandPrefix parameters = .ok (requestName, kept)) :
    command.validateRequest parameters = .ok () ∧ (∃ block, parameters.wireEncode = .ok block) ∧
      ∃ wire, kept = { parameters with wire := wire } := by
  obtain ⟨_, hvalid, hrest⟩ := bind_eq_ok_iff.mp hname
  cases hencode : parameters.wireEncode with
  | error error => simp [hencode, throw, throwThe, MonadExceptOf.throw] at hrest
  | ok made =>
    simp only [hencode] at hrest
    cases hrest
    exact ⟨hvalid, ⟨made, rfl⟩, ReplyingCommand.exists_wire_of_wireEncode hencode⟩

/-- At level `DEBUG` the start of a command prints the request. -/
theorem mem_actions_of_getRequestName {requestName : Name}
    (hname : command.getRequestName [] parameters = .ok (requestName, kept)) (reply : Reply) :
    .printRequestParameters kept ∈
      (⟨command, parameters, true, true, [], .debug, .ok (), .ok ()⟩ : Call).actions reply := by
  have hprint (call : Call) (rest : Transcript) (henabled : call.level = .debug) :
      .printRequestParameters kept ∈ (call.logRequest .debug kept rest).actions := by
    rw [logRequest, henabled, if_pos (by decide)]
    unfold Transcript.print
    cases call.command.printRequestParameters kept <;> simp
  unfold actions startCommand
  simp only [hname]
  split_ifs
  · exact List.mem_append_left _ (hprint _ _ rfl)
  · exact hprint _ _ rfl

end Call

/-- Whatever happens to a valid command, every print meets its precondition and reads members that
are present, exactly when the fields with a default are present in the request. A request that cannot
be encoded is not started. -/
theorem meetsPrecondition_iff (hmem : command ∈ ReplyingCommand.all)
    {parameters : ControlParameters} (hvalid : command.validateRequest parameters = .ok ()) :
    (∀ (call : Call) (reply : Call.Reply), call.command = command → call.parameters = parameters →
      ∀ action ∈ call.actions reply,
        action.MeetsPrecondition command ∧ action.ReadsPresentMembers command) ↔
      (∀ default ∈ command.requestDefaults, parameters.presentField default.field = true) ∨
        ∃ error, parameters.wireEncode = .error error := by
  constructor
  · intro hprints
    cases hencode : parameters.wireEncode with
    | error error => exact .inr ⟨error, rfl⟩
    | ok made =>
      obtain ⟨block, kept⟩ := made
      obtain ⟨wire, rfl⟩ := ReplyingCommand.exists_wire_of_wireEncode hencode
      have hname : command.getRequestName [] parameters = .ok
          ([] ++ [command.module, command.verb] ++ [Component.ofAppended block],
            { parameters with wire := wire }) := by
        simp only [ControlCommand.getRequestName, hvalid, hencode]
        rfl
      have hprinted := hprints _ .timeout rfl rfl _ (Call.mem_actions_of_getRequestName hname _)
      have hpresent := (ReplyingCommand.exists_applyDefaultsToRequest_eq_iff hmem).mp hprinted.1.2
      simp only [ReplyingCommand.presentField_withWire] at hpresent
      exact .inl hpresent
  · rintro hcases call reply rfl rfl action haction
    obtain ⟨requestName, kept, hname, hprints⟩ := Call.printsOnly_actions call reply haction
    obtain ⟨-, ⟨made, hencode⟩, wire, rfl⟩ := Call.exists_wire_of_getRequestName hname
    have hpresent : ∀ default ∈ call.command.requestDefaults,
        ControlParameters.presentField { call.parameters with wire := wire } default.field =
          true := by
      simp only [ReplyingCommand.presentField_withWire]
      rcases hcases with hpresent | ⟨error, hfailed⟩
      · exact hpresent
      · rw [hencode] at hfailed
        cases hfailed
    have hkept : call.command.validateRequest { call.parameters with wire := wire } = .ok () := by
      rw [ReplyingCommand.validateRequest_withWire hmem, hvalid]
    cases action with
    | printRequestParameters printed =>
      obtain rfl : printed = { call.parameters with wire := wire } := hprints
      exact ⟨⟨hkept, (ReplyingCommand.exists_applyDefaultsToRequest_eq_iff hmem).mpr hpresent⟩,
        ReplyingCommand.isSome_printRequestParameters hmem hkept hpresent⟩
    | printResponseParameters printed =>
      exact ⟨⟨hprints, printed, rfl⟩, ReplyingCommand.isSome_printResponseParameters hmem hprints⟩
    | onSuccess parameters => exact ⟨trivial, trivial⟩
    | onFailure code what => exact ⟨trivial, trivial⟩

theorem meetsPrecondition_iff_faceDestroy :
    ReplyingCommand.faceDestroy.validateRequest { faceId := some 5 } = .ok () ∧
    ∀ action ∈ Call.sampleCall.actions .timeout,
      action.MeetsPrecondition .faceDestroy ∧ action.ReadsPresentMembers .faceDestroy := by
  have hvalid : ReplyingCommand.faceDestroy.validateRequest { faceId := some 5 } = .ok () := by
    decide +kernel
  have hmem : ReplyingCommand.faceDestroy ∈ ReplyingCommand.all := by simp [ReplyingCommand.all]
  exact ⟨hvalid, (meetsPrecondition_iff hmem hvalid).mpr (.inl (by decide)) Call.sampleCall .timeout
    rfl rfl⟩

/-- The creation of a face without a persistency, as the validator accepts it -/
def faceCreateCall : Call :=
  ⟨.faceCreate, { uri := some [117] }, true, true, [], .debug, .ok (), .ok ()⟩

/-- The start of a valid command prints a request without its defaults, and reads an absent member.
-/
theorem not_meetsPrecondition_faceCreate :
    ReplyingCommand.faceCreate.validateRequest { uri := some [117] } = .ok () ∧
    faceCreateCall.startCommand.1.outcome = .assertionFailed ∧
    ∃ action ∈ faceCreateCall.actions .timeout,
      ¬action.MeetsPrecondition .faceCreate ∧ ¬action.ReadsPresentMembers .faceCreate := by
  refine ⟨by decide +kernel, by decide +kernel, ?_⟩
  have hmade : (ReplyingCommand.faceCreate.getRequestName [] { uri := some [117] }).isOk = true := by
    decide +kernel
  cases hname : ReplyingCommand.faceCreate.getRequestName [] { uri := some [117] } with
  | error thrown =>
    rw [hname] at hmade
    cases hmade
  | ok made =>
    obtain ⟨requestName, kept⟩ := made
    obtain ⟨-, -, wire, rfl⟩ := Call.exists_wire_of_getRequestName hname
    refine ⟨_, Call.mem_actions_of_getRequestName hname .timeout, fun hmeets ↦ ?_, by simp [
      Action.ReadsPresentMembers, ReplyingCommand.faceCreate]⟩
    have hpresent := (ReplyingCommand.exists_applyDefaultsToRequest_eq_iff
      (by simp [ReplyingCommand.all])).mp hmeets.2 _ List.mem_cons_self
    cases hpresent

end NdnCxx.Mgmt.Controller
