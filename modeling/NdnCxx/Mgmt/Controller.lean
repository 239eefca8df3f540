import NdnCxx.Mgmt.ControlResponse

/-!
# Starting commands and answering for them

`nfd::Controller` sends a command and invokes one of two callbacks when a reply has come. It logs what
it does, and a log statement whose level is enabled prints the request or the response. The signing
and the sending of the Interest are seen by what they throw. A callback is a `function` that may be
empty; calling an empty one throws.
-/

namespace NdnCxx.Mgmt

/-- `LogLevel` -/
inductive LogLevel
  | fatal
  | none
  | error
  | warn
  | info
  | debug
  | trace
  | all
  deriving DecidableEq

def LogLevel.toInt : LogLevel → ℤ
  | fatal => -1
  | none => 0
  | error => 1
  | warn => 2
  | info => 3
  | debug => 4
  | trace => 5
  | all => 255

/-- `Logger::isLevelEnabled`; without logging every level is like `none`. -/
def LogLevel.isLevelEnabled (currentLevel level : LogLevel) : Bool :=
  currentLevel.toInt ≥ level.toInt

namespace Controller

/-- What the controller calls: the two ways of printing, and the callbacks. -/
inductive Action
  | printRequestParameters (parameters : ControlParameters)
  | printResponseParameters (parameters : ControlParameters)
  | onSuccess (parameters : ControlParameters)
  | onFailure (code : ℕ) (what : Bytes)
  deriving DecidableEq

/-- How a call of the controller ends. -/
inductive Outcome
  | returned
  | thrown (what : String)
  | assertionFailed
  deriving DecidableEq

/-- The actions of a call of the controller, and its end -/
structure Transcript where
  actions : List Action
  outcome : Outcome
  deriving DecidableEq

/-- Print, and go on unless an assertion has failed. -/
def Transcript.print (text : Option Bytes) (action : Action) (rest : Transcript) : Transcript :=
  match text with
  | some _ => ⟨action :: rest.actions, rest.outcome⟩
  | none => ⟨[action], .assertionFailed⟩

def Transcript.invoke (isPresent : Bool) (action : Action) : Transcript :=
  if isPresent then ⟨[action], .returned⟩ else ⟨[], .thrown "bad_function_call"⟩

/-- Call a `function` behind a check that it is not empty. -/
def Transcript.invokeIfPresent (isPresent : Bool) (action : Action) : Transcript :=
  if isPresent then .invoke isPresent action else ⟨[], .returned⟩

/-- The arguments of `startCommand`, the level of the logger, and what the signing and the sending of
the Interest throw. -/
structure Call where
  command : ReplyingCommand
  parameters : ControlParameters
  hasOnSuccess : Bool
  hasOnFailure : Bool
  commandPrefix : Name
  level : LogLevel
  sign : Except String Unit
  expressInterest : Except String Unit

def errorTimeout : ℕ := 10060

def errorNack : ℕ := 10800

def errorServer : ℕ := 500

def errorLbound : ℕ := 400

def textOf : Thrown → String
  | .argumentError what => what
  | .tlv error => error.what

namespace Call

variable (call : Call)

/-- A log statement that prints the request -/
def logRequest (level : LogLevel) (parameters : ControlParameters) (rest : Transcript) :
    Transcript :=
  if call.level.isLevelEnabled level then
    .print (call.command.printRequestParameters parameters) (.printRequestParameters parameters) rest
  else rest

/-- `Controller::startCommand`, with the parameters that the callbacks of the Interest are bound to -/
def startCommand : Transcript × Option ControlParameters :=
  match call.command.getRequestName call.commandPrefix call.parameters with
  | .error thrown => (⟨[], .thrown (textOf thrown)⟩, none)
  | .ok (_, parameters) =>
      match call.sign with
      | .error what => (⟨[], .thrown what⟩, none)
      | .ok () =>
          let transcript := call.logRequest .debug parameters
            (match call.expressInterest with
            | .error what => ⟨[], .thrown what⟩
            | .ok () => ⟨[], .returned⟩)
          (transcript, if transcript.outcome = .returned then some parameters else none)

def decodeResponse (data : Packet.Data) : Except Error ControlResponse := do
  let content ← data.getContent
  ControlResponse.wireDecode (← Block.blockFromValue content.value)

def processCommandResponse (requestParameters : ControlParameters) (data : Packet.Data) :
    Transcript :=
  match decodeResponse data with
  | .error error =>
      if error.isTlvError then
        call.logRequest .warn requestParameters
          (.invokeIfPresent call.hasOnFailure (.onFailure errorServer (textBytes error.what)))
      else ⟨[], .thrown error.what⟩
  | .ok response =>
      if response.code.toNat ≥ errorLbound then
        call.logRequest .debug requestParameters
          (.invokeIfPresent call.hasOnFailure (.onFailure response.code.toNat response.text))
      else
        match response.decodeBody with
        | .error error =>
            if error.isTlvError then
              call.logRequest .warn requestParameters
                (.invokeIfPresent call.hasOnFailure (.onFailure errorServer (textBytes error.what)))
            else ⟨[], .thrown error.what⟩
        | .ok parameters =>
            match call.command.validateResponse parameters with
            | .error (.argumentError what) =>
                call.logRequest .warn requestParameters
                  (.invokeIfPresent call.hasOnFailure (.onFailure errorServer (textBytes what)))
            | .error thrown => ⟨[], .thrown (textOf thrown)⟩
            | .ok () =>
                let parameters := call.command.applyDefaultsToResponse parameters
                let invocation := .invokeIfPresent call.hasOnSuccess (.onSuccess parameters)
                call.logRequest .debug requestParameters
                  (if call.level.isLevelEnabled .debug then
                    .print (call.command.printResponseParameters parameters)
                      (.printResponseParameters parameters) invocation
                  else invocation)

/-- What the face answers to the Interest of a command. -/
inductive Reply
  | data (data : Packet.Data)
  | nack (reason : NackReason)
  | timeout
  deriving DecidableEq

/-- The callbacks that `startCommand` gives to the face -/
def processReply (requestParameters : ControlParameters) : Reply → Transcript
  | .data data => call.processCommandResponse requestParameters data
  | .nack _ =>
      call.logRequest .warn requestParameters
        (.invoke call.hasOnFailure (.onFailure errorNack (textBytes "network Nack received")))
  | .timeout =>
      call.logRequest .warn requestParameters
        (.invoke call.hasOnFailure (.onFailure errorTimeout (textBytes "request timed out")))

/-- All actions of a call, from its start to the end of the processing of a reply -/
def actions (reply : Reply) : List Action :=
  match call.startCommand with
  | (transcript, none) => transcript.actions
  | (transcript, some parameters) =>
      transcript.actions ++ (call.processReply parameters reply).actions

end Call

end Controller

end NdnCxx.Mgmt
