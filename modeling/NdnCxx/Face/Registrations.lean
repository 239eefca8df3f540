import NdnCxx.Foundation.Run
import NdnCxx.Name.Name

/-!
# Registered prefixes of a face

The part of `Face` and `Face::Impl` that registers and unregisters prefixes. The commands are
Interests which the face's own controller expresses on the face: an answer calls back once, and
whatever clears the pending Interests drops the commands. Unregistering, changing Interest filters and
shutting down are posted to the `io_service`; a command is expressed at once in its thread and is
posted otherwise. The callbacks of the application are called at the end of a handler, so their own
calls come after it.

An iterator into the table is the number of the record it points to. Erasing by an iterator whose
record has left the table is undefined; the model stops there.
-/

namespace NdnCxx

/-- A `RegisteredPrefix`. The number is its `RegisteredPrefixId`, the filter that of a combined
operation. -/
structure RegisteredPrefix where
  id : ℕ
  namePrefix : Name
  filter : Option ℕ
  deriving DecidableEq

namespace PrefixTables

/-- A call of `unregisterPrefix`, with the callbacks that are not empty. -/
structure UnregisterCall where
  number : ℕ
  hasSuccess : Bool
  hasFailure : Bool
  deriving DecidableEq

/-- A command of the controller. -/
inductive Verb
  | register
  | unregister
  deriving DecidableEq

/-- A command that has been sent, with what is bound to its callbacks. -/
inductive Command
  | register (record : RegisteredPrefix) (hasFailure : Bool)
  | unregister (item : ℕ) (call : UnregisterCall)
  deriving DecidableEq

/-- A handler that was posted. -/
inductive Posted
  | expressRegister (record : RegisteredPrefix) (hasFailure : Bool)
  | asyncSetInterestFilter (filter : ℕ)
  | asyncUnsetInterestFilter (filter : ℕ)
  | asyncUnregisterPrefix (id : ℕ) (call : UnregisterCall)
  | asyncRemoveAllPendingInterests
  | asyncShutdown
  deriving DecidableEq

/-- Why an event does not happen, or does not return. -/
inductive Stop
  | notEnabled
  | invalidIterator
  deriving DecidableEq

end PrefixTables

/-- The tables of a face, with the record of what was removed from the table of registered prefixes,
of the unregistrations that were answered with success, and of the called callbacks. -/
structure PrefixTables where
  registeredPrefixTable : List RegisteredPrefix
  interestFilterTable : List ℕ
  commands : List PrefixTables.Command
  posted : List PrefixTables.Posted
  nextId : ℕ
  nextFilter : ℕ
  nextCall : ℕ
  removed : List ℕ
  succeeded : List ℕ
  called : List ℕ
  deriving DecidableEq

namespace PrefixTables

def initial : PrefixTables :=
  { registeredPrefixTable := []
    interestFilterTable := []
    commands := []
    posted := []
    nextId := 0
    nextFilter := 0
    nextCall := 0
    removed := []
    succeeded := []
    called := [] }

/-- `m_pendingInterestTable.clear()` and `m_registeredPrefixTable.clear()`, as in `asyncShutdown` and
where `processEvents` lets an exception through -/
def clear (face : PrefixTables) : PrefixTables :=
  { face with
    registeredPrefixTable := []
    commands := []
    removed := face.removed ++ face.registeredPrefixTable.map RegisteredPrefix.id }

/-- `registerPrefix`; it throws, with no other effect, when the command cannot be sent. -/
def registerPrefix (sends : Verb → Name → Bool) (face : PrefixTables) (namePrefix : Name)
    (filter : Option ℕ) (hasFailure isSameThread : Bool) : PrefixTables :=
  let prefixToRegister : RegisteredPrefix := ⟨face.nextId, namePrefix, filter⟩
  let created := { face with nextId := face.nextId + 1 }
  if sends .register namePrefix then
    if isSameThread then
      { created with commands := created.commands ++ [.register prefixToRegister hasFailure] }
    else { created with posted := created.posted ++ [.expressRegister prefixToRegister hasFailure] }
  else created

def afterPrefixRegistered (face : PrefixTables) (registeredPrefix : RegisteredPrefix) :
    PrefixTables :=
  { face with
    registeredPrefixTable := face.registeredPrefixTable ++ [registeredPrefix]
    interestFilterTable := face.interestFilterTable ++ registeredPrefix.filter.toList }

def callBack (face : PrefixTables) (call : UnregisterCall) (isSet : Bool) : PrefixTables :=
  if isSet then { face with called := face.called ++ [call.number] } else face

/-- `m_interestFilterTable.remove`, if the record is that of a combined operation -/
def removeFilter (face : PrefixTables) (record : RegisteredPrefix) : PrefixTables :=
  { face with
    interestFilterTable := face.interestFilterTable.filter fun filter ↦
      record.filter ≠ some filter }

/-- `asyncUnregisterPrefix`. A command that cannot be sent throws out of the handler. -/
def asyncUnregisterPrefix (sends : Verb → Name → Bool) (face : PrefixTables) (id : ℕ)
    (call : UnregisterCall) : PrefixTables :=
  match face.registeredPrefixTable.find? fun record ↦ record.id == id with
  | some record =>
      let unfiltered := face.removeFilter record
      if sends .unregister record.namePrefix then
        { unfiltered with commands := unfiltered.commands ++ [.unregister record.id call] }
      else unfiltered.clear
  | none => face.callBack call call.hasFailure

def finalizeUnregisterPrefix (face : PrefixTables) (item : ℕ) (call : UnregisterCall) :
    Except Stop PrefixTables :=
  if face.registeredPrefixTable.any fun record ↦ record.id == item then
    .ok (callBack
      { face with
        registeredPrefixTable := face.registeredPrefixTable.eraseP fun record ↦ record.id == item
        removed := face.removed ++ [item] } call call.hasSuccess)
  else .error .invalidIterator

def commandSucceeds (face : PrefixTables) : Command → Except Stop PrefixTables
  | .register record _ => .ok (face.afterPrefixRegistered record)
  | .unregister item call =>
      ({ face with succeeded := face.succeeded ++ [item] } : PrefixTables).finalizeUnregisterPrefix
        item call

/-- The failure callback of a command. An empty one throws when it is called. -/
def commandFails (face : PrefixTables) : Command → PrefixTables
  | .register _ hasFailure => if hasFailure then face else face.clear
  | .unregister _ call => if call.hasFailure then face.callBack call true else face.clear

def runPosted (sends : Verb → Name → Bool) (face : PrefixTables) : Posted → PrefixTables
  | .expressRegister record hasFailure =>
      { face with commands := face.commands ++ [.register record hasFailure] }
  | .asyncSetInterestFilter filter =>
      { face with interestFilterTable := face.interestFilterTable ++ [filter] }
  | .asyncUnsetInterestFilter filter =>
      { face with interestFilterTable := face.interestFilterTable.erase filter }
  | .asyncUnregisterPrefix id call => face.asyncUnregisterPrefix sends id call
  | .asyncRemoveAllPendingInterests => { face with commands := [] }
  | .asyncShutdown => face.clear

/-! ## Runs -/

/-- Calls, handlers run by the `io_service`, the answers to commands, and exceptions that other
handlers let through. A command is given by its place among those sent. -/
inductive Event
  | setInterestFilter (namePrefix : Name) (hasFailure isSameThread : Bool)
  | registerPrefix (namePrefix : Name) (hasFailure isSameThread : Bool)
  | setInterestFilterOnly
  | unsetInterestFilter (filter : ℕ)
  | unregisterPrefix (id : ℕ) (hasSuccess hasFailure : Bool)
  | removeAllPendingInterests
  | shutdown
  | runPosted
  | commandSucceeds (index : ℕ)
  | commandFails (index : ℕ)
  | exception
  deriving DecidableEq

def post (face : PrefixTables) (handler : Posted) : PrefixTables :=
  { face with posted := face.posted ++ [handler] }

/-- The command at a place, which is no longer pending when it is answered. -/
def answer (face : PrefixTables) (index : ℕ) : Option (Command × PrefixTables) :=
  face.commands[index]?.map fun command ↦
    (command, { face with commands := face.commands.eraseIdx index })

/-- One event. Unsetting the filter of a combined operation unregisters it, with empty callbacks. -/
def perform (sends : Verb → Name → Bool) (face : PrefixTables) : Event → Except Stop PrefixTables
  | .setInterestFilter namePrefix hasFailure isSameThread =>
      .ok (({ face with nextFilter := face.nextFilter + 1 } : PrefixTables).registerPrefix sends
        namePrefix (some face.nextFilter) hasFailure isSameThread)
  | .registerPrefix namePrefix hasFailure isSameThread =>
      .ok (face.registerPrefix sends namePrefix none hasFailure isSameThread)
  | .setInterestFilterOnly =>
      .ok (({ face with nextFilter := face.nextFilter + 1 } : PrefixTables).post
        (.asyncSetInterestFilter face.nextFilter))
  | .unsetInterestFilter filter => .ok (face.post (.asyncUnsetInterestFilter filter))
  | .unregisterPrefix id hasSuccess hasFailure =>
      .ok (({ face with nextCall := face.nextCall + 1 } : PrefixTables).post
        (.asyncUnregisterPrefix id ⟨face.nextCall, hasSuccess, hasFailure⟩))
  | .removeAllPendingInterests => .ok (face.post .asyncRemoveAllPendingInterests)
  | .shutdown => .ok (face.post .asyncShutdown)
  | .runPosted =>
      match face.posted with
      | [] => .error .notEnabled
      | handler :: later => .ok (({ face with posted := later } : PrefixTables).runPosted sends handler)
  | .commandSucceeds index =>
      match face.answer index with
      | none => .error .notEnabled
      | some (command, rest) => rest.commandSucceeds command
  | .commandFails index =>
      match face.answer index with
      | none => .error .notEnabled
      | some (command, rest) => .ok (rest.commandFails command)
  | .exception => .ok face.clear

def step (sends : Verb → Name → Bool) (face : PrefixTables) (event : Event) :
    Option PrefixTables :=
  (face.perform sends event).toOption

end PrefixTables

end NdnCxx
