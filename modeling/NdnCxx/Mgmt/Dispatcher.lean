import NdnCxx.Foundation.UnorderedMap
import NdnCxx.Name.Number
import NdnCxx.Name.StoredName

/-!
# Registrations and notifications of a dispatcher

The part of `Dispatcher` that keeps `m_topLevelPrefixes`, `m_handlers` and `m_streams`. The three are
hashed by the wire of a name and compared by its component values. `m_streams` has an entry for every
relative prefix of a notification stream, made when the stream is added, and one for every full name
under which a notification was posted; only the latter count.
-/

namespace NdnCxx

namespace StoredName

def sameKey (hashRange : Bytes → ℕ) (name other : StoredName) : Bool :=
  name.hash hashRange == other.hash hashRange && name.equals other

/-- One of the names is a prefix of the other, as the checks of the dispatcher test it. -/
def overlaps (name other : StoredName) : Bool :=
  name.components.isPrefixOf other.components || other.components.isPrefixOf name.components

theorem overlaps_of_equals {name other : StoredName} (hequals : name.equals other = true) :
    name.overlaps other = true := by
  have hvalues := Name.equals_iff.mp hequals
  have hprefixed : name.components.isPrefixOf other.components = true := by
    rw [Name.isPrefixOf_iff, hvalues]
  rw [overlaps, hprefixed, Bool.true_or]

end StoredName

namespace Dispatcher

/-- What a relative prefix was registered for. -/
inductive Registration
  | controlCommand
  | statusDataset
  | notificationStream
  deriving DecidableEq

/-- `TopPrefixEntry`. An Interest filter is known by its name. -/
structure TopPrefixEntry where
  topPrefix : StoredName
  wantRegister : Bool
  interestFilters : List StoredName

/-- How a call ends that does not return. -/
inductive Thrown
  | outOfRange (what : String)
  | domainError (what : String)
  /-- the prefix registration command could not be sent -/
  | registerPrefix
  deriving DecidableEq

/-- A notification as `sendData` puts it in a Data packet. -/
structure Posted where
  dataName : Name
  content : Bytes

end Dispatcher

/-- `Dispatcher`, with the record of the posted notifications and of how the calls ended that change
the registrations. -/
structure Dispatcher (hashRange : Bytes → ℕ) where
  topLevelPrefixes : UnorderedMap StoredName Dispatcher.TopPrefixEntry (StoredName.sameKey hashRange)
  handlers : UnorderedMap StoredName Dispatcher.Registration (StoredName.sameKey hashRange)
  streams : UnorderedMap StoredName ℕ (StoredName.sameKey hashRange)
  posted : List Dispatcher.Posted
  outcomes : List (Option Dispatcher.Thrown)

namespace Dispatcher

variable {hashRange : Bytes → ℕ}

def initial (hashRange : Bytes → ℕ) : Dispatcher hashRange :=
  { topLevelPrefixes := .empty, handlers := .empty, streams := .empty, posted := [], outcomes := [] }

def record (dispatcher : Dispatcher hashRange) (outcome : Option Thrown) : Dispatcher hashRange :=
  { dispatcher with outcomes := dispatcher.outcomes ++ [outcome] }

/-- `addTopPrefix`. When the prefix cannot be registered, its entry stays. -/
def addTopPrefix (dispatcher : Dispatcher hashRange) (topPrefix : StoredName)
    (wantRegister registers : Bool) : Dispatcher hashRange :=
  if dispatcher.topLevelPrefixes.keys.any fun other ↦ other.overlaps topPrefix then
    dispatcher.record (some (.outOfRange "Top-level Prefixes overlapped"))
  else
    let enter (interestFilters : List StoredName) : Dispatcher hashRange :=
      { dispatcher with
        topLevelPrefixes := dispatcher.topLevelPrefixes.assign topPrefix
          ⟨topPrefix, wantRegister, interestFilters⟩ }
    if wantRegister && !registers then (enter []).record (some .registerPrefix)
    else (enter (dispatcher.handlers.keys.map topPrefix.appendName)).record none

def removeTopPrefix (dispatcher : Dispatcher hashRange) (topPrefix : StoredName) :
    Dispatcher hashRange :=
  { dispatcher with topLevelPrefixes := dispatcher.topLevelPrefixes.erase topPrefix }.record none

def isOverlappedWithOthers (dispatcher : Dispatcher hashRange) (relPrefix : StoredName) : Bool :=
  dispatcher.handlers.keys.any (·.overlaps relPrefix) ||
    dispatcher.streams.keys.any (·.overlaps relPrefix)

/-- What the functions adding a relative prefix have in common. -/
def addHandler (dispatcher : Dispatcher hashRange) (registration : Registration)
    (overlapped : String) (relPrefix : StoredName) : Dispatcher hashRange :=
  if !dispatcher.topLevelPrefixes.entries.isEmpty then
    dispatcher.record (some (.domainError "one or more top-level prefix has been added"))
  else if dispatcher.isOverlappedWithOthers relPrefix then
    dispatcher.record (some (.outOfRange overlapped))
  else
    { dispatcher with
      handlers := dispatcher.handlers.assign relPrefix registration
      streams :=
        if registration = Registration.notificationStream then dispatcher.streams.assign relPrefix 0
        else dispatcher.streams }.record none

def addControlCommand (dispatcher : Dispatcher hashRange) (relPrefix : StoredName) :
    Dispatcher hashRange :=
  dispatcher.addHandler .controlCommand "relPrefix overlaps with another relPrefix" relPrefix

def addStatusDataset (dispatcher : Dispatcher hashRange) (relPrefix : StoredName) :
    Dispatcher hashRange :=
  dispatcher.addHandler .statusDataset "relPrefix overlapped" relPrefix

def addNotificationStream (dispatcher : Dispatcher hashRange) (relPrefix : StoredName) :
    Dispatcher hashRange :=
  dispatcher.addHandler .notificationStream "relPrefix overlaps with another relPrefix" relPrefix

/-- The name of a stream under the only top-level prefix, if there is only one. -/
def streamName? (dispatcher : Dispatcher hashRange) (relPrefix : StoredName) : Option StoredName :=
  match dispatcher.topLevelPrefixes.entries with
  | [(_, entry)] => some (entry.topPrefix.appendName relPrefix)
  | _ => none

/-- `postNotification`. The number is counted before the packet is signed, which may throw. -/
def postNotification (dispatcher : Dispatcher hashRange) (notification : Bytes)
    (relPrefix : StoredName) (signs : Bool) : Dispatcher hashRange :=
  match dispatcher.streamName? relPrefix with
  | none => dispatcher
  | some streamName =>
      let sequenceNo := (dispatcher.streams.find? streamName).getD 0
      let counted : Dispatcher hashRange :=
        { dispatcher with
          streams := dispatcher.streams.assign streamName ((sequenceNo + 1) % 2 ^ 64) }
      if signs then
        { counted with
          posted := dispatcher.posted ++
            [⟨streamName.components.appendSequenceNumber sequenceNo, notification⟩] }
      else counted

/-- A call, with what it meets outside the dispatcher: whether the registration command is sent and
whether the packet is signed. -/
inductive Event
  | addTopPrefix (topPrefix : StoredName) (wantRegister registers : Bool)
  | removeTopPrefix (topPrefix : StoredName)
  | addControlCommand (relPrefix : StoredName)
  | addStatusDataset (relPrefix : StoredName)
  | addNotificationStream (relPrefix : StoredName)
  | postNotification (notification : Bytes) (relPrefix : StoredName) (signs : Bool)

def Event.isPost : Event → Bool
  | .postNotification .. => true
  | _ => false

def apply (dispatcher : Dispatcher hashRange) : Event → Dispatcher hashRange
  | .addTopPrefix topPrefix wantRegister registers =>
      dispatcher.addTopPrefix topPrefix wantRegister registers
  | .removeTopPrefix topPrefix => dispatcher.removeTopPrefix topPrefix
  | .addControlCommand relPrefix => dispatcher.addControlCommand relPrefix
  | .addStatusDataset relPrefix => dispatcher.addStatusDataset relPrefix
  | .addNotificationStream relPrefix => dispatcher.addNotificationStream relPrefix
  | .postNotification notification relPrefix signs =>
      dispatcher.postNotification notification relPrefix signs

/-- Every call leaves a dispatcher. -/
def step (dispatcher : Dispatcher hashRange) (event : Event) : Option (Dispatcher hashRange) :=
  some (dispatcher.apply event)

end Dispatcher

end NdnCxx
