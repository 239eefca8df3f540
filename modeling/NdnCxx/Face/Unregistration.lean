import Mathlib.Data.List.Nodup
import Mathlib.Data.List.Perm.Basic
import NdnCxx.Face.Registrations

/-!
# Removing registered prefixes

A record leaves the table of registered prefixes once and a call of `unregisterPrefix` is answered
once. The completion of an unregistration erases by the iterator that was found when its command was
sent: that iterator is valid unless another command for the same record has succeeded before. A
failed command, or a command dropped by a shutdown, does no harm.
-/

namespace NdnCxx.PrefixTables

open Run

/-- The handler registers the record with this number. -/
def Posted.registers (id : ℕ) : Posted → Bool
  | .expressRegister record _ => record.id == id
  | _ => false

def Command.registers (id : ℕ) : Command → Bool
  | .register record _ => record.id == id
  | .unregister _ _ => false

def Posted.answersCall (number : ℕ) : Posted → Bool
  | .asyncUnregisterPrefix _ call => call.number == number
  | _ => false

/-- The command belongs to this call of `unregisterPrefix`. -/
def Command.answersCall (number : ℕ) : Command → Bool
  | .register _ _ => false
  | .unregister _ call => call.number == number

/-- How often a record occurs: on its way to the table, in it, and among the removed ones. -/
def occurrences (face : PrefixTables) (id : ℕ) : ℕ :=
  face.posted.countP (Posted.registers id) + face.commands.countP (Command.registers id) +
    face.registeredPrefixTable.countP (fun record ↦ record.id == id) + face.removed.count id

/-- How often a call of `unregisterPrefix` occurs: on its way to an answer, and answered. -/
def answers (face : PrefixTables) (number : ℕ) : ℕ :=
  face.posted.countP (Posted.answersCall number) +
    face.commands.countP (Command.answersCall number) + face.called.count number

/-- Numbers below the next one to be given out occur at most once, the others do not occur. -/
def allowance (next number : ℕ) : ℕ := if number < next then 1 else 0

theorem allowance_le_one (next number : ℕ) : allowance next number ≤ 1 := by
  unfold allowance
  split_ifs <;> omega

/-- Giving out the next number makes room for one occurrence of it. -/
theorem allowance_succ (next number : ℕ) :
    allowance (next + 1) number = allowance next number + if next = number then 1 else 0 := by
  unfold allowance
  split_ifs <;> omega

/-- What the completion of an unregistration relies on. -/
structure Accounted (face : PrefixTables) : Prop where
  ids : ∀ id, face.occurrences id ≤ allowance face.nextId id
  calls : ∀ number, face.answers number ≤ allowance face.nextCall number
  iterators : ∀ item call, .unregister item call ∈ face.commands →
    (∃ record ∈ face.registeredPrefixTable, record.id = item) ∨ item ∈ face.succeeded
  gone : ∀ item ∈ face.succeeded, item ∈ face.removed

theorem accounted_initial : Accounted initial where
  ids id := by simp [initial, occurrences]
  calls number := by simp [initial, answers]
  iterators item call hmem := by simp [initial] at hmem
  gone item hmem := by simp [initial] at hmem

variable {sends : Verb → Name → Bool} {call : UnregisterCall} {item : ℕ} {events : List Event}
    {event : Event}

namespace Accounted

variable {face : PrefixTables}

theorem clear (hinv : Accounted face) : Accounted face.clear where
  ids id := by
    have hid := hinv.ids id
    have htable : (face.registeredPrefixTable.map RegisteredPrefix.id).count id =
        face.registeredPrefixTable.countP fun record ↦ record.id == id := by
      rw [List.count, List.countP_map]
      rfl
    simp only [occurrences, PrefixTables.clear, List.countP_nil, List.count_append, htable]
      at hid ⊢
    omega
  calls number := by
    have hnumber := hinv.calls number
    simp only [answers, PrefixTables.clear, List.countP_nil] at hnumber ⊢
    omega
  iterators item call hmem := by simp [PrefixTables.clear] at hmem
  gone item hmem := List.mem_append_left _ (hinv.gone item hmem)

variable {handler : Posted} {later : List Posted} {record : RegisteredPrefix} {next : PrefixTables}

section

variable (hinv : Accounted face)
include hinv

/-- A posted handler brings a record or a call that there is room for. -/
theorem post
    (hid : ∀ id, handler.registers id = true → face.occurrences id < allowance face.nextId id)
    (hcall : ∀ number, handler.answersCall number = true →
      face.answers number < allowance face.nextCall number) : Accounted (face.post handler) where
  ids id := by
    have hold := hinv.ids id
    have hnew := hid id
    simp only [occurrences, PrefixTables.post, List.countP_append, List.countP_singleton]
      at hold hnew ⊢
    split_ifs with hregisters
    · have hroom := hnew hregisters
      omega
    · omega
  calls number := by
    have hold := hinv.calls number
    have hnew := hcall number
    simp only [answers, PrefixTables.post, List.countP_append, List.countP_singleton]
      at hold hnew ⊢
    split_ifs with hanswers
    · have hroom := hnew hanswers
      omega
    · omega
  iterators := hinv.iterators
  gone := hinv.gone

variable {command : Command}

/-- So does a command; its iterator points to a record in the table. -/
theorem express
    (hid : ∀ id, command.registers id = true → face.occurrences id < allowance face.nextId id)
    (hcall : ∀ number, command.answersCall number = true →
      face.answers number < allowance face.nextCall number)
    (hitem : ∀ item call, command = .unregister item call →
      ∃ record ∈ face.registeredPrefixTable, record.id = item) :
    Accounted { face with commands := face.commands ++ [command] } where
  ids id := by
    have hold := hinv.ids id
    have hnew := hid id
    simp only [occurrences, List.countP_append, List.countP_singleton] at hold hnew ⊢
    split_ifs with hregisters
    · have hroom := hnew hregisters
      omega
    · omega
  calls number := by
    have hold := hinv.calls number
    have hnew := hcall number
    simp only [answers, List.countP_append, List.countP_singleton] at hold hnew ⊢
    split_ifs with hanswers
    · have hroom := hnew hanswers
      omega
    · omega
  iterators item call hmem := by
    rcases List.mem_append.mp hmem with hmem | hmem
    · exact hinv.iterators item call hmem
    · exact .inl (hitem item call (List.mem_singleton.mp hmem).symm)
  gone := hinv.gone

/-- The next number of a record. -/
theorem newId :
    Accounted { face with nextId := face.nextId + 1 } ∧
      face.occurrences face.nextId < allowance (face.nextId + 1) face.nextId := by
  have hnone : face.occurrences face.nextId = 0 := by
    simpa [allowance] using hinv.ids face.nextId
  refine ⟨⟨fun id ↦ (hinv.ids id).trans ?_, hinv.calls, hinv.iterators, hinv.gone⟩, ?_⟩
  · rw [allowance_succ]
    exact Nat.le_add_right _ _
  · simp [hnone, allowance]

/-- The next number of a call. -/
theorem newCall :
    Accounted { face with nextCall := face.nextCall + 1 } ∧
      face.answers face.nextCall < allowance (face.nextCall + 1) face.nextCall := by
  have hnone : face.answers face.nextCall = 0 := by
    simpa [allowance] using hinv.calls face.nextCall
  refine ⟨⟨hinv.ids, fun number ↦ (hinv.calls number).trans ?_, hinv.iterators, hinv.gone⟩, ?_⟩
  · rw [allowance_succ]
    exact Nat.le_add_right _ _
  · simp [hnone, allowance]

theorem registerPrefix {namePrefix : Name} {filter : Option ℕ} {hasFailure isSameThread : Bool} :
    Accounted (face.registerPrefix sends namePrefix filter hasFailure isSameThread) := by
  obtain ⟨hcreated, hroom⟩ := hinv.newId
  unfold PrefixTables.registerPrefix
  dsimp only
  split_ifs with hsends hsame
  · apply hcreated.express
    · intro id hid
      obtain rfl : face.nextId = id := by simpa [Command.registers] using hid
      exact hroom
    · simp [Command.answersCall]
    · simp
  · apply hcreated.post
    · intro id hid
      obtain rfl : face.nextId = id := by simpa [Posted.registers] using hid
      exact hroom
    · simp [Posted.answersCall]
  · exact hcreated

/-- The callback of a call that has not been answered. -/
theorem callBack {isSet : Bool}
    (hcall : face.answers call.number < allowance face.nextCall call.number) :
    Accounted (face.callBack call isSet) := by
  unfold PrefixTables.callBack
  split_ifs
  · refine ⟨hinv.ids, fun number ↦ ?_, hinv.iterators, hinv.gone⟩
    have hold := hinv.calls number
    simp only [answers, List.count_append, List.count_singleton, beq_iff_eq] at hold hcall ⊢
    split_ifs with hsame
    · subst hsame
      omega
    · omega
  · exact hinv

/-- A handler leaves the queue. -/
theorem takePosted (hposted : face.posted = handler :: later) :
    Accounted { face with posted := later } ∧
      (∀ id, handler.registers id = true →
        ({ face with posted := later } : PrefixTables).occurrences id <
          allowance face.nextId id) ∧
      ∀ number, handler.answersCall number = true →
        ({ face with posted := later } : PrefixTables).answers number <
          allowance face.nextCall number := by
  have hid := hinv.ids
  have hcall := hinv.calls
  simp only [occurrences, answers, hposted, List.countP_cons] at hid hcall
  refine ⟨⟨fun id ↦ ?_, fun number ↦ ?_, hinv.iterators, hinv.gone⟩, fun id hregisters ↦ ?_,
    fun number hanswers ↦ ?_⟩
  · have hbound := hid id
    simp only [occurrences]
    omega
  · have hbound := hcall number
    simp only [answers]
    omega
  · have hbound := hid id
    rw [if_pos hregisters] at hbound
    simp only [occurrences]
    omega
  · have hbound := hcall number
    rw [if_pos hanswers] at hbound
    simp only [answers]
    omega

/-- `asyncUnregisterPrefix` sends a command with an iterator that it has just found. -/
theorem asyncUnregisterPrefix {id : ℕ}
    (hcall : face.answers call.number < allowance face.nextCall call.number) :
    Accounted (face.asyncUnregisterPrefix sends id call) := by
  unfold PrefixTables.asyncUnregisterPrefix
  split
  · rename_i record hfind
    have hunfiltered : Accounted (face.removeFilter record) :=
      ⟨hinv.ids, hinv.calls, hinv.iterators, hinv.gone⟩
    dsimp only
    split_ifs with hsends
    · apply hunfiltered.express
      · simp [Command.registers]
      · intro number hnumber
        obtain rfl : call.number = number := by simpa [Command.answersCall] using hnumber
        exact hcall
      · rintro item call' heq
        obtain ⟨rfl, -⟩ := Command.unregister.inj heq
        exact ⟨record, List.mem_of_find?_eq_some hfind, rfl⟩
    · exact hunfiltered.clear
  · exact hinv.callBack hcall

theorem runPosted (hposted : face.posted = handler :: later) :
    Accounted (({ face with posted := later } : PrefixTables).runPosted sends handler) := by
  obtain ⟨hrest, hid, hcall⟩ := hinv.takePosted hposted
  cases handler with
  | expressRegister record hasFailure =>
    apply hrest.express
    · intro id hregisters
      exact hid id (by simpa [Posted.registers, Command.registers] using hregisters)
    · simp [Command.answersCall]
    · simp
  | asyncSetInterestFilter filter =>
    exact ⟨hrest.ids, hrest.calls, hrest.iterators, hrest.gone⟩
  | asyncUnsetInterestFilter filter =>
    exact ⟨hrest.ids, hrest.calls, hrest.iterators, hrest.gone⟩
  | asyncUnregisterPrefix id call =>
    exact hrest.asyncUnregisterPrefix (hcall call.number (by simp [Posted.answersCall]))
  | asyncRemoveAllPendingInterests =>
    refine ⟨fun id ↦ ?_, fun number ↦ ?_, fun item call hmem ↦ ?_, hrest.gone⟩
    · have hbound := hrest.ids id
      simp only [occurrences, PrefixTables.runPosted, List.countP_nil] at hbound ⊢
      omega
    · have hbound := hrest.calls number
      simp only [answers, PrefixTables.runPosted, List.countP_nil] at hbound ⊢
      omega
    · simp [PrefixTables.runPosted] at hmem
  | asyncShutdown => exact hrest.clear

/-- An answered command is no longer pending. Its iterator points to a record in the table, or to
one whose unregistration has succeeded before. -/
theorem answer {index : ℕ} {rest : PrefixTables}
    (hanswer : face.answer index = some (command, rest)) :
    face.commands[index]? = some command ∧ rest = { face with commands := rest.commands } ∧
      Accounted rest ∧
      (∀ id, command.registers id = true → rest.occurrences id < allowance rest.nextId id) ∧
      (∀ number, command.answersCall number = true →
        rest.answers number < allowance rest.nextCall number) ∧
      ∀ item call, command = .unregister item call →
        (∃ record ∈ rest.registeredPrefixTable, record.id = item) ∨ item ∈ rest.succeeded := by
  obtain ⟨found, hget, heq⟩ := Option.map_eq_some_iff.mp hanswer
  obtain ⟨rfl, rfl⟩ := Prod.mk.inj heq
  obtain ⟨hindex, rfl⟩ := List.getElem?_eq_some_iff.mp hget
  have hperm := List.getElem_cons_eraseIdx_perm hindex
  have hcount (p : Command → Bool) : face.commands.countP p =
      (face.commands.eraseIdx index).countP p + if p face.commands[index] then 1 else 0 := by
    rw [← hperm.countP_eq p, List.countP_cons]
  have hid := hinv.ids
  have hcall := hinv.calls
  simp only [occurrences, answers, hcount] at hid hcall
  refine ⟨hget, rfl, ⟨fun id ↦ ?_, fun number ↦ ?_, ?_, hinv.gone⟩, fun id hregisters ↦ ?_,
    fun number hanswers ↦ ?_, ?_⟩
  · have hbound := hid id
    simp only [occurrences]
    omega
  · have hbound := hcall number
    simp only [answers]
    omega
  · intro item call hmem
    exact hinv.iterators item call (hperm.subset (List.mem_cons_of_mem _ hmem))
  · have hbound := hid id
    rw [if_pos hregisters] at hbound
    simp only [occurrences]
    omega
  · have hbound := hcall number
    rw [if_pos hanswers] at hbound
    simp only [answers]
    omega
  · intro item call heq
    exact hinv.iterators item call (heq ▸ List.getElem_mem hindex)

theorem afterPrefixRegistered (hid : face.occurrences record.id < allowance face.nextId record.id) :
    Accounted (face.afterPrefixRegistered record) where
  ids id := by
    have hold := hinv.ids id
    simp only [occurrences, PrefixTables.afterPrefixRegistered, List.countP_append,
      List.countP_singleton, beq_iff_eq] at hold hid ⊢
    split_ifs with hsame
    · subst hsame
      omega
    · omega
  calls := hinv.calls
  iterators item call hmem := by
    refine (hinv.iterators item call hmem).imp_left ?_
    rintro ⟨other, hother, rfl⟩
    exact ⟨other, List.mem_append_left _ hother, rfl⟩
  gone := hinv.gone

/-- A record is not both in the table and removed. -/
theorem not_mem_removed (hmem : record ∈ face.registeredPrefixTable) :
    record.id ∉ face.removed := by
  intro hremoved
  have hbound := (hinv.ids record.id).trans (allowance_le_one _ _)
  have htable : 0 < face.registeredPrefixTable.countP fun other ↦ other.id == record.id :=
    List.countP_pos_iff.mpr ⟨record, hmem, beq_self_eq_true _⟩
  have hgone : 0 < face.removed.count record.id := List.count_pos_iff.mpr hremoved
  simp only [occurrences] at hbound
  omega

/-- The iterator of a command is invalid exactly if an unregistration of the record has succeeded. -/
theorem mem_succeeded_iff
    (hitem : (∃ record ∈ face.registeredPrefixTable, record.id = item) ∨ item ∈ face.succeeded) :
    item ∈ face.succeeded ↔
      (face.registeredPrefixTable.any fun record ↦ record.id == item) = false := by
  rw [List.any_eq_false]
  constructor
  · rintro hsucceeded record hmem heq
    obtain rfl : record.id = item := by simpa using heq
    exact hinv.not_mem_removed hmem (hinv.gone _ hsucceeded)
  · intro hnone
    apply hitem.resolve_left
    rintro ⟨record, hmem, rfl⟩
    exact hnone record hmem (beq_self_eq_true _)

theorem finalizeUnregisterPrefix
    (hcall : face.answers call.number < allowance face.nextCall call.number)
    (hok : ({ face with succeeded := face.succeeded ++ [item] } :
      PrefixTables).finalizeUnregisterPrefix item call = .ok next) : Accounted next := by
  unfold PrefixTables.finalizeUnregisterPrefix at hok
  split_ifs at hok with hany
  obtain rfl := Except.ok.inj hok
  refine callBack ?_ hcall
  refine ⟨fun id ↦ ?_, hinv.calls, fun other call hmem ↦ ?_, fun other hmem ↦ ?_⟩
  · obtain ⟨record, hmem, hrecord⟩ := List.any_eq_true.mp hany
    obtain ⟨erased, before, after, -, herased, htable, hrest⟩ :=
      List.exists_of_eraseP (p := fun record ↦ record.id == item) hmem hrecord
    dsimp only at htable hrest
    obtain rfl : erased.id = item := by simpa using herased
    have hcount : (face.registeredPrefixTable.eraseP fun record ↦ record.id == erased.id).countP
        (fun record ↦ record.id == id) + (if (erased.id == id) = true then 1 else 0) =
          face.registeredPrefixTable.countP fun record ↦ record.id == id := by
      rw [hrest, htable]
      simp only [List.countP_append, List.countP_cons]
      omega
    have hbound := hinv.ids id
    simp only [occurrences, List.count_append, List.count_singleton] at hbound ⊢
    omega
  · rcases hinv.iterators other call hmem with ⟨record, hrecord, rfl⟩ | hsucceeded
    · by_cases hsame : record.id = item
      · exact .inr (by simp [hsame])
      · refine .inl ⟨record, ?_, rfl⟩
        exact (List.mem_eraseP_of_neg (by simpa using hsame)).mpr hrecord
    · exact .inr (List.mem_append_left _ hsucceeded)
  · rcases List.mem_append.mp hmem with hmem | hmem
    · exact List.mem_append_left _ (hinv.gone other hmem)
    · exact List.mem_append_right _ hmem

theorem perform (hok : face.perform sends event = .ok next) : Accounted next := by
  cases event with
  | setInterestFilter namePrefix hasFailure isSameThread =>
    obtain rfl := Except.ok.inj hok
    apply registerPrefix
    exact ⟨hinv.ids, hinv.calls, hinv.iterators, hinv.gone⟩
  | registerPrefix namePrefix hasFailure isSameThread =>
    obtain rfl := Except.ok.inj hok
    exact hinv.registerPrefix
  | setInterestFilterOnly =>
    obtain rfl := Except.ok.inj hok
    exact post ⟨hinv.ids, hinv.calls, hinv.iterators, hinv.gone⟩ (by simp [Posted.registers])
      (by simp [Posted.answersCall])
  | unsetInterestFilter filter =>
    obtain rfl := Except.ok.inj hok
    exact hinv.post (by simp [Posted.registers]) (by simp [Posted.answersCall])
  | unregisterPrefix id hasSuccess hasFailure =>
    obtain rfl := Except.ok.inj hok
    obtain ⟨hcreated, hroom⟩ := hinv.newCall
    apply hcreated.post (by simp [Posted.registers])
    intro number hnumber
    obtain rfl : face.nextCall = number := by simpa [Posted.answersCall] using hnumber
    exact hroom
  | removeAllPendingInterests =>
    obtain rfl := Except.ok.inj hok
    exact hinv.post (by simp [Posted.registers]) (by simp [Posted.answersCall])
  | shutdown =>
    obtain rfl := Except.ok.inj hok
    exact hinv.post (by simp [Posted.registers]) (by simp [Posted.answersCall])
  | runPosted =>
    simp only [PrefixTables.perform] at hok
    split at hok
    · cases hok
    · rename_i handler later hposted
      obtain rfl := Except.ok.inj hok
      exact hinv.runPosted hposted
  | commandSucceeds index =>
    simp only [PrefixTables.perform] at hok
    split at hok
    · cases hok
    · rename_i command rest hanswer
      obtain ⟨-, -, hrest, hid, hcall, -⟩ := hinv.answer hanswer
      cases command with
      | register record hasFailure =>
        obtain rfl := Except.ok.inj hok
        exact hrest.afterPrefixRegistered (hid record.id (by simp [Command.registers]))
      | unregister item call =>
        exact hrest.finalizeUnregisterPrefix (hcall call.number (by simp [Command.answersCall])) hok
  | commandFails index =>
    simp only [PrefixTables.perform] at hok
    split at hok
    · cases hok
    · rename_i command rest hanswer
      obtain ⟨-, -, hrest, -, hcall, -⟩ := hinv.answer hanswer
      obtain rfl := Except.ok.inj hok
      cases command with
      | register record hasFailure =>
        simp only [PrefixTables.commandFails]
        split_ifs
        · exact hrest
        · exact hrest.clear
      | unregister item call =>
        simp only [PrefixTables.commandFails]
        split_ifs
        · exact hrest.callBack (hcall call.number (by simp [Command.answersCall]))
        · exact hrest.clear
  | exception =>
    obtain rfl := Except.ok.inj hok
    exact hinv.clear

end

end Accounted

/-! ## Runs -/

/-- The event is not the success of an unregistration of a record for which one has succeeded
before. -/
def IsFirstSuccess (face : PrefixTables) : Event → Prop
  | .commandSucceeds index => ∀ item call,
      face.commands[index]? = some (.unregister item call) → item ∉ face.succeeded
  | _ => True

theorem finalizeUnregisterPrefix_eq_error_iff {face : PrefixTables} :
    face.finalizeUnregisterPrefix item call = .error .invalidIterator ↔
      (face.registeredPrefixTable.any fun record ↦ record.id == item) = false := by
  unfold finalizeUnregisterPrefix
  split_ifs with hany
  · simp [hany]
  · simpa using hany

theorem Accounted.perform_eq_invalidIterator_iff {face : PrefixTables} (hinv : Accounted face) :
    face.perform sends event = .error .invalidIterator ↔ ¬ face.IsFirstSuccess event := by
  cases event with
  | commandSucceeds index =>
    simp only [PrefixTables.perform]
    split
    · rename_i hanswer
      have hnone : face.commands[index]? = none := by
        simpa [PrefixTables.answer] using hanswer
      simp [IsFirstSuccess, hnone]
    · rename_i command rest hanswer
      obtain ⟨hget, hrest, hinvRest, -, -, hitem⟩ := hinv.answer hanswer
      have hsucceeded : rest.succeeded = face.succeeded := by rw [hrest]
      cases command with
      | register record hasFailure => simp [IsFirstSuccess, hget, commandSucceeds]
      | unregister item call =>
        have hiff := hinvRest.mem_succeeded_iff (hitem item call rfl)
        rw [hsucceeded] at hiff
        have herror : rest.commandSucceeds (.unregister item call) = .error .invalidIterator ↔
            item ∈ face.succeeded :=
          finalizeUnregisterPrefix_eq_error_iff.trans hiff.symm
        rw [herror]
        simp [IsFirstSuccess, hget]
  | runPosted =>
    simp only [PrefixTables.perform, IsFirstSuccess, not_true_eq_false, iff_false]
    split <;> simp
  | commandFails index =>
    simp only [PrefixTables.perform, IsFirstSuccess, not_true_eq_false, iff_false]
    split <;> simp
  | setInterestFilter | registerPrefix | setInterestFilterOnly | unsetInterestFilter
  | unregisterPrefix | removeAllPendingInterests | shutdown | exception =>
    simp [PrefixTables.perform, IsFirstSuccess]

theorem accounted_of_run {face : PrefixTables}
    (hrun : run (step sends) initial events = some face) : Accounted face :=
  invariant_of_run (fun _ face ↦ Accounted face)
    (fun _ _ _ _ hinv hstep ↦ hinv.perform (toOption_eq_some_iff.mp hstep)) accounted_initial hrun

/-- In every run no record is removed twice, no removed record is in the table, and every call of
`unregisterPrefix` is answered at most once. An event then erases by an invalid iterator exactly if
it is the success of an unregistration after that of another one for the same record. -/
theorem removed_once_of_run {face : PrefixTables}
    (hrun : run (step sends) initial events = some face) :
    face.removed.Nodup ∧ (∀ record ∈ face.registeredPrefixTable, record.id ∉ face.removed) ∧
      face.called.Nodup ∧
      ∀ event, face.perform sends event = .error .invalidIterator ↔ ¬ face.IsFirstSuccess event := by
  have hinv := accounted_of_run hrun
  refine ⟨List.nodup_iff_count_le_one.mpr fun id ↦ ?_, fun record ↦ hinv.not_mem_removed,
    List.nodup_iff_count_le_one.mpr fun number ↦ ?_,
    fun event ↦ hinv.perform_eq_invalidIterator_iff⟩
  · have hbound := (hinv.ids id).trans (allowance_le_one _ _)
    simp only [occurrences] at hbound
    omega
  · have hbound := (hinv.calls number).trans (allowance_le_one _ _)
    simp only [answers] at hbound
    omega

/-- A prefix is registered; one command to unregister it fails, and one succeeds. -/
def failedAndRepeated : List Event :=
  [.setInterestFilter [] true false, .runPosted, .commandSucceeds 0, .unregisterPrefix 0 true true,
    .runPosted, .commandFails 0, .unregisterPrefix 0 true true, .runPosted, .commandSucceeds 0]

theorem removed_once_of_failedAndRepeated :
    ∃ face, run (step fun _ _ ↦ true) initial failedAndRepeated = some face ∧
      face.removed = [0] ∧ face.called = [0, 1] ∧ face.interestFilterTable = [] ∧
      face.called.Nodup := by
  have hrun : ∃ face, run (step fun _ _ ↦ true) initial failedAndRepeated = some face ∧
      face.removed = [0] ∧ face.called = [0, 1] ∧ face.interestFilterTable = [] :=
    ⟨_, rfl, rfl, rfl, rfl⟩
  obtain ⟨face, hface, hremoved, hcalled, hfilters⟩ := hrun
  exact ⟨face, hface, hremoved, hcalled, hfilters, (removed_once_of_run hface).2.2.1⟩

/-- Both commands are sent before the first one is answered, and both succeed. -/
def sentTwice : List Event :=
  [.setInterestFilter [] true false, .runPosted, .commandSucceeds 0, .unregisterPrefix 0 true true,
    .unregisterPrefix 0 true true, .runPosted, .runPosted, .commandSucceeds 0]

/-- The second completion erases by the iterator of the record that the first one has erased. -/
theorem invalidIterator_of_sentTwice :
    ∃ face, run (step fun _ _ ↦ true) initial sentTwice = some face ∧ face.removed = [0] ∧
      face.perform (fun _ _ ↦ true) (.commandSucceeds 0) = .error .invalidIterator :=
  ⟨_, rfl, rfl, rfl⟩

end NdnCxx.PrefixTables
