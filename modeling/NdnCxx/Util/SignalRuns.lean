import NdnCxx.Util.Signal

/-!
# Runs of a signal

Outside an emission the slots are the connected handlers. During one they are the slots that were
visited and stay, the current one, those still to visit up to the last one of the start, and those
connected meanwhile; a current slot without its function `disconnect` is the one that leaves. The
`catch` clause does not erase such a slot, so the invariant asks of a handler that throws that it has
not disconnected itself.
-/

namespace NdnCxx

namespace Signal

/-! ## Slots around an iterator -/

section Split

variable {front back : List Slot} {current : Slot}

section

variable (hfront : ∀ slot ∈ front, slot.id ≠ current.id)
include hfront

theorem next_split : next (front ++ current :: back) current.id = back.head?.map Slot.id := by
  have hskip : ∀ slot ∈ front, (slot.id != current.id) = true := by simpa using hfront
  rw [next, List.dropWhile_append_of_pos hskip, List.dropWhile_cons_of_neg (by simp)]
  rfl

section

variable (hback : ∀ slot ∈ back, slot.id ≠ current.id)
include hback

theorem erase_split : erase (front ++ current :: back) current.id = front ++ back := by
  have hkept (slots : List Slot) (hother : ∀ slot ∈ slots, slot.id ≠ current.id) :
      slots.filter (fun slot ↦ slot.id != current.id) = slots :=
    List.filter_eq_self.mpr (by simpa using hother)
  rw [erase, List.filter_append, List.filter_cons_of_neg (by simp), hkept front hfront,
    hkept back hback]

theorem expire_split :
    expire (front ++ current :: back) current.id =
      front ++ { current with hasDisconnect := false } :: back := by
  have hkept (slots : List Slot) (hother : ∀ slot ∈ slots, slot.id ≠ current.id) :
      expire slots current.id = slots := by
    refine (List.map_congr_left fun slot hslot ↦ ?_).trans (List.map_id slots)
    rw [if_neg (hother slot hslot), id]
  have hsplit : expire (front ++ current :: back) current.id = expire front current.id ++
      { current with hasDisconnect := false } :: expire back current.id := by
    simp [expire]
  rw [hsplit, hkept front hfront, hkept back hback]

theorem any_split {property : Slot → Bool} :
    ((front ++ current :: back).any fun slot ↦ slot.id == current.id && property slot) =
      property current := by
  have hnone (slots : List Slot) (hother : ∀ slot ∈ slots, slot.id ≠ current.id) :
      (slots.any fun slot ↦ slot.id == current.id && property slot) = false := by
    refine List.any_eq_false.mpr fun slot hslot ↦ ?_
    rw [beq_eq_false_iff_ne.mpr (hother slot hslot), Bool.false_and]
    exact Bool.false_ne_true
  rw [List.any_append, List.any_cons, hnone front hfront, hnone back hback]
  simp

end

end

theorem ne_of_sorted (hsorted : ((front ++ current :: back).map Slot.id).Pairwise (· < ·)) :
    (∀ slot ∈ front, slot.id ≠ current.id) ∧ ∀ slot ∈ back, slot.id ≠ current.id := by
  rw [List.map_append, List.map_cons, List.pairwise_append, List.pairwise_cons] at hsorted
  obtain ⟨-, ⟨hafter, -⟩, hbefore⟩ := hsorted
  refine ⟨fun slot hslot ↦ ?_, fun slot hslot ↦ ?_⟩
  · exact Nat.ne_of_lt (hbefore _ (List.mem_map_of_mem hslot) _ List.mem_cons_self)
  · exact Nat.ne_of_gt (hafter _ (List.mem_map_of_mem hslot))

end Split

/-! ## The invariant -/

/-- What an emission has invoked: the handlers connected at its start, in the order in which they were
connected, up to one that threw. -/
structure Emission.IsFaithful (emission : Emission) : Prop where
  ordered : emission.connected.Pairwise (· < ·)
  invoked : emission.invoked <+: emission.connected
  all : emission.thrown = false → emission.invoked = emission.connected

/-- No emission is in progress. -/
structure Idle (signal : Signal) : Prop where
  executing : signal.executing = none
  connected : signal.slots.map Slot.id = signal.connected
  hasDisconnect : ∀ slot ∈ signal.slots, slot.hasDisconnect = true

/-- The current slot as long as its handler has not disconnected itself. -/
def kept (current : Slot) : List Slot := if current.hasDisconnect then [current] else []

/-- The handler of `current` is running; `rest` is still to be visited, and `added` is new. -/
structure Busy (signal : Signal) (front : List Slot) (current : Slot) (rest added : List Slot) :
    Prop where
  slots : signal.slots = front ++ current :: (rest ++ added)
  executing : signal.executing =
    some ⟨current.id, ((current :: rest).getLast (List.cons_ne_nil _ _)).id⟩
  currentSlot : signal.currentSlot = if current.hasDisconnect then some current.id else none
  connected : (front ++ kept current ++ rest ++ added).map Slot.id = signal.connected
  hasDisconnect : ∀ slot ∈ front ++ (rest ++ added), slot.hasDisconnect = true
  emission : signal.emission.connected = signal.emission.invoked ++ rest.map Slot.id
  ordered : signal.emission.connected.Pairwise (· < ·)

/-- What every state of a run keeps. -/
structure Invariant (signal : Signal) : Prop where
  layout : signal.Idle ∨ ∃ front current rest added, signal.Busy front current rest added
  sorted : (signal.slots.map Slot.id).Pairwise (· < ·)
  fresh : ∀ slot ∈ signal.slots, slot.id < signal.nextId
  gone : ∀ id ∈ signal.retired, id < signal.nextId ∧ id ∉ signal.connected
  emissions : ∀ emission ∈ signal.emissions, emission.IsFaithful
  late : signal.late = []

/-- A handler that throws is not single-shot and has not disconnected itself. -/
def Undisturbed (signal : Signal) (event : Event) : Prop :=
  event = .throws → ∀ loop ∈ signal.executing,
    signal.currentSlot = some loop.it ∧ signal.isSingleShot loop.it = false

instance (signal : Signal) (event : Event) : Decidable (signal.Undisturbed event) :=
  inferInstanceAs (Decidable (_ → _))

theorem invariant_initial : initial.Invariant where
  layout := .inl ⟨rfl, rfl, by simp [initial]⟩
  sorted := List.Pairwise.nil
  fresh := by simp [initial]
  gone := by simp [initial]
  emissions := by simp [initial]
  late := rfl

variable {signal : Signal} {id : ℕ}

/-- The connected handlers have slots. -/
theorem Invariant.connected_sublist (hinv : signal.Invariant) :
    List.Sublist signal.connected (signal.slots.map Slot.id) := by
  rcases hinv.layout with hidle | ⟨front, current, rest, added, hbusy⟩
  · rw [hidle.connected]
  · rw [← hbusy.connected, hbusy.slots]
    refine List.Sublist.map _ ?_
    rw [List.append_assoc, List.append_assoc]
    refine List.Sublist.append_left ?_ front
    have hkept : List.Sublist (kept current) [current] := by
      unfold kept
      split_ifs
      · exact List.Sublist.refl _
      · exact List.nil_sublist _
    exact hkept.append_right (rest ++ added)

theorem Invariant.connected_sorted (hinv : signal.Invariant) :
    signal.connected.Pairwise (· < ·) := hinv.sorted.sublist hinv.connected_sublist

theorem Invariant.lt_nextId (hinv : signal.Invariant) (hmem : id ∈ signal.slots.map Slot.id) :
    id < signal.nextId := by
  obtain ⟨slot, hslot, rfl⟩ := List.mem_map.mp hmem
  exact hinv.fresh slot hslot

/-! ## Connecting -/

theorem Invariant.connect (hinv : signal.Invariant) (isSingleShot : Bool) :
    (signal.connect isSingleShot).Invariant := by
  refine ⟨?_, ?_, ?_, ?_, hinv.emissions, hinv.late⟩
  · rcases hinv.layout with hidle | ⟨front, current, rest, added, hbusy⟩
    · refine .inl ⟨hidle.executing, ?_, ?_⟩
      · simp [Signal.connect, hidle.connected]
      · intro slot hslot
        rcases List.mem_append.mp hslot with hold | hadded
        · exact hidle.hasDisconnect slot hold
        · rw [List.mem_singleton.mp hadded]
    · refine .inr ⟨front, current, rest, added ++ [⟨signal.nextId, isSingleShot, true⟩], ?_⟩
      refine ⟨?_, hbusy.executing, hbusy.currentSlot, ?_, ?_, hbusy.emission, hbusy.ordered⟩
      · simp [Signal.connect, hbusy.slots]
      · simp only [Signal.connect, ← hbusy.connected, List.map_append, List.append_assoc,
          List.map_cons, List.map_nil]
      · intro slot hslot
        rw [← List.append_assoc, ← List.append_assoc] at hslot
        rcases List.mem_append.mp hslot with hold | hadded
        · exact hbusy.hasDisconnect slot (by rwa [List.append_assoc] at hold)
        · rw [List.mem_singleton.mp hadded]
  · simp only [Signal.connect, List.map_append, List.pairwise_append]
    refine ⟨hinv.sorted, List.pairwise_singleton _ _, ?_⟩
    intro id hid new hnew
    rw [List.mem_singleton.mp hnew]
    exact hinv.lt_nextId hid
  · intro slot hslot
    rcases List.mem_append.mp hslot with hold | hadded
    · exact Nat.lt_succ_of_lt (hinv.fresh slot hold)
    · rw [List.mem_singleton.mp hadded]
      exact Nat.lt_succ_self _
  · intro id hid
    obtain ⟨hlt, hgone⟩ := hinv.gone id hid
    refine ⟨Nat.lt_succ_of_lt hlt, ?_⟩
    intro hmem
    rcases List.mem_append.mp hmem with hold | hadded
    · exact hgone hold
    · exact Nat.ne_of_lt hlt (List.mem_singleton.mp hadded)

/-! ## Disconnecting -/

/-- Retiring changes the record only; the rest of the invariant is about the others. -/
theorem gone_retire (signal : Signal) (hsorted : signal.connected.Pairwise (· < ·))
    (hgone : ∀ id ∈ signal.retired, id < signal.nextId ∧ id ∉ signal.connected)
    (hid : id < signal.nextId) :
    ∀ other ∈ (signal.retire id).retired,
      other < signal.nextId ∧ other ∉ (signal.retire id).connected := by
  have hnodup : signal.connected.Nodup := hsorted.imp Nat.ne_of_lt
  intro other hother
  rcases List.mem_append.mp hother with hold | hadded
  · exact ⟨(hgone other hold).1, fun hmem ↦ (hgone other hold).2 (List.mem_of_mem_erase hmem)⟩
  · rw [List.mem_singleton.mp hadded]
    exact ⟨hid, fun hmem ↦ (hnodup.mem_erase_iff.mp hmem).1 rfl⟩

/-- A connection that has expired is of a handler that is no longer connected. -/
theorem Invariant.not_mem_connected (hinv : signal.Invariant)
    (hexpired : (signal.slots.any fun slot ↦ slot.id == id && slot.hasDisconnect) = false) :
    id ∉ signal.connected := by
  have hnone : ∀ slot ∈ signal.slots, slot.id = id → slot.hasDisconnect = false := by
    simpa using hexpired
  rcases hinv.layout with hidle | ⟨front, current, rest, added, hbusy⟩
  · rw [← hidle.connected]
    intro hmem
    obtain ⟨slot, hslot, hslotId⟩ := List.mem_map.mp hmem
    have hhas := hidle.hasDisconnect slot hslot
    rw [hnone slot hslot hslotId] at hhas
    cases hhas
  · rw [← hbusy.connected]
    intro hmem
    obtain ⟨slot, hslot, hslotId⟩ := List.mem_map.mp hmem
    have hhas : slot ∈ signal.slots ∧ slot.hasDisconnect = true := by
      rw [hbusy.slots]
      simp only [List.append_assoc, List.mem_append] at hslot
      rcases hslot with hslot | hslot | hslot
      · exact ⟨by simp [hslot], hbusy.hasDisconnect slot (by simp [hslot])⟩
      · unfold kept at hslot
        split_ifs at hslot with hcurrent
        · obtain rfl := List.mem_singleton.mp hslot
          exact ⟨by simp, hcurrent⟩
        · cases hslot
      · exact ⟨by simp [hslot], hbusy.hasDisconnect slot (by simp [hslot])⟩
    rw [hnone slot hhas.1 hslotId] at hhas
    cases hhas.2

theorem Invariant.retire_of_expired (hinv : signal.Invariant) (hid : id < signal.nextId)
    (hexpired : (signal.slots.any fun slot ↦ slot.id == id && slot.hasDisconnect) = false) :
    (signal.retire id).Invariant := by
  have hsame : (signal.retire id).connected = signal.connected :=
    List.erase_of_not_mem (hinv.not_mem_connected hexpired)
  refine ⟨?_, hinv.sorted, hinv.fresh, gone_retire signal hinv.connected_sorted hinv.gone hid,
    hinv.emissions, hinv.late⟩
  rcases hinv.layout with hidle | ⟨front, current, rest, added, hbusy⟩
  · exact .inl ⟨hidle.executing, hidle.connected.trans hsame.symm, hidle.hasDisconnect⟩
  · exact .inr ⟨front, current, rest, added, hbusy.slots, hbusy.executing, hbusy.currentSlot,
      hbusy.connected.trans hsame.symm, hbusy.hasDisconnect, hbusy.emission, hbusy.ordered⟩

/-- Outside an emission the slot is erased. -/
theorem Invariant.disconnect_idle (hinv : signal.Invariant) (hidle : signal.Idle) {slot : Slot}
    (hslot : slot ∈ signal.slots) :
    ({ signal with slots := erase signal.slots slot.id }.retire slot.id).Invariant := by
  obtain ⟨front, back, hsplit⟩ := List.append_of_mem hslot
  have hsorted := hinv.sorted
  rw [hsplit] at hsorted
  obtain ⟨hfront, hback⟩ := ne_of_sorted hsorted
  have herase : erase signal.slots slot.id = front ++ back := by
    rw [hsplit, erase_split hfront hback]
  have hsublist : List.Sublist (front ++ back) signal.slots := by
    rw [hsplit]
    exact List.Sublist.append_left (List.sublist_cons_self _ _) front
  have hconnected : signal.connected.erase slot.id = (front ++ back).map Slot.id := by
    rw [← hidle.connected, hsplit, List.map_append, List.map_cons,
      List.erase_append_right _ (by simpa using fun other hother ↦ hfront other hother),
      List.erase_cons_head, List.map_append]
  refine ⟨.inl ⟨hidle.executing, ?_, ?_⟩, ?_, ?_,
    gone_retire signal hinv.connected_sorted hinv.gone (hinv.fresh slot hslot),
    hinv.emissions, hinv.late⟩
  · exact (congrArg (List.map Slot.id) herase).trans hconnected.symm
  · intro other hother
    exact hidle.hasDisconnect other (hsublist.subset (herase ▸ hother))
  · have hshort := hinv.sorted.sublist (hsublist.map Slot.id)
    rwa [← herase] at hshort
  · intro other hother
    exact hinv.fresh other (hsublist.subset (herase ▸ hother))

variable {rest : List Slot}

/-- During an emission the current slot loses its function and `m_currentSlot` becomes `end()`. -/
theorem Busy.disconnect (hinv : signal.Invariant) {front added : List Slot} {current : Slot}
    (hbusy : signal.Busy front current rest added) (hhas : current.hasDisconnect = true) :
    Invariant ({ signal with currentSlot := none, slots := expire signal.slots current.id }.retire
        current.id) ∧
      Busy ({ signal with currentSlot := none, slots := expire signal.slots current.id }.retire
        current.id) front { current with hasDisconnect := false } rest added := by
  have hsorted := hinv.sorted
  rw [hbusy.slots] at hsorted
  obtain ⟨hfront, hback⟩ := ne_of_sorted hsorted
  have hexpire : expire signal.slots current.id =
      front ++ { current with hasDisconnect := false } :: (rest ++ added) := by
    rw [hbusy.slots, expire_split hfront hback]
  have hids : (expire signal.slots current.id).map Slot.id = signal.slots.map Slot.id := by
    rw [hexpire, hbusy.slots]
    simp
  have hlast : (({ current with hasDisconnect := false } :: rest).getLast
      (List.cons_ne_nil _ _)).id = ((current :: rest).getLast (List.cons_ne_nil _ _)).id := by
    cases rest with
    | nil => rfl
    | cons head tail => rfl
  have hlayout : Busy ({ signal with
      currentSlot := none, slots := expire signal.slots current.id }.retire current.id) front
      { current with hasDisconnect := false } rest added := by
    refine ⟨hexpire, ?_, rfl, ?_, hbusy.hasDisconnect, hbusy.emission, hbusy.ordered⟩
    · rw [hlast]
      exact hbusy.executing
    · have hconnected := hbusy.connected
      simp only [kept, hhas, if_true, List.map_append, List.map_cons, List.map_nil] at hconnected
      simp only [retire, kept, Bool.false_eq_true, if_false, ← hconnected, List.append_assoc,
        List.map_append, List.nil_append]
      rw [List.erase_append_right _ (by simpa using fun other hother ↦ hfront other hother),
        List.singleton_append, List.erase_cons_head]
  refine ⟨⟨.inr ⟨_, _, _, _, hlayout⟩, ?_, ?_, ?_, hinv.emissions, hinv.late⟩, hlayout⟩
  · exact hids ▸ hinv.sorted
  · intro slot hslot
    have hmem : slot.id ∈ signal.slots.map Slot.id := hids ▸ List.mem_map_of_mem hslot
    exact hinv.lt_nextId hmem
  · refine gone_retire signal hinv.connected_sorted hinv.gone ?_
    exact hinv.fresh current (by rw [hbusy.slots]; simp)

theorem disconnect_of_idle (hexecuting : signal.executing = none)
    (hhas : (signal.slots.any fun slot ↦ slot.id == id && slot.hasDisconnect) = true) :
    signal.disconnect id = some { signal with slots := erase signal.slots id } := by
  simp only [Signal.disconnect, hhas, if_true, hexecuting]

theorem disconnect_of_busy {loop : Loop} (hexecuting : signal.executing = some loop)
    (hhas : (signal.slots.any fun slot ↦ slot.id == id && slot.hasDisconnect) = true) :
    signal.disconnect id =
      if signal.currentSlot = some id then
        some { signal with currentSlot := none, slots := expire signal.slots id }
      else none := by
  simp only [Signal.disconnect, hhas, if_true, hexecuting]

variable {next : Signal}

theorem Invariant.disconnect (hinv : signal.Invariant) (hid : id < signal.nextId)
    (hnext : signal.disconnect id = some next) : (next.retire id).Invariant := by
  by_cases hhas : (signal.slots.any fun slot ↦ slot.id == id && slot.hasDisconnect) = true
  · rcases hinv.layout with hidle | ⟨front, current, rest, added, hbusy⟩
    · rw [disconnect_of_idle hidle.executing hhas] at hnext
      obtain rfl := Option.some.inj hnext
      obtain ⟨slot, hslot, hproperty⟩ := List.any_eq_true.mp hhas
      rw [Bool.and_eq_true, beq_iff_eq] at hproperty
      rw [← hproperty.1]
      exact hinv.disconnect_idle hidle hslot
    · rw [disconnect_of_busy hbusy.executing hhas, hbusy.currentSlot] at hnext
      cases hcurrentHas : current.hasDisconnect with
      | false => simp [hcurrentHas] at hnext
      | true =>
        rw [hcurrentHas, if_pos rfl] at hnext
        split_ifs at hnext with hcurrent
        obtain rfl := Option.some.inj hnext
        rw [← Option.some.inj hcurrent]
        exact (hbusy.disconnect hinv hcurrentHas).1
  · rw [Signal.disconnect, if_neg hhas] at hnext
    obtain rfl := Option.some.inj hnext
    exact hinv.retire_of_expired hid (by simpa using hhas)

/-! ## Visiting the slots -/

theorem Invariant.idle (hinv : signal.Invariant) (hexecuting : signal.executing = none) :
    signal.Idle := by
  rcases hinv.layout with hidle | ⟨front, current, rest, added, hbusy⟩
  · exact hidle
  · rw [hbusy.executing] at hexecuting
    cases hexecuting

/-- After its handler has run, the current slot stays or leaves; the other slots remain. -/
theorem Busy.erase_current (hinv : signal.Invariant) {front added : List Slot} {current : Slot}
    (hbusy : signal.Busy front current rest added) :
    (if signal.currentSlot = none then { signal with slots := erase signal.slots current.id }
      else signal) = { signal with slots := front ++ kept current ++ (rest ++ added) } := by
  have hsorted := hinv.sorted
  rw [hbusy.slots] at hsorted
  obtain ⟨hfront, hback⟩ := ne_of_sorted hsorted
  cases hhas : current.hasDisconnect with
  | false =>
    have hcurrent : signal.currentSlot = none := by rw [hbusy.currentSlot, hhas]; rfl
    have herase : erase signal.slots current.id = front ++ kept current ++ (rest ++ added) := by
      rw [hbusy.slots, erase_split hfront hback, kept, hhas, if_neg Bool.false_ne_true,
        List.append_nil]
    rw [if_pos hcurrent, herase]
  | true =>
    have hcurrent : signal.currentSlot = some current.id := by rw [hbusy.currentSlot, hhas]; rfl
    have hslots : front ++ kept current ++ (rest ++ added) = signal.slots := by
      rw [hbusy.slots, kept, hhas, if_pos rfl, List.append_assoc, List.singleton_append]
    rw [if_neg (by rw [hcurrent]; exact Option.some_ne_none _), hslots]

/-- Between two handlers the slots are the connected ones, as outside an emission. -/
theorem Busy.settled (hinv : signal.Invariant) {front added : List Slot} {current : Slot}
    (hbusy : signal.Busy front current rest added) :
    Invariant { signal with
      slots := front ++ kept current ++ (rest ++ added), executing := none } := by
  have hsublist : List.Sublist (front ++ kept current ++ (rest ++ added)) signal.slots := by
    rw [hbusy.slots, List.append_assoc]
    refine List.Sublist.append_left ?_ front
    unfold kept
    split_ifs
    · exact List.Sublist.refl _
    · exact List.sublist_cons_self _ _
  refine ⟨.inl ⟨rfl, ?_, ?_⟩, hinv.sorted.sublist (hsublist.map Slot.id),
    fun slot hslot ↦ hinv.fresh slot (hsublist.subset hslot), hinv.gone, hinv.emissions, hinv.late⟩
  · rw [← hbusy.connected]
    simp only [List.append_assoc]
  · intro slot hslot
    rcases List.mem_append.mp hslot with hvisited | hlater
    · rcases List.mem_append.mp hvisited with hfront | hcurrent
      · exact hbusy.hasDisconnect slot (List.mem_append_left _ hfront)
      · unfold kept at hcurrent
        split_ifs at hcurrent with hhas
        · rw [List.mem_singleton.mp hcurrent, hhas]
        · cases hcurrent
    · exact hbusy.hasDisconnect slot (List.mem_append_right _ hlater)

/-- The end of an emission, faithful to the handlers connected at its start. -/
theorem invariant_finish {thrown : Bool} (hsettled : Invariant { signal with executing := none })
    (hfaithful : Emission.IsFaithful { signal.emission with thrown := thrown }) :
    (signal.finish thrown).Invariant := by
  have hidle := hsettled.idle rfl
  refine ⟨.inl ⟨rfl, hidle.connected, hidle.hasDisconnect⟩, hsettled.sorted, hsettled.fresh,
    hsettled.gone, ?_, hsettled.late⟩
  intro emission hemission
  rcases List.mem_append.mp hemission with hold | hadded
  · exact hsettled.emissions emission hold
  · rw [List.mem_singleton.mp hadded]
    exact hfaithful

/-- The call of the next handler: it is connected, so it has not been retired. -/
theorem invariant_invoke {current : Slot} (front added : List Slot)
    (hsettled : Invariant { signal with executing := none })
    (hslots : signal.slots = front ++ current :: (rest ++ added))
    (hemission : signal.emission.connected =
      signal.emission.invoked ++ (current :: rest).map Slot.id)
    (hordered : signal.emission.connected.Pairwise (· < ·)) :
    (signal.invoke current.id
      ((current :: rest).getLast (List.cons_ne_nil _ _)).id).Invariant := by
  have hidle := hsettled.idle rfl
  have hmem : current ∈ signal.slots := by rw [hslots]; simp
  have hhas : current.hasDisconnect = true := hidle.hasDisconnect current hmem
  have hconnected : current.id ∈ signal.connected := by
    have hids : signal.slots.map Slot.id = signal.connected := hidle.connected
    exact hids ▸ List.mem_map_of_mem hmem
  have hlive : current.id ∉ signal.retired := fun hretired ↦
    (hsettled.gone _ hretired).2 hconnected
  refine ⟨.inr ⟨front, current, rest, added, hslots, rfl, ?_, ?_, ?_, ?_, hordered⟩,
    hsettled.sorted, hsettled.fresh, hsettled.gone, hsettled.emissions, ?_⟩
  · rw [hhas, if_pos rfl]
    rfl
  · have hids : signal.slots.map Slot.id = signal.connected := hidle.connected
    rw [hslots] at hids
    rw [kept, hhas, if_pos rfl]
    simpa [invoke] using hids
  · intro slot hslot
    refine hidle.hasDisconnect slot ?_
    change slot ∈ signal.slots
    rw [hslots]
    rcases List.mem_append.mp hslot with hfront | hback
    · exact List.mem_append_left _ hfront
    · exact List.mem_append_right _ (List.mem_cons_of_mem _ hback)
  · simp only [invoke, hemission, List.map_cons, List.append_assoc, List.singleton_append]
  · change (if current.id ∈ signal.retired then signal.late ++ [current.id] else signal.late) = []
    rw [if_neg hlive]
    exact hsettled.late

theorem emit_of_nil (hexecuting : signal.executing = none)
    (hslots : signal.slots = []) :
    signal.emit = some (finish { signal with emission := ⟨signal.connected, [], false⟩ } false) := by
  simp only [Signal.emit, hexecuting, hslots, Option.isSome_none, Bool.false_eq_true, if_false,
    List.head?_nil]

theorem emit_of_cons {head : Slot} {tail : List Slot} (hexecuting : signal.executing = none)
    (hslots : signal.slots = head :: tail) :
    signal.emit = some (invoke { signal with emission := ⟨signal.connected, [], false⟩ } head.id
      ((head :: tail).getLast (List.cons_ne_nil _ _)).id) := by
  simp only [Signal.emit, hexecuting, hslots, Option.isSome_none, Bool.false_eq_true, if_false,
    List.head?_cons, List.getLast?_eq_some_getLast (List.cons_ne_nil head tail)]

section

variable (hinv : signal.Invariant)
include hinv

theorem Invariant.emit (hnext : signal.emit = some next) : next.Invariant := by
  have hnone : signal.executing = none := by
    by_contra hsome
    rw [Signal.emit, if_pos (Option.isSome_iff_ne_none.mpr hsome)] at hnext
    cases hnext
  have hidle := hinv.idle hnone
  have hsettled : Invariant { signal with
      emission := ⟨signal.connected, [], false⟩, executing := none } :=
    ⟨.inl ⟨rfl, hidle.connected, hidle.hasDisconnect⟩, hinv.sorted, hinv.fresh, hinv.gone,
      hinv.emissions, hinv.late⟩
  cases hslots : signal.slots with
  | nil =>
    rw [emit_of_nil hnone hslots] at hnext
    obtain rfl := Option.some.inj hnext
    have hempty : signal.connected = [] := by rw [← hidle.connected, hslots]; rfl
    refine invariant_finish hsettled ⟨hinv.connected_sorted, ?_, fun _ ↦ hempty.symm⟩
    exact List.nil_prefix
  | cons head tail =>
    rw [emit_of_cons hnone hslots] at hnext
    obtain rfl := Option.some.inj hnext
    refine invariant_invoke [] [] hsettled ?_ ?_ hinv.connected_sorted
    · simpa using hslots
    · have hids := hidle.connected
      rw [hslots] at hids
      exact hids.symm

/-- The emission goes on with the next slot, or ends behind the last one of its start. -/
theorem Invariant.advance {front added : List Slot} {current : Slot}
    (hbusy : signal.Busy front current rest added) {loop : Loop}
    (hloop : signal.executing = some loop) (hnext : signal.advance loop = some next) :
    next.Invariant := by
  have hsorted := hinv.sorted
  rw [hbusy.slots] at hsorted
  obtain ⟨hfront, hback⟩ := ne_of_sorted hsorted
  rw [hbusy.executing] at hloop
  obtain rfl := Option.some.inj hloop
  have hsettled := hbusy.settled hinv
  simp only [Signal.advance, hbusy.erase_current hinv] at hnext
  cases rest with
  | nil =>
    have hlast : current.id = (List.getLast [current] (List.cons_ne_nil _ _)).id := rfl
    rw [if_pos hlast] at hnext
    obtain rfl := Option.some.inj hnext
    have hall : signal.emission.invoked = signal.emission.connected := by
      rw [hbusy.emission, List.map_nil, List.append_nil]
    have hinvoked : signal.emission.invoked <+: signal.emission.connected :=
      hall ▸ List.prefix_rfl
    exact invariant_finish hsettled ⟨hbusy.ordered, hinvoked, fun _ ↦ hall⟩
  | cons head tail =>
    have hlast : ((current :: head :: tail).getLast (List.cons_ne_nil _ _)).id ≠ current.id := by
      rw [List.getLast_cons (List.cons_ne_nil head tail)]
      exact hback _ (List.mem_append_left _ (List.getLast_mem _))
    rw [if_neg hlast.symm, hbusy.slots, next_split hfront] at hnext
    obtain rfl := Option.some.inj hnext
    rw [List.getLast_cons (List.cons_ne_nil head tail)]
    refine invariant_invoke (front ++ kept current) added hsettled ?_
      hbusy.emission hbusy.ordered
    rw [List.cons_append]

theorem Invariant.returns (hnext : signal.returns = some next) : next.Invariant := by
  rcases hinv.layout with hidle | ⟨front, current, rest, added, hbusy⟩
  · rw [Signal.returns, hidle.executing] at hnext
    cases hnext
  · have hsorted := hinv.sorted
    rw [hbusy.slots] at hsorted
    obtain ⟨hfront, hback⟩ := ne_of_sorted hsorted
    simp only [Signal.returns, hbusy.executing, Option.bind_eq_bind, Option.bind_some] at hnext
    split_ifs at hnext with hsingle
    · -- the wrapper of a single-shot handler disconnects, if the handler has not
      cases hhas : current.hasDisconnect with
      | true =>
        have hany : (signal.slots.any fun slot ↦ slot.id == current.id && slot.hasDisconnect) =
            true := by
          rw [hbusy.slots, any_split hfront hback, hhas]
        have hcurrent : signal.currentSlot = some current.id := by rw [hbusy.currentSlot, hhas]; rfl
        rw [disconnect_of_busy hbusy.executing hany, if_pos hcurrent] at hnext
        obtain ⟨hretired, hlayout⟩ := hbusy.disconnect hinv hhas
        exact hretired.advance hlayout hbusy.executing hnext
      | false =>
        have hany : (signal.slots.any fun slot ↦ slot.id == current.id && slot.hasDisconnect) =
            false := by
          rw [hbusy.slots, any_split hfront hback, hhas]
        rw [Signal.disconnect, if_neg (by rw [hany]; exact Bool.false_ne_true)] at hnext
        have hid : current.id < signal.nextId := hinv.fresh current (by rw [hbusy.slots]; simp)
        have hretired := hinv.retire_of_expired hid hany
        have hsame : (signal.retire current.id).connected = signal.connected :=
          List.erase_of_not_mem (hinv.not_mem_connected hany)
        have hlayout : (signal.retire current.id).Busy front current rest added :=
          ⟨hbusy.slots, hbusy.executing, hbusy.currentSlot, hbusy.connected.trans hsame.symm,
            hbusy.hasDisconnect, hbusy.emission, hbusy.ordered⟩
        exact hretired.advance hlayout hbusy.executing hnext
    · exact hinv.advance hbusy hbusy.executing hnext

/-- A handler that is still connected throws: its slot stays, and the emission ends. -/
theorem Invariant.throws (hundisturbed : signal.Undisturbed .throws)
    (hnext : signal.throws = some next) : next.Invariant := by
  rcases hinv.layout with hidle | ⟨front, current, rest, added, hbusy⟩
  · rw [Signal.throws, hidle.executing] at hnext
    cases hnext
  · obtain ⟨hcurrent, hsingle⟩ := hundisturbed rfl _ hbusy.executing
    have hhas : current.hasDisconnect = true := by
      by_contra hexpired
      rw [hbusy.currentSlot, if_neg hexpired] at hcurrent
      cases hcurrent
    have hslots : front ++ kept current ++ (rest ++ added) = signal.slots := by
      rw [hbusy.slots, kept, hhas, if_pos rfl, List.append_assoc, List.singleton_append]
    have hsettled := hbusy.settled hinv
    rw [hslots] at hsettled
    simp only [Signal.throws, hbusy.executing, Option.bind_eq_bind, Option.bind_some, hsingle,
      Bool.false_eq_true, if_false] at hnext
    obtain rfl := Option.some.inj hnext
    refine invariant_finish hsettled ⟨hbusy.ordered, ?_, fun hreturned ↦ ?_⟩
    · rw [hbusy.emission]
      exact List.prefix_append _ _
    · cases hreturned

theorem Invariant.step {event : Event} (hundisturbed : signal.Undisturbed event)
    (hnext : signal.step event = some next) : next.Invariant := by
  cases event with
  | connect =>
    obtain rfl := Option.some.inj hnext
    exact hinv.connect false
  | connectSingleShot =>
    obtain rfl := Option.some.inj hnext
    exact hinv.connect true
  | disconnect id =>
    simp only [Signal.step] at hnext
    split_ifs at hnext with hid
    obtain ⟨after, hafter, rfl⟩ := Option.map_eq_some_iff.mp hnext
    exact hinv.disconnect hid hafter
  | emit => exact hinv.emit hnext
  | returns => exact hinv.returns hnext
  | throws => exact hinv.throws hundisturbed hnext

end

/-! ## The contract -/

/-- What a signal promises: its emissions are faithful, also the one in progress; nothing was invoked
after it was retired, and nothing retired is connected; and outside an emission `isEmpty` says whether
a handler is connected. -/
structure Contract (signal : Signal) : Prop where
  emissions : ∀ emission ∈ signal.emissions, emission.IsFaithful
  emission : signal.executing.isSome → signal.emission.connected.Pairwise (· < ·) ∧
    signal.emission.invoked <+: signal.emission.connected
  late : signal.late = []
  gone : ∀ id ∈ signal.retired, id ∉ signal.connected
  isEmpty : signal.executing = none → (signal.isEmpty = true ↔ signal.connected = [])

theorem Invariant.contract (hinv : signal.Invariant) : signal.Contract where
  emissions := hinv.emissions
  emission := by
    intro hsome
    rcases hinv.layout with hidle | ⟨front, current, rest, added, hbusy⟩
    · rw [hidle.executing] at hsome
      cases hsome
    · refine ⟨hbusy.ordered, ?_⟩
      rw [hbusy.emission]
      exact List.prefix_append _ _
  late := hinv.late
  gone := fun id hid ↦ (hinv.gone id hid).2
  isEmpty := by
    intro hnone
    have hids := (hinv.idle hnone).connected
    simp [Signal.isEmpty, hnone, ← hids]

/-- In every run in which no handler throws that is single-shot or has disconnected itself, the signal
keeps its contract. -/
theorem emissions_of_run {events : List Event}
    (hguarded : Run.Guarded step Undisturbed initial events)
    (hrun : Run.run step initial events = some signal) : signal.Contract := by
  have hinv : signal.Invariant :=
    Run.invariant_of_guarded (fun _ state ↦ state.Invariant)
      (fun _ _ _ _ hinv hundisturbed hnext ↦ hinv.step hundisturbed hnext) invariant_initial
      hguarded hrun
  exact hinv.contract

/-- A handler that disconnects itself, one that connects another, and a single-shot one. -/
theorem emissions_of_run_selfDisconnect :
    ∃ signal, Run.run step initial
        [.connect, .connect, .connectSingleShot, .emit, .disconnect 0, .returns, .connect, .returns,
          .returns, .emit, .throws] = some signal ∧
      signal.emissions = [⟨[0, 1, 2], [0, 1, 2], false⟩, ⟨[1, 3], [1], true⟩] ∧ signal.Contract :=
  ⟨_, rfl, by decide, emissions_of_run (show Run.Guarded step Undisturbed initial
    [.connect, .connect, .connectSingleShot, .emit, .disconnect 0, .returns, .connect, .returns,
      .returns, .emit, .throws] by decide) rfl⟩

/-- A handler that disconnects itself and then throws stays in the list: it is invoked by the next
emission, and the signal is not empty. -/
theorem invoked_after_disconnect :
    ∃ signal, Run.run step initial
        [.connect, .emit, .disconnect 0, .throws, .emit, .returns] = some signal ∧
      signal.retired = [0] ∧ signal.late = [0] ∧ signal.connected = [] ∧
      signal.isEmpty = false :=
  ⟨_, rfl, by decide⟩

end Signal

end NdnCxx
