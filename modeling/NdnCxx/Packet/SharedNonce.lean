import NdnCxx.Packet.SharedBuffers

/-!
# Nonces in shared buffers

The Interests of a program and the buffers that they refer to. Interests are copied and decoded from
the same packet, so a nonce that is set through one of them may be read through another. Which
assignments can be seen through a given Interest is a matter of where its wire and its nonce lie: no
other event reaches a byte of them.
-/

namespace NdnCxx.Packet

/-- The buffers and all Interests that refer to them. -/
structure Memory where
  buffers : Buffers
  interests : List SharedInterest
  deriving DecidableEq

namespace Memory

def empty : Memory := ⟨⟨[]⟩, []⟩

/-- What can happen: a packet is received, or assembled of elements and encoded, an Interest is
constructed, copied or assigned, or a function of one is called. -/
inductive Event
  | receive (packet : Bytes)
  | assemble (type : ℕ) (elements : List SharedBlock)
  | create (name : Name) (interestLifetime : ℤ)
  | construct (packet : SharedPacket)
  | copy (source : ℕ)
  | assign (target source : ℕ)
  | call (target : ℕ) (call : SharedInterest.Call)

/-- The event does not assign to this Interest; asking it for its nonce and its wire is no
assignment. -/
def Event.leaves (index : ℕ) : Event → Bool
  | assign target _ => target != index
  | call _ (.getNonce _) => true
  | call _ (.wireEncode _) => true
  | call target _ => target != index
  | _ => true

/-- The memory after an event that does not throw. -/
def step (memory : Memory) : Event → Option Memory
  | .receive packet => some { memory with buffers := memory.buffers.allocate packet }
  | .assemble type elements =>
      let assembled := Block.ofElements type (elements.map (SharedBlock.toBlock memory.buffers))
      some { memory with buffers := memory.buffers.allocate assembled.wire }
  | .create name interestLifetime =>
      some { memory with
        interests := memory.interests ++
          [{ name := name, interestLifetime := interestLifetime }] }
  | .construct packet =>
      if packet.IsIn memory.buffers then do
        let decoded ← (SharedInterest.wireDecode memory.buffers packet).toOption
        return { memory with interests := memory.interests ++ [decoded] }
      else none
  | .copy source => do
      let interest ← memory.interests[source]?
      return { memory with interests := memory.interests ++ [interest] }
  | .assign target source => do
      let interest ← memory.interests[source]?
      return { memory with interests := memory.interests.set target interest }
  | .call target call => do
      let interest ← memory.interests[target]?
      let (buffers, next) ← interest.perform memory.buffers call
      return ⟨buffers, memory.interests.set target next⟩

/-- What an Interest answers: its nonce, and the bytes of its wire. -/
def reading (random : UInt32) (memory : Memory) (index : ℕ) :
    Option (Except Error ℕ × Except Error Bytes) :=
  memory.interests[index]?.map fun interest ↦
    ((interest.getNonce memory.buffers random).map Prod.fst,
      (interest.wireEncode memory.buffers random).map Prod.fst)

def HasWire (memory : Memory) (index : ℕ) : Prop :=
  ∃ interest, memory.interests[index]? = some interest ∧ interest.wire.isSome = true

/-- Whatever happens to other Interests, this one answers the same after each event. -/
def KeepsReading (random : UInt32) (memory : Memory) (index : ℕ) (events : List Event) : Prop :=
  ∀ before after later, events = before ++ after → Run.run step memory before = some later →
    reading random later index = reading random memory index

/-- What an event writes over, and the bytes that it puts there: a nonce set in the stored wire. -/
def overwritten (memory : Memory) : Event → Option (Slice × Bytes)
  | .call target (.setNonce nonce) =>
      (memory.interests[target]?.bind SharedInterest.patched).map fun value ↦
        (value, wordBytes nonce)
  | .call target (.refreshNonce newNonce) =>
      (memory.interests[target]?.bind SharedInterest.patched).map fun value ↦
        (value, wordBytes newNonce)
  | _ => none

/-- An event puts nothing new into the wire and the nonce of an Interest: it writes over nothing, or
over bytes that are in neither, or what it writes is there already. -/
def Spares (memory : Memory) (index : ℕ) (event : Event) : Prop :=
  ∀ interest ∈ memory.interests[index]?, ∀ patch ∈ memory.overwritten event,
    (∀ wire ∈ interest.wire, memory.buffers.Spares patch.1 patch.2 wire.wire) ∧
      ∀ nonce ∈ interest.nonce, memory.buffers.Spares patch.1 patch.2 nonce.value

/-- The nonce is an element of the wire, or one of four bytes that lies in another buffer. -/
def ShowsNonce (memory : Memory) (index : ℕ) : Prop :=
  ∀ interest ∈ memory.interests[index]?, ∀ wire ∈ interest.wire, ∀ nonce ∈ interest.nonce,
    nonce.wire.IsWithin wire.wire ∨ nonce.valueSize = 4

/-! ## Where the blocks lie -/

def IsIn (memory : Memory) : Prop :=
  ∀ interest ∈ memory.interests, interest.IsIn memory.buffers

variable {memory next : Memory}

/-- The effect of an event on the buffers: some are added, or a part of one is overwritten. -/
def Affects (memory : Memory) (event : Event) (later : Buffers) : Prop :=
  memory.overwritten event = none ∧ memory.buffers.Extends later ∨
    ∃ value cells, memory.overwritten event = some (value, cells) ∧ memory.buffers.Holds value ∧
      cells.length = value.last - value.first ∧ later = memory.buffers.overwrite value cells

variable {event : Event} {interest : SharedInterest} {index : ℕ} {later buffers : Buffers}
    {call : SharedInterest.Call} {interests : List SharedInterest} {events : List Event}
    {wire : SharedBlock}

theorem Affects.keepsSlices (haffects : memory.Affects event later) :
    memory.buffers.KeepsSlices later := by
  rcases haffects with ⟨-, hextends⟩ | ⟨value, cells, -, hholds, hlength, rfl⟩
  · exact hextends.keepsSlices
  · intro slice hslice
    exact BufferStore.holds_overwrite hholds hlength hslice

/-- Setting a nonce overwrites that of the stored wire, or makes a new block. -/
theorem affects_setNonce {nonce : UInt32} (hin : interest.IsIn memory.buffers)
    (hevent : memory.overwritten event = interest.patched.map fun value ↦ (value, wordBytes
      nonce)) : memory.Affects event (interest.setNonce memory.buffers nonce).1 := by
  cases hpatched : interest.patched with
  | none =>
    left
    rw [hevent, hpatched, SharedInterest.setNonce_of_not_patched hpatched]
    exact ⟨rfl, memory.buffers.extends_allocate _⟩
  | some value =>
    obtain ⟨hholds, hlength⟩ := SharedInterest.holds_patched hin hpatched nonce
    right
    rw [hevent, hpatched, SharedInterest.setNonce_of_patched hpatched]
    exact ⟨value, wordBytes nonce, rfl, hholds, hlength, rfl⟩

/-- A call of a function of an Interest. -/
theorem affects_perform {next : SharedInterest} {target : ℕ} (hin : interest.IsIn memory.buffers)
    (hinterest : memory.interests[target]? = some interest)
    (hperform : interest.perform memory.buffers call = some (later, next)) :
    memory.Affects (.call target call) later := by
  have hsame := BufferStore.Extends.refl memory.buffers
  rcases SharedInterest.perform_cases hperform with ⟨hnone, rfl, rfl⟩ | ⟨nonce, hcall, hset⟩ |
    ⟨random, rfl, hensured⟩ | ⟨random, bytes, rfl, hencode⟩ | ⟨packet, rfl, -, rfl, -⟩ |
    ⟨mutator, rfl, rfl, -⟩
  · refine Or.inl ⟨?_, hsame⟩
    cases call <;> simp [overwritten, hinterest, SharedInterest.patched, hnone]
  · obtain ⟨rfl, rfl⟩ := Prod.mk.inj hset
    apply affects_setNonce hin
    rcases hcall with rfl | rfl <;> simp [overwritten, hinterest]
  · obtain ⟨rfl, rfl⟩ := Prod.mk.inj hensured
    exact Or.inl ⟨rfl, (SharedInterest.isIn_ensureNonce hin random).1⟩
  · exact Or.inl ⟨rfl, (SharedInterest.isIn_wireEncode hin hencode).1⟩
  · exact Or.inl ⟨rfl, hsame⟩
  · exact Or.inl ⟨rfl, hsame⟩

/-- Interests that stay refer to the same blocks, wherever these lie. -/
theorem isIn_set (hin : ∀ other ∈ interests, other.IsIn buffers)
    (hinterest : interest.IsIn buffers) :
    ∀ other ∈ interests.set index interest, other.IsIn buffers := by
  intro other hmem
  rcases List.mem_or_eq_of_mem_set hmem with hold | rfl
  · exact hin other hold
  · exact hinterest

theorem isIn_append (hin : ∀ other ∈ interests, other.IsIn buffers)
    (hinterest : interest.IsIn buffers) :
    ∀ other ∈ interests ++ [interest], other.IsIn buffers := by
  intro other hmem
  rcases List.mem_append.mp hmem with hold | hnew
  · exact hin other hold
  · rw [List.mem_singleton.mp hnew]
    exact hinterest

/-- What one event does: the blocks of all Interests stay in the buffers, which it affects at most
where it sets a nonce. -/
theorem isIn_step (hin : memory.IsIn) (hstep : memory.step event = some next) :
    next.IsIn ∧ memory.Affects event next.buffers := by
  have hsame := BufferStore.Extends.refl memory.buffers
  cases event with
  | receive packet =>
    obtain rfl := Option.some.inj hstep
    have hextends := memory.buffers.extends_allocate packet
    exact ⟨fun interest hmem ↦ (hin interest hmem).mono hextends.keepsSlices, Or.inl ⟨rfl, hextends⟩⟩
  | assemble type elements =>
    obtain rfl := Option.some.inj hstep
    have hextends := memory.buffers.extends_allocate
      (Block.ofElements type (elements.map (SharedBlock.toBlock memory.buffers))).wire
    exact ⟨fun interest hmem ↦ (hin interest hmem).mono hextends.keepsSlices, Or.inl ⟨rfl, hextends⟩⟩
  | create name interestLifetime =>
    obtain rfl := Option.some.inj hstep
    have hcreated : SharedInterest.IsIn memory.buffers
        { name := name, interestLifetime := interestLifetime } :=
      SharedInterest.isIn_of_wire_eq_none (by simp) (by simp) rfl
    exact ⟨isIn_append hin hcreated, Or.inl ⟨rfl, hsame⟩⟩
  | construct packet =>
    simp only [step] at hstep
    split_ifs at hstep with hpacket
    obtain ⟨decoded, hdecode, hnext⟩ := Option.bind_eq_some_iff.mp hstep
    obtain rfl := Option.some.inj hnext
    have hdecoded := SharedInterest.isIn_of_wireDecode hpacket (toOption_eq_some_iff.mp hdecode)
    exact ⟨isIn_append hin hdecoded, Or.inl ⟨rfl, hsame⟩⟩
  | copy source =>
    obtain ⟨copied, hsource, hnext⟩ := Option.bind_eq_some_iff.mp hstep
    obtain rfl := Option.some.inj hnext
    exact ⟨isIn_append hin (hin copied (List.mem_of_getElem? hsource)), Or.inl ⟨rfl, hsame⟩⟩
  | assign target source =>
    obtain ⟨assigned, hsource, hnext⟩ := Option.bind_eq_some_iff.mp hstep
    obtain rfl := Option.some.inj hnext
    exact ⟨isIn_set hin (hin assigned (List.mem_of_getElem? hsource)), Or.inl ⟨rfl, hsame⟩⟩
  | call target call =>
    obtain ⟨interest, hinterest, hnext⟩ := Option.bind_eq_some_iff.mp hstep
    obtain ⟨⟨later, called⟩, hperform, hnext⟩ := Option.bind_eq_some_iff.mp hnext
    obtain rfl := Option.some.inj hnext
    have hcaller := hin interest (List.mem_of_getElem? hinterest)
    have haffects := affects_perform hcaller hinterest hperform
    exact ⟨isIn_set (fun other hmem ↦ (hin other hmem).mono haffects.keepsSlices)
      (SharedInterest.isIn_perform hcaller hperform), haffects⟩

/-- In every run the Interests refer to buffers that are there. -/
theorem isIn_of_run (hrun : Run.run step empty events = some memory) : memory.IsIn := by
  apply Run.invariant_of_run (fun _ memory ↦ memory.IsIn) _ (fun interest hmem ↦ ?_) hrun
  · intro past memory event next hin hstep
    exact (isIn_step hin hstep).1
  · cases hmem

/-! ## Reading an Interest -/

/-- An Interest with a wire is not changed by being asked. -/
theorem perform_eq_self {next : SharedInterest} (hin : interest.IsIn buffers)
    (hwire : interest.wire = some wire)
    (hcall : (∃ random, call = .getNonce random) ∨ ∃ random, call = .wireEncode random)
    (hperform : interest.perform buffers call = some (later, next)) : next = interest := by
  obtain ⟨nonce, hnonce, -⟩ := hin.nonce_placed wire hwire
  have hsome : interest.nonce = some nonce := hnonce
  rcases hcall with ⟨random, rfl⟩ | ⟨random, rfl⟩
  · obtain ⟨result, hget, hresult⟩ := Option.map_eq_some_iff.mp hperform
    rw [toOption_eq_some_iff, SharedInterest.getNonce_of_nonce hsome] at hget
    cases hnumber : Interest.nonceNumber (nonce.toBlock buffers) with
    | error fault =>
      rw [hnumber] at hget
      cases hget
    | ok number =>
      rw [hnumber] at hget
      obtain rfl := Except.ok.inj hget
      exact (Prod.mk.inj hresult).2.symm
  · obtain ⟨result, hencode, hresult⟩ := Option.map_eq_some_iff.mp hperform
    rw [toOption_eq_some_iff, SharedInterest.wireEncode_of_wire hwire] at hencode
    obtain rfl := Except.ok.inj hencode
    exact (Prod.mk.inj hresult).2.symm

/-- An event that leaves an Interest leaves its references. -/
theorem interests_of_step (hin : memory.IsIn) (hinterest : memory.interests[index]? = some interest)
    (hwire : interest.wire = some wire) (hleaves : event.leaves index = true)
    (hstep : memory.step event = some next) : next.interests[index]? = some interest := by
  have happend : ∀ others, (memory.interests ++ others)[index]? = some interest := by
    intro others
    rw [List.getElem?_append_left (List.getElem?_eq_some_iff.mp hinterest).1, hinterest]
  cases event with
  | receive packet =>
    obtain rfl := Option.some.inj hstep
    exact hinterest
  | assemble type elements =>
    obtain rfl := Option.some.inj hstep
    exact hinterest
  | create name interestLifetime =>
    obtain rfl := Option.some.inj hstep
    exact happend _
  | construct packet =>
    simp only [step] at hstep
    split_ifs at hstep
    obtain ⟨decoded, -, hnext⟩ := Option.bind_eq_some_iff.mp hstep
    obtain rfl := Option.some.inj hnext
    exact happend _
  | copy source =>
    obtain ⟨copied, -, hnext⟩ := Option.bind_eq_some_iff.mp hstep
    obtain rfl := Option.some.inj hnext
    exact happend _
  | assign target source =>
    obtain ⟨assigned, -, hnext⟩ := Option.bind_eq_some_iff.mp hstep
    obtain rfl := Option.some.inj hnext
    have hne : target ≠ index := by simpa [Event.leaves] using hleaves
    rw [List.getElem?_set_ne hne, hinterest]
  | call target call =>
    obtain ⟨called, hcalled, hnext⟩ := Option.bind_eq_some_iff.mp hstep
    obtain ⟨⟨later, result⟩, hperform, hnext⟩ := Option.bind_eq_some_iff.mp hnext
    obtain rfl := Option.some.inj hnext
    by_cases htarget : target = index
    · subst htarget
      obtain rfl : interest = called := Option.some.inj (hinterest.symm.trans hcalled)
      have hasks : (∃ random, call = .getNonce random) ∨ ∃ random, call = .wireEncode random := by
        cases call with
        | getNonce random => exact Or.inl ⟨random, rfl⟩
        | wireEncode random => exact Or.inr ⟨random, rfl⟩
        | _ => simp [Event.leaves] at hleaves
      obtain rfl := perform_eq_self (hin _ (List.mem_of_getElem? hinterest)) hwire hasks hperform
      rw [List.getElem?_set_self (List.getElem?_eq_some_iff.mp hinterest).1]
    · rw [List.getElem?_set_ne htarget, hinterest]

/-- Nonces of four bytes are told apart by their numbers. -/
theorem value_eq_of_nonceNumber_eq {nonce nonce' : Block} (hlength : nonce.value.length = 4)
    (hlength' : nonce'.value.length = 4)
    (hsame : Interest.nonceNumber nonce = Interest.nonceNumber nonce') :
    nonce.value = nonce'.value := by
  rw [Interest.nonceNumber, Interest.nonceNumber, if_pos hlength, if_pos hlength'] at hsame
  have hlengths : nonce.value.reverse.length = nonce'.value.reverse.length := by
    rw [List.length_reverse, List.length_reverse, hlength, hlength']
  have hcompare : Bytes.memcmp nonce.value.reverse nonce'.value.reverse = .eq := by
    rw [Bytes.memcmp_eq_compare hlengths, Except.ok.inj hsame, compare_eq_iff_eq]
  exact List.reverse_injective (Bytes.eq_of_memcmp_eq hlengths hcompare)

/-- With a wire, an Interest answers the number of its nonce and the bytes of its wire. -/
theorem reading_eq_iff {random : UInt32} {nonce : SharedBlock}
    (hinterest : memory.interests[index]? = some interest)
    (hinterest' : next.interests[index]? = some interest) (hwire : interest.wire = some wire)
    (hnonce : interest.nonce = some nonce) :
    reading random next index = reading random memory index ↔
      Interest.nonceNumber (nonce.toBlock next.buffers) =
          Interest.nonceNumber (nonce.toBlock memory.buffers) ∧
        next.buffers.content wire.wire = memory.buffers.content wire.wire := by
  have hmap : ∀ buffers : Buffers, (interest.getNonce buffers random).map Prod.fst =
      Interest.nonceNumber (nonce.toBlock buffers) := by
    intro buffers
    rw [SharedInterest.getNonce_of_nonce hnonce]
    cases Interest.nonceNumber (nonce.toBlock buffers) with
    | error fault => rfl
    | ok number => rfl
  have hbytes : ∀ buffers : Buffers, (interest.wireEncode buffers random).map Prod.fst =
      .ok (buffers.content wire.wire) := fun buffers ↦ by
    rw [SharedInterest.wireEncode_of_wire hwire]
    rfl
  simp only [reading, hinterest, hinterest', Option.map_some, Option.some.injEq, Prod.mk.injEq, hmap,
    hbytes, Except.ok.injEq]

/-! ## Other Interests -/

/-- One event: an Interest that has a wire keeps it, and answers as before if the event spares its
wire and its nonce, and only then if it shows its nonce. -/
theorem reading_step (random : UInt32) (hin : memory.IsIn) (hwire : memory.HasWire index)
    (hleaves : event.leaves index = true) (hstep : memory.step event = some next) :
    next.HasWire index ∧ (memory.ShowsNonce index → next.ShowsNonce index) ∧
      (memory.Spares index event →
        reading random next index = reading random memory index) ∧
      (memory.ShowsNonce index → reading random next index = reading random memory index →
        memory.Spares index event) := by
  obtain ⟨interest, hinterest, hsome⟩ := hwire
  obtain ⟨wire, hwire⟩ := Option.isSome_iff_exists.mp hsome
  have hinterest' := interests_of_step hin hinterest hwire hleaves hstep
  have hlies := hin interest (List.mem_of_getElem? hinterest)
  obtain ⟨nonce, hmem, -⟩ := hlies.nonce_placed wire hwire
  have hnonce : interest.nonce = some nonce := hmem
  have hwireHolds := (hlies.wire wire hwire).holds
  have hnonceHolds := (hlies.nonce nonce hnonce).holds_value
  rw [reading_eq_iff hinterest hinterest' hwire hnonce]
  refine ⟨⟨interest, hinterest', hsome⟩, ?_, ?_⟩
  · intro hshows
    simp only [ShowsNonce, hinterest'] at hshows ⊢
    rwa [hinterest] at hshows
  rcases (isIn_step hin hstep).2 with ⟨hnothing, hextends⟩ |
    ⟨value, cells, hoverwritten, hvalue, hlength, hlater⟩
  · have hblock := SharedBlock.toBlock_eq_of_extends (hlies.nonce nonce hnonce) hextends
    exact ⟨fun _ ↦ ⟨by rw [hblock], hextends.content_eq hwireHolds⟩,
      fun _ _ ↦ by simp [Spares, hnothing]⟩
  · have hspares : memory.Spares index event ↔
        memory.buffers.Spares value cells wire.wire ∧
          memory.buffers.Spares value cells nonce.value := by
      simp [Spares, hinterest, hwire, hnonce, hoverwritten]
    have hwireSame := BufferStore.content_overwrite_eq_iff hvalue hlength hwireHolds
    have hnonceSame := BufferStore.content_overwrite_eq_iff hvalue hlength hnonceHolds
    rw [hspares, ← hwireSame, ← hnonceSame, ← hlater]
    constructor
    · rintro ⟨hwireKept, hnonceKept⟩
      refine ⟨?_, hwireKept⟩
      rw [SharedBlock.toBlock, hnonceKept]
      rfl
    · rintro hshows ⟨hnumber, hwireKept⟩
      refine ⟨hwireKept, ?_⟩
      rcases hshows interest hinterest wire hwire nonce hnonce with hwithin | hfour
      · have hinside := (SharedBlock.value_isWithin (hlies.nonce nonce hnonce)).trans hwithin
        rw [BufferStore.content_of_isWithin _ hinside, BufferStore.content_of_isWithin _ hinside,
          hwireKept]
      · have hnextIn := (isIn_step hin hstep).1 interest (List.mem_of_getElem? hinterest')
        exact value_eq_of_nonceNumber_eq
          ((SharedBlock.length_value_toBlock (hnextIn.nonce nonce hnonce)).trans hfour)
          ((SharedBlock.length_value_toBlock (hlies.nonce nonce hnonce)).trans hfour) hnumber

/-- An event that throws overwrites nothing: a nonce of four bytes is set by each call that tries. -/
theorem overwritten_of_step_eq_none (hin : memory.IsIn) (hstep : memory.step event = none) :
    memory.overwritten event = none := by
  by_contra hsome
  obtain ⟨patch, hpatch⟩ := Option.ne_none_iff_exists'.mp hsome
  cases event with
  | call target call =>
    cases call with
    | setNonce nonce =>
      obtain ⟨value, hvalue, -⟩ := Option.map_eq_some_iff.mp hpatch
      obtain ⟨interest, hinterest, -⟩ := Option.bind_eq_some_iff.mp hvalue
      simp [step, hinterest, SharedInterest.perform] at hstep
    | refreshNonce newNonce =>
      obtain ⟨value, hvalue, -⟩ := Option.map_eq_some_iff.mp hpatch
      obtain ⟨interest, hinterest, hpatched⟩ := Option.bind_eq_some_iff.mp hvalue
      obtain ⟨wire, nonce, hwire, hnonce, hsize, -⟩ :=
        SharedInterest.patched_eq_some_iff.mp hpatched
      have hlies := (hin interest (List.mem_of_getElem? hinterest)).nonce nonce hnonce
      have hnumber : Interest.nonceNumber (nonce.toBlock memory.buffers) =
          .ok (Bytes.toNumber (nonce.toBlock memory.buffers).value.reverse) := by
        rw [Interest.nonceNumber, if_pos ((SharedBlock.length_value_toBlock hlies).trans hsize)]
      simp [step, hinterest, SharedInterest.perform, SharedInterest.refreshNonce, hnonce, hnumber,
        Except.toOption, bind, Except.bind, pure, Except.pure] at hstep
    | _ => cases hpatch
  | _ => cases hpatch

/-- While only others are assigned to, the Interest keeps a wire. -/
theorem hasWire_of_run {later : Memory} (hin : memory.IsIn) (hwire : memory.HasWire index)
    (hleaves : ∀ event ∈ events, event.leaves index = true)
    (hrun : Run.run step memory events = some later) :
    later.IsIn ∧ later.HasWire index ∧ (memory.ShowsNonce index → later.ShowsNonce index) := by
  have hleft : Run.Guarded step (fun _ event ↦ event.leaves index = true) memory events :=
    Run.guarded_of_forall_mem hleaves
  apply Run.invariant_of_guarded (fun _ later ↦ later.IsIn ∧ later.HasWire index ∧
    (memory.ShowsNonce index → later.ShowsNonce index)) _ ⟨hin, hwire, id⟩ hleft hrun
  intro past memory event next hkept hallowed hstep
  obtain ⟨hnextWire, hshows, -⟩ := reading_step 0 hkept.1 hkept.2.1 hallowed hstep
  exact ⟨(isIn_step hkept.1 hstep).1, hnextWire, fun h ↦ hshows (hkept.2.2 h)⟩

/-- An Interest that has a wire answers the same after every event of a run that leaves it if each of
these events spares its wire and its nonce, and only then if it shows its nonce. -/
theorem keepsReading_iff (random : UInt32) {later : List Event}
    (hrun : Run.run step empty events = some memory) (hwire : memory.HasWire index)
    (hleaves : ∀ event ∈ later, event.leaves index = true) :
    (Run.Guarded step (fun memory event ↦ memory.Spares index event) memory later →
        memory.KeepsReading random index later) ∧
      (memory.ShowsNonce index → (memory.KeepsReading random index later ↔
        Run.Guarded step (fun memory event ↦ memory.Spares index event) memory later)) := by
  have hin := isIn_of_run hrun
  have hsufficient : Run.Guarded step (fun memory event ↦ memory.Spares index event) memory later →
      memory.KeepsReading random index later := by
    intro hguarded before after later' hsplit hbefore
    subst hsplit
    have hleft : Run.Guarded step (fun _ event ↦ event.leaves index = true) memory before :=
      Run.guarded_of_forall_mem fun event hmem ↦ hleaves event (by simp [hmem])
    have hinvariant : later'.IsIn ∧ later'.HasWire index ∧
        reading random later' index = reading random memory index := by
      apply Run.invariant_of_guarded
        (fun _ current ↦ current.IsIn ∧ current.HasWire index ∧
          reading random current index = reading random memory index) _ ⟨hin, hwire, rfl⟩
        (hleft.and hguarded.of_append) hbefore
      intro past current event next hkept hallowed hstep
      obtain ⟨hnextWire, -, hreading, -⟩ :=
        reading_step random hkept.1 hkept.2.1 hallowed.1 hstep
      exact ⟨(isIn_step hkept.1 hstep).1, hnextWire, (hreading hallowed.2).trans hkept.2.2⟩
    exact hinvariant.2.2
  refine ⟨hsufficient, fun hshows ↦ ⟨fun hkeeps ↦ ?_, hsufficient⟩⟩
  apply Run.guarded_of_forall_split
  intro before event after middle hsplit hbefore
  have hleft : ∀ other ∈ before, other.leaves index = true := fun other hmem ↦
    hleaves other (by simp [hsplit, hmem])
  obtain ⟨hmiddleIn, hmiddleWire, hmiddleShows⟩ := hasWire_of_run hin hwire hleft hbefore
  cases hstep : middle.step event with
  | none =>
    intro interest _ patch hpatch
    rw [overwritten_of_step_eq_none hmiddleIn hstep] at hpatch
    cases hpatch
  | some next =>
    have hsame := hkeeps before (event :: after) middle hsplit hbefore
    have hnext : Run.run step memory (before ++ [event]) = some next := by
      rw [Run.run_append, hbefore]
      exact Run.run_cons_eq_some.mpr ⟨next, hstep, Run.run_nil next⟩
    have hsame' := hkeeps (before ++ [event]) after next (by simp [hsplit]) hnext
    have hleft' := hleaves event (by simp [hsplit])
    exact (reading_step random hmiddleIn hmiddleWire hleft' hstep).2.2.2 (hmiddleShows hshows)
      (hsame'.trans hsame.symm)

def copied : Memory where
  buffers := ⟨[[0x05, 0x0b, 0x07, 0x03, 0x08, 0x01, 0x41, 0x0a, 0x04, 0x01, 0x00, 0x00, 0x00]]⟩
  interests := List.replicate 2
    { name := [⟨8, [0x41]⟩]
      interestLifetime := defaultInterestLifetime
      nonce := some ⟨Tlv.nonce, ⟨0, 7, 13⟩, 9⟩
      wire := some ⟨Tlv.interest, ⟨0, 0, 13⟩, 2⟩ }

theorem run_copied : Run.run step empty
    [.receive [0x05, 0x0b, 0x07, 0x03, 0x08, 0x01, 0x41, 0x0a, 0x04, 0x01, 0x00, 0x00, 0x00],
      .construct ⟨⟨Tlv.interest, ⟨0, 0, 13⟩, 2⟩, []⟩, .copy 0] = some copied := by
  decide +kernel

/-- An Interest that was assembled of an empty name and a nonce, and a copy of it. -/
def assembledTwice : Memory where
  buffers := ⟨[[0x07, 0x00], [0x0a, 0x04, 0x01, 0x00, 0x00, 0x00],
    [0x05, 0x08, 0x07, 0x00, 0x0a, 0x04, 0x01, 0x00, 0x00, 0x00]]⟩
  interests := List.replicate 2
    { interestLifetime := defaultInterestLifetime
      nonce := some ⟨Tlv.nonce, ⟨1, 0, 6⟩, 2⟩
      wire := some ⟨Tlv.interest, ⟨2, 0, 10⟩, 2⟩ }

theorem run_assembledTwice : Run.run step empty
    [.receive [0x07, 0x00], .receive [0x0a, 0x04, 0x01, 0x00, 0x00, 0x00],
      .assemble Tlv.interest [⟨Tlv.name, ⟨0, 0, 2⟩, 2⟩, ⟨Tlv.nonce, ⟨1, 0, 6⟩, 2⟩],
      .construct ⟨⟨Tlv.interest, ⟨2, 0, 10⟩, 2⟩,
        [⟨Tlv.name, ⟨0, 0, 2⟩, 2⟩, ⟨Tlv.nonce, ⟨1, 0, 6⟩, 2⟩]⟩, .copy 0] =
      some assembledTwice := by
  decide +kernel

theorem hasWire_copied : copied.HasWire 0 := ⟨_, rfl, rfl⟩

/-- The condition is met where a copy is given the nonce that it has, or has another name first. -/
theorem keepsReading_iff_copied :
    let later := [.call 1 (.setNonce 1), .call 1 (.mutate (.setName [⟨8, [0x42]⟩])),
      .call 1 (.setNonce 2), .call 0 (.wireEncode 7)]
    (Run.Guarded step (fun memory event ↦ memory.Spares 0 event) copied later →
        copied.KeepsReading 0 0 later) ∧
      (copied.ShowsNonce 0 → (copied.KeepsReading 0 0 later ↔
        Run.Guarded step (fun memory event ↦ memory.Spares 0 event) copied later)) :=
  keepsReading_iff 0 run_copied hasWire_copied (by decide)

/-- A nonce that is set in a copy is that of the original too. So are the bytes of the wire, unless
the nonce lies outside it. -/
theorem not_keepsReading_copied :
    ((∃ events, Run.run step empty events = some copied) ∧ copied.HasWire 0 ∧
      copied.interests[1]? = copied.interests[0]? ∧
      ¬ copied.KeepsReading 0 0 [.call 1 (.setNonce 2)]) ∧
    (∃ events, Run.run step empty events = some assembledTwice) ∧ assembledTwice.HasWire 0 ∧
      assembledTwice.interests[1]? = assembledTwice.interests[0]? ∧
      ¬ assembledTwice.KeepsReading 0 0 [.call 1 (.setNonce 2)] := by
  refine ⟨⟨⟨_, run_copied⟩, hasWire_copied, rfl, fun hkeeps ↦ ?_⟩,
    ⟨_, run_assembledTwice⟩, ⟨_, rfl, rfl⟩, rfl, fun hkeeps ↦ ?_⟩
  · have hsame := hkeeps [.call 1 (.setNonce 2)] [] _ rfl rfl
    revert hsame
    decide +kernel
  · have hsame := hkeeps [.call 1 (.setNonce 2)] [] _ rfl rfl
    revert hsame
    decide +kernel

end Memory

end NdnCxx.Packet
