import NdnCxx.Packet.InterestWire

/-!
# States of an Interest

The public mutators of an Interest as calls, and what holds in every state they lead to: a wire that
an Interest keeps is one that it would be decoded from. The nonce is the hard case, because it is
overwritten inside the stored wire. Its four bytes stand behind the header of the packet, the elements
in front of it and its own header, and none of these change.
-/

namespace NdnCxx.Packet

namespace Interest

/-! ## Mutators -/

/-- A call of a public mutator. Blocks that are passed in have a wire. -/
inductive Call
  | setName (name : Name)
  | setInterestLifetime (interestLifetime : ℤ)
  | setSelectors (selectors : Selectors)
  | setMinSuffixComponents (minSuffixComponents : ℤ)
  | setMaxSuffixComponents (maxSuffixComponents : ℤ)
  | setPublisherPublicKeyLocator (keyLocator : KeyLocator)
  | setExclude (exclude : Exclude)
  | setChildSelector (childSelector : ℤ)
  | setMustBeFresh (mustBeFresh : Bool)
  | setNonce (nonce : UInt32)
  | getNonce (random : UInt32)
  | refreshNonce (newNonce : UInt32)
  | setLink (link : Block) (hwire : link.IsWire)
  | unsetLink
  | setSelectedDelegation (delegationName : Name)
  | setSelectedDelegationIndex (delegationIndex : ℕ)
  | unsetSelectedDelegation
  | wireDecode (wire : Block) (hwire : wire.IsWire)
  | wireDecodeAssembled (wire : Block) (elements : List Block) (hwire : wire.IsWire)

/-- The state after a call that returns normally. -/
def perform (interest : Interest) : Call → Option Interest
  | .setName name => some (interest.setName name)
  | .setInterestLifetime interestLifetime => some (interest.setInterestLifetime interestLifetime)
  | .setSelectors selectors => some (interest.setSelectors selectors)
  | .setMinSuffixComponents minSuffixComponents =>
      some (interest.setMinSuffixComponents minSuffixComponents)
  | .setMaxSuffixComponents maxSuffixComponents =>
      some (interest.setMaxSuffixComponents maxSuffixComponents)
  | .setPublisherPublicKeyLocator keyLocator =>
      some (interest.setPublisherPublicKeyLocator keyLocator)
  | .setExclude exclude => some (interest.setExclude exclude)
  | .setChildSelector childSelector => some (interest.setChildSelector childSelector)
  | .setMustBeFresh mustBeFresh => some (interest.setMustBeFresh mustBeFresh)
  | .setNonce nonce => some (interest.setNonce nonce)
  | .getNonce random => (interest.getNonce random).toOption.map Prod.snd
  | .refreshNonce newNonce => (interest.refreshNonce newNonce).toOption
  | .setLink link _ => some (interest.setLink link)
  | .unsetLink => some interest.unsetLink
  | .setSelectedDelegation delegationName =>
      (interest.setSelectedDelegation delegationName).toOption.join
  | .setSelectedDelegationIndex delegationIndex =>
      (interest.setSelectedDelegationIndex delegationIndex).toOption
  | .unsetSelectedDelegation => some interest.unsetSelectedDelegation
  | .wireDecode wire _ => (interest.wireDecode wire).toOption
  | .wireDecodeAssembled wire elements _ => (interest.wireDecodeAssembled wire elements).toOption

/-- A nonce is assigned only to an Interest that has none, which discards the wire. -/
theorem ensureNonce_cases (interest : Interest) (random : UInt32) :
    interest.ensureNonce random = interest ∨ (interest.ensureNonce random).wire = none := by
  unfold ensureNonce
  split_ifs with hsome
  · exact Or.inl rfl
  · have hnone : interest.nonce = none := by simpa using hsome
    exact Or.inr (by cases hwire : interest.wire <;> simp [setNonce, hnone, hwire])

variable {interest : Interest} {elements : List Block} {wire : Block} {next prior : Interest}
    {nonce : Block}

theorem refreshNonce_cases {newNonce : UInt32}
    (hrefresh : interest.refreshNonce newNonce = .ok next) :
    next = interest ∨ next = interest.setNonce newNonce := by
  unfold refreshNonce at hrefresh
  cases hnonce : interest.nonce with
  | none =>
    simp only [hnonce, Except.ok.injEq] at hrefresh
    exact Or.inl hrefresh.symm
  | some nonce =>
    simp only [hnonce] at hrefresh
    obtain ⟨number, -, hnext⟩ := bind_eq_ok_iff.mp hrefresh
    exact Or.inr (Except.ok.inj hnext).symm

theorem setSelectedDelegation_cases {delegationName : Name}
    (hset : interest.setSelectedDelegation delegationName = .ok (some next)) :
    ∃ link delegationIndex, interest.linkOrThrow Tlv.content = .ok link ∧
      Link.findDelegationFromWire link delegationName = .ok (some delegationIndex) ∧
      next = { interest with selectedDelegationIndex := delegationIndex, wire := none } := by
  rw [setSelectedDelegation, bind_eq_ok_iff] at hset
  obtain ⟨link, hlink, hset⟩ := hset
  rw [bind_eq_ok_iff] at hset
  obtain ⟨found, hfound, hset⟩ := hset
  obtain ⟨delegationIndex, rfl, hnext⟩ := Option.map_eq_some_iff.mp (Except.ok.inj hset)
  exact ⟨link, delegationIndex, hlink, hfound, hnext.symm⟩

theorem setSelectedDelegationIndex_cases {delegationIndex : ℕ}
    (hset : interest.setSelectedDelegationIndex delegationIndex = .ok next) :
    ∃ link decoded, interest.linkOrThrow Tlv.name = .ok link ∧
      Link.wireDecode {} link = .ok decoded ∧
      delegationIndex < decoded.delegations.entries.length ∧
      next = { interest with selectedDelegationIndex := delegationIndex, wire := none } := by
  rw [setSelectedDelegationIndex, bind_eq_ok_iff] at hset
  obtain ⟨link, hlink, hset⟩ := hset
  rw [bind_eq_ok_iff] at hset
  obtain ⟨decoded, hdecoded, hset⟩ := hset
  split_ifs at hset with hrange
  exact ⟨link, decoded, hlink, hdecoded, Nat.not_le.mp hrange, (Except.ok.inj hset).symm⟩

/-- What a call can do to the stored wire: it is discarded, or the nonce is assigned, or the object is
decoded. -/
theorem perform_cases {call : Call} (hperform : interest.perform call = some next) :
    next.wire = none ∨ next = interest ∨
      (∃ nonce, (call = .setNonce nonce ∨ call = .refreshNonce nonce) ∧
        next = interest.setNonce nonce) ∨
      (∃ wire hwire, call = .wireDecode wire hwire ∧ interest.wireDecode wire = .ok next) ∨
      ∃ wire elements hwire, call = .wireDecodeAssembled wire elements hwire ∧
        interest.wireDecodeAssembled wire elements = .ok next := by
  cases call with
  | setNonce nonce =>
    obtain rfl := Option.some.inj hperform
    exact Or.inr (Or.inr (Or.inl ⟨nonce, .inl rfl, rfl⟩))
  | getNonce random =>
    obtain ⟨⟨number, ensured⟩, hget, rfl⟩ := Option.map_eq_some_iff.mp hperform
    rw [toOption_eq_some_iff, getNonce, bind_eq_ok_iff] at hget
    obtain ⟨number', -, hget⟩ := hget
    obtain rfl : interest.ensureNonce random = ensured := congrArg Prod.snd (Except.ok.inj hget)
    rcases interest.ensureNonce_cases random with hsame | hnone
    · exact Or.inr (Or.inl hsame)
    · exact Or.inl hnone
  | refreshNonce newNonce =>
    rcases refreshNonce_cases (toOption_eq_some_iff.mp hperform) with hsame | hset
    · exact Or.inr (Or.inl hsame)
    · exact Or.inr (Or.inr (Or.inl ⟨newNonce, .inr rfl, hset⟩))
  | setSelectedDelegation delegationName =>
    have hset := toOption_eq_some_iff.mp (Option.join_eq_some_iff.mp hperform)
    obtain ⟨link, delegationIndex, -, -, rfl⟩ := setSelectedDelegation_cases hset
    exact Or.inl rfl
  | setSelectedDelegationIndex delegationIndex =>
    obtain ⟨link, decoded, -, -, -, rfl⟩ :=
      setSelectedDelegationIndex_cases (toOption_eq_some_iff.mp hperform)
    exact Or.inl rfl
  | wireDecode wire hwire =>
    exact Or.inr (Or.inr (Or.inr (Or.inl ⟨wire, hwire, rfl, toOption_eq_some_iff.mp hperform⟩)))
  | wireDecodeAssembled wire elements hwire =>
    exact Or.inr (Or.inr (Or.inr (Or.inr
      ⟨wire, elements, hwire, rfl, toOption_eq_some_iff.mp hperform⟩)))
  | _ =>
    obtain rfl := Option.some.inj hperform
    exact Or.inl rfl

/-! ## Overwriting the nonce -/

variable {block element : Block} {value : Bytes} {word : UInt32} {shared : SharedWire}

/-- The header of a wire is what its length exceeds that of the value by. -/
theorem exists_header_length (hwire : block.IsWire) :
    ∃ header, block.wire = header ++ block.value ∧
      block.wire.length - block.value.length = header.length ∧
        ∀ value : Bytes, value.length = block.value.length →
          (⟨block.type, value, header ++ value⟩ : Block).IsWire := by
  obtain ⟨header, hheader, hfits⟩ := hwire.exists_header
  refine ⟨header, hheader, ?_, hfits⟩
  rw [hheader, List.length_append, Nat.add_sub_cancel]

/-- Four bytes of a wire are overwritten where the value of an element stands. -/
theorem overwrite_wire {front back : List Block} (hblock : block.IsWire)
    (hvalue : block.value = (front ++ element :: back).flatMap Block.wire)
    (helement : element.IsWire) (hlength : value.length = element.value.length) {offset : ℕ}
    (hoffset : offset = (block.wire.length - block.value.length) +
      ((front.flatMap Block.wire).length + (element.wire.length - element.value.length))) :
    block.wire.take offset ++ (value ++ block.wire.drop (offset + value.length)) =
      block.wire.take (block.wire.length - block.value.length) ++
        (front ++ overwriteValue element value :: back).flatMap Block.wire := by
  obtain ⟨header, hheader, hcount, -⟩ := exists_header_length hblock
  obtain ⟨elementHeader, helementHeader, hcountElement, -⟩ := exists_header_length helement
  have hsplit : block.wire = (header ++ (front.flatMap Block.wire ++ elementHeader)) ++
      (element.value ++ back.flatMap Block.wire) := by
    rw [hheader, hvalue, List.flatMap_append, List.flatMap_cons, helementHeader]
    simp only [List.append_assoc]
  have hfront : (header ++ (front.flatMap Block.wire ++ elementHeader)).length = offset := by
    rw [hoffset, hcount, hcountElement]
    simp only [List.length_append]
  have htake : block.wire.take offset = header ++ (front.flatMap Block.wire ++ elementHeader) := by
    rw [hsplit]
    exact List.take_left' hfront
  have hdrop : block.wire.drop (offset + value.length) = back.flatMap Block.wire := by
    rw [hsplit, ← List.drop_drop, List.drop_left' hfront]
    exact List.drop_left' hlength.symm
  have hheaderTake : block.wire.take (block.wire.length - block.value.length) = header := by
    rw [hcount, hheader]
    exact List.take_left' rfl
  have hwritten : (overwriteValue element value).wire = elementHeader ++ value := by
    rw [overwriteValue, hcountElement, helementHeader]
    simp
  rw [htake, hdrop, hheaderTake, List.flatMap_append, List.flatMap_cons, hwritten]
  simp only [List.append_assoc]

theorem overwriteValue_isWire (helement : element.IsWire)
    (hlength : value.length = element.value.length) : (overwriteValue element value).IsWire := by
  obtain ⟨header, hheader, hcount, hfits⟩ := exists_header_length helement
  have hwritten : overwriteValue element value = ⟨element.type, value, header ++ value⟩ := by
    rw [overwriteValue, hcount, hheader]
    simp
  rw [hwritten]
  exact hfits value hlength

theorem length_wire_overwriteValue (helement : element.IsWire)
    (hlength : value.length = element.value.length) :
    (overwriteValue element value).wire.length = element.wire.length := by
  obtain ⟨header, hheader, -⟩ := helement.exists_header
  have htotal : element.wire.length = header.length + element.value.length := by
    rw [hheader, List.length_append]
  simp only [overwriteValue, List.length_append, List.length_take]
  omega

/-- Looking for other types does not notice that an element is replaced. -/
theorem find_replace {front back : List Block} {element' : Block} {type : ℕ}
    (hsame : element'.type = element.type) (hne : element.type ≠ type) :
    Block.find (front ++ element' :: back) type = Block.find (front ++ element :: back) type := by
  have hskip : Block.find (element :: back) type = Block.find back type := by
    simp [Block.find, hne]
  have hskip' : Block.find (element' :: back) type = Block.find back type := by
    simp [Block.find, hsame, hne]
  rw [Block.find_append, Block.find_append, hskip, hskip']

/-- A nonce that is looked up stands behind elements of other types. -/
theorem exists_split_of_get (hget : Block.get elements Tlv.nonce = .ok nonce) :
    ∃ front back, elements = front ++ nonce :: back ∧ nonce.type = Tlv.nonce ∧
      ∀ element ∈ front, element.type ≠ Tlv.nonce := by
  have hfind := Block.find_of_get hget
  obtain ⟨htype, front, back, hsplit, hothers⟩ := List.find?_eq_some_iff_append.mp hfind
  refine ⟨front, back, hsplit, by simpa using htype, ?_⟩
  intro element hmem
  simpa using hothers element hmem

theorem get_append_nonce {front back : List Block} (htype : nonce.type = Tlv.nonce)
    (hfront : ∀ element ∈ front, element.type ≠ Tlv.nonce) :
    Block.get (front ++ nonce :: back) Tlv.nonce = .ok nonce := by
  apply Block.get_eq_ok
  rw [Block.find_append, Block.find_eq_none_of_forall_ne hfront, Option.none_or]
  simp [Block.find, htype]

theorem nonceOffset_append {front back : List Block} (htype : nonce.type = Tlv.nonce)
    (hfront : ∀ element ∈ front, element.type ≠ Tlv.nonce) :
    nonceOffset wire (front ++ nonce :: back) nonce = (wire.wire.length - wire.value.length) +
      ((front.flatMap Block.wire).length + (nonce.wire.length - nonce.value.length)) := by
  have htake : (front ++ nonce :: back).takeWhile (fun element ↦ element.type != Tlv.nonce) =
      front := by
    have hall : ∀ element ∈ front, (element.type != Tlv.nonce) = true := by
      intro element hmem
      simpa using hfront element hmem
    rw [List.takeWhile_append_of_pos hall, List.takeWhile_cons_of_neg (by simp [htype]),
      List.append_nil]
  rw [nonceOffset, htake]

/-- Decoding depends on nothing that the object held before. -/
theorem wireDecode_eq_wireDecode (prior prior' : Interest) (wire : Block) :
    prior.wireDecode wire = prior'.wireDecode wire := rfl

/-- What is read of the elements that are kept as blocks. -/
theorem decodeElements_spec {type : ℕ} {keep : Block → SharedWire}
    (hdecode : prior.decodeElements type elements keep = .ok interest) :
    ∃ nonce, Block.get elements Tlv.nonce = .ok nonce ∧ interest.nonce = some nonce ∧
      interest.link = Block.find elements Tlv.data ∧ interest.wire = some (keep nonce) := by
  rw [decodeElements] at hdecode
  split_ifs at hdecode with htype
  simp only [bind_eq_ok_iff] at hdecode
  obtain ⟨nameBlock, hnameBlock, name, hname, selectors, hselectors, nonce, hnonce,
    interestLifetime, hlifetime, index, hindex, hinterest⟩ := hdecode
  cases hinterest
  exact ⟨nonce, hnonce, rfl, rfl, rfl⟩

/-- What decoding has read when it returns. -/
theorem exists_elements_of_wireDecode (hdecode : prior.wireDecode wire = .ok interest) :
    ∃ elements nonce, Block.parse wire.value = .ok elements ∧
      Block.get elements Tlv.nonce = .ok nonce ∧ interest.nonce = some nonce ∧
      interest.wire = some ⟨wire.wire, some (nonceOffset wire elements nonce)⟩ := by
  rw [wireDecode, bind_eq_ok_iff] at hdecode
  obtain ⟨elements, hparse, hdecode⟩ := hdecode
  obtain ⟨nonce, hget, hnonce, -, hwire⟩ := decodeElements_spec hdecode
  exact ⟨elements, nonce, hparse, hget, hnonce, hwire⟩

/-- Decoding a wire in which only the nonce element differs. -/
theorem wireDecode_replace_nonce {wire' nonce' : Block} {front back : List Block}
    (hparse : Block.parse wire.value = .ok (front ++ nonce :: back))
    (hparse' : Block.parse wire'.value = .ok (front ++ nonce' :: back))
    (hwireType : wire'.type = wire.type) (htype : nonce.type = Tlv.nonce)
    (htype' : nonce'.type = Tlv.nonce) (hfront : ∀ element ∈ front, element.type ≠ Tlv.nonce)
    (hdecode : prior.wireDecode wire = .ok interest) :
    prior.wireDecode wire' = .ok { interest with
      nonce := some nonce'
      wire := some ⟨wire'.wire, some (nonceOffset wire' (front ++ nonce' :: back) nonce')⟩ } := by
  have hfind : ∀ type, type ≠ Tlv.nonce → Block.find (front ++ nonce' :: back) type =
      Block.find (front ++ nonce :: back) type := by
    intro type hne
    exact find_replace (by rw [htype, htype']) (by rw [htype]; exact hne.symm)
  have hget : Block.get (front ++ nonce' :: back) Tlv.name =
      Block.get (front ++ nonce :: back) Tlv.name := by
    rw [Block.get, Block.get, hfind _ (by decide)]
  rw [wireDecode, hparse, bind_eq_ok_iff] at hdecode
  obtain ⟨elements, helements, hdecode⟩ := hdecode
  obtain rfl := Except.ok.inj helements
  rw [decodeElements] at hdecode
  split_ifs at hdecode with hinterest
  simp only [bind_eq_ok_iff] at hdecode
  obtain ⟨nameBlock, hnameBlock, name, hname, selectors, hselectors, found, hfound,
    interestLifetime, hlifetime, index, hindex, hdecoded⟩ := hdecode
  cases hdecoded
  simp only [wireDecode, decodeElements, hparse', bind, Except.bind, hwireType, if_neg hinterest, hget, hnameBlock,
    hname, hfind Tlv.selectors (by decide), hselectors, get_append_nonce htype' hfront,
    hfind Tlv.interestLifetime (by decide), hlifetime, hfind Tlv.data (by decide),
    hfind Tlv.selectedDelegation (by decide), hindex, pure, Except.pure]

/-! ## A nonce in another buffer -/

/-- The same Interest, with a nonce that does not lie in the stored wire. -/
def detach (interest : Interest) : Interest :=
  { interest with wire := interest.wire.map fun shared ↦ { shared with nonceAt := none } }

/-- Setting the nonce overwrites it with another one, and leaves the stored wire. -/
def SetsApart (interest : Interest) (word : UInt32) : Prop :=
  ∃ shared ∈ interest.wire, ∃ nonce ∈ interest.nonce, shared.nonceAt = none ∧
    nonce.value.length = 4 ∧ nonce.value ≠ wordBytes word

/-- The wire of an assembled block is decoded while it is that of the elements, and a nonce that does
not lie in the stored wire is not overwritten. -/
def KeepsInStep (interest : Interest) : CodeStore.Event Call → Prop
  | .change (.setNonce word) => ¬ interest.SetsApart word
  | .change (.refreshNonce newNonce) => ¬ interest.SetsApart newNonce
  | .change (.wireDecodeAssembled wire elements _) => Block.parse wire.value = .ok elements
  | _ => True

/-- Elements that are those of the wire are decoded as the wire is, but for the place of the nonce. -/
theorem wireDecodeAssembled_eq (hparse : Block.parse wire.value = .ok elements) :
    prior.wireDecodeAssembled wire elements = (prior.wireDecode wire).map detach := by
  have hdetach : ∀ keep : Block → SharedWire,
      (prior.decodeElements wire.type elements keep).map detach =
        prior.decodeElements wire.type elements fun nonce ↦ { keep nonce with nonceAt := none } := by
    intro keep
    unfold decodeElements
    split_ifs
    · rfl
    · change detach <$> (_ : Except Error Interest) = _
      simp only [map_bind, map_pure]
      rfl
  rw [wireDecode, hparse]
  exact (hdetach fun nonce ↦ ⟨wire.wire, some (nonceOffset wire elements nonce)⟩).symm

theorem overwriteValue_self (hwire : block.IsWire) : overwriteValue block block.value = block := by
  obtain ⟨header, hheader, hcount, -⟩ := exists_header_length hwire
  rw [overwriteValue, hcount, hheader, List.take_left' rfl, ← hheader]

/-- Where the nonce lies in another buffer, it may be set to what it is. -/
theorem setNonce_detach {decoded : Interest} (hdecode : prior.wireDecode wire = .ok decoded)
    (hnonce : decoded.nonce = some nonce) (hlength : nonce.value.length = 4)
    (hspares : ¬ decoded.detach.SetsApart word) :
    decoded.detach.setNonce word = decoded.detach := by
  obtain ⟨elements, found, hparse, hget, hfound, hstored⟩ := exists_elements_of_wireDecode hdecode
  obtain rfl : nonce = found := Option.some.inj (hnonce.symm.trans hfound)
  have hwire : nonce.IsWire :=
    (Block.parse_eq_ok_iff.mp hparse).2 nonce (List.mem_of_find?_eq_some (Block.find_of_get hget))
  have hvalue : nonce.value = wordBytes word := by
    by_contra hne
    exact hspares ⟨⟨wire.wire, none⟩, by simp [detach, hstored], nonce, hnonce, rfl, hlength, hne⟩
  simp only [setNonce, detach, hstored, hnonce, Option.map_some, if_pos hlength, ← hvalue,
    overwriteValue_self hwire]
  rfl

/-! ## The stored wire -/

/-- The wire is decoded to this very state, up to the place of the nonce. -/
def IsReadFrom (interest : Interest) (wire : Block) : Prop :=
  ∃ decoded, wireDecode {} wire = .ok decoded ∧ (interest = decoded ∨ interest = decoded.detach)

/-- The stored wire, if there is one, is a block that the state is read from. -/
def IsSynced (interest : Interest) : Prop :=
  ∀ shared ∈ interest.wire, ∃ wire, wire.IsWire ∧ wire.wire = shared.bytes ∧ interest.IsReadFrom wire

theorem isSynced_of_wire_eq_none (hnone : interest.wire = none) : interest.IsSynced := by
  intro shared hshared
  rw [hnone] at hshared
  cases hshared

theorem IsReadFrom.exists_nonce (hread : interest.IsReadFrom wire) :
    ∃ nonce, interest.nonce = some nonce := by
  obtain ⟨decoded, hdecode, rfl | rfl⟩ := hread <;>
    obtain ⟨-, nonce, -, -, hnonce, -⟩ := exists_elements_of_wireDecode hdecode <;>
    exact ⟨nonce, hnonce⟩

theorem IsReadFrom.bytes_eq (hread : interest.IsReadFrom wire)
    (hstored : interest.wire = some shared) : shared.bytes = wire.wire := by
  obtain ⟨decoded, hdecode, rfl | rfl⟩ := hread <;>
    obtain ⟨elements, nonce, -, -, -, hkept⟩ := exists_elements_of_wireDecode hdecode
  · exact congrArg SharedWire.bytes (Option.some.inj (hstored.symm.trans hkept))
  · rw [detach, hkept] at hstored
    exact congrArg SharedWire.bytes (Option.some.inj hstored).symm

theorem IsReadFrom.isSynced (hread : interest.IsReadFrom wire) (hwire : wire.IsWire) :
    interest.IsSynced :=
  fun _ hstored ↦ ⟨wire, hwire, (hread.bytes_eq hstored).symm, hread⟩

theorem isSynced_of_wireDecode (hwire : wire.IsWire)
    (hdecode : prior.wireDecode wire = .ok interest) : interest.IsSynced :=
  IsReadFrom.isSynced ⟨interest, hdecode, .inl rfl⟩ hwire

theorem isReadFrom_of_wireDecodeAssembled (hparse : Block.parse wire.value = .ok elements)
    (hdecode : prior.wireDecodeAssembled wire elements = .ok interest) :
    interest.IsReadFrom wire := by
  rw [wireDecodeAssembled_eq hparse] at hdecode
  obtain ⟨decoded, hdecoded, rfl⟩ := map_eq_ok_iff.mp hdecode
  exact ⟨decoded, hdecoded, .inr rfl⟩

/-- Overwriting the nonce in the stored wire gives the wire with the new nonce element. -/
theorem setNonce_eq_of_length {front back : List Block} (hwire : wire.IsWire)
    (hparse : Block.parse wire.value = .ok (front ++ nonce :: back))
    (htype : nonce.type = Tlv.nonce) (hfront : ∀ element ∈ front, element.type ≠ Tlv.nonce)
    (hstored : interest.wire =
      some ⟨wire.wire, some (nonceOffset wire (front ++ nonce :: back) nonce)⟩)
    (hnonce : interest.nonce = some nonce) (hlength : nonce.value.length = 4) (word : UInt32) :
    let updated := overwriteValue nonce (wordBytes word)
    let wire' := overwriteValue wire ((front ++ updated :: back).flatMap Block.wire)
    wire'.IsWire ∧ Block.parse wire'.value = .ok (front ++ updated :: back) ∧
      interest.setNonce word = { interest with
        nonce := some updated
        wire := some ⟨wire'.wire, some (nonceOffset wire' (front ++ updated :: back) updated)⟩ } := by
  obtain ⟨hvalue, helements⟩ := Block.parse_eq_ok_iff.mp hparse
  have hnonceWire : nonce.IsWire := helements nonce (by simp)
  have hsame : (wordBytes word).length = nonce.value.length := by rw [hlength, length_wordBytes]
  intro updated wire'
  have hupdatedLength : updated.wire.length = nonce.wire.length :=
    length_wire_overwriteValue hnonceWire hsame
  have hvalueLength : ((front ++ updated :: back).flatMap Block.wire).length =
      wire.value.length := by
    simp only [hvalue, List.flatMap_append, List.flatMap_cons, List.length_append, hupdatedLength]
  have hparse' : Block.parse wire'.value = .ok (front ++ updated :: back) := by
    apply Block.parse_flatMap_wire
    intro element hmem
    rcases List.mem_append.mp hmem with hmem | hmem
    · exact helements element (List.mem_append_left _ hmem)
    · rcases List.mem_cons.mp hmem with rfl | hmem
      · exact overwriteValue_isWire hnonceWire hsame
      · exact helements element (List.mem_append_right _ (List.mem_cons_of_mem nonce hmem))
  refine ⟨overwriteValue_isWire hwire hvalueLength, hparse', ?_⟩
  have hoffset : nonceOffset wire' (front ++ updated :: back) updated =
      nonceOffset wire (front ++ nonce :: back) nonce := by
    have hupdatedType : updated.type = Tlv.nonce := htype
    rw [nonceOffset_append htype hfront, nonceOffset_append hupdatedType hfront,
      length_wire_overwriteValue hwire hvalueLength, hupdatedLength]
    have hupdatedValue : updated.value.length = nonce.value.length := hsame
    rw [hupdatedValue]
    exact congrArg (fun count ↦ wire.wire.length - count + _) hvalueLength
  have hwritten : wire.wire.take (nonceOffset wire (front ++ nonce :: back) nonce) ++
      (wordBytes word ++ wire.wire.drop (nonceOffset wire (front ++ nonce :: back) nonce + 4)) =
        wire'.wire := by
    exact overwrite_wire hwire hvalue hnonceWire hsame (nonceOffset_append htype hfront)
  simp only [setNonce, SharedWire.overwrite, hstored, hnonce, hlength, if_true, hwritten, hoffset,
    updated]

theorem isSynced_setNonce_of_length (hsynced : interest.IsSynced)
    (hspares : ¬ interest.SetsApart word) (hstored : interest.wire = some shared)
    (hnonce : interest.nonce = some nonce) (hlength : nonce.value.length = 4) :
    (interest.setNonce word).IsSynced := by
  obtain ⟨wire, hwire, hbytes, decoded, hdecode, rfl | rfl⟩ := hsynced shared hstored
  · obtain ⟨elements, found, hparse, hget, hfound, hshared⟩ := exists_elements_of_wireDecode hdecode
    obtain rfl : nonce = found := Option.some.inj (hnonce.symm.trans hfound)
    obtain ⟨front, back, rfl, htype, hfront⟩ := exists_split_of_get hget
    obtain ⟨hupdatedWire, hparse', hset⟩ :=
      setNonce_eq_of_length hwire hparse htype hfront hshared hnonce hlength word
    rw [hset]
    exact isSynced_of_wireDecode hupdatedWire
      (wireDecode_replace_nonce hparse hparse' rfl htype htype hfront hdecode)
  · rwa [setNonce_detach hdecode hnonce hlength hspares]

theorem isSynced_setNonce (hsynced : interest.IsSynced) (hspares : ¬ interest.SetsApart word) :
    (interest.setNonce word).IsSynced := by
  cases hstored : interest.wire with
  | none =>
    apply isSynced_of_wire_eq_none
    simp [setNonce, hstored]
  | some shared =>
    cases hnonce : interest.nonce with
    | none =>
      apply isSynced_of_wire_eq_none
      simp [setNonce, hstored, hnonce]
    | some nonce =>
      by_cases hlength : nonce.value.length = 4
      · exact isSynced_setNonce_of_length hsynced hspares hstored hnonce hlength
      · apply isSynced_of_wire_eq_none
        simp [setNonce, hstored, hnonce, hlength]

theorem isSynced_perform {call : Call} (hsynced : interest.IsSynced)
    (hallowed : interest.KeepsInStep (.change call))
    (hperform : interest.perform call = some next) : next.IsSynced := by
  rcases perform_cases hperform with hnone | rfl | ⟨nonce, rfl | rfl, rfl⟩ |
    ⟨wire, hwire, -, hdecode⟩ | ⟨wire, elements, hwire, rfl, hdecode⟩
  · exact isSynced_of_wire_eq_none hnone
  · exact hsynced
  · exact isSynced_setNonce hsynced hallowed
  · exact isSynced_setNonce hsynced hallowed
  · exact isSynced_of_wireDecode hwire hdecode
  · exact (isReadFrom_of_wireDecodeAssembled hallowed hdecode).isSynced hwire

variable {random : UInt32}

/-- `wireEncode` reads the Interest back from what it has written. -/
theorem isSynced_wireEncode {wire : Bytes} (hsynced : interest.IsSynced)
    (hencode : interest.wireEncode random = .ok (wire, next)) : next.IsSynced := by
  rcases CodeStore.recall_cases hencode with ⟨-, rfl⟩ | ⟨-, -, hstore⟩
  · exact hsynced
  · obtain ⟨block, hblock, hdecode⟩ := bind_eq_ok_iff.mp hstore
    exact isSynced_of_wireDecode (Block.fromWire_eq_ok_iff.mp hblock).2 hdecode

/-- In every state that such mutators and encodings lead to, the stored wire is that of the state. -/
theorem isSynced_of_run {start finish : Interest} {events : List (CodeStore.Event Call)}
    (hstart : start.wire = none)
    (hguarded : Run.Guarded ((codes random).step perform) KeepsInStep start events)
    (hrun : Run.run ((codes random).step perform) start events = some finish) :
    finish.IsSynced := by
  apply Run.invariant_of_guarded (fun _ interest ↦ interest.IsSynced) _
    (isSynced_of_wire_eq_none hstart) hguarded hrun
  intro past interest event next hsynced hallowed hstep
  cases event with
  | change call => exact isSynced_perform hsynced hallowed hstep
  | recallCode =>
    obtain ⟨wire, hrecall⟩ := CodeStore.step_recall_eq_some_iff.mp hstep
    exact isSynced_wireEncode hsynced hrecall

end Interest

end NdnCxx.Packet
