import NdnCxx.Packet.InterestWire

/-!
# What decoders leave behind

What was read from a wire can be written again: numbers fit their types, components and names are
well formed. Only a key locator of an unknown kind, a key digest that is too long and an exclude
filter whose flagged empty boundary is not the first one are in the way.
-/

namespace NdnCxx

theorem toInt32_lt (number : ℕ) : toInt32 number < 2 ^ 31 := by
  unfold toInt32
  split_ifs <;> omega

theorem toInt64_lt (number : ℕ) : toInt64 number < 2 ^ 63 := by
  unfold toInt64
  split_ifs <;> omega

variable {block : Block} {elements : List Block} {value : ℤ} {element : Block}

namespace Block

theorem IsWire.type_lt (hwire : block.IsWire) : block.type < 2 ^ 32 :=
  (toElement_isWellFormed hwire).1

theorem readInt32_lt (hread : block.readInt32 = .ok value) : value < 2 ^ 31 := by
  rw [readInt32, bind_eq_ok_iff] at hread
  obtain ⟨number, -, hvalue⟩ := hread
  cases hvalue
  exact toInt32_lt number

theorem readInt64_lt (hread : block.readInt64 = .ok value) : value < 2 ^ 63 := by
  rw [readInt64, bind_eq_ok_iff] at hread
  obtain ⟨number, -, hvalue⟩ := hread
  cases hvalue
  exact toInt64_lt number

/-- What holds of the default and of everything that is decoded holds of an optional element. -/
theorem decodeIfFound_rule {Value : Type} {found : Option Block} {absent value : Value}
    {decode : Block → Except Error Value} (Property : Value → Prop)
    (hresult : decodeIfFound found absent decode = .ok value) (habsent : Property absent)
    (hdecode : ∀ element value, found = some element → decode element = .ok value →
      Property value) : Property value := by
  cases found with
  | none =>
    cases hresult
    exact habsent
  | some element => exact hdecode element value rfl hresult

theorem mem_of_find {type : ℕ} (hfind : find elements type = some element) :
    element ∈ elements ∧ element.type = type :=
  mem_of_get (get_eq_ok hfind)

end Block

theorem Name.isWellFormed_of_wireDecode {name : Name} (hdecode : Name.wireDecode block = .ok name) :
    name.IsWellFormed := by
  unfold Name.wireDecode at hdecode
  split_ifs at hdecode with htype
  rw [bind_eq_ok_iff] at hdecode
  obtain ⟨elements, hparse, hname⟩ := hdecode
  cases hname
  intro component hmem
  obtain ⟨element, helement, rfl⟩ := List.mem_map.mp hmem
  exact ((Block.parse_eq_ok_iff.mp hparse).2 element helement).type_lt

namespace Packet

variable {wire : Block}

/-- A key locator that was read can be written, unless it is of an unknown kind or too long. -/
theorem KeyLocator.isEncodable_of_wireDecode_fits {prior keyLocator : KeyLocator}
    (hdecode : prior.wireDecode wire = .ok keyLocator)
    (hshort : keyLocator.type = .keyDigest → keyLocator.keyDigest.toBlock.wire.length < 2 ^ 32) :
    keyLocator.type = .unknown ∨ keyLocator.IsEncodable := by
  unfold wireDecode at hdecode
  split_ifs at hdecode with htype
  rw [bind_eq_ok_iff] at hdecode
  obtain ⟨elements, hparse, hdecode⟩ := hdecode
  obtain ⟨-, hwires⟩ := Block.parse_eq_ok_iff.mp hparse
  cases elements with
  | nil =>
    cases hdecode
    exact Or.inr trivial
  | cons first later =>
    have hfirst := hwires first List.mem_cons_self
    dsimp only at hdecode
    split_ifs at hdecode with hname hdigest
    · rw [bind_eq_ok_iff] at hdecode
      obtain ⟨name, hread, hdecode⟩ := hdecode
      cases hdecode
      exact Or.inr (Name.isWellFormed_of_wireDecode hread)
    · cases hdecode
      exact Or.inr ⟨hdigest, Block.toElement_isWellFormed hfirst, hshort rfl⟩
    · cases hdecode
      exact Or.inl rfl

namespace Exclude

variable {component : Component}

theorem isValid_of_excludedComponent (hread : excludedComponent element = .ok component) :
    component.IsValid := by
  unfold excludedComponent at hread
  split at hread
  · rename_i read hblock
    cases hread
    unfold Component.ofBlock at hblock
    dsimp only at hblock
    split_ifs at hblock with hcheck
    cases hblock
    simp only [Bool.and_eq_true, Bool.not_eq_true', not_and, Bool.not_eq_false] at hcheck
    by_cases hgeneric : (Component.mk element.type element.value).isGeneric = true
    · exact Or.inl hgeneric
    · exact Or.inr (hcheck (by simpa using hgeneric))
  · cases hread

theorem isValid_appendExclude {exclude : Exclude} {any : Bool} (hvalid : IsValid exclude.filter)
    (hcomponent : component.IsValid) : IsValid (exclude.appendExclude component any).filter := by
  intro entry hentry
  rcases OrderedMap.mem_assign.mp hentry with rfl | ⟨hold, -⟩
  · exact hcomponent
  · exact hvalid entry hold

theorem isValid_decodeItems {exclude decoded : Exclude} (hvalid : IsValid exclude.filter)
    (hdecode : decodeItems exclude elements = .ok decoded) : IsValid decoded.filter := by
  induction exclude, elements using decodeItems.induct with
  | case1 exclude =>
    cases hdecode
    exact hvalid
  | case2 exclude element =>
    rw [decodeItems, bind_eq_ok_iff] at hdecode
    obtain ⟨component, hcomponent, hdecode⟩ := hdecode
    cases hdecode
    exact isValid_appendExclude hvalid (isValid_of_excludedComponent hcomponent)
  | case3 exclude element next later hflagged hplain =>
    rw [decodeItems, bind_eq_ok_iff] at hdecode
    obtain ⟨component, hcomponent, hdecode⟩ := hdecode
    have happended (any : Bool) : IsValid (exclude.appendExclude component any).filter :=
      isValid_appendExclude hvalid (isValid_of_excludedComponent hcomponent)
    split_ifs at hdecode with hany
    · exact hflagged component (happended true) hdecode
    · exact hplain component (happended false) hdecode

/-- Decoding admits only components that are valid. -/
theorem isValid_of_wireDecode {prior decoded : Exclude}
    (hdecode : prior.wireDecode wire = .ok decoded) : IsValid decoded.filter := by
  have hempty : IsValid NdnCxx.Exclude.empty := fun entry hentry ↦
    absurd hentry (OrderedMap.not_mem_empty entry)
  unfold wireDecode at hdecode
  split_ifs at hdecode with htype
  rw [bind_eq_ok_iff] at hdecode
  obtain ⟨elements, -, hdecode⟩ := hdecode
  cases elements with
  | nil => cases hdecode
  | cons first rest =>
    dsimp only at hdecode
    split_ifs at hdecode with hany
    · exact isValid_decodeItems (isValid_appendExclude hempty (by decide)) hdecode
    · exact isValid_decodeItems hempty hdecode

end Exclude

variable {written : Bytes}

namespace Selectors

/-- The key digest and the exclude filter do not run into the limits of the encoder. -/
structure IsRewritable (selectors : Selectors) : Prop where
  keyDigest : selectors.publisherPublicKeyLocator.type = .keyDigest →
    selectors.publisherPublicKeyLocator.keyDigest.toBlock.wire.length < 2 ^ 32
  exclude : Exclude.IsUnambiguous selectors.exclude.filter

theorem isRewritable_default : IsRewritable {} where
  keyDigest := by simp
  exclude := fun entry hentry ↦ absurd hentry (OrderedMap.not_mem_empty entry)

variable {selectors : Selectors}

theorem isRewritable_reread (hrewritable : selectors.IsRewritable) :
    selectors.reread.IsRewritable where
  keyDigest := by
    unfold reread
    cases selectors.publisherPublicKeyLocator.isEmpty with
    | true => simp
    | false =>
      intro hdigest
      have htype : selectors.publisherPublicKeyLocator.type = .keyDigest := hdigest
      simp only [Bool.not_false, if_true, KeyLocator.overwrite, htype, Block.toBlock_toElement]
      exact hrewritable.keyDigest htype
  exclude := by
    unfold reread
    cases selectors.exclude.isEmpty with
    | true => exact isRewritable_default.exclude
    | false => exact hrewritable.exclude

/-- What was read, or set, can be written as far as the encoder accepts it, and is then read again. -/
structure IsSteady (selectors : Selectors) : Prop where
  minSuffixComponents : selectors.minSuffixComponents < 2 ^ 31
  maxSuffixComponents : selectors.maxSuffixComponents < 2 ^ 31
  childSelector : selectors.childSelector < 2 ^ 31
  keyLocator : selectors.publisherPublicKeyLocator.type = .unknown ∨
    selectors.publisherPublicKeyLocator.IsEncodable
  exclude : Exclude.IsValid selectors.exclude.filter
  rewritable : selectors.IsRewritable

theorem readInt_lt {type : ℕ} (hread : readInt elements type (-1) = .ok value) : value < 2 ^ 31 :=
  Block.decodeIfFound_rule (· < 2 ^ 31) hread (by decide) fun _ _ _ hvalue ↦
    Block.readInt32_lt hvalue

theorem isSteady_of_wireDecode {prior : Selectors} (hdecode : prior.wireDecode wire = .ok selectors)
    (hrewritable : selectors.IsRewritable) : selectors.IsSteady := by
  unfold wireDecode at hdecode
  split_ifs at hdecode with htype
  simp only [bind_eq_ok_iff] at hdecode
  obtain ⟨elements, -, minSuffixComponents, hmin, maxSuffixComponents, hmax, keyLocator, hkeyLocator,
    exclude, hexclude, childSelector, hchild, hselectors⟩ := hdecode
  cases hselectors
  exact {
    minSuffixComponents := readInt_lt hmin
    maxSuffixComponents := readInt_lt hmax
    childSelector := readInt_lt hchild
    keyLocator := by
      have hshort := hrewritable.keyDigest
      revert hshort
      exact Block.decodeIfFound_rule (fun keyLocator : KeyLocator ↦
        (keyLocator.type = .keyDigest → keyLocator.keyDigest.toBlock.wire.length < 2 ^ 32) →
          keyLocator.type = .unknown ∨ keyLocator.IsEncodable) hkeyLocator
        (fun _ ↦ Or.inr trivial)
        fun _ _ _ hread ↦ KeyLocator.isEncodable_of_wireDecode_fits hread
    exclude := Block.decodeIfFound_rule (fun exclude : Exclude ↦
      Exclude.IsValid exclude.filter) hexclude
      (fun entry hentry ↦ absurd hentry (OrderedMap.not_mem_empty entry))
      fun _ _ _ hread ↦ Exclude.isValid_of_wireDecode hread
    rewritable := hrewritable }

/-- Selectors that the encoder has accepted. -/
theorem IsSteady.isEncodable (hsteady : selectors.IsSteady)
    (hwritten : selectors.wireEncodeInto = .ok written) : selectors.IsEncodable where
  minSuffixComponents := hsteady.minSuffixComponents
  maxSuffixComponents := hsteady.maxSuffixComponents
  childSelector := hsteady.childSelector
  exclude := hsteady.exclude
  keyLocator := by
    refine hsteady.keyLocator.resolve_left fun hunknown ↦ ?_
    have hpresent : (!selectors.publisherPublicKeyLocator.isEmpty) = true := by
      simp [KeyLocator.isEmpty, hunknown]
    have hrefused : Block.writtenIf (!selectors.publisherPublicKeyLocator.isEmpty)
        selectors.publisherPublicKeyLocator.wireEncodeInto =
          .error ⟨.keyLocator, "Unsupported KeyLocator type"⟩ := by
      simp [Block.writtenIf, hpresent, KeyLocator.wireEncodeInto, hunknown]
    simp only [wireEncodeInto, hrefused, bind_eq_ok_iff] at hwritten
    obtain ⟨exclude, -, keyLocator, hkeyLocator, -⟩ := hwritten
    cases hkeyLocator

theorem isEncodable_of_isEmpty (hsteady : selectors.IsSteady) (hempty : selectors.isEmpty = true) :
    selectors.IsEncodable where
  minSuffixComponents := hsteady.minSuffixComponents
  maxSuffixComponents := hsteady.maxSuffixComponents
  childSelector := hsteady.childSelector
  exclude := hsteady.exclude
  keyLocator := by
    simp only [isEmpty, Bool.and_eq_true] at hempty
    have hnone : selectors.publisherPublicKeyLocator.type = .none := by
      simpa [KeyLocator.isEmpty] using hempty.1.1.1.2
    simp [KeyLocator.IsEncodable, hnone]

end Selectors

namespace Interest

/-- What was read, or set, apart from the link, can be written as far as the encoder accepts it. -/
structure IsSteady (interest : Interest) : Prop where
  name : interest.name.IsWellFormed
  selectors : interest.selectors.IsSteady
  nonce : ∀ nonce ∈ interest.nonce, nonce.type = Tlv.nonce ∧ nonce.IsWire
  interestLifetime : interest.interestLifetime < 2 ^ 63

variable {interest : Interest}

/-- What decoding has assigned when it returns. -/
theorem wireDecode_cases {prior : Interest} (hdecode : prior.wireDecode wire = .ok interest) :
    ∃ elements nonce, Block.parse wire.value = .ok elements ∧ interest.name.IsWellFormed ∧
      Block.decodeIfFound (Block.find elements Tlv.selectors) {} (Selectors.wireDecode {}) =
        .ok interest.selectors ∧
      Block.get elements Tlv.nonce = .ok nonce ∧ interest.nonce = some nonce ∧
      interest.interestLifetime < 2 ^ 63 ∧ interest.link = Block.find elements Tlv.data ∧
      Block.decodeIfFound (Block.find elements Tlv.selectedDelegation)
        invalidSelectedDelegationIndex (decodeSelectedDelegation interest.link) =
          .ok interest.selectedDelegationIndex := by
  rw [wireDecode, bind_eq_ok_iff] at hdecode
  obtain ⟨elements, hparse, hdecode⟩ := hdecode
  rw [decodeElements] at hdecode
  split_ifs at hdecode with htype
  simp only [bind_eq_ok_iff] at hdecode
  obtain ⟨nameBlock, hnameBlock, name, hname, selectors, hselectors, nonce, hnonce,
    interestLifetime, hlifetime, index, hindex, hinterest⟩ := hdecode
  cases hinterest
  have hshort : interestLifetime < 2 ^ 63 :=
    Block.decodeIfFound_rule (· < 2 ^ 63) hlifetime (by decide) fun _ _ _ hread ↦
      Block.readInt64_lt hread
  exact ⟨elements, nonce, hparse, Name.isWellFormed_of_wireDecode hname, hselectors, hnonce, rfl,
    hshort, rfl, hindex⟩

theorem isSteady_of_wireDecode {prior : Interest} (hdecode : prior.wireDecode wire = .ok interest)
    (hrewritable : interest.selectors.IsRewritable) : interest.IsSteady := by
  obtain ⟨elements, nonce, hparse, hname, hselectors, hget, hnonce, hlifetime, -⟩ :=
    wireDecode_cases hdecode
  refine ⟨hname, ?_, ?_, hlifetime⟩
  · have hfresh : Selectors.IsSteady {} :=
      ⟨by decide, by decide, by decide, Or.inr trivial,
        fun entry hentry ↦ absurd hentry (OrderedMap.not_mem_empty entry),
        Selectors.isRewritable_default⟩
    exact Block.decodeIfFound_rule
      (fun selectors : Selectors ↦ selectors.IsRewritable → selectors.IsSteady) hselectors
      (fun _ ↦ hfresh) (fun _ _ _ hread ↦ Selectors.isSteady_of_wireDecode hread) hrewritable
  · intro other hother
    rw [hnonce] at hother
    obtain rfl := Option.mem_some_iff.mp hother
    obtain ⟨hmem, htype⟩ := Block.mem_of_get hget
    exact ⟨htype, (Block.parse_eq_ok_iff.mp hparse).2 nonce hmem⟩

theorem length_of_nonceNumber {nonce : Block} {number : ℕ}
    (hnumber : nonceNumber nonce = .ok number) : nonce.value.length ∈ [1, 2, 4, 8] := by
  unfold nonceNumber at hnumber
  split_ifs at hnumber with hword
  · simp [hword]
  · rw [Block.readUInt32, bind_eq_ok_iff] at hnumber
    obtain ⟨read, hread, -⟩ := hnumber
    unfold Block.readNonNegativeInteger Tlv.readNonNegativeInteger at hread
    split_ifs at hread with hsize
    simpa using hsize

/-- The nonce that is written is as long as `getNonce` permits. -/
theorem nonce_of_getNonce {random : UInt32} {interest : Interest} {answer : ℕ × Interest}
    (hnonce : ∀ nonce ∈ interest.nonce, nonce.type = Tlv.nonce ∧ nonce.IsWire)
    (hanswer : interest.getNonce random = .ok answer) : ∀ nonce ∈ interest.nonce,
      nonce.type = Tlv.nonce ∧ nonce.IsWire ∧ nonce.value.length ∈ [1, 2, 4, 8] := by
  rw [getNonce, bind_eq_ok_iff] at hanswer
  obtain ⟨number, hnumber, -⟩ := hanswer
  intro nonce hmem
  obtain ⟨htype, hwire⟩ := hnonce nonce hmem
  have hsome : interest.nonce = some nonce := hmem
  have hsame : interest.ensureNonce random = interest := by simp [ensureNonce, hsome]
  rw [hsame, hsome, Option.getD_some] at hnumber
  exact ⟨htype, hwire, length_of_nonceNumber hnumber⟩

/-- An Interest that the encoder has accepted can be read again, if its link is one that an Interest
can carry and has the selected delegation. -/
theorem IsSteady.isEncodable {random : UInt32} (hsteady : interest.IsSteady)
    (hwritten : wireEncodeInto random interest = .ok written)
    (hlink : ∀ link ∈ interest.link, link.type = Tlv.data ∧ link.IsWire ∧ link.wire.length < 2 ^ 32)
    (hindex : interest.selectedDelegationIndex < 2 ^ 64)
    (hdelegation : interest.hasSelectedDelegation = true →
      ∃ link ∈ interest.link, ∃ count, Link.countDelegationsFromWire link = .ok count ∧
      interest.selectedDelegationIndex < count) : interest.IsEncodable := by
  simp only [wireEncodeInto, bind_eq_ok_iff] at hwritten
  obtain ⟨answer, hanswer, selectors, hselectors, -⟩ := hwritten
  have hencodable : interest.selectors.IsEncodable := by
    cases hempty : interest.selectors.isEmpty with
    | true => exact Selectors.isEncodable_of_isEmpty hsteady.selectors hempty
    | false =>
      simp only [hempty, Bool.not_false, Block.writtenIf, if_true] at hselectors
      exact hsteady.selectors.isEncodable hselectors
  exact ⟨hsteady.name, hencodable, hsteady.selectors.rewritable.exclude,
    nonce_of_getNonce hsteady.nonce hanswer, hsteady.interestLifetime, hlink, hindex, hdelegation⟩

end Interest

end Packet

end NdnCxx
