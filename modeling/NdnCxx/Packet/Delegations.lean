import NdnCxx.Packet.DataRoundTrip
import NdnCxx.Packet.Link

/-!
# The delegations of a link and its wire

A link keeps its delegations as a set ordered by preference and name, and writes the whole set into
its content with every change. The functions that look into the wire count elements on their own. As
long as the content block is shorter than what the 32-bit size of a block can say, they find what the
set has. A longer content is cut off when the packet is written.
-/

namespace NdnCxx

theorem Name.equals_comm (name other : Name) : name.equals other = other.equals name := by
  apply Bool.eq_iff_iff.mpr
  rw [Name.equals_iff, Name.equals_iff]
  exact eq_comm

@[simp]
theorem Name.equals_self (name : Name) : name.equals name = true := Name.equals_iff.mpr rfl

namespace Packet.Link

/-! ## Calls -/

/-- A call that changes the delegations. -/
inductive Call
  | addDelegation (preference : UInt32) (name : Name)
  | removeDelegation (name : Name)
  deriving DecidableEq

def Call.name : Call → Name
  | .addDelegation _ name => name
  | .removeDelegation name => name

/-- The state after a call that returns normally. -/
def perform (link : Link) : Call → Option Link
  | .addDelegation preference name => (link.addDelegation preference name).toOption
  | .removeDelegation name => (link.removeDelegation name).toOption.map Prod.snd

def IsLastAdded (calls : List Call) (delegation : ℕ ×ₗ Name) : Prop :=
  ∃ before preference name after, calls = before ++ Call.addDelegation preference name :: after ∧
    delegation = toLex (preference.toNat, name) ∧
    ∀ call ∈ after, hasName call.name delegation = false

/-- The set has, in the order of preferences and names, each name once, with the preference that the
last call about it has given. -/
structure Follows (calls : List Call) (delegations : DelegationSet) : Prop where
  mem_iff : ∀ delegation, (delegation, ()) ∈ delegations ↔ IsLastAdded calls delegation
  once : delegations.entries.Pairwise fun first second ↦
    hasName (ofLex second.1).2 first.1 = false
  ordered : delegations.entries.Pairwise fun first second ↦
    (ofLex first.1).1 < (ofLex second.1).1 ∨
      (ofLex first.1).1 = (ofLex second.1).1 ∧ (ofLex first.1).2 < (ofLex second.1).2

variable {delegation : ℕ ×ₗ Name} {block : Block}

theorem isLastAdded_append_iff {calls : List Call} {call : Call} :
    IsLastAdded (calls ++ [call]) delegation ↔
      (∃ preference name, call = .addDelegation preference name ∧
        delegation = toLex (preference.toNat, name)) ∨
      IsLastAdded calls delegation ∧ hasName call.name delegation = false := by
  constructor
  · rintro ⟨before, preference, name, after, hcalls, hdelegation, hafter⟩
    rcases List.eq_nil_or_concat after with rfl | ⟨middle, last, rfl⟩
    · have hlast := List.append_inj_right' hcalls rfl
      exact Or.inl ⟨preference, name, (List.cons.inj hlast).1, hdelegation⟩
    · rw [List.concat_eq_append, ← List.cons_append, ← List.append_assoc] at hcalls
      have hlast : call = last :=
        (List.cons.inj (List.append_inj_right' hcalls rfl)).1
      have hfront := List.append_inj_left' hcalls rfl
      refine Or.inr ⟨⟨before, preference, name, middle, hfront, hdelegation, ?_⟩, ?_⟩
      · intro other hother
        exact hafter other (by simp [hother])
      · exact hafter call (by simp [hlast])
  · rintro (⟨preference, name, rfl, rfl⟩ | ⟨⟨before, preference, name, after, rfl, rfl, hafter⟩,
      hother⟩)
    · exact ⟨calls, preference, name, [], rfl, rfl, by simp⟩
    · refine ⟨before, preference, name, after ++ [call], by simp, rfl, ?_⟩
      intro later hlater
      rcases List.mem_append.mp hlater with hin | hin
      · exact hafter later hin
      · rw [List.mem_singleton.mp hin]
        exact hother

/-! ## What a call does to the set -/

theorem ordered_entries (delegations : DelegationSet) :
    delegations.entries.Pairwise fun first second ↦
      (ofLex first.1).1 < (ofLex second.1).1 ∨
        (ofLex first.1).1 = (ofLex second.1).1 ∧ (ofLex first.1).2 < (ofLex second.1).2 :=
  delegations.sorted.imp fun hlt ↦ Prod.Lex.lt_iff.mp hlt

variable {name : Name} {entries : List ((ℕ ×ₗ Name) × Unit)} {elements blocks : List Block}

/-- A delegation of the name is not left behind. -/
theorem hasName_of_mem_eraseIf {delegations : DelegationSet} {entry : (ℕ ×ₗ Name) × Unit}
    (hmem : entry ∈ delegations.eraseIf (hasName name)) :
    hasName name entry.1 = false := (OrderedMap.mem_eraseIf.mp hmem).2

theorem mem_insert_eraseIf {delegations : DelegationSet} {preference : UInt32} :
    (delegation, ()) ∈ (delegations.eraseIf (hasName name)).insert
        (toLex (preference.toNat, name)) () ↔
      delegation = toLex (preference.toNat, name) ∨
        (delegation, ()) ∈ delegations ∧ hasName name delegation = false := by
  have habsent : ∀ old ∈ delegations.eraseIf (hasName name),
      old.1 ≠ toLex (preference.toNat, name) := by
    intro old hold hkey
    have hother := hasName_of_mem_eraseIf hold
    rw [hkey] at hother
    simp [hasName] at hother
  rw [OrderedMap.mem_insert, OrderedMap.mem_eraseIf, Prod.mk.injEq, and_iff_left rfl,
    and_iff_left habsent, or_comm]

/-- No two delegations of the list have the same name. -/
def OncePerName (delegations : DelegationSet) : Prop :=
  ∀ first ∈ delegations, ∀ second ∈ delegations,
    hasName (ofLex second.1).2 first.1 = true → first = second

theorem OncePerName.pairwise {delegations : DelegationSet} (honce : OncePerName delegations) :
    delegations.entries.Pairwise fun first second ↦
      hasName (ofLex second.1).2 first.1 = false := by
  apply delegations.sorted.imp_of_mem
  intro first second hfirst hsecond hlt
  cases hname : hasName (ofLex second.1).2 first.1 with
  | false => rfl
  | true =>
    have hsame := honce first hfirst second hsecond hname
    rw [hsame] at hlt
    exact absurd hlt (lt_irrefl _)

theorem OncePerName.eraseIf {delegations : DelegationSet} (honce : OncePerName delegations)
    (name : Name) : OncePerName (delegations.eraseIf (hasName name)) := by
  intro first hfirst second hsecond
  exact honce first (OrderedMap.mem_eraseIf.mp hfirst).1 second (OrderedMap.mem_eraseIf.mp hsecond).1

theorem OncePerName.insert {delegations : DelegationSet} (honce : OncePerName delegations)
    (preference : UInt32) (name : Name) :
    OncePerName ((delegations.eraseIf (hasName name)).insert (toLex (preference.toNat, name)) ()) := by
  rintro ⟨first, ⟨⟩⟩ hfirst ⟨second, ⟨⟩⟩ hsecond hname
  rw [mem_insert_eraseIf] at hfirst hsecond
  rcases hfirst with rfl | ⟨hfirst, hnotFirst⟩
  · rcases hsecond with rfl | ⟨-, hnotSecond⟩
    · rfl
    · have hsame : hasName name second = true := by
        rw [hasName, Name.equals_comm]
        exact hname
      rw [hsame] at hnotSecond
      cases hnotSecond
  · rcases hsecond with rfl | ⟨hsecond, -⟩
    · have hsame : hasName name first = true := hname
      rw [hsame] at hnotFirst
      cases hnotFirst
    · exact honce _ hfirst _ hsecond hname

/-! ## The content -/

def delegationBlock (delegation : ℕ ×ₗ Name) : Block :=
  Block.ofElements Tlv.linkDelegation
    [Block.ofValue Tlv.linkPreference (Tlv.prependNonNegativeInteger (ofLex delegation).1),
      (ofLex delegation).2.toBlock]

def contentBlock (delegations : DelegationSet) : Block :=
  Block.ofElements Tlv.content (delegations.entries.map fun entry ↦ delegationBlock entry.1)

theorem wire_delegationBlock (delegation : ℕ ×ₗ Name) :
    (delegationBlock delegation).wire = prependDelegation delegation := by
  simp only [delegationBlock, Block.ofElements, prependDelegation, Name.wireEncode_eq,
    List.flatMap_cons, List.flatMap_nil, List.append_nil]
  rfl

theorem encodeContentInto_eq (link : Link) :
    link.encodeContentInto = (contentBlock link.delegations).wire := by
  rw [encodeContentInto, List.foldl_reverse, List.foldr_append_eq_append, List.append_nil,
    ← List.flatMap_def]
  simp only [contentBlock, Block.ofElements, Block.ofValue, List.flatMap_map, wire_delegationBlock]

/-- What writing the content leaves behind. -/
theorem encodeContent_spec {link next : Link} (hencode : link.encodeContent = .ok next) :
    next.delegations = link.delegations ∧ next.data.name = link.data.name ∧
      next.data.wire = none ∧
      next.data.metaInfo = link.data.metaInfo.setType Tlv.contentTypeLink ∧
      next.data.getContent = .ok (contentBlock link.delegations) := by
  have hcontent : Tlv.content < 2 ^ 32 := by decide
  rw [encodeContent, bind_eq_ok_iff] at hencode
  obtain ⟨buffer, hbuffer, hencode⟩ := hencode
  rw [encodeContentInto_eq] at hbuffer
  have hread : buffer = contentBlock link.delegations :=
    ((Block.fromWire_prependByteArrayBlock_eq_ok_iff hcontent).mp hbuffer).2
  subst hread
  rw [bind_eq_ok_iff] at hencode
  obtain ⟨data, hdata, hnext⟩ := hencode
  cases hnext
  have htype : (contentBlock link.delegations).toUnencoded.type = Tlv.content := rfl
  rw [Data.setContent, if_pos htype] at hdata
  cases hdata
  exact ⟨rfl, rfl, rfl, rfl, rfl⟩

def IsReadable (delegation : ℕ ×ₗ Name) : Prop :=
  (ofLex delegation).1 < 2 ^ 32 ∧ (ofLex delegation).2.IsWellFormed

/-! ## Runs -/

/-- A link as it comes out of its constructors. -/
def IsNew (link : Link) : Prop := link = make ∨ ∃ name, link = ofName name

/-- What the calls keep. -/
structure IsBuilt (start : Link) (calls : List Call) (link : Link) : Prop where
  name : link.data.name = start.data.name
  wire : link.data.wire = none
  metaInfo : link.data.metaInfo = {} ∨ link.data.metaInfo = { type := Tlv.contentTypeLink }
  content : link.data.getContent = .ok (contentBlock link.delegations)
  mem_iff : ∀ delegation, (delegation, ()) ∈ link.delegations ↔ IsLastAdded calls delegation
  once : OncePerName link.delegations

theorem isBuilt_of_isNew {start : Link} (hnew : start.IsNew) : IsBuilt start [] start := by
  have hempty : start.delegations = OrderedMap.empty := by
    rcases hnew with rfl | ⟨name, rfl⟩ <;> rfl
  refine ⟨rfl, ?_, ?_, ?_, ?_, ?_⟩
  · rcases hnew with rfl | ⟨name, rfl⟩ <;> rfl
  · rcases hnew with rfl | ⟨name, rfl⟩ <;> exact Or.inl rfl
  · rw [hempty]
    rcases hnew with rfl | ⟨name, rfl⟩ <;> rfl
  · intro delegation
    rw [hempty]
    refine iff_of_false (OrderedMap.not_mem_empty _) ?_
    rintro ⟨before, preference, name, after, hcalls, -⟩
    cases before <;> cases hcalls
  · rw [hempty]
    intro first hfirst
    exact absurd hfirst (OrderedMap.not_mem_empty _)

variable {past : List Call}

/-- Once the set is as the calls say, writing the content is all that is left to do. -/
theorem isBuilt_of_encodeContent {start link next : Link} {calls : List Call}
    {delegations : DelegationSet} (hbuilt : IsBuilt start past link)
    (hencode : encodeContent { link with delegations := delegations } = .ok next)
    (hmem : ∀ delegation, (delegation, ()) ∈ delegations ↔ IsLastAdded calls delegation)
    (honce : OncePerName delegations) : IsBuilt start calls next := by
  obtain ⟨hdelegations, hname, hwire, hmetaInfo, hcontent⟩ := encodeContent_spec hencode
  refine ⟨hname.trans hbuilt.name, hwire, Or.inr ?_, ?_, ?_, ?_⟩
  · rw [hmetaInfo]
    rcases hbuilt.metaInfo with hold | hold <;> rw [hold] <;> rfl
  · rw [hdelegations]
    exact hcontent
  · rw [hdelegations]
    exact hmem
  · rw [hdelegations]
    exact honce

theorem mem_eraseIf_iff_isLastAdded {start link : Link} (hbuilt : IsBuilt start past link)
    (name : Name) (delegation : ℕ ×ₗ Name) :
    (delegation, ()) ∈ link.delegations.eraseIf (hasName name) ↔
      IsLastAdded (past ++ [.removeDelegation name]) delegation := by
  rw [OrderedMap.mem_eraseIf, isLastAdded_append_iff, hbuilt.mem_iff]
  simp [Call.name]

theorem addDelegation_eq (link : Link) (preference : UInt32) (name : Name) :
    link.addDelegation preference name = encodeContent { link with
      delegations := (link.delegations.eraseIf (hasName name)).insert
        (toLex (preference.toNat, name)) () } := rfl

/-- Without a delegation of the name nothing changes. -/
theorem removeDelegation_cases {link next : Link} {hasRemoved : Bool}
    (hremove : link.removeDelegation name = .ok (hasRemoved, next)) :
    encodeContent { link with delegations := link.delegations.eraseIf (hasName name) } = .ok next ∨
      link.delegations.eraseIf (hasName name) = link.delegations ∧ next = link := by
  have hremove : (if (link.delegations.entries.any fun entry ↦ hasName name entry.1) = true then
      (encodeContent { link with delegations := link.delegations.eraseIf (hasName name) }).map
        fun encoded ↦ (true, encoded)
      else .ok (false, { link with delegations := link.delegations.eraseIf (hasName name) })) =
        .ok (hasRemoved, next) := by
    rw [← hremove, removeDelegation, removeDelegationNoEncode]
    cases link.delegations.entries.any fun entry ↦ hasName name entry.1 <;> rfl
  split_ifs at hremove with hany
  · left
    cases hencode : encodeContent
        { link with delegations := link.delegations.eraseIf (hasName name) } with
    | error error => simp [hencode, Except.map] at hremove
    | ok encoded =>
      simp only [hencode, Except.map, Except.ok.injEq, Prod.mk.injEq] at hremove
      rw [hremove.2]
  · right
    have hsame : link.delegations.eraseIf (hasName name) = link.delegations := by
      apply OrderedMap.eq_of_entries_eq
      apply List.filter_eq_self.mpr
      intro entry hentry
      simp only [List.any_eq_true, not_exists, not_and] at hany
      simpa using hany entry hentry
    rw [hsame] at hremove
    exact ⟨hsame, (Prod.mk.inj (Except.ok.inj hremove)).2.symm⟩

theorem isBuilt_perform {start link next : Link} {call : Call} (hbuilt : IsBuilt start past link)
    (hnext : link.perform call = some next) : IsBuilt start (past ++ [call]) next := by
  cases call with
  | addDelegation preference name =>
    have hencode := toOption_eq_some_iff.mp hnext
    rw [addDelegation_eq] at hencode
    apply isBuilt_of_encodeContent hbuilt hencode
    · intro delegation
      refine mem_insert_eraseIf.trans ?_
      rw [isLastAdded_append_iff, hbuilt.mem_iff]
      simp [Call.name]
    · exact hbuilt.once.insert preference name
  | removeDelegation name =>
    obtain ⟨⟨hasRemoved, removed⟩, hremove, rfl⟩ := Option.map_eq_some_iff.mp hnext
    have hmem := mem_eraseIf_iff_isLastAdded hbuilt name
    rcases removeDelegation_cases (toOption_eq_some_iff.mp hremove) with hencode | ⟨hsame, hlink⟩
    · exact isBuilt_of_encodeContent hbuilt hencode hmem (hbuilt.once.eraseIf name)
    · rw [hsame] at hmem
      dsimp only
      rw [hlink]
      exact ⟨hbuilt.name, hbuilt.wire, hbuilt.metaInfo, hbuilt.content, hmem, hbuilt.once⟩

theorem isBuilt_of_run {start link : Link} {calls : List Call} (hnew : start.IsNew)
    (hrun : Run.run perform start calls = some link) : IsBuilt start calls link :=
  Run.invariant_of_run (IsBuilt start)
    (fun _ _ _ _ hbuilt hnext ↦ isBuilt_perform hbuilt hnext) (isBuilt_of_isNew hnew) hrun

theorem IsBuilt.follows {start link : Link} {calls : List Call} (hbuilt : IsBuilt start calls link) :
    Follows calls link.delegations where
  mem_iff := hbuilt.mem_iff
  once := hbuilt.once.pairwise
  ordered := ordered_entries link.delegations

/-- The names in the set are among those that were passed in. -/
theorem IsBuilt.isReadable {start link : Link} {calls : List Call}
    (hbuilt : IsBuilt start calls link) (hcalls : ∀ call ∈ calls, call.name.IsWellFormed) :
    ∀ entry ∈ link.delegations, IsReadable entry.1 := by
  rintro ⟨delegation, ⟨⟩⟩ hmem
  obtain ⟨before, preference, name, after, rfl, rfl, -⟩ := (hbuilt.mem_iff delegation).mp hmem
  have hcall := hcalls (.addDelegation preference name) (by simp)
  exact ⟨preference.toNat_lt, hcall⟩

/-! ## Looking into the wire -/

/-- The functions that look into the wire find what the set has. -/
structure AgreesOnWire (delegations : DelegationSet) (block : Block) : Prop where
  count : countDelegationsFromWire block = .ok delegations.entries.length
  get : ∀ index, getDelegationFromWire block index =
    .ok (delegations.entries[index]?.map fun entry ↦ ofLex entry.1)
  find : ∀ name, findDelegationFromWire block name =
    .ok (delegations.entries.findIdx? fun entry ↦ hasName name entry.1)

theorem get_name_delegation (delegation : ℕ ×ₗ Name) :
    Block.get [Block.ofValue Tlv.linkPreference (Tlv.prependNonNegativeInteger (ofLex delegation).1),
      (ofLex delegation).2.toBlock] Tlv.name = .ok (ofLex delegation).2.toBlock := rfl

theorem parse_delegationBlock (hsize : (delegationBlock delegation).wire.length < 2 ^ 64) :
    Block.parse (delegationBlock delegation).value = .ok
      [Block.ofValue Tlv.linkPreference (Tlv.prependNonNegativeInteger (ofLex delegation).1),
        (ofLex delegation).2.toBlock] := by
  apply Block.parse_ofElements
  intro element hmem
  have hshort := Block.length_wire_lt_of_mem hsize hmem
  simp only [List.mem_cons, List.not_mem_nil, or_false] at hmem
  rcases hmem with rfl | rfl
  · exact Block.ofValue_integer_isWire (by decide)
  · exact Block.ofElements_isWire (by decide) hshort

theorem ofBlock_toBlock_name (hreadable : IsReadable delegation)
    (hsize : (delegationBlock delegation).wire.length < 2 ^ 64) :
    Name.ofBlock (ofLex delegation).2.toBlock = .ok (ofLex delegation).2 := by
  have hshort : (ofLex delegation).2.toBlock.wire.length < 2 ^ 64 :=
    Block.length_wire_lt_of_mem hsize (by simp)
  have hname := Name.wireDecode_toBlock hreadable.2 hshort
  have htype : (ofLex delegation).2.toBlock.type = Tlv.name := rfl
  rw [Name.wireDecode, if_neg (not_not.mpr htype)] at hname
  exact hname

section Content

variable {delegations : DelegationSet}
  (hsize : (contentBlock delegations).wire.length < 2 ^ 64)
include hsize

theorem length_wire_delegationBlock_lt :
    ∀ entry ∈ delegations.entries, (delegationBlock entry.1).wire.length < 2 ^ 64 :=
  fun _ hmem ↦ Block.length_wire_lt_of_mem hsize (List.mem_map_of_mem hmem)

theorem parse_contentBlock : Block.parse (contentBlock delegations).value =
    .ok (delegations.entries.map fun entry ↦ delegationBlock entry.1) := by
  apply Block.parse_ofElements
  intro element hmem
  obtain ⟨entry, hentry, rfl⟩ := List.mem_map.mp hmem
  exact Block.ofElements_isWire (by decide) (length_wire_delegationBlock_lt hsize entry hentry)

end Content

theorem getDelegationFromWire_eq (hreadable : ∀ entry ∈ entries, IsReadable entry.1)
    (hshort : ∀ entry ∈ entries, (delegationBlock entry.1).wire.length < 2 ^ 64)
    (hfound : delegationsFromWire block = .ok (entries.map fun entry ↦ delegationBlock entry.1))
    (index : ℕ) :
    getDelegationFromWire block index = .ok (entries[index]?.map fun entry ↦ ofLex entry.1) := by
  simp only [getDelegationFromWire, hfound, bind, Except.bind, List.getElem?_map]
  cases hentry : entries[index]? with
  | none => rfl
  | some entry =>
    have hmem := List.mem_of_getElem? hentry
    have hparse := parse_delegationBlock (hshort entry hmem)
    have hname := ofBlock_toBlock_name (hreadable entry hmem) (hshort entry hmem)
    have htype : (delegationBlock entry.1).type = Tlv.linkDelegation := rfl
    have hpreference : (Block.ofValue Tlv.linkPreference
        (Tlv.prependNonNegativeInteger (ofLex entry.1).1)).readUInt32 = .ok (ofLex entry.1).1 := by
      have hlt := (hreadable entry hmem).1
      rw [Block.readUInt32, Block.readNonNegativeInteger_ofValue _ (hlt.trans (by decide))]
      exact congrArg Except.ok (Nat.mod_eq_of_lt hlt)
    simp only [Option.map_some, hparse, htype, ne_eq, not_true_eq_false, if_false, get_name_delegation,
      hname]
    change (Except.bind (Block.ofValue Tlv.linkPreference
      (Tlv.prependNonNegativeInteger (ofLex entry.1).1)).readUInt32 _) = _
    rw [hpreference]
    rfl

theorem findDelegationLoop_eq (hreadable : ∀ entry ∈ entries, IsReadable entry.1)
    (hshort : ∀ entry ∈ entries, (delegationBlock entry.1).wire.length < 2 ^ 64) (counter : ℕ) :
    findDelegationLoop name counter (entries.map fun entry ↦ delegationBlock entry.1) =
      .ok ((entries.findIdx? fun entry ↦ hasName name entry.1).map (counter + ·)) := by
  induction entries generalizing counter with
  | nil => rfl
  | cons entry entries ih =>
    obtain ⟨hfirst, hreadableRest⟩ := List.forall_mem_cons.mp hreadable
    obtain ⟨hfirstShort, hshortRest⟩ := List.forall_mem_cons.mp hshort
    have hparse := parse_delegationBlock hfirstShort
    have hname := ofBlock_toBlock_name hfirst hfirstShort
    have htype : (delegationBlock entry.1).type = Tlv.linkDelegation := rfl
    simp only [List.map_cons, findDelegationLoop, hparse, htype, ne_eq, not_true_eq_false, if_false,
      get_name_delegation, hname, bind, Except.bind, List.findIdx?_cons]
    cases hhas : hasName name entry.1 with
    | true =>
      have hequals : (ofLex entry.1).2.equals name = true := hhas
      simp [hequals, pure, Except.pure]
    | false =>
      have hequals : (ofLex entry.1).2.equals name = false := hhas
      simp only [hequals, Bool.false_eq_true, if_false, ih hreadableRest hshortRest, Option.map_map]
      apply congrArg Except.ok
      apply congrFun
      apply congrArg
      funext position
      simp only [Function.comp_apply]
      omega

/-- A block that has the content block of the delegations as its content. -/
theorem agreesOnWire_of_get {delegations : DelegationSet}
    (hreadable : ∀ entry ∈ delegations, IsReadable entry.1)
    (hsize : (contentBlock delegations).wire.length < 2 ^ 64)
    (hparse : Block.parse block.value = .ok elements)
    (hget : Block.get elements Tlv.content = .ok (contentBlock delegations)) :
    AgreesOnWire delegations block := by
  have hshort := length_wire_delegationBlock_lt hsize
  have hfound : delegationsFromWire block =
      .ok (delegations.entries.map fun entry ↦ delegationBlock entry.1) := by
    rw [delegationsFromWire, hparse]
    simp only [bind, Except.bind, hget, parse_contentBlock hsize]
  refine ⟨?_, fun index ↦ getDelegationFromWire_eq hreadable hshort hfound index, fun name ↦ ?_⟩
  · rw [countDelegationsFromWire, hfound]
    simp only [bind, Except.bind, pure, Except.pure, List.length_map]
  · rw [findDelegationFromWire, hfound]
    have hloop : findDelegationLoop name 0 _ = _ := findDelegationLoop_eq hreadable hshort 0
    simp only [bind, Except.bind, hloop, Nat.zero_add, Option.map_id']

/-! ## Signed links -/

/-- A signature that a packet can be written and read with, and the blocks that it is written as. -/
structure IsUsable (signature : Signature) (info value : Block) : Prop where
  signed : signature.info.type ≠ -1
  info_written : ∃ answered, signature.info.wireEncode = .ok (info.wire, answered)
  info_type : info.type = Tlv.signatureInfo
  info_isWire : info.IsWire
  info_fits : info.wire.length < 2 ^ 32
  info_decoded : ∃ decoded, SignatureInfo.wireDecode {} info = .ok decoded
  value_eq : signature.value.encode = .ok value
  value : Data.IsSignatureValue value

/-- With whatever signature the link is encoded, its wire agrees with its set. -/
def AgreesOnceSigned (link : Link) : Prop :=
  ∀ signature info value, IsUsable signature info value →
    ∃ wire next block, (link.data.setSignature signature).wireEncode = .ok (wire, next) ∧
      Block.fromWire wire = .ok block ∧ AgreesOnWire link.delegations block

section Signed

variable {start link : Link} {calls : List Call} (hbuilt : IsBuilt start calls link)
include hbuilt

theorem IsBuilt.metaInfo_spec :
    link.data.metaInfo.IsEncodable ∧ link.data.metaInfo.toBlock.wire.length ≤ 5 := by
  rcases hbuilt.metaInfo with hold | hold <;> rw [hold] <;>
    exact ⟨⟨by decide, by decide, by decide, by simp⟩, by decide⟩

theorem IsBuilt.isMadeOf (hname : start.data.name.IsWellFormed)
    (hfits : (contentBlock link.delegations).wire.length < 2 ^ 32) {signature : Signature}
    {info value : Block} (husable : IsUsable signature info value) :
    (link.data.setSignature signature).IsMadeOf (contentBlock link.delegations) info where
  name := hbuilt.name ▸ hname
  metaInfo := hbuilt.metaInfo_spec.1
  content_eq := hbuilt.content
  content_type := rfl
  content_isWire := Block.ofElements_isWire (by decide) (hfits.trans (by decide))
  content_fits := hfits
  signed := husable.signed
  info_written := husable.info_written
  info_type := husable.info_type
  info_isWire := husable.info_isWire
  info_fits := husable.info_fits

theorem IsBuilt.agreesOnceSigned (hname : start.data.name.IsWellFormed)
    (hshort : start.data.name.toBlock.wire.length < 2 ^ 63)
    (hcalls : ∀ call ∈ calls, call.name.IsWellFormed)
    (hfits : (contentBlock link.delegations).wire.length < 2 ^ 32) : link.AgreesOnceSigned := by
  intro signature info value husable
  have hparts := hbuilt.isMadeOf hname hfits husable
  have hmetaInfo := hbuilt.metaInfo_spec.2
  have hinfo := husable.info_fits
  have hvalue := husable.value.fits
  have hsame : link.data.name = start.data.name := hbuilt.name
  have hsize : ((link.data.setSignature signature).signedBlock (contentBlock link.delegations) info
      value).wire.length < 2 ^ 64 := by
    have htype := Tlv.sizeOfVarNumber_le Tlv.data
    have hlength := Tlv.sizeOfVarNumber_le
      (((link.data.setSignature signature).unsignedElements (contentBlock link.delegations) info ++
        [value]).flatMap Block.wire).length
    rw [Data.signedBlock, Block.ofElements, Block.length_wire_ofValue]
    simp only [Data.unsignedElements, List.cons_append, List.nil_append, List.flatMap_cons,
      List.flatMap_nil, List.append_nil, List.length_append] at hlength ⊢
    have hnameLength : (link.data.setSignature signature).name.toBlock.wire.length < 2 ^ 63 := by
      rw [← hsame] at hshort
      exact hshort
    have hmetaLength : (link.data.setSignature signature).metaInfo.toBlock.wire.length ≤ 5 :=
      hmetaInfo
    omega
  obtain ⟨decodedInfo, hdecoded⟩ := husable.info_decoded
  have hnone : (link.data.setSignature signature).wire = none := rfl
  obtain ⟨next, hencode⟩ := Data.wireEncode_eq_signedBlock hparts husable.value hsize hnone
    husable.value_eq (Block.prependWire_eq hvalue) hdecoded
  refine ⟨_, next, _, hencode, Block.fromWire_ofElements (by decide) hsize, ?_⟩
  exact agreesOnWire_of_get (hbuilt.isReadable hcalls) (hfits.trans (by decide))
    (Data.parse_signedBlock hparts husable.value hsize)
    (Block.get_eq_ok
      (Data.find_unsignedElements _ hparts.content_type hparts.info_type [value]).2.2.1)

end Signed

/-! ## Contents that are too long

Nothing shorter than the content block of the delegations has the same delegations, so a content that
was cut off cannot be taken for it.
-/

theorem length_flatMap_ofValue_le (hwires : ∀ element ∈ elements, element.IsWire) :
    ((elements.map fun element ↦ Block.ofValue element.type element.value).flatMap
      Block.wire).length ≤ (elements.flatMap Block.wire).length := by
  induction elements with
  | nil => exact le_rfl
  | cons element elements ih =>
    obtain ⟨hfirst, hrest⟩ := List.forall_mem_cons.mp hwires
    have hle := hfirst.length_wire_ofValue_le le_rfl
    have hlater := ih hrest
    simp only [List.map_cons, List.flatMap_cons, List.length_append]
    omega

theorem length_toBlock_name_le (hwire : block.IsWire) (htype : block.type = Tlv.name)
    (hread : Name.ofBlock block = .ok name) : name.toBlock.wire.length ≤ block.wire.length := by
  rw [Name.ofBlock, bind_eq_ok_iff] at hread
  obtain ⟨elements, hparse, hname⟩ := hread
  cases hname
  obtain ⟨hvalue, hwires⟩ := Block.parse_eq_ok_iff.mp hparse
  have hle := length_flatMap_ofValue_le hwires
  rw [← hvalue] at hle
  have hshortest := hwire.length_wire_ofValue_le hle
  rw [htype] at hshortest
  simp only [Name.toBlock, List.map_map]
  exact hshortest

theorem prependNonNegativeIntegerSize_le {bytes : Bytes} {number : ℕ}
    (hread : Tlv.readNonNegativeInteger bytes.length bytes = .ok number) :
    Tlv.prependNonNegativeIntegerSize number ≤ bytes.length := by
  have hlt := Bytes.toNumber_lt bytes
  unfold Tlv.readNonNegativeInteger at hread
  split_ifs at hread with hsize
  have hnumber : number = Bytes.toNumber bytes := by
    simpa [Tlv.readFixed, eq_comm] using hread
  subst hnumber
  unfold Tlv.prependNonNegativeIntegerSize
  rcases hsize with hsize | hsize | hsize | hsize <;> rw [hsize] at hlt ⊢ <;> split_ifs <;> omega

theorem length_preference_le {preference : ℕ} (hwire : block.IsWire)
    (htype : block.type = Tlv.linkPreference) (hread : block.readUInt32 = .ok preference) :
    (Block.ofValue Tlv.linkPreference (Tlv.prependNonNegativeInteger preference)).wire.length ≤
      block.wire.length := by
  rw [Block.readUInt32, bind_eq_ok_iff] at hread
  obtain ⟨number, hnumber, hpreference⟩ := hread
  cases hpreference
  have hsize := prependNonNegativeIntegerSize_le hnumber
  have hmod : Tlv.prependNonNegativeIntegerSize (number % 2 ^ 32) ≤
      Tlv.prependNonNegativeIntegerSize number := by
    have hle := Nat.mod_le number (2 ^ 32)
    unfold Tlv.prependNonNegativeIntegerSize
    split_ifs <;> omega
  rw [← htype]
  apply hwire.length_wire_ofValue_le
  rw [Tlv.prependNonNegativeInteger, Bytes.length_ofNumber]
  exact hmod.trans hsize

/-- Two different elements do not overlap. -/
theorem length_add_length_le {first second : Block} (hfirst : first ∈ elements)
    (hsecond : second ∈ elements) (hne : first.type ≠ second.type) :
    first.wire.length + second.wire.length ≤ (elements.flatMap Block.wire).length := by
  have hle : ∀ {part : List Block} {element : Block}, element ∈ part →
      element.wire.length ≤ (part.flatMap Block.wire).length := by
    intro part element hmem
    have hsublist := (List.singleton_sublist.mpr hmem).flatMap Block.wire
    simpa using hsublist.length_le
  obtain ⟨front, back, rfl⟩ := List.append_of_mem hfirst
  rw [List.flatMap_append, List.flatMap_cons, List.length_append, List.length_append]
  rcases List.mem_append.mp hsecond with hin | hin
  · have hshort := hle hin
    omega
  · rcases List.mem_cons.mp hin with rfl | hin
    · exact absurd rfl hne
    · have hshort := hle hin
      omega

/-- What a delegation that was found in the wire has read. -/
theorem length_delegationBlock_le {delegationBlock' : Block} {index : ℕ}
    (hfound : delegationsFromWire block = .ok blocks)
    (hblock : blocks[index]? = some delegationBlock') (hwire : delegationBlock'.IsWire)
    (hget : getDelegationFromWire block index = .ok (some (ofLex delegation))) :
    (delegationBlock delegation).wire.length ≤ delegationBlock'.wire.length := by
  rw [getDelegationFromWire, bind_eq_ok_iff] at hget
  obtain ⟨blocks', hblocks', hget⟩ := hget
  obtain rfl : blocks = blocks' := Except.ok.inj (hfound.symm.trans hblocks')
  simp only [hblock] at hget
  rw [bind_eq_ok_iff] at hget
  obtain ⟨elements, hparse, hget⟩ := hget
  split_ifs at hget with htype
  rw [not_not] at htype
  simp only [bind_eq_ok_iff] at hget
  obtain ⟨preferenceBlock, hpreferenceBlock, preference, hpreference, nameBlock, hnameBlock, name,
    hname, hdelegation⟩ := hget
  obtain ⟨hvalue, hwires⟩ := Block.parse_eq_ok_iff.mp hparse
  obtain ⟨hpreferenceMem, hpreferenceType⟩ := Block.mem_of_get hpreferenceBlock
  obtain ⟨hnameMem, hnameType⟩ := Block.mem_of_get hnameBlock
  have hboth := length_add_length_le hpreferenceMem hnameMem
    (by rw [hpreferenceType, hnameType]; decide)
  have hfirst := length_preference_le (hwires _ hpreferenceMem) hpreferenceType hpreference
  have hsecond := length_toBlock_name_le (hwires _ hnameMem) hnameType hname
  have hpair : ofLex delegation = (preference, name) :=
    (Option.some.inj (Except.ok.inj hdelegation)).symm
  rw [delegationBlock, hpair, Block.ofElements, ← htype]
  apply hwire.length_wire_ofValue_le
  simp only [List.flatMap_cons, List.flatMap_nil, List.append_nil, List.length_append]
  rw [hvalue]
  omega

theorem length_contentBlock_le {delegations : DelegationSet}
    (hagrees : AgreesOnWire delegations block) (hfound : delegationsFromWire block = .ok blocks)
    (hwires : ∀ element ∈ blocks, element.IsWire) :
    (contentBlock delegations).value.length ≤ (blocks.flatMap Block.wire).length := by
  have hcount : delegations.entries.length = blocks.length := by
    have hcount := hagrees.count
    rw [countDelegationsFromWire, hfound] at hcount
    exact (Except.ok.inj hcount).symm
  have hpointwise : List.Forall₂ (fun (entry : (ℕ ×ₗ Name) × Unit) (element : Block) ↦
      (delegationBlock entry.1).wire.length ≤ element.wire.length) delegations.entries blocks := by
    apply List.forall₂_iff_get.mpr
    refine ⟨hcount, fun index hentry hblock ↦ ?_⟩
    have hget := hagrees.get index
    rw [List.getElem?_eq_getElem hentry] at hget
    exact length_delegationBlock_le hfound (List.getElem?_eq_getElem hblock)
      (hwires _ (List.getElem_mem hblock)) hget
  change ((delegations.entries.map fun entry ↦ delegationBlock entry.1).flatMap
    Block.wire).length ≤ _
  generalize delegations.entries = entries at hpointwise
  clear hcount hwires hfound
  induction hpointwise with
  | nil => exact le_rfl
  | cons hle hrest ih =>
    simp only [List.map_cons, List.flatMap_cons, List.length_append]
    omega

def sampleSignature : Signature where
  info := { type := 0 }
  value := ⟨Tlv.signatureValue, .value [], []⟩

theorem sampleSignature_isUsable :
    IsUsable sampleSignature (Block.ofValue Tlv.signatureInfo [27, 1, 0])
      (Block.ofValue Tlv.signatureValue []) where
  signed := by decide
  info_written := ⟨_, rfl⟩
  info_type := rfl
  info_isWire := Block.ofValue_isWire (by decide) (by decide)
  info_fits := by decide
  info_decoded := ⟨_, rfl⟩
  value_eq := rfl
  value := ⟨rfl, Block.ofValue_isWire (by decide) (by decide), by decide⟩

/-- What a packet with the small signature is written as, whatever is cut off of its content. -/
theorem wireEncodeInto_sampleSignature {data : Data} {content : Block}
    (hcontent : data.getContent = .ok content) :
    (data.setSignature sampleSignature).wireEncodeInto =
      .ok (Tlv.prependByteArrayBlock Tlv.data
        (data.name.wireEncode ++ (data.metaInfo.wireEncodeInto ++
          (Block.prependWire content.wire ++ [22, 3, 27, 1, 0, 23, 0])))) := by
  have hsame : (data.setSignature sampleSignature).getContent = .ok content := hcontent
  have hsigned : ¬ (data.setSignature sampleSignature).signature.info.type = -1 :=
    sampleSignature_isUsable.signed
  have hvalue : (data.setSignature sampleSignature).signature.value.encode = _ :=
    sampleSignature_isUsable.value_eq
  obtain ⟨answered, hinfo⟩ := sampleSignature_isUsable.info_written
  have hinfo : (data.setSignature sampleSignature).signature.info.wireEncode = _ := hinfo
  have hwritten : Block.prependWire (Block.ofValue Tlv.signatureInfo [27, 1, 0]).wire ++
      Block.prependWire (Block.ofValue Tlv.signatureValue []).wire = [22, 3, 27, 1, 0, 23, 0] := by
    decide
  rw [Data.wireEncodeInto, if_neg hsigned, hvalue, hinfo, hsame]
  simp only [bind, Except.bind, pure, Except.pure, hwritten]
  rfl

/-- The content is found behind the name and the meta information. -/
theorem length_le_of_delegationsFromWire {name metaInfo : Block} {tail : Bytes}
    (hname : name.IsWire) (hnameType : name.type = Tlv.name) (hmetaInfo : metaInfo.IsWire)
    (hmetaInfoType : metaInfo.type = Tlv.metaInfo)
    (hvalue : block.value = name.wire ++ (metaInfo.wire ++ tail))
    (hfound : delegationsFromWire block = .ok blocks) :
    (blocks.flatMap Block.wire).length ≤ tail.length ∧ ∀ element ∈ blocks, element.IsWire := by
  simp only [delegationsFromWire, bind_eq_ok_iff] at hfound
  obtain ⟨elements, hparse, content, hget, hblocks⟩ := hfound
  have hfront : block.value = [name, metaInfo].flatMap Block.wire ++ tail := by
    rw [hvalue]
    simp
  rw [hfront] at hparse
  obtain ⟨rest, rfl, hrest⟩ := Block.parse_flatMap_wire_append
    (by simp [hname, hmetaInfo]) hparse
  obtain ⟨htail, hwires⟩ := Block.parse_eq_ok_iff.mp hrest
  have hmem : content ∈ rest := by
    obtain ⟨hmem, htype⟩ := Block.mem_of_get hget
    rcases List.mem_append.mp hmem with hin | hin
    · simp only [List.mem_cons, List.not_mem_nil, or_false] at hin
      rcases hin with rfl | rfl
      · rw [hnameType] at htype
        cases htype
      · rw [hmetaInfoType] at htype
        cases htype
    · exact hin
  obtain ⟨hcontent, hblockWires⟩ := Block.parse_eq_ok_iff.mp hblocks
  refine ⟨?_, hblockWires⟩
  obtain ⟨header, hheader, -⟩ := (hwires content hmem).exists_header
  have hsublist := (List.singleton_sublist.mpr hmem).flatMap Block.wire
  have hle := hsublist.length_le
  rw [List.flatMap_singleton, hheader, List.length_append, ← htail, hcontent] at hle
  omega

theorem IsBuilt.not_agreesOnceSigned {start link : Link} {calls : List Call}
    (hbuilt : IsBuilt start calls link)
    (hshort : start.data.name.toBlock.wire.length < 2 ^ 63)
    (hlong : 2 ^ 32 ≤ (contentBlock link.delegations).wire.length) : ¬ link.AgreesOnceSigned := by
  intro hall
  obtain ⟨wire, next, block, hencode, hblock, hagrees⟩ := hall _ _ _ sampleSignature_isUsable
  have hnone : (link.data.setSignature sampleSignature).wire = none := rfl
  have hwritten : (link.data.setSignature sampleSignature).wireEncodeInto >>= bufferBlock =
      .ok wire := by
    rcases CodeStore.recall_cases hencode with ⟨hstored, -⟩ | ⟨-, hencode, -⟩
    · cases hnone.symm.trans hstored
    · exact hencode
  rw [wireEncodeInto_sampleSignature hbuilt.content] at hwritten
  obtain ⟨-, rfl⟩ := (bufferBlock_eq_ok_iff (by decide)).mp hwritten
  obtain ⟨-, rfl⟩ := (Block.fromWire_prependByteArrayBlock_eq_ok_iff (by decide)).mp hblock
  have hcount := hagrees.count
  rw [countDelegationsFromWire, bind_eq_ok_iff] at hcount
  obtain ⟨blocks, hfound, -⟩ := hcount
  have hname : link.data.name.toBlock.IsWire := by
    rw [hbuilt.name]
    exact Block.ofElements_isWire (by decide) (hshort.trans (by decide))
  have hmetaInfo : link.data.metaInfo.toBlock.IsWire :=
    Block.ofElements_isWire (by decide) (hbuilt.metaInfo_spec.2.trans_lt (by decide))
  obtain ⟨hle, hwires⟩ := length_le_of_delegationsFromWire hname rfl hmetaInfo rfl
    (by rw [Name.wireEncode_eq, MetaInfo.wireEncodeInto_eq hbuilt.metaInfo_spec.1]; rfl) hfound
  have hvalue := (length_contentBlock_le hagrees hfound hwires).trans hle
  -- the content that was written lacks at least 2 ^ 32 bytes
  have hcut := Nat.mod_lt (contentBlock link.delegations).wire.length (Nat.two_pow_pos 32)
  have htype := Tlv.sizeOfVarNumber_le Tlv.content
  have hlength := Tlv.sizeOfVarNumber_le (contentBlock link.delegations).value.length
  have htotal : (contentBlock link.delegations).wire.length =
      Tlv.sizeOfVarNumber Tlv.content +
        Tlv.sizeOfVarNumber (contentBlock link.delegations).value.length +
          (contentBlock link.delegations).value.length := Block.length_wire_ofValue _ _
  rw [Block.prependWire, List.length_append, List.length_take] at hvalue
  simp only [List.length_cons, List.length_nil] at hvalue
  omega

/-! ## The set and its wire -/

/-- The delegations of a link follow the calls, and the functions that look into its wire agree with
them, exactly if the content block can be written as a block of 32-bit size. -/
theorem follows_and_agreesOnceSigned_iff {start link : Link} {calls : List Call}
    (hnew : start.IsNew) (hname : start.data.name.IsWellFormed)
    (hshort : start.data.name.toBlock.wire.length < 2 ^ 63)
    (hcalls : ∀ call ∈ calls, call.name.IsWellFormed)
    (hrun : Run.run perform start calls = some link) :
    (Follows calls link.delegations ∧ link.AgreesOnceSigned) ↔
      (contentBlock link.delegations).wire.length < 2 ^ 32 := by
  have hbuilt := isBuilt_of_run hnew hrun
  constructor
  · rintro ⟨-, hagrees⟩
    by_contra hlong
    exact hbuilt.not_agreesOnceSigned hshort (not_lt.mp hlong) hagrees
  · intro hfits
    exact ⟨hbuilt.follows, hbuilt.agreesOnceSigned hname hshort hcalls hfits⟩

/-- A name is added again with another preference, and another one is removed. -/
theorem follows_and_agreesOnceSigned_updated :
    ∃ link, Run.run perform make [.addDelegation 10 [.generic [0x61]],
        .addDelegation 5 [.generic [0x62]], .addDelegation 1 [.generic [0x63]],
        .addDelegation 20 [.generic [0x62]], .removeDelegation [.generic [0x63]]] = some link ∧
      link.delegations.entries.map (fun entry ↦ ofLex entry.1) =
        [(10, [.generic [0x61]]), (20, [.generic [0x62]])] ∧ link.AgreesOnceSigned := by
  refine ⟨_, rfl, rfl, ?_⟩
  let calls : List Call := [.addDelegation 10 [.generic [0x61]],
    .addDelegation 5 [.generic [0x62]], .addDelegation 1 [.generic [0x63]],
    .addDelegation 20 [.generic [0x62]], .removeDelegation [.generic [0x63]]]
  have hcalls : ∀ call ∈ calls, call.name.IsWellFormed := by decide
  exact ((follows_and_agreesOnceSigned_iff (Or.inl rfl) (by decide) (by decide) hcalls
    rfl).mpr (by decide)).2

theorem exists_encodeContent (link : Link)
    (hsize : (contentBlock link.delegations).wire.length < 2 ^ 64) :
    ∃ next, link.encodeContent = .ok next := by
  have hblock : Block.fromWire link.encodeContentInto = .ok (contentBlock link.delegations) := by
    rw [encodeContentInto_eq]
    exact Block.fromWire_ofElements (by decide) hsize
  have htype : (contentBlock link.delegations).toUnencoded.type = Tlv.content := rfl
  rw [encodeContent, hblock]
  simp only [bind, Except.bind, Data.setContent, if_pos htype]
  exact ⟨_, rfl⟩

/-- One delegation whose name has a component of `2 ^ 32` bytes. -/
theorem not_agreesOnceSigned_of_length {value : Bytes} (hlength : value.length = 2 ^ 32) :
    ∃ link, Run.run perform make [.addDelegation 0 [Component.generic value]] = some link ∧
      ¬ link.AgreesOnceSigned := by
  let delegations : DelegationSet := OrderedMap.insert
    (OrderedMap.eraseIf OrderedMap.empty (hasName [Component.generic value]))
    (toLex (0, [Component.generic value])) ()
  have hentries : delegations.entries = [(toLex (0, [Component.generic value]), ())] := rfl
  have hwire : (contentBlock delegations).wire.length = 2 ^ 32 + 43 := by
    have hcomponent : (Component.generic value).toBlock.wire.length = 2 ^ 32 + 10 := by
      simp [Component.toBlock, Component.generic, Block.length_wire_ofValue, hlength,
        Tlv.sizeOfVarNumber, Tlv.nameComponent]
    have hname : (Name.toBlock [Component.generic value]).wire.length = 2 ^ 32 + 20 := by
      simp [Name.toBlock, Block.ofElements, Block.length_wire_ofValue, hcomponent,
        Tlv.sizeOfVarNumber, Tlv.name]
    have hpreference : (Block.ofValue Tlv.linkPreference
        (Tlv.prependNonNegativeInteger 0)).wire.length = 3 := by decide
    have hdelegation : (delegationBlock (toLex (0, [Component.generic value]))).wire.length =
        2 ^ 32 + 33 := by
      simp [delegationBlock, Block.ofElements, Block.length_wire_ofValue, hname, hpreference,
        Tlv.sizeOfVarNumber, Tlv.linkDelegation]
    simp [contentBlock, hentries, Block.ofElements, Block.length_wire_ofValue, hdelegation,
      Tlv.sizeOfVarNumber, Tlv.content]
  obtain ⟨link, hencode⟩ := exists_encodeContent { make with delegations := delegations }
    (by rw [hwire]; decide)
  have hadd : make.addDelegation 0 [Component.generic value] = .ok link := hencode
  have hstep : make.perform (.addDelegation 0 [Component.generic value]) = some link := by
    rw [perform, hadd]
    rfl
  have hrun : Run.run perform make [.addDelegation 0 [Component.generic value]] = some link :=
    Run.run_cons_eq_some.mpr ⟨link, hstep, rfl⟩
  refine ⟨link, hrun, (isBuilt_of_run (Or.inl rfl) hrun).not_agreesOnceSigned (by decide) ?_⟩
  rw [(encodeContent_spec hencode).1, hwire]
  decide

/-- A name of a little more than 4 GiB is kept in the set and lost on the wire. -/
theorem addDelegation_lost_on_wire :
    ∃ link, Run.run perform make [.addDelegation 0 [.generic (List.replicate (2 ^ 32) 0)]] =
        some link ∧
      ¬ (Follows [.addDelegation 0 [.generic (List.replicate (2 ^ 32) 0)]] link.delegations ∧
        link.AgreesOnceSigned) := by
  obtain ⟨link, hrun, hnot⟩ := not_agreesOnceSigned_of_length List.length_replicate
  exact ⟨link, hrun, fun hboth ↦ hnot hboth.2⟩

end Packet.Link

end NdnCxx
