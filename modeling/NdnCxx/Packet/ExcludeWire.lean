import NdnCxx.Name.Number
import NdnCxx.Packet.Exclude
import NdnCxx.Packet.KeyLocator

/-!
# The wire of an exclude filter

Boundaries are written in ascending order, each followed by an ANY element if it carries the flag.
The empty component with the flag is written as the ANY element alone, which is unambiguous only in
front of all other boundaries.
-/

namespace NdnCxx

namespace Packet

/-- An `Exclude` with its members. -/
structure Exclude where
  filter : NdnCxx.Exclude := NdnCxx.Exclude.empty
  wire : Option Bytes := none
  deriving DecidableEq

namespace Exclude

def isEmpty (exclude : Exclude) : Bool := exclude.filter.boundaries.entries.isEmpty

/-! ## Mutators -/

def excludeOne (exclude : Exclude) (component : Component) : Exclude :=
  if !exclude.filter.isExcluded component then
    { filter := exclude.filter.excludeOne component, wire := none }
  else exclude

def excludeRange (exclude : Exclude) (lower upper : Component) : Except Error Exclude := do
  let filter ← exclude.filter.excludeRange lower upper
  return { filter := filter, wire := none }

def excludeBefore (exclude : Exclude) (upper : Component) : Except Error Exclude :=
  exclude.excludeRange Component.empty upper

def excludeAfter (exclude : Exclude) (lower : Component) : Exclude :=
  { filter := exclude.filter.excludeAfter lower, wire := none }

def appendExclude (exclude : Exclude) (name : Component) (any : Bool) : Exclude :=
  { exclude with filter := ⟨exclude.filter.boundaries.assign name any⟩ }

def clear (exclude : Exclude) : Exclude := { filter := exclude.filter.clear, wire := none }

/-! ## Encoding and decoding -/

def prependItem (item : Component × Bool) : Bytes :=
  (if !item.1.isEmpty || !item.2 then item.1.wireEncode else []) ++
    (if item.2 then Block.prependEmptyBlock Tlv.any else [])

def wireEncodeInto (exclude : Exclude) : Except Error Bytes :=
  if exclude.isEmpty then .error ⟨.exclude, "Exclude filter cannot be empty"⟩
  else
    let items := exclude.filter.boundaries.entries
    .ok (Tlv.prependByteArrayBlock Tlv.exclude
      (items.foldl (fun written item ↦ prependItem item ++ written) []))

def codes : CodeStore Exclude Bytes Error where
  encode exclude := exclude.wireEncodeInto >>= bufferBlock
  stored := Exclude.wire
  store exclude wire := .ok { exclude with wire := some wire }

def wireEncode (exclude : Exclude) : Except Error (Bytes × Exclude) := codes.recallCode exclude

/-- The component of an element, in the loop of `wireDecode`. -/
def excludedComponent (element : Block) : Except Error Component :=
  match Component.ofBlock element.type element.value with
  | .ok component => .ok component
  | .error _ => .error ⟨.exclude, "Incorrect format of Exclude filter"⟩

/-- The loop of `wireDecode`. -/
def decodeItems (exclude : Exclude) : List Block → Except Error Exclude
  | [] => .ok exclude
  | [element] => do return exclude.appendExclude (← excludedComponent element) false
  | element :: next :: later => do
      let component ← excludedComponent element
      if next.type = Tlv.any then decodeItems (exclude.appendExclude component true) later
      else decodeItems (exclude.appendExclude component false) (next :: later)

def wireDecode (exclude : Exclude) (wire : Block) : Except Error Exclude :=
  let cleared := exclude.clear
  if wire.type ≠ Tlv.exclude then throw ⟨.tlv, "Unexpected TLV type when decoding Exclude"⟩
  else do
    let decoded := { cleared with wire := some wire.wire }
    match ← Block.parse wire.value with
    | [] => throw ⟨.exclude, "Exclude element cannot be empty"⟩
    | first :: rest =>
        if first.type = Tlv.any then
          decodeItems (decoded.appendExclude Component.empty true) rest
        else decodeItems decoded (first :: rest)

/-- A call that changes the filter. -/
inductive Call
  | excludeOne (component : Component)
  | excludeRange (lower upper : Component)
  | excludeBefore (upper : Component)
  | excludeAfter (lower : Component)
  | appendExclude (name : Component) (any : Bool)
  | clear
  | wireDecode (wire : Block)
  deriving DecidableEq

/-- Perform a call that returns normally. -/
def perform (exclude : Exclude) : Call → Option Exclude
  | .excludeOne component => some (exclude.excludeOne component)
  | .excludeRange lower upper => (exclude.excludeRange lower upper).toOption
  | .excludeBefore upper => (exclude.excludeBefore upper).toOption
  | .excludeAfter lower => some (exclude.excludeAfter lower)
  | .appendExclude name any => some (exclude.appendExclude name any)
  | .clear => some exclude.clear
  | .wireDecode wire => (exclude.wireDecode wire).toOption

/-! ## Reading back what was written -/

def itemElements (item : Component × Bool) : List Block :=
  (if !item.1.isEmpty || !item.2 then [item.1.toBlock] else []) ++
    (if item.2 then [Block.ofValue Tlv.any []] else [])

/-- The elements in the order of the wire: smallest boundary first. -/
def elements (filter : NdnCxx.Exclude) : List Block :=
  filter.boundaries.entries.reverse.flatMap itemElements

def toBlock (filter : NdnCxx.Exclude) : Block := Block.ofElements Tlv.exclude (elements filter)

theorem flatMap_wire_itemElements (item : Component × Bool) :
    (itemElements item).flatMap Block.wire = prependItem item := by
  have hany : Tlv.prependByteArrayBlock Tlv.any [] = Block.prependEmptyBlock Tlv.any :=
    Block.prependByteArrayBlock_nil Tlv.any
  unfold itemElements prependItem
  split_ifs <;> simp [hany, Component.toBlock, Component.wireEncode, Block.ofValue]

theorem foldl_prependItem (items : List (Component × Bool)) (written : Bytes) :
    items.foldl (fun written item ↦ prependItem item ++ written) written =
      (items.reverse.flatMap itemElements).flatMap Block.wire ++ written := by
  induction items generalizing written with
  | nil => rfl
  | cons item items ih =>
    rw [List.foldl_cons, ih, List.reverse_cons, List.flatMap_append, List.flatMap_append,
      List.append_assoc, List.flatMap_singleton, flatMap_wire_itemElements]

theorem wireEncodeInto_eq {exclude : Exclude} (hnonempty : exclude.isEmpty = false) :
    exclude.wireEncodeInto = .ok (toBlock exclude.filter).wire := by
  simp only [wireEncodeInto, hnonempty, Bool.false_eq_true, if_false, foldl_prependItem,
    List.append_nil]
  rfl

theorem type_toBlock_ne_any {component : Component} (hvalid : component.IsValid) :
    component.toBlock.type ≠ Tlv.any := by
  change component.type ≠ Tlv.any
  rcases hvalid.type_cases with htype | htype <;> rw [htype] <;> decide

theorem excludedComponent_toBlock {component : Component} (hvalid : component.IsValid) :
    excludedComponent component.toBlock = .ok component := by
  rw [excludedComponent, Component.ofBlock_toBlock hvalid]

def IsPlain (item : Component × Bool) : Prop := item.1.isEmpty = true → item.2 = false

theorem itemElements_of_isPlain {item : Component × Bool} (hplain : IsPlain item) :
    itemElements item =
      item.1.toBlock :: if item.2 then [Block.ofValue Tlv.any []] else [] := by
  have hwritten : (!item.1.isEmpty || !item.2) = true := by
    cases hempty : item.1.isEmpty with
    | false => rfl
    | true => simp [hplain hempty]
  rw [itemElements, if_pos hwritten, List.singleton_append]

variable {later : List Block}

section Loop

variable {exclude : Exclude} {component : Component} (hvalid : component.IsValid)
include hvalid

theorem decodeItems_cons_any (later : List Block) :
    decodeItems exclude (component.toBlock :: Block.ofValue Tlv.any [] :: later) =
      decodeItems (exclude.appendExclude component true) later := by
  have hany : (Block.ofValue Tlv.any []).type = Tlv.any := rfl
  rw [decodeItems, excludedComponent_toBlock hvalid]
  simp only [bind, Except.bind, hany, if_true]

theorem decodeItems_cons (hnext : ∀ next ∈ later.head?, next.type ≠ Tlv.any) :
    decodeItems exclude (component.toBlock :: later) =
      decodeItems (exclude.appendExclude component false) later := by
  cases later with
  | nil =>
    simp only [decodeItems, excludedComponent_toBlock hvalid, bind, Except.bind, pure, Except.pure]
  | cons next later =>
    rw [decodeItems, excludedComponent_toBlock hvalid]
    simp only [bind, Except.bind, if_neg (hnext next rfl)]

end Loop

/-- The items one after the other, as `appendExclude` takes them. -/
def appendItems (exclude : Exclude) (items : List (Component × Bool)) : Exclude :=
  items.foldl (fun read item ↦ read.appendExclude item.1 item.2) exclude

variable {items : List (Component × Bool)} {filter : NdnCxx.Exclude}

/-- Plain items are read one after the other, whatever follows them but an ANY element. -/
theorem decodeItems_flatMap_append (exclude : Exclude) (hvalid : ∀ item ∈ items, item.1.IsValid)
    (hplain : ∀ item ∈ items, IsPlain item) (hlater : ∀ next ∈ later.head?, next.type ≠ Tlv.any) :
    decodeItems exclude (items.flatMap itemElements ++ later) =
      decodeItems (exclude.appendItems items) later := by
  induction items generalizing exclude with
  | nil => rfl
  | cons item items ih =>
    have hitem := hvalid item List.mem_cons_self
    have hvalidRest : ∀ other ∈ items, other.1.IsValid :=
      fun other hother ↦ hvalid other (List.mem_cons_of_mem item hother)
    have hplainRest : ∀ other ∈ items, IsPlain other :=
      fun other hother ↦ hplain other (List.mem_cons_of_mem item hother)
    have hstep : decodeItems exclude ((item :: items).flatMap itemElements ++ later) =
        decodeItems (exclude.appendExclude item.1 item.2) (items.flatMap itemElements ++ later) := by
      rw [List.flatMap_cons, itemElements_of_isPlain (hplain item List.mem_cons_self)]
      cases hflag : item.2 with
      | true => exact decodeItems_cons_any hitem _
      | false =>
        apply decodeItems_cons hitem
        intro next hnext
        cases items with
        | nil => exact hlater next hnext
        | cons other items =>
          have hwritten := itemElements_of_isPlain (hplainRest other List.mem_cons_self)
          rw [List.flatMap_cons, hwritten] at hnext
          obtain rfl := Option.mem_some_iff.mp hnext
          exact type_toBlock_ne_any (hvalidRest other List.mem_cons_self)
    rw [hstep, ih _ hvalidRest hplainRest]
    rfl

theorem wire_appendItems (exclude : Exclude) (items : List (Component × Bool)) :
    (exclude.appendItems items).wire = exclude.wire := by
  induction items generalizing exclude with
  | nil => rfl
  | cons item items ih => exact ih _

/-- Items that follow everything read so far come in front of it. -/
theorem entries_appendItems (exclude : Exclude)
    (hsorted : items.Pairwise fun first second ↦ first.1 < second.1)
    (habove : ∀ item ∈ items, ∀ entry ∈ exclude.filter.boundaries, entry.1 < item.1) :
    (exclude.appendItems items).filter.boundaries.entries =
      items.reverse ++ exclude.filter.boundaries.entries := by
  induction items generalizing exclude with
  | nil => rfl
  | cons item items ih =>
    obtain ⟨hfirst, hrest⟩ := List.pairwise_cons.mp hsorted
    have hentries : (exclude.appendExclude item.1 item.2).filter.boundaries.entries =
        (item.1, item.2) :: exclude.filter.boundaries.entries :=
      OrderedMap.entries_assign_of_forall_lt (habove item List.mem_cons_self)
    have hlater : ∀ other ∈ items, ∀ entry ∈ (exclude.appendExclude item.1 item.2).filter.boundaries,
        entry.1 < other.1 := by
      intro other hother entry hentry
      rw [OrderedMap.mem_def, hentries, List.mem_cons] at hentry
      rcases hentry with rfl | hold
      · exact hfirst other hother
      · exact habove other (List.mem_cons_of_mem item hother) entry hold
    calc _ = items.reverse ++ (exclude.appendExclude item.1 item.2).filter.boundaries.entries :=
          ih _ hrest hlater
      _ = _ := by rw [hentries, List.reverse_cons, List.append_assoc]; rfl

/-- Plain items that follow everything read so far are read in their order. -/
theorem decodeItems_flatMap_itemElements (exclude : Exclude)
    (hvalid : ∀ item ∈ items, item.1.IsValid) (hplain : ∀ item ∈ items, IsPlain item)
    (hsorted : items.Pairwise fun first second ↦ first.1 < second.1)
    (habove : ∀ item ∈ items, ∀ entry ∈ exclude.filter.boundaries, entry.1 < item.1) :
    ∃ decoded, decodeItems exclude (items.flatMap itemElements) = .ok decoded ∧
      decoded.wire = exclude.wire ∧
      decoded.filter.boundaries.entries = items.reverse ++ exclude.filter.boundaries.entries := by
  refine ⟨exclude.appendItems items, ?_, wire_appendItems exclude items,
    entries_appendItems exclude hsorted habove⟩
  have hread : decodeItems exclude (items.flatMap itemElements ++ []) = _ :=
    decodeItems_flatMap_append exclude hvalid hplain (by simp)
  rwa [List.append_nil] at hread

/-! ## Unambiguous filters -/

/-- The boundaries are components that can be read again. -/
def IsValid (filter : NdnCxx.Exclude) : Prop :=
  ∀ entry ∈ filter.boundaries.entries, entry.1.IsValid

/-- The empty boundary stands in front of all others if it carries the flag. -/
def IsUnambiguous (filter : NdnCxx.Exclude) : Prop :=
  ∀ entry ∈ filter.boundaries.entries, entry.1.isEmpty = true → entry.2 = true →
    ∀ other ∈ filter.boundaries.entries, entry.1 ≤ other.1

instance (filter : NdnCxx.Exclude) : Decidable (IsValid filter) :=
  inferInstanceAs (Decidable (∀ entry ∈ filter.boundaries.entries, entry.1.IsValid))

theorem eq_empty_of_isEmpty {component : Component} (hvalid : component.IsValid)
    (hempty : component.isEmpty = true) : component = Component.empty := by
  have hvalue : component.value = [] := by simpa [Component.isEmpty] using hempty
  rcases hvalid with hgeneric | hdigest
  · have htype : component.type = Tlv.nameComponent := by
      simpa [Component.isGeneric] using hgeneric
    cases component
    simp only at hvalue htype
    rw [hvalue, htype]
    rfl
  · simp [Component.isImplicitSha256Digest, hvalue, Tlv.sha256DigestSize] at hdigest

theorem elements_isWire (hvalid : IsValid filter) (hsize : (toBlock filter).wire.length < 2 ^ 64) :
    ∀ element ∈ elements filter, element.IsWire := by
  intro element hmem
  have hshort := Block.length_wire_lt_of_mem hsize hmem
  obtain ⟨item, hitem, helement⟩ := List.mem_flatMap.mp hmem
  rcases List.mem_append.mp helement with hcomponent | hany
  · split_ifs at hcomponent
    · obtain rfl := List.mem_singleton.mp hcomponent
      have htype : item.1.type < 2 ^ 32 := (hvalid item (List.mem_reverse.mp hitem)).type_lt
      exact Block.ofValue_isWire_of_length htype hshort
    · cases hcomponent
  · split_ifs at hany
    · obtain rfl := List.mem_singleton.mp hany
      exact Block.ofValue_isWire (by decide) (by decide)
    · cases hany

theorem sorted_reverse_entries (filter : NdnCxx.Exclude) :
    filter.boundaries.entries.reverse.Pairwise fun first second ↦ first.1 < second.1 :=
  List.pairwise_reverse.mpr filter.boundaries.sorted

theorem eq_of_entries_eq {decoded : Exclude} {wire : Option Bytes} (hwire : decoded.wire = wire)
    (hentries : decoded.filter.boundaries.entries = filter.boundaries.entries) :
    decoded = ⟨filter, wire⟩ := by
  obtain ⟨⟨boundaries⟩, wire'⟩ := decoded
  obtain ⟨boundaries'⟩ := filter
  simp only at hwire hentries
  rw [hwire, OrderedMap.eq_of_entries_eq hentries]

/-- Only the first item can be written without its component. -/
theorem isPlain_of_mem_tail (hunambiguous : IsUnambiguous filter) {item : Component × Bool}
    (hitems : filter.boundaries.entries.reverse = item :: items) :
    ∀ other ∈ items, IsPlain other := by
  have hmem : ∀ other ∈ item :: items, other ∈ filter.boundaries.entries := by
    intro other hother
    exact List.mem_reverse.mp (hitems ▸ hother)
  have hsorted := sorted_reverse_entries filter
  rw [hitems] at hsorted
  intro other hother hempty
  by_contra hflag
  have hle := hunambiguous other (hmem other (List.mem_cons_of_mem item hother)) hempty
    (by simpa using hflag) item (hmem item List.mem_cons_self)
  exact absurd ((List.pairwise_cons.mp hsorted).1 other hother) (not_lt.mpr hle)

/-- The elements of an unambiguous filter, once the leading ANY has been looked at, give the filter
back. -/
theorem decode_elements (wire : Option Bytes) (hvalid : IsValid filter)
    (hunambiguous : IsUnambiguous filter) {first : Block} {rest : List Block}
    (helements : elements filter = first :: rest) :
    (if first.type = Tlv.any then
      decodeItems (appendExclude ⟨NdnCxx.Exclude.empty, wire⟩ Component.empty true) rest
    else decodeItems ⟨NdnCxx.Exclude.empty, wire⟩ (first :: rest)) = .ok ⟨filter, wire⟩ := by
  have hsorted := sorted_reverse_entries filter
  have hvalidItems : ∀ item ∈ filter.boundaries.entries.reverse, item.1.IsValid :=
    fun item hitem ↦ hvalid item (List.mem_reverse.mp hitem)
  rw [elements] at helements
  cases hitems : filter.boundaries.entries.reverse with
  | nil => simp [hitems] at helements
  | cons item items =>
    have hentries : filter.boundaries.entries = items.reverse ++ [item] := by
      rw [← List.reverse_cons, ← hitems, List.reverse_reverse]
    have hlater := isPlain_of_mem_tail hunambiguous hitems
    rw [hitems] at hsorted hvalidItems helements
    by_cases hplain : IsPlain item
    · have hhead : first = item.1.toBlock := by
        rw [List.flatMap_cons, itemElements_of_isPlain hplain] at helements
        exact (List.cons.inj helements).1.symm
      have hcomponent : first.type ≠ Tlv.any :=
        hhead ▸ type_toBlock_ne_any (hvalidItems item List.mem_cons_self)
      obtain ⟨decoded, hdecode, hwire, hread⟩ := decodeItems_flatMap_itemElements
        ⟨NdnCxx.Exclude.empty, wire⟩ hvalidItems (List.forall_mem_cons.mpr ⟨hplain, hlater⟩) hsorted
        (fun _ _ entry hentry ↦ absurd hentry (OrderedMap.not_mem_empty entry))
      rw [if_neg hcomponent, ← helements, hdecode]
      apply congrArg Except.ok
      apply eq_of_entries_eq
      · exact hwire
      · rw [hread, hentries, List.reverse_cons]
        exact List.append_nil _
    · have hempty : item.1.isEmpty = true := by
        by_contra hfalse
        exact hplain fun htrue ↦ absurd htrue hfalse
      have hflag : item.2 = true := by
        by_contra hfalse
        exact hplain fun _ ↦ by simpa using hfalse
      have hboundary : item = (Component.empty, true) :=
        Prod.ext (eq_empty_of_isEmpty (hvalidItems item List.mem_cons_self) hempty) hflag
      have hwritten : first = Block.ofValue Tlv.any [] ∧ rest = items.flatMap itemElements := by
        have hany : itemElements (Component.empty, true) = [Block.ofValue Tlv.any []] := rfl
        rw [List.flatMap_cons, hboundary, hany, List.singleton_append] at helements
        exact ⟨(List.cons.inj helements).1.symm, (List.cons.inj helements).2.symm⟩
      obtain ⟨hfirst, hrest⟩ := List.pairwise_cons.mp hsorted
      obtain ⟨decoded, hdecode, hwire, hread⟩ := decodeItems_flatMap_itemElements
        (appendExclude ⟨NdnCxx.Exclude.empty, wire⟩ Component.empty true)
        (List.forall_mem_cons.mp hvalidItems).2 hlater hrest
        (by
          intro other hother entry hentry
          obtain rfl : entry = (Component.empty, true) := List.mem_singleton.mp hentry
          rw [hboundary] at hfirst
          exact hfirst other hother)
      have hleading : first.type = Tlv.any := by
        rw [hwritten.1]
        rfl
      rw [if_pos hleading, hwritten.2, hdecode]
      apply congrArg Except.ok
      apply eq_of_entries_eq
      · exact hwire
      · rw [hread, hentries, hboundary]
        rfl

theorem elements_ne_nil (hnonempty : filter.boundaries.entries ≠ []) : elements filter ≠ [] := by
  intro hnil
  rw [elements, List.flatMap_eq_nil_iff] at hnil
  obtain ⟨item, hitem⟩ := List.exists_mem_of_ne_nil _ hnonempty
  have hwritten := hnil item (List.mem_reverse.mpr hitem)
  unfold itemElements at hwritten
  split_ifs at hwritten with hcomponent hflag <;> simp_all

theorem wireDecode_toBlock (prior : Exclude) (hnonempty : filter.boundaries.entries ≠ [])
    (hvalid : IsValid filter) (hunambiguous : IsUnambiguous filter)
    (hsize : (toBlock filter).wire.length < 2 ^ 64) :
    prior.wireDecode (toBlock filter) = .ok ⟨filter, some (toBlock filter).wire⟩ := by
  have hparse : Block.parse (toBlock filter).value = .ok (elements filter) :=
    Block.parse_ofElements (elements_isWire hvalid hsize)
  have htype : (toBlock filter).type = Tlv.exclude := rfl
  simp only [wireDecode, if_neg (not_not.mpr htype), hparse, bind, Except.bind]
  cases helements : elements filter with
  | nil => exact absurd helements (elements_ne_nil hnonempty)
  | cons first rest => exact decode_elements _ hvalid hunambiguous helements

end Exclude

end Packet

end NdnCxx
