import NdnCxx.Encoding.PrependBlock
import NdnCxx.Foundation.Run
import NdnCxx.Name.ComponentSuccessor

/-!
# Types of the components of a name

`Component(const Block&)` admits name components and digests of thirty-two bytes. The components that
`Name::get` returns are the sub-elements of the name's block under another type, and a block comes into
a name unchecked: decoding takes over whatever elements there are. Appending adds nothing of another
type by itself, but passes on what it finds in other names.
-/

namespace NdnCxx

/-- The element as `Name::get` reinterprets it -/
def Block.Element.toComponent (element : Element) : Component := ⟨element.type, element.value⟩

/-- The sub-elements that were added to the wire, or else those in its value, are components. -/
def Block.Unencoded.HoldsComponents (wire : Unencoded) : Prop :=
  (∀ element ∈ wire.subBlocks, element.toComponent.IsValid) ∧
    (wire.subBlocks = [] → ∀ elements, IsConcatenation wire.value elements →
      ∀ element ∈ elements, element.toElement.toComponent.IsValid)

/-- A `Name` object is its block `m_nameBlock`. -/
structure NameObject where
  nameBlock : Block.Unencoded

namespace NameObject

def empty : NameObject := ⟨.unparsed Tlv.name .empty⟩

def get (name : NameObject) (i : ℤ) : Option Component :=
  Name.get (name.nameBlock.subBlocks.map Block.Element.toComponent) i

def ofBlock (wire : Block.Unencoded) : Except Error NameObject :=
  match wire.parse with
  | (some error, _) => .error error
  | (none, nameBlock) => .ok ⟨nameBlock⟩

def wireDecode (wire : Block.Unencoded) : Except Error NameObject :=
  if wire.type ≠ Tlv.name then .error ⟨.tlv, "Unexpected TLV type when decoding Name"⟩
  else ofBlock wire

def append (name : NameObject) (component : Block.Element) : NameObject :=
  ⟨name.nameBlock.edit (.pushBack component)⟩

/-- `Name::append(const Block&)`; a block of another type becomes the value of a component, which needs
its wire. -/
def appendBlock (name : NameObject) (value : Block.Element) : Option NameObject :=
  if value.type = Tlv.nameComponent then some (name.append value)
  else
    match value.content with
    | .wire _ wire => some (name.append ⟨Tlv.nameComponent, .value wire⟩)
    | _ => none

def appendName (name other : NameObject) : NameObject :=
  other.nameBlock.subBlocks.foldl append name

/-! ## Names of a program -/

/-- A call that makes or changes a name; names are numbered in the order in which they were made. -/
inductive Event
  | construct
  | ofBlock (wire : Block.Unencoded)
  | wireDecode (name : ℕ) (wire : Block.Unencoded)
  | append (name : ℕ) (component : StoredComponent)
  | appendComponentOf (name source i : ℕ)
  | appendBlock (name : ℕ) (value : Block.Element)
  | appendName (name source : ℕ)
  | clear (name : ℕ)

/-- One call; `none` is a call that throws or that has no such name or component. -/
def step (names : List NameObject) : Event → Option (List NameObject)
  | .construct => some (names ++ [empty])
  | .ofBlock wire => (ofBlock wire).toOption.map fun decoded ↦ names ++ [decoded]
  | .wireDecode name wire => do
      let _ ← names[name]?
      let decoded ← (wireDecode wire).toOption
      return names.set name decoded
  | .append name component => do
      let found ← names[name]?
      return names.set name (found.append component.element)
  | .appendComponentOf name source i => do
      let found ← names[name]?
      let other ← names[source]?
      let component ← other.nameBlock.subBlocks[i]?
      return names.set name (found.append component)
  | .appendBlock name value => do
      let found ← names[name]?
      let appended ← found.appendBlock value
      return names.set name appended
  | .appendName name source => do
      let found ← names[name]?
      let other ← names[source]?
      return names.set name (found.appendName other)
  | .clear name => do
      let _ ← names[name]?
      return names.set name empty

/-- Every component that `get` returns is one that `Component(const Block&)` admits. -/
def AllValid (names : List NameObject) : Prop :=
  ∀ name ∈ names, ∀ (i : ℤ) (component : Component), name.get i = some component → component.IsValid

/-- A wire that is accepted holds components only. -/
def Admits (names : List NameObject) (event : Event) : Prop :=
  (step names event).isSome = true →
    match event with
    | .ofBlock wire => wire.HoldsComponents
    | .wireDecode _ wire => wire.HoldsComponents
    | _ => True

/-! ## One name -/

def IsValid (name : NameObject) : Prop :=
  ∀ element ∈ name.nameBlock.subBlocks, element.toComponent.IsValid

theorem mem_of_get {components : Name} {i : ℤ} {component : Component}
    (hget : Name.get components i = some component) : component ∈ components := by
  unfold Name.get at hget
  split_ifs at hget
  · exact List.mem_of_getElem? hget
  · exact List.mem_of_getElem? hget

variable {names : List NameObject} {wire : Block.Unencoded}

theorem allValid_iff : AllValid names ↔ ∀ name ∈ names, name.IsValid := by
  constructor
  · intro hvalid name hname element helement
    obtain ⟨i, hi, hfound⟩ := List.mem_iff_getElem.mp helement
    apply hvalid name hname i element.toComponent
    simp [get, Name.get, List.getElem?_eq_getElem hi, hfound]
  · intro hvalid name hname i component hget
    obtain ⟨element, helement, rfl⟩ := List.mem_map.mp (mem_of_get hget)
    exact hvalid name hname element helement

variable {name : NameObject}

/-- The sub-elements of a decoded name are those of its wire. -/
theorem isValid_ofBlock_iff (hdecoded : ofBlock wire = .ok name) :
    name.IsValid ↔ wire.HoldsComponents := by
  unfold ofBlock at hdecoded
  split at hdecoded
  · cases hdecoded
  · rename_i nameBlock hparse
    cases hdecoded
    unfold IsValid Block.Unencoded.HoldsComponents
    by_cases hfresh : wire.subBlocks = []
    · obtain ⟨type, content, subBlocks⟩ := wire
      obtain rfl : subBlocks = [] := hfresh
      obtain ⟨elements, hconcatenation, helements⟩ :=
        Block.Unencoded.isConcatenation_of_parse hparse
      rw [helements, List.forall_mem_map]
      constructor
      · intro hvalid
        refine ⟨by simp, fun _ others hothers ↦ ?_⟩
        rw [← hconcatenation.unique hothers]
        exact hvalid
      · intro hholds
        exact hholds.2 rfl elements hconcatenation
    · rw [Block.Unencoded.parse_of_subBlocks hfresh] at hparse
      cases hparse
      exact ⟨fun hvalid ↦ ⟨hvalid, fun hnone ↦ absurd hnone hfresh⟩, fun hholds ↦ hholds.1⟩

theorem isValid_append {component : Block.Element} (hname : name.IsValid)
    (hcomponent : component.toComponent.IsValid) : (name.append component).IsValid := by
  intro element helement
  rcases List.mem_append.mp helement with helement | helement
  · exact hname element helement
  · rw [List.mem_singleton.mp helement]
    exact hcomponent

theorem isValid_appendBlock {appended : NameObject} {value : Block.Element} (hname : name.IsValid)
    (happend : name.appendBlock value = some appended) : appended.IsValid := by
  unfold appendBlock at happend
  split_ifs at happend with htype
  · cases happend
    exact isValid_append hname (.inl (by simp [Component.isGeneric, Block.Element.toComponent, htype]))
  · split at happend
    · cases happend
      exact isValid_append hname (.inl rfl)
    · cases happend

theorem isValid_appendName {other : NameObject} (hname : name.IsValid) (hother : other.IsValid) :
    (name.appendName other).IsValid := by
  suffices hfold : ∀ (components : List Block.Element) (name : NameObject), name.IsValid →
      (∀ component ∈ components, component.toComponent.IsValid) →
        (components.foldl append name).IsValid from hfold _ name hname hother
  intro components
  induction components with
  | nil => exact fun _ hname _ ↦ hname
  | cons component rest ih =>
    intro name hname hcomponents
    rw [List.forall_mem_cons] at hcomponents
    exact ih _ (isValid_append hname hcomponents.1) hcomponents.2

/-! ## Runs -/

theorem forall_mem_set {index : ℕ} (hnames : ∀ name ∈ names, name.IsValid) (hname : name.IsValid) :
    ∀ name' ∈ names.set index name, name'.IsValid := by
  intro name' hmem
  rcases List.mem_or_eq_of_mem_set hmem with hmem | rfl
  · exact hnames name' hmem
  · exact hname

theorem isValid_empty : empty.IsValid := by simp [IsValid, empty, Block.Unencoded.unparsed]

theorem ofBlock_of_wireDecode (hdecoded : wireDecode wire = .ok name) :
    ofBlock wire = .ok name := by
  unfold wireDecode at hdecoded
  split_ifs at hdecoded
  exact hdecoded

variable {event : Event} {next : List NameObject}

/-- A call keeps the names valid, unless it decodes a wire with other elements. -/
theorem allValid_step (hnames : ∀ name ∈ names, name.IsValid) (hadmits : Admits names event)
    (hstep : step names event = some next) : ∀ name ∈ next, name.IsValid := by
  unfold Admits at hadmits
  rw [hstep] at hadmits
  cases event with
  | construct =>
    cases hstep
    simp only [List.mem_append, List.mem_singleton]
    rintro name (hname | rfl)
    · exact hnames name hname
    · exact isValid_empty
  | ofBlock wire =>
    simp only [step, Option.map_eq_some_iff, toOption_eq_some_iff] at hstep
    obtain ⟨decoded, hdecoded, rfl⟩ := hstep
    simp only [List.mem_append, List.mem_singleton]
    rintro name (hname | rfl)
    · exact hnames name hname
    · exact (isValid_ofBlock_iff hdecoded).mpr (hadmits rfl)
  | wireDecode index wire =>
    simp only [step, Option.bind_eq_bind, Option.bind_eq_some_iff, toOption_eq_some_iff,
      Option.pure_def, Option.some.injEq] at hstep
    obtain ⟨_, _, decoded, hdecoded, rfl⟩ := hstep
    exact forall_mem_set hnames
      ((isValid_ofBlock_iff (ofBlock_of_wireDecode hdecoded)).mpr (hadmits rfl))
  | append index component =>
    simp only [step, Option.bind_eq_bind, Option.bind_eq_some_iff, Option.pure_def,
      Option.some.injEq] at hstep
    obtain ⟨found, hfound, rfl⟩ := hstep
    exact forall_mem_set hnames
      (isValid_append (hnames found (List.mem_of_getElem? hfound)) component.isValid)
  | appendComponentOf index source i =>
    simp only [step, Option.bind_eq_bind, Option.bind_eq_some_iff, Option.pure_def,
      Option.some.injEq] at hstep
    obtain ⟨found, hfound, other, hother, component, hcomponent, rfl⟩ := hstep
    have hvalid := hnames other (List.mem_of_getElem? hother) component
      (List.mem_of_getElem? hcomponent)
    exact forall_mem_set hnames
      (isValid_append (hnames found (List.mem_of_getElem? hfound)) hvalid)
  | appendBlock index value =>
    simp only [step, Option.bind_eq_bind, Option.bind_eq_some_iff, Option.pure_def,
      Option.some.injEq] at hstep
    obtain ⟨found, hfound, appended, happended, rfl⟩ := hstep
    exact forall_mem_set hnames
      (isValid_appendBlock (hnames found (List.mem_of_getElem? hfound)) happended)
  | appendName index source =>
    simp only [step, Option.bind_eq_bind, Option.bind_eq_some_iff, Option.pure_def,
      Option.some.injEq] at hstep
    obtain ⟨found, hfound, other, hother, rfl⟩ := hstep
    exact forall_mem_set hnames (isValid_appendName (hnames found (List.mem_of_getElem? hfound))
      (hnames other (List.mem_of_getElem? hother)))
  | clear index =>
    simp only [step, Option.bind_eq_bind, Option.bind_eq_some_iff, Option.pure_def,
      Option.some.injEq] at hstep
    obtain ⟨_, _, rfl⟩ := hstep
    exact forall_mem_set hnames isValid_empty

/-- A call after which the names are valid has not decoded anything else. -/
theorem admits_of_allValid (hstep : step names event = some next)
    (hnext : ∀ name ∈ next, name.IsValid) : Admits names event := by
  intro _
  cases event with
  | ofBlock wire =>
    simp only [step, Option.map_eq_some_iff, toOption_eq_some_iff] at hstep
    obtain ⟨decoded, hdecoded, rfl⟩ := hstep
    exact (isValid_ofBlock_iff hdecoded).mp (hnext decoded (by simp))
  | wireDecode index wire =>
    simp only [step, Option.bind_eq_bind, Option.bind_eq_some_iff, toOption_eq_some_iff,
      Option.pure_def, Option.some.injEq] at hstep
    obtain ⟨found, hfound, decoded, hdecoded, rfl⟩ := hstep
    have hindex : index < names.length := (List.getElem?_eq_some_iff.mp hfound).1
    exact (isValid_ofBlock_iff (ofBlock_of_wireDecode hdecoded)).mp
      (hnext decoded (List.mem_set hindex decoded))
  | construct => trivial
  | append index component => trivial
  | appendComponentOf index source i => trivial
  | appendBlock index value => trivial
  | appendName index source => trivial
  | clear index => trivial

/-- All components are admitted, at every point of a run, if every wire that is accepted holds
components only. -/
theorem allValid_iff_guarded (events : List Event) :
    (∀ before after names, events = before ++ after → Run.run step [] before = some names →
      AllValid names) ↔ Run.Guarded step Admits [] events := by
  constructor
  · intro hvalid
    apply Run.guarded_of_forall_split
    intro before event after names hsplit hrun
    cases hstep : step names event with
    | none =>
      intro haccepted
      rw [hstep] at haccepted
      cases haccepted
    | some next =>
      have hreached : Run.run step [] (before ++ [event]) = some next := by
        rw [Run.run_append, hrun, Option.bind_some]
        exact Run.run_cons_eq_some.mpr ⟨next, hstep, rfl⟩
      have hnext := hvalid (before ++ [event]) after next
        (by rw [hsplit, List.append_assoc, List.singleton_append]) hreached
      exact admits_of_allValid hstep (allValid_iff.mp hnext)
  · intro hguarded before after names hsplit hrun
    rw [hsplit] at hguarded
    rw [allValid_iff]
    exact Run.invariant_of_guarded (fun _ names ↦ ∀ name ∈ names, name.IsValid)
      (fun _ _ _ _ ↦ allValid_step) (by simp) hguarded.of_append hrun

def ofOtherType : Block.Unencoded := .unparsed Tlv.name (.wire [9, 0] [7, 2, 9, 0])

/-- The element is accepted by `wireDecode` and refused by `Component(const Block&)`. -/
theorem not_allValid_ofOtherType :
    ∃ names, Run.run step [] [.construct, .wireDecode 0 ofOtherType] = some names ∧
      (names[0]?.bind fun name ↦ name.get 0) = some ⟨9, []⟩ ∧
      (Component.ofBlock 9 []).isOk = false ∧ ¬ AllValid names := by
  refine ⟨[⟨⟨Tlv.name, .wire [9, 0] [7, 2, 9, 0], [⟨9, .wire [] [9, 0]⟩]⟩⟩], by rfl, by decide,
    by decide, ?_⟩
  intro hvalid
  have hcomponent := hvalid _ List.mem_cons_self 0 ⟨9, []⟩ (by decide)
  exact absurd hcomponent (by decide)

end NameObject

end NdnCxx
