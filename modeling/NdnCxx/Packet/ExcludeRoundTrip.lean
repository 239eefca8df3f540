import NdnCxx.Packet.ExcludeWire

/-!
# What an exclude filter still excludes after the wire

The wire format lets one ANY element stand in front of all components. The encoder writes the
flagged empty component as such an element wherever it stands, and implicit digests stand below it.
The decoder gives the ANY element to the digest in front of it, so it reads a filter that excludes
every digest after that one as well. The meaning survives exactly if no boundary lies below the
flagged empty component, or if there is no digest after the greatest of them.
-/

namespace NdnCxx

/-! ## Digests and the empty component -/

/-- No byte string of the same length is above one that has only `0xff`. -/
theorem Bytes.memcmp_replicate_ne_lt (bytes : Bytes) (length : ℕ) :
    memcmp (List.replicate length 0xff) bytes ≠ .lt := by
  induction bytes generalizing length with
  | nil => cases length <;> simp [memcmp, List.replicate_succ]
  | cons byte bytes ih =>
    cases length with
    | zero => simp [memcmp]
    | succ length =>
      have hbyte : ¬ (0xff : UInt8) < byte := UInt8.not_lt.mpr (UInt8.le_iff_toNat_le.mpr (by
        have hlt := byte.toNat_lt
        have hmax : (0xff : UInt8).toNat = 255 := rfl
        omega))
      rw [List.replicate_succ, memcmp, if_neg hbyte]
      split_ifs
      · simp
      · exact ih length

namespace Component

def lastDigest : Component :=
  ⟨Tlv.implicitSha256DigestComponent, List.replicate Tlv.sha256DigestSize 0xff⟩

theorem isValid_lastDigest : lastDigest.IsValid := by decide

theorem isImplicitSha256Digest_iff {component : Component} :
    component.isImplicitSha256Digest = true ↔
      component.type = Tlv.implicitSha256DigestComponent ∧
        component.value.length = Tlv.sha256DigestSize := by
  simp [isImplicitSha256Digest]

theorem le_lastDigest {component : Component} (hdigest : component.isImplicitSha256Digest = true) :
    component ≤ lastDigest := by
  obtain ⟨htype, hlength⟩ := isImplicitSha256Digest_iff.mp hdigest
  have htypes : component.type = lastDigest.type := htype
  have hlengths : component.value.length = lastDigest.value.length := hlength
  apply not_lt.mp
  intro hlt
  rcases compare_eq_lt_iff.mp (lt_iff_compare.mp hlt) with hless | ⟨-, hshort | ⟨-, hcompare⟩⟩
  · omega
  · omega
  · exact absurd hcompare (Bytes.memcmp_replicate_ne_lt _ _)

/-- Among valid components, those below the empty one are the digests. -/
theorem lt_empty_iff {component : Component} (hvalid : component.IsValid) :
    component < empty ↔ component.isImplicitSha256Digest = true := by
  constructor
  · intro hlt
    refine hvalid.resolve_left fun hgeneric ↦ ?_
    have htype : component.type = Tlv.nameComponent := by simpa [isGeneric] using hgeneric
    have hempty : empty.type = Tlv.nameComponent := rfl
    have hnone : empty.value.length = 0 := rfl
    rcases compare_eq_lt_iff.mp (lt_iff_compare.mp hlt) with hless | ⟨-, hshort | ⟨hsame, hcompare⟩⟩
    · omega
    · omega
    · have hvalue : component.value = [] := List.length_eq_zero_iff.mp (hsame.trans hnone)
      simp [hvalue, Bytes.memcmp] at hcompare
  · intro hdigest
    apply lt_iff_compare.mpr
    apply compare_eq_lt_iff.mpr
    left
    rw [(isImplicitSha256Digest_iff.mp hdigest).1]
    decide

/-- Digests with the same bytes are the same. -/
theorem eq_of_equals_of_digest {component other : Component}
    (hdigest : component.isImplicitSha256Digest = true)
    (hother : other.isImplicitSha256Digest = true) (hequals : component.equals other = true) :
    component = other := by
  have htype : component.type = other.type := by
    rw [(isImplicitSha256Digest_iff.mp hdigest).1, (isImplicitSha256Digest_iff.mp hother).1]
  have hvalue := equals_iff.mp hequals
  cases component
  cases other
  simp only at htype hvalue
  rw [htype, hvalue]

end Component

/-! ## The boundaries after a call -/

namespace Exclude

theorem Opened.mem_or_eq {exclude : Exclude} {lower newFrom : Component}
    {opened : BoundaryMap Component} (hopened : Opened exclude lower opened newFrom)
    {boundary : Component × Bool} (hmem : boundary ∈ opened) :
    boundary ∈ exclude.boundaries ∨ boundary.1 = lower := by
  rcases hopened.origin with ⟨rfl, -⟩ | ⟨rfl, -⟩
  · exact Or.inl hmem
  · by_cases hkey : boundary.1 = newFrom
    · exact Or.inr hkey
    · exact Or.inl ((hopened.unchanged boundary hkey).mp hmem)

theorem mem_or_eq_of_mem_excludeAfter {exclude : Exclude} {lower : Component}
    {boundary : Component × Bool} (hmem : boundary ∈ (exclude.excludeAfter lower).boundaries) :
    boundary ∈ exclude.boundaries ∨ boundary.1 = lower :=
  (exclude.openRange_opened lower).mem_or_eq (mem_excludeAfter_iff.mp hmem).1

theorem exists_mem_excludeAfter (exclude : Exclude) (lower : Component) :
    ∃ boundary, boundary ∈ (exclude.excludeAfter lower).boundaries :=
  ⟨_, mem_excludeAfter_iff.mpr ⟨(exclude.openRange_opened lower).flagged, le_rfl⟩⟩

section ExcludeRange

variable {exclude result : Exclude} {lower upper : Component}
  (hresult : exclude.excludeRange lower upper = .ok result)
include hresult

theorem mem_or_eq_of_mem_excludeRange {boundary : Component × Bool}
    (hmem : boundary ∈ result.boundaries) :
    boundary ∈ exclude.boundaries ∨ boundary.1 = lower ∨ boundary.1 = upper := by
  obtain ⟨-, opened, newFrom, newTo, isAny, hopened, -, hcases⟩ := excludeRange_cases hresult
  have hold (hin : boundary ∈ opened) :
      boundary ∈ exclude.boundaries ∨ boundary.1 = lower ∨ boundary.1 = upper :=
    (hopened.mem_or_eq hin).imp_right Or.inl
  rcases hcases with ⟨-, afterTo, flag, -, rfl⟩ | ⟨-, -, rfl⟩
  · rcases OrderedMap.mem_insert.mp (OrderedMap.mem_eraseRange.mp hmem).1 with hin | ⟨heq, -⟩
    · exact hold hin
    · exact Or.inr (Or.inr (congrArg Prod.fst heq))
  · exact hold (OrderedMap.mem_eraseRange.mp hmem).1

theorem exists_mem_excludeRange : ∃ boundary, boundary ∈ result.boundaries := by
  obtain ⟨-, opened, newFrom, newTo, isAny, hopened, -, hcases⟩ := excludeRange_cases hresult
  have hkept : ¬ newFrom < newFrom := lt_irrefl newFrom
  rcases hcases with ⟨-, afterTo, flag, -, rfl⟩ | ⟨-, -, rfl⟩
  · exact ⟨(newFrom, true), OrderedMap.mem_eraseRange.mpr
      ⟨OrderedMap.mem_insert.mpr (Or.inl hopened.flagged), Or.inr hkept⟩⟩
  · exact ⟨(newFrom, true), OrderedMap.mem_eraseRange.mpr ⟨hopened.flagged, Or.inr hkept⟩⟩

end ExcludeRange

theorem mem_or_eq_of_mem_excludeOne {exclude : Exclude} {component : Component}
    {boundary : Component × Bool} (hmem : boundary ∈ (exclude.excludeOne component).boundaries) :
    boundary ∈ exclude.boundaries ∨ boundary.1 = component := by
  unfold excludeOne at hmem
  split_ifs at hmem
  · rcases OrderedMap.mem_insert.mp hmem with hold | ⟨heq, -⟩
    · exact Or.inl hold
    · exact Or.inr (congrArg Prod.fst heq)
  · exact Or.inl hmem

theorem exists_mem_excludeOne (exclude : Exclude) (component : Component) :
    ∃ boundary, boundary ∈ (exclude.excludeOne component).boundaries := by
  unfold excludeOne
  split_ifs with hexcluded
  · obtain ⟨stored, hmem⟩ := exclude.boundaries.key_mem_insert component false
    exact ⟨_, hmem⟩
  · unfold isExcluded at hexcluded
    cases hbound : exclude.boundaries.lowerBound component with
    | none => simp [hbound] at hexcluded
    | some boundary => exact ⟨boundary, (BoundaryMap.lowerBound_eq_some.mp hbound).1⟩

end Exclude

namespace Packet.Exclude

/-! ## Building a filter -/

/-- One of the four high-level mutators, called with valid components. -/
def Call.Builds : Call → Prop
  | .excludeOne component => component.IsValid
  | .excludeRange lower upper => lower.IsValid ∧ upper.IsValid
  | .excludeBefore upper => upper.IsValid
  | .excludeAfter lower => lower.IsValid
  | _ => False

instance (call : Call) : Decidable call.Builds := by
  cases call <;> unfold Call.Builds <;> infer_instance

/-- What such calls keep: no wire is there yet, and all boundaries are valid. -/
structure IsBuilt (calls : List Call) (exclude : Exclude) : Prop where
  wire : exclude.wire = none
  valid : IsValid exclude.filter
  nonempty : calls ≠ [] → ∃ boundary, boundary ∈ exclude.filter.boundaries

variable {exclude : Exclude} {calls : List Call} {next : Exclude} {past : List Call}

theorem isBuilt_excludeRange {lower upper : Component} (hbuilt : IsBuilt past exclude)
    (hlower : lower.IsValid) (hupper : upper.IsValid)
    (hnext : exclude.excludeRange lower upper = .ok next) : IsBuilt calls next := by
  rw [excludeRange, bind_eq_ok_iff] at hnext
  obtain ⟨filter, hfilter, hreturn⟩ := hnext
  obtain rfl := Except.ok.inj hreturn
  refine ⟨rfl, fun entry hentry ↦ ?_, fun _ ↦ NdnCxx.Exclude.exists_mem_excludeRange hfilter⟩
  rcases NdnCxx.Exclude.mem_or_eq_of_mem_excludeRange hfilter hentry with hold | hkey | hkey
  · exact hbuilt.valid entry hold
  · exact hkey ▸ hlower
  · exact hkey ▸ hupper

theorem isBuilt_perform {call : Call} (hbuilt : IsBuilt past exclude) (hcall : call.Builds)
    (hnext : exclude.perform call = some next) : IsBuilt (past ++ [call]) next := by
  cases call with
  | excludeOne component =>
    obtain rfl := Option.some.inj hnext
    have hfilter : (exclude.excludeOne component).filter =
        exclude.filter.excludeOne component := by
      unfold excludeOne NdnCxx.Exclude.excludeOne
      split_ifs <;> rfl
    refine ⟨?_, ?_, ?_⟩
    · unfold excludeOne
      split_ifs
      · rfl
      · exact hbuilt.wire
    · rw [hfilter]
      intro entry hentry
      rcases NdnCxx.Exclude.mem_or_eq_of_mem_excludeOne hentry with hold | hkey
      · exact hbuilt.valid entry hold
      · exact hkey ▸ hcall
    · rw [hfilter]
      intro _
      exact exclude.filter.exists_mem_excludeOne component
  | excludeRange lower upper =>
    exact isBuilt_excludeRange hbuilt hcall.1 hcall.2 (toOption_eq_some_iff.mp hnext)
  | excludeBefore upper =>
    have hempty : Component.empty.IsValid := by decide
    exact isBuilt_excludeRange hbuilt hempty hcall (toOption_eq_some_iff.mp hnext)
  | excludeAfter lower =>
    obtain rfl := Option.some.inj hnext
    refine ⟨rfl, fun entry hentry ↦ ?_, fun _ ↦ exclude.filter.exists_mem_excludeAfter lower⟩
    rcases NdnCxx.Exclude.mem_or_eq_of_mem_excludeAfter hentry with hold | hkey
    · exact hbuilt.valid entry hold
    · exact hkey ▸ hcall
  | appendExclude name any => exact hcall.elim
  | clear => exact hcall.elim
  | wireDecode wire => exact hcall.elim

theorem isBuilt_of_run (hcalls : ∀ call ∈ calls, call.Builds)
    (hrun : Run.run perform {} calls = some exclude) : IsBuilt calls exclude := by
  have hstart : IsBuilt [] {} :=
    ⟨rfl, fun entry hentry ↦ absurd hentry (by simp [NdnCxx.Exclude.empty, OrderedMap.empty]),
      fun hne ↦ absurd rfl hne⟩
  have hguarded : Run.Guarded perform (fun _ call ↦ call.Builds) {} calls := by
    apply Run.guarded_of_forall_split
    rintro before call after middle rfl -
    exact hcalls call (by simp)
  exact Run.invariant_of_guarded IsBuilt
    (fun _ _ _ _ hbuilt hcall hnext ↦ isBuilt_perform hbuilt hcall hnext) hstart hguarded hrun

/-! ## Where the ANY element ends up -/

/-- Nothing that the wire confuses lies below a flagged empty boundary. -/
def AnyInPlace (filter : NdnCxx.Exclude) : Prop :=
  (Component.empty, true) ∈ filter.boundaries →
    ∀ below, filter.boundaries.next Component.empty = some below →
      below = (Component.lastDigest, false)

/-- The boundaries around a flagged empty one that is not the smallest. -/
structure AnyBetween (filter : NdnCxx.Exclude) (above below : List (Component × Bool))
    (digest : Component) (flag : Bool) : Prop where
  entries : filter.boundaries.entries =
    above ++ (Component.empty, true) :: (digest, flag) :: below
  digest_lt : digest < Component.empty
  lt_above : ∀ entry ∈ above, Component.empty < entry.1
  below_lt : ∀ entry ∈ below, entry.1 < digest

/-- Either the ANY element stands in front, or it has a boundary in front of it. -/
theorem isUnambiguous_or_anyBetween {filter : NdnCxx.Exclude} (hvalid : IsValid filter) :
    (IsUnambiguous filter ∧ ((Component.empty, true) ∈ filter.boundaries →
        filter.boundaries.next Component.empty = none)) ∨
      (Component.empty, true) ∈ filter.boundaries ∧ ∃ above below digest flag,
        AnyBetween filter above below digest flag ∧
          filter.boundaries.next Component.empty = some (digest, flag) := by
  by_cases hmem : (Component.empty, true) ∈ filter.boundaries
  · cases hnext : filter.boundaries.next Component.empty with
    | none =>
      left
      refine ⟨?_, fun _ ↦ rfl⟩
      intro entry hentry hempty _ other hother
      rw [eq_empty_of_isEmpty (hvalid entry hentry) hempty]
      exact not_lt.mp (OrderedMap.next_eq_none_iff.mp hnext other hother)
    | some boundary =>
      right
      obtain ⟨hbelow, hlt, hgreatest⟩ := OrderedMap.next_eq_some_iff.mp hnext
      obtain ⟨above, rest, hsplit⟩ := List.append_of_mem (OrderedMap.mem_def.mp hmem)
      have hsorted := filter.boundaries.sorted
      rw [hsplit] at hsorted
      obtain ⟨-, htail, hcross⟩ := List.pairwise_append.mp hsorted
      obtain ⟨hfirst, hrest⟩ := List.pairwise_cons.mp htail
      have habove : ∀ entry ∈ above, Component.empty < entry.1 :=
        fun entry hentry ↦ hcross entry hentry _ List.mem_cons_self
      rw [OrderedMap.mem_def, hsplit, List.mem_append, List.mem_cons] at hbelow
      have hin : boundary ∈ rest := by
        rcases hbelow with hin | rfl | hin
        · exact absurd (habove boundary hin) hlt.not_gt
        · exact absurd hlt (lt_irrefl _)
        · exact hin
      refine ⟨hmem, above, ?_⟩
      cases rest with
      | nil => cases hin
      | cons head below =>
        obtain ⟨hhead, -⟩ := List.pairwise_cons.mp hrest
        have hheadMem : head ∈ filter.boundaries := by
          rw [OrderedMap.mem_def, hsplit]
          simp
        have hsame : boundary = head := by
          rcases List.mem_cons.mp hin with heq | hlater
          · exact heq
          · exact absurd (hhead boundary hlater)
              (hgreatest head hheadMem (hfirst head List.mem_cons_self))
        exact ⟨below, head.1, head.2,
          ⟨hsplit, hfirst head List.mem_cons_self, habove, hhead⟩, hsame ▸ rfl⟩
  · left
    refine ⟨fun entry hentry hempty hflag ↦ absurd ?_ hmem, fun habsurd ↦ absurd habsurd hmem⟩
    have hboundary : entry = (Component.empty, true) :=
      Prod.ext (eq_empty_of_isEmpty (hvalid entry hentry) hempty) hflag
    exact hboundary ▸ hentry

theorem isPlain_of_ne {filter : NdnCxx.Exclude} (hvalid : IsValid filter)
    {entry : Component × Bool} (hmem : entry ∈ filter.boundaries.entries)
    (hne : entry.1 ≠ Component.empty) : IsPlain entry :=
  fun hempty ↦ absurd (eq_empty_of_isEmpty (hvalid entry hmem) hempty) hne

/-- If the smallest boundary is written with its component, all elements go through the loop. -/
theorem wireDecode_eq_decodeItems (prior : Exclude) {filter : NdnCxx.Exclude}
    (hvalid : IsValid filter) (hsize : (toBlock filter).wire.length < 2 ^ 64)
    {item : Component × Bool} {items : List (Component × Bool)}
    (hitems : filter.boundaries.entries.reverse = item :: items) (hplain : IsPlain item) :
    prior.wireDecode (toBlock filter) =
      decodeItems ⟨NdnCxx.Exclude.empty, some (toBlock filter).wire⟩ (elements filter) := by
  have hmem : item ∈ filter.boundaries.entries := by
    rw [← List.mem_reverse, hitems]
    exact List.mem_cons_self
  have hfirst : ∃ rest, elements filter = item.1.toBlock :: rest := by
    rw [elements, hitems, List.flatMap_cons, itemElements_of_isPlain hplain]
    exact ⟨_, rfl⟩
  obtain ⟨rest, helements⟩ := hfirst
  have hparse : Block.parse (toBlock filter).value = .ok (elements filter) :=
    Block.parse_ofElements (elements_isWire hvalid hsize)
  have htype : (toBlock filter).type = Tlv.exclude := rfl
  have hcomponent := type_toBlock_ne_any (hvalid item hmem)
  simp only [wireDecode, if_neg (not_not.mpr htype), hparse, bind, Except.bind, helements,
    if_neg hcomponent]
  rfl

section AnyBetween

variable {filter : NdnCxx.Exclude} {above below : List (Component × Bool)} {digest : Component}
  {flag : Bool} (hbetween : AnyBetween filter above below digest flag) (hvalid : IsValid filter)
include hbetween

theorem AnyBetween.reverse_entries : filter.boundaries.entries.reverse =
    below.reverse ++ (digest, flag) :: (Component.empty, true) :: above.reverse := by
  rw [hbetween.entries]
  simp

include hvalid

theorem AnyBetween.valid_digest : digest.IsValid := by
  apply hvalid (digest, flag)
  rw [hbetween.entries]
  simp

theorem AnyBetween.isPlain_digest : IsPlain (digest, flag) :=
  fun hempty ↦ absurd (eq_empty_of_isEmpty (hbetween.valid_digest hvalid) hempty)
    hbetween.digest_lt.ne

theorem AnyBetween.plain_above :
    ∀ entry ∈ above.reverse, entry.1.IsValid ∧ IsPlain entry := by
  intro entry hentry
  have hin := List.mem_reverse.mp hentry
  have hmem : entry ∈ filter.boundaries.entries := by
    rw [hbetween.entries]
    exact List.mem_append_left _ hin
  exact ⟨hvalid entry hmem, isPlain_of_ne hvalid hmem (hbetween.lt_above entry hin).ne'⟩

theorem AnyBetween.plain_below :
    ∀ entry ∈ below.reverse, entry.1.IsValid ∧ IsPlain entry := by
  intro entry hentry
  have hin := List.mem_reverse.mp hentry
  have hmem : entry ∈ filter.boundaries.entries := by
    rw [hbetween.entries]
    exact List.mem_append_right _ (List.mem_cons_of_mem _ (List.mem_cons_of_mem _ hin))
  have hlt := (hbetween.below_lt entry hin).trans hbetween.digest_lt
  exact ⟨hvalid entry hmem, isPlain_of_ne hvalid hmem hlt.ne⟩

/-- The digest below the empty component takes the ANY element. -/
theorem AnyBetween.wireDecode_eq (prior : Exclude)
    (hsize : (toBlock filter).wire.length < 2 ^ 64) :
    prior.wireDecode (toBlock filter) =
      decodeItems (appendExclude (appendItems
          ⟨NdnCxx.Exclude.empty, some (toBlock filter).wire⟩ below.reverse) digest true)
        ((if flag then [Block.ofValue Tlv.any []] else []) ++
          above.reverse.flatMap itemElements) := by
  have hdigest := hbetween.valid_digest hvalid
  have hbelow := hbetween.plain_below hvalid
  have hstart : ∃ item items, filter.boundaries.entries.reverse = item :: items ∧ IsPlain item := by
    rw [hbetween.reverse_entries]
    cases hlow : below.reverse with
    | nil => exact ⟨_, _, rfl, hbetween.isPlain_digest hvalid⟩
    | cons item items => exact ⟨item, _, rfl, (hbelow item (hlow ▸ List.mem_cons_self)).2⟩
  obtain ⟨item, items, hitems, hplain⟩ := hstart
  have hany : itemElements (Component.empty, true) = [Block.ofValue Tlv.any []] := rfl
  have helements : elements filter = below.reverse.flatMap itemElements ++ digest.toBlock ::
      Block.ofValue Tlv.any [] :: ((if flag then [Block.ofValue Tlv.any []] else []) ++
        above.reverse.flatMap itemElements) := by
    rw [elements, hbetween.reverse_entries, List.flatMap_append, List.flatMap_cons,
      List.flatMap_cons, itemElements_of_isPlain (hbetween.isPlain_digest hvalid), hany]
    cases flag <;> rfl
  have hnext : ∀ next ∈ (digest.toBlock :: Block.ofValue Tlv.any [] ::
      ((if flag then [Block.ofValue Tlv.any []] else []) ++
        above.reverse.flatMap itemElements)).head?, next.type ≠ Tlv.any := by
    intro next hnext
    obtain rfl := Option.mem_some_iff.mp hnext
    exact type_toBlock_ne_any hdigest
  rw [wireDecode_eq_decodeItems prior hvalid hsize hitems hplain, helements,
    decodeItems_flatMap_append _ (fun entry hentry ↦ (hbelow entry hentry).1)
      (fun entry hentry ↦ (hbelow entry hentry).2) hnext, decodeItems_cons_any hdigest]

end AnyBetween

/-- Two ANY elements in a row are refused. -/
theorem AnyBetween.wireDecode_flagged {filter : NdnCxx.Exclude}
    {above below : List (Component × Bool)} {digest : Component}
    (hbetween : AnyBetween filter above below digest true) (hvalid : IsValid filter)
    (prior : Exclude) (hsize : (toBlock filter).wire.length < 2 ^ 64) :
    prior.wireDecode (toBlock filter) =
      .error ⟨.exclude, "Incorrect format of Exclude filter"⟩ := by
  have hany : excludedComponent (Block.ofValue Tlv.any []) =
      .error ⟨.exclude, "Incorrect format of Exclude filter"⟩ := by decide
  rw [hbetween.wireDecode_eq hvalid prior hsize, if_pos rfl, List.singleton_append]
  cases above.reverse.flatMap itemElements with
  | nil => simp only [decodeItems, hany, bind, Except.bind]
  | cons next later => simp only [decodeItems, hany, bind, Except.bind]

section Unflagged

variable {filter : NdnCxx.Exclude} {above below : List (Component × Bool)} {digest : Component}
  (hbetween : AnyBetween filter above below digest false)
include hbetween

theorem AnyBetween.wireDecode_unflagged (hvalid : IsValid filter) (prior : Exclude)
    (hsize : (toBlock filter).wire.length < 2 ^ 64) :
    ∃ decoded, prior.wireDecode (toBlock filter) = .ok decoded ∧
      decoded.filter.boundaries.entries = above ++ (digest, true) :: below := by
  have habove := hbetween.plain_above hvalid
  let start : Exclude := ⟨NdnCxx.Exclude.empty, some (toBlock filter).wire⟩
  refine ⟨start.appendItems (below.reverse ++ (digest, true) :: above.reverse), ?_, ?_⟩
  · have hread : decodeItems (appendExclude (start.appendItems below.reverse) digest true)
        (above.reverse.flatMap itemElements ++ []) = _ :=
      decodeItems_flatMap_append _ (fun entry hentry ↦ (habove entry hentry).1)
        (fun entry hentry ↦ (habove entry hentry).2) (by simp)
    rw [List.append_nil] at hread
    rw [hbetween.wireDecode_eq hvalid prior hsize, if_neg Bool.false_ne_true, List.nil_append, hread]
    simp only [decodeItems, appendItems, List.foldl_append, List.foldl_cons]
  · have hsorted := filter.boundaries.sorted
    rw [hbetween.entries] at hsorted
    have hkept : (above ++ (digest, true) :: below).Pairwise
        fun first second ↦ second.1 < first.1 := by
      obtain ⟨hhigh, htail, hcross⟩ := List.pairwise_append.mp hsorted
      obtain ⟨-, hlow⟩ := List.pairwise_cons.mp htail
      obtain ⟨hfirst, hrest⟩ := List.pairwise_cons.mp hlow
      refine List.pairwise_append.mpr
        ⟨hhigh, List.pairwise_cons.mpr ⟨hfirst, hrest⟩, fun entry hentry other hother ↦ ?_⟩
      rcases List.mem_cons.mp hother with rfl | hin
      · exact hcross entry hentry (digest, false) (by simp)
      · exact hcross entry hentry other (by simp [hin])
    have hitems : (below.reverse ++ (digest, true) :: above.reverse).reverse =
        above ++ (digest, true) :: below := by simp
    have hread := entries_appendItems start
      (List.pairwise_reverse.mp (hitems ▸ hkept))
      (fun _ _ entry hentry ↦ absurd hentry (OrderedMap.not_mem_empty entry))
    rw [hread, hitems]
    exact List.append_nil _

/-! ## What is excluded then -/

/-- For a component from the digest up to the empty one, the digest alone decides. -/
theorem AnyBetween.isExcluded_eq_equals {component : Component} (hge : digest ≤ component)
    (hlt : component < Component.empty) :
    filter.isExcluded component = digest.equals component := by
  have hskip : above.find? (fun entry ↦ !decide (component < entry.1)) = none := by
    rw [List.find?_eq_none]
    intro entry hentry
    simp [hlt.trans (hbetween.lt_above entry hentry)]
  have hbound : filter.boundaries.lowerBound component = some (digest, false) := by
    rw [OrderedMap.lowerBound, hbetween.entries, List.find?_append, hskip]
    simp [hlt, hge]
  simp [NdnCxx.Exclude.isExcluded, hbound]

variable {moved : NdnCxx.Exclude}

/-- Once the digest carries the ANY flag, everything from it up to the empty component is excluded
as well, and nothing else changes. -/
theorem AnyBetween.isExcluded_moved
    (hmoved : moved.boundaries.entries = above ++ (digest, true) :: below) (component : Component) :
    moved.isExcluded component =
      (filter.isExcluded component || decide (digest ≤ component ∧ component < Component.empty)) := by
  rcases lt_or_ge component Component.empty with hlt | hge
  · rcases lt_or_ge component digest with hbelow | hge
    · -- both look among the boundaries below the digest
      have hsame : moved.boundaries.lowerBound component =
          filter.boundaries.lowerBound component := by
        simp [OrderedMap.lowerBound, hmoved, hbetween.entries, List.find?_append, hlt, hbelow]
      simp [NdnCxx.Exclude.isExcluded, hsame, hbelow]
    · have hskip : above.find? (fun entry ↦ !decide (component < entry.1)) = none := by
        rw [List.find?_eq_none]
        intro entry hentry
        simp [hlt.trans (hbetween.lt_above entry hentry)]
      have hbound : moved.boundaries.lowerBound component = some (digest, true) := by
        rw [OrderedMap.lowerBound, hmoved, List.find?_append, hskip]
        simp [hge]
      simp [NdnCxx.Exclude.isExcluded, hbound, hge, hlt]
  · have hdigest : digest ≤ component := hbetween.digest_lt.le.trans hge
    have hfilter : filter.boundaries.lowerBound component =
        (above.find? fun entry ↦ !decide (component < entry.1)).or
          (some (Component.empty, true)) := by
      simp [OrderedMap.lowerBound, hbetween.entries, List.find?_append, hge]
    have hother : moved.boundaries.lowerBound component =
        (above.find? fun entry ↦ !decide (component < entry.1)).or (some (digest, true)) := by
      simp [OrderedMap.lowerBound, hmoved, List.find?_append, hdigest]
    cases hfind : above.find? fun entry ↦ !decide (component < entry.1) with
    | none => simp [NdnCxx.Exclude.isExcluded, hfilter, hother, hfind]
    | some boundary => simp [NdnCxx.Exclude.isExcluded, hfilter, hother, hfind, hge.not_gt]

/-- The meaning is the same exactly if there is no digest after the one that takes the flag. -/
theorem AnyBetween.forall_isExcluded_iff (hvalid : IsValid filter)
    (hmoved : moved.boundaries.entries = above ++ (digest, true) :: below) :
    (∀ component : Component, component.IsValid →
      moved.isExcluded component = filter.isExcluded component) ↔
        digest = Component.lastDigest := by
  have hdigest : digest.isImplicitSha256Digest = true :=
    (Component.lt_empty_iff (hbetween.valid_digest hvalid)).mp hbetween.digest_lt
  have hlast : Component.lastDigest < Component.empty := by decide
  constructor
  · intro hsame
    have hle := Component.le_lastDigest hdigest
    have hboth := hsame Component.lastDigest Component.isValid_lastDigest
    rw [hbetween.isExcluded_moved hmoved, hbetween.isExcluded_eq_equals hle hlast] at hboth
    apply Component.eq_of_equals_of_digest hdigest (by decide)
    simpa [hle, hlast] using hboth
  · rintro rfl component hcomponent
    rw [hbetween.isExcluded_moved hmoved]
    by_cases hrange : Component.lastDigest ≤ component ∧ component < Component.empty
    · have hother := (Component.lt_empty_iff hcomponent).mp hrange.2
      obtain rfl := le_antisymm (Component.le_lastDigest hother) hrange.1
      rw [hbetween.isExcluded_eq_equals le_rfl hlast]
      decide
    · simp [hrange]

end Unflagged

/-! ## The round trip -/

/-- Encoding and decoding, into whatever object, leaves the same components excluded. -/
def SurvivesWire (exclude : Exclude) : Prop :=
  ∃ wire kept block, exclude.wireEncode = .ok (wire, kept) ∧ Block.fromWire wire = .ok block ∧
    ∀ prior : Exclude, ∃ decoded, prior.wireDecode block = .ok decoded ∧
      ∀ component : Component, component.IsValid →
        decoded.filter.isExcluded component = exclude.filter.isExcluded component

theorem wireEncode_eq (hnone : exclude.wire = none) (hnonempty : exclude.isEmpty = false)
    (hsize : (toBlock exclude.filter).wire.length < 2 ^ 64) :
    exclude.wireEncode = .ok ((toBlock exclude.filter).wire,
      { exclude with wire := some (toBlock exclude.filter).wire }) := by
  have hencode : codes.encode exclude = .ok (toBlock exclude.filter).wire := by
    apply bind_eq_ok_iff.mpr
    exact ⟨_, wireEncodeInto_eq hnonempty, bufferBlock_ofElements (by decide) hsize⟩
  have hstored : codes.stored exclude = none := hnone
  simp only [wireEncode, CodeStore.recallCode, hstored, hencode]
  rfl

/-- What the wire is decoded to, in place of the bytes that lead there. -/
theorem survivesWire_iff (hnone : exclude.wire = none) (hnonempty : exclude.isEmpty = false)
    (hsize : (toBlock exclude.filter).wire.length < 2 ^ 64) :
    exclude.SurvivesWire ↔ ∀ prior : Exclude, ∃ decoded,
      prior.wireDecode (toBlock exclude.filter) = .ok decoded ∧
        ∀ component : Component, component.IsValid →
          decoded.filter.isExcluded component = exclude.filter.isExcluded component := by
  have hencode := wireEncode_eq hnone hnonempty hsize
  have hblock : Block.fromWire (toBlock exclude.filter).wire = .ok (toBlock exclude.filter) :=
    Block.fromWire_ofElements (by decide) hsize
  constructor
  · rintro ⟨wire, kept, block, hwire, hfrom, hdecode⟩
    rw [hencode] at hwire
    cases hwire
    rw [hblock] at hfrom
    cases hfrom
    exact hdecode
  · intro hdecode
    exact ⟨_, _, _, hencode, hblock, hdecode⟩

/-- A filter built by the high-level mutators means the same after the wire exactly if below a
flagged empty boundary there is none, or the last digest without a flag is the next. -/
theorem survivesWire_iff_anyInPlace (hcalls : ∀ call ∈ calls, call.Builds) (hne : calls ≠ [])
    (hrun : Run.run perform {} calls = some exclude)
    (hsize : ∀ bytes, exclude.wireEncodeInto = .ok bytes → bytes.length < 2 ^ 64) :
    exclude.SurvivesWire ↔ AnyInPlace exclude.filter := by
  have hbuilt := isBuilt_of_run hcalls hrun
  obtain ⟨boundary, hmem⟩ := hbuilt.nonempty hne
  have hentries : exclude.filter.boundaries.entries ≠ [] := List.ne_nil_of_mem hmem
  have hnonempty : exclude.isEmpty = false := by simpa [isEmpty] using hentries
  have hshort := hsize _ (wireEncodeInto_eq hnonempty)
  rw [survivesWire_iff hbuilt.wire hnonempty hshort]
  rcases isUnambiguous_or_anyBetween hbuilt.valid with ⟨hclear, hnone⟩ |
    ⟨hany, above, below, digest, flag, hbetween, hnext⟩
  · refine iff_of_true (fun prior ↦ ?_) fun hany below hbelow ↦ ?_
    · exact ⟨_, wireDecode_toBlock prior hentries hbuilt.valid hclear hshort, fun _ _ ↦ rfl⟩
    · rw [hnone hany] at hbelow
      cases hbelow
  · have hplace : AnyInPlace exclude.filter ↔ (digest, flag) = (Component.lastDigest, false) := by
      constructor
      · intro hplace
        exact hplace hany _ hnext
      · intro heq _ below hbelow
        rw [hnext] at hbelow
        exact (Option.some.inj hbelow).symm.trans heq
    rw [hplace]
    cases flag with
    | true =>
      refine iff_of_false (fun hdecode ↦ ?_) (by simp)
      obtain ⟨decoded, hdecoded, -⟩ := hdecode {}
      rw [hbetween.wireDecode_flagged hbuilt.valid _ hshort] at hdecoded
      cases hdecoded
    | false =>
      rw [Prod.mk.injEq, and_iff_left rfl]
      constructor
      · intro hdecode
        obtain ⟨decoded, hdecoded, hsame⟩ := hdecode {}
        obtain ⟨found, hfound, hmoved⟩ := hbetween.wireDecode_unflagged hbuilt.valid {} hshort
        rw [hfound] at hdecoded
        cases hdecoded
        exact (hbetween.forall_isExcluded_iff hbuilt.valid hmoved).mp hsame
      · intro hlast prior
        obtain ⟨found, hfound, hmoved⟩ := hbetween.wireDecode_unflagged hbuilt.valid prior hshort
        exact ⟨found, hfound, (hbetween.forall_isExcluded_iff hbuilt.valid hmoved).mpr hlast⟩

/-- Excluding the last digest and then everything up to `a` writes the ANY element after the digest,
where it does no harm. -/
theorem survivesWire_lastDigest :
    ∃ exclude, Run.run perform {} [.excludeOne Component.lastDigest,
        .excludeBefore (.generic [0x61])] = some exclude ∧
      exclude.filter.isExcluded Component.lastDigest = true ∧
      exclude.filter.isExcluded (.generic [0x62]) = false ∧ exclude.SurvivesWire := by
  let calls : List Call := [.excludeOne Component.lastDigest, .excludeBefore (.generic [0x61])]
  have hcalls : ∀ call ∈ calls, call.Builds := by decide
  have hne : calls ≠ [] := by simp [calls]
  refine ⟨_, rfl, by decide, by decide, (survivesWire_iff_anyInPlace hcalls hne rfl ?_).mpr ?_⟩
  · intro bytes hbytes
    obtain rfl := Except.ok.inj hbytes
    decide
  · intro _ below hbelow
    exact (Option.some.inj hbelow).symm

/-- With a smaller digest, the digests after it are excluded once the filter was on the wire. -/
theorem wireEncode_misplaces_any :
    ∃ exclude wire kept block decoded,
      Run.run perform {} [.excludeOne ⟨Tlv.implicitSha256DigestComponent, List.replicate 32 0⟩,
        .excludeBefore (.generic [0x61])] = some exclude ∧
      exclude.wireEncode = .ok (wire, kept) ∧ Block.fromWire wire = .ok block ∧
      ({} : Exclude).wireDecode block = .ok decoded ∧
      exclude.filter.isExcluded ⟨Tlv.implicitSha256DigestComponent, List.replicate 32 1⟩ = false ∧
      decoded.filter.isExcluded ⟨Tlv.implicitSha256DigestComponent, List.replicate 32 1⟩ = true :=
  ⟨_, _, _, _, _, rfl, rfl, rfl, rfl, by decide, by decide⟩

end Packet.Exclude

end NdnCxx
