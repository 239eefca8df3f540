import NdnCxx.Foundation.LastRun
import NdnCxx.Storage.InMemoryStorage
import Mathlib.Data.Finset.Max
import Mathlib.Data.List.TakeWhile
import Mathlib.Data.Prod.Lex

/-!
# The best match of an Interest

What the selectors of an Interest ask for, and exactly when `InMemoryStorage::find` returns it.

The search looks at a contiguous part of the cache: it starts one entry before the lower bound of
the Interest's name and walks right while the name is a prefix. It departs from the selectors in
three places. An entry stored under the Interest's own name is returned without looking at the
selectors or at its freshness. The starting point takes no part in the walk for the rightmost child,
so its child prefix is not remembered. And prefixes are recognised by component values while the
cache is ordered by types first, so a match can lie outside the part that is walked.
-/

namespace NdnCxx.InMemoryStorage

open InMemoryStorageEntry LastRun

variable {sha256 : Bytes → Bytes}

/-! ## What the selectors ask for -/

section Specification

variable (storage : InMemoryStorage sha256) (interest : Interest)

def IsCandidate (entry : InMemoryStorageEntry) : Prop :=
  entry ∈ storage.cache ∧ interest.matchesData sha256 entry.data = true ∧
    (interest.mustBeFresh = true → entry.isFresh = true)

/-- The candidate with the smallest full name. -/
def IsLeftmost (entry : InMemoryStorageEntry) : Prop :=
  storage.IsCandidate interest entry ∧ ∀ other, storage.IsCandidate interest other →
    entry.getFullName sha256 ≤ other.getFullName sha256

/-- The candidate with the smallest full name among those under the greatest child prefix. -/
def IsRightmost (entry : InMemoryStorageEntry) : Prop :=
  storage.IsCandidate interest entry ∧ ∀ other, storage.IsCandidate interest other →
    childPrefix sha256 interest other < childPrefix sha256 interest entry ∨
      childPrefix sha256 interest other = childPrefix sha256 interest entry ∧
        entry.getFullName sha256 ≤ other.getFullName sha256

/-- The entry is an answer, and the one the child selector asks for. -/
def IsBestMatch (entry : InMemoryStorageEntry) : Prop :=
  storage.IsCandidate interest entry ∧
    (interest.childSelector ≤ 0 → storage.IsLeftmost interest entry) ∧
    (interest.childSelector = 1 → storage.IsRightmost interest entry)

/-- `find` returns null exactly when nothing can answer, and a best match otherwise. -/
def FindsBestMatch : Prop :=
  (storage.find interest = none ↔ ∀ entry, ¬ storage.IsCandidate interest entry) ∧
    ∀ entry, storage.find interest = some entry → storage.IsBestMatch interest entry

/-! ## The part of the cache that is searched -/

/-- Whether `findNextFresh` stops at the entry, or is not called at all. -/
def isEligible (entry : InMemoryStorageEntry) : Bool := !(interest.mustBeFresh && !entry.isFresh)

/-- The eligible entries from a position up to the first one that lacks the Interest's name as a
prefix; the entry at the position itself is not tested. -/
def walk (sha256 : Bytes → Bytes) (startingPoint : List InMemoryStorageEntry) :
    List InMemoryStorageEntry :=
  match startingPoint.filter (isEligible interest) with
  | [] => []
  | start :: rest =>
      start :: rest.takeWhile fun entry ↦ interest.name.isPrefixOf (entry.getFullName sha256)

/-- The entries between which the search chooses when no entry has the Interest's own name. -/
def searched : List InMemoryStorageEntry :=
  if storage.lowerBound interest.name = storage.cache.length then []
  else walk interest sha256 (storage.cache.drop (storage.lowerBound interest.name - 1))

/-- The walk meets `best` as the first match of its child: it is the starting point and nothing else
is met, or it is met later and the match met just before it is under a child with other values. -/
def MeetsFirst (sha256 : Bytes → Bytes) (best : InMemoryStorageEntry) :
    List InMemoryStorageEntry → Prop
  | [] => False
  | start :: rest =>
      let matched := rest.filter fun entry ↦ interest.matchesData sha256 entry.data
      best = start ∧ matched = [] ∨
        ∃ before after, matched = before ++ best :: after ∧ ∀ previous ∈ before.getLast?,
          (childPrefix sha256 interest previous).equals (childPrefix sha256 interest best) = false

/-- The search is able to locate what the selectors ask for. An entry under the Interest's own name
has to be a candidate itself, and no other candidate may take precedence over it. Without such an
entry the best candidate has to be among the searched entries, and for the rightmost child the walk
has to meet it first. -/
def LocatesBestMatch : Prop :=
  match storage.findByFullName interest.name with
  | some stored =>
      storage.IsCandidate interest stored ∧
        ∀ other, storage.IsCandidate interest other →
          (interest.childSelector ≤ 0 → interest.name ≤ other.getFullName sha256) ∧
          (interest.childSelector = 1 → other.getFullName sha256 ≤ interest.name)
  | none =>
      (interest.childSelector ≤ 0 → ∀ best, storage.IsLeftmost interest best →
        best ∈ storage.searched interest) ∧
      (interest.childSelector = 1 → ∀ best, storage.IsRightmost interest best →
        MeetsFirst interest sha256 best (storage.searched interest)) ∧
      (1 < interest.childSelector → (∃ entry, storage.IsCandidate interest entry) →
        ∃ entry ∈ storage.searched interest, storage.IsCandidate interest entry)

end Specification

/-! ## The search as a choice between the searched entries -/

section Search

variable {interest : Interest}

theorem filter_isEligible (startingPoint : List InMemoryStorageEntry) :
    startingPoint.filter (isEligible interest) =
      match if interest.mustBeFresh then findNextFresh startingPoint else startingPoint with
      | [] => []
      | start :: rest => start :: rest.filter (isEligible interest) := by
  cases hfresh : interest.mustBeFresh with
  | false => cases startingPoint <;> simp [isEligible, hfresh]
  | true =>
    induction startingPoint with
    | nil => simp [findNextFresh]
    | cons entry rest ih =>
      cases hentry : entry.isFresh with
      | true => simp [findNextFresh, isEligible, hfresh, hentry]
      | false =>
        rw [List.filter_cons_of_neg (by simp [isEligible, hfresh, hentry]), ih]
        simp [findNextFresh, hentry]

/-- The matches a walk over `entries` meets behind the starting point. -/
def met (sha256 : Bytes → Bytes) (interest : Interest) (entries : List InMemoryStorageEntry) :
    List InMemoryStorageEntry :=
  ((entries.filter (isEligible interest)).takeWhile
    fun entry ↦ interest.name.isPrefixOf (entry.getFullName sha256)).filter
      fun entry ↦ interest.matchesData sha256 entry.data

theorem met_cons (entry : InMemoryStorageEntry) (rest : List InMemoryStorageEntry) :
    met sha256 interest (entry :: rest) =
      if interest.mustBeFresh && !entry.isFresh then met sha256 interest rest
      else if interest.name.isPrefixOf (entry.getFullName sha256) then
        if interest.matchesData sha256 entry.data then entry :: met sha256 interest rest
        else met sha256 interest rest
      else [] := by
  unfold met
  by_cases hstale : (interest.mustBeFresh && !entry.isFresh) = true
  · rw [if_pos hstale, List.filter_cons_of_neg (by simp [isEligible, hstale])]
  · have heligible : isEligible interest entry = true := by
      rw [isEligible, Bool.eq_false_iff.mpr hstale, Bool.not_false]
    rw [if_neg hstale, List.filter_cons_of_pos heligible, List.takeWhile_cons]
    split_ifs with hprefixed hmatch
    · rw [List.filter_cons_of_pos (by exact hmatch)]
    · rw [List.filter_cons_of_neg (by exact hmatch)]
    · rfl

/-- The loop without the tests that decide which entries are met. -/
def choose (sha256 : Bytes → Bytes) (interest : Interest) (currentChildPrefix : Name)
    (rightmost : Option InMemoryStorageEntry) :
    List InMemoryStorageEntry → Option InMemoryStorageEntry
  | [] => rightmost
  | entry :: rest =>
      if interest.childSelector ≤ 0 then some entry
      else if currentChildPrefix.isEmpty ||
          !(childPrefix sha256 interest entry).equals currentChildPrefix then
        choose sha256 interest (childPrefix sha256 interest entry) (some entry) rest
      else choose sha256 interest currentChildPrefix rightmost rest

theorem iterateRight_eq_choose (currentChildPrefix : Name)
    (rightmost : Option InMemoryStorageEntry) (entries : List InMemoryStorageEntry) :
    iterateRight sha256 interest currentChildPrefix rightmost entries =
      choose sha256 interest currentChildPrefix rightmost (met sha256 interest entries) := by
  induction entries generalizing currentChildPrefix rightmost with
  | nil => simp [iterateRight, met, choose]
  | cons entry rest ih =>
    rw [iterateRight, met_cons]
    simp only [ih]
    split_ifs <;> simp_all [choose]

theorem choose_leftmost (hleft : interest.childSelector ≤ 0) (currentChildPrefix : Name)
    (rightmost : Option InMemoryStorageEntry) (entries : List InMemoryStorageEntry) :
    choose sha256 interest currentChildPrefix rightmost entries = entries.head?.or rightmost := by
  cases entries <;> simp [choose, hleft]

/-- What the walk compares when it decides whether a match is under a new child. -/
def childKey (sha256 : Bytes → Bytes) (interest : Interest) (entry : InMemoryStorageEntry) :
    List Bytes :=
  (childPrefix sha256 interest entry).map Component.value

theorem childPrefix_ne_nil (entry : InMemoryStorageEntry) :
    childPrefix sha256 interest entry ≠ [] := by
  have hlength : (childPrefix sha256 interest entry).length =
      min (interest.name.length + 1) (entry.data.name.length + 1) := by
    have hcast := Name.getPrefix_natCast (entry.getFullName sha256) (interest.name.length + 1)
    push_cast at hcast
    rw [childPrefix, hcast, List.length_take, InMemoryStorageEntry.getFullName,
      Data.length_getFullName]
  intro hempty
  simp [hempty] at hlength

theorem choose_some (hright : ¬ interest.childSelector ≤ 0) (head : InMemoryStorageEntry)
    (entries : List InMemoryStorageEntry) :
    choose sha256 interest (childPrefix sha256 interest head) (some head) entries =
      some (continueRun (childKey sha256 interest) head entries) := by
  induction entries generalizing head with
  | nil => rfl
  | cons entry rest ih =>
    have hnew : ((childPrefix sha256 interest head).isEmpty ||
        !(childPrefix sha256 interest entry).equals (childPrefix sha256 interest head)) = true ↔
          ¬ childKey sha256 interest entry = childKey sha256 interest head := by
      simp [childPrefix_ne_nil, childKey, ← Name.equals_iff]
    rw [choose, continueRun, if_neg hright, ih, ih]
    by_cases hsame : childKey sha256 interest entry = childKey sha256 interest head
    · rw [if_neg (hnew.not.mpr (not_not.mpr hsame)), if_pos hsame]
    · rw [if_pos (hnew.mpr hsame), if_neg hsame]

theorem choose_rightmost (hright : ¬ interest.childSelector ≤ 0)
    (entries : List InMemoryStorageEntry) :
    choose sha256 interest [] none entries = lastRunHead (childKey sha256 interest) entries := by
  cases entries with
  | nil => rfl
  | cons entry rest =>
    rw [choose, if_neg hright, if_pos (by simp), choose_some hright, lastRunHead]

/-! ## The two child selectors -/

theorem selectChild_leftmost (hleft : interest.childSelector ≤ 0)
    (startingPoint : List InMemoryStorageEntry) :
    selectChild sha256 interest startingPoint =
      (walk interest sha256 startingPoint).find?
        fun entry ↦ interest.matchesData sha256 entry.data := by
  unfold selectChild walk
  rw [filter_isEligible]
  cases if interest.mustBeFresh then findNextFresh startingPoint else startingPoint with
  | nil => rfl
  | cons start rest =>
    simp only [iterateRight_eq_choose, choose_leftmost hleft, hleft, true_and, not_true_eq_false,
      false_and, if_false, List.find?_cons, Option.or_none]
    cases interest.matchesData sha256 start.data with
    | true => rfl
    | false =>
      simp only [met, List.head?_filter, Bool.false_eq_true, if_false]
      cases List.find? _ _ <;> rfl

/-- The choice of the rightmost selector: the walk remembers the first match under each new child,
and the starting point is a fallback. -/
def chooseRightmost (sha256 : Bytes → Bytes) (interest : Interest) :
    List InMemoryStorageEntry → Option InMemoryStorageEntry
  | [] => none
  | start :: rest =>
      (lastRunHead (childKey sha256 interest)
        (rest.filter fun entry ↦ interest.matchesData sha256 entry.data)).or
        (if interest.matchesData sha256 start.data then some start else none)

theorem selectChild_rightmost (hright : ¬ interest.childSelector ≤ 0)
    (startingPoint : List InMemoryStorageEntry) :
    selectChild sha256 interest startingPoint =
      chooseRightmost sha256 interest (walk interest sha256 startingPoint) := by
  unfold selectChild walk
  rw [filter_isEligible]
  cases if interest.mustBeFresh then findNextFresh startingPoint else startingPoint with
  | nil => rfl
  | cons start rest =>
    simp only [iterateRight_eq_choose, choose_rightmost hright, hright, not_false_eq_true, true_and,
      false_and, if_false, chooseRightmost, met]
    cases lastRunHead (childKey sha256 interest) _ <;> simp

end Search

/-! ## Candidates -/

section Candidates

variable {storage : InMemoryStorage sha256} {interest : Interest}
  {entry other : InMemoryStorageEntry}

theorem eq_of_getFullName_eq (hentry : entry ∈ storage.cache) (hother : other ∈ storage.cache)
    (hname : entry.getFullName sha256 = other.getFullName sha256) : entry = other := by
  have hnodup : (storage.cache.map (getFullName sha256)).Nodup := by
    rw [List.nodup_iff_pairwise_ne, List.pairwise_map]
    exact storage.sorted.imp fun hlt ↦ hlt.ne
  exact List.inj_on_of_nodup_map hnodup hentry hother hname

/-- One of the candidates has the least rank. -/
theorem exists_least {Rank : Type} [LinearOrder Rank] (rank : InMemoryStorageEntry → Rank)
    (hexists : ∃ entry, storage.IsCandidate interest entry) :
    ∃ best, storage.IsCandidate interest best ∧
      ∀ other, storage.IsCandidate interest other → rank best ≤ rank other := by
  classical
  obtain ⟨entry, hentry⟩ := hexists
  have hnonempty : (storage.cache.toFinset.filter (storage.IsCandidate interest)).Nonempty :=
    ⟨entry, by simp [hentry, hentry.1]⟩
  obtain ⟨best, hbest, hleast⟩ := Finset.exists_min_image _ rank hnonempty
  refine ⟨best, by simpa using (Finset.mem_filter.mp hbest).2, fun other hother ↦ ?_⟩
  exact hleast other (by simp [hother, hother.1])

theorem exists_isLeftmost (hexists : ∃ entry, storage.IsCandidate interest entry) :
    ∃ best, storage.IsLeftmost interest best :=
  exists_least (getFullName sha256) hexists

theorem exists_isRightmost (hexists : ∃ entry, storage.IsCandidate interest entry) :
    ∃ best, storage.IsRightmost interest best := by
  obtain ⟨best, hbest, hgreatest⟩ := exists_least
    (fun entry ↦ OrderDual.toDual (toLex (childPrefix sha256 interest entry,
      OrderDual.toDual (entry.getFullName sha256)))) hexists
  refine ⟨best, hbest, fun other hother ↦ ?_⟩
  have hle := OrderDual.toDual_le_toDual.mp (hgreatest other hother)
  simpa [Prod.Lex.toLex_le_toLex] using hle

theorem IsLeftmost.eq (hentry : storage.IsLeftmost interest entry)
    (hother : storage.IsLeftmost interest other) : entry = other :=
  eq_of_getFullName_eq hentry.1.1 hother.1.1
    (le_antisymm (hentry.2 other hother.1) (hother.2 entry hentry.1))

theorem IsRightmost.eq (hentry : storage.IsRightmost interest entry)
    (hother : storage.IsRightmost interest other) : entry = other := by
  have hname : entry.getFullName sha256 = other.getFullName sha256 := by
    have hforth := hentry.2 other hother.1
    have hback := hother.2 entry hentry.1
    grind
  exact eq_of_getFullName_eq hentry.1.1 hother.1.1 hname

/-- With the child selectors of the protocol, the candidates alone determine the best match. -/
theorem IsBestMatch.eq (hselector : interest.childSelector ≤ 1)
    (hentry : storage.IsBestMatch interest entry) (hother : storage.IsBestMatch interest other) :
    entry = other := by
  rcases hselector.lt_or_eq with hleft | hright
  · exact (hentry.2.1 (by omega)).eq (hother.2.1 (by omega))
  · exact (hentry.2.2 hright).eq (hother.2.2 hright)

theorem childPrefix_eq_take (interest : Interest) (entry : InMemoryStorageEntry) :
    childPrefix sha256 interest entry =
      (entry.getFullName sha256).take (interest.name.length + 1) := by
  rw [childPrefix, ← Name.getPrefix_natCast]
  norm_cast

/-- Compared with a name of the Interest's length, the child prefix decides like the full name. -/
theorem childPrefix_precedes_iff (sha256 : Bytes → Bytes) (interest : Interest)
    (entry : InMemoryStorageEntry) :
    (childPrefix sha256 interest entry < interest.name ∨
      childPrefix sha256 interest entry = interest.name ∧
        interest.name ≤ entry.getFullName sha256) ↔
      entry.getFullName sha256 ≤ interest.name := by
  rw [childPrefix_eq_take]
  set full := entry.getFullName sha256
  have hself : interest.name.take (interest.name.length + 1) = interest.name :=
    List.take_of_length_le (by omega)
  have hwhole (heq : full.take (interest.name.length + 1) = interest.name) :
      full = interest.name := by
    have hlength := congrArg List.length heq
    rw [List.length_take] at hlength
    rwa [List.take_of_length_le (by omega)] at heq
  constructor
  · rintro (hlt | ⟨heq, -⟩)
    · by_contra hgt
      have hle := Lexicographic.take_le_take (not_le.mp hgt).le (interest.name.length + 1)
      rw [hself] at hle
      exact absurd hlt hle.not_gt
    · exact (hwhole heq).le
  · intro hle
    have htake := Lexicographic.take_le_take hle (interest.name.length + 1)
    rw [hself] at htake
    rcases htake.lt_or_eq with hlt | heq
    · exact Or.inl hlt
    · exact Or.inr ⟨heq, (hwhole heq).ge⟩

end Candidates

/-! ## The searched entries -/

variable {stored best : InMemoryStorageEntry}

section Searched

variable {storage : InMemoryStorage sha256} {interest : Interest} {entry : InMemoryStorageEntry}

theorem walk_sublist (startingPoint : List InMemoryStorageEntry) :
    (walk interest sha256 startingPoint).Sublist (startingPoint.filter (isEligible interest)) := by
  unfold walk
  split
  · simp
  · next start rest hfilter =>
    rw [hfilter]
    exact (List.takeWhile_sublist _).cons_cons start

theorem searched_sublist : (storage.searched interest).Sublist
    (storage.cache.filter (isEligible interest)) := by
  unfold searched
  split_ifs
  · simp
  · exact (walk_sublist _).trans ((List.drop_sublist _ _).filter _)

theorem isEligible_iff :
    isEligible interest entry = true ↔ (interest.mustBeFresh = true → entry.isFresh = true) := by
  cases hfresh : interest.mustBeFresh <;> simp [isEligible, hfresh]

theorem isCandidate_of_mem_searched (hmem : entry ∈ storage.searched interest)
    (hmatch : interest.matchesData sha256 entry.data = true) :
    storage.IsCandidate interest entry := by
  obtain ⟨hcache, heligible⟩ := List.mem_filter.mp (searched_sublist.subset hmem)
  exact ⟨hcache, hmatch, isEligible_iff.mp heligible⟩

theorem searched_sorted (storage : InMemoryStorage sha256) (interest : Interest) :
    (storage.searched interest).Pairwise
    fun first second ↦ first.getFullName sha256 < second.getFullName sha256 :=
  storage.sorted.sublist (searched_sublist.trans List.filter_sublist)

theorem find_of_stored (hstored : storage.findByFullName interest.name = some stored) :
    storage.find interest = some stored := by
  simp [find, hstored]

theorem find_leftmost (habsent : storage.findByFullName interest.name = none)
    (hleft : interest.childSelector ≤ 0) :
    storage.find interest = (storage.searched interest).find?
      fun entry ↦ interest.matchesData sha256 entry.data := by
  simp only [find, habsent, searched, selectChild_leftmost hleft]
  split_ifs with hend hbegin
  · rfl
  · rfl
  · rw [not_not.mp hbegin]

theorem find_rightmost (habsent : storage.findByFullName interest.name = none)
    (hright : ¬ interest.childSelector ≤ 0) :
    storage.find interest = chooseRightmost sha256 interest (storage.searched interest) := by
  simp only [find, habsent, searched, selectChild_rightmost hright]
  split_ifs with hend hbegin
  · rfl
  · rfl
  · rw [not_not.mp hbegin]

variable {entries : List InMemoryStorageEntry}

theorem mem_of_chooseRightmost (hchoose : chooseRightmost sha256 interest entries = some entry) :
    entry ∈ entries ∧ interest.matchesData sha256 entry.data = true := by
  cases entries with
  | nil => simp [chooseRightmost] at hchoose
  | cons start rest =>
    rcases Option.or_eq_some_iff.mp hchoose with hlast | ⟨-, hstart⟩
    · obtain ⟨hrest, hmatch⟩ := List.mem_filter.mp (mem_of_lastRunHead hlast)
      exact ⟨List.mem_cons_of_mem start hrest, hmatch⟩
    · split_ifs at hstart with hmatch
      obtain rfl : start = entry := by simpa using hstart
      exact ⟨by simp, hmatch⟩

theorem chooseRightmost_eq_none_iff :
    chooseRightmost sha256 interest entries = none ↔
      ∀ entry ∈ entries, ¬ interest.matchesData sha256 entry.data = true := by
  cases entries with
  | nil => simp [chooseRightmost]
  | cons start rest =>
    rw [chooseRightmost, Option.or_eq_none_iff, lastRunHead_eq_none_iff]
    simp [and_comm]

/-- Without an entry under the Interest's name, only searched candidates are returned, and null only
when none of them is there. -/
theorem find_spec (habsent : storage.findByFullName interest.name = none) :
    (∀ entry, storage.find interest = some entry →
      entry ∈ storage.searched interest ∧ storage.IsCandidate interest entry) ∧
    (storage.find interest = none → ∀ entry ∈ storage.searched interest,
      ¬ storage.IsCandidate interest entry) := by
  by_cases hleft : interest.childSelector ≤ 0
  · rw [find_leftmost habsent hleft]
    refine ⟨fun entry hfind ↦ ?_, fun hfind entry hmem hcandidate ↦ ?_⟩
    · have hmem := List.mem_of_find?_eq_some hfind
      exact ⟨hmem, isCandidate_of_mem_searched hmem (by simpa using List.find?_some hfind)⟩
    · exact List.find?_eq_none.mp hfind entry hmem hcandidate.2.1
  · rw [find_rightmost habsent hleft]
    refine ⟨fun entry hfind ↦ ?_, fun hfind entry hmem hcandidate ↦ ?_⟩
    · obtain ⟨hmem, hmatch⟩ := mem_of_chooseRightmost hfind
      exact ⟨hmem, isCandidate_of_mem_searched hmem hmatch⟩
    · exact chooseRightmost_eq_none_iff.mp hfind entry hmem hcandidate.2.1

/-- The matches met after the best one are under the same child. -/
theorem childKey_eq_of_later (hbest : storage.IsRightmost interest best)
    (hentry : storage.IsCandidate interest entry)
    (hlater : best.getFullName sha256 < entry.getFullName sha256) :
    childKey sha256 interest entry = childKey sha256 interest best := by
  have hle : childPrefix sha256 interest best ≤ childPrefix sha256 interest entry := by
    rw [childPrefix_eq_take, childPrefix_eq_take]
    exact Lexicographic.take_le_take hlater.le _
  rcases hbest.2 entry hentry with hlt | ⟨heq, -⟩
  · exact absurd hlt hle.not_gt
  · rw [childKey, heq, childKey]

theorem equals_childPrefix_eq_false_iff {previous : InMemoryStorageEntry} :
    (childPrefix sha256 interest previous).equals (childPrefix sha256 interest best) = false ↔
      childKey sha256 interest previous ≠ childKey sha256 interest best := by
  rw [childKey, childKey, ne_eq, ← Name.equals_iff, Bool.not_eq_true]

theorem find_eq_some_iff_meetsFirst (habsent : storage.findByFullName interest.name = none)
    (hright : interest.childSelector = 1) (hbest : storage.IsRightmost interest best) :
    storage.find interest = some best ↔
      MeetsFirst interest sha256 best (storage.searched interest) := by
  rw [find_rightmost habsent (by omega)]
  have hcandidate {entry : InMemoryStorageEntry} (hmem : entry ∈ storage.searched interest)
      (hmatch : interest.matchesData sha256 entry.data = true) :=
    isCandidate_of_mem_searched hmem hmatch
  have hsorted := storage.searched_sorted interest
  cases hsearched : storage.searched interest with
  | nil => simp [chooseRightmost, MeetsFirst]
  | cons start rest =>
    rw [hsearched] at hcandidate hsorted
    simp only [chooseRightmost, MeetsFirst, Option.or_eq_some_iff, lastRunHead_eq_none_iff,
      lastRunHead_eq_some_iff, equals_childPrefix_eq_false_iff]
    constructor
    · rintro (⟨before, after, hsplit, -, hbefore⟩ | ⟨hempty, hstart⟩)
      · exact Or.inr ⟨before, after, hsplit, hbefore⟩
      · split_ifs at hstart
        exact Or.inl ⟨by simpa using hstart.symm, hempty⟩
    · rintro (⟨rfl, hempty⟩ | ⟨before, after, hsplit, hbefore⟩)
      · exact Or.inr ⟨hempty, by simp [hbest.1.2.1]⟩
      · refine Or.inl ⟨before, after, hsplit, fun later hlater ↦ ?_, hbefore⟩
        have hmem : later ∈ rest.filter fun entry ↦ interest.matchesData sha256 entry.data := by
          simp [hsplit, hlater]
        obtain ⟨hrest, hmatch⟩ := List.mem_filter.mp hmem
        have horder := (List.pairwise_cons.mp hsorted).2.sublist
          (List.filter_sublist (p := fun entry ↦ interest.matchesData sha256 entry.data))
        rw [hsplit] at horder
        have hafter := (List.pairwise_append.mp horder).2.1
        exact childKey_eq_of_later hbest (hcandidate (List.mem_cons_of_mem start hrest) hmatch)
          ((List.pairwise_cons.mp hafter).1 later hlater)

end Searched

/-! ## The exact condition -/

section Condition

variable {storage : InMemoryStorage sha256} {interest : Interest}

theorem findsBestMatch_iff_of_stored
    (hstored : storage.findByFullName interest.name = some stored) :
    storage.FindsBestMatch interest ↔ storage.IsBestMatch interest stored := by
  unfold FindsBestMatch
  rw [find_of_stored hstored]
  constructor
  · intro hfinds
    exact hfinds.2 stored rfl
  · intro hbest
    refine ⟨iff_of_false (by simp) fun hnone ↦ hnone stored hbest.1, ?_⟩
    rintro entry hentry
    obtain rfl : stored = entry := by simpa using hentry
    exact hbest

/-- An entry under the Interest's own name is under no child of it, so it comes last for the
rightmost selector only if every other candidate precedes it. -/
theorem isBestMatch_stored_iff (hname : stored.getFullName sha256 = interest.name) :
    storage.IsBestMatch interest stored ↔
      storage.IsCandidate interest stored ∧ ∀ other, storage.IsCandidate interest other →
        (interest.childSelector ≤ 0 → interest.name ≤ other.getFullName sha256) ∧
        (interest.childSelector = 1 → other.getFullName sha256 ≤ interest.name) := by
  have hchild : childPrefix sha256 interest stored = interest.name := by
    rw [childPrefix_eq_take, hname, List.take_of_length_le (by omega)]
  have hprecedes := childPrefix_precedes_iff sha256 interest
  unfold IsBestMatch IsLeftmost IsRightmost
  rw [hchild, hname]
  constructor
  · rintro ⟨hcandidate, hleft, hright⟩
    exact ⟨hcandidate, fun other hother ↦ ⟨fun hselector ↦ (hleft hselector).2 other hother,
      fun hselector ↦ (hprecedes other).mp ((hright hselector).2 other hother)⟩⟩
  · rintro ⟨hcandidate, hothers⟩
    exact ⟨hcandidate, fun hselector ↦ ⟨hcandidate, fun other hother ↦ (hothers other hother).1
      hselector⟩, fun hselector ↦ ⟨hcandidate, fun other hother ↦
      (hprecedes other).mpr ((hothers other hother).2 hselector)⟩⟩

variable {entry : InMemoryStorageEntry}

theorem isBestMatch_iff_isLeftmost (hleft : interest.childSelector ≤ 0) :
    storage.IsBestMatch interest entry ↔ storage.IsLeftmost interest entry :=
  ⟨fun hbest ↦ hbest.2.1 hleft, fun hleast ↦ ⟨hleast.1, fun _ ↦ hleast, fun h ↦ by omega⟩⟩

theorem isBestMatch_iff_isRightmost (hright : interest.childSelector = 1) :
    storage.IsBestMatch interest entry ↔ storage.IsRightmost interest entry :=
  ⟨fun hbest ↦ hbest.2.2 hright, fun hlast ↦ ⟨hlast.1, fun h ↦ by omega, fun _ ↦ hlast⟩⟩

section

variable (habsent : storage.findByFullName interest.name = none)
include habsent

/-- Without an entry under the Interest's name, the contract is that every best match is found. -/
theorem findsBestMatch_iff_of_absent (hselector : interest.childSelector ≤ 1) :
    storage.FindsBestMatch interest ↔
      ∀ best, storage.IsBestMatch interest best → storage.find interest = some best := by
  have hexists (hsome : ∃ entry, storage.IsCandidate interest entry) :
      ∃ best, storage.IsBestMatch interest best := by
    rcases hselector.lt_or_eq with hleft | hright
    · simp only [isBestMatch_iff_isLeftmost (by omega : interest.childSelector ≤ 0)]
      exact exists_isLeftmost hsome
    · simp only [isBestMatch_iff_isRightmost hright]
      exact exists_isRightmost hsome
  constructor
  · rintro ⟨hnone, hsome⟩ best hbest
    cases hfind : storage.find interest with
    | none => exact absurd hbest.1 (hnone.mp hfind best)
    | some entry => rw [(hsome entry hfind).eq hselector hbest]
  · intro hall
    refine ⟨⟨fun hfind entry hentry ↦ ?_, fun hnone ↦ ?_⟩, fun entry hfind ↦ ?_⟩
    · obtain ⟨best, hbest⟩ := hexists ⟨entry, hentry⟩
      simp [hall best hbest] at hfind
    · cases hfind : storage.find interest with
      | none => rfl
      | some entry => exact absurd ((find_spec habsent).1 entry hfind).2 (hnone entry)
    · obtain ⟨best, hbest⟩ := hexists ⟨entry, ((find_spec habsent).1 entry hfind).2⟩
      obtain rfl : best = entry := Option.some.inj ((hall best hbest).symm.trans hfind)
      exact hbest

theorem find_eq_some_iff_mem_searched (hleft : interest.childSelector ≤ 0)
    (hbest : storage.IsLeftmost interest best) :
    storage.find interest = some best ↔ best ∈ storage.searched interest := by
  constructor
  · intro hfind
    exact ((find_spec habsent).1 best hfind).1
  · intro hmem
    cases hfind : storage.find interest with
    | none => exact absurd hbest.1 ((find_spec habsent).2 hfind best hmem)
    | some entry =>
      have hentry := ((find_spec habsent).1 entry hfind).2
      rw [find_leftmost habsent hleft] at hfind
      obtain ⟨-, before, after, hsplit, hbefore⟩ := List.find?_eq_some_iff_append.mp hfind
      have hsorted := storage.searched_sorted interest
      rw [hsplit] at hmem hsorted
      rcases List.mem_append.mp hmem with hearlier | hrest
      · simpa [hbest.1.2.1] using hbefore best hearlier
      · rcases List.mem_cons.mp hrest with rfl | hlater
        · rfl
        · have hlt := (List.pairwise_cons.mp (List.pairwise_append.mp hsorted).2.1).1 best hlater
          exact absurd hlt (hbest.2 entry hentry).not_gt

theorem locatesBestMatch_iff_of_absent :
    storage.FindsBestMatch interest ↔ storage.LocatesBestMatch interest := by
  unfold LocatesBestMatch
  rw [habsent]
  simp only
  rcases lt_trichotomy interest.childSelector 1 with hleft | hright | hother
  · have hselector : interest.childSelector ≤ 0 := by omega
    rw [findsBestMatch_iff_of_absent habsent (by omega)]
    simp only [isBestMatch_iff_isLeftmost hselector]
    constructor
    · intro hall
      refine ⟨fun _ best hbest ↦ ?_, fun h ↦ by omega, fun h ↦ by omega⟩
      exact (find_eq_some_iff_mem_searched habsent hselector hbest).mp (hall best hbest)
    · rintro ⟨hmem, -, -⟩ best hbest
      exact (find_eq_some_iff_mem_searched habsent hselector hbest).mpr (hmem hselector best hbest)
  · rw [findsBestMatch_iff_of_absent habsent (by omega)]
    simp only [isBestMatch_iff_isRightmost hright]
    constructor
    · intro hall
      refine ⟨fun h ↦ by omega, fun _ best hbest ↦ ?_, fun h ↦ by omega⟩
      exact (find_eq_some_iff_meetsFirst habsent hright hbest).mp (hall best hbest)
    · rintro ⟨-, hmeets, -⟩ best hbest
      exact (find_eq_some_iff_meetsFirst habsent hright hbest).mpr (hmeets hright best hbest)
  · -- any other selector only asks for some candidate
    obtain ⟨hfound, hnull⟩ := find_spec habsent
    constructor
    · rintro ⟨hnone, -⟩
      refine ⟨fun h ↦ by omega, fun h ↦ by omega, fun _ hexists ↦ ?_⟩
      obtain ⟨candidate, hcandidate⟩ := hexists
      cases hfind : storage.find interest with
      | none => exact absurd hcandidate (hnone.mp hfind candidate)
      | some entry => exact ⟨entry, hfound entry hfind⟩
    · rintro ⟨-, -, hsome⟩
      refine ⟨⟨fun hfind entry hentry ↦ ?_, fun hnone ↦ ?_⟩, fun entry hfind ↦ ?_⟩
      · obtain ⟨candidate, hmem, hcandidate⟩ := hsome hother ⟨entry, hentry⟩
        exact hnull hfind candidate hmem hcandidate
      · cases hfind : storage.find interest with
        | none => rfl
        | some entry => exact absurd (hfound entry hfind).2 (hnone entry)
      · exact ⟨(hfound entry hfind).2, fun h ↦ by omega, fun h ↦ by omega⟩

end

theorem locatesBestMatch_iff (storage : InMemoryStorage sha256) (interest : Interest) :
    storage.FindsBestMatch interest ↔ storage.LocatesBestMatch interest := by
  cases hstored : storage.findByFullName interest.name with
  | none => exact locatesBestMatch_iff_of_absent hstored
  | some stored =>
    have hname : stored.getFullName sha256 = interest.name := by
      simpa using List.find?_some hstored
    rw [findsBestMatch_iff_of_stored hstored, isBestMatch_stored_iff hname]
    simp only [LocatesBestMatch, hstored]

/-- Two storages with the same candidates answer alike when both answer with a best match. -/
theorem find_eq_of_same_candidates (hselector : interest.childSelector ≤ 1)
    {other : InMemoryStorage sha256}
    (hsame : ∀ entry, storage.IsCandidate interest entry ↔ other.IsCandidate interest entry)
    (hfinds : storage.FindsBestMatch interest) (hother : other.FindsBestMatch interest) :
    storage.find interest = other.find interest := by
  cases hfind : storage.find interest with
  | none =>
    have hnone := hfinds.1.mp hfind
    exact (hother.1.mpr fun entry hentry ↦ hnone entry ((hsame entry).mpr hentry)).symm
  | some entry =>
    have hbest := hfinds.2 entry hfind
    cases hfind' : other.find interest with
    | none => exact absurd ((hsame entry).mp hbest.1) (hother.1.mp hfind' entry)
    | some entry' =>
      have hbest' : storage.IsBestMatch interest entry' := by
        have h := hother.2 entry' hfind'
        simpa only [IsBestMatch, IsLeftmost, IsRightmost, hsame] using h
      rw [hbest.eq hselector hbest']

/-- The search answers every Interest as its selectors ask exactly when it is able to locate the
best match. In that case entries that do not match have no influence on the answer. -/
theorem findsBestMatch_iff_locatesBestMatch (storage : InMemoryStorage sha256)
    (interest : Interest) :
    (storage.FindsBestMatch interest ↔ storage.LocatesBestMatch interest) ∧
      (interest.childSelector ≤ 1 → ∀ other : InMemoryStorage sha256,
        (∀ entry, storage.IsCandidate interest entry ↔ other.IsCandidate interest entry) →
        storage.LocatesBestMatch interest → other.LocatesBestMatch interest →
        storage.find interest = other.find interest) := by
  refine ⟨locatesBestMatch_iff storage interest, ?_⟩
  intro hselector other hsame hlocates hlocates'
  exact find_eq_of_same_candidates hselector hsame
    ((locatesBestMatch_iff storage interest).mpr hlocates)
    ((locatesBestMatch_iff other interest).mpr hlocates')

end Condition

/-! ## From the lower bound on -/

section LowerBound

variable {storage : InMemoryStorage sha256} {entry : InMemoryStorageEntry}

theorem drop_lowerBound (name : Name) :
    storage.cache.drop (storage.lowerBound name) =
      storage.cache.dropWhile fun entry ↦ entry.getFullName sha256 < name := by
  have hsplit := List.takeWhile_append_dropWhile
    (p := fun entry ↦ decide (entry.getFullName sha256 < name)) (l := storage.cache)
  conv_lhs => rw [lowerBound, ← hsplit]
  rw [List.drop_left' (by rw [hsplit])]

/-- From the lower bound on, no entry precedes the name. -/
theorem le_of_mem_drop_lowerBound {name : Name}
    (hmem : entry ∈ storage.cache.drop (storage.lowerBound name)) :
    name ≤ entry.getFullName sha256 := by
  have hsorted := storage.sorted.sublist
    (List.drop_sublist (storage.lowerBound name) storage.cache)
  rw [drop_lowerBound] at hmem hsorted
  cases hrest : storage.cache.dropWhile fun entry ↦ entry.getFullName sha256 < name with
  | nil => simp [hrest] at hmem
  | cons first others =>
    have hfirst : name ≤ first.getFullName sha256 := by
      have h := List.head_dropWhile_not
        (fun entry : InMemoryStorageEntry ↦ decide (entry.getFullName sha256 < name))
        (l := storage.cache) (by simp [hrest])
      simpa [hrest] using h
    rw [hrest] at hmem hsorted
    rcases List.mem_cons.mp hmem with rfl | hlater
    · exact hfirst
    · exact hfirst.trans ((List.pairwise_cons.mp hsorted).1 entry hlater).le

theorem mem_drop_lowerBound {name : Name} (hmem : entry ∈ storage.cache)
    (hle : name ≤ entry.getFullName sha256) :
    entry ∈ storage.cache.drop (storage.lowerBound name) := by
  rw [drop_lowerBound]
  rw [← List.takeWhile_append_dropWhile
    (p := fun entry : InMemoryStorageEntry ↦ decide (entry.getFullName sha256 < name))
    (l := storage.cache), List.mem_append] at hmem
  refine hmem.resolve_left fun hbefore ↦ ?_
  have hlt := List.mem_takeWhile_imp hbefore
  simp only [decide_eq_true_eq] at hlt
  exact absurd hlt hle.not_gt

end LowerBound

/-! ## Departures from the selectors -/

section Departures

/-- A digest function for the fixed storages below. -/
def zeroDigest (_wire : Bytes) : Bytes := List.replicate Tlv.sha256DigestSize 0

def unsignedData (name : Name) : Data :=
  { name := name, signatureInfo := ⟨Tlv.digestSha256, none, []⟩, wire := [] }

def staleStorage : InMemoryStorage zeroDigest where
  cache := [⟨unsignedData [.generic [65]], false⟩]
  sorted := by simp

def siblingStorage : InMemoryStorage zeroDigest where
  cache :=
    [⟨unsignedData [.generic [65], .generic [66], .generic [1]], true⟩,
      ⟨unsignedData [.generic [65], .generic [66], .generic [2]], true⟩]
  sorted := by decide

/-- A stale packet is returned to a `MustBeFresh` Interest that names it in full, and the rightmost
selector returns `/A/B/2` although `/A/B/1` comes first under the same child. -/
theorem not_findsBestMatch :
    ¬ staleStorage.FindsBestMatch
      { name := (unsignedData [.generic [65]]).getFullName zeroDigest, mustBeFresh := true } ∧
    ¬ siblingStorage.FindsBestMatch { name := [.generic [65]], childSelector := 1 } := by
  constructor
  · intro hfinds
    have hbest := hfinds.2 ⟨unsignedData [.generic [65]], false⟩ (by decide)
    exact absurd (hbest.1.2.2 rfl) (by decide)
  · intro hfinds
    have hbest := hfinds.2
      ⟨unsignedData [.generic [65], .generic [66], .generic [2]], true⟩ (by decide)
    have hother := (hbest.2.2 rfl).2
      ⟨unsignedData [.generic [65], .generic [66], .generic [1]], true⟩
      ⟨by decide, by decide, by decide⟩
    exact absurd hother (by decide)

/-- The leftmost selector is answered as asked on the same two packets. -/
theorem findsBestMatch_siblings :
    siblingStorage.FindsBestMatch { name := [.generic [65]] } := by
  apply (findsBestMatch_iff_locatesBestMatch siblingStorage { name := [.generic [65]] }).1.mpr
  refine ⟨fun _ best hbest ↦ ?_, fun h ↦ absurd h (by decide), fun h ↦ absurd h (by decide)⟩
  have hmem : best ∈ siblingStorage.cache := hbest.1.1
  have hsearched : siblingStorage.searched { name := [.generic [65]] } = siblingStorage.cache := by
    decide
  rwa [hsearched]

end Departures

end NdnCxx.InMemoryStorage
