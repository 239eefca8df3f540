import NdnCxx.Regex.Compile

/-!
# The search without side effects

What a pattern finds in a name and what its groups consume, as a function: the lengths are tried in
the order of the code, but an attempt that fails leaves nothing behind, and a group that takes no
part in a match consumes nothing. The function decides the language of the pattern, as long as no
repeated operand matches the empty sequence.
-/

namespace NdnCxx

namespace Pattern

open RegexMatcher hiding repetition

/-! ## Captures -/

abbrev Captures := ℕ → Option (List Component)

/-- Nothing is known of `count` back references from `first` on. -/
def Captures.forget (first count : ℕ) (captures : Captures) : Captures := fun backrefNo ↦
  if first ≤ backrefNo ∧ backrefNo < first + count then none else captures backrefNo

variable (library : RegexLibrary)

/-- The number of marks in a component expression. -/
def markCount (expr : List Char) : ℕ :=
  match library.markCount expr with
  | .ok count => count
  | .error _ => 0

mutual

def backrefCount : Pattern → ℕ
  | .group patterns _ => listBackrefCount patterns + 1
  | .component expr _ => markCount library expr
  | .set _ exprs _ => (exprs.map (markCount library)).sum

def listBackrefCount : List Pattern → ℕ
  | [] => 0
  | pattern :: later => backrefCount pattern + listBackrefCount later

end

/-- Component expressions with their marks numbered from `first` on. -/
def members : ℕ → List (List Char) → List RegexComponentMatcher
  | _, [] => []
  | first, expr :: exprs =>
      ⟨expr, first, markCount library expr⟩ :: members (first + markCount library expr) exprs

def accepts (target : Component) (member : RegexComponentMatcher) : Bool :=
  member.expr.isEmpty || (library.regexMatch member.expr target.toUri).isSome

/-- The marks of an expression that accepts a component. -/
def captureMarks (target : Component) (member : RegexComponentMatcher) (captures : Captures) :
    Captures :=
  if member.expr.isEmpty then captures
  else
    match library.regexMatch member.expr target.toUri with
    | some marks => fun backrefNo ↦
        if member.firstBackref ≤ backrefNo ∧
            backrefNo < member.firstBackref + member.markCount then
          some [Component.generic (bytesOf (marks.getD (backrefNo - member.firstBackref) []))]
        else captures backrefNo
    | none => captures

/-- The captures of a set: those of the only member that accepts the component. If several do, it
is not the pattern that decides between them. -/
def captureMember (target : Component) (candidates : List RegexComponentMatcher)
    (captures : Captures) : Captures :=
  match candidates.filter (accepts library target) with
  | [member] => captureMarks library target member captures
  | _ => captures

/-! ## The search -/

/-- The first success of attempts with fewer and fewer components. -/
def longest {α : Type} (attempt : ℕ → Option α) : ℕ → Option α
  | 0 => attempt 0
  | tried + 1 => (attempt (tried + 1)).or (longest attempt tried)

/-- Iterations of an operand, of which `count` are done and `remaining` are left. -/
def iterate (operand : ℕ → ℕ → Captures → Option Captures) (least : ℕ) :
    ℕ → ℕ → ℕ → ℕ → Captures → Option Captures
  | _, count, _, 0, captures => if least ≤ count then some captures else none
  | 0, _, _, _ + 1, _ => none
  | remaining + 1, count, offset, len + 1, captures =>
      longest (fun tried ↦ (operand offset tried captures).bind
        (iterate operand least remaining (count + 1) (offset + tried) (len + 1 - tried))) (len + 1)

/-- An operand repeated within its bounds; without an iteration nothing is captured in it. -/
def searchRepeated (operand : ℕ → ℕ → Captures → Option Captures) (first backrefs : ℕ)
    (bounds : ℕ × ℕ) (offset len : ℕ) (captures : Captures) : Option Captures :=
  if bounds.1 = 0 ∧ len = 0 then some (captures.forget first backrefs)
  else iterate operand bounds.1 bounds.2 0 offset len captures

def searchGroup (name : Name) (first : ℕ) (inner : ℕ → ℕ → Captures → Option Captures)
    (offset len : ℕ) (captures : Captures) : Option Captures :=
  (inner offset len (Function.update captures first none)).map fun captures ↦
    Function.update captures first (some (slice name offset len))

/-- One component of a set, or outside it. -/
def searchSet (name : Name) (isInclusion : Bool) (exprs : List (List Char)) (first offset len : ℕ)
    (captures : Captures) : Option Captures :=
  let target := name.getD offset Component.empty
  let candidates := members library first exprs
  if len = 1 ∧ candidates.any (accepts library target) = isInclusion then
    some (captureMember library target candidates
      (captures.forget first (exprs.map (markCount library)).sum))
  else none

mutual

/-- An item matched with the components from `offset` up to `offset + len`; its back references
are numbered from `first` on. -/
def search (name : Name) : Pattern → ℕ → ℕ → ℕ → Captures → Option Captures
  | .group patterns repetition, first, offset, len, captures =>
      let operand := searchGroup name first (searchList name patterns (first + 1))
      if repetition = .once then operand offset len captures
      else searchRepeated operand first (listBackrefCount library patterns + 1) repetition.bounds
        offset len captures
  | .component expr repetition, first, offset, len, captures =>
      searchRepeated (searchSet library name true [expr] first) first (markCount library expr)
        repetition.bounds offset len captures
  | .set isInclusion exprs repetition, first, offset, len, captures =>
      searchRepeated (searchSet library name isInclusion exprs first) first
        (exprs.map (markCount library)).sum repetition.bounds offset len captures

/-- Items matched one after another. -/
def searchList (name : Name) : List Pattern → ℕ → ℕ → ℕ → Captures → Option Captures
  | [], _, _, len, captures => if len = 0 then some captures else none
  | pattern :: later, first, offset, len, captures =>
      longest (fun tried ↦ (search name pattern first offset tried captures).bind
        (searchList name later (first + backrefCount library pattern) (offset + tried)
          (len - tried))) len

end

/-! ## Words and their parts -/

section Words

variable {name : Name} {offset len : ℕ}

theorem length_slice (hbound : offset + len ≤ name.length) :
    (slice name offset len).length = len := by
  simp only [slice, List.length_take, List.length_drop]
  omega

theorem slice_zero : slice name offset 0 = [] := by simp [slice]

theorem slice_eq_nil_iff (hbound : offset + len ≤ name.length) :
    slice name offset len = [] ↔ len = 0 := by
  rw [← List.length_eq_zero_iff, length_slice hbound]

theorem slice_append {tried : ℕ} (htried : tried ≤ len) :
    slice name offset tried ++ slice name (offset + tried) (len - tried) =
      slice name offset len := by
  have hsplit : len = tried + (len - tried) := by omega
  simp only [slice]
  rw [← List.drop_drop]
  conv_rhs => rw [hsplit]
  exact List.take_add.symm

/-- A part of a name is in a product if it splits into parts in the factors. -/
theorem slice_mem_mul_iff {front back : Language Component} (hbound : offset + len ≤ name.length) :
    slice name offset len ∈ front * back ↔
      ∃ tried ≤ len, slice name offset tried ∈ front ∧
        slice name (offset + tried) (len - tried) ∈ back := by
  constructor
  · intro hmem
    obtain ⟨first, hfirst, second, hsecond, happend⟩ := Language.mem_mul.mp hmem
    have hlength : first.length + second.length = len := by
      rw [← List.length_append, happend, length_slice hbound]
    have htried : first.length ≤ len := by omega
    have hparts : slice name offset first.length = first ∧
        slice name (offset + first.length) (len - first.length) = second := by
      apply List.append_inj
      · rw [slice_append htried, happend]
      · exact length_slice (by omega)
    exact ⟨first.length, htried, hparts.1.symm ▸ hfirst, hparts.2.symm ▸ hsecond⟩
  · rintro ⟨tried, htried, hfront, hback⟩
    rw [← slice_append htried]
    exact Language.append_mem_mul hfront hback

end Words

variable {operand : Language Component} {word : Name} {accepted : Component → Prop}
    {repetition : Repetition} {iterations : ℕ} {isInclusion : Bool}

/-- Every iteration of an operand without the empty sequence takes a component. -/
theorem le_length_of_mem_pow (hnonempty : [] ∉ operand) (hmem : word ∈ operand ^ iterations) :
    iterations ≤ word.length := by
  induction iterations generalizing word with
  | zero => exact Nat.zero_le _
  | succ iterations ih =>
    rw [pow_succ'] at hmem
    obtain ⟨first, hfirst, later, hlater, rfl⟩ := Language.mem_mul.mp hmem
    have hpositive : 0 < first.length :=
      List.length_pos_iff.mpr fun hnil ↦ hnonempty (hnil ▸ hfirst)
    have hcount := ih hlater
    rw [List.length_append]
    omega

def within (operand : Language Component) (low high : ℕ) : Language Component :=
  {word | ∃ iterations, low ≤ iterations ∧ iterations ≤ high ∧ word ∈ operand ^ iterations}

theorem mem_within_iff {low high : ℕ} :
    word ∈ within operand low high ↔
      ∃ iterations, low ≤ iterations ∧ iterations ≤ high ∧ word ∈ operand ^ iterations := Iff.rfl

theorem nil_mem_within_iff {low high : ℕ} (hnonempty : [] ∉ operand) :
    [] ∈ within operand low high ↔ low = 0 := by
  rw [mem_within_iff]
  constructor
  · rintro ⟨iterations, hlow, -, hmem⟩
    have hcount := le_length_of_mem_pow hnonempty hmem
    rw [List.length_nil] at hcount
    omega
  · rintro rfl
    exact ⟨0, le_rfl, Nat.zero_le high, by simp⟩

theorem notMem_within_zero {low : ℕ} (hword : word ≠ []) : word ∉ within operand low 0 := by
  rw [mem_within_iff]
  rintro ⟨iterations, -, hhigh, hmem⟩
  obtain rfl := Nat.le_zero.mp hhigh
  rw [pow_zero, Language.mem_one] at hmem
  exact hword hmem

/-- A word that is not empty starts with one iteration. -/
theorem mem_within_succ_iff {low high : ℕ} (hword : word ≠ []) :
    word ∈ within operand low (high + 1) ↔ word ∈ operand * within operand (low - 1) high := by
  rw [mem_within_iff, Language.mem_mul]
  constructor
  · rintro ⟨iterations, hlow, hhigh, hmem⟩
    cases iterations with
    | zero =>
      rw [pow_zero, Language.mem_one] at hmem
      exact absurd hmem hword
    | succ iterations =>
      rw [pow_succ', Language.mem_mul] at hmem
      obtain ⟨first, hfirst, later, hlater, happend⟩ := hmem
      exact ⟨first, hfirst, later,
        ⟨iterations, by omega, Nat.le_of_succ_le_succ hhigh, hlater⟩, happend⟩
  · rintro ⟨first, hfirst, later, ⟨iterations, hlow, hhigh, hlater⟩, rfl⟩
    refine ⟨iterations + 1, by omega, Nat.succ_le_succ hhigh, ?_⟩
    rw [pow_succ']
    exact Language.append_mem_mul hfirst hlater

theorem isSome_longest {α : Type} {attempt : ℕ → Option α} {len : ℕ} :
    (longest attempt len).isSome = true ↔ ∃ tried ≤ len, (attempt tried).isSome = true := by
  induction len with
  | zero => simp [longest]
  | succ len ih =>
    rw [longest, Option.isSome_or, Bool.or_eq_true, ih]
    constructor
    · rintro (hlongest | ⟨tried, htried, hattempt⟩)
      · exact ⟨len + 1, le_rfl, hlongest⟩
      · exact ⟨tried, Nat.le_succ_of_le htried, hattempt⟩
    · rintro ⟨tried, htried, hattempt⟩
      rcases Nat.lt_or_eq_of_le htried with hlt | rfl
      · exact .inr ⟨tried, Nat.le_of_lt_succ hlt, hattempt⟩
      · exact .inl hattempt

/-! ## The language of a search -/

/-- A search succeeds with exactly the parts of a name that are words of a language, whatever was
captured before. -/
def Decides (name : Name) (find : ℕ → ℕ → Captures → Option Captures)
    (language : Language Component) : Prop :=
  ∀ offset len, offset + len ≤ name.length → ∀ captures,
    (find offset len captures).isSome = true ↔ slice name offset len ∈ language

variable {library}

section Rules

variable {name : Name} {find later : ℕ → ℕ → Captures → Option Captures}
  {first second : Language Component}

section

variable (hfind : Decides name find first)
include hfind

/-- The loop over the lengths, for a search and what follows it. -/
theorem Decides.longest (hlater : Decides name later second) :
    Decides name (fun offset len captures ↦ Pattern.longest (fun tried ↦
      (find offset tried captures).bind (later (offset + tried) (len - tried))) len)
      (first * second) := by
  intro offset len hbound captures
  rw [isSome_longest, slice_mem_mul_iff hbound]
  apply exists_congr
  intro tried
  apply and_congr_right
  intro htried
  have hfirst := hfind offset tried (by omega) captures
  have hsecond := hlater (offset + tried) (len - tried) (by omega)
  rw [← hfirst]
  cases find offset tried captures with
  | none => simp
  | some found => simpa using hsecond found

theorem Decides.searchGroup {backrefNo : ℕ} :
    Decides name (searchGroup name backrefNo find) first := by
  intro offset len hbound captures
  rw [Pattern.searchGroup, Option.isSome_map]
  exact hfind offset len hbound _

/-- Iterations: as many as are needed, and no more than are left. -/
theorem Decides.iterate {least remaining count : ℕ} (hnonempty : [] ∉ first) :
    Decides name (Pattern.iterate find least remaining count)
      (within first (least - count) remaining) := by
  induction remaining generalizing count with
  | zero =>
    intro offset len hbound captures
    cases len with
    | zero =>
      rw [slice_zero, nil_mem_within_iff hnonempty, Nat.sub_eq_zero_iff_le]
      simp [Pattern.iterate]
    | succ len =>
      have hword : slice name offset (len + 1) ≠ [] := by simp [slice_eq_nil_iff hbound]
      simpa [Pattern.iterate] using notMem_within_zero hword
  | succ remaining ih =>
    intro offset len hbound captures
    cases len with
    | zero =>
      rw [slice_zero, nil_mem_within_iff hnonempty, Nat.sub_eq_zero_iff_le]
      simp [Pattern.iterate]
    | succ len =>
      have hword : slice name offset (len + 1) ≠ [] := by simp [slice_eq_nil_iff hbound]
      rw [mem_within_succ_iff hword, Nat.sub_sub, Pattern.iterate]
      exact hfind.longest ih offset (len + 1) hbound captures

theorem Decides.searchRepeated {backrefNo backrefs : ℕ} {bounds : ℕ × ℕ} (hnonempty : [] ∉ first) :
    Decides name (searchRepeated find backrefNo backrefs bounds)
      (within first bounds.1 bounds.2) := by
  intro offset len hbound captures
  rw [Pattern.searchRepeated]
  split_ifs with hpassed
  · obtain ⟨hleast, rfl⟩ := hpassed
    rw [slice_zero, nil_mem_within_iff hnonempty]
    simpa using hleast
  · exact hfind.iterate hnonempty offset len hbound captures

end

end Rules

/-! ## Component sets -/

variable {target : Component} {exprs : List (List Char)}

theorem accepts_iff {member : RegexComponentMatcher} :
    accepts library target member = true ↔ Accepts library member.expr target := by
  simp [accepts, Accepts]

theorem map_expr_members (first : ℕ) (exprs : List (List Char)) :
    (members library first exprs).map RegexComponentMatcher.expr = exprs := by
  induction exprs generalizing first with
  | nil => rfl
  | cons expr exprs ih => rw [members, List.map_cons, ih]

theorem any_members_iff {first : ℕ} :
    (members library first exprs).any (accepts library target) = true ↔
      ∃ expr ∈ exprs, Accepts library expr target := by
  have hexpr : ∀ expr, expr ∈ exprs ↔ ∃ member ∈ members library first exprs,
      member.expr = expr := by
    intro expr
    rw [← List.mem_map, map_expr_members]
  rw [List.any_eq_true]
  constructor
  · rintro ⟨member, hmember, haccepts⟩
    exact ⟨member.expr, (hexpr member.expr).mpr ⟨member, hmember, rfl⟩, accepts_iff.mp haccepts⟩
  · rintro ⟨expr, hmem, haccepts⟩
    obtain ⟨member, hmember, rfl⟩ := (hexpr expr).mp hmem
    exact ⟨member, hmember, accepts_iff.mpr haccepts⟩

/-- The components that a set accepts, by its mark of negation. -/
theorem any_members_eq_iff (first : ℕ) :
    (members library first exprs).any (accepts library target) = isInclusion ↔
      InSet library isInclusion exprs target := by
  cases isInclusion with
  | true => simpa [InSet] using any_members_iff
  | false =>
    rw [Bool.eq_false_iff, Ne, any_members_iff]
    simp [InSet]

theorem slice_one {name : Name} {offset : ℕ} (hbound : offset + 1 ≤ name.length) :
    slice name offset 1 = [name.getD offset Component.empty] := by
  simp only [slice]
  rw [List.drop_eq_getElem_cons hbound, List.getD, List.getElem?_eq_getElem hbound]
  rfl

theorem mem_single_iff : [target] ∈ single accepted ↔ accepted target := by
  constructor
  · rintro ⟨found, hword, haccepted⟩
    obtain rfl : target = found := List.singleton_inj.mp hword
    exact haccepted
  · intro haccepted
    exact ⟨target, rfl, haccepted⟩

theorem length_of_mem_single (hmem : word ∈ single accepted) : word.length = 1 := by
  obtain ⟨target, rfl, -⟩ := hmem
  rfl

theorem nil_notMem_single : [] ∉ single accepted :=
  fun hmem ↦ absurd (length_of_mem_single hmem) (by simp)

theorem decides_searchSet {name : Name} {first : ℕ} :
    Decides name (searchSet library name isInclusion exprs first)
      (single (InSet library isInclusion exprs)) := by
  intro offset len hbound captures
  by_cases hlen : len = 1
  · subst hlen
    rw [slice_one hbound, mem_single_iff, ← any_members_eq_iff first, searchSet]
    simp
  · have hword : slice name offset len ∉ single (InSet library isInclusion exprs) := by
      intro hmem
      exact hlen ((length_slice hbound).symm.trans (length_of_mem_single hmem))
    simpa [searchSet, hlen] using hword

/-! ## The language of a pattern -/

theorem atoi_eq {digits : List Char} (hdigits : decimal digits < 2 ^ 31) :
    atoi digits = decimal digits := by
  have hword : min (decimal digits) (2 ^ 63 - 1) % 2 ^ 32 = decimal digits := by omega
  rw [atoi, hword, if_pos hdigits]

section

variable (hcounts : ∀ count ∈ repetition.counts, decimal count < 2 ^ 31)
include hcounts

theorem Repetition.bounds_fst : repetition.bounds.1 = repetition.least := by
  cases repetition with
  | exactly count => exact atoi_eq (hcounts count List.mem_cons_self)
  | atLeast low => exact atoi_eq (hcounts low List.mem_cons_self)
  | between low high => exact atoi_eq (hcounts low List.mem_cons_self)
  | once | zeroOrOne | oneOrMore | zeroOrMore | atMost => rfl

/-- Up to `MAX_REPETITIONS`, the upper bound of the code is that of the pattern. -/
theorem Repetition.le_bounds_snd_iff (hiterations : iterations ≤ maxRepetitions) :
    iterations ≤ repetition.bounds.2 ↔
      ∀ greatest ∈ repetition.greatest, iterations ≤ greatest := by
  cases repetition with
  | exactly count =>
    rw [bounds, greatest, atoi_eq (hcounts count List.mem_cons_self)]
    simp
  | atMost high =>
    rw [bounds, greatest, atoi_eq (hcounts high List.mem_cons_self)]
    simp
  | between low high =>
    rw [bounds, greatest, atoi_eq (hcounts high (by simp [counts]))]
    simp
  | once | zeroOrOne => simp [bounds, greatest]
  | oneOrMore | zeroOrMore | atLeast => simpa [bounds, greatest] using hiterations

theorem Repetition.mem_language_iff (hnonempty : [] ∉ operand)
    (hlength : word.length ≤ maxRepetitions) :
    word ∈ repetition.language operand ↔
      word ∈ within operand repetition.bounds.1 repetition.bounds.2 := by
  rw [bounds_fst hcounts, mem_within_iff]
  apply exists_congr
  intro iterations
  apply and_congr_right
  intro _
  constructor
  · rintro ⟨hgreatest, hmem⟩
    have hcount := le_length_of_mem_pow hnonempty hmem
    exact ⟨(le_bounds_snd_iff hcounts (hcount.trans hlength)).mpr hgreatest, hmem⟩
  · rintro ⟨hbound, hmem⟩
    have hcount := le_length_of_mem_pow hnonempty hmem
    exact ⟨(le_bounds_snd_iff hcounts (hcount.trans hlength)).mp hbound, hmem⟩

end

/-- A repeated operand, within the range of `size_t`. -/
theorem Decides.repeated {name : Name} {find : ℕ → ℕ → Captures → Option Captures}
    {first backrefs : ℕ} (hfind : Decides name find operand) (hnonempty : [] ∉ operand)
    (hcounts : ∀ count ∈ repetition.counts, decimal count < 2 ^ 31)
    (hlength : name.length ≤ maxRepetitions) :
    Decides name (Pattern.searchRepeated find first backrefs repetition.bounds)
      (repetition.language operand) := by
  intro offset len hbound captures
  have hword : (slice name offset len).length ≤ maxRepetitions := by
    rw [length_slice hbound]
    omega
  rw [Repetition.mem_language_iff hcounts hnonempty hword]
  exact hfind.searchRepeated hnonempty offset len hbound captures

theorem language_once : Repetition.once.language operand = operand := by
  ext word
  constructor
  · rintro ⟨iterations, hleast, hgreatest, hmem⟩
    obtain rfl : iterations = 1 :=
      le_antisymm (hgreatest 1 rfl) hleast
    rwa [pow_one] at hmem
  · intro hmem
    exact ⟨1, le_rfl, by simp [Repetition.greatest], by rwa [pow_one]⟩

theorem inSet_singleton {expr : List Char} : InSet library true [expr] = Accepts library expr := by
  funext target
  simp [InSet]

theorem Decides.cons {name : Name} {pattern : Pattern} {later : List Pattern} {first : ℕ}
    (hitem : Decides name (search library name pattern first) (language library pattern))
    (hlater : Decides name
      (searchList library name later (first + backrefCount library pattern))
      (listLanguage library later)) :
    Decides name (searchList library name (pattern :: later) first)
      (listLanguage library (pattern :: later)) := by
  intro offset len hbound captures
  rw [searchList, listLanguage]
  exact hitem.longest hlater offset len hbound captures

/-- The search decides the language of a pattern if no repeated operand matches the empty
sequence and the counts are in the range of `int`. -/
theorem decides_searchList {name : Name} {patterns : List Pattern} {first : ℕ}
    (hlength : name.length ≤ maxRepetitions) (hnonempty : RepeatsNonempty library patterns)
    (hcounts : CountsBelow (2 ^ 31) patterns) :
    Decides name (searchList library name patterns first) (listLanguage library patterns) := by
  induction hnonempty generalizing first with
  | nil =>
    intro offset len hbound captures
    rw [listLanguage, Language.mem_one, slice_eq_nil_iff hbound]
    simp [searchList]
  | @group patterns later repetition _ hoperand _ ihinner ihlater =>
    cases hcounts with
    | group hinner hrepetition hlater =>
      have hgroup : Decides name
          (searchGroup name first (searchList library name patterns (first + 1)))
          (listLanguage library patterns) := (ihinner hinner).searchGroup
      have hitem : Decides name (search library name (.group patterns repetition) first)
          (language library (.group patterns repetition)) := by
        intro offset len hbound captures
        rw [search, language]
        split_ifs with honce
        · rw [honce, language_once]
          exact hgroup offset len hbound captures
        · exact hgroup.repeated (hoperand honce) hrepetition hlength offset len hbound captures
      exact hitem.cons (ihlater hlater)
  | component _ ih =>
    cases hcounts with
    | component hrepetition hlater =>
      apply Decides.cons _ (ih hlater)
      intro offset len hbound captures
      rw [search, language, ← inSet_singleton]
      exact decides_searchSet.repeated nil_notMem_single hrepetition hlength offset len hbound
        captures
  | set _ ih =>
    cases hcounts with
    | set hrepetition hlater =>
      apply Decides.cons _ (ih hlater)
      intro offset len hbound captures
      rw [search, language]
      exact decides_searchSet.repeated nil_notMem_single hrepetition hlength offset len hbound
        captures

end Pattern

end NdnCxx
