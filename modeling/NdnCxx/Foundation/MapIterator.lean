import NdnCxx.Foundation.OrderedMap

/-!
# Iterators that become invalid

An iterator into an ordered map is the key of the entry that it points to. Reading through it,
moving it on and erasing at it need the entry to be there: each of them has no result for an
iterator whose entry was erased. A loop that erases some entries while it walks over all of them
must move the iterator on before it erases.
-/

namespace NdnCxx.OrderedMap

variable {Key Value : Type*} {lt : Key → Key → Prop}

/-- The keys in front of an entry are less than its key, those behind it are greater. -/
theorem lt_of_split {container : OrderedMap Key Value lt} {kept rest : List (Key × Value)}
    {key : Key} {value : Value} (hsplit : container.entries = kept ++ (key, value) :: rest) :
    (∀ entry ∈ kept, lt entry.1 key) ∧ ∀ entry ∈ rest, lt key entry.1 := by
  have hsorted := container.sorted
  rw [hsplit, List.pairwise_append, List.pairwise_cons] at hsorted
  obtain ⟨-, ⟨hbehind, -⟩, hfront⟩ := hsorted
  exact ⟨fun entry hentry ↦ hfront entry hentry (key, value) (by simp), hbehind⟩

variable [DecidableEq Key]

theorem find_of_split [Std.Irrefl lt] {container : OrderedMap Key Value lt}
    {kept rest : List (Key × Value)} {key : Key} {value : Value}
    (hsplit : container.entries = kept ++ (key, value) :: rest) :
    container.find key = some value := by
  rw [find_eq_some_iff, mem_def, hsplit]
  simp

/-- `begin()`; `none` is `end()`. -/
def begin (container : OrderedMap Key Value lt) : Option Key :=
  container.entries.head?.map Prod.fst

def eraseAt (container : OrderedMap Key Value lt) (iterator : Key) :
    Option (OrderedMap Key Value lt) :=
  if (container.find iterator).isSome then some (container.eraseKey iterator) else none

theorem eraseAt_of_split [Std.Irrefl lt] {container : OrderedMap Key Value lt}
    {kept rest : List (Key × Value)} {key : Key} {value : Value}
    (hsplit : container.entries = kept ++ (key, value) :: rest) :
    container.eraseAt key = some (container.eraseKey key) ∧
      (container.eraseKey key).entries = kept ++ rest := by
  obtain ⟨hfront, hbehind⟩ := lt_of_split hsplit
  have hkept : kept.filter (fun entry ↦ decide (entry.1 ≠ key)) = kept := by
    rw [List.filter_eq_self]
    intro entry hentry
    simpa using ne_of_irrefl (hfront entry hentry)
  have hrest : rest.filter (fun entry ↦ decide (entry.1 ≠ key)) = rest := by
    rw [List.filter_eq_self]
    intro entry hentry
    simpa using (ne_of_irrefl (hbehind entry hentry)).symm
  refine ⟨by rw [eraseAt, find_of_split hsplit]; rfl, ?_⟩
  change (container.entries.filter fun entry ↦ decide (entry.1 ≠ key)) = kept ++ rest
  rw [hsplit, List.filter_append, List.filter_cons_of_neg (by simp), hkept, hrest]

variable [DecidableRel lt]

/-- `++iterator`; the inner `none` is `end()`. -/
def increment (container : OrderedMap Key Value lt) (iterator : Key) : Option (Option Key) :=
  if (container.find iterator).isSome then some ((container.next iterator).map Prod.fst) else none

section Sweep

variable {Accumulator : Type*} (erases : Value → Bool)
  (visit : Accumulator → Key × Value → Accumulator)

/-- A loop from an iterator to the end that erases some entries and visits the others, in at most so
many rounds. -/
def sweep : ℕ → OrderedMap Key Value lt → Option Key → Accumulator →
    Option (OrderedMap Key Value lt × Accumulator)
  | _, container, none, accumulator => some (container, accumulator)
  | 0, _, some _, _ => none
  | rounds + 1, container, some iterator, accumulator =>
      (container.find iterator).bind fun value ↦
        (container.increment iterator).bind fun following ↦
          if erases value then
            (container.eraseAt iterator).bind fun erased ↦
              sweep rounds erased following accumulator
          else sweep rounds container following (visit accumulator (iterator, value))

end Sweep

section Split

variable [IsStrictTotalOrder Key lt] {container : OrderedMap Key Value lt}
  {kept rest : List (Key × Value)} {key : Key} {value : Value}

theorem increment_of_split (hsplit : container.entries = kept ++ (key, value) :: rest) :
    container.increment key = some (rest.head?.map Prod.fst) := by
  obtain ⟨hfront, hbehind⟩ := lt_of_split hsplit
  have hskip : kept.find? (fun entry ↦ decide (lt key entry.1)) = none := by
    rw [List.find?_eq_none]
    intro entry hentry
    simpa using asymm_of lt (hfront entry hentry)
  have hself : decide (lt key key) = false := by simpa using irrefl_of lt key
  have hnext : container.next key = rest.head? := by
    rw [next, hsplit, List.find?_append, hskip, List.find?_cons, hself]
    cases rest with
    | nil => rfl
    | cons first others =>
      have hfirst : decide (lt key first.1) = true := by simpa using hbehind first (by simp)
      rw [List.find?_cons, hfirst]
      rfl
  rw [increment, find_of_split hsplit, hnext]
  rfl

variable {Accumulator : Type*} {erases : Value → Bool}
  {visit : Accumulator → Key × Value → Accumulator}

/-- With a round for each entry the loop ends, and no iterator that it uses is invalid: the entries
that it does not erase are left, and those are visited in order. -/
theorem sweep_of_split {rounds : ℕ} {accumulator : Accumulator}
    (hsplit : container.entries = kept ++ rest) (hrounds : rest.length ≤ rounds) :
    ∃ swept, sweep erases visit rounds container (rest.head?.map Prod.fst) accumulator =
        some (swept, (rest.filter fun entry ↦ !erases entry.2).foldl visit accumulator) ∧
      swept.entries = kept ++ rest.filter fun entry ↦ !erases entry.2 := by
  induction rest generalizing container kept rounds accumulator with
  | nil =>
    refine ⟨container, ?_, by simpa using hsplit⟩
    cases rounds <;> rfl
  | cons first rest ih =>
    obtain ⟨key, value⟩ := first
    cases rounds with
    | zero => simp at hrounds
    | succ rounds =>
      have hshorter : rest.length ≤ rounds := by simpa using hrounds
      have hfind := find_of_split hsplit
      have hincrement := increment_of_split hsplit
      obtain ⟨herase, hentries⟩ := eraseAt_of_split hsplit
      have hunfold : sweep erases visit (rounds + 1) container (some key) accumulator =
          if erases value then
            sweep erases visit rounds (container.eraseKey key) (rest.head?.map Prod.fst) accumulator
          else
            sweep erases visit rounds container (rest.head?.map Prod.fst)
              (visit accumulator (key, value)) := by
        rw [sweep]
        simp only [hfind, hincrement, herase, Option.bind_some]
      rw [List.head?_cons, Option.map_some, hunfold]
      cases herases : erases value with
      | true =>
        obtain ⟨swept, hswept, hleft⟩ :=
          @ih (container.eraseKey key) kept rounds accumulator hentries hshorter
        refine ⟨swept, ?_, ?_⟩
        · rw [if_pos rfl, hswept, List.filter_cons_of_neg (by simpa using herases)]
        · rw [hleft, List.filter_cons_of_neg (by simpa using herases)]
      | false =>
        have hmoved : container.entries = (kept ++ [(key, value)]) ++ rest := by
          rw [hsplit, List.append_assoc]
          rfl
        obtain ⟨swept, hswept, hleft⟩ := @ih container (kept ++ [(key, value)]) rounds
          (visit accumulator (key, value)) hmoved hshorter
        have hstays : ((key, value) :: rest).filter (fun entry ↦ !erases entry.2) =
            (key, value) :: rest.filter fun entry ↦ !erases entry.2 :=
          List.filter_cons_of_pos (by simpa using herases)
        refine ⟨swept, ?_, ?_⟩
        · rw [if_neg (by simp), hswept, hstays, List.foldl_cons]
        · rw [hleft, hstays, List.append_assoc]
          rfl

end Split

/-! ## Sizes -/

omit [DecidableEq Key] in
theorem length_insertEntry_le (key : Key) (value : Value) (entries : List (Key × Value)) :
    (insertEntry lt key value entries).length ≤ entries.length + 1 := by
  induction entries with
  | nil => simp [insertEntry]
  | cons first rest ih =>
    unfold insertEntry
    split_ifs
    · simpa using ih
    · simp
    · simp

omit [DecidableRel lt] in
theorem length_setValue (container : OrderedMap Key Value lt) (key : Key) (value : Value) :
    (container.setValue key value).entries.length = container.entries.length :=
  List.length_map _

theorem length_assign_le [IsStrictTotalOrder Key lt] (container : OrderedMap Key Value lt)
    (key : Key) (value : Value) :
    (container.assign key value).entries.length ≤ container.entries.length + 1 :=
  calc
    (container.assign key value).entries.length
        = (container.insert key value).entries.length := length_setValue _ _ _
    _ ≤ container.entries.length + 1 := length_insertEntry_le _ _ _

end NdnCxx.OrderedMap
