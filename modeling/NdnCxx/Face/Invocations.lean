import Mathlib.Data.List.TakeWhile
import NdnCxx.Face.Face

/-!
# Invocations of the callbacks of expressed Interests

Every expressed Interest gets at most one call of its three callbacks, whatever the callbacks do
meanwhile, and none once it has left the pending Interest table. The invariant behind it keeps apart
the entries in the table, those whose creation has been posted, and those whose callback has been
invoked; only an Interest whose timeout callback is running is both in the table and invoked.
-/

namespace NdnCxx.Face

open Run

def tableIds (face : Face) : List ℕ := face.pendingInterestTable.map PendingInterest.id

def Posted.id? : Posted → Option ℕ
  | .asyncExpressInterest entry => some entry.id
  | _ => none

/-- The Interests whose insertion has been posted. -/
def postedIds (face : Face) : List ℕ := face.posted.filterMap Posted.id?

/-- The Interests of which a callback has been invoked. -/
def invokedIds (face : Face) : List ℕ := face.invocations.map Invocation.id

/-- Where an Interest can be, and what the running callback relies on. -/
structure Accounted (face : Face) : Prop where
  distinct : (face.tableIds ++ face.postedIds).Nodup
  invokedOnce : face.invokedIds.Nodup
  notPosted : ∀ id ∈ face.invokedIds, id ∉ face.postedIds
  inTable : ∀ id ∈ face.invokedIds, id ∈ face.tableIds → face.control = .timeout id
  fresh : ∀ id, id ∈ face.tableIds ∨ id ∈ face.postedIds ∨ id ∈ face.invokedIds → id < face.nextId
  timeouts : ∀ id ∈ face.timeoutEvents, id ∈ face.tableIds ∧ face.control ≠ .timeout id ∨
    ∃ entry processing, face.control = .packet id entry processing
  expired : ∀ id, face.control = .timeout id → id ∈ face.tableIds
  iterator : ∀ matchedEntry entry processing, face.control = .packet matchedEntry entry processing →
    ∀ next ∈ entry, next ∈ face.tableIds

variable {id : ℕ} {processing : Processing} {handler : Posted} {entry : Option ℕ}

section Operations

variable {face next : Face}

theorem map_eraseP (id : ℕ) (table : List PendingInterest) :
    (table.eraseP fun entry ↦ entry.id == id).map PendingInterest.id =
      (table.map PendingInterest.id).erase id := by
  induction table with
  | nil => rfl
  | cons head rest ih => by_cases h : head.id = id <;> simp [h, ih]

section

variable (hinv : Accounted face)
include hinv

theorem mem_erase_tableIds {other : ℕ} :
    other ∈ face.tableIds.erase id ↔ other ≠ id ∧ other ∈ face.tableIds :=
  (List.nodup_append.mp hinv.distinct).1.mem_erase_iff

/-- A new entry at the end of the table. -/
theorem Accounted.asyncExpressInterest {entry : PendingInterest} (htable : entry.id ∉ face.tableIds)
    (hposted : entry.id ∉ face.postedIds) (hinvoked : entry.id ∉ face.invokedIds)
    (hid : entry.id < face.nextId) : Accounted (face.asyncExpressInterest entry) := by
  have hids : (face.asyncExpressInterest entry).tableIds = face.tableIds ++ [entry.id] := by
    simp [tableIds, Face.asyncExpressInterest]
  obtain ⟨hdistinct, honce, hnotPosted, hinTable, hfresh, htimeouts, hexpired, hiterator⟩ := hinv
  refine ⟨?_, honce, hnotPosted, ?_, ?_, ?_, ?_, ?_⟩
  · rw [hids]
    change ((face.tableIds ++ [entry.id]) ++ face.postedIds).Nodup
    rw [List.append_assoc, List.singleton_append]
    exact List.nodup_middle.mpr (List.nodup_cons.mpr ⟨by simp [htable, hposted], hdistinct⟩)
  · intro id hid' hmem
    rw [hids, List.mem_append, List.mem_singleton] at hmem
    rcases hmem with hold | rfl
    · exact hinTable id hid' hold
    · exact absurd hid' hinvoked
  · intro id hmem
    rw [hids, List.mem_append, List.mem_singleton] at hmem
    rcases hmem with (hold | rfl) | hrest
    · exact hfresh id (.inl hold)
    · exact hid
    · exact hfresh id (.inr hrest)
  · intro id hmem
    rw [hids]
    rcases List.mem_append.mp hmem with hold | hnew
    · exact (htimeouts id hold).imp (fun h ↦ ⟨by simp [h.1], h.2⟩) fun h ↦ h
    · obtain rfl := List.mem_singleton.mp hnew
      exact .inl ⟨by simp, fun hcontrol ↦ htable (hexpired _ hcontrol)⟩
  · intro id hcontrol
    rw [hids]
    exact List.mem_append_left _ (hexpired id hcontrol)
  · intro matchedEntry iterator processing hcontrol position hposition
    rw [hids]
    exact List.mem_append_left _
      (hiterator matchedEntry iterator processing hcontrol position hposition)

theorem Accounted.expressInterest {interest : Interest} {wire : Bytes} {callbacks : Callbacks}
    {isSameThread : Bool} :
    Accounted (face.expressInterest interest wire callbacks isSameThread) := by
  have hnew (id : ℕ) (h : id ∈ face.tableIds ∨ id ∈ face.postedIds ∨ id ∈ face.invokedIds) :
      id ≠ face.nextId := (hinv.fresh id h).ne
  have hcreated : Accounted { face with nextId := face.nextId + 1 } :=
    ⟨hinv.distinct, hinv.invokedOnce, hinv.notPosted, hinv.inTable,
      fun id h ↦ Nat.lt_succ_of_lt (hinv.fresh id h), hinv.timeouts, hinv.expired, hinv.iterator⟩
  unfold Face.expressInterest
  split_ifs with hsize hsame
  · exact hinv
  · exact hcreated.asyncExpressInterest (fun h ↦ hnew _ (.inl h) rfl)
      (fun h ↦ hnew _ (.inr (.inl h)) rfl) (fun h ↦ hnew _ (.inr (.inr h)) rfl) (Nat.lt_succ_self _)
  · obtain ⟨hdistinct, honce, hnotPosted, hinTable, hfresh, htimeouts, hexpired, hiterator⟩ :=
      hcreated
    have hids (created : Face) (entry : PendingInterest) :
        postedIds { created with posted := created.posted ++ [.asyncExpressInterest entry] } =
          created.postedIds ++ [entry.id] := by
      simp [postedIds, Posted.id?]
    refine ⟨?_, honce, ?_, hinTable, ?_, htimeouts, hexpired, hiterator⟩
    · rw [hids, ← List.append_assoc]
      refine List.nodup_append.mpr ⟨hdistinct, by simp, ?_⟩
      rintro id hmem _ hlast rfl
      obtain rfl := List.mem_singleton.mp hlast
      rcases List.mem_append.mp hmem with h | h
      · exact hnew _ (.inl h) rfl
      · exact hnew _ (.inr (.inl h)) rfl
    · intro id hmem hlast
      rw [hids, List.mem_append, List.mem_singleton] at hlast
      rcases hlast with hold | rfl
      · exact hnotPosted id hmem hold
      · exact hnew _ (.inr (.inr hmem)) rfl
    · intro id hmem
      rw [hids, List.mem_append, List.mem_singleton] at hmem
      rcases hmem with h | (h | rfl) | h
      · exact hfresh id (.inl h)
      · exact hfresh id (.inr (.inl h))
      · exact Nat.lt_succ_self _
      · exact hfresh id (.inr (.inr h))

/-- Posting a handler that inserts nothing. -/
theorem Accounted.post (hnone : handler.id? = none) : Accounted (face.post handler) := by
  have hids : (face.post handler).postedIds = face.postedIds := by
    simp [postedIds, Face.post, hnone]
  exact ⟨hids ▸ hinv.distinct, hinv.invokedOnce, hids ▸ hinv.notPosted, hinv.inTable,
    hids ▸ hinv.fresh, hinv.timeouts, hinv.expired, hinv.iterator⟩

/-- Removing entries while no callback is running. -/
theorem Accounted.removeIf {predicate : PendingInterest → Bool} (hidle : face.control = .idle) :
    Accounted (face.removeIf predicate) := by
  obtain ⟨hdistinct, honce, hnotPosted, hinTable, hfresh, htimeouts, hexpired, hiterator⟩ := hinv
  have hsublist : (face.removeIf predicate).tableIds.Sublist face.tableIds :=
    List.filter_sublist.map PendingInterest.id
  refine ⟨hdistinct.sublist (hsublist.append_right _), honce, hnotPosted,
    fun id hid hmem ↦ hinTable id hid (hsublist.subset hmem),
    fun id h ↦ hfresh id (h.imp_left fun hmem ↦ hsublist.subset hmem), ?_, ?_, ?_⟩
  · intro id hmem
    obtain ⟨hold, hkept⟩ := List.mem_filter.mp hmem
    obtain ⟨htable, hcontrol⟩ : id ∈ face.tableIds ∧ face.control ≠ .timeout id := by
      rcases htimeouts id hold with h | ⟨entry, processing, h⟩
      · exact h
      · simp [hidle] at h
    obtain ⟨entry, hentry, rfl⟩ := List.mem_map.mp htable
    have hstays : predicate entry = false := by
      by_contra hgoes
      have hdestroyed : entry.id ∈ (face.pendingInterestTable.filter predicate).map
          PendingInterest.id :=
        List.mem_map_of_mem (List.mem_filter.mpr ⟨hentry, by simpa using hgoes⟩)
      simp [hdestroyed] at hkept
    exact .inl ⟨List.mem_map_of_mem (List.mem_filter.mpr ⟨hentry, by simp [hstays]⟩), hcontrol⟩
  · intro id hcontrol
    simp [Face.removeIf, cancelTimeouts, hidle] at hcontrol
  · intro matchedEntry entry processing hcontrol
    simp [Face.removeIf, cancelTimeouts, hidle] at hcontrol

/-- An entry leaves the table, and no callback is running any more. -/
theorem Accounted.erase (hcontrol : face.control = .idle ∨ face.control = .timeout id) :
    Accounted { face.cancelTimeouts [id] with
      pendingInterestTable := face.pendingInterestTable.eraseP fun entry ↦ entry.id == id
      control := .idle } := by
  have hids : tableIds { face.cancelTimeouts [id] with
      pendingInterestTable := face.pendingInterestTable.eraseP fun entry ↦ entry.id == id
      control := .idle } = face.tableIds.erase id := map_eraseP id _
  have hsublist := face.tableIds.erase_sublist (a := id)
  refine ⟨?_, hinv.invokedOnce, hinv.notPosted, ?_, ?_, ?_, by simp, by simp⟩
  · rw [hids]
    exact hinv.distinct.sublist (hsublist.append_right _)
  · intro other hinvoked hmem
    rw [hids, mem_erase_tableIds hinv] at hmem
    -- an invoked entry of the table would be the one that expired, which is the one that goes
    have htimeout := hinv.inTable other hinvoked hmem.2
    rcases hcontrol with hidle | hexpired
    · simp [hidle] at htimeout
    · rw [hexpired, Control.timeout.injEq] at htimeout
      exact absurd htimeout.symm hmem.1
  · intro other hmem
    rw [hids] at hmem
    exact hinv.fresh other (hmem.imp_left fun h ↦ hsublist.subset h)
  · intro other hmem
    obtain ⟨hold, hkept⟩ := List.mem_filter.mp hmem
    have hne : other ≠ id := by simpa using hkept
    refine .inl ⟨?_, by simp⟩
    rw [hids, mem_erase_tableIds hinv]
    rcases hinv.timeouts other hold with h | ⟨entry, processing, h⟩
    · exact ⟨hne, h.1⟩
    · rcases hcontrol with hidle | hexpired
      · simp [hidle] at h
      · simp [hexpired] at h

/-- While no callback is running, nothing in the table has been invoked. -/
theorem Accounted.notMem_invokedIds (hidle : face.control = .idle) (hid : id ∈ face.tableIds) :
    id ∉ face.invokedIds := by
  intro hinvoked
  have htimeout := hinv.inTable id hinvoked hid
  simp [hidle] at htimeout

/-- One more invocation, for an entry of the table that had none. -/
theorem Accounted.invokedIds_append (hidle : face.control = .idle) (hid : id ∈ face.tableIds) :
    (face.invokedIds ++ [id]).Nodup ∧
      ∀ other ∈ face.invokedIds ++ [id], other ∉ face.postedIds ∧ other < face.nextId := by
  constructor
  · refine List.nodup_append.mpr ⟨hinv.invokedOnce, by simp, ?_⟩
    rintro other hmem _ hlast rfl
    exact hinv.notMem_invokedIds hidle hid (List.mem_singleton.mp hlast ▸ hmem)
  · intro other hmem
    rcases List.mem_append.mp hmem with hold | hlast
    · exact ⟨hinv.notPosted other hold, hinv.fresh other (.inr (.inr hold))⟩
    · obtain rfl := List.mem_singleton.mp hlast
      exact ⟨fun hposted ↦ (List.nodup_append.mp hinv.distinct).2.2 _ hid _ hposted rfl,
        hinv.fresh other (.inl hid)⟩

/-- The next entry that a packet answers is erased and its callback invoked. -/
theorem Accounted.invoke (callback : Callback) (processing : Processing)
    (hidle : face.control = .idle) (hid : id ∈ face.tableIds)
    (hentry : ∀ position ∈ entry, position ∈ face.tableIds ∧ position ≠ id) :
    Accounted { face with
      pendingInterestTable := face.pendingInterestTable.eraseP fun other ↦ other.id == id
      control := .packet id entry processing
      invocations := face.invocations ++ [⟨id, callback⟩] } := by
  have hids : tableIds { face with
      pendingInterestTable := face.pendingInterestTable.eraseP fun other ↦ other.id == id
      control := .packet id entry processing
      invocations := face.invocations ++ [⟨id, callback⟩] } = face.tableIds.erase id :=
    map_eraseP id _
  have hinvoked : invokedIds { face with
      pendingInterestTable := face.pendingInterestTable.eraseP fun other ↦ other.id == id
      control := .packet id entry processing
      invocations := face.invocations ++ [⟨id, callback⟩] } = face.invokedIds ++ [id] := by
    simp [invokedIds]
  have hsublist := face.tableIds.erase_sublist (a := id)
  obtain ⟨honce, hrecorded⟩ := hinv.invokedIds_append hidle hid
  rw [← hinvoked] at honce hrecorded
  refine ⟨?_, honce, fun other hmem ↦ (hrecorded other hmem).1, ?_, ?_, ?_, by simp, ?_⟩
  · rw [hids]
    exact hinv.distinct.sublist (hsublist.append_right _)
  · intro other hmem htable
    rw [hids, mem_erase_tableIds hinv] at htable
    rw [hinvoked, List.mem_append, List.mem_singleton] at hmem
    exact absurd (hmem.resolve_right htable.1) (hinv.notMem_invokedIds hidle htable.2)
  · intro other hmem
    rw [hids] at hmem
    rcases hmem with h | h | h
    · exact hinv.fresh other (.inl (hsublist.subset h))
    · exact hinv.fresh other (.inr (.inl h))
    · exact (hrecorded other h).2
  · intro other hmem
    rw [hids, mem_erase_tableIds hinv]
    by_cases hsame : other = id
    · exact .inr ⟨entry, processing, by rw [hsame]⟩
    · rcases hinv.timeouts other hmem with h | ⟨entry', processing', h⟩
      · exact .inl ⟨⟨hsame, h.1⟩, by simp⟩
      · simp [hidle] at h
  · intro matchedEntry entry' processing' hcontrol position hposition
    obtain ⟨rfl, rfl, rfl⟩ : id = matchedEntry ∧ entry = entry' ∧ processing = processing' := by
      simpa using hcontrol
    rw [hids, mem_erase_tableIds hinv]
    exact ⟨(hentry position hposition).2, (hentry position hposition).1⟩

end

end Operations

/-! ## The loop over the table -/

theorem dropWhile_eq_cons {Element : Type*} {condition : Element → Bool} {list : List Element}
    {head : Element} {tail : List Element} (hdrop : list.dropWhile condition = head :: tail) :
    ∃ skipped, list = skipped ++ head :: tail ∧ (∀ element ∈ skipped, condition element = true) ∧
      condition head = false := by
  induction list with
  | nil => simp at hdrop
  | cons first rest ih =>
    rw [List.dropWhile_cons] at hdrop
    split_ifs at hdrop with hfirst
    · obtain ⟨skipped, rfl, hskipped, hhead⟩ := ih hdrop
      exact ⟨first :: skipped, rfl, by simpa using ⟨hfirst, hskipped⟩, hhead⟩
    · obtain ⟨rfl, rfl⟩ := List.cons.inj hdrop
      exact ⟨[], rfl, by simp, by simpa using hfirst⟩

/-- The entries from an iterator on. -/
def remaining (face : Face) : Option ℕ → List PendingInterest
  | none => []
  | some id => face.pendingInterestTable.dropWhile fun other ↦ other.id != id

/-- What the loop does from an iterator that points into the table: it comes to its end, or it finds
the next entry that the packet answers, and calls its callback or is left by the exception. -/
theorem processFrom_cases (sha256 : Bytes → Bytes) (face : Face) (entry : Option ℕ)
    (processing : Processing) (hentry : ∀ id ∈ entry, id ∈ face.tableIds) :
    ((∀ other ∈ face.remaining entry, processing.packet.answers sha256 other = false) ∧
      face.processFrom sha256 entry processing =
        some { face with control := .idle, processed := face.processed ++ [processing] }) ∨
    ∃ before skipped matchedEntry later,
      face.pendingInterestTable = before ++ (skipped ++ matchedEntry :: later) ∧
      face.remaining entry = skipped ++ matchedEntry :: later ∧
      (∀ other ∈ skipped, processing.packet.answers sha256 other = false) ∧
      processing.packet.answers sha256 matchedEntry = true ∧
      (processing.packet.isHandledBy matchedEntry.callbacks = true ∧
        face.processFrom sha256 entry processing =
          some { face with
            pendingInterestTable :=
              face.pendingInterestTable.eraseP fun other ↦ other.id == matchedEntry.id
            control := .packet matchedEntry.id (later.head?.map PendingInterest.id)
              { processing with invoked := processing.invoked ++ [matchedEntry.id] }
            invocations :=
              face.invocations ++ [⟨matchedEntry.id, processing.packet.callback⟩] } ∨
      processing.packet.isHandledBy matchedEntry.callbacks = false ∧
        face.processFrom sha256 entry processing =
          some (face.leaveLoop matchedEntry processing)) := by
  cases entry with
  | none => exact .inl ⟨by simp [remaining], rfl⟩
  | some id =>
    cases hrest : face.pendingInterestTable.dropWhile fun other ↦ other.id != id with
    | nil =>
      obtain ⟨other, hother, hid⟩ := List.mem_map.mp (hentry id rfl)
      have hall := List.dropWhile_eq_nil_iff.mp hrest other hother
      simp [hid] at hall
    | cons head tail =>
      obtain ⟨before, htable, -, -⟩ := dropWhile_eq_cons hrest
      simp only [processFrom, remaining, hrest]
      cases hmatched : (head :: tail).dropWhile fun other ↦
          !processing.packet.answers sha256 other with
      | nil =>
        refine .inl ⟨fun other hother ↦ ?_, rfl⟩
        simpa using List.dropWhile_eq_nil_iff.mp hmatched other hother
      | cons matchedEntry later =>
        obtain ⟨skipped, hsplit, hskipped, hanswers⟩ := dropWhile_eq_cons hmatched
        refine .inr ⟨before, skipped, matchedEntry, later, by rw [htable, hsplit], hsplit,
          by simpa using hskipped, by simpa using hanswers, ?_⟩
        cases hhandled : processing.packet.isHandledBy matchedEntry.callbacks with
        | true => exact .inl ⟨rfl, if_pos hhandled⟩
        | false => exact .inr ⟨rfl, if_neg (by rw [hhandled]; decide)⟩

variable {later : List Posted} {event : Event}

section Steps

variable {sha256 : Bytes → Bytes} {face next : Face}

/-- The loop is left by an exception. -/
theorem Accounted.leaveLoop {matchedEntry : PendingInterest}
    (hinv : Accounted { face with control := .idle }) :
    Accounted (face.leaveLoop matchedEntry processing) := by
  have herased := @Accounted.erase matchedEntry.id _ hinv (.inl rfl)
  have hleft : Accounted { face.cancelTimeouts [matchedEntry.id] with
      pendingInterestTable :=
        face.pendingInterestTable.eraseP fun other ↦ other.id == matchedEntry.id
      control := .idle
      processed := face.processed ++ [processing] } :=
    ⟨herased.distinct, herased.invokedOnce, herased.notPosted, herased.inTable, herased.fresh,
      herased.timeouts, herased.expired, herased.iterator⟩
  unfold Face.leaveLoop leaveByException
  split_ifs
  · exact hleft.removeIf rfl
  · exact hleft

/-- The loop goes on or ends in an accounted state. -/
theorem Accounted.processFrom (hinv : Accounted { face with control := .idle })
    (hentry : ∀ id ∈ entry, id ∈ face.tableIds) :
    ∃ next, face.processFrom sha256 entry processing = some next ∧ Accounted next := by
  rcases processFrom_cases sha256 face entry processing hentry with
    ⟨-, hnext⟩ | ⟨before, skipped, matchedEntry, later, htable, -, -, -, ⟨-, hnext⟩ | ⟨-, hnext⟩⟩
  · exact ⟨_, hnext, hinv.distinct, hinv.invokedOnce, hinv.notPosted, hinv.inTable, hinv.fresh,
      hinv.timeouts, hinv.expired, hinv.iterator⟩
  · have hids : face.tableIds = (before ++ skipped).map PendingInterest.id ++ matchedEntry.id ::
        later.map PendingInterest.id := by
      simp [tableIds, htable]
    have hnodup : face.tableIds.Nodup := (List.nodup_append.mp hinv.distinct).1
    rw [hids] at hnodup
    have hmatched : matchedEntry.id ∈ face.tableIds := by simp [hids]
    have hposition : ∀ position ∈ later.head?.map PendingInterest.id,
        position ∈ face.tableIds ∧ position ≠ matchedEntry.id := by
      intro position hposition
      obtain ⟨following, hfollowing, rfl⟩ := Option.map_eq_some_iff.mp hposition
      have hlater : following.id ∈ later.map PendingInterest.id :=
        List.mem_map_of_mem (List.mem_of_mem_head? hfollowing)
      refine ⟨by simp only [hids, List.mem_append, List.mem_cons, hlater, or_true], fun heq ↦ ?_⟩
      exact (List.nodup_cons.mp (List.nodup_append.mp hnodup).2.1).1 (heq ▸ hlater)
    exact ⟨_, hnext, hinv.invoke processing.packet.callback
      { processing with invoked := processing.invoked ++ [matchedEntry.id] } rfl hmatched hposition⟩
  · exact ⟨_, hnext, hinv.leaveLoop⟩

theorem Accounted.deleter (hinv : Accounted face)
    (hcontrol : face.control = .idle ∨ face.control = .timeout id) (hid : id ∈ face.tableIds) :
    ∃ next, ({ face with control := .idle } : Face).deleter id = some next ∧ Accounted next := by
  have hany : (face.pendingInterestTable.any fun entry ↦ entry.id == id) = true := by
    simpa [tableIds] using hid
  refine ⟨_, if_pos hany, ?_⟩
  exact hinv.erase hcontrol

/-- A timeout event finds its entry. -/
theorem Accounted.invokeTimeoutCallback (hinv : Accounted face) (hidle : face.control = .idle)
    (hscheduled : id ∈ face.timeoutEvents) :
    ∃ next, face.invokeTimeoutCallback id = some next ∧ Accounted next := by
  have htable : id ∈ face.tableIds := by
    rcases hinv.timeouts id hscheduled with h | ⟨entry, processing, h⟩
    · exact h.1
    · simp [hidle] at h
  have hfired : Accounted (face.cancelTimeouts [id]) :=
    ⟨hinv.distinct, hinv.invokedOnce, hinv.notPosted, hinv.inTable, hinv.fresh,
      fun other h ↦ hinv.timeouts other (List.mem_filter.mp h).1, hinv.expired, hinv.iterator⟩
  unfold Face.invokeTimeoutCallback
  cases hfound : face.pendingInterestTable.find? fun entry ↦ entry.id == id with
  | none =>
    obtain ⟨entry, hentry, hid⟩ := List.mem_map.mp htable
    have hnone := List.find?_eq_none.mp hfound entry hentry
    simp [hid] at hnone
  | some entry =>
    simp only
    split_ifs
    · have hids : ∀ control, invokedIds { face.cancelTimeouts [id] with
          control := control
          invocations := (face.cancelTimeouts [id]).invocations ++ [⟨id, .timeout⟩] } =
            face.invokedIds ++ [id] := fun _ ↦ by simp [invokedIds, cancelTimeouts]
      obtain ⟨honce, hrecorded⟩ := hinv.invokedIds_append hidle htable
      rw [← hids (.timeout id)] at honce hrecorded
      refine ⟨_, rfl, hinv.distinct, honce, fun other hmem ↦ (hrecorded other hmem).1, ?_, ?_, ?_,
        ?_, by simp⟩
      · intro other hmem hother
        rw [hids, List.mem_append, List.mem_singleton] at hmem
        rcases hmem with hold | rfl
        · have htimeout := hinv.inTable other hold hother
          simp [hidle] at htimeout
        · rfl
      · intro other hmem
        rcases hmem with h | h | h
        · exact hinv.fresh other (.inl h)
        · exact hinv.fresh other (.inr (.inl h))
        · exact (hrecorded other h).2
      · intro other hmem
        obtain ⟨hold, hkept⟩ := List.mem_filter.mp hmem
        have hne : other ≠ id := by simpa using hkept
        refine .inl ⟨?_, by simpa using hne.symm⟩
        rcases hinv.timeouts other hold with h | ⟨entry, processing, h⟩
        · exact h.1
        · simp [hidle] at h
      · intro other hcontrol
        obtain rfl : id = other := by simpa using hcontrol
        exact htable
    · have hidle' : (face.cancelTimeouts [id]).control = .idle := hidle
      obtain ⟨next, hnext, hnext'⟩ := hfired.deleter (.inl hidle') htable
      refine ⟨next, ?_, hnext'⟩
      rw [← hnext, ← hidle']

/-- After a callback of the loop, before the loop goes on. -/
theorem Accounted.cancelTimeouts {matchedEntry : ℕ} (hinv : Accounted face)
    (hcontrol : face.control = .packet matchedEntry entry processing) :
    Accounted { face.cancelTimeouts [matchedEntry] with control := .idle } := by
  refine ⟨hinv.distinct, hinv.invokedOnce, hinv.notPosted, fun id hinvoked htable ↦ ?_, hinv.fresh,
    fun id hmem ↦ ?_, by simp, by simp⟩
  · have htimeout := hinv.inTable id hinvoked htable
    simp [hcontrol] at htimeout
  · obtain ⟨hold, hkept⟩ := List.mem_filter.mp hmem
    rcases hinv.timeouts id hold with h | ⟨entry', processing', h⟩
    · exact .inl ⟨h.1, by simp⟩
    · rw [hcontrol, Control.packet.injEq] at h
      simp [h.1] at hkept

theorem Accounted.control_idle (hinv : Accounted face) (hidle : face.control = .idle) :
    Accounted { face with control := .idle } := by
  rw [← hidle]
  exact hinv

theorem head_mem_tableIds (face : Face) :
    ∀ id ∈ face.pendingInterestTable.head?.map PendingInterest.id, id ∈ face.tableIds := by
  intro id hid
  obtain ⟨entry, hentry, rfl⟩ := Option.map_eq_some_iff.mp hid
  exact List.mem_map_of_mem (List.mem_of_mem_head? hentry)

theorem Accounted.processPacket {packet : Packet} (hinv : Accounted face)
    (hidle : face.control = .idle) :
    ∃ next, face.processPacket sha256 packet = some next ∧ Accounted next :=
  (hinv.control_idle hidle).processFrom (head_mem_tableIds face)

/-- The running callback can return: what its handler does next uses valid iterators only. -/
theorem Accounted.callbackReturn (hinv : Accounted face) (hrunning : face.control ≠ .idle) :
    ∃ next, face.step sha256 .callbackReturn = some next ∧ Accounted next := by
  cases hcontrol : face.control with
  | idle => exact absurd hcontrol hrunning
  | packet matchedEntry entry processing =>
    simp only [step, hcontrol]
    exact (hinv.cancelTimeouts hcontrol).processFrom (hinv.iterator _ _ _ hcontrol)
  | timeout expired =>
    simp only [step, hcontrol]
    exact hinv.deleter (.inr hcontrol) (hinv.expired expired hcontrol)

theorem Accounted.runPosted (hinv : Accounted face) (hidle : face.control = .idle)
    (hposted : face.posted = handler :: later) :
    Accounted (({ face with posted := later } : Face).runPosted handler) := by
  have hids : face.postedIds = handler.id?.toList ++ postedIds { face with posted := later } := by
    cases hid : handler.id? <;> simp [postedIds, hposted, hid]
  have hsublist : (postedIds { face with posted := later }).Sublist face.postedIds := by
    rw [hids]
    exact List.sublist_append_right _ _
  have hrest : Accounted { face with posted := later } :=
    ⟨hinv.distinct.sublist (hsublist.append_left _), hinv.invokedOnce,
      fun id hinvoked hmem ↦ hinv.notPosted id hinvoked (hsublist.subset hmem), hinv.inTable,
      fun id h ↦ hinv.fresh id (h.imp_right (Or.imp_left fun hmem ↦ hsublist.subset hmem)),
      hinv.timeouts, hinv.expired, hinv.iterator⟩
  cases handler with
  | asyncExpressInterest entry =>
    have hfirst : face.postedIds = entry.id :: postedIds { face with posted := later } := hids
    have hmem : entry.id ∈ face.postedIds := by simp [hfirst]
    have hdistinct := List.nodup_append.mp hinv.distinct
    refine hrest.asyncExpressInterest ?_ ?_ ?_ (hinv.fresh _ (.inr (.inl hmem)))
    · exact fun htable ↦ hdistinct.2.2 _ htable _ hmem rfl
    · rw [hfirst] at hdistinct
      exact (List.nodup_cons.mp hdistinct.2.1).1
    · exact fun hinvoked ↦ hinv.notPosted _ hinvoked hmem
  | asyncRemovePendingInterest id => exact hrest.removeIf hidle
  | asyncRemoveAllPendingInterests => exact hrest.removeIf hidle
  | asyncShutdown => exact hrest.removeIf hidle

theorem accounted_step (hinv : Accounted face) (hstep : face.step sha256 event = some next) :
    Accounted next := by
  have hunique {result : Option Face} (hexists : ∃ next, result = some next ∧ Accounted next)
      (hresult : result = some next) : Accounted next := by
    obtain ⟨next', hnext', haccounted⟩ := hexists
    obtain rfl : next' = next := Option.some.inj (hnext'.symm.trans hresult)
    exact haccounted
  cases event with
  | expressInterest interest wire callbacks isSameThread =>
    obtain rfl := Option.some.inj hstep
    exact hinv.expressInterest
  | removePendingInterest id =>
    obtain rfl := Option.some.inj hstep
    exact hinv.post rfl
  | removeAllPendingInterests =>
    obtain rfl := Option.some.inj hstep
    exact hinv.post rfl
  | shutdown =>
    obtain rfl := Option.some.inj hstep
    exact hinv.post rfl
  | runIoService isInProcessEvents =>
    simp only [step] at hstep
    split at hstep
    · obtain rfl := Option.some.inj hstep
      exact ⟨hinv.distinct, hinv.invokedOnce, hinv.notPosted, hinv.inTable, hinv.fresh,
        hinv.timeouts, hinv.expired, hinv.iterator⟩
    · cases hstep
  | runPosted =>
    simp only [step] at hstep
    split at hstep
    · next handler later hidle hposted =>
      obtain rfl := Option.some.inj hstep
      exact hinv.runPosted hidle hposted
    · cases hstep
  | receive packet =>
    simp only [step] at hstep
    split at hstep
    · next hidle => exact hunique (hinv.processPacket hidle) hstep
    · cases hstep
  | timeout id =>
    simp only [step] at hstep
    split at hstep
    · next hidle =>
      split_ifs at hstep with hscheduled
      exact hunique (hinv.invokeTimeoutCallback hidle hscheduled) hstep
    · cases hstep
  | callbackReturn =>
    have hrunning : face.control ≠ .idle := by
      intro hidle
      simp [step, hidle] at hstep
    exact hunique (hinv.callbackReturn hrunning) hstep

end Steps

/-! ## Interests that have left the table -/

/-- Only a new Interest can come to be in the table or to be posted, and callbacks are invoked only
for Interests in the table. -/
structure Evolves (face next : Face) : Prop where
  nextId : face.nextId ≤ next.nextId
  present : ∀ id < face.nextId, id ∈ next.tableIds ∨ id ∈ next.postedIds →
    id ∈ face.tableIds ∨ id ∈ face.postedIds
  invocations : ∃ added, next.invocations = face.invocations ++ added ∧
    ∀ invocation ∈ added, invocation.id ∈ face.tableIds

section Evolution

variable {sha256 : Bytes → Bytes} {face next : Face}

/-- A step that invokes nothing and brings no Interest into the table or among the posted ones. -/
theorem Evolves.of_subset (hnextId : next.nextId = face.nextId)
    (htable : ∀ id ∈ next.tableIds, id ∈ face.tableIds) (hposted : next.posted = face.posted)
    (hinvocations : next.invocations = face.invocations) : Evolves face next :=
  ⟨hnextId.ge, fun id _ h ↦ h.imp (htable id) fun hmem ↦ by
    rwa [postedIds, hposted] at hmem, [], by simp [hinvocations], by simp⟩

theorem evolves_expressInterest (interest : Interest) (wire : Bytes)
    (callbacks : Callbacks)
    (isSameThread : Bool) :
    Evolves face (face.expressInterest interest wire callbacks isSameThread) := by
  unfold expressInterest
  split_ifs with hsize hsame
  · exact .of_subset rfl (fun _ h ↦ h) rfl rfl
  · refine ⟨Nat.le_succ _, fun id hold h ↦ h.imp_left fun hmem ↦ ?_, [],
      by simp [asyncExpressInterest], by simp⟩
    simp only [tableIds, asyncExpressInterest, List.map_append, List.map_cons, List.map_nil,
      List.mem_append, List.mem_singleton] at hmem
    exact hmem.resolve_right hold.ne
  · refine ⟨Nat.le_succ _, fun id hold h ↦ h.imp_right fun hmem ↦ ?_, [], by simp, by simp⟩
    simp only [postedIds, Posted.id?, List.filterMap_append, List.filterMap_cons,
      List.filterMap_nil, List.mem_append, List.mem_singleton] at hmem
    exact hmem.resolve_right hold.ne

theorem evolves_post (hnone : handler.id? = none) : Evolves face (face.post handler) := by
  refine ⟨le_rfl, fun id _ h ↦ h.imp_right fun hmem ↦ ?_, [], by simp [post], by simp⟩
  simpa [postedIds, post, hnone] using hmem

theorem evolves_runPosted (hposted : face.posted = handler :: later) :
    Evolves face (({ face with posted := later } : Face).runPosted handler) := by
  have hlater {id : ℕ} (h : id ∈ later.filterMap Posted.id?) : id ∈ face.postedIds := by
    rw [postedIds, hposted]
    obtain ⟨other, hmem, hid⟩ := List.mem_filterMap.mp h
    exact List.mem_filterMap.mpr ⟨other, List.mem_cons_of_mem handler hmem, hid⟩
  have hremove (predicate : PendingInterest → Bool) :
      Evolves face (({ face with posted := later } : Face).removeIf predicate) := by
    refine ⟨le_rfl, fun id _ h ↦ h.imp (fun hmem ↦ ?_) hlater, [],
      by simp [removeIf, cancelTimeouts], by simp⟩
    exact (List.filter_sublist.map PendingInterest.id).subset hmem
  cases handler with
  | asyncExpressInterest entry =>
    refine ⟨le_rfl, fun id _ h ↦ ?_, [], by simp [runPosted, asyncExpressInterest], by simp⟩
    rcases h with hmem | hmem
    · simp only [tableIds, runPosted, asyncExpressInterest, List.map_append, List.map_cons,
        List.map_nil, List.mem_append, List.mem_singleton] at hmem
      exact hmem.imp_right fun h ↦ by simp [postedIds, hposted, Posted.id?, h]
    · exact .inr (hlater hmem)
  | asyncRemovePendingInterest id => exact hremove _
  | asyncRemoveAllPendingInterests => exact hremove _
  | asyncShutdown => exact hremove _

theorem mem_tableIds_of_mem_eraseP {other : ℕ} {table : List PendingInterest}
    (hmem : other ∈ (table.eraseP fun entry ↦ entry.id == id).map PendingInterest.id) :
    other ∈ table.map PendingInterest.id :=
  (List.eraseP_sublist.map PendingInterest.id).subset hmem

theorem evolves_leaveLoop (face : Face) (matchedEntry : PendingInterest) (processing : Processing) :
    Evolves face (face.leaveLoop matchedEntry processing) := by
  unfold Face.leaveLoop leaveByException
  split_ifs
  · refine .of_subset rfl (fun id hmem ↦ ?_) rfl rfl
    exact mem_tableIds_of_mem_eraseP ((List.filter_sublist.map PendingInterest.id).subset hmem)
  · exact .of_subset rfl (fun _ h ↦ mem_tableIds_of_mem_eraseP h) rfl rfl

theorem evolves_processFrom (hentry : ∀ id ∈ entry, id ∈ face.tableIds)
    (hnext : face.processFrom sha256 entry processing = some next) : Evolves face next := by
  rcases processFrom_cases sha256 face entry processing hentry with
    ⟨-, hsome⟩ |
    ⟨before, skipped, matchedEntry, later, htable, -, -, -, ⟨-, hsome⟩ | ⟨-, hsome⟩⟩
  · obtain rfl := Option.some.inj (hsome.symm.trans hnext)
    exact .of_subset rfl (fun _ h ↦ h) rfl rfl
  · obtain rfl := Option.some.inj (hsome.symm.trans hnext)
    refine ⟨le_rfl, fun id _ h ↦ h.imp_left mem_tableIds_of_mem_eraseP,
      [⟨matchedEntry.id, processing.packet.callback⟩], rfl, ?_⟩
    simp [tableIds, htable]
  · obtain rfl := Option.some.inj (hsome.symm.trans hnext)
    exact evolves_leaveLoop face matchedEntry processing

theorem evolves_deleter (hnext : face.deleter id = some next) : Evolves face next := by
  unfold deleter at hnext
  split_ifs at hnext
  obtain rfl := Option.some.inj hnext
  exact .of_subset rfl (fun _ h ↦ mem_tableIds_of_mem_eraseP h) rfl rfl

theorem evolves_invokeTimeoutCallback (hnext : face.invokeTimeoutCallback id = some next) :
    Evolves face next := by
  unfold invokeTimeoutCallback at hnext
  split at hnext
  · cases hnext
  · next entry hfound =>
    simp only at hnext
    split_ifs at hnext
    · obtain rfl := Option.some.inj hnext
      refine ⟨le_rfl, fun _ _ h ↦ h, [⟨id, .timeout⟩], rfl, ?_⟩
      obtain rfl : entry.id = id := by simpa using List.find?_some hfound
      have hmem : entry.id ∈ face.tableIds := List.mem_map_of_mem (List.mem_of_find?_eq_some hfound)
      simpa using hmem
    · have hevolves := evolves_deleter hnext
      exact ⟨hevolves.nextId, hevolves.present, hevolves.invocations⟩

theorem evolves_step (hinv : Accounted face) (hstep : face.step sha256 event = some next) :
    Evolves face next := by
  cases event with
  | expressInterest interest wire callbacks isSameThread =>
    obtain rfl := Option.some.inj hstep
    exact evolves_expressInterest interest wire callbacks isSameThread
  | removePendingInterest id =>
    obtain rfl := Option.some.inj hstep
    exact evolves_post rfl
  | removeAllPendingInterests =>
    obtain rfl := Option.some.inj hstep
    exact evolves_post rfl
  | shutdown =>
    obtain rfl := Option.some.inj hstep
    exact evolves_post rfl
  | runIoService isInProcessEvents =>
    simp only [step] at hstep
    split at hstep
    · obtain rfl := Option.some.inj hstep
      exact .of_subset rfl (fun _ h ↦ h) rfl rfl
    · cases hstep
  | runPosted =>
    simp only [step] at hstep
    split at hstep
    · next handler later hidle hposted =>
      obtain rfl := Option.some.inj hstep
      exact evolves_runPosted hposted
    · cases hstep
  | receive packet =>
    simp only [step] at hstep
    split at hstep
    · exact evolves_processFrom (head_mem_tableIds face) hstep
    · cases hstep
  | timeout id =>
    simp only [step] at hstep
    split at hstep
    · split_ifs at hstep
      exact evolves_invokeTimeoutCallback hstep
    · cases hstep
  | callbackReturn =>
    simp only [step] at hstep
    split at hstep
    · cases hstep
    · next matchedEntry entry processing hcontrol =>
      have hentry : ∀ id ∈ entry, id ∈ (face.cancelTimeouts [matchedEntry]).tableIds :=
        hinv.iterator _ _ _ hcontrol
      have hevolves := evolves_processFrom hentry hstep
      exact ⟨hevolves.nextId, hevolves.present, hevolves.invocations⟩
    · have hevolves := evolves_deleter hstep
      exact ⟨hevolves.nextId, hevolves.present, hevolves.invocations⟩

/-- An Interest that is neither in the table nor about to be inserted stays so, and none of its
callbacks is invoked any more. -/
theorem Evolves.filter_invocations (hevolves : Evolves face next) (hid : id < face.nextId)
    (htable : id ∉ face.tableIds) (hposted : id ∉ face.postedIds) :
    id < next.nextId ∧ id ∉ next.tableIds ∧ id ∉ next.postedIds ∧
      (next.invocations.filter fun invocation ↦ invocation.id == id) =
        face.invocations.filter fun invocation ↦ invocation.id == id := by
  have habsent : ¬ (id ∈ next.tableIds ∨ id ∈ next.postedIds) := fun h ↦
    (hevolves.present id hid h).elim htable hposted
  obtain ⟨added, hadded, htableIds⟩ := hevolves.invocations
  refine ⟨hid.trans_le hevolves.nextId, fun h ↦ habsent (.inl h), fun h ↦ habsent (.inr h), ?_⟩
  rw [hadded, List.filter_append]
  refine List.append_right_eq_self.mpr (List.filter_eq_nil_iff.mpr fun invocation hmem hsame ↦ ?_)
  exact htable (by simpa using beq_iff_eq.mp hsame ▸ htableIds invocation hmem)

end Evolution

/-! ## Runs -/

theorem accounted_initial : Accounted initial :=
  ⟨by simp [initial, tableIds, postedIds], by simp [initial, invokedIds],
    by simp [initial, invokedIds], by simp [initial, invokedIds],
    by simp [initial, tableIds, postedIds, invokedIds], by simp [initial], by simp [initial],
    by simp [initial]⟩

theorem accounted_run {sha256 : Bytes → Bytes} {events : List Event} {start face : Face}
    (hstart : Accounted start) (hrun : run (step sha256) start events = some face) :
    Accounted face :=
  invariant_of_run (fun _ state ↦ Accounted state)
    (fun _ _ _ _ hinv hstep ↦ accounted_step hinv hstep) hstart hrun

/-- In every run, an expressed Interest gets at most one call of its callbacks in total; from the
moment it is no longer in the pending Interest table none is invoked; and a running callback can
return. -/
theorem callbacks_invoked_at_most_once (sha256 : Bytes → Bytes) (before after : List Event)
    (earlier face : Face) (hbefore : run (step sha256) initial before = some earlier)
    (hafter : run (step sha256) earlier after = some face) :
    (face.invocations.map Invocation.id).Nodup ∧
    (∀ id < earlier.nextId, id ∉ earlier.tableIds → id ∉ earlier.postedIds →
      (face.invocations.filter fun invocation ↦ invocation.id == id) =
        earlier.invocations.filter fun invocation ↦ invocation.id == id) ∧
    (face.control ≠ .idle → ∃ next, face.step sha256 .callbackReturn = some next) := by
  have hearlier : Accounted earlier := accounted_run accounted_initial hbefore
  have hface : Accounted face := accounted_run hearlier hafter
  refine ⟨hface.invokedOnce, fun id hid htable hposted ↦ ?_, fun hrunning ↦ ?_⟩
  · have hgone := invariant_of_run (fun _ state ↦ Accounted state ∧ id < state.nextId ∧
      id ∉ state.tableIds ∧ id ∉ state.postedIds ∧
        (state.invocations.filter fun invocation ↦ invocation.id == id) =
          earlier.invocations.filter fun invocation ↦ invocation.id == id) ?_
      ⟨hearlier, hid, htable, hposted, rfl⟩ hafter
    · exact hgone.2.2.2.2
    rintro - state event next ⟨hinv, hid, htable, hposted, hsame⟩ hstep
    obtain ⟨hid', htable', hposted', hsame'⟩ :=
      (evolves_step hinv hstep).filter_invocations hid htable hposted
    exact ⟨accounted_step hinv hstep, hid', htable', hposted', hsame'.trans hsame⟩
  · obtain ⟨next, hnext, -⟩ := hface.callbackReturn hrunning
    exact ⟨next, hnext⟩

/-- A Data callback that expresses an Interest and removes another one, and a timeout; the removed
Interest has no invocation at the end. -/
theorem callbacks_invoked_at_most_once_reentrant :
    ∃ earlier face, run (step fun _ ↦ []) initial
      [.expressInterest { name := [.generic [65]] } [5, 1, 65] ⟨true, true, true⟩ true,
        .expressInterest { name := [.generic [66]] } [5, 1, 66] ⟨true, true, true⟩ false, .runPosted,
        .receive (.data { name := [.generic [65]], signatureInfo := ⟨0, none, []⟩, wire := [] }),
        .expressInterest { name := [.generic [67]] } [5, 1, 67] ⟨true, true, true⟩ true, .removePendingInterest 1,
        .callbackReturn, .runPosted] = some earlier ∧
      run (step fun _ ↦ []) earlier [.timeout 2, .callbackReturn] = some face ∧
      face.invocations = [⟨0, .data⟩, ⟨2, .timeout⟩] ∧
      (face.invocations.map Invocation.id).Nodup ∧
      (face.invocations.filter fun invocation ↦ invocation.id == 1) = [] := by
  refine ⟨_, _, rfl, rfl, rfl, ?_⟩
  have hmain := callbacks_invoked_at_most_once (fun _ ↦ [])
    [.expressInterest { name := [.generic [65]] } [5, 1, 65] ⟨true, true, true⟩ true,
      .expressInterest { name := [.generic [66]] } [5, 1, 66] ⟨true, true, true⟩ false, .runPosted,
      .receive (.data { name := [.generic [65]], signatureInfo := ⟨0, none, []⟩, wire := [] }),
      .expressInterest { name := [.generic [67]] } [5, 1, 67] ⟨true, true, true⟩ true, .removePendingInterest 1,
      .callbackReturn, .runPosted] [.timeout 2, .callbackReturn] _ _ rfl rfl
  exact ⟨hmain.1, hmain.2.1 1 (by decide) (by decide) (by decide)⟩

end NdnCxx.Face
