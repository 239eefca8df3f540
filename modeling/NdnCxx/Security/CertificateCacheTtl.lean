import NdnCxx.Foundation.AlarmClock
import NdnCxx.Security.IdentityCertificate

/-!
# The cache of validated certificates

`CertificateCacheTtl` keeps a certificate under its name without the version until an event of its
scheduler removes it. The event knows the name of the certificate only; it finds the right entry
because the event of an entry that is replaced or reset is cancelled.

A time to live is counted in seconds or milliseconds and turned into nanoseconds, the unit of the
scheduler. All these counts have 64 bits, so a freshness period of some hundred years makes the
product wrap around, and the event can be due at once.
-/

namespace NdnCxx

open Validation (IdentityCertificate)

/-- A certificate that was inserted, and when. -/
structure CertificateCacheTtl.Insertion where
  certificate : IdentityCertificate
  time : ℤ
  deriving DecidableEq

/-- `CertificateCacheTtl` with its scheduler, and a record of the insertions since the last reset, the
latest first. An event is set for the name that `remove` is bound to. -/
structure CertificateCacheTtl where
  /-- in seconds -/
  defaultTtl : ℤ
  cache : OrderedMap Name (IdentityCertificate × ℕ) (· < ·)
  scheduler : AlarmClock Name
  insertions : List CertificateCacheTtl.Insertion

namespace CertificateCacheTtl

def wrap (count : ℤ) : ℤ := Int.bmod count (2 ^ 64)

/-- The name without the version -/
def index (certificate : IdentityCertificate) : Name := certificate.data.name.getPrefix (-1)

variable (cache : CertificateCacheTtl)

/-- `expire` in `insert`, in milliseconds -/
def expire (certificate : IdentityCertificate) : ℤ :=
  if certificate.data.metaInfo.freshnessPeriod ≥ 0 then certificate.data.metaInfo.freshnessPeriod
  else wrap (cache.defaultTtl * 1000)

/-- When the event is due that `insert` schedules -/
def due (certificate : IdentityCertificate) : ℤ :=
  wrap (cache.scheduler.now + wrap (cache.expire certificate * 1000000))

def insert (certificate : IdentityCertificate) : CertificateCacheTtl :=
  let cancelled :=
    match cache.cache.find (index certificate) with
    | some (_, eventId) => cache.scheduler.cancel eventId
    | none => cache.scheduler
  { cache with
    cache := cache.cache.assign (index certificate) (certificate, cancelled.nextId)
    scheduler := cancelled.set (cache.due certificate) certificate.data.name
    insertions := ⟨certificate, cache.scheduler.now⟩ :: cache.insertions }

def remove (certificateName : Name) : CertificateCacheTtl :=
  { cache with cache := cache.cache.eraseKey (certificateName.getPrefix (-1)) }

def removeAll : CertificateCacheTtl :=
  { cache with
    cache := OrderedMap.empty
    scheduler := cache.cache.entries.foldl (fun scheduler entry ↦ scheduler.cancel entry.2.2)
      cache.scheduler
    insertions := [] }

def getCertificate (certificateName : Name) : Option IdentityCertificate :=
  (cache.cache.find certificateName).map Prod.fst

/-! ## Runs -/

/-- What the io service executes, and the passage of time. -/
inductive Event
  | insert (certificate : IdentityCertificate)
  | removeAll
  | advance (elapsed : ℕ)
  | fire (eventId : ℕ)

/-- One event. An event of the scheduler fires only if it is due. -/
def step (cache : CertificateCacheTtl) : Event → Option CertificateCacheTtl
  | .insert certificate => some (cache.insert certificate)
  | .removeAll => some cache.removeAll
  | .advance elapsed => some { cache with scheduler := cache.scheduler.advance elapsed }
  | .fire eventId =>
      (cache.scheduler.goesOff? eventId).map fun certificateName ↦
        { cache with scheduler := cache.scheduler.cancel eventId }.remove certificateName

def initial (defaultTtl now : ℤ) : CertificateCacheTtl :=
  ⟨defaultTtl, OrderedMap.empty, .start now, []⟩

/-! ## What the cache is for -/

/-- The time to live in nanoseconds: the freshness period, or else the default. -/
def ttl (certificate : IdentityCertificate) : ℤ :=
  if certificate.data.metaInfo.freshnessPeriod ≥ 0 then
    certificate.data.metaInfo.freshnessPeriod * 1000000
  else cache.defaultTtl * 1000000000

/-- The most recent insertion under a name since the last reset -/
def lastInsertion (name : Name) : Option Insertion :=
  cache.insertions.find? fun insertion ↦ index insertion.certificate = name

/-- A lookup returns the certificate that was inserted last, as long as its time to live has not
passed. -/
def ServesLive : Prop :=
  ∀ name certificate, cache.getCertificate name = some certificate ↔
    ∃ insertion, cache.lastInsertion name = some insertion ∧ insertion.certificate = certificate ∧
      cache.scheduler.now - insertion.time < cache.ttl certificate

def RemovesOwnEntry (eventId : ℕ) : Prop :=
  ∀ next, cache.step (.fire eventId) = some next → ∀ name certificate other,
    cache.cache.find name = some (certificate, other) → other ≠ eventId →
      next.cache.find name = some (certificate, other)

/-- The time to live fits in 64 bits as nanoseconds, and so does the time when it has passed. -/
def Fits (cache : CertificateCacheTtl) : Event → Prop
  | .insert certificate =>
      (-2 ^ 63 ≤ cache.ttl certificate ∧ cache.ttl certificate < 2 ^ 63) ∧
        -2 ^ 63 ≤ cache.scheduler.now + cache.ttl certificate ∧
          cache.scheduler.now + cache.ttl certificate < 2 ^ 63
  | _ => True

instance (cache : CertificateCacheTtl) : (event : Event) → Decidable (cache.Fits event)
  | .insert certificate => inferInstanceAs (Decidable ((-2 ^ 63 ≤ cache.ttl certificate ∧ _) ∧ _))
  | .removeAll | .advance _ | .fire _ => inferInstanceAs (Decidable True)

/-! ## Entries and events -/

/-- Every entry has its event, and every event an entry. -/
structure Linked (cache : CertificateCacheTtl) : Prop where
  entry : ∀ name certificate eventId, cache.cache.find name = some (certificate, eventId) →
    index certificate = name ∧
      ∃ due, cache.scheduler.find? eventId = some ⟨due, certificate.data.name⟩
  event : ∀ eventId alarm, cache.scheduler.find? eventId = some alarm →
    ∃ certificate, cache.cache.find (alarm.purpose.getPrefix (-1)) = some (certificate, eventId)

variable {certificate : IdentityCertificate} {alarm : Alarm Name} {eventId : ℕ}
    {next : CertificateCacheTtl} {event : Event}

section Linked

variable {cache}

/-- The scheduler on which `insert` schedules: the event of the entry to be replaced is cancelled. -/
def cancelled (cache : CertificateCacheTtl) (certificate : IdentityCertificate) :
    AlarmClock Name :=
  match cache.cache.find (index certificate) with
  | some (_, eventId) => cache.scheduler.cancel eventId
  | none => cache.scheduler

theorem insert_eq (cache : CertificateCacheTtl) (certificate : IdentityCertificate) :
    cache.insert certificate =
      { cache with
        cache := cache.cache.assign (index certificate)
          (certificate, (cache.cancelled certificate).nextId)
        scheduler := (cache.cancelled certificate).set (cache.due certificate)
          certificate.data.name
        insertions := ⟨certificate, cache.scheduler.now⟩ :: cache.insertions } := rfl

theorem now_cancelled (certificate : IdentityCertificate) :
    (cache.cancelled certificate).now = cache.scheduler.now := by
  unfold cancelled
  split <;> rfl

/-- The event of an entry under another name is not cancelled. -/
theorem Linked.find?_cancelled (hlinked : cache.Linked) :
    (cache.cancelled certificate).find? eventId = some alarm ↔
      cache.scheduler.find? eventId = some alarm ∧
        alarm.purpose.getPrefix (-1) ≠ index certificate := by
  unfold cancelled
  cases hfind : cache.cache.find (index certificate) with
  | none =>
    refine ⟨fun halarm ↦ ⟨halarm, fun hindex ↦ ?_⟩, And.left⟩
    obtain ⟨other, hother⟩ := hlinked.event eventId alarm halarm
    rw [hindex, hfind] at hother
    cases hother
  | some stored =>
    obtain ⟨storedCertificate, storedId⟩ := stored
    obtain ⟨hindex, due, hstored⟩ := hlinked.entry _ _ _ hfind
    simp only [AlarmClock.find?_cancel]
    split_ifs with hsame
    · refine ⟨by simp, fun halarm ↦ ?_⟩
      rw [hsame, hstored, Option.some.injEq] at halarm
      exact absurd (halarm.1 ▸ hindex) halarm.2
    · refine ⟨fun halarm ↦ ⟨halarm, fun hname ↦ ?_⟩, And.left⟩
      obtain ⟨other, hother⟩ := hlinked.event eventId alarm halarm
      rw [hname, hfind, Option.some.injEq, Prod.mk.injEq] at hother
      exact hsame hother.2.symm

theorem Linked.initial (defaultTtl now : ℤ) : (initial defaultTtl now).Linked where
  entry name certificate eventId hfind := by cases hfind
  event eventId alarm halarm := by cases halarm

theorem Linked.insert (hlinked : cache.Linked) (certificate : IdentityCertificate) :
    (cache.insert certificate).Linked := by
  rw [insert_eq]
  constructor
  · intro name stored eventId hfind
    rw [OrderedMap.find_assign] at hfind
    rw [AlarmClock.find?_set]
    split_ifs at hfind with hname
    · obtain ⟨rfl, rfl⟩ : certificate = stored ∧ (cache.cancelled certificate).nextId = eventId := by
        simpa using hfind
      exact ⟨hname.symm, cache.due certificate, if_pos rfl⟩
    · obtain ⟨hindex, due, halarm⟩ := hlinked.entry name stored eventId hfind
      have hkept : (cache.cancelled certificate).find? eventId = some ⟨due, stored.data.name⟩ :=
        hlinked.find?_cancelled.mpr ⟨halarm, fun hsame ↦ hname (hindex.symm.trans hsame)⟩
      refine ⟨hindex, due, ?_⟩
      rw [if_neg (AlarmClock.id_lt_nextId hkept).ne]
      exact hkept
  · intro eventId alarm halarm
    rw [AlarmClock.find?_set] at halarm
    rw [OrderedMap.find_assign]
    split_ifs at halarm with hnew
    · obtain rfl := Option.some.inj halarm
      exact ⟨certificate, by rw [hnew]; exact if_pos rfl⟩
    · obtain ⟨hold, hother⟩ := hlinked.find?_cancelled.mp halarm
      rw [if_neg hother]
      exact hlinked.event eventId alarm hold

theorem Linked.removeAll (hlinked : cache.Linked) : cache.removeAll.Linked where
  entry name certificate eventId hfind := by cases hfind
  event eventId alarm halarm := by
    simp only [CertificateCacheTtl.removeAll, AlarmClock.find?_foldl_cancel] at halarm
    split_ifs at halarm with hcancelled
    obtain ⟨certificate, hfind⟩ := hlinked.event eventId alarm halarm
    have hmem := OrderedMap.find_eq_some_iff.mp hfind
    exact absurd (List.mem_map_of_mem hmem) hcancelled

/-- The entry that a fired event removes is its own. -/
theorem Linked.fire (hlinked : cache.Linked) (halarm : cache.scheduler.find? eventId = some alarm) :
    ({ cache with scheduler := cache.scheduler.cancel eventId }.remove alarm.purpose).Linked := by
  obtain ⟨fired, hfired⟩ := hlinked.event eventId alarm halarm
  constructor
  · intro name certificate other hfind
    rw [CertificateCacheTtl.remove, OrderedMap.find_eraseKey] at hfind
    split_ifs at hfind with hname
    obtain ⟨hindex, due, hother⟩ := hlinked.entry name certificate other hfind
    refine ⟨hindex, due, ?_⟩
    change (cache.scheduler.cancel eventId).find? other = _
    rw [AlarmClock.find?_cancel, if_neg]
    · exact hother
    · rintro rfl
      rw [halarm, Option.some.injEq] at hother
      exact hname (hindex.symm.trans (by rw [hother]; rfl))
  · intro other otherAlarm hother
    change (cache.scheduler.cancel eventId).find? other = _ at hother
    rw [AlarmClock.find?_cancel] at hother
    split_ifs at hother with hsame
    obtain ⟨certificate, hfind⟩ := hlinked.event other otherAlarm hother
    refine ⟨certificate, ?_⟩
    rw [CertificateCacheTtl.remove, OrderedMap.find_eraseKey, if_neg]
    · exact hfind
    · intro hname
      rw [hname, hfired, Option.some.injEq, Prod.mk.injEq] at hfind
      exact hsame hfind.2.symm

/-- A fired event was set, and due. -/
theorem step_fire_eq_some_iff :
    cache.step (.fire eventId) = some next ↔
      ∃ alarm, cache.scheduler.find? eventId = some alarm ∧ alarm.due ≤ cache.scheduler.now ∧
        { cache with scheduler := cache.scheduler.cancel eventId }.remove alarm.purpose = next := by
  simp only [step, Option.map_eq_some_iff, AlarmClock.goesOff?_eq_some_iff]
  constructor
  · rintro ⟨_, ⟨alarm, hfind, hdue, rfl⟩, hnext⟩
    exact ⟨alarm, hfind, hdue, hnext⟩
  · rintro ⟨alarm, hfind, hdue, hnext⟩
    exact ⟨_, ⟨alarm, hfind, hdue, rfl⟩, hnext⟩

theorem Linked.step (hlinked : cache.Linked) (hstep : cache.step event = some next) :
    next.Linked := by
  cases event with
  | insert certificate =>
    obtain rfl := Option.some.inj hstep
    exact hlinked.insert certificate
  | removeAll =>
    obtain rfl := Option.some.inj hstep
    exact hlinked.removeAll
  | advance elapsed =>
    obtain rfl := Option.some.inj hstep
    exact ⟨hlinked.entry, hlinked.event⟩
  | fire eventId =>
    obtain ⟨alarm, halarm, -, rfl⟩ := step_fire_eq_some_iff.mp hstep
    exact hlinked.fire halarm

theorem Linked.removesOwnEntry (hlinked : cache.Linked) (eventId : ℕ) :
    cache.RemovesOwnEntry eventId := by
  intro next hstep name certificate other hfind hother
  obtain ⟨alarm, halarm, -, rfl⟩ := step_fire_eq_some_iff.mp hstep
  obtain ⟨fired, hfired⟩ := hlinked.event eventId alarm halarm
  rw [CertificateCacheTtl.remove, OrderedMap.find_eraseKey, if_neg]
  · exact hfind
  · rintro rfl
    rw [hfired, Option.some.injEq, Prod.mk.injEq] at hfind
    exact hother hfind.2.symm

end Linked

/-! ## Entries and time -/

/-- Every entry is the last insertion under its name, with an event at the end of its time to live; a
last insertion without an entry is past that time. -/
structure Timed (cache : CertificateCacheTtl) : Prop where
  entry : ∀ name certificate eventId, cache.cache.find name = some (certificate, eventId) →
    ∃ insertion, cache.lastInsertion name = some insertion ∧ insertion.certificate = certificate ∧
      ∀ alarm, cache.scheduler.find? eventId = some alarm →
        alarm.due = insertion.time + cache.ttl certificate
  expired : ∀ name insertion, cache.lastInsertion name = some insertion →
    cache.cache.find name = none →
      insertion.time + cache.ttl insertion.certificate ≤ cache.scheduler.now

section Timed

variable {cache}

/-- Without an overflow the event is due at the end of the time to live. -/
theorem due_eq_of_fits (hfits : cache.Fits (.insert certificate)) :
    cache.due certificate = cache.scheduler.now + cache.ttl certificate := by
  obtain ⟨-, hlower, hupper⟩ := hfits
  have hproduct : wrap (cache.expire certificate * 1000000) = wrap (cache.ttl certificate) := by
    unfold expire ttl wrap
    split_ifs
    · rfl
    · rw [Int.bmod_mul_bmod]
      congr 1
      ring
  rw [due, hproduct]
  exact bmod_add_bmod_of_fits hlower hupper

theorem lastInsertion_insert (certificate : IdentityCertificate) (name : Name) :
    (cache.insert certificate).lastInsertion name =
      if index certificate = name then some ⟨certificate, cache.scheduler.now⟩
      else cache.lastInsertion name := by
  rw [insert_eq, lastInsertion, List.find?_cons]
  split_ifs with hname <;> simp [hname, lastInsertion]

theorem Timed.initial (defaultTtl now : ℤ) : (initial defaultTtl now).Timed where
  entry name certificate eventId hfind := by cases hfind
  expired name insertion hlast := by cases hlast

theorem Timed.insert (htimed : cache.Timed) (hlinked : cache.Linked)
    (hfits : cache.Fits (.insert certificate)) : (cache.insert certificate).Timed := by
  constructor
  · intro name stored eventId hfind
    rw [lastInsertion_insert]
    rw [insert_eq, OrderedMap.find_assign] at hfind
    split_ifs at hfind with hname
    · obtain ⟨rfl, rfl⟩ : certificate = stored ∧ (cache.cancelled certificate).nextId = eventId := by
        simpa using hfind
      refine ⟨_, if_pos hname.symm, rfl, fun alarm halarm ↦ ?_⟩
      rw [insert_eq, AlarmClock.find?_set, if_pos rfl] at halarm
      obtain rfl := Option.some.inj halarm
      exact due_eq_of_fits hfits
    · obtain ⟨insertion, hlast, rfl, hdue⟩ := htimed.entry name stored eventId hfind
      refine ⟨insertion, by rw [if_neg (Ne.symm hname), hlast], rfl, fun alarm halarm ↦ ?_⟩
      obtain ⟨-, due, hold⟩ := hlinked.entry name _ eventId hfind
      have hkept : (cache.cancelled certificate).find? eventId = some alarm := by
        rw [insert_eq, AlarmClock.find?_set] at halarm
        split_ifs at halarm with hnew
        · -- the new event has a number that no set event has
          refine absurd ?_ (lt_irrefl eventId)
          have hindex := (hlinked.entry name _ eventId hfind).1
          have hset := hlinked.find?_cancelled.mpr
            ⟨hold, fun hsame ↦ hname (hindex.symm.trans hsame)⟩
          calc eventId < (cache.cancelled certificate).nextId := AlarmClock.id_lt_nextId hset
            _ = eventId := hnew.symm
        · exact halarm
      exact hdue alarm (hlinked.find?_cancelled.mp hkept).1
  · intro name insertion hlast hnone
    rw [lastInsertion_insert] at hlast
    rw [insert_eq, OrderedMap.find_assign] at hnone
    split_ifs at hnone with hname
    rw [if_neg (Ne.symm hname)] at hlast
    calc _ ≤ cache.scheduler.now := htimed.expired name insertion hlast hnone
      _ = _ := by rw [insert_eq, AlarmClock.now_set, now_cancelled]

theorem Timed.removeAll : cache.removeAll.Timed where
  entry name certificate eventId hfind := by cases hfind
  expired name insertion hlast := by cases hlast

theorem Timed.advance (htimed : cache.Timed) (elapsed : ℕ) :
    { cache with scheduler := cache.scheduler.advance elapsed }.Timed where
  entry := htimed.entry
  expired name insertion hlast hnone :=
    (htimed.expired name insertion hlast hnone).trans (AlarmClock.now_le_now_advance elapsed)

/-- The removed entry is past its time to live, because its event was due. -/
theorem Timed.fire (htimed : cache.Timed) (hlinked : cache.Linked)
    (halarm : cache.scheduler.find? eventId = some alarm) (hdue : alarm.due ≤ cache.scheduler.now) :
    ({ cache with scheduler := cache.scheduler.cancel eventId }.remove alarm.purpose).Timed := by
  constructor
  · intro name certificate other hfind
    rw [CertificateCacheTtl.remove, OrderedMap.find_eraseKey] at hfind
    split_ifs at hfind with hname
    obtain ⟨insertion, hlast, hcertificate, hother⟩ := htimed.entry name certificate other hfind
    refine ⟨insertion, hlast, hcertificate, fun otherAlarm hset ↦ hother otherAlarm ?_⟩
    change (cache.scheduler.cancel eventId).find? other = _ at hset
    rw [AlarmClock.find?_cancel] at hset
    split_ifs at hset
    exact hset
  · intro name insertion hlast hnone
    change insertion.time + cache.ttl insertion.certificate ≤ cache.scheduler.now
    rw [CertificateCacheTtl.remove, OrderedMap.find_eraseKey] at hnone
    split_ifs at hnone with hname
    · obtain ⟨fired, hfired⟩ := hlinked.event eventId alarm halarm
      obtain ⟨own, hown, rfl, htime⟩ := htimed.entry _ _ _ hfired
      rw [← hname] at hown
      obtain rfl := Option.some.inj (hown.symm.trans hlast)
      rw [← htime alarm halarm]
      exact hdue
    · exact htimed.expired name insertion hlast hnone

theorem Timed.step (htimed : cache.Timed) (hlinked : cache.Linked) (hfits : cache.Fits event)
    (hstep : cache.step event = some next) : next.Timed := by
  cases event with
  | insert certificate =>
    obtain rfl := Option.some.inj hstep
    exact htimed.insert hlinked hfits
  | removeAll =>
    obtain rfl := Option.some.inj hstep
    exact Timed.removeAll
  | advance elapsed =>
    obtain rfl := Option.some.inj hstep
    exact htimed.advance elapsed
  | fire eventId =>
    obtain ⟨alarm, halarm, hdue, rfl⟩ := step_fire_eq_some_iff.mp hstep
    exact htimed.fire hlinked halarm hdue

/-- Once every due event has fired, the entries are the insertions that live. -/
theorem Timed.servesLive (htimed : cache.Timed) (hlinked : cache.Linked)
    (hsettled : cache.scheduler.IsSettled) : cache.ServesLive := by
  intro name certificate
  rw [getCertificate, Option.map_eq_some_iff]
  constructor
  · rintro ⟨⟨stored, eventId⟩, hfind, rfl⟩
    obtain ⟨insertion, hlast, hcertificate, hdue⟩ := htimed.entry name stored eventId hfind
    obtain ⟨-, due, halarm⟩ := hlinked.entry name stored eventId hfind
    refine ⟨insertion, hlast, hcertificate, ?_⟩
    have hlater : cache.scheduler.now < due := hsettled.lt_due halarm
    have htime : due = insertion.time + cache.ttl stored := hdue _ halarm
    change cache.scheduler.now - insertion.time < cache.ttl stored
    omega
  · rintro ⟨insertion, hlast, rfl, hlives⟩
    cases hfind : cache.cache.find name with
    | none =>
      have hexpired := htimed.expired name insertion hlast hfind
      omega
    | some stored =>
      obtain ⟨certificate, eventId⟩ := stored
      obtain ⟨own, hown, rfl, -⟩ := htimed.entry name certificate eventId hfind
      obtain rfl := Option.some.inj (hown.symm.trans hlast)
      exact ⟨_, rfl, rfl⟩

end Timed

/-- In every run whose times to live fit in 64 bits, a lookup made when all due events have fired
returns what was inserted last if that still lives, and in every run an event removes its own entry
at most. -/
theorem servesLive_of_run {defaultTtl now : ℤ} {events : List Event} {finish : CertificateCacheTtl}
    (hrun : Run.run step (initial defaultTtl now) events = some finish) :
    (Run.Guarded step Fits (initial defaultTtl now) events → finish.scheduler.IsSettled →
        finish.ServesLive) ∧
      ∀ eventId, finish.RemovesOwnEntry eventId := by
  constructor
  · intro hfits hsettled
    have hinvariant : finish.Linked ∧ finish.Timed := by
      refine Run.invariant_of_guarded (fun _ cache ↦ cache.Linked ∧ cache.Timed) ?_
        ⟨Linked.initial defaultTtl now, Timed.initial defaultTtl now⟩ hfits hrun
      rintro _ cache event next ⟨hlinked, htimed⟩ hallowed hstep
      exact ⟨hlinked.step hstep, htimed.step hlinked hallowed hstep⟩
    exact hinvariant.2.servesLive hinvariant.1 hsettled
  · have hlinked : finish.Linked := Run.invariant_of_run (fun _ cache ↦ cache.Linked)
      (fun _ _ _ _ hlinked hstep ↦ hlinked.step hstep) (Linked.initial defaultTtl now) hrun
    exact hlinked.removesOwnEntry

/-- A certificate with this freshness period, without any content. -/
def certificateOf (name : Name) (freshnessPeriod : ℤ) : IdentityCertificate :=
  { data := { name := name, metaInfo := { freshnessPeriod := freshnessPeriod } }
    notBefore := 0
    notAfter := 0
    publicKeyInfo := ⟨.rsa, []⟩
    publicKeyName := [] }

/-- Two versions of a certificate, the second inserted while the first lives. -/
def replacement : List Event :=
  [.insert (certificateOf [.generic [65], .generic [1]] 10), .advance 4000000,
    .insert (certificateOf [.generic [65], .generic [2]] 10), .advance 8000000]

/-- The second version is still served when the event of the first would have been due. -/
theorem servesLive_of_run_replaced :
    ∃ finish, Run.run step (initial 3600 0) replacement = some finish ∧
      finish.getCertificate [.generic [65]] =
        some (certificateOf [.generic [65], .generic [2]] 10) := by
  have hfits : Run.Guarded step Fits (initial 3600 0) replacement := by decide
  refine ⟨_, rfl, ?_⟩
  have hserves := (servesLive_of_run rfl).1 hfits (by decide)
  exact (hserves [.generic [65]] _).mpr ⟨_, rfl, rfl, by decide⟩

/-- The longest freshness period there is: the certificate is removed at once. -/
theorem not_servesLive_overflow :
    ∃ finish, Run.run step (initial 3600 0)
        [.insert (certificateOf [.generic [65], .generic [1]] (2 ^ 63 - 1)), .fire 0] = some finish ∧
      finish.scheduler.IsSettled ∧ ¬ finish.ServesLive := by
  refine ⟨_, rfl, by decide, fun hserves ↦ ?_⟩
  have hlives := (hserves [.generic [65]]
    (certificateOf [.generic [65], .generic [1]] (2 ^ 63 - 1))).mpr ⟨_, rfl, rfl, by decide⟩
  cases hlives

end CertificateCacheTtl

end NdnCxx
