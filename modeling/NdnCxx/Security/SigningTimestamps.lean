import NdnCxx.Name.Number
import NdnCxx.Packet.KeyLocator
import NdnCxx.Security.Timestamp

/-!
# Timestamps of signed Interests

The two sides of the replay protection: `KeyChain::signPacketWrapper(Interest)` writes a timestamp
into the name of every command Interest, and `checkTimestamp` refuses one that is not later than the
last it has accepted for the key. The key chain compares with `m_lastTimestamp`, which its constructor
sets and nothing changes afterwards.
-/

namespace NdnCxx

/-- `Name::append(const Block&)`: a block of another type is wrapped in a component. -/
def Component.ofAppended (value : Block) : Component :=
  if value.type = Tlv.nameComponent then ⟨value.type, value.value⟩ else .generic value.wire

/-- `time::toUnixTimestamp`, of nanoseconds since the epoch -/
def toUnixTimestamp (point : ℕ) : ℕ := point / 1000000

/-- `KeyChain`, as far as it dates Interests -/
structure KeyChain where
  lastTimestamp : ℕ
  deriving DecidableEq

namespace KeyChain

/-- `KeyChain::KeyChain`, with the reading of the clock -/
def create (now : ℕ) : KeyChain := ⟨toUnixTimestamp now⟩

/-- A call of `sign(Interest)`: the name of the Interest, the reading of the clock, the random word,
the signature info, and the signature value `pureSign` makes, unless it throws. -/
structure SignCall where
  interestName : Name
  now : ℕ
  nonce : ℕ
  signatureInfo : Block
  signatureValue : Option Block
  deriving DecidableEq

/-- The timestamp `signPacketWrapper` takes. -/
def timestamp (keyChain : KeyChain) (now : ℕ) : ℕ :=
  if toUnixTimestamp now ≤ keyChain.lastTimestamp then keyChain.lastTimestamp + 1
  else toUnixTimestamp now

/-- `KeyChain::signPacketWrapper(Interest&, …)`: the key chain afterwards and the name of the signed
Interest. -/
def signPacketWrapper (keyChain : KeyChain) (call : SignCall) : KeyChain × Option Name :=
  let signedName := call.interestName ++
    [.fromNumber (keyChain.timestamp call.now), .fromNumber call.nonce,
      .ofAppended call.signatureInfo]
  (keyChain, call.signatureValue.map fun sigValue ↦ signedName ++ [.ofAppended sigValue])

def signAll : KeyChain → List SignCall → List Name
  | _, [] => []
  | keyChain, call :: calls =>
      (keyChain.signPacketWrapper call).2.toList ++
        signAll (keyChain.signPacketWrapper call).1 calls

def embedded (interestName : Name) : Except Error ℕ :=
  ((interestName.get (-SignedInterest.minLength)).getD Component.empty).toNumber

/-- Each timestamp component holds a larger number than those before. -/
def Increasing (names : List Name) : Prop :=
  names.Pairwise fun first second ↦
    ∃ time time', embedded first = .ok time ∧ embedded second = .ok time' ∧ time < time'

end KeyChain

namespace ValidatorConfig

/-- Every Interest, delivered in turn, passes `checkTimestamp`. -/
def AcceptsAll (config : ValidatorConfig) : LastTimestampMap → List Arrival → Prop
  | _, [] => True
  | lastTimestamp, arrival :: arrivals =>
      let result := config.checkTimestamp arrival.interestName arrival.keyName arrival.currentTime
        arrival.now lastTimestamp
      result.1 = .validated ∧ AcceptsAll config result.2 arrivals

/-- Every validator that tracks the key, with a time before the first of the Interests, accepts them
all when they are delivered in this order, whenever that is. -/
def AcceptedInOrder (names : List Name) : Prop :=
  ∀ (config : ValidatorConfig) (lastTimestamp : LastTimestampMap) (keyName : Name) (recorded : ℤ)
    (arrivals : List Arrival), lastTimestamp.find keyName = some recorded →
      (∀ name ∈ names.head?, ∀ time, interestTime name = .ok time → recorded < time) →
      arrivals.map Arrival.interestName = names →
      (∀ arrival ∈ arrivals, arrival.keyName = keyName) →
      config.AcceptsAll lastTimestamp arrivals

/-- Interests whose times increase are accepted by a validator that tracks their key. -/
theorem acceptsAll_of_pairwise {config : ValidatorConfig} {lastTimestamp : LastTimestampMap}
    {keyName : Name} {recorded : ℤ} {arrivals : List Arrival}
    (hfind : lastTimestamp.find keyName = some recorded)
    (hkey : ∀ arrival ∈ arrivals, arrival.keyName = keyName)
    (hlater : ∀ arrival ∈ arrivals, ∃ time, interestTime arrival.interestName = .ok time ∧
      recorded < time)
    (hincreasing : arrivals.Pairwise fun first second ↦ ∀ time time',
      interestTime first.interestName = .ok time → interestTime second.interestName = .ok time' →
        time < time') :
    config.AcceptsAll lastTimestamp arrivals := by
  induction arrivals generalizing lastTimestamp recorded with
  | nil => trivial
  | cons arrival arrivals ih =>
    obtain ⟨time, htime, hnewer⟩ := hlater arrival List.mem_cons_self
    obtain ⟨hfirst, hrest⟩ := List.pairwise_cons.mp hincreasing
    have hname := hkey arrival List.mem_cons_self
    have hresult : config.checkTimestamp arrival.interestName arrival.keyName arrival.currentTime
        arrival.now lastTimestamp = (.validated, lastTimestamp.setValue keyName time) := by
      unfold checkTimestamp
      rw [htime]
      dsimp only
      rw [hname, hfind]
      exact if_neg (not_le.mpr hnewer)
    have htracked : (lastTimestamp.setValue keyName time).find keyName = some time := by
      have hmem := OrderedMap.find_eq_some_iff.mp hfind
      exact OrderedMap.find_eq_some_iff.mpr
        ((OrderedMap.mem_setValue ⟨recorded, hmem⟩).mpr (.inl rfl))
    rw [AcceptsAll, hresult]
    refine ⟨rfl, ih htracked (fun other hother ↦ hkey other (List.mem_cons_of_mem _ hother)) ?_
      hrest⟩
    intro other hother
    obtain ⟨time', htime', -⟩ := hlater other (List.mem_cons_of_mem _ hother)
    exact ⟨time', htime', hfirst other hother time time' htime htime'⟩

end ValidatorConfig

namespace KeyChain

/-- The reading, and the millisecond after it, are time points of 64-bit nanoseconds. -/
def IsReading (now : ℕ) : Prop := now + 1000000 < 2 ^ 63

section Signed

variable {keyChain : KeyChain} {call : SignCall} {name : Name} {start : ℕ}

theorem timestamp_eq (keyChain : KeyChain) (now : ℕ) :
    keyChain.timestamp now = max (toUnixTimestamp now) (keyChain.lastTimestamp + 1) := by
  unfold timestamp
  split_ifs <;> omega

/-- Signing leaves the key chain as it was. -/
theorem signAll_eq (keyChain : KeyChain) (calls : List SignCall) :
    keyChain.signAll calls = calls.filterMap fun call ↦ (keyChain.signPacketWrapper call).2 := by
  induction calls with
  | nil => rfl
  | cons call calls ih =>
    have hunchanged : (keyChain.signPacketWrapper call).1 = keyChain := rfl
    rw [signAll, hunchanged, ih, List.filterMap_cons]
    cases (keyChain.signPacketWrapper call).2 <;> rfl

theorem isSome_signPacketWrapper (keyChain : KeyChain) (call : SignCall) :
    (keyChain.signPacketWrapper call).2.isSome = call.signatureValue.isSome :=
  Option.isSome_map

/-- The timestamp component stands in the fourth place from the end. -/
theorem get_signed (hsigned : (keyChain.signPacketWrapper call).2 = some name) :
    name.get (-SignedInterest.minLength) = some (.fromNumber (keyChain.timestamp call.now)) := by
  obtain ⟨sigValue, -, rfl⟩ := Option.map_eq_some_iff.mp hsigned
  simp [Name.get, SignedInterest.minLength]

theorem timestamp_lt (hstart : IsReading start) (hnow : IsReading call.now) :
    (create start).timestamp call.now * 1000000 < 2 ^ 63 := by
  unfold IsReading at hstart hnow
  rw [timestamp_eq]
  simp only [create, toUnixTimestamp]
  omega

theorem embedded_signed (hstart : IsReading start) (hnow : IsReading call.now)
    (hsigned : ((create start).signPacketWrapper call).2 = some name) :
    embedded name = .ok ((create start).timestamp call.now) := by
  have hsmall := timestamp_lt hstart hnow
  rw [embedded, get_signed hsigned, Option.getD_some]
  exact Component.toNumber_fromNumber (by omega)

theorem fromUnixTimestamp_eq {milliseconds : ℕ} (hsmall : milliseconds * 1000000 < 2 ^ 63) :
    ValidatorConfig.fromUnixTimestamp milliseconds = (milliseconds * 1000000 : ℤ) := by
  unfold ValidatorConfig.fromUnixTimestamp
  apply Int.bmod_eq_of_le_mul_two
  · push_cast
    omega
  · push_cast
    omega

/-- The validator reads the same milliseconds as a time of its clock. -/
theorem interestTime_signed (hstart : IsReading start) (hnow : IsReading call.now)
    (hsigned : ((create start).signPacketWrapper call).2 = some name) :
    ValidatorConfig.interestTime name =
      .ok ((create start).timestamp call.now * 1000000 : ℤ) := by
  have hsmall := timestamp_lt hstart hnow
  have hembedded := embedded_signed hstart hnow hsigned
  unfold embedded at hembedded
  simp only [ValidatorConfig.interestTime, hembedded, bind, Except.bind, pure, Except.pure]
  rw [fromUnixTimestamp_eq hsmall]

/-- Later calls have the larger timestamps when, and only when, their readings are later than those
before them and than the millisecond after the start. -/
theorem timestamp_lt_iff (start now now' : ℕ) :
    (create start).timestamp now < (create start).timestamp now' ↔
      toUnixTimestamp now < toUnixTimestamp now' ∧
        toUnixTimestamp start + 1 < toUnixTimestamp now' := by
  rw [timestamp_eq, timestamp_eq]
  simp only [create]
  omega

end Signed

/-- Every reading after the first, of the calls that sign, is in a later millisecond than those before
it and than the one after the key chain was made. -/
def Spread (start : ℕ) (calls : List SignCall) : Prop :=
  (calls.filter (·.signatureValue.isSome)).Pairwise fun first second ↦
    toUnixTimestamp first.now < toUnixTimestamp second.now ∧
      toUnixTimestamp start + 1 < toUnixTimestamp second.now

instance (start : ℕ) (calls : List SignCall) : Decidable (Spread start calls) :=
  inferInstanceAs (Decidable (List.Pairwise _ _))

variable {calls : List SignCall}

theorem exists_call_of_mem_signAll {start : ℕ} {name : Name}
    (hmem : name ∈ (create start).signAll calls) :
    ∃ call ∈ calls, ((create start).signPacketWrapper call).2 = some name := by
  rw [signAll_eq] at hmem
  simpa using List.mem_filterMap.mp hmem

/-- A relation between the signed Interests is one between the calls that sign. -/
theorem pairwise_signAll_iff {start : ℕ} {relation : Name → Name → Prop}
    (hrelation : ∀ first ∈ calls, ∀ second ∈ calls, ∀ name name',
      ((create start).signPacketWrapper first).2 = some name →
      ((create start).signPacketWrapper second).2 = some name' →
      (relation name name' ↔
      (create start).timestamp first.now < (create start).timestamp second.now)) :
    ((create start).signAll calls).Pairwise relation ↔ Spread start calls := by
  rw [signAll_eq, List.pairwise_filterMap, Spread, List.pairwise_filter]
  refine List.Pairwise.iff_of_mem fun {first second} hfirst hsecond ↦ ?_
  simp only [← timestamp_lt_iff]
  constructor
  · intro hall hsigns hsigns'
    rw [← isSome_signPacketWrapper (create start)] at hsigns hsigns'
    obtain ⟨name, hsigned⟩ := Option.isSome_iff_exists.mp hsigns
    obtain ⟨name', hsigned'⟩ := Option.isSome_iff_exists.mp hsigns'
    exact (hrelation first hfirst second hsecond name name' hsigned hsigned').mp
      (hall name hsigned name' hsigned')
  · intro hless name hsigned name' hsigned'
    refine (hrelation first hfirst second hsecond name name' hsigned hsigned').mpr (hless ?_ ?_)
    · rw [← isSome_signPacketWrapper (create start), hsigned, Option.isSome_some]
    · rw [← isSome_signPacketWrapper (create start), hsigned', Option.isSome_some]

theorem increasing_signAll_iff {start : ℕ} (hstart : IsReading start)
    (hcalls : ∀ call ∈ calls, IsReading call.now) :
    Increasing ((create start).signAll calls) ↔ Spread start calls := by
  refine pairwise_signAll_iff fun first hfirst second hsecond name name' hname hname' ↦ ?_
  rw [embedded_signed hstart (hcalls first hfirst) hname,
    embedded_signed hstart (hcalls second hsecond) hname']
  constructor
  · rintro ⟨time, time', ⟨⟩, ⟨⟩, hless⟩
    exact hless
  · exact fun hless ↦ ⟨_, _, rfl, rfl, hless⟩

/-- Increasing timestamps pass every validator that tracks the key. -/
theorem acceptedInOrder_of_spread {start : ℕ} (hstart : IsReading start)
    (hcalls : ∀ call ∈ calls, IsReading call.now) (hspread : Spread start calls) :
    ValidatorConfig.AcceptedInOrder ((create start).signAll calls) := by
  intro config lastTimestamp keyName recorded arrivals hfind hfirst hnames hkey
  have hincreasing : ((create start).signAll calls).Pairwise fun first second ↦ ∀ time time',
      ValidatorConfig.interestTime first = .ok time →
      ValidatorConfig.interestTime second = .ok time' → time < time' := by
    refine (pairwise_signAll_iff ?_).mpr hspread
    intro first hmem second hmem' name name' hname hname'
    rw [interestTime_signed hstart (hcalls first hmem) hname,
      interestTime_signed hstart (hcalls second hmem') hname']
    constructor
    · intro hall
      have hless := hall _ _ rfl rfl
      omega
    · rintro hless time time' ⟨⟩ ⟨⟩
      omega
  have htimes : ∀ name ∈ (create start).signAll calls, ∃ time,
      ValidatorConfig.interestTime name = .ok time := by
    intro name hmem
    obtain ⟨call, hcall, hsigned⟩ := exists_call_of_mem_signAll hmem
    exact ⟨_, interestTime_signed hstart (hcalls call hcall) hsigned⟩
  rw [← hnames] at hincreasing hfirst htimes
  refine ValidatorConfig.acceptsAll_of_pairwise hfind hkey ?_ (List.pairwise_map.mp hincreasing)
  -- all of them are as late as the first one at least
  intro arrival harrival
  obtain ⟨time, htime⟩ := htimes _ (List.mem_map_of_mem harrival)
  refine ⟨time, htime, ?_⟩
  cases arrivals with
  | nil => cases harrival
  | cons head rest =>
    obtain ⟨time', htime'⟩ := htimes _ (List.mem_map_of_mem (List.mem_cons_self))
    have hhead : recorded < time' := hfirst _ rfl time' htime'
    rcases List.mem_cons.mp harrival with rfl | hrest
    · rw [htime'] at htime
      cases htime
      exact hhead
    · exact hhead.trans ((List.pairwise_cons.mp (List.pairwise_map.mp hincreasing)).1 arrival hrest
        time' time htime' htime)

/-- The timestamps of one key chain increase, and the Interests pass the validators that track the
key, exactly when no two of them are signed too close in time. -/
theorem signAll_acceptedInOrder_iff {start : ℕ} (hstart : IsReading start)
    (hcalls : ∀ call ∈ calls, IsReading call.now) :
    Increasing ((create start).signAll calls) ∧
        ValidatorConfig.AcceptedInOrder ((create start).signAll calls) ↔
      Spread start calls := by
  rw [increasing_signAll_iff hstart hcalls]
  exact and_iff_left_of_imp (acceptedInOrder_of_spread hstart hcalls)

def commandAt (now : ℕ) : SignCall :=
  { interestName := [.generic [65]]
    now := now
    nonce := 7
    signatureInfo := ⟨22, [], [22, 0]⟩
    signatureValue := some ⟨23, [], [23, 0]⟩ }

/-- A millisecond apart, after one since the key chain was made. -/
theorem signAll_acceptedInOrder_commandAt :
    Increasing ((create 0).signAll [commandAt 2000000, commandAt 3000000]) ∧
      ValidatorConfig.AcceptedInOrder
        ((create 0).signAll [commandAt 2000000, commandAt 3000000]) :=
  (signAll_acceptedInOrder_iff (by unfold IsReading; decide)
    (by unfold IsReading; decide)).mpr (by decide)

/-- Two Interests signed in one millisecond have the same timestamp, and the second is outdated. -/
theorem signAll_same_timestamp :
    ∃ first second, (create 0).signAll [commandAt 2000000, commandAt 2500000] = [first, second] ∧
      (embedded first).toOption = some 2 ∧ (embedded second).toOption = some 2 ∧
      ¬ ValidatorConfig.oneKey.AcceptsAll (OrderedMap.empty.assign [.generic [65]] 1)
        [⟨first, [.generic [65]], 2000000, 2000000⟩, ⟨second, [.generic [65]], 2500000, 2500000⟩] := by
  refine ⟨_, _, rfl, rfl, rfl, ?_⟩
  rintro ⟨-, houtdated, -⟩
  revert houtdated
  decide

end KeyChain

end NdnCxx
