import NdnCxx.Packet.Data
import NdnCxx.Packet.Exclude

/-!
# Interest packets

The selectors of an Interest and `Interest::matchesData`, which decides whether a Data packet can
answer it. Integer selectors follow the source: a negative value means that the selector is absent.
-/

namespace NdnCxx

/-- The name and the selectors of an `Interest`. -/
structure Interest where
  name : Name
  minSuffixComponents : ℤ := -1
  maxSuffixComponents : ℤ := -1
  publisherPublicKeyLocator : KeyLocator := ⟨.none, []⟩
  exclude : Exclude := Exclude.empty
  childSelector : ℤ := -1
  mustBeFresh : Bool := false
  deriving DecidableEq

namespace Interest

variable (sha256 : Bytes → Bytes)

/-- The prefix check of `matchesData`. An Interest as long as the full name matches only through
its implicit digest. -/
def matchesPrefix (interest : Interest) (data : Data) : Bool :=
  if interest.name.length = data.name.length + 1 then
    if (interest.name.get (-1)).any Component.isImplicitSha256Digest then
      interest.name.equals (data.getFullName sha256)
    else false
  else interest.name.isPrefixOf data.name

/-- The Exclude check of `matchesData`: is the component after the Interest's name excluded? When
the Interest carries the whole data name, that component is the digest. -/
def violatesExclude (interest : Interest) (data : Data) : Bool :=
  if !interest.exclude.boundaries.entries.isEmpty &&
      data.name.length + 1 > interest.name.length then
    if interest.name.length = data.name.length + 1 - 1 then
      ((data.getFullName sha256).get interest.name.length).any interest.exclude.isExcluded
    else (data.name.get interest.name.length).any interest.exclude.isExcluded
  else false

def matchesPublisher (interest : Interest) (data : Data) : Bool :=
  if !interest.publisherPublicKeyLocator.isEmpty then
    match data.signatureInfo.findKeyLocator with
    | none => false
    | some wire => interest.publisherPublicKeyLocator.wire == wire
  else true

def matchesData (interest : Interest) (data : Data) : Bool :=
  let interestNameLength := interest.name.length
  let fullNameLength := data.name.length + 1
  let minSuffixComponents :=
    if interest.minSuffixComponents ≥ 0 then interest.minSuffixComponents.toNat else 0
  if ¬ interestNameLength + minSuffixComponents ≤ fullNameLength then false
  else if interest.maxSuffixComponents ≥ 0 ∧
      ¬ interestNameLength + interest.maxSuffixComponents.toNat ≥ fullNameLength then false
  else if !interest.matchesPrefix sha256 data then false
  else if interest.violatesExclude sha256 data then false
  else interest.matchesPublisher data

theorem matchesPrefix_of_matchesData {interest : Interest} {data : Data}
    (hmatch : interest.matchesData sha256 data = true) :
    interest.matchesPrefix sha256 data = true := by
  unfold matchesData at hmatch
  grind

end Interest

/-- `lp::NackReason` -/
inductive NackReason
  | none
  | congestion
  | duplicate
  | noRoute
  deriving DecidableEq

end NdnCxx
