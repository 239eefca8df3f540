import NdnCxx.Packet.Interest

/-!
# In-memory storage

`InMemoryStorage` keeps its entries ordered by full name. This module embeds `find(Interest)` with
`selectChild` and `findNextFresh`. An iterator into the index is the list of the entries from it on.
-/

namespace NdnCxx

/-- `InMemoryStorageEntry`: the stored packet and its freshness flag. -/
structure InMemoryStorageEntry where
  data : Data
  isFresh : Bool
  deriving DecidableEq

def InMemoryStorageEntry.getFullName (sha256 : Bytes → Bytes) (entry : InMemoryStorageEntry) :
    Name :=
  entry.data.getFullName sha256

/-- The index `byFullName` of the cache. -/
structure InMemoryStorage (sha256 : Bytes → Bytes) where
  cache : List InMemoryStorageEntry
  sorted : cache.Pairwise fun first second ↦ first.getFullName sha256 < second.getFullName sha256

namespace InMemoryStorage

open InMemoryStorageEntry

/-- `InMemoryStorage::findNextFresh`; the empty list is `end()`. -/
def findNextFresh : List InMemoryStorageEntry → List InMemoryStorageEntry
  | [] => []
  | entry :: rest => if entry.isFresh then entry :: rest else findNextFresh rest

variable (sha256 : Bytes → Bytes)

/-- The prefix of an entry's full name that is one component longer than the Interest name. -/
def childPrefix (interest : Interest) (entry : InMemoryStorageEntry) : Name :=
  (entry.getFullName sha256).getPrefix (interest.name.length + 1)

/-- The loop of `selectChild`, from an iterator position on. `rightmost` is `none` while it still
is the starting point. Each round skips stale entries first when freshness is asked for. -/
def iterateRight (interest : Interest) (currentChildPrefix : Name)
    (rightmost : Option InMemoryStorageEntry) :
    List InMemoryStorageEntry → Option InMemoryStorageEntry
  | [] => rightmost
  | entry :: rest =>
      if interest.mustBeFresh && !entry.isFresh then
        iterateRight interest currentChildPrefix rightmost rest
      else if interest.name.isPrefixOf (entry.getFullName sha256) then
        if interest.matchesData sha256 entry.data then
          if interest.childSelector ≤ 0 then some entry
          else
            let childPrefix := childPrefix sha256 interest entry
            if currentChildPrefix.isEmpty || !childPrefix.equals currentChildPrefix then
              iterateRight interest childPrefix (some entry) rest
            else iterateRight interest currentChildPrefix rightmost rest
        else iterateRight interest currentChildPrefix rightmost rest
      else rightmost

/-- `InMemoryStorage::selectChild`, given the entries from the starting point on. -/
def selectChild (interest : Interest) (startingPoint : List InMemoryStorageEntry) :
    Option InMemoryStorageEntry :=
  match if interest.mustBeFresh then findNextFresh startingPoint else startingPoint with
  | [] => none
  | start :: rest =>
      if interest.childSelector ≤ 0 ∧ interest.matchesData sha256 start.data then some start
      else
        match iterateRight sha256 interest [] none rest with
        | some rightmost => some rightmost
        | none =>
            -- if rightmost was not found, try starting point
            if ¬ interest.childSelector ≤ 0 ∧ interest.matchesData sha256 start.data then some start
            else none

variable {sha256}

def findByFullName (storage : InMemoryStorage sha256) (name : Name) :
    Option InMemoryStorageEntry :=
  storage.cache.find? fun entry ↦ entry.getFullName sha256 = name

def lowerBound (storage : InMemoryStorage sha256) (name : Name) : ℕ :=
  (storage.cache.takeWhile fun entry ↦ entry.getFullName sha256 < name).length

/-- `InMemoryStorage::find(const Interest&)`: the entry whose Data is returned. -/
def find (storage : InMemoryStorage sha256) (interest : Interest) : Option InMemoryStorageEntry :=
  match storage.findByFullName interest.name with
  | some entry => some entry
  | none =>
      let it := storage.lowerBound interest.name
      if it = storage.cache.length then none
      else selectChild sha256 interest (storage.cache.drop (if it ≠ 0 then it - 1 else it))

end InMemoryStorage

end NdnCxx
