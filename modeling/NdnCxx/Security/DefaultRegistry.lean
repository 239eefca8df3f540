import Mathlib.Data.Set.Insert
import Mathlib.Logic.Function.Basic

/-!
# Registers of defaults

What public information is for: it knows identities, keys of identities and certificates of keys, and
for the whole, for each identity and for each key it holds the last choice of a default, as long as
what was chosen is there. The default identity, key and certificate form a chain, and a deletion takes
the defaults of what it deletes with it.
-/

namespace NdnCxx

/-- Identities, keys and certificates, with the chosen defaults -/
@[ext]
structure DefaultRegistry (Holder Identity KeyId Certificate : Type*) where
  holder : Option Holder
  identities : Set Identity
  keys : Set (Identity × KeyId)
  certificates : Set ((Identity × KeyId) × Certificate)
  defaultIdentity : Option Identity
  defaultKey : Identity → Option KeyId
  defaultCertificate : Identity × KeyId → Option Certificate

namespace DefaultRegistry

variable {Holder Identity KeyId Certificate : Type*}

/-- Nothing is known, except to whom the registry belongs. -/
def blank (holder : Option Holder) : DefaultRegistry Holder Identity KeyId Certificate where
  holder := holder
  identities := ∅
  keys := ∅
  certificates := ∅
  defaultIdentity := none
  defaultKey := fun _ ↦ none
  defaultCertificate := fun _ ↦ none

variable (registry : DefaultRegistry Holder Identity KeyId Certificate)

/-- Whatever is known belongs to something known, and so do the defaults. -/
structure IsClosed : Prop where
  identity_of_key : ∀ key ∈ registry.keys, key.1 ∈ registry.identities
  key_of_certificate : ∀ entry ∈ registry.certificates, entry.1 ∈ registry.keys
  defaultIdentity : ∀ identity, registry.defaultIdentity = some identity →
    identity ∈ registry.identities
  defaultKey : ∀ identity keyId, registry.defaultKey identity = some keyId →
    (identity, keyId) ∈ registry.keys
  defaultCertificate : ∀ key certificate, registry.defaultCertificate key = some certificate →
    (key, certificate) ∈ registry.certificates

/-! ## The chain of defaults -/

/-- The default certificate of the default key of the default identity -/
def chain : Option ((Identity × KeyId) × Certificate) :=
  registry.defaultIdentity.bind fun identity ↦
    (registry.defaultKey identity).bind fun keyId ↦
      (registry.defaultCertificate (identity, keyId)).map fun certificate ↦
        ((identity, keyId), certificate)

theorem chain_eq_some_iff {registry : DefaultRegistry Holder Identity KeyId Certificate}
    {key : Identity × KeyId} {certificate : Certificate} :
    registry.chain = some (key, certificate) ↔
      registry.defaultIdentity = some key.1 ∧ registry.defaultKey key.1 = some key.2 ∧
        registry.defaultCertificate key = some certificate := by
  obtain ⟨identity, keyId⟩ := key
  simp only [chain, Option.bind_eq_some_iff, Option.map_eq_some_iff, Prod.mk.injEq]
  constructor
  · rintro ⟨_, hidentity, _, hkey, _, hcertificate, ⟨rfl, rfl⟩, rfl⟩
    exact ⟨hidentity, hkey, hcertificate⟩
  · rintro ⟨hidentity, hkey, hcertificate⟩
    exact ⟨identity, hidentity, keyId, hkey, certificate, hcertificate, ⟨rfl, rfl⟩, rfl⟩

variable [DecidableEq Holder] [DecidableEq Identity] [DecidableEq KeyId] [DecidableEq Certificate]

/-! ## Operations -/

def addIdentity (identity : Identity) : DefaultRegistry Holder Identity KeyId Certificate :=
  { registry with identities := insert identity registry.identities }

def addKey (key : Identity × KeyId) : DefaultRegistry Holder Identity KeyId Certificate :=
  { registry.addIdentity key.1 with keys := insert key registry.keys }

def addCertificate (key : Identity × KeyId) (certificate : Certificate) :
    DefaultRegistry Holder Identity KeyId Certificate :=
  { registry with certificates := insert (key, certificate) registry.certificates }

def setDefaultIdentity (identity : Identity) :
    DefaultRegistry Holder Identity KeyId Certificate :=
  { registry.addIdentity identity with defaultIdentity := some identity }

open Classical in
/-- A key that is not there cannot be chosen. -/
noncomputable def setDefaultKey (key : Identity × KeyId) :
    DefaultRegistry Holder Identity KeyId Certificate :=
  if key ∈ registry.keys then
    { registry with defaultKey := Function.update registry.defaultKey key.1 (some key.2) }
  else registry

open Classical in
/-- A certificate that is not there cannot be chosen. -/
noncomputable def setDefaultCertificate (key : Identity × KeyId) (certificate : Certificate) :
    DefaultRegistry Holder Identity KeyId Certificate :=
  if (key, certificate) ∈ registry.certificates then
    { registry with
      defaultCertificate := Function.update registry.defaultCertificate key (some certificate) }
  else registry

def deleteCertificate (certificate : Certificate) :
    DefaultRegistry Holder Identity KeyId Certificate :=
  { registry with
    certificates := {entry ∈ registry.certificates | entry.2 ≠ certificate}
    defaultCertificate := fun key ↦ (registry.defaultCertificate key).filter (· ≠ certificate) }

def deleteKey (key : Identity × KeyId) :
    DefaultRegistry Holder Identity KeyId Certificate :=
  { registry with
    keys := {other ∈ registry.keys | other ≠ key}
    certificates := {entry ∈ registry.certificates | entry.1 ≠ key}
    defaultKey := fun identity ↦ (registry.defaultKey identity).filter fun keyId ↦
      (identity, keyId) ≠ key
    defaultCertificate := fun other ↦
      if other = key then none else registry.defaultCertificate other }

/-- The keys of an identity and their certificates go with it. -/
def deleteIdentity (identity : Identity) :
    DefaultRegistry Holder Identity KeyId Certificate :=
  { registry with
    identities := {other ∈ registry.identities | other ≠ identity}
    keys := {key ∈ registry.keys | key.1 ≠ identity}
    certificates := {entry ∈ registry.certificates | entry.1.1 ≠ identity}
    defaultIdentity := registry.defaultIdentity.filter (· ≠ identity)
    defaultKey := fun other ↦ if other = identity then none else registry.defaultKey other
    defaultCertificate := fun key ↦
      if key.1 = identity then none else registry.defaultCertificate key }

/-- A registry that belongs to another holder is wiped. -/
def setHolder (holder : Holder) :
    DefaultRegistry Holder Identity KeyId Certificate :=
  if registry.holder = none then { registry with holder := some holder }
  else if registry.holder = some holder then registry
  else blank (some holder)

end DefaultRegistry

end NdnCxx
