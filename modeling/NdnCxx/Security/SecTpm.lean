import Mathlib.Logic.Function.Basic
import NdnCxx.Security.InterestSignature
import NdnCxx.Security.SecPublicInfo

/-!
# The key files of a key chain

`SecTpmFile` keeps the two halves of a key pair in two files, under the URI of the name of the key.
Generating makes both files and refuses to write over one, and deleting removes both. The library that
makes and uses the keys enters as a parameter.

A file that holds the Base64 text of a key is represented by the key. The digest in the names of the
files is left out.
-/

namespace NdnCxx

open Validation (KeyType PublicKeyInfo)

/-! ## Parameters of keys -/

/-- `KeyParams`; the type is `none` for those of symmetric keys. -/
structure KeyParams where
  keyType : Option KeyType
  keySize : ℕ
  deriving DecidableEq

namespace KeyParams

def checkKeySize (sizes : List ℕ) (size : ℕ) : ℕ := if size ∈ sizes then size else sizes.headD 0

def rsa (size : ℕ) : KeyParams := ⟨some .rsa, checkKeySize [2048, 1024] size⟩

def ecdsa (size : ℕ) : KeyParams := ⟨some .ecdsa, checkKeySize [256, 384] size⟩

end KeyParams

/-! ## The library -/

/-- The library of keys, with a reading of its random pool where it draws from one -/
structure KeyLibrary extends SignatureLibrary where
  generate : (keyType : KeyType) → (keySize random : ℕ) → Except String (Bytes × Bytes)
  sign : (keyType : KeyType) → (privateKey message : Bytes) → (random : ℕ) → Except String Bytes

namespace KeyLibrary

variable (library : KeyLibrary)

def verifies (publicKey : PublicKeyInfo) (message signature : Bytes) : Bool :=
  match publicKey.keyType with
  | .rsa => (library.verifyRsa publicKey.key message signature).getD false
  | .ecdsa => (library.verifyEcdsa publicKey.key message signature).getD false

/-- The two keys belong together: the private one signs any message, and its signatures, which are of
a moderate size, verify under the public one. -/
def IsPair (privateKey : Bytes) (publicKey : PublicKeyInfo) : Prop :=
  ∀ message random, ∃ signature,
    library.sign publicKey.keyType privateKey message random = .ok signature ∧
      signature.length < 2 ^ 16 ∧ library.verifies publicKey message signature = true

/-- What the library promises: the keys that it makes belong together. -/
def IsSound : Prop :=
  ∀ keyType keySize random privateKey publicKey,
    library.generate keyType keySize random = .ok (privateKey, publicKey) →
      library.IsPair privateKey ⟨keyType, publicKey⟩

end KeyLibrary

/-! ## Key files -/

/-- `KeyClass` -/
inductive SecTpm.KeyClass
  | publicClass
  | privateClass
  | symmetricClass
  deriving DecidableEq

/-- `SecTpmFile`, with the files under the URIs of the names of their keys -/
structure SecTpm where
  publicKeys : String → Option PublicKeyInfo
  privateKeys : String → Option Bytes

namespace SecTpm

open SecPublicInfo (Thrown)

def empty : SecTpm := ⟨fun _ ↦ none, fun _ ↦ none⟩

variable (library : KeyLibrary) (tpm : SecTpm)

/-- `SecTpmFile::doesKeyExistInTpm`; nothing writes the file of a symmetric key. -/
def doesKeyExistInTpm (keyName : Name) : KeyClass → Bool
  | .publicClass => (tpm.publicKeys keyName.toUri).isSome
  | .privateClass => (tpm.privateKeys keyName.toUri).isSome
  | .symmetricClass => false

/-- The size that a key is made with; an elliptic curve is chosen by it. -/
def madeSize (keyType : KeyType) (keySize : ℕ) : ℕ :=
  match keyType with
  | .rsa => keySize
  | .ecdsa => if keySize = 384 then 384 else 256

def withKeyPair (uri : String) (privateKey : Bytes) (publicKey : PublicKeyInfo) : SecTpm where
  publicKeys := Function.update tpm.publicKeys uri (some publicKey)
  privateKeys := Function.update tpm.privateKeys uri (some privateKey)

def generateKeyPairInTpm (keyName : Name) (params : KeyParams) (random : ℕ) :
    Throwing SecTpm Thrown Unit := do
  let tpm ← get
  if tpm.doesKeyExistInTpm keyName .publicClass then throw (.tpm "public key exists")
  else if tpm.doesKeyExistInTpm keyName .privateClass then throw (.tpm "private key exists")
  else
    match params.keyType with
    | none => throw (.tpm "Unsupported key type")
    | some keyType =>
        match library.generate keyType (madeSize keyType params.keySize) random with
        | .error what => throw (.tpm what)
        | .ok pair => set (tpm.withKeyPair keyName.toUri pair.1 ⟨keyType, pair.2⟩)

def deleteKeyPairInTpm (keyName : Name) : SecTpm where
  privateKeys := Function.update tpm.privateKeys keyName.toUri none
  publicKeys := Function.update tpm.publicKeys keyName.toUri none

def getPublicKeyFromTpm (keyName : Name) : Except Thrown PublicKeyInfo :=
  match tpm.publicKeys keyName.toUri with
  | none => .error (.tpm "Public Key does not exist")
  | some publicKey => .ok publicKey

def signInTpm (buffer : Bytes) (keyName : Name) (random : ℕ) : Except Thrown Block.Unencoded :=
  match tpm.privateKeys keyName.toUri with
  | none => .error (.tpm "private key doesn't exist")
  | some privateKey => do
      let publicKey ← tpm.getPublicKeyFromTpm keyName
      let signature ←
        (library.sign publicKey.keyType privateKey buffer random).mapError Thrown.tpm
      return ⟨Tlv.signatureValue, .value signature, []⟩

/-! ## Pairs of files -/

/-- The public file is there, with the given key. -/
def Holds (uri : String) (publicKey : PublicKeyInfo) : Prop := tpm.publicKeys uri = some publicKey

/-- No public file stands alone, and two files of one name belong together. -/
def IsPaired : Prop :=
  ∀ uri publicKey, tpm.Holds uri publicKey →
    ∃ privateKey, tpm.privateKeys uri = some privateKey ∧ library.IsPair privateKey publicKey

/-- Nothing that is held is lost. -/
def Grows (tpm next : SecTpm) : Prop :=
  ∀ uri publicKey, tpm.Holds uri publicKey → next.Holds uri publicKey

section Files

variable {library tpm} {keyName : Name} {publicKey : PublicKeyInfo}

theorem isPaired_empty : empty.IsPaired library := by
  intro uri publicKey hholds
  cases hholds

variable {uri : String} {privateKey : Bytes}

theorem Holds.unique {other : PublicKeyInfo} (hholds : tpm.Holds uri publicKey)
    (hother : tpm.Holds uri other) : publicKey = other :=
  Option.some.inj (hholds.symm.trans hother)

theorem getPublicKeyFromTpm_eq_ok_iff :
    tpm.getPublicKeyFromTpm keyName = .ok publicKey ↔ tpm.Holds keyName.toUri publicKey := by
  unfold getPublicKeyFromTpm Holds
  cases tpm.publicKeys keyName.toUri <;> simp

/-- A held key signs, and the signature verifies. -/
theorem signInTpm_of_holds (hpaired : tpm.IsPaired library)
    (hholds : tpm.Holds keyName.toUri publicKey) (buffer : Bytes) (random : ℕ) :
    ∃ signature, tpm.signInTpm library buffer keyName random =
        .ok ⟨Tlv.signatureValue, .value signature, []⟩ ∧
      signature.length < 2 ^ 16 ∧ library.verifies publicKey buffer signature = true := by
  have hread := getPublicKeyFromTpm_eq_ok_iff.mpr hholds
  obtain ⟨privateKey, hprivate, hpair⟩ := hpaired _ publicKey hholds
  obtain ⟨signature, hsign, hverified⟩ := hpair buffer random
  refine ⟨signature, ?_, hverified⟩
  simp only [signInTpm, hprivate, hread, hsign, bind, Except.bind, pure, Except.pure,
    Except.mapError]

/-! ## Writing and deleting pairs -/

theorem holds_withKeyPair_iff {other : String} {held : PublicKeyInfo} :
    (tpm.withKeyPair uri privateKey publicKey).Holds other held ↔
      other = uri ∧ publicKey = held ∨ other ≠ uri ∧ tpm.Holds other held := by
  unfold Holds withKeyPair
  by_cases hother : other = uri
  · simp [hother]
  · simp [hother]

theorem holds_deleteKeyPairInTpm_iff :
    (tpm.deleteKeyPairInTpm keyName).Holds uri publicKey ↔
      uri ≠ keyName.toUri ∧ tpm.Holds uri publicKey := by
  unfold Holds deleteKeyPairInTpm
  by_cases huri : uri = keyName.toUri
  · simp [huri]
  · simp [huri]

theorem isPaired_withKeyPair (hpaired : tpm.IsPaired library) (uri : String)
    (hpair : library.IsPair privateKey publicKey) :
    (tpm.withKeyPair uri privateKey publicKey).IsPaired library := by
  intro other held hholds
  rcases holds_withKeyPair_iff.mp hholds with ⟨rfl, rfl⟩ | ⟨hother, hold⟩
  · exact ⟨privateKey, Function.update_self .., hpair⟩
  · obtain ⟨found, hfound, hkept⟩ := hpaired other held hold
    exact ⟨found, (Function.update_of_ne hother ..).trans hfound, hkept⟩

theorem isPaired_deleteKeyPairInTpm (hpaired : tpm.IsPaired library) (keyName : Name) :
    (tpm.deleteKeyPairInTpm keyName).IsPaired library := by
  intro other held hholds
  obtain ⟨hother, hold⟩ := holds_deleteKeyPairInTpm_iff.mp hholds
  obtain ⟨found, hfound, hkept⟩ := hpaired other held hold
  exact ⟨found, (Function.update_of_ne hother ..).trans hfound, hkept⟩

open Throwing

/-- A new pair is made of the type that is asked for, under a name that held none, or nothing is done. -/
theorem generateKeyPairInTpm_spec (hlibrary : library.IsSound) (hpaired : tpm.IsPaired library)
    (params : KeyParams) (random : ℕ) :
    Ends (fun _ next ↦ next.IsPaired library ∧ tpm.Grows next ∧
        ∃ publicKey, params.keyType = some publicKey.keyType ∧ next.Holds keyName.toUri publicKey)
      (fun exception next ↦ next = tpm ∧ ∃ what, exception = .tpm what)
      ((generateKeyPairInTpm library keyName params random).run tpm) := by
  unfold generateKeyPairInTpm
  rw [EStateM.run_bind, EStateM.run_get]
  dsimp only
  split_ifs with hpublic hprivate
  · exact ⟨rfl, _, rfl⟩
  · exact ⟨rfl, _, rfl⟩
  · cases htype : params.keyType with
    | none => exact ⟨rfl, _, rfl⟩
    | some keyType =>
      dsimp only
      cases hmade : library.generate keyType (madeSize keyType params.keySize) random with
      | error what => exact ⟨rfl, what, rfl⟩
      | ok pair =>
        refine ⟨isPaired_withKeyPair hpaired _ (hlibrary _ _ _ _ _ hmade), fun uri held hholds ↦
          holds_withKeyPair_iff.mpr (.inr ⟨?_, hholds⟩), _, rfl,
          holds_withKeyPair_iff.mpr (.inl ⟨rfl, rfl⟩)⟩
        rintro rfl
        exact hpublic (Option.isSome_iff_exists.mpr ⟨held, hholds⟩)

end Files

end SecTpm

end NdnCxx
