import NdnCxx.Name.UriRoundTrip
import NdnCxx.Security.IdentityCertificate

/-!
# Signing parameters

`SigningInfo` says who signs, and it is written and read as a text of a scheme and a name. The digest
has no scheme of its own: it is written as an identity, and the reader compares the text with that of
the identity. The reader of names forgives more than the writer makes use of, so a text can be accepted
as an identity that the writer then turns into the digest.
-/

namespace NdnCxx

open Validation (Thrown)

def KeyChain.digestSha256Identity : Name :=
  ["localhost", "identity", "digest-sha256"].map fun text ↦
    .generic (text.toList.map fun char ↦ UInt8.ofNat char.toNat)

/-- `SigningInfo::SignerType` -/
inductive SigningInfo.SignerType
  | null
  | id
  | key
  | cert
  | sha256
  deriving DecidableEq

/-- `SigningInfo`; there is one digest algorithm. -/
structure SigningInfo where
  signerType : SigningInfo.SignerType := .null
  signerName : Name := []
  signatureInfo : Packet.SignatureInfo := {}
  deriving DecidableEq

namespace SigningInfo

def setSigningIdentity (info : SigningInfo) (identity : Name) : SigningInfo :=
  { info with signerType := .id, signerName := identity }

def setSigningKeyName (info : SigningInfo) (keyName : Name) : SigningInfo :=
  { info with signerType := .key, signerName := keyName }

def setSigningCertName (info : SigningInfo) (certificateName : Name) : SigningInfo :=
  { info with signerType := .cert, signerName := certificateName }

def setSha256Signing (info : SigningInfo) : SigningInfo :=
  { info with signerType := .sha256, signerName := [] }

/-- The argument of a scheme, as a name -/
def readName (nameArg : List Char) : Except Thrown Name := (Name.fromUri nameArg).mapError Thrown.error

/-- `SigningInfo::SigningInfo(const std::string&)` -/
def ofString (signingStr : List Char) : Except Thrown SigningInfo :=
  if signingStr.isEmpty then .ok {}
  else if ':' ∉ signingStr then
    .error (.other "Invalid signing string cannot represent SigningInfo")
  else
    let scheme := signingStr.takeWhile (· ≠ ':')
    let nameArg := (signingStr.dropWhile (· ≠ ':')).drop 1
    if scheme = ['i', 'd'] then
      if nameArg = KeyChain.digestSha256Identity.toUri.toList then .ok (setSha256Signing {})
      else (readName nameArg).map (setSigningIdentity {})
    else if scheme = ['k', 'e', 'y'] then (readName nameArg).map (setSigningKeyName {})
    else if scheme = ['c', 'e', 'r', 't'] then (readName nameArg).map (setSigningCertName {})
    else .error (.other "Invalid signing string scheme")

/-- `operator<<(std::ostream&, const SigningInfo&)` -/
def toText (info : SigningInfo) : List Char :=
  match info.signerType with
  | .null => []
  | .id => ['i', 'd'] ++ ':' :: info.signerName.toUri.toList
  | .key => ['k', 'e', 'y'] ++ ':' :: info.signerName.toUri.toList
  | .cert => ['c', 'e', 'r', 't'] ++ ':' :: info.signerName.toUri.toList
  | .sha256 => ['i', 'd'] ++ ':' :: KeyChain.digestSha256Identity.toUri.toList

/-- The text tells all there is: no signature information is prepared, a name is given exactly where
it is written, it can be read back, and the identity is not the one that stands for the digest. -/
structure IsWritten (info : SigningInfo) : Prop where
  signatureInfo : info.signatureInfo = {}
  unnamed : info.signerType = .null ∨ info.signerType = .sha256 → info.signerName = []
  valid : ∀ component ∈ info.signerName, component.IsValid
  identity : info.signerType = .id → info.signerName ≠ KeyChain.digestSha256Identity

/-! ## Reading what was written -/

/-- The scheme ends at the first colon. -/
theorem ofString_append {scheme : List Char} (hscheme : ':' ∉ scheme) (nameArg : List Char) :
    ofString (scheme ++ ':' :: nameArg) =
      if scheme = ['i', 'd'] then
        if nameArg = KeyChain.digestSha256Identity.toUri.toList then .ok (setSha256Signing {})
        else (readName nameArg).map (setSigningIdentity {})
      else if scheme = ['k', 'e', 'y'] then (readName nameArg).map (setSigningKeyName {})
      else if scheme = ['c', 'e', 'r', 't'] then (readName nameArg).map (setSigningCertName {})
      else .error (.other "Invalid signing string scheme") := by
  have hfree : ∀ char ∈ scheme, (char ≠ ':' : Bool) = true := by
    intro char hmem
    rw [decide_eq_true_iff]
    exact fun hcolon ↦ hscheme (hcolon ▸ hmem)
  have htake : (scheme ++ ':' :: nameArg).takeWhile (· ≠ ':') = scheme := by
    rw [List.takeWhile_append_of_pos hfree]
    simp
  have hdrop : ((scheme ++ ':' :: nameArg).dropWhile (· ≠ ':')).drop 1 = nameArg := by
    rw [List.dropWhile_append_of_pos hfree]
    simp
  unfold ofString
  rw [htake, hdrop, if_neg (by simp), if_neg (by simp)]

variable {name : Name} {nameArg : List Char}

theorem readName_eq_ok_iff : readName nameArg = .ok name ↔ Name.fromUri nameArg = .ok name := by
  unfold readName
  cases Name.fromUri nameArg <;> simp [Except.mapError]

theorem isValid_of_readName (hread : readName nameArg = .ok name) :
    ∀ component ∈ name, component.IsValid :=
  Name.isValid_of_fromUri (readName_eq_ok_iff.mp hread)

theorem readName_toUri (hvalid : ∀ component ∈ name, component.IsValid) :
    readName name.toUri.toList = .ok name :=
  readName_eq_ok_iff.mpr (Name.fromUri_toUri name hvalid)

/-- Among names that can be read back, only one has the text of the digest. -/
theorem toUri_eq_digest_iff (hvalid : ∀ component ∈ name, component.IsValid) :
    name.toUri.toList = KeyChain.digestSha256Identity.toUri.toList ↔
      name = KeyChain.digestSha256Identity := by
  constructor
  · intro htext
    have hdigestValid : ∀ component ∈ KeyChain.digestSha256Identity, component.IsValid := by decide
    have hdigest := readName_toUri hdigestValid
    rw [← htext, readName_toUri hvalid] at hdigest
    exact Except.ok.inj hdigest
  · rintro rfl
    rfl

/-- A scheme whose argument is always read as a name -/
theorem map_readName_toUri_eq_ok_iff {set : Name → SigningInfo} (info : SigningInfo)
    (hset : ∀ name, set name = info ↔ name = info.signerName ∧ info.signatureInfo = {}) :
    (readName info.signerName.toUri.toList).map set = .ok info ↔
      info.signatureInfo = {} ∧ ∀ component ∈ info.signerName, component.IsValid := by
  constructor
  · intro hread
    cases hname : readName info.signerName.toUri.toList with
    | error exception =>
      rw [hname] at hread
      cases hread
    | ok name =>
      rw [hname] at hread
      obtain ⟨rfl, hinfo⟩ := (hset name).mp (Except.ok.inj hread)
      exact ⟨hinfo, isValid_of_readName hname⟩
  · rintro ⟨hinfo, hvalid⟩
    rw [readName_toUri hvalid]
    exact congrArg Except.ok ((hset info.signerName).mpr ⟨rfl, hinfo⟩)

theorem ofString_toText_eq_ok_iff (info : SigningInfo) :
    ofString info.toText = .ok info ↔ info.IsWritten := by
  obtain ⟨signerType, signerName, signatureInfo⟩ := info
  have hwritten (htype : signerType ≠ .null ∧ signerType ≠ .sha256)
      (hidentity : signerType = .id → signerName ≠ KeyChain.digestSha256Identity) :
      (signatureInfo = {} ∧ ∀ component ∈ signerName, component.IsValid) ↔
        IsWritten ⟨signerType, signerName, signatureInfo⟩ := by
    constructor
    · rintro ⟨hinfo, hvalid⟩
      exact ⟨hinfo, fun hunnamed ↦ absurd hunnamed (by simp [htype]), hvalid, hidentity⟩
    · intro hinfo
      exact ⟨hinfo.signatureInfo, hinfo.valid⟩
  cases signerType with
  | null =>
    change Except.ok ({} : SigningInfo) = Except.ok _ ↔ _
    constructor
    · intro hsame
      cases hsame
      exact ⟨rfl, fun _ ↦ rfl, by decide, by decide⟩
    · rintro ⟨hinfo, hunnamed, -, -⟩
      cases hinfo
      cases hunnamed (.inl rfl)
      rfl
  | sha256 =>
    change ofString (['i', 'd'] ++ ':' :: _) = _ ↔ _
    rw [ofString_append (by decide), if_pos rfl, if_pos rfl]
    constructor
    · intro hsame
      cases hsame
      exact ⟨rfl, fun _ ↦ rfl, by decide, by decide⟩
    · rintro ⟨hinfo, hunnamed, -, -⟩
      cases hinfo
      cases hunnamed (.inr rfl)
      rfl
  | key =>
    change ofString (['k', 'e', 'y'] ++ ':' :: _) = _ ↔ _
    rw [ofString_append (by decide), if_neg (by decide), if_pos rfl,
      ← hwritten (by decide) fun hid ↦ by cases hid]
    exact map_readName_toUri_eq_ok_iff ⟨.key, signerName, signatureInfo⟩ fun name ↦ by
      simp [setSigningKeyName, eq_comm]
  | cert =>
    change ofString (['c', 'e', 'r', 't'] ++ ':' :: _) = _ ↔ _
    rw [ofString_append (by decide), if_neg (by decide), if_neg (by decide), if_pos rfl,
      ← hwritten (by decide) fun hid ↦ by cases hid]
    exact map_readName_toUri_eq_ok_iff ⟨.cert, signerName, signatureInfo⟩ fun name ↦ by
      simp [setSigningCertName, eq_comm]
  | id =>
    change ofString (['i', 'd'] ++ ':' :: signerName.toUri.toList) = _ ↔ _
    rw [ofString_append (by decide), if_pos rfl]
    split_ifs with hdigest
    · -- the text is that of the digest
      refine iff_of_false (fun hsame ↦ by cases hsame) fun hinfo ↦ ?_
      exact hinfo.identity rfl ((toUri_eq_digest_iff hinfo.valid).mp hdigest)
    · rw [← hwritten (by decide) fun _ hsame ↦ hdigest (by rw [hsame])]
      exact map_readName_toUri_eq_ok_iff ⟨.id, signerName, signatureInfo⟩ fun name ↦ by
        simp [setSigningIdentity, eq_comm]

/-- What is read can be written, apart from an identity that is named in another text than that of the
digest and is the digest's all the same. -/
theorem isWritten_of_ofString {text : List Char} {info : SigningInfo}
    (hread : ofString text = .ok info) :
    info.IsWritten ∨ info = setSigningIdentity {} KeyChain.digestSha256Identity := by
  have hnamed {set : Name → SigningInfo} {nameArg : List Char}
      (hread : (readName nameArg).map set = .ok info) :
      ∃ name : Name, (∀ component ∈ name, component.IsValid) ∧ set name = info := by
    cases hname : readName nameArg with
    | error exception =>
      rw [hname] at hread
      cases hread
    | ok name =>
      rw [hname] at hread
      exact ⟨name, isValid_of_readName hname, Except.ok.inj hread⟩
  unfold ofString at hread
  dsimp only at hread
  split_ifs at hread
  · cases hread
    exact .inl ⟨rfl, fun _ ↦ rfl, by decide, by decide⟩
  · cases hread
    exact .inl ⟨rfl, fun _ ↦ rfl, by decide, by decide⟩
  · obtain ⟨name, hvalid, rfl⟩ := hnamed hread
    by_cases hdigest : name = KeyChain.digestSha256Identity
    · exact .inr (by rw [hdigest])
    · exact .inl ⟨rfl, fun hunnamed ↦ absurd hunnamed (by simp [setSigningIdentity]), hvalid,
        fun _ ↦ hdigest⟩
  · obtain ⟨name, hvalid, rfl⟩ := hnamed hread
    exact .inl ⟨rfl, fun hunnamed ↦ absurd hunnamed (by simp [setSigningKeyName]), hvalid,
      fun hid ↦ absurd hid (by simp [setSigningKeyName])⟩
  · obtain ⟨name, hvalid, rfl⟩ := hnamed hread
    exact .inl ⟨rfl, fun hunnamed ↦ absurd hunnamed (by simp [setSigningCertName]), hvalid,
      fun hid ↦ absurd hid (by simp [setSigningCertName])⟩

/-- Parameters are read from their own text exactly if the text tells all there is. Those read from a
text are, apart from the identity of the digest, which its own text turns into the digest. -/
theorem reads_toText_iff (info : SigningInfo) (text : List Char) :
    (ofString info.toText = .ok info ↔ info.IsWritten) ∧
      (ofString text = .ok info → ofString info.toText = .ok info ∨
        info = setSigningIdentity {} KeyChain.digestSha256Identity ∧
          ofString info.toText = .ok (setSha256Signing {})) := by
  refine ⟨ofString_toText_eq_ok_iff info, fun hread ↦ ?_⟩
  rcases isWritten_of_ofString hread with hwritten | rfl
  · exact .inl ((ofString_toText_eq_ok_iff info).mpr hwritten)
  · refine .inr ⟨rfl, ?_⟩
    change ofString (['i', 'd'] ++ ':' :: KeyChain.digestSha256Identity.toUri.toList) = _
    rw [ofString_append (by decide), if_pos rfl, if_pos rfl]

/-- A blank in front of the name is enough. -/
example : ofString "id: /localhost/identity/digest-sha256".toList =
    .ok (setSigningIdentity {} KeyChain.digestSha256Identity) := by decide

end SigningInfo

end NdnCxx
