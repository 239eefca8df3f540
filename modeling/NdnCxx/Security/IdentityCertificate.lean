import NdnCxx.Packet.DataWire
import NdnCxx.Security.ValidatorConfig

/-!
# Identity certificates

An `IdentityCertificate` is made from a Data packet: the content is decoded as a certificate, and
the name must be one of a certificate. The libraries that read DER texts and dates and that verify
signatures are outside the repository. What they find enters as a parameter, and
`Certificate::decode`, `BERDecodeTime` and `PublicKey::decode` take it piece by piece. Exceptions
are kept apart as far as some handler tells them apart.
-/

namespace NdnCxx.Validation

/-- A thrown exception: one of the classes of `Error`, `BERDecodeErr` of the library that reads DER,
`PublicKey::Error`, or a class that no handler names. -/
inductive Thrown
  | error (error : Error)
  | berDecode
  | publicKey (what : String)
  | other (what : String)
  deriving DecidableEq, Repr

/-- Whether a `catch (tlv::Error&)` handler catches the exception. -/
def Thrown.isTlvError : Thrown → Bool
  | .error thrown => thrown.isTlvError
  | _ => false

/-- A `PublicKey`: the algorithm of a supported key, and its SubjectPublicKeyInfo. -/
inductive KeyType
  | rsa
  | ecdsa
  deriving DecidableEq, Repr

structure PublicKeyInfo where
  keyType : KeyType
  key : Bytes
  deriving DecidableEq

/-- The tag and the text of a time. -/
structure DerTime where
  tag : ℕ
  text : List Char
  deriving DecidableEq

/-- The pieces of a certificate in the order in which they are read; `none` and `false` stand for a
`BERDecodeErr`. The key is its SubjectPublicKeyInfo and the algorithm in it. -/
structure DerCertificate where
  notBefore : Option DerTime
  notAfter : Option DerTime
  isSubjectReadable : Bool
  subjectPublicKeyInfo : Option (Bytes × List ℕ)
  isRestReadable : Bool
  deriving DecidableEq

/-- The libraries: the pieces of a DER text, the microseconds since 1970 of an ISO time, and whether
the signature of a packet verifies under a key. -/
structure CertificateLibrary where
  readDer : Bytes → DerCertificate
  fromIsoString : List Char → Except Thrown ℤ
  verifies : Packet.Data → PublicKeyInfo → Bool

/-! ## Times -/

def DerTime.utcTime : ℕ := 0x17

def DerTime.generalizedTime : ℕ := 0x18

/-- `boost::lexical_cast<int>`, of at most two characters -/
def lexicalCastInt (text : List Char) : Except Thrown ℤ :=
  let (isNegative, digits) :=
    match text with
    | '-' :: rest => (true, rest)
    | '+' :: rest => (false, rest)
    | _ => (false, text)
  if digits.isEmpty || !digits.all Char.isDigit then
    .error (.other "bad lexical cast: source type value could not be interpreted as target")
  else
    let magnitude : ℤ :=
      digits.foldl (fun number digit ↦ number * 10 + (digit.toNat - '0'.toNat : ℕ)) 0
    .ok (if isNegative then -magnitude else magnitude)

namespace CertificateLibrary

variable (library : CertificateLibrary)

/-- `time::fromIsoString`, in the 64-bit nanoseconds of the system clock -/
def timeFromIsoString (isoString : List Char) : Except Thrown ℤ := do
  let microseconds ← library.fromIsoString isoString
  return Int.bmod (microseconds.tdiv 1000000 * 10 ^ 9 + microseconds.tmod 1000000 * 1000) (2 ^ 64)

def berDecodeTime (time : DerTime) : Except Thrown ℤ :=
  if time.tag ≠ DerTime.generalizedTime ∧ time.tag ≠ DerTime.utcTime then .error .berDecode
  else do
    let str ←
      if time.tag = DerTime.utcTime then do
        let year ← lexicalCastInt (time.text.take 2)
        pure (if year < 50 then '2' :: '0' :: time.text else '1' :: '9' :: time.text)
      else pure time.text
    -- `substr` throws for a start behind the end
    if str.length < 8 then throw (.other "basic_string::substr")
    else library.timeFromIsoString (str.take 8 ++ 'T' :: (str.drop 8).take 6)

end CertificateLibrary

/-! ## Keys -/

namespace PublicKeyInfo

def rsa : List ℕ := [1, 2, 840, 113549, 1, 1, 1]

def ecdsa : List ℕ := [1, 2, 840, 10045, 2, 1]

def decode : Option (Bytes × List ℕ) → Except Thrown PublicKeyInfo
  | none => .error (.publicKey "PublicKey decoding error")
  | some (key, algorithm) =>
      if algorithm = rsa then .ok ⟨.rsa, key⟩
      else if algorithm = ecdsa then .ok ⟨.ecdsa, key⟩
      else
        .error (.publicKey ("Only RSA/ECDSA public keys are supported for now (" ++
          ".".intercalate (algorithm.map toString) ++ " requested)"))

end PublicKeyInfo

/-! ## Certificates -/

/-- An `IdentityCertificate`, whose members were read from its content and its name. -/
structure IdentityCertificate where
  data : Packet.Data
  notBefore : ℤ
  notAfter : ℤ
  publicKeyInfo : PublicKeyInfo
  publicKeyName : Name
  deriving DecidableEq

namespace IdentityCertificate

def isTooEarly (certificate : IdentityCertificate) (now : ℤ) : Bool := now < certificate.notBefore

def isTooLate (certificate : IdentityCertificate) (now : ℤ) : Bool := now > certificate.notAfter

def isCorrectName (name : Name) : Bool :=
  (name.any fun component ↦ component.toUri = ['I', 'D', '-', 'C', 'E', 'R', 'T']) &&
    name.any fun component ↦ component.toUri = ['K', 'E', 'Y']

variable (library : CertificateLibrary)

/-- The body of the `try` of `Certificate::decode` -/
def decodeDer (der : DerCertificate) : Except Thrown (ℤ × ℤ × PublicKeyInfo) := do
  let notBefore ← library.berDecodeTime (← readable der.notBefore)
  let notAfter ← library.berDecodeTime (← readable der.notAfter)
  readable (if der.isSubjectReadable then some () else none)
  let key ← PublicKeyInfo.decode der.subjectPublicKeyInfo
  readable (if der.isRestReadable then some () else none)
  return (notBefore, notAfter, key)
where
  readable {Piece : Type} : Option Piece → Except Thrown Piece
    | none => .error .berDecode
    | some piece => .ok piece

def decode (data : Packet.Data) : Except Thrown (ℤ × ℤ × PublicKeyInfo) := do
  let content ← data.getContent.mapError Thrown.error
  match decodeDer library (library.readDer content.value) with
  | .error .berDecode => .error (.error ⟨.tlv, "Certificate Decoding Error"⟩)
  | result => result

def publicKeyNameOf (name : Name) : Except Error Name :=
  if !isCorrectName name then .error ⟨.identityCertificate, "Wrong Identity Certificate Name"⟩
  else certificateNameToPublicKeyName name

/-- `IdentityCertificate::IdentityCertificate(const Data&)` -/
def ofData (data : Packet.Data) : Except Thrown IdentityCertificate := do
  let (notBefore, notAfter, key) ← decode library data
  let publicKeyName ← (publicKeyNameOf data.name).mapError Thrown.error
  return ⟨data, notBefore, notAfter, key, publicKeyName⟩

theorem data_of_ofData {data : Packet.Data} {certificate : IdentityCertificate}
    (hmade : ofData library data = .ok certificate) : certificate.data = data := by
  simp only [ofData, bind_eq_ok_iff] at hmade
  obtain ⟨members, -, publicKeyName, -, hmade⟩ := hmade
  cases hmade
  rfl

end IdentityCertificate

end NdnCxx.Validation
