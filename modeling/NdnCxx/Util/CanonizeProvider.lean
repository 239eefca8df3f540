import NdnCxx.Util.DnsRuns
import NdnCxx.Util.FaceUri

/-!
# Canonical face URIs

A provider says for its schemes which URIs are canonical, and makes a canonical URI of any other. The
two providers for IP hosts resolve the host and write the address with its port. The one for Ethernet
reads the address from the host.
-/

namespace NdnCxx

namespace FaceUri

/-- An invocation of a callback of `canonize` -/
inductive CanonizeCallback
  | success (uri : FaceUri)
  | failure (reason : String)
deriving DecidableEq

abbrev Resolve := List Char → Dns.AddressSelector → List Dns.Callback

/-- The digits that `boost::lexical_cast` converts; `none` is a `bad_lexical_cast`. -/
def castDigits (digits : List Char) : Option ℕ :=
  if digits ≠ [] ∧ digits.all Char.isDigit ∧ Nat.ofDigitChars 10 digits 0 < 2 ^ 32 then
    some (Nat.ofDigitChars 10 digits 0)
  else none

/-- `boost::lexical_cast<uint32_t>`, which takes a sign -/
def lexicalCast : List Char → Option ℕ
  | '+' :: digits => castDigits digits
  | '-' :: digits => (castDigits digits).map fun number ↦ (2 ^ 32 - number) % 2 ^ 32
  | digits => castDigits digits

/-- `IpHostCanonizeProvider<Protocol>`: its members, the constructor of `FaceUri` for an endpoint of
the protocol, and the check that a subclass may override -/
structure IpHostCanonizeProvider where
  baseScheme : List Char
  ofEndpoint : AddressText → Endpoint → FaceUri
  checkAddress : IpAddress → Bool × String
  defaultUnicastPort : ℕ := 6363
  defaultMulticastPort : ℕ := 56363

namespace IpHostCanonizeProvider

variable (provider : IpHostCanonizeProvider) (asio : AddressText)

def v4Scheme : List Char := provider.baseScheme ++ ['4']

def v6Scheme : List Char := provider.baseScheme ++ ['6']

def getSchemes : List (List Char) := [provider.baseScheme, provider.v4Scheme, provider.v6Scheme]

/-- The address that a host is read as, in the family of the scheme. -/
def addressOf (uri : FaceUri) : Option IpAddress :=
  if uri.scheme = provider.v4Scheme then (asio.v4FromString uri.host).map .v4
  else if uri.scheme = provider.v6Scheme then
    (asio.v6FromString uri.host).map fun parsed ↦ .v6 parsed.1 parsed.2
  else none

def isCanonical (uri : FaceUri) : Bool :=
  if uri.port.isEmpty then false
  else if !uri.path.isEmpty then false
  else match provider.addressOf asio uri with
    | none => false
    | some addr => addr.toString asio = uri.host && (provider.checkAddress addr).1

/-- `onDnsSuccess`. An endpoint has a port of 16 bits. -/
def onDnsSuccess (uri : FaceUri) (ipAddress : IpAddress) : CanonizeCallback :=
  let checkAddressRes := provider.checkAddress ipAddress
  if !checkAddressRes.1 then .failure checkAddressRes.2
  else
    let port :=
      if uri.port.isEmpty then
        some (if ipAddress.isMulticast then provider.defaultMulticastPort
          else provider.defaultUnicastPort)
      else lexicalCast uri.port
    match port with
    | none => .failure "invalid port number"
    | some port => .success (provider.ofEndpoint asio ⟨ipAddress, UInt16.ofNat port⟩)

def onDnsFailure (reason : String) : CanonizeCallback := .failure reason

/-- What a callback of `asyncResolve` comes to -/
def onDns (uri : FaceUri) : Dns.Callback → CanonizeCallback
  | .success ipAddress => provider.onDnsSuccess asio uri ipAddress
  | .error reason => onDnsFailure reason

def addressSelector (uri : FaceUri) : Dns.AddressSelector :=
  if uri.scheme = provider.v4Scheme then Dns.ipv4Only
  else if uri.scheme = provider.v6Scheme then Dns.ipv6Only
  else Dns.anyAddress

def canonize (resolve : Resolve) (uri : FaceUri) : List CanonizeCallback :=
  if provider.isCanonical asio uri then [.success uri]
  else (resolve uri.host (provider.addressSelector uri)).map (provider.onDns asio uri)

end IpHostCanonizeProvider

def udpCanonizeProvider : IpHostCanonizeProvider where
  baseScheme := ['u', 'd', 'p']
  ofEndpoint := ofUdpEndpoint
  checkAddress _ := (true, "")

def tcpCanonizeProvider : IpHostCanonizeProvider where
  baseScheme := ['t', 'c', 'p']
  ofEndpoint := ofTcpEndpoint
  checkAddress ipAddress :=
    if ipAddress.isMulticast then (false, "cannot use multicast address") else (true, "")

namespace EtherCanonizeProvider

def scheme : List Char := ['e', 't', 'h', 'e', 'r']

def isCanonical (uri : FaceUri) : Bool :=
  if !uri.port.isEmpty then false
  else if !uri.path.isEmpty then false
  else (Ethernet.Address.fromString uri.host).toString ':' = uri.host

def canonize (uri : FaceUri) : List CanonizeCallback :=
  let addr := Ethernet.Address.fromString uri.host
  if addr.isNull then [.failure "cannot parse address"]
  else [.success (ofEthernetAddress addr)]

end EtherCanonizeProvider

/-- `CanonizeProvider` -/
inductive CanonizeProvider
  | ipHost (provider : IpHostCanonizeProvider)
  | ether

namespace CanonizeProvider

def getSchemes : CanonizeProvider → List (List Char)
  | ipHost provider => provider.getSchemes
  | ether => [EtherCanonizeProvider.scheme]

def isCanonical (asio : AddressText) (uri : FaceUri) : CanonizeProvider → Bool
  | ipHost provider => provider.isCanonical asio uri
  | ether => EtherCanonizeProvider.isCanonical uri

def canonize (asio : AddressText) (resolve : Resolve) (uri : FaceUri) :
    CanonizeProvider → List CanonizeCallback
  | ipHost provider => provider.canonize asio resolve uri
  | ether => EtherCanonizeProvider.canonize uri

end CanonizeProvider

def canonizeProviders : List CanonizeProvider :=
  [.ipHost udpCanonizeProvider, .ipHost tcpCanonizeProvider, .ether]

def getCanonizeProvider (scheme : List Char) : Option CanonizeProvider :=
  canonizeProviders.find? fun provider ↦ provider.getSchemes.contains scheme

def canCanonize (scheme : List Char) : Bool := (getCanonizeProvider scheme).isSome

def isCanonical (asio : AddressText) (uri : FaceUri) : Bool :=
  match getCanonizeProvider uri.scheme with
  | none => false
  | some cp => cp.isCanonical asio uri

def canonize (asio : AddressText) (resolve : Resolve) (uri : FaceUri) : List CanonizeCallback :=
  match getCanonizeProvider uri.scheme with
  | none => [.failure "scheme not supported"]
  | some cp => cp.canonize asio resolve uri

/-! ## Schemes -/

theorem getCanonizeProvider_cases {scheme : List Char} {cp : CanonizeProvider}
    (hget : getCanonizeProvider scheme = some cp) :
    cp = .ipHost udpCanonizeProvider ∨ cp = .ipHost tcpCanonizeProvider ∨
      cp = .ether ∧ scheme = EtherCanonizeProvider.scheme := by
  have hscheme : cp.getSchemes.contains scheme = true :=
    List.find?_some (p := fun cp : CanonizeProvider ↦ cp.getSchemes.contains scheme) hget
  have hmem : cp ∈ canonizeProviders := List.mem_of_find?_eq_some hget
  simp only [canonizeProviders, List.mem_cons, List.not_mem_nil, or_false] at hmem
  obtain rfl | rfl | rfl := hmem
  · exact .inl rfl
  · exact .inr (.inl rfl)
  · exact .inr (.inr ⟨rfl, by simpa [CanonizeProvider.getSchemes] using hscheme⟩)

end FaceUri

end NdnCxx
