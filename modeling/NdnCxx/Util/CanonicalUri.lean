import NdnCxx.Util.CanonizeProvider

/-!
# Canonization as a fixpoint

A URI that is made from an address is canonical, and canonizing a canonical URI gives it back. An IP
provider makes the URI with the port that it is given reduced to 16 bits, and Ethernet URIs have no
port, so that a port number may be lost on the way. The null Ethernet address is canonical as a text,
but is what an address that cannot be read is taken for. A name resolution that goes on after its
timeout invokes two callbacks, and so does `canonize`.
-/

namespace NdnCxx.FaceUri

variable {asio : AddressText} {cancel : Dns.Resolution → Dns.Resolution} {uri : FaceUri}

/-- What becomes of the name resolution of each host -/
abbrev NameResolution (cancel : Dns.Resolution → Dns.Resolution) :=
  List Char → (addressSelector : Dns.AddressSelector) → Dns.Lookup cancel addressSelector

def NameResolution.resolve (resolution : NameResolution cancel) : Resolve :=
  fun host addressSelector ↦ (resolution host addressSelector).resolver.callbacks

/-- Canonizing a URI invokes one callback, and a URI that it succeeds with is canonical, keeps the port
number, and is itself canonized to what it is. A canonical URI is canonized to what it is. -/
structure Canonizes (asio : AddressText) (uri : FaceUri) (resolve : Resolve) : Prop where
  once : ∃ callback, uri.canonize asio resolve = [callback]
  canonical : ∀ canonicalUri, .success canonicalUri ∈ uri.canonize asio resolve →
    canonicalUri.isCanonical asio = true
  port : ∀ canonicalUri, .success canonicalUri ∈ uri.canonize asio resolve →
    ∀ number, uri.portNumber = some number → canonicalUri.portNumber = some number
  stable : ∀ canonicalUri, .success canonicalUri ∈ uri.canonize asio resolve →
    ∀ other, canonicalUri.canonize asio other = [.success canonicalUri]
  fixed : uri.isCanonical asio = true → uri.canonize asio resolve = [.success uri]

variable {resolve : Resolve}

/-- A failure is all there is to show of a URI that is not canonical. -/
theorem canonizes_of_failure {reason : String} (hcanonical : uri.isCanonical asio = false)
    (hcanonize : uri.canonize asio resolve = [.failure reason]) : Canonizes asio uri resolve := by
  have hnone (canonicalUri : FaceUri) : .success canonicalUri ∉ uri.canonize asio resolve := by
    simp [hcanonize]
  refine ⟨⟨_, hcanonize⟩, fun canonicalUri hmem ↦ absurd hmem (hnone _),
    fun canonicalUri hmem ↦ absurd hmem (hnone _), fun canonicalUri hmem ↦ absurd hmem (hnone _),
    fun htrue ↦ ?_⟩
  rw [hcanonical] at htrue
  cases htrue

/-- A success is as good as the URI that it comes with, as far as the port is concerned. -/
theorem canonizes_iff_of_success {canonicalUri : FaceUri}
    (hcanonize : uri.canonize asio resolve = [.success canonicalUri])
    (hcanonical : canonicalUri.isCanonical asio = true)
    (hstable : ∀ other, canonicalUri.canonize asio other = [.success canonicalUri])
    (hfixed : uri.isCanonical asio = true → canonicalUri = uri) :
    Canonizes asio uri resolve ↔
      ∀ number, uri.portNumber = some number → canonicalUri.portNumber = some number := by
  have hmem {found : FaceUri} (hfound : .success found ∈ uri.canonize asio resolve) :
      found = canonicalUri := by
    rw [hcanonize] at hfound
    simpa using hfound
  constructor
  · intro hcanonizes
    exact hcanonizes.port canonicalUri (by rw [hcanonize]; exact List.mem_cons_self)
  · intro hport
    refine ⟨⟨_, hcanonize⟩, fun found hfound ↦ ?_, fun found hfound ↦ ?_,
      fun found hfound other ↦ ?_, fun htrue ↦ ?_⟩
    · rw [hmem hfound, hcanonical]
    · rw [hmem hfound]
      exact hport
    · rw [hmem hfound, hstable]
    · rw [hcanonize, hfixed htrue]

/-! ## Ports -/

theorem portNumber_eq_none_iff : uri.portNumber = none ↔ uri.port = [] := by
  unfold portNumber
  split_ifs with hport <;> simp [hport]

theorem portNumber_of_toDigits {number : ℕ} (hport : uri.port = Nat.toDigits 10 number) :
    uri.portNumber = some number := by
  rw [portNumber, hport, if_neg Nat.toDigits_ne_nil, Nat.ofDigitChars_ten_toDigits]

/-- A port of digits is converted unless its number is too large for 32 bits. -/
theorem lexicalCast_eq {digits : List Char} (hdigits : ∀ char ∈ digits, char.isDigit = true)
    (hne : digits ≠ []) :
    lexicalCast digits = if Nat.ofDigitChars 10 digits 0 < 2 ^ 32 then
      some (Nat.ofDigitChars 10 digits 0) else none := by
  have hall : digits.all Char.isDigit = true := List.all_eq_true.mpr hdigits
  have hcast : lexicalCast digits = castDigits digits := by
    unfold lexicalCast
    split
    · exact absurd (hdigits '+' List.mem_cons_self) (by decide)
    · exact absurd (hdigits '-' List.mem_cons_self) (by decide)
    · rfl
  rw [hcast, castDigits]
  simp only [ne_eq, hne, not_false_eq_true, hall, true_and]

/-! ## IP hosts -/

namespace IpHostCanonizeProvider

variable {provider : IpHostCanonizeProvider}

/-- The URI of an endpoint has the scheme of its family, the text of the address and the port, and
the provider is the one for both families. -/
structure IsLawful (provider : IpHostCanonizeProvider) : Prop where
  ofEndpoint : ∀ asio endpoint, provider.ofEndpoint asio endpoint =
    { scheme := if endpoint.address.isV6 then provider.v6Scheme else provider.v4Scheme
      host := endpoint.address.toString asio
      isV6 := endpoint.address.isV6
      port := Nat.toDigits 10 endpoint.port.toNat
      path := [] }
  v4 : getCanonizeProvider provider.v4Scheme = some (.ipHost provider)
  v6 : getCanonizeProvider provider.v6Scheme = some (.ipHost provider)

theorem isLawful_udp : udpCanonizeProvider.IsLawful := ⟨fun _ _ ↦ rfl, rfl, rfl⟩

theorem isLawful_tcp : tcpCanonizeProvider.IsLawful := ⟨fun _ _ ↦ rfl, rfl, rfl⟩

theorem v6Scheme_ne_v4Scheme : provider.v6Scheme ≠ provider.v4Scheme := by
  simp [v6Scheme, v4Scheme]

namespace IsLawful

theorem getCanonizeProvider_ofEndpoint (hlawful : provider.IsLawful) (asio : AddressText)
    (endpoint : Endpoint) : getCanonizeProvider (provider.ofEndpoint asio endpoint).scheme =
      some (.ipHost provider) := by
  rw [hlawful.ofEndpoint]
  dsimp only
  split_ifs
  · exact hlawful.v6
  · exact hlawful.v4

theorem addressOf_ofEndpoint (hlawful : provider.IsLawful) (hinverse : asio.IsInverse)
    (endpoint : Endpoint) :
    provider.addressOf asio (provider.ofEndpoint asio endpoint) = some endpoint.address := by
  obtain ⟨address, port⟩ := endpoint
  rw [hlawful.ofEndpoint, addressOf]
  cases address with
  | v4 address =>
    simp only [IpAddress.isV6, Bool.false_eq_true, if_false, if_true, IpAddress.toString,
      hinverse.v4, Option.map_some]
  | v6 address scopeId =>
    simp only [IpAddress.isV6, if_true, if_neg v6Scheme_ne_v4Scheme, IpAddress.toString,
      hinverse.v6, Option.map_some]

/-- The URI of an endpoint that may be used is canonical. -/
theorem isCanonical_ofEndpoint (hlawful : provider.IsLawful) (hinverse : asio.IsInverse)
    {endpoint : Endpoint} (hcheck : (provider.checkAddress endpoint.address).1 = true) :
    provider.isCanonical asio (provider.ofEndpoint asio endpoint) = true := by
  rw [IpHostCanonizeProvider.isCanonical, hlawful.addressOf_ofEndpoint hinverse,
    hlawful.ofEndpoint]
  simp [Nat.toDigits_ne_nil, hcheck]

end IsLawful

/-- The port number is one that an endpoint can have, or one that `lexical_cast` refuses. -/
def KeepsPort (provider : IpHostCanonizeProvider) (uri : FaceUri) (outcome : Dns.Callback) : Prop :=
  ∀ address, outcome = .success address → (provider.checkAddress address).1 = true →
    ∀ number, uri.portNumber = some number → number < 2 ^ 16 ∨ 2 ^ 32 ≤ number

/-- What becomes of an address that the provider may use -/
theorem onDnsSuccess_cases (asio : AddressText) (hdigits : ∀ char ∈ uri.port, char.isDigit = true)
    {address : IpAddress} (hcheck : (provider.checkAddress address).1 = true) :
    (uri.portNumber = none ∧ ∃ port, provider.onDnsSuccess asio uri address =
      .success (provider.ofEndpoint asio ⟨address, port⟩)) ∨
    ∃ number, uri.portNumber = some number ∧
      ((number < 2 ^ 32 ∧ provider.onDnsSuccess asio uri address =
        .success (provider.ofEndpoint asio ⟨address, UInt16.ofNat number⟩)) ∨
      (2 ^ 32 ≤ number ∧ provider.onDnsSuccess asio uri address =
        .failure "invalid port number")) := by
  unfold onDnsSuccess
  simp only [hcheck, Bool.not_true, Bool.false_eq_true, if_false]
  by_cases hport : uri.port = []
  · left
    simp only [hport, List.isEmpty_nil, if_true]
    exact ⟨portNumber_eq_none_iff.mpr hport, _, rfl⟩
  · right
    refine ⟨Nat.ofDigitChars 10 uri.port 0, if_neg hport, ?_⟩
    simp only [List.isEmpty_eq_false_iff.mpr hport, Bool.false_eq_true, if_false,
      lexicalCast_eq hdigits hport]
    by_cases hlt : Nat.ofDigitChars 10 uri.port 0 < 2 ^ 32
    · left
      simp only [hlt, if_true, true_and]
    · right
      simp only [hlt, if_false, and_true]
      omega

theorem isCanonical_eq (hget : getCanonizeProvider uri.scheme = some (.ipHost provider)) :
    uri.isCanonical asio = provider.isCanonical asio uri := by
  rw [FaceUri.isCanonical, hget]
  rfl

theorem canonize_eq (hget : getCanonizeProvider uri.scheme = some (.ipHost provider))
    (resolve : Resolve) : uri.canonize asio resolve = provider.canonize asio resolve uri := by
  rw [FaceUri.canonize, hget]
  rfl

/-- With one callback of the name resolution, a URI that is not canonical must keep its port. -/
theorem canonizes_iff_keepsPort (hlawful : provider.IsLawful) (hinverse : asio.IsInverse)
    (hget : getCanonizeProvider uri.scheme = some (.ipHost provider))
    (hdigits : ∀ char ∈ uri.port, char.isDigit = true) {outcome : Dns.Callback}
    (honce : resolve uri.host (provider.addressSelector uri) = [outcome])
    (hcanonical : ¬uri.isCanonical asio = true) :
    Canonizes asio uri resolve ↔ provider.KeepsPort uri outcome := by
  have hfalse : uri.isCanonical asio = false := Bool.eq_false_iff.mpr hcanonical
  have honDns : uri.canonize asio resolve = [provider.onDns asio uri outcome] := by
    rw [canonize_eq hget, IpHostCanonizeProvider.canonize, ← isCanonical_eq hget,
      if_neg hcanonical, honce]
    rfl
  cases outcome with
  | error reason =>
    exact iff_of_true (canonizes_of_failure hfalse honDns) fun _ hsuccess ↦ nomatch hsuccess
  | success address =>
    by_cases hcheck : (provider.checkAddress address).1 = true
    case neg =>
      have hrefused : provider.onDns asio uri (.success address) =
          .failure (provider.checkAddress address).2 := by
        rw [onDns, onDnsSuccess]
        simp only [hcheck, Bool.not_false, if_true]
      rw [hrefused] at honDns
      refine iff_of_true (canonizes_of_failure hfalse honDns) fun other hother hallowed ↦ ?_
      rw [← Dns.Callback.success.inj hother] at hallowed
      exact absurd hallowed hcheck
    -- the URI of any endpoint of the address is canonical and stays what it is
    have hendpoint (port : UInt16)
        (hsuccess : uri.canonize asio resolve =
          [.success (provider.ofEndpoint asio ⟨address, port⟩)]) :
        Canonizes asio uri resolve ↔
          ∀ number, uri.portNumber = some number → port.toNat = number := by
      have hmadeGet := hlawful.getCanonizeProvider_ofEndpoint asio ⟨address, port⟩
      have hmade : (provider.ofEndpoint asio ⟨address, port⟩).isCanonical asio = true := by
        rw [FaceUri.isCanonical, hmadeGet]
        exact hlawful.isCanonical_ofEndpoint hinverse hcheck
      have hmadeStable (other : Resolve) :
          (provider.ofEndpoint asio ⟨address, port⟩).canonize asio other =
            [.success (provider.ofEndpoint asio ⟨address, port⟩)] := by
        rw [FaceUri.canonize, hmadeGet]
        exact if_pos (hlawful.isCanonical_ofEndpoint hinverse hcheck)
      have hmadePort : (provider.ofEndpoint asio ⟨address, port⟩).portNumber = some port.toNat :=
        portNumber_of_toDigits (by rw [hlawful.ofEndpoint])
      rw [canonizes_iff_of_success hsuccess hmade hmadeStable fun htrue ↦ absurd htrue hcanonical,
        hmadePort]
      simp only [Option.some.injEq]
    have hkeeps : provider.KeepsPort uri (.success address) ↔
        ∀ number, uri.portNumber = some number → number < 2 ^ 16 ∨ 2 ^ 32 ≤ number := by
      refine ⟨fun hkeeps ↦ hkeeps address rfl hcheck, fun hnumber other hother _ ↦ hnumber⟩
    rw [hkeeps]
    obtain ⟨hnone, port, hsuccess⟩ | ⟨number, hnumber, ⟨hlt, hsuccess⟩ | ⟨hle, hfailure⟩⟩ :=
      onDnsSuccess_cases asio hdigits hcheck
    · rw [hendpoint port (by rw [honDns, onDns, hsuccess])]
      simp [hnone]
    · rw [hendpoint _ (by rw [honDns, onDns, hsuccess])]
      simp only [hnumber, Option.some.injEq, forall_eq', UInt16.toNat_ofNat']
      omega
    · rw [onDns, hfailure] at honDns
      refine iff_of_true (canonizes_of_failure hfalse honDns) fun other hother ↦ ?_
      obtain rfl : number = other := Option.some.inj (hnumber ▸ hother)
      exact .inr hle

theorem canonizes_iff_isTimely (hlawful : provider.IsLawful) (hinverse : asio.IsInverse)
    (hcancel : Dns.Cancels cancel)
    (hget : getCanonizeProvider uri.scheme = some (.ipHost provider))
    (hdigits : ∀ char ∈ uri.port, char.isDigit = true) (resolution : NameResolution cancel) :
    Canonizes asio uri resolution.resolve ↔ uri.isCanonical asio = true ∨
      (resolution uri.host (provider.addressSelector uri)).IsTimely ∧
        ∀ outcome ∈ resolution.resolve uri.host (provider.addressSelector uri),
          provider.KeepsPort uri outcome := by
  by_cases hcanonical : uri.isCanonical asio = true
  · have hfixed (resolve : Resolve) : uri.canonize asio resolve = [.success uri] := by
      rw [canonize_eq hget, IpHostCanonizeProvider.canonize, ← isCanonical_eq hget,
        if_pos hcanonical]
    rw [canonizes_iff_of_success (hfixed _) hcanonical hfixed fun _ ↦ rfl]
    exact iff_of_true (fun _ hnumber ↦ hnumber) (.inl hcanonical)
  rw [or_iff_right hcanonical, ← Dns.Lookup.length_callbacks_eq_one_iff hcancel]
  change _ ↔ (resolution.resolve uri.host (provider.addressSelector uri)).length = 1 ∧ _
  by_cases hlength : (resolution.resolve uri.host (provider.addressSelector uri)).length = 1
  · obtain ⟨outcome, honce⟩ := List.length_eq_one_iff.mp hlength
    rw [canonizes_iff_keepsPort hlawful hinverse hget hdigits honce hcanonical, honce]
    simp
  · refine iff_of_false (fun hcanonizes ↦ hlength ?_) fun hboth ↦ hlength hboth.1
    obtain ⟨callback, honce⟩ := hcanonizes.once
    have hmap := congrArg List.length honce
    rwa [canonize_eq hget, IpHostCanonizeProvider.canonize, ← isCanonical_eq hget,
      if_neg hcanonical, List.length_map] at hmap

end IpHostCanonizeProvider

/-! ## Ethernet addresses -/

def nullUri : FaceUri := ofEthernetAddress .null

theorem isSeparator_colon : Ethernet.IsSeparator ':' := .inl rfl

theorem fromString_ofEthernetAddress (address : Ethernet.Address) :
    Ethernet.Address.fromString (ofEthernetAddress address).host = address :=
  address.fromString_toString isSeparator_colon

namespace EtherCanonizeProvider

theorem isCanonical_ofEthernetAddress (address : Ethernet.Address) :
    isCanonical (ofEthernetAddress address) = true := by
  have hread := fromString_ofEthernetAddress address
  rw [isCanonical, hread]
  simp [ofEthernetAddress, FaceUri.empty]

/-- A canonical URI with the host in brackets is that of the address that is read from it. -/
theorem eq_of_isCanonical (hscheme : uri.scheme = scheme)
    (hbrackets : ':' ∈ uri.host → uri.isV6 = true) (hcanonical : isCanonical uri = true) :
    uri = ofEthernetAddress (Ethernet.Address.fromString uri.host) := by
  obtain ⟨uriScheme, host, isV6, port, path⟩ := uri
  unfold isCanonical at hcanonical
  split_ifs at hcanonical with hport hpath
  have hhost : (Ethernet.Address.fromString host).toString ':' = host :=
    of_decide_eq_true hcanonical
  have hcolon : ':' ∈ host := by
    rw [← hhost]
    exact Ethernet.Address.sep_mem_toString _ _
  obtain rfl : port = [] := by simpa using hport
  obtain rfl : path = [] := by simpa using hpath
  obtain rfl : uriScheme = scheme := hscheme
  obtain rfl : isV6 = true := hbrackets hcolon
  rw [ofEthernetAddress]
  simp only [hhost]
  rfl

theorem canonizes_iff_hasNoPort (hscheme : uri.scheme = scheme)
    (hbrackets : ':' ∈ uri.host → uri.isV6 = true) (resolve : Resolve) :
    Canonizes asio uri resolve ↔ uri ≠ nullUri ∧
      ((Ethernet.Address.fromString uri.host).isNull = false → uri.port = []) := by
  have hget : getCanonizeProvider uri.scheme = some .ether := by
    rw [hscheme]
    rfl
  have hisCanonical : uri.isCanonical asio = isCanonical uri := by
    rw [FaceUri.isCanonical, hget]
    rfl
  have hcanonize (other : Resolve) : uri.canonize asio other = canonize uri := by
    rw [FaceUri.canonize, hget]
    rfl
  cases hnull : (Ethernet.Address.fromString uri.host).isNull with
  | true =>
    have haddress : Ethernet.Address.fromString uri.host = .null := of_decide_eq_true hnull
    have hfailure : uri.canonize asio resolve = [.failure "cannot parse address"] := by
      rw [hcanonize, canonize]
      exact if_pos hnull
    simp only [Bool.true_eq_false, false_imp_iff, and_true]
    constructor
    · rintro hcanonizes rfl
      have hfixed := hcanonizes.fixed (isCanonical_ofEthernetAddress .null)
      rw [hfailure] at hfixed
      cases hfixed
    · intro hne
      refine canonizes_of_failure (Bool.eq_false_iff.mpr fun hcanonical ↦ hne ?_) hfailure
      rw [hisCanonical] at hcanonical
      rw [eq_of_isCanonical hscheme hbrackets hcanonical, haddress]
      rfl
  | false =>
    have hsuccess : uri.canonize asio resolve =
        [.success (ofEthernetAddress (Ethernet.Address.fromString uri.host))] := by
      rw [hcanonize, canonize]
      exact if_neg (by rw [hnull]; decide)
    have hne : uri ≠ nullUri := by
      rintro rfl
      rw [nullUri, fromString_ofEthernetAddress] at hnull
      cases hnull
    have hstable (other : Resolve) :
        (ofEthernetAddress (Ethernet.Address.fromString uri.host)).canonize asio other =
          [.success (ofEthernetAddress (Ethernet.Address.fromString uri.host))] := by
      have hmade : (ofEthernetAddress (Ethernet.Address.fromString uri.host)).canonize asio other =
          canonize (ofEthernetAddress (Ethernet.Address.fromString uri.host)) := rfl
      rw [hmade, canonize, fromString_ofEthernetAddress]
      exact if_neg (by rw [hnull]; decide)
    have hnone : (ofEthernetAddress (Ethernet.Address.fromString uri.host)).portNumber = none := rfl
    rw [canonizes_iff_of_success hsuccess (isCanonical_ofEthernetAddress _) hstable fun htrue ↦
      (eq_of_isCanonical hscheme hbrackets (hisCanonical ▸ htrue)).symm, hnone,
      and_iff_right hne, ← portNumber_eq_none_iff]
    simp [Option.eq_none_iff_forall_ne_some]

end EtherCanonizeProvider

/-! ## Every scheme that can be canonized -/

/-- An Ethernet URI is not that of the null address, and has no port where its address is read. An IP
URI is canonical, or its name resolution does not go on after the timeout, and it keeps its port. -/
def IsCanonized (asio : AddressText) (uri : FaceUri) (resolution : NameResolution cancel) : Prop :=
  match getCanonizeProvider uri.scheme with
  | some .ether => uri ≠ nullUri ∧
      ((Ethernet.Address.fromString uri.host).isNull = false → uri.port = [])
  | some (.ipHost provider) => uri.isCanonical asio = true ∨
      (resolution uri.host (provider.addressSelector uri)).IsTimely ∧
        ∀ outcome ∈ resolution.resolve uri.host (provider.addressSelector uri),
          provider.KeepsPort uri outcome
  | none => False

/-- Parsed URIs are canonized unless their port number is cut to 16 bits, their name resolution goes
on after its timeout, they are Ethernet URIs with a port, or they have the null address. -/
theorem canonizes_iff (hinverse : asio.IsInverse) (hcancel : Dns.Cancels cancel) {text : List Char}
    (hparse : parse text = (true, uri)) (hscheme : canCanonize uri.scheme = true)
    (resolution : NameResolution cancel) :
    Canonizes asio uri resolution.resolve ↔ IsCanonized asio uri resolution := by
  obtain ⟨hdigits, hbrackets⟩ := parse_spec hparse
  obtain ⟨cp, hget⟩ := Option.isSome_iff_exists.mp hscheme
  unfold IsCanonized
  rw [hget]
  obtain rfl | rfl | ⟨rfl, hether⟩ := getCanonizeProvider_cases hget
  · exact IpHostCanonizeProvider.canonizes_iff_isTimely IpHostCanonizeProvider.isLawful_udp
      hinverse hcancel hget hdigits resolution
  · exact IpHostCanonizeProvider.canonizes_iff_isTimely IpHostCanonizeProvider.isLawful_tcp
      hinverse hcancel hget hdigits resolution
  · exact EtherCanonizeProvider.canonizes_iff_hasNoPort hether hbrackets _

/-! ## Addresses in decimal -/

open Dns.Resolver (exampleAddress)

def octetsOf (address : UInt32) : List ℕ :=
  [address.toNat / 2 ^ 24, address.toNat / 2 ^ 16 % 2 ^ 8, address.toNat / 2 ^ 8 % 2 ^ 8,
    address.toNat % 2 ^ 8]

/-- An octet is written without leading zeros. -/
def readOctet (text : List Char) : Option ℕ :=
  let octet := Nat.ofDigitChars 10 text 0
  if Nat.toDigits 10 octet = text ∧ octet < 2 ^ 8 then some octet else none

/-- The dotted decimal form of IPv4 addresses; the form of IPv6 addresses is a single number. -/
def decimalText : AddressText where
  v4ToString address := ['.'].intercalate ((octetsOf address).map (Nat.toDigits 10))
  v4FromString text :=
    match (text.splitOn '.').mapM readOctet with
    | some [first, second, third, fourth] =>
        some (UInt32.ofNat (((first * 2 ^ 8 + second) * 2 ^ 8 + third) * 2 ^ 8 + fourth))
    | _ => none
  v6ToString address scopeId := Nat.toDigits 10 (scopeId * 2 ^ 128 + address.toNat)
  v6FromString text :=
    let number := Nat.ofDigitChars 10 text 0
    some (BitVec.ofNat 128 number, number / 2 ^ 128)

theorem readOctet_toDigits {octet : ℕ} (hlt : octet < 2 ^ 8) :
    readOctet (Nat.toDigits 10 octet) = some octet := by
  rw [readOctet]
  simp only [Nat.ofDigitChars_ten_toDigits, hlt, and_self, if_true]

theorem isInverse_decimalText : decimalText.IsInverse where
  v4 address := by
    have hlt := address.toNat_lt
    have hsplit : (['.'].intercalate ((octetsOf address).map (Nat.toDigits 10))).splitOn '.' =
        (octetsOf address).map (Nat.toDigits 10) := by
      apply List.splitOn_intercalate
      · intro text htext hperiod
        obtain ⟨octet, -, rfl⟩ := List.mem_map.mp htext
        exact absurd (Nat.isDigit_of_mem_toDigits (by decide) (by decide) hperiod) (by decide)
      · simp [octetsOf]
    have hread : ((octetsOf address).map (Nat.toDigits 10)).mapM readOctet =
        some (octetsOf address) := by
      simp only [octetsOf, List.map_cons, List.map_nil, List.mapM_cons, List.mapM_nil,
        readOctet_toDigits (show address.toNat / 2 ^ 24 < 2 ^ 8 by omega),
        readOctet_toDigits (Nat.mod_lt _ (by decide)), Option.bind_eq_bind, Option.bind_some,
        Option.pure_def]
    simp only [decimalText, hsplit, hread]
    simp only [octetsOf, Option.some.injEq]
    rw [← UInt32.toNat_inj, UInt32.toNat_ofNat']
    omega
  v6 address scopeId := by
    have hlt := address.isLt
    simp only [decimalText, Nat.ofDigitChars_ten_toDigits, Option.some.injEq, Prod.mk.injEq]
    refine ⟨?_, by omega⟩
    rw [← BitVec.toNat_inj, BitVec.toNat_ofNat]
    omega

def udpUri (port : List Char) : FaceUri :=
  { empty with
    scheme := "udp".toList
    host := "192.0.2.1".toList
    port := port }

def exampleResolution : NameResolution Dns.Resolver.abortPending :=
  fun _ addressSelector ↦ .found _ addressSelector exampleAddress

/-- Every host has the address of the example, which is found too late. -/
def lateResolution : NameResolution Dns.Resolver.abortPending :=
  fun _ addressSelector ↦ .foundLate addressSelector exampleAddress

theorem canonizes_iff_udp :
    Canonizes decimalText (udpUri "7777".toList) exampleResolution.resolve := by
  have hparse : parse "udp://192.0.2.1:7777".toList = (true, udpUri "7777".toList) := by
    decide +kernel
  refine (canonizes_iff isInverse_decimalText Dns.Resolver.cancels_abortPending hparse
    (by decide +kernel) exampleResolution).mpr (.inr ⟨nofun, fun outcome houtcome ↦ ?_⟩)
  intro address haddress hcheck number hnumber
  have hport : (udpUri "7777".toList).portNumber = some 7777 := by decide +kernel
  obtain rfl : 7777 = number := Option.some.inj (hport ▸ hnumber)
  exact .inl (by decide)

def etherUri (port : List Char) : FaceUri :=
  { empty with
    scheme := "ether".toList
    host := "08:00:27:01:01:01".toList
    isV6 := true
    port := port }

/-- The port 70000 becomes the port 4464, a resolution that goes on after its timeout has two
callbacks, an Ethernet URI loses its port, and the null address is canonical but is not canonized. -/
theorem not_canonizes_udp_70000 :
    (parse "udp://192.0.2.1:70000".toList = (true, udpUri "70000".toList) ∧
      ¬Canonizes decimalText (udpUri "70000".toList) exampleResolution.resolve) ∧
    (parse "udp://192.0.2.1:7777".toList = (true, udpUri "7777".toList) ∧
      ¬Canonizes decimalText (udpUri "7777".toList) lateResolution.resolve) ∧
    (parse "ether://[08:00:27:01:01:01]:80".toList = (true, etherUri "80".toList) ∧
      ¬Canonizes decimalText (etherUri "80".toList) exampleResolution.resolve) ∧
    (parse "ether://[00:00:00:00:00:00]".toList = (true, nullUri) ∧
      ¬Canonizes decimalText nullUri exampleResolution.resolve) := by
  refine ⟨⟨by decide +kernel, fun hcanonizes ↦ ?_⟩, ⟨by decide +kernel, fun hcanonizes ↦ ?_⟩,
    ⟨by decide +kernel, fun hcanonizes ↦ ?_⟩, ⟨by decide +kernel, fun hcanonizes ↦ ?_⟩⟩
  · have hcanonize : (udpUri "70000".toList).canonize decimalText exampleResolution.resolve =
        [.success (ofUdpEndpoint decimalText ⟨exampleAddress, 4464⟩)] := by decide +kernel
    have hport := hcanonizes.port (ofUdpEndpoint decimalText ⟨exampleAddress, 4464⟩)
      (by rw [hcanonize]; exact List.mem_cons_self) 70000 (by decide +kernel)
    exact absurd hport (by decide +kernel)
  · have hcanonize : (udpUri "7777".toList).canonize decimalText lateResolution.resolve =
        [.failure Dns.timedOut,
          .success (ofUdpEndpoint decimalText ⟨exampleAddress, 7777⟩)] := by decide +kernel
    obtain ⟨callback, honce⟩ := hcanonizes.once
    rw [hcanonize] at honce
    cases honce
  · have hcanonize : (etherUri "80".toList).canonize decimalText exampleResolution.resolve =
        [.success (etherUri [])] := by decide +kernel
    have hport := hcanonizes.port (etherUri [])
      (by rw [hcanonize]; exact List.mem_cons_self) 80 (by decide +kernel)
    exact absurd hport (by decide +kernel)
  · have hfixed := hcanonizes.fixed (by decide +kernel)
    have hcanonize : nullUri.canonize decimalText exampleResolution.resolve =
        [.failure "cannot parse address"] := by decide +kernel
    rw [hcanonize] at hfixed
    cases hfixed

end NdnCxx.FaceUri
