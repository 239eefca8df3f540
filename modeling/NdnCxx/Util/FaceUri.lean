import NdnCxx.Foundation.TextPattern
import NdnCxx.Util.Dns
import NdnCxx.Util.EthernetAddress

/-!
# Face URIs

`FaceUri`: the expressions that `parse` matches against a text, and the constructors for endpoints
and Ethernet addresses. An authority in brackets that could be an Ethernet address is matched as an
IPv6 address, which is tried first.
-/

namespace NdnCxx

/-- `FaceUri` -/
structure FaceUri where
  scheme : List Char
  host : List Char
  isV6 : Bool
  port : List Char
  path : List Char
deriving DecidableEq

/-- What Boost.Asio writes for an address and reads from a text. -/
structure AddressText where
  v4ToString : UInt32 → List Char
  v4FromString : List Char → Option UInt32
  v6ToString : BitVec 128 → ℕ → List Char
  v6FromString : List Char → Option (BitVec 128 × ℕ)

/-- An address is read back from the text that is written for it. -/
structure AddressText.IsInverse (asio : AddressText) : Prop where
  v4 : ∀ address, asio.v4FromString (asio.v4ToString address) = some address
  v6 : ∀ address scopeId,
    asio.v6FromString (asio.v6ToString address scopeId) = some (address, scopeId)

def IpAddress.toString (asio : AddressText) : IpAddress → List Char
  | v4 address => asio.v4ToString address
  | v6 address scopeId => asio.v6ToString address scopeId

/-- `endpoint` of UDP and of TCP -/
structure Endpoint where
  address : IpAddress
  port : UInt16

namespace FaceUri

open TextPattern

/-! ## Expressions -/

/-- `\w` -/
def isWord (char : Char) : Bool := char.isAlphanum || char = '_'

def isHex (char : Char) : Bool :=
  ('a' ≤ char && char ≤ 'f') || ('A' ≤ char && char ≤ 'F') || char.isDigit

/-- `[a-fA-F0-9:]` -/
def isHexOrColon (char : Char) : Bool := isHex char || char = ':'

def protocolExp : TextPattern.Pattern Char := .inOrder
  [.group 1 (.inOrder [.some isWord, .optional (.one Char.isDigit)]),
    .literal [':', '/', '/'], .group 2 (.many fun char ↦ char ≠ '/'),
    .optional (.group 3 (.inOrder [.literal ['/'], .many fun char ↦ char ≠ '?']))]

def portExp : TextPattern.Pattern Char :=
  .optional (.inOrder [.literal [':'], .group 2 (.some Char.isDigit)])

def v6Exp : TextPattern.Pattern Char := .inOrder
  [.literal ['['], .group 1 (.some isHexOrColon), .literal [']'], portExp]

def octetExp : TextPattern.Pattern Char := .inOrder [.one isHex, .optional (.one isHex)]

def etherExp : TextPattern.Pattern Char := .inOrder
  [.literal ['['],
    .group 1 (.inOrder [.repeated 5 (.inOrder [octetExp, .literal [':']]), octetExp]),
    .literal [']']]

/-- `^\[::ffff:(\d+(?:\.\d+){3})\](?:\:(\d+))?$` -/
def v4MappedV6Exp : TextPattern.Pattern Char := .inOrder
  [.literal ['[', ':', ':', 'f', 'f', 'f', 'f', ':'],
    .group 1 (.inOrder [.some Char.isDigit,
      .repeated 3 (.inOrder [.literal ['.'], .some Char.isDigit])]),
    .literal [']'], portExp]

def v4HostExp : TextPattern.Pattern Char :=
  .inOrder [.group 1 (.some fun char ↦ char ≠ ':'), portExp]

/-! ## Parsing -/

def empty : FaceUri :=
  { scheme := []
    host := []
    isV6 := false
    port := []
    path := [] }

/-- The first expression that an authority matches, and whether it is the one for IPv6. -/
def matchAuthority (authority : List Char) : Option (Bool × Groups Char) :=
  match v6Exp.fullMatch authority with
  | some groups => some (true, groups)
  | none =>
      ((etherExp.fullMatch authority).or
        ((v4MappedV6Exp.fullMatch authority).or (v4HostExp.fullMatch authority))).map fun groups ↦
          (false, groups)

/-- `parse`, with what it returns -/
def parse (uri : List Char) : Bool × FaceUri :=
  match protocolExp.fullMatch uri with
  | none => (false, empty)
  | some protocolMatch =>
      let parsed := { empty with scheme := protocolMatch.get 1, path := protocolMatch.get 3 }
      let authority := protocolMatch.get 2
      if authority.isEmpty then (true, parsed)
      else match matchAuthority authority with
        | some (isV6, groups) =>
            (true, { parsed with isV6 := isV6, host := groups.get 1, port := groups.get 2 })
        | none => (false, parsed)

/-- The number that a port stands for, where there is one. -/
def portNumber (uri : FaceUri) : Option ℕ :=
  if uri.port = [] then none else some (Nat.ofDigitChars 10 uri.port 0)

/-! ## Construction -/

/-- `FaceUri(const boost::asio::ip::udp::endpoint&)` -/
def ofUdpEndpoint (asio : AddressText) (endpoint : Endpoint) : FaceUri :=
  { empty with
    isV6 := endpoint.address.isV6
    scheme := if endpoint.address.isV6 then ['u', 'd', 'p', '6'] else ['u', 'd', 'p', '4']
    host := endpoint.address.toString asio
    port := Nat.toDigits 10 endpoint.port.toNat }

/-- `FaceUri(const boost::asio::ip::tcp::endpoint&)` -/
def ofTcpEndpoint (asio : AddressText) (endpoint : Endpoint) : FaceUri :=
  { empty with
    isV6 := endpoint.address.isV6
    scheme := if endpoint.address.isV6 then ['t', 'c', 'p', '6'] else ['t', 'c', 'p', '4']
    host := endpoint.address.toString asio
    port := Nat.toDigits 10 endpoint.port.toNat }

def ofEthernetAddress (address : Ethernet.Address) : FaceUri :=
  { empty with
    isV6 := true
    scheme := ['e', 't', 'h', 'e', 'r']
    host := address.toString ':' }

/-! ## What parsing promises -/

def IsHostAndPort (isHost : List Char → Prop) (groups : Groups Char) : Prop :=
  isHost (groups.get 1) ∧ ∀ char ∈ groups.get 2, char.isDigit = true

/-- The groups behind a host: nothing but a port is captured. -/
def CapturesPort (after : List (TextPattern.Pattern Char)) : Prop :=
  ∀ text groups, (TextPattern.Pattern.inOrder after).Matches text groups →
    ∀ char ∈ groups.get 2, char.isDigit = true

variable {groups : Groups Char} {text : List Char} {after : List (TextPattern.Pattern Char)}

theorem isDigit_of_portExp (hport : portExp.Matches text groups) :
    ∀ char ∈ groups.get 2, char.isDigit = true := by
  obtain hsome | ⟨-, rfl⟩ := hport
  · obtain ⟨colon, port, colonGroups, portGroups, hcolon, hport, -, rfl⟩ := hsome
    obtain ⟨-, rfl⟩ := TextPattern.Pattern.matches_literal.mp hcolon
    obtain ⟨digits, _, _, _, hdigits, ⟨-, rfl⟩, -, rfl⟩ := hport
    obtain ⟨inner, hinner, rfl⟩ := hdigits
    obtain ⟨-, hall, rfl⟩ := TextPattern.Pattern.matches_some.mp hinner
    exact hall
  · nofun

theorem capturesPort_portExp : CapturesPort [portExp] := by
  intro text groups hmatches
  obtain ⟨_, _, portGroups, _, hport, ⟨-, rfl⟩, -, rfl⟩ :=
    TextPattern.Pattern.matches_inOrder_cons.mp hmatches
  rw [List.append_nil]
  exact isDigit_of_portExp hport

theorem CapturesPort.literal (hafter : CapturesPort after) (text : List Char) :
    CapturesPort (.literal text :: after) := by
  intro whole groups hmatches
  obtain ⟨_, _, _, _, hliteral, hrest, -, rfl⟩ :=
    TextPattern.Pattern.matches_inOrder_cons.mp hmatches
  obtain ⟨-, rfl⟩ := TextPattern.Pattern.matches_literal.mp hliteral
  exact hafter _ _ hrest

variable {host : TextPattern.Pattern Char} {isHost : List Char → Prop}

/-- A host that captures nothing itself, with what is behind it -/
theorem isHostAndPort_of_group
    (hhost : ∀ text groups, host.Matches text groups → isHost text ∧ groups = [])
    (hafter : CapturesPort after)
    (hmatches : (TextPattern.Pattern.inOrder (.group 1 host :: after)).Matches text groups) :
    IsHostAndPort isHost groups := by
  obtain ⟨name, back, _, backGroups, ⟨inner, hinner, rfl⟩, hback, -, rfl⟩ :=
    TextPattern.Pattern.matches_inOrder_cons.mp hmatches
  obtain ⟨hname, rfl⟩ := hhost _ _ hinner
  have hport : ∀ char ∈ backGroups.get 2, char.isDigit = true := hafter _ _ hback
  exact ⟨hname, hport⟩

/-- The same behind a bracket and whatever else the expression asks for in front of the host -/
theorem isHostAndPort_of_literal {before : List Char}
    (hhost : ∀ text groups, host.Matches text groups → isHost text ∧ groups = [])
    (hafter : CapturesPort after) (hmatches :
      (TextPattern.Pattern.inOrder (.literal before :: .group 1 host :: after)).Matches text
      groups) : IsHostAndPort isHost groups := by
  obtain ⟨_, _, _, _, hliteral, hrest, -, rfl⟩ :=
    TextPattern.Pattern.matches_inOrder_cons.mp hmatches
  obtain ⟨-, rfl⟩ := TextPattern.Pattern.matches_literal.mp hliteral
  exact isHostAndPort_of_group hhost hafter hrest

theorem isHostAndPort_v6Exp (hmatches : v6Exp.Matches text groups) :
    IsHostAndPort (fun _ ↦ True) groups := by
  refine isHostAndPort_of_literal (fun host inner hinner ↦ ?_) (capturesPort_portExp.literal _)
    hmatches
  obtain ⟨-, -, hnone⟩ := TextPattern.Pattern.matches_some.mp hinner
  exact ⟨trivial, hnone⟩

theorem isHostAndPort_v4HostExp (hmatches : v4HostExp.Matches text groups) :
    IsHostAndPort (':' ∉ ·) groups := by
  refine isHostAndPort_of_group (fun host inner hinner ↦ ?_) capturesPort_portExp hmatches
  obtain ⟨-, hall, hnone⟩ := TextPattern.Pattern.matches_some.mp hinner
  exact ⟨fun hcolon ↦ of_decide_eq_true (hall ':' hcolon) rfl, hnone⟩

def isDigitOrPeriod (char : Char) : Bool := char.isDigit || char = '.'

theorem isHostAndPort_v4MappedV6Exp (hmatches : v4MappedV6Exp.Matches text groups) :
    IsHostAndPort (':' ∉ ·) groups := by
  have hdigits (text : List Char) (groups : Groups Char)
      (hdigits : (TextPattern.Pattern.some Char.isDigit).Matches text groups) :
      (∀ char ∈ text, isDigitOrPeriod char = true) ∧ groups = [] := by
    obtain ⟨-, hall, hnone⟩ := TextPattern.Pattern.matches_some.mp hdigits
    exact ⟨fun char hchar ↦ Bool.or_eq_true_iff.mpr (.inl (hall char hchar)), hnone⟩
  have hgroup (text : List Char) (groups : Groups Char)
      (hgroup : (TextPattern.Pattern.inOrder [.literal ['.'], .some Char.isDigit]).Matches text
        groups) :
      (∀ char ∈ text, isDigitOrPeriod char = true) ∧ groups = [] := by
    obtain ⟨_, _, _, _, hperiod, ⟨number, _, _, _, hnumber, ⟨rfl, rfl⟩, rfl, rfl⟩, rfl, rfl⟩ :=
      hgroup
    obtain ⟨rfl, rfl⟩ := TextPattern.Pattern.matches_literal.mp hperiod
    obtain ⟨hall, rfl⟩ := hdigits _ _ hnumber
    refine ⟨fun char hchar ↦ ?_, rfl⟩
    obtain rfl | hchar := List.mem_cons.mp hchar
    · rfl
    · exact hall char (by simpa using hchar)
  refine isHostAndPort_of_literal (fun host inner hinner ↦ ?_) (capturesPort_portExp.literal _)
    hmatches
  obtain ⟨first, _, _, _, hfirst, ⟨others, _, _, _, hothers, ⟨rfl, rfl⟩, rfl, rfl⟩, rfl, rfl⟩ :=
    hinner
  obtain ⟨hfirstAll, rfl⟩ := hdigits _ _ hfirst
  obtain ⟨hothersAll, rfl⟩ := TextPattern.Pattern.forall_mem_of_matches_repeated hgroup hothers
  refine ⟨fun hcolon ↦ ?_, rfl⟩
  rw [List.append_nil, List.mem_append] at hcolon
  have hall : isDigitOrPeriod ':' = true := hcolon.elim (hfirstAll ':') (hothersAll ':')
  exact absurd hall (by decide)

/-! ## Ethernet addresses in brackets -/

theorem matches_v6Exp {host : List Char} (hne : host ≠ [])
    (hhost : ∀ char ∈ host, isHexOrColon char = true) :
    v6Exp.Matches (['['] ++ (host ++ [']'])) [(1, host)] := by
  have hport : (TextPattern.Pattern.inOrder [portExp]).Matches [] [] :=
    TextPattern.Pattern.matches_inOrder_cons.mpr
      ⟨[], [], [], [], .inr ⟨rfl, rfl⟩, ⟨rfl, rfl⟩, rfl, rfl⟩
  have hclose : (TextPattern.Pattern.inOrder [.literal [']'], portExp]).Matches [']'] [] :=
    TextPattern.Pattern.matches_inOrder_cons.mpr
      ⟨[']'], [], [], [], TextPattern.Pattern.matches_literal.mpr ⟨rfl, rfl⟩, hport, rfl, rfl⟩
  have hgroup : (TextPattern.Pattern.group 1 (.some isHexOrColon)).Matches host [(1, host)] :=
    ⟨[], TextPattern.Pattern.matches_some.mpr ⟨hne, hhost, rfl⟩, rfl⟩
  exact TextPattern.Pattern.matches_inOrder_cons.mpr
    ⟨['['], _, [], [(1, host)], TextPattern.Pattern.matches_literal.mpr ⟨rfl, rfl⟩,
      TextPattern.Pattern.matches_inOrder_cons.mpr
        ⟨host, [']'], [(1, host)], [], hgroup, hclose, rfl, rfl⟩,
      rfl, rfl⟩

theorem isHexOrColon_of_octetExp (hmatches : octetExp.Matches text groups) :
    (text ≠ [] ∧ ∀ char ∈ text, isHexOrColon char = true) ∧ groups = [] := by
  have hhex {char : Char} (hchar : isHex char = true) : isHexOrColon char = true :=
    Bool.or_eq_true_iff.mpr (.inl hchar)
  obtain ⟨_, _, _, _, ⟨⟨high, hhigh, rfl⟩, rfl⟩,
    ⟨_, _, _, _, hlow, ⟨rfl, rfl⟩, rfl, rfl⟩, rfl, rfl⟩ := hmatches
  obtain ⟨⟨low, hlow, rfl⟩, rfl⟩ | ⟨rfl, rfl⟩ := hlow
  · exact ⟨⟨nofun, by simp [hhex hhigh, hhex hlow]⟩, rfl⟩
  · exact ⟨⟨nofun, by simp [hhex hhigh]⟩, rfl⟩

theorem isHexOrColon_of_octetColon
    (hmatches : (TextPattern.Pattern.inOrder [octetExp, .literal [':']]).Matches text groups) :
    (∀ char ∈ text, isHexOrColon char = true) ∧ groups = [] := by
  obtain ⟨octet, _, _, _, hfirst, ⟨_, _, _, _, hcolon, ⟨rfl, rfl⟩, rfl, rfl⟩, rfl, rfl⟩ := hmatches
  obtain ⟨rfl, rfl⟩ := TextPattern.Pattern.matches_literal.mp hcolon
  obtain ⟨⟨-, hall⟩, rfl⟩ := isHexOrColon_of_octetExp hfirst
  refine ⟨fun char hchar ↦ ?_, rfl⟩
  obtain hchar | hchar := List.mem_append.mp hchar
  · exact hall char hchar
  · obtain rfl : char = ':' := by simpa using hchar
    rfl

/-- Where the expression for Ethernet matches, the one for IPv6 has matched before. -/
theorem fullMatch_v6Exp_ne_none (hmatches : etherExp.Matches text groups) :
    v6Exp.fullMatch text ≠ none := by
  obtain ⟨_, _, _, _, hopen, ⟨host, _, _, _, ⟨inner, hinner, rfl⟩,
    ⟨_, _, _, _, hclose, ⟨rfl, rfl⟩, rfl, rfl⟩, rfl, rfl⟩, rfl, rfl⟩ := hmatches
  obtain ⟨rfl, rfl⟩ := TextPattern.Pattern.matches_literal.mp hopen
  obtain ⟨rfl, rfl⟩ := TextPattern.Pattern.matches_literal.mp hclose
  obtain ⟨five, _, _, _, hfive, ⟨last, _, _, _, hlast, ⟨rfl, rfl⟩, rfl, rfl⟩, rfl, rfl⟩ := hinner
  obtain ⟨hfiveAll, rfl⟩ := TextPattern.Pattern.forall_mem_of_matches_repeated
    (fun _ _ ↦ isHexOrColon_of_octetColon) hfive
  obtain ⟨⟨hne, hlastAll⟩, rfl⟩ := isHexOrColon_of_octetExp hlast
  refine TextPattern.Pattern.fullMatch_ne_none_of_matches
    (matches_v6Exp (by simp [hne]) fun char hchar ↦ ?_)
  rw [List.append_nil] at hchar
  exact (List.mem_append.mp hchar).elim (hfiveAll char) (hlastAll char)

/-! ## Parsed URIs -/

theorem matchAuthority_spec {authority : List Char} {isV6 : Bool}
    (hmatch : matchAuthority authority = some (isV6, groups)) :
    IsHostAndPort (fun host ↦ ':' ∈ host → isV6 = true) groups := by
  unfold matchAuthority at hmatch
  split at hmatch
  case h_1 found hv6 =>
    obtain ⟨rfl, rfl⟩ := Prod.mk.inj (Option.some.inj hmatch)
    exact ⟨fun _ ↦ rfl, (isHostAndPort_v6Exp (TextPattern.Pattern.matches_of_fullMatch hv6)).2⟩
  case h_2 hv6 =>
    obtain ⟨found, hfound, hpair⟩ := Option.map_eq_some_iff.mp hmatch
    obtain ⟨rfl, rfl⟩ := Prod.mk.inj hpair
    rw [Option.or_eq_some_iff, Option.or_eq_some_iff] at hfound
    obtain hether | ⟨-, hv4Mapped | ⟨-, hv4Host⟩⟩ := hfound
    · exact absurd hv6 (fullMatch_v6Exp_ne_none (TextPattern.Pattern.matches_of_fullMatch hether))
    · obtain ⟨hhost, hport⟩ :=
        isHostAndPort_v4MappedV6Exp (TextPattern.Pattern.matches_of_fullMatch hv4Mapped)
      exact ⟨fun hcolon ↦ absurd hcolon hhost, hport⟩
    · obtain ⟨hhost, hport⟩ :=
        isHostAndPort_v4HostExp (TextPattern.Pattern.matches_of_fullMatch hv4Host)
      exact ⟨fun hcolon ↦ absurd hcolon hhost, hport⟩

/-- A parsed URI has a port of digits, and a host with a colon was in brackets. -/
theorem parse_spec {uri : FaceUri} (hparse : parse text = (true, uri)) :
    (∀ char ∈ uri.port, char.isDigit = true) ∧ (':' ∈ uri.host → uri.isV6 = true) := by
  unfold parse at hparse
  split at hparse
  · cases hparse
  · dsimp only at hparse
    split_ifs at hparse
    · obtain rfl := (Prod.mk.inj hparse).2
      exact ⟨nofun, nofun⟩
    · split at hparse
      case h_1 isV6 groups hmatch =>
        obtain rfl := (Prod.mk.inj hparse).2
        obtain ⟨hhost, hport⟩ := matchAuthority_spec hmatch
        exact ⟨hport, hhost⟩
      case h_2 => cases hparse

end FaceUri

end NdnCxx
