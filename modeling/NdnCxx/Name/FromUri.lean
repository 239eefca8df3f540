import NdnCxx.Name.Name

/-!
# Names from URI text

`Name::Name(const std::string&)`: the scheme and the authority are dropped, and every component is
trimmed and unescaped. A text is a list of characters, each standing for one byte.
-/

namespace NdnCxx

/-- `std::isspace` in the classic locale -/
def isSpace (char : Char) : Bool :=
  char == ' ' || (9 ≤ char.toNat && char.toNat ≤ 13)

def trim (text : List Char) : List Char :=
  ((text.dropWhile isSpace).reverse.dropWhile isSpace).reverse

/-- `fromHexChar`; `none` is the result -1. -/
def fromHexChar (char : Char) : Option ℕ :=
  if '0' ≤ char ∧ char ≤ '9' then some (char.toNat - '0'.toNat)
  else if 'A' ≤ char ∧ char ≤ 'F' then some (char.toNat - 'A'.toNat + 10)
  else if 'a' ≤ char ∧ char ≤ 'f' then some (char.toNat - 'a'.toNat + 10)
  else none

/-- `unescape`; two characters behind a percent sign that are not hexadecimal are kept. -/
def unescape : List Char → List Char
  | '%' :: high :: low :: rest =>
      match fromHexChar high, fromHexChar low with
      | some hi, some lo => Char.ofNat (hi * 16 + lo) :: unescape rest
      | _, _ => '%' :: high :: low :: unescape rest
  | char :: rest => char :: unescape rest
  | [] => []

def bytesOf (text : List Char) : Bytes := text.map fun char ↦ UInt8.ofNat char.toNat

def fromHex : List Char → Option Bytes
  | [] => some []
  | [_] => none
  | high :: low :: rest => do
      let hi ← fromHexChar high
      let lo ← fromHexChar low
      let bytes ← fromHex rest
      return UInt8.ofNat (hi * 16 + lo) :: bytes

def Component.fromEscapedString (escapedString : List Char) : Except Error Component :=
  let trimmedString := trim escapedString
  if Component.sha256DigestUriPrefix.isPrefixOf trimmedString then
    let digits := trimmedString.drop Component.sha256DigestUriPrefix.length
    if digits.length ≠ Tlv.sha256DigestSize * 2 then
      .error ⟨.component,
        "Cannot convert to ImplicitSha256DigestComponent(expected sha256 in hex encoding)"⟩
    else
      match fromHex digits with
      | some digest => .ok ⟨Tlv.implicitSha256DigestComponent, digest⟩
      | none =>
          .error ⟨.component,
            "Cannot convert to a ImplicitSha256DigestComponent (invalid hex encoding)"⟩
  else
    let value := unescape trimmedString
    if value.all (· == '.') then
      if value.length ≤ 2 then
        .error ⟨.component, "Illegal URI (name component cannot be . or ..)"⟩
      else .ok (Component.generic (bytesOf (value.drop 3)))
    else .ok (Component.generic (bytesOf value))

theorem Component.fromEscapedString_onlyTlvErrors (escapedString : List Char) :
    OnlyTlvErrors (fromEscapedString escapedString) := by
  unfold fromEscapedString
  refine .ite (.ite (.throw rfl) ?_) (.ite (.ite (.throw rfl) (.ok _)) (.ok _))
  split
  · exact .ok _
  · exact .throw rfl

namespace Name

/-- The text behind the scheme: a colon counts if no slash stands before it. -/
def dropScheme (uri : List Char) : List Char :=
  match uri.dropWhile (· ≠ ':') with
  | [] => uri
  | _ :: afterColon =>
      if '/' ∈ uri.takeWhile (· ≠ ':') then uri else trim afterColon

/-- The text behind the leading slash, or behind the authority; `none` is a text that has only an
authority. -/
def dropAuthority : List Char → Option (List Char)
  | '/' :: '/' :: rest =>
      match rest.dropWhile (· ≠ '/') with
      | [] => none
      | _ :: afterAuthority => some (trim afterAuthority)
  | '/' :: rest => some (trim rest)
  | uri => some uri

/-- The texts between slashes; there is no component behind a slash at the end. -/
def splitComponents (uri : List Char) : List (List Char) :=
  let parts := uri.splitOn '/'
  if parts.getLast? = some [] then parts.dropLast else parts

/-- `Name::construct`, which sees the text up to the first null character -/
def fromUri (uriOrig : List Char) : Except Error Name :=
  let uri := trim (uriOrig.takeWhile (· ≠ Char.ofNat 0))
  if uri.isEmpty then .ok []
  else
    match dropAuthority (dropScheme uri) with
    | none => .ok []
    | some rest => (splitComponents rest).mapM Component.fromEscapedString

example : fromUri "ndn:/a/%62/...".toList =
    .ok [Component.generic [97], Component.generic [98], Component.generic []] := by decide

theorem fromUri_onlyTlvErrors (uriOrig : List Char) : OnlyTlvErrors (fromUri uriOrig) := by
  unfold fromUri
  refine .ite (.ok _) ?_
  split
  · exact .ok _
  · exact .mapM Component.fromEscapedString_onlyTlvErrors _

end Name

end NdnCxx
