import NdnCxx.Name.Component

/-!
# URI text of name components

`Component::toUri` writes a component as printable text. Digest components are printed as lower-case
hexadecimal after a fixed marker; in generic components every byte outside the unreserved set is
percent-escaped in upper case, and a component of periods only gets three more periods.
-/

namespace NdnCxx

namespace Component

def hexDigit (isUpperCase : Bool) (digit : ℕ) : Char :=
  if digit < 10 then Char.ofNat (48 + digit)
  else if isUpperCase then Char.ofNat (55 + digit)
  else Char.ofNat (87 + digit)

def hexByte (isUpperCase : Bool) (byte : UInt8) : List Char :=
  [hexDigit isUpperCase (byte.toNat / 16), hexDigit isUpperCase (byte.toNat % 16)]

def sha256DigestUriPrefix : List Char :=
  ['s', 'h', 'a', '2', '5', '6', 'd', 'i', 'g', 'e', 's', 't', '=']

/-- Digits, letters and `+`, `-`, `.`, `_` are copied through. -/
def isUnescaped (byte : UInt8) : Bool :=
  (0x30 ≤ byte && byte ≤ 0x39) || (0x41 ≤ byte && byte ≤ 0x5a) ||
    (0x61 ≤ byte && byte ≤ 0x7a) || byte == 0x2b || byte == 0x2d || byte == 0x2e || byte == 0x5f

/-- The characters written for one byte of a generic component. -/
def escapeByte (byte : UInt8) : List Char :=
  if isUnescaped byte then [Char.ofNat byte.toNat] else '%' :: hexByte true byte

def toUri (component : Component) : List Char :=
  if component.type == Tlv.implicitSha256DigestComponent then
    sha256DigestUriPrefix ++ component.value.flatMap (hexByte false)
  else if component.value.all (· == 0x2e) then
    ['.', '.', '.'] ++ component.value.map fun _ ↦ '.'
  else
    component.value.flatMap escapeByte

end Component

end NdnCxx
