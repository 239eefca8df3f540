import NdnCxx.Name.UriRoundTrip

/-!
# Ethernet addresses

`ethernet::Address`: six octets, the text that `snprintf` writes for them, and the `sscanf` call that
reads them back. Anything that is not read as an address becomes the null address.
-/

namespace NdnCxx.Ethernet

open Component

def addrLen : ℕ := 6

/-- `Address`, an array of octets -/
structure Address where
  octets : List UInt8
  length_octets : octets.length = addrLen
deriving DecidableEq

/-! ## Items of `sscanf` -/

/-- The item that `%2hx` reads where a text begins with these characters, and whether the second is
part of it. The item may have a sign, and a hexadecimal prefix without a digit is no item. -/
def hexItem (first : Char) (second : Option Char) : Option (ℕ × Bool) :=
  if first = '-' then
    (second.bind fromHexChar).map fun digit ↦ ((0x10000 - digit) % 0x10000, true)
  else if first = '+' then (second.bind fromHexChar).map fun digit ↦ (digit, true)
  else if first = '0' ∧ (second = some 'x' ∨ second = some 'X') then none
  else (fromHexChar first).map fun high ↦
    match second.bind fromHexChar with
    | some low => (high * 16 + low, true)
    | none => (high, false)

/-- `%2hx`; white space in front is skipped. -/
def scanHex (text : List Char) : Option (ℕ × List Char) :=
  match text.dropWhile isSpace with
  | [] => none
  | first :: rest =>
      (hexItem first rest.head?).map fun item ↦ (item.1, if item.2 then rest.tail else rest)

def scanSeparator : List Char → Option (Char × List Char)
  | [] => none
  | char :: rest => if char = ':' ∨ char = '-' then some (char, rest) else none

def scanGroups : ℕ → List Char → Option (List (Char × ℕ) × List Char)
  | 0, text => some ([], text)
  | count + 1, text => do
      let (sep, text) ← scanSeparator text
      let (temp, text) ← scanHex text
      let (groups, text) ← scanGroups count text
      return ((sep, temp) :: groups, text)

namespace Address

def null : Address := ⟨List.replicate addrLen 0, List.length_replicate⟩

def isNull (address : Address) : Bool := address = null

def toString (address : Address) (sep : Char) : List Char :=
  match address.octets with
  | [] => []
  | first :: rest => hexByte false first ++ rest.flatMap fun octet ↦ sep :: hexByte false octet

/-- `fromString`. `sscanf` reads up to the first null character, and the number of characters it has
read must be that of the whole text. -/
def fromString (str : List Char) : Address :=
  let chars := str.takeWhile fun char ↦ char ≠ Char.ofNat 0
  let scanned := do
    let (temp, text) ← scanHex chars
    let (groups, text) ← scanGroups (addrLen - 1) text
    return (temp, groups, text)
  match scanned with
  | none => null
  | some (temp, groups, text) =>
      let temps := temp :: groups.map (·.2)
      let octets := temps.map UInt8.ofNat
      if chars.length - text.length ≠ str.length then null
      else if ∃ group ∈ groups, some group.1 ≠ groups.head?.map (·.1) then null
      else if ∃ temp ∈ temps, 0xff < temp then null
      -- there is always room for exactly the octets that have been read
      else if hlength : octets.length = addrLen then ⟨octets, hlength⟩
      else null

end Address

/-! ## Reading what has been written -/

theorem hexItem_hexDigit (high low : Fin 16) :
    hexItem (hexDigit false high) (some (hexDigit false low)) =
      some (high.val * 16 + low.val, true) := by
  revert high low
  decide +kernel

theorem scanHex_hexByte (octet : UInt8) (text : List Char) :
    scanHex (hexByte false octet ++ text) = some (octet.toNat, text) := by
  obtain ⟨high, low, hdigits, hnumber⟩ := hexByte_eq false octet
  have hspace : isSpace (hexDigit false high) = false := (hexDigit_spec false high).1.2.2.1
  rw [hdigits, List.cons_append, List.cons_append, List.nil_append, scanHex,
    List.dropWhile_cons_of_neg (by simp [hspace])]
  simp only [List.head?_cons, hexItem_hexDigit, Option.map_some, if_true, List.tail_cons, hnumber]

def IsSeparator (sep : Char) : Prop := sep = ':' ∨ sep = '-'

variable {sep : Char}

theorem scanGroups_flatMap (hsep : IsSeparator sep) (octets : List UInt8) :
    scanGroups octets.length (octets.flatMap fun octet ↦ sep :: hexByte false octet) =
      some (octets.map fun octet ↦ (sep, octet.toNat), []) := by
  induction octets with
  | nil => rfl
  | cons octet octets ih =>
    have hseparator (text : List Char) : scanSeparator (sep :: text) = some (sep, text) :=
      if_pos hsep
    rw [List.length_cons, List.flatMap_cons, List.cons_append, scanGroups, hseparator]
    simp only [Option.bind_eq_bind, Option.bind_some, scanHex_hexByte, ih, Option.pure_def,
      List.map_cons]

theorem ne_null_of_mem_hexByte {octet : UInt8} {char : Char} (hchar : char ∈ hexByte false octet) :
    char ≠ Char.ofNat 0 := by
  obtain ⟨high, low, hdigits, -⟩ := hexByte_eq false octet
  rw [hdigits, List.mem_cons, List.mem_singleton] at hchar
  obtain rfl | rfl := hchar
  · exact (hexDigit_spec false high).1.2.2.2
  · exact (hexDigit_spec false low).1.2.2.2

namespace Address

/-- The text of an address begins with its first octet. -/
theorem exists_toString_eq (address : Address) (sep : Char) : ∃ first rest,
    address.octets = first :: rest ∧ rest.length = addrLen - 1 ∧ address.toString sep =
      hexByte false first ++ rest.flatMap fun octet ↦ sep :: hexByte false octet := by
  obtain ⟨octets, hlength⟩ := address
  cases octets with
  | nil => cases hlength
  | cons first rest => exact ⟨first, rest, rfl, by rw [← hlength]; rfl, rfl⟩

theorem ne_null_of_mem_toString {address : Address} {char : Char} (hsep : IsSeparator sep)
    (hchar : char ∈ address.toString sep) : char ≠ Char.ofNat 0 := by
  obtain ⟨first, rest, -, -, htext⟩ := exists_toString_eq address sep
  rw [htext, List.mem_append, List.mem_flatMap] at hchar
  obtain hfirst | ⟨octet, -, hoctet⟩ := hchar
  · exact ne_null_of_mem_hexByte hfirst
  · obtain rfl | hdigit := List.mem_cons.mp hoctet
    · obtain rfl | rfl := hsep <;> decide
    · exact ne_null_of_mem_hexByte hdigit

theorem sep_mem_toString (address : Address) (sep : Char) : sep ∈ address.toString sep := by
  obtain ⟨first, rest, -, hlength, htext⟩ := exists_toString_eq address sep
  obtain ⟨second, rest, rfl⟩ := List.exists_cons_of_length_eq_add_one hlength
  rw [htext, List.flatMap_cons]
  exact List.mem_append_right _ (List.mem_append_left _ List.mem_cons_self)

/-- An address is read back from its text. -/
theorem fromString_toString (address : Address) (hsep : IsSeparator sep) :
    fromString (address.toString sep) = address := by
  obtain ⟨first, rest, hoctets, hlength, htext⟩ := exists_toString_eq address sep
  have hchars : (address.toString sep).takeWhile (fun char ↦ char ≠ Char.ofNat 0) =
      address.toString sep :=
    List.takeWhile_eq_self_iff.mpr fun char hchar ↦
      decide_eq_true (ne_null_of_mem_toString hsep hchar)
  have hgroups := scanGroups_flatMap hsep rest
  rw [hlength] at hgroups
  have hsame : ¬∃ group ∈ rest.map (fun octet : UInt8 ↦ (sep, octet.toNat)),
      some group.1 ≠ (rest.map fun octet : UInt8 ↦ (sep, octet.toNat)).head?.map (·.1) := by
    cases rest <;> simp
  have hvalues : first.toNat :: (rest.map fun octet ↦ (sep, octet.toNat)).map (·.2) =
      address.octets.map UInt8.toNat := by
    rw [hoctets, List.map_map, List.map_cons]
    rfl
  have hsmall : ¬∃ temp ∈ address.octets.map UInt8.toNat, 0xff < temp := by
    rintro ⟨temp, htemp, hlarge⟩
    obtain ⟨octet, -, rfl⟩ := List.mem_map.mp htemp
    have hlt := octet.toNat_lt
    omega
  have hback : (address.octets.map UInt8.toNat).map UInt8.ofNat = address.octets := by
    rw [List.map_map]
    exact List.map_id'' (fun octet ↦ UInt8.ofNat_toNat) _
  rw [fromString]
  simp only [hchars]
  rw [htext, scanHex_hexByte]
  simp only [Option.bind_eq_bind, Option.bind_some, hgroups, Option.pure_def, hvalues, hback,
    List.length_nil, Nat.sub_zero, ne_eq, not_true_eq_false, if_false]
  rw [if_neg hsame, if_neg hsmall, dif_pos address.length_octets]

end Address

end NdnCxx.Ethernet
