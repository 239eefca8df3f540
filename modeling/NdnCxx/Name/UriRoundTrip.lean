import Mathlib.Data.List.TakeWhile
import NdnCxx.Name.FromUri

/-!
# Names that are written and read as URI text

Escaping is undone for every byte string. The characters that a component is written with are
neither slashes, colons, white space nor the null character, so the splitter cuts the text where
`toUri` has joined it, and neither trimming nor the search for a scheme changes anything. A component
is never written as an empty text, so a slash at the end or two slashes at the beginning do not
occur either.
-/

namespace NdnCxx

namespace Component

def IsUriChar (char : Char) : Prop :=
  char ≠ '/' ∧ char ≠ ':' ∧ isSpace char = false ∧ char ≠ Char.ofNat 0

instance (char : Char) : Decidable (IsUriChar char) :=
  inferInstanceAs (Decidable (_ ∧ _ ∧ _ ∧ _))

/-! ## Hexadecimal digits -/

theorem hexDigit_spec (isUpperCase : Bool) (digit : Fin 16) :
    IsUriChar (hexDigit isUpperCase digit) ∧ hexDigit isUpperCase digit ≠ '=' ∧
      fromHexChar (hexDigit isUpperCase digit) = some digit.val := by
  revert isUpperCase digit
  decide

theorem hexByte_eq (isUpperCase : Bool) (byte : UInt8) :
    ∃ high low : Fin 16, hexByte isUpperCase byte =
      [hexDigit isUpperCase high, hexDigit isUpperCase low] ∧
        high.val * 16 + low.val = byte.toNat := by
  have hlt := byte.toNat_lt
  exact ⟨⟨byte.toNat / 16, by omega⟩, ⟨byte.toNat % 16, by omega⟩, rfl, by simp only; omega⟩

theorem fromHex_flatMap_hexByte (isUpperCase : Bool) (value : Bytes) :
    fromHex (value.flatMap (hexByte isUpperCase)) = some value := by
  induction value with
  | nil => rfl
  | cons byte value ih =>
    obtain ⟨high, low, hdigits, hnumber⟩ := hexByte_eq isUpperCase byte
    rw [List.flatMap_cons, hdigits, List.cons_append, List.cons_append, List.nil_append, fromHex,
      (hexDigit_spec isUpperCase high).2.2, (hexDigit_spec isUpperCase low).2.2, ih]
    simp only [Option.bind_eq_bind, Option.bind_some, hnumber, UInt8.ofNat_toNat, Option.pure_def]

/-! ## Escaped bytes -/

set_option maxRecDepth 4000 in
theorem isUnescaped_spec {byte : UInt8} (hunescaped : isUnescaped byte = true) :
    IsUriChar (Char.ofNat byte.toNat) ∧ Char.ofNat byte.toNat ≠ '=' ∧
      Char.ofNat byte.toNat ≠ '%' := by
  have hall : ∀ number : Fin 256, isUnescaped (UInt8.ofNat number) = true →
      IsUriChar (Char.ofNat number) ∧ Char.ofNat number ≠ '=' ∧ Char.ofNat number ≠ '%' := by
    decide
  have hnumber : UInt8.ofNat byte.toNat = byte := UInt8.ofNat_toNat
  exact hall ⟨byte.toNat, byte.toNat_lt⟩ (by rw [hnumber]; exact hunescaped)

theorem escapeByte_spec (byte : UInt8) :
    ∀ char ∈ escapeByte byte, IsUriChar char ∧ char ≠ '=' := by
  intro char hmem
  unfold escapeByte at hmem
  split_ifs at hmem with hunescaped
  · obtain rfl := List.mem_singleton.mp hmem
    obtain ⟨huri, hequals, -⟩ := isUnescaped_spec hunescaped
    exact ⟨huri, hequals⟩
  · obtain ⟨high, low, hdigits, -⟩ := hexByte_eq true byte
    simp only [hdigits, List.mem_cons, List.not_mem_nil, or_false] at hmem
    rcases hmem with rfl | rfl | rfl
    · decide
    · exact ⟨(hexDigit_spec true high).1, (hexDigit_spec true high).2.1⟩
    · exact ⟨(hexDigit_spec true low).1, (hexDigit_spec true low).2.1⟩

theorem unescape_cons_of_ne {char : Char} (hne : char ≠ '%') (rest : List Char) :
    unescape (char :: rest) = char :: unescape rest := by
  rw [unescape]
  rintro high low rest rfl
  exact absurd rfl hne

theorem unescape_escapeByte_append (byte : UInt8) (rest : List Char) :
    unescape (escapeByte byte ++ rest) = Char.ofNat byte.toNat :: unescape rest := by
  unfold escapeByte
  split_ifs with hunescaped
  · exact unescape_cons_of_ne (isUnescaped_spec hunescaped).2.2 rest
  · obtain ⟨high, low, hdigits, hnumber⟩ := hexByte_eq true byte
    rw [hdigits, List.cons_append, List.cons_append, List.cons_append, List.nil_append, unescape,
      (hexDigit_spec true high).2.2, (hexDigit_spec true low).2.2]
    simp only [hnumber]

theorem unescape_flatMap_escapeByte (value : Bytes) :
    unescape (value.flatMap escapeByte) = value.map fun byte ↦ Char.ofNat byte.toNat := by
  induction value with
  | nil => simp [unescape]
  | cons byte value ih => rw [List.flatMap_cons, unescape_escapeByte_append, ih, List.map_cons]

theorem toNat_charOfByte (byte : UInt8) : (Char.ofNat byte.toNat).toNat = byte.toNat := by
  have hvalid : byte.toNat.isValidChar := Or.inl (by have hlt := byte.toNat_lt; omega)
  rw [Char.ofNat, dif_pos hvalid]
  rfl

theorem bytesOf_map_charOfByte (value : Bytes) :
    bytesOf (value.map fun byte ↦ Char.ofNat byte.toNat) = value := by
  rw [bytesOf, List.map_map]
  apply List.map_id''
  intro byte
  simp only [Function.comp, toNat_charOfByte, UInt8.ofNat_toNat]

/-! ## Components -/

/-- The characters that a component may be written with. -/
theorem forall_mem_toUri {Property : Char → Prop}
    (hfixed : ∀ char ∈ ['%', '.'] ++ sha256DigestUriPrefix, Property char)
    (hdigit : ∀ isUpperCase digit, digit < 16 → Property (hexDigit isUpperCase digit))
    (hunescaped : ∀ byte, isUnescaped byte = true → Property (Char.ofNat byte.toNat))
    (component : Component) : ∀ char ∈ component.toUri, Property char := by
  have hbyte : ∀ isUpperCase byte, ∀ char ∈ hexByte isUpperCase byte, Property char := by
    intro isUpperCase byte char hmem
    obtain ⟨high, low, hdigits, -⟩ := hexByte_eq isUpperCase byte
    simp only [hdigits, List.mem_cons, List.not_mem_nil, or_false] at hmem
    rcases hmem with rfl | rfl
    · exact hdigit isUpperCase high high.isLt
    · exact hdigit isUpperCase low low.isLt
  intro char hmem
  unfold toUri at hmem
  split_ifs at hmem with hdigest hperiods
  · rcases List.mem_append.mp hmem with hmem | hmem
    · exact hfixed char (List.mem_append_right _ hmem)
    · obtain ⟨byte, -, hchar⟩ := List.mem_flatMap.mp hmem
      exact hbyte false byte char hchar
  · have hperiod : char = '.' := by
      simp only [List.cons_append, List.nil_append, List.mem_cons, List.mem_map] at hmem
      rcases hmem with rfl | rfl | rfl | ⟨byte, -, rfl⟩ <;> rfl
    exact hperiod ▸ hfixed '.' (by simp)
  · obtain ⟨byte, -, hchar⟩ := List.mem_flatMap.mp hmem
    unfold escapeByte at hchar
    split_ifs at hchar with hplain
    · obtain rfl := List.mem_singleton.mp hchar
      exact hunescaped byte hplain
    · rcases List.mem_cons.mp hchar with rfl | hchar
      · exact hfixed '%' (by simp)
      · exact hbyte true byte char hchar

/-- The text of a component is not empty and has only characters of URIs. -/
theorem toUri_spec (component : Component) :
    component.toUri ≠ [] ∧ ∀ char ∈ component.toUri, IsUriChar char := by
  refine ⟨?_, forall_mem_toUri (List.forall_iff_forall_mem.mp (by decide)) ?_ ?_ component⟩
  · unfold toUri
    split_ifs with hdigest hperiods
    · simp [sha256DigestUriPrefix]
    · simp
    · intro hnil
      apply hperiods
      rw [List.flatMap_eq_nil_iff] at hnil
      rw [List.all_eq_true]
      intro byte hbyte
      have hescaped := hnil byte hbyte
      unfold escapeByte at hescaped
      split_ifs at hescaped
  · intro isUpperCase digit hdigit
    exact (hexDigit_spec isUpperCase ⟨digit, hdigit⟩).1
  · intro byte hunescaped
    exact (isUnescaped_spec hunescaped).1

end Component

variable {text : List Char}

theorem dropWhile_isSpace_eq (htext : ∀ char ∈ text, isSpace char = false) :
    text.dropWhile isSpace = text := by
  cases text with
  | nil => rfl
  | cons char rest => rw [List.dropWhile_cons_of_neg (by simp [htext char List.mem_cons_self])]

theorem trim_eq (htext : ∀ char ∈ text, isSpace char = false) : trim text = text := by
  have hreverse : ∀ char ∈ text.reverse, isSpace char = false :=
    fun char hmem ↦ htext char (List.mem_reverse.mp hmem)
  rw [trim, dropWhile_isSpace_eq htext, dropWhile_isSpace_eq hreverse, List.reverse_reverse]

variable {component : Component}

namespace Component

theorem trim_toUri (component : Component) : trim component.toUri = component.toUri :=
  trim_eq fun char hmem ↦ ((toUri_spec component).2 char hmem).2.2.1

/-- An escaped text is never taken for a digest, because it has no equals sign. -/
theorem sha256DigestUriPrefix_isPrefixOf_eq_false (htext : '=' ∉ text) :
    sha256DigestUriPrefix.isPrefixOf text = false := by
  by_contra hprefixed
  rw [Bool.not_eq_false, List.isPrefixOf_iff_prefix] at hprefixed
  exact htext (hprefixed.subset (by decide))

theorem all_map_charOfByte (value : Bytes) :
    (value.map fun byte ↦ Char.ofNat byte.toNat).all (· == '.') = value.all (· == 0x2e) := by
  rw [List.all_map]
  congr 1
  funext byte
  have hperiod : Char.ofNat byte.toNat = '.' ↔ byte = 0x2e := by
    constructor
    · intro hchar
      have hnumber := congrArg Char.toNat hchar
      rw [toNat_charOfByte] at hnumber
      exact UInt8.toNat_inj.mp hnumber
    · rintro rfl
      rfl
  simp only [Function.comp]
  rw [Bool.eq_iff_iff]
  simpa using hperiod

theorem fromEscapedString_toUri_of_digest (hdigest : component.isImplicitSha256Digest = true) :
    fromEscapedString component.toUri = .ok component := by
  simp only [isImplicitSha256Digest, Bool.and_eq_true, beq_iff_eq] at hdigest
  obtain ⟨htype, hlength⟩ := hdigest
  have htext : component.toUri =
      sha256DigestUriPrefix ++ component.value.flatMap (hexByte false) := by
    simp [toUri, htype]
  have hdigits : (component.value.flatMap (hexByte false)).length = Tlv.sha256DigestSize * 2 := by
    rw [List.length_flatMap, ← hlength]
    simp [hexByte]
  have hprefixed : sha256DigestUriPrefix.isPrefixOf
      (sha256DigestUriPrefix ++ component.value.flatMap (hexByte false)) = true := by
    rw [List.isPrefixOf_iff_prefix]
    exact List.prefix_append _ _
  simp only [fromEscapedString, trim_toUri]
  rw [htext, if_pos hprefixed, List.drop_left, if_neg (not_not.mpr hdigits),
    fromHex_flatMap_hexByte]
  simp only [Except.ok.injEq]
  rw [← htype]

theorem unescape_replicate_period (count : ℕ) :
    unescape (List.replicate count '.') = List.replicate count '.' := by
  induction count with
  | zero => rfl
  | succ count ih => rw [List.replicate_succ, unescape_cons_of_ne (by decide), ih]

theorem fromEscapedString_toUri_of_generic (hgeneric : component.isGeneric = true) :
    fromEscapedString component.toUri = .ok component := by
  have htype : component.type = Tlv.nameComponent := by simpa [isGeneric] using hgeneric
  have hsame : Component.generic component.value = component := by
    rw [Component.generic, ← htype]
  have hnot : (component.type == Tlv.implicitSha256DigestComponent) = false := by
    rw [htype]
    rfl
  cases hperiods : component.value.all (· == 0x2e) with
  | true =>
    have hvalue : component.value = List.replicate component.value.length 0x2e := by
      apply List.eq_replicate_of_mem
      intro byte hmem
      simpa using List.all_eq_true.mp hperiods byte hmem
    have hread : List.replicate component.value.length (UInt8.ofNat '.'.toNat) = component.value :=
      hvalue.symm
    have htext : component.toUri = List.replicate (component.value.length + 3) '.' := by
      rw [toUri, hnot, if_neg (by simp), if_pos hperiods, List.map_const', Nat.add_comm,
        List.replicate_add]
      rfl
    have hplain : '=' ∉ List.replicate (component.value.length + 3) '.' := by
      intro hmem
      exact absurd (List.eq_of_mem_replicate hmem) (by decide)
    simp only [fromEscapedString, trim_toUri]
    rw [htext, sha256DigestUriPrefix_isPrefixOf_eq_false hplain, if_neg (by simp),
      unescape_replicate_period, if_pos (by simp), if_neg (by simp), List.drop_replicate,
      Nat.add_sub_cancel, bytesOf, List.map_replicate, hread, hsame]
  | false =>
    have htext : component.toUri = component.value.flatMap escapeByte := by
      rw [toUri, hnot, if_neg (by simp), if_neg (by simp [hperiods])]
    have hplain : '=' ∉ component.value.flatMap escapeByte := by
      intro hmem
      obtain ⟨byte, -, hchar⟩ := List.mem_flatMap.mp hmem
      exact (escapeByte_spec byte '=' hchar).2 rfl
    simp only [fromEscapedString, trim_toUri]
    rw [htext, sha256DigestUriPrefix_isPrefixOf_eq_false hplain, if_neg (by simp),
      unescape_flatMap_escapeByte, all_map_charOfByte, hperiods, if_neg (by simp),
      bytesOf_map_charOfByte, hsame]

theorem fromEscapedString_toUri (hvalid : component.IsValid) :
    fromEscapedString component.toUri = .ok component := by
  rcases hvalid with hgeneric | hdigest
  · exact fromEscapedString_toUri_of_generic hgeneric
  · exact fromEscapedString_toUri_of_digest hdigest

theorem length_fromHex {digits : List Char} {bytes : Bytes} (hread : fromHex digits = some bytes) :
    digits.length = bytes.length * 2 := by
  fun_induction fromHex digits generalizing bytes with
  | case1 =>
    obtain rfl := Option.some.inj hread
    rfl
  | case2 => cases hread
  | case3 high low rest ih =>
    simp only [bind, Option.bind_eq_some_iff] at hread
    obtain ⟨hi, -, lo, -, later, hlater, hbytes⟩ := hread
    obtain rfl := Option.some.inj hbytes
    rw [List.length_cons, List.length_cons, List.length_cons, ih hlater]
    omega

theorem isValid_of_fromEscapedString (hread : fromEscapedString text = .ok component) :
    component.IsValid := by
  unfold fromEscapedString at hread
  dsimp only at hread
  split_ifs at hread with hprefix hlength hperiods hfew
  · split at hread
    · rename_i digest hdigest
      obtain rfl := Except.ok.inj hread
      rw [ne_eq, not_not, length_fromHex hdigest] at hlength
      exact .inr (by simpa [isImplicitSha256Digest] using hlength)
    · cases hread
  · obtain rfl := Except.ok.inj hread
    exact .inl rfl
  · obtain rfl := Except.ok.inj hread
    exact .inl rfl

end Component

/-! ## Names -/

namespace Name

/-- The text of a name behind its first slash. -/
theorem flatMap_toUri_eq (component : Component) (name : Name) :
    (component :: name).flatMap (fun component ↦ '/' :: component.toUri) =
      '/' :: ['/'].intercalate ((component :: name).map Component.toUri) := by
  induction name generalizing component with
  | nil => simp
  | cons next name ih =>
    rw [List.flatMap_cons, ih next]
    simp only [List.map_cons, List.intercalate_cons_cons, List.cons_append, List.nil_append,
      List.append_assoc]

variable {name : Name}

theorem splitComponents_intercalate :
    splitComponents (['/'].intercalate ((component :: name).map Component.toUri)) =
      (component :: name).map Component.toUri := by
  have hparts : (['/'].intercalate ((component :: name).map Component.toUri)).splitOn '/' =
      (component :: name).map Component.toUri := by
    apply List.splitOn_intercalate
    · intro text hmem hslash
      obtain ⟨written, -, rfl⟩ := List.mem_map.mp hmem
      exact ((Component.toUri_spec written).2 '/' hslash).1 rfl
    · simp
  have hlast : ((component :: name).map Component.toUri).getLast? ≠ some [] := by
    intro hnil
    obtain ⟨written, -, hempty⟩ := List.mem_map.mp (List.mem_of_getLast? hnil)
    exact (Component.toUri_spec written).1 hempty
  simp only [splitComponents, hparts]
  rw [if_neg hlast]

theorem exists_of_mapM_eq_ok {texts : List (List Char)}
    (hread : texts.mapM Component.fromEscapedString = .ok name) (hmem : component ∈ name) :
    ∃ text ∈ texts, Component.fromEscapedString text = .ok component := by
  induction texts generalizing name with
  | nil =>
    obtain rfl := Except.ok.inj hread
    exact absurd hmem List.not_mem_nil
  | cons text texts ih =>
    rw [List.mapM_cons] at hread
    obtain ⟨first, hfirst, hread⟩ := bind_eq_ok_iff.mp hread
    obtain ⟨rest, hrest, hread⟩ := bind_eq_ok_iff.mp hread
    obtain rfl := Except.ok.inj hread
    rcases List.mem_cons.mp hmem with rfl | hmem
    · exact ⟨text, List.mem_cons_self, hfirst⟩
    · obtain ⟨other, hother, hcomponent⟩ := ih hrest hmem
      exact ⟨other, List.mem_cons_of_mem _ hother, hcomponent⟩

theorem mapM_fromEscapedString (hvalid : ∀ component ∈ name, component.IsValid) :
    (name.map Component.toUri).mapM Component.fromEscapedString = .ok name := by
  induction name with
  | nil => rfl
  | cons component name ih =>
    have hfirst := Component.fromEscapedString_toUri (hvalid component List.mem_cons_self)
    have hrest := ih fun other hmem ↦ hvalid other (List.mem_cons_of_mem _ hmem)
    rw [List.map_cons, List.mapM_cons, hfirst, hrest]
    rfl

/-- No character of a name's text ends the search for the scheme, is trimmed or ends the text. -/
theorem flatMap_toUri_spec (name : Name) :
    ∀ char ∈ name.flatMap (fun component ↦ '/' :: component.toUri),
      char ≠ ':' ∧ isSpace char = false ∧ char ≠ Char.ofNat 0 := by
  intro char hmem
  obtain ⟨component, -, hchar⟩ := List.mem_flatMap.mp hmem
  rcases List.mem_cons.mp hchar with rfl | hchar
  · decide
  · exact ((Component.toUri_spec component).2 char hchar).2

/-- The text behind the first slash does not begin with another one. -/
theorem intercalate_head_ne_slash (component : Component) (name : Name) :
    ∃ char rest, char ≠ '/' ∧
      ['/'].intercalate ((component :: name).map Component.toUri) = char :: rest := by
  obtain ⟨hne, hchars⟩ := Component.toUri_spec component
  obtain ⟨char, text, htext⟩ := List.exists_cons_of_ne_nil hne
  have hslash : char ≠ '/' := (hchars char (by rw [htext]; exact List.mem_cons_self)).1
  cases name with
  | nil => exact ⟨char, text, hslash, by simp [htext]⟩
  | cons next name =>
    refine ⟨char, text ++ ['/'] ++ ['/'].intercalate ((next :: name).map Component.toUri),
      hslash, ?_⟩
    simp only [List.map_cons, List.intercalate_cons_cons, htext, List.cons_append]

theorem fromUri_toUri (name : Name) (hvalid : ∀ component ∈ name, component.IsValid) :
    fromUri name.toUri.toList = .ok name := by
  cases name with
  | nil => decide
  | cons component name =>
    obtain ⟨first, rest, hfirst, hrest⟩ := intercalate_head_ne_slash component name
    have htext : (toUri (component :: name)).toList = '/' :: first :: rest := by
      rw [toUri, String.toList_ofList, if_neg (by simp), flatMap_toUri_eq, hrest]
    have hchars := flatMap_toUri_spec (component :: name)
    rw [flatMap_toUri_eq, hrest] at hchars
    have hwhole : ('/' :: first :: rest).takeWhile (· ≠ Char.ofNat 0) = '/' :: first :: rest := by
      rw [List.takeWhile_eq_self_iff]
      intro char hmem
      simpa using (hchars char hmem).2.2
    have hscheme : dropScheme ('/' :: first :: rest) = '/' :: first :: rest := by
      have hcolon : ('/' :: first :: rest).dropWhile (· ≠ ':') = [] := by
        rw [List.dropWhile_eq_nil_iff]
        intro char hmem
        simpa using (hchars char hmem).1
      rw [dropScheme, hcolon]
    have hauthority : dropAuthority ('/' :: first :: rest) = some (first :: rest) := by
      have htrim : trim (first :: rest) = first :: rest :=
        trim_eq fun char hmem ↦ (hchars char (List.mem_cons_of_mem _ hmem)).2.1
      rw [dropAuthority, htrim]
      intro other hslashes
      exact hfirst (List.cons.inj hslashes).1
    simp only [fromUri]
    rw [htext, hwhole, trim_eq fun char hmem ↦ (hchars char hmem).2.1, if_neg (by simp), hscheme,
      hauthority]
    simp only
    rw [← hrest, splitComponents_intercalate, mapM_fromEscapedString hvalid]

/-- A name read from a text consists of components that can be read back. -/
theorem isValid_of_fromUri {uri : List Char} (hread : fromUri uri = .ok name) :
    ∀ component ∈ name, component.IsValid := by
  unfold fromUri at hread
  dsimp only at hread
  split_ifs at hread
  · obtain rfl := Except.ok.inj hread
    exact fun component hmem ↦ absurd hmem List.not_mem_nil
  · split at hread
    · obtain rfl := Except.ok.inj hread
      exact fun component hmem ↦ absurd hmem List.not_mem_nil
    · intro component hmem
      obtain ⟨text, -, htext⟩ := exists_of_mapM_eq_ok hread hmem
      exact Component.isValid_of_fromEscapedString htext

theorem fromUri_toUri_special :
    fromUri (toUri [Component.generic [], Component.generic [0x2e, 0x2e],
        Component.generic [0x25, 0x80, 0x2f, 0x20],
        ⟨Tlv.implicitSha256DigestComponent, List.replicate 32 0xab⟩]).toList =
      .ok [Component.generic [], Component.generic [0x2e, 0x2e],
        Component.generic [0x25, 0x80, 0x2f, 0x20],
        ⟨Tlv.implicitSha256DigestComponent, List.replicate 32 0xab⟩] :=
  fromUri_toUri _ (by decide)

end Name

end NdnCxx
