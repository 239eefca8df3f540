import Mathlib.Data.List.TakeWhile
import NdnCxx.Regex.Reading

/-!
# Expand strings

`RegexTopMatcher::expand` scans its string through one offset that two loops advance, each with a
check of its own for the end of the string. The scanner never reads behind the terminator of the
string. It takes the items of an expand string for what they are, but for a component text that
ends the string, which it rejects.
-/

namespace NdnCxx

namespace RegexTopMatcher

open RegexMatcher

/-! ## The scanner -/

section Scanner

variable (expand : List Char)

/-- `expand[offset]`: the terminator stands behind the last character, and `none` is a read behind
the terminator. -/
def charAt (offset : ℕ) : Option Char :=
  if offset = expand.length then some (Char.ofNat 0) else expand[offset]?

def substr (text : List Char) (offset count : ℕ) : List Char := (text.drop offset).take count

/-- The loop of `getItemFromExpand` behind a backslash; the result is the offset behind it. -/
def skipDigits : ℕ → ℕ → Option (Except Error ℕ)
  | 0, _ => none
  | steps + 1, offset =>
      (charAt expand offset).bind fun char ↦
        if char.isDigit then
          if offset + 1 > expand.length then some (.error wrongFormat)
          else skipDigits steps (offset + 1)
        else some (.ok offset)

/-- The loop of `getItemFromExpand` behind a left angle bracket. -/
def skipLiteral : ℕ → ℕ → ℕ → ℕ → Option (Except Error ℕ)
  | 0, _, _, _ => none
  | steps + 1, left, right, offset =>
      if right < left then
        (charAt expand offset).bind fun char ↦
          let left := if char = '<' then left + 1 else left
          let right := if char = '>' then right + 1 else right
          if offset + 1 ≥ expand.length then some (.error wrongFormat)
          else skipLiteral steps left right (offset + 1)
      else some (.ok offset)

/-- `RegexTopMatcher::getItemFromExpand`: the item and the offset behind it. -/
def getItemAt (offset : ℕ) : Option (Except Error (List Char × ℕ)) :=
  (charAt expand offset).bind fun char ↦
    if char = '\\' then
      if offset + 1 ≥ expand.length then some (.error wrongFormat)
      else
        (skipDigits expand (expand.length + 1) (offset + 1)).map fun skipped ↦ do
          let stop ← skipped
          if stop > offset + 1 then return (substr expand offset (stop - offset), stop)
          else .error wrongFormat
    else if char = '<' then
      if offset + 1 ≥ expand.length then some (.error wrongFormat)
      else
        (skipLiteral expand (expand.length + 1) 1 0 (offset + 1)).map fun skipped ↦ do
          let stop ← skipped
          return (substr expand offset (stop - offset), stop)
    else some (.error wrongFormat)

end Scanner

section Loop

variable (matchResult : Name) (refs : Backrefs) (backrefNo : ℕ)

/-- What the body of the loop of `expand` appends for an item. -/
def expandText (item : List Char) : Except Error Name :=
  if item.head? = some '<' then
    expandItem matchResult refs backrefNo (.literal (substr item 1 (item.length - 2)))
  else if item.head? = some '\\' then
    expandItem matchResult refs backrefNo (.backref (substr item 1 (item.length - 1)))
  else .ok []

/-- The loop of `expand`, with the name that it has put together so far. -/
def expandScan (expand : List Char) : ℕ → ℕ → Name → Option (Except Error Name)
  | 0, offset, result => if offset < expand.length then none else some (.ok result)
  | rounds + 1, offset, result =>
      if offset < expand.length then
        (getItemAt expand offset).bind fun scanned ↦
          match scanned with
          | .error error => some (.error error)
          | .ok (item, next) =>
              match expandText matchResult refs backrefNo item with
              | .error error => some (.error error)
              | .ok appended => expandScan expand rounds next (result ++ appended)
      else some (.ok result)

end Loop

/-- The string that `expand` works on: its argument, or `m_expand` if that is empty. -/
def stringInUse (mExpand expandStr : List Char) : List Char :=
  if expandStr.isEmpty then mExpand else expandStr

/-- `RegexTopMatcher::expand`, as the code reads its string; `none` is a read behind the
terminator. -/
def expandByOffset (top : RegexTopMatcher) (state : State) (mExpand expandStr : List Char) :
    Option (Except Error Name) :=
  let expand := stringInUse mExpand expandStr
  expandScan state.matchResult (usedRefs state) (top.usedSize state) expand expand.length 0 []

/-! ## Items -/

variable {digits : List Char} {offset : ℕ}

namespace ExpandItem

def spell : ExpandItem → List Char
  | literal text => Pattern.componentText text
  | backref digits => '\\' :: digits

/-- A text in angle brackets is balanced, and a back reference has a decimal number. -/
def IsItem : ExpandItem → Prop
  | literal text => Pattern.Balanced text
  | backref digits => isDigits digits = true

/-- An item ends where the scanner takes it to end: more digits belong to the number, and a text is
not taken at the end of the string. -/
def Ends (rest : List Char) : ExpandItem → Prop
  | literal _ => rest ≠ []
  | backref _ => ∀ char ∈ rest.head?, char.isDigit = false

theorem spell_ne_nil (item : ExpandItem) : item.spell ≠ [] := by
  cases item <;> simp [spell, Pattern.componentText]

theorem isDigits_iff :
    isDigits digits = true ↔ digits ≠ [] ∧ ∀ char ∈ digits, char.isDigit = true := by
  simp [isDigits, List.all_eq_true]

end ExpandItem

variable {rest chars : List Char} {item : ExpandItem} {rounds : ℕ}

theorem takeWhile_digits (hdigits : isDigits digits = true)
    (hrest : ∀ char ∈ rest.head?, char.isDigit = false) :
    (digits ++ rest).takeWhile Char.isDigit = digits ∧
      (digits ++ rest).dropWhile Char.isDigit = rest := by
  obtain ⟨_, hall⟩ := ExpandItem.isDigits_iff.mp hdigits
  rw [List.takeWhile_append_of_pos hall, List.dropWhile_append_of_pos hall]
  cases rest with
  | nil => simp
  | cons char rest =>
    have hchar : char.isDigit = false := hrest char rfl
    simp [hchar]

theorem extractLiteral_cons {depth : ℕ} {char : Char} :
    extractLiteral depth (char :: chars) =
      if chars = [] then .error wrongFormat
      else if depthAfter '<' '>' char depth = 0 then .ok ([char], chars)
      else (extractLiteral (depthAfter '<' '>' char depth) chars).map
        fun result ↦ (char :: result.1, result.2) := by
  rw [extractLiteral]
  simp only [depthAfter, List.isEmpty_iff]
  split_ifs <;> rfl

/-- The text that ends the string is the only one that is not taken. -/
theorem extractLiteral_eq_ok_iff {depth : ℕ} {sub : List Char} :
    extractLiteral depth chars = .ok (sub, rest) ↔
      extractSubPattern '<' '>' depth chars = .ok (sub, rest) ∧ rest ≠ [] := by
  induction chars generalizing depth sub with
  | nil => simp [extractLiteral, extractSubPattern]
  | cons char chars ih =>
    rw [extractLiteral_cons, extractSubPattern_cons]
    split_ifs with hlast hclosed hclosed
    · subst hlast
      simp
    · subst hlast
      simp [extractSubPattern, Except.map]
    · suffices sub = [char] → rest = chars → rest ≠ [] by simpa [eq_comm] using this
      rintro - rfl
      exact hlast
    · constructor
      · intro hok
        obtain ⟨found, hfound, hresult⟩ := map_eq_ok_iff.mp hok
        obtain ⟨rfl, rfl⟩ := Prod.mk.inj hresult
        obtain ⟨hsub, hrest⟩ := ih.mp hfound
        exact ⟨map_eq_ok_iff.mpr ⟨found, hsub, rfl⟩, hrest⟩
      · rintro ⟨hok, hrest⟩
        obtain ⟨found, hfound, hresult⟩ := map_eq_ok_iff.mp hok
        obtain ⟨rfl, rfl⟩ := Prod.mk.inj hresult
        exact map_eq_ok_iff.mpr ⟨found, ih.mpr ⟨hfound, hrest⟩, rfl⟩

theorem throwsOnly_extractLiteral (depth : ℕ) (chars : List Char) :
    ThrowsOnly (· = wrongFormat) (extractLiteral depth chars) := by
  induction chars generalizing depth with
  | nil => exact .throw rfl
  | cons char chars ih =>
    rw [extractLiteral_cons]
    refine .ite (.throw rfl) (.ite (.ok _) ?_)
    intro error hthrow
    cases hfound : extractLiteral (depthAfter '<' '>' char depth) chars with
    | error error' =>
      obtain rfl : error' = error := by simpa [hfound, Except.map] using hthrow
      exact ih _ error' hfound
    | ok found => simp [hfound, Except.map] at hthrow

theorem getItemFromExpand_literal (chars : List Char) :
    getItemFromExpand ('<' :: chars) =
      (extractLiteral 1 chars).map fun found ↦ (.literal found.1.dropLast, found.2) := by
  rw [getItemFromExpand]
  cases extractLiteral 1 chars <;> rfl

theorem getItemFromExpand_backref (chars : List Char) :
    getItemFromExpand ('\\' :: chars) =
      if chars.takeWhile Char.isDigit = [] then .error wrongFormat
      else .ok (.backref (chars.takeWhile Char.isDigit), chars.dropWhile Char.isDigit) := by
  simp [getItemFromExpand]

theorem getItemFromExpand_other {char : Char} (chars : List Char) (hslash : char ≠ '\\')
    (hangle : char ≠ '<') : getItemFromExpand (char :: chars) = .error wrongFormat := by
  simp [getItemFromExpand, hslash, hangle]

theorem eq_literal_of_getItemFromExpand
    (hok : getItemFromExpand ('<' :: chars) = .ok (item, rest)) :
    ∃ text, item = .literal text ∧ chars = text ++ '>' :: rest ∧ Pattern.Balanced text ∧
      rest ≠ [] := by
  rw [getItemFromExpand_literal] at hok
  obtain ⟨found, hfound, hresult⟩ := map_eq_ok_iff.mp hok
  obtain ⟨rfl, rfl⟩ := Prod.mk.inj hresult
  obtain ⟨hextract, hrest⟩ := extractLiteral_eq_ok_iff.mp hfound
  obtain ⟨text, htext, hchars, hcloses⟩ :=
    (extractSubPattern_eq_ok_iff (by decide) Nat.one_pos).mp hextract
  refine ⟨text, ?_, hchars, closes_angle_iff.mp hcloses, hrest⟩
  rw [htext, List.dropLast_concat]

theorem eq_backref_of_getItemFromExpand
    (hok : getItemFromExpand ('\\' :: chars) = .ok (item, rest)) :
    ∃ digits, item = .backref digits ∧ chars = digits ++ rest ∧ isDigits digits = true ∧
      ∀ char ∈ rest.head?, char.isDigit = false := by
  rw [getItemFromExpand_backref] at hok
  split_ifs at hok with hempty
  cases hok
  refine ⟨_, rfl, List.takeWhile_append_dropWhile.symm, ?_, ?_⟩
  · exact ExpandItem.isDigits_iff.mpr ⟨hempty, fun char hchar ↦ List.mem_takeWhile_imp hchar⟩
  · intro char hchar
    have hhead := List.head?_dropWhile_not Char.isDigit chars
    rw [Option.mem_def.mp hchar] at hhead
    exact hhead

/-- The scanner takes an item that it sees the end of, and nothing else. -/
theorem getItemFromExpand_eq_ok_iff :
    getItemFromExpand chars = .ok (item, rest) ↔
      chars = item.spell ++ rest ∧ item.IsItem ∧ item.Ends rest := by
  constructor
  · intro hok
    rcases chars with _ | ⟨char, chars⟩
    · cases hok
    by_cases hslash : char = '\\'
    · subst hslash
      obtain ⟨digits, rfl, rfl, hdigits, hrest⟩ := eq_backref_of_getItemFromExpand hok
      exact ⟨rfl, hdigits, hrest⟩
    by_cases hangle : char = '<'
    · subst hangle
      obtain ⟨text, rfl, rfl, hbalanced, hrest⟩ := eq_literal_of_getItemFromExpand hok
      exact ⟨by simp [ExpandItem.spell, Pattern.componentText], hbalanced, hrest⟩
    · rw [getItemFromExpand_other chars hslash hangle] at hok
      cases hok
  · rintro ⟨rfl, hitem, hends⟩
    cases item with
    | literal text =>
      have hextract := extractSubPattern_of_balanced rest hitem
      have hfound := extractLiteral_eq_ok_iff.mpr ⟨hextract, hends⟩
      have htext : ExpandItem.spell (.literal text) ++ rest = '<' :: (text ++ '>' :: rest) := by
        simp [ExpandItem.spell, Pattern.componentText]
      rw [htext, getItemFromExpand_literal, hfound]
      simp [Except.map]
    | backref digits =>
      obtain ⟨htake, hdrop⟩ := takeWhile_digits hitem hends
      have hnonempty := (ExpandItem.isDigits_iff.mp hitem).1
      rw [ExpandItem.spell, List.cons_append, getItemFromExpand_backref, htake, hdrop,
        if_neg hnonempty]

theorem throwsOnly_getItemFromExpand (chars : List Char) :
    ThrowsOnly (· = wrongFormat) (getItemFromExpand chars) := by
  unfold getItemFromExpand
  split
  · exact .ite (.throw rfl) (.ok _)
  · exact .bind (throwsOnly_extractLiteral 1 _) fun _ ↦ .ok _
  · exact .throw rfl

/-! ## The scanner takes the items -/

variable {text : List Char}

section Scanner

variable {expand : List Char}

theorem charAt_of_lt (hinside : offset < expand.length) :
    charAt expand offset = some expand[offset] := by
  rw [charAt, if_neg (Nat.ne_of_lt hinside), List.getElem?_eq_getElem hinside]

/-- The terminator ends the number at the latest. -/
theorem skipDigits_eq {steps : ℕ} (hinside : offset ≤ expand.length)
    (hsteps : expand.length - offset < steps) :
    skipDigits expand steps offset =
      some (.ok (offset + ((expand.drop offset).takeWhile Char.isDigit).length)) := by
  induction steps generalizing offset with
  | zero => exact absurd hsteps (Nat.not_lt_zero _)
  | succ steps ih =>
    rw [skipDigits]
    rcases Nat.eq_or_lt_of_le hinside with rfl | hlt
    · have hend : charAt expand expand.length = some (Char.ofNat 0) := if_pos rfl
      rw [hend, List.drop_length]
      rfl
    · rw [charAt_of_lt hlt, Option.bind_some, List.drop_eq_getElem_cons hlt]
      have hnext : offset + 1 ≤ expand.length := hlt
      by_cases hdigit : expand[offset].isDigit = true
      · rw [if_pos hdigit, if_neg (Nat.not_lt.mpr hnext), ih hnext (by omega),
          List.takeWhile_cons_of_pos hdigit, List.length_cons, Nat.add_right_comm, Nat.add_assoc]
      · rw [if_neg hdigit, List.takeWhile_cons_of_neg hdigit]
        rfl

theorem depthAfter_eq_sub {left right : ℕ} (char : Char) (hopen : right < left) :
    depthAfter '<' '>' char (left - right) =
      (if char = '<' then left + 1 else left) - (if char = '>' then right + 1 else right) := by
  unfold depthAfter
  split_ifs <;> simp_all <;> omega

/-- The loop behind a left angle bracket does not reach the terminator. -/
theorem skipLiteral_eq {steps left right : ℕ} (hopen : right < left)
    (hinside : offset < expand.length) (hsteps : expand.length - offset < steps) :
    skipLiteral expand steps left right offset =
      some ((extractLiteral (left - right) (expand.drop offset)).map
        fun found ↦ offset + found.1.length) := by
  induction steps generalizing left right offset with
  | zero => exact absurd hsteps (Nat.not_lt_zero _)
  | succ steps ih =>
    rw [skipLiteral, if_pos hopen, charAt_of_lt hinside, Option.bind_some,
      List.drop_eq_getElem_cons hinside, extractLiteral_cons, depthAfter_eq_sub _ hopen]
    dsimp only
    generalize (if expand[offset] = '<' then left + 1 else left) = left
    generalize (if expand[offset] = '>' then right + 1 else right) = right
    by_cases hlast : offset + 1 ≥ expand.length
    · rw [if_pos hlast, if_pos (List.drop_eq_nil_of_le hlast)]
      rfl
    · have hnonempty : expand.drop (offset + 1) ≠ [] := by
        rw [Ne, List.drop_eq_nil_iff]
        exact hlast
      rw [if_neg hlast, if_neg hnonempty]
      by_cases hclosed : left - right = 0
      · obtain ⟨steps, rfl⟩ := Nat.exists_eq_add_of_lt (show 0 < steps by omega)
        rw [if_pos hclosed, skipLiteral, if_neg (by omega)]
        rfl
      · rw [if_neg hclosed, ih (by omega) (by omega) (by omega)]
        cases extractLiteral (left - right) (expand.drop (offset + 1)) with
        | error error => rfl
        | ok found =>
          simp only [Except.map, List.length_cons]
          congr 2
          omega

theorem substr_of_drop_eq {stop : ℕ} (hdrop : expand.drop offset = text ++ rest)
    (hstop : stop = offset + text.length) : substr expand offset (stop - offset) = text := by
  rw [substr, hdrop, hstop, Nat.add_sub_cancel_left, List.take_left]

theorem length_spell_of_extractLiteral {found : List Char × List Char}
    (hfound : extractLiteral 1 chars = .ok found) :
    (ExpandItem.literal found.1.dropLast).spell.length = found.1.length + 1 := by
  obtain ⟨hextract, -⟩ := extractLiteral_eq_ok_iff.mp hfound
  obtain ⟨text, htext, -⟩ := (extractSubPattern_eq_ok_iff (by decide) Nat.one_pos).mp hextract
  simp [ExpandItem.spell, Pattern.componentText, htext]

/-- Every read of the scanner is inside the string or of its terminator, and it takes the items that
the text has behind the offset. -/
theorem getItemAt_eq (hinside : offset < expand.length) :
    getItemAt expand offset = some ((getItemFromExpand (expand.drop offset)).map
      fun found ↦ (found.1.spell, offset + found.1.spell.length)) := by
  have hdrop := List.drop_eq_getElem_cons hinside
  rw [getItemAt, charAt_of_lt hinside, Option.bind_some]
  split_ifs with hslash hlast hangle hlast
  · rw [hdrop, hslash, List.drop_eq_nil_of_le hlast]
    rfl
  · have hnext : offset + 1 ≤ expand.length := Nat.le_of_not_le hlast
    have hitem := getItemFromExpand_backref (expand.drop (offset + 1))
    rw [← hslash, ← hdrop] at hitem
    rw [skipDigits_eq hnext (by omega), Option.map_some]
    split_ifs at hitem with hempty
    · rw [hitem, hempty]
      simp [bind, Except.bind, Except.map]
    · have hspell := (getItemFromExpand_eq_ok_iff.mp hitem).1
      have hpositive := List.length_pos_of_ne_nil hempty
      generalize (expand.drop (offset + 1)).takeWhile Char.isDigit = digits at *
      have hstop : offset + 1 + digits.length =
          offset + (ExpandItem.backref digits).spell.length := by
        rw [ExpandItem.spell, List.length_cons]
        omega
      have htext := substr_of_drop_eq hspell hstop
      have hbehind : offset + 1 + digits.length > offset + 1 := by omega
      rw [hitem]
      simp only [bind, Except.bind, Except.map, htext, if_pos hbehind]
      rw [hstop]
      rfl
  · rw [hdrop, hangle, List.drop_eq_nil_of_le hlast]
    rfl
  · have hitem := getItemFromExpand_literal (expand.drop (offset + 1))
    rw [← hangle, ← hdrop] at hitem
    rw [skipLiteral_eq Nat.one_pos (Nat.lt_of_not_le hlast) (by omega), Option.map_some]
    cases hfound : extractLiteral 1 (expand.drop (offset + 1)) with
    | error error =>
      rw [hfound] at hitem
      rw [hitem]
      rfl
    | ok found =>
      rw [hfound] at hitem
      have hspell := (getItemFromExpand_eq_ok_iff.mp hitem).1
      have hstop : offset + 1 + found.1.length =
          offset + (ExpandItem.literal found.1.dropLast).spell.length := by
        rw [length_spell_of_extractLiteral hfound]
        omega
      have htext := substr_of_drop_eq hspell hstop
      rw [hitem]
      simp only [bind, Except.bind, Except.map, htext]
      rw [hstop]
      rfl
  · rw [hdrop, getItemFromExpand_other _ hslash hangle]
    rfl

end Scanner

/-! ## The loop over the items -/

section Loop

variable {matchResult : Name} {refs : Backrefs} {backrefNo : ℕ}

theorem expandText_spell (item : ExpandItem) :
    expandText matchResult refs backrefNo item.spell =
      expandItem matchResult refs backrefNo item := by
  cases item with
  | literal text => simp [expandText, ExpandItem.spell, Pattern.componentText, substr]
  | backref digits => simp [expandText, ExpandItem.spell, substr]

theorem expandLoop_eq (hnonempty : chars ≠ []) :
    expandLoop matchResult refs backrefNo (rounds + 1) chars =
      (getItemFromExpand chars).bind fun found ↦
        (expandItem matchResult refs backrefNo found.1).bind fun appended ↦
          (expandLoop matchResult refs backrefNo rounds found.2).map (appended ++ ·) := by
  obtain ⟨char, chars, rfl⟩ := List.exists_cons_of_ne_nil hnonempty
  rfl

theorem expandScan_eq {expand : List Char} {result : Name}
    (hrounds : expand.length - offset ≤ rounds) :
    expandScan matchResult refs backrefNo expand rounds offset result =
      some ((expandLoop matchResult refs backrefNo rounds (expand.drop offset)).map
        (result ++ ·)) := by
  induction rounds generalizing offset result with
  | zero =>
    have hend : expand.length ≤ offset := by omega
    rw [expandScan, if_neg (Nat.not_lt.mpr hend), List.drop_eq_nil_of_le hend]
    simp [expandLoop, Except.map]
  | succ rounds ih =>
    rw [expandScan]
    split_ifs with hinside
    · have hnonempty : expand.drop offset ≠ [] := by simpa using hinside
      rw [getItemAt_eq hinside, Option.bind_some, expandLoop_eq hnonempty]
      cases hitem : getItemFromExpand (expand.drop offset) with
      | error error => rfl
      | ok found =>
        obtain ⟨item, rest⟩ := found
        obtain ⟨hspell, -⟩ := getItemFromExpand_eq_ok_iff.mp hitem
        simp only [Except.map, Except.bind, expandText_spell]
        cases expandItem matchResult refs backrefNo item with
        | error error => rfl
        | ok appended =>
          have hpositive := List.length_pos_of_ne_nil item.spell_ne_nil
          have hrest : expand.drop (offset + item.spell.length) = rest := by
            rw [← List.drop_drop, hspell, List.drop_left]
          dsimp only
          rw [ih (by omega), hrest]
          cases expandLoop matchResult refs backrefNo rounds rest with
          | error error => rfl
          | ok later => simp [Except.map]
    · rw [List.drop_eq_nil_of_le (Nat.not_lt.mp hinside)]
      simp [expandLoop, Except.map]

end Loop

/-- The scanner never reads behind the terminator, and `expand` takes the string item by item. -/
theorem expandByOffset_eq (top : RegexTopMatcher) (state : State) (mExpand expandStr : List Char) :
    top.expandByOffset state mExpand expandStr =
      some (top.expand state (stringInUse mExpand expandStr)) := by
  rw [expandByOffset, expandScan_eq (Nat.sub_le _ _), List.drop_zero, expand]
  cases expandLoop state.matchResult (usedRefs state) (top.usedSize state)
      (stringInUse mExpand expandStr).length (stringInUse mExpand expandStr) <;> rfl

/-! ## What an expand string stands for -/

namespace ExpandItem

/-- An item that may stand in an expand string: the number of a back reference is that of an
existing group, and 0 is the whole match. -/
def IsWellFormed (backrefNo : ℕ) : ExpandItem → Prop
  | literal text => Pattern.Balanced text
  | backref digits => isDigits digits = true ∧ decimal digits ≤ backrefNo

/-- What an item stands for: the name with the text as its URI, or what the group has matched. -/
def StandsFor (matchResult : Name) (refs : Backrefs) : ExpandItem → Name → Prop
  | literal text, name => Name.fromUri text = .ok name
  | backref digits, name =>
      name = if decimal digits = 0 then matchResult else refs (decimal digits - 1)

/-- An item that the code can expand: a text is the URI of a name and does not end the string, and
a number that goes no further is one of 64 bits. -/
def IsExpandable (rest : List Char) : ExpandItem → Prop
  | literal text => rest ≠ [] ∧ ∃ name, Name.fromUri text = .ok name
  | backref digits => (∃ digit ∈ rest.head?, digit.isDigit = true) ∨ decimal digits < 2 ^ 64

theorem IsWellFormed.isItem {backrefNo : ℕ} (hitem : item.IsWellFormed backrefNo) :
    item.IsItem := by
  cases item with
  | literal text => exact hitem
  | backref digits => exact hitem.1

theorem head?_spell (item : ExpandItem) (rest : List Char) :
    ∀ char ∈ (item.spell ++ rest).head?, char.isDigit = false := by
  cases item with
  | literal text => simp [spell, Pattern.componentText]
  | backref digits => simp [spell]

theorem head?_spells (items : List ExpandItem) :
    ∀ char ∈ (items.flatMap spell).head?, char.isDigit = false := by
  cases items with
  | nil => simp
  | cons item items => exact head?_spell item _

theorem head?_flatMap_spell (items : List ExpandItem) (item : ExpandItem) (rest : List Char) :
    ∀ char ∈ (items.flatMap spell ++ (item.spell ++ rest)).head?, char.isDigit = false := by
  cases items with
  | nil => exact head?_spell item rest
  | cons first items =>
    rw [List.flatMap_cons, List.append_assoc]
    exact head?_spell first _

/-- Behind an item that is not at the end of the string the scanner sees where it ends. -/
theorem ends_of_head? (hnonempty : rest ≠ []) (hhead : ∀ char ∈ rest.head?, char.isDigit = false) :
    item.Ends rest := by
  cases item with
  | literal text => exact hnonempty
  | backref digits => exact hhead

theorem IsExpandable.ends (hexpand : item.IsExpandable rest)
    (hhead : ∀ char ∈ rest.head?, char.isDigit = false) : item.Ends rest := by
  cases item with
  | literal text => exact hexpand.1
  | backref digits => exact hhead

/-- A number that goes no further fits 64 bits. -/
theorem IsExpandable.lt (hexpand : (backref digits).IsExpandable rest)
    (hends : (backref digits).Ends rest) : decimal digits < 2 ^ 64 := by
  rcases hexpand with ⟨digit, hmem, hdigit⟩ | hsmall
  · rw [hends digit hmem] at hdigit
    cases hdigit
  · exact hsmall

end ExpandItem

/-- The exceptions of the class `RegexMatcher::Error` that `expand` throws itself. -/
def IsRegexMatcherError (error : Error) : Prop :=
  error = wrongFormat ∨ error = ⟨.regex, "Exceed the range of back reference"⟩

theorem not_isRegexMatcherError (error : Error) (htlv : error.isTlvError = true) :
    ¬ IsRegexMatcherError error := by
  rintro (rfl | rfl) <;> cases htlv

/-- The items spell the string, and each of them may stand in it. -/
def IsSpelledBy (backrefNo : ℕ) (text : List Char) (items : List ExpandItem) : Prop :=
  text = items.flatMap ExpandItem.spell ∧ ∀ item ∈ items, item.IsWellFormed backrefNo

/-- A string of items is expanded into what they stand for, and any other one is a
`RegexMatcher::Error`; in both cases nothing behind the terminator is read. -/
structure MeetsGrammar (top : RegexTopMatcher) (state : State) (mExpand expandStr : List Char) :
    Prop where
  returns : ∀ items, IsSpelledBy (top.usedSize state) (stringInUse mExpand expandStr) items →
    ∃ names, List.Forall₂ (ExpandItem.StandsFor state.matchResult (usedRefs state)) items names ∧
      top.expandByOffset state mExpand expandStr = some (.ok names.flatten)
  throws : (¬ ∃ items, IsSpelledBy (top.usedSize state) (stringInUse mExpand expandStr) items) →
    ∃ error, IsRegexMatcherError error ∧
      top.expandByOffset state mExpand expandStr = some (.error error)

/-- Every item of the string with only well-formed ones before it is expandable. -/
def IsExpandable (backrefNo : ℕ) (text : List Char) : Prop :=
  ∀ (items : List ExpandItem) (item : ExpandItem) (rest : List Char),
    (∀ earlier ∈ items, earlier.IsWellFormed backrefNo) → item.IsItem →
      text = items.flatMap ExpandItem.spell ++ (item.spell ++ rest) → item.IsExpandable rest

section Loop

variable {matchResult : Name} {refs : Backrefs} {backrefNo : ℕ}

theorem IsExpandable.first (hexpand : IsExpandable backrefNo (item.spell ++ rest))
    (hitem : item.IsItem) : item.IsExpandable rest :=
  hexpand [] item rest (fun _ hmem ↦ absurd hmem List.not_mem_nil) hitem rfl

theorem IsExpandable.later (hexpand : IsExpandable backrefNo (item.spell ++ rest))
    (hitem : item.IsWellFormed backrefNo) : IsExpandable backrefNo rest := by
  intro items later behind hitems hlater hrest
  refine hexpand (item :: items) later behind ?_ hlater ?_
  · exact List.forall_mem_cons.mpr ⟨hitem, hitems⟩
  · rw [hrest, List.flatMap_cons, List.append_assoc]

/-- An item takes a round of the loop, and leaves enough for the text behind it. -/
theorem exists_round (hrounds : (item.spell ++ rest).length ≤ rounds) :
    ∃ later, rounds = later + 1 ∧ rest.length ≤ later := by
  have hpositive := List.length_pos_of_ne_nil item.spell_ne_nil
  rw [List.length_append] at hrounds
  exact ⟨rounds - 1, by omega, by omega⟩

/-- One round of the loop, for an item that the scanner sees the end of. -/
theorem expandLoop_spell (hitem : item.IsItem) (hends : item.Ends rest) :
    expandLoop matchResult refs backrefNo (rounds + 1) (item.spell ++ rest) =
      (expandItem matchResult refs backrefNo item).bind fun appended ↦
        (expandLoop matchResult refs backrefNo rounds rest).map (appended ++ ·) := by
  have hfound := getItemFromExpand_eq_ok_iff.mpr ⟨rfl, hitem, hends⟩
  rw [expandLoop_eq (List.append_ne_nil_of_left_ne_nil item.spell_ne_nil rest), hfound]
  rfl

theorem expandItem_of_isExpandable (hitem : item.IsWellFormed backrefNo)
    (hexpand : item.IsExpandable rest) (hends : item.Ends rest) :
    ∃ name, item.StandsFor matchResult refs name ∧
      expandItem matchResult refs backrefNo item = .ok name := by
  cases item with
  | literal text => exact ⟨_, hexpand.2.choose_spec, hexpand.2.choose_spec⟩
  | backref digits =>
    refine ⟨_, rfl, ?_⟩
    simp only [expandItem, if_neg (Nat.not_le.mpr (hexpand.lt hends)), if_pos hitem.2]
    split_ifs <;> rfl

theorem expandItem_of_not_isWellFormed (hitem : item.IsItem) (hnot : ¬ item.IsWellFormed backrefNo)
    (hexpand : item.IsExpandable rest) (hends : item.Ends rest) :
    expandItem matchResult refs backrefNo item =
      .error ⟨.regex, "Exceed the range of back reference"⟩ := by
  cases item with
  | literal text => exact absurd hitem hnot
  | backref digits =>
    have hlarge : ¬ decimal digits ≤ backrefNo := fun hle ↦ hnot ⟨hitem, hle⟩
    have hnonzero : decimal digits ≠ 0 := fun hzero ↦ hlarge (hzero ▸ Nat.zero_le _)
    simp only [expandItem, if_neg (Nat.not_le.mpr (hexpand.lt hends)), if_neg hnonzero,
      if_neg hlarge]

variable {items : List ExpandItem}

/-- A string of items is expanded in the order of the items. -/
theorem expandLoop_of_spelled (hrounds : (items.flatMap ExpandItem.spell).length ≤ rounds)
    (hitems : ∀ item ∈ items, item.IsWellFormed backrefNo)
    (hexpand : IsExpandable backrefNo (items.flatMap ExpandItem.spell)) :
    ∃ names, List.Forall₂ (ExpandItem.StandsFor matchResult refs) items names ∧
      expandLoop matchResult refs backrefNo rounds (items.flatMap ExpandItem.spell) =
        .ok names.flatten := by
  induction items generalizing rounds with
  | nil => exact ⟨[], .nil, by simp [expandLoop]⟩
  | cons item items ih =>
    rw [List.flatMap_cons] at hrounds hexpand ⊢
    obtain ⟨hitem, hitems⟩ := List.forall_mem_cons.mp hitems
    obtain ⟨rounds, rfl, hlength⟩ := exists_round hrounds
    have hfirst := hexpand.first hitem.isItem
    have hends := hfirst.ends (ExpandItem.head?_spells items)
    obtain ⟨name, hname, hfound⟩ := expandItem_of_isExpandable hitem hfirst hends
    obtain ⟨names, hnames, hlater⟩ := ih hlength hitems (hexpand.later hitem)
    refine ⟨name :: names, .cons hname hnames, ?_⟩
    rw [expandLoop_spell hitem.isItem hends, hfound, hlater]
    rfl

/-- A string that is not made of items is rejected at the first place that is no item. -/
theorem expandLoop_of_not_spelled (hrounds : text.length ≤ rounds)
    (hnot : ¬ ∃ items, IsSpelledBy backrefNo text items) (hexpand : IsExpandable backrefNo text) :
    ∃ error, IsRegexMatcherError error ∧
      expandLoop matchResult refs backrefNo rounds text = .error error := by
  induction rounds generalizing text with
  | zero =>
    obtain rfl := List.eq_nil_of_length_eq_zero (Nat.le_zero.mp hrounds)
    exact absurd ⟨[], rfl, by simp⟩ hnot
  | succ rounds ih =>
    have hnonempty : text ≠ [] := by
      rintro rfl
      exact hnot ⟨[], rfl, by simp⟩
    rw [expandLoop_eq hnonempty]
    cases hfound : getItemFromExpand text with
    | error error => exact ⟨error, .inl (throwsOnly_getItemFromExpand text error hfound), rfl⟩
    | ok found =>
      obtain ⟨item, rest⟩ := found
      obtain ⟨rfl, hitem, hends⟩ := getItemFromExpand_eq_ok_iff.mp hfound
      obtain ⟨later, hlater, hlength⟩ := exists_round hrounds
      obtain rfl := Nat.succ.inj hlater
      by_cases hwellFormed : item.IsWellFormed backrefNo
      · have hrest : ¬ ∃ items, IsSpelledBy backrefNo rest items := by
          rintro ⟨items, hspelled, hitems⟩
          refine hnot ⟨item :: items, ?_, List.forall_mem_cons.mpr ⟨hwellFormed, hitems⟩⟩
          rw [List.flatMap_cons, ← hspelled]
        obtain ⟨name, -, hname⟩ : ∃ name, item.StandsFor matchResult refs name ∧
            expandItem matchResult refs backrefNo item = .ok name :=
          expandItem_of_isExpandable hwellFormed (hexpand.first hitem) hends
        obtain ⟨error, herror, hlater⟩ := ih hlength hrest (hexpand.later hwellFormed)
        refine ⟨error, herror, ?_⟩
        simp only [Except.bind, hname, hlater]
        rfl
      · refine ⟨_, .inr rfl, ?_⟩
        rw [Except.bind, expandItem_of_not_isWellFormed hitem hwellFormed
          (hexpand.first hitem) hends]
        rfl

/-- The exceptions of an item that may stand in the string are of other classes. -/
theorem throwsOnly_expandItem (hitem : item.IsWellFormed backrefNo) :
    ThrowsOnly (¬ IsRegexMatcherError ·) (expandItem matchResult refs backrefNo item) := by
  cases item with
  | literal text => exact ThrowsOnly.mono (Name.fromUri_onlyTlvErrors text) not_isRegexMatcherError
  | backref digits =>
    simp only [expandItem, if_pos hitem.2]
    refine .ite (.throw ?_) (.ite (.ok _) (.ok _))
    simp [IsRegexMatcherError, wrongFormat]

/-- A text that ends the string is no item to the scanner. -/
theorem getItemFromExpand_of_last (hbalanced : Pattern.Balanced text) :
    getItemFromExpand (ExpandItem.literal text).spell = .error wrongFormat := by
  cases hfound : getItemFromExpand (ExpandItem.literal text).spell with
  | error error => rw [throwsOnly_getItemFromExpand _ error hfound]
  | ok found =>
    obtain ⟨other, -, htext, hother, hrest⟩ := eq_literal_of_getItemFromExpand hfound
    exact absurd (Pattern.component_unique hbalanced hother htext).2.symm hrest

/-- The first item that is not expandable throws, and a `RegexMatcher::Error` only if it is a text
that ends the string. -/
theorem expandLoop_of_not_isExpandable (hrounds : (item.spell ++ rest).length ≤ rounds)
    (hitem : item.IsItem) (hnot : ¬ item.IsExpandable rest) :
    ∃ error, expandLoop matchResult refs backrefNo rounds (item.spell ++ rest) = .error error ∧
      (IsRegexMatcherError error → rest = [] ∧ item.IsWellFormed backrefNo) := by
  have hnonempty := List.append_ne_nil_of_left_ne_nil item.spell_ne_nil rest
  obtain ⟨rounds, rfl, -⟩ := exists_round hrounds
  cases item with
  | literal text =>
    by_cases hlast : rest = []
    · subst hlast
      refine ⟨wrongFormat, ?_, fun _ ↦ ⟨rfl, hitem⟩⟩
      rw [expandLoop_eq hnonempty, List.append_nil, getItemFromExpand_of_last hitem]
      rfl
    · rw [expandLoop_spell hitem hlast]
      cases hfound : expandItem matchResult refs backrefNo (.literal text) with
      | error error =>
        have hwellFormed : (ExpandItem.literal text).IsWellFormed backrefNo := hitem
        have hclass := throwsOnly_expandItem hwellFormed error hfound
        exact ⟨error, rfl, fun hregex ↦ absurd hregex hclass⟩
      | ok name => exact absurd ⟨hlast, name, hfound⟩ hnot
  | backref digits =>
    obtain ⟨hhead, hlarge⟩ := not_or.mp hnot
    have hends : (ExpandItem.backref digits).Ends rest := by
      intro char hchar
      by_contra hdigit
      exact hhead ⟨char, hchar, by simpa using hdigit⟩
    rw [expandLoop_spell hitem hends, expandItem, if_pos (Nat.le_of_not_lt hlarge)]
    refine ⟨_, rfl, ?_⟩
    simp [IsRegexMatcherError, wrongFormat]

theorem expandLoop_of_items
    (hrounds : (items.flatMap ExpandItem.spell ++ (item.spell ++ rest)).length ≤ rounds)
    (hitems : ∀ earlier ∈ items, earlier.IsWellFormed backrefNo) (hitem : item.IsItem)
    (hnot : ¬ item.IsExpandable rest) :
    ∃ error, expandLoop matchResult refs backrefNo rounds
        (items.flatMap ExpandItem.spell ++ (item.spell ++ rest)) = .error error ∧
      (IsRegexMatcherError error → rest = [] ∧ item.IsWellFormed backrefNo) := by
  induction items generalizing rounds with
  | nil => exact expandLoop_of_not_isExpandable hrounds hitem hnot
  | cons first items ih =>
    rw [List.flatMap_cons, List.append_assoc] at hrounds ⊢
    obtain ⟨hfirst, hitems⟩ := List.forall_mem_cons.mp hitems
    obtain ⟨rounds, rfl, hlength⟩ := exists_round hrounds
    have hnonempty : items.flatMap ExpandItem.spell ++ (item.spell ++ rest) ≠ [] := by
      simp [item.spell_ne_nil]
    have hends : first.Ends (items.flatMap ExpandItem.spell ++ (item.spell ++ rest)) :=
      ExpandItem.ends_of_head? hnonempty (ExpandItem.head?_flatMap_spell items item rest)
    rw [expandLoop_spell hfirst.isItem hends]
    cases hfound : expandItem matchResult refs backrefNo first with
    | error error =>
      exact ⟨error, rfl, fun hclass ↦ absurd hclass (throwsOnly_expandItem hfirst error hfound)⟩
    | ok appended =>
      obtain ⟨error, hlater, hclass⟩ := ih hlength hitems
      refine ⟨error, ?_, hclass⟩
      rw [hlater]
      rfl

end Loop

/-- `expand` meets its grammar on the strings whose items are expandable. -/
theorem meetsGrammar_iff (top : RegexTopMatcher) (state : State) (mExpand expandStr : List Char) :
    top.MeetsGrammar state mExpand expandStr ↔
      IsExpandable (top.usedSize state) (stringInUse mExpand expandStr) := by
  have hscan := expandByOffset_eq top state mExpand expandStr
  constructor
  · rintro ⟨hreturns, hthrows⟩ items item rest hitems hitem htext
    by_contra hnot
    obtain ⟨error, herror, hclass⟩ := expandLoop_of_items (le_refl _) hitems hitem hnot
    rw [← htext] at herror
    rw [expand, herror] at hscan
    by_cases hspelled :
        ∃ items, IsSpelledBy (top.usedSize state) (stringInUse mExpand expandStr) items
    · obtain ⟨others, hothers⟩ := hspelled
      obtain ⟨names, -, hfound⟩ := hreturns others hothers
      rw [hscan] at hfound
      cases hfound
    · obtain ⟨error', hregex, hfound⟩ := hthrows hspelled
      rw [hscan] at hfound
      cases hfound
      obtain ⟨rfl, hwellFormed⟩ := hclass hregex
      refine hspelled ⟨items ++ [item], ?_, ?_⟩
      · simp [htext]
      · simpa [or_imp, forall_and] using ⟨hitems, hwellFormed⟩
  · intro hexpand
    constructor
    · rintro items ⟨htext, hitems⟩
      rw [htext] at hexpand
      obtain ⟨names, hnames, hfound⟩ := expandLoop_of_spelled (le_refl _) hitems hexpand
      refine ⟨names, hnames, ?_⟩
      rw [hscan, expand, htext, hfound]
    · intro hnot
      obtain ⟨error, herror, hfound⟩ := expandLoop_of_not_spelled (le_refl _) hnot hexpand
      refine ⟨error, herror, ?_⟩
      rw [hscan, expand, hfound]

/-- `<a>` has matched `/a`, and is itself an expand string of one text. -/
theorem not_meetsGrammar_ofLastText :
    ∃ top after, compile .literal ['<', 'a', '>'] = .ok top ∧
      top.matchName .literal 8 [.generic [97]] State.initial = some (true, after) ∧
        IsSpelledBy (top.usedSize after) ['<', 'a', '>'] [.literal ['a']] ∧
        top.expandByOffset after [] ['<', 'a', '>'] = some (.error wrongFormat) ∧
        ¬ top.MeetsGrammar after [] ['<', 'a', '>'] := by
  have hspelled : ∀ backrefNo, IsSpelledBy backrefNo ['<', 'a', '>'] [.literal ['a']] := by
    intro backrefNo
    have hbalanced : Pattern.Balanced ['a'] :=
      closes_angle_iff.mp (by simp [closes_cons, closes_nil, depthAfter])
    exact ⟨rfl, by simpa [ExpandItem.IsWellFormed] using hbalanced⟩
  have hscan : ∀ top state,
      expandByOffset top state [] ['<', 'a', '>'] = some (.error wrongFormat) := fun _ _ ↦ rfl
  refine ⟨_, _, rfl, rfl, hspelled _, hscan _ _, ?_⟩
  rintro ⟨hreturns, -⟩
  obtain ⟨names, -, hfound⟩ := hreturns _ (hspelled _)
  rw [hscan] at hfound
  cases hfound

end RegexTopMatcher

end NdnCxx
