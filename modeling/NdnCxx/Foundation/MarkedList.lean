import Mathlib.Data.List.Basic
import Mathlib.Data.List.Infix

/-!
# Lists with a marker

A list carries two marks, a middle mark and an end mark: the payload is what stands in front of the
last end mark, without its first middle mark. The payload exists when some middle mark stands in
front of some end mark. A list into which the middle mark was inserted gives the list back when what
stands in front of the insertion has no middle mark, or nothing but middle marks from its first on.
-/

namespace NdnCxx.MarkedList

variable {Item Reading : Type*} (isMiddle isEnd : Item → Bool)

/-- What stands in front of the last end mark, without its first middle mark. -/
def payload (items : List Item) : Option (List Item) :=
  match items.reverse.findIdx? isEnd with
  | none => none
  | some fromEnd =>
      let marked := items.take (items.length - 1 - fromEnd)
      match marked.findIdx? isMiddle with
      | none => none
      | some index => some (marked.take index ++ marked.drop (index + 1))

section Payload

variable {isMiddle isEnd} {before after : List Item} {mark : Item}

theorem payload_append_cons (hmark : isEnd mark = true) (hafter : ∀ item ∈ after, ¬isEnd item) :
    payload isMiddle isEnd (before ++ mark :: after) =
      if before.any isMiddle then some (before.eraseP isMiddle) else none := by
  have hlast : (before ++ mark :: after).reverse.findIdx? isEnd = some after.length := by
    have hnone : after.reverse.findIdx? isEnd = none := by
      simpa [List.findIdx?_eq_none_iff] using hafter
    simp [List.findIdx?_append, List.findIdx?_cons, hnone, hmark]
  have htake : (before ++ mark :: after).take
      ((before ++ mark :: after).length - 1 - after.length) = before := by
    have hlength : (before ++ mark :: after).length - 1 - after.length = before.length := by
      simp only [List.length_append, List.length_cons]
      omega
    rw [hlength, List.take_left]
  rw [payload, hlast]
  simp only [htake, List.eraseP_eq_eraseIdx]
  cases hindex : before.findIdx? isMiddle with
  | none =>
    have hnone : before.any isMiddle = false := by
      simpa [List.findIdx?_eq_none_iff] using hindex
    simp [hnone]
  | some index =>
    have hsome : before.any isMiddle = true := by
      rw [← List.findIdx?_isSome, hindex]
      rfl
    simp [hsome, List.eraseIdx_eq_take_drop_succ]

theorem payload_eq_none (hnone : ∀ item ∈ before, ¬isEnd item) :
    payload isMiddle isEnd before = none := by
  have hsearch : before.reverse.findIdx? isEnd = none := by
    simpa [List.findIdx?_eq_none_iff] using hnone
  rw [payload, hsearch]

/-- The payload of a list of readings -/
theorem payload_map {Other : Type*} (read : Other → Item) (items : List Other) :
    payload isMiddle isEnd (items.map read) =
      (payload (isMiddle ∘ read) (isEnd ∘ read) items).map (List.map read) := by
  have hend : (items.map read).reverse.findIdx? isEnd = items.reverse.findIdx? (isEnd ∘ read) := by
    rw [← List.map_reverse, List.findIdx?_map]
  unfold payload
  rw [hend]
  cases items.reverse.findIdx? (isEnd ∘ read) with
  | none => rfl
  | some fromEnd =>
    simp only [List.length_map, ← List.map_take, List.findIdx?_map]
    cases (items.take (items.length - 1 - fromEnd)).findIdx? (isMiddle ∘ read) with
    | none => rfl
    | some index => simp

variable {items : List Item}

theorem mem_of_mem_payload {front : List Item} {item : Item}
    (hpayload : payload isMiddle isEnd items = some front) (hmem : item ∈ front) :
    item ∈ items := by
  unfold payload at hpayload
  split at hpayload
  · cases hpayload
  · dsimp only at hpayload
    split at hpayload
    · cases hpayload
    · obtain rfl := Option.some.inj hpayload
      rcases List.mem_append.mp hmem with hfront | hback
      · exact List.mem_of_mem_take (List.mem_of_mem_take hfront)
      · exact List.mem_of_mem_take (List.mem_of_mem_drop hback)

/-- A list with an end mark, cut at the last one -/
theorem exists_last_end (hmem : ∃ item ∈ items, isEnd item = true) :
    ∃ before mark after, items = before ++ mark :: after ∧ isEnd mark = true ∧
      ∀ item ∈ after, ¬isEnd item := by
  induction items with
  | nil => simp at hmem
  | cons item items ih =>
    by_cases hlater : ∃ later ∈ items, isEnd later = true
    · obtain ⟨before, mark, after, rfl, hmark, hafter⟩ := ih hlater
      exact ⟨item :: before, mark, after, rfl, hmark, hafter⟩
    · push Not at hlater
      obtain ⟨mark, hmem, hmark⟩ := hmem
      rcases List.mem_cons.mp hmem with rfl | hmem
      · exact ⟨[], mark, items, rfl, hmark, hlater⟩
      · exact absurd hmark (hlater mark hmem)

/-- The payload exists when some middle mark stands in front of some end mark. -/
theorem isSome_payload_iff :
    (payload isMiddle isEnd items).isSome = true ↔
      ∃ middle final, isMiddle middle = true ∧ isEnd final = true ∧
        [middle, final].Sublist items := by
  by_cases hmem : ∃ item ∈ items, isEnd item = true
  · obtain ⟨before, mark, after, rfl, hmark, hafter⟩ := exists_last_end hmem
    have hsome : (payload isMiddle isEnd (before ++ mark :: after)).isSome = true ↔
        ∃ middle ∈ before, isMiddle middle = true := by
      rw [payload_append_cons hmark hafter, ← List.any_eq_true]
      split_ifs with hany <;> simp [hany]
    rw [hsome]
    constructor
    · rintro ⟨middle, hbefore, hmiddle⟩
      refine ⟨middle, mark, hmiddle, hmark, ?_⟩
      exact (List.singleton_sublist.mpr hbefore).append
        (List.singleton_sublist.mpr List.mem_cons_self)
    · rintro ⟨middle, final, hmiddle, hfinal, hsublist⟩
      obtain ⟨front, back, hsplit, hfront, hback⟩ := List.sublist_append_iff.mp hsublist
      cases front with
      | nil =>
        -- both marks behind the cut: the second would be a later end mark
        rw [List.nil_append] at hsplit
        subst hsplit
        have htail : [final].Sublist after := by
          cases hback with
          | cons _ h => exact (List.sublist_cons_self _ _).trans h
          | cons_cons _ h => exact h
        exact absurd hfinal (hafter final (List.singleton_sublist.mp htail))
      | cons item front =>
        obtain ⟨rfl, -⟩ := List.cons_eq_cons.mp hsplit
        exact ⟨middle, hfront.subset List.mem_cons_self, hmiddle⟩
  · refine iff_of_false ?_ ?_
    · push Not at hmem
      simp [payload_eq_none hmem]
    · rintro ⟨middle, final, -, hfinal, hsublist⟩
      exact hmem ⟨final, hsublist.subset (by simp), hfinal⟩

end Payload

/-! ## Inserted marks -/

theorem append_singleton_eq_cons_iff {reading : Reading} {readings : List Reading} :
    readings ++ [reading] = reading :: readings ↔ ∀ other ∈ readings, other = reading := by
  induction readings with
  | nil => simp
  | cons first readings ih =>
    rw [List.cons_append, List.cons_eq_cons, List.forall_mem_cons]
    constructor
    · rintro ⟨rfl, hrest⟩
      exact ⟨rfl, ih.mp hrest⟩
    · rintro ⟨rfl, hrest⟩
      exact ⟨rfl, ih.mpr hrest⟩

/-- Erasing the first middle mark undoes the insertion of one exactly when everything from the first
middle mark in front of it on reads as the inserted one. -/
theorem map_eraseP_insert_iff (read : Item → Reading) {mark : Item} (hmark : isMiddle mark = true)
    (front back : List Item) (hread : ∀ item, isMiddle item = true → read item = read mark) :
    ((front ++ mark :: back).eraseP isMiddle).map read = (front ++ back).map read ↔
      ∀ item ∈ front.dropWhile (fun item ↦ !isMiddle item), read item = read mark := by
  induction front with
  | nil => simp [hmark]
  | cons item front ih =>
    by_cases hitem : isMiddle item = true
    · have hdrop : (item :: front).dropWhile (fun item ↦ !isMiddle item) = item :: front := by
        simp [hitem]
      have hfirst : read item = read mark := hread item hitem
      rw [hdrop, List.cons_append, List.eraseP_cons_of_pos hitem, List.forall_mem_cons,
        and_iff_right hfirst]
      have hcancel : (front ++ mark :: back).map read = (item :: front ++ back).map read ↔
          front.map read ++ [read mark] = read mark :: front.map read := by
        have hleft : (front ++ mark :: back).map read =
            front.map read ++ [read mark] ++ back.map read := by simp
        have hright : (item :: front ++ back).map read =
            read mark :: front.map read ++ back.map read := by simp [hfirst]
        rw [hleft, hright, List.append_left_inj]
      rw [List.cons_append] at hcancel
      rw [List.cons_append, hcancel, append_singleton_eq_cons_iff, List.forall_mem_map]
    · have hdrop : (item :: front).dropWhile (fun item ↦ !isMiddle item) =
          front.dropWhile fun item ↦ !isMiddle item := by
        simp [hitem]
      rw [hdrop, ← ih, List.cons_append, List.eraseP_cons_of_neg hitem]
      simp

end NdnCxx.MarkedList
