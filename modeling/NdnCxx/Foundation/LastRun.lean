import Mathlib.Data.List.Basic

/-!
# The head of the last run of equal keys

A left-to-right scan that remembers an element each time the key changes ends up with the first
element of the last run of equal keys. The run is a maximal block of adjacent elements; equal keys
further left belong to other runs.
-/

namespace NdnCxx.LastRun

variable {Item Key : Type*} [DecidableEq Key] (key : Item → Key)

/-- Continue the scan with `head` as the remembered element. -/
def continueRun (head : Item) : List Item → Item
  | [] => head
  | item :: rest => if key item = key head then continueRun head rest else continueRun item rest

def lastRunHead : List Item → Option Item
  | [] => none
  | item :: rest => some (continueRun key item rest)

variable {key}

theorem continueRun_mem (head : Item) (list : List Item) :
    continueRun key head list ∈ head :: list := by
  induction list generalizing head with
  | nil => simp [continueRun]
  | cons item rest ih =>
    unfold continueRun
    split_ifs
    · rcases List.mem_cons.mp (ih head) with h | h <;> simp [h]
    · exact List.mem_cons_of_mem head (ih item)

variable {list : List Item} {item : Item}

theorem mem_of_lastRunHead (hhead : lastRunHead key list = some item) : item ∈ list := by
  cases list with
  | nil => simp [lastRunHead] at hhead
  | cons first rest =>
    obtain rfl : continueRun key first rest = item := by simpa [lastRunHead] using hhead
    exact continueRun_mem first rest

theorem lastRunHead_eq_none_iff : lastRunHead key list = none ↔ list = [] := by
  cases list <;> simp [lastRunHead]

theorem continueRun_split (head : Item) (list : List Item) :
    ∃ before after, head :: list = before ++ continueRun key head list :: after ∧
      (∀ later ∈ after, key later = key (continueRun key head list)) ∧
      ∀ previous ∈ before.getLast?, key previous ≠ key (continueRun key head list) := by
  induction list generalizing head with
  | nil => exact ⟨[], [], by simp [continueRun]⟩
  | cons item rest ih =>
    unfold continueRun
    split_ifs with hsame
    · obtain ⟨before, after, hsplit, hafter, hbefore⟩ := ih head
      cases before with
      | nil =>
        obtain ⟨hhead, rfl⟩ := by simpa using hsplit
        refine ⟨[], item :: rest, by simp [← hhead], ?_, by simp⟩
        intro later hlater
        rcases List.mem_cons.mp hlater with rfl | htail
        · rw [← hhead, hsame]
        · exact hafter later htail
      | cons first others =>
        obtain ⟨rfl, hrest⟩ := by simpa using hsplit
        refine ⟨head :: item :: others, after, by simp [← hrest], hafter, ?_⟩
        cases others with
        | nil => simpa [hsame] using hbefore
        | cons second others => simpa using hbefore
    · obtain ⟨before, after, hsplit, hafter, hbefore⟩ := ih item
      refine ⟨head :: before, after, by simp [← hsplit], hafter, ?_⟩
      cases before with
      | nil =>
        obtain ⟨hitem, -⟩ := by simpa using hsplit
        simpa [← hitem] using fun h ↦ hsame (Eq.symm h)
      | cons first others => simpa using hbefore

theorem continueRun_of_forall_eq {head : Item} (hsame : ∀ later ∈ list, key later = key head) :
    continueRun key head list = head := by
  induction list with
  | nil => rfl
  | cons item rest ih =>
    rw [continueRun, if_pos (hsame item (by simp))]
    exact ih fun later hlater ↦ hsame later (List.mem_cons_of_mem item hlater)

/-- The scan starts afresh at an element whose key differs from the one just before it. -/
theorem continueRun_append {head : Item} {before after : List Item}
    (hchange : ∀ previous ∈ (head :: before).getLast?, key previous ≠ key item) :
    continueRun key head (before ++ item :: after) = continueRun key item after := by
  induction before generalizing head with
  | nil =>
    have hne : key head ≠ key item := by simpa using hchange
    rw [List.nil_append, continueRun, if_neg hne.symm]
  | cons next rest ih =>
    rw [List.cons_append, continueRun]
    split_ifs with hsame
    · apply ih
      cases rest with
      | nil => simpa [hsame] using hchange
      | cons second others => simpa using hchange
    · exact ih (by simpa using hchange)

/-- The scan finds `item` exactly when the elements behind it share its key and the element just
before it does not. -/
theorem lastRunHead_eq_some_iff :
    lastRunHead key list = some item ↔
      ∃ before after, list = before ++ item :: after ∧ (∀ later ∈ after, key later = key item) ∧
        ∀ previous ∈ before.getLast?, key previous ≠ key item := by
  cases list with
  | nil => simp [lastRunHead]
  | cons head rest =>
    rw [lastRunHead, Option.some.injEq]
    constructor
    · rintro rfl
      exact continueRun_split head rest
    · rintro ⟨before, after, hsplit, hafter, hbefore⟩
      cases before with
      | nil =>
        obtain ⟨rfl, rfl⟩ := by simpa using hsplit
        exact continueRun_of_forall_eq hafter
      | cons first others =>
        obtain ⟨rfl, rfl⟩ := by simpa using hsplit
        rw [continueRun_append hbefore, continueRun_of_forall_eq hafter]

end NdnCxx.LastRun
