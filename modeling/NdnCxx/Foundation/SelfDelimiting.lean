import Mathlib.Data.List.Basic

/-!
# Self-delimiting codes

A code whose reader finds a written value again whatever follows it. No word of such a code is a
prefix of another, and a sequential reader takes a concatenation of words apart word by word.
-/

namespace NdnCxx

variable {Symbol Value State Fault : Type*}

def ReadsBack (writable : Value → Prop) (write : Value → List Symbol)
    (read : List Symbol → Option Value) : Prop :=
  ∀ value, writable value → ∀ tail, read (write value ++ tail) = some value

theorem ReadsBack.eq_of_isPrefix {writable : Value → Prop} {write : Value → List Symbol}
    {read : List Symbol → Option Value} (hreads : ReadsBack writable write read)
    (first second : Value) (hfirst : writable first) (hsecond : writable second)
    (hprefixed : write first <+: write second) : first = second := by
  obtain ⟨tail, htail⟩ := hprefixed
  have hlonger : read (write first ++ tail) = some first := hreads first hfirst tail
  have hwhole : read (write second ++ []) = some second := hreads second hsecond []
  rw [htail] at hlonger
  rw [List.append_nil, hlonger] at hwhole
  exact Option.some.inj hwhole

/-- Read `count` values one after another. -/
def readMany (read : State → Except Fault (Value × State)) :
    ℕ → State → Except Fault (List Value × State)
  | 0, state => .ok ([], state)
  | count + 1, state => do
      let (value, next) ← read state
      let (values, last) ← readMany read count next
      return (value :: values, last)

/-- A sequential reader reads a concatenation word by word, provided that it reads each word in
front of the words that follow it and stops right behind it. -/
theorem readMany_flatMap {Word : Type*} {read : State → Except Fault (Value × State)}
    {write : Word → List Symbol} {meaning : Word → Value} {tail : List Symbol}
    (holds : State → List Symbol → Prop) (words : List Word)
    (hstep : ∀ word after, word :: after <:+ words →
      ∀ state, holds state (write word ++ (after.flatMap write ++ tail)) →
        ∃ next, read state = .ok (meaning word, next) ∧ holds next (after.flatMap write ++ tail))
    (state : State) (hholds : holds state (words.flatMap write ++ tail)) :
    ∃ last, readMany read words.length state = .ok (words.map meaning, last) ∧
      holds last tail := by
  induction words generalizing state with
  | nil => exact ⟨state, rfl, hholds⟩
  | cons word after ih =>
    have hword : holds state (write word ++ (after.flatMap write ++ tail)) := by
      simpa using hholds
    obtain ⟨next, hread, hnext⟩ := hstep word after List.suffix_rfl state hword
    have hlater : ∀ word' after', word' :: after' <:+ after →
        ∀ state, holds state (write word' ++ (after'.flatMap write ++ tail)) →
          ∃ next, read state = .ok (meaning word', next) ∧
            holds next (after'.flatMap write ++ tail) :=
      fun word' after' hsuffix ↦ hstep word' after' (hsuffix.trans (List.suffix_cons word after))
    obtain ⟨last, hmany, hlast⟩ := ih hlater next hnext
    apply Exists.intro last
    constructor
    · simp [readMany, hread, hmany, bind, Except.bind, pure, Except.pure]
    · exact hlast

end NdnCxx
