import Mathlib.Data.List.Chain

/-!
# Chains of endorsements

An item is endorsed when it is admitted and signed by a root, or admitted and signed by an endorsed
item that may sign. Unfolding the definition gives a chain of items from the endorsed one to one
that a root signs, and every such chain endorses its first item. What may sign can grow with time;
an endorsement that was given stays.
-/

namespace NdnCxx

/-- Which items are admitted, which may sign, what they sign, and what a root signs. -/
structure Authority (Item : Type*) where
  admits : Item → Prop
  maySign : Item → Prop
  signs : Item → Item → Prop
  rootSigns : Item → Prop

namespace Authority

variable {Item : Type*} {authority later : Authority Item}

/-- An item is endorsed through finitely many signers. -/
inductive Endorses (authority : Authority Item) : Item → Prop
  | root {item : Item} (hadmitted : authority.admits item) (hroot : authority.rootSigns item) :
      Endorses authority item
  | signer {item signer : Item} (hadmitted : authority.admits item)
      (hsigns : authority.signs signer item) (hsigner : authority.maySign signer)
      (hendorsed : Endorses authority signer) : Endorses authority item

/-- Every item of the chain is admitted and signed by the next one, and a root signs the last. -/
structure IsChain (authority : Authority Item) (chain : List Item) : Prop where
  admitted : ∀ item ∈ chain, authority.admits item
  signed : chain.IsChain fun item signer ↦ authority.signs signer item
  maySign : ∀ signer ∈ chain.tail, authority.maySign signer
  rooted : ∃ last ∈ chain.getLast?, authority.rootSigns last

/-- Every condition of one authority holds under the other. -/
structure IsExtendedBy (authority later : Authority Item) : Prop where
  admits : ∀ item, authority.admits item → later.admits item
  maySign : ∀ item, authority.maySign item → later.maySign item
  signs : ∀ signer item, authority.signs signer item → later.signs signer item
  rootSigns : ∀ item, authority.rootSigns item → later.rootSigns item

variable {item : Item}

theorem Endorses.mono (hextended : authority.IsExtendedBy later)
    (hendorsed : authority.Endorses item) : later.Endorses item := by
  induction hendorsed with
  | root hadmitted hroot =>
    exact .root (hextended.admits _ hadmitted) (hextended.rootSigns _ hroot)
  | signer hadmitted hsigns hsigner _ ih =>
    exact .signer (hextended.admits _ hadmitted) (hextended.signs _ _ hsigns)
      (hextended.maySign _ hsigner) ih

theorem isChain_singleton (hadmitted : authority.admits item) (hroot : authority.rootSigns item) :
    authority.IsChain [item] where
  admitted := by simpa using hadmitted
  signed := List.isChain_singleton item
  maySign := by simp
  rooted := ⟨item, by simp, hroot⟩

theorem IsChain.cons {signer : Item} {chain : List Item} (hadmitted : authority.admits item)
    (hsigns : authority.signs signer item) (hsigner : authority.maySign signer)
    (hchain : authority.IsChain (signer :: chain)) :
    authority.IsChain (item :: signer :: chain) where
  admitted := List.forall_mem_cons.mpr ⟨hadmitted, hchain.admitted⟩
  signed := List.isChain_cons_cons.mpr ⟨hsigns, hchain.signed⟩
  maySign := List.forall_mem_cons.mpr ⟨hsigner, hchain.maySign⟩
  rooted := by simpa using hchain.rooted

/-- The endorsed items are the heads of the chains. -/
theorem endorses_iff_exists_chain :
    authority.Endorses item ↔ ∃ signers, authority.IsChain (item :: signers) := by
  constructor
  · intro hendorsed
    induction hendorsed with
    | root hadmitted hroot => exact ⟨[], isChain_singleton hadmitted hroot⟩
    | signer hadmitted hsigns hsigner _ ih =>
      obtain ⟨signers, hchain⟩ := ih
      exact ⟨_, hchain.cons hadmitted hsigns hsigner⟩
  · rintro ⟨signers, hchain⟩
    induction signers generalizing item with
    | nil =>
      obtain ⟨last, hlast, hroot⟩ := hchain.rooted
      obtain rfl : item = last := by simpa using hlast
      exact .root (hchain.admitted item (by simp)) hroot
    | cons signer signers ih =>
      have hsigned := List.isChain_cons_cons.mp hchain.signed
      have hrest : authority.IsChain (signer :: signers) :=
        { admitted := fun other hother ↦ hchain.admitted other (List.mem_cons_of_mem _ hother)
          signed := hsigned.2
          maySign := fun other hother ↦ hchain.maySign other (List.mem_cons_of_mem _ hother)
          rooted := by simpa using hchain.rooted }
      exact .signer (hchain.admitted item (by simp)) hsigned.1
        (hchain.maySign signer (by simp)) (ih hrest)

end Authority

end NdnCxx
