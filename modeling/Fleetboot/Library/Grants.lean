import Mathlib.Data.Set.Insert

/-!
# Keys that stand for their owner

Secret keys are drawn one after another, none of them twice, and each is bound to an owner. A
binding can be revoked. Whoever holds a key that was drawn for an owner can act for that owner
while the binding lasts, and never for another one.

* `Change.granted`, `Bind.granted`: a key stays with the owner for whom it was drawn.
-/

set_option autoImplicit false

namespace Grants

universe u v

variable {κ : Type u} {ω : Type v}

/-- The keys that were ever drawn, and the owners to which keys are bound now. -/
structure Ledger (κ : Type u) (ω : Type v) where
  drawn : Set κ
  bound : κ → ω → Prop

namespace Ledger

/-- Nothing is bound but what was drawn. -/
def Sound (l : Ledger κ ω) : Prop := ∀ k o, l.bound k o → k ∈ l.drawn

/-- The key is good for this owner, or for nobody. -/
structure Granted (l : Ledger κ ω) (k : κ) (o : ω) : Prop where
  drawn : k ∈ l.drawn
  only : ∀ o', l.bound k o' → o' = o

/-- Only keys that were not drawn before are bound. -/
structure Change (l l' : Ledger κ ω) : Prop where
  drawn : l.drawn ⊆ l'.drawn
  bound : ∀ k o, l'.bound k o → l.bound k o ∨ (k ∉ l.drawn ∧ k ∈ l'.drawn)

/-- A fresh key is drawn for an owner, and whatever is bound besides was bound before. -/
structure Bind (l : Ledger κ ω) (k : κ) (o : ω) (l' : Ledger κ ω) : Prop where
  fresh : k ∉ l.drawn
  drawn : l'.drawn = insert k l.drawn
  bound : ∀ k' o', l'.bound k' o' → l.bound k' o' ∨ (k' = k ∧ o' = o)

variable {l l' : Ledger κ ω} {k : κ} {o : ω}

theorem Change.sound (h : Change l l') (hsound : l.Sound) : l'.Sound := by
  intro k o hbound
  rcases h.bound k o hbound with hold | ⟨-, hin⟩
  · exact h.drawn (hsound k o hold)
  · exact hin

/-- **A granted key stays with its owner.** -/
theorem Change.granted (h : Change l l') (hgranted : l.Granted k o) : l'.Granted k o := by
  refine ⟨h.drawn hgranted.drawn, fun o' hbound => ?_⟩
  rcases h.bound k o' hbound with hold | ⟨hnot, -⟩
  · exact hgranted.only o' hold
  · exact absurd hgranted.drawn hnot

/-- A key that was drawn for an owner is granted to it. -/
theorem Bind.granted (h : Bind l k o l') (hsound : l.Sound) : l'.Granted k o := by
  refine ⟨?_, fun o' hbound => ?_⟩
  · rw [h.drawn]
    exact Set.mem_insert k l.drawn
  · rcases h.bound k o' hbound with hold | ⟨-, rfl⟩
    · exact absurd (hsound k o' hold) h.fresh
    · rfl

end Ledger

end Grants
