import Mathlib.Logic.Function.Basic
import Mathlib.Order.Basic

/-!
# Who holds which lock

A family of locks, each taken or free, and what each of any number of parties holds: one lock at
most. A lock is taken exactly where somebody holds it, and then one party alone (`Holding`). Taking
a free lock and giving one back keep this.
-/

namespace Holders

variable {κ ι : Type} [DecidableEq κ] [DecidableEq ι]

/-- A lock is taken where somebody holds it, and nobody else does. -/
structure Holding (taken : κ → Bool) (held : ι → Option κ) : Prop where
  taken_iff : ∀ k, taken k = true ↔ ∃ i, held i = some k
  unique : ∀ i j k, held i = some k → held j = some k → i = j

namespace Holding

variable {taken : κ → Bool} {held : ι → Option κ} {i : ι} {k : κ}

omit [DecidableEq κ] [DecidableEq ι] in
/-- At first every lock is free. -/
theorem free : Holding (fun _ : κ ↦ false) fun _ : ι ↦ none where
  taken_iff k := iff_of_false Bool.false_ne_true fun ⟨_, h⟩ ↦ Option.some_ne_none k h.symm
  unique _ _ k h _ := absurd h.symm (Option.some_ne_none k)

omit [DecidableEq κ] in
/-- Nothing is taken or given back. -/
theorem same (h : Holding taken held) (i : ι) :
    Holding taken (Function.update held i (held i)) := by
  rw [Function.update_eq_self]
  exact h

/-- A free lock is taken. -/
theorem take (h : Holding taken held) (hfree : taken k = false) (hi : held i = none) :
    Holding (Function.update taken k true) (Function.update held i (some k)) := by
  have hnobody : ∀ j, held j ≠ some k := fun j hj ↦
    Bool.false_ne_true (hfree.symm.trans ((h.taken_iff k).2 ⟨j, hj⟩))
  have hother : ∀ j, j ≠ i → Function.update held i (some k) j = held j := fun j hj ↦
    Function.update_of_ne hj _ _
  refine ⟨fun k' ↦ ?_, fun j j' k' hj hj' ↦ ?_⟩
  · rcases eq_or_ne k' k with rfl | hk
    · rw [Function.update_self]
      exact iff_of_true rfl ⟨i, Function.update_self ..⟩
    · rw [Function.update_of_ne hk, h.taken_iff]
      refine exists_congr fun j ↦ ?_
      rcases eq_or_ne j i with rfl | hne
      · rw [Function.update_self, hi]
        exact iff_of_false (Option.some_ne_none k').symm fun heq ↦ hk (Option.some.inj heq).symm
      · rw [hother j hne]
  · rcases eq_or_ne j i with rfl | hne
    · rcases eq_or_ne j' j with rfl | hne'
      · rfl
      · rw [Function.update_self] at hj
        obtain rfl := Option.some.inj hj
        rw [hother j' hne'] at hj'
        exact absurd hj' (hnobody j')
    · rw [hother j hne] at hj
      rcases eq_or_ne j' i with rfl | hne'
      · rw [Function.update_self] at hj'
        obtain rfl := Option.some.inj hj'
        exact absurd hj (hnobody j)
      · rw [hother j' hne'] at hj'
        exact h.unique j j' k' hj hj'

/-- A lock is given back. -/
theorem give (h : Holding taken held) (hi : held i = some k) :
    Holding (Function.update taken k false) (Function.update held i none) := by
  have hother : ∀ j, j ≠ i → Function.update held i none j = held j := fun j hj ↦
    Function.update_of_ne hj _ _
  refine ⟨fun k' ↦ ?_, fun j j' k' hj hj' ↦ ?_⟩
  · rcases eq_or_ne k' k with rfl | hk
    · rw [Function.update_self]
      refine iff_of_false Bool.false_ne_true fun ⟨j, hj⟩ ↦ ?_
      rcases eq_or_ne j i with rfl | hne
      · rw [Function.update_self] at hj
        exact Option.some_ne_none k' hj.symm
      · rw [hother j hne] at hj
        exact hne (h.unique j i k' hj hi)
    · rw [Function.update_of_ne hk, h.taken_iff]
      refine exists_congr fun j ↦ ?_
      rcases eq_or_ne j i with rfl | hne
      · rw [Function.update_self, hi]
        exact iff_of_false (fun heq ↦ hk (Option.some.inj heq).symm) (Option.some_ne_none k').symm
      · rw [hother j hne]
  · rcases eq_or_ne j i with rfl | hne
    · rw [Function.update_self] at hj
      exact absurd hj.symm (Option.some_ne_none k')
    · rcases eq_or_ne j' i with rfl | hne'
      · rw [Function.update_self] at hj'
        exact absurd hj'.symm (Option.some_ne_none k')
      · rw [hother j hne] at hj
        rw [hother j' hne'] at hj'
        exact h.unique j j' k' hj hj'

end Holding

end Holders
