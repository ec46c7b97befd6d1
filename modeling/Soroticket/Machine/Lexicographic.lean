import Mathlib.Data.List.Basic
import Mathlib.Order.Basic
import Mathlib.Tactic.Common

/-!
# Where two lists differ first

The lexicographic order of two lists of one length is decided at the first place where they differ.
A map that is injective on their entries leaves that place where it is, whatever it does to the
order there.
-/

variable {α β : Type} [DecidableEq α] [DecidableEq β]

/-- The entries of two lists at the first place where they differ. -/
def firstDifference : List α → List α → Option (α × α)
  | x :: l, y :: l' => if x = y then firstDifference l l' else some (x, y)
  | _, _ => none

theorem firstDifference_cons_self (x : α) (l l' : List α) :
    firstDifference (x :: l) (x :: l') = firstDifference l l' := if_pos rfl

theorem firstDifference_cons_of_ne {x y : α} (h : x ≠ y) (l l' : List α) :
    firstDifference (x :: l) (y :: l') = some (x, y) := if_neg h

/-- A common beginning does not count. -/
theorem firstDifference_append_left (r l l' : List α) :
    firstDifference (r ++ l) (r ++ l') = firstDifference l l' := by
  induction r with
  | nil => rfl
  | cons x r ih => rw [List.cons_append, List.cons_append, firstDifference_cons_self, ih]

/-- Nor does a common end, of lists of one length. -/
theorem firstDifference_append_right {l l' : List α} (h : l.length = l'.length) (r : List α) :
    firstDifference (l ++ r) (l' ++ r) = firstDifference l l' := by
  induction l generalizing l' with
  | nil =>
    obtain rfl := List.length_eq_zero_iff.1 h.symm
    simpa using firstDifference_append_left r ([] : List α) []
  | cons x l ih =>
    cases l' with
    | nil => exact absurd h (Nat.succ_ne_zero _)
    | cons y l' =>
      have htail := ih (Nat.succ.inj h)
      by_cases hxy : x = y
      · subst hxy
        rw [List.cons_append, List.cons_append, firstDifference_cons_self,
          firstDifference_cons_self, htail]
      · rw [List.cons_append, List.cons_append, firstDifference_cons_of_ne hxy,
          firstDifference_cons_of_ne hxy]

theorem mem_of_firstDifference {l l' : List α} {x y : α}
    (h : firstDifference l l' = some (x, y)) : x ∈ l ∧ y ∈ l' ∧ x ≠ y := by
  induction l generalizing l' with
  | nil => exact absurd h (Option.some_ne_none _).symm
  | cons a l ih =>
    cases l' with
    | nil => exact absurd h (Option.some_ne_none _).symm
    | cons b l' =>
      by_cases hab : a = b
      · subst hab
        rw [firstDifference_cons_self] at h
        obtain ⟨hx, hy, hne⟩ := ih h
        exact ⟨List.mem_cons_of_mem _ hx, List.mem_cons_of_mem _ hy, hne⟩
      · rw [firstDifference_cons_of_ne hab] at h
        obtain ⟨rfl, rfl⟩ := Prod.mk.inj (Option.some.inj h)
        exact ⟨List.mem_cons_self, List.mem_cons_self, hab⟩

/-- A map that is injective on the entries keeps the place. -/
theorem firstDifference_map {f : α → β} {l l' : List α}
    (hf : ∀ x ∈ l, ∀ y ∈ l', f x = f y → x = y) :
    firstDifference (l.map f) (l'.map f) = (firstDifference l l').map (Prod.map f f) := by
  induction l generalizing l' with
  | nil => rfl
  | cons x l ih =>
    cases l' with
    | nil => rfl
    | cons y l' =>
      have htail := ih fun a ha b hb ↦
        hf a (List.mem_cons_of_mem _ ha) b (List.mem_cons_of_mem _ hb)
      by_cases hxy : x = y
      · subst hxy
        rw [List.map_cons, List.map_cons, firstDifference_cons_self, firstDifference_cons_self,
          htail]
      · have hne : f x ≠ f y := fun h ↦ hxy (hf x List.mem_cons_self y List.mem_cons_self h)
        rw [List.map_cons, List.map_cons, firstDifference_cons_of_ne hxy,
          firstDifference_cons_of_ne hne]
        rfl

/-- **The lexicographic order** of two lists of one length is the order at their first
difference. -/
theorem lt_iff_firstDifference [LT α] [Std.Irrefl (fun x y : α ↦ x < y)] {l l' : List α}
    (h : l.length = l'.length) :
    l < l' ↔ ∃ x y, firstDifference l l' = some (x, y) ∧ x < y := by
  induction l generalizing l' with
  | nil =>
    obtain rfl := List.length_eq_zero_iff.1 h.symm
    exact ⟨fun hlt ↦ absurd hlt (List.not_lt_nil _), fun ⟨x, y, hnone, _⟩ ↦
      absurd hnone (Option.some_ne_none _).symm⟩
  | cons a l ih =>
    cases l' with
    | nil => exact absurd h (Nat.succ_ne_zero _)
    | cons b l' =>
      rw [List.cons_lt_cons_iff]
      by_cases hab : a = b
      · subst hab
        rw [firstDifference_cons_self, ← ih (Nat.succ.inj h)]
        exact ⟨fun hlt ↦ hlt.elim (absurd · (Std.Irrefl.irrefl a)) (·.2),
          fun hlt ↦ Or.inr ⟨rfl, hlt⟩⟩
      · rw [firstDifference_cons_of_ne hab]
        constructor
        · rintro (hlt | ⟨heq, -⟩)
          · exact ⟨a, b, rfl, hlt⟩
          · exact absurd heq hab
        · rintro ⟨x, y, heq, hlt⟩
          obtain ⟨rfl, rfl⟩ := Prod.mk.inj (Option.some.inj heq)
          exact Or.inl hlt
