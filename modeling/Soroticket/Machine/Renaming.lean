import Mathlib.Algebra.BigOperators.Group.List.Basic
import Mathlib.Data.List.Forall2
import Mathlib.Tactic.Common

/-!
# Renaming in a table

The rows of a table bear names, and one name is given up for another: the rows that are in question
and bear the old name take the new one (`Naming.move`). Rows under both names may be there at once.

What is done again changes nothing (`map_move_map_move`); rows that bear other names are left alone
(`move_of_ne`), and so is every sum over rows that the name has no part in (`sum_map_move`).

A table in which some rows bear the old name, and one in which those rows have always borne the new
one, are the same table once both are renamed (`map_move_eq`): a renaming can be made late.
-/

namespace Renaming

variable {α ν β : Type}

/-- How rows bear names, and which rows are in question. -/
structure Naming (α ν : Type) where
  mine : α → Prop
  name : α → ν
  rename : ν → α → α
  name_rename : ∀ n a, name (rename n a) = n

/-- Sums over rows that are alike in what is summed, and in whether they count. -/
theorem sum_of_forall₂ [AddMonoid β] {R : α → α → Prop} {f : α → β} {p : α → Bool} {l l' : List α}
    (h : List.Forall₂ R l l') (hf : ∀ a a', R a a' → f a' = f a)
    (hp : ∀ a a', R a a' → p a' = p a) :
    ((l'.filter p).map f).sum = ((l.filter p).map f).sum := by
  induction h with
  | nil => rfl
  | @cons a a' _ _ h _ ih =>
    rw [List.filter_cons, List.filter_cons, hp a a' h]
    split
    · rw [List.map_cons, List.map_cons, List.sum_cons, List.sum_cons, hf a a' h, ih]
    · exact ih

namespace Naming

variable (N : Naming α ν) (old new : ν)

/-! ### Rows that have always borne the new name -/

/-- A row, and the same row if it is in question and has always borne the new name. -/
inductive Late : α → α → Prop
  | same (a : α) : Late a a
  | late (a : α) (hmine : N.mine a) (hname : N.name a = old) : Late a (N.rename new a)

variable {N old new} {a a' : α} {l l' : List α}

theorem late_refl (l : List α) : List.Forall₂ (N.Late old new) l l :=
  List.forall₂_same.2 fun a _ ↦ .same a

/-- What the name has no part in is the same in both. -/
theorem Late.congr {f : α → β} (hf : ∀ n a, f (N.rename n a) = f a) (h : N.Late old new a a') :
    f a' = f a := by
  cases h with
  | same => rfl
  | late => exact hf new a

theorem sum_late [AddMonoid β] {f : α → β} {p : α → Bool} (hf : ∀ n a, f (N.rename n a) = f a)
    (hp : ∀ n a, p (N.rename n a) = p a) (h : List.Forall₂ (N.Late old new) l l') :
    ((l'.filter p).map f).sum = ((l.filter p).map f).sum :=
  sum_of_forall₂ h (fun _ _ h ↦ h.congr hf) fun _ _ h ↦ h.congr hp

/-! ### The renaming -/

variable [DecidablePred N.mine] [DecidableEq ν]

variable (N old new) in
/-- A row after the renaming. -/
def move (a : α) : α := if N.mine a ∧ N.name a = old then N.rename new a else a

theorem move_of_eq (hmine : N.mine a) (hname : N.name a = old) :
    N.move old new a = N.rename new a := if_pos ⟨hmine, hname⟩

theorem move_of_ne (hname : N.name a ≠ old) : N.move old new a = a := if_neg fun h ↦ hname h.2

theorem move_of_not_mine (hmine : ¬N.mine a) : N.move old new a = a := if_neg fun h ↦ hmine h.1

/-- A row is renamed, or is as it was: the renaming itself is late. -/
theorem late_move (a : α) : N.Late old new a (N.move old new a) := by
  rw [move]
  split
  · rename_i h
    exact .late a h.1 h.2
  · exact .same a

/-- A renamed row does not bear the old name. -/
theorem Late.move_eq (hne : new ≠ old) (h : N.Late old new a a') :
    N.move old new a' = N.move old new a := by
  cases h with
  | same => rfl
  | late hmine hname =>
    rw [move_of_eq hmine hname]
    exact move_of_ne (by rwa [N.name_rename])

/-- **A renaming can be made late.** -/
theorem map_move_eq (hne : new ≠ old) (h : List.Forall₂ (N.Late old new) l l') :
    l'.map (N.move old new) = l.map (N.move old new) := by
  induction h with
  | nil => rfl
  | cons h _ ih => rw [List.map_cons, List.map_cons, h.move_eq hne, ih]

theorem late_map_move (l : List α) :
    List.Forall₂ (N.Late old new) l (l.map (N.move old new)) := by
  rw [List.forall₂_map_right_iff, List.forall₂_same]
  exact fun a _ ↦ late_move a

/-- **Renaming again changes nothing.** -/
theorem map_move_map_move (hne : new ≠ old) (l : List α) :
    (l.map (N.move old new)).map (N.move old new) = l.map (N.move old new) :=
  map_move_eq hne (late_map_move l)

/-- **Sums stay**, over any rows that are told apart without their names. -/
theorem sum_map_move [AddMonoid β] {f : α → β} {p : α → Bool}
    (hf : ∀ n a, f (N.rename n a) = f a) (hp : ∀ n a, p (N.rename n a) = p a) (l : List α) :
    (((l.map (N.move old new)).filter p).map f).sum = ((l.filter p).map f).sum :=
  sum_late hf hp (late_map_move l)

end Naming

end Renaming
