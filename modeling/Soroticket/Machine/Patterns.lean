import Mathlib.Data.List.Infix
import Mathlib.Data.Option.Basic
import Mathlib.Tactic.Common

/-!
# Leftmost matches

A `Pattern` says what it matches at a place of a text, from the letter before the place and the text
that begins there; what it matches begins there too. `find` tries the places from the left, and
gives the match at the first that has one.

A match is a part of the text (`isInfix_find`), and there is none exactly where no place has one
(`find_eq_none_iff`). The whole text is found exactly where it is matched at the start
(`find_eq_self_iff`): a match further on would be shorter.
-/

/-- What is matched at a place, given the letter before it and the text from there on. -/
structure Pattern (α : Type) where
  run : Option α → List α → Option (List α)
  begins : ∀ prev l found, run prev l = some found → found <+: l

namespace Pattern

variable {α : Type}

/-- The first match in a text. -/
def find (p : Pattern α) (prev : Option α) : List α → Option (List α)
  | [] => p.run prev []
  | a :: l => (p.run prev (a :: l)).or (p.find (some a) l)

variable {p : Pattern α} {prev : Option α} {l found : List α}

/-- The letter before a place, past one more letter. -/
theorem getLast?_cons_or (a : α) (l : List α) (prev : Option α) :
    (a :: l).getLast?.or prev = l.getLast?.or (some a) := by
  cases l with
  | nil => rfl
  | cons b l => rw [List.getLast?_cons_cons, List.getLast?_cons, Option.some_or, Option.some_or]

/-- A match is the match at some place. -/
theorem exists_run_of_find (h : p.find prev l = some found) :
    ∃ before after, before ++ after = l ∧ p.run (before.getLast?.or prev) after = some found := by
  induction l generalizing prev with
  | nil => exact ⟨[], [], rfl, h⟩
  | cons a l ih =>
    rw [find, Option.or_eq_some_iff] at h
    rcases h with hhere | ⟨-, hlater⟩
    · exact ⟨[], a :: l, rfl, hhere⟩
    · obtain ⟨before, after, rfl, hrun⟩ := ih hlater
      exact ⟨a :: before, after, rfl, by rwa [getLast?_cons_or]⟩

/-- **There is no match** exactly where there is none at any place. -/
theorem find_eq_none_iff : p.find prev l = none ↔
    ∀ before after, before ++ after = l → p.run (before.getLast?.or prev) after = none := by
  constructor
  · intro h before after hl
    induction before generalizing prev l with
    | nil =>
      obtain rfl : after = l := hl
      cases after with
      | nil => exact h
      | cons a l =>
        rw [find, Option.or_eq_none_iff] at h
        exact h.1
    | cons b before ih =>
      subst hl
      rw [List.cons_append, find, Option.or_eq_none_iff] at h
      rw [getLast?_cons_or]
      exact ih h.2 rfl
  · intro h
    cases hfind : p.find prev l with
    | none => rfl
    | some found =>
      obtain ⟨before, after, hl, hrun⟩ := exists_run_of_find hfind
      exact absurd (hrun.symm.trans (h before after hl)) (Option.some_ne_none found)

/-- A match is a part of the text. -/
theorem isInfix_find (h : p.find prev l = some found) : found <:+: l := by
  obtain ⟨before, after, rfl, hrun⟩ := exists_run_of_find h
  obtain ⟨rest, rfl⟩ := p.begins _ _ _ hrun
  exact ⟨before, rest, List.append_assoc ..⟩

/-- **The whole text is found** exactly where it is matched at the start. -/
theorem find_eq_self_iff : p.find prev l = some l ↔ p.run prev l = some l := by
  cases l with
  | nil => exact Iff.rfl
  | cons a l =>
    rw [find, Option.or_eq_some_iff]
    constructor
    · rintro (hhere | ⟨-, hlater⟩)
      · exact hhere
      · have hlen := (isInfix_find hlater).length_le
        rw [List.length_cons] at hlen
        omega
    · exact Or.inl

end Pattern
