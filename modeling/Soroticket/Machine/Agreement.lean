import Mathlib.Data.List.Forall2
import Soroticket.Machine.Transaction

/-!
# Two outcomes that agree

To compare two runs of one program on different states is to relate their outcomes step by step:
both steps succeed with related values, or both fail with the same fault. `Outcome.Agree` is this
relation, with a rule for each way a body is put together. A body that is compared with itself is
taken apart by `Agree.bind`, down to the places where it reads the state.

The second loop rule sets the traps of the first run aside: a round has to agree only where the
first run does not trap. An invocation that runs out of a counter on the larger of two states need
not do so on the smaller one.
-/

universe u v

namespace Outcome

variable {ε : Type v} {α α' β β' γ : Type u}

/-- Both outcomes are successes with related values, or they are the same fault. -/
inductive Agree (P : α → β → Prop) : Outcome ε α → Outcome ε β → Prop
  | ok {a : α} {b : β} (h : P a b) : Agree P (.ok a) (.ok b)
  | error (f : Fault ε) : Agree P (.error f) (.error f)

namespace Agree

variable {P : α → β → Prop} {x : Outcome ε α} {y : Outcome ε β}

/-- An outcome agrees with itself. -/
theorem rfl_eq (x : Outcome ε α) : Agree Eq x x := by
  cases x with
  | ok a => exact .ok rfl
  | error f => exact .error f

theorem imp {Q : α → β → Prop} (h : Agree P x y) (hPQ : ∀ a b, P a b → Q a b) : Agree Q x y := by
  cases h with
  | ok hab => exact .ok (hPQ _ _ hab)
  | error f => exact .error f

/-- Sequences agree when their first parts do, and their second parts on related values. -/
theorem bind {Q : α' → β' → Prop} {f : α → Outcome ε α'} {g : β → Outcome ε β'}
    (h : Agree P x y) (hfg : ∀ a b, P a b → Agree Q (f a) (g b)) :
    Agree Q (x >>= f) (y >>= g) := by
  cases h with
  | ok hab => exact hfg _ _ hab
  | error e => exact .error e

/-- Sequences that begin alike. -/
theorem bind_same {Q : α' → β' → Prop} {z z' : Outcome ε γ} {f : γ → Outcome ε α'}
    {g : γ → Outcome ε β'} (hz : z' = z) (hfg : ∀ a, z = .ok a → Agree Q (f a) (g a)) :
    Agree Q (z >>= f) (z' >>= g) := by
  subst hz
  cases z' with
  | ok a => exact hfg a rfl
  | error e => exact .error e

theorem map {Q : α' → β' → Prop} {f : α → α'} {g : β → β'} (h : Agree P x y)
    (hfg : ∀ a b, P a b → Q (f a) (g b)) : Agree Q (x.map f) (y.map g) := by
  cases h with
  | ok hab => exact .ok (hfg _ _ hab)
  | error e => exact .error e

/-- Where the first outcome is a value, so is the second. -/
theorem of_ok {a : α} (h : Agree P (.ok a) y) : ∃ b, y = .ok b ∧ P a b := by
  cases h with
  | ok hab => exact ⟨_, rfl, hab⟩

/-- Where the first outcome is a fault, the second is the same. -/
theorem of_error {f : Fault ε} (h : Agree P (.error f) y) : y = .error f := by
  cases h with
  | error => rfl

/-- Outcomes that agree by a function are images of one another. -/
theorem eq_map {f : α → β} (h : Agree (fun a b ↦ b = f a) x y) : y = x.map f := by
  cases h with
  | ok hab => exact congrArg Except.ok hab
  | error e => rfl

/-- What agrees still agrees when it is known what the outcomes were. -/
theorem with_ok (h : Agree P x y) : Agree (fun a b ↦ P a b ∧ x = .ok a ∧ y = .ok b) x y := by
  cases h with
  | ok hab => exact .ok ⟨hab, rfl, rfl⟩
  | error f => exact .error f

/-- Two loops over one list agree when each round does. -/
theorem foldlM {f : α → γ → Outcome ε α} {g : β → γ → Outcome ε β}
    (hround : ∀ a b x, P a b → Agree P (f a x) (g b x)) :
    ∀ {l : List γ} {a : α} {b : β}, P a b → Agree P (l.foldlM f a) (l.foldlM g b)
  | [], a, b, hab => .ok hab
  | x :: l, a, b, hab => by
    rw [List.foldlM_cons, List.foldlM_cons]
    exact (hround a b x hab).bind fun a' b' hab' ↦ foldlM hround hab'

/-- Two loops over one list agree when each round does; a round is compared only where the first
loop does not trap in it. -/
theorem foldlM_of_ne_trap {f : α → γ → Outcome ε α} {g : β → γ → Outcome ε β}
    (hround : ∀ a b x, P a b → f a x ≠ .error .trap → Agree P (f a x) (g b x)) :
    ∀ {l : List γ} {a : α} {b : β}, P a b → l.foldlM f a ≠ .error .trap →
      Agree P (l.foldlM f a) (l.foldlM g b)
  | [], a, b, hab, _ => .ok hab
  | x :: l, a, b, hab, hno => by
    rw [List.foldlM_cons] at hno ⊢
    rw [List.foldlM_cons]
    have hx : f a x ≠ .error .trap := by
      intro htrap
      rw [htrap, error_bind] at hno
      exact hno rfl
    have hagree := hround a b x hab hx
    rcases hf : f a x with e | a'
    · rw [hf] at hagree
      rw [hagree.of_error]
      exact .error e
    · rw [hf] at hagree hno
      obtain ⟨b', hg, hab'⟩ := hagree.of_ok
      rw [hg]
      exact foldlM_of_ne_trap hround hab' hno

end Agree

end Outcome
