import Mathlib.Data.List.Forall2
import Soroticket.Machine.Interleaving

/-!
# Two services in lockstep

Two services whose requests take their turns in the same order, with choices that may differ. What
two runs have in common is a relation between the requests of the one and those of the other, with
the same shared state on both sides. It is kept by a pair of steps that agree: both wait, or both go
ahead and leave the same state behind (`Agree`).

A statement that compares two runs, such as that a run keeps nothing of what differs between them,
is then a statement about one pair of steps (`after_paired`).

Where the shared states differ as well, and the choices are the same, the relation is one between
configurations (`serve_related`).
-/

namespace Interleaving

variable {σ σ' π π' χ χ' ω : Type}

/-- Turns of two runs that are taken by the same request, or are the same event. -/
inductive Turn.Paired (K : χ → χ' → Prop) : Turn χ ω → Turn χ' ω → Prop
  | request (i : ℕ) {ch : χ} {ch' : χ'} (h : K ch ch') : Paired K (.request i ch) (.request i ch')
  | outside (event : ω) : Paired K (.outside event) (.outside event)

/-- Two configurations with the same shared state, and requests that `Q` pairs. -/
structure Config.Paired (Q : π → π' → Prop) (c : Config σ π) (c' : Config σ π') : Prop where
  shared : c'.shared = c.shared
  request : ∀ i, Q (c.requests i) (c'.requests i)

/-- What paired requests do at a step: both wait, or they are paired again and have left the same
state behind. -/
abbrev Agree (Q : π → π' → Prop) (x : Option (π × σ)) (x' : Option (π' × σ)) : Prop :=
  Option.Rel (fun a a' ↦ Q a.1 a'.1 ∧ a'.2 = a.2) x x'

namespace Service

variable {S : Service σ π χ ω} {S' : Service σ π' χ' ω} {Q : π → π' → Prop} {K : χ → χ' → Prop}
  {G : Config σ π → Turn χ ω → Prop}

/-- One turn of each run. -/
theorem paired_turn {c : Config σ π} {c' : Config σ π'} {t : Turn χ ω} {t' : Turn χ' ω}
    (hc : c.Paired Q c') (ht : t.Paired K t') (houtside : S'.outside = S.outside)
    (hadvance : ∀ i ch ch', t = .request i ch → K ch ch' →
      Agree Q (S.advance ch (c.requests i) c.shared) (S'.advance ch' (c'.requests i) c.shared)) :
    (S.turn c t).Paired Q (S'.turn c' t') := by
  cases ht with
  | @request i ch ch' hK =>
    have hagree := hadvance i ch ch' rfl hK
    rw [turn, turn, hc.shared]
    generalize S.advance ch (c.requests i) c.shared = x at hagree
    generalize S'.advance ch' (c'.requests i) c.shared = x' at hagree
    cases hagree with
    | none => exact hc
    | some h =>
      refine ⟨h.2, fun j ↦ ?_⟩
      dsimp only
      rcases eq_or_ne j i with rfl | hj
      · rw [Function.update_self, Function.update_self]
        exact h.1
      · rw [Function.update_of_ne hj, Function.update_of_ne hj]
        exact hc.request j
  | outside event =>
    refine ⟨?_, hc.request⟩
    rw [turn, turn, houtside, hc.shared]

/-- **The two-run rule.** Two runs that start alike, and take paired turns, are alike all along, if
the steps of paired requests agree wherever `G` allows the step of the first. -/
theorem after_paired {init : Config σ π} {init' : Config σ π'} {turns : List (Turn χ ω)}
    {turns' : List (Turn χ' ω)} (hinit : init.Paired Q init')
    (hturns : List.Forall₂ (Turn.Paired K) turns turns')
    (hG : ∀ n t, turns[n]? = some t → G (S.after init turns n) t)
    (houtside : S'.outside = S.outside)
    (hadvance : ∀ c i ch ch' p', G c (.request i ch) → K ch ch' → Q (c.requests i) p' →
      Agree Q (S.advance ch (c.requests i) c.shared) (S'.advance ch' p' c.shared)) (n : ℕ) :
    (S.after init turns n).Paired Q (S'.after init' turns' n) := by
  induction n with
  | zero => exact hinit
  | succ n ih =>
    have hlen := hturns.length_eq
    cases ht : turns[n]? with
    | none =>
      have ht' : turns'[n]? = none := by
        rw [List.getElem?_eq_none_iff] at ht ⊢
        omega
      rw [after_succ_of_none ht, after_succ_of_none ht']
      exact ih
    | some t =>
      obtain ⟨hn, rfl⟩ := List.getElem?_eq_some_iff.1 ht
      have hn' : n < turns'.length := hlen ▸ hn
      rw [after_succ_of_some ht, after_succ_of_some (List.getElem?_eq_getElem hn')]
      refine paired_turn ih (hturns.get hn hn') houtside fun i ch ch' heq hK ↦ ?_
      exact hadvance _ i ch ch' _ (heq ▸ hG n _ ht) hK (ih.request i)

/-- **The rule for related runs.** Configurations that are related, of two services that take the
same turns, are related all along, if each step of a request relates them again or both wait. -/
theorem serve_related {S : Service σ π χ ω} {S' : Service σ' π' χ ω}
    {R : Config σ π → Config σ' π' → Prop} {init : Config σ π} {init' : Config σ' π'}
    (hinit : R init init')
    (hadvance : ∀ c c' i ch, R c c' → Option.Rel
      (fun y y' ↦ R ⟨y.2, Function.update c.requests i y.1⟩
        ⟨y'.2, Function.update c'.requests i y'.1⟩)
      (S.advance ch (c.requests i) c.shared) (S'.advance ch (c'.requests i) c'.shared))
    (houtside : ∀ c c' event, R c c' →
      R ⟨S.outside event c.shared, c.requests⟩ ⟨S'.outside event c'.shared, c'.requests⟩)
    (turns : List (Turn χ ω)) : R (S.serve init turns) (S'.serve init' turns) := by
  induction turns using List.reverseRecOn with
  | nil => exact hinit
  | append_singleton turns t ih =>
    rw [serve_concat, serve_concat]
    cases t with
    | request i ch =>
      have hrel := hadvance _ _ i ch ih
      rw [turn, turn]
      generalize S.advance ch _ _ = x at hrel
      generalize S'.advance ch _ _ = x' at hrel
      cases hrel with
      | none => exact ih
      | some h => exact h
    | outside event => exact houtside _ _ event ih

end Service

/-! ### Steps that may fail -/

theorem rel_imp {α β : Type} {T U : α → β → Prop} {x : Option α} {x' : Option β}
    (h : Option.Rel T x x') (himp : ∀ a b, T a b → U a b) : Option.Rel U x x' := by
  cases h with
  | none => exact .none
  | some h => exact .some (himp _ _ h)

/-- Results that are the same error, or values that are related. -/
inductive ExceptRel {ε α β : Type} (T : α → β → Prop) : Except ε α → Except ε β → Prop
  | error (e : ε) : ExceptRel T (.error e) (.error e)
  | ok {a : α} {b : β} (h : T a b) : ExceptRel T (.ok a) (.ok b)

namespace ExceptRel

variable {ε α β α' β' : Type} {T : α → β → Prop} {U : α' → β' → Prop}

/-- A result and itself. -/
theorem of_ok {T : α → α → Prop} {x : Except ε α} (h : ∀ a, x = .ok a → T a a) :
    ExceptRel T x x := by
  rcases x with e | a
  · exact .error e
  · exact .ok (h a rfl)

theorem bind {x : Except ε α} {x' : Except ε β} {f : α → Except ε α'} {f' : β → Except ε β'}
    (hx : ExceptRel T x x') (hf : ∀ a b, T a b → ExceptRel U (f a) (f' b)) :
    ExceptRel U (x >>= f) (x' >>= f') := by
  cases hx with
  | error e => exact .error e
  | ok h => exact hf _ _ h

end ExceptRel

end Interleaving
