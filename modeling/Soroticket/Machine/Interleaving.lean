import Mathlib.Data.List.Induction
import Mathlib.Data.Nat.Init
import Mathlib.Logic.Function.Basic
import Mathlib.Tactic.Common

/-!
# Interleaved requests and locks

A server with a shared state and any number of requests in flight. A request advances one atomic
step at a time, in any order with the others; what its surroundings decide at a step (the time, an
answer of another service, whether something fails) is a choice handed to the step. A step that
waits, for a lock or because its request has been answered, is no step: the turn passes.

A schedule is the list of turns taken, so every interleaving of every set of requests is
`serve init turns` for some list, and an invariant is an induction over it (`serve_induction`).

## What a lock gives

Locks are part of the shared state, and a place of a request says which of them it holds.
`LockDiscipline` asks three things of a step: a lock is taken only when it is free, given back only
by its holder, and otherwise left alone. Nothing more is needed for mutual exclusion
(`LockDiscipline.exclusive_serve`), whatever the steps do in between.

## Where a request has been

A request found in a phase it did not start in has entered it at some turn and has not left it since
(`exists_entry`). This is how a statement about a step deep in a request speaks of an earlier one.
-/

namespace Interleaving

variable {σ π χ ω κ : Type}

/-- The state of a server: what is shared, and the place of each request. -/
structure Config (σ π : Type) where
  shared : σ
  requests : ℕ → π

/-- The steps of requests, and the events from outside. -/
structure Service (σ π χ ω : Type) where
  /-- One step of a request, or `none` where it waits. -/
  advance : χ → π → σ → Option (π × σ)
  outside : ω → σ → σ

/-- A turn: a request advances, or something happens outside. -/
inductive Turn (χ ω : Type) where
  | request (i : ℕ) (choice : χ)
  | outside (event : ω)

namespace Service

variable (S : Service σ π χ ω)

/-! ### Schedules -/

/-- The configuration after one turn. -/
def turn (c : Config σ π) : Turn χ ω → Config σ π
  | .request i choice =>
    match S.advance choice (c.requests i) c.shared with
    | some (p, s) => ⟨s, Function.update c.requests i p⟩
    | none => c
  | .outside event => ⟨S.outside event c.shared, c.requests⟩

/-- The configuration after a list of turns. -/
def serve (init : Config σ π) (turns : List (Turn χ ω)) : Config σ π := turns.foldl S.turn init

theorem serve_append (init : Config σ π) (before after : List (Turn χ ω)) :
    S.serve init (before ++ after) = S.serve (S.serve init before) after :=
  List.foldl_append

theorem serve_concat (init : Config σ π) (turns : List (Turn χ ω)) (t : Turn χ ω) :
    S.serve init (turns ++ [t]) = S.turn (S.serve init turns) t :=
  S.serve_append init turns [t]

variable {S}

theorem turn_of_advance {c : Config σ π} {i : ℕ} {choice : χ} {p : π} {s : σ}
    (h : S.advance choice (c.requests i) c.shared = some (p, s)) :
    S.turn c (.request i choice) = ⟨s, Function.update c.requests i p⟩ := by
  rw [turn, h]

variable (S) in
/-- A turn passes, advances one request, or lets something happen outside. -/
theorem turn_cases (c : Config σ π) (t : Turn χ ω) :
    S.turn c t = c ∨
      (∃ i choice p s, t = .request i choice ∧
        S.advance choice (c.requests i) c.shared = some (p, s) ∧
        S.turn c t = ⟨s, Function.update c.requests i p⟩) ∨
      ∃ event, t = .outside event ∧ S.turn c t = ⟨S.outside event c.shared, c.requests⟩ := by
  rcases t with ⟨i, choice⟩ | event
  · rcases h : S.advance choice (c.requests i) c.shared with - | ⟨p, s⟩
    · refine Or.inl ?_
      rw [turn, h]
    · exact Or.inr (Or.inl ⟨i, choice, p, s, rfl, h, turn_of_advance h⟩)
  · exact Or.inr (Or.inr ⟨event, rfl, rfl⟩)

/-- **The invariant rule.** What holds at the start, and survives every step of a request and every
event from outside, holds after every schedule. -/
theorem serve_induction {P : Config σ π → Prop} {init : Config σ π} (hinit : P init)
    (hadvance : ∀ c i choice p s, P c → S.advance choice (c.requests i) c.shared = some (p, s) →
      P ⟨s, Function.update c.requests i p⟩)
    (houtside : ∀ c event, P c → P ⟨S.outside event c.shared, c.requests⟩)
    (turns : List (Turn χ ω)) : P (S.serve init turns) := by
  induction turns using List.reverseRecOn with
  | nil => exact hinit
  | append_singleton turns t ih =>
    rw [serve_concat]
    rcases S.turn_cases (S.serve init turns) t with
      hpass | ⟨i, choice, p, s, -, h, hturn⟩ | ⟨event, -, hturn⟩
    · rw [hpass]
      exact ih
    · rw [hturn]
      exact hadvance _ i choice p s ih h
    · rw [hturn]
      exact houtside _ event ih

/-! ### What has happened so far -/

variable (S) in
/-- The configuration after the first turns of a schedule. -/
def after (init : Config σ π) (turns : List (Turn χ ω)) (n : ℕ) : Config σ π :=
  S.serve init (turns.take n)

section After

variable {init : Config σ π} {turns : List (Turn χ ω)} {n : ℕ}

/-- The next turn of a schedule, if it has one. -/
theorem after_succ_of_some {t : Turn χ ω} (h : turns[n]? = some t) :
    S.after init turns (n + 1) = S.turn (S.after init turns n) t := by
  rw [after, List.take_add_one, h, Option.toList_some, serve_concat, after]

theorem after_succ_of_none (h : turns[n]? = none) :
    S.after init turns (n + 1) = S.after init turns n := by
  rw [after, List.take_add_one, h, Option.toList_none, List.append_nil, after]

/-- **The invariant rule, for schedules that are kept to.** What holds from some point on, and
survives every turn that `G` allows, holds ever after in a schedule whose turns `G` allows. -/
theorem after_induction {P : Config σ π → Prop} {G : Config σ π → Turn χ ω → Prop} {k : ℕ}
    (hk : P (S.after init turns k))
    (hturns : ∀ n t, turns[n]? = some t → G (S.after init turns n) t)
    (hadvance : ∀ c i choice p s, P c → G c (.request i choice) →
      S.advance choice (c.requests i) c.shared = some (p, s) →
        P ⟨s, Function.update c.requests i p⟩)
    (houtside : ∀ c event, P c → P ⟨S.outside event c.shared, c.requests⟩) (hkn : k ≤ n) :
    P (S.after init turns n) := by
  induction n, hkn using Nat.le_induction with
  | base => exact hk
  | succ n _ ih =>
    cases ht : turns[n]? with
    | none =>
      rw [after_succ_of_none ht]
      exact ih
    | some t =>
      have hG := hturns n t ht
      rw [after_succ_of_some ht]
      rcases S.turn_cases (S.after init turns n) t with
        hpass | ⟨i, choice, p, s, rfl, h, hturn⟩ | ⟨event, rfl, hturn⟩
      · rw [hpass]
        exact ih
      · rw [hturn]
        exact hadvance _ i choice p s ih hG h
      · rw [hturn]
        exact houtside _ event ih

variable (S init turns n) in
/-- The next configuration is the same, or one step of a request or event from outside ahead. -/
theorem after_succ_cases :
    S.after init turns (n + 1) = S.after init turns n ∨
      (∃ i choice p s, S.advance choice ((S.after init turns n).requests i)
          (S.after init turns n).shared = some (p, s) ∧
        S.after init turns (n + 1) =
          ⟨s, Function.update (S.after init turns n).requests i p⟩) ∨
      ∃ event, S.after init turns (n + 1) =
        ⟨S.outside event (S.after init turns n).shared, (S.after init turns n).requests⟩ := by
  have hsucc : S.after init turns (n + 1) =
      S.serve (S.after init turns n) turns[n]?.toList := by
    rw [after, List.take_add_one, serve_append, after]
  rw [hsucc]
  rcases turns[n]? with - | t
  · exact Or.inl rfl
  · rcases S.turn_cases (S.after init turns n) t with
      hpass | ⟨i, choice, p, s, -, h, hturn⟩ | ⟨event, -, hturn⟩
    · exact Or.inl hpass
    · exact Or.inr (Or.inl ⟨i, choice, p, s, h, hturn⟩)
    · exact Or.inr (Or.inr ⟨event, hturn⟩)

/-- A request that moves from one place to another has taken the step, and nothing else happened at
that turn. -/
theorem advance_of_ne {i : ℕ} {p p' : π} (hp : (S.after init turns n).requests i = p)
    (hp' : (S.after init turns (n + 1)).requests i = p') (hne : p ≠ p') :
    ∃ choice, S.advance choice p (S.after init turns n).shared =
      some (p', (S.after init turns (n + 1)).shared) := by
  rcases S.after_succ_cases init turns n with
    hpass | ⟨j, choice, p₁, s₁, hstep, hturn⟩ | ⟨event, hturn⟩
  · rw [hpass, hp] at hp'
    exact absurd hp' hne
  · rw [hturn] at hp' ⊢
    dsimp only at hp' ⊢
    rcases eq_or_ne i j with rfl | hij
    · rw [Function.update_self] at hp'
      rw [← hp', ← hp]
      exact ⟨choice, hstep⟩
    · rw [Function.update_of_ne hij, hp] at hp'
      exact absurd hp' hne
  · rw [hturn] at hp'
    exact absurd (hp.symm.trans hp') hne

/-- A request that moves has the turn. -/
theorem turn_of_ne {i : ℕ} (h : (S.after init turns (n + 1)).requests i ≠
    (S.after init turns n).requests i) : ∃ choice, turns[n]? = some (.request i choice) := by
  cases ht : turns[n]? with
  | none =>
    rw [after_succ_of_none ht] at h
    exact absurd rfl h
  | some t =>
    rw [after_succ_of_some ht] at h
    rcases S.turn_cases (S.after init turns n) t with
      hpass | ⟨j, choice, p, s, rfl, -, hturn⟩ | ⟨event, -, hturn⟩
    · rw [hpass] at h
      exact absurd rfl h
    · rw [hturn] at h
      rcases eq_or_ne i j with rfl | hij
      · exact ⟨choice, rfl⟩
      · exact absurd (Function.update_of_ne hij ..) h
    · rw [hturn] at h
      exact absurd rfl h

/-- At the turn of a request the request advances, or nothing happens. -/
theorem after_request_cases {i : ℕ} {choice : χ} (h : turns[n]? = some (.request i choice)) :
    S.after init turns (n + 1) = S.after init turns n ∨
      S.advance choice ((S.after init turns n).requests i) (S.after init turns n).shared =
        some ((S.after init turns (n + 1)).requests i, (S.after init turns (n + 1)).shared) := by
  rw [after_succ_of_some h]
  rcases hstep : S.advance choice ((S.after init turns n).requests i) (S.after init turns n).shared
    with - | ⟨p, s⟩
  · refine Or.inl ?_
    rw [turn, hstep]
  · refine Or.inr ?_
    rw [turn_of_advance hstep]
    dsimp only
    rw [Function.update_self]

/-- **A request found in a phase entered it.** Where request `i` did not start in `Q` and is in `Q`
now, some turn took it there, and it has been in `Q` ever since. By induction on the number of
turns: either the request was in `Q` before the last turn, or that turn took it there. -/
theorem exists_entry (Q : π → Prop) {i : ℕ} (hinit : ¬Q (init.requests i))
    (h : Q ((S.after init turns n).requests i)) :
    ∃ j < n, ∃ choice p s, S.advance choice ((S.after init turns j).requests i)
        (S.after init turns j).shared = some (p, s) ∧
      ¬Q ((S.after init turns j).requests i) ∧ Q p ∧
      ∀ l, j < l → l ≤ n → Q ((S.after init turns l).requests i) := by
  induction n with
  | zero => exact absurd h hinit
  | succ n ih =>
    by_cases hQ : Q ((S.after init turns n).requests i)
    · obtain ⟨j, hj, choice, p, s, hstep, hout, hp, hin⟩ := ih hQ
      refine ⟨j, Nat.lt_succ_of_lt hj, choice, p, s, hstep, hout, hp, fun l hl hln ↦ ?_⟩
      rcases Nat.le_succ_iff.1 hln with hln | rfl
      · exact hin l hl hln
      · exact h
    · -- the last turn took the request there
      have hlast : ∀ l, n < l → l ≤ n + 1 → Q ((S.after init turns l).requests i) := by
        intro l hl hln
        obtain rfl : l = n + 1 := by omega
        exact h
      rcases S.after_succ_cases init turns n with
        hpass | ⟨j, choice, p, s, hstep, hturn⟩ | ⟨event, hturn⟩
      · rw [hpass] at h
        exact absurd h hQ
      · rcases eq_or_ne i j with rfl | hij
        · refine ⟨n, Nat.lt_succ_self n, choice, p, s, hstep, hQ, ?_, hlast⟩
          rw [hturn] at h
          simpa using h
        · rw [hturn] at h
          refine absurd ?_ hQ
          simpa [Function.update_of_ne hij] using h
      · rw [hturn] at h
        exact absurd h hQ

/-- The step with which a request entered a phase it did not start in and is found in, from one
configuration to the next. -/
theorem exists_step_into (Q : π → Prop) {i : ℕ} (hinit : ¬Q (init.requests i))
    (h : Q ((S.after init turns n).requests i)) :
    ∃ m < n, ∃ choice, S.advance choice ((S.after init turns m).requests i)
        (S.after init turns m).shared = some ((S.after init turns (m + 1)).requests i,
          (S.after init turns (m + 1)).shared) ∧
      ¬Q ((S.after init turns m).requests i) ∧ Q ((S.after init turns (m + 1)).requests i) := by
  obtain ⟨m, hm, -, -, -, -, hout, -, hin⟩ := exists_entry Q hinit h
  have hQ := hin (m + 1) (Nat.lt_succ_self m) hm
  have hne : (S.after init turns m).requests i ≠ (S.after init turns (m + 1)).requests i :=
    fun heq ↦ hout (heq ▸ hQ)
  obtain ⟨choice, hstep⟩ := advance_of_ne rfl rfl hne
  exact ⟨m, hm, choice, hstep, hout, hQ⟩

end After

end Service

/-! ### Locks -/

section Locks

variable {S : Service σ π χ ω} {held : π → κ → Prop} {locked : σ → κ → Prop}

/-- Steps take free locks, give back the locks they hold, and leave the others alone. -/
structure LockDiscipline (S : Service σ π χ ω) (held : π → κ → Prop) (locked : σ → κ → Prop) :
    Prop where
  advance : ∀ {choice p s p' s'}, S.advance choice p s = some (p', s') → ∀ k,
    ((held p' k ↔ held p k) ∧ (locked s' k ↔ locked s k)) ∨
      (¬locked s k ∧ locked s' k) ∨ (held p k ∧ ¬held p' k)
  outside : ∀ event s k, locked (S.outside event s) k ↔ locked s k

/-- A held lock is locked, and held once. -/
def Exclusive (held : π → κ → Prop) (locked : σ → κ → Prop) (c : Config σ π) : Prop :=
  ∀ k, (∀ i, held (c.requests i) k → locked c.shared k) ∧
    ∀ i j, held (c.requests i) k → held (c.requests j) k → i = j

/-- **Mutual exclusion.** -/
theorem LockDiscipline.exclusive_serve (hd : LockDiscipline S held locked) {init : Config σ π}
    (hinit : Exclusive held locked init) (turns : List (Turn χ ω)) :
    Exclusive held locked (S.serve init turns) := by
  refine Service.serve_induction hinit ?_ ?_ turns
  · intro c i choice p' s' hc hstep k
    obtain ⟨hlocked, honce⟩ := hc k
    -- another request holds what it held before the step
    have hother : ∀ j, j ≠ i → held (Function.update c.requests i p' j) k →
        held (c.requests j) k := by
      intro j hj
      rw [Function.update_of_ne hj]
      exact id
    rcases hd.advance hstep k with ⟨hheld, hsame⟩ | ⟨hfree, htaken⟩ | ⟨hmine, hgiven⟩
    · have hback : ∀ j, held (Function.update c.requests i p' j) k → held (c.requests j) k := by
        intro j hj
        rcases eq_or_ne j i with rfl | hne
        · rw [Function.update_self] at hj
          exact hheld.1 hj
        · exact hother j hne hj
      exact ⟨fun j hj ↦ hsame.2 (hlocked j (hback j hj)),
        fun j j' hj hj' ↦ honce j j' (hback j hj) (hback j' hj')⟩
    · -- nobody else holds a lock that was free
      have hnone : ∀ j, held (Function.update c.requests i p' j) k → j = i := by
        intro j hj
        by_contra hne
        exact hfree (hlocked j (hother j hne hj))
      exact ⟨fun _ _ ↦ htaken, fun j j' hj hj' ↦ (hnone j hj).trans (hnone j' hj').symm⟩
    · -- nobody holds a lock its holder gave back
      have hnone : ∀ j, ¬held (Function.update c.requests i p' j) k := by
        intro j hj
        rcases eq_or_ne j i with rfl | hne
        · rw [Function.update_self] at hj
          exact hgiven hj
        · exact hne (honce j i (hother j hne hj) hmine)
      exact ⟨fun j hj ↦ absurd hj (hnone j), fun j _ hj _ ↦ absurd hj (hnone j)⟩
  · intro c event hc k
    exact ⟨fun j hj ↦ (hd.outside event c.shared k).2 ((hc k).1 j hj), (hc k).2⟩

end Locks

end Interleaving
