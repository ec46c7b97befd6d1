import Mathlib.Logic.Function.Basic
import Soroticket.Machine.Transaction

/-!
# Computations that call foreign code

A body that calls another contract is not a function of its state: it *suspends* at each foreign
call, and what it does next depends on the answer and on the state it finds when it is resumed.
`Callout` is that shape, a finite tree whose inner nodes are the foreign calls.

Nothing is assumed about the foreign code here. `runWith` closes the tree with a foreign party that
has a state of its own but does not touch ours, which is a host that forbids re-entry;
`Machine.Reentrancy` drops that restriction. What a body may do to the state between two foreign
calls is a relation kept by each of its segments (`Keeps`).
-/

/-- A computation over a state `σ` that may fail with `ε`, that calls foreign operations `Op` with
answers `Ans`, and that returns an `α`. -/
inductive Callout (σ ε Op : Type) (Ans : Op → Type) (α : Type) where
  /-- The computation has ended, with its value and the state it leaves, or with a fault. -/
  | done (r : Outcome ε (α × σ))
  /-- The computation waits for the answer to `op`, leaving the state `s`; it goes on with the
  answer and with the state at that time. -/
  | call (op : Op) (s : σ) (resume : Ans op → σ → Callout σ ε Op Ans α)

namespace Callout

variable {σ ε Op α β τ : Type} {Ans : Op → Type}

/-- Apply a function to the value returned. -/
def map (f : α → β) : Callout σ ε Op Ans α → Callout σ ε Op Ans β
  | done (.ok (a, s)) => done (.ok (f a, s))
  | done (.error e) => done (.error e)
  | call op s k => call op s fun a s ↦ (k a s).map f

/-! ### Running against a foreign party that does not re-enter -/

/-- Run to the end against a foreign party with a state of its own: at each call it answers and
moves on, or traps. -/
def runWith (h : (op : Op) → τ → Option (Ans op × τ)) :
    Callout σ ε Op Ans α → τ → Outcome ε (α × σ × τ)
  | done (.ok (a, s)), t => .ok (a, s, t)
  | done (.error e), _ => .error e
  | call op s k, t =>
    match h op t with
    | some (a, t') => (k a s).runWith h t'
    | none => .error .trap

/-- Run to the end against fixed replies: `replies n op` answers the `n`-th foreign call. -/
def runReplies (replies : ℕ → (op : Op) → Option (Ans op)) (p : Callout σ ε Op Ans α) :
    Outcome ε (α × σ) :=
  match p.runWith (fun op n ↦ (replies n op).map (·, n + 1)) 0 with
  | .ok (a, s, _) => .ok (a, s)
  | .error e => .error e

@[simp] theorem runReplies_done (replies : ℕ → (op : Op) → Option (Ans op))
    (r : Outcome ε (α × σ)) :
    (done r : Callout σ ε Op Ans α).runReplies replies = r := by
  rcases r with e | ⟨a, s⟩ <;> rfl

/-- A run of a renamed computation is the run, renamed. -/
theorem runWith_map (f : α → β) (h : (op : Op) → τ → Option (Ans op × τ)) :
    ∀ (p : Callout σ ε Op Ans α) (t : τ),
      (p.map f).runWith h t = (p.runWith h t).map fun r ↦ (f r.1, r.2)
  | done (.ok _), _ => rfl
  | done (.error _), _ => rfl
  | call op s k, t => by
    rw [map, runWith, runWith]
    rcases h op t with - | ⟨a, t'⟩
    · rfl
    · exact runWith_map f h (k a s) t'

theorem runReplies_eq_ok_iff {replies : ℕ → (op : Op) → Option (Ans op)}
    {p : Callout σ ε Op Ans α} {a : α} {s : σ} :
    p.runReplies replies = .ok (a, s) ↔
      ∃ n, p.runWith (fun op n ↦ (replies n op).map (·, n + 1)) 0 = .ok (a, s, n) := by
  rw [runReplies]
  split
  · next h => simp [h]
  · next h => simp [h]

/-! ### Replies -/

/-- A run asks for no reply before the first it is given. -/
theorem runWith_congr {replies replies' : ℕ → (op : Op) → Option (Ans op)} :
    ∀ (p : Callout σ ε Op Ans α) (n : ℕ), (∀ m, n ≤ m → replies m = replies' m) →
      p.runWith (fun op n ↦ (replies n op).map (·, n + 1)) n =
        p.runWith (fun op n ↦ (replies' n op).map (·, n + 1)) n
  | done (.ok _), _, _ => rfl
  | done (.error _), _, _ => rfl
  | call op s k, n, h => by
    rw [runWith, runWith, h n (Nat.le_refl n)]
    rcases replies' n op with - | a
    · rfl
    · exact runWith_congr (k a s) (n + 1) fun m hm ↦ h m (Nat.le_of_succ_le hm)

/-- **A foreign party with a state replies as some list of replies does.** -/
theorem exists_replies (h : (op : Op) → τ → Option (Ans op × τ)) :
    ∀ (p : Callout σ ε Op Ans α) (t : τ) (n : ℕ), ∃ replies : ℕ → (op : Op) → Option (Ans op),
      (p.runWith (fun op n ↦ (replies n op).map (·, n + 1)) n).map (fun r ↦ (r.1, r.2.1)) =
        (p.runWith h t).map fun r ↦ (r.1, r.2.1)
  | done (.ok _), _, _ => ⟨fun _ _ ↦ none, rfl⟩
  | done (.error _), _, _ => ⟨fun _ _ ↦ none, rfl⟩
  | call op s k, t, n => by
    classical
    rcases hop : h op t with - | ⟨a, t'⟩
    · refine ⟨fun _ _ ↦ none, ?_⟩
      rw [runWith, runWith, hop]
      rfl
    · obtain ⟨replies, hreplies⟩ := exists_replies h (k a s) t' (n + 1)
      let first : (op : Op) → Option (Ans op) := Function.update (fun _ ↦ none) op (some a)
      refine ⟨Function.update replies n first, ?_⟩
      have hfirst : (Function.update replies n first n op) = some a := by
        rw [Function.update_self]
        exact Function.update_self op (some a) fun _ ↦ none
      rw [runWith, runWith, hop, hfirst, Option.map_some]
      dsimp only
      rw [← hreplies, runWith_congr (k a s) (n + 1)]
      exact fun m hm ↦ Function.update_of_ne (Nat.ne_of_gt hm) _ _

/-! ### What every segment keeps -/

/-- Every segment of the computation relates the state it finds to the state it leaves: the first
one from `s`, and each later one from whatever state it is resumed at. -/
def Keeps (R : σ → σ → Prop) (s : σ) : Callout σ ε Op Ans α → Prop
  | done (.ok (_, s')) => R s s'
  | done (.error _) => True
  | call _ s' k => R s s' ∧ ∀ a s'', (k a s'').Keeps R s''

/-- Renaming the value changes no state. -/
theorem Keeps.map {R : σ → σ → Prop} {f : α → β} :
    ∀ {p : Callout σ ε Op Ans α} {s : σ}, p.Keeps R s → (p.map f).Keeps R s
  | done (.ok _), _, h => h
  | done (.error _), _, _ => trivial
  | call _ _ _, _, h => ⟨h.1, fun a s ↦ (h.2 a s).map⟩

end Callout
