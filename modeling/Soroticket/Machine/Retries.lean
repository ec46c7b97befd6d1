import Mathlib.Algebra.Order.Ring.Int
import Mathlib.Data.List.Induction
import Mathlib.Tactic.Common

/-!
# Retries

Something is attempted until an attempt succeeds, or as many as a policy allows have failed. After a
failure the next attempt waits. What is seen of it is the list of its events: an attempt begins, and
it ends.

A policy accepts a list of events or does not, one event at a time (`Policy.step`), and an accepted
list has a course: where the attempts are, how many have failed, and when the next may begin. What
an implementation has to show is that its events are accepted; the rest follows from that here:

* no more attempts begin than the policy allows (`Policy.begins_le`), and the course has ended in
  failure exactly when as many have failed (`Policy.failed_iff`);
* no attempt begins before the one before it has ended (`Policy.ended_between`);
* nothing happens after the end of a course (`Policy.eq_nil_of_final`);
* the attempt after a failed one waits for as long as the policy says (`Policy.due_le`).
-/

namespace Retries

/-- How many attempts are made, and how long the next waits after so many failures. -/
structure Policy where
  limit : ℕ
  delay : ℕ → ℤ
  limit_pos : 0 < limit

/-- An attempt begins or ends, at a time. -/
inductive Event where
  | begun (now : ℤ)
  | ended (ok : Bool) (now : ℤ)
  deriving DecidableEq

/-- Where the attempts are. -/
inductive Stage where
  | waiting
  | attempting
  | succeeded
  | failed
  deriving DecidableEq

/-- What is known after some events. The next attempt may begin when it is due. -/
structure Course where
  stage : Stage
  failures : ℕ
  due : Option ℤ
  deriving DecidableEq

/-- Before the first attempt. -/
def Course.start : Course := ⟨.waiting, 0, none⟩

/-- Whether an event is the beginning of an attempt. -/
def Event.isBegun : Event → Bool
  | begun _ => true
  | ended _ _ => false

/-- Whether an event is a failure. -/
def Event.isFailure : Event → Bool
  | ended false _ => true
  | _ => false

namespace Policy

variable (P : Policy)

/-- The course after one more event, if that may happen. -/
def step (k : Course) : Event → Option Course
  | .begun now =>
    if k.stage = .waiting ∧ ∀ due ∈ k.due, due ≤ now then some { k with stage := .attempting }
    else none
  | .ended true _ => if k.stage = .attempting then some { k with stage := .succeeded } else none
  | .ended false now =>
    if k.stage ≠ .attempting then none
    else if P.limit ≤ k.failures + 1 then
      some { k with stage := .failed, failures := k.failures + 1 }
    else some ⟨.waiting, k.failures + 1, some (now + P.delay (k.failures + 1))⟩

/-- The course after a list of events, if they are accepted. -/
def runFrom (k : Course) : List Event → Option Course
  | [] => some k
  | e :: es => (P.step k e).bind fun k' ↦ runFrom k' es

def run (es : List Event) : Option Course := P.runFrom Course.start es

variable {P} {k k' : Course} {es es' : List Event} {e : Event}

theorem runFrom_append (k : Course) (es es' : List Event) :
    P.runFrom k (es ++ es') = (P.runFrom k es).bind fun k' ↦ P.runFrom k' es' := by
  induction es generalizing k with
  | nil => rfl
  | cons e es ih =>
    rw [List.cons_append, runFrom, runFrom]
    rcases P.step k e with - | k'
    · rfl
    · exact ih k'

theorem run_append (es es' : List Event) :
    P.run (es ++ es') = (P.run es).bind fun k ↦ P.runFrom k es' := runFrom_append _ es es'

theorem run_concat (es : List Event) (e : Event) :
    P.run (es ++ [e]) = (P.run es).bind fun k ↦ P.step k e := by
  rw [run_append]
  rcases P.run es with - | k
  · rfl
  · rw [Option.bind_some, Option.bind_some, runFrom]
    exact Option.bind_fun_some _

/-- What is accepted is accepted up to any event. -/
theorem exists_run_of_append (h : P.run (es ++ es') = some k) :
    ∃ k', P.run es = some k' ∧ P.runFrom k' es' = some k :=
  Option.bind_eq_some_iff.1 (run_append es es' ▸ h)

/-- What the first of some events does. -/
theorem exists_step_of_cons (h : P.runFrom k (e :: es) = some k') :
    ∃ k₁, P.step k e = some k₁ ∧ P.runFrom k₁ es = some k' :=
  Option.bind_eq_some_iff.1 h

/-! ### Steps -/

theorem step_begun {now : ℤ} (hstage : k.stage = .waiting) (hdue : ∀ due ∈ k.due, due ≤ now) :
    P.step k (.begun now) = some { k with stage := .attempting } := if_pos ⟨hstage, hdue⟩

theorem step_success {now : ℤ} (hstage : k.stage = .attempting) :
    P.step k (.ended true now) = some { k with stage := .succeeded } := if_pos hstage

theorem step_failure {now : ℤ} (hstage : k.stage = .attempting) :
    P.step k (.ended false now) =
      if P.limit ≤ k.failures + 1 then some { k with stage := .failed, failures := k.failures + 1 }
      else some ⟨.waiting, k.failures + 1, some (now + P.delay (k.failures + 1))⟩ := by
  rw [step, if_neg (not_not_intro hstage)]

theorem of_step_begun {now : ℤ} (h : P.step k (.begun now) = some k') :
    k.stage = .waiting ∧ (∀ due ∈ k.due, due ≤ now) ∧ k' = { k with stage := .attempting } := by
  rw [step, Option.ite_none_right_eq_some] at h
  exact ⟨h.1.1, h.1.2, (Option.some.inj h.2).symm⟩

theorem of_step_success {now : ℤ} (h : P.step k (.ended true now) = some k') :
    k.stage = .attempting ∧ k' = { k with stage := .succeeded } := by
  rw [step, Option.ite_none_right_eq_some] at h
  exact ⟨h.1, (Option.some.inj h.2).symm⟩

/-- A failure is the last one, or the next attempt waits. -/
theorem of_step_failure {now : ℤ} (h : P.step k (.ended false now) = some k') :
    k.stage = .attempting ∧
      ((P.limit ≤ k.failures + 1 ∧ k' = { k with stage := .failed, failures := k.failures + 1 }) ∨
        (k.failures + 1 < P.limit ∧
          k' = ⟨.waiting, k.failures + 1, some (now + P.delay (k.failures + 1))⟩)) := by
  rw [step, Option.ite_none_left_eq_some, not_not] at h
  obtain ⟨hstage, h⟩ := h
  refine ⟨hstage, ?_⟩
  split at h
  · rename_i hlimit
    exact Or.inl ⟨hlimit, (Option.some.inj h).symm⟩
  · rename_i hlimit
    exact Or.inr ⟨not_le.1 hlimit, (Option.some.inj h).symm⟩

/-- What begins was waited for, and what ends was attempted. -/
theorem stage_of_step (h : P.step k e = some k') :
    k.stage = if e.isBegun then .waiting else .attempting := by
  rcases e with now | ⟨- | -, now⟩
  · exact (of_step_begun h).1
  · exact (of_step_failure h).1
  · exact (of_step_success h).1

/-! ### What a course says of its events -/

/-- What the course of accepted events tells of them. -/
structure Tells (P : Policy) (es : List Event) (k : Course) : Prop where
  begins : es.countP Event.isBegun =
    k.failures + if k.stage = .attempting ∨ k.stage = .succeeded then 1 else 0
  failures : es.countP Event.isFailure = k.failures
  bound : k.failures ≤ P.limit
  failed : k.stage = .failed ↔ k.failures = P.limit
  succeeded : k.stage = .succeeded ↔ ∃ now, es.getLast? = some (.ended true now)

theorem tells_start : Tells P [] Course.start where
  begins := rfl
  failures := rfl
  bound := Nat.zero_le _
  failed := ⟨fun h ↦ absurd h (by decide), fun h ↦ absurd h.symm P.limit_pos.ne'⟩
  succeeded := ⟨fun h ↦ absurd h (by decide), fun ⟨_, h⟩ ↦ absurd h (Option.some_ne_none _).symm⟩

/-- As long as the course has not failed, one more attempt may. -/
theorem Tells.lt_limit (ht : Tells P es k) (hstage : k.stage ≠ .failed) : k.failures < P.limit :=
  lt_of_le_of_ne ht.bound fun heq ↦ hstage (ht.failed.2 heq)

/-- One more event, by what can happen. -/
theorem Tells.step (ht : Tells P es k) (h : P.step k e = some k') : Tells P (es ++ [e]) k' := by
  have hlt := ht.lt_limit
  obtain ⟨hbegins, hfailures, hbound, hfailed, hsucceeded⟩ := ht
  have hlast : (es ++ [e]).getLast? = some e := List.getLast?_concat
  rcases e with now | ⟨- | -, now⟩
  · obtain ⟨hstage, -, rfl⟩ := of_step_begun h
    have hmore := (hlt (by rw [hstage]; decide)).ne
    constructor <;> simp_all [List.countP_append, Event.isBegun, Event.isFailure]
  · obtain ⟨hstage, ⟨hlimit, rfl⟩ | ⟨hlimit, rfl⟩⟩ := of_step_failure h <;>
      constructor <;> simp_all [List.countP_append, Event.isBegun, Event.isFailure] <;> omega
  · obtain ⟨hstage, rfl⟩ := of_step_success h
    have hmore := (hlt (by rw [hstage]; decide)).ne
    constructor <;> simp_all [List.countP_append, Event.isBegun, Event.isFailure]

/-- By induction on the events, from the last. -/
theorem tells_of_run (h : P.run es = some k) : Tells P es k := by
  induction es using List.reverseRecOn generalizing k with
  | nil =>
    obtain rfl := Option.some.inj h
    exact tells_start
  | append_singleton es e ih =>
    rw [run_concat] at h
    obtain ⟨k₁, hrun, hstep⟩ := Option.bind_eq_some_iff.1 h
    exact (ih hrun).step hstep

/-- **As many attempts as the policy allows**, and no more. -/
theorem begins_le (h : P.run es = some k) : es.countP Event.isBegun ≤ P.limit := by
  have ht := tells_of_run h
  rw [ht.begins]
  split
  · rename_i hstage
    refine ht.lt_limit fun hfailed ↦ ?_
    rw [hfailed] at hstage
    exact absurd hstage (by decide)
  · exact ht.bound

/-- **A course ends in failure** when as many attempts have failed. -/
theorem failed_iff (h : P.run es = some k) :
    k.stage = .failed ↔ es.countP Event.isFailure = P.limit := by
  have ht := tells_of_run h
  rw [ht.failures, ht.failed]

theorem succeeded_iff (h : P.run es = some k) :
    k.stage = .succeeded ↔ ∃ now, es.getLast? = some (.ended true now) :=
  (tells_of_run h).succeeded

/-! ### The order of events -/

/-- **Nothing happens after the end.** -/
theorem eq_nil_of_final (h : P.run es = some k) (hfinal : k.stage = .succeeded ∨ k.stage = .failed)
    (hall : P.run (es ++ es') = some k') : es' = [] := by
  obtain ⟨k₀, h₀, hrest⟩ := exists_run_of_append hall
  obtain rfl := Option.some.inj (h.symm.trans h₀)
  cases es' with
  | nil => rfl
  | cons e es' =>
    obtain ⟨k₁, hstep, -⟩ := exists_step_of_cons hrest
    rw [stage_of_step hstep] at hfinal
    split at hfinal <;> exact absurd hfinal (by decide)

/-- **An attempt ends before the next begins.** -/
theorem ended_between {before mid later : List Event} {now now' : ℤ}
    (h : P.run (before ++ .begun now :: (mid ++ .begun now' :: later)) = some k) :
    ∃ ok now'' rest, mid = .ended ok now'' :: rest := by
  obtain ⟨k₀, -, h⟩ := exists_run_of_append h
  obtain ⟨k₁, hbegun, h⟩ := exists_step_of_cons h
  obtain ⟨-, -, rfl⟩ := of_step_begun hbegun
  -- whatever comes next is an end
  have hnext : ∀ e es, P.runFrom { k₀ with stage := .attempting } (e :: es) = some k →
      ∃ ok now, e = .ended ok now := by
    intro e es hrun
    obtain ⟨k₂, hstep, -⟩ := exists_step_of_cons hrun
    rcases e with now | ⟨ok, now⟩
    · exact absurd (of_step_begun hstep).1 (by simp)
    · exact ⟨ok, now, rfl⟩
  cases mid with
  | nil =>
    obtain ⟨ok, now'', heq⟩ := hnext _ _ h
    exact Event.noConfusion heq
  | cons e rest =>
    obtain ⟨ok, now'', rfl⟩ := hnext _ _ h
    exact ⟨ok, now'', rest, rfl⟩

/-- **The attempt after a failed one waits**: it begins no earlier than the policy says. -/
theorem due_le {before mid later : List Event} {now now' : ℤ}
    (h : P.run (before ++ .ended false now :: (mid ++ .begun now' :: later)) = some k)
    (hnext : ∀ e ∈ mid, e.isBegun = false) :
    now + P.delay (before.countP Event.isFailure + 1) ≤ now' := by
  obtain ⟨k₀, hbefore, h⟩ := exists_run_of_append h
  obtain ⟨k₁, hended, h⟩ := exists_step_of_cons h
  rw [(tells_of_run hbefore).failures]
  obtain ⟨-, hk₁⟩ := of_step_failure hended
  have hstage : k₁.stage ≠ .attempting := by
    obtain ⟨-, rfl⟩ | ⟨-, rfl⟩ := hk₁ <;> simp
  -- no attempt is being made that could end
  obtain rfl : mid = [] := by
    cases mid with
    | nil => rfl
    | cons e rest =>
      obtain ⟨k₂, hstep, -⟩ := exists_step_of_cons h
      have hattempting := stage_of_step hstep
      rw [hnext e List.mem_cons_self] at hattempting
      exact absurd hattempting hstage
  obtain ⟨k₂, hstep, -⟩ := exists_step_of_cons h
  obtain ⟨hwaiting, hdue, -⟩ := of_step_begun hstep
  obtain ⟨-, rfl⟩ | ⟨-, rfl⟩ := hk₁
  · exact absurd hwaiting (by simp)
  · exact hdue _ rfl

end Policy

end Retries
