import Mathlib.Algebra.Order.Ring.Int
import Mathlib.Data.List.Basic
import Mathlib.Data.List.Induction

/-!
# Counting in fixed windows

A limiter lets so many requests through in a window. A window opens with the first request that
finds none, lasts for a fixed time, and is replaced by the next request after it is over.

The one fact behind all bounds is that the windows of a limiter are at least their width apart
(`Kept.apart`). So requests whose windows end less than a width apart have one window
(`Kept.passed_le`), and an interval of one width meets two windows at most
(`Kept.passed_interval_le`). In the other direction a request is turned away only by a window that
is still open, all of whose requests came less than a width ago (`Kept.le_passed`).
-/

namespace Soroticket

/-! ### Windows -/

/-- A count, and when its window is over. -/
structure Window where
  count : ℕ
  reset : ℕ
  deriving DecidableEq

namespace Window

/-- What is left of a window at a time: nothing once it is over. -/
def live (now : ℕ) (w : Option Window) : Option Window := w.filter fun w ↦ now < w.reset

/-- The window a request falls in, a new one if there is none. -/
def current (width now : ℕ) (w : Option Window) : Window := (live now w).getD ⟨0, now + width⟩

/-- There is room for one more. -/
def hasRoom (limit : ℤ) (w : Window) : Bool := w.count < limit

/-- Count one more, if there is room. -/
def add (limit : ℤ) (w : Window) : Window :=
  if w.hasRoom limit then ⟨w.count + 1, w.reset⟩ else w

variable {now later width : ℕ} {limit : ℤ} {w : Window} {o o' : Option Window}

@[simp] theorem live_none : live now none = none := rfl

theorem live_some_of_lt (h : now < w.reset) : live now (some w) = some w :=
  Option.filter_some_pos (decide_eq_true h)

theorem live_some_of_le (h : w.reset ≤ now) : live now (some w) = none :=
  Option.filter_some_neg (by simpa using h)

/-- What is left later is left of what is left now. -/
theorem live_live (h : now ≤ later) : live later (live now o) = live later o := by
  rcases o with - | w
  · rfl
  · rcases Nat.lt_or_ge now w.reset with hlt | hge
    · rw [live_some_of_lt hlt]
    · rw [live_some_of_le hge, live_some_of_le (Nat.le_trans hge h), live_none]

theorem live_congr (h : now ≤ later) (heq : live now o = live now o') :
    live later o = live later o' := by
  rw [← live_live h, heq, live_live h]

/-- The window of a request depends on what is left only. -/
theorem current_congr (heq : live now o = live now o') :
    current width now o = current width now o' := by
  rw [current, heq, current]

/-- A request falls in a window that is still open, or in a new one. -/
theorem current_cases (width now : ℕ) (o : Option Window) :
    (∃ w, o = some w ∧ now < w.reset ∧ current width now o = w) ∨
      (∀ w, o = some w → w.reset ≤ now) ∧ current width now o = ⟨0, now + width⟩ := by
  rcases o with - | w
  · exact Or.inr ⟨fun w h ↦ absurd h.symm (Option.some_ne_none w), rfl⟩
  · rcases Nat.lt_or_ge now w.reset with hlt | hge
    · exact Or.inl ⟨w, rfl, hlt, by rw [current, live_some_of_lt hlt, Option.getD_some]⟩
    · refine Or.inr ⟨fun w' h ↦ Option.some.inj h ▸ hge, ?_⟩
      rw [current, live_some_of_le hge, Option.getD_none]

@[simp] theorem add_reset : (w.add limit).reset = w.reset := by
  rw [add]
  split <;> rfl

theorem add_count :
    (w.add limit).count = w.count + if w.hasRoom limit then 1 else 0 := by
  rw [add]
  split <;> rfl

end Window

/-! ### A limiter, and what it has let through -/

/-- What became of a request: when it came, when its window is over, and whether it was let
through. -/
structure Verdict where
  time : ℕ
  reset : ℕ
  allowed : Bool
  deriving DecidableEq

/-- A limiter: the verdicts so far, and its window. -/
structure Limiter where
  verdicts : List Verdict
  window : Option Window

namespace Limiter

/-- How many requests of a kind have been let through. -/
def passed (vs : List Verdict) (p : Verdict → Bool) : ℕ := vs.countP fun v ↦ v.allowed && p v

/-- A limiter that has seen no request. -/
def fresh : Limiter := ⟨[], none⟩

/-- The verdict on a request. -/
def verdict (width : ℕ) (limit : ℤ) (c : Limiter) (now : ℕ) : Verdict :=
  ⟨now, (Window.current width now c.window).reset,
    (Window.current width now c.window).hasRoom limit⟩

/-- Serve a request. -/
def serve (width : ℕ) (limit : ℤ) (c : Limiter) (now : ℕ) : Limiter :=
  ⟨c.verdicts ++ [c.verdict width limit now],
    some ((Window.current width now c.window).add limit)⟩

/-- Serve the requests that come at these times. -/
def after (width : ℕ) (limit : ℤ) (times : List ℕ) : Limiter :=
  times.foldl (serve width limit) fresh

variable {width now : ℕ} {limit : ℤ} {c : Limiter}

theorem after_concat (width : ℕ) (limit : ℤ) (times : List ℕ) (now : ℕ) :
    after width limit (times ++ [now]) = (after width limit times).serve width limit now :=
  List.foldl_concat (serve width limit) fresh now times

theorem passed_concat (vs : List Verdict) (v : Verdict) (p : Verdict → Bool) :
    passed (vs ++ [v]) p = passed vs p + if v.allowed && p v then 1 else 0 := by
  rw [passed, List.countP_append, List.countP_singleton, passed]

/-- Requests of two kinds are no more than those of the one and those of the other. -/
theorem passed_le_add {p q r : Verdict → Bool} (h : ∀ v, p v → q v ∨ r v) (vs : List Verdict) :
    passed vs p ≤ passed vs q + passed vs r := by
  induction vs with
  | nil => exact Nat.zero_le _
  | cons v vs ih =>
    have hhead : (if (v.allowed && p v) = true then 1 else 0) ≤
        (if (v.allowed && q v) = true then 1 else 0) +
          (if (v.allowed && r v) = true then 1 else 0) := by
      split
      · rename_i hpassed
        obtain ⟨hallowed, hp⟩ := Bool.and_eq_true_iff.1 hpassed
        rcases h v hp with hq | hr
        · rw [hallowed, hq, Bool.and_true, if_pos rfl]
          exact Nat.le_add_right 1 _
        · rw [hallowed, hr, Bool.and_true, if_pos rfl]
          exact Nat.le_add_left 1 _
      · exact Nat.zero_le _
    simp only [passed, List.countP_cons] at ih ⊢
    omega

/-- The invariant of a limiter: what its window has counted, and where the windows are. -/
structure Kept (width : ℕ) (limit : ℤ) (now : ℕ) (c : Limiter) : Prop where
  /-- A request comes while its window is open, and its window is of the width. -/
  timely : ∀ v ∈ c.verdicts, v.time ≤ now ∧ v.time < v.reset ∧ v.reset ≤ v.time + width
  /-- The windows of two requests are the same or a width apart. -/
  apart : ∀ v ∈ c.verdicts, ∀ v' ∈ c.verdicts,
    v.reset = v'.reset ∨ v.reset + width ≤ v'.reset ∨ v'.reset + width ≤ v.reset
  /-- A window lets no more through than the limit. -/
  limited : ∀ reset, passed c.verdicts (·.reset = reset) ≤ limit.toNat
  /-- The window there is has counted what it let through, and opened no later than now. -/
  counted : ∀ w ∈ c.window, w.count = passed c.verdicts (·.reset = w.reset) ∧
    w.reset ≤ now + width
  /-- The window there is is the last. -/
  last : ∀ v ∈ c.verdicts, ∃ w ∈ c.window, v.reset = w.reset ∨ v.reset + width ≤ w.reset

namespace Kept

theorem fresh (width : ℕ) (limit : ℤ) (now : ℕ) : Kept width limit now fresh where
  timely _ h := absurd h List.not_mem_nil
  apart _ h := absurd h List.not_mem_nil
  limited _ := Nat.zero_le _
  counted w h := absurd h.symm (Option.some_ne_none w)
  last _ h := absurd h List.not_mem_nil

/-- Time goes by. -/
theorem mono (h : Kept width limit now c) {later : ℕ} (hle : now ≤ later) :
    Kept width limit later c where
  timely v hv := ⟨Nat.le_trans (h.timely v hv).1 hle, (h.timely v hv).2⟩
  apart := h.apart
  limited := h.limited
  counted w hw := ⟨(h.counted w hw).1,
    Nat.le_trans (h.counted w hw).2 (Nat.add_le_add_right hle width)⟩
  last := h.last

/-- The window a request falls in is open, has counted what it let through, and is the last. -/
theorem current (h : Kept width limit now c) (hwidth : 0 < width) :
    (now < (Window.current width now c.window).reset ∧
      (Window.current width now c.window).reset ≤ now + width) ∧
    (Window.current width now c.window).count =
      passed c.verdicts (·.reset = (Window.current width now c.window).reset) ∧
    ∀ v ∈ c.verdicts, v.reset = (Window.current width now c.window).reset ∨
      v.reset + width ≤ (Window.current width now c.window).reset := by
  rcases Window.current_cases width now c.window with ⟨w, hw, hopen, hcurrent⟩ | ⟨hover, hcurrent⟩
  · rw [hcurrent]
    refine ⟨⟨hopen, (h.counted w hw).2⟩, (h.counted w hw).1, fun v hv ↦ ?_⟩
    obtain ⟨w', hw', hlast⟩ := h.last v hv
    obtain rfl : w = w' := Option.some.inj (hw.symm.trans hw')
    exact hlast
  · rw [hcurrent]
    have hbefore : ∀ v ∈ c.verdicts, v.reset ≤ now := by
      intro v hv
      obtain ⟨w, hw, hlast⟩ := h.last v hv
      have hreset := hover w hw
      omega
    refine ⟨⟨Nat.lt_add_of_pos_right hwidth, Nat.le_refl _⟩, ?_,
      fun v hv ↦ Or.inr (Nat.add_le_add_right (hbefore v hv) width)⟩
    -- a new window has let nothing through yet
    refine (List.countP_eq_zero.2 fun v hv htrue ↦ ?_).symm
    have hreset : v.reset = now + width := of_decide_eq_true (Bool.and_eq_true_iff.1 htrue).2
    have hle := hbefore v hv
    omega

/-- A request is served. -/
theorem serve (h : Kept width limit now c) (hwidth : 0 < width) :
    Kept width limit now (c.serve width limit now) := by
  obtain ⟨⟨hopen, hsoon⟩, hcount, hlast⟩ := h.current hwidth
  refine ⟨?_, ?_, fun reset ↦ ?_, ?_, ?_⟩
  · exact List.forall_mem_append.2
      ⟨h.timely, List.forall_mem_singleton.2 ⟨Nat.le_refl now, hopen, hsoon⟩⟩
  · refine List.forall_mem_append.2 ⟨fun v hv ↦ ?_, List.forall_mem_singleton.2 ?_⟩
    · exact List.forall_mem_append.2
        ⟨h.apart v hv, List.forall_mem_singleton.2 ((hlast v hv).imp_right Or.inl)⟩
    · exact List.forall_mem_append.2
        ⟨fun v hv ↦ (hlast v hv).imp Eq.symm Or.inr, List.forall_mem_singleton.2 (Or.inl rfl)⟩
  · show passed (c.verdicts ++ [c.verdict width limit now]) _ ≤ limit.toNat
    rw [passed_concat]
    split
    · -- the window had room
      rename_i hcounted
      obtain ⟨hroom, hreset⟩ := Bool.and_eq_true_iff.1 hcounted
      have hlt : ((Window.current width now c.window).count : ℤ) < limit := of_decide_eq_true hroom
      have heq : (Window.current width now c.window).reset = reset := of_decide_eq_true hreset
      rw [heq] at hcount
      omega
    · exact h.limited reset
  · intro w hw
    obtain rfl : (Window.current width now c.window).add limit = w := Option.some.inj hw
    rw [Window.add_reset, Window.add_count]
    refine ⟨?_, hsoon⟩
    show _ = passed (c.verdicts ++ [c.verdict width limit now]) _
    rw [passed_concat, hcount]
    congr 1
    rw [show (c.verdict width limit now).reset = (Window.current width now c.window).reset from rfl,
      decide_eq_true rfl, Bool.and_true]
    rfl
  · refine List.forall_mem_append.2 ⟨fun v hv ↦ ?_, List.forall_mem_singleton.2 ?_⟩
    · exact ⟨_, rfl, by rw [Window.add_reset]; exact hlast v hv⟩
    · exact ⟨_, rfl, Or.inl Window.add_reset.symm⟩

end Kept

/-- **What a limiter keeps**, whenever requests come in order. -/
theorem kept_after (hwidth : 0 < width) (limit : ℤ) {times : List ℕ}
    (hsorted : times.Pairwise (· ≤ ·)) (hnow : ∀ t ∈ times, t ≤ now) :
    Kept width limit now (after width limit times) := by
  induction times using List.reverseRecOn generalizing now with
  | nil => exact Kept.fresh width limit now
  | append_singleton times t ih =>
    obtain ⟨htimes, -, hlast⟩ := List.pairwise_append.1 hsorted
    rw [after_concat]
    have hkept := ih htimes fun t' ht' ↦ hlast t' ht' t (List.mem_singleton_self t)
    exact (hkept.serve hwidth).mono (hnow t (List.mem_append_right _ (List.mem_singleton_self t)))

/-! ### The bounds -/

namespace Kept

/-- Requests whose windows end less than a width apart have one window. -/
theorem passed_le (h : Kept width limit now c) {p : Verdict → Bool}
    (hnear : ∀ v ∈ c.verdicts, ∀ v' ∈ c.verdicts, p v → p v' → v.reset < v'.reset + width) :
    passed c.verdicts p ≤ limit.toNat := by
  by_cases hany : ∃ v ∈ c.verdicts, p v
  · obtain ⟨v, hv, hp⟩ := hany
    refine le_trans (List.countP_mono_left fun v' hv' hpassed ↦ ?_) (h.limited v.reset)
    obtain ⟨hallowed, hp'⟩ := Bool.and_eq_true_iff.1 hpassed
    have hlt := hnear v hv v' hv' hp hp'
    have hlt' := hnear v' hv' v hv hp' hp
    have hapart := h.apart v hv v' hv'
    exact Bool.and_eq_true_iff.2 ⟨hallowed, decide_eq_true (by omega)⟩
  · have hzero : passed c.verdicts p = 0 := by
      refine List.countP_eq_zero.2 fun v hv hpassed ↦ ?_
      exact hany ⟨v, hv, (Bool.and_eq_true_iff.1 hpassed).2⟩
    exact hzero ▸ Nat.zero_le _

/-- **In the window of a request** no more are let through than the limit. -/
theorem passed_window_le (h : Kept width limit now c) {v : Verdict} (hv : v ∈ c.verdicts) :
    passed c.verdicts (fun v' ↦ v.reset ≤ v'.time + width ∧ v'.time < v.reset) ≤ limit.toNat := by
  refine (List.countP_mono_left fun v' hv' hpassed ↦ ?_).trans (h.limited v.reset)
  obtain ⟨hallowed, hwindow⟩ := Bool.and_eq_true_iff.1 hpassed
  have hwithin := of_decide_eq_true hwindow
  have htimely := h.timely v' hv'
  have hapart := h.apart v hv v' hv'
  exact Bool.and_eq_true_iff.2 ⟨hallowed, decide_eq_true (by omega)⟩

/-- **An interval of one width** meets two windows at most. -/
theorem passed_interval_le (h : Kept width limit now c) (t : ℕ) :
    passed c.verdicts (fun v ↦ t ≤ v.time ∧ v.time ≤ t + width) ≤ 2 * limit.toNat := by
  have hsplit : passed c.verdicts (fun v ↦ t ≤ v.time ∧ v.time ≤ t + width) ≤
      passed c.verdicts (fun v ↦ (t ≤ v.time ∧ v.time ≤ t + width) ∧ v.reset ≤ t + width) +
      passed c.verdicts (fun v ↦ (t ≤ v.time ∧ v.time ≤ t + width) ∧ ¬v.reset ≤ t + width) := by
    refine passed_le_add (fun v hp ↦ ?_) c.verdicts
    rw [decide_eq_true_iff, decide_eq_true_iff]
    exact (Decidable.em (v.reset ≤ t + width)).imp (⟨of_decide_eq_true hp, ·⟩)
      (⟨of_decide_eq_true hp, ·⟩)
  have hfirst : passed c.verdicts
      (fun v ↦ (t ≤ v.time ∧ v.time ≤ t + width) ∧ v.reset ≤ t + width) ≤ limit.toNat := by
    refine h.passed_le fun v hv v' hv' hp hp' ↦ ?_
    have htimely := h.timely v' hv'
    have hv := of_decide_eq_true hp
    have hv' := of_decide_eq_true hp'
    omega
  have hsecond : passed c.verdicts
      (fun v ↦ (t ≤ v.time ∧ v.time ≤ t + width) ∧ ¬v.reset ≤ t + width) ≤ limit.toNat := by
    refine h.passed_le fun v hv v' hv' hp hp' ↦ ?_
    have htimely := h.timely v hv
    have hv := of_decide_eq_true hp
    have hv' := of_decide_eq_true hp'
    omega
  omega

/-- **A request is turned away** only where the limit has been let through less than a width ago. -/
theorem le_passed (h : Kept width limit now c) (hwidth : 0 < width)
    (hdenied : (c.verdict width limit now).allowed = false) :
    limit ≤ passed c.verdicts (fun v ↦ now < v.time + width) := by
  obtain ⟨⟨hopen, -⟩, hcount, -⟩ := h.current hwidth
  have hfull : limit ≤ (Window.current width now c.window).count :=
    Int.not_lt.1 (of_decide_eq_false hdenied)
  refine hfull.trans (Int.ofNat_le.2 (hcount.trans_le ?_))
  refine List.countP_mono_left fun v hv hpassed ↦ ?_
  obtain ⟨hallowed, hreset⟩ := Bool.and_eq_true_iff.1 hpassed
  have htimely := h.timely v hv
  have heq := of_decide_eq_true hreset
  exact Bool.and_eq_true_iff.2 ⟨hallowed, decide_eq_true (by omega)⟩

end Kept

end Limiter

end Soroticket
