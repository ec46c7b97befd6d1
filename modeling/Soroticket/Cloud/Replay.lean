import Mathlib.Tactic.IntervalCases
import Soroticket.Cloud.Idempotency

/-!
# What idempotency keys guarantee

A row is kept for 24 hours after the reading of the clock it was reserved with, whether or not its
request has finished, and a result is stored in whatever row its key and request have by then. So a
run keeps to what the keys are for (`Idempotent`) where its turns do: `Orderly` asks that a result
finds the row its request reserved, and that no sweep deletes a row that is waited for. A handler
that takes more than a day leaves its result in the row of another (`late_result_replayed`).

The invariant is `Kept`: every reservation either still has its row, or has been outlived by 24
hours, by the clock and by every request about to reserve the same key.
-/

namespace Soroticket

open Interleaving Interleaving.Service

namespace Idempotency

/-! ### What a turn does -/

variable {d : Deployment} {c c' : Config State Request} {i j : ℕ} {ch : Choice} {r : Request}
  {s : State} {slot : Slot} {row : IdemRow} {t : ℤ}

theorem step_of_advance (h : (service d).advance ch (c.requests i) c.shared = some (r, s)) :
    r.call = (c.requests i).call ∧
      step d (c.requests i).call c.shared ch (c.requests i).phase = some (r.phase, s) := by
  obtain ⟨⟨p, s⟩, hstep, heq⟩ := Option.map_eq_some_iff.1 h
  obtain ⟨rfl, rfl⟩ := Prod.mk.inj heq
  exact ⟨rfl, hstep⟩

theorem advance_does (h : (service d).advance ch (c.requests i) c.shared = some (r, s)) :
    Does d (c.requests i).call c.shared ch (c.requests i).phase r.phase s :=
  step_does (step_of_advance h).2

/-- What is kept from one configuration to a later one: no request takes back what it has done, and
the clock is read when it is read. -/
structure Ahead (c c' : Config State Request) : Prop where
  call : ∀ j, (c'.requests j).call = (c.requests j).call
  reservedAt : ∀ j t, (c.requests j).phase.reservedAt = some t →
    (c'.requests j).phase.reservedAt = some t
  response : ∀ j r, (c.requests j).phase.response = some r →
    (c'.requests j).phase.response = some r
  pending : ∀ j now, (c'.requests j).phase.pending = some now →
    (c.requests j).phase.pending = some now ∨ now = c'.shared.clock
  cutoff : ∀ j t, (c'.requests j).phase.cutoff = some t →
    (c.requests j).phase.cutoff = some t ∨ t + day = c'.shared.clock
  clock : c.shared.clock ≤ c'.shared.clock

theorem ahead_outside (seconds : ℕ) :
    Ahead c ⟨(service d).outside seconds c.shared, c.requests⟩ where
  call _ := rfl
  reservedAt _ _ h := h
  response _ _ h := h
  pending _ _ h := Or.inl h
  cutoff _ _ h := Or.inl h
  clock := Int.le_add_of_nonneg_right (Int.natCast_nonneg seconds)

/-- What one request keeps, as what the configuration keeps. -/
theorem Ahead.of_request {r : Request} (hcall : r.call = (c.requests i).call)
    (hreserved : ∀ t, (c.requests i).phase.reservedAt = some t → r.phase.reservedAt = some t)
    (hresponse : ∀ x, (c.requests i).phase.response = some x → r.phase.response = some x)
    (hpending : ∀ now, r.phase.pending = some now → now = s.clock)
    (hcutoff : ∀ t, r.phase.cutoff = some t → t + day = s.clock)
    (hclock : s.clock = c.shared.clock) : Ahead c ⟨s, Function.update c.requests i r⟩ := by
  refine ⟨fun j ↦ ?_, fun j t h ↦ ?_, fun j x h ↦ ?_, fun j now h ↦ ?_, fun j t h ↦ ?_,
    hclock.ge⟩ <;> dsimp only at *
  all_goals rcases eq_or_ne j i with rfl | hj
  · rw [Function.update_self, hcall]
  · rw [Function.update_of_ne hj]
  · rw [Function.update_self]
    exact hreserved t h
  · rwa [Function.update_of_ne hj]
  · rw [Function.update_self]
    exact hresponse x h
  · rwa [Function.update_of_ne hj]
  · rw [Function.update_self] at h
    exact Or.inr (hpending now h)
  · rw [Function.update_of_ne hj] at h
    exact Or.inl h
  · rw [Function.update_self] at h
    exact Or.inr (hcutoff t h)
  · rw [Function.update_of_ne hj] at h
    exact Or.inl h

theorem ahead_request (h : (service d).advance ch (c.requests i) c.shared = some (r, s)) :
    Ahead c ⟨s, Function.update c.requests i r⟩ := by
  have hcall := (step_of_advance h).1
  have hdoes := advance_does h
  obtain ⟨call, p'⟩ := r
  generalize hp : (c.requests i).phase = p at hdoes
  dsimp only at hcall hdoes
  cases hdoes with
  | quiet hreserved hresponse _ hpending hcutoff =>
    exact .of_request hcall (hp ▸ fun t ht ↦ hreserved.trans ht) (hp ▸ hresponse) hpending hcutoff
      rfl
  | reserves =>
    exact .of_request hcall (hp ▸ nofun) (hp ▸ nofun) nofun nofun (State.clock_put _ _ _)
  | stores =>
    exact .of_request hcall (hp ▸ fun _ h ↦ h) (hp ▸ fun _ h ↦ h) nofun nofun
      (State.clock_put _ _ _)
  | sweeps =>
    exact .of_request hcall (hp ▸ fun _ h ↦ h) (hp ▸ fun _ h ↦ h) nofun nofun
      (State.clock_sweep _ _)

/-! ### Reservations -/

/-- A reservation still has its row. -/
def Held (d : Deployment) (c : Config State Request) (i : ℕ) (t : ℤ) : Prop :=
  ∃ row, c.shared.rows (c.requests i).call.slot = some row ∧
    row.requestHash = (c.requests i).call.requestHash d ∧ row.createdAt = t

/-- A reservation has been outlived by a day, by the clock and by all who are about to reserve the
same key. -/
def Expired (c : Config State Request) (slot : Slot) (t : ℤ) : Prop :=
  t + day < c.shared.clock ∧ ∀ j now, (c.requests j).call.slot = slot →
    (c.requests j).phase.pending = some now → t + day < now

/-- The request a row was reserved by. -/
structure Origin (d : Deployment) (c : Config State Request) (slot : Slot) (row : IdemRow)
    (j : ℕ) : Prop where
  slot : (c.requests j).call.slot = slot
  reservedAt : (c.requests j).phase.reservedAt = some row.createdAt
  requestHash : (c.requests j).call.requestHash d = row.requestHash
  response : ∀ x, row.response = some x → (c.requests j).phase.response = some x

/-- The books of the keys. -/
structure Kept (d : Deployment) (c : Config State Request) : Prop where
  cutoff : ∀ i t, (c.requests i).phase.cutoff = some t → t + day ≤ c.shared.clock
  held : ∀ i t, (c.requests i).phase.reservedAt = some t →
    Held d c i t ∨ Expired c (c.requests i).call.slot t
  apart : ∀ i j t t', i ≠ j → (c.requests i).call.slot = (c.requests j).call.slot →
    (c.requests i).phase.reservedAt = some t → (c.requests j).phase.reservedAt = some t' →
      day < |t - t'|
  origin : ∀ slot row, c.shared.rows slot = some row → ∃ j, Origin d c slot row j

/-- A result that is about to be stored is stored in the row its request reserved. -/
def Own (d : Deployment) (c : Config State Request) (i : ℕ) (now : ℤ) : Prop :=
  ∀ row, c.shared.rows (c.requests i).call.slot = some row →
    row.requestHash = (c.requests i).call.requestHash d → row.createdAt = now

/-- Nobody waits for the rows that are about to be deleted: who is about to reserve one of their
keys read the clock more than a day after the row was reserved, and who found one of their keys
reserved and is about to read the row made the same request. -/
def Unawaited (d : Deployment) (c : Config State Request) (cutoff : ℤ) : Prop :=
  ∀ j row, c.shared.rows (c.requests j).call.slot = some row → row.createdAt < cutoff →
    (∀ now, (c.requests j).phase.pending = some now → row.createdAt + day < now) ∧
      ((c.requests j).phase = .reading → row.requestHash = (c.requests j).call.requestHash d)

/-- The turns that keep the books: the statements before the handler do not fail, a result goes to
the row its request reserved, and a sweep deletes no row that is waited for. -/
def Orderly (d : Deployment) (c : Config State Request) : Turn Choice ℕ → Prop
  | .outside _ => True
  | .request i ch =>
    match ch, (c.requests i).phase with
    | .fail, .reserving _ => False
    | .fail, .reading => False
    | .go, .storing now _ => Own d c i now
    | .go, .sweeping _ _ cutoff => Unawaited d c cutoff
    | _, _ => True

theorem Orderly.of_response (hfail : ch ≠ .fail) (hp : (c.requests i).phase.response = none) :
    Orderly d c (.request i ch) := by
  cases hphase : (c.requests i).phase with
  | storing | sweeping =>
    rw [hphase] at hp
    exact absurd hp nofun
  | _ => cases ch <;> first | exact absurd rfl hfail | simp only [Orderly, hphase]

theorem Orderly.of_storing {now : ℤ} {x : Response} (hp : (c.requests i).phase = .storing now x)
    (hown : Own d c i now) : Orderly d c (.request i .go) := by
  simpa only [Orderly, hp] using hown

theorem Expired.ahead (hahead : Ahead c c') (h : Expired c slot t) : Expired c' slot t := by
  refine ⟨h.1.trans_le hahead.clock, fun j now hj hnow ↦ ?_⟩
  rcases hahead.pending j now hnow with hold | rfl
  · exact h.2 j now ((hahead.call j) ▸ hj) hold
  · exact h.1.trans_le hahead.clock

theorem Origin.ahead (hahead : Ahead c c') (h : Origin d c slot row j) :
    Origin d c' slot row j where
  slot := (hahead.call j).symm ▸ h.slot
  reservedAt := hahead.reservedAt j _ h.reservedAt
  requestHash := (hahead.call j).symm ▸ h.requestHash
  response x hx := hahead.response j x (h.response x hx)

/-- A request that has the reservation of another is the other. -/
theorem Kept.eq_of_reservedAt (hc : Kept d c) (hslot : (c.requests i).call.slot =
      (c.requests j).call.slot) (hi : (c.requests i).phase.reservedAt = some t)
    (hj : (c.requests j).phase.reservedAt = some t) : i = j := by
  by_contra hne
  have hapart := hc.apart i j t t hne hslot hi hj
  rw [sub_self, abs_zero] at hapart
  exact absurd hapart (by decide)

/-! ### The books are kept -/

theorem Kept.cutoff_ahead (hc : Kept d c) (hahead : Ahead c c') (i : ℕ) (t : ℤ)
    (h : (c'.requests i).phase.cutoff = some t) : t + day ≤ c'.shared.clock := by
  rcases hahead.cutoff i t h with hold | hnew
  · exact (hc.cutoff i t hold).trans hahead.clock
  · exact hnew.le

/-- Without a new reservation, the reservations are as far apart as they were. -/
theorem Kept.apart_ahead (hc : Kept d c) (hahead : Ahead c c')
    (hback : ∀ j t, (c'.requests j).phase.reservedAt = some t →
      (c.requests j).phase.reservedAt = some t) (i j : ℕ) (t t' : ℤ) (hne : i ≠ j)
    (hslot : (c'.requests i).call.slot = (c'.requests j).call.slot)
    (hi : (c'.requests i).phase.reservedAt = some t)
    (hj : (c'.requests j).phase.reservedAt = some t') : day < |t - t'| := by
  rw [hahead.call, hahead.call] at hslot
  exact hc.apart i j t t' hne hslot (hback i t hi) (hback j t' hj)

theorem Kept.quiet (hc : Kept d c) (hahead : Ahead c c')
    (hback : ∀ j t, (c'.requests j).phase.reservedAt = some t →
      (c.requests j).phase.reservedAt = some t)
    (hrows : c'.shared.rows = c.shared.rows) : Kept d c' where
  cutoff := hc.cutoff_ahead hahead
  held i t h := by
    rw [Held, hahead.call, hrows]
    exact (hc.held i t (hback i t h)).imp_right (.ahead hahead)
  apart := hc.apart_ahead hahead hback
  origin slot row h := by
    rw [hrows] at h
    obtain ⟨j, hj⟩ := hc.origin slot row h
    exact ⟨j, hj.ahead hahead⟩

/-- A key is reserved where it has no row, so its earlier reservations have been outlived. -/
theorem Kept.reserves {now : ℤ} (hc : Kept d c) (hahead : Ahead c c')
    (hfree : c.shared.rows (c.requests i).call.slot = none)
    (hpending : (c.requests i).phase.pending = some now)
    (hnew : (c'.requests i).phase.reservedAt = some now)
    (hback : ∀ j t, j ≠ i → (c'.requests j).phase.reservedAt = some t →
      (c.requests j).phase.reservedAt = some t)
    (hrows : c'.shared.rows = Function.update c.shared.rows (c.requests i).call.slot
      (some ⟨(c.requests i).call.requestHash d, now, none⟩)) : Kept d c' := by
  -- a reservation of the key by another is more than a day older
  have hother : ∀ j t, j ≠ i → (c.requests j).call.slot = (c.requests i).call.slot →
      (c'.requests j).phase.reservedAt = some t → Expired c (c.requests i).call.slot t := by
    intro j t hj hslot ht
    rcases hc.held j t (hback j t hj ht) with ⟨row, hrow, -⟩ | hexpired
    · rw [hslot, hfree] at hrow
      exact absurd hrow nofun
    · rwa [hslot] at hexpired
  refine ⟨hc.cutoff_ahead hahead, fun j t ht ↦ ?_, fun j k t t' hne hslot ht ht' ↦ ?_,
    fun slot row hrow ↦ ?_⟩
  · rcases eq_or_ne j i with rfl | hj
    · obtain rfl := Option.some.inj (hnew.symm.trans ht)
      refine Or.inl ⟨⟨(c.requests j).call.requestHash d, now, none⟩, ?_, ?_, rfl⟩
      · rw [hahead.call, hrows, Function.update_self]
      · rw [hahead.call]
    · rcases eq_or_ne (c.requests j).call.slot (c.requests i).call.slot with hslot | hslot
      · have hexpired := hother j t hj hslot ht
        rw [← hslot, ← hahead.call] at hexpired
        exact Or.inr (hexpired.ahead hahead)
      · rw [Held, hahead.call, hrows, Function.update_of_ne hslot]
        exact (hc.held j t (hback j t hj ht)).imp_right (.ahead hahead)
  · rw [hahead.call, hahead.call] at hslot
    rcases eq_or_ne j i with rfl | hj
    · obtain rfl := Option.some.inj (hnew.symm.trans ht)
      have hlate := (hother k t' hne.symm hslot.symm ht').2 j now rfl hpending
      exact (lt_sub_iff_add_lt'.2 hlate).trans_le (le_abs_self _)
    · rcases eq_or_ne k i with rfl | hk
      · obtain rfl := Option.some.inj (hnew.symm.trans ht')
        have hlate := (hother j t hj hslot ht).2 k now rfl hpending
        rw [abs_sub_comm]
        exact (lt_sub_iff_add_lt'.2 hlate).trans_le (le_abs_self _)
      · exact hc.apart j k t t' hne hslot (hback j t hj ht) (hback k t' hk ht')
  · rw [hrows] at hrow
    rcases eq_or_ne slot (c.requests i).call.slot with rfl | hslot
    · rw [Function.update_self] at hrow
      obtain rfl := Option.some.inj hrow
      exact ⟨i, congrArg IdemCall.slot (hahead.call i), hnew,
        congrArg (IdemCall.requestHash d) (hahead.call i), nofun⟩
    · rw [Function.update_of_ne hslot] at hrow
      obtain ⟨j, hj⟩ := hc.origin slot row hrow
      exact ⟨j, hj.ahead hahead⟩

/-- A result is stored in the row its request reserved. -/
theorem Kept.stores {x : Response} (hc : Kept d c) (hahead : Ahead c c')
    (hback : ∀ j t, (c'.requests j).phase.reservedAt = some t →
      (c.requests j).phase.reservedAt = some t)
    (hrow : c.shared.rows (c.requests i).call.slot = some row)
    (hnow : (c.requests i).phase.reservedAt = some row.createdAt)
    (hresponse : (c'.requests i).phase.response = some x)
    (hrows : c'.shared.rows = Function.update c.shared.rows (c.requests i).call.slot
      (some { row with response := some x })) : Kept d c' := by
  refine ⟨hc.cutoff_ahead hahead, fun j t ht ↦ ?_, hc.apart_ahead hahead hback,
    fun slot row' hrow' ↦ ?_⟩
  · rw [Held, hahead.call, hrows]
    refine (hc.held j t (hback j t ht)).imp (fun hheld ↦ ?_) (.ahead hahead)
    rcases eq_or_ne (c.requests j).call.slot (c.requests i).call.slot with hslot | hslot
    · obtain ⟨row', hrow', hhash, hcreated⟩ := hheld
      obtain rfl := Option.some.inj ((hslot ▸ hrow).symm.trans hrow')
      rw [hslot, Function.update_self]
      exact ⟨_, rfl, hhash, hcreated⟩
    · rwa [Function.update_of_ne hslot]
  · rw [hrows] at hrow'
    rcases eq_or_ne slot (c.requests i).call.slot with rfl | hslot
    · rw [Function.update_self] at hrow'
      obtain rfl := Option.some.inj hrow'
      obtain ⟨j, hj⟩ := hc.origin _ row hrow
      obtain rfl := hc.eq_of_reservedAt hj.slot hj.reservedAt hnow
      refine ⟨j, (congrArg IdemCall.slot (hahead.call j)), hahead.reservedAt j _ hnow,
        (congrArg (IdemCall.requestHash d) (hahead.call j)).trans hj.requestHash, fun y hy ↦ ?_⟩
      exact hresponse.trans hy
    · rw [Function.update_of_ne hslot] at hrow'
      obtain ⟨j, hj⟩ := hc.origin slot row' hrow'
      exact ⟨j, hj.ahead hahead⟩

/-- A sweep deletes rows that have been outlived. -/
theorem Kept.sweeps {cutoff : ℤ} (hc : Kept d c) (hahead : Ahead c c')
    (hback : ∀ j t, (c'.requests j).phase.reservedAt = some t →
      (c.requests j).phase.reservedAt = some t)
    (hcutoff : cutoff + day ≤ c.shared.clock) (hunawaited : Unawaited d c cutoff)
    (hrows : c'.shared.rows = (c.shared.sweep cutoff).rows) : Kept d c' := by
  refine ⟨hc.cutoff_ahead hahead, fun j t ht ↦ ?_, hc.apart_ahead hahead hback,
    fun slot row hrow ↦ ?_⟩
  · rw [Held, hahead.call, hrows]
    rcases hc.held j t (hback j t ht) with ⟨row, hrow, hhash, rfl⟩ | hexpired
    · rcases lt_or_ge row.createdAt cutoff with hold | hrecent
      · -- the row of the reservation is deleted
        refine Or.inr (Expired.ahead hahead ⟨by omega, fun k now hk hnow ↦ ?_⟩)
        exact (hunawaited k row (hk ▸ hrow) hold).1 now hnow
      · exact Or.inl ⟨row, State.rows_sweep hrow hrecent, hhash, rfl⟩
    · exact Or.inr (hexpired.ahead hahead)
  · rw [hrows] at hrow
    obtain ⟨j, hj⟩ := hc.origin slot row (State.rows_of_sweep hrow)
    exact ⟨j, hj.ahead hahead⟩

/-- A request whose step reserves nothing has what it had, and so have the others. -/
theorem reservedAt_update (h : r.phase.reservedAt = (c.requests i).phase.reservedAt) (j : ℕ) :
    (Function.update c.requests i r j).phase.reservedAt = (c.requests j).phase.reservedAt := by
  rcases eq_or_ne j i with rfl | hj
  · rw [Function.update_self, h]
  · rw [Function.update_of_ne hj]

theorem Kept.request (hc : Kept d c) (horderly : Orderly d c (.request i ch))
    (h : (service d).advance ch (c.requests i) c.shared = some (r, s)) :
    Kept d ⟨s, Function.update c.requests i r⟩ := by
  have hahead := ahead_request h
  have hcall := (step_of_advance h).1
  have hdoes := advance_does h
  obtain ⟨call, p'⟩ := r
  generalize hp : (c.requests i).phase = p at hdoes
  dsimp only at hcall hdoes
  cases hdoes with
  | quiet hreserved =>
    refine hc.quiet hahead (fun j t ht ↦ ?_) rfl
    rwa [reservedAt_update (hreserved.trans (congrArg _ hp.symm))] at ht
  | reserves hfree =>
    refine hc.reserves hahead hfree (congrArg _ hp) ?_ (fun j t hj ht ↦ ?_) (State.rows_put _ _ _)
    · dsimp only
      rw [Function.update_self]
      rfl
    · dsimp only at ht
      rwa [Function.update_of_ne hj] at ht
  | @stores now x row hrow hhash =>
    have hown : Own d c i now := by simpa only [Orderly, hp] using horderly
    refine hc.stores hahead (fun j t ht ↦ ?_) hrow ?_ ?_ (State.rows_put _ _ _)
    · rwa [reservedAt_update (by rw [hp]; rfl)] at ht
    · rw [hp, hown row hrow hhash]
      rfl
    · dsimp only
      rw [Function.update_self]
      rfl
  | @sweeps now x cutoff =>
    have hunawaited : Unawaited d c cutoff := by simpa only [Orderly, hp] using horderly
    refine hc.sweeps hahead (fun j t ht ↦ ?_) (hc.cutoff i cutoff (congrArg _ hp)) hunawaited rfl
    rwa [reservedAt_update (by rw [hp]; rfl)] at ht

/-! ### Blocked requests -/

/-- A row outlives a step, unless the step is a sweep that deletes it. -/
theorem Does.keeps_row {call : IdemCall} {s s' : State} {p p' : Phase}
    (h : Does d call s ch p p' s') (hrow : s.rows slot = some row) :
    (∃ row', s'.rows slot = some row' ∧ row'.requestHash = row.requestHash) ∨
      ∃ cutoff, ch = .go ∧ p.cutoff = some cutoff ∧ row.createdAt < cutoff := by
  cases h with
  | quiet => exact Or.inl ⟨row, hrow, rfl⟩
  | reserves hfree =>
    have hne : slot ≠ call.slot := fun heq ↦ by
      rw [heq, hfree] at hrow
      exact absurd hrow nofun
    refine Or.inl ⟨row, ?_, rfl⟩
    rw [State.rows_put, Function.update_of_ne hne, hrow]
  | @stores _ x _ hrow₁ hhash =>
    rcases eq_or_ne slot call.slot with rfl | hne
    · obtain rfl := Option.some.inj (hrow.symm.trans hrow₁)
      refine Or.inl ⟨{ row with response := some x }, ?_, rfl⟩
      rw [State.rows_put, Function.update_self]
    · refine Or.inl ⟨row, ?_, rfl⟩
      rw [State.rows_put, Function.update_of_ne hne, hrow]
  | @sweeps _ _ cutoff =>
    rcases lt_or_ge row.createdAt cutoff with hold | hrecent
    · exact Or.inr ⟨cutoff, rfl, rfl, hold⟩
    · exact Or.inl ⟨row, State.rows_sweep hrow hrecent, rfl⟩

/-- A request has found its key reserved for another request, whose row is there until it is
read. -/
def Blocked (d : Deployment) (c : Config State Request) (i : ℕ) : Prop :=
  (c.requests i).phase.Turned ∧ ((c.requests i).phase = .reading →
    ∃ row, c.shared.rows (c.requests i).call.slot = some row ∧
      row.requestHash ≠ (c.requests i).call.requestHash d)

/-- A blocked request that takes a step is refused, or stops. -/
theorem Blocked.advance {p' : Phase} (h : Blocked d c i) (horderly : Orderly d c (.request i ch))
    (hstep : step d (c.requests i).call c.shared ch (c.requests i).phase = some (p', s)) :
    p'.Turned ∧ p' ≠ .reading := by
  obtain ⟨hturned, hrow⟩ := h
  cases hp : (c.requests i).phase with
  | reading =>
    obtain ⟨row, hrow, hne⟩ := hrow hp
    rw [hp] at hstep
    cases ch with
    | go =>
      rw [step, hrow] at hstep
      obtain ⟨rfl, -⟩ := Prod.mk.inj (Option.some.inj hstep)
      rw [answer, if_pos hne]
      exact ⟨rfl, Phase.noConfusion⟩
    | fail => simp only [Orderly, hp] at horderly
    | crash =>
      obtain ⟨rfl, -⟩ := Prod.mk.inj (Option.some.inj hstep)
      exact ⟨trivial, Phase.noConfusion⟩
    | _ => exact absurd hstep.symm (Option.some_ne_none _)
  | refused =>
    rw [hp] at hstep
    cases ch <;> exact absurd hstep.symm (Option.some_ne_none _)
  | crashed =>
    rw [hp] at hstep
    cases ch <;> exact absurd hstep.symm (Option.some_ne_none _)
  | _ =>
    rw [hp] at hturned
    exact absurd hturned not_false

/-- A blocked request stays blocked: the row it is about to read is not deleted. -/
theorem Blocked.request (h : Blocked d c i) (horderly : Orderly d c (.request j ch))
    (hstep : (service d).advance ch (c.requests j) c.shared = some (r, s)) :
    Blocked d ⟨s, Function.update c.requests j r⟩ i := by
  rcases eq_or_ne i j with rfl | hij
  · obtain ⟨hturned, hne⟩ := h.advance horderly (step_of_advance hstep).2
    rw [Blocked]
    dsimp only
    rw [Function.update_self]
    exact ⟨hturned, fun hreading ↦ absurd hreading hne⟩
  · rw [Blocked]
    dsimp only
    rw [Function.update_of_ne hij]
    refine ⟨h.1, fun hreading ↦ ?_⟩
    obtain ⟨row, hrow, hne⟩ := h.2 hreading
    rcases (advance_does hstep).keeps_row hrow with
      ⟨row', hrow', hhash⟩ | ⟨cutoff, rfl, hcutoff, hold⟩
    · exact ⟨row', hrow', hhash ▸ hne⟩
    · -- the sweep that deletes the row is not orderly
      have hunawaited : Unawaited d c cutoff := by
        generalize hp : (c.requests j).phase = p at hcutoff
        cases p with
        | sweeping now x t =>
          obtain rfl := Option.some.inj hcutoff
          simpa only [Orderly, hp] using horderly
        | _ => exact absurd hcutoff nofun
      exact absurd ((hunawaited i row hrow hold).2 hreading) hne

/-! ### Runs -/

/-- Before any request, the table is empty. -/
structure Start (init : Config State Request) : Prop where
  rows : ∀ slot, init.shared.rows slot = none
  phase : ∀ i, (init.requests i).phase = .arriving

theorem Start.kept {init : Config State Request} (h : Start init) : Kept d init where
  cutoff i t ht := by
    rw [h.phase] at ht
    exact absurd ht nofun
  held i t ht := by
    rw [h.phase] at ht
    exact absurd ht nofun
  apart i _ t _ _ _ ht := by
    rw [h.phase] at ht
    exact absurd ht nofun
  origin slot row hrow := by
    rw [h.rows] at hrow
    exact absurd hrow nofun

/-- The requests that are hashed alike ask for the same. -/
def CollisionFree (d : Deployment) (init : Config State Request) : Prop :=
  ∀ i j, d.refMac (init.requests i).call.target.material =
      d.refMac (init.requests j).call.target.material →
    (init.requests i).call.target.material = (init.requests j).call.target.material

/-- Where a request is after the first turns of a schedule. -/
abbrev phaseAfter (d : Deployment) (init : Config State Request) (turns : List (Turn Choice ℕ))
    (n i : ℕ) : Phase :=
  (((service d).after init turns n).requests i).phase

/-- The row of a request after the first turns of a schedule. -/
abbrev rowAfter (d : Deployment) (init : Config State Request) (turns : List (Turn Choice ℕ))
    (n i : ℕ) : Option IdemRow :=
  ((service d).after init turns n).shared.rows (init.requests i).call.slot

/-- What the keys are for. -/
structure Idempotent (d : Deployment) (init : Config State Request)
    (turns : List (Turn Choice ℕ)) : Prop where
  /-- Requests that run a handler under one key reserve the key more than a day apart. -/
  once : ∀ n i j t t', i ≠ j → (init.requests i).call.slot = (init.requests j).call.slot →
    (phaseAfter d init turns n i).reservedAt = some t →
    (phaseAfter d init turns n j).reservedAt = some t' → day < |t - t'|
  /-- A replayed response is the one of the request that reserved the row it was read from, and that
  request asked for the same. -/
  replays : ∀ n i x, phaseAfter d init turns n i = .replayed x →
    ∃ m < n, phaseAfter d init turns m i = .reading ∧
      phaseAfter d init turns (m + 1) i = .replayed x ∧
      ∃ j row, rowAfter d init turns m i = some row ∧
        (init.requests j).call.slot = (init.requests i).call.slot ∧
        (phaseAfter d init turns m j).reservedAt = some row.createdAt ∧
        (phaseAfter d init turns m j).response = some x ∧
        (init.requests j).call.target = (init.requests i).call.target
  /-- A request that finds its key reserved by a request for something else is refused as a
  conflict, unless it stops. -/
  conflicts : ∀ n i j now row, phaseAfter d init turns n i = .reserving now →
    rowAfter d init turns n i = some row →
    (init.requests j).call.slot = (init.requests i).call.slot →
    (phaseAfter d init turns n j).reservedAt = some row.createdAt →
    (init.requests j).call.target ≠ (init.requests i).call.target →
    phaseAfter d init turns (n + 1) i ≠ .reserving now →
    ∀ m, n < m → (phaseAfter d init turns m i).Turned
  /-- A client receives a response only after it was stored in the row of its request. -/
  acknowledges : ∀ n i x, (phaseAfter d init turns n i).received = some x →
    ∃ m < n, (phaseAfter d init turns m i).received = none ∧
      ∃ row, rowAfter d init turns m i = some row ∧
        row.requestHash = (init.requests i).call.requestHash d ∧ row.response = some x

section Turns

variable {init : Config State Request} {turns : List (Turn Choice ℕ)} {m n : ℕ}

/-- **The books are kept** in every orderly run. -/
theorem kept_after (hinit : Start init)
    (horderly : ∀ n t, turns[n]? = some t → Orderly d ((service d).after init turns n) t) (n : ℕ) :
    Kept d ((service d).after init turns n) := by
  refine after_induction (S := service d) (P := Kept d) hinit.kept horderly ?_ ?_ (Nat.zero_le n)
  · exact fun c i ch r s hc hG hstep ↦ hc.request hG hstep
  · exact fun c seconds hc ↦ hc.quiet (ahead_outside seconds) (fun _ _ h ↦ h) rfl

theorem call_after (n i : ℕ) :
    (((service d).after init turns n).requests i).call = (init.requests i).call := by
  refine serve_induction (S := service d)
    (P := fun c ↦ (c.requests i).call = (init.requests i).call) rfl ?_ (fun _ _ h ↦ h) _
  exact fun c j ch r s hc hstep ↦ ((ahead_request hstep).call i).trans hc

theorem CollisionFree.target_eq (h : CollisionFree d init)
    (hhash : (init.requests i).call.requestHash d = (init.requests j).call.requestHash d) :
    (init.requests i).call.target = (init.requests j).call.target := by
  have hmac := congrArg decodeHash hhash
  rw [IdemCall.requestHash, IdemCall.requestHash, decodeHash_hexRoot, decodeHash_hexRoot] at hmac
  exact RequestTarget.material_inj (h i j (Option.some.inj hmac))

theorem once_after (hc : Kept d ((service d).after init turns n)) {t t' : ℤ} (hne : i ≠ j)
    (hslot : (init.requests i).call.slot = (init.requests j).call.slot)
    (hi : (phaseAfter d init turns n i).reservedAt = some t)
    (hj : (phaseAfter d init turns n j).reservedAt = some t') : day < |t - t'| := by
  refine hc.apart i j t t' hne ?_ hi hj
  rwa [call_after, call_after]

/-- A response is replayed from the row of the key. -/
theorem step_replayed {call : IdemCall} {s s' : State} {p : Phase} {x : Response}
    (h : step d call s ch p = some (.replayed x, s')) :
    p = .reading ∧ ∃ row, s.rows call.slot = some row ∧ row.requestHash = call.requestHash d ∧
      row.response = some x := by
  revert h
  fun_cases step d call s ch p <;> intro h
  case case1 =>
    rcases arrive_cases call true s.clock with h' | ⟨problem, h'⟩ | h' <;>
      cases h'.symm.trans (Prod.mk.inj (Option.some.inj h)).1
  case case2 =>
    rcases arrive_cases call false s.clock with h' | ⟨problem, h'⟩ | h' <;>
      cases h'.symm.trans (Prod.mk.inj (Option.some.inj h)).1
  case case6 row hrow =>
    have hanswer := (Prod.mk.inj (Option.some.inj h)).1
    rw [answer] at hanswer
    split at hanswer
    · cases hanswer
    case isFalse hhash =>
      refine ⟨rfl, row, hrow, not_not.1 hhash, ?_⟩
      cases hresponse : row.response with
      | none =>
        rw [hresponse] at hanswer
        cases hanswer
      | some y =>
        rw [hresponse] at hanswer
        exact congrArg some (Phase.replayed.inj hanswer)
  all_goals cases h

/-- A response is counted as stored by the step that stores it. -/
theorem Does.stored {call : IdemCall} {s s' : State} {p p' : Phase} {x : Response}
    (h : Does d call s ch p p' s') (hp : p.recorded ≠ some x) (hp' : p'.recorded = some x) :
    (∃ now, p' = .stored now x) ∧ ∃ row, s'.rows call.slot = some row ∧
      row.requestHash = call.requestHash d ∧ row.response = some x := by
  cases h with
  | quiet _ _ hrecorded => exact absurd (hrecorded ▸ hp') hp
  | reserves => exact absurd hp' nofun
  | @stores now y row hrow hhash =>
    obtain rfl := Option.some.inj hp'
    refine ⟨⟨now, rfl⟩, { row with response := some y }, ?_, hhash, rfl⟩
    rw [State.rows_put, Function.update_self]
  | sweeps => exact absurd hp' hp

/-- The step that finds a key reserved for another request. -/
theorem Blocked.of_turn {now : ℤ} {turn : Turn Choice ℕ}
    (hp : (c.requests i).phase = .reserving now)
    (hrow : c.shared.rows (c.requests i).call.slot = some row)
    (hne : row.requestHash ≠ (c.requests i).call.requestHash d) (horderly : Orderly d c turn)
    (hmoved : (((service d).turn c turn).requests i).phase ≠ .reserving now) :
    Blocked d ((service d).turn c turn) i := by
  rcases (service d).turn_cases c turn with
    hpass | ⟨j, ch, r, s, rfl, hstep, hturn⟩ | ⟨event, rfl, hturn⟩
  · rw [hpass] at hmoved
    exact absurd hp hmoved
  · rw [hturn] at hmoved ⊢
    rcases eq_or_ne i j with rfl | hij
    · obtain ⟨hcall, hp'⟩ := step_of_advance hstep
      obtain ⟨call, p⟩ := r
      rw [Blocked]
      dsimp only
      rw [Function.update_self]
      rw [hp] at hp'
      cases ch with
      | go =>
        rw [step, hrow] at hp'
        obtain ⟨rfl, rfl⟩ := Prod.mk.inj (Option.some.inj hp')
        exact ⟨trivial, fun _ ↦ ⟨row, hcall ▸ hrow, hcall ▸ hne⟩⟩
      | fail => simp only [Orderly, hp] at horderly
      | crash =>
        obtain ⟨rfl, -⟩ := Prod.mk.inj (Option.some.inj hp')
        exact ⟨trivial, nofun⟩
      | _ => exact absurd hp' nofun
    · dsimp only at hmoved
      rw [Function.update_of_ne hij] at hmoved
      exact absurd hp hmoved
  · rw [hturn] at hmoved
    exact absurd hp hmoved

/-- **A response is received only after it was stored** in the row of its request, in every run. -/
theorem received_after (hinit : Start init) {x : Response}
    (hx : (phaseAfter d init turns n i).received = some x) :
    ∃ m < n, (phaseAfter d init turns m i).received = none ∧
      ∃ row, rowAfter d init turns m i = some row ∧
        row.requestHash = (init.requests i).call.requestHash d ∧ row.response = some x := by
  have hout : ¬(init.requests i).phase.recorded = some x := by
    rw [hinit.phase]
    exact nofun
  obtain ⟨m, hm, ch, hstep, hout, hin⟩ :=
    exists_step_into (S := service d) (fun r ↦ r.phase.recorded = some x) hout
      (Phase.recorded_of_received hx)
  obtain ⟨⟨now, hstored⟩, row, hrow, hhash, hresponse⟩ := (advance_does hstep).stored hout hin
  have hnone : (phaseAfter d init turns (m + 1) i).received = none := congrArg _ hstored
  have hlt : m + 1 < n := by
    refine Nat.lt_of_le_of_ne hm fun heq ↦ ?_
    rw [← heq, hnone] at hx
    exact absurd hx nofun
  rw [call_after] at hrow hhash
  exact ⟨m + 1, hlt, hnone, row, hrow, hhash, hresponse⟩

/-- **Idempotency keys execute at most once, and replay faithfully,** in every orderly run. -/
theorem idempotent_run (hmac : CollisionFree d init) (hinit : Start init)
    (horderly : ∀ n t, turns[n]? = some t → Orderly d ((service d).after init turns n) t) :
    Idempotent d init turns := by
  have hkept : ∀ n, Kept d ((service d).after init turns n) := kept_after hinit horderly
  refine ⟨fun n i j t t' hne hslot hi hj ↦ once_after (hkept n) hne hslot hi hj,
    fun n i x hx ↦ ?_, fun n i j now row hp hrow hslot hj htarget hmoved m hm ↦ ?_,
    fun n i x hx ↦ received_after hinit hx⟩
  · -- the step that replays, and the request its row was reserved by
    have hout : ¬(init.requests i).phase = .replayed x := by
      rw [hinit.phase]
      exact nofun
    obtain ⟨m, hm, ch, hstep, -, hx⟩ :=
      exists_step_into (S := service d) (fun r ↦ r.phase = .replayed x) hout hx
    have hstep := (step_of_advance hstep).2
    rw [hx] at hstep
    obtain ⟨hreading, row, hrow, hhash, hresponse⟩ := step_replayed hstep
    obtain ⟨j, hj⟩ := (hkept m).origin _ row hrow
    have hslot := hj.slot
    rw [call_after, call_after] at hslot
    rw [call_after] at hrow
    have htarget : (init.requests j).call.target = (init.requests i).call.target := by
      refine hmac.target_eq ?_
      have hj := hj.requestHash
      rw [call_after] at hj hhash
      exact hj.trans hhash
    exact ⟨m, hm, hreading, hx, j, row, hrow, hslot, hj.reservedAt, hj.response x hresponse,
      htarget⟩
  · -- the row is that of the request it was reserved by, so its fingerprint is another
    have hne : row.requestHash ≠ (init.requests i).call.requestHash d := by
      obtain ⟨k, hk⟩ := (hkept n).origin _ row hrow
      have hjk : j = k := (hkept n).eq_of_reservedAt
        (by rw [hk.slot, call_after, hslot]) hj hk.reservedAt
      have hhash := hk.requestHash
      rw [call_after, ← hjk] at hhash
      exact fun heq ↦ htarget (hmac.target_eq (hhash.trans heq))
    have hblocked : Blocked d ((service d).after init turns (n + 1)) i := by
      cases ht : turns[n]? with
      | none =>
        rw [phaseAfter, after_succ_of_none ht] at hmoved
        exact absurd hp hmoved
      | some turn =>
        rw [phaseAfter, after_succ_of_some ht] at hmoved
        rw [after_succ_of_some ht]
        have hturn := horderly n turn ht
        rw [rowAfter, ← call_after n i] at hrow
        rw [← call_after n i] at hne
        exact .of_turn hp hrow hne hturn hmoved
    refine (after_induction (S := service d) (P := fun c ↦ Blocked d c i) hblocked horderly ?_
      (fun c seconds h ↦ h) hm).1
    exact fun c k ch r s h hG hstep ↦ h.request hG hstep

end Turns

namespace Sample

/-- A deployment whose requests are their own fingerprints, up to 32 bytes. -/
def deployment : Deployment where
  cloudNetwork := []
  currentContractID := []
  quote x := x
  base64 x := x
  sha256 _ := .zero 32
  refMac b := .pad 32 b

/-- A request with a key and a body. -/
def post (key : String) (body : Bytes) : IdemCall where
  idempotencyKey := key
  account := ⟨7, .test⟩
  endpoint := "events"
  target := ⟨[80, 79, 83, 84], [47, 101], body, by decide, by decide⟩

/-- Three times one request, and others under another key. -/
def start : Config State Request where
  shared := ⟨fun _ ↦ none, 0⟩
  requests i := ⟨if i < 3 then post " order-1" [49] else post "order-2" [50], .arriving⟩

def go (i : ℕ) : Turn Choice ℕ := .request i .go

/-- The first request is answered with, and the second replays its response. -/
def retry : List (Turn Choice ℕ) :=
  [go 0, go 0, .request 0 (.writeHeader 201), go 0, go 0, go 1, go 1, go 1]

/-- The handler of the first request takes more than a day. By then a request under another key has
swept its row, and the second request has reserved the key. -/
def late : List (Turn Choice ℕ) :=
  [go 0, go 0, go 3, go 3, go 3, go 3, go 3, .outside 86402, go 3, go 3, go 1, go 1,
    .request 0 (.writeHeader 201), go 0, go 0, go 2, go 2, go 2]

theorem start_start : Start start := ⟨fun _ ↦ rfl, fun _ ↦ rfl⟩

theorem collisionFree_start : CollisionFree deployment start := by
  intro i j h
  by_cases hi : i < 3 <;> by_cases hj : j < 3 <;>
    simp only [start, hi, hj, if_true, if_false] at h ⊢ <;> revert h <;> decide

end Sample

/-- A retry that is replayed. -/
theorem idempotent_run_retry : Idempotent Sample.deployment Sample.start Sample.retry := by
  refine idempotent_run Sample.collisionFree_start Sample.start_start fun n t ht ↦ ?_
  obtain ⟨hn, rfl⟩ := List.getElem?_eq_some_iff.1 ht
  replace hn : n < 8 := hn
  rcases eq_or_ne n 4 with rfl | hn4
  · -- the result is stored in the row of the request
    have hstoring : phaseAfter Sample.deployment Sample.start Sample.retry 4 0 =
        .storing 0 ⟨201, "application/json", [], by decide⟩ := by decide +kernel
    refine .of_storing hstoring fun row hrow _ ↦ ?_
    have hcreated : (rowAfter Sample.deployment Sample.start Sample.retry 4 0).map (·.createdAt) =
        some 0 := by decide +kernel
    rw [call_after] at hrow
    rw [rowAfter, hrow] at hcreated
    exact Option.some.inj hcreated
  · interval_cases n
    case «4» => exact absurd rfl hn4
    all_goals exact .of_response nofun (by decide +kernel)

/-- **A late result is replayed for another.** The handler of the first request outlives its row,
and its response is stored in the row the second request reserved; a third is answered with it. -/
theorem late_result_replayed :
    Start Sample.start ∧ CollisionFree Sample.deployment Sample.start ∧
      ¬Idempotent Sample.deployment Sample.start Sample.late := by
  refine ⟨Sample.start_start, Sample.collisionFree_start, fun h ↦ ?_⟩
  have hread : ∀ m < 18,
      phaseAfter Sample.deployment Sample.start Sample.late m 2 = .reading → m = 17 := by
    decide +kernel
  obtain ⟨m, hm, hreading, -, j, row, hrow, hslot, hreserved, hresponse, -⟩ :=
    h.replays 18 2 ⟨201, "application/json", [], by decide⟩ (by decide +kernel)
  obtain rfl := hread m hm hreading
  -- the row is the second request's, which has no response yet
  have hcreated : (rowAfter Sample.deployment Sample.start Sample.late 17 2).map (·.createdAt) =
      some 86402 := by decide +kernel
  rw [hrow] at hcreated
  have hpending : ∀ j < 3,
      (phaseAfter Sample.deployment Sample.start Sample.late 17 j).reservedAt = some 86402 →
        (phaseAfter Sample.deployment Sample.start Sample.late 17 j).response = none := by
    decide +kernel
  by_cases hj : j < 3
  · rw [← hcreated] at hpending
    exact absurd ((hpending j hj hreserved).symm.trans hresponse) nofun
  · simp only [Sample.start, hj, if_false] at hslot
    revert hslot
    decide +kernel

end Idempotency

end Soroticket
