import Mathlib.Algebra.Order.BigOperators.Group.Finset
import Soroticket.Ledger.Integrity

/-!
# What a settlement pays

A settlement is a loop of transfers against an allowance that shrinks with each of them, guarded by
two comparisons with a total computed beforehand. Against a token that does what a token should
(`Conforming`) the comparisons are exact: when the allowance and the balance cover the total, no
transfer of the loop can fail (`transferAll_runWith`), and otherwise nothing is transferred.

The amounts come from two loops written separately. `compute_payouts` lists every entry, and
`settle` only those with a positive amount, with a checked running total. Both are characterized by
one list of exact amounts (`Pays`), so the list `settle` returns is the previewed list without its
zeros, and by the attribution rule its total is the committed count times the rate.

Balances are exact integers here, and a token's answers are 128-bit. The token is a parameter; what
is assumed of it is the meaning of its three calls.
-/

namespace Soroticket

open Outcome

/-! ### A conforming token -/

section Token

variable {τ : Type}

/-- The balances after `amount` has moved from one address to another. -/
def moved (balance : Address → ℤ) (owner payee : Address) (amount : ℤ) : Address → ℤ :=
  fun a ↦ balance a + (if a = payee then amount else 0) - (if a = owner then amount else 0)

/-- The allowances after `amount` of one of them has been used. -/
def lowered (allowance : Address → Address → ℤ) (owner spender : Address) (amount : ℤ) :
    Address → Address → ℤ :=
  fun o s ↦ allowance o s - if o = owner ∧ s = spender then amount else 0

/-- A token that answers truly and moves what it is asked to move, or traps when the balance or the
allowance is short. `h` is its handler, on a state of its own. -/
structure Conforming (h : (op : TokenCall) → τ → Option (op.Answer × τ)) (token : Address)
    (balance : τ → Address → ℤ) (allowance : τ → Address → Address → ℤ) : Prop where
  /-- `allowance` answers the allowance, and changes none and no balance. -/
  allowance_eq : ∀ t owner spender, ∃ (a : I128) (t' : τ),
    h (.allowance token owner spender) t = some (a, t') ∧ a.val = allowance t owner spender ∧
      balance t' = balance t ∧ allowance t' = allowance t
  /-- `balance` answers the balance, and changes none and no allowance. -/
  balance_eq : ∀ t owner, ∃ (a : I128) (t' : τ),
    h (.balance token owner) t = some (a, t') ∧ a.val = balance t owner ∧
      balance t' = balance t ∧ allowance t' = allowance t
  /-- `transfer_from` moves an amount that both the balance and the allowance cover. -/
  transfer_ok : ∀ t spender owner payee (amount : I128), 0 < amount →
    amount.val ≤ balance t owner → amount.val ≤ allowance t owner spender →
      ∃ t', h (.transferFrom token spender owner payee amount) t = some ((), t') ∧
        balance t' = moved (balance t) owner payee amount.val ∧
        allowance t' = lowered (allowance t) owner spender amount.val
  /-- `transfer_from` traps when one of them is short. -/
  transfer_short : ∀ t spender owner payee (amount : I128), 0 < amount →
    balance t owner < amount.val ∨ allowance t owner spender < amount.val →
      h (.transferFrom token spender owner payee amount) t = none

end Token

/-- What an address is paid by a list of payouts. -/
def paidTo (ps : List Payout) (a : Address) : ℤ :=
  (ps.map fun p ↦ if p.payee = a then p.amount.val else 0).sum

@[simp] theorem paidTo_cons (p : Payout) (ps : List Payout) (a : Address) :
    paidTo (p :: ps) a = (if p.payee = a then p.amount.val else 0) + paidTo ps a := by
  simp [paidTo]

/-- The balances after a list of payouts: every payee gains what it is paid, and the owner loses the
total. -/
def paidOut (balance : Address → ℤ) (owner : Address) (ps : List Payout) : Address → ℤ :=
  fun a ↦ balance a + paidTo ps a - if a = owner then payoutSum ps else 0

/-- One transfer and then the rest pay what the whole list pays. -/
theorem paidOut_moved (balance : Address → ℤ) (owner : Address) (p : Payout) (ps : List Payout) :
    paidOut (moved balance owner p.payee p.amount.val) owner ps =
      paidOut balance owner (p :: ps) := by
  funext a
  simp only [paidOut, moved, paidTo_cons, payoutSum_cons, eq_comm (a := a) (b := p.payee)]
  split <;> split <;> omega

theorem lowered_lowered (allowance : Address → Address → ℤ) (owner spender : Address) (m n : ℤ) :
    lowered (lowered allowance owner spender m) owner spender n =
      lowered allowance owner spender (m + n) := by
  funext o s
  simp only [lowered]
  split <;> omega

@[simp] theorem payoutSum_nil : payoutSum [] = 0 := rfl

/-- The total of positive payouts is not negative. -/
theorem payoutSum_nonneg {ps : List Payout} (h : ∀ p ∈ ps, 0 < p.amount) : 0 ≤ payoutSum ps := by
  refine List.sum_nonneg fun z hz ↦ ?_
  obtain ⟨p, hp, rfl⟩ := List.mem_map.1 hz
  exact (I128.lt_def.1 (h p hp)).le

/-- **The loop of transfers goes through.** By induction on the payouts: while the allowance and the
balance cover what is left to pay, the next transfer succeeds, and it lowers both by no more than it
takes from what is left. -/
theorem transferAll_runWith {τ : Type} {h : (op : TokenCall) → τ → Option (op.Answer × τ)}
    {token : Address} {balance : τ → Address → ℤ} {allowance : τ → Address → Address → ℤ}
    (hconf : Conforming h token balance allowance) {spender owner : Address}
    (rest : ContractState → Interaction (List Payout)) (s : ContractState) :
    ∀ (ps : List Payout) (t : τ), (∀ p ∈ ps, 0 < p.amount) →
      payoutSum ps ≤ allowance t owner spender → payoutSum ps ≤ balance t owner →
        ∃ t', (transferAll token spender owner rest ps s).runWith h t = (rest s).runWith h t' ∧
          balance t' = paidOut (balance t) owner ps ∧
          allowance t' = lowered (allowance t) owner spender (payoutSum ps) := by
  intro ps
  induction ps with
  | nil =>
    intro t _ _ _
    refine ⟨t, rfl, ?_, ?_⟩
    · funext a
      simp [paidOut, paidTo]
    · funext o s'
      simp [lowered]
  | cons p ps ih =>
    intro t hpos hallow hbal
    have hp : 0 < p.amount := hpos p List.mem_cons_self
    have hps : ∀ q ∈ ps, 0 < q.amount := fun q hq ↦ hpos q (List.mem_cons_of_mem p hq)
    have hp' : 0 < p.amount.val := I128.lt_def.1 hp
    have hrest := payoutSum_nonneg hps
    rw [payoutSum_cons] at hallow hbal
    obtain ⟨t₁, hcall, hb₁, ha₁⟩ := hconf.transfer_ok t spender owner p.payee p.amount hp
      (by omega) (by omega)
    -- what is left is still covered; a payment to the owner itself only helps
    have hallow₁ : payoutSum ps ≤ allowance t₁ owner spender := by
      rw [ha₁, lowered, if_pos ⟨rfl, rfl⟩]
      omega
    have hbal₁ : payoutSum ps ≤ balance t₁ owner := by
      rw [hb₁, moved, if_pos rfl]
      split <;> omega
    obtain ⟨t', hrun, hb', ha'⟩ := ih t₁ hps hallow₁ hbal₁
    refine ⟨t', ?_, ?_, ?_⟩
    · rw [transferAll, Callout.runWith, hcall]
      exact hrun
    · rw [hb', hb₁, paidOut_moved]
    · rw [ha', ha₁, lowered_lowered, payoutSum_cons]

/-! ### The two payout loops -/

/-- What the entries are owed together: each count times the rate, exactly. -/
def owed (rate : ℤ) (entries : List (Address × UInt32)) : ℤ :=
  (entries.map fun e ↦ (e.2.toNat : ℤ) * rate).sum

theorem owed_eq_mul (rate : ℤ) (entries : List (Address × UInt32)) :
    owed rate entries = countSum entries * rate := by
  induction entries with
  | nil => simp [owed, countSum]
  | cons e rest ih =>
    have hhead : owed rate (e :: rest) = (e.2.toNat : ℤ) * rate + owed rate rest := by simp [owed]
    have hsum : countSum (e :: rest) = e.2.toNat + countSum rest := by simp [countSum]
    rw [hhead, ih, hsum, Nat.cast_add, Int.add_mul]

/-- The amounts of all entries exist exactly when each of them is a 128-bit value. -/
theorem exists_pays_iff {rate : I128} {entries : List (Address × UInt32)} :
    (∃ ps, List.Forall₂ (Pays rate) entries ps) ↔
      ∀ e ∈ entries, I128.Fits ((e.2.toNat : ℤ) * rate.val) := by
  constructor
  · rintro ⟨ps, hps⟩ e he
    obtain ⟨p, -, -, hp⟩ : ∃ p ∈ ps, Pays rate e p := by
      induction hps with
      | nil => exact absurd he List.not_mem_nil
      | cons hpay _ ih =>
        rcases List.mem_cons.1 he with rfl | he
        · exact ⟨_, List.mem_cons_self, hpay⟩
        · obtain ⟨p, hp, hpay⟩ := ih he
          exact ⟨p, List.mem_cons_of_mem _ hp, hpay⟩
    rw [← hp]
    exact p.amount.fits_val
  · intro hfit
    induction entries with
    | nil => exact ⟨[], .nil⟩
    | cons e rest ih =>
      obtain ⟨ps, hps⟩ := ih fun e' he' ↦ hfit e' (List.mem_cons_of_mem e he')
      obtain ⟨hlow, hhigh⟩ := hfit e List.mem_cons_self
      exact ⟨⟨e.1, ⟨(e.2.toNat : ℤ) * rate.val, hlow, hhigh⟩⟩ :: ps, .cons ⟨rfl, rfl⟩ hps⟩

/-- Leaving out the zeros leaves the total what is owed. -/
theorem payoutSum_positivePayouts {rate : I128} (hrate : 0 ≤ rate.val)
    {entries : List (Address × UInt32)} {ps : List Payout}
    (hps : List.Forall₂ (Pays rate) entries ps) :
    payoutSum (positivePayouts ps) = owed rate.val entries := by
  induction hps with
  | nil => rfl
  | @cons e p rest ps hpay _ ih =>
    have howed : owed rate.val (e :: rest) = (e.2.toNat : ℤ) * rate.val + owed rate.val rest := by
      simp [owed]
    have hnonneg : 0 ≤ (e.2.toNat : ℤ) * rate.val := Int.mul_nonneg (Int.natCast_nonneg _) hrate
    rw [positivePayouts_cons, howed, ← ih, ← hpay.2]
    rw [← hpay.2] at hnonneg
    split
    · rw [payoutSum_cons]
    · next hneg =>
      have hzero : ¬0 < p.amount.val := hneg
      omega

/-- The payees are the addresses of the entries. -/
theorem map_payee {rate : I128} {entries : List (Address × UInt32)} {ps : List Payout}
    (hps : List.Forall₂ (Pays rate) entries ps) : ps.map Payout.payee = entries.map Prod.fst := by
  induction hps with
  | nil => rfl
  | cons hpay _ ih => rw [List.map_cons, List.map_cons, hpay.1, ih]

/-- Each of them once. -/
theorem nodup_payees {rate : I128} {entries : List (Address × UInt32)} {ps : List Payout}
    (hps : List.Forall₂ (Pays rate) entries ps) (hnodup : (entries.map Prod.fst).Nodup) :
    ((positivePayouts ps).map Payout.payee).Nodup := by
  refine List.Nodup.sublist (List.filter_sublist.map Payout.payee) ?_
  rw [map_payee hps]
  exact hnodup

/-- Where no payee occurs twice, each is paid its own amount. -/
theorem paidTo_of_mem {ps : List Payout} (hnodup : (ps.map Payout.payee).Nodup) {p : Payout}
    (hp : p ∈ ps) : paidTo ps p.payee = p.amount.val := by
  have hzero : ∀ (qs : List Payout) (a : Address), a ∉ qs.map Payout.payee → paidTo qs a = 0 := by
    intro qs a ha
    induction qs with
    | nil => rfl
    | cons q qs ih =>
      rw [List.map_cons, List.mem_cons, not_or] at ha
      rw [paidTo_cons, if_neg (Ne.symm ha.1), ih ha.2, Int.zero_add]
  induction ps with
  | nil => exact absurd hp List.not_mem_nil
  | cons q ps ih =>
    rw [List.map_cons, List.nodup_cons] at hnodup
    rw [paidTo_cons]
    rcases List.mem_cons.1 hp with rfl | hp
    · rw [if_pos rfl, hzero ps _ hnodup.1, Int.add_zero]
    · have hne : q.payee ≠ p.payee := by
        intro he
        exact hnodup.1 (he ▸ List.mem_map_of_mem hp)
      rw [if_neg hne, ih hnodup.2 hp, Int.zero_add]

/-- `compute_payouts` lists what every entry of the tally is owed. -/
theorem computePayouts_eq_ok_iff {c period : UInt64} {code : Bytes} {s : ContractState}
    {ps : List Payout} : computePayouts c code period s = .ok ps ↔
      ∃ sc tally, s.storage.shared (c, code) = some sc ∧
        s.storage.tally (c, code, period) = some tally ∧
        List.Forall₂ (Pays sc.payoutRate) tally.perAttribution.entries ps := by
  simp [computePayouts, bind_eq_ok_iff, ContractState.get_def, Storage.get,
    foldlM_addPayout_eq_ok_iff]

/-! ### One settlement against a conforming token -/

section Settle

variable {τ : Type} {h : (op : TokenCall) → τ → Option (op.Answer × τ)}
  {balance : τ → Address → ℤ} {allowance : τ → Address → Address → ℤ} {env : Env}
  {owner : Address} {c period : UInt64} {code : Bytes} {plan : SettlePlan} {s : ContractState}
  {t : τ}

/-- When the allowance and the balance cover the total, every payout is made. -/
theorem settlePayments_covered (hconf : Conforming h plan.token balance allowance)
    (hpos : ∀ p ∈ plan.out, 0 < p.amount) (htotal : plan.total.val = payoutSum plan.out)
    (hallow : plan.total.val ≤ allowance t owner env.currentContract)
    (hbal : plan.total.val ≤ balance t owner) :
    ∃ t', (settlePayments env owner c period plan s).runWith h t =
        .ok (plan.out, s.publish (.tallySettled c period plan.token plan.payoutRate), t') ∧
      balance t' = paidOut (balance t) owner plan.out ∧
      allowance t' = lowered (allowance t) owner env.currentContract (payoutSum plan.out) := by
  obtain ⟨a, t₁, hcall₁, ha, hb₁, ha₁⟩ := hconf.allowance_eq t owner env.currentContract
  obtain ⟨b, t₂, hcall₂, hb, hb₂, ha₂⟩ := hconf.balance_eq t₁ owner
  have hnot₁ : ¬a < plan.total := by
    rw [I128.lt_def]
    omega
  have hnot₂ : ¬b < plan.total := by
    rw [I128.lt_def, hb, hb₁]
    omega
  have hallow₂ : payoutSum plan.out ≤ allowance t₂ owner env.currentContract := by
    rw [ha₂, ha₁, ← htotal]
    exact hallow
  have hbal₂ : payoutSum plan.out ≤ balance t₂ owner := by
    rw [hb₂, hb₁, ← htotal]
    exact hbal
  obtain ⟨t', hrun, hb', ha'⟩ := transferAll_runWith hconf (fun s ↦ .done (.ok (plan.out,
    s.publish (.tallySettled c period plan.token plan.payoutRate)))) s plan.out t₂ hpos hallow₂
    hbal₂
  refine ⟨t', ?_, by rw [hb', hb₂, hb₁], by rw [ha', ha₂, ha₁]⟩
  rw [settlePayments, Callout.runWith, hcall₁]
  show Callout.runWith h (if a < plan.total then _ else _) t₁ = _
  rw [if_neg hnot₁, Callout.runWith, hcall₂]
  show Callout.runWith h (if b < plan.total then _ else _) t₂ = _
  rw [if_neg hnot₂, hrun]
  rfl

/-- When one of them falls short, the settlement is refused before any transfer. -/
theorem settlePayments_short (hconf : Conforming h plan.token balance allowance)
    (hshort : ¬(plan.total.val ≤ allowance t owner env.currentContract ∧
      plan.total.val ≤ balance t owner)) :
    (settlePayments env owner c period plan s).runWith h t = .error (.err .invalidSettlement) := by
  obtain ⟨a, t₁, hcall₁, ha, hb₁, ha₁⟩ := hconf.allowance_eq t owner env.currentContract
  obtain ⟨b, t₂, hcall₂, hb, hb₂, ha₂⟩ := hconf.balance_eq t₁ owner
  rw [settlePayments, Callout.runWith, hcall₁]
  show Callout.runWith h (if a < plan.total then _ else _) t₁ = _
  rcases Decidable.em (a < plan.total) with hlt | hnot₁
  · rw [if_pos hlt]
    rfl
  · -- the allowance covers the total, so it is the balance that falls short
    have hlt : b < plan.total := by
      rw [I128.lt_def] at hnot₁ ⊢
      rw [hb, hb₁]
      omega
    rw [if_neg hnot₁, Callout.runWith, hcall₂]
    show Callout.runWith h (if b < plan.total then _ else _) t₂ = _
    rw [if_pos hlt]
    rfl

end Settle

/-- The checks of a settlement on a committed period: what it takes to pass them, and the plan they
leave. -/
theorem settleChecks_committed {env : Env} {c period : UInt64} {code : Bytes} {s s₁ : ContractState}
    {camp : Campaign} {sc : SharedCode} {tally : TallyCommitment} {plan : SettlePlan}
    (hshared : s.storage.shared (c, code) = some sc)
    (htally : s.storage.tally (c, code, period) = some tally)
    (hchecks : settleChecks env camp.owner c code period s = .ok (plan, s₁)) :
    sc.payoutToken = some plan.token ∧ 0 < sc.payoutRate ∧
      s₁.storage.settled (c, code, period) = some true ∧
      ∃ ps, List.Forall₂ (Pays sc.payoutRate) tally.perAttribution.entries ps ∧
        plan.out = positivePayouts ps ∧ plan.total.val = payoutSum plan.out ∧
        plan.total.val = owed sc.payoutRate.val tally.perAttribution.entries := by
  obtain ⟨-, sc', tally', hshared', htoken, hrate, htally', -, -, hloop, rfl⟩ :=
    settleChecks_eq_ok_iff.1 hchecks
  obtain rfl := Option.some.inj (hshared.symm.trans hshared')
  obtain rfl := Option.some.inj (htally.symm.trans htally')
  obtain ⟨ps, hps, hout, htotal⟩ := foldlM_addSettlement_eq_ok_iff.1 hloop
  rw [List.nil_append] at hout
  rw [I128.val_zero, Int.zero_add, ← hout] at htotal
  refine ⟨htoken, hrate, Function.update_self _ _ _, ps, hps, hout, htotal, ?_⟩
  rw [htotal, hout, payoutSum_positivePayouts (I128.lt_def.1 hrate).le hps]

/-! ### Settling a committed period -/

section Committed

variable {τ : Type} {h : (op : TokenCall) → τ → Option (op.Answer × τ)}
  {balance : τ → Address → ℤ} {allowance : τ → Address → Address → ℤ} {env : Env}
  {c period : UInt64} {code : Bytes} {s s₁ : ContractState} {camp : Campaign} {sc : SharedCode}
  {tally : TallyCommitment} {plan : SettlePlan} {t : τ}

/-- After its checks a settlement is its payments. -/
theorem settle_of_checks (hchecks : settleChecks env camp.owner c code period s = .ok (plan, s₁)) :
    (settle env camp.owner c code period s).runWith h t =
      (settlePayments env camp.owner c period plan s₁).runWith h t := by
  rw [settle, hchecks]

/-- When the allowance and the balance cover what is owed, the settlement succeeds. -/
theorem settle_covered (hshared : s.storage.shared (c, code) = some sc)
    (htally : s.storage.tally (c, code, period) = some tally)
    (hconf : ∀ token, sc.payoutToken = some token → Conforming h token balance allowance)
    (hchecks : settleChecks env camp.owner c code period s = .ok (plan, s₁))
    (hallow : owed sc.payoutRate.val tally.perAttribution.entries ≤
      allowance t camp.owner env.currentContract)
    (hbal : owed sc.payoutRate.val tally.perAttribution.entries ≤ balance t camp.owner) :
    ∃ t', (settle env camp.owner c code period s).runWith h t =
        .ok (plan.out, s₁.publish (.tallySettled c period plan.token plan.payoutRate), t') ∧
      balance t' = paidOut (balance t) camp.owner plan.out ∧
      allowance t' =
        lowered (allowance t) camp.owner env.currentContract (payoutSum plan.out) := by
  obtain ⟨htoken, -, -, ps, -, hout, htotal, howed⟩ :=
    settleChecks_committed hshared htally hchecks
  have hpos : ∀ p ∈ plan.out, 0 < p.amount := by
    intro p hp
    rw [hout] at hp
    simpa using (List.mem_filter.1 hp).2
  rw [settle_of_checks hchecks]
  exact settlePayments_covered (hconf _ htoken) hpos htotal (howed ▸ hallow) (howed ▸ hbal)

/-- A settlement that succeeds got past its checks, was covered, and made every payout. -/
theorem settle_eq_ok (hshared : s.storage.shared (c, code) = some sc)
    (htally : s.storage.tally (c, code, period) = some tally)
    (hconf : ∀ token, sc.payoutToken = some token → Conforming h token balance allowance)
    {out : List Payout} {s' : ContractState} {t' : τ}
    (hrun : (settle env camp.owner c code period s).runWith h t = .ok (out, s', t')) :
    ∃ plan s₁, settleChecks env camp.owner c code period s = .ok (plan, s₁) ∧
      (owed sc.payoutRate.val tally.perAttribution.entries ≤
          allowance t camp.owner env.currentContract ∧
        owed sc.payoutRate.val tally.perAttribution.entries ≤ balance t camp.owner) ∧
      out = plan.out ∧ s'.storage = s₁.storage ∧
      balance t' = paidOut (balance t) camp.owner out ∧
      allowance t' = lowered (allowance t) camp.owner env.currentContract (payoutSum out) := by
  obtain ⟨plan, s₁, hchecks, -⟩ := settle_ok hrun
  obtain ⟨htoken, -, -, -, -, -, -, howed⟩ := settleChecks_committed hshared htally hchecks
  refine ⟨plan, s₁, hchecks, ?_⟩
  by_cases hcovered : owed sc.payoutRate.val tally.perAttribution.entries ≤
      allowance t camp.owner env.currentContract ∧
    owed sc.payoutRate.val tally.perAttribution.entries ≤ balance t camp.owner
  · obtain ⟨t₁, hrun₁, hbal, hallow⟩ :=
      settle_covered hshared htally hconf hchecks hcovered.1 hcovered.2
    obtain ⟨rfl, rfl, rfl⟩ : plan.out = out ∧ _ = s' ∧ t₁ = t' := by
      simpa using hrun₁.symm.trans hrun
    exact ⟨hcovered, rfl, rfl, hbal, hallow⟩
  · rw [settle_of_checks hchecks, settlePayments_short (hconf _ htoken) (howed ▸ hcovered)] at hrun
    exact absurd hrun (by simp)

/-- A period whose code has its terms, whose amounts fit and which is not settled gets past the
checks. -/
theorem exists_settleChecks (env : Env) (hi : TallyIntegrity s.storage)
    (hcamp : s.storage.campaign c = some camp) (hshared : s.storage.shared (c, code) = some sc)
    (htally : s.storage.tally (c, code, period) = some tally)
    (hfree : s.storage.settled (c, code, period) = none) (htoken : sc.payoutToken.isSome = true)
    (hfits : ∀ e ∈ tally.perAttribution.entries,
      I128.Fits ((e.2.toNat : ℤ) * sc.payoutRate.val))
    (hsum : I128.Fits (owed sc.payoutRate.val tally.perAttribution.entries)) :
    ∃ plan s₁, settleChecks env camp.owner c code period s = .ok (plan, s₁) := by
  have hrate : 0 < sc.payoutRate := (hi.terms _ sc hshared).1.1 htoken
  obtain ⟨token, htoken⟩ := Option.isSome_iff_exists.1 htoken
  obtain ⟨ps, hps⟩ := exists_pays_iff.2 hfits
  let plan : SettlePlan := ⟨token, sc.payoutRate, positivePayouts ps, ⟨_, hsum.1, hsum.2⟩⟩
  have hloop : tally.perAttribution.entries.foldlM (addSettlement sc.payoutRate) ([], 0) =
      .ok (plan.out, plan.total) :=
    foldlM_addSettlement_eq_ok_iff.2 ⟨ps, hps, rfl, by
      rw [payoutSum_positivePayouts (I128.lt_def.1 hrate).le hps, I128.val_zero, Int.zero_add]⟩
  exact ⟨plan, _, settleChecks_eq_ok_iff.2 ⟨⟨camp, hcamp, rfl⟩, sc, tally, hshared, htoken, hrate,
    htally, hfree, rfl, hloop, rfl⟩⟩

/-- What is owed for a period of a code with a payout token is the committed count times the rate:
the code has a target, and then the counts of the attribution add up to the total. -/
theorem owed_eq_count_mul (hi : TallyIntegrity s.storage)
    (hshared : s.storage.shared (c, code) = some sc)
    (htally : s.storage.tally (c, code, period) = some tally)
    (htoken : sc.payoutToken.isSome = true) :
    owed sc.payoutRate.val tally.perAttribution.entries =
      (tally.count.toNat : ℤ) * sc.payoutRate.val := by
  have hattr := (hi.terms _ sc hshared).2 htoken
  obtain ⟨a, ha⟩ := Option.isSome_iff_exists.1 hattr
  obtain ⟨sc', hshared', hrule⟩ := hi.tally c code period tally htally
  obtain rfl := Option.some.inj (hshared.symm.trans hshared')
  rw [ha] at hrule
  rw [owed_eq_mul, hrule.2]

end Committed

/-! ### The theorem -/

/-- **A settlement pays what was committed and previewed.** Take a period committed and not settled,
in any reachable state, and a token that conforms if the code has one. The owner's settlement
succeeds exactly when there is a token, every amount and their sum are 128-bit values, and the
allowance and the balance cover the sum. When it succeeds it returns the previewed payouts without
the zeros, pays each listed address its amount and nobody else, takes the sum from the owner and
from the allowance, and the sum is the committed count times the rate. When it fails the period
stays open and the token's books are as they were. -/
theorem settlement_pays {τ : Type} {h : (op : TokenCall) → τ → Option (op.Answer × τ)}
    {balance : τ → Address → ℤ} {allowance : τ → Address → Address → ℤ} {s : ContractState}
    (hs : Reachable s) {c period : UInt64} {code : Bytes} {camp : Campaign} {sc : SharedCode}
    {tally : TallyCommitment} (hcamp : s.storage.campaign c = some camp)
    (hshared : s.storage.shared (c, code) = some sc)
    (htally : s.storage.tally (c, code, period) = some tally)
    (hfree : s.storage.settled (c, code, period) = none)
    (hconf : ∀ token, sc.payoutToken = some token → Conforming h token balance allowance)
    (env : Env) (t : τ) :
    let entries := tally.perAttribution.entries
    let sum := owed sc.payoutRate.val entries
    let run := (settle env camp.owner c code period s).runWith h t
    ((∃ out s' t', run = .ok (out, s', t')) ↔
      sc.payoutToken.isSome = true ∧
      (∀ e ∈ entries, I128.Fits ((e.2.toNat : ℤ) * sc.payoutRate.val)) ∧ I128.Fits sum ∧
      sum ≤ allowance t camp.owner env.currentContract ∧ sum ≤ balance t camp.owner) ∧
    (∀ out s' t', run = .ok (out, s', t') →
      (∃ ps, computePayouts c code period s = .ok ps ∧
        out = ps.filter fun p ↦ decide (0 < p.amount)) ∧
      (∀ p ∈ out, paidTo out p.payee = p.amount.val) ∧
      balance t' = paidOut (balance t) camp.owner out ∧
      allowance t' = lowered (allowance t) camp.owner env.currentContract (payoutSum out) ∧
      payoutSum out = (tally.count.toNat : ℤ) * sc.payoutRate.val ∧
      s'.storage.settled (c, code, period) = some true) ∧
    (∀ f, run = .error f →
      (Outcome.commit (s, t) run).1.storage.settled (c, code, period) = none ∧
      balance (Outcome.commit (s, t) run).2 = balance t ∧
      allowance (Outcome.commit (s, t) run).2 = allowance t) := by
  intro entries sum run
  have hi := hs.tallyIntegrity
  refine ⟨⟨?_, ?_⟩, ?_, ?_⟩
  · rintro ⟨out, s', t', hrun⟩
    obtain ⟨plan, s₁, hchecks, hcovered, -⟩ := settle_eq_ok hshared htally hconf hrun
    obtain ⟨htoken, -, -, ps, hps, -, -, howed⟩ := settleChecks_committed hshared htally hchecks
    refine ⟨by rw [htoken]; rfl, exists_pays_iff.1 ⟨ps, hps⟩, ?_, hcovered⟩
    show I128.Fits (owed _ _)
    rw [← howed]
    exact plan.total.fits_val
  · rintro ⟨htoken, hfits, hsum, hallow, hbal⟩
    obtain ⟨plan, s₁, hchecks⟩ :=
      exists_settleChecks env hi hcamp hshared htally hfree htoken hfits hsum
    obtain ⟨t', hrun, -⟩ := settle_covered hshared htally hconf hchecks hallow hbal
    exact ⟨_, _, t', hrun⟩
  · intro out s' t' hrun
    obtain ⟨plan, s₁, hchecks, -, rfl, hstorage, hbal, hallow⟩ :=
      settle_eq_ok hshared htally hconf hrun
    obtain ⟨htoken, -, hset, ps, hps, hout, htotal, howed⟩ :=
      settleChecks_committed hshared htally hchecks
    refine ⟨⟨ps, computePayouts_eq_ok_iff.2 ⟨sc, tally, hshared, htally, hps⟩, hout⟩,
      fun p hp ↦ ?_, hbal, hallow, ?_, ?_⟩
    · refine paidTo_of_mem ?_ hp
      rw [hout]
      exact nodup_payees hps tally.perAttribution.nodup
    · rw [← htotal, howed]
      exact owed_eq_count_mul hi hshared htally (by rw [htoken]; rfl)
    · rw [hstorage]
      exact hset
  · intro f hrun
    rw [hrun]
    exact ⟨hfree, rfl, rfl⟩

namespace Sample

/-- The books of a standard token: balances and allowances, with a total supply that is a 128-bit
amount. -/
structure Books where
  balance : Address → ℕ
  allowance : Address → Address → ℕ
  /-- What any addresses hold together is an amount. -/
  balance_lt : ∀ S : Finset Address, ∑ a ∈ S, balance a < 2 ^ 127
  allowance_lt : ∀ o s, allowance o s < 2 ^ 127

namespace Books

/-- The balances after `n` has moved. -/
def movedNat (balance : Address → ℕ) (owner payee : Address) (n : ℕ) : Address → ℕ :=
  fun a ↦ balance a + (if a = payee then n else 0) - (if a = owner then n else 0)

/-- A move between addresses keeps the supply within its bound. -/
theorem sum_movedNat_le (balance : Address → ℕ) {owner payee : Address} {n : ℕ}
    (hn : n ≤ balance owner) (S : Finset Address) :
    ∑ a ∈ S, movedNat balance owner payee n a ≤ ∑ a ∈ insert owner S, balance a := by
  have hsub : ∑ a ∈ S, movedNat balance owner payee n a ≤
      ∑ a ∈ insert owner S, movedNat balance owner payee n a :=
    Finset.sum_le_sum_of_subset (Finset.subset_insert owner S)
  have hpoint : ∀ a, movedNat balance owner payee n a + (if a = owner then n else 0) =
      balance a + if a = payee then n else 0 := by
    intro a
    rcases eq_or_ne a owner with rfl | hne
    · simp only [movedNat, if_true]
      omega
    · simp only [movedNat, if_neg hne]
      omega
  have hsum := Finset.sum_congr rfl fun a (_ : a ∈ insert owner S) ↦ hpoint a
  rw [Finset.sum_add_distrib, Finset.sum_add_distrib, Finset.sum_ite_eq', Finset.sum_ite_eq',
    if_pos (Finset.mem_insert_self owner S)] at hsum
  split at hsum <;> omega

/-- The books after a transfer. -/
def transfer (t : Books) (spender owner payee : Address) (n : ℕ) (hn : n ≤ t.balance owner) :
    Books where
  balance := movedNat t.balance owner payee n
  allowance := fun o s ↦ t.allowance o s - if o = owner ∧ s = spender then n else 0
  balance_lt S := lt_of_le_of_lt (sum_movedNat_le t.balance hn S) (t.balance_lt _)
  allowance_lt o s := lt_of_le_of_lt (Nat.sub_le _ _) (t.allowance_lt o s)

theorem balance_le (t : Books) (a : Address) : t.balance a < 2 ^ 127 := by
  have h := t.balance_lt {a}
  rwa [Finset.sum_singleton] at h

/-- The token's three calls. -/
def handle : (op : TokenCall) → Books → Option (op.Answer × Books)
  | .allowance _ owner spender, t =>
    some (⟨t.allowance owner spender, by omega, by have := t.allowance_lt owner spender; omega⟩, t)
  | .balance _ owner, t =>
    some (⟨t.balance owner, by omega, by have := t.balance_le owner; omega⟩, t)
  | .transferFrom _ spender owner payee amount, t =>
    if h : 0 ≤ amount.val ∧ amount.val.toNat ≤ t.balance owner ∧
        amount.val.toNat ≤ t.allowance owner spender then
      some ((), t.transfer spender owner payee amount.val.toNat h.2.1)
    else none

/-- A standard token conforms. -/
theorem conforming (token : Address) : Conforming handle token (fun t a ↦ (t.balance a : ℤ))
    (fun t o s ↦ (t.allowance o s : ℤ)) where
  allowance_eq t owner spender := ⟨_, t, rfl, rfl, rfl, rfl⟩
  balance_eq t owner := ⟨_, t, rfl, rfl, rfl, rfl⟩
  transfer_ok t spender owner payee amount hpos hb ha := by
    have hval : 0 < amount.val := I128.lt_def.1 hpos
    have hcond : 0 ≤ amount.val ∧ amount.val.toNat ≤ t.balance owner ∧
        amount.val.toNat ≤ t.allowance owner spender := by omega
    refine ⟨t.transfer spender owner payee amount.val.toNat hcond.2.1, dif_pos hcond, ?_, ?_⟩
    · funext a
      show ((movedNat t.balance owner payee amount.val.toNat a : ℕ) : ℤ) = moved _ owner payee _ a
      rcases eq_or_ne a owner with rfl | hne
      · simp only [movedNat, moved, if_true]
        split <;> omega
      · simp only [movedNat, moved, if_neg hne]
        split <;> omega
    · funext o s
      show ((t.allowance o s - (if o = owner ∧ s = spender then amount.val.toNat else 0) : ℕ) : ℤ) =
        lowered _ owner spender amount.val o s
      rw [lowered]
      split
      · next heq =>
        obtain ⟨rfl, rfl⟩ := heq
        omega
      · omega
  transfer_short t spender owner payee amount hpos hshort := by
    have hval : 0 < amount.val := I128.lt_def.1 hpos
    exact dif_neg (by omega)

end Books

/-- The sample books: the owner holds twenty and allows the contract to spend fifteen. -/
def books : Books where
  balance a := if a = owner then 20 else 0
  allowance o s := if o = owner ∧ s = (envAt 16 owner).currentContract then 15 else 0
  balance_lt S := by
    rw [Finset.sum_ite_eq']
    split <;> omega
  allowance_lt o s := by
    split <;> omega

end Sample

/-- The sample period, three stamps at a rate of five, is settled for fifteen. -/
theorem settlement_pays_sample :
    ∃ out s' t', (settle (Sample.envAt 16 Sample.owner) Sample.owner 1 Sample.sharedCode 1
        (runFrom 0 (Sample.history.take 6))).runWith Sample.Books.handle Sample.books =
      .ok (out, s', t') ∧ payoutSum out = 15 := by
  have hcamp : ((runFrom 0 (Sample.history.take 6)).storage.campaign 1).map Campaign.owner =
      some Sample.owner := by decide
  have hshared : ((runFrom 0 (Sample.history.take 6)).storage.shared (1, Sample.sharedCode)).map
      (fun sc ↦ (sc.payoutToken, sc.payoutRate)) = some (some Sample.token, .ofUInt32 5) := by
    decide
  have htally : ((runFrom 0 (Sample.history.take 6)).storage.tally (1, Sample.sharedCode, 1)).map
      (fun tally ↦ (tally.count, tally.perAttribution)) = some (3, Sample.attribution) := by decide
  have hfree : (runFrom 0 (Sample.history.take 6)).storage.settled (1, Sample.sharedCode, 1) =
      none := by decide
  obtain ⟨camp, hcamp, howner⟩ := Option.map_eq_some_iff.1 hcamp
  obtain ⟨sc, hshared, hsc⟩ := Option.map_eq_some_iff.1 hshared
  obtain ⟨tally, htally, ht⟩ := Option.map_eq_some_iff.1 htally
  obtain ⟨htoken, hrate⟩ := Prod.mk.inj hsc
  obtain ⟨hcount, hentries⟩ := Prod.mk.inj ht
  obtain ⟨hiff, hpays, -⟩ := settlement_pays (Sample.reachable_take 6) hcamp hshared htally hfree
    (fun token _ ↦ Sample.Books.conforming token) (Sample.envAt 16 Sample.owner) Sample.books
  rw [howner] at hiff hpays
  obtain ⟨out, s', t', hrun⟩ := hiff.2 (by
    rw [htoken, hrate, hentries]
    exact ⟨rfl, by decide, by decide, by decide, by decide⟩)
  refine ⟨out, s', t', hrun, ?_⟩
  rw [(hpays out s' t' hrun).2.2.2.2.1, hcount, hrate]
  rfl

end Soroticket
