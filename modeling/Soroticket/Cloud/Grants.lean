import Mathlib.Algebra.Order.BigOperators.Group.Finset
import Mathlib.Tactic.IntervalCases
import Soroticket.Cloud.Credits

/-!
# The grant of a month

An organization may use the grant of a month and keeps nothing of it for the next: a month begins
with the grant, whatever is left. So no balance should exceed it.

A charge that is outstanding is the exception. It has been taken from the balance, so the top-up of
a new month restores it, and a refund then restores it once more (`refund_after_top_up`). The
balance never exceeds the grant where every refund comes before the top-ups that follow its debit
(`grant_does_not_accumulate`). The invariant counts what may still come back: the balance, with all
charges debited since the latest top-up and outstanding, is at most the grant.
-/

namespace Soroticket

open Interleaving Interleaving.Service

/-! ### Steps -/

namespace Metering

/-- What a request has taken from an organization and may give back. -/
def held (org : ℕ) : Metering → ℤ
  | reserved c => if c.account.orgID = org then c.mcr else 0
  | refunding c mcr => if c.account.orgID = org then mcr else 0
  | _ => 0

/-- A request that has not done anything. -/
inductive Arrives : Metering → Prop
  | grant (org : ℕ) : Arrives (.grant org)
  | createOrg (org : ℕ) : Arrives (.createOrg org)
  | charge (c : Charge) : Arrives (.charge c)

/-- Charges are positive, and no more is refunded than was charged. -/
def Bounded : Metering → Prop
  | chargeDebit c | reserved c => 0 < c.mcr
  | refunding c mcr => 0 < mcr ∧ mcr ≤ c.mcr
  | _ => True

theorem Arrives.bounded {p : Metering} (h : Arrives p) : p.Bounded := by
  cases h with
  | grant => trivial
  | createOrg => trivial
  | charge => trivial

theorem Arrives.held {p : Metering} (h : Arrives p) (org : ℕ) : p.held org = 0 := by
  cases h with
  | grant => rfl
  | createOrg => rfl
  | charge => rfl

theorem held_nonneg {p : Metering} (h : p.Bounded) (org : ℕ) : 0 ≤ p.held org := by
  cases p with
  | reserved c =>
    have hc : 0 < c.mcr := h
    rw [held]
    split <;> omega
  | refunding c mcr =>
    have hmcr : 0 < mcr := h.1
    rw [held]
    split <;> omega
  | grant | createOrg | charge | chargeDebit | refused | finished => exact le_rfl

end Metering

/-- An organization is given the grant of a month: its first, or one that its balance was below. -/
def Granted (t t' : CreditTables) (org : ℕ) : Prop :=
  ∃ month, (t.credits org).map (·.grantMonth) ≠ some month ∧ t.balance org < monthlyGrantMcr ∧
    t'.credits org = some ⟨monthlyGrantMcr, month⟩

namespace CreditTables

variable {t t' : CreditTables} {org : ℕ}

theorem balance_post_self (row : CreditRow) (operation detail : String) (delta : ℤ) :
    (t.post org row operation detail delta).balance org = row.balance :=
  balance_update_self row _

theorem balance_post_of_ne {org' : ℕ} (hne : org' ≠ org) (row : CreditRow)
    (operation detail : String) (delta : ℤ) :
    (t.post org row operation detail delta).balance org' = t.balance org' :=
  balance_update_of_ne hne row _

theorem Granted.of_openingGrant (hnone : t.credits org = none) (month : Month) :
    Granted t (t.openingGrant org month) org := by
  refine ⟨month, ?_, ?_, Function.update_self ..⟩
  · rw [hnone]
    exact (Option.some_ne_none _).symm
  · rw [balance, hnone]
    decide

/-- The transaction of `ensureMonthlyGrant` gives the organization the grant, or leaves every
balance. -/
theorem ensureMonthlyGrant_cases (t : CreditTables) (org : ℕ) (month : Month) :
    (Granted t (t.ensureMonthlyGrant org month) org ∧
        ∀ org' ≠ org, (t.ensureMonthlyGrant org month).balance org' = t.balance org') ∨
      ∀ org', (t.ensureMonthlyGrant org month).balance org' = t.balance org' := by
  rw [ensureMonthlyGrant]
  cases hcredits : t.credits org with
  | none =>
    exact Or.inl ⟨Granted.of_openingGrant hcredits month, fun org' hne ↦
      balance_post_of_ne hne _ _ _ _⟩
  | some row =>
    have hbalance := balance_of_row hcredits
    dsimp only
    split
    case isTrue hnew =>
      refine Or.inl ⟨⟨month, ?_, ?_, Function.update_self ..⟩, fun org' hne ↦
        balance_post_of_ne hne _ _ _ _⟩
      · rw [hcredits]
        exact fun h ↦ hnew.1 (Option.some.inj h)
      · rw [hbalance]
        exact hnew.2
    case isFalse =>
      refine Or.inr fun org' ↦ ?_
      split
      · rcases eq_or_ne org' org with rfl | hne
        · rw [balance_update_self, hbalance]
        · exact balance_update_of_ne hne _ _
      · rfl

theorem createOrg_cases {month : Month} (h : t.createOrg org month = some t') :
    Granted t t' org ∧ ∀ org' ≠ org, t'.balance org' = t.balance org' := by
  rw [createOrg] at h
  cases hcredits : t.credits org with
  | none =>
    rw [hcredits] at h
    obtain rfl := Option.some.inj h
    exact ⟨Granted.of_openingGrant hcredits month, fun org' hne ↦ balance_post_of_ne hne _ _ _ _⟩
  | some row =>
    rw [hcredits] at h
    exact absurd h.symm (Option.some_ne_none _)

/-- A debit lowers one balance by its charge. -/
theorem balance_debit {operation detail : String} {mcr : ℤ}
    (h : t.debit org operation detail mcr = some t') :
    t'.balance org = t.balance org - mcr ∧ ∀ org' ≠ org, t'.balance org' = t.balance org' := by
  rw [debit] at h
  cases hcredits : t.credits org with
  | none =>
    rw [hcredits] at h
    exact absurd h.symm (Option.some_ne_none _)
  | some row =>
    rw [hcredits] at h
    obtain ⟨-, h⟩ := Option.ite_none_right_eq_some.1 h
    obtain rfl := Option.some.inj h
    rw [balance_post_self, balance_of_row hcredits]
    exact ⟨rfl, fun org' hne ↦ balance_post_of_ne hne _ _ _ _⟩

/-- A refund raises one balance by what is refunded. -/
theorem balance_refund {operation detail : String} {mcr : ℤ}
    (h : t.refund org operation detail mcr = some t') :
    t'.balance org = t.balance org + mcr ∧ ∀ org' ≠ org, t'.balance org' = t.balance org' := by
  rw [refund] at h
  cases hcredits : t.credits org with
  | none =>
    rw [hcredits] at h
    exact absurd h.symm (Option.some_ne_none _)
  | some row =>
    rw [hcredits] at h
    obtain ⟨-, h⟩ := Option.ite_none_right_eq_some.1 h
    obtain rfl := Option.some.inj h
    rw [balance_post_self, balance_of_row hcredits]
    exact ⟨rfl, fun org' hne ↦ balance_post_of_ne hne _ _ _ _⟩

end CreditTables

/-- What a step does to the balance of an organization, and to what its request holds of it. -/
inductive MeterEffect (org : ℕ) (p p' : Metering) (t t' : CreditTables) : Prop
  | grants (hgrant : Granted t t' org) (hp : p.held org = 0) (hp' : p'.held org = 0)
  | releases (hbalance : t'.balance org ≤ t.balance org) (hheld : p'.held org ≤ p.held org)
  | debits (c : Charge) (hp : p = .chargeDebit c) (hp' : p' = .reserved c)
      (horg : c.account.orgID = org) (hbalance : t'.balance org = t.balance org - c.mcr)
  | refunds (c : Charge) (mcr : ℤ) (hp : p = .refunding c mcr) (hp' : p' = .finished)
      (horg : c.account.orgID = org) (hbalance : t'.balance org = t.balance org + mcr)

section Steps

variable {ch : MeterChoice} {p p' : Metering} {t t' : CreditTables}

/-- The transaction of `ensureMonthlyGrant`, for a request that holds nothing. -/
theorem MeterEffect.of_ensureMonthlyGrant (hp : ∀ org, p.held org = 0)
    (hp' : ∀ org, p'.held org = 0) (org month) (org' : ℕ) :
    MeterEffect org' p p' t (t.ensureMonthlyGrant org month) := by
  have hheld : p'.held org' ≤ p.held org' := by rw [hp, hp']
  rcases t.ensureMonthlyGrant_cases org month with ⟨hgranted, hothers⟩ | hsame
  · rcases eq_or_ne org' org with rfl | hne
    · exact .grants hgranted (hp _) (hp' _)
    · exact .releases (hothers org' hne).le hheld
  · exact .releases (hsame org').le hheld

theorem Metering.bounded_unused {c : Charge} {usedMcr : ℤ} (hc : 0 < c.mcr)
    (h : 0 < unused c usedMcr) : (refunding c (unused c usedMcr)).Bounded := by
  refine ⟨h, ?_⟩
  rw [unused]
  omega

/-- **What a step does**, in every case to every organization. -/
theorem meter_effect (hp : p.Bounded) (h : meter ch p t = some (p', t')) :
    p'.Bounded ∧ ∀ org, MeterEffect org p p' t t' := by
  cases p with
  | grant org =>
    rw [meter] at h
    split at h
    · obtain ⟨rfl, rfl⟩ := Prod.mk.inj (Option.some.inj h)
      exact ⟨trivial, .of_ensureMonthlyGrant (fun _ ↦ rfl) (fun _ ↦ rfl) org ch.month⟩
    · obtain ⟨rfl, rfl⟩ := Prod.mk.inj (Option.some.inj h)
      exact ⟨trivial, fun _ ↦ .releases le_rfl le_rfl⟩
  | createOrg org =>
    rw [meter] at h
    split at h
    case h_1 t₁ hcreate =>
      obtain ⟨rfl, rfl⟩ := Prod.mk.inj (Option.some.inj h)
      obtain ⟨hgranted, hothers⟩ :=
        CreditTables.createOrg_cases (Option.ite_none_right_eq_some.1 hcreate).2
      refine ⟨trivial, fun org' ↦ ?_⟩
      rcases eq_or_ne org' org with rfl | hne
      · exact .grants hgranted rfl rfl
      · exact .releases (hothers org' hne).le le_rfl
    case h_2 =>
      obtain ⟨rfl, rfl⟩ := Prod.mk.inj (Option.some.inj h)
      exact ⟨trivial, fun _ ↦ .releases le_rfl le_rfl⟩
  | charge c =>
    rw [meter] at h
    split at h
    · obtain ⟨rfl, rfl⟩ := Prod.mk.inj (Option.some.inj h)
      exact ⟨trivial, fun _ ↦ .releases le_rfl le_rfl⟩
    case isFalse hmetered =>
      split at h
      · obtain ⟨rfl, rfl⟩ := Prod.mk.inj (Option.some.inj h)
        exact ⟨trivial, fun _ ↦ .releases le_rfl le_rfl⟩
      case isFalse hneg =>
        split at h
        · obtain ⟨rfl, rfl⟩ := Prod.mk.inj (Option.some.inj h)
          have hpos : 0 < c.mcr :=
            lt_of_le_of_ne (not_lt.1 hneg) fun hzero ↦ hmetered (Or.inr hzero.symm)
          exact ⟨hpos, .of_ensureMonthlyGrant (fun _ ↦ rfl) (fun _ ↦ rfl) _ ch.month⟩
        · obtain ⟨rfl, rfl⟩ := Prod.mk.inj (Option.some.inj h)
          exact ⟨trivial, fun _ ↦ .releases le_rfl le_rfl⟩
  | chargeDebit c =>
    rcases meter_chargeDebit h with ⟨⟨problem, rfl⟩, rfl⟩ | ⟨rfl, hdebit⟩
    · exact ⟨trivial, fun _ ↦ .releases le_rfl le_rfl⟩
    · obtain ⟨hself, hothers⟩ := CreditTables.balance_debit hdebit
      refine ⟨hp, fun org ↦ ?_⟩
      rcases eq_or_ne org c.account.orgID with rfl | hne
      · exact .debits c rfl rfl rfl hself
      · refine .releases (hothers org hne).le ?_
        rw [Metering.held, if_neg hne.symm]
        exact le_rfl
  | reserved c =>
    have hc : 0 < c.mcr := hp
    rw [meter] at h
    split at h
    · obtain ⟨rfl, rfl⟩ := Prod.mk.inj (Option.some.inj h)
      exact ⟨trivial, fun org ↦ .releases le_rfl (Metering.held_nonneg hp org)⟩
    case h_2 usedMcr _ =>
      split at h
      case isTrue hpos =>
        obtain ⟨rfl, rfl⟩ := Prod.mk.inj (Option.some.inj h)
        have hbounded := Metering.bounded_unused hc hpos
        refine ⟨hbounded, fun org ↦ .releases le_rfl ?_⟩
        rw [Metering.held, Metering.held]
        split
        · exact hbounded.2
        · exact le_rfl
      case isFalse =>
        obtain ⟨rfl, rfl⟩ := Prod.mk.inj (Option.some.inj h)
        exact ⟨trivial, fun org ↦ .releases le_rfl (Metering.held_nonneg hp org)⟩
    · obtain ⟨rfl, rfl⟩ := Prod.mk.inj (Option.some.inj h)
      exact ⟨⟨hc, le_rfl⟩, fun org ↦ .releases le_rfl le_rfl⟩
  | refunding c mcr =>
    rw [meter] at h
    split at h
    case h_1 t₁ hrefund =>
      obtain ⟨rfl, rfl⟩ := Prod.mk.inj (Option.some.inj h)
      obtain ⟨hself, hothers⟩ :=
        CreditTables.balance_refund (Option.ite_none_right_eq_some.1 hrefund).2
      refine ⟨trivial, fun org ↦ ?_⟩
      rcases eq_or_ne org c.account.orgID with rfl | hne
      · exact .refunds c mcr rfl rfl rfl hself
      · exact .releases (hothers org hne).le (Metering.held_nonneg hp org)
    case h_2 =>
      obtain ⟨rfl, rfl⟩ := Prod.mk.inj (Option.some.inj h)
      exact ⟨trivial, fun org ↦ .releases le_rfl (Metering.held_nonneg hp org)⟩
  | refused problem => exact absurd h.symm (Option.some_ne_none _)
  | finished => exact absurd h.symm (Option.some_ne_none _)

/-- A request comes to hold something of an organization by a debit. -/
theorem exists_debit_of_held {org : ℕ} (hp : p.Bounded) (h : meter ch p t = some (p', t'))
    (hout : p.held org = 0) (hin : p'.held org ≠ 0) :
    ∃ c, p = .chargeDebit c ∧ p' = .reserved c ∧ c.account.orgID = org := by
  obtain ⟨hp', heffect⟩ := meter_effect hp h
  cases heffect org with
  | grants _ _ hheld => exact absurd hheld hin
  | releases _ hheld => exact absurd (le_antisymm (hout ▸ hheld) (Metering.held_nonneg hp' org)) hin
  | debits c hp hp' horg _ => exact ⟨c, hp, hp', horg⟩
  | refunds c mcr _ hp' _ _ => exact absurd (congrArg (Metering.held org) hp') hin

end Steps

/-! ### Runs -/

section Runs

variable (init : Config CreditTables Metering) (turns : List (Turn MeterChoice Empty))

/-- A turn debits a request's charge to an organization. -/
def Debits (n i org : ℕ) : Prop :=
  ∃ c, (metered.after init turns n).requests i = .chargeDebit c ∧
    (metered.after init turns (n + 1)).requests i = .reserved c ∧ c.account.orgID = org

/-- A turn gives an organization the grant of a month. -/
def Grants (n org : ℕ) : Prop :=
  Granted (metered.after init turns n).shared (metered.after init turns (n + 1)).shared org

/-- A turn refunds some of a request's charge to an organization. -/
def Refunds (n i org : ℕ) : Prop :=
  ∃ c mcr, (metered.after init turns n).requests i = .refunding c mcr ∧
    (metered.after init turns (n + 1)).requests i = .finished ∧ c.account.orgID = org ∧
    (metered.after init turns (n + 1)).shared ≠ (metered.after init turns n).shared

/-- A refund comes before the grants that follow its debit. -/
def TimelyRefunds : Prop :=
  ∀ org i m k n, Debits init turns m i org → Grants init turns k org → m < k →
    Refunds init turns n i org → n ≤ k

/-- The charge of a request was debited before the latest grant. -/
def Stale (n i org : ℕ) : Prop :=
  ∃ m k, m < k ∧ k < n ∧ Debits init turns m i org ∧ Grants init turns k org

/-- **The invariant**: with what may come back of the charges that are not stale, the balance is at
most the grant. -/
def WithinGrant (n org : ℕ) : Prop :=
  ∃ s : Finset ℕ,
    (metered.after init turns n).shared.balance org +
        ∑ i ∈ s, ((metered.after init turns n).requests i).held org ≤ monthlyGrantMcr ∧
      ∀ i ∉ s, ((metered.after init turns n).requests i).held org ≠ 0 → Stale init turns n i org

variable {init turns} {n org : ℕ}

theorem bounded_after (hinit : ∀ i, (init.requests i).Arrives) (n i : ℕ) :
    ((metered.after init turns n).requests i).Bounded := by
  refine serve_induction (S := metered) (P := fun c ↦ ∀ i, (c.requests i).Bounded)
    (fun i ↦ (hinit i).bounded) (fun c i ch p t hc hstep j ↦ ?_) (fun _ event _ ↦ event.elim) _ i
  rcases eq_or_ne j i with rfl | hne
  · show (Function.update c.requests j p j).Bounded
    rw [Function.update_self]
    exact (meter_effect (hc j) hstep).1
  · show (Function.update c.requests i p j).Bounded
    rw [Function.update_of_ne hne]
    exact hc j

/-- What a request holds was debited at some turn. -/
theorem exists_debits (hinit : ∀ i, (init.requests i).Arrives) {i : ℕ}
    (h : ((metered.after init turns n).requests i).held org ≠ 0) :
    ∃ m < n, Debits init turns m i org := by
  have hzero := (hinit i).held org
  obtain ⟨m, hm, ch, hstep, hout, hin⟩ :=
    exists_step_into (S := metered) (fun p ↦ Metering.held org p ≠ 0) (not_not.2 hzero) h
  obtain ⟨c, hp, hp', horg⟩ :=
    exists_debit_of_held (bounded_after hinit m i) hstep (not_not.1 hout) hin
  exact ⟨m, hm, c, hp, hp', horg⟩

theorem Stale.succ {i : ℕ} (h : Stale init turns n i org) : Stale init turns (n + 1) i org := by
  obtain ⟨m, k, hmk, hkn, hdebit, hgrant⟩ := h
  exact ⟨m, k, hmk, Nat.lt_succ_of_lt hkn, hdebit, hgrant⟩

/-- What the requests of a set hold, when one of them moves. -/
theorem sum_held_update (requests : ℕ → Metering) {s : Finset ℕ} {i : ℕ} (hi : i ∈ s)
    (p : Metering) (org : ℕ) :
    ∑ j ∈ s, (Function.update requests i p j).held org + (requests i).held org =
      ∑ j ∈ s, (requests j).held org + p.held org := by
  have hothers : ∑ j ∈ s.erase i, (Function.update requests i p j).held org =
      ∑ j ∈ s.erase i, (requests j).held org := by
    refine Finset.sum_congr rfl fun j hj ↦ ?_
    rw [Function.update_of_ne (Finset.ne_of_mem_erase hj)]
  rw [← Finset.add_sum_erase s _ hi, ← Finset.add_sum_erase s (fun j ↦ (requests j).held org) hi,
    hothers, Function.update_self]
  omega

/-- When one outside it moves, they hold what they did. -/
theorem sum_held_update_of_notMem (requests : ℕ → Metering) {s : Finset ℕ} {i : ℕ} (hi : i ∉ s)
    (p : Metering) (org : ℕ) :
    ∑ j ∈ s, (Function.update requests i p j).held org = ∑ j ∈ s, (requests j).held org := by
  refine Finset.sum_congr rfl fun j hj ↦ ?_
  rw [Function.update_of_ne (ne_of_mem_of_not_mem hj hi)]

/-- **A turn keeps the invariant.** A debit moves credits from the balance to what may come back,
and a refund moves them back. A grant makes every charge stale. -/
theorem WithinGrant.succ (hinit : ∀ i, (init.requests i).Arrives)
    (htimely : TimelyRefunds init turns)
    (h : WithinGrant init turns n org) : WithinGrant init turns (n + 1) org := by
  obtain ⟨s, hsum, hstale⟩ := h
  rcases after_succ_cases (S := metered) init turns n with
    hpass | ⟨i, ch, p, t, hstep, hturn⟩ | ⟨event, -⟩
  · refine ⟨s, ?_, fun j hj hheld ↦ ?_⟩
    · rwa [hpass]
    · rw [hpass] at hheld
      exact (hstale j hj hheld).succ
  · have hbounded : ((metered.after init turns n).requests i).Bounded := bounded_after hinit n i
    obtain ⟨hbounded', heffect⟩ := meter_effect hbounded hstep
    have hmoved : (metered.after init turns (n + 1)).requests i = p := by
      rw [hturn]
      exact Function.update_self ..
    have hothers : ∀ j ≠ i, (metered.after init turns (n + 1)).requests j =
        (metered.after init turns n).requests j := by
      intro j hj
      rw [hturn]
      exact Function.update_of_ne hj ..
    cases heffect org with
    | grants hgrant hzero hzero' =>
      obtain ⟨month, -, -, hcredits⟩ := id hgrant
      have hgrants : Grants init turns n org := by
        rw [Grants, hturn]
        exact hgrant
      refine ⟨∅, ?_, fun j _ hheld ↦ ?_⟩
      · rw [Finset.sum_empty, add_zero, hturn, CreditTables.balance_of_row hcredits]
      · have hne : j ≠ i := by
          rintro rfl
          rw [hmoved] at hheld
          exact hheld hzero'
        rw [hothers j hne] at hheld
        obtain ⟨m, hm, hdebits⟩ := exists_debits hinit hheld
        exact ⟨m, n, hm, Nat.lt_succ_self n, hdebits, hgrants⟩
    | releases hbalance hheld =>
      refine ⟨s, ?_, fun j hj hheldj ↦ ?_⟩
      · rw [hturn]
        dsimp only
        by_cases hi : i ∈ s
        · have hupdate := sum_held_update (metered.after init turns n).requests hi p org
          omega
        · rw [sum_held_update_of_notMem _ hi]
          omega
      · rcases eq_or_ne j i with rfl | hne
        · rw [hmoved] at hheldj
          have hpos := Metering.held_nonneg hbounded' org
          exact (hstale j hj (by omega)).succ
        · rw [hothers j hne] at hheldj
          exact (hstale j hj hheldj).succ
    | debits c hp hp' horg hbalance =>
      have hzero : ((metered.after init turns n).requests i).held org = 0 := by
        rw [hp]
        rfl
      have hheld : p.held org = c.mcr := by
        rw [hp']
        exact if_pos horg
      refine ⟨insert i s, ?_, fun j hj hheldj ↦ ?_⟩
      · rw [hturn]
        dsimp only
        by_cases hi : i ∈ s
        · have hupdate := sum_held_update (metered.after init turns n).requests hi p org
          rw [Finset.insert_eq_of_mem hi]
          omega
        · rw [Finset.sum_insert hi, sum_held_update_of_notMem _ hi, Function.update_self]
          omega
      · obtain ⟨hne, hj⟩ := not_or.1 (mt Finset.mem_insert.2 hj)
        rw [hothers j hne] at hheldj
        exact (hstale j hj hheldj).succ
    | refunds c mcr hp hp' horg hbalance =>
      have hheld : ((metered.after init turns n).requests i).held org = mcr := by
        rw [hp]
        exact if_pos horg
      have hpos : 0 < mcr := by
        rw [hp] at hbounded
        exact hbounded.1
      have hzero : p.held org = 0 := by
        rw [hp']
        rfl
      have hi : i ∈ s := by
        by_contra hi
        obtain ⟨m, k, hmk, hkn, hdebits, hgrants⟩ := hstale i hi (by omega)
        have hmoves : (metered.after init turns (n + 1)).shared ≠
            (metered.after init turns n).shared := by
          intro hsame
          rw [hturn] at hsame
          dsimp only at hsame
          rw [hsame] at hbalance
          omega
        have hrefunds : Refunds init turns n i org :=
          ⟨c, mcr, hp, hmoved.trans hp', horg, hmoves⟩
        exact absurd (htimely org i m k n hdebits hgrants hmk hrefunds) (not_le.2 hkn)
      refine ⟨s, ?_, fun j hj hheldj ↦ ?_⟩
      · have hupdate := sum_held_update (metered.after init turns n).requests hi p org
        rw [hturn]
        dsimp only
        omega
      · rcases eq_or_ne j i with rfl | hne
        · exact absurd hi hj
        · rw [hothers j hne] at hheldj
          exact (hstale j hj hheldj).succ
  · exact event.elim

theorem withinGrant_after (hinit : ∀ i, (init.requests i).Arrives)
    (hbalance : init.shared.balance org ≤ monthlyGrantMcr) (htimely : TimelyRefunds init turns)
    (n : ℕ) : WithinGrant init turns n org := by
  induction n with
  | zero =>
    refine ⟨∅, ?_, fun i _ hheld ↦ absurd ((hinit i).held org) hheld⟩
    rw [Finset.sum_empty, add_zero]
    exact hbalance
  | succ n ih => exact ih.succ hinit htimely

end Runs

namespace Sample

/-- Of two million, taken in June, and given back in July. -/
def undone : List (Turn MeterChoice Empty) :=
  [spend 6 0, spend 6 2, spend 6 2, spend 7 1, spend 7 1, .request 2 ⟨(2026, 7), .refund, true⟩,
    spend 7 2]

/-- Of two million, taken and given back in July, between charges of June and August. -/
def undoneInTime : List (Turn MeterChoice Empty) :=
  [spend 6 0, spend 6 1, spend 6 1, spend 7 2, spend 7 2, .request 2 ⟨(2026, 7), .refund, true⟩,
    spend 7 2, spend 8 3, spend 8 3]

theorem spenders_arrive : ∀ i, (spenders.requests i).Arrives
  | 0 => .createOrg 1
  | 1 => .charge _
  | _ + 2 => .charge _

/-- The kind of step a request takes next: none, a debit, a refund. -/
def next : Metering → ℕ
  | .chargeDebit _ => 1
  | .refunding _ _ => 2
  | _ => 0

/-- Whose turn it is, and what it does. -/
def moves (n : ℕ) : Option (ℕ × ℕ) :=
  match undoneInTime[n]? with
  | some (.request i _) => some (i, next ((metered.after spenders undoneInTime n).requests i))
  | _ => none

theorem moves_of_ne {n i : ℕ} {p p' : Metering}
    (hp : (metered.after spenders undoneInTime n).requests i = p)
    (hp' : (metered.after spenders undoneInTime (n + 1)).requests i = p') (hne : p' ≠ p) :
    moves n = some (i, next p) := by
  have hmoved : (metered.after spenders undoneInTime (n + 1)).requests i ≠
      (metered.after spenders undoneInTime n).requests i := by rwa [hp, hp']
  obtain ⟨ch, hturn⟩ := turn_of_ne hmoved
  simp only [moves, hturn, hp]

/-- Request 2 is debited at turn 4, and refunded at turn 6. -/
theorem eq_of_moves {n i step : ℕ} (h : moves n = some (i, step)) :
    (step = 1 → i = 2 → n = 4) ∧ (step = 2 → i = 2 ∧ n = 6) := by
  have hall : ∀ n < 9, moves n =
      [(0, 0), (1, 0), (1, 1), (2, 0), (2, 1), (2, 0), (2, 2), (3, 0), (3, 1)][n]? := by decide
  have hn : n < 9 := by
    by_contra hn
    have hnone : undoneInTime[n]? = none := List.getElem?_eq_none (not_lt.1 hn)
    rw [moves, hnone] at h
    exact absurd h.symm (Option.some_ne_none _)
  rw [hall n hn] at h
  interval_cases n <;> simp at h <;> omega

/-- Nothing is granted between the debit and the refund. -/
theorem timely_undoneInTime : TimelyRefunds spenders undoneInTime := by
  rintro org i m k n ⟨c, hp, hp', -⟩ hgrants hmk ⟨c₁, mcr, hq, hq', -⟩
  obtain ⟨rfl, rfl⟩ := (eq_of_moves (moves_of_ne hq hq' (by simp))).2 rfl
  obtain rfl := (eq_of_moves (moves_of_ne hp hp' (by simp))).1 rfl rfl
  by_contra hk
  obtain rfl : k = 5 := by omega
  obtain ⟨month, hmonth, -, hcredits⟩ := hgrants
  exact hmonth (congrArg (Option.map (·.grantMonth)) hcredits)

end Sample

/-- **The grant does not accumulate,** in any run whose refunds come before the grants that follow
their debits: whatever is charged, kept and refunded in whatever months, no balance ever exceeds the
grant of a month. -/
theorem grant_does_not_accumulate {init : Config CreditTables Metering}
    (hinit : ∀ i, (init.requests i).Arrives)
    (hbalance : ∀ org, init.shared.balance org ≤ monthlyGrantMcr)
    (turns : List (Turn MeterChoice Empty)) (htimely : TimelyRefunds init turns) (n org : ℕ) :
    (metered.after init turns n).shared.balance org ≤ monthlyGrantMcr := by
  obtain ⟨s, hsum, -⟩ := withinGrant_after hinit (hbalance org) htimely n
  have hheld : 0 ≤ ∑ i ∈ s, ((metered.after init turns n).requests i).held org :=
    Finset.sum_nonneg fun i _ ↦ Metering.held_nonneg (bounded_after hinit n i) org
  omega

theorem grant_does_not_accumulate_in_time :
    (metered.after Sample.spenders Sample.undoneInTime 9).shared.balance 1 ≤ monthlyGrantMcr :=
  grant_does_not_accumulate Sample.spenders_arrive (fun _ ↦ monthlyGrantMcr_nonneg)
    Sample.undoneInTime Sample.timely_undoneInTime 9 1

/-- A charge of June is refunded in July, after the top-up of July restored the balance: it is more
than the grant. -/
theorem refund_after_top_up :
    (∀ i, (Sample.spenders.requests i).Arrives) ∧
      (∀ org, Sample.spenders.shared.balance org ≤ monthlyGrantMcr) ∧
      (metered.after Sample.spenders Sample.undone 7).shared.balance 1 = 26999800 ∧
      monthlyGrantMcr < (metered.after Sample.spenders Sample.undone 7).shared.balance 1 :=
  ⟨Sample.spenders_arrive, fun _ ↦ monthlyGrantMcr_nonneg, by decide, by decide⟩

end Soroticket
