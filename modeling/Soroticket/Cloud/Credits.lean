import Mathlib.Algebra.BigOperators.Group.List.Basic
import Soroticket.Cloud.Store
import Soroticket.Machine.Interleaving

/-!
# The credit ledger

Every organization has a balance of credits, and a ledger of what moved it. A request takes a charge
before it does its work: one transaction tops the balance up to the grant of the month, and another
debits it. Afterwards the charge is kept, or refunded in part or in whole. Requests take these steps
in any order with others, in any month, and any transaction of theirs may fail.

Four transactions write a balance, and each is one `post`: a new balance, and a ledger row with what
was added to the old one. So the balance is the sum of the ledger and each row of it the sum up to
itself (`Sound`), whatever is interleaved. Only a debit takes credits, and it takes no more than
there are.
-/

namespace Soroticket

open Interleaving Interleaving.Service

/-! ### The tables -/

/-- A calendar month, with its year. -/
abbrev Month := ℕ × ℕ

/-- A row of `credits`, of the metered environment. -/
structure CreditRow where
  balance : ℤ
  grantMonth : Month
  deriving DecidableEq

/-- A row of `credit_ledger`. -/
structure LedgerRow where
  orgID : ℕ
  operation : String
  detail : String
  delta : ℤ
  balance : ℤ
  deriving DecidableEq

/-- The two tables: a row of `credits` for each organization, and the ledger in the order of its
ids. -/
structure CreditTables where
  credits : ℕ → Option CreditRow
  ledger : List LedgerRow

/-- `monthlyGrantMcr`. -/
def monthlyGrantMcr : ℤ := 25000000

theorem monthlyGrantMcr_nonneg : 0 ≤ monthlyGrantMcr := by decide

namespace CreditTables

/-- The balance of an organization, zero before it has a row. -/
def balance (t : CreditTables) (org : ℕ) : ℤ := (t.credits org).elim 0 (·.balance)

/-- The ledger rows of an organization, in the order of their ids. -/
def entries (t : CreditTables) (org : ℕ) : List LedgerRow := t.ledger.filter (·.orgID = org)

/-- Write the row of an organization, and `insertLedgerTx` what was added to its balance. -/
def post (t : CreditTables) (org : ℕ) (row : CreditRow) (operation detail : String) (delta : ℤ) :
    CreditTables where
  credits := Function.update t.credits org (some row)
  ledger := t.ledger ++ [⟨org, operation, detail, delta, row.balance⟩]

/-! ### The transactions -/

/-- The first row of an organization. -/
def openingGrant (t : CreditTables) (org : ℕ) (month : Month) : CreditTables :=
  t.post org ⟨monthlyGrantMcr, month⟩ "monthly_grant" "opening grant" monthlyGrantMcr

/-- The transaction of `ensureMonthlyGrant`. -/
def ensureMonthlyGrant (t : CreditTables) (org : ℕ) (month : Month) : CreditTables :=
  match t.credits org with
  | none => t.openingGrant org month
  | some row =>
    if row.grantMonth ≠ month ∧ row.balance < monthlyGrantMcr then
      t.post org ⟨monthlyGrantMcr, month⟩ "monthly_grant" "monthly top-up"
        (monthlyGrantMcr - row.balance)
    else if row.grantMonth ≠ month then
      { t with credits := Function.update t.credits org (some { row with grantMonth := month }) }
    else t

/-- The transaction of `handleCreateOrg`, where the organization is new. -/
def createOrg (t : CreditTables) (org : ℕ) (month : Month) : Option CreditTables :=
  match t.credits org with
  | none => some (t.openingGrant org month)
  | some _ => none

/-- The transaction of `charge`, where the balance covers it. -/
def debit (t : CreditTables) (org : ℕ) (operation detail : String) (mcr : ℤ) :
    Option CreditTables :=
  match t.credits org with
  | none => none
  | some row =>
    if mcr ≤ row.balance then
      some (t.post org { row with balance := row.balance - mcr } operation detail (-mcr))
    else none

/-- The transaction of `refundCharge`, where the balance stays an `int64`. -/
def refund (t : CreditTables) (org : ℕ) (operation detail : String) (mcr : ℤ) :
    Option CreditTables :=
  match t.credits org with
  | none => none
  | some row =>
    if row.balance + mcr < 2 ^ 63 then
      some (t.post org { row with balance := row.balance + mcr } (operation ++ "_refund")
        ("refund · " ++ detail) mcr)
    else none

end CreditTables

/-! ### Requests -/

/-- A charge: who pays, what for, and how much. -/
structure Charge where
  account : AuthCtx
  operation : String
  detail : String
  mcr : ℤ
  deriving DecidableEq

/-- How a request resolves its reservation. -/
inductive Resolve where
  | commit
  | commitUsed (usedMcr : ℤ)
  | refund
  deriving DecidableEq

/-- Where a request is. -/
inductive Metering where
  /-- `ensureMonthlyGrant`, for a page that shows the balance. -/
  | grant (org : ℕ)
  /-- `handleCreateOrg`. -/
  | createOrg (org : ℕ)
  /-- `reserveCharge`. -/
  | charge (c : Charge)
  /-- `charge`, after the grant. -/
  | chargeDebit (c : Charge)
  /-- The charge was taken, and is not resolved. -/
  | reserved (c : Charge)
  /-- `refundCharge`, of some of a charge. -/
  | refunding (c : Charge) (mcr : ℤ)
  | refused (problem : Problem)
  | finished
  deriving DecidableEq

/-- What a step finds: the month, how its request will go on, and whether its transaction goes
through. -/
structure MeterChoice where
  month : Month
  resolve : Resolve
  commits : Bool

/-- `CommitUsed`: what is left to refund of a charge. -/
def unused (c : Charge) (usedMcr : ℤ) : ℤ := c.mcr - min (max usedMcr 0) c.mcr

/-- One step of a request. A transaction that fails is rolled back. -/
def meter (ch : MeterChoice) : Metering → CreditTables → Option (Metering × CreditTables)
  | .grant org, t =>
    if ch.commits then some (.finished, t.ensureMonthlyGrant org ch.month)
    else some (.refused ⟨500, "internal server error"⟩, t)
  | .createOrg org, t =>
    match if ch.commits then t.createOrg org ch.month else none with
    | some t' => some (.finished, t')
    | none => some (.refused ⟨500, "internal server error"⟩, t)
  | .charge c, t =>
    if c.account.env ≠ .live ∨ c.mcr = 0 then some (.finished, t)
    else if c.mcr < 0 then some (.refused ⟨500, "invalid negative charge"⟩, t)
    else if ch.commits then some (.chargeDebit c, t.ensureMonthlyGrant c.account.orgID ch.month)
    else some (.refused ⟨500, "could not refresh credits"⟩, t)
  | .chargeDebit c, t =>
    if ch.commits then
      match t.debit c.account.orgID c.operation c.detail c.mcr with
      | some t' => some (.reserved c, t')
      | none => some (.refused ⟨402, "insufficient credits — recharge to continue"⟩, t)
    else some (.refused ⟨500, "could not reserve credits"⟩, t)
  | .reserved c, t =>
    match ch.resolve with
    | .commit => some (.finished, t)
    | .commitUsed usedMcr =>
      if 0 < unused c usedMcr then some (.refunding c (unused c usedMcr), t)
      else some (.finished, t)
    | .refund => some (.refunding c c.mcr, t)
  | .refunding c mcr, t =>
    match if 0 < mcr ∧ ch.commits then t.refund c.account.orgID c.operation c.detail mcr
      else none with
    | some t' => some (.finished, t')
    | none => some (.finished, t)
  | .refused _, _ => none
  | .finished, _ => none

/-- The service. Nothing from outside touches the tables. -/
def metered : Service CreditTables Metering MeterChoice Empty where
  advance := meter
  outside event _ := event.elim

/-! ### The law of the ledger -/

/-- The sum of what a ledger moved. -/
def totalDelta (rows : List LedgerRow) : ℤ := (rows.map (·.delta)).sum

theorem totalDelta_concat (rows : List LedgerRow) (r : LedgerRow) :
    totalDelta (rows ++ [r]) = totalDelta rows + r.delta := by
  simp [totalDelta]

/-- Each row has the sum up to itself. -/
def Running (rows : List LedgerRow) : Prop :=
  ∀ before r after, rows = before ++ r :: after → r.balance = totalDelta before + r.delta

theorem running_nil : Running [] := fun before r after h ↦ absurd h (by simp)

/-- A ledger goes on running with a row that adds to its sum. -/
theorem Running.concat {rows : List LedgerRow} (h : Running rows) {r : LedgerRow}
    (hr : r.balance = totalDelta rows + r.delta) : Running (rows ++ [r]) := by
  intro before x after hsplit
  rcases List.eq_nil_or_concat after with rfl | ⟨after', last, rfl⟩
  · obtain ⟨rfl, hx⟩ := List.append_inj' hsplit rfl
    rw [← List.singleton_inj.1 hx]
    exact hr
  · rw [List.concat_eq_append, ← List.cons_append, ← List.append_assoc] at hsplit
    exact h before x after' (List.append_inj' hsplit rfl).1

namespace CreditTables

/-- **The law of the ledger**: the balance is not negative, it is the sum of the ledger, and each
row of the ledger has the sum up to itself. -/
structure Sound (t : CreditTables) (org : ℕ) : Prop where
  nonneg : 0 ≤ t.balance org
  total : t.balance org = totalDelta (t.entries org)
  running : Running (t.entries org)

variable {t : CreditTables} {org : ℕ}

theorem balance_of_row {row : CreditRow} (h : t.credits org = some row) :
    t.balance org = row.balance := by
  rw [balance, h, Option.elim_some]

theorem entries_post_self (row : CreditRow) (operation detail : String) (delta : ℤ) :
    (t.post org row operation detail delta).entries org =
      t.entries org ++ [⟨org, operation, detail, delta, row.balance⟩] := by
  rw [entries, post, List.filter_append, List.filter_cons_of_pos (by simp), List.filter_nil,
    entries]

theorem entries_post_of_ne {org' : ℕ} (hne : org' ≠ org) (row : CreditRow)
    (operation detail : String) (delta : ℤ) :
    (t.post org row operation detail delta).entries org' = t.entries org' := by
  rw [entries, post, List.filter_append, List.filter_cons_of_neg (by simp [hne.symm]),
    List.filter_nil, List.append_nil, entries]

theorem balance_update_of_ne {org' : ℕ} (hne : org' ≠ org) (row : CreditRow)
    (ledger : List LedgerRow) :
    (CreditTables.mk (Function.update t.credits org (some row)) ledger).balance org' =
      t.balance org' := by
  rw [balance, balance]
  show (Function.update t.credits org (some row) org').elim 0 _ = _
  rw [Function.update_of_ne hne]

theorem balance_update_self (row : CreditRow) (ledger : List LedgerRow) :
    (CreditTables.mk (Function.update t.credits org (some row)) ledger).balance org =
      row.balance := by
  rw [balance]
  show (Function.update t.credits org (some row) org).elim 0 _ = _
  rw [Function.update_self, Option.elim_some]

/-- A post keeps the law: the new balance is the old one and what the ledger says was added. -/
theorem Sound.post (h : ∀ org, t.Sound org) {row : CreditRow} {delta : ℤ}
    (hrow : row.balance = t.balance org + delta) (hnonneg : 0 ≤ row.balance)
    (operation detail : String) : ∀ org', (t.post org row operation detail delta).Sound org' := by
  intro org'
  rcases eq_or_ne org' org with rfl | hne
  · have htotal : row.balance = totalDelta (t.entries org') + delta := by
      rw [hrow, (h org').total]
    refine ⟨?_, ?_, ?_⟩
    · rw [CreditTables.post, balance_update_self]
      exact hnonneg
    · rw [entries_post_self, totalDelta_concat, CreditTables.post, balance_update_self]
      exact htotal
    · rw [entries_post_self]
      exact (h org').running.concat htotal
  · obtain ⟨hpos, htotal, hrunning⟩ := h org'
    refine ⟨?_, ?_, ?_⟩
    · rwa [CreditTables.post, balance_update_of_ne hne]
    · rw [entries_post_of_ne hne, CreditTables.post, balance_update_of_ne hne]
      exact htotal
    · rwa [entries_post_of_ne hne]

theorem Sound.openingGrant (h : ∀ org, t.Sound org) (hnone : t.credits org = none)
    (month : Month) : ∀ org', (t.openingGrant org month).Sound org' := by
  refine Sound.post h ?_ monthlyGrantMcr_nonneg _ _
  rw [balance, hnone, Option.elim_none, zero_add]

theorem Sound.ensureMonthlyGrant (h : ∀ org, t.Sound org) (month : Month) :
    ∀ org', (t.ensureMonthlyGrant org month).Sound org' := by
  rw [CreditTables.ensureMonthlyGrant]
  cases hcredits : t.credits org with
  | none => exact Sound.openingGrant h hcredits month
  | some row =>
    have hbalance := balance_of_row hcredits
    dsimp only
    split
    · refine Sound.post h ?_ monthlyGrantMcr_nonneg _ _
      show monthlyGrantMcr = _
      omega
    · split
      · -- only the month changes
        intro org'
        obtain ⟨hpos, htotal, hrunning⟩ := h org'
        have hsame : (CreditTables.mk (Function.update t.credits org
            (some { row with grantMonth := month })) t.ledger).balance org' = t.balance org' := by
          rcases eq_or_ne org' org with rfl | hne
          · rw [balance_update_self, hbalance]
          · exact balance_update_of_ne hne _ _
        exact ⟨hsame.symm ▸ hpos, hsame.trans htotal, hrunning⟩
      · exact h

theorem Sound.createOrg (h : ∀ org, t.Sound org) {month : Month} {t' : CreditTables}
    (hcreate : t.createOrg org month = some t') : ∀ org', t'.Sound org' := by
  rw [CreditTables.createOrg] at hcreate
  cases hcredits : t.credits org with
  | none =>
    rw [hcredits] at hcreate
    obtain rfl := Option.some.inj hcreate
    exact Sound.openingGrant h hcredits month
  | some row =>
    rw [hcredits] at hcreate
    exact absurd hcreate nofun

/-- A debit takes no more than there is. -/
theorem Sound.debit (h : ∀ org, t.Sound org) {operation detail : String} {mcr : ℤ}
    {t' : CreditTables} (hdebit : t.debit org operation detail mcr = some t') :
    ∀ org', t'.Sound org' := by
  rw [CreditTables.debit] at hdebit
  cases hcredits : t.credits org with
  | none =>
    rw [hcredits] at hdebit
    exact absurd hdebit nofun
  | some row =>
    rw [hcredits] at hdebit
    dsimp only at hdebit
    split at hdebit
    case isTrue hcovers =>
      obtain rfl := Option.some.inj hdebit
      refine Sound.post h ?_ (Int.sub_nonneg_of_le hcovers) _ _
      rw [balance_of_row hcredits, ← Int.sub_eq_add_neg]
    case isFalse => exact absurd hdebit nofun

theorem Sound.refund (h : ∀ org, t.Sound org) {operation detail : String} {mcr : ℤ}
    (hmcr : 0 < mcr) {t' : CreditTables} (hrefund : t.refund org operation detail mcr = some t') :
    ∀ org', t'.Sound org' := by
  rw [CreditTables.refund] at hrefund
  cases hcredits : t.credits org with
  | none =>
    rw [hcredits] at hrefund
    exact absurd hrefund nofun
  | some row =>
    rw [hcredits] at hrefund
    dsimp only at hrefund
    split at hrefund
    case isTrue =>
      have hrow := balance_of_row hcredits
      have hpos := (h org).nonneg
      obtain rfl := Option.some.inj hrefund
      refine Sound.post h ?_ ?_ _ _
      · rw [hrow]
      · show 0 ≤ row.balance + mcr
        omega
    case isFalse => exact absurd hrefund nofun

end CreditTables

/-! ### Steps -/

section Steps

variable {ch : MeterChoice} {c : Charge} {p' : Metering} {t t' : CreditTables}

/-- The first step of a charge gives the grant of the month, or changes nothing. -/
theorem meter_charge (h : meter ch (.charge c) t = some (p', t')) :
    t' = t ∧ p' ≠ .chargeDebit c ∨
      p' = .chargeDebit c ∧ t' = t.ensureMonthlyGrant c.account.orgID ch.month := by
  rw [meter] at h
  split at h
  · obtain ⟨rfl, rfl⟩ := Prod.mk.inj (Option.some.inj h)
    exact Or.inl ⟨rfl, nofun⟩
  · split at h
    · obtain ⟨rfl, rfl⟩ := Prod.mk.inj (Option.some.inj h)
      exact Or.inl ⟨rfl, nofun⟩
    · split at h
      · obtain ⟨rfl, rfl⟩ := Prod.mk.inj (Option.some.inj h)
        exact Or.inr ⟨rfl, rfl⟩
      · obtain ⟨rfl, rfl⟩ := Prod.mk.inj (Option.some.inj h)
        exact Or.inl ⟨rfl, nofun⟩

/-- The second debits the balance, or refuses the charge and changes nothing. -/
theorem meter_chargeDebit (h : meter ch (.chargeDebit c) t = some (p', t')) :
    (∃ problem, p' = .refused problem) ∧ t' = t ∨
      p' = .reserved c ∧ t.debit c.account.orgID c.operation c.detail c.mcr = some t' := by
  rw [meter] at h
  split at h
  · cases hdebit : t.debit c.account.orgID c.operation c.detail c.mcr with
    | some t₁ =>
      rw [hdebit] at h
      obtain ⟨rfl, rfl⟩ := Prod.mk.inj (Option.some.inj h)
      exact Or.inr ⟨rfl, rfl⟩
    | none =>
      rw [hdebit] at h
      obtain ⟨rfl, rfl⟩ := Prod.mk.inj (Option.some.inj h)
      exact Or.inl ⟨⟨_, rfl⟩, rfl⟩
  · obtain ⟨rfl, rfl⟩ := Prod.mk.inj (Option.some.inj h)
    exact Or.inl ⟨⟨_, rfl⟩, rfl⟩

/-- A step to a refusal changes nothing. -/
theorem meter_refused {p : Metering} {problem : Problem}
    (h : meter ch p t = some (.refused problem, t')) : t' = t := by
  cases p with
  | grant org =>
    rw [meter] at h
    split at h
    · exact absurd (Prod.mk.inj (Option.some.inj h)).1 nofun
    · exact (Prod.mk.inj (Option.some.inj h)).2.symm
  | createOrg org =>
    rw [meter] at h
    split at h
    · exact absurd (Prod.mk.inj (Option.some.inj h)).1 nofun
    · exact (Prod.mk.inj (Option.some.inj h)).2.symm
  | charge c =>
    rcases meter_charge h with ⟨hsame, -⟩ | ⟨hnext, -⟩
    · exact hsame
    · exact absurd hnext nofun
  | chargeDebit c =>
    rcases meter_chargeDebit h with ⟨-, hsame⟩ | ⟨hnext, -⟩
    · exact hsame
    · exact absurd hnext nofun
  | reserved c =>
    rw [meter] at h
    split at h
    · exact absurd (Prod.mk.inj (Option.some.inj h)).1 nofun
    · split at h <;> exact absurd (Prod.mk.inj (Option.some.inj h)).1 nofun
    · exact absurd (Prod.mk.inj (Option.some.inj h)).1 nofun
  | refunding c mcr =>
    rw [meter] at h
    split at h <;> exact absurd (Prod.mk.inj (Option.some.inj h)).1 nofun
  | refused problem' => exact absurd h nofun
  | finished => exact absurd h nofun

/-- **Every step keeps the law.** -/
theorem sound_meter {p : Metering} (ht : ∀ org, t.Sound org)
    (h : meter ch p t = some (p', t')) : ∀ org, t'.Sound org := by
  cases p with
  | grant org =>
    rw [meter] at h
    split at h
    · obtain ⟨-, rfl⟩ := Prod.mk.inj (Option.some.inj h)
      exact CreditTables.Sound.ensureMonthlyGrant ht ch.month
    · obtain ⟨-, rfl⟩ := Prod.mk.inj (Option.some.inj h)
      exact ht
  | createOrg org =>
    rw [meter] at h
    split at h
    case h_1 t₁ hcreate =>
      obtain ⟨-, rfl⟩ := Prod.mk.inj (Option.some.inj h)
      rw [Option.ite_none_right_eq_some] at hcreate
      exact CreditTables.Sound.createOrg ht hcreate.2
    case h_2 =>
      obtain ⟨-, rfl⟩ := Prod.mk.inj (Option.some.inj h)
      exact ht
  | charge c =>
    rcases meter_charge h with ⟨rfl, -⟩ | ⟨-, rfl⟩
    · exact ht
    · exact CreditTables.Sound.ensureMonthlyGrant ht ch.month
  | chargeDebit c =>
    rcases meter_chargeDebit h with ⟨-, rfl⟩ | ⟨-, hdebit⟩
    · exact ht
    · exact CreditTables.Sound.debit ht hdebit
  | reserved c =>
    rw [meter] at h
    split at h
    · obtain ⟨-, rfl⟩ := Prod.mk.inj (Option.some.inj h)
      exact ht
    · split at h <;> obtain ⟨-, rfl⟩ := Prod.mk.inj (Option.some.inj h) <;> exact ht
    · obtain ⟨-, rfl⟩ := Prod.mk.inj (Option.some.inj h)
      exact ht
  | refunding c mcr =>
    rw [meter] at h
    split at h
    case h_1 t₁ hrefund =>
      obtain ⟨-, rfl⟩ := Prod.mk.inj (Option.some.inj h)
      rw [Option.ite_none_right_eq_some] at hrefund
      exact CreditTables.Sound.refund ht hrefund.1.1 hrefund.2
    case h_2 =>
      obtain ⟨-, rfl⟩ := Prod.mk.inj (Option.some.inj h)
      exact ht
  | refused problem => exact absurd h nofun
  | finished => exact absurd h nofun

end Steps

/-! ### Every run -/

/-- The law holds after every schedule. -/
theorem sound_after {init : Config CreditTables Metering} (hinit : ∀ org, init.shared.Sound org)
    (turns : List (Turn MeterChoice Empty)) (n : ℕ) :
    ∀ org, (metered.after init turns n).shared.Sound org :=
  serve_induction (S := metered) (P := fun c ↦ ∀ org, c.shared.Sound org) hinit
    (fun _ _ _ _ _ hc hstep ↦ sound_meter hc hstep) (fun _ event _ ↦ event.elim) _

namespace Sample

/-- Two million, in the metered environment. -/
def largeCharge : Charge := ⟨⟨1, .live⟩, "issue_codes", "", 2000000⟩

/-- An organization to be created, a charge of 200, and charges of two million. -/
def spenders : Config CreditTables Metering where
  shared := ⟨fun _ ↦ none, []⟩
  requests
    | 0 => .createOrg 1
    | 1 => .charge ⟨⟨1, .live⟩, "shared_event", "", 200⟩
    | _ => .charge largeCharge

def spend (month : ℕ) (i : ℕ) : Turn MeterChoice Empty := .request i ⟨(2026, month), .commit, true⟩

/-- The organization spends a little in June. In July a charge brings the new grant, and before it
debits the balance twelve others do. -/
def july : List (Turn MeterChoice Empty) :=
  [spend 6 0, spend 6 1, spend 6 1, spend 7 2] ++
    (List.range 12).flatMap (fun i ↦ [spend 7 (i + 3), spend 7 (i + 3)]) ++ [spend 7 2]

theorem sound_spenders : ∀ org, spenders.shared.Sound org := fun _ ↦ ⟨le_rfl, rfl, running_nil⟩

end Sample

/-- **The integrity of the credit ledger.** After any schedule of grants, charges, resolutions and
new organizations, in any months and with any failures, every balance and its ledger agree. A step
to a refusal changes neither; before it, a refused charge has changed no more than to give the grant
of the month. -/
theorem credit_ledger_integrity {init : Config CreditTables Metering}
    (hinit : ∀ org, init.shared.Sound org) (turns : List (Turn MeterChoice Empty)) (n : ℕ) :
    (∀ org, (metered.after init turns n).shared.Sound org) ∧
    (∀ i p problem, (metered.after init turns n).requests i = p → p ≠ .refused problem →
      (metered.after init turns (n + 1)).requests i = .refused problem →
        (metered.after init turns (n + 1)).shared = (metered.after init turns n).shared) ∧
    ∀ i c p, (metered.after init turns n).requests i = .charge c →
      (metered.after init turns (n + 1)).requests i = p → p ≠ .charge c →
        (metered.after init turns (n + 1)).shared = (metered.after init turns n).shared ∨
          ∃ month, (metered.after init turns (n + 1)).shared =
            (metered.after init turns n).shared.ensureMonthlyGrant c.account.orgID month := by
  refine ⟨sound_after hinit turns n, fun i p problem hp hne hp' ↦ ?_, fun i c p hp hp' hne ↦ ?_⟩
  · obtain ⟨ch, hstep⟩ := advance_of_ne hp hp' hne
    exact meter_refused hstep
  · obtain ⟨ch, hstep⟩ := advance_of_ne hp hp' hne.symm
    rcases meter_charge hstep with ⟨hsame, -⟩ | ⟨-, hgrant⟩
    · exact Or.inl hsame
    · exact Or.inr ⟨ch.month, hgrant⟩

theorem credit_ledger_integrity_july :
    (metered.after Sample.spenders Sample.july 29).shared.Sound 1 :=
  (credit_ledger_integrity Sample.sound_spenders Sample.july 29).1 1

/-- A charge that is refused has topped up the balance, and added to the ledger. -/
theorem refused_charge_grants :
    (metered.after Sample.spenders Sample.july 3).requests 2 = .charge Sample.largeCharge ∧
      (metered.after Sample.spenders Sample.july 4).requests 2 = .chargeDebit Sample.largeCharge ∧
      ((metered.after Sample.spenders Sample.july 3).shared.balance 1 = 24999800 ∧
        (metered.after Sample.spenders Sample.july 4).shared.balance 1 = 25000000) ∧
      ((metered.after Sample.spenders Sample.july 3).shared.ledger.length = 2 ∧
        (metered.after Sample.spenders Sample.july 4).shared.ledger.length = 3) ∧
      (metered.after Sample.spenders Sample.july 29).requests 2 =
        .refused ⟨402, "insufficient credits — recharge to continue"⟩ := by
  refine ⟨rfl, rfl, ⟨by decide, by decide⟩, ⟨by decide, by decide⟩, by decide⟩

end Soroticket
