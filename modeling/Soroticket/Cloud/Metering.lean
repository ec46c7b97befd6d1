import Soroticket.Cloud.Acceptance
import Soroticket.Cloud.Billing

/-!
# What a request leaves in the ledger

A charge and its resolution are steps of `meter` on the tables of `Credits`, and other requests may
change the tables between any two of them. `Walk` is a request on its way from one place to another
through such tables, with the rows it leaves there; and a run of a handler leaves the rows of what
it asks, question by question (`RunLeaves`).

The deltas of these rows are those of the record that `Billing` keeps, but for the grant of the
month, with which a charge tops the balance up before it takes anything (`netDelta_run`). So a
metered request leaves the price of what it caused.
-/

namespace Soroticket

open Programs Handler

variable {d : Deployment} {reg : Registry d} {org : ℕ}

/-! ### Rows -/

/-- What a ledger moved, but for the grants of the month. -/
def netDelta (rows : List LedgerRow) : ℤ :=
  totalDelta (rows.filter (·.operation ≠ "monthly_grant"))

theorem netDelta_append (rows rows' : List LedgerRow) :
    netDelta (rows ++ rows') = netDelta rows + netDelta rows' := by
  rw [netDelta, netDelta, netDelta, List.filter_append, totalDelta, totalDelta, totalDelta,
    List.map_append, List.sum_append]

theorem netDelta_grant {row : LedgerRow} (h : row.operation = "monthly_grant") :
    netDelta [row] = 0 := by
  rw [netDelta, List.filter_cons_of_neg (by simp [h]), List.filter_nil]
  rfl

theorem netDelta_row {row : LedgerRow} (h : row.operation ≠ "monthly_grant") :
    netDelta [row] = row.delta := by
  rw [netDelta, List.filter_cons_of_pos (by simp [h]), List.filter_nil]
  exact add_zero _

/-- A request on its way from one place to another, through the tables it finds, and the rows it
leaves in them. -/
inductive Walk (P : MeterChoice → Metering → CreditTables → Prop) :
    Metering → List LedgerRow → Metering → Prop
  | stay (p : Metering) : Walk P p [] p
  | step {ch : MeterChoice} {p q r : Metering} {t t' : CreditTables} {new rows : List LedgerRow}
      (hch : P ch p t) (h : meter ch p t = some (q, t')) (hnew : t'.ledger = t.ledger ++ new)
      (hrest : Walk P q rows r) : Walk P p (new ++ rows) r

/-- A reservation is resolved as a request resolves it, and a refund goes through. -/
def Resolving (how : Resolve) (ch : MeterChoice) (p : Metering) (t : CreditTables) : Prop :=
  ch.resolve = how ∧ match p with
    | .refunding c mcr =>
      ch.commits = true ∧ t.refund c.account.orgID c.operation c.detail mcr ≠ none
    | _ => True

/-- The rows a question leaves. -/
def leaves (reg : Registry d) : Exchange (@Ask.Reply d reg) → List LedgerRow → Prop
  | ⟨.reserveCharge c, .ok _⟩, rows =>
    Walk (fun _ _ _ ↦ True) (.charge c) rows (c.reservation.elim .finished .reserved)
  | ⟨.reserveCharge c, .error problem⟩, rows =>
    Walk (fun _ _ _ ↦ True) (.charge c) rows (.refused problem)
  | ⟨.resolve c how, _⟩, rows => Walk (Resolving how) (.reserved c) rows .finished
  | _, rows => rows = []

/-- The rows a run leaves. -/
def RunLeaves (reg : Registry d) (t : List (Exchange (@Ask.Reply d reg)))
    (rows : List LedgerRow) : Prop :=
  ∃ parts, List.Forall₂ (leaves reg) t parts ∧ rows = parts.flatten

/-! ### Transactions -/

section Transactions

variable {t t' : CreditTables} {new rows : List LedgerRow} {c : Charge} {q : Metering}
  {P : MeterChoice → Metering → CreditTables → Prop}

theorem new_of_post {org : ℕ} {row : CreditRow} {operation detail : String} {delta : ℤ}
    (hnew : (t.post org row operation detail delta).ledger = t.ledger ++ new) :
    new = [⟨org, operation, detail, delta, row.balance⟩] := (List.append_cancel_left hnew).symm

/-- The grant of the month moves nothing else. -/
theorem netDelta_ensureMonthlyGrant {org : ℕ} {month : Month}
    (hnew : (t.ensureMonthlyGrant org month).ledger = t.ledger ++ new) : netDelta new = 0 := by
  have hnone : t.ledger = t.ledger ++ new → netDelta new = 0 := fun h ↦ by
    rw [List.self_eq_append_right.1 h]
    rfl
  rw [CreditTables.ensureMonthlyGrant] at hnew
  split at hnew
  · rw [new_of_post hnew, netDelta_grant rfl]
  · split at hnew
    · rw [new_of_post hnew, netDelta_grant rfl]
    · split at hnew
      · exact hnone hnew
      · exact hnone hnew

theorem netDelta_debit {org : ℕ} {operation detail : String} {mcr : ℤ}
    (h : t.debit org operation detail mcr = some t') (hnew : t'.ledger = t.ledger ++ new)
    (hop : operation ≠ "monthly_grant") : netDelta new = -mcr := by
  rw [CreditTables.debit] at h
  split at h
  · exact absurd h.symm (Option.some_ne_none _)
  · split at h
    · obtain rfl := Option.some.inj h
      rw [new_of_post hnew, netDelta_row hop]
    · exact absurd h.symm (Option.some_ne_none _)

theorem netDelta_refund {org : ℕ} {operation detail : String} {mcr : ℤ}
    (h : t.refund org operation detail mcr = some t') (hnew : t'.ledger = t.ledger ++ new)
    (hop : operation ++ "_refund" ≠ "monthly_grant") : netDelta new = mcr := by
  rw [CreditTables.refund] at h
  split at h
  · exact absurd h.symm (Option.some_ne_none _)
  · split at h
    · obtain rfl := Option.some.inj h
      rw [new_of_post hnew, netDelta_row hop]
    · exact absurd h.symm (Option.some_ne_none _)

/-- Neither a charge of the handlers nor its refund is called a grant. -/
theorem operation_ne_grant {operation : String} (h : operation ∈ operations) :
    operation ≠ "monthly_grant" ∧ operation ++ "_refund" ≠ "monthly_grant" := by
  have hall : operations.all fun operation ↦ operation ≠ "monthly_grant" ∧
      operation ++ "_refund" ≠ "monthly_grant" := by decide
  exact of_decide_eq_true (List.all_eq_true.1 hall operation h)

/-! ### Walks -/

/-- A request that is done stays where it is. -/
theorem walk_finished (h : Walk P .finished rows q) : q = .finished ∧ rows = [] := by
  cases h with
  | stay => exact ⟨rfl, rfl⟩
  | step _ h => exact absurd h.symm (Option.some_ne_none _)

theorem walk_refused {problem : Problem} (h : Walk P (.refused problem) rows q) :
    q = .refused problem ∧ rows = [] := by
  cases h with
  | stay => exact ⟨rfl, rfl⟩
  | step _ h => exact absurd h.symm (Option.some_ne_none _)

/-- From a reservation a request goes to its refund or to its end. -/
theorem walk_refunding {mcr : ℤ} (h : Walk P (.refunding c mcr) rows q) :
    q = .refunding c mcr ∨ q = .finished := by
  cases h with
  | stay => exact .inl rfl
  | step _ h _ hrest =>
    rw [meter] at h
    split at h
    · obtain ⟨rfl, -⟩ := Prod.mk.inj (Option.some.inj h)
      exact .inr (walk_finished hrest).1
    · obtain ⟨rfl, -⟩ := Prod.mk.inj (Option.some.inj h)
      exact .inr (walk_finished hrest).1

theorem meter_reserved {ch : MeterChoice} (h : meter ch (.reserved c) t = some (q, t')) :
    t' = t ∧ (q = .finished ∨ ∃ mcr, q = .refunding c mcr) := by
  rw [meter] at h
  split at h
  · obtain ⟨rfl, rfl⟩ := Prod.mk.inj (Option.some.inj h)
    exact ⟨rfl, .inl rfl⟩
  · split at h
    · obtain ⟨rfl, rfl⟩ := Prod.mk.inj (Option.some.inj h)
      exact ⟨rfl, .inr ⟨_, rfl⟩⟩
    · obtain ⟨rfl, rfl⟩ := Prod.mk.inj (Option.some.inj h)
      exact ⟨rfl, .inl rfl⟩
  · obtain ⟨rfl, rfl⟩ := Prod.mk.inj (Option.some.inj h)
    exact ⟨rfl, .inr ⟨_, rfl⟩⟩

theorem walk_reserved (h : Walk P (.reserved c) rows q) :
    q = .reserved c ∧ rows = [] ∨ q = .finished ∨ ∃ mcr, q = .refunding c mcr := by
  cases h with
  | stay => exact .inl ⟨rfl, rfl⟩
  | step _ h _ hrest =>
    obtain ⟨-, rfl | ⟨mcr, rfl⟩⟩ := meter_reserved h
    · exact .inr (.inl (walk_finished hrest).1)
    · exact .inr ((walk_refunding hrest).symm.imp_right fun h ↦ ⟨mcr, h⟩)

theorem netDelta_walk_refunding {how : Resolve} {mcr : ℤ} (hc : c.Metered org) (hmcr : 0 < mcr)
    (h : Walk (Resolving how) (.refunding c mcr) rows .finished) : netDelta rows = mcr := by
  cases h with
  | step hch h hnew hrest =>
    obtain ⟨-, hcommits, hrefund⟩ := hch
    obtain ⟨t₁, ht₁⟩ := Option.ne_none_iff_exists'.1 hrefund
    rw [meter, if_pos ⟨hmcr, hcommits⟩, ht₁] at h
    obtain ⟨rfl, rfl⟩ := Prod.mk.inj (Option.some.inj h)
    obtain ⟨-, rfl⟩ := walk_finished hrest
    rw [List.append_nil]
    exact netDelta_refund ht₁ hnew (operation_ne_grant hc.operation).2

/-- A resolution gives back what it is to give back. -/
theorem netDelta_walk_reserved {how : Resolve} (hc : c.Metered org)
    (h : Walk (Resolving how) (.reserved c) rows .finished) : netDelta rows = how.refunded c := by
  cases h with
  | step hch h hnew hrest =>
    rw [meter, hch.1] at h
    have hsame : ∀ {new : List LedgerRow} {t : CreditTables}, t.ledger = t.ledger ++ new →
        new = [] := fun h ↦ List.self_eq_append_right.1 h
    have hdone : ∀ {rows : List LedgerRow}, Walk (Resolving how) .finished rows .finished →
        netDelta rows = 0 := fun h ↦ by rw [(walk_finished h).2]; rfl
    cases how with
    | commit =>
      obtain ⟨rfl, rfl⟩ := Prod.mk.inj (Option.some.inj h)
      rw [hsame hnew]
      exact hdone hrest
    | refund =>
      obtain ⟨rfl, rfl⟩ := Prod.mk.inj (Option.some.inj h)
      rw [hsame hnew]
      exact netDelta_walk_refunding hc hc.pos hrest
    | commitUsed usedMcr =>
      dsimp only at h
      split at h
      · rename_i hpos
        obtain ⟨rfl, rfl⟩ := Prod.mk.inj (Option.some.inj h)
        rw [hsame hnew]
        exact netDelta_walk_refunding hc hpos hrest
      · rename_i hnone
        obtain ⟨rfl, rfl⟩ := Prod.mk.inj (Option.some.inj h)
        have hzero : unused c usedMcr = 0 := by
          rw [unused] at hnone ⊢
          omega
        rw [hsame hnew, Resolve.refunded, hzero]
        exact hdone hrest

/-- What a charge has left where it is taken, and where the request is refused. -/
def Charged (c : Charge) (rows : List LedgerRow) : Metering → Prop
  | .reserved _ => netDelta rows = -c.mcr
  | .refused _ => netDelta rows = 0
  | _ => True

theorem charged_of_refused {problem : Problem} (h : Walk P (.refused problem) rows q)
    (hnew : t.ledger = t.ledger ++ new) : Charged c (new ++ rows) q := by
  obtain ⟨rfl, rfl⟩ := walk_refused h
  rw [List.self_eq_append_right.1 hnew]
  exact rfl

theorem charged_of_reserved (h : Walk P (.reserved c) rows q) (hnew : netDelta new = -c.mcr) :
    Charged c (new ++ rows) q := by
  obtain ⟨rfl, rfl⟩ | rfl | ⟨mcr, rfl⟩ := walk_reserved h
  · rw [List.append_nil]
    exact hnew
  · trivial
  · trivial

theorem Charged.append (h : Charged c rows q) (hnew : netDelta new = 0) :
    Charged c (new ++ rows) q := by
  have hsame : netDelta (new ++ rows) = netDelta rows := by
    rw [netDelta_append, hnew, zero_add]
  cases q with
  | reserved _ => exact hsame.trans h
  | refused _ => exact hsame.trans h
  | _ => trivial

theorem charged_of_debit (hc : c.Metered org) (h : Walk P (.chargeDebit c) rows q) :
    Charged c rows q := by
  cases h with
  | stay => trivial
  | step _ h hnew hrest =>
    rw [meter] at h
    split at h
    · split at h
      · rename_i hdebit
        obtain ⟨rfl, rfl⟩ := Prod.mk.inj (Option.some.inj h)
        exact charged_of_reserved hrest
          (netDelta_debit hdebit hnew (operation_ne_grant hc.operation).1)
      · obtain ⟨rfl, rfl⟩ := Prod.mk.inj (Option.some.inj h)
        exact charged_of_refused hrest hnew
    · obtain ⟨rfl, rfl⟩ := Prod.mk.inj (Option.some.inj h)
      exact charged_of_refused hrest hnew

/-- A charge is taken after the grant of the month. -/
theorem charged_of_charge (hc : c.Metered org) (h : Walk P (.charge c) rows q) :
    Charged c rows q := by
  cases h with
  | stay => trivial
  | step _ h hnew hrest =>
    have hlive : ¬(c.account.env ≠ .live ∨ c.mcr = 0) := by
      rw [hc.account]
      exact not_or.2 ⟨not_not.2 rfl, hc.pos.ne'⟩
    rw [meter, if_neg hlive, if_neg (not_lt.2 hc.pos.le)] at h
    split at h
    · obtain ⟨rfl, rfl⟩ := Prod.mk.inj (Option.some.inj h)
      exact (charged_of_debit hc hrest).append (netDelta_ensureMonthlyGrant hnew)
    · obtain ⟨rfl, rfl⟩ := Prod.mk.inj (Option.some.inj h)
      exact charged_of_refused hrest hnew

end Transactions

/-! ### Runs -/

/-- The rows of a question are what its answer adds to the record. -/
theorem netDelta_exchange {g : Bill} {x : Exchange (@Ask.Reply d reg)} {rows : List LedgerRow}
    (hmay : (billing reg org).may g x.question) (h : leaves reg x rows) :
    ((billing reg org).next g x.question x.answer).delta = g.delta + netDelta rows := by
  unfold leaves at h
  split at h
  · rename_i c _
    obtain ⟨-, hc⟩ : _ ∧ c.Metered org := hmay
    have hreservation : c.reservation = some c := if_pos ⟨by rw [hc.account], hc.pos⟩
    rw [hreservation] at h
    rw [show netDelta rows = -c.mcr from charged_of_charge hc h]
    rfl
  · rename_i c problem
    obtain ⟨-, hc⟩ : _ ∧ c.Metered org := hmay
    rw [show netDelta rows = 0 from charged_of_charge hc h]
    exact (add_zero _).symm
  · rename_i c how _
    obtain ⟨-, hc⟩ : _ ∧ c.Metered org := hmay
    rw [netDelta_walk_reserved hc h]
    rfl
  · rename_i hok herror hresolve
    rw [h, show netDelta [] = 0 from rfl, add_zero]
    obtain ⟨e, r⟩ := x
    unfold billing
    dsimp only
    split
    · exact (hok _ _ rfl).elim
    · exact (hresolve _ _ _ rfl).elim
    all_goals rfl

/-- The rows of a run are what it has added to the record. -/
theorem netDelta_run {t : List (Exchange (@Ask.Reply d reg))} {g : Bill} {rows : List LedgerRow}
    (hobeys : (billing reg org).Obeys g t) (hleaves : RunLeaves reg t rows) :
    ((billing reg org).after g t).delta = g.delta + netDelta rows := by
  obtain ⟨parts, hparts, rfl⟩ := hleaves
  induction hparts generalizing g with
  | nil => exact (add_zero _).symm
  | cons hpart _ ih =>
    obtain ⟨hmay, hobeys⟩ := hobeys
    rw [List.flatten_cons, netDelta_append, ← add_assoc, ← netDelta_exchange hmay hpart]
    exact ih hobeys

/-- The record of a run of an organization. -/
def billOf (reg : Registry d) (org : ℕ) (t : List (Exchange (@Ask.Reply d reg))) : Bill :=
  (billing reg org).after Bill.empty t

/-- Metering is exact for a request: a run of it that is over leaves the price of what it caused in
the ledger, beside the grant of the month, and has resolved every charge it has taken; it resolves a
charge that is taken and not resolved; and it calls the contract for an effect under such a charge,
which covers it. -/
structure MeteredRequest.Exact (reg : Registry d) (cl : Platform) (org : ℕ)
    (request : MeteredRequest) : Prop where
  paid : ∀ t x rows, Runs (request.handle reg cl ⟨org, .live⟩ ⟨none, 0⟩) t x →
    RunLeaves reg t rows → netDelta rows = -(billOf reg org t).price
  resolved : ∀ t x, Runs (request.handle reg cl ⟨org, .live⟩ ⟨none, 0⟩) t x →
    (billOf reg org t).taken = (billOf reg org t).resolved
  once : ∀ t c how r p,
    Reaches (request.handle reg cl ⟨org, .live⟩ ⟨none, 0⟩) (t ++ [⟨.resolve c how, r⟩]) p →
    (billOf reg org t).taken = (billOf reg org t).resolved ++ [c]
  covered : ∀ t call r p,
    Reaches (request.handle reg cl ⟨org, .live⟩ ⟨none, 0⟩) (t ++ [⟨.call call, r⟩]) p →
    0 < call.price → ∃ c, (billOf reg org t).taken = (billOf reg org t).resolved ++ [c] ∧
      (billOf reg org t).price + call.price ≤ c.mcr

theorem allows_billing (g : Bill) (t : List (Exchange (@Ask.Reply d reg))) :
    (billing reg org).Allows g t := Law.allows_of_possible _ (fun _ _ _ ↦ trivial) g t

/-- **Metering is exact.** -/
theorem metering_exact (reg : Registry d) (cl : Platform) (org : ℕ) (request : MeteredRequest) :
    request.Exact reg cl org := by
  have hends : Ends org Settled (request.handle reg cl ⟨org, .live⟩) ⟨none, 0⟩ Bill.empty :=
    ends_handle cl ⟨⟨rfl, rfl, rfl⟩, rfl, rfl⟩ request
  have hsettled : ∀ t x, Runs (request.handle reg cl ⟨org, .live⟩ ⟨none, 0⟩) t x →
      Settled x.2 (billOf reg org t) := by
    rintro t ⟨x | a, m⟩ hrun
    · exact hends.ends hrun (allows_billing _ t)
    · exact hends.ends hrun (allows_billing _ t)
  refine ⟨fun t x rows hrun hleaves ↦ ?_, fun t x hrun ↦ (hsettled t x hrun).2.1, ?_, ?_⟩
  · have hdelta := netDelta_run (hends.obeys hrun (allows_billing _ t)) hleaves
    rw [← (hsettled t x hrun).2.2]
    exact (hdelta.trans (zero_add _)).symm
  · exact fun t c how r p hreach ↦ (hends.may hreach (allows_billing _ t)).1
  · exact fun t call r p hreach ↦ hends.may hreach (allows_billing _ t)

/-! ### The grant of the month -/

namespace Metering

/-- No organization has credits. -/
def noCredits : CreditTables := ⟨fun _ ↦ none, []⟩

/-- A charge and its refund, in an organization without credits. -/
def rows (job : ProgramJob) : List LedgerRow :=
  [⟨1, "monthly_grant", "opening grant", 25000000, 25000000⟩,
    ⟨1, "create_campaign", job.name ++ " (loyalty)", -30000, 24970000⟩,
    ⟨1, "create_campaign_refund", "refund · " ++ (job.name ++ " (loyalty)"), 30000, 25000000⟩]

/-- A program whose client is not funded. -/
def run (job : ProgramJob) : List (Exchange (@Ask.Reply _ Acceptance.registry)) :=
  [⟨.reserveCharge (programCharge ⟨1, .live⟩ job), Except.ok ()⟩,
    ⟨.clientFor ⟨1, .live⟩, Except.error (.chainError .other)⟩,
    ⟨.resolve (programCharge ⟨1, .live⟩ job) (.commitUsed 0), ()⟩]

theorem runs_program {job : ProgramJob} (hjob : programRequest Acceptance.card = .ok job) :
    Runs ((MeteredRequest.createProgram Acceptance.card).handle Acceptance.registry
      Acceptance.platform ⟨1, .live⟩ ⟨none, 0⟩) (run job)
      (.error (.chainError .other), ⟨none, 0⟩) := by
  show Runs (handleCreateProgram ⟨1, .live⟩ Acceptance.card _) _ _
  rw [handleCreateProgram, hjob]
  refine .of_eq rfl (.of_eq rfl (.of_eq rfl ?_))
  exact .refl _

/-- The tables after the grant, and after the charge. -/
def granted : CreditTables := noCredits.openingGrant 1 (2026, 7)

def charged (job : ProgramJob) : CreditTables :=
  granted.post 1 ⟨24970000, (2026, 7)⟩ "create_campaign" (job.name ++ " (loyalty)") (-30000)

theorem runLeaves_program (job : ProgramJob) :
    RunLeaves Acceptance.registry (run job) (rows job) := by
  let c := programCharge ⟨1, .live⟩ job
  have hgrant : meter ⟨(2026, 7), .refund, true⟩ (.charge c) noCredits =
      some (.chargeDebit c, granted) := rfl
  have hdebit : meter ⟨(2026, 7), .refund, true⟩ (.chargeDebit c) granted =
      some (.reserved c, charged job) := rfl
  have hresolve : meter ⟨(2026, 7), .commitUsed 0, true⟩ (.reserved c) (charged job) =
      some (.refunding c 30000, charged job) := rfl
  have hrefund : meter ⟨(2026, 7), .commitUsed 0, true⟩ (.refunding c 30000) (charged job) =
      some (.finished, (charged job).post 1 ⟨25000000, (2026, 7)⟩ "create_campaign_refund"
        ("refund · " ++ (job.name ++ " (loyalty)")) 30000) := rfl
  refine ⟨[[_, _], [], [_]], .cons ?_ (.cons rfl (.cons ?_ .nil)), rfl⟩
  · exact .step trivial hgrant rfl (.step trivial hdebit rfl (.stay _))
  · exact .step ⟨rfl, trivial⟩ hresolve (List.append_nil _).symm
      (.step ⟨rfl, rfl, Option.some_ne_none _⟩ hrefund rfl (.stay _))

end Metering

/-- A run that is over may leave the grant of the month beside the price of what it caused. -/
theorem grant_beside_price :
    ∃ t x rows, Runs ((MeteredRequest.createProgram Acceptance.card).handle Acceptance.registry
        Acceptance.platform ⟨1, .live⟩ ⟨none, 0⟩) t x ∧ RunLeaves Acceptance.registry t rows ∧
      totalDelta rows ≠ -(billOf Acceptance.registry 1 t).price := by
  rcases hjob : programRequest Acceptance.card with problem | job
  · have hok := Acceptance.isOk_card
    rw [hjob] at hok
    exact absurd hok Bool.false_ne_true
  · exact ⟨Metering.run job, _, Metering.rows job, Metering.runs_program hjob,
      Metering.runLeaves_program job, show (25000000 : ℤ) ≠ 0 by decide⟩

end Soroticket
