import Soroticket.Cloud.Asks

/-!
# What a request pays

A metered request takes a charge, does its work, and resolves the charge: it keeps all of it, or
what it used, or nothing. The nine handlers do so in three styles, and leave at many places.

`billing` is the record of a request: what moved its credits, the price of what it has caused, and
the charges it has taken and resolved. A handler takes a charge when all are resolved, resolves the
one that is not, and has an effect on the chain only under a charge that covers it; and wherever it
ends, every charge is resolved and it has paid the price of what it caused (`Settled`).

What the record says of the credits is what the ledger says, by `Cloud.Metering`.
-/

namespace Soroticket

open Programs Handler Paging

variable {d : Deployment} {reg : Registry d}

/-! ### Prices -/

/-- The price of a call. -/
def Call.price : Call → ℤ
  | .createCampaign .. => mcrCreateCampaign
  | .registerShared .. => mcrRegisterShared
  | .issueUnique _ _ codes => codes.length * mcrIssuePerCode
  | .redeemUnique .. => mcrRedeem
  | .commitTally .. => mcrCommitTally
  | .settle .. => mcrSettle
  | _ => 0

/-- What moved the credits of a request, the price of what it caused, and the charges it has taken
and resolved. -/
structure Bill where
  delta : ℤ
  price : ℤ
  taken : List Charge
  resolved : List Charge

/-- Nothing yet. -/
def Bill.empty : Bill := ⟨0, 0, [], []⟩

/-- What is given back of a charge. -/
def Resolve.refunded (c : Charge) : Resolve → ℤ
  | .commit => 0
  | .commitUsed usedMcr => unused c usedMcr
  | .refund => c.mcr

/-- What the charges of the handlers are for. -/
def operations : List String :=
  ["create_campaign", "register_shared", "issue_codes", "redeem", "shared_event", "punch",
    "commit_tally", "settle"]

/-- A charge of the metered account of an organization. -/
structure Charge.Metered (org : ℕ) (c : Charge) : Prop where
  account : c.account = ⟨org, .live⟩
  pos : 0 < c.mcr
  operation : c.operation ∈ operations

/-- The record of a request. -/
def billing (reg : Registry d) (org : ℕ) : Law (@Ask.Reply d reg) Bill where
  may g
    | .reserveCharge c => g.taken = g.resolved ∧ c.Metered org
    | .resolve c _ => g.taken = g.resolved ++ [c] ∧ c.Metered org
    | .call call => 0 < call.price →
      ∃ c, g.taken = g.resolved ++ [c] ∧ g.price + call.price ≤ c.mcr
    | _ => True
  possible _ _ _ := True
  next g e r :=
    match e, r with
    | .reserveCharge c, .ok _ => { g with delta := g.delta - c.mcr, taken := g.taken ++ [c] }
    | .resolve c how, _ =>
      { g with delta := g.delta + how.refunded c, resolved := g.resolved ++ [c] }
    | .call call, .ok _ => { g with price := g.price + call.price }
    | .storeEvent _ e, .ok _ => { g with price := g.price + e.count.1.toInt * mcrSharedEvent }
    | .storePunch p _ _, .ok _ => { g with price := g.price + p.count.1.toInt * mcrPunch }
    | _, _ => g

/-- Every charge is resolved, and what was caused is paid. -/
def Settled (m : Meter) (g : Bill) : Prop :=
  m.active = none ∧ g.taken = g.resolved ∧ g.delta = -g.price

/-- A charge is reserved. -/
structure Booked (org : ℕ) (c : Charge) (m : Meter) (g : Bill) : Prop where
  active : m.active = some c
  metered : c.Metered org
  taken : g.taken = g.resolved ++ [c]
  delta : g.delta = -c.mcr

/-- A charge is reserved, and what was used is the price of what was caused. -/
structure Used (org : ℕ) (c : Charge) (m : Meter) (g : Bill) : Prop where
  reserved : Booked org c m g
  used : m.usedCharge = g.price
  nonneg : 0 ≤ g.price
  covered : g.price ≤ c.mcr

/-- Either nothing was caused yet, or the charge is resolved. -/
def Undone (org : ℕ) (c : Charge) (m : Meter) (g : Bill) : Prop :=
  Settled m g ∨ Booked org c m g ∧ g.price = 0

/-- A handler that ends in `P`, whichever way it is left. -/
abbrev Ends {α : Type} (org : ℕ) (P : Meter → Bill → Prop) (h : Work reg α) (m : Meter)
    (g : Bill) : Prop :=
  h.Keeps (billing reg org) m g (fun _ ↦ P) fun _ ↦ P

section Rules

variable {α β : Type} {org : ℕ} {m : Meter} {g : Bill} {c : Charge} {P : Meter → Bill → Prop}
  {Q : β → Meter → Bill → Prop}

/-- What a reservation covers changes the price alone. -/
theorem Booked.caused (h : Booked org c m g) (price : ℤ) :
    Booked org c m { g with price } := ⟨h.active, h.metered, h.taken, h.delta⟩

theorem Booked.setUsed (h : Booked org c m g) (usedCharge : ℤ) :
    Booked org c { m with usedCharge } g := ⟨h.active, h.metered, h.taken, h.delta⟩

/-- A reservation that is resolved with what was used is settled. -/
theorem closes_of_reserved {how : Resolve} (h : Booked org c m g)
    (hprice : g.price = c.mcr - how.refunded c) :
    Closes (billing reg org) (m.resolving how) g (Settled m.resolved) := by
  rw [Meter.resolving, h.active]
  refine ⟨⟨h.taken, h.metered⟩, fun _ _ ↦ ⟨rfl, h.taken, ?_⟩⟩
  show g.delta + how.refunded c = -g.price
  rw [h.delta, hprice]
  omega

theorem closes_of_settled {how : Resolve} (h : Settled m g) :
    Closes (billing reg org) (m.resolving how) g (Settled m.resolved) := by
  rw [Meter.resolving, h.1]
  exact ⟨rfl, h.2⟩

theorem ends_deferRefund {h : Work reg α} (hh : Ends org (Undone org c) h m g) :
    Ends org Settled (deferRefund h) m g := by
  have hclose : ∀ m g, Undone org c m g →
      Closes (billing reg org) (m.resolving .refund) g (Settled m.resolved) := by
    rintro m g (hsettled | ⟨hreserved, hprice⟩)
    · exact closes_of_settled hsettled
    · exact closes_of_reserved hreserved (by rw [hprice, Resolve.refunded, sub_self])
  exact keeps_deferRefund (hh.mono (fun _ ↦ hclose) fun _ ↦ hclose)

theorem ends_deferCommitUsed {h : Work reg α} (hh : Ends org (Used org c) h m g) :
    Ends org Settled (deferCommitUsed h) m g := by
  have hclose : ∀ m g, Used org c m g →
      Closes (billing reg org) (m.resolving (.commitUsed m.usedCharge)) g (Settled m.resolved) := by
    intro m g hused
    refine closes_of_reserved hused.reserved ?_
    rw [Resolve.refunded, unused, hused.used, max_eq_left hused.nonneg, min_eq_left hused.covered]
    omega
  exact keeps_deferCommitUsed (hh.mono (fun _ ↦ hclose) fun _ ↦ hclose)

/-- A charge of the metered account is reserved, or the handler stops. -/
theorem ends_reserveCharge {f : Unit → Work reg β} (hidle : Settled m g) (hprice : g.price = 0)
    (hc : c.Metered org) (hstop : ∀ m g, Settled m g → P m g)
    (hf : ∀ m' g', Booked org c m' g' → g'.price = 0 → m'.usedCharge = m.usedCharge →
      Ends org P (f ()) m' g') :
    Ends org P (reserveCharge c >>= f) m g := by
  obtain ⟨hactive, hresolved, hdelta⟩ := hidle
  refine step_reserveCharge ⟨hresolved, hc⟩ (fun _ ↦ ?_) fun _ _ ↦
    hstop m g ⟨hactive, hresolved, hdelta⟩
  have hlive : c.account.env = .live := by rw [hc.account]
  refine hf _ _ ⟨if_pos ⟨hlive, hc.pos⟩, hc, congrArg (· ++ [c]) hresolved, ?_⟩ hprice rfl
  show g.delta - c.mcr = -c.mcr
  rw [hdelta, hprice]
  omega

/-- The client of an account changes nothing of a bill. -/
theorem ends_withClient {a : AuthCtx} {h : Address → Work reg β} (hstop : P m g)
    (hh : ∀ signer, Ends org P (h signer) m g) : Ends org P (withClient a h) m g := by
  refine keeps_withClient trivial (fun signer _ ↦ ?_) fun _ _ ↦ hstop
  exact (hh signer).mono (fun _ _ _ hP ↦ ⟨trivial, fun _ _ ↦ hP⟩)
    fun _ _ _ hP ↦ ⟨trivial, fun _ _ ↦ hP⟩

/-- A call under a reservation that covers it. -/
theorem ends_callClient {call : Call} {f : Value × Bytes → Work reg β}
    (hreserved : Booked org c m g) (hcover : g.price + call.price ≤ c.mcr) (hstop : P m g)
    (hf : ∀ v g', Booked org c m g' → g'.price = g.price + call.price →
      (f v).Keeps (billing reg org) m g' Q fun _ ↦ P) :
    (callClient call >>= f).Keeps (billing reg org) m g Q fun _ ↦ P := by
  refine step_callClient (fun _ ↦ ⟨c, hreserved.taken, hcover⟩) (fun v _ ↦ ?_) fun _ _ ↦ hstop
  exact hf v _ (hreserved.caused _) rfl

/-- A charge that is resolved with the price of what it was for. -/
theorem ends_resolveCharge {how : Resolve} {f : Unit → Work reg β} (hreserved : Booked org c m g)
    (hprice : g.price = c.mcr - how.refunded c)
    (hf : ∀ m g, Settled m g → (f ()).Keeps (billing reg org) m g Q fun _ ↦ P) :
    (resolveCharge how >>= f).Keeps (billing reg org) m g Q fun _ ↦ P := by
  refine step_resolveCharge ?_
  rw [Meter.resolving, hreserved.active]
  refine ⟨⟨hreserved.taken, hreserved.metered⟩, fun _ _ ↦ hf _ _ ⟨rfl, hreserved.taken, ?_⟩⟩
  show g.delta + how.refunded c = -g.price
  rw [hreserved.delta, hprice]
  omega

theorem ends_registerSharedCode {signer : Address} {chainID : UInt64} {j : SharedJob}
    {f : Bytes → Work reg β} (hreserved : Booked org c m g)
    (hcover : g.price + mcrRegisterShared ≤ c.mcr) (hstop : P m g)
    (hf : ∀ txHash g', Booked org c m g' → g'.price = g.price + mcrRegisterShared →
      Ends org P (f txHash) m g') :
    Ends org P (registerSharedCode signer chainID j >>= f) m g := by
  refine keeps_bind.2 ?_
  rw [registerSharedCode]
  split
  · exact keeps_stop.2 hstop
  · refine step_callClient (fun _ ↦ ⟨c, hreserved.taken, hcover⟩) ?_ fun _ _ ↦ hstop
    rintro ⟨value, txHash⟩ -
    exact keeps_pure.2 (hf txHash _ (hreserved.caused _) rfl)

end Rules

/-! ### Campaigns, programs and shared codes -/

section Handlers

variable {cl : Platform} {org : ℕ} {m : Meter} {g : Bill}

/-- A request that has done nothing. -/
structure Idle (m : Meter) (g : Bill) : Prop where
  settled : Settled m g
  price : g.price = 0
  used : m.usedCharge = 0

/-- What was used so far, after a call of a price. -/
theorem used_of_call {c : Charge} {price : ℤ} (hreserved : Booked org c m g)
    (hprice : g.price = price) (hnonneg : 0 ≤ price) (hcover : price ≤ c.mcr) :
    Used org c { m with usedCharge := price } g :=
  ⟨hreserved.setUsed price, hprice.symm, hprice ▸ hnonneg, hprice ▸ hcover⟩

theorem ends_createCampaign (h : Idle m g) (body : CampaignBody) :
    Ends org Settled (handleCreateCampaign cl ⟨org, .live⟩ body : Work reg Response) m g := by
  refine step_query trivial fun first _ ↦ ?_
  refine step_query trivial fun second _ ↦ ?_
  refine step_checked (fun job _ ↦ ?_) fun _ _ ↦ h.settled
  set mcr := mcrCreateCampaign + if job.shared.isSome then mcrRegisterShared else 0 with hmcr
  have hleast : mcrCreateCampaign ≤ mcr := by
    rw [hmcr]
    split <;> decide
  have hpos : 0 < mcr := lt_of_lt_of_le (by decide) hleast
  refine ends_reserveCharge h.settled h.price ⟨rfl, hpos, List.mem_cons_self⟩ (fun _ _ h ↦ h)
    fun m₁ g₁ hreserved hprice hused ↦ ?_
  have hnothing : Used org _ m₁ g₁ :=
    ⟨hreserved, hused.trans (h.used.trans hprice.symm), hprice.ge, hprice.trans_le hpos.le⟩
  refine ends_deferCommitUsed (ends_withClient hnothing fun signer ↦ ?_)
  refine ends_callClient hreserved (by rw [hprice, zero_add]; exact hleast) hnothing
    fun v g₂ hreserved₂ hprice₂ ↦ ?_
  replace hprice₂ : g₂.price = mcrCreateCampaign := by
    rw [hprice₂, hprice, zero_add]
    rfl
  have hcreated := used_of_call hreserved₂ hprice₂ (by decide) hleast
  refine step_setUsed (step_silent ⟨trivial, fun _ ↦ rfl⟩ fun id _ ↦ ?_)
  refine step_orStop (fun id _ ↦ ?_) hcreated
  rcases hshared : job.shared with - | shared
  · exact keeps_pure.2 hcreated
  · have hboth : mcrCreateCampaign + mcrRegisterShared ≤ mcr := by
      rw [hmcr, hshared]
      exact le_rfl
    refine ends_registerSharedCode hcreated.reserved (hprice₂ ▸ hboth) hcreated
      fun txHash g₃ hreserved₃ hprice₃ ↦ ?_
    rw [hprice₂] at hprice₃
    have hregistered := used_of_call hreserved₃ hprice₃ (by decide) hboth
    refine step_setUsed (step_silent ⟨trivial, fun _ ↦ rfl⟩ fun (stored : Bool) _ ↦ ?_)
    exact step_problemWhen (fun _ ↦ keeps_pure.2 hregistered) fun _ ↦ hregistered

theorem ends_createProgram (h : Idle m g) (body : ProgramBody) :
    Ends org Settled (handleCreateProgram ⟨org, .live⟩ body : Work reg Response) m g := by
  refine step_checked (fun job _ ↦ ?_) fun _ _ ↦ h.settled
  refine ends_reserveCharge h.settled h.price ⟨rfl, show 0 < 20000 + 10000 by decide,
    List.mem_cons_self⟩ (fun _ _ h ↦ h) fun m₁ g₁ hreserved hprice hused ↦ ?_
  have hnothing : Used org _ m₁ g₁ := ⟨hreserved, hused.trans (h.used.trans hprice.symm), hprice.ge,
    hprice.trans_le (show 0 ≤ 20000 + 10000 by decide)⟩
  refine ends_deferCommitUsed (ends_withClient hnothing fun signer ↦ ?_)
  refine step_silent ⟨trivial, fun _ ↦ rfl⟩ fun clock _ ↦ ?_
  refine ends_callClient hreserved (hprice ▸ show 0 + 20000 ≤ 20000 + 10000 by decide) hnothing
    fun v g₂ hreserved₂ hprice₂ ↦ ?_
  replace hprice₂ : g₂.price = mcrCreateCampaign := by
    rw [hprice₂, hprice, zero_add]
    rfl
  have hcreated := used_of_call hreserved₂ hprice₂ (by decide)
    (show 20000 ≤ 20000 + 10000 by decide)
  refine step_setUsed ?_
  refine ends_registerSharedCode hcreated.reserved (hprice₂ ▸ le_rfl) hcreated
    fun txHash g₃ hreserved₃ hprice₃ ↦ ?_
  rw [hprice₂] at hprice₃
  have hregistered := used_of_call hreserved₃ hprice₃ (by decide) le_rfl
  refine step_setUsed (step_silent ⟨trivial, fun _ ↦ rfl⟩ fun row _ ↦ ?_)
  exact step_orStop (fun _ _ ↦ keeps_pure.2 hregistered) hregistered

theorem ends_registerShared (h : Idle m g) (id : ℕ) (body : SharedTerms) :
    Ends org Settled (handleRegisterShared cl ⟨org, .live⟩ id body : Work reg Response) m g := by
  unfold handleRegisterShared
  refine step_writableCampaign ⟨trivial, fun _ ↦ rfl⟩ (fun c _ _ ↦ ?_) fun _ ↦ h.settled
  refine step_checked (fun job _ ↦ ?_) fun _ _ ↦ h.settled
  refine ends_reserveCharge h.settled h.price ⟨rfl, show 0 < 10000 by decide,
    List.mem_cons_of_mem _ List.mem_cons_self⟩ (fun _ _ h ↦ h)
    fun m₁ g₁ hreserved hprice hused ↦ ?_
  have hundone : Undone org _ m₁ g₁ := .inr ⟨hreserved, hprice⟩
  refine ends_deferRefund (ends_withClient hundone fun signer ↦ ?_)
  refine ends_registerSharedCode hreserved (hprice ▸ show 0 + 10000 ≤ 10000 by decide) hundone
    fun txHash g₂ hreserved₂ hprice₂ ↦ ?_
  rw [hprice, zero_add] at hprice₂
  refine ends_resolveCharge hreserved₂ (hprice₂.trans (sub_zero _).symm) fun m₃ g₃ hsettled ↦ ?_
  refine step_silent ⟨trivial, fun _ ↦ rfl⟩ fun (stored : Bool) _ ↦ ?_
  exact step_problemWhen (fun _ ↦ keeps_pure.2 (.inl hsettled)) fun _ ↦ .inl hsettled

/-! ### Unique codes -/

theorem sum_length_pages (codes : List String) (size k : ℕ) :
    (((List.range k).map fun i ↦ page codes (i * size) size).map List.length).sum =
      min codes.length (k * size) := by
  induction k with
  | zero => rw [List.range_zero, Nat.zero_mul, Nat.min_zero]; rfl
  | succ k ih =>
    rw [List.range_succ, List.map_append, List.map_append, List.sum_append, ih,
      List.map_singleton, List.map_singleton, List.sum_singleton, length_page, Nat.succ_mul]
    omega

/-- The batches of a request have its codes. -/
theorem sum_length_issueBatches (codes : List String) :
    ((issueBatches codes).map List.length).sum = codes.length := by
  rw [issueBatches, sum_length_pages, show maxBatch = 100 from rfl]
  omega

theorem checkCodes_ne_nil {codes : List String} {u : Unit} (h : checkCodes codes = .ok u) :
    0 < codes.length := by
  obtain ⟨_, hne, -⟩ := bind_eq_ok.1 h
  exact List.length_pos_iff.2 (rejectWhen_eq_ok.1 hne)

/-- Batch by batch, the price is that of the codes that were issued. -/
theorem ends_issueCodes {c : Charge} {total : ℕ} (hmcr : c.mcr = total * mcrIssuePerCode)
    {signer : Address} {chainID : UInt64} {campaignID : ℕ} {batches : List (List String)}
    {issued : List IssuedCode} (hreserved : Booked org c m g)
    (hprice : g.price = issued.length * mcrIssuePerCode)
    (hlength : issued.length + (batches.map List.length).sum = total)
    {α : Type} {f : List IssuedCode → Work reg α}
    (hf : ∀ issued g', Booked org c m g' → g'.price = c.mcr →
      Ends org (Undone org c) (f issued) m g') :
    Ends org (Undone org c) (issueCodes signer chainID campaignID batches issued >>= f) m g := by
  refine keeps_bind.2 ?_
  induction batches generalizing issued g with
  | nil =>
    rw [List.map_nil, List.sum_nil, add_zero] at hlength
    exact keeps_pure.2 (hf issued g hreserved (by rw [hprice, hmcr, hlength]))
  | cons batch batches ih =>
    rw [List.map_cons, List.sum_cons] at hlength
    have hcover : g.price + (Call.issueUnique signer chainID (batch.map utf8)).price ≤ c.mcr := by
      rw [hprice, hmcr, Call.price, List.length_map, mcrIssuePerCode]
      omega
    refine step_query (fun _ ↦ ⟨c, hreserved.taken, hcover⟩) fun r _ ↦ ?_
    split
    · split
      · -- some codes are issued, and the rest of the charge is given back
        have hused : g.price =
            c.mcr - (Resolve.commitUsed (issued.length * mcrIssuePerCode)).refunded c := by
          rw [Resolve.refunded, unused, hprice, hmcr, mcrIssuePerCode]
          omega
        exact ends_resolveCharge (hreserved.caused _) hused
          fun _ _ hsettled ↦ keeps_stop.2 (Or.inl hsettled)
      · rename_i hnone
        refine keeps_stop.2 (.inr ⟨hreserved, ?_⟩)
        show g.price = 0
        rw [hprice, not_not.1 hnone, Nat.cast_zero, zero_mul]
    · rename_i value txHash
      refine step_insertCodes (fun _ ↦ ⟨trivial, fun _ ↦ rfl⟩) ?_ _
      refine ih (hreserved.caused _) ?_ ?_
      · show g.price + (batch.map utf8).length * mcrIssuePerCode = _
        rw [hprice, List.length_append, issuedRows, List.length_mapIdx, List.length_map,
          Nat.cast_add, add_mul]
      · rw [List.length_append, issuedRows, List.length_mapIdx]
        omega

theorem ends_issueRequest (h : Idle m g) (id : ℕ) (body : IssueBody) :
    Ends org Settled (handleIssueCodes cl ⟨org, .live⟩ id body : Work reg Response) m g := by
  unfold handleIssueCodes
  refine step_writableCampaign ⟨trivial, fun _ ↦ rfl⟩ (fun c _ _ ↦ ?_) fun _ ↦ h.settled
  refine step_requestedCodes (fun _ ↦ ⟨trivial, fun _ ↦ rfl⟩) (fun codes _ ↦ ?_) fun _ ↦ h.settled
  refine step_checked (fun _ hcheck ↦ ?_) fun _ _ ↦ h.settled
  have hpos := checkCodes_ne_nil hcheck
  refine ends_reserveCharge h.settled h.price ⟨rfl,
    show (0 : ℤ) < codes.length * 2000 by omega, show "issue_codes" ∈ operations by decide⟩
    (fun _ _ h ↦ h) fun m₁ g₁ hreserved hprice hused ↦ ?_
  have hundone : Undone org _ m₁ g₁ := .inr ⟨hreserved, hprice⟩
  refine ends_deferRefund (ends_withClient hundone fun signer ↦ ?_)
  refine ends_issueCodes rfl hreserved (hprice.trans (zero_mul _).symm) ?_
    fun issued g₂ hreserved₂ hprice₂ ↦ ?_
  · rw [sum_length_issueBatches, List.length_nil, zero_add]
  refine step_silent ⟨trivial, fun _ ↦ rfl⟩ fun _ _ ↦ ?_
  refine ends_resolveCharge hreserved₂ (hprice₂.trans (sub_zero _).symm) fun m₃ g₃ hsettled ↦ ?_
  exact keeps_pure.2 (.inl hsettled)

/-- A redemption. -/
theorem ends_redeem (h : Idle m g) (body : RedeemBody) :
    Ends org Settled (handleRedeem cl ⟨org, .live⟩ body : Work reg Response) m g := by
  unfold handleRedeem
  refine step_problemWhen (fun _ ↦ ?_) fun _ ↦ h.settled
  refine step_writableCampaign ⟨trivial, fun _ ↦ rfl⟩ (fun c _ _ ↦ ?_) fun _ ↦ h.settled
  refine step_silent ⟨trivial, fun _ ↦ rfl⟩ fun nonce _ ↦ ?_
  refine step_orStop (fun nonce _ ↦ ?_) h.settled
  refine step_redeemerHash ⟨trivial, fun _ ↦ rfl⟩ (fun refHash ↦ ?_) fun _ ↦ h.settled
  refine ends_reserveCharge h.settled h.price ⟨rfl, show (0 : ℤ) < 5000 by decide,
    show "redeem" ∈ operations by decide⟩ (fun _ _ h ↦ h) fun m₁ g₁ hreserved hprice hused ↦ ?_
  have hundone : Undone org _ m₁ g₁ := .inr ⟨hreserved, hprice⟩
  refine ends_deferRefund (ends_withClient hundone fun signer ↦ ?_)
  have hcover : g₁.price + mcrRedeem ≤ mcrRedeem := by rw [hprice, zero_add]
  refine step_query (fun _ ↦ ⟨_, hreserved.taken, hcover⟩) fun r _ ↦ ?_
  split
  · exact keeps_pure.2 hundone
  · refine ends_resolveCharge (hreserved.caused _) ?_
      fun m₃ g₃ hsettled ↦ ?_
    · show g₁.price + mcrRedeem = mcrRedeem - 0
      rw [hprice, zero_add, sub_zero]
    refine step_silent ⟨trivial, fun _ ↦ rfl⟩ fun _ _ ↦ ?_
    refine step_silent ⟨trivial, fun _ ↦ rfl⟩ fun _ _ ↦ ?_
    exact keeps_pure.2 (.inl hsettled)

/-! ### Events and punches -/

theorem ends_recordEvents (h : Idle m g) (campaignID : ℕ) (pathCode : String) (body : EventBody) :
    Ends org Settled
      (handleRecordEvents cl ⟨org, .live⟩ campaignID pathCode body : Work reg Response) m g := by
  refine step_silent ⟨trivial, fun _ ↦ rfl⟩ fun (job : Except Problem NewEvent) _ ↦ ?_
  refine step_checked (fun e _ ↦ ?_) fun _ _ ↦ h.settled
  have hpos : (0 : ℤ) < e.count.1.toInt := Int64.lt_iff_toInt_lt.1 e.count.2.1
  refine ends_reserveCharge h.settled h.price ⟨rfl,
    show (0 : ℤ) < e.count.1.toInt * 200 by omega, show "shared_event" ∈ operations by decide⟩
    (fun _ _ h ↦ h) fun m₁ g₁ hreserved hprice hused ↦ ?_
  obtain ⟨c, hreserved, hmcr⟩ : ∃ c, Booked org c m₁ g₁ ∧
      c.mcr = e.count.1.toInt * mcrSharedEvent := ⟨_, hreserved, rfl⟩
  have hundone : Undone org c m₁ g₁ := .inr ⟨hreserved, hprice⟩
  refine ends_deferRefund (c := c) (step_query trivial fun (r : Except Problem Unit) _ ↦ ?_)
  rcases r with problem | -
  · exact step_checked nofun fun _ _ ↦ hundone
  refine step_checked (fun _ _ ↦ ?_) nofun
  refine ends_resolveCharge (hreserved.caused _) ?_
    fun m₂ g₂ hsettled ↦ keeps_pure.2 (Or.inl hsettled)
  show g₁.price + e.count.1.toInt * mcrSharedEvent = c.mcr - 0
  rw [hprice, hmcr, zero_add, sub_zero]

/-- The charge of a punch. -/
theorem punchCharge_eq (p : PunchJob reg) (plan : PunchPlan) :
    punchCharge p plan = p.count.1.toInt * 200 + plan.newRewards * 2000 := rfl

theorem count_pos (p : PunchJob reg) : 0 < p.count.1.toInt := Int64.lt_iff_toInt_lt.1 p.count.2.1

theorem ends_storePunch {c : Charge} {p : PunchJob reg} {plan : PunchPlan}
    (hmcr : c.mcr = punchCharge p plan) (hused : Used org c m g)
    (hprice : g.price = plan.newRewards * mcrIssuePerCode) (issued : List IssuedCode) :
    Ends org (Used org c) (storePunch p plan issued) m g := by
  refine step_query trivial fun (r : Except Problem Unit) _ ↦ ?_
  rcases r with problem | -
  · exact step_checked nofun fun _ _ ↦ hused
  refine step_checked (fun _ _ ↦ ?_) nofun
  have hsum : g.price + p.count.1.toInt * mcrPunch = punchCharge p plan := by
    rw [hprice, punchCharge, add_comm]
  have hpos := count_pos p
  refine step_setUsed (keeps_pure.2 ⟨(hused.reserved.setUsed _).caused _, hsum.symm, ?_, ?_⟩)
  · show 0 ≤ g.price + p.count.1.toInt * mcrPunch
    rw [hsum, punchCharge_eq]
    omega
  · show g.price + p.count.1.toInt * mcrPunch ≤ c.mcr
    rw [hsum, hmcr]

theorem ends_issueRewards {c : Charge} {p : PunchJob reg} {plan : PunchPlan}
    (hmcr : c.mcr = punchCharge p plan) (hused : Used org c m g) (hprice : g.price = 0)
    {signer : Address} {α : Type} {f : List IssuedCode → Work reg α}
    (hf : ∀ issued m' g', Used org c m' g' → g'.price = plan.newRewards * mcrIssuePerCode →
      Ends org (Used org c) (f issued) m' g') :
    Ends org (Used org c) (issueRewards p plan signer >>= f) m g := by
  have hpos := count_pos p
  refine keeps_bind.2 (keeps_bind.2 ?_)
  refine (keeps_genCodes (fun _ ↦ ⟨trivial, fun _ ↦ rfl⟩) (fun _ ↦ hused) "RW" plan.newRewards).mono
    ?_ fun _ _ _ h ↦ h
  rintro codes _ _ ⟨rfl, rfl, hlength, -⟩
  have hrewards : (codes.length : ℤ) * mcrIssuePerCode ≤ c.mcr := by
    rw [hmcr, hlength, punchCharge_eq, mcrIssuePerCode]
    omega
  have hcall : ∀ chainID, (Call.issueUnique signer chainID (codes.map utf8)).price =
      codes.length * mcrIssuePerCode := fun _ ↦ by rw [Call.price, List.length_map]
  refine ends_callClient hused.reserved (by rwa [hprice, hcall, zero_add]) hused
    fun v g₂ hreserved₂ hprice₂ ↦ ?_
  rw [hprice, hcall, zero_add] at hprice₂
  have hissued := used_of_call hreserved₂ hprice₂ (by rw [mcrIssuePerCode]; omega) hrewards
  refine step_setUsed (step_problemWhen (fun _ ↦ keeps_pure.2 ?_) fun _ ↦ hissued)
  exact hf _ _ _ hissued (hprice₂.trans (by rw [hlength]))

theorem ends_punch (h : Idle m g) (id : ℕ) (body : PunchBody) :
    Ends org Settled (handlePunch ⟨org, .live⟩ id body : Work reg Response) m g := by
  refine step_silent ⟨trivial, fun _ ↦ rfl⟩ fun job _ ↦ step_checked ?_ fun _ _ ↦ h.settled
  rintro ⟨p, name⟩ -
  refine step_silent ⟨trivial, fun _ ↦ rfl⟩ fun _ _ ↦ keeps_deferring.2 ?_
  refine Keeps.mono (?_ : Ends org Settled _ m g) (fun _ _ _ hP ↦ ⟨trivial, fun _ _ ↦ hP⟩)
    fun _ _ _ hP ↦ ⟨trivial, fun _ _ ↦ hP⟩
  refine step_silent ⟨trivial, fun _ ↦ rfl⟩ fun _ _ ↦
    step_checked (fun _ _ ↦ ?_) fun _ _ ↦ h.settled
  refine step_silent ⟨trivial, fun _ ↦ rfl⟩ fun _ _ ↦
    step_checked (fun _ _ ↦ ?_) fun _ _ ↦ h.settled
  refine step_silent ⟨trivial, fun _ ↦ rfl⟩ fun _ _ ↦
    step_checked (fun before _ ↦ ?_) fun _ _ ↦ h.settled
  refine step_silent ⟨trivial, fun _ ↦ rfl⟩ fun _ _ ↦
    step_checked (fun plan _ ↦ ?_) fun _ _ ↦ h.settled
  have hpos : 0 < punchCharge p plan := by
    have hcount := count_pos p
    rw [punchCharge_eq]
    omega
  refine ends_reserveCharge h.settled h.price ⟨rfl, hpos, show "punch" ∈ operations by decide⟩
    (fun _ _ h ↦ h) fun m₁ g₁ hreserved hprice hused ↦ ?_
  obtain ⟨c, hreserved, hmcr⟩ : ∃ c, Booked org c m₁ g₁ ∧ c.mcr = punchCharge p plan :=
    ⟨_, hreserved, rfl⟩
  have hnothing : Used org c m₁ g₁ := ⟨hreserved, hused.trans (h.used.trans hprice.symm), hprice.ge,
    hprice.trans_le (hmcr ▸ hpos.le)⟩
  refine ends_deferCommitUsed (c := c) ?_
  split
  · rename_i hnone
    refine ends_storePunch hmcr hnothing ?_ []
    rw [hprice, hnone, Nat.cast_zero, zero_mul]
  · refine ends_withClient hnothing fun signer ↦ ends_issueRewards hmcr hnothing hprice ?_
    exact fun issued _ _ hissued hprice₂ ↦ ends_storePunch hmcr hissued hprice₂ issued

/-! ### Tallies -/

theorem ends_commitTally (h : Idle m g) (campaignID : ℕ) (pathCode : String) (period : UInt64) :
    Ends org Settled
      (handleCommitTally cl ⟨org, .live⟩ campaignID pathCode period : Work reg Response) m g := by
  refine step_silent ⟨trivial, fun _ ↦ rfl⟩ fun _ _ ↦
    step_checked (fun sc _ ↦ ?_) fun _ _ ↦ h.settled
  refine step_commitPeriod ⟨trivial, fun _ ↦ rfl⟩ (fun period ↦ ?_) fun _ ↦ h.settled
  refine step_problemWhen (fun _ ↦ ?_) fun _ ↦ h.settled
  refine step_silent ⟨trivial, fun _ ↦ rfl⟩ fun _ _ ↦
    step_checked (fun unsigned _ ↦ ?_) fun _ _ ↦ h.settled
  refine step_problemWhen (fun _ ↦ ends_withClient h.settled fun signer ↦ ?_) fun _ ↦ h.settled
  refine step_silent ⟨trivial, fun _ ↦ rfl⟩ fun _ _ ↦
    step_checked (fun b _ ↦ ?_) fun _ _ ↦ h.settled
  refine ends_reserveCharge h.settled h.price ⟨rfl, show (0 : ℤ) < 15000 by decide,
    show "commit_tally" ∈ operations by decide⟩ (fun _ _ h ↦ h)
    fun m₁ g₁ hreserved hprice hused ↦ ?_
  have hundone : Undone org _ m₁ g₁ := .inr ⟨hreserved, hprice⟩
  have hcover : g₁.price + mcrCommitTally ≤ mcrCommitTally := by rw [hprice, zero_add]
  refine ends_deferRefund (ends_callClient hreserved hcover hundone
    fun v g₂ hreserved₂ hprice₂ ↦ ?_)
  replace hprice₂ : g₂.price = mcrCommitTally := by
    rw [hprice₂, hprice, zero_add]
    rfl
  refine ends_resolveCharge hreserved₂ (hprice₂.trans (sub_zero _).symm) fun m₃ g₃ hsettled ↦ ?_
  refine step_silent ⟨trivial, fun _ ↦ rfl⟩ fun _ _ ↦ ?_
  exact step_checked (fun _ _ ↦ keeps_pure.2 (Or.inl hsettled)) fun _ _ ↦ .inl hsettled

theorem ends_simulated {P : Meter → Bill → Prop} (h : P m g) {β : Type} {call : Call}
    {f : Value → Work reg β} {Q : β → Meter → Bill → Prop}
    (hf : ∀ v, (f v).Keeps (billing reg org) m g Q fun _ ↦ P) :
    (simulated call >>= f).Keeps (billing reg org) m g Q fun _ ↦ P :=
  step_simulated trivial (fun v _ ↦ hf v) fun _ _ ↦ h

theorem ends_settle (h : Idle m g) (body : SettleBody) :
    Ends org Settled (handleSettle cl ⟨org, .live⟩ body : Work reg Response) m g := by
  refine step_silent ⟨trivial, fun _ ↦ rfl⟩ fun _ _ ↦
    step_checked (fun sc _ ↦ ?_) fun _ _ ↦ h.settled
  refine ends_reserveCharge h.settled h.price ⟨rfl, show (0 : ℤ) < 25000 by decide,
    show "settle" ∈ operations by decide⟩ (fun _ _ h ↦ h) fun m₁ g₁ hreserved hprice hused ↦ ?_
  have hundone : Undone org _ m₁ g₁ := .inr ⟨hreserved, hprice⟩
  refine ends_deferRefund (ends_withClient hundone fun signer ↦ ?_)
  refine ends_simulated hundone fun shared ↦ step_orStop (fun token _ ↦ ?_) hundone
  refine step_checkUnsettled ⟨trivial, fun _ ↦ rfl⟩ ⟨trivial, fun _ ↦ rfl⟩ ?_ fun _ ↦ hundone
  refine ends_simulated hundone fun preview ↦ ?_
  refine step_approvePayouts ⟨trivial, fun _ ↦ rfl⟩ (fun _ ↦ ⟨trivial, fun _ ↦ rfl⟩) ?_
    fun _ ↦ hundone
  have hcover : g₁.price + mcrSettle ≤ mcrSettle := by rw [hprice, zero_add]
  refine step_query (fun _ ↦ ⟨_, hreserved.taken, hcover⟩) fun r _ ↦ ?_
  split
  · exact step_silent ⟨trivial, fun _ ↦ rfl⟩ fun _ _ ↦ keeps_stop.2 hundone
  · exact keeps_stop.2 hundone
  · refine ends_resolveCharge (hreserved.caused _) ?_
      fun m₃ g₃ hsettled ↦ ?_
    · show g₁.price + mcrSettle = mcrSettle - 0
      rw [hprice, zero_add, sub_zero]
    exact step_silent ⟨trivial, fun _ ↦ rfl⟩ fun _ _ ↦ keeps_pure.2 (Or.inl hsettled)

end Handlers

/-! ### Requests -/

/-- A metered request. -/
inductive MeteredRequest where
  | createCampaign (body : CampaignBody)
  | createProgram (body : ProgramBody)
  | registerShared (campaignID : ℕ) (body : SharedTerms)
  | issueCodes (campaignID : ℕ) (body : IssueBody)
  | redeem (body : RedeemBody)
  | recordEvents (campaignID : ℕ) (pathCode : String) (body : EventBody)
  | punch (programID : ℕ) (body : PunchBody)
  | commitTally (campaignID : ℕ) (pathCode : String) (period : UInt64)
  | settle (body : SettleBody)

/-- The handler of a request. -/
def MeteredRequest.handle (reg : Registry d) (cl : Platform) (a : AuthCtx) :
    MeteredRequest → Work reg Response
  | createCampaign body => handleCreateCampaign cl a body
  | createProgram body => handleCreateProgram a body
  | registerShared campaignID body => handleRegisterShared cl a campaignID body
  | issueCodes campaignID body => handleIssueCodes cl a campaignID body
  | redeem body => handleRedeem cl a body
  | recordEvents campaignID pathCode body => handleRecordEvents cl a campaignID pathCode body
  | punch programID body => handlePunch a programID body
  | commitTally campaignID pathCode period => handleCommitTally cl a campaignID pathCode period
  | settle body => handleSettle cl a body

/-- **A metered request pays for what it causes**, wherever it is left. -/
theorem ends_handle (cl : Platform) {org : ℕ} {m : Meter} {g : Bill} (h : Idle m g)
    (request : MeteredRequest) :
    Ends org Settled (request.handle reg cl ⟨org, .live⟩) m g := by
  cases request with
  | createCampaign body => exact ends_createCampaign h body
  | createProgram body => exact ends_createProgram h body
  | registerShared campaignID body => exact ends_registerShared h campaignID body
  | issueCodes campaignID body => exact ends_issueRequest h campaignID body
  | redeem body => exact ends_redeem h body
  | recordEvents campaignID pathCode body => exact ends_recordEvents h campaignID pathCode body
  | punch programID body => exact ends_punch h programID body
  | commitTally campaignID pathCode period => exact ends_commitTally h campaignID pathCode period
  | settle body => exact ends_settle h body

end Soroticket
