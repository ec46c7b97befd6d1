import Soroticket.Cloud.Acceptance
import Soroticket.Cloud.Settling

/-!
# Registering shared codes

Three handlers register a shared code on the chain and put it into `shared_codes` afterwards. What
they insert is what the contract has taken from them (`enrolling`), under the campaign it was
registered for: the code, its target and its rate, which is zero where there is no target.

The other handlers of the money path insert no code, so they keep to the same law, which says of a
tally that its request has found the code before. And these three ask for nothing that the law of
settlements (`dealing`) restricts.
-/

namespace Soroticket

open Programs Handler Paging

variable {d : Deployment} {reg : Registry d}

/-! ### The law -/

/-- The terms of a shared code, as the contract is given them. -/
structure Terms where
  code : Bytes
  attributedTo : Option Address
  payoutToken : Option Address
  rate : I128

/-- A row with these terms. -/
structure NewShared.Has (row : NewShared) (terms : Terms) : Prop where
  code : terms.code = utf8 row.code
  attributedTo : terms.attributedTo = row.attributedTo
  rate : terms.rate.val = row.rate
  unattributed : row.attributedTo = none → row.rate = 0

/-- The record of a request: the campaign on the chain and the terms the contract has taken, and the
code that was found. -/
structure Enrollment (reg : Registry d) where
  registered : Option (UInt64 × Terms)
  found : Option (CurrentCode reg)

/-- Nothing was registered, and nothing found. -/
def Enrollment.start : Enrollment reg := ⟨none, none⟩

/-- A request inserts the code it has registered, under its campaign, and a tally of the code it has
found. -/
def enrolling (reg : Registry d) : Law (@Ask.Reply d reg) (Enrollment reg) where
  may g
    | .insertShared campaignID row => ∃ c ∈ reg.campaigns, c.id = campaignID ∧
      ∃ terms, g.registered = some (c.chainID, terms) ∧ row.Has terms
    | .insertProgram campaign _ row =>
      ∃ terms, g.registered = some (campaign.chainID, terms) ∧ row.Has terms
    | .storeTally row _ => ∃ sc, g.found = some sc ∧ sc.row.id = row.sharedCodeID
    | _ => True
  possible _ e r :=
    match e, r with
    | .campaignByID _ id, some c => c.row ∈ reg.campaigns ∧ c.row.id = id
    | .insertCampaign row, some id => ∃ c ∈ reg.campaigns, c.id = id ∧ c.chainID = row.chainID
    | _, _ => True
  next g e r :=
    match e, r with
    | .call (.registerShared _ c code attributedTo payoutToken rate), .ok _ =>
      { g with registered := some (c, ⟨code, attributedTo, payoutToken, rate⟩) }
    | .sharedByCampaignCode .., .ok sc => { g with found := some sc }
    | _, _ => g

/-- A job that was checked has its terms. -/
theorem SharedJob.Valid.has {j : SharedJob} (hj : j.Valid) {rate : I128} (hrate : rate.val = j.rate)
    (txHash : Bytes) : NewShared.Has ⟨j.code, j.attributedTo, j.payoutToken, j.rate, txHash⟩
      ⟨utf8 j.code, j.attributedTo, j.payoutToken, rate⟩ where
  code := rfl
  attributedTo := rfl
  rate := hrate
  unattributed hnone := by
    have hterms := hj.rate
    rcases htoken : j.payoutToken with - | token
    · rw [htoken] at hterms
      exact hterms
    · have hsome := hj.attributed (by rw [htoken]; rfl)
      rw [show j.attributedTo = none from hnone] at hsome
      exact absurd hsome Bool.false_ne_true

section Handlers

variable {cl : Platform} {a : AuthCtx} {m : Meter} {g : Enrollment reg} {α β : Type}

/-- A handler that keeps to the law of registrations, however it ends. -/
abbrev Enrols (h : Work reg α) (m : Meter) (g : Enrollment reg) : Prop :=
  h.Keeps (enrolling reg) m g (fun _ _ _ ↦ True) fun _ _ _ ↦ True

theorem silent_resolve_enrolling (g : Enrollment reg) (c : Charge) (how : Resolve) :
    (enrolling reg).Silent g (.resolve c how) := ⟨trivial, fun _ ↦ rfl⟩

theorem enrols_withClient {h : Address → Work reg β} (hh : ∀ signer, Enrols (h signer) m g) :
    Enrols (withClient a h) m g := by
  refine keeps_withClient trivial (fun signer _ ↦ ?_) fun _ _ ↦ trivial
  exact (hh signer).mono (fun _ _ _ _ ↦ ⟨trivial, fun _ _ ↦ trivial⟩)
    fun _ _ _ _ ↦ ⟨trivial, fun _ _ ↦ trivial⟩

theorem enrols_registerSharedCode {signer : Address} {chainID : UInt64} {j : SharedJob}
    (hj : j.Valid) {f : Bytes → Work reg β}
    (hf : ∀ txHash rate, NewShared.Has ⟨j.code, j.attributedTo, j.payoutToken, j.rate, txHash⟩
      ⟨utf8 j.code, j.attributedTo, j.payoutToken, rate⟩ →
        Enrols (f txHash) m { g with
          registered := some (chainID, ⟨utf8 j.code, j.attributedTo, j.payoutToken, rate⟩) }) :
    Enrols (registerSharedCode signer chainID j >>= f) m g := by
  refine keeps_bind.2 ?_
  rw [registerSharedCode]
  split
  · exact keeps_stop.2 trivial
  · rename_i rate hrate
    refine step_callClient trivial (fun v _ ↦ keeps_pure.2 ?_) fun _ _ ↦ trivial
    exact hf v.2 rate (hj.has (I128.ofInt?_eq_some_iff.1 hrate) v.2)

theorem enrols_createCampaign (body : CampaignBody) :
    Enrols (handleCreateCampaign cl a body : Work reg Response) m g := by
  unfold handleCreateCampaign
  refine step_silent ⟨trivial, fun _ ↦ rfl⟩ fun first _ ↦ ?_
  refine step_silent ⟨trivial, fun _ ↦ rfl⟩ fun second _ ↦ ?_
  refine step_checked (fun job hjob ↦ ?_) fun _ _ ↦ trivial
  refine step_reserveCharge_silent ⟨trivial, fun _ ↦ rfl⟩ (fun m ↦ ?_) fun _ ↦ trivial
  refine keeps_deferCommitUsed_silent silent_resolve_enrolling (enrols_withClient fun signer ↦ ?_)
  refine step_callClient trivial (fun v _ ↦ ?_) fun _ _ ↦ trivial
  refine step_setUsed (step_query trivial fun r hr ↦ step_orStop (fun id hid ↦ ?_) trivial)
  obtain rfl : r = some id := hid
  obtain ⟨c, hc, hcid, hchain⟩ := hr
  rcases hshared : job.shared with - | shared
  · exact keeps_pure.2 trivial
  · refine enrols_registerSharedCode ((campaignRequest_eq_ok hjob).shared shared hshared)
      fun txHash rate hhas ↦ step_setUsed (step_query ?_ fun (stored : Bool) _ ↦ ?_)
    · exact ⟨c, hc, hcid, _, by rw [hchain], hhas⟩
    · exact step_problemWhen (fun _ ↦ keeps_pure.2 trivial) fun _ ↦ trivial

theorem enrols_createProgram (body : ProgramBody) :
    Enrols (handleCreateProgram a body : Work reg Response) m g := by
  refine step_checked (fun job hjob ↦ ?_) fun _ _ ↦ trivial
  refine step_reserveCharge_silent ⟨trivial, fun _ ↦ rfl⟩ (fun m ↦ ?_) fun _ ↦ trivial
  refine keeps_deferCommitUsed_silent silent_resolve_enrolling (enrols_withClient fun signer ↦ ?_)
  refine step_silent ⟨trivial, fun _ ↦ rfl⟩ fun clock _ ↦ ?_
  refine step_callClient trivial (fun v _ ↦ step_setUsed ?_) fun _ _ ↦ trivial
  have hpunch : SharedJob.Valid ⟨earnCode, none, none, 0⟩ :=
    ⟨by decide, by decide, id, rfl, show (0 : ℤ) < 2 ^ 127 by decide⟩
  refine enrols_registerSharedCode hpunch fun txHash rate hhas ↦ ?_
  refine step_setUsed (step_query ⟨_, rfl, hhas⟩ fun r _ ↦ ?_)
  exact step_orStop (fun _ _ ↦ keeps_pure.2 trivial) trivial

theorem enrols_registerShared (id : ℕ) (body : SharedTerms) :
    Enrols (handleRegisterShared cl a id body : Work reg Response) m g := by
  unfold handleRegisterShared
  refine step_writableCampaign ⟨trivial, fun _ ↦ rfl⟩ (fun c hc _ ↦ ?_) fun _ ↦ trivial
  refine step_checked (fun job hjob ↦ ?_) fun _ _ ↦ trivial
  refine step_reserveCharge_silent ⟨trivial, fun _ ↦ rfl⟩ (fun m ↦ ?_) fun _ ↦ trivial
  refine keeps_deferRefund_silent silent_resolve_enrolling (enrols_withClient fun signer ↦ ?_)
  refine enrols_registerSharedCode (sharedRequest_eq_ok hjob) fun txHash rate hhas ↦ ?_
  refine step_resolveCharge_silent (silent_resolve_enrolling _ · _) fun m ↦ ?_
  refine step_query ⟨c.row, hc.1, hc.2, _, rfl, hhas⟩ fun (stored : Bool) _ ↦ ?_
  exact step_problemWhen (fun _ ↦ keeps_pure.2 trivial) fun _ ↦ trivial

theorem enrols_commitTally (campaignID : ℕ) (pathCode : String) (period : UInt64) :
    Enrols (handleCommitTally cl a campaignID pathCode period : Work reg Response) m g := by
  unfold handleCommitTally
  refine step_query trivial fun r _ ↦ step_checked (fun sc hsc ↦ ?_) fun _ _ ↦ trivial
  obtain rfl : r = .ok sc := hsc
  refine step_commitPeriod ⟨trivial, fun _ ↦ rfl⟩ (fun period ↦ ?_) fun _ ↦ trivial
  refine step_problemWhen (fun _ ↦ ?_) fun _ ↦ trivial
  refine step_silent ⟨trivial, fun _ ↦ rfl⟩ fun r _ ↦ step_checked (fun _ _ ↦ ?_) fun _ _ ↦ trivial
  refine step_problemWhen (fun _ ↦ enrols_withClient fun signer ↦ ?_) fun _ ↦ trivial
  refine step_silent ⟨trivial, fun _ ↦ rfl⟩ fun r _ ↦ step_checked (fun b _ ↦ ?_) fun _ _ ↦ trivial
  refine step_reserveCharge_silent ⟨trivial, fun _ ↦ rfl⟩ (fun m ↦ ?_) fun _ ↦ trivial
  refine keeps_deferRefund_silent silent_resolve_enrolling ?_
  refine step_callClient trivial (fun v _ ↦ ?_) fun _ _ ↦ trivial
  refine step_resolveCharge_silent (silent_resolve_enrolling _ · _) fun m ↦ ?_
  refine step_query ⟨sc, rfl, rfl⟩ fun r _ ↦ ?_
  exact step_checked (fun _ _ ↦ keeps_pure.2 trivial) fun _ _ ↦ trivial

theorem enrols_settle (body : SettleBody) :
    Enrols (handleSettle cl a body : Work reg Response) m g := by
  unfold handleSettle
  refine step_query trivial fun r _ ↦ step_checked (fun sc hsc ↦ ?_) fun _ _ ↦ trivial
  obtain rfl : r = .ok sc := hsc
  refine step_reserveCharge_silent ⟨trivial, fun _ ↦ rfl⟩ (fun m ↦ ?_) fun _ ↦ trivial
  refine keeps_deferRefund_silent silent_resolve_enrolling (enrols_withClient fun signer ↦ ?_)
  refine step_simulated trivial (fun shared _ ↦ ?_) fun _ _ ↦ trivial
  refine step_orStop (fun token _ ↦ ?_) trivial
  refine step_checkUnsettled ⟨trivial, fun _ ↦ rfl⟩ ⟨trivial, fun _ ↦ rfl⟩ ?_ fun _ ↦ trivial
  refine step_simulated trivial (fun preview _ ↦ ?_) fun _ _ ↦ trivial
  refine step_approvePayouts ⟨trivial, fun _ ↦ rfl⟩ (fun _ ↦ ⟨trivial, fun _ ↦ rfl⟩) ?_
    fun _ ↦ trivial
  refine step_query trivial fun r _ ↦ ?_
  split
  · exact step_query trivial fun _ _ ↦ keeps_stop.2 trivial
  · exact keeps_stop.2 trivial
  · refine step_resolveCharge_silent (silent_resolve_enrolling _ · _) fun m ↦ ?_
    exact step_query trivial fun _ _ ↦ keeps_pure.2 trivial

end Handlers

end Soroticket
