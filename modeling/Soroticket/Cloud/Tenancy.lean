import Soroticket.Cloud.Billing
import Soroticket.Cloud.Mirrored

/-!
# Requests stay with their account

A request comes with the account it was authenticated for, and everything it does is for this
account (`tenancy`): it is charged, it takes the client and the mutexes of the account, it asks the
contract about campaigns of the account or about one it has created itself, and it writes rows of
campaigns of the account alone. Ids in the path and the body of a request are looked up together
with the account, so an id of somebody else is an id of nothing.
-/

namespace Soroticket

open Programs Handler

variable {d : Deployment} {reg : Registry d}

/-! ### The law -/

/-- A row of `campaigns` of an account. -/
def HasCampaign (reg : Registry d) (a : AuthCtx) (id : ℕ) : Prop :=
  ∃ c ∈ reg.campaigns, c.id = id ∧ c.account = a

/-- A campaign of an account, by its id on the chain. -/
def HasChain (reg : Registry d) (a : AuthCtx) (chainID : UInt64) : Prop :=
  ∃ c ∈ reg.campaigns, c.chainID = chainID ∧ c.account = a ∧
    c.contractID = d.currentContractID

/-- A row of `shared_codes` of an account. -/
def HasCode (reg : Registry d) (a : AuthCtx) (sharedID : ℕ) : Prop :=
  ∃ sc : CurrentCode reg, sc.row.id = sharedID ∧ sc.campaign.account = a

/-- What a request of an account asks is for this account. The record is the campaigns it has
created on the chain; what it finds is what the tables hold. -/
def tenancy (reg : Registry d) (a : AuthCtx) : Law (@Ask.Reply d reg) (List UInt64) where
  may created
    | .reserveCharge c => c.account = a
    | .resolve c _ => c.account = a
    | .clientFor b | .release b | .lockProgram b _ | .unlockProgram b _ => b = a
    | .campaignByID b _ | .sharedByCampaignCode b _ _ => b = a
    | .recordEvents b _ _ _ | .punch b _ _ => b = a
    | .call c | .simulate c =>
      ∀ chainID, c.campaign? = some chainID → chainID ∈ created ∨ HasChain reg a chainID
    | .insertCampaign row => row.account = a ∧ row.chainID ∈ created
    | .insertProgram campaign _ _ => campaign.account = a ∧ campaign.chainID ∈ created
    | .insertShared id _ | .insertCode id _ | .addMinted id _ | .redeemCode id _ | .addBurned id =>
      HasCampaign reg a id
    | .storeEvent b e => b = a ∧ HasCode reg a e.sharedCodeID
    | .migrateCustomer p | .checkEventRef p | .loyaltyBalance p | .planPunch p _
    | .storePunch p _ _ => p.sc.campaign.account = a
    | .nextCommitPeriod sc | .unsignedReceipts sc | .gatherBatch sc => sc.campaign.account = a
    | .storeTally row _ => HasCode reg a row.sharedCodeID
    | .settleTally id _ _ _ | .reconcile id _ => HasCode reg a id
    | _ => True
  possible _ e r :=
    match e, r with
    | .campaignByID b id, some c => c.row ∈ reg.campaigns ∧ c.row.id = id ∧ c.row.account = b
    | .sharedByCampaignCode b id code, .ok sc => reg.sharedByCampaignCode b id code = .ok sc
    | .recordEvents b id code body, .ok e => ∃ env, recordEvents reg env b id code body = .ok e
    | .punch b id body, .ok (p, _) => ∃ env, punchRequest reg env b id body = .ok p
    | .insertCampaign row, some id => ∃ c ∈ reg.campaigns, c.id = id ∧ c.account = row.account
    | _, _ => True
  next created e r :=
    match e, r with
    | .call (.createCampaign ..), .ok (v, _) => v.id :: created
    | _, _ => created

/-- A code whose event is recorded is one of the account. -/
theorem hasCode_of_recordEvents {env : Surroundings} {a : AuthCtx} {id : ℕ} {code : Bytes}
    {body : EventBody} {e : NewEvent} (h : recordEvents reg env a id code body = .ok e) :
    HasCode reg a e.sharedCodeID := by
  obtain ⟨sc, hsc, hid, -⟩ := recordEvents_eq_ok h
  exact ⟨sc, hid.symm, (sharedByCampaignCode_eq_ok hsc).1⟩

/-- So is one that is punched. -/
theorem account_of_punchRequest (hprograms : reg.ProgramsOwn) {env : Surroundings} {a : AuthCtx}
    {id : ℕ} {body : PunchBody} {p : PunchJob reg} (h : punchRequest reg env a id body = .ok p) :
    p.sc.campaign.account = a := by
  have hprogram := programByID_of_punchRequest h
  obtain ⟨hmem, -, haccount⟩ := programByID_eq_ok hprogram
  rw [← haccount]
  exact hprograms _ hmem _ p.sc.campaign_mem (campaignID_of_programByID hprogram)

/-- The charge that is open, if any, is of the account. -/
def Mine (a : AuthCtx) (m : Meter) : Prop := ∀ c, m.active = some c → c.account = a

section Handlers

variable {cl : Platform} {a : AuthCtx} {m : Meter} {created : List UInt64} {α β : Type}

/-- A handler that keeps to its account, however it ends. -/
abbrev Stays (a : AuthCtx) (h : Work reg α) (m : Meter) (created : List UInt64) : Prop :=
  h.Keeps (tenancy reg a) m created (fun _ m _ ↦ Mine a m) fun _ m _ ↦ Mine a m

theorem CurrentCode.hasChain (sc : CurrentCode reg) (h : sc.campaign.account = a) :
    HasChain reg a sc.campaign.chainID := ⟨sc.campaign, sc.campaign_mem, rfl, h, sc.current⟩

/-- A call about a campaign of the account. -/
theorem may_of_hasChain {c : Call} {chainID : UInt64} (hc : c.campaign? = some chainID)
    (h : chainID ∈ created ∨ HasChain reg a chainID) :
    ∀ chainID, c.campaign? = some chainID → chainID ∈ created ∨ HasChain reg a chainID := by
  intro chainID' hc'
  obtain rfl := Option.some.inj (hc.symm.trans hc')
  exact h

/-- A call about none. -/
theorem may_of_none {c : Call} (hc : c.campaign? = none) :
    ∀ chainID, c.campaign? = some chainID → chainID ∈ created ∨ HasChain reg a chainID :=
  fun chainID hc' ↦ absurd (hc'.symm.trans hc) (Option.some_ne_none chainID)

theorem Mine.resolved (m : Meter) : Mine a m.resolved :=
  fun c hc ↦ absurd hc.symm (Option.some_ne_none c)

/-- Resolving it is for the account. -/
theorem Mine.closes {P : List UInt64 → Prop} (hm : Mine a m) (how : Resolve) (hP : P created) :
    Closes (tenancy reg a) (m.resolving how) created P := by
  rw [Meter.resolving]
  rcases hactive : m.active with - | c
  · exact hP
  · exact ⟨hm c hactive, fun _ _ ↦ hP⟩

theorem stays_reserveCharge {c : Charge} {f : Unit → Work reg β} (hm : Mine a m)
    (hc : c.account = a) (hf : ∀ m, Mine a m → Stays a (f ()) m created) :
    Stays a (reserveCharge c >>= f) m created := by
  refine step_reserveCharge hc (fun _ ↦ hf _ fun c' hc' ↦ ?_) fun _ _ ↦ hm
  have hreserved : c.reservation = some c' := hc'
  rw [Charge.reservation] at hreserved
  split at hreserved
  · obtain rfl := Option.some.inj hreserved
    exact hc
  · exact absurd hreserved.symm (Option.some_ne_none c')

theorem stays_resolveCharge {how : Resolve} {f : Unit → Work reg β} (hm : Mine a m)
    (hf : ∀ m, Mine a m → Stays a (f ()) m created) :
    Stays a (resolveCharge how >>= f) m created := by
  exact step_resolveCharge (hm.closes how (hf m.resolved (Mine.resolved m)))

theorem stays_deferRefund {h : Work reg β} (hh : Stays a h m created) :
    Stays a (deferRefund h) m created :=
  keeps_deferRefund (hh.mono (fun _ m _ hm ↦ hm.closes _ (Mine.resolved m))
    fun _ m _ hm ↦ hm.closes _ (Mine.resolved m))

theorem stays_deferCommitUsed {h : Work reg β} (hh : Stays a h m created) :
    Stays a (deferCommitUsed h) m created :=
  keeps_deferCommitUsed (hh.mono (fun _ m _ hm ↦ hm.closes _ (Mine.resolved m))
    fun _ m _ hm ↦ hm.closes _ (Mine.resolved m))

theorem stays_withClient {h : Address → Work reg β} (hm : Mine a m)
    (hh : ∀ signer, Stays a (h signer) m created) : Stays a (withClient a h) m created := by
  refine keeps_withClient rfl (fun signer _ ↦ ?_) fun _ _ ↦ hm
  exact (hh signer).mono (fun _ _ _ hm ↦ ⟨rfl, fun _ _ ↦ hm⟩) fun _ _ _ hm ↦ ⟨rfl, fun _ _ ↦ hm⟩

/-- A campaign that may be written to is one of the account. -/
theorem stays_writableCampaign {id : ℕ} {f : CampaignView → Work reg β} (hm : Mine a m)
    (hf : ∀ c, HasCampaign reg a id → HasChain reg a c.row.chainID → Stays a (f c) m created) :
    Stays a (writableCampaign a id >>= f) m created := by
  refine step_writableCampaign ⟨rfl, fun _ ↦ rfl⟩ (fun c hc hcurrent ↦ ?_) fun _ ↦ hm
  obtain ⟨hmem, hid, haccount⟩ := hc
  exact hf c ⟨c.row, hmem, hid, haccount⟩ ⟨c.row, hmem, rfl, haccount, hcurrent⟩

theorem stays_registerSharedCode {signer : Address} {chainID : UInt64} {j : SharedJob}
    {f : Bytes → Work reg β} (hm : Mine a m)
    (hchain : chainID ∈ created ∨ HasChain reg a chainID)
    (hf : ∀ txHash, Stays a (f txHash) m created) :
    Stays a (registerSharedCode signer chainID j >>= f) m created := by
  refine keeps_bind.2 ?_
  rw [registerSharedCode]
  split
  · exact keeps_stop.2 hm
  · exact step_callClient (may_of_hasChain rfl hchain) (fun v _ ↦ keeps_pure.2 (hf v.2))
      fun _ _ ↦ hm

theorem stays_createCampaign (hm : Mine a m) (body : CampaignBody) :
    Stays a (handleCreateCampaign cl a body : Work reg Response) m created := by
  unfold handleCreateCampaign
  refine step_silent ⟨trivial, fun _ ↦ rfl⟩ fun first _ ↦ ?_
  refine step_silent ⟨trivial, fun _ ↦ rfl⟩ fun second _ ↦ ?_
  refine step_checked (fun job _ ↦ ?_) fun _ _ ↦ hm
  refine stays_reserveCharge hm rfl fun m hm ↦ stays_deferCommitUsed ?_
  refine stays_withClient hm fun signer ↦ ?_
  refine step_callClient (may_of_none rfl) (fun v _ ↦ step_setUsed ?_) fun _ _ ↦ hm
  have hcreated : v.1.id ∈ v.1.id :: created := List.mem_cons_self
  refine step_query ⟨rfl, hcreated⟩ fun r hr ↦ step_orStop (fun id hid ↦ ?_) hm
  obtain rfl : r = some id := hid
  rcases job.shared with - | shared
  · exact keeps_pure.2 hm
  · refine stays_registerSharedCode hm (Or.inl hcreated) fun txHash ↦ step_setUsed ?_
    refine step_query hr fun (stored : Bool) _ ↦ ?_
    exact step_problemWhen (fun _ ↦ keeps_pure.2 hm) fun _ ↦ hm

theorem stays_createProgram (hm : Mine a m) (body : ProgramBody) :
    Stays a (handleCreateProgram a body : Work reg Response) m created := by
  refine step_checked (fun job _ ↦ ?_) fun _ _ ↦ hm
  refine stays_reserveCharge hm rfl fun m hm ↦ stays_deferCommitUsed ?_
  refine stays_withClient hm fun signer ↦ step_silent ⟨trivial, fun _ ↦ rfl⟩ fun clock _ ↦ ?_
  refine step_callClient (may_of_none rfl) (fun v _ ↦ step_setUsed ?_) fun _ _ ↦ hm
  have hcreated : v.1.id ∈ v.1.id :: created := List.mem_cons_self
  refine stays_registerSharedCode hm (Or.inl hcreated) fun txHash ↦ step_setUsed ?_
  refine step_query ⟨rfl, hcreated⟩ fun r _ ↦ step_orStop (fun _ _ ↦ ?_) hm
  exact keeps_pure.2 hm

theorem stays_registerShared (hm : Mine a m) (id : ℕ) (body : SharedTerms) :
    Stays a (handleRegisterShared cl a id body : Work reg Response) m created := by
  unfold handleRegisterShared
  refine stays_writableCampaign hm fun c hcampaign hchain ↦ ?_
  refine step_checked (fun job _ ↦ ?_) fun _ _ ↦ hm
  refine stays_reserveCharge hm rfl fun m hm ↦ stays_deferRefund ?_
  refine stays_withClient hm fun signer ↦ ?_
  refine stays_registerSharedCode hm (Or.inr hchain) fun txHash ↦ ?_
  refine stays_resolveCharge hm fun m hm ↦ ?_
  refine step_query hcampaign fun (stored : Bool) _ ↦ ?_
  exact step_problemWhen (fun _ ↦ keeps_pure.2 hm) fun _ ↦ hm

/-- One batch after the other. -/
theorem stays_issueCodes {signer : Address} {chainID : UInt64} {campaignID : ℕ}
    {batches : List (List String)} {f : List IssuedCode → Work reg β} (hm : Mine a m)
    (hcampaign : HasCampaign reg a campaignID) (hchain : HasChain reg a chainID)
    (hf : ∀ issued, Stays a (f issued) m created) (issued : List IssuedCode) :
    Stays a (issueCodes signer chainID campaignID batches issued >>= f) m created := by
  refine keeps_bind.2 ?_
  induction batches generalizing issued with
  | nil => exact keeps_pure.2 (hf issued)
  | cons batch batches ih =>
    refine step_query (may_of_hasChain rfl (Or.inr hchain)) fun r _ ↦ ?_
    split
    · split
      · exact step_resolveCharge (hm.closes _ (keeps_stop.2 (Mine.resolved m)))
      · exact keeps_stop.2 hm
    · exact step_insertCodes (fun _ ↦ ⟨hcampaign, fun _ ↦ rfl⟩) (ih _) _

theorem stays_issue (hm : Mine a m) (id : ℕ) (body : IssueBody) :
    Stays a (handleIssueCodes cl a id body : Work reg Response) m created := by
  unfold handleIssueCodes
  refine stays_writableCampaign hm fun c hcampaign hchain ↦ ?_
  refine step_requestedCodes (fun _ ↦ ⟨trivial, fun _ ↦ rfl⟩) (fun codes _ ↦ ?_) fun _ ↦ hm
  refine step_checked (fun _ _ ↦ ?_) fun _ _ ↦ hm
  refine stays_reserveCharge hm rfl fun m hm ↦ stays_deferRefund ?_
  refine stays_withClient hm fun signer ↦ ?_
  refine stays_issueCodes hm hcampaign hchain (fun issued ↦ ?_) []
  refine step_query hcampaign fun _ _ ↦ ?_
  exact stays_resolveCharge hm fun m hm ↦ keeps_pure.2 hm

theorem stays_redeem (hm : Mine a m) (body : RedeemBody) :
    Stays a (handleRedeem cl a body : Work reg Response) m created := by
  unfold handleRedeem
  refine step_problemWhen (fun _ ↦ ?_) fun _ ↦ hm
  refine stays_writableCampaign hm fun c hcampaign hchain ↦ ?_
  refine step_silent ⟨trivial, fun _ ↦ rfl⟩ fun nonce _ ↦ step_orStop (fun nonce _ ↦ ?_) hm
  refine step_redeemerHash ⟨trivial, fun _ ↦ rfl⟩ (fun refHash ↦ ?_) fun _ ↦ hm
  refine stays_reserveCharge hm rfl fun m hm ↦ stays_deferRefund ?_
  refine stays_withClient hm fun signer ↦ ?_
  refine step_query (may_of_hasChain rfl (Or.inr hchain)) fun r _ ↦ ?_
  split
  · exact keeps_pure.2 hm
  · refine stays_resolveCharge hm fun m hm ↦ step_query hcampaign fun _ _ ↦ ?_
    exact step_query hcampaign fun _ _ ↦ keeps_pure.2 hm

theorem stays_recordEvents (hm : Mine a m) (campaignID : ℕ) (pathCode : String)
    (body : EventBody) :
    Stays a (handleRecordEvents cl a campaignID pathCode body : Work reg Response) m created := by
  refine step_query rfl fun (job : Except Problem NewEvent) hjob ↦
    step_checked (fun e he ↦ ?_) fun _ _ ↦ hm
  obtain rfl : job = .ok e := he
  obtain ⟨env, hrecord⟩ := hjob
  refine stays_reserveCharge hm rfl fun m hm ↦ stays_deferRefund ?_
  refine step_silent ⟨⟨rfl, hasCode_of_recordEvents hrecord⟩, fun _ ↦ rfl⟩ fun r _ ↦
    step_checked (fun _ _ ↦ ?_) fun _ _ ↦ hm
  exact stays_resolveCharge hm fun m hm ↦ keeps_pure.2 hm

theorem stays_storePunch {p : PunchJob reg} {plan : PunchPlan} {issued : List IssuedCode}
    (hm : Mine a m) (hp : p.sc.campaign.account = a) :
    Stays a (storePunch p plan issued : Work reg Response) m created := by
  refine step_silent ⟨hp, fun _ ↦ rfl⟩ fun r _ ↦ step_checked (fun _ _ ↦ ?_) fun _ _ ↦ hm
  exact step_setUsed (keeps_pure.2 hm)

theorem stays_issueRewards {p : PunchJob reg} {plan : PunchPlan} {signer : Address}
    {f : List IssuedCode → Work reg β} (hm : Mine a m) (hp : p.sc.campaign.account = a)
    (hf : ∀ m issued, Mine a m → Stays a (f issued) m created) :
    Stays a (issueRewards p plan signer >>= f) m created := by
  refine keeps_bind.2 (keeps_bind.2 ?_)
  refine (keeps_genCodes (fun _ ↦ ⟨trivial, fun _ ↦ rfl⟩) (fun _ ↦ hm) "RW" plan.newRewards).mono
    ?_ fun _ _ _ h ↦ h
  rintro codes m' g' ⟨rfl, rfl, -, -⟩
  refine step_callClient (may_of_hasChain rfl (Or.inr (p.sc.hasChain hp)))
    (fun v _ ↦ step_setUsed ?_) fun _ _ ↦ hm
  exact step_problemWhen (fun _ ↦ keeps_pure.2 (hf _ _ hm)) fun _ ↦ hm

theorem stays_punch (hprograms : reg.ProgramsOwn) (hm : Mine a m) (id : ℕ) (body : PunchBody) :
    Stays a (handlePunch a id body : Work reg Response) m created := by
  refine step_query rfl fun job hjob ↦ step_checked ?_ fun _ _ ↦ hm
  rintro ⟨p, name⟩ rfl
  obtain ⟨env, hpunch⟩ := hjob
  have hp := account_of_punchRequest hprograms hpunch
  refine step_query rfl fun _ _ ↦ keeps_deferring.2 ?_
  refine Keeps.mono (?_ : Stays a _ m created) (fun _ _ _ hm ↦ ⟨rfl, fun _ _ ↦ hm⟩)
    fun _ _ _ hm ↦ ⟨rfl, fun _ _ ↦ hm⟩
  refine step_silent ⟨hp, fun _ ↦ rfl⟩ fun _ _ ↦ step_checked (fun _ _ ↦ ?_) fun _ _ ↦ hm
  refine step_silent ⟨hp, fun _ ↦ rfl⟩ fun _ _ ↦ step_checked (fun _ _ ↦ ?_) fun _ _ ↦ hm
  refine step_silent ⟨hp, fun _ ↦ rfl⟩ fun _ _ ↦ step_checked (fun before _ ↦ ?_) fun _ _ ↦ hm
  refine step_silent ⟨hp, fun _ ↦ rfl⟩ fun _ _ ↦ step_checked (fun plan _ ↦ ?_) fun _ _ ↦ hm
  refine stays_reserveCharge hm rfl fun m hm ↦ stays_deferCommitUsed ?_
  split
  · exact stays_storePunch hm hp
  · refine stays_withClient hm fun signer ↦ ?_
    exact stays_issueRewards hm hp fun m issued hm ↦ stays_storePunch hm hp

theorem stays_commitTally (hm : Mine a m) (campaignID : ℕ) (pathCode : String)
    (period : UInt64) :
    Stays a (handleCommitTally cl a campaignID pathCode period : Work reg Response) m created := by
  unfold handleCommitTally
  refine step_query rfl fun r hr ↦ step_checked (fun sc hsc ↦ ?_) fun _ _ ↦ hm
  obtain rfl : r = .ok sc := hsc
  have haccount := (sharedByCampaignCode_eq_ok hr).1
  refine step_commitPeriod ⟨haccount, fun _ ↦ rfl⟩ (fun period ↦ ?_) fun _ ↦ hm
  refine step_problemWhen (fun _ ↦ ?_) fun _ ↦ hm
  refine step_silent ⟨haccount, fun _ ↦ rfl⟩ fun r _ ↦ step_checked (fun _ _ ↦ ?_) fun _ _ ↦ hm
  refine step_problemWhen (fun _ ↦ stays_withClient hm fun signer ↦ ?_) fun _ ↦ hm
  refine step_silent ⟨haccount, fun _ ↦ rfl⟩ fun r _ ↦ step_checked (fun b _ ↦ ?_) fun _ _ ↦ hm
  refine stays_reserveCharge hm rfl fun m hm ↦ stays_deferRefund ?_
  refine step_callClient (may_of_hasChain rfl (Or.inr (sc.hasChain haccount))) (fun v _ ↦ ?_)
    fun _ _ ↦ hm
  refine stays_resolveCharge hm fun m hm ↦ ?_
  refine step_silent ⟨⟨sc, rfl, haccount⟩, fun _ ↦ rfl⟩ fun r _ ↦ ?_
  exact step_checked (fun _ _ ↦ keeps_pure.2 hm) fun _ _ ↦ hm

theorem stays_settle (hm : Mine a m) (body : SettleBody) :
    Stays a (handleSettle cl a body : Work reg Response) m created := by
  unfold handleSettle
  refine step_query rfl fun r hr ↦ step_checked (fun sc hsc ↦ ?_) fun _ _ ↦ hm
  obtain rfl : r = .ok sc := hsc
  have haccount := (sharedByCampaignCode_eq_ok hr).1
  have hchain : sc.campaign.chainID ∈ created ∨ HasChain reg a sc.campaign.chainID :=
    Or.inr (sc.hasChain haccount)
  refine stays_reserveCharge hm rfl fun m hm ↦ stays_deferRefund ?_
  refine stays_withClient hm fun signer ↦ ?_
  refine step_simulated (may_of_hasChain rfl hchain) (fun shared _ ↦ ?_) fun _ _ ↦ hm
  refine step_orStop (fun token _ ↦ ?_) hm
  refine step_checkUnsettled ⟨may_of_hasChain rfl hchain, fun _ ↦ rfl⟩
    ⟨⟨sc, rfl, haccount⟩, fun _ ↦ rfl⟩ ?_ fun _ ↦ hm
  refine step_simulated (may_of_hasChain rfl hchain) (fun preview _ ↦ ?_) fun _ _ ↦ hm
  refine step_approvePayouts ⟨trivial, fun _ ↦ rfl⟩ (fun _ ↦ ⟨trivial, fun _ ↦ rfl⟩) ?_ fun _ ↦ hm
  refine step_query (may_of_hasChain rfl hchain) fun r _ ↦ ?_
  split
  · exact step_query ⟨sc, rfl, haccount⟩ fun _ _ ↦ keeps_stop.2 hm
  · exact keeps_stop.2 hm
  · refine stays_resolveCharge hm fun m hm ↦ ?_
    exact step_query ⟨sc, rfl, haccount⟩ fun _ _ ↦ keeps_pure.2 hm

/-- Every handler keeps to its account. -/
theorem stays_handle (hprograms : reg.ProgramsOwn) (cl : Platform) (a : AuthCtx)
    (request : MeteredRequest) : Stays a (request.handle reg cl a) ⟨none, 0⟩ [] := by
  have hm : Mine a ⟨none, 0⟩ := fun c hc ↦ absurd hc.symm (Option.some_ne_none c)
  cases request with
  | createCampaign body => exact stays_createCampaign hm body
  | createProgram body => exact stays_createProgram hm body
  | registerShared campaignID body => exact stays_registerShared hm campaignID body
  | issueCodes campaignID body => exact stays_issue hm campaignID body
  | redeem body => exact stays_redeem hm body
  | recordEvents campaignID pathCode body => exact stays_recordEvents hm campaignID pathCode body
  | punch programID body => exact stays_punch hprograms hm programID body
  | commitTally campaignID pathCode period => exact stays_commitTally hm campaignID pathCode period
  | settle body => exact stays_settle hm body

end Handlers

/-- **A request never leaves its account**: whatever it finds, what it asks next is for the account
it was authenticated for. -/
theorem request_stays (reg : Registry d) (hprograms : reg.ProgramsOwn) (cl : Platform)
    (a : AuthCtx) (request : MeteredRequest) {t t' : List (Exchange (@Ask.Reply d reg))}
    {x : Exchange (@Ask.Reply d reg)}
    {p : Prog (@Ask.Reply d reg) (Except Response Response × Meter)}
    (hrun : Reaches (request.handle reg cl a ⟨none, 0⟩) (t ++ x :: t') p)
    (hallows : (tenancy reg a).Allows [] t) :
    (tenancy reg a).may ((tenancy reg a).after [] t) x.question :=
  (stays_handle hprograms cl a request).start.may hrun hallows

namespace Mirroring

/-- A punch of a customer. -/
def visit : PunchBody := ⟨"alice", "", none⟩

/-- The punch is checked and earns a reward, and the client is taken. -/
def earned (p : PunchJob cards) : List (Exchange (@Ask.Reply Acceptance.deployment cards)) :=
  [⟨.punch campaign.account 1 visit, .ok (p, "Coffee card")⟩,
    ⟨.lockProgram campaign.account p.program.id, ()⟩, ⟨.migrateCustomer p, .ok ()⟩,
    ⟨.checkEventRef p, .ok ()⟩, ⟨.loyaltyBalance p, .ok 1⟩,
    ⟨.planPunch p 1, .ok ⟨2, 1, ⟨[], .zero 32, [], []⟩⟩⟩,
    ⟨.reserveCharge ⟨campaign.account, "punch", "Coffee card",
      punchCharge p ⟨2, 1, ⟨[], .zero 32, [], []⟩⟩⟩, .ok ()⟩,
    ⟨.clientFor campaign.account, .ok owner⟩,
    ⟨.randInts generatedLen, some (letters generatedLen)⟩]

/-- The reward is issued. -/
def reward (p : PunchJob cards) : Exchange (@Ask.Reply Acceptance.deployment cards) :=
  ⟨.call (.issueUnique owner p.sc.campaign.chainID [utf8 (genCode "RW" (letters generatedLen))]),
    .ok (.ids [1], [])⟩

theorem exists_punch : ∃ p, punchRequest cards surroundings campaign.account 1 visit = .ok p := by
  have hok : (punchRequest cards surroundings campaign.account 1 visit).isOk = true := by
    decide +kernel
  rcases h : punchRequest cards surroundings campaign.account 1 visit with problem | p
  · rw [h] at hok
    exact absurd hok Bool.false_ne_true
  · exact ⟨p, rfl⟩

end Mirroring

/-- A reward is issued on the campaign of the card. -/
theorem request_stays_punch : ∃ p q,
    Reaches ((MeteredRequest.punch 1 Mirroring.visit).handle Mirroring.cards Acceptance.platform
      Mirroring.campaign.account ⟨none, 0⟩) (Mirroring.earned p ++ Mirroring.reward p :: []) q ∧
    (tenancy Mirroring.cards Mirroring.campaign.account).may [] (Mirroring.reward p).question := by
  obtain ⟨p, hp⟩ := Mirroring.exists_punch
  have hruns : ∃ q, Reaches ((MeteredRequest.punch 1 Mirroring.visit).handle Mirroring.cards
      Acceptance.platform Mirroring.campaign.account ⟨none, 0⟩)
      (Mirroring.earned p ++ Mirroring.reward p :: []) q :=
    ⟨_, .ask _ (.ask _ (.ask _ (.ask _ (.ask _ (.ask _ (.ask _ (.ask _ (.ask _ (.ask _
      (.refl _))))))))))⟩
  obtain ⟨q, hrun⟩ := hruns
  refine ⟨p, q, hrun, ?_⟩
  exact request_stays Mirroring.cards Mirroring.programsOwn_cards Acceptance.platform
    Mirroring.campaign.account (.punch 1 Mirroring.visit) hrun
    ⟨⟨Mirroring.surroundings, hp⟩, trivial, trivial, trivial, trivial, trivial, trivial, trivial,
      trivial, trivial⟩

end Soroticket
