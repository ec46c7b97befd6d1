import Soroticket.Cloud.Billing
import Soroticket.Machine.Conversations
import Soroticket.Machine.Holders

/-!
# The mutexes of the handlers

A punch takes the mutex of its loyalty program before anything else, and every handler that talks to
the contract takes the client of its account, which comes with a mutex. So a client is the last a
request takes: who holds one waits for nobody, and who waits for one holds a program at most. What
is taken is given back on every way out (`locking`).

From this no requests can wait for each other (`locks_live`), whatever their order and whatever the
database and the network answer. The mutex of the receipt signer is held over nothing that waits,
and left out.
-/

namespace Soroticket

open Programs Handler Interleaving Holders

variable {d : Deployment} {reg : Registry d}

/-! ### The law -/

/-- The mutexes a request holds. -/
structure HeldLocks where
  program : Option (AuthCtx × ℕ)
  client : Option AuthCtx
  deriving DecidableEq

/-- None. -/
def HeldLocks.none : HeldLocks := ⟨Option.none, Option.none⟩

/-- A program is locked by a request that holds nothing, and a client taken by one that holds none.
The contract is asked with a client, and the table of punches with the program. -/
def locking (reg : Registry d) : Law (@Ask.Reply d reg) HeldLocks where
  may g
    | .clientFor _ => g.client = none
    | .release a => g.client = some a
    | .lockProgram _ _ => g = HeldLocks.none
    | .unlockProgram a id => g = ⟨some (a, id), none⟩
    | .call _ | .simulate _ | .latestLedger | .approveSettlement .. => g.client ≠ none
    | .migrateCustomer p | .checkEventRef p | .loyaltyBalance p | .planPunch p _
    | .storePunch p _ _ => ∃ a, g.program = some (a, p.program.id)
    | _ => True
  possible _ _ _ := True
  next g e r :=
    match e, r with
    | .clientFor a, .ok _ => { g with client := some a }
    | .release _, _ => { g with client := none }
    | .lockProgram a id, _ => { g with program := some (a, id) }
    | .unlockProgram _ _, _ => { g with program := none }
    | _, _ => g

section Handlers

variable {cl : Platform} {a : AuthCtx} {m : Meter} {g : HeldLocks} {α β : Type}
  {P : HeldLocks → Prop}

/-- A handler that ends in `P`, whichever way it is left. -/
abbrev Locks (P : HeldLocks → Prop) (h : Work reg α) (m : Meter) (g : HeldLocks) : Prop :=
  h.Keeps (locking reg) m g (fun _ _ ↦ P) fun _ _ ↦ P

theorem silent_resolve_locking (g : HeldLocks) (c : Charge) (how : Resolve) :
    (locking reg).Silent g (.resolve c how) := ⟨trivial, fun _ ↦ rfl⟩

/-- A client is taken, and given back. -/
theorem locks_withClient {program : Option (AuthCtx × ℕ)} {h : Address → Work reg β}
    (hh : ∀ signer, Locks (· = ⟨program, some a⟩) (h signer) m ⟨program, some a⟩) :
    Locks (· = ⟨program, none⟩) (withClient a h) m ⟨program, none⟩ := by
  refine keeps_withClient rfl (fun signer _ ↦ ?_) fun _ _ ↦ rfl
  have hclose : ∀ g : HeldLocks, g = ⟨program, some a⟩ →
      Closes (locking reg) (some (.release a)) g (· = ⟨program, none⟩) := by
    rintro _ rfl
    exact ⟨rfl, fun _ _ ↦ rfl⟩
  exact (hh signer).mono (fun _ _ ↦ hclose) fun _ _ ↦ hclose

theorem locks_callClient {c : Call} {f : Value × Bytes → Work reg β} (hg : g.client ≠ none)
    (hP : P g) (hf : ∀ v, Locks P (f v) m g) : Locks P (callClient c >>= f) m g := by
  refine step_callClient hg (fun v _ ↦ ?_) fun e _ ↦ ?_
  · exact hf v
  · exact hP

theorem locks_registerSharedCode {signer : Address} {chainID : UInt64} {j : SharedJob}
    {f : Bytes → Work reg β} (hg : g.client ≠ none) (hP : P g)
    (hf : ∀ txHash, Locks P (f txHash) m g) :
    Locks P (registerSharedCode signer chainID j >>= f) m g := by
  refine keeps_bind.2 ?_
  rw [registerSharedCode]
  split
  · exact keeps_stop.2 hP
  · exact step_callClient hg (fun v _ ↦ keeps_pure.2 (hf v.2)) fun _ _ ↦ hP

theorem locks_createCampaign (body : CampaignBody) :
    Locks (· = HeldLocks.none) (handleCreateCampaign cl a body : Work reg Response)
      m HeldLocks.none := by
  unfold handleCreateCampaign
  refine step_silent ⟨trivial, fun _ ↦ rfl⟩ fun first _ ↦ ?_
  refine step_silent ⟨trivial, fun _ ↦ rfl⟩ fun second _ ↦ ?_
  refine step_checked (fun job _ ↦ ?_) fun _ _ ↦ rfl
  refine step_reserveCharge_silent ⟨trivial, fun _ ↦ rfl⟩ (fun m ↦ ?_) fun _ ↦ rfl
  refine keeps_deferCommitUsed_silent silent_resolve_locking (locks_withClient fun signer ↦ ?_)
  refine locks_callClient (Option.some_ne_none a) rfl fun v ↦ step_setUsed ?_
  refine step_query trivial fun r _ ↦ step_orStop (fun id _ ↦ ?_) rfl
  rcases job.shared with - | shared
  · exact keeps_pure.2 rfl
  · refine locks_registerSharedCode (Option.some_ne_none a) rfl fun txHash ↦ step_setUsed ?_
    refine step_query trivial fun (stored : Bool) _ ↦ ?_
    exact step_problemWhen (fun _ ↦ keeps_pure.2 rfl) fun _ ↦ rfl

theorem locks_createProgram (body : ProgramBody) :
    Locks (· = HeldLocks.none) (handleCreateProgram a body : Work reg Response)
      m HeldLocks.none := by
  refine step_checked (fun job _ ↦ ?_) fun _ _ ↦ rfl
  refine step_reserveCharge_silent ⟨trivial, fun _ ↦ rfl⟩ (fun m ↦ ?_) fun _ ↦ rfl
  refine keeps_deferCommitUsed_silent silent_resolve_locking (locks_withClient fun signer ↦ ?_)
  refine step_silent ⟨trivial, fun _ ↦ rfl⟩ fun clock _ ↦ ?_
  refine locks_callClient (Option.some_ne_none a) rfl fun v ↦ step_setUsed ?_
  refine locks_registerSharedCode (Option.some_ne_none a) rfl fun txHash ↦ step_setUsed ?_
  exact step_query trivial fun r _ ↦ step_orStop (fun _ _ ↦ keeps_pure.2 rfl) rfl

theorem locks_registerShared (id : ℕ) (body : SharedTerms) :
    Locks (· = HeldLocks.none) (handleRegisterShared cl a id body : Work reg Response)
      m HeldLocks.none := by
  unfold handleRegisterShared
  refine step_writableCampaign ⟨trivial, fun _ ↦ rfl⟩ (fun c _ _ ↦ ?_) fun _ ↦ rfl
  refine step_checked (fun job _ ↦ ?_) fun _ _ ↦ rfl
  refine step_reserveCharge_silent ⟨trivial, fun _ ↦ rfl⟩ (fun m ↦ ?_) fun _ ↦ rfl
  refine keeps_deferRefund_silent silent_resolve_locking (locks_withClient fun signer ↦ ?_)
  refine locks_registerSharedCode (Option.some_ne_none a) rfl fun txHash ↦ ?_
  refine step_resolveCharge_silent (silent_resolve_locking _ · _) fun m ↦ ?_
  refine step_query trivial fun (stored : Bool) _ ↦ ?_
  exact step_problemWhen (fun _ ↦ keeps_pure.2 rfl) fun _ ↦ rfl

/-- One batch after the other. -/
theorem locks_issueCodes {signer : Address} {chainID : UInt64} {campaignID : ℕ}
    {batches : List (List String)} {f : List IssuedCode → Work reg β} (hg : g.client ≠ none)
    (hP : P g) (hf : ∀ m issued, Locks P (f issued) m g) (issued : List IssuedCode) :
    Locks P (issueCodes signer chainID campaignID batches issued >>= f) m g := by
  refine keeps_bind.2 ?_
  induction batches generalizing issued with
  | nil => exact keeps_pure.2 (hf m issued)
  | cons batch batches ih =>
    refine step_query hg fun r _ ↦ ?_
    split
    · split
      · exact step_resolveCharge_silent (silent_resolve_locking _ · _) fun _ ↦ keeps_stop.2 hP
      · exact keeps_stop.2 hP
    · exact step_insertCodes (fun _ ↦ ⟨trivial, fun _ ↦ rfl⟩) (ih _) _

theorem locks_issue (id : ℕ) (body : IssueBody) :
    Locks (· = HeldLocks.none) (handleIssueCodes cl a id body : Work reg Response)
      m HeldLocks.none := by
  unfold handleIssueCodes
  refine step_writableCampaign ⟨trivial, fun _ ↦ rfl⟩ (fun c _ _ ↦ ?_) fun _ ↦ rfl
  refine step_requestedCodes (fun _ ↦ ⟨trivial, fun _ ↦ rfl⟩) (fun codes _ ↦ ?_) fun _ ↦ rfl
  refine step_checked (fun _ _ ↦ ?_) fun _ _ ↦ rfl
  refine step_reserveCharge_silent ⟨trivial, fun _ ↦ rfl⟩ (fun m ↦ ?_) fun _ ↦ rfl
  refine keeps_deferRefund_silent silent_resolve_locking (locks_withClient fun signer ↦ ?_)
  have hclient : (HeldLocks.mk none (some a)).client ≠ none := Option.some_ne_none a
  refine locks_issueCodes (P := (· = ⟨none, some a⟩)) hclient rfl (fun m issued ↦ ?_) []
  refine step_query trivial fun _ _ ↦ ?_
  exact step_resolveCharge_silent (silent_resolve_locking _ · _) fun _ ↦ keeps_pure.2 rfl

theorem locks_redeem (body : RedeemBody) :
    Locks (· = HeldLocks.none) (handleRedeem cl a body : Work reg Response)
      m HeldLocks.none := by
  unfold handleRedeem
  refine step_problemWhen (fun _ ↦ ?_) fun _ ↦ rfl
  refine step_writableCampaign ⟨trivial, fun _ ↦ rfl⟩ (fun c _ _ ↦ ?_) fun _ ↦ rfl
  refine step_silent ⟨trivial, fun _ ↦ rfl⟩ fun nonce _ ↦ step_orStop (fun nonce _ ↦ ?_) rfl
  refine step_redeemerHash ⟨trivial, fun _ ↦ rfl⟩ (fun refHash ↦ ?_) fun _ ↦ rfl
  refine step_reserveCharge_silent ⟨trivial, fun _ ↦ rfl⟩ (fun m ↦ ?_) fun _ ↦ rfl
  refine keeps_deferRefund_silent silent_resolve_locking (locks_withClient fun signer ↦ ?_)
  refine step_query (Option.some_ne_none a) fun r _ ↦ ?_
  split
  · exact keeps_pure.2 rfl
  · refine step_resolveCharge_silent (silent_resolve_locking _ · _) fun _ ↦ ?_
    exact step_query trivial fun _ _ ↦ step_query trivial fun _ _ ↦ keeps_pure.2 rfl

theorem locks_recordEvents (campaignID : ℕ) (pathCode : String) (body : EventBody) :
    Locks (· = HeldLocks.none)
      (handleRecordEvents cl a campaignID pathCode body : Work reg Response) m HeldLocks.none := by
  refine step_silent ⟨trivial, fun _ ↦ rfl⟩ fun job _ ↦ step_checked (fun e _ ↦ ?_) fun _ _ ↦ rfl
  refine step_reserveCharge_silent ⟨trivial, fun _ ↦ rfl⟩ (fun m ↦ ?_) fun _ ↦ rfl
  refine keeps_deferRefund_silent silent_resolve_locking ?_
  refine step_silent ⟨trivial, fun _ ↦ rfl⟩ fun r _ ↦ step_checked (fun _ _ ↦ ?_) fun _ _ ↦ rfl
  exact step_resolveCharge_silent (silent_resolve_locking _ · _) fun _ ↦ keeps_pure.2 rfl

theorem locks_storePunch {p : PunchJob reg} {plan : PunchPlan} {issued : List IssuedCode}
    (hg : ∃ a, g.program = some (a, p.program.id)) (hP : P g) :
    Locks P (storePunch p plan issued : Work reg Response) m g := by
  refine step_silent ⟨hg, fun _ ↦ rfl⟩ fun r _ ↦ step_checked (fun _ _ ↦ ?_) fun _ _ ↦ hP
  exact step_setUsed (keeps_pure.2 hP)

theorem locks_issueRewards {p : PunchJob reg} {plan : PunchPlan} {signer : Address}
    {f : List IssuedCode → Work reg β} (hg : g.client ≠ none) (hP : P g)
    (hf : ∀ m issued, Locks P (f issued) m g) : Locks P (issueRewards p plan signer >>= f) m g := by
  refine keeps_bind.2 (keeps_bind.2 ?_)
  refine (keeps_genCodes (fun _ ↦ ⟨trivial, fun _ ↦ rfl⟩) (fun _ ↦ hP) "RW" plan.newRewards).mono
    ?_ fun _ _ _ h ↦ h
  rintro codes m' g' ⟨rfl, rfl, -, -⟩
  refine step_callClient hg (fun v _ ↦ step_setUsed ?_) fun _ _ ↦ hP
  exact step_problemWhen (fun _ ↦ keeps_pure.2 (hf _ _)) fun _ ↦ hP

theorem locks_punch (id : ℕ) (body : PunchBody) :
    Locks (· = HeldLocks.none) (handlePunch a id body : Work reg Response)
      m HeldLocks.none := by
  refine step_silent ⟨trivial, fun _ ↦ rfl⟩ fun job _ ↦ step_checked ?_ fun _ _ ↦ rfl
  rintro ⟨p, name⟩ -
  refine step_query rfl fun _ _ ↦ keeps_deferring.2 ?_
  have hclose : ∀ (m : Meter) (g : HeldLocks), g = ⟨some (a, p.program.id), none⟩ →
      (.ask (.unlockProgram a p.program.id) fun _ ↦ .ret m : Prog (@Ask.Reply d reg) Meter).Keeps
        (locking reg) g fun _ g ↦ g = HeldLocks.none := by
    rintro m _ rfl
    exact ⟨rfl, fun _ _ ↦ rfl⟩
  refine Keeps.mono (?_ : Locks (· = ⟨some (a, p.program.id), none⟩) _ m _)
    (fun _ m g hP ↦ hclose m g hP) fun _ m g hP ↦ hclose m g hP
  have hprogram : ∃ a', (HeldLocks.mk (some (a, p.program.id)) none).program =
      some (a', p.program.id) := ⟨a, rfl⟩
  refine step_silent ⟨hprogram, fun _ ↦ rfl⟩ fun _ _ ↦ step_checked (fun _ _ ↦ ?_) fun _ _ ↦ rfl
  refine step_silent ⟨hprogram, fun _ ↦ rfl⟩ fun _ _ ↦ step_checked (fun _ _ ↦ ?_) fun _ _ ↦ rfl
  refine step_silent ⟨hprogram, fun _ ↦ rfl⟩ fun _ _ ↦
    step_checked (fun before _ ↦ ?_) fun _ _ ↦ rfl
  refine step_silent ⟨hprogram, fun _ ↦ rfl⟩ fun _ _ ↦ step_checked (fun plan _ ↦ ?_) fun _ _ ↦ rfl
  refine step_reserveCharge_silent ⟨trivial, fun _ ↦ rfl⟩ (fun m ↦ ?_) fun _ ↦ rfl
  refine keeps_deferCommitUsed_silent silent_resolve_locking ?_
  split
  · exact locks_storePunch hprogram rfl
  · refine locks_withClient fun signer ↦ ?_
    exact locks_issueRewards (Option.some_ne_none a) rfl fun m issued ↦
      locks_storePunch ⟨a, rfl⟩ rfl

theorem locks_commitTally (campaignID : ℕ) (pathCode : String) (period : UInt64) :
    Locks (· = HeldLocks.none)
      (handleCommitTally cl a campaignID pathCode period : Work reg Response) m HeldLocks.none := by
  unfold handleCommitTally
  refine step_silent ⟨trivial, fun _ ↦ rfl⟩ fun r _ ↦ step_checked (fun sc _ ↦ ?_) fun _ _ ↦ rfl
  refine step_commitPeriod ⟨trivial, fun _ ↦ rfl⟩ (fun period ↦ ?_) fun _ ↦ rfl
  refine step_problemWhen (fun _ ↦ ?_) fun _ ↦ rfl
  refine step_silent ⟨trivial, fun _ ↦ rfl⟩ fun r _ ↦ step_checked (fun _ _ ↦ ?_) fun _ _ ↦ rfl
  refine step_problemWhen (fun _ ↦ locks_withClient fun signer ↦ ?_) fun _ ↦ rfl
  refine step_silent ⟨trivial, fun _ ↦ rfl⟩ fun r _ ↦ step_checked (fun b _ ↦ ?_) fun _ _ ↦ rfl
  refine step_reserveCharge_silent ⟨trivial, fun _ ↦ rfl⟩ (fun m ↦ ?_) fun _ ↦ rfl
  refine keeps_deferRefund_silent silent_resolve_locking ?_
  refine locks_callClient (Option.some_ne_none a) rfl fun v ↦ ?_
  refine step_resolveCharge_silent (silent_resolve_locking _ · _) fun m ↦ ?_
  refine step_silent ⟨trivial, fun _ ↦ rfl⟩ fun r _ ↦ ?_
  exact step_checked (fun _ _ ↦ keeps_pure.2 rfl) fun _ _ ↦ rfl

theorem locks_settle (body : SettleBody) :
    Locks (· = HeldLocks.none) (handleSettle cl a body : Work reg Response)
      m HeldLocks.none := by
  unfold handleSettle
  refine step_silent ⟨trivial, fun _ ↦ rfl⟩ fun r _ ↦ step_checked (fun sc _ ↦ ?_) fun _ _ ↦ rfl
  refine step_reserveCharge_silent ⟨trivial, fun _ ↦ rfl⟩ (fun m ↦ ?_) fun _ ↦ rfl
  refine keeps_deferRefund_silent silent_resolve_locking (locks_withClient fun signer ↦ ?_)
  have hclient : (HeldLocks.mk none (some a)).client ≠ none := Option.some_ne_none a
  refine step_simulated hclient (fun shared _ ↦ ?_) fun _ _ ↦ rfl
  refine step_orStop (fun token _ ↦ ?_) rfl
  refine step_checkUnsettled ⟨hclient, fun _ ↦ rfl⟩ ⟨trivial, fun _ ↦ rfl⟩ ?_ fun _ ↦ rfl
  refine step_simulated hclient (fun preview _ ↦ ?_) fun _ _ ↦ rfl
  refine step_approvePayouts ⟨hclient, fun _ ↦ rfl⟩ (fun _ ↦ ⟨hclient, fun _ ↦ rfl⟩) ?_
    fun _ ↦ rfl
  refine step_query hclient fun r _ ↦ ?_
  split
  · exact step_query trivial fun _ _ ↦ keeps_stop.2 rfl
  · exact keeps_stop.2 rfl
  · refine step_resolveCharge_silent (silent_resolve_locking _ · _) fun m ↦ ?_
    exact step_query trivial fun _ _ ↦ keeps_pure.2 rfl

/-- **A request gives back what it takes**, and takes a client last. -/
theorem locks_handle (cl : Platform) (a : AuthCtx) (m : Meter) (request : MeteredRequest) :
    Locks (· = HeldLocks.none) (request.handle reg cl a) m HeldLocks.none := by
  cases request with
  | createCampaign body => exact locks_createCampaign body
  | createProgram body => exact locks_createProgram body
  | registerShared campaignID body => exact locks_registerShared campaignID body
  | issueCodes campaignID body => exact locks_issue campaignID body
  | redeem body => exact locks_redeem body
  | recordEvents campaignID pathCode body => exact locks_recordEvents campaignID pathCode body
  | punch programID body => exact locks_punch programID body
  | commitTally campaignID pathCode period => exact locks_commitTally campaignID pathCode period
  | settle body => exact locks_settle body

end Handlers

/-! ### Requests that wait for each other -/

/-- The mutexes that are taken. -/
structure LockWorld where
  clients : AuthCtx → Bool
  programs : AuthCtx × ℕ → Bool

namespace LockWorld

/-- The answer to a question. A mutex that is taken is waited for; anything else is answered
somehow. -/
def answer (reply : (e : Ask reg) → e.Reply) (w : LockWorld) :
    (e : Ask reg) → Option (e.Reply × LockWorld)
  | .clientFor a =>
    match reply (.clientFor a) with
    | .error x => some (.error x, w)
    | .ok signer =>
      if w.clients a then none
      else some (.ok signer, { w with clients := Function.update w.clients a true })
  | .release a => some ((), { w with clients := Function.update w.clients a false })
  | .lockProgram a id =>
    if w.programs (a, id) then none
    else some ((), { w with programs := Function.update w.programs (a, id) true })
  | .unlockProgram a id =>
    some ((), { w with programs := Function.update w.programs (a, id) false })
  | e => some (reply e, w)

/-- A question that waits for a mutex. -/
def Waits (w : LockWorld) (e : Ask reg) : Prop :=
  (∃ a, e = .clientFor a ∧ w.clients a = true) ∨
    ∃ a id, e = .lockProgram a id ∧ w.programs (a, id) = true

/-- Every other question is answered. -/
theorem exists_answer {w : LockWorld} {e : Ask reg} (h : ¬w.Waits e)
    (reply : (e : Ask reg) → e.Reply) : ∃ r, w.answer reply e = some r := by
  cases e with
  | clientFor a =>
    have hfree : ¬w.clients a = true := fun htaken ↦ h (.inl ⟨a, rfl, htaken⟩)
    rw [answer]
    split
    · exact ⟨_, rfl⟩
    · rw [if_neg hfree]
      exact ⟨_, rfl⟩
  | lockProgram a id =>
    have hfree : ¬w.programs (a, id) = true := fun htaken ↦ h (.inr ⟨a, id, rfl, htaken⟩)
    rw [answer, if_neg hfree]
    exact ⟨_, rfl⟩
  | _ => exact ⟨_, rfl⟩

end LockWorld

/-- The server. -/
def lockServer (reg : Registry d) :
    Server (@Ask.Reply d reg) LockWorld ((e : Ask reg) → e.Reply) Unit where
  answer := LockWorld.answer
  outside _ w := w

/-- A mutex is taken where a request holds it, and by one alone. -/
structure HeldByOne (w : LockWorld) (gs : ℕ → HeldLocks) : Prop where
  clients : Holding w.clients fun i ↦ (gs i).client
  programs : Holding w.programs fun i ↦ (gs i).program

theorem client_update (gs : ℕ → HeldLocks) (i : ℕ) (g : HeldLocks) :
    (fun j ↦ (Function.update gs i g j).client) =
      Function.update (fun j ↦ (gs j).client) i g.client := by
  funext j
  rcases eq_or_ne j i with rfl | hne
  · rw [Function.update_self, Function.update_self]
  · rw [Function.update_of_ne hne, Function.update_of_ne hne]

theorem program_update (gs : ℕ → HeldLocks) (i : ℕ) (g : HeldLocks) :
    (fun j ↦ (Function.update gs i g j).program) =
      Function.update (fun j ↦ (gs j).program) i g.program := by
  funext j
  rcases eq_or_ne j i with rfl | hne
  · rw [Function.update_self, Function.update_self]
  · rw [Function.update_of_ne hne, Function.update_of_ne hne]

/-- One request changes what it holds. -/
theorem HeldByOne.update {w : LockWorld} {gs : ℕ → HeldLocks} {i : ℕ} {g : HeldLocks}
    (hclients : Holding w.clients (Function.update (fun j ↦ (gs j).client) i g.client))
    (hprograms : Holding w.programs (Function.update (fun j ↦ (gs j).program) i g.program)) :
    HeldByOne w (Function.update gs i g) := by
  refine ⟨?_, ?_⟩
  · rw [client_update]
    exact hclients
  · rw [program_update]
    exact hprograms

/-- One question keeps this. -/
theorem HeldByOne.answered {w w' : LockWorld} {gs : ℕ → HeldLocks} (h : HeldByOne w gs) {i : ℕ}
    {reply : (e : Ask reg) → e.Reply} {e : Ask reg} {r : e.Reply}
    (hmay : (locking reg).may (gs i) e) (hanswer : w.answer reply e = some (r, w')) :
    HeldByOne w' (Function.update gs i ((locking reg).next (gs i) e r)) := by
  have hsame : HeldByOne w (Function.update gs i (gs i)) :=
    .update (h.clients.same i) (h.programs.same i)
  cases e with
  | clientFor a =>
    rw [LockWorld.answer] at hanswer
    split at hanswer
    · obtain ⟨rfl, rfl⟩ := Prod.mk.inj (Option.some.inj hanswer)
      exact hsame
    · split at hanswer
      · exact absurd hanswer.symm (Option.some_ne_none _)
      · rename_i hfree
        obtain ⟨rfl, rfl⟩ := Prod.mk.inj (Option.some.inj hanswer)
        exact .update (h.clients.take (Bool.eq_false_of_not_eq_true hfree) hmay)
          (h.programs.same i)
  | release a =>
    obtain ⟨-, rfl⟩ := Prod.mk.inj (Option.some.inj hanswer)
    exact .update (h.clients.give hmay) (h.programs.same i)
  | lockProgram a id =>
    rw [LockWorld.answer] at hanswer
    split at hanswer
    · exact absurd hanswer.symm (Option.some_ne_none _)
    · rename_i hfree
      obtain ⟨-, rfl⟩ := Prod.mk.inj (Option.some.inj hanswer)
      exact .update (h.clients.same i) (h.programs.take (Bool.eq_false_of_not_eq_true hfree)
        (congrArg HeldLocks.program hmay))
  | unlockProgram a id =>
    obtain ⟨-, rfl⟩ := Prod.mk.inj (Option.some.inj hanswer)
    exact .update (h.clients.same i) (h.programs.give (congrArg HeldLocks.program hmay))
  | _ =>
    obtain ⟨rfl, rfl⟩ := Prod.mk.inj (Option.some.inj hanswer)
    exact hsame

/-! ### Runs -/

section Runs

variable {cl : Platform} {requests : ℕ → AuthCtx × MeteredRequest}
  {turns : List (Turn ((e : Ask reg) → e.Reply) Unit)}

/-- Where these requests arrive. -/
def arriveToLock (reg : Registry d) (cl : Platform) (requests : ℕ → AuthCtx × MeteredRequest)
    (i : ℕ) : Programs.Place (@Ask.Reply d reg) (Except Response Response × Meter) :=
  .start ((requests i).2.handle reg cl (requests i).1 ⟨none, 0⟩)

/-- What a request holds, of what it has said. -/
def holds (reg : Registry d) (said : List (Exchange (@Ask.Reply d reg))) : HeldLocks :=
  (locking reg).after HeldLocks.none said

variable (reg cl requests turns) in
theorem locked_after (n : ℕ) :
    let run := ((lockServer reg).service _).after
      ⟨⟨fun _ ↦ false, fun _ ↦ false⟩, arriveToLock reg cl requests⟩ turns
    Server.Keeping (locking reg) HeldLocks.none (fun _ _ g ↦ g = HeldLocks.none) (run n) ∧
      HeldByOne (run n).shared (Server.records (locking reg) HeldLocks.none (run n)) := by
  refine Server.serve_keeps (J := HeldByOne) (K := fun _ _ ↦ True) (fun i ↦ ?_) ⟨.free, .free⟩
    (fun _ _ _ ↦ trivial) (fun c i reply e r w' h _ hasks ↦ ?_) (fun _ _ _ h ↦ h) n
  · refine (locks_handle cl (requests i).1 ⟨none, 0⟩ (requests i).2).start.mono fun x g hx ↦ ?_
    obtain ⟨x | x, m⟩ := x
    · exact hx
    · exact hx
  · exact ⟨trivial, h.answered hasks.may hasks.answer⟩

section Waiting

variable {c : Config LockWorld (Programs.Place (@Ask.Reply d reg)
  (Except Response Response × Meter))} {i : ℕ} {a : AuthCtx}

/-- A request that can go on. -/
def Ready (c : Config LockWorld (Programs.Place (@Ask.Reply d reg)
    (Except Response Response × Meter))) : Prop :=
  ∃ i e k, (c.requests i).rest = .ask e k ∧ ¬c.shared.Waits e

/-- Who holds something is not over. -/
theorem exists_ask
    (hkeeping : Server.Keeping (locking reg) HeldLocks.none (fun _ _ g ↦ g = HeldLocks.none) c)
    (hheld : Server.records (locking reg) HeldLocks.none c i ≠ HeldLocks.none) :
    ∃ e k, (c.requests i).rest = .ask e k ∧
      (locking reg).may (Server.records (locking reg) HeldLocks.none c i) e := by
  have hkeeps := hkeeping i
  rcases hrest : (c.requests i).rest with x | ⟨e, k⟩
  · rw [hrest] at hkeeps
    exact absurd hkeeps hheld
  · rw [hrest] at hkeeps
    exact ⟨e, k, rfl, hkeeps.1⟩

/-- Who holds a client waits for nobody. -/
theorem ready_of_client
    (hkeeping : Server.Keeping (locking reg) HeldLocks.none (fun _ _ g ↦ g = HeldLocks.none) c)
    (hheld : (Server.records (locking reg) HeldLocks.none c i).client = some a) : Ready c := by
  have hne : Server.records (locking reg) HeldLocks.none c i ≠ HeldLocks.none := fun hnone ↦
    Option.some_ne_none a (hheld.symm.trans (congrArg HeldLocks.client hnone))
  obtain ⟨e, k, hrest, hmay⟩ := exists_ask hkeeping hne
  refine ⟨i, e, k, hrest, ?_⟩
  rintro (⟨b, rfl, -⟩ | ⟨b, id, rfl, -⟩)
  · exact absurd (hheld.symm.trans hmay) (Option.some_ne_none a)
  · exact hne hmay

/-- Who holds a program goes on, or waits for a client, which somebody else holds. -/
theorem ready_of_program {id : ℕ}
    (hkeeping : Server.Keeping (locking reg) HeldLocks.none (fun _ _ g ↦ g = HeldLocks.none) c)
    (hholders : HeldByOne c.shared (Server.records (locking reg) HeldLocks.none c))
    (hheld : (Server.records (locking reg) HeldLocks.none c i).program = some (a, id)) :
    Ready c := by
  have hne : Server.records (locking reg) HeldLocks.none c i ≠ HeldLocks.none := fun hnone ↦
    Option.some_ne_none _ (hheld.symm.trans (congrArg HeldLocks.program hnone))
  obtain ⟨e, k, hrest, hmay⟩ := exists_ask hkeeping hne
  by_cases hwaits : c.shared.Waits e
  · rcases hwaits with ⟨b, -, htaken⟩ | ⟨b, id', rfl, -⟩
    · obtain ⟨j, hj⟩ := (hholders.clients.taken_iff b).1 htaken
      exact ready_of_client hkeeping hj
    · exact absurd hmay hne
  · exact ⟨i, e, k, hrest, hwaits⟩

/-- While a request is not over, one can go on. -/
theorem exists_ready {e : Ask reg} {k : e.Reply → Prog (@Ask.Reply d reg) _}
    (hkeeping : Server.Keeping (locking reg) HeldLocks.none (fun _ _ g ↦ g = HeldLocks.none) c)
    (hholders : HeldByOne c.shared (Server.records (locking reg) HeldLocks.none c))
    (hrest : (c.requests i).rest = .ask e k) : Ready c := by
  by_cases hwaits : c.shared.Waits e
  · rcases hwaits with ⟨a, -, htaken⟩ | ⟨a, id, -, htaken⟩
    · obtain ⟨j, hj⟩ := (hholders.clients.taken_iff a).1 htaken
      exact ready_of_client hkeeping hj
    · obtain ⟨j, hj⟩ := (hholders.programs.taken_iff (a, id)).1 htaken
      exact ready_of_program hkeeping hholders hj
  · exact ⟨i, e, k, hrest, hwaits⟩

end Waiting

/-- **The mutexes exclude, and never lock up**, in every run of requests of any accounts. A client,
like a program, is held by one request at a time, and the contract is asked by its holder alone;
while a request is not over, there is one that any answer takes further; and when all that have
begun are over, nothing is taken. -/
theorem locks_live (reg : Registry d) (cl : Platform)
    (requests : ℕ → AuthCtx × MeteredRequest)
    (turns : List (Turn ((e : Ask reg) → e.Reply) Unit)) :
    let run := ((lockServer reg).service _).after
      ⟨⟨fun _ ↦ false, fun _ ↦ false⟩, arriveToLock reg cl requests⟩ turns
    (∀ n i j a, (holds reg ((run n).requests i).said).client = some a →
      (holds reg ((run n).requests j).said).client = some a → i = j) ∧
    (∀ n i j k, (holds reg ((run n).requests i).said).program = some k →
      (holds reg ((run n).requests j).said).program = some k → i = j) ∧
    (∀ n i call k, ((run n).requests i).rest = .ask (.call call) k →
      ∃ a, (holds reg ((run n).requests i).said).client = some a) ∧
    (∀ n i e k, ((run n).requests i).rest = .ask e k → ∃ j e' k',
      ((run n).requests j).rest = .ask e' k' ∧
        ∀ reply, ∃ r, (run n).shared.answer reply e' = some r) ∧
    ∀ n, (∀ i, ((run n).requests i).said = [] ∨ ∃ x, ((run n).requests i).rest = .ret x) →
      (∀ a, (run n).shared.clients a = false) ∧ ∀ k, (run n).shared.programs k = false := by
  intro run
  refine ⟨fun n i j a ↦ ?_, fun n i j k ↦ ?_, fun n i call k hrest ↦ ?_,
    fun n i e k hrest ↦ ?_, fun n hover ↦ ?_⟩
  · exact (locked_after reg cl requests turns n).2.clients.unique i j a
  · exact (locked_after reg cl requests turns n).2.programs.unique i j k
  · have hkeeps := (locked_after reg cl requests turns n).1 i
    rw [hrest] at hkeeps
    exact Option.ne_none_iff_exists'.1 hkeeps.1
  · obtain ⟨hkeeping, hheld⟩ := locked_after reg cl requests turns n
    obtain ⟨j, e', k', hrest', hfree⟩ := exists_ready hkeeping hheld hrest
    exact ⟨j, e', k', hrest', LockWorld.exists_answer hfree⟩
  · obtain ⟨hkeeping, hheld⟩ := locked_after reg cl requests turns n
    have hnone : ∀ i, Server.records (locking reg) HeldLocks.none (run n) i = HeldLocks.none := by
      intro i
      rcases hover i with hsaid | ⟨x, hx⟩
      · rw [Server.records, hsaid]
        rfl
      · have hkeeps := hkeeping i
        rw [hx] at hkeeps
        exact hkeeps
    refine ⟨fun a ↦ Bool.eq_false_of_not_eq_true fun htaken ↦ ?_,
      fun k ↦ Bool.eq_false_of_not_eq_true fun htaken ↦ ?_⟩
    · obtain ⟨i, hi⟩ := (hheld.clients.taken_iff a).1 htaken
      rw [hnone i] at hi
      exact Option.some_ne_none a hi.symm
    · obtain ⟨i, hi⟩ := (hheld.programs.taken_iff k).1 htaken
      rw [hnone i] at hi
      exact Option.some_ne_none k hi.symm

end Runs

end Soroticket
