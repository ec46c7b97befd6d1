import Soroticket.Cloud.Bodies
import Soroticket.Cloud.Credits
import Soroticket.Cloud.Service
import Soroticket.Machine.Paging
import Soroticket.Machine.Programs

/-!
# The metered handlers

The nine handlers that take a charge, each as a program in the sense of `Machine.Programs`: it asks
for the time and for random bytes, for charges and refunds, for the client of its account, for calls
of the contract, and for its statements on the database. An `Ask` is one such question, and
`Ask.Reply` the type of its answers; nothing is said here of which answer is given when. A query
together with the checks on what it finds is one question where nothing is written in between.

A handler keeps its reservation, while it is active, and how much of it was used. Commit,
CommitUsed and Refund resolve an active reservation and do nothing otherwise; a handler defers one
of them.
-/

namespace Soroticket

open Programs Paging

variable {d : Deployment}

/-! ### Prices -/

/-- `mcrCreateCampaign`. -/
def mcrCreateCampaign : ℤ := 20000

/-- `mcrIssuePerCode`. -/
def mcrIssuePerCode : ℤ := 2000

/-- `mcrRedeem`. -/
def mcrRedeem : ℤ := 5000

/-- `mcrRegisterShared`. -/
def mcrRegisterShared : ℤ := 10000

/-- `mcrSharedEvent`. -/
def mcrSharedEvent : ℤ := 200

/-- `mcrCommitTally`. -/
def mcrCommitTally : ℤ := 15000

/-- `mcrSettle`. -/
def mcrSettle : ℤ := 25000

/-- `mcrPunch`. -/
def mcrPunch : ℤ := 200

/-! ### Questions -/

/-- An error of the client: one of the contract, or another. -/
inductive ChainError where
  | contract (e : Error)
  | other

/-- A code that was issued, with the id of its token where it was decoded. -/
structure IssuedCode where
  code : String
  tokenID : Option UInt64
  txHash : Bytes

/-- What a metered handler answers. -/
inductive Response where
  | problem (p : Problem)
  | chainError (e : ChainError)
  | campaignCreated (id : ℕ)
  | programCreated (programID campaignID : ℕ)
  | sharedRegistered (code : String) (txHash : Bytes)
  | issued (codes : List IssuedCode)
  | partlyIssued (codes : List IssuedCode) (e : ChainError)
  | redeemed (receipt : Value) (txHash nonce : Bytes)
  | redemptionRejected (e : ChainError)
  | recorded (receipt : SignedReceipt)
  | punched (ref : Bytes) (after : Int64) (issued : List String) (receipt : SignedReceipt)
  | committed (period : UInt64) (count : Int64) (receiptCount : ℕ) (merkleRoot txHash : Bytes)
  | settled (payouts : List Payout) (total : ℤ) (txHash : Bytes)

/-- A campaign as `campaignByID` finds it. -/
structure CampaignView where
  row : CampaignRow
  name : String

/-- A row that is inserted into `campaigns`. -/
structure NewCampaign where
  account : AuthCtx
  chainID : UInt64
  kind : String
  name : String
  discountType : String
  discountValue : Int64
  totalSupply : Int64
  validUntil : Int64
  txHash : Bytes

/-- A row that is inserted into `shared_codes`. -/
structure NewShared where
  code : String
  attributedTo : Option Address
  payoutToken : Option Address
  rate : ℤ
  txHash : Bytes

/-- A row that is inserted into `loyalty_programs`. -/
structure NewProgram where
  name : String
  threshold : Int64
  earnCode : String
  rewardDiscountType : String
  rewardDiscountValue : Int64

/-- What a handler asks for. -/
inductive Ask (reg : Registry d) where
  | now
  | randHex
  | randRead
  | randInts (n : ℕ)
  -- credits
  | reserveCharge (c : Charge)
  | resolve (c : Charge) (how : Resolve)
  -- the client of an account, and its mutex
  | clientFor (a : AuthCtx)
  | release (a : AuthCtx)
  | call (c : Call)
  | simulate (c : Call)
  | latestLedger
  | approveSettlement (token owner : Address) (amount : ℤ) (expirationLedger : UInt32)
  -- the mutex of a loyalty program
  | lockProgram (a : AuthCtx) (id : ℕ)
  | unlockProgram (a : AuthCtx) (id : ℕ)
  -- campaigns and codes
  | campaignByID (a : AuthCtx) (id : ℕ)
  | sharedByCampaignCode (a : AuthCtx) (campaignID : ℕ) (code : Bytes)
  | insertCampaign (row : NewCampaign)
  | insertShared (campaignID : ℕ) (row : NewShared)
  | insertProgram (campaign : NewCampaign) (program : NewProgram) (shared : NewShared)
  | insertCode (campaignID : ℕ) (row : IssuedCode)
  | addMinted (campaignID n : ℕ)
  | redeemCode (campaignID : ℕ) (code : String)
  | addBurned (campaignID : ℕ)
  -- events
  | recordEvents (a : AuthCtx) (campaignID : ℕ) (code : Bytes) (body : EventBody)
  | storeEvent (a : AuthCtx) (e : NewEvent)
  -- punches
  | punch (a : AuthCtx) (id : ℕ) (body : PunchBody)
  | migrateCustomer (p : PunchJob reg)
  | checkEventRef (p : PunchJob reg)
  | loyaltyBalance (p : PunchJob reg)
  | planPunch (p : PunchJob reg) (before : Int64)
  | storePunch (p : PunchJob reg) (receipt : SignedReceipt) (issued : List IssuedCode)
  -- tallies
  | nextCommitPeriod (sc : CurrentCode reg)
  | unsignedReceipts (sc : CurrentCode reg)
  | gatherBatch (sc : CurrentCode reg)
  | storeTally (row : TallyRow) (eventIDs : List ℕ)
  | settleTally (sharedID : ℕ) (period : UInt64) (txHash : Bytes) (payoutAmount : ℤ)
  | reconcile (sharedID : ℕ) (period : UInt64)

/-- The answers to a question. -/
def Ask.Reply {reg : Registry d} : Ask reg → Type
  | now => Clock
  | randHex => Option Bytes
  | randRead => Option (BytesN 32)
  | randInts n => Option (Letters n)
  | reserveCharge _ => Except Problem Unit
  | clientFor _ => Except Response Address
  | call _ => Except ChainError (Value × Bytes)
  | simulate _ => Except ChainError Value
  | latestLedger => Except ChainError UInt32
  | approveSettlement .. => Except ChainError Bytes
  | campaignByID .. => Option CampaignView
  | sharedByCampaignCode .. => Except Problem (CurrentCode reg)
  | insertCampaign _ => Option ℕ
  | insertProgram .. => Option (ℕ × ℕ)
  | insertShared .. => Bool
  | recordEvents .. => Except Problem NewEvent
  | storeEvent .. => Except Problem Unit
  | punch .. => Except Problem (PunchJob reg × String)
  | migrateCustomer _ => Except Problem Unit
  | checkEventRef _ => Except Problem Unit
  | loyaltyBalance _ => Except Problem Int64
  | planPunch .. => Except Problem PunchPlan
  | storePunch .. => Except Problem Unit
  | nextCommitPeriod _ => Except Problem UInt64
  | unsignedReceipts _ => Except Problem ℕ
  | gatherBatch _ => Except Problem Batch
  | storeTally .. => Except Problem Unit
  | _ => Unit

/-- What a handler keeps: its reservation, while it is active, and how much of it was used. -/
structure Meter where
  active : Option Charge
  usedCharge : ℤ

variable {reg : Registry d} {α : Type}

/-- The handlers. -/
abbrev Work (reg : Registry d) (α : Type) : Type :=
  Handler (@Ask.Reply d reg) Meter Response α

/-- Ask. -/
def query (e : Ask reg) : Work reg e.Reply := Handler.ask e

open Handler hiding ask

/-! ### Checks -/

/-- Go on, or answer with a problem. -/
def checked (x : Except Problem α) : Work reg α := check (x.mapError .problem)

/-- Go on with what a question found, or answer with a problem. -/
def orStop (x : Option α) (status : ℕ) (message : String) : Work reg α :=
  checked (orProblem x status message)

/-- Answer with a problem where a condition holds. -/
def problemWhen (p : Prop) [Decidable p] (status : ℕ) (message : String) : Work reg Unit :=
  stopWhen p (.problem ⟨status, message⟩)

/-! ### Reservations -/

/-- Resolve the reservation, if it is active. -/
def Meter.resolve (how : Resolve) (m : Meter) : Prog (@Ask.Reply d reg) Meter :=
  match m.active with
  | none => .ret m
  | some c => .ask (.resolve c how) fun _ ↦ .ret { m with active := none }

/-- `reserveCharge`. -/
def reserveCharge (c : Charge) : Work reg Unit := do
  checked (← query (.reserveCharge c))
  modify fun m ↦ { m with active := if c.account.env = .live ∧ 0 < c.mcr then some c else none }

/-- `Commit`, `CommitUsed` or `Refund`. -/
def resolveCharge (how : Resolve) : Work reg Unit := run (Meter.resolve how)

/-- `defer reservation.Refund()`. -/
def deferRefund (h : Work reg α) : Work reg α := deferring (Meter.resolve .refund) h

/-- `defer func() { reservation.CommitUsed(usedCharge) }()`. -/
def deferCommitUsed (h : Work reg α) : Work reg α :=
  deferring (fun m ↦ m.resolve (.commitUsed m.usedCharge)) h

/-- Set what was used. -/
def setUsed (mcr : ℤ) : Work reg Unit := modify fun m ↦ { m with usedCharge := mcr }

/-! ### The client -/

/-- `clientFor`, with its `release` deferred. -/
def withClient (a : AuthCtx) (h : Address → Work reg α) : Work reg α := do
  let signer ← check (← query (.clientFor a))
  deferring (fun m ↦ .ask (.release a) fun _ ↦ .ret m) (h signer)

/-- A call whose error is answered. -/
def callClient (c : Call) : Work reg (Value × Bytes) := do
  check ((← query (.call c)).mapError .chainError)

/-- A call that only reads, and whose error is answered. -/
def simulated (c : Call) : Work reg Value := do
  check ((← query (.simulate c)).mapError .chainError)

/-! ### Rules

A handler is verified along its text, with one rule for each thing it does before it goes on. -/

section Rules

variable {G : Type} {L : Law (@Ask.Reply d reg) G} {m : Meter} {g : G} {β : Type}
  {f : α → Work reg β} {Q : β → Meter → G → Prop} {X : Response → Meter → G → Prop}

/-- What is done while a handler is left: nothing, or one more question. -/
def Closes (L : Law (@Ask.Reply d reg) G) (e : Option (Ask reg)) (g : G) (P : G → Prop) : Prop :=
  match e with
  | none => P g
  | some e => L.may g e ∧ ∀ r, L.possible g e r → P (L.next g e r)

/-- The question that resolves a reservation, if it is active. -/
def Meter.resolving (how : Resolve) (m : Meter) : Option (Ask reg) := m.active.map (.resolve · how)

/-- A resolved reservation. -/
def Meter.resolved (m : Meter) : Meter := { m with active := none }

theorem keeps_resolve {how : Resolve} {P : Meter → G → Prop} :
    (m.resolve how).Keeps L g P ↔ Closes L (m.resolving how) g (P m.resolved) := by
  rcases m with ⟨- | c, usedCharge⟩
  · exact Iff.rfl
  · exact Iff.rfl

theorem step_query {e : Ask reg} {f : e.Reply → Work reg β} (hmay : L.may g e)
    (hgo : ∀ r, L.possible g e r → (f r).Keeps L m (L.next g e r) Q X) :
    (query e >>= f).Keeps L m g Q X := keeps_bind.2 (keeps_ask.2 ⟨hmay, hgo⟩)

/-- A question that leaves the record as it is. -/
theorem step_silent {e : Ask reg} {f : e.Reply → Work reg β} (he : L.Silent g e)
    (hgo : ∀ r, L.possible g e r → (f r).Keeps L m g Q X) : (query e >>= f).Keeps L m g Q X :=
  step_query he.1 fun r hr ↦ (he.2 r).symm ▸ hgo r hr

theorem keeps_checked {x : Except Problem α} {Q : α → Meter → G → Prop}
    (hgo : ∀ a, x = .ok a → Q a m g) (hstop : ∀ p, x = .error p → X (.problem p) m g) :
    (checked x : Work reg α).Keeps L m g Q X := by
  rw [checked, keeps_check]
  rcases x with p | a
  · exact ⟨fun _ h ↦ absurd h nofun, fun y h ↦ Except.error.inj h ▸ hstop p rfl⟩
  · exact ⟨fun b h ↦ Except.ok.inj h ▸ hgo a rfl, fun _ h ↦ absurd h nofun⟩

theorem step_checked {x : Except Problem α} (hgo : ∀ a, x = .ok a → (f a).Keeps L m g Q X)
    (hstop : ∀ p, x = .error p → X (.problem p) m g) : (checked x >>= f).Keeps L m g Q X :=
  keeps_bind.2 (keeps_checked hgo hstop)

theorem keeps_orStop {x : Option α} {status : ℕ} {message : String} {Q : α → Meter → G → Prop}
    (hgo : ∀ a, x = some a → Q a m g) (hstop : X (.problem ⟨status, message⟩) m g) :
    (orStop x status message : Work reg α).Keeps L m g Q X := by
  refine keeps_checked (fun a h ↦ hgo a (orProblem_eq_ok.1 h)) fun p h ↦ ?_
  rcases x with - | a
  · exact Except.error.inj h ▸ hstop
  · exact absurd h nofun

theorem step_orStop {x : Option α} {status : ℕ} {message : String}
    (hgo : ∀ a, x = some a → (f a).Keeps L m g Q X)
    (hstop : X (.problem ⟨status, message⟩) m g) :
    (orStop x status message >>= f).Keeps L m g Q X := keeps_bind.2 (keeps_orStop hgo hstop)

theorem step_problemWhen {p : Prop} [Decidable p] {status : ℕ} {message : String}
    {f : Unit → Work reg β} (hgo : ¬p → (f ()).Keeps L m g Q X)
    (hstop : p → X (.problem ⟨status, message⟩) m g) :
    (problemWhen p status message >>= f).Keeps L m g Q X :=
  keeps_bind.2 (keeps_stopWhen.2 ⟨hstop, hgo⟩)

/-- The reservation a charge leaves. -/
def Charge.reservation (c : Charge) : Option Charge :=
  if c.account.env = .live ∧ 0 < c.mcr then some c else none

theorem step_reserveCharge {c : Charge} {f : Unit → Work reg β} (hmay : L.may g (.reserveCharge c))
    (hgo : L.possible g (.reserveCharge c) (.ok ()) → (f ()).Keeps L
      { m with active := c.reservation } (L.next g (.reserveCharge c) (.ok ())) Q X)
    (hstop : ∀ p, L.possible g (.reserveCharge c) (.error p) →
      X (.problem p) m (L.next g (.reserveCharge c) (.error p))) :
    (reserveCharge c >>= f).Keeps L m g Q X := by
  refine keeps_bind.2 (step_query hmay fun r hr ↦ ?_)
  refine step_checked (fun _ hok ↦ ?_) fun p herror ↦ ?_
  · obtain rfl : r = .ok () := hok
    exact keeps_modify.2 (hgo hr)
  · obtain rfl : r = .error p := herror
    exact hstop p hr

theorem step_resolveCharge {how : Resolve} {f : Unit → Work reg β}
    (hgo : Closes L (m.resolving how) g fun g ↦ (f ()).Keeps L m.resolved g Q X) :
    (resolveCharge how >>= f).Keeps L m g Q X :=
  keeps_bind.2 (keeps_run.2 (keeps_resolve.2 hgo))

/-- Resolving a reservation, where that leaves the record as it is. -/
theorem closes_resolving {how : Resolve} {P : G → Prop} (hsilent : ∀ c, L.Silent g (.resolve c how))
    (h : P g) : Closes L (m.resolving how) g P := by
  rcases m with ⟨- | c, usedCharge⟩
  · exact h
  · exact ⟨(hsilent c).1, fun r _ ↦ ((hsilent c).2 r).symm ▸ h⟩

theorem keeps_deferRefund {h : Work reg β}
    (hh : h.Keeps L m g
      (fun b m g ↦ Closes L (m.resolving .refund) g (Q b m.resolved))
      fun x m g ↦ Closes L (m.resolving .refund) g (X x m.resolved)) :
    (deferRefund h).Keeps L m g Q X :=
  keeps_deferring.2 (hh.mono (fun _ _ _ ↦ keeps_resolve.2) fun _ _ _ ↦ keeps_resolve.2)

theorem keeps_deferCommitUsed {h : Work reg β}
    (hh : h.Keeps L m g
      (fun b m g ↦ Closes L (m.resolving (.commitUsed m.usedCharge)) g (Q b m.resolved))
      fun x m g ↦ Closes L (m.resolving (.commitUsed m.usedCharge)) g (X x m.resolved)) :
    (deferCommitUsed h).Keeps L m g Q X :=
  keeps_deferring.2 (hh.mono (fun _ _ _ ↦ keeps_resolve.2) fun _ _ _ ↦ keeps_resolve.2)

theorem step_reserveCharge_silent {c : Charge} {f : Unit → Work reg β}
    (hsilent : L.Silent g (.reserveCharge c)) (hgo : ∀ m, (f ()).Keeps L m g Q X)
    (hstop : ∀ p, X (.problem p) m g) : (reserveCharge c >>= f).Keeps L m g Q X :=
  step_reserveCharge hsilent.1 (fun _ ↦ (hsilent.2 _).symm ▸ hgo _)
    fun p _ ↦ (hsilent.2 (.error p)).symm ▸ hstop p

theorem step_resolveCharge_silent {how : Resolve} {f : Unit → Work reg β}
    (hsilent : ∀ c, L.Silent g (.resolve c how)) (hgo : ∀ m, (f ()).Keeps L m g Q X) :
    (resolveCharge how >>= f).Keeps L m g Q X :=
  step_resolveCharge (closes_resolving hsilent (hgo _))

theorem keeps_deferRefund_silent {h : Work reg β} {Q : β → G → Prop} {X : Response → G → Prop}
    (hsilent : ∀ g c how, L.Silent g (.resolve c how))
    (hh : h.Keeps L m g (fun b _ ↦ Q b) fun x _ ↦ X x) :
    (deferRefund h).Keeps L m g (fun b _ ↦ Q b) fun x _ ↦ X x :=
  keeps_deferRefund (hh.mono (fun _ _ g ↦ closes_resolving fun c ↦ hsilent g c _)
    fun _ _ g ↦ closes_resolving fun c ↦ hsilent g c _)

theorem keeps_deferCommitUsed_silent {h : Work reg β} {Q : β → G → Prop} {X : Response → G → Prop}
    (hsilent : ∀ g c how, L.Silent g (.resolve c how))
    (hh : h.Keeps L m g (fun b _ ↦ Q b) fun x _ ↦ X x) :
    (deferCommitUsed h).Keeps L m g (fun b _ ↦ Q b) fun x _ ↦ X x :=
  keeps_deferCommitUsed (hh.mono (fun _ _ g ↦ closes_resolving fun c ↦ hsilent g c _)
    fun _ _ g ↦ closes_resolving fun c ↦ hsilent g c _)

theorem step_setUsed {mcr : ℤ} {f : Unit → Work reg β}
    (hgo : (f ()).Keeps L { m with usedCharge := mcr } g Q X) :
    (setUsed mcr >>= f).Keeps L m g Q X := keeps_bind.2 (keeps_modify.2 hgo)

theorem keeps_withClient {a : AuthCtx} {h : Address → Work reg β} (hmay : L.may g (.clientFor a))
    (hgo : ∀ signer, L.possible g (.clientFor a) (.ok signer) →
      (h signer).Keeps L m (L.next g (.clientFor a) (.ok signer))
        (fun b m g ↦ Closes L (some (.release a)) g (Q b m))
        fun x m g ↦ Closes L (some (.release a)) g (X x m))
    (hstop : ∀ x, L.possible g (.clientFor a) (.error x) →
      X x m (L.next g (.clientFor a) (.error x))) :
    (withClient a h).Keeps L m g Q X := by
  refine step_query hmay fun r hr ↦ keeps_bind.2 (keeps_check.2 ⟨fun signer hok ↦ ?_, ?_⟩)
  · obtain rfl : r = .ok signer := hok
    exact keeps_deferring.2 (hgo signer hr)
  · rintro x rfl
    exact hstop x hr

theorem keeps_checkChain {x : Except ChainError α} {Q : α → Meter → G → Prop}
    (hgo : ∀ a, x = .ok a → Q a m g) (hstop : ∀ e, x = .error e → X (.chainError e) m g) :
    (check (x.mapError .chainError) : Work reg α).Keeps L m g Q X := by
  rw [keeps_check]
  rcases x with e | a
  · exact ⟨fun _ h ↦ absurd h nofun, fun y h ↦ Except.error.inj h ▸ hstop e rfl⟩
  · exact ⟨fun b h ↦ Except.ok.inj h ▸ hgo a rfl, fun _ h ↦ absurd h nofun⟩

theorem step_callClient {c : Call} {f : Value × Bytes → Work reg β} (hmay : L.may g (.call c))
    (hgo : ∀ v, L.possible g (.call c) (.ok v) → (f v).Keeps L m (L.next g (.call c) (.ok v)) Q X)
    (hstop : ∀ e, L.possible g (.call c) (.error e) →
      X (.chainError e) m (L.next g (.call c) (.error e))) :
    (callClient c >>= f).Keeps L m g Q X := by
  refine keeps_bind.2 (step_query hmay fun r hr ↦ keeps_checkChain (fun v hv ↦ ?_) fun e he ↦ ?_)
  · obtain rfl : r = .ok v := hv
    exact hgo v hr
  · obtain rfl : r = .error e := he
    exact hstop e hr

theorem step_simulated {c : Call} {f : Value → Work reg β} (hmay : L.may g (.simulate c))
    (hgo : ∀ v, L.possible g (.simulate c) (.ok v) →
      (f v).Keeps L m (L.next g (.simulate c) (.ok v)) Q X)
    (hstop : ∀ e, L.possible g (.simulate c) (.error e) →
      X (.chainError e) m (L.next g (.simulate c) (.error e))) :
    (simulated c >>= f).Keeps L m g Q X := by
  refine keeps_bind.2 (step_query hmay fun r hr ↦ keeps_checkChain (fun v hv ↦ ?_) fun e he ↦ ?_)
  · obtain rfl : r = .ok v := hv
    exact hgo v hr
  · obtain rfl : r = .error e := he
    exact hstop e hr

end Rules

/-- The id a value stands for. -/
def Value.id : Value → UInt64
  | u64 n => n
  | _ => 0

/-- The ids a value stands for. -/
def Value.tokenIDs : Value → List UInt64
  | ids l => l
  | _ => []

/-- `RegisterShared`. -/
def registerSharedCode (signer : Address) (chainID : UInt64) (j : SharedJob) : Work reg Bytes := do
  match I128.ofInt? j.rate with
  | none => stop (.chainError .other)
  | some rate => do
    let (_, txHash) ← callClient (.registerShared signer chainID (utf8 j.code) j.attributedTo
      j.payoutToken rate)
    return txHash

/-! ### Campaigns, programs and shared codes -/

/-- `handleCreateCampaign`. -/
def handleCreateCampaign (cl : Platform) (a : AuthCtx) (body : CampaignBody) :
    Work reg Response := do
  let first ← query .now
  let second ← query .now
  let job ← checked (cl.campaignRequest first second body)
  reserveCharge ⟨a, "create_campaign", job.name,
    mcrCreateCampaign + if job.shared.isSome then mcrRegisterShared else 0⟩
  deferCommitUsed <| withClient a fun signer ↦ do
    let (value, txHash) ← callClient (.createCampaign signer (utf8 job.name) (utf8 job.discountType)
      job.discountValue.toUInt64 job.totalSupply.toUInt64.toUInt32 job.validUntil.toUInt64)
    setUsed mcrCreateCampaign
    let id ← orStop (← query (.insertCampaign ⟨a, value.id, job.kind, job.name, job.discountType,
      job.discountValue, job.totalSupply, job.validUntil, txHash⟩)) 500 "internal server error"
    match job.shared with
    | none => return .campaignCreated id
    | some shared => do
      let sharedTx ← registerSharedCode signer value.id shared
      setUsed (mcrCreateCampaign + mcrRegisterShared)
      let stored : Bool ← query (.insertShared id
        ⟨shared.code, shared.attributedTo, shared.payoutToken, shared.rate, sharedTx⟩)
      problemWhen (stored = false) 500
        "shared code was registered on-chain but could not be indexed locally"
      return .campaignCreated id

/-- The code punches of a program are anchored under. -/
def earnCode : String := "PUNCH"

/-- `handleCreateProgram`. -/
def handleCreateProgram (a : AuthCtx) (body : ProgramBody) : Work reg Response := do
  let job ← checked (programRequest body)
  reserveCharge ⟨a, "create_campaign", job.name ++ " (loyalty)",
    mcrCreateCampaign + mcrRegisterShared⟩
  deferCommitUsed <| withClient a fun signer ↦ do
    let clock ← query .now
    let validUntil := clock.inYears job.validYears
    let (value, txHash) ← callClient (.createCampaign signer (utf8 job.name)
      (utf8 job.rewardDiscountType) job.rewardDiscountValue.toUInt64 10000 validUntil.toUInt64)
    setUsed mcrCreateCampaign
    let sharedTx ← registerSharedCode signer value.id ⟨earnCode, none, none, 0⟩
    setUsed (mcrCreateCampaign + mcrRegisterShared)
    let (programID, campaignID) ← orStop (← query (.insertProgram
      ⟨a, value.id, "loyalty", job.name, job.rewardDiscountType, job.rewardDiscountValue, 10000,
        validUntil, txHash⟩
      ⟨job.name, job.threshold, earnCode, job.rewardDiscountType, job.rewardDiscountValue⟩
      ⟨earnCode, none, none, 0, sharedTx⟩)) 500 "program exists on-chain but local indexing failed"
    return .programCreated programID campaignID

/-- The campaign of a request that writes to it. -/
def writableCampaign (a : AuthCtx) (id : ℕ) : Work reg CampaignView := do
  let c ← orStop (← query (.campaignByID a id)) 404 "campaign not found"
  problemWhen (c.row.archived = true) 409 "campaign is archived"
  stopWhen (c.row.contractID ≠ d.currentContractID) (.problem legacyProblem)
  return c

/-- `handleRegisterShared`. -/
def handleRegisterShared (cl : Platform) (a : AuthCtx) (id : ℕ) (body : SharedTerms) :
    Work reg Response := do
  let c ← writableCampaign a id
  let job ← checked (cl.sharedRequest body)
  reserveCharge ⟨a, "register_shared", job.code, mcrRegisterShared⟩
  deferRefund <| withClient a fun signer ↦ do
    let txHash ← registerSharedCode signer c.row.chainID job
    resolveCharge .commit
    let stored : Bool ← query (.insertShared id
      ⟨job.code, job.attributedTo, job.payoutToken, job.rate, txHash⟩)
    problemWhen (stored = false) 500
      "shared code was registered on-chain but could not be indexed locally"
    return .sharedRegistered job.code txHash

/-! ### Unique codes -/

/-- Codes of twelve letters each. -/
def genCodes (codePrefix : String) : ℕ → Work reg (List String)
  | 0 => return []
  | n + 1 => do
    let letters ← orStop (← query (.randInts generatedLen)) 500 "secure randomness unavailable"
    let codes ← genCodes codePrefix n
    return genCode codePrefix letters :: codes

/-- The codes of a request to issue: those it gives, and those it has generated. -/
def requestedCodes (cl : Platform) (body : IssueBody) : Work reg (List String) :=
  match body.generate with
  | none => return cl.givenCodes body.codes
  | some g =>
    if 0 < g.count then do
      let codePrefix ← checked (cl.generateRequest (cl.givenCodes body.codes) g)
      return cl.givenCodes body.codes ++ (← genCodes codePrefix g.count.toInt.toNat)
    else return cl.givenCodes body.codes

/-- The codes of a request, cut to the bound of the contract. -/
def issueBatches (codes : List String) : List (List String) :=
  (List.range ((codes.length + (maxBatch - 1)) / maxBatch)).map fun i ↦
    page codes (i * maxBatch) maxBatch

/-- The rows of a batch that was issued. -/
def issuedRows (codes : List String) (value : Value) (txHash : Bytes) : List IssuedCode :=
  codes.mapIdx fun i code ↦ ⟨code, value.tokenIDs[i]?, txHash⟩

/-- A row for each code. -/
def insertCodes (campaignID : ℕ) : List IssuedCode → Work reg Unit
  | [] => return ()
  | row :: rows => do
    query (.insertCode campaignID row)
    insertCodes campaignID rows

/-- One batch after the other, with what was issued before. An error after the first batch is
answered with what was issued. -/
def issueCodes (signer : Address) (chainID : UInt64) (campaignID : ℕ) :
    List (List String) → List IssuedCode → Work reg (List IssuedCode)
  | [], issued => return issued
  | batch :: batches, issued => do
    match ← query (.call (.issueUnique signer chainID (batch.map utf8))) with
    | .error e =>
      if issued.length ≠ 0 then do
        resolveCharge (.commitUsed (issued.length * mcrIssuePerCode))
        stop (.partlyIssued issued e)
      else stop (.chainError e)
    | .ok (value, txHash) => do
      insertCodes campaignID (issuedRows batch value txHash)
      issueCodes signer chainID campaignID batches (issued ++ issuedRows batch value txHash)

/-- `handleIssueCodes`. -/
def handleIssueCodes (cl : Platform) (a : AuthCtx) (id : ℕ) (body : IssueBody) :
    Work reg Response := do
  let c ← writableCampaign a id
  let codes ← requestedCodes cl body
  checked (checkCodes codes)
  reserveCharge ⟨a, "issue_codes", toString codes.length ++ " codes · " ++ c.name,
    codes.length * mcrIssuePerCode⟩
  deferRefund <| withClient a fun signer ↦ do
    let issued ← issueCodes signer c.row.chainID id (issueBatches codes) []
    query (.addMinted id issued.length)
    resolveCharge .commit
    return .issued issued

/-- The body of a request to redeem a code. -/
structure RedeemBody where
  campaignID : ℕ
  code : String
  redeemerRef : String

/-- The commitment to who redeems: of a name, or of nothing. -/
def redeemerHash (nonce : Bytes) (redeemerRef : String) : Work reg (BytesN 32) := do
  if redeemerRef ≠ "" then return d.sha256 (nonce ++ ascii "|" ++ utf8 redeemerRef)
  else orStop (← query .randRead) 500 "secure randomness unavailable"

/-- `handleRedeem`. -/
def handleRedeem (cl : Platform) (a : AuthCtx) (body : RedeemBody) : Work reg Response := do
  let code := cl.normalize body.code
  problemWhen (maxReferenceLen < body.redeemerRef.utf8ByteSize) 400 "redeemer_ref exceeds 512 bytes"
  let c ← writableCampaign a body.campaignID
  let nonce ← orStop (← query .randHex) 500 "secure randomness unavailable"
  let refHash ← redeemerHash nonce body.redeemerRef
  reserveCharge ⟨a, "redeem", code ++ " · " ++ c.name, mcrRedeem⟩
  deferRefund <| withClient a fun signer ↦ do
    match ← query (.call (.redeemUnique signer c.row.chainID (utf8 code) refHash)) with
    | .error e => return .redemptionRejected e
    | .ok (value, txHash) => do
      resolveCharge .commit
      query (.redeemCode body.campaignID code)
      query (.addBurned body.campaignID)
      return .redeemed value txHash nonce

/-! ### Events and punches -/

/-- `handleRecordEvents`. -/
def handleRecordEvents (cl : Platform) (a : AuthCtx) (campaignID : ℕ) (pathCode : String)
    (body : EventBody) : Work reg Response := do
  let code := cl.unicode.toUpper pathCode
  let e ← checked (← query (.recordEvents a campaignID (utf8 code) body))
  reserveCharge ⟨a, "shared_event", code, e.count.1.toInt * mcrSharedEvent⟩
  deferRefund do
    checked (← query (.storeEvent a e))
    resolveCharge .commit
    return .recorded e.receipt

/-- The price of a punch, with the rewards it earns. -/
def punchCharge (p : PunchJob reg) (plan : PunchPlan) : ℤ :=
  p.count.1.toInt * mcrPunch + plan.newRewards * mcrIssuePerCode

/-- The transaction of a punch. -/
def storePunch (p : PunchJob reg) (plan : PunchPlan) (issued : List IssuedCode) :
    Work reg Response := do
  checked (← query (.storePunch p plan.receipt issued))
  setUsed (punchCharge p plan)
  return .punched p.ref plan.after (issued.map (·.code)) plan.receipt

/-- The rewards of a punch. -/
def issueRewards (p : PunchJob reg) (plan : PunchPlan) (signer : Address) :
    Work reg (List IssuedCode) := do
  let codes ← genCodes "RW" plan.newRewards
  let (value, txHash) ← callClient (.issueUnique signer p.sc.campaign.chainID (codes.map utf8))
  setUsed (codes.length * mcrIssuePerCode)
  problemWhen (value.tokenIDs.length ≠ codes.length) 500
    "reward vouchers were issued on-chain but token ids were not decoded"
  return issuedRows codes value txHash

/-- `handlePunch`. -/
def handlePunch (a : AuthCtx) (id : ℕ) (body : PunchBody) : Work reg Response := do
  let (p, name) ← checked (← query (.punch a id body))
  query (.lockProgram a p.program.id)
  deferring (fun m ↦ .ask (.unlockProgram a p.program.id) fun _ ↦ .ret m) do
    checked (← query (.migrateCustomer p))
    checked (← query (.checkEventRef p))
    let before ← checked (← query (.loyaltyBalance p))
    let plan ← checked (← query (.planPunch p before))
    reserveCharge ⟨a, "punch", name, punchCharge p plan⟩
    deferCommitUsed <|
      if plan.newRewards = 0 then storePunch p plan []
      else withClient a fun signer ↦ do
        storePunch p plan (← issueRewards p plan signer)

/-! ### Tallies -/

/-- A number with a leading zero where it has one digit. -/
def twoDigits (n : UInt64) : String :=
  if n < 10 then "0" ++ toString n.toNat else toString n.toNat

/-- `periodLabel`. -/
def periodLabel (p : UInt64) : String :=
  let base := if 10000000 ≤ p then p / 100 else p
  let batch := if 10000000 ≤ p then p % 100 else 0
  toString (base / 100).toNat ++ "-W" ++ twoDigits (base % 100) ++
    if 0 < batch then "." ++ twoDigits batch else ""

example : periodLabel 202628 = "2026-W28" := by decide
example : periodLabel 20262803 = "2026-W28.03" := by decide

/-- The period of a request to commit, or the next one. -/
def commitPeriod (sc : CurrentCode reg) (period : UInt64) : Work reg UInt64 := do
  if period = 0 then checked (← query (.nextCommitPeriod sc)) else return period

/-- `handleCommitTally`. -/
def handleCommitTally (cl : Platform) (a : AuthCtx) (campaignID : ℕ) (pathCode : String)
    (period : UInt64) : Work reg Response := do
  let code := cl.unicode.toUpper pathCode
  let sc ← checked (← query (.sharedByCampaignCode a campaignID (utf8 code)))
  let period ← commitPeriod sc period
  problemWhen (validCloudPeriod period = false) 400
    "period must be YYYYWW or YYYYWW01..YYYYWW99 for a valid ISO week"
  let unsigned ← checked (← query (.unsignedReceipts sc))
  problemWhen (0 < unsigned) 409 ("legacy unsigned events cannot be anchored as signed " ++
    "receipts; export and reconcile them explicitly")
  withClient a fun signer ↦ do
    let b ← checked (← query (.gatherBatch sc))
    reserveCharge ⟨a, "commit_tally", code ++ " · " ++ periodLabel period, mcrCommitTally⟩
    deferRefund do
      let (_, txHash) ← callClient (.commitTally signer sc.campaign.chainID sc.row.code period
        b.count (merkleRoot (.zero 32) (merkleParent d.sha256) b.leaves)
        (b.attribution sc.row.attributedTo))
      resolveCharge .commit
      let row := tallyRow d.sha256 sc.row period b txHash
      checked (← query (.storeTally row b.eventIDs))
      return .committed period b.total b.eventIDs.length row.merkleRoot txHash

/-- The body of a request to settle a period. -/
structure SettleBody where
  campaignID : ℕ
  code : String
  period : UInt64

/-- The token a shared code is paid in. -/
def Value.payoutToken : Value → Option Address
  | shared c => c.payoutToken
  | _ => none

/-- The payouts a value stands for. -/
def Value.payoutList : Value → List Payout
  | payouts l => l
  | _ => []

/-- `reconcileExternalSettlement`, and its answer. -/
def reconcileExternalSettlement (sc : CurrentCode reg) (period : UInt64) (message : String) :
    Work reg α := do
  query (.reconcile sc.row.id period)
  stop (.problem ⟨409, message⟩)

/-- The check of `handleSettle` that the period is not settled, which an error passes. -/
def checkUnsettled (sc : CurrentCode reg) (period : UInt64) : Work reg Unit := do
  match ← query (.simulate (.isSettled sc.campaign.chainID sc.row.code period)) with
  | .ok (.bool true) => reconcileExternalSettlement sc period ("this period is already settled " ++
      "on-chain (possibly by a third-party keeper); local records were reconciled")
  | _ => return ()

/-- The approval of exactly what a period pays. -/
def approvePayouts (token owner : Address) (totalDue : ℤ) : Work reg Unit := do
  if 0 < totalDue then
    let latest ← check ((← query .latestLedger).mapError .chainError)
    let _ ← check ((← query (.approveSettlement token owner totalDue (latest + 720))).mapError
      .chainError)

/-- `handleSettle`. -/
def handleSettle (cl : Platform) (a : AuthCtx) (body : SettleBody) : Work reg Response := do
  let code := cl.normalize body.code
  let sc ← checked (← query (.sharedByCampaignCode a body.campaignID (utf8 code)))
  reserveCharge ⟨a, "settle", code ++ " · " ++ periodLabel body.period, mcrSettle⟩
  deferRefund <| withClient a fun signer ↦ do
    let shared ← simulated (.getShared sc.campaign.chainID sc.row.code)
    let token ← orStop shared.payoutToken 409 "settlement is not configured for this code"
    checkUnsettled sc body.period
    let preview ← simulated (.computePayouts sc.campaign.chainID sc.row.code body.period)
    approvePayouts token signer (payoutSum preview.payoutList)
    match ← query (.call (.settle signer sc.campaign.chainID sc.row.code body.period)) with
    | .error (.contract .alreadySettled) =>
      reconcileExternalSettlement sc body.period ("a keeper settled this period between " ++
        "approval and settlement; local records were reconciled and the unused exact allowance " ++
        "expires on its own")
    | .error e => stop (.chainError e)
    | .ok (value, txHash) => do
      resolveCharge .commit
      let total := payoutSum value.payoutList
      query (.settleTally sc.row.id body.period txHash total)
      return .settled value.payoutList total txHash

/-! ### Rules of the parts -/

section Parts

variable {G β : Type} {L : Law (@Ask.Reply d reg) G} {m : Meter} {g : G}
  {Q : β → Meter → G → Prop} {X : Response → Meter → G → Prop}

theorem step_writableCampaign {a : AuthCtx} {id : ℕ} {f : CampaignView → Work reg β}
    (hsilent : L.Silent g (.campaignByID a id))
    (hgo : ∀ c, L.possible g (.campaignByID a id) (some c) →
      c.row.contractID = d.currentContractID → (f c).Keeps L m g Q X)
    (hstop : ∀ p, X (.problem p) m g) : (writableCampaign a id >>= f).Keeps L m g Q X := by
  refine keeps_bind.2 (step_silent hsilent fun r hr ↦ ?_)
  refine step_orStop (fun c hc ↦ ?_) (hstop _)
  obtain rfl : r = some c := hc
  refine step_problemWhen (fun _ ↦ ?_) fun _ ↦ hstop _
  refine keeps_bind.2 (keeps_stopWhen.2 ⟨fun _ ↦ hstop _, fun hcurrent ↦ ?_⟩)
  exact keeps_pure.2 (hgo c hr (not_not.1 hcurrent))

/-- As many codes as are asked for, each of its letters. -/
theorem keeps_genCodes (hsilent : ∀ n, L.Silent g (.randInts n))
    (hstop : ∀ p, X (.problem p) m g) (codePrefix : String) (n : ℕ) :
    (genCodes codePrefix n : Work reg (List String)).Keeps L m g
      (fun codes m' g' ↦ m' = m ∧ g' = g ∧ codes.length = n ∧
        ∀ code ∈ codes, ∃ letters : Letters generatedLen, code = genCode codePrefix letters) X := by
  induction n with
  | zero => exact keeps_pure.2 ⟨rfl, rfl, rfl, fun _ h ↦ absurd h List.not_mem_nil⟩
  | succ n ih =>
    refine step_silent (hsilent generatedLen) fun letters _ ↦ ?_
    refine step_orStop (fun letters _ ↦ keeps_bind.2 (ih.mono ?_ fun _ _ _ h ↦ h)) (hstop _)
    rintro codes _ _ ⟨rfl, rfl, hlength, hcodes⟩
    refine keeps_pure.2 ⟨rfl, rfl, by rw [List.length_cons, hlength], fun code hmem ↦ ?_⟩
    rcases List.mem_cons.1 hmem with rfl | hmem
    · exact ⟨letters, rfl⟩
    · exact hcodes code hmem

/-- Codes that are given or generated. -/
theorem step_requestedCodes {cl : Platform} {body : IssueBody} {f : List String → Work reg β}
    (hsilent : ∀ n, L.Silent g (.randInts n))
    (hgo : ∀ codes, (∀ code ∈ codes, code ∈ cl.givenCodes body.codes ∨
      ∃ codePrefix, ∃ letters : Letters generatedLen, code = genCode codePrefix letters) →
        (f codes).Keeps L m g Q X)
    (hstop : ∀ p, X (.problem p) m g) : (requestedCodes cl body >>= f).Keeps L m g Q X := by
  have hgiven := hgo (cl.givenCodes body.codes) fun _ ↦ Or.inl
  refine keeps_bind.2 ?_
  rw [requestedCodes]
  split
  · exact keeps_pure.2 hgiven
  · split
    · refine step_checked (fun codePrefix _ ↦ keeps_bind.2 ?_) fun p _ ↦ hstop p
      refine (keeps_genCodes hsilent hstop codePrefix _).mono ?_ fun _ _ _ h ↦ h
      rintro codes _ _ ⟨rfl, rfl, -, hcodes⟩
      refine keeps_pure.2 (hgo _ fun code hmem ↦ ?_)
      exact (List.mem_append.1 hmem).imp_right fun hmem ↦ ⟨codePrefix, hcodes code hmem⟩
    · exact keeps_pure.2 hgiven

theorem step_redeemerHash {nonce : Bytes} {redeemerRef : String} {f : BytesN 32 → Work reg β}
    (hsilent : L.Silent g .randRead) (hgo : ∀ refHash, (f refHash).Keeps L m g Q X)
    (hstop : ∀ p, X (.problem p) m g) : (redeemerHash nonce redeemerRef >>= f).Keeps L m g Q X := by
  refine keeps_bind.2 ?_
  rw [redeemerHash]
  split
  · exact keeps_pure.2 (hgo _)
  · exact step_silent hsilent fun _ _ ↦ keeps_orStop (fun refHash _ ↦ hgo refHash) (hstop _)

theorem step_commitPeriod {sc : CurrentCode reg} {period : UInt64} {f : UInt64 → Work reg β}
    (hsilent : L.Silent g (.nextCommitPeriod sc)) (hgo : ∀ period, (f period).Keeps L m g Q X)
    (hstop : ∀ p, X (.problem p) m g) : (commitPeriod sc period >>= f).Keeps L m g Q X := by
  refine keeps_bind.2 ?_
  rw [commitPeriod]
  split
  · exact step_silent hsilent fun _ _ ↦ keeps_checked (fun period _ ↦ hgo period) fun p _ ↦ hstop p
  · exact keeps_pure.2 (hgo period)

theorem step_insertCodes {campaignID : ℕ} {f : Unit → Work reg β}
    (hsilent : ∀ row, L.Silent g (.insertCode campaignID row))
    (hgo : (f ()).Keeps L m g Q X) (rows : List IssuedCode) :
    (insertCodes campaignID rows >>= f).Keeps L m g Q X := by
  refine keeps_bind.2 ?_
  induction rows with
  | nil => exact keeps_pure.2 hgo
  | cons row rows ih => exact step_silent (hsilent row) fun _ _ ↦ ih

/-- The check that a period is not settled: what its reads find, and the records of a period that
is. -/
theorem step_checkUnsettled {sc : CurrentCode reg} {period : UInt64} {f : Unit → Work reg β}
    (hread : L.Silent g (.simulate (.isSettled sc.campaign.chainID sc.row.code period)))
    (hrecord : L.Silent g (.reconcile sc.row.id period)) (hgo : (f ()).Keeps L m g Q X)
    (hstop : ∀ p, X (.problem p) m g) : (checkUnsettled sc period >>= f).Keeps L m g Q X := by
  refine keeps_bind.2 (step_silent hread fun r _ ↦ ?_)
  split
  · exact step_silent hrecord fun _ _ ↦ keeps_stop.2 (hstop _)
  · exact keeps_pure.2 hgo

theorem step_approvePayouts {token owner : Address} {totalDue : ℤ} {f : Unit → Work reg β}
    (hread : L.Silent g .latestLedger)
    (happrove : ∀ last, L.Silent g (.approveSettlement token owner totalDue last))
    (hgo : (f ()).Keeps L m g Q X) (hstop : ∀ e, X (.chainError e) m g) :
    (approvePayouts token owner totalDue >>= f).Keeps L m g Q X := by
  refine keeps_bind.2 ?_
  rw [approvePayouts]
  split
  · refine step_silent hread fun _ _ ↦ keeps_bind.2 (keeps_checkChain (fun latest _ ↦ ?_) ?_)
    · exact step_silent (happrove _) fun _ _ ↦ keeps_bind.2
        (keeps_checkChain (fun _ _ ↦ keeps_pure.2 hgo) fun e _ ↦ hstop e)
    · exact fun e _ ↦ hstop e
  · exact keeps_pure.2 hgo

end Parts

end Soroticket
