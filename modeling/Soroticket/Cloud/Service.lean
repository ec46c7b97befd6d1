import Soroticket.Cloud.Handlers
import Soroticket.Ledger.Runs
import Soroticket.Machine.Interleaving

/-!
# Requests, one step at a time

The handlers `handleRecordEvents`, `handlePunch` and `handleCommitTally` as requests that advance by
atomic steps. A step is one statement or transaction on the database, one lock taken or given back,
or one call of the contract, which is the contract of `Ledger`. What a handler computes between two
of these is part of the step before.

A `Choice` is what the surroundings decide at a step: the time and the signer, whether a transaction
that may fail does, how many rows an iteration delivers, and whether a call of the contract lands.
A call that does not land had no effect, and one that lands is reported as landed; the transaction
after a landed commit does not fail for reasons of the database. Other users of the ledger run any
transactions between two steps, but commits to a campaign of the service, which need the signature
of its account.
-/

namespace Soroticket

open Interleaving

variable {d : Deployment}

/-! ### The state -/

/-- The mutexes: one for each account, and one for each loyalty program. -/
inductive Lock where
  | account (a : AuthCtx)
  | loyalty (a : AuthCtx) (programID : ℕ)
  deriving DecidableEq

/-- What the requests share. -/
structure World where
  db : Database
  chain : ContractState
  locks : Lock → Bool

/-- Take a lock. -/
def World.lock (w : World) (k : Lock) : World := { w with locks := Function.update w.locks k true }

/-- Give a lock back. -/
def World.unlock (w : World) (k : Lock) : World :=
  { w with locks := Function.update w.locks k false }

/-- What the surroundings decide at a step. -/
structure Choice where
  env : Surroundings
  /-- Whether a transaction that may fail commits. -/
  stored : Bool
  /-- The rows an iteration delivers before it ends. -/
  read : ℕ
  /-- The ledger a call of the contract runs in. -/
  ledger : Env
  lands : Bool
  /-- The codes `genCode` generates, one for each reward. -/
  genCode : ℕ → Option Bytes
  /-- Whether the ids of issued tokens can be decoded. -/
  decoded : Bool
  txHash : Bytes

/-- What a request is answered with. -/
inductive Answer where
  | problem (p : Problem)
  | chainError
  | recorded (receipt : SignedReceipt)
  | punched (ref : Bytes) (after : Int64) (issued : List Bytes) (receipt : SignedReceipt)
  | committed (period : UInt64) (count : Int64) (receiptCount : ℕ) (merkleRoot txHash : Bytes)

/-- How far a request has come. -/
inductive Place (reg : Registry d) where
  | recordEvents (a : AuthCtx) (campaignID : ℕ) (code : Bytes) (body : EventBody)
  | recordStore (a : AuthCtx) (e : NewEvent)
  | punch (a : AuthCtx) (id : ℕ) (body : PunchBody)
  | punchLock (p : PunchJob reg)
  | punchMigrate (p : PunchJob reg)
  | punchDedup (p : PunchJob reg)
  | punchBalance (p : PunchJob reg)
  | punchRewards (p : PunchJob reg) (before : Int64)
  | punchAccount (p : PunchJob reg) (plan : PunchPlan)
  | punchIssue (p : PunchJob reg) (plan : PunchPlan) (signer : Address)
  | punchStore (p : PunchJob reg) (plan : PunchPlan) (issued : List Bytes) (rewarding : Bool)
  | punchRelease (p : PunchJob reg) (answer : Answer)
  | punchUnlock (p : PunchJob reg) (answer : Answer)
  | commitTally (a : AuthCtx) (campaignID : ℕ) (code : Bytes) (period : UInt64)
  | commitBase (sc : CurrentCode reg)
  | commitBatch (sc : CurrentCode reg) (base : UInt64) (baseExists : Bool)
  | commitUnsigned (sc : CurrentCode reg) (period : UInt64)
  | commitAccount (sc : CurrentCode reg) (period : UInt64)
  | commitSelect (sc : CurrentCode reg) (period : UInt64) (signer : Address)
  | commitAnchor (sc : CurrentCode reg) (period : UInt64) (signer : Address) (b : Batch)
  | commitStore (sc : CurrentCode reg) (period : UInt64) (b : Batch) (txHash : Bytes)
  | commitRelease (sc : CurrentCode reg) (answer : Answer)
  | answered (answer : Answer)

namespace Place

variable {reg : Registry d}

/-- The locks a request holds. -/
def locks : Place reg → List Lock
  | punchMigrate p | punchDedup p | punchBalance p | punchRewards p _ | punchAccount p _
  | punchUnlock p _ => [.loyalty p.account p.program.id]
  | punchIssue p _ _ | punchRelease p _ =>
    [.account p.account, .loyalty p.account p.program.id]
  | punchStore p _ _ rewarding =>
    if rewarding then [.account p.account, .loyalty p.account p.program.id]
    else [.loyalty p.account p.program.id]
  | commitSelect sc _ _ | commitAnchor sc _ _ _ | commitStore sc _ _ _ | commitRelease sc _ =>
    [.account sc.campaign.account]
  | _ => []

/-- A request that has just arrived. -/
def Arriving : Place reg → Prop
  | recordEvents .. | punch .. | commitTally .. => True
  | _ => False

/-- A commit between its check for unsigned events and the end of its transaction. -/
def anchoring : Place reg → Bool
  | commitAccount .. | commitSelect .. | commitAnchor .. | commitStore .. => true
  | _ => false

end Place

/-! ### Steps -/

section Steps

variable (reg : Registry d)

/-- A step that may have to wait for a lock. -/
def takeLock (w : World) (k : Lock) (p : Place reg) : Option (Place reg × World) :=
  if w.locks k then none else some (p, w.lock k)

/-- A step that goes on with a value, or stops with a problem and changes nothing. -/
def onward {α : Type} (x : Except Problem α) (stop : Problem → Place reg) (w : World)
    (next : α → Place reg × World) : Option (Place reg × World) :=
  match x with
  | .ok a => some (next a)
  | .error problem => some (stop problem, w)

/-- A transaction that may fail for reasons of the database. -/
def Choice.store (ch : Choice) (x : Except Problem Database) (message : String) :
    Except Problem Database := do
  let db ← x
  if ch.stored then return db else .error ⟨500, message⟩

/-- A commit whose period is chosen. -/
def withPeriod (sc : CurrentCode reg) (period : UInt64) : Place reg :=
  if validCloudPeriod period then .commitUnsigned sc period
  else .answered (.problem
    ⟨400, "period must be YYYYWW or YYYYWW01..YYYYWW99 for a valid ISO week"⟩)

/-- A punch that is done gives back what it holds. -/
def afterPunch (p : PunchJob reg) (rewarding : Bool) (answer : Answer) : Place reg :=
  if rewarding then .punchRelease p answer else .punchUnlock p answer

/-- The call with which a commit anchors its batch. -/
def anchorTx (sc : CurrentCode reg) (period : UInt64) (signer : Address) (b : Batch)
    (ledger : Env) : Tx where
  env := { ledger with auths := [signer] }
  call := .commitTally signer sc.campaign.chainID sc.row.code period b.count
    (merkleRoot (.zero 32) (merkleParent d.sha256) b.leaves) (b.attribution sc.row.attributedTo)
  replies := fun _ _ ↦ none

/-- The call with which a punch issues its rewards. -/
def issueTx (p : PunchJob reg) (signer : Address) (codes : List Bytes) (ledger : Env) : Tx where
  env := { ledger with auths := [signer] }
  call := .issueUnique signer p.sc.campaign.chainID codes
  replies := fun _ _ ↦ none

/-- A call of the contract through the client: the state it leaves, or `none` where it reports an
error. -/
def Choice.submit (ch : Choice) (tx : Tx) (w : World) : Option ContractState :=
  match tx.exec w.chain with
  | .ok (_, chain) => if ch.lands then some chain else none
  | .error _ => none

/-- One step of a request. -/
def advance (ch : Choice) (place : Place reg) (w : World) : Option (Place reg × World) :=
  match place with
  -- handleRecordEvents
  | .recordEvents a campaignID code body =>
    onward reg (recordEvents reg ch.env a campaignID code body) (fun p ↦ .answered (.problem p)) w
      fun e ↦ (.recordStore a e, w)
  | .recordStore a e =>
    onward reg (ch.store (w.db.storeEvent a e) "could not record event")
      (fun p ↦ .answered (.problem p)) w fun db ↦ (.answered (.recorded e.receipt), { w with db })
  -- handlePunch
  | .punch a id body =>
    onward reg (punchRequest reg ch.env a id body) (fun p ↦ .answered (.problem p)) w
      fun p ↦ (.punchLock p, w)
  | .punchLock p => takeLock reg w (.loyalty p.account p.program.id) (.punchMigrate p)
  | .punchMigrate p =>
    onward reg (ch.store
        (.ok (w.db.migrateCustomer p.program.id p.sc.row.id p.legacyRef p.ref))
        "internal server error")
      (fun problem ↦ .punchUnlock p (.problem problem)) w fun db ↦ (.punchDedup p, { w with db })
  | .punchDedup p =>
    onward reg (w.db.checkEventRef p.account p.program.id p.eventRef)
      (fun problem ↦ .punchUnlock p (.problem problem)) w fun _ ↦ (.punchBalance p, w)
  | .punchBalance p =>
    onward reg (w.db.loyaltyBalance p.program.id p.ref p.count)
      (fun problem ↦ .punchUnlock p (.problem problem)) w
      fun before ↦ (.punchRewards p before, w)
  | .punchRewards p before =>
    onward reg (w.db.planPunch ch.env p before)
      (fun problem ↦ .punchUnlock p (.problem problem)) w
      fun plan ↦ (if plan.newRewards = 0 then .punchStore p plan [] false
        else .punchAccount p plan, w)
  | .punchAccount p plan =>
    match reg.clientFor p.account with
    | .ok signer => takeLock reg w (.account p.account) (.punchIssue p plan signer)
    | .error problem => some (.punchUnlock p (.problem problem), w)
  | .punchIssue p plan signer =>
    match (List.range plan.newRewards).mapM ch.genCode with
    | none => some (.punchRelease p (.problem ⟨500, "secure randomness unavailable"⟩), w)
    | some codes =>
      match ch.submit (issueTx reg p signer codes ch.ledger) w with
      | none => some (.punchRelease p .chainError, w)
      | some chain =>
        some (if ch.decoded then .punchStore p plan codes true
          else .punchRelease p (.problem ⟨500,
            "reward vouchers were issued on-chain but token ids were not decoded"⟩),
          { w with chain })
  | .punchStore p plan issued rewarding =>
    onward reg (ch.store (w.db.storePunch p plan.receipt issued) "could not commit loyalty punch")
      (fun problem ↦ afterPunch reg p rewarding (.problem problem)) w
      fun db ↦ (afterPunch reg p rewarding (.punched p.ref plan.after issued plan.receipt),
        { w with db })
  | .punchRelease p answer => some (.punchUnlock p answer, w.unlock (.account p.account))
  | .punchUnlock p answer =>
    some (.answered answer, w.unlock (.loyalty p.account p.program.id))
  -- handleCommitTally
  | .commitTally a campaignID code period =>
    onward reg (reg.sharedByCampaignCode a campaignID code) (fun p ↦ .answered (.problem p)) w
      fun sc ↦ (if period = 0 then .commitBase sc else withPeriod reg sc period, w)
  | .commitBase sc =>
    let base := isoWeekPeriod ch.env.now
    some (.commitBatch sc base
      (w.db.tallies.any fun t ↦ t.sharedCodeID = sc.row.id ∧ t.period = base), w)
  | .commitBatch sc base baseExists =>
    onward reg (nextCommitPeriod base baseExists (w.db.maxBatch sc.row.id base))
      (fun p ↦ .answered (.problem p)) w fun period ↦ (withPeriod reg sc period, w)
  | .commitUnsigned sc period =>
    if w.db.sharedEvents.unsignedReceipts sc.row.id = 0 then some (.commitAccount sc period, w)
    else some (.answered (.problem ⟨409, "legacy unsigned events cannot be anchored as signed " ++
      "receipts; export and reconcile them explicitly"⟩), w)
  | .commitAccount sc period =>
    match reg.clientFor sc.campaign.account with
    | .ok signer =>
      takeLock reg w (.account sc.campaign.account) (.commitSelect sc period signer)
    | .error p => some (.answered (.problem p), w)
  | .commitSelect sc period signer =>
    onward reg (gatherBatch ch.env w.db sc.row.id ch.read)
      (fun p ↦ .commitRelease sc (.problem p)) w fun b ↦ (.commitAnchor sc period signer b, w)
  | .commitAnchor sc period signer b =>
    match ch.submit (anchorTx reg sc period signer b ch.ledger) w with
    | some chain => some (.commitStore sc period b ch.txHash, { w with chain })
    | none => some (.commitRelease sc .chainError, w)
  | .commitStore sc period b txHash =>
    let row := tallyRow d.sha256 sc.row period b txHash
    onward reg (w.db.storeTally row b.eventIDs) (fun p ↦ .commitRelease sc (.problem p)) w
      fun db ↦ (.commitRelease sc
        (.committed period b.total b.eventIDs.length row.merkleRoot txHash), { w with db })
  | .commitRelease sc answer => some (.answered answer, w.unlock (.account sc.campaign.account))
  | .answered _ => none

/-- The campaign a call commits a tally to. -/
def Call.commitsTo : Call → Option UInt64
  | .commitTally _ c _ _ _ _ _ => some c
  | _ => none

/-- A call that commits nothing to a campaign of the service. -/
abbrev Foreign (call : Call) : Prop :=
  ∀ camp ∈ reg.campaigns, camp.contractID = d.currentContractID →
    call.commitsTo ≠ some camp.chainID

/-- Another user's transaction on the ledger. -/
def outside (tx : Tx) (w : World) : World :=
  if Foreign reg tx.call then { w with chain := applyTx Tx.exec w.chain tx } else w

/-- The service. -/
def service : Service World (Place reg) Choice Tx where
  advance := advance reg
  outside := outside reg

end Steps

/-! ### Locks -/

section Locks

variable {reg : Registry d}

/-- What holds of both ends of a step that may stop holds after it. -/
theorem onward_elim {α : Type} {P : Place reg → World → Prop} {x : Except Problem α}
    {stop : Problem → Place reg} {w w' : World} {next : α → Place reg × World} {p' : Place reg}
    (h : onward reg x stop w next = some (p', w')) (hok : ∀ a, x = .ok a → P (next a).1 (next a).2)
    (hstop : ∀ problem, x = .error problem → P (stop problem) w) : P p' w' := by
  rcases x with problem | a
  · obtain ⟨rfl, rfl⟩ := Prod.mk.inj (Option.some.inj h)
    exact hstop problem rfl
  · have hnext := Option.some.inj h
    rw [show p' = (next a).1 from congrArg Prod.fst hnext.symm,
      show w' = (next a).2 from congrArg Prod.snd hnext.symm]
    exact hok a rfl

theorem takeLock_elim {P : Place reg → World → Prop} {w w' : World} {k : Lock} {p p' : Place reg}
    (h : takeLock reg w k p = some (p', w')) (hP : w.locks k = false → P p (w.lock k)) :
    P p' w' := by
  rcases hk : w.locks k
  · rw [takeLock, hk] at h
    obtain ⟨rfl, rfl⟩ := Prod.mk.inj (Option.some.inj h)
    exact hP hk
  · rw [takeLock, hk] at h
    exact absurd h (by simp)

theorem some_elim {P : Place reg → World → Prop} {w w' : World} {p p' : Place reg}
    (h : some (p, w) = some (p', w')) (hP : P p w) : P p' w' := by
  obtain ⟨rfl, rfl⟩ := Prod.mk.inj (Option.some.inj h)
  exact hP

theorem locks_withPeriod (sc : CurrentCode reg) (period : UInt64) :
    (withPeriod reg sc period).locks = [] := by
  rw [withPeriod]
  split <;> rfl

theorem locks_afterPunch (p : PunchJob reg) (rewarding : Bool) (answer : Answer) :
    (afterPunch reg p rewarding answer).locks =
      if rewarding then [.account p.account, .loyalty p.account p.program.id]
      else [.loyalty p.account p.program.id] := by
  cases rewarding <;> rfl

/-- What a step does with the locks: nothing, or it takes one that is free, or it gives back the one
it took last. -/
inductive LockMove (p : Place reg) (w : World) (p' : Place reg) (w' : World) : Prop
  | keep (hheld : p'.locks = p.locks) (hlocks : w'.locks = w.locks)
  | take (k : Lock) (hfree : w.locks k = false) (hheld : p'.locks = k :: p.locks)
      (hlocks : w'.locks = Function.update w.locks k true)
  | give (k : Lock) (hheld : p.locks = k :: p'.locks) (hgone : k ∉ p'.locks)
      (hlocks : w'.locks = Function.update w.locks k false)

theorem advance_lockMove {ch : Choice} {p p' : Place reg} {w w' : World}
    (h : advance reg ch p w = some (p', w')) : LockMove p w p' w' := by
  cases p with
  | recordEvents | recordStore | punch | punchMigrate | punchDedup | punchBalance | commitSelect
  | commitStore =>
    exact onward_elim h (fun _ _ ↦ .keep rfl rfl) (fun _ _ ↦ .keep rfl rfl)
  | punchRewards p before =>
    refine onward_elim h (fun plan _ ↦ .keep ?_ rfl) (fun _ _ ↦ .keep rfl rfl)
    show (if plan.newRewards = 0 then _ else _ : Place reg).locks = _
    split <;> rfl
  | punchStore p plan issued rewarding =>
    exact onward_elim h (fun _ _ ↦ .keep (locks_afterPunch ..) rfl)
      (fun _ _ ↦ .keep (locks_afterPunch ..) rfl)
  | commitTally a campaignID code period =>
    refine onward_elim h (fun sc _ ↦ .keep ?_ rfl) (fun _ _ ↦ .keep rfl rfl)
    show (if period = 0 then _ else _ : Place reg).locks = _
    split
    · rfl
    · exact locks_withPeriod ..
  | commitBatch sc base baseExists =>
    exact onward_elim h (fun _ _ ↦ .keep (locks_withPeriod ..) rfl) (fun _ _ ↦ .keep rfl rfl)
  | commitBase sc => exact some_elim h (.keep rfl rfl)
  | commitUnsigned sc period =>
    simp only [advance] at h
    split at h
    · exact some_elim h (.keep rfl rfl)
    · exact some_elim h (.keep rfl rfl)
  | commitAnchor sc period signer b =>
    simp only [advance] at h
    split at h
    · exact some_elim h (.keep rfl rfl)
    · exact some_elim h (.keep rfl rfl)
  | punchIssue p plan signer =>
    simp only [advance] at h
    split at h
    · exact some_elim h (.keep rfl rfl)
    · split at h
      · exact some_elim h (.keep rfl rfl)
      · refine some_elim h (.keep ?_ rfl)
        split <;> rfl
  | punchLock p => exact takeLock_elim h fun hfree ↦ .take _ hfree rfl rfl
  | punchAccount p plan =>
    simp only [advance] at h
    split at h
    · exact takeLock_elim h fun hfree ↦ .take _ hfree rfl rfl
    · exact some_elim h (.keep rfl rfl)
  | commitAccount sc period =>
    simp only [advance] at h
    split at h
    · exact takeLock_elim h fun hfree ↦ .take _ hfree rfl rfl
    · exact some_elim h (.keep rfl rfl)
  | punchRelease p answer => exact some_elim h (.give _ rfl (by simp [Place.locks]) rfl)
  | punchUnlock p answer => exact some_elim h (.give _ rfl (by simp [Place.locks]) rfl)
  | commitRelease sc answer => exact some_elim h (.give _ rfl (by simp [Place.locks]) rfl)
  | answered answer => exact absurd h (by simp [advance])

/-- **The service respects its locks.** -/
theorem lockDiscipline (reg : Registry d) :
    LockDiscipline (service reg) (fun p k ↦ k ∈ p.locks) fun w k ↦ w.locks k = true where
  advance := by
    intro ch p w p' w' h k
    cases advance_lockMove h with
    | keep hheld hlocks =>
      rw [hheld, hlocks]
      exact Or.inl ⟨Iff.rfl, Iff.rfl⟩
    | take k' hfree hheld hlocks =>
      rcases eq_or_ne k k' with rfl | hne
      · rw [hlocks, hfree, Function.update_self]
        exact Or.inr (Or.inl ⟨Bool.false_ne_true, rfl⟩)
      · rw [hheld, hlocks, Function.update_of_ne hne, List.mem_cons]
        exact Or.inl ⟨or_iff_right hne, Iff.rfl⟩
    | give k' hheld hgone hlocks =>
      rcases eq_or_ne k k' with rfl | hne
      · rw [hheld]
        exact Or.inr (Or.inr ⟨List.mem_cons_self, hgone⟩)
      · rw [hheld, hlocks, Function.update_of_ne hne, List.mem_cons]
        exact Or.inl ⟨(or_iff_right hne).symm, Iff.rfl⟩
  outside := by
    intro tx w k
    show (outside reg tx w).locks k = true ↔ _
    rw [outside]
    split <;> exact Iff.rfl

theorem Place.Arriving.locks {p : Place reg} (h : p.Arriving) : p.locks = [] := by
  cases p <;> trivial

/-- Requests that have just arrived hold no lock. -/
theorem exclusive_of_arriving {c : Config World (Place reg)} (h : ∀ i, (c.requests i).Arriving) :
    Exclusive (fun (p : Place reg) k ↦ k ∈ p.locks) (fun w k ↦ w.locks k = true) c := by
  intro k
  have hnone : ∀ i, k ∉ (c.requests i).locks := by
    intro i
    rw [(h i).locks]
    exact List.not_mem_nil
  exact ⟨fun i hi ↦ absurd hi (hnone i), fun i _ hi _ ↦ absurd hi (hnone i)⟩

end Locks

end Soroticket
