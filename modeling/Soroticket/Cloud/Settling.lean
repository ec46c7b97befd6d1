import Soroticket.Cloud.Counters
import Soroticket.Ledger.Amounts

/-!
# Settling among others

A period may be settled by anyone, so between any two questions of `handleSettle` somebody else may
have settled it. The server of these requests is the table of tallies, the contract, the payout
tokens and the clients' mutexes (`payServer`); others submit what they like to the contract, and
change the books of the tokens. An answer of the client is accurate: a value it returns is the
contract's, and so is an error of the contract it reports; other errors may come at any time, and
the transaction has then not been taken.

Which transaction has settled a period is kept beside the tables (`PayWorld.settlers`). No handler
reads it.

The law `dealing` says what a request may write, by what it has seen of the chain: it approves what
was computed, settles what it has approved, records a settlement as its own where the contract has
taken it from this request, and records one of somebody else where it has seen the period settled.
-/

namespace Soroticket

open Programs Handler Interleaving

variable {d : Deployment} {reg : Registry d} {τ : Type}

/-! ### The tables, the chain and the tokens -/

/-- The payout tokens: the calls the contract makes, and the approvals owners give it. -/
structure Tokens (τ : Type) where
  /-- The contract. -/
  spender : Address
  handle : (op : TokenCall) → τ → Option (op.Answer × τ)
  approve (token owner spender : Address) (amount : ℤ) (expirationLedger : UInt32) : τ → Option τ

/-- A row of `tallies`, with its settlement. -/
structure SettlementRow extends TallyRow where
  settled : Bool
  settleTx : Option Bytes
  payoutAmount : Option ℤ

/-- The rows of `tallies`, the contract, the books of the tokens, the mutexes of the clients, and
who has settled which period: a transaction of Cloud, or one of somebody else. -/
structure PayWorld (τ : Type) where
  tallies : List SettlementRow
  chain : ContractState
  books : τ
  locked : AuthCtx → Bool
  settlers : List (PeriodKey × Option Bytes)

namespace PayWorld

/-- `INSERT INTO tallies`, where the code has no row for the period. -/
def storeTally? (w : PayWorld τ) (row : TallyRow) : Option (PayWorld τ) :=
  if w.tallies.any fun t ↦ t.sharedCodeID = row.sharedCodeID ∧ t.period = row.period then none
  else some { w with tallies := w.tallies ++ [⟨row, false, none, none⟩] }

/-- `UPDATE tallies` for a period of a code. -/
def updateTally (w : PayWorld τ) (sharedID : ℕ) (period : UInt64)
    (f : SettlementRow → SettlementRow) : PayWorld τ :=
  { w with tallies := w.tallies.map fun t ↦
      if t.sharedCodeID = sharedID ∧ t.period = period then f t else t }

/-- `UPDATE tallies SET settled = 1, settle_tx = ?, payout_amount = ?`. -/
def settleTally (w : PayWorld τ) (sharedID : ℕ) (period : UInt64) (txHash : Bytes)
    (payoutAmount : ℤ) : PayWorld τ :=
  w.updateTally sharedID period fun t ↦
    { t with settled := true, settleTx := some txHash, payoutAmount := some payoutAmount }

/-- `UPDATE tallies SET settled = 1` where `settled = 0`. -/
def reconcile (w : PayWorld τ) (sharedID : ℕ) (period : UInt64) : PayWorld τ :=
  w.updateTally sharedID period fun t ↦ if t.settled then t else { t with settled := true }

/-- A client is taken or given back. -/
def setLocked (w : PayWorld τ) (a : AuthCtx) (locked : Bool) : PayWorld τ :=
  { w with locked := Function.update w.locked a locked }

/-- A transaction of the contract, of Cloud if it has a hash. -/
def submit (T : Tokens τ) (env : Env) (call : Call) (txHash : Option Bytes) (w : PayWorld τ) :
    Outcome Error (Value × PayWorld τ) :=
  ((call.exec { env with currentContract := T.spender } w.chain).runWith T.handle w.books).map
    fun (v, chain, books) ↦ (v, { w with
      chain
      books
      settlers := w.settlers ++ (settleKey (env, call)).toList.map (·, txHash) })

end PayWorld

/-- What a question finds: how it is answered where neither the table nor the chain decides, the
environment of a call, the surroundings and the events a commit reads, and whether a statement goes
through whose error nobody looks at. A call that is answered with an error does not reach the
contract. -/
structure PayChoice (reg : Registry d) where
  reply : (e : Ask reg) → e.Reply
  env : Env
  surroundings : Surroundings
  db : Database
  counted : Counted db.sharedEvents.rows
  read : ℕ
  writes : Bool

/-- The answer to a question. -/
def PayWorld.answer (T : Tokens τ) (ch : PayChoice reg) (w : PayWorld τ) :
    (e : Ask reg) → Option (e.Reply × PayWorld τ)
  | .clientFor a =>
    match ch.reply (.clientFor a) with
    | .error x => some (.error x, w)
    | .ok signer => if w.locked a then none else some (.ok signer, w.setLocked a true)
  | .release a => some ((), w.setLocked a false)
  | .sharedByCampaignCode a campaignID code =>
    match ch.reply (.sharedByCampaignCode a campaignID code) with
    | .error p => some (.error p, w)
    | .ok _ => some (reg.sharedByCampaignCode a campaignID code, w)
  | .simulate call =>
    match ch.reply (.simulate call) with
    | .error _ => some (.error .other, w)
    | .ok _ =>
      match w.submit T ch.env call none with
      | .error fault => some (.error (chainError fault), w)
      | .ok (value, _) => some (.ok value, w)
  | .call call =>
    match ch.reply (.call call) with
    | .error _ => some (.error .other, w)
    | .ok (_, txHash) =>
      match w.submit T ch.env call (some txHash) with
      | .error fault => some (.error (chainError fault), w)
      | .ok (value, w') => some (.ok (value, txHash), w')
  | .approveSettlement token owner amount expirationLedger =>
    match ch.reply (.approveSettlement token owner amount expirationLedger) with
    | .error _ => some (.error .other, w)
    | .ok txHash =>
      match T.approve token owner T.spender amount expirationLedger w.books with
      | none => some (.error .other, w)
      | some books => some (.ok txHash, { w with books })
  | .gatherBatch sc => some (Soroticket.gatherBatch ch.surroundings ch.db sc.row.id ch.read, w)
  | .storeTally row eventIDs =>
    match ch.reply (.storeTally row eventIDs) with
    | .error p => some (.error p, w)
    | .ok _ =>
      match w.storeTally? row with
      | none => some (.error ⟨500, "tally committed on-chain but local indexing failed"⟩, w)
      | some w' => some (.ok (), w')
  | .settleTally sharedID period txHash payoutAmount =>
    some ((), if ch.writes then w.settleTally sharedID period txHash payoutAmount else w)
  | .reconcile sharedID period =>
    some ((), if ch.writes then w.reconcile sharedID period else w)
  | e => some (ch.reply e, w)

/-- What others do: submit something to the contract, or change the books of the tokens. -/
inductive PayEvent (τ : Type) where
  | submit (env : Env) (call : Call)
  | tokens (f : τ → τ)

/-- The server. -/
def payServer (T : Tokens τ) (reg : Registry d) :
    Server (@Ask.Reply d reg) (PayWorld τ) (PayChoice reg) (PayEvent τ) where
  answer := PayWorld.answer T
  outside
    | .submit env call, w =>
      match w.submit T env call none with
      | .error _ => w
      | .ok (_, w') => w'
    | .tokens f, w => { w with books := f w.books }

/-! ### What a request has seen -/

/-- The record of a request: the token of a code and what a period pays, as the contract has
answered; the approval that was given; the settlement the contract has taken from this request, with
its hash and what it has paid; a period that was seen settled; the tally the contract has taken; and
what became of the charge. -/
structure Dealing where
  token : Option (UInt64 × Bytes × Address)
  amount : Option (PeriodKey × ℤ)
  approved : Option (Address × Address × ℤ)
  own : Option (PeriodKey × Bytes × ℤ)
  seen : Option PeriodKey
  committed : Option (PeriodKey × UInt32)
  reserved : Option Charge
  resolved : List Resolve

/-- Nothing was seen. -/
def Dealing.start : Dealing := ⟨none, none, none, none, none, none, none, []⟩

/-- A period of a code, on the chain. -/
def CurrentCode.period (sc : CurrentCode reg) (period : UInt64) : PeriodKey :=
  (sc.campaign.chainID, sc.row.code, period)

/-- What a tally attributes: all of it, where its code has a target. -/
def TallyRow.Attributes (row : TallyRow) (sc : SharedCodeRow) : Prop :=
  row.attributedCount = if sc.attributedTo.isSome then row.count else 0

/-- A request writes what it has seen. -/
def dealing (reg : Registry d) : Law (@Ask.Reply d reg) Dealing where
  may g
    | .reserveCharge _ => g.reserved = none ∧ g.resolved = []
    | .resolve c _ => g.reserved = some c ∧ g.resolved = []
    | .approveSettlement token _ amount _ => g.approved = none ∧ 0 < amount ∧
      ∃ k, g.token = some (k.1, k.2.1, token) ∧ g.amount = some (k, amount)
    | .call (.settle owner c code period) => g.own = none ∧ ∃ token total,
      g.token = some (c, code, token) ∧ g.amount = some ((c, code, period), total) ∧
        g.approved = if 0 < total then some (token, owner, total) else none
    | .settleTally sharedID period txHash total => ∃ sc : CurrentCode reg, sc.row.id = sharedID ∧
      g.own = some (sc.period period, txHash, total)
    | .reconcile sharedID period => ∃ sc : CurrentCode reg, sc.row.id = sharedID ∧
      g.seen = some (sc.period period)
    | .storeTally row _ => ∃ sc : CurrentCode reg, sc.row.id = row.sharedCodeID ∧
      row.Attributes sc.row ∧ ∃ count : UInt32, (count.toNat : ℤ) = row.count.toInt ∧
        g.committed = some (sc.period row.period, count)
    | _ => True
  possible _ e r :=
    match e, r with
    | .sharedByCampaignCode a campaignID code, .ok sc =>
      reg.sharedByCampaignCode a campaignID code = .ok sc
    | .gatherBatch _, .ok b => (b.count.toNat : ℤ) = b.total.toInt
    | _, _ => True
  next g e r :=
    match e, r with
    | .reserveCharge c, .ok _ => { g with reserved := c.reservation }
    | .resolve _ how, _ => { g with resolved := g.resolved ++ [how] }
    | .simulate (.getShared c code), .ok v => { g with token := v.payoutToken.map (c, code, ·) }
    | .simulate (.isSettled c code period), .ok (.bool true) =>
      { g with seen := some (c, code, period) }
    | .simulate (.computePayouts c code period), .ok v =>
      { g with amount := some ((c, code, period), payoutSum v.payoutList) }
    | .approveSettlement token owner amount _, .ok _ =>
      { g with approved := some (token, owner, amount) }
    | .call (.settle _ c code period), .ok (v, txHash) =>
      { g with own := some ((c, code, period), txHash, payoutSum v.payoutList) }
    | .call (.settle _ c code period), .error (.contract .alreadySettled) =>
      { g with seen := some (c, code, period) }
    | .call (.commitTally _ c code period count _ _), .ok _ =>
      { g with committed := some ((c, code, period), count) }
    | _, _ => g

/-! ### The handlers -/

/-- The hash and the total of an answer to a request that has settled its period. -/
def settledAnswer : Except Response Response → Option (Bytes × ℤ)
  | .ok (.settled _ total txHash) => some (txHash, total)
  | _ => none

/-- A request is answered with its own settlement, if it has one, and then has kept its charge; else
the charge was refunded. What it has settled is the period it was asked to. -/
structure Concluded (found : Except Problem (CurrentCode reg)) (period : UInt64)
    (x : Except Response Response) (g : Dealing) : Prop where
  answered : settledAnswer x = g.own.map Prod.snd
  asked : ∀ k txHash total, g.own = some (k, txHash, total) →
    ∃ sc, found = .ok sc ∧ k = sc.period period
  resolved : g.resolved = g.reserved.toList.map fun _ ↦
    if g.own.isSome then .commit else .refund

/-- A charge that is open, as the handler and the record have it. -/
structure Dealing.Pending (m : Meter) (g : Dealing) : Prop where
  active : m.active = g.reserved
  resolved : g.resolved = []

section Handlers

variable {cl : Platform} {a : AuthCtx} {m : Meter} {g : Dealing} {β : Type}
  {found : Except Problem (CurrentCode reg)} {period : UInt64}

/-- An open charge is resolved. -/
theorem Dealing.Pending.closes (h : g.Pending m) {how : Resolve} {P : Dealing → Prop}
    (hP : P { g with resolved := g.reserved.toList.map fun _ ↦ how }) :
    Closes (dealing reg) (m.resolving how) g P := by
  obtain ⟨token, amount, approved, own, seen, committed, reserved, resolved⟩ := g
  obtain ⟨hactive, rfl⟩ : m.active = reserved ∧ resolved = [] := ⟨h.active, h.resolved⟩
  rw [Meter.resolving, hactive]
  rcases reserved with - | c
  · exact hP
  · exact ⟨⟨rfl, rfl⟩, fun _ _ ↦ hP⟩

/-- A request that is left before it has settled its period refunds its charge. -/
theorem Dealing.Pending.refunds (h : g.Pending m) (hown : g.own = none) (x : Response) :
    Closes (dealing reg) (m.resolving .refund) g (Concluded found period (.error x)) := by
  refine h.closes ⟨?_, fun k txHash total hsome ↦ ?_, ?_⟩
  · show none = g.own.map Prod.snd
    rw [hown]
    rfl
  · exact absurd (hsome.symm.trans hown) (Option.some_ne_none _)
  · show g.reserved.toList.map _ = g.reserved.toList.map _
    rw [hown]
    rfl

/-- It has released its client before. -/
theorem Dealing.Pending.leaves (h : g.Pending m) (hown : g.own = none) (x : Response) :
    Closes (dealing reg) (some (.release a)) g fun g ↦
      Closes (dealing reg) (m.resolving .refund) g (Concluded found period (.error x)) :=
  ⟨trivial, fun _ _ ↦ h.refunds hown x⟩

/-- A settlement that is refused leaves the charge open. -/
theorem Dealing.Pending.refused (h : g.Pending m) (hown : g.own = none) {owner : Address}
    {c p : UInt64} {code : Bytes} (e : ChainError) (x : Response) :
    Closes (dealing reg) (some (.release a))
      ((dealing reg).next g (.call (.settle owner c code p)) (.error e)) fun g ↦
        Closes (dealing reg) (m.resolving .refund) g (Concluded found period (.error x)) := by
  rcases e with e | -
  · cases e with
    | alreadySettled =>
      have hseen : Dealing.Pending m { g with seen := some (c, code, p) } :=
        ⟨h.active, h.resolved⟩
      exact hseen.leaves hown x
    | _ => exact h.leaves hown x
  · exact h.leaves hown x

theorem step_checkUnsettled_seen {sc : CurrentCode reg} {f : Unit → Work reg β}
    {Q : β → Meter → Dealing → Prop} {X : Response → Meter → Dealing → Prop}
    (hgo : (f ()).Keeps (dealing reg) m g Q X)
    (hstop : ∀ p, X (.problem p) m { g with seen := some (sc.period period) }) :
    (checkUnsettled sc period >>= f).Keeps (dealing reg) m g Q X := by
  refine keeps_bind.2 (step_query trivial fun r _ ↦ ?_)
  rcases r with e | v
  · exact keeps_pure.2 hgo
  · cases v with
    | bool b =>
      rcases b with - | -
      · exact keeps_pure.2 hgo
      · exact step_query ⟨sc, rfl, rfl⟩ fun _ _ ↦ keeps_stop.2 (hstop _)
    | _ => exact keeps_pure.2 hgo

theorem step_approvePayouts_exact {token owner : Address} {total : ℤ} {k : PeriodKey}
    {f : Unit → Work reg β} {Q : β → Meter → Dealing → Prop} {X : Response → Meter → Dealing → Prop}
    (hnone : g.approved = none) (htoken : g.token = some (k.1, k.2.1, token))
    (hamount : g.amount = some (k, total))
    (hgo : (f ()).Keeps (dealing reg) m
      { g with approved := if 0 < total then some (token, owner, total) else none } Q X)
    (hstop : ∀ e, X (.chainError e) m g) :
    (approvePayouts token owner total >>= f).Keeps (dealing reg) m g Q X := by
  refine keeps_bind.2 ?_
  rw [approvePayouts]
  split
  · rename_i hpos
    rw [if_pos hpos] at hgo
    refine step_query trivial fun r _ ↦ keeps_bind.2 (keeps_checkChain (fun latest _ ↦ ?_) ?_)
    · refine step_query ⟨hnone, hpos, k, htoken, hamount⟩ fun r _ ↦ keeps_bind.2 ?_
      rcases r with e | txHash
      · exact keeps_checkChain (fun _ h ↦ absurd h (by simp)) fun e _ ↦ hstop e
      · exact keeps_checkChain (fun _ _ ↦ keeps_pure.2 hgo) fun _ h ↦ absurd h (by simp)
    · exact fun e _ ↦ hstop e
  · rename_i hpos
    rw [if_neg hpos, ← hnone] at hgo
    exact keeps_pure.2 hgo

/-- **A request to settle is answered with its own settlement**, and keeps its charge then. -/
theorem concluded_settle (reg : Registry d) (cl : Platform) (a : AuthCtx) (body : SettleBody)
    {found : Except Problem (CurrentCode reg)}
    (hfound : reg.sharedByCampaignCode a body.campaignID (utf8 (cl.normalize body.code)) = found) :
    (handleSettle cl a body : Work reg Response).Keeps (dealing reg) ⟨none, 0⟩ Dealing.start
      (fun x _ ↦ Concluded found body.period (.ok x))
      fun x _ ↦ Concluded found body.period (.error x) := by
  have hclosed : ∀ x, Concluded found body.period (.error x) Dealing.start := fun x ↦
    ⟨rfl, fun _ _ _ h ↦ absurd h.symm (Option.some_ne_none _), rfl⟩
  unfold handleSettle
  refine step_silent ⟨trivial, fun _ ↦ rfl⟩ fun r hr ↦ ?_
  refine step_checked (fun sc hsc ↦ ?_) fun _ _ ↦ hclosed _
  obtain rfl : r = .ok sc := hsc
  refine step_reserveCharge ⟨rfl, rfl⟩ (fun _ ↦ ?_) fun _ _ ↦ hclosed _
  refine keeps_deferRefund ?_
  refine keeps_withClient trivial (fun signer _ ↦ ?_) fun x _ ↦
    Dealing.Pending.refunds ⟨rfl, rfl⟩ rfl x
  refine step_simulated trivial (fun v _ ↦ ?_) fun e _ ↦ Dealing.Pending.leaves ⟨rfl, rfl⟩ rfl _
  refine step_orStop (fun token htoken ↦ ?_) (Dealing.Pending.leaves ⟨rfl, rfl⟩ rfl _)
  refine step_checkUnsettled_seen ?_ fun _ ↦ Dealing.Pending.leaves ⟨rfl, rfl⟩ rfl _
  refine step_simulated trivial (fun preview _ ↦ ?_) fun e _ ↦
    Dealing.Pending.leaves ⟨rfl, rfl⟩ rfl _
  refine step_approvePayouts_exact rfl (k := sc.period body.period) ?_ rfl ?_
    fun e ↦ Dealing.Pending.leaves ⟨rfl, rfl⟩ rfl _
  · show v.payoutToken.map _ = _
    rw [htoken]
    rfl
  refine step_query ⟨rfl, token, _, ?_, rfl, rfl⟩ fun r _ ↦ ?_
  · show v.payoutToken.map _ = _
    rw [htoken]
    rfl
  split
  · exact step_query ⟨sc, rfl, rfl⟩ fun _ _ ↦
      keeps_stop.2 (Dealing.Pending.leaves ⟨rfl, rfl⟩ rfl _)
  · rename_i e _ _
    exact keeps_stop.2 (Dealing.Pending.refused ⟨rfl, rfl⟩ rfl e _)
  · rename_i value txHash
    refine step_resolveCharge (Dealing.Pending.closes ⟨rfl, rfl⟩ ?_)
    refine step_query ⟨sc, rfl, rfl⟩ fun _ _ ↦ keeps_pure.2 ⟨trivial, fun _ _ ↦ ?_⟩
    refine ⟨rfl, fun k _ _ hown ↦ ⟨sc, hfound.symm.trans hr, ?_⟩, rfl⟩
    exact (congrArg Prod.fst (Option.some.inj hown)).symm

/-- A request to commit stores what the contract has taken. -/
theorem stored_commitTally (reg : Registry d) (cl : Platform) (a : AuthCtx) (campaignID : ℕ)
    (pathCode : String) (period : UInt64) :
    (handleCommitTally cl a campaignID pathCode period : Work reg Response).Keeps (dealing reg)
      ⟨none, 0⟩ Dealing.start (fun _ _ _ ↦ True) fun _ _ _ ↦ True := by
  unfold handleCommitTally
  refine step_silent ⟨trivial, fun _ ↦ rfl⟩ fun r _ ↦ ?_
  refine step_checked (fun sc _ ↦ ?_) fun _ _ ↦ trivial
  refine step_commitPeriod ⟨trivial, fun _ ↦ rfl⟩ (fun period ↦ ?_) fun _ ↦ trivial
  refine step_problemWhen (fun _ ↦ ?_) fun _ ↦ trivial
  refine step_silent ⟨trivial, fun _ ↦ rfl⟩ fun r _ ↦ ?_
  refine step_checked (fun unsigned _ ↦ ?_) fun _ _ ↦ trivial
  refine step_problemWhen (fun _ ↦ ?_) fun _ ↦ trivial
  have hrelease : ∀ g : Dealing, Closes (dealing reg) (some (.release a)) g fun _ ↦ True :=
    fun _ ↦ ⟨trivial, fun _ _ ↦ trivial⟩
  refine keeps_withClient trivial (fun signer _ ↦ ?_) fun _ _ ↦ trivial
  refine step_query trivial fun r hr ↦ step_checked (fun b hb ↦ ?_) fun _ _ ↦ hrelease _
  obtain rfl : r = .ok b := hb
  refine step_reserveCharge ⟨rfl, rfl⟩ (fun _ ↦ ?_) fun _ _ ↦ hrelease _
  have hopen : ∀ {m : Meter} {g : Dealing}, g.Pending m →
      Closes (dealing reg) (m.resolving .refund) g fun g ↦
        Closes (dealing reg) (some (.release a)) g fun _ ↦ True :=
    fun hpending ↦ hpending.closes (hrelease _)
  refine keeps_deferRefund (step_callClient trivial (fun v _ ↦ ?_) fun e _ ↦ ?_)
  · refine step_resolveCharge (Dealing.Pending.closes ⟨rfl, rfl⟩ ?_)
    refine step_query ⟨sc, rfl, rfl, b.count, hr, rfl⟩ fun r _ ↦ ?_
    exact step_checked (fun _ _ ↦ keeps_pure.2 (hrelease _)) fun _ _ ↦ hrelease _
  · exact hopen ⟨rfl, rfl⟩

end Handlers

end Soroticket
