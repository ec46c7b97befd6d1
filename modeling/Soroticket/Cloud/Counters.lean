import Soroticket.Cloud.Asks
import Soroticket.Cloud.Entries
import Soroticket.Cloud.References
import Soroticket.Ledger.Changes
import Soroticket.Machine.Conversations

/-!
# Codes and their counters

Cloud keeps the codes of its campaigns in a table, and for each campaign how many it has issued and
how many were redeemed. Three handlers write these, after the contract has done what they asked for:
`handleIssueCodes`, `handleRedeem` and `handlePunch`. The server of their requests is these tables,
the contract and the clients' mutexes (`codeServer`). Others may call the contract too, but for the
codes of a campaign of Cloud only Cloud does.

A request that has changed the chain and not yet the tables owes them the rest (`Debt`). The law
`bookkeeping` says of a handler that it owes only while it has the client of its account, and pays
what it owes before it releases the client. One of the three does so only where the contract refuses
no batch after it has taken another, and the law counts such a refusal as impossible.
-/

namespace Soroticket

open Programs Handler Interleaving

variable {d : Deployment} {reg : Registry d}

/-! ### The tables and the chain -/

/-- A row of `codes`. -/
structure IndexedCode where
  code : String
  tokenID : Option UInt64
  redeemed : Bool

/-- The rows of `codes` and the counters of `campaigns`, campaign by campaign, the contract, and the
mutexes of the clients. -/
structure CodeWorld where
  codes : ℕ → List IndexedCode
  minted : ℕ → ℕ
  burned : ℕ → ℕ
  chain : ContractState
  locked : AuthCtx → Bool

namespace CodeWorld

/-- `INSERT INTO codes`, where the campaign has no row with the code. -/
def insert? (w : CodeWorld) (campaignID : ℕ) (row : IssuedCode) : Option CodeWorld :=
  if (w.codes campaignID).any (·.code = row.code) then none
  else some { w with
    codes := Function.update w.codes campaignID
      (w.codes campaignID ++ [⟨row.code, row.tokenID, false⟩]) }

/-- `UPDATE campaigns SET minted = minted + n`. -/
def addMinted (w : CodeWorld) (campaignID n : ℕ) : CodeWorld :=
  { w with minted := Function.update w.minted campaignID (w.minted campaignID + n) }

/-- `UPDATE codes SET status = 'redeemed'`. -/
def redeemCode (w : CodeWorld) (campaignID : ℕ) (code : String) : CodeWorld :=
  { w with
    codes := Function.update w.codes campaignID ((w.codes campaignID).map fun row ↦
      if row.code = code then { row with redeemed := true } else row) }

/-- `UPDATE campaigns SET burned = burned + 1`. -/
def addBurned (w : CodeWorld) (campaignID : ℕ) : CodeWorld :=
  { w with burned := Function.update w.burned campaignID (w.burned campaignID + 1) }

/-- The rewards in the transaction of `handlePunch`. -/
def storeRewards (w : CodeWorld) (campaignID : ℕ) (issued : List IssuedCode) :
    Option CodeWorld :=
  (issued.foldlM (fun w row ↦ insert? w campaignID row) w).map
    (·.addMinted campaignID issued.length)

/-- A client is taken or given back. -/
def setLocked (w : CodeWorld) (a : AuthCtx) (locked : Bool) : CodeWorld :=
  { w with locked := Function.update w.locked a locked }

end CodeWorld

/-- An error of the contract, as the client reports it. -/
def chainError : Fault Error → ChainError
  | .err e => .contract e
  | .trap => .other

/-- What a question finds: how it is answered where neither these tables nor the contract decide,
the environment of a call and the replies of a token, and the surroundings of a punch. A call that
is answered with an error does not reach the contract. -/
structure CodeChoice (reg : Registry d) where
  reply : (e : Ask reg) → e.Reply
  env : Env
  replies : ℕ → (op : TokenCall) → Option op.Answer
  surroundings : Surroundings

/-- The answer to a question. -/
def CodeWorld.answer (ch : CodeChoice reg) (w : CodeWorld) :
    (e : Ask reg) → Option (e.Reply × CodeWorld)
  | .clientFor a =>
    match ch.reply (.clientFor a) with
    | .error x => some (.error x, w)
    | .ok signer => if w.locked a then none else some (.ok signer, w.setLocked a true)
  | .release a => some ((), w.setLocked a false)
  | .call call =>
    match ch.reply (.call call) with
    | .error e => some (.error e, w)
    | .ok (_, txHash) =>
      match (Tx.mk ch.env call ch.replies).exec w.chain with
      | .error fault => some (.error (chainError fault), w)
      | .ok (value, chain) => some (.ok (value, txHash), { w with chain })
  | .campaignByID a id =>
    match ch.reply (.campaignByID a id) with
    | none => some (none, w)
    | some c => some ((reg.campaigns.find? fun row ↦ row.id = id ∧ row.account = a).map
        fun row ↦ (⟨row, c.name⟩ : CampaignView), w)
  | .punch a id body =>
    match ch.reply (.punch a id body) with
    | .error p => some (.error p, w)
    | .ok (_, name) => some ((punchRequest reg ch.surroundings a id body).map (·, name), w)
  | .insertCode id row => some ((), (w.insert? id row).getD w)
  | .addMinted id n => some ((), w.addMinted id n)
  | .redeemCode id code => some ((), w.redeemCode id code)
  | .addBurned id => some ((), w.addBurned id)
  | .storePunch p receipt issued =>
    if issued = [] then some (ch.reply (.storePunch p receipt issued), w)
    else match w.storeRewards p.sc.campaign.id issued with
      | none => some (.error ⟨500, "reward issued on-chain but local indexing failed"⟩, w)
      | some w' => some (.ok (), w')
  | e => some (ch.reply e, w)

/-- The server. Others call the contract, but not for the codes of a campaign of Cloud. -/
def codeServer (reg : Registry d) : Server (@Ask.Reply d reg) CodeWorld (CodeChoice reg) Tx where
  answer := CodeWorld.answer
  outside tx w :=
    if reg.campaigns.any fun c ↦ c.contractID = d.currentContractID ∧
        tx.call.coupons? = some c.chainID then w
    else match tx.exec w.chain with
      | .error _ => w
      | .ok (_, chain) => { w with chain }

/-! ### Debts -/

/-- What a request owes the tables: rows of codes that were issued, how many of these are not
counted, a code that was redeemed and is not marked, and whether it is not counted. -/
structure Debt where
  rows : List (Bytes × UInt64)
  count : ℕ
  code : Option Bytes
  burns : ℕ

/-- Nothing. -/
def Debt.none : Debt := ⟨[], 0, Option.none, 0⟩

/-- The record of a request: the client it has, the campaign it has changed on the chain, and what
it owes the tables. -/
structure Owing where
  client : Option AuthCtx
  chainID : UInt64
  debt : Debt

/-- Nothing is held and nothing owed. -/
def Owing.start : Owing := ⟨none, 0, Debt.none⟩

/-- A campaign of Cloud on the current deployment. -/
def Current (reg : Registry d) (c : CampaignRow) : Prop :=
  c ∈ reg.campaigns ∧ c.contractID = d.currentContractID

/-- The client of a campaign is held, under its id on the chain. -/
def Owing.Holds (g : Owing) (reg : Registry d) (chainID : UInt64) : Prop :=
  ∃ c, Current reg c ∧ c.chainID = chainID ∧ g.client = some c.account

/-- A debt is to the campaign with an id of Cloud. -/
def Owing.Owes (g : Owing) (reg : Registry d) (id : ℕ) : Prop :=
  ∃ c, Current reg c ∧ c.chainID = g.chainID ∧ c.id = id

/-- What the rows of codes that were issued say. -/
def codeRows (issued : List IssuedCode) : List (Bytes × Option UInt64) :=
  issued.map fun row ↦ (utf8 row.code, row.tokenID)

/-- What is owed is paid before the client is released. -/
def bookkeeping (reg : Registry d) : Law (@Ask.Reply d reg) Owing where
  may g
    | .clientFor _ => g.client = none
    | .release a => g.client = some a ∧ g.debt = Debt.none
    | .call (.issueUnique _ chainID _) => g.Holds reg chainID ∧ g.debt.rows = [] ∧
      g.debt.code = none ∧ g.debt.burns = 0 ∧ (g.debt.count ≠ 0 → g.chainID = chainID)
    | .call (.redeemUnique _ chainID _ _) => g.Holds reg chainID ∧ g.debt = Debt.none
    | .insertCode id row => g.Owes reg id ∧
      ∃ t rest, g.debt.rows = (utf8 row.code, t) :: rest ∧ row.tokenID = some t
    | .addMinted id n => (n ≠ 0 → g.Owes reg id) ∧ g.debt.rows = [] ∧ g.debt.count = n
    | .redeemCode id code => g.Owes reg id ∧ g.debt.code = some (utf8 code)
    | .addBurned id => g.Owes reg id ∧ g.debt.code = none ∧ g.debt.burns = 1
    | .storePunch p _ issued => issued = [] ∨ g.Owes reg p.sc.campaign.id ∧
      g.debt.count = issued.length ∧
      codeRows issued = g.debt.rows.map fun x ↦ (x.1, some x.2)
    | _ => True
  possible g e r :=
    match e, r with
    | .campaignByID a id, some c => c.row ∈ reg.campaigns ∧ c.row.id = id ∧ c.row.account = a
    | .punch a _ _, .ok (p, _) => p.sc.campaign.account = a
    | .call (.issueUnique _ _ codes), .ok (v, _) => v.tokenIDs.length = codes.length
    | .call (.issueUnique ..), .error _ => g.debt.count = 0
    | .storePunch _ _ issued, .error _ => issued = []
    | _, _ => True
  next g e r :=
    match e, r with
    | .clientFor a, .ok _ => { g with client := some a }
    | .release _, _ => { g with client := none }
    | .call (.issueUnique _ chainID codes), .ok (v, _) => { g with
        chainID, debt := { g.debt with
          rows := codes.zip v.tokenIDs
          count := g.debt.count + codes.length } }
    | .call (.redeemUnique _ chainID code _), .ok _ =>
      { g with chainID, debt := { g.debt with code := some code, burns := 1 } }
    | .insertCode _ _, _ => { g with debt := { g.debt with rows := g.debt.rows.tail } }
    | .addMinted _ _, _ => { g with debt := { g.debt with count := 0 } }
    | .redeemCode _ _, _ => { g with debt := { g.debt with code := none } }
    | .addBurned _, _ => { g with debt := { g.debt with burns := 0 } }
    | .storePunch _ _ issued, .ok _ =>
      if issued = [] then g else { g with debt := { g.debt with rows := [], count := 0 } }
    | _, _ => g

/-! ### The handlers -/

/-- A handler that ends in `P`, whichever way it is left. -/
abbrev Leaving {α : Type} (P : Owing → Prop) (h : Work reg α) (m : Meter) (g : Owing) : Prop :=
  h.Keeps (bookkeeping reg) m g (fun _ _ ↦ P) fun _ _ ↦ P

/-- The client of an account is held, and nothing is owed. -/
def Owing.Clear (a : AuthCtx) (g : Owing) : Prop := g.client = some a ∧ g.debt = Debt.none

/-- Nothing is held and nothing is owed. -/
def Owing.Free (g : Owing) : Prop := g.client = none ∧ g.debt = Debt.none

section Handlers

variable {cl : Platform} {a : AuthCtx} {m : Meter} {g : Owing} {α β : Type} {P : Owing → Prop}

theorem silent_resolve (g : Owing) (c : Charge) (how : Resolve) :
    (bookkeeping reg).Silent g (.resolve c how) := ⟨trivial, fun _ ↦ rfl⟩

theorem leaving_withClient {h : Address → Work reg β} (hg : g.Free)
    (hh : ∀ signer g', g'.Clear a → Leaving (Owing.Clear a) (h signer) m g') :
    Leaving Owing.Free (withClient a h) m g := by
  refine keeps_withClient hg.1 (fun signer _ ↦ ?_) fun _ _ ↦ hg
  have hclose : ∀ g : Owing, g.Clear a →
      Closes (bookkeeping reg) (some (.release a)) g Owing.Free :=
    fun g hclear ↦ ⟨hclear, fun _ _ ↦ ⟨rfl, hclear.2⟩⟩
  exact (hh signer { g with client := some a } ⟨rfl, hg.2⟩).mono (fun _ _ ↦ hclose) fun _ _ ↦ hclose

/-- A campaign that a request may write to is one of Cloud. -/
theorem holds_of_possible {id : ℕ} {c : CampaignView} {g' : Owing}
    (hc : (bookkeeping reg).possible g (.campaignByID a id) (some c))
    (hcurrent : c.row.contractID = d.currentContractID) (hclear : g'.Clear a) :
    Current reg c.row ∧ c.row.id = id ∧ g'.Holds reg c.row.chainID := by
  obtain ⟨hmem, hid, haccount⟩ : c.row ∈ reg.campaigns ∧ c.row.id = id ∧ c.row.account = a := hc
  exact ⟨⟨hmem, hcurrent⟩, hid, c.row, ⟨hmem, hcurrent⟩, rfl, by rw [haccount, hclear.1]⟩

/-- A redemption marks and counts the code it has redeemed. -/
theorem leaving_redeem (hg : g.Free) (body : RedeemBody) :
    Leaving Owing.Free (handleRedeem cl a body : Work reg Response) m g := by
  unfold handleRedeem
  refine step_problemWhen (fun _ ↦ ?_) fun _ ↦ hg
  refine step_writableCampaign ⟨trivial, fun _ ↦ rfl⟩ (fun c hc hcurrent ↦ ?_) fun _ ↦ hg
  refine step_silent ⟨trivial, fun _ ↦ rfl⟩ fun nonce _ ↦ ?_
  refine step_orStop (fun nonce _ ↦ ?_) hg
  refine step_redeemerHash ⟨trivial, fun _ ↦ rfl⟩ (fun refHash ↦ ?_) fun _ ↦ hg
  refine step_reserveCharge_silent ⟨trivial, fun _ ↦ rfl⟩ (fun m ↦ ?_) fun _ ↦ hg
  refine keeps_deferRefund_silent silent_resolve (leaving_withClient hg fun signer g' hclear ↦ ?_)
  obtain ⟨hrow, hid, hholds⟩ := holds_of_possible hc hcurrent hclear
  refine step_query ⟨hholds, hclear.2⟩ fun r _ ↦ ?_
  split
  · exact keeps_pure.2 hclear
  · refine step_resolveCharge_silent (silent_resolve _ · _) fun _ ↦ ?_
    have howes : ∀ g : Owing, g.chainID = c.row.chainID → g.Owes reg body.campaignID :=
      fun g h ↦ ⟨c.row, hrow, h.symm, hid⟩
    refine step_query ⟨howes _ rfl, rfl⟩ fun _ _ ↦ ?_
    refine step_query ⟨howes _ rfl, rfl, rfl⟩ fun _ _ ↦ ?_
    refine keeps_pure.2 ⟨hclear.1, ?_⟩
    show Debt.mk g'.debt.rows g'.debt.count none 0 = Debt.none
    rw [hclear.2]
    rfl

/-- The rows of a batch are paid one by one. -/
theorem leaving_insertCodes {c : CampaignRow} (hrow : Current reg c) {rows : List IssuedCode}
    {Q : α → Meter → Owing → Prop} {X : Response → Meter → Owing → Prop} {f : Unit → Work reg α}
    (hchain : c.chainID = g.chainID)
    (hrows : codeRows rows = g.debt.rows.map fun x ↦ (x.1, some x.2))
    (hf : (f ()).Keeps (bookkeeping reg) m { g with debt := { g.debt with rows := [] } } Q X) :
    (insertCodes c.id rows >>= f).Keeps (bookkeeping reg) m g Q X := by
  refine keeps_bind.2 ?_
  induction rows generalizing g with
  | nil =>
    have hnil : g.debt.rows = [] := List.map_eq_nil_iff.1 hrows.symm
    refine keeps_pure.2 ?_
    rwa [← hnil] at hf
  | cons row rows ih =>
    rcases hg : g.debt.rows with - | ⟨⟨code, t⟩, rest⟩
    · rw [hg] at hrows
      exact absurd hrows (List.cons_ne_nil _ _)
    · rw [hg, List.map_cons, codeRows, List.map_cons] at hrows
      obtain ⟨hhead, hrest⟩ := List.cons.inj hrows
      obtain ⟨rfl, hid⟩ := Prod.mk.inj hhead
      refine step_query ⟨⟨c, hrow, hchain, rfl⟩, t, rest, hg, hid⟩ fun _ _ ↦ ih hchain ?_ hf
      show codeRows rows = g.debt.rows.tail.map fun x ↦ (x.1, some x.2)
      rw [hg]
      exact hrest

theorem codeRows_issuedRows {codes : List String} {value : Value} (txHash : Bytes)
    (h : value.tokenIDs.length = codes.length) :
    codeRows (issuedRows codes value txHash) =
      ((codes.map utf8).zip value.tokenIDs).map fun x ↦ (x.1, some x.2) := by
  refine List.ext_getElem (by simp [codeRows, issuedRows, h]) fun i hi hi' ↦ ?_
  simp only [codeRows, issuedRows, List.length_map, List.length_mapIdx] at hi
  simp [codeRows, issuedRows, List.getElem?_eq_getElem (h ▸ hi)]

/-- So many codes of a campaign are issued and in the table, and none of them is counted. -/
structure Owing.Issuing (a : AuthCtx) (c : CampaignRow) (n : ℕ) (g : Owing) : Prop where
  client : g.client = some a
  debt : g.debt = ⟨[], n, none, 0⟩
  chainID : n ≠ 0 → g.chainID = c.chainID

theorem leaving_issueCodes {c : CampaignRow} (hrow : Current reg c) (haccount : c.account = a)
    {signer : Address} {batches : List (List String)} {issued : List IssuedCode}
    {f : List IssuedCode → Work reg β} (hg : g.Issuing a c issued.length)
    (hf : ∀ m g issued, g.Issuing a c issued.length → Leaving (Owing.Clear a) (f issued) m g) :
    Leaving (Owing.Clear a) (issueCodes signer c.chainID c.id batches issued >>= f) m g := by
  refine keeps_bind.2 ?_
  induction batches generalizing issued g with
  | nil => exact keeps_pure.2 (hf m g issued hg)
  | cons batch batches ih =>
    have hmay : (bookkeeping reg).may g
        (.call (.issueUnique signer c.chainID (batch.map utf8))) := by
      refine ⟨⟨c, hrow, rfl, by rw [hg.client, haccount]⟩, ?_⟩
      rw [hg.debt]
      exact ⟨rfl, rfl, rfl, hg.chainID⟩
    refine step_query hmay fun r hr ↦ ?_
    split
    · -- the contract refuses the first batch only
      have hzero : issued.length = 0 := by
        have hcount : g.debt.count = 0 := hr
        rwa [hg.debt] at hcount
      have hnone : g.debt = Debt.none := hg.debt.trans (by rw [hzero]; rfl)
      rw [if_neg (not_not.2 hzero)]
      exact keeps_stop.2 ⟨hg.client, hnone⟩
    · rename_i value txHash
      have hlength : value.tokenIDs.length = (batch.map utf8).length := hr
      rw [List.length_map] at hlength
      refine leaving_insertCodes hrow rfl (codeRows_issuedRows txHash hlength) ?_
      refine ih ⟨hg.client, ?_, fun _ ↦ rfl⟩
      show Debt.mk [] (g.debt.count + (batch.map utf8).length) g.debt.code g.debt.burns = _
      rw [hg.debt, List.length_map, List.length_append, issuedRows, List.length_mapIdx]

/-- A request to issue counts what it has issued, where the contract does not refuse it half way. -/
theorem leaving_issue (hg : g.Free) (id : ℕ) (body : IssueBody) :
    Leaving Owing.Free (handleIssueCodes cl a id body : Work reg Response) m g := by
  unfold handleIssueCodes
  refine step_writableCampaign ⟨trivial, fun _ ↦ rfl⟩ (fun c hc hcurrent ↦ ?_) fun _ ↦ hg
  refine step_requestedCodes (fun _ ↦ ⟨trivial, fun _ ↦ rfl⟩) (fun codes _ ↦ ?_) fun _ ↦ hg
  refine step_checked (fun _ _ ↦ ?_) fun _ _ ↦ hg
  refine step_reserveCharge_silent ⟨trivial, fun _ ↦ rfl⟩ (fun m ↦ ?_) fun _ ↦ hg
  refine keeps_deferRefund_silent silent_resolve (leaving_withClient hg fun signer g' hclear ↦ ?_)
  obtain ⟨hrow, rfl, -⟩ := holds_of_possible hc hcurrent hclear
  have haccount : c.row.account = a := hc.2.2
  refine leaving_issueCodes hrow haccount ⟨hclear.1, hclear.2, fun h ↦ absurd rfl h⟩
    fun m g issued hissuing ↦ ?_
  have hmay : (bookkeeping reg).may g (.addMinted c.row.id issued.length) := by
    refine ⟨fun hne ↦ ⟨c.row, hrow, (hissuing.chainID hne).symm, rfl⟩, ?_⟩
    rw [hissuing.debt]
    exact ⟨rfl, rfl⟩
  refine step_query hmay fun _ _ ↦ step_resolveCharge_silent (silent_resolve _ · _) fun _ ↦ ?_
  refine keeps_pure.2 ⟨hissuing.client, ?_⟩
  show Debt.mk g.debt.rows 0 g.debt.code g.debt.burns = Debt.none
  rw [hissuing.debt]
  rfl

/-- The rewards of a punch are issued, and none of them is in the table. -/
structure Owing.Rewarding (p : PunchJob reg) (issued : List IssuedCode) (g : Owing) : Prop where
  client : g.client = some p.sc.campaign.account
  chainID : g.chainID = p.sc.campaign.chainID
  rows : codeRows issued = g.debt.rows.map fun x ↦ (x.1, some x.2)
  count : g.debt.count = issued.length
  code : g.debt.code = none
  burns : g.debt.burns = 0

theorem leaving_issueRewards {p : PunchJob reg} {plan : PunchPlan} {signer : Address}
    (hg : g.Clear p.sc.campaign.account) {f : List IssuedCode → Work reg β} (hP : P g)
    (hf : ∀ m g issued, g.Rewarding p issued → Leaving P (f issued) m g) :
    Leaving P (issueRewards p plan signer >>= f) m g := by
  have hcurrent : Current reg p.sc.campaign := ⟨p.sc.campaign_mem, p.sc.current⟩
  refine keeps_bind.2 (keeps_bind.2 ?_)
  refine (keeps_genCodes (fun _ ↦ ⟨trivial, fun _ ↦ rfl⟩) (fun _ ↦ hP) "RW" plan.newRewards).mono
    ?_ fun _ _ _ h ↦ h
  rintro codes m g ⟨rfl, rfl, -, -⟩
  have hmay : (bookkeeping reg).may g
      (.call (.issueUnique signer p.sc.campaign.chainID (codes.map utf8))) := by
    refine ⟨⟨_, hcurrent, rfl, hg.1⟩, ?_⟩
    rw [hg.2]
    exact ⟨rfl, rfl, rfl, fun h ↦ absurd rfl h⟩
  refine step_callClient hmay ?_ fun _ _ ↦ hP
  rintro ⟨value, txHash⟩ hlength
  replace hlength : value.tokenIDs.length = (codes.map utf8).length := hlength
  rw [List.length_map] at hlength
  refine step_setUsed (step_problemWhen (fun _ ↦ keeps_pure.2 ?_) fun hne ↦ absurd hlength hne)
  have hdebt := hg.2
  refine hf _ _ _ ⟨hg.1, rfl, codeRows_issuedRows txHash hlength, ?_, ?_, ?_⟩
  · show g.debt.count + (codes.map utf8).length = _
    rw [hdebt, issuedRows, List.length_mapIdx, List.length_map]
    exact zero_add _
  · show g.debt.code = none
    rw [hdebt]
    rfl
  · show g.debt.burns = 0
    rw [hdebt]
    rfl

/-- The transaction of a punch pays for its rewards. -/
theorem leaving_storePunch {p : PunchJob reg} {plan : PunchPlan} {issued : List IssuedCode}
    (h : issued = [] ∧ g.debt = Debt.none ∨ g.Rewarding p issued)
    (hP : ∀ g' : Owing, g'.client = g.client → g'.debt = Debt.none → P g') :
    Leaving P (storePunch p plan issued : Work reg Response) m g := by
  have hcurrent : Current reg p.sc.campaign := ⟨p.sc.campaign_mem, p.sc.current⟩
  by_cases hnil : issued = []
  · subst hnil
    have hdebt : g.debt = Debt.none := by
      rcases h with ⟨-, hdebt⟩ | hrewarding
      · exact hdebt
      · have hrows : g.debt.rows = [] := List.map_eq_nil_iff.1 hrewarding.rows.symm
        show Debt.mk g.debt.rows g.debt.count g.debt.code g.debt.burns = _
        rw [hrows, hrewarding.count, hrewarding.code, hrewarding.burns]
        rfl
    refine step_query (Or.inl rfl) fun (r : Except Problem Unit) _ ↦ ?_
    rcases r with problem | -
    · exact step_checked nofun fun _ _ ↦ hP _ rfl hdebt
    · refine step_checked (fun _ _ ↦ step_setUsed (keeps_pure.2 ?_)) nofun
      exact hP _ rfl hdebt
  · obtain hrewarding := h.resolve_left fun h ↦ hnil h.1
    have hmay : (bookkeeping reg).may g (.storePunch p plan.receipt issued) :=
      Or.inr ⟨⟨_, hcurrent, hrewarding.chainID.symm, rfl⟩, hrewarding.count, hrewarding.rows⟩
    refine step_query hmay fun (r : Except Problem Unit) hr ↦ ?_
    rcases r with problem | -
    · exact absurd hr hnil
    · refine step_checked (fun _ _ ↦ step_setUsed (keeps_pure.2 ?_)) nofun
      have hnext : (bookkeeping reg).next g (.storePunch p plan.receipt issued) (.ok ()) =
          { g with debt := { g.debt with rows := [], count := 0 } } := if_neg hnil
      rw [hnext]
      refine hP _ rfl ?_
      show Debt.mk [] 0 g.debt.code g.debt.burns = _
      rw [hrewarding.code, hrewarding.burns]
      rfl

theorem leaving_punch (hg : g.Free) (id : ℕ) (body : PunchBody) :
    Leaving Owing.Free (handlePunch a id body : Work reg Response) m g := by
  refine step_silent ⟨trivial, fun _ ↦ rfl⟩ fun job hjob ↦ step_checked ?_ fun _ _ ↦ hg
  rintro ⟨p, name⟩ rfl
  replace hjob : p.sc.campaign.account = a := hjob
  refine step_silent ⟨trivial, fun _ ↦ rfl⟩ fun _ _ ↦ keeps_deferring.2 ?_
  refine Keeps.mono (?_ : Leaving Owing.Free _ m g) (fun _ _ _ hP ↦ ⟨trivial, fun _ _ ↦ hP⟩)
    fun _ _ _ hP ↦ ⟨trivial, fun _ _ ↦ hP⟩
  refine step_silent ⟨trivial, fun _ ↦ rfl⟩ fun _ _ ↦ step_checked (fun _ _ ↦ ?_) fun _ _ ↦ hg
  refine step_silent ⟨trivial, fun _ ↦ rfl⟩ fun _ _ ↦ step_checked (fun _ _ ↦ ?_) fun _ _ ↦ hg
  refine step_silent ⟨trivial, fun _ ↦ rfl⟩ fun _ _ ↦ step_checked (fun before _ ↦ ?_) fun _ _ ↦ hg
  refine step_silent ⟨trivial, fun _ ↦ rfl⟩ fun _ _ ↦ step_checked (fun plan _ ↦ ?_) fun _ _ ↦ hg
  refine step_reserveCharge_silent ⟨trivial, fun _ ↦ rfl⟩ (fun m ↦ ?_) fun _ ↦ hg
  refine keeps_deferCommitUsed_silent silent_resolve ?_
  split
  · exact leaving_storePunch (.inl ⟨rfl, hg.2⟩) fun _ hclient hdebt ↦ ⟨hclient.trans hg.1, hdebt⟩
  · refine leaving_withClient hg fun signer g' hclear ↦ ?_
    refine leaving_issueRewards (hjob.symm ▸ hclear) hclear fun m g issued hrewarding ↦ ?_
    refine leaving_storePunch (.inr hrewarding) fun _ hclient hdebt ↦ ⟨?_, hdebt⟩
    rw [hclient, hrewarding.client, hjob]

end Handlers

end Soroticket
