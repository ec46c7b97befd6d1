import Mathlib.Data.List.Nodup
import Soroticket.Cloud.Receipts
import Soroticket.Ledger.Types

/-!
# The cloud service's database

The tables behind shared codes, tallies and loyalty programs, with the columns the modelled handlers
read, and the statements and transactions they run on them. The pool has one connection, so each
statement outside a transaction is atomic, and so is each transaction.

The tables no modelled handler writes are a `Registry`: it carries their keys' uniqueness as fields.
A shared code found on the current deployment is a `CurrentCode`, which carries where it was found;
its row id, and its key on the ledger, both determine it.

Row ids of events are rowids of SQLite, one more than the largest in the table, so a table is a list
in the order of its ids (`EventTable`). A commit stamps the events up to the last one it read, and
that it stamps exactly those it read is a fact about such lists (`stampable_eq`).
-/

namespace Soroticket

/-! ### Accounts, campaigns and codes -/

/-- The environment of a request. -/
inductive CloudEnv where
  | test
  | live
  deriving DecidableEq

/-- Who a request is from: an organization, in one of its environments. -/
structure AuthCtx where
  orgID : ℕ
  env : CloudEnv
  deriving DecidableEq

/-- A row of `org_accounts`: the custodial account of an organization. -/
structure AccountRow where
  account : AuthCtx
  publicKey : Address
  funded : Bool
  deriving DecidableEq

/-- A row of `campaigns`. -/
structure CampaignRow where
  id : ℕ
  account : AuthCtx
  chainID : UInt64
  contractID : Bytes
  validUntil : ℤ
  archived : Bool
  deriving DecidableEq

/-- A row of `shared_codes`. -/
structure SharedCodeRow where
  id : ℕ
  campaignID : ℕ
  code : Bytes
  attributedTo : Option Address
  deriving DecidableEq

/-- A row of `loyalty_programs`. -/
structure ProgramRow where
  id : ℕ
  account : AuthCtx
  threshold : Int64
  campaignID : ℕ
  earnCode : Bytes
  deriving DecidableEq

/-- The tables the handlers read and never write, with the keys that are unique in them. A campaign
id of the ledger is handed out once by the contract, so it is unique among the campaigns of the
current deployment. -/
structure Registry (d : Deployment) where
  accounts : List AccountRow
  campaigns : List CampaignRow
  sharedCodes : List SharedCodeRow
  programs : List ProgramRow
  campaign_key : ∀ c ∈ campaigns, ∀ c' ∈ campaigns, c.id = c'.id → c = c'
  chain_key : ∀ c ∈ campaigns, ∀ c' ∈ campaigns, c.contractID = d.currentContractID →
    c'.contractID = d.currentContractID → c.chainID = c'.chainID → c = c'
  code_key : ∀ c ∈ sharedCodes, ∀ c' ∈ sharedCodes, c.id = c'.id → c = c'
  code_name_key : ∀ c ∈ sharedCodes, ∀ c' ∈ sharedCodes, c.campaignID = c'.campaignID →
    c.code = c'.code → c = c'

variable {d : Deployment}

/-- A shared code of a campaign on the current deployment. -/
structure CurrentCode (reg : Registry d) where
  row : SharedCodeRow
  campaign : CampaignRow
  row_mem : row ∈ reg.sharedCodes
  campaign_mem : campaign ∈ reg.campaigns
  row_campaign : row.campaignID = campaign.id
  current : campaign.contractID = d.currentContractID

namespace CurrentCode

variable {reg : Registry d}

@[ext] theorem ext {sc sc' : CurrentCode reg} (hrow : sc.row = sc'.row)
    (hcamp : sc.campaign = sc'.campaign) : sc = sc' := by
  cases sc; cases sc'; simp_all

/-- The row id of a code determines it. -/
theorem eq_of_id {sc sc' : CurrentCode reg} (h : sc.row.id = sc'.row.id) : sc = sc' := by
  have hrow := reg.code_key _ sc.row_mem _ sc'.row_mem h
  refine CurrentCode.ext hrow (reg.campaign_key _ sc.campaign_mem _ sc'.campaign_mem ?_)
  rw [← sc.row_campaign, ← sc'.row_campaign, hrow]

/-- The key of a code on the ledger determines it. -/
theorem eq_of_key {sc sc' : CurrentCode reg} (hchain : sc.campaign.chainID = sc'.campaign.chainID)
    (hcode : sc.row.code = sc'.row.code) : sc = sc' := by
  have hcamp := reg.chain_key _ sc.campaign_mem _ sc'.campaign_mem sc.current sc'.current hchain
  refine CurrentCode.ext (reg.code_name_key _ sc.row_mem _ sc'.row_mem ?_ hcode) hcamp
  rw [sc.row_campaign, sc'.row_campaign, hcamp]

end CurrentCode

/-- What a failed request is answered with. -/
structure Problem where
  status : ℕ
  message : String
  deriving DecidableEq

/-- Fail with a problem where a condition holds. -/
def rejectWhen (p : Prop) [Decidable p] (status : ℕ) (message : String) : Except Problem Unit :=
  if p then .error ⟨status, message⟩ else .ok ()

/-- A value, or the problem of its absence. -/
def orProblem {α : Type} (o : Option α) (status : ℕ) (message : String) : Except Problem α :=
  o.elim (.error ⟨status, message⟩) .ok

theorem bind_eq_ok {α β : Type} {x : Except Problem α} {f : α → Except Problem β} {b : β} :
    (x >>= f) = .ok b ↔ ∃ a, x = .ok a ∧ f a = .ok b := by
  cases x <;> simp [bind, Except.bind]

theorem rejectWhen_eq_ok {p : Prop} [Decidable p] {status : ℕ} {message : String} {u : Unit} :
    rejectWhen p status message = .ok u ↔ ¬p := by
  rw [rejectWhen]
  split <;> simp_all

theorem orProblem_eq_ok {α : Type} {o : Option α} {status : ℕ} {message : String} {a : α} :
    orProblem o status message = .ok a ↔ o = some a := by
  cases o <;> simp [orProblem]

/-- The answer for a row stamped with an earlier deployment. -/
def legacyProblem : Problem :=
  ⟨409, "this resource was created on a previous contract deployment and is read-only in this " ++
    "preview; create a new campaign on the current deployment"⟩

/-- The join of a shared code with its campaign, where the campaign is on the current deployment. -/
def Registry.current (reg : Registry d) (row : SharedCodeRow) (hrow : row ∈ reg.sharedCodes)
    (campaign : CampaignRow) (hcamp : campaign ∈ reg.campaigns) :
    Except Problem (CurrentCode reg) :=
  if h : row.campaignID = campaign.id ∧ campaign.contractID = d.currentContractID then
    .ok ⟨row, campaign, hrow, hcamp, h.1, h.2⟩
  else .error legacyProblem

/-- `sharedByCampaignCode`: the shared code of a campaign of the account. -/
def Registry.sharedByCampaignCode (reg : Registry d) (a : AuthCtx) (campaignID : ℕ)
    (code : Bytes) : Except Problem (CurrentCode reg) :=
  let row? := reg.sharedCodes.attach.find? fun row ↦
    row.1.campaignID = campaignID ∧ row.1.code = code
  let campaign? := reg.campaigns.attach.find? fun c ↦ c.1.id = campaignID ∧ c.1.account = a
  match row?, campaign? with
  | some row, some c => reg.current row.1 row.2 c.1 c.2
  | _, _ => .error ⟨404, "shared code not found"⟩

/-- The query of `handlePunch`: a program of the account, and its earning code. -/
def Registry.programByID (reg : Registry d) (a : AuthCtx) (id : ℕ) :
    Except Problem (ProgramRow × CurrentCode reg) := do
  let program ← orProblem (reg.programs.find? fun p ↦ p.id = id ∧ p.account = a) 404
    "program not found"
  let c ← orProblem (reg.campaigns.attach.find? fun c ↦ c.1.id = program.campaignID) 404
    "program not found"
  let row ← orProblem (reg.sharedCodes.attach.find? fun row ↦
    row.1.campaignID = c.1.id ∧ row.1.code = program.earnCode) 404 "program not found"
  let sc ← reg.current row.1 row.2 c.1 c.2
  return (program, sc)

/-- `clientFor`, up to the lock: the address an account signs with. -/
def Registry.clientFor (reg : Registry d) (a : AuthCtx) : Except Problem Address :=
  match reg.accounts.find? fun row ↦ row.account = a with
  | none => .error ⟨500, "internal server error"⟩
  | some row =>
    if row.funded then .ok row.publicKey
    else .error ⟨503, "your Stellar account is still being set up — try again in a few seconds"⟩

/-! ### Events -/

/-- `hexRoot`: a hash as the database stores it. -/
def hexRoot (r : BytesN 32) : Bytes := hexEncode r.bytes

/-- `decodeHash`: the hash a stored text stands for. -/
def decodeHash (value : Bytes) : Option (BytesN 32) :=
  (hexDecode value).bind fun b ↦ if h : b.length = 32 then some ⟨b, h⟩ else none

theorem decodeHash_hexRoot (r : BytesN 32) : decodeHash (hexRoot r) = some r := by
  rw [decodeHash, hexRoot, hexDecode_hexEncode, Option.bind_some, dif_pos r.length_bytes]

/-- A row of `event_receipts`. -/
structure EventReceipt where
  payload : Bytes
  leafHash : Bytes
  signature : Bytes
  signer : Bytes
  deriving DecidableEq

/-- A row of `shared_events`, with its receipt if it was signed. -/
structure SharedEvent where
  id : ℕ
  sharedCodeID : ℕ
  count : Int64
  customerRef : Bytes
  orderRef : Option Bytes
  /-- `NULL` until the event is anchored, and `-1` for events from before receipts. -/
  committedPeriod : Option ℤ
  receipt : Option EventReceipt
  deriving DecidableEq

namespace SharedEvent

/-- A signed event of a code that waits to be anchored. -/
abbrev Pending (sharedID : ℕ) (e : SharedEvent) : Prop :=
  e.sharedCodeID = sharedID ∧ e.committedPeriod = none ∧ e.receipt.isSome

/-- An event of a code, anchored in a period. -/
abbrev Stamped (sharedID : ℕ) (period : UInt64) (e : SharedEvent) : Prop :=
  e.sharedCodeID = sharedID ∧ e.committedPeriod = some (period.toNat : ℤ)

/-- The leaf of an event, if it was signed and its hash can be read. -/
def leaf? (e : SharedEvent) : Option (BytesN 32) := e.receipt.bind fun r ↦ decodeHash r.leafHash

/-- The event, anchored in a period. -/
def stamp (period : UInt64) (e : SharedEvent) : SharedEvent :=
  { e with committedPeriod := some (period.toNat : ℤ) }

theorem not_pending_stamp (e : SharedEvent) (sharedID : ℕ) (period : UInt64) :
    ¬(e.stamp period).Pending sharedID :=
  fun h ↦ absurd h.2.1 (Option.some_ne_none _)

end SharedEvent

/-- The count of a recorded event. -/
abbrev EventCount := {n : Int64 // 0 < n ∧ n ≤ 10000}

/-- An event about to be recorded, with its signed receipt. -/
structure NewEvent where
  sharedCodeID : ℕ
  count : EventCount
  customerRef : Bytes
  orderRef : Option Bytes
  receipt : SignedReceipt

/-- The row of a recorded event. -/
def NewEvent.row (e : NewEvent) (id : ℕ) : SharedEvent :=
  { id
    sharedCodeID := e.sharedCodeID
    count := e.count
    customerRef := e.customerRef
    orderRef := e.orderRef
    committedPeriod := none
    receipt := some
      ⟨e.receipt.payload, hexRoot e.receipt.leaf, e.receipt.signature, e.receipt.signer⟩ }

theorem NewEvent.not_stamped_row (e : NewEvent) (id sharedID : ℕ) (period : UInt64) :
    ¬(e.row id).Stamped sharedID period :=
  fun h ↦ absurd h.2.symm (Option.some_ne_none _)

/-- The table of events, in the order of their ids. -/
@[ext] structure EventTable where
  rows : List SharedEvent
  ordered : rows.Pairwise fun e e' ↦ e.id < e'.id

/-- A filter that a map does not reach. -/
theorem filter_map_of_fixed {α : Type} {f : α → α} {q : α → Bool} {l : List α}
    (h : ∀ a ∈ l, f a = a ∨ q a = false ∧ q (f a) = false) : (l.map f).filter q = l.filter q := by
  induction l with
  | nil => rfl
  | cons a l ih =>
    have htail := ih fun x hx ↦ h x (List.mem_cons_of_mem a hx)
    rcases h a List.mem_cons_self with hfix | ⟨hq, hqf⟩
    · rw [List.map_cons, hfix, List.filter_cons, List.filter_cons, htail]
    · rw [List.map_cons, List.filter_cons_of_neg (by simp [hqf]), htail,
        List.filter_cons_of_neg (by simp [hq])]

namespace EventTable

/-- The id of the next event. -/
def nextID (t : EventTable) : ℕ := (t.rows.getLast?.elim 0 (·.id)) + 1

theorem lt_nextID (t : EventTable) {e : SharedEvent} (he : e ∈ t.rows) : e.id < t.nextID := by
  obtain ⟨init, last, hrows⟩ : ∃ init last, t.rows = init ++ [last] :=
    ⟨_, _, (List.dropLast_append_getLast (List.ne_nil_of_mem he)).symm⟩
  have hord := t.ordered
  rw [nextID, hrows, List.getLast?_concat]
  rw [hrows] at he hord
  rcases List.mem_append.1 he with hinit | hlast
  · exact Nat.lt_succ_of_lt ((List.pairwise_append.1 hord).2.2 e hinit last List.mem_cons_self)
  · rw [List.mem_singleton.1 hlast]
    exact Nat.lt_succ_self _

/-- Insert an event. -/
def insert (t : EventTable) (e : NewEvent) : EventTable where
  rows := t.rows ++ [e.row t.nextID]
  ordered := List.pairwise_append.2 ⟨t.ordered, List.pairwise_singleton _ _, fun _ he _ he' ↦
    (List.mem_singleton.1 he') ▸ t.lt_nextID he⟩

/-- Change the rows, but not their ids. -/
def update (t : EventTable) (f : SharedEvent → SharedEvent) (hf : ∀ e, (f e).id = e.id) :
    EventTable where
  rows := t.rows.map f
  ordered := List.pairwise_map.2 (t.ordered.imp fun h ↦ by rwa [hf, hf])

/-- Events are told apart by their ids. -/
theorem eq_of_id (t : EventTable) {e e' : SharedEvent} (he : e ∈ t.rows) (he' : e' ∈ t.rows)
    (h : e.id = e'.id) : e = e' := by
  have hnodup : (t.rows.map (·.id)).Nodup := List.pairwise_map.2 (t.ordered.imp Nat.ne_of_lt)
  exact List.inj_on_of_nodup_map hnodup he he' h

/-! #### Reading -/

/-- The signed events of a code that wait to be anchored, in the order of their ids. -/
def pending (t : EventTable) (sharedID : ℕ) : List SharedEvent :=
  t.rows.filter fun e ↦ e.Pending sharedID

/-- The events of a code anchored in a period, in the order of their ids. -/
def stamped (t : EventTable) (sharedID : ℕ) (period : UInt64) : List SharedEvent :=
  t.rows.filter fun e ↦ e.Stamped sharedID period

/-- The number of unsigned events of a code that wait to be anchored. -/
def unsignedReceipts (t : EventTable) (sharedID : ℕ) : ℕ :=
  t.rows.countP fun e ↦ e.sharedCodeID = sharedID ∧ e.committedPeriod = none ∧ e.receipt.isNone

/-- The events the `UPDATE` of a commit changes: those of the code, not anchored, up to an id. -/
abbrev Stampable (sharedID last : ℕ) (e : SharedEvent) : Prop :=
  e.sharedCodeID = sharedID ∧ e.committedPeriod = none ∧ e.id ≤ last

/-- The `UPDATE` of a commit, and the number of rows it changes. -/
def stamp (t : EventTable) (sharedID : ℕ) (period : UInt64) (last : ℕ) : EventTable × ℕ :=
  (t.update (fun e ↦ if Stampable sharedID last e then e.stamp period else e) fun e ↦ by
      split <;> rfl,
    t.rows.countP fun e ↦ Stampable sharedID last e)

/-- **What a commit stamps is what it read.** Where the events that wait are the ones read and some
more, and all that wait are signed, the events up to the last one read are the ones read: ids grow
along the table. -/
theorem stampable_eq (t : EventTable) {sharedID : ℕ} {rows rest : List SharedEvent}
    {last : SharedEvent} (hpending : t.pending sharedID = rows ++ last :: rest)
    (hsigned : ∀ e ∈ t.rows, e.sharedCodeID = sharedID → e.committedPeriod = none →
      e.receipt.isSome) :
    (t.rows.filter fun e ↦ Stampable sharedID last.id e) = rows ++ [last] := by
  have hsplit : (t.rows.filter fun e ↦ Stampable sharedID last.id e) =
      (t.pending sharedID).filter fun e ↦ e.id ≤ last.id := by
    rw [pending, List.filter_filter]
    refine List.filter_congr fun e he ↦ ?_
    rw [← Bool.decide_and, decide_eq_decide]
    constructor
    · rintro ⟨hcode, hnone, hle⟩
      exact ⟨hle, hcode, hnone, hsigned e he hcode hnone⟩
    · rintro ⟨hle, hcode, hnone, -⟩
      exact ⟨hcode, hnone, hle⟩
  have hord : (rows ++ last :: rest).Pairwise fun e e' ↦ e.id < e'.id := by
    rw [← hpending]
    exact t.ordered.filter _
  obtain ⟨-, htail, hcross⟩ := List.pairwise_append.1 hord
  obtain ⟨hafter, -⟩ := List.pairwise_cons.1 htail
  rw [hsplit, hpending, List.filter_append, List.filter_cons_of_pos (by simp)]
  rw [List.filter_eq_self.2 fun e he ↦ decide_eq_true
    (hcross e he last List.mem_cons_self).le]
  rw [List.filter_eq_nil_iff.2 fun e he ↦ by simpa using hafter e he]

/-! #### Writing -/

theorem mem_insert {t : EventTable} {e : NewEvent} {x : SharedEvent} :
    x ∈ (t.insert e).rows ↔ x ∈ t.rows ∨ x = e.row t.nextID := by
  rw [insert, List.mem_append, List.mem_singleton]

/-- A new event waits after all that wait. -/
theorem pending_insert (t : EventTable) (e : NewEvent) (sharedID : ℕ) :
    ∃ more, (t.insert e).pending sharedID = t.pending sharedID ++ more :=
  ⟨_, List.filter_append _ _⟩

/-- A new event is not stamped. -/
theorem stamped_insert (t : EventTable) (e : NewEvent) (sharedID : ℕ) (period : UInt64) :
    (t.insert e).stamped sharedID period = t.stamped sharedID period := by
  have hnew : ([e.row t.nextID].filter fun e ↦ e.Stamped sharedID period) = [] :=
    List.filter_eq_nil_iff.2 fun x hx ↦ by
      rw [List.mem_singleton.1 hx, decide_eq_true_iff]
      exact e.not_stamped_row t.nextID sharedID period
  rw [stamped, insert, List.filter_append, hnew, List.append_nil, stamped]

theorem rows_update (t : EventTable) (f : SharedEvent → SharedEvent)
    (hf : ∀ e, (f e).id = e.id) : (t.update f hf).rows = t.rows.map f := rfl

theorem rows_stamp (t : EventTable) (sharedID : ℕ) (period : UInt64) (last : ℕ) :
    (t.stamp sharedID period last).1.rows =
      t.rows.map fun e ↦ if Stampable sharedID last e then e.stamp period else e := rfl

/-- A stamp leaves alone what waits for other codes. -/
theorem pending_stamp_of_ne (t : EventTable) {sharedID sharedID' : ℕ} (hne : sharedID' ≠ sharedID)
    (period : UInt64) (last : ℕ) :
    (t.stamp sharedID period last).1.pending sharedID' = t.pending sharedID' := by
  rw [pending, rows_stamp, pending]
  refine filter_map_of_fixed fun e _ ↦ ?_
  split
  case isTrue h =>
    have hcode : e.sharedCodeID ≠ sharedID' := fun heq ↦ hne (heq ▸ h.1)
    exact Or.inr ⟨by simp [hcode], decide_eq_false (e.not_pending_stamp sharedID' period)⟩
  case isFalse => exact Or.inl rfl

/-- A stamp leaves alone what is stamped otherwise. -/
theorem stamped_stamp_of_ne (t : EventTable) {sharedID sharedID' : ℕ} {period period' : UInt64}
    (hne : (sharedID', period') ≠ (sharedID, period)) (last : ℕ) :
    (t.stamp sharedID period last).1.stamped sharedID' period' = t.stamped sharedID' period' := by
  rw [stamped, rows_stamp, stamped]
  refine filter_map_of_fixed fun e _ ↦ ?_
  split
  case isTrue h =>
    refine Or.inr ⟨by simp [h.2.1], decide_eq_false ?_⟩
    rintro ⟨hcode, hperiod⟩
    have hnat : period.toNat = period'.toNat := by simpa [SharedEvent.stamp] using hperiod
    refine hne (Prod.ext ?_ (UInt64.toNat_inj.1 hnat.symm))
    exact hcode.symm.trans h.1
  case isFalse => exact Or.inl rfl

/-- A stamp of a period that has none stamps what it reaches. -/
theorem stamped_stamp (t : EventTable) {sharedID : ℕ} {period : UInt64}
    (hnone : t.stamped sharedID period = []) (last : ℕ) :
    (t.stamp sharedID period last).1.stamped sharedID period =
      (t.rows.filter fun e ↦ Stampable sharedID last e).map (SharedEvent.stamp period) := by
  rw [stamped, rows_stamp, List.filter_map]
  have hreach : (t.rows.filter ((fun e ↦ decide (e.Stamped sharedID period)) ∘
      fun e ↦ if Stampable sharedID last e then e.stamp period else e)) =
        t.rows.filter fun e ↦ Stampable sharedID last e := by
    refine List.filter_congr fun e he ↦ ?_
    rw [Function.comp_apply, decide_eq_decide]
    have hnot : ¬e.Stamped sharedID period := by
      have h := List.filter_eq_nil_iff.1 hnone e he
      simpa using h
    split
    case isTrue h => exact iff_of_true ⟨h.1, rfl⟩ h
    case isFalse h => exact iff_of_false hnot h
  rw [hreach]
  refine List.map_congr_left fun e he ↦ ?_
  rw [if_pos (by simpa using (List.mem_filter.1 he).2)]

end EventTable

/-! ### What no write takes back -/

/-- An event goes on as another: nothing of it changes but its customer's name, and its period if it
had none. -/
structure Continues (e x : SharedEvent) : Prop where
  id : x.id = e.id
  code : x.sharedCodeID = e.sharedCodeID
  count : x.count = e.count
  receipt : x.receipt = e.receipt
  period : ∀ q, e.committedPeriod = some q → x.committedPeriod = some q

theorem Continues.refl (e : SharedEvent) : Continues e e := ⟨rfl, rfl, rfl, rfl, fun _ h ↦ h⟩

theorem Continues.trans {e x y : SharedEvent} (h : Continues e x) (h' : Continues x y) :
    Continues e y :=
  ⟨h'.id.trans h.id, h'.code.trans h.code, h'.count.trans h.count, h'.receipt.trans h.receipt,
    fun q hq ↦ h'.period q (h.period q hq)⟩

/-- An event recorded since: it waits, it is signed, and its id and count are those of a new
event. -/
structure RecordedSince (t : EventTable) (x : SharedEvent) : Prop where
  id : ∀ e ∈ t.rows, e.id < x.id
  signed : x.receipt.isSome
  count : 0 < x.count.toInt ∧ x.count.toInt ≤ 10000

/-- A table goes on as another: its events do, and any others are recorded since. -/
structure Evolves (t t' : EventTable) : Prop where
  survives : ∀ e ∈ t.rows, ∃ x ∈ t'.rows, Continues e x
  origin : ∀ x ∈ t'.rows, (∃ e ∈ t.rows, Continues e x) ∨ RecordedSince t x

namespace Evolves

theorem refl (t : EventTable) : Evolves t t :=
  ⟨fun e he ↦ ⟨e, he, .refl e⟩, fun x hx ↦ Or.inl ⟨x, hx, .refl x⟩⟩

theorem trans {t t' t'' : EventTable} (h : Evolves t t') (h' : Evolves t' t'') :
    Evolves t t'' where
  survives e he := by
    obtain ⟨x, hx, hex⟩ := h.survives e he
    obtain ⟨y, hy, hxy⟩ := h'.survives x hx
    exact ⟨y, hy, hex.trans hxy⟩
  origin y hy := by
    rcases h'.origin y hy with ⟨x, hx, hxy⟩ | hnew
    · rcases h.origin x hx with ⟨e, he, hex⟩ | hnew
      · exact Or.inl ⟨e, he, hex.trans hxy⟩
      · refine Or.inr ⟨fun e he ↦ hxy.id ▸ hnew.id e he, hxy.receipt ▸ hnew.signed, ?_⟩
        rw [hxy.count]
        exact hnew.count
    · refine Or.inr ⟨fun e he ↦ ?_, hnew.signed, hnew.count⟩
      obtain ⟨x, hx, hex⟩ := h.survives e he
      exact hex.id ▸ hnew.id x hx

theorem insert (t : EventTable) (e : NewEvent) : Evolves t (t.insert e) where
  survives x hx := ⟨x, EventTable.mem_insert.2 (Or.inl hx), .refl x⟩
  origin x hx := by
    rcases EventTable.mem_insert.1 hx with hold | rfl
    · exact Or.inl ⟨x, hold, .refl x⟩
    · refine Or.inr ⟨fun y hy ↦ t.lt_nextID hy, rfl, ?_, ?_⟩
      · exact Int64.lt_iff_toInt_lt.1 e.count.2.1
      · exact Int64.le_iff_toInt_le.1 e.count.2.2

theorem update (t : EventTable) {f : SharedEvent → SharedEvent} (hid : ∀ e, (f e).id = e.id)
    (hf : ∀ e, Continues e (f e)) : Evolves t (t.update f hid) where
  survives e he := ⟨f e, List.mem_map_of_mem he, hf e⟩
  origin x hx := by
    obtain ⟨e, he, rfl⟩ := List.mem_map.1 hx
    exact Or.inl ⟨e, he, hf e⟩

theorem stamp (t : EventTable) (sharedID : ℕ) (period : UInt64) (last : ℕ) :
    Evolves t (t.stamp sharedID period last).1 := by
  refine update t (f := fun e ↦ if EventTable.Stampable sharedID last e then e.stamp period else e)
    (fun e ↦ by split <;> rfl) fun e ↦ ?_
  split
  case isTrue h =>
    refine ⟨rfl, rfl, rfl, rfl, fun q hq ↦ ?_⟩
    rw [h.2.1] at hq
    exact absurd hq.symm (Option.some_ne_none q)
  case isFalse => exact .refl e

end Evolves

end Soroticket
