import Mathlib.Algebra.BigOperators.Group.List.Basic
import Soroticket.Cloud.Store

/-!
# What the handlers compute and store

The local halves of `handleRecordEvents`, `handlePunch` and `handleCommitTally`: the checks on a
request, the choice of a period, the batch a commit gathers, and the transactions each handler ends
in. What happens between these, and in which order, is `Cloud.Service`.

Sums of counts are `int64`, which wraps; a batch is at most 10000 events of at most 10000, so its
total does not (`Batch.Of.total_eq`). A commit hands the total to the contract as a `u32`, which
truncates; for the same reason it does not (`Batch.Of.toNat_count`).
-/

namespace Soroticket

variable {d : Deployment}

/-! ### References -/

/-- `opaqueReference`: a reference as the database keeps it. -/
def opaqueReference (d : Deployment) (domain ref : Bytes) : Bytes :=
  if ref = [] then [] else hexEncode (d.refMac (domain ++ 0 :: ref)).bytes

/-- `legacyCustomerReference`: a customer as the database kept it before. -/
def legacyCustomerReference (d : Deployment) (programID : ℕ) (ref : Bytes) : Bytes :=
  if ref = [] then []
  else hexEncode ((d.sha256 (ascii "sorodeal-loyalty|" ++ ascii (toString programID) ++
    ascii "|" ++ ref)).bytes.take 8)

/-- The bytes of a text. -/
def utf8 (text : String) : Bytes := text.toUTF8.data.toList

/-- The characters `strings.TrimSpace` cuts. -/
def isSpace (c : Char) : Bool :=
  (9 ≤ c.toNat ∧ c.toNat ≤ 13) ∨ (0x2000 ≤ c.toNat ∧ c.toNat ≤ 0x200a) ∨
    c.toNat ∈ [0x20, 0x85, 0xa0, 0x1680, 0x2028, 0x2029, 0x202f, 0x205f, 0x3000]

/-- `strings.TrimSpace`. -/
def trimSpace (text : String) : String :=
  String.ofList ((text.toList.dropWhile isSpace).reverse.dropWhile isSpace).reverse

/-- `isLowerHex`. -/
def isLowerHex (text : String) : Bool :=
  text.toList.all fun c ↦ ('0' ≤ c ∧ c ≤ '9') ∨ ('a' ≤ c ∧ c ≤ 'f')

/-- The name of an environment in a domain. -/
def CloudEnv.name : CloudEnv → Bytes
  | test => ascii "test"
  | live => ascii "live"

/-- The start of every domain of an account. -/
def AuthCtx.domain (a : AuthCtx) : Bytes :=
  ascii "org:" ++ ascii (toString a.orgID) ++ ascii "|env:" ++ a.env.name

/-- The longest reference, in bytes. -/
def maxReferenceLen : ℕ := 512

/-- The count of a request, one when it gives none. -/
def checkedCount (count : Option Int64) (most : Int64) :
    Except Problem {n : Int64 // 0 < n ∧ n ≤ most} :=
  let n := count.getD 1
  if hpos : 0 < n then
    if hmost : n ≤ most then .ok ⟨n, hpos, hmost⟩ else .error ⟨400, "count too large"⟩
  else .error ⟨400, "count must be positive when provided"⟩

/-! ### Recording an event -/

/-- The body of a request to record an event. The place of the scan is left out. -/
structure EventBody where
  count : Option Int64
  customerRef : String
  orderRef : String
  evidenceType : String
  policyVersion : String
  contextHash : String

/-- What a handler takes from its surroundings while it answers: the time, its signer and a nonce,
and whether the account can be charged. -/
structure Surroundings where
  now : ℤ
  receiptSigner : Option Signer
  randHex : Option Bytes
  reserveCharge : Except Problem Unit

/-- `handleRecordEvents`, up to its transaction. -/
def recordEvents (reg : Registry d) (env : Surroundings) (a : AuthCtx) (campaignID : ℕ)
    (code : Bytes) (body : EventBody) : Except Problem NewEvent := do
  let sc ← reg.sharedByCampaignCode a campaignID code
  rejectWhen (sc.campaign.archived = true) 409 "campaign is archived"
  rejectWhen (sc.campaign.validUntil < env.now) 409
    "campaign has expired; new events are not accepted"
  let count ← checkedCount body.count 10000
  rejectWhen (maxReferenceLen < body.customerRef.utf8ByteSize ∨
    maxReferenceLen < body.orderRef.utf8ByteSize) 400
    "customer_ref and order_ref must not exceed 512 bytes"
  let evidenceType := trimSpace body.evidenceType
  let policyVersion := trimSpace body.policyVersion
  let contextHash := (trimSpace body.contextHash).toLower
  rejectWhen (32 < evidenceType.utf8ByteSize ∨ 32 < policyVersion.utf8ByteSize) 400
    "evidence_type and policy_version must not exceed 32 bytes"
  rejectWhen (contextHash ≠ "" ∧
    (64 < contextHash.utf8ByteSize ∨ isLowerHex contextHash = false)) 400
    "context_hash must be lowercase hex of at most 64 characters"
  let domain := a.domain ++ ascii "|campaign:" ++ ascii (toString sc.campaign.chainID.toNat) ++
    ascii "|code:" ++ code
  let customerRef := opaqueReference d (domain ++ ascii "|customer")
    (utf8 (trimSpace body.customerRef))
  let orderRef := opaqueReference d (domain ++ ascii "|order") (utf8 (trimSpace body.orderRef))
  let receipt ← orProblem (signReceipt d env.receiptSigner env.randHex sc.campaign.chainID code
    count.1.toInt customerRef orderRef env.now
    ⟨utf8 evidenceType, utf8 contextHash, utf8 policyVersion⟩) 500
    "could not sign redemption receipt"
  env.reserveCharge
  return ⟨sc.row.id, count, customerRef, some orderRef, receipt⟩

/-! ### The tables the handlers write -/

/-- The scope of a reference that is counted once. -/
inductive DedupScope where
  | shared (sharedID : ℕ)
  | loyalty (programID : ℕ)
  deriving DecidableEq

/-- A row of `operation_dedup`. -/
structure DedupRow where
  account : AuthCtx
  scope : DedupScope
  reference : Bytes
  deriving DecidableEq

/-- A row of `tallies`, without its settlement. -/
structure TallyRow where
  sharedCodeID : ℕ
  period : UInt64
  count : Int64
  attributedCount : Int64
  merkleRoot : Bytes
  txHash : Bytes
  deriving DecidableEq

/-- A row of `punches`. -/
structure PunchRow where
  programID : ℕ
  customerRef : Bytes
  count : Int64
  deriving DecidableEq

/-- A row of `rewards`. -/
structure RewardRow where
  programID : ℕ
  customerRef : Bytes
  code : Bytes
  deriving DecidableEq

/-- The tables the handlers write. -/
structure Database where
  sharedEvents : EventTable
  tallies : List TallyRow
  operationDedup : List DedupRow
  punches : List PunchRow
  rewards : List RewardRow

namespace Database

/-- The tables of a new deployment. -/
def empty : Database := ⟨⟨[], List.Pairwise.nil⟩, [], [], [], []⟩

/-- `INSERT OR IGNORE` a reference into `operation_dedup`, if there is one, and fail where it was
there already. -/
def reserveReference (db : Database) (row : DedupRow) (problem : Problem) :
    Except Problem Database :=
  if row.reference = [] then .ok db
  else if row ∈ db.operationDedup then .error problem
  else .ok { db with operationDedup := db.operationDedup ++ [row] }

/-- The transaction of `handleRecordEvents`. -/
def storeEvent (db : Database) (a : AuthCtx) (e : NewEvent) : Except Problem Database := do
  let db ← db.reserveReference ⟨a, .shared e.sharedCodeID, e.orderRef.getD []⟩
    ⟨409, "order_ref was already recorded for this shared code"⟩
  return { db with sharedEvents := db.sharedEvents.insert e }

end Database

/-! ### Punching a card -/

/-- The body of a punch. -/
structure PunchBody where
  customerRef : String
  eventRef : String
  count : Option Int64

/-- A punch that passed its checks. -/
structure PunchJob (reg : Registry d) where
  account : AuthCtx
  program : ProgramRow
  sc : CurrentCode reg
  count : {n : Int64 // 0 < n ∧ n ≤ 1000}
  ref : Bytes
  legacyRef : Bytes
  eventRef : Bytes

/-- `handlePunch`, up to its lock. -/
def punchRequest (reg : Registry d) (env : Surroundings) (a : AuthCtx) (id : ℕ)
    (body : PunchBody) : Except Problem (PunchJob reg) := do
  let (program, sc) ← reg.programByID a id
  rejectWhen (program.threshold ≤ 0) 500 "loyalty program has an invalid threshold"
  rejectWhen (sc.campaign.archived = true) 409 "loyalty campaign is archived"
  rejectWhen (sc.campaign.validUntil < env.now) 409 "loyalty campaign has expired"
  let customer := trimSpace body.customerRef
  rejectWhen (customer = "") 400 "customer_ref is required"
  rejectWhen (maxReferenceLen < body.customerRef.utf8ByteSize ∨
    maxReferenceLen < body.eventRef.utf8ByteSize) 400
    "customer_ref and event_ref must not exceed 512 bytes"
  let count ← checkedCount body.count 1000
  let domain := a.domain ++ ascii "|loyalty:" ++ ascii (toString id)
  return ⟨a, program, sc, count, opaqueReference d (domain ++ ascii "|customer") (utf8 customer),
    legacyCustomerReference d id (utf8 customer),
    opaqueReference d (domain ++ ascii "|event") (utf8 (trimSpace body.eventRef))⟩

/-- What a punch will store: the balance, the rewards it earns, and its receipt. -/
structure PunchPlan where
  after : Int64
  newRewards : ℕ
  receipt : SignedReceipt

/-- `SELECT SUM(count)`, which fails on a sum that is no `int64`. -/
def sumCounts (counts : List Int64) : Option Int64 :=
  let sum := (counts.map Int64.toInt).sum
  if -2 ^ 63 ≤ sum ∧ sum < 2 ^ 63 then some (Int64.ofInt sum) else none

namespace Database

/-- An unsigned event of a customer takes its present name; a signed one keeps what was signed. -/
def renameEvent (sharedID : ℕ) (legacyRef currentRef : Bytes) (e : SharedEvent) : SharedEvent :=
  if e.sharedCodeID = sharedID ∧ e.customerRef = legacyRef ∧ e.receipt.isNone then
    { e with customerRef := currentRef }
  else e

theorem id_renameEvent (sharedID : ℕ) (legacyRef currentRef : Bytes) (e : SharedEvent) :
    (renameEvent sharedID legacyRef currentRef e).id = e.id := by
  rw [renameEvent]
  split <;> rfl

/-- `migrateLegacyLoyaltyCustomer`: the rows of a customer take its present name. -/
def migrateCustomer (db : Database) (programID sharedID : ℕ) (legacyRef currentRef : Bytes) :
    Database :=
  if legacyRef = [] ∨ currentRef = [] ∨ legacyRef = currentRef then db
  else { db with
    punches := db.punches.map fun p ↦
      if p.programID = programID ∧ p.customerRef = legacyRef then
        { p with customerRef := currentRef } else p
    rewards := db.rewards.map fun r ↦
      if r.programID = programID ∧ r.customerRef = legacyRef then
        { r with customerRef := currentRef } else r
    sharedEvents := db.sharedEvents.update (renameEvent sharedID legacyRef currentRef)
      (id_renameEvent sharedID legacyRef currentRef) }

/-- The check of `handlePunch` that its event was not counted before. -/
def checkEventRef (db : Database) (a : AuthCtx) (programID : ℕ) (eventRef : Bytes) :
    Except Problem Unit :=
  rejectWhen (eventRef ≠ [] ∧ ⟨a, .loyalty programID, eventRef⟩ ∈ db.operationDedup) 409
    "event_ref was already recorded for this loyalty program"

/-- The balance of a customer before the punch. -/
def loyaltyBalance (db : Database) (programID : ℕ) (ref : Bytes) (count : Int64) :
    Except Problem Int64 := do
  let before ← orProblem (sumCounts ((db.punches.filter fun p ↦
    p.programID = programID ∧ p.customerRef = ref).map (·.count))) 500
    "could not read loyalty balance"
  rejectWhen (Int64.maxValue - count < before) 400 "loyalty punch total is too large"
  return before

/-- `handlePunch`, from its query for rewards to its lock of the account. -/
def planPunch (db : Database) (env : Surroundings) {reg : Registry d} (p : PunchJob reg)
    (before : Int64) : Except Problem PunchPlan := do
  let after := before + p.count
  let existingRewards := db.rewards.countP fun r ↦
    r.programID = p.program.id ∧ r.customerRef = p.ref
  let newRewards := (after / p.program.threshold).toInt - existingRewards
  rejectWhen ((maxBatch : ℤ) < newRewards) 400
    "this punch would issue more than 100 rewards; split it into smaller requests"
  let receipt ← orProblem (signReceipt d env.receiptSigner env.randHex p.sc.campaign.chainID
    p.program.earnCode p.count.1.toInt p.ref p.eventRef env.now ⟨[], [], []⟩) 500
    "could not sign loyalty receipt"
  env.reserveCharge
  return ⟨after, newRewards.toNat, receipt⟩

/-- The event of a punch. -/
def punchEvent {reg : Registry d} (p : PunchJob reg) (receipt : SignedReceipt) : NewEvent where
  sharedCodeID := p.sc.row.id
  count := ⟨p.count, p.count.2.1, Int64.le_trans p.count.2.2 (by decide)⟩
  customerRef := p.ref
  orderRef := none
  receipt

/-- The transaction of `handlePunch`. -/
def storePunch (db : Database) {reg : Registry d} (p : PunchJob reg) (receipt : SignedReceipt)
    (issued : List Bytes) : Except Problem Database := do
  let db ← db.reserveReference ⟨p.account, .loyalty p.program.id, p.eventRef⟩
    ⟨500, "loyalty event reference changed during processing; reconcile before retrying"⟩
  return { db with
    punches := db.punches ++ [⟨p.program.id, p.ref, p.count⟩]
    sharedEvents := db.sharedEvents.insert (punchEvent p receipt)
    rewards := db.rewards ++ issued.map fun code ↦ ⟨p.program.id, p.ref, code⟩ }

end Database

/-! ### Committing a tally -/

/-- Days from the epoch to the first of January. -/
def daysToYear (year : ℤ) : ℤ :=
  365 * (year - 1) + (year - 1) / 4 - (year - 1) / 100 + (year - 1) / 400 - 719162

/-- The year of a day. -/
def yearOfDay (day : ℤ) : ℤ :=
  let d := day + 719162
  let d₁ := d % 146097
  let c := min 3 (d₁ / 36524)
  let d₂ := d₁ - 36524 * c
  400 * (d / 146097) + 100 * c + 4 * (d₂ / 1461) + min 3 (d₂ % 1461 / 365) + 1

/-- `ISOWeek`: the year and number of a day's week, which are those of its Thursday. -/
def isoWeek (day : ℤ) : ℤ × ℤ :=
  let thursday := day - (day + 3) % 7 + 3
  let year := yearOfDay thursday
  (year, (thursday - daysToYear year) / 7 + 1)

/-- `isoWeekPeriod`: the week of a time, as `YYYYWW`. -/
def isoWeekPeriod (now : ℤ) : UInt64 :=
  let (year, week) := isoWeek (now / 86400)
  UInt64.ofInt (year * 100 + week)

example : isoWeekPeriod (20646 * 86400) = 202628 := by decide
example : isoWeekPeriod (18630 * 86400) = 202053 := by decide

/-- `validCloudPeriod`: `YYYYWW`, or `YYYYWW01` to `YYYYWW99`, for a week its year has. The last
week of a year is the week of its 28th of December. -/
def validCloudPeriod (p : UInt64) : Bool :=
  let base := if 10000000 ≤ p then p / 100 else p
  let year := base / 100
  let week := base % 100
  ¬(10000000 ≤ p ∧ p % 100 = 0) ∧ 1970 ≤ year ∧ year ≤ 9999 ∧ 1 ≤ week ∧ week ≤ 53 ∧
    (week.toNat : ℤ) ≤ (isoWeek (daysToYear (year.toNat + 1) - 4)).2

/-- What is left of `nextCommitPeriod` once the tables are read: the first batch of the week that
none is beyond. -/
def nextCommitPeriod (base : UInt64) (baseExists : Bool) (maxBatch : Option UInt64) :
    Except Problem UInt64 :=
  match maxBatch with
  | some batch =>
    if 99 ≤ batch then
      .error ⟨409, "this shared code already has 100 tally batches for the current ISO week"⟩
    else .ok (base * 100 + (batch + 1))
  | none => .ok (if baseExists then base * 100 + 1 else base)

/-- `SELECT MAX(period % 100)` over the batches of a week. -/
def Database.maxBatch (db : Database) (sharedID : ℕ) (base : UInt64) : Option UInt64 :=
  ((db.tallies.filter fun t ↦
    t.sharedCodeID = sharedID ∧ base * 100 + 1 ≤ t.period ∧ t.period ≤ base * 100 + 99).map
      fun t ↦ t.period % 100).max?

/-- The most receipts of one tally. -/
def maxReceiptsPerTally : ℕ := 10000

/-- What a commit gathers from the rows it reads. -/
structure Batch where
  eventIDs : List ℕ
  leaves : List (BytesN 32)
  total : Int64
  deriving DecidableEq

/-- One round of the loop of a commit; a hash that cannot be read ends it. -/
def Batch.add (b : Batch) (e : SharedEvent) : Option Batch :=
  e.leaf?.map fun leaf ↦ ⟨b.eventIDs ++ [e.id], b.leaves ++ [leaf], b.total + e.count⟩

/-- The loop of a commit over the rows it reads. -/
def readBatch (rows : List SharedEvent) : Option Batch := rows.foldlM Batch.add ⟨[], [], 0⟩

/-- What the loop says of the rows it read. -/
structure Batch.Of (b : Batch) (rows : List SharedEvent) : Prop where
  eventIDs : b.eventIDs = rows.map (·.id)
  leaves : rows.map SharedEvent.leaf? = b.leaves.map some
  total : b.total = rows.foldl (fun total e ↦ total + e.count) 0

theorem readBatch_spec {rows : List SharedEvent} :
    ∀ {b : Batch}, readBatch rows = some b → b.Of rows := by
  induction rows using List.reverseRecOn with
  | nil =>
    intro b h
    obtain rfl := Option.some.inj h
    exact ⟨rfl, rfl, rfl⟩
  | append_singleton rows e ih =>
    intro b h
    rw [readBatch, List.foldlM_append] at h
    obtain ⟨b₁, hb₁, hadd⟩ := Option.bind_eq_some_iff.1 h
    rw [List.foldlM_cons] at hadd
    obtain ⟨b₂, hb₂, hnil⟩ := Option.bind_eq_some_iff.1 hadd
    obtain rfl : b₂ = b := Option.some.inj hnil
    obtain ⟨leaf, hleaf, rfl⟩ := Option.map_eq_some_iff.1 hb₂
    obtain ⟨hids, hleaves, htotal⟩ := ih hb₁
    refine ⟨?_, ?_, ?_⟩
    · rw [hids, List.map_append, List.map_singleton]
    · rw [List.map_append, hleaves, List.map_append, List.map_singleton, hleaf, List.map_singleton]
    · rw [htotal, List.foldl_append, List.foldl_cons, List.foldl_nil]

/-- The sum of the counts of events, as a number. -/
def eventTotal (rows : List SharedEvent) : ℤ := (rows.map fun e ↦ e.count.toInt).sum

theorem eventTotal_concat (rows : List SharedEvent) (e : SharedEvent) :
    eventTotal (rows ++ [e]) = eventTotal rows + e.count.toInt := by
  rw [eventTotal, List.map_append, List.sum_append, List.map_singleton, List.sum_singleton]
  rfl

/-- The counts of these events are those of recorded events. -/
def Counted (rows : List SharedEvent) : Prop :=
  ∀ e ∈ rows, 0 < e.count.toInt ∧ e.count.toInt ≤ 10000

theorem Counted.length_le {rows : List SharedEvent} (h : Counted rows) :
    (rows.length : ℤ) ≤ eventTotal rows ∧ eventTotal rows ≤ 10000 * rows.length := by
  induction rows with
  | nil => exact ⟨le_rfl, le_rfl⟩
  | cons e rows ih =>
    obtain ⟨hlo, hhi⟩ := h e List.mem_cons_self
    obtain ⟨ihlo, ihhi⟩ := ih fun x hx ↦ h x (List.mem_cons_of_mem _ hx)
    rw [eventTotal, List.map_cons, List.sum_cons, ← eventTotal, List.length_cons]
    push_cast
    constructor <;> omega

/-- **The total of a batch does not wrap.** -/
theorem Batch.Of.total_eq {b : Batch} {rows : List SharedEvent} (h : b.Of rows)
    (hcounts : Counted rows) (hlen : rows.length ≤ maxReceiptsPerTally) :
    b.total.toInt = eventTotal rows := by
  rw [h.total]
  clear h
  induction rows using List.reverseRecOn with
  | nil => rfl
  | append_singleton rows e ih =>
    have hrows : Counted rows := fun x hx ↦ hcounts x (List.mem_append_left _ hx)
    have he := hcounts e (List.mem_append_right _ List.mem_cons_self)
    rw [List.length_append, List.length_singleton, maxReceiptsPerTally] at hlen
    have hsum := hrows.length_le
    rw [List.foldl_append, List.foldl_cons, List.foldl_nil, Int64.toInt_add,
      ih hrows (by rw [maxReceiptsPerTally]; omega), eventTotal_concat]
    exact Int.bmod_eq_of_le (by omega) (by omega)

/-- The count a batch commits, as `uint32(total)`. -/
def Batch.count (b : Batch) : UInt32 := b.total.toUInt64.toUInt32

/-- **The count of a batch is not truncated.** -/
theorem Batch.Of.toNat_count {b : Batch} {rows : List SharedEvent} (h : b.Of rows)
    (hcounts : Counted rows) (hlen : rows.length ≤ maxReceiptsPerTally) :
    (b.count.toNat : ℤ) = eventTotal rows := by
  have htotal := h.total_eq hcounts hlen
  obtain ⟨hlo, hhi⟩ := hcounts.length_le
  rw [maxReceiptsPerTally] at hlen
  have hnonneg : 0 ≤ b.total := by
    rw [Int64.le_iff_toInt_le, htotal]
    show (0 : ℤ) ≤ _
    omega
  rw [Batch.count, UInt64.toNat_toUInt32, Int64.toNat_toUInt64_of_le hnonneg, Int64.toNatClampNeg,
    htotal]
  omega

/-- The attribution a batch commits: all of it to the target of the code, if it has one. -/
def Batch.attribution (b : Batch) (attributedTo : Option Address) : AttributionMap :=
  match attributedTo with
  | some target => ⟨[(target, b.count)], List.nodup_singleton _⟩
  | none => ⟨[], List.nodup_nil⟩

/-- The rows a commit reads: the first that wait, up to the limit. The loop does not ask whether the
iteration ended early, so it may see any number of them. -/
def Database.selectRows (db : Database) (sharedID read : ℕ) : List SharedEvent :=
  ((db.sharedEvents.pending sharedID).take maxReceiptsPerTally).take read

/-- `handleCommitTally`, from its query to its call of the contract. -/
def gatherBatch (env : Surroundings) (db : Database) (sharedID read : ℕ) :
    Except Problem Batch := do
  let batch ← orProblem (readBatch (db.selectRows sharedID read)) 500
    "signed event has invalid leaf hash"
  rejectWhen (batch.total = 0) 400 "no uncommitted events to anchor"
  rejectWhen (4000000000 < batch.total) 400 "count overflows u32"
  env.reserveCharge
  return batch

/-- The row a commit inserts. -/
def tallyRow (sha256 : Bytes → BytesN 32) (sc : SharedCodeRow) (period : UInt64) (b : Batch)
    (txHash : Bytes) : TallyRow where
  sharedCodeID := sc.id
  period
  count := b.total
  attributedCount := if sc.attributedTo.isSome then b.total else 0
  merkleRoot := hexRoot (merkleRoot (.zero 32) (merkleParent sha256) b.leaves)
  txHash

/-- The transaction of `handleCommitTally`. It fails where the period has a row, which is unique,
and where the number of events it stamps is not the number it read. -/
def Database.storeTally (db : Database) (row : TallyRow) (eventIDs : List ℕ) :
    Except Problem Database :=
  if ∃ t ∈ db.tallies, t.sharedCodeID = row.sharedCodeID ∧ t.period = row.period then
    .error ⟨500, "tally committed on-chain but local indexing failed"⟩
  else
    let stamped := db.sharedEvents.stamp row.sharedCodeID row.period (eventIDs.getLastD 0)
    if stamped.2 ≠ eventIDs.length then
      .error ⟨500, "tally committed on-chain but the receipt batch changed during indexing"⟩
    else .ok { db with sharedEvents := stamped.1, tallies := db.tallies ++ [row] }

end Soroticket
