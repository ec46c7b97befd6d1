import Soroticket.Cloud.Payloads
import Soroticket.Machine.Paging

/-!
# The public audit of a tally

`handleAuditTally` answers anyone who asks for a committed tally with a page of its receipts. It
checks the whole set of receipts from aggregates, on every page, and each receipt of the page on its
own. `handleAuditTally_eq_ok` says what one answer rests on; `audit_sound_iff` puts the pages of a
walk together, over tables of which nothing is assumed but that the ids of events are told apart.

What is checked is the payload as it is stored, and what is sent is the payload as the encoder of
the answer writes it (`EventReceipt.encoded`). The two are one where the stored payload is compact
and escaped as `json.Marshal` writes it (`Json.tight`), which is so for all that the service signs;
for a payload that is not, the answer vouches for bytes nobody signed (`audit_unsound`).

Each of the five statements of an audit sees the database as it then is, so the handler takes tables
for each of them. Verifying a signature, reading an address, and the two functions of `strings` that
depend on the tables of Unicode are parameters (`Auditor`), and nothing is assumed of them here.
-/

namespace Soroticket

open HashTree Paging

variable {d : Deployment}

/-! ### Requests -/

/-- An unsigned integer of a request. -/
def parseUint (raw : Bytes) : Option UInt64 := uintOf (Json.runes raw)

/-- The integer a text stands for, with or without a sign. -/
def signedInteger : List Char → Option ℤ
  | '+' :: ds => (Json.natural ds).map fun n ↦ n
  | cs => Json.integer? cs

/-- `strconv.ParseInt`, in base ten. -/
def parseInt (raw : Bytes) : Option ℤ :=
  (signedInteger (Json.runes raw)).bind fun n ↦ if -2 ^ 63 ≤ n ∧ n < 2 ^ 63 then some n else none

/-- The texts of a request: three of its path, and three of its query. -/
structure AuditRequest where
  chainID : Bytes
  period : Bytes
  code : Bytes
  contract : Bytes
  cursor : Bytes
  limit : Bytes

/-- The tally a request is for. -/
structure AuditTarget where
  chainID : UInt64
  period : UInt64
  code : Bytes
  contract : Bytes
  deriving DecidableEq

/-- What an audit runs on beside the deployment. -/
structure Auditor where
  legacyContractID : Bytes
  /-- `strings.TrimSpace`. -/
  trimSpace : Bytes → Bytes
  /-- `strings.ToUpper`. -/
  toUpper : Bytes → Bytes
  Key : Type
  /-- `keypair.ParseAddress`. -/
  parseAddress : Bytes → Option Key
  /-- `Verify`, of a payload and its signature. -/
  verify : Key → Bytes → Bytes → Bool

/-- The most receipts of one page. -/
def maxAuditPageSize : ℕ := 100

/-- `handleAuditTally`, up to the contract its request is for. -/
def auditTarget (d : Deployment) (s : Auditor) (r : AuditRequest) : Except Problem AuditTarget := do
  let chainID ← orProblem (parseUint r.chainID) 400 "invalid chain campaign id"
  rejectWhen (chainID = 0) 400 "invalid chain campaign id"
  let period ← orProblem (parseUint r.period) 400 "invalid period"
  rejectWhen (period = 0) 400 "invalid period"
  let code := s.toUpper (s.trimSpace r.code)
  rejectWhen (code = [] ∨ maxCodeLen < code.length) 400 "invalid shared code"
  let raw := s.trimSpace r.contract
  rejectWhen (raw ≠ [] ∧ raw ≠ d.currentContractID ∧ raw ≠ s.legacyContractID) 404
    "unknown contract deployment"
  return ⟨chainID, period, code, if raw = [] then d.currentContractID else raw⟩

/-- The cursor of a request. -/
def auditCursor (raw : Bytes) : Except Problem ℕ := do
  let cursor ← orProblem (if raw = [] then some 0 else parseInt raw) 400
    "cursor must be a non-negative integer"
  rejectWhen (cursor < 0) 400 "cursor must be a non-negative integer"
  return cursor.toNat

/-- The size of the page of a request. -/
def auditLimit (raw : Bytes) : Except Problem ℕ := do
  let limit ← orProblem (if raw = [] then some (maxAuditPageSize : ℤ) else parseInt raw) 400
    "limit must be between 1 and 100"
  rejectWhen (limit < 1 ∨ (maxAuditPageSize : ℤ) < limit) 400 "limit must be between 1 and 100"
  return limit.toNat

/-! ### Tables -/

/-- A row of `tallies`, with the time of its commit. -/
structure TallyRecord where
  row : TallyRow
  committedAt : ℤ
  deriving DecidableEq

/-- The tables an audit reads. -/
structure AuditTables where
  campaigns : List CampaignRow
  sharedCodes : List SharedCodeRow
  tallies : List TallyRecord
  sharedEvents : EventTable

/-- The statements of an audit, in their order. -/
inductive AuditQuery where
  | tally
  | summary
  | signed
  | leaves
  | receipts

/-- The row of a tally, by the names of its campaign and code. -/
abbrev AuditTables.Names (t : AuditTables) (a : AuditTarget) (tally : TallyRecord) : Prop :=
  tally.row.period = a.period ∧ ∃ sc ∈ t.sharedCodes, sc.id = tally.row.sharedCodeID ∧
    sc.code = a.code ∧ ∃ c ∈ t.campaigns, c.id = sc.campaignID ∧ c.chainID = a.chainID ∧
      c.contractID = a.contract

/-- The query for a tally. -/
def AuditTables.findTally (t : AuditTables) (a : AuditTarget) : Option TallyRecord :=
  t.tallies.find? fun tally ↦ t.Names a tally

theorem AuditTables.findTally_spec {t : AuditTables} {a : AuditTarget} {tally : TallyRecord}
    (h : t.findTally a = some tally) : tally ∈ t.tallies ∧ t.Names a tally := by
  rw [findTally] at h
  have hfound := List.find?_some h
  rw [decide_eq_true_iff] at hfound
  exact ⟨List.mem_of_find?_eq_some h, hfound⟩

/-- The events of a code anchored in a period, joined with their receipts, in the order of their
ids. -/
def EventTable.receipts (t : EventTable) (sharedID : ℕ) (period : UInt64) :
    List (SharedEvent × EventReceipt) :=
  (t.stamped sharedID period).filterMap fun e ↦ e.receipt.map fun r ↦ (e, r)

/-- Where all events are signed, the events joined with their receipts are the events. -/
theorem EventTable.map_fst_receipts {t : EventTable} {sharedID : ℕ} {period : UInt64}
    (h : ∀ e ∈ t.stamped sharedID period, e.receipt.isSome) :
    (t.receipts sharedID period).map Prod.fst = t.stamped sharedID period := by
  rw [receipts]
  generalize t.stamped sharedID period = rows at h
  induction rows with
  | nil => rfl
  | cons e rows ih =>
    obtain ⟨r, hr⟩ := Option.isSome_iff_exists.1 (h e List.mem_cons_self)
    have hrest := ih fun x hx ↦ h x (List.mem_cons_of_mem e hx)
    rw [List.filterMap_cons_some (b := (e, r)) (by rw [hr, Option.map_some]), List.map_cons, hrest]

/-- The receipts of a tally. -/
abbrev AuditTables.receipts (t : AuditTables) (tally : TallyRecord) :
    List (SharedEvent × EventReceipt) :=
  t.sharedEvents.receipts tally.row.sharedCodeID tally.row.period

/-- `COALESCE(SUM(…), 0)`, which fails where a sum leaves the integers of 64 bits. -/
def sumColumn (column : List ℤ) : Option ℤ :=
  column.foldlM (fun sum n ↦
    if -2 ^ 63 ≤ sum + n ∧ sum + n < 2 ^ 63 then some (sum + n) else none) 0

/-! ### The checks of an audit -/

/-- The checks of the whole set of receipts that need no hash; the number of receipts. -/
def auditSummary (summary signed : AuditTables) (tally : TallyRecord) (cursor : ℕ) :
    Except Problem ℕ := do
  let rows := summary.sharedEvents.stamped tally.row.sharedCodeID tally.row.period
  let receiptTotal := rows.length
  let receiptCount ← orProblem (sumColumn (rows.map fun e ↦ e.count.toInt)) 500
    "could not summarize audit receipts"
  rejectWhen (receiptTotal = 0) 410 "tally has no published signed receipt set"
  rejectWhen (maxReceiptsPerTally < receiptTotal) 500
    "committed tally has an invalid receipt-set size"
  rejectWhen (receiptCount ≠ tally.row.count.toInt) 500
    "receipt counts do not equal the committed tally"
  let signedTotal := (signed.receipts tally).length
  rejectWhen (signedTotal = 0) 410
    "legacy tally predates signed receipts and has no verifiable receipt set"
  rejectWhen (signedTotal ≠ receiptTotal) 500
    "committed tally mixes signed and unsigned receipts"
  rejectWhen (receiptTotal < cursor) 400 "cursor exceeds the receipt set"
  return receiptTotal

/-- The check of the committed root; the levels of the tree. -/
def auditLevels (d : Deployment) (leaves : AuditTables) (tally : TallyRecord)
    (receiptTotal : ℕ) : Except Problem (List (List (BytesN 32))) := do
  let hashes ← orProblem ((leaves.receipts tally).mapM fun x ↦ decodeHash x.2.leafHash) 500
    "stored receipt hash is invalid"
  rejectWhen (hashes.length ≠ receiptTotal) 500 "could not read the complete receipt hash set"
  let levels := merkleLevels (merkleParent d.sha256) hashes
  let top ← orProblem (levels.getLast?.bind List.head?) 500
    "receipt set does not match the committed Merkle root"
  rejectWhen (hexRoot top ≠ tally.row.merkleRoot) 500
    "receipt set does not match the committed Merkle root"
  return levels

/-- The check of one receipt of a page. -/
def checkReceipt (d : Deployment) (s : Auditor) (a : AuditTarget)
    (x : SharedEvent × EventReceipt) : Except Problem Unit := do
  let leaf ← orProblem (decodeHash x.2.leafHash) 500 "stored receipt hash is invalid"
  rejectWhen (d.sha256 x.2.payload ≠ leaf) 500
    "stored receipt payload does not match its leaf hash"
  let payload ← orProblem (ReceiptPayload.unmarshal x.2.payload) 500
    "stored receipt payload is inconsistent"
  rejectWhen ((payload.version ≠ 1 ∧ payload.version ≠ 2) ∨ payload.campaignID ≠ a.chainID ∨
    payload.code ≠ a.code ∨ payload.count ≤ 0 ∨ payload.count ≠ x.1.count.toInt ∨
    payload.signer ≠ x.2.signer ∨ (payload.version = 2 ∧
      (payload.network ≠ d.cloudNetwork ∨ payload.contractID ≠ a.contract))) 500
    "stored receipt payload is inconsistent"
  let publicKey ← orProblem (s.parseAddress x.2.signer) 500 "stored receipt signer is invalid"
  let signature ← orProblem (Base64.decode x.2.signature) 500
    "stored receipt signature is invalid"
  rejectWhen (s.verify publicKey x.2.payload signature = false) 500
    "stored receipt signature is invalid"

/-! ### Answers -/

/-- A receipt as an audit publishes it. -/
structure AuditReceipt where
  receipt : EventReceipt
  proof : List (MerkleStep (BytesN 32))

/-- A page of an audit. -/
structure AuditPage where
  network : Bytes
  contractID : Bytes
  campaignID : UInt64
  code : Bytes
  period : UInt64
  count : Int64
  merkleRoot : Bytes
  committedAt : ℤ
  receiptTotal : ℕ
  cursor : ℕ
  limit : ℕ
  nextCursor : Option ℕ
  receipts : List AuditReceipt

/-- A receipt as the encoder writes it: the payload is a JSON text that is handed to it, and it
compacts it. -/
def EventReceipt.encoded (r : EventReceipt) : EventReceipt :=
  { r with payload := Json.compact r.payload }

/-- A receipt of a page as it is sent, with its proof, which is empty where the index is no leaf's.
The error is for an index beyond a level, where Go would panic: levels of a tree have none
(`exists_publishReceipt`). -/
def publishReceipt (levels : List (List (BytesN 32))) (x : (SharedEvent × EventReceipt) × ℕ) :
    Except Problem AuditReceipt := do
  let proof ← orProblem (merkleProofFromLevels levels x.2) 500 "internal server error"
  return ⟨x.1.2.encoded, proof⟩

/-- `handleAuditTally`. -/
def handleAuditTally (d : Deployment) (s : Auditor) (tables : AuditQuery → AuditTables)
    (r : AuditRequest) : Except Problem AuditPage := do
  let a ← auditTarget d s r
  let cursor ← auditCursor r.cursor
  let limit ← auditLimit r.limit
  -- the database takes no unsigned integer with its high bit set
  rejectWhen (2 ^ 63 ≤ a.chainID.toNat ∨ 2 ^ 63 ≤ a.period.toNat) 404 "committed tally not found"
  let tally ← orProblem ((tables .tally).findTally a) 404 "committed tally not found"
  let receiptTotal ← auditSummary (tables .summary) (tables .signed) tally cursor
  let levels ← auditLevels d (tables .leaves) tally receiptTotal
  let stored := page ((tables .receipts).receipts tally) cursor limit
  stored.forM (checkReceipt d s a)
  let receipts ← (stored.zipIdx cursor).mapM (publishReceipt levels)
  let pageEnd := cursor + receipts.length
  return {
    network := d.cloudNetwork
    contractID := a.contract
    campaignID := a.chainID
    code := a.code
    period := a.period
    count := tally.row.count
    merkleRoot := tally.row.merkleRoot
    committedAt := tally.committedAt
    receiptTotal
    cursor
    limit
    nextCursor := if pageEnd < receiptTotal then some pageEnd else none
    receipts }

theorem exists_publishReceipt (d : Deployment) (leaves : List (BytesN 32))
    (x : (SharedEvent × EventReceipt) × ℕ) :
    ∃ y, publishReceipt (merkleLevels (merkleParent d.sha256) leaves) x = .ok y := by
  obtain ⟨steps, hsteps⟩ := exists_merkleProofFromLevels (merkleParent d.sha256) leaves x.2
  exact ⟨⟨x.1.2.encoded, steps⟩, by rw [publishReceipt, hsteps]; rfl⟩

/-- A receipt is sent as it is stored where its payload is compact. -/
theorem EventReceipt.encoded_of_tight {r : EventReceipt} (h : Json.tight .token r.payload) :
    r.encoded = r := by
  rw [encoded, Json.compact_eq_self_iff.2 h]

/-! ### Loops -/

theorem mapM_eq_some_iff {α β : Type} {f : α → Option β} {l : List α} :
    ∀ {r : List β}, l.mapM f = some r ↔ l.map f = r.map some := by
  induction l with
  | nil =>
    intro r
    rw [List.mapM_nil, List.map_nil, eq_comm (a := []), List.map_eq_nil_iff]
    exact ⟨fun h ↦ (Option.some.inj h).symm, fun h ↦ congrArg some h.symm⟩
  | cons a l ih =>
    intro r
    rw [List.mapM_cons, List.map_cons]
    constructor
    · intro h
      obtain ⟨b, hb, h⟩ := Option.bind_eq_some_iff.1 h
      obtain ⟨bs, hbs, h⟩ := Option.bind_eq_some_iff.1 h
      rw [← Option.some.inj h, List.map_cons, hb, ih.1 hbs]
    · intro h
      obtain ⟨b, bs, rfl, hb, hbs⟩ := List.map_eq_cons_iff.1 h.symm
      rw [← hb, ih.2 hbs.symm]
      rfl

theorem forM_eq_ok {α : Type} {f : α → Except Problem Unit} {l : List α} :
    l.forM f = .ok () ↔ ∀ x ∈ l, f x = .ok () := by
  induction l with
  | nil => exact ⟨fun _ x hx ↦ absurd hx List.not_mem_nil, fun _ ↦ rfl⟩
  | cons a l ih =>
    show (f a >>= fun _ ↦ l.forM f) = .ok () ↔ _
    rw [bind_eq_ok, List.forall_mem_cons]
    constructor
    · rintro ⟨_, ha, hl⟩
      exact ⟨ha, ih.1 hl⟩
    · rintro ⟨ha, hl⟩
      exact ⟨(), ha, ih.2 hl⟩

theorem mapM_eq_ok {α β : Type} {f : α → Except Problem β} {l : List α} :
    ∀ {r : List β}, l.mapM f = .ok r ↔ List.Forall₂ (fun x y ↦ f x = .ok y) l r := by
  induction l with
  | nil =>
    intro r
    rw [List.mapM_nil, List.forall₂_nil_left_iff]
    exact ⟨fun h ↦ (Except.ok.inj h).symm, fun h ↦ congrArg Except.ok h.symm⟩
  | cons a l ih =>
    intro r
    rw [List.mapM_cons, bind_eq_ok, List.forall₂_cons_left_iff]
    constructor
    · rintro ⟨b, hb, h⟩
      obtain ⟨bs, hbs, h⟩ := bind_eq_ok.1 h
      exact ⟨b, bs, hb, ih.1 hbs, (Except.ok.inj h).symm⟩
    · rintro ⟨b, bs, hb, hbs, rfl⟩
      exact ⟨b, hb, bind_eq_ok.2 ⟨bs, ih.2 hbs, rfl⟩⟩

/-- A sum that does not leave the integers of 64 bits is the sum. -/
theorem sumColumn_eq_some {column : List ℤ} :
    ∀ {sum : ℤ}, sumColumn column = some sum → sum = column.sum := by
  induction column using List.reverseRecOn with
  | nil =>
    intro sum h
    exact (Option.some.inj h).symm
  | append_singleton column n ih =>
    intro sum h
    rw [sumColumn, List.foldlM_append] at h
    obtain ⟨before, hbefore, h⟩ := Option.bind_eq_some_iff.1 h
    rw [List.foldlM_cons] at h
    obtain ⟨after, hafter, h⟩ := Option.bind_eq_some_iff.1 h
    obtain rfl := Option.some.inj h
    split at hafter
    case isTrue =>
      rw [← Option.some.inj hafter, ih hbefore, List.sum_append, List.sum_singleton]
    case isFalse => exact absurd hafter.symm (Option.some_ne_none _)

/-! ### What an answer rests on -/

/-- What the check of a receipt finds. -/
structure Verified (d : Deployment) (s : Auditor) (a : AuditTarget)
    (x : SharedEvent × EventReceipt) : Prop where
  leaf : decodeHash x.2.leafHash = some (d.sha256 x.2.payload)
  content : ∃ p, ReceiptPayload.unmarshal x.2.payload = some p ∧
    (p.version = 1 ∨ p.version = 2 ∧ p.network = d.cloudNetwork ∧ p.contractID = a.contract) ∧
    p.campaignID = a.chainID ∧ p.code = a.code ∧ 0 < p.count ∧ p.count = x.1.count.toInt ∧
    p.signer = x.2.signer
  signed : ∃ publicKey signature, s.parseAddress x.2.signer = some publicKey ∧
    Base64.decode x.2.signature = some signature ∧
    s.verify publicKey x.2.payload signature = true

theorem checkReceipt_eq_ok {s : Auditor} {a : AuditTarget} {x : SharedEvent × EventReceipt} :
    checkReceipt d s a x = .ok () ↔ Verified d s a x := by
  constructor
  · intro h
    obtain ⟨leaf, hleaf, h⟩ := bind_eq_ok.1 h
    obtain ⟨_, hhash, h⟩ := bind_eq_ok.1 h
    obtain ⟨p, hp, h⟩ := bind_eq_ok.1 h
    obtain ⟨_, hfields, h⟩ := bind_eq_ok.1 h
    obtain ⟨publicKey, hkey, h⟩ := bind_eq_ok.1 h
    obtain ⟨signature, hsig, h⟩ := bind_eq_ok.1 h
    have hverify := rejectWhen_eq_ok.1 h
    have hhash := not_not.1 (rejectWhen_eq_ok.1 hhash)
    have hfields := rejectWhen_eq_ok.1 hfields
    refine ⟨hhash ▸ orProblem_eq_ok.1 hleaf, ⟨p, orProblem_eq_ok.1 hp, ?_⟩, publicKey, signature,
      orProblem_eq_ok.1 hkey, orProblem_eq_ok.1 hsig, by simpa using hverify⟩
    simp only [not_or, not_and, not_not, not_le] at hfields
    obtain ⟨hversion, hid, hcode, hpos, hcount, hsigner, hcurrent⟩ := hfields
    refine ⟨?_, hid, hcode, hpos, hcount, hsigner⟩
    by_cases hone : p.version = 1
    · exact Or.inl hone
    · exact Or.inr ⟨hversion hone, hcurrent (hversion hone)⟩
  · rintro ⟨hleaf, ⟨p, hp, hversion, hid, hcode, hpos, hcount, hsigner⟩, publicKey, signature,
      hkey, hsig, hverify⟩
    refine bind_eq_ok.2 ⟨_, orProblem_eq_ok.2 hleaf, bind_eq_ok.2 ⟨(), rejectWhen_eq_ok.2
      (not_not.2 rfl), bind_eq_ok.2 ⟨p, orProblem_eq_ok.2 hp, bind_eq_ok.2 ⟨(),
      rejectWhen_eq_ok.2 ?_, bind_eq_ok.2 ⟨publicKey, orProblem_eq_ok.2 hkey,
      bind_eq_ok.2 ⟨signature, orProblem_eq_ok.2 hsig, rejectWhen_eq_ok.2 ?_⟩⟩⟩⟩⟩⟩
    · simp only [not_or, not_and, not_not, not_le]
      refine ⟨fun hone ↦ ?_, hid, hcode, hpos, hcount, hsigner, fun htwo ↦ ?_⟩
      · exact (hversion.resolve_left hone).1
      · rcases hversion with hone | ⟨-, hcurrent⟩
        · exact absurd (hone.symm.trans htwo) (by decide)
        · exact hcurrent
    · rw [hverify]
      exact Bool.noConfusion

/-- What the summary of a set of receipts finds. -/
structure Summarized (summary signed : AuditTables) (tally : TallyRecord) (cursor total : ℕ) :
    Prop where
  length : total = (summary.sharedEvents.stamped tally.row.sharedCodeID tally.row.period).length
  pos : 0 < total
  le : total ≤ maxReceiptsPerTally
  count : ((summary.sharedEvents.stamped tally.row.sharedCodeID tally.row.period).map
    fun e ↦ e.count.toInt).sum = tally.row.count.toInt
  allSigned : (signed.receipts tally).length = total
  within : cursor ≤ total

theorem auditSummary_eq_ok {summary signed : AuditTables} {tally : TallyRecord} {cursor total : ℕ}
    (h : auditSummary summary signed tally cursor = .ok total) :
    Summarized summary signed tally cursor total := by
  obtain ⟨sum, hsum, h⟩ := bind_eq_ok.1 h
  obtain ⟨_, hpos, h⟩ := bind_eq_ok.1 h
  obtain ⟨_, hle, h⟩ := bind_eq_ok.1 h
  obtain ⟨_, hcount, h⟩ := bind_eq_ok.1 h
  obtain ⟨_, -, h⟩ := bind_eq_ok.1 h
  obtain ⟨_, hsigned, h⟩ := bind_eq_ok.1 h
  obtain ⟨_, hcursor, h⟩ := bind_eq_ok.1 h
  obtain rfl := Except.ok.inj h
  refine ⟨rfl, Nat.pos_of_ne_zero (rejectWhen_eq_ok.1 hpos),
    Nat.not_lt.1 (rejectWhen_eq_ok.1 hle), ?_, not_not.1 (rejectWhen_eq_ok.1 hsigned),
    Nat.not_lt.1 (rejectWhen_eq_ok.1 hcursor)⟩
  rw [← sumColumn_eq_some (orProblem_eq_ok.1 hsum)]
  exact not_not.1 (rejectWhen_eq_ok.1 hcount)

/-- The levels a check of the root returns are those of the hashes it read, and their root is the
committed one. -/
structure Rooted (d : Deployment) (leaves : AuditTables) (tally : TallyRecord)
    (hashes : List (BytesN 32)) : Prop where
  read : (leaves.receipts tally).map (fun x ↦ decodeHash x.2.leafHash) = hashes.map some
  ne : hashes ≠ []
  root : hexRoot (merkleRoot (.zero 32) (merkleParent d.sha256) hashes) = tally.row.merkleRoot

theorem auditLevels_eq_ok {leaves : AuditTables} {tally : TallyRecord} {total : ℕ}
    {levels : List (List (BytesN 32))} (h : auditLevels d leaves tally total = .ok levels) :
    ∃ hashes, levels = merkleLevels (merkleParent d.sha256) hashes ∧ hashes.length = total ∧
      Rooted d leaves tally hashes := by
  obtain ⟨hashes, hread, h⟩ := bind_eq_ok.1 h
  obtain ⟨_, hlen, h⟩ := bind_eq_ok.1 h
  obtain ⟨top, htop, h⟩ := bind_eq_ok.1 h
  obtain ⟨_, hroot, h⟩ := bind_eq_ok.1 h
  have htop := orProblem_eq_ok.1 htop
  have hne : hashes ≠ [] := by
    rintro rfl
    exact absurd htop.symm (Option.some_ne_none _)
  have hlast := getLast?_merkleLevels (merkleParent d.sha256) (.zero 32) hne
  refine ⟨hashes, (Except.ok.inj h).symm, not_not.1 (rejectWhen_eq_ok.1 hlen),
    mapM_eq_some_iff.1 (orProblem_eq_ok.1 hread), hne, ?_⟩
  rw [hlast] at htop
  rw [← not_not.1 (rejectWhen_eq_ok.1 hroot), ← Option.some.inj htop]

/-- What an answer rests on. -/
structure Audited (d : Deployment) (s : Auditor) (tables : AuditQuery → AuditTables)
    (r : AuditRequest) (p : AuditPage) (a : AuditTarget) (tally : TallyRecord)
    (hashes : List (BytesN 32)) : Prop where
  target : auditTarget d s r = .ok a
  cursor : auditCursor r.cursor = .ok p.cursor
  limit : auditLimit r.limit = .ok p.limit
  found : (tables .tally).findTally a = some tally
  heading : p.network = d.cloudNetwork ∧ p.contractID = a.contract ∧ p.campaignID = a.chainID ∧
    p.code = a.code ∧ p.period = a.period
  committed : p.count = tally.row.count ∧ p.merkleRoot = tally.row.merkleRoot ∧
    p.committedAt = tally.committedAt
  summary : Summarized (tables .summary) (tables .signed) tally p.cursor p.receiptTotal
  length : hashes.length = p.receiptTotal
  root : Rooted d (tables .leaves) tally hashes
  checked : ∀ x ∈ page ((tables .receipts).receipts tally) p.cursor p.limit, Verified d s a x
  receipts : List.Forall₂ (fun x y ↦ y.receipt = x.1.2.encoded ∧
      merkleProofFromLevels (merkleLevels (merkleParent d.sha256) hashes) (x.2 : ℕ) =
        some y.proof)
    ((page ((tables .receipts).receipts tally) p.cursor p.limit).zipIdx p.cursor) p.receipts
  next : p.nextCursor = if p.cursor + p.receipts.length < p.receiptTotal then
    some (p.cursor + p.receipts.length) else none

/-- **What an answer rests on.** -/
theorem handleAuditTally_eq_ok {s : Auditor} {tables : AuditQuery → AuditTables}
    {r : AuditRequest} {p : AuditPage} (h : handleAuditTally d s tables r = .ok p) :
    ∃ a tally hashes, Audited d s tables r p a tally hashes := by
  obtain ⟨a, ha, h⟩ := bind_eq_ok.1 h
  obtain ⟨cursor, hcursor, h⟩ := bind_eq_ok.1 h
  obtain ⟨limit, hlimit, h⟩ := bind_eq_ok.1 h
  obtain ⟨_, -, h⟩ := bind_eq_ok.1 h
  obtain ⟨tally, htally, h⟩ := bind_eq_ok.1 h
  obtain ⟨total, htotal, h⟩ := bind_eq_ok.1 h
  obtain ⟨levels, hlevels, h⟩ := bind_eq_ok.1 h
  obtain ⟨_, hchecked, h⟩ := bind_eq_ok.1 h
  obtain ⟨receipts, hreceipts, h⟩ := bind_eq_ok.1 h
  obtain rfl := Except.ok.inj h
  obtain ⟨hashes, rfl, hlen, hroot⟩ := auditLevels_eq_ok hlevels
  refine ⟨a, tally, hashes, ha, hcursor, hlimit, orProblem_eq_ok.1 htally,
    ⟨rfl, rfl, rfl, rfl, rfl⟩, ⟨rfl, rfl, rfl⟩, auditSummary_eq_ok htotal, hlen, hroot, ?_, ?_, rfl⟩
  · exact fun x hx ↦ checkReceipt_eq_ok.1 (forM_eq_ok.1 hchecked x hx)
  · refine (mapM_eq_ok.1 hreceipts).imp fun x y hxy ↦ ?_
    obtain ⟨proof, hproof, hy⟩ := bind_eq_ok.1 hxy
    obtain rfl := Except.ok.inj hy
    exact ⟨rfl, orProblem_eq_ok.1 hproof⟩

/-! ### One page -/

/-- The count a payload states. -/
def payloadCount (payload : Bytes) : ℤ := (ReceiptPayload.unmarshal payload).elim 0 (·.count)

/-- What an audit vouches for of a receipt: its payload hashes to its leaf, is signed by the signer
it names, and is about what was asked for; and its proof leads from its leaf to the root. -/
structure Vouched (d : Deployment) (s : Auditor) (a : AuditTarget) (root : Bytes)
    (y : AuditReceipt) : Prop where
  leaf : decodeHash y.receipt.leafHash = some (d.sha256 y.receipt.payload)
  content : ∃ p, ReceiptPayload.unmarshal y.receipt.payload = some p ∧
    (p.version = 1 ∨ p.version = 2 ∧ p.network = d.cloudNetwork ∧ p.contractID = a.contract) ∧
    p.campaignID = a.chainID ∧ p.code = a.code ∧ 0 < p.count ∧ p.signer = y.receipt.signer
  signed : ∃ publicKey signature, s.parseAddress y.receipt.signer = some publicKey ∧
    Base64.decode y.receipt.signature = some signature ∧
    s.verify publicKey y.receipt.payload signature = true
  proof : hexRoot (walk (merkleParent d.sha256) (d.sha256 y.receipt.payload) y.proof) = root

section Page

variable {s : Auditor} {tables : AuditQuery → AuditTables} {r : AuditRequest} {p : AuditPage}
  {a : AuditTarget} {tally : TallyRecord} {hashes : List (BytesN 32)}

theorem exists_of_mem_forall₂ {α β : Type} {R : α → β → Prop} {l : List α} {m : List β}
    (h : List.Forall₂ R l m) {y : β} (hy : y ∈ m) : ∃ x ∈ l, R x y := by
  induction h with
  | nil => exact absurd hy List.not_mem_nil
  | @cons x y' l m hxy hrest ih =>
    rcases List.mem_cons.1 hy with rfl | hy
    · exact ⟨x, List.mem_cons_self, hxy⟩
    · obtain ⟨x', hx', hR⟩ := ih hy
      exact ⟨x', List.mem_cons_of_mem _ hx', hR⟩

theorem map_eq_map_of_forall₂ {α β γ : Type} {R : α → β → Prop} {f : α → γ} {g : β → γ}
    {l : List α} {m : List β} (h : List.Forall₂ R l m) (heq : ∀ x y, R x y → g y = f x) :
    m.map g = l.map f := by
  induction h with
  | nil => rfl
  | cons hxy _ ih => rw [List.map_cons, List.map_cons, heq _ _ hxy, ih]

theorem payloadCount_eq {x : SharedEvent × EventReceipt} (h : Verified d s a x) :
    payloadCount x.2.payload = x.1.count.toInt := by
  obtain ⟨payload, hpayload, -, -, -, -, hcount, -⟩ := h.content
  rw [payloadCount, hpayload]
  exact hcount

/-- A receipt that was checked, and what is sent of it. -/
structure Sent (d : Deployment) (s : Auditor) (a : AuditTarget) (x : SharedEvent × EventReceipt)
    (y : AuditReceipt) : Prop where
  checked : Verified d s a x
  sent : y.receipt = x.2.encoded

/-- **A page sends what the tables hold**, and has checked it. -/
theorem Audited.sent (h : Audited d s tables r p a tally hashes) :
    List.Forall₂ (Sent d s a) (page ((tables .receipts).receipts tally) p.cursor p.limit)
      p.receipts := by
  rw [← List.zipIdx_map_fst p.cursor (page _ _ _), List.forall₂_map_left_iff]
  have hrows : ∀ x ∈ (page ((tables .receipts).receipts tally) p.cursor p.limit).zipIdx p.cursor,
      Verified d s a x.1 :=
    fun x hx ↦ h.checked x.1 (List.fst_mem_of_mem_zipIdx hx)
  exact ((List.forall₂_and_left _ _).2 ⟨hrows, h.receipts⟩).imp
    fun x y hxy ↦ ⟨hxy.1, hxy.2.1⟩

/-- A page vouches for its receipts, where its hashes were read from the same receipts and their
payloads are compact. -/
theorem Audited.vouched (h : Audited d s tables r p a tally hashes)
    (hsame : (tables .receipts).receipts tally = (tables .leaves).receipts tally)
    (htight : ∀ x ∈ (tables .receipts).receipts tally, Json.tight .token x.2.payload)
    {y : AuditReceipt} (hy : y ∈ p.receipts) : Vouched d s a p.merkleRoot y := by
  obtain ⟨⟨x, i⟩, hx, hreceipt, hproof⟩ := exists_of_mem_forall₂ h.receipts hy
  have hmem := List.fst_mem_of_mem_zipIdx hx
  have hchecked := h.checked x hmem
  have hrow := htight x ((page_prefix_drop _ _ _).subset hmem |> List.mem_of_mem_drop)
  rw [EventReceipt.encoded_of_tight hrow] at hreceipt
  obtain ⟨payload, hpayload, hversion, hid, hcode, hpos, -, hsigner⟩ := hchecked.content
  -- the hash read at its place is its leaf
  have hleaf : hashes[i]? = some (d.sha256 x.2.payload) := by
    obtain ⟨hle, hget⟩ := List.mk_mem_zipIdx_iff_le_and_getElem?_sub.1 hx
    have hrow := getElem?_of_page hget
    rw [Nat.add_sub_cancel' hle, hsame] at hrow
    have hread := congrArg (·[i]?) h.root.read
    simp only [List.getElem?_map, hrow, Option.map_some, hchecked.leaf] at hread
    obtain ⟨leaf, hleaf, heq⟩ := Option.map_eq_some_iff.1 hread.symm
    rw [hleaf, heq]
  obtain ⟨hi, hget⟩ := List.getElem?_eq_some_iff.1 hleaf
  obtain ⟨steps, hsteps, hwalk⟩ := exists_proof_of_lt (merkleParent d.sha256) (.zero 32) hi
  obtain rfl : steps = y.proof := Option.some.inj (hsteps.symm.trans hproof)
  obtain ⟨-, hroot, -⟩ := h.committed
  constructor
  · rw [hreceipt]
    exact hchecked.leaf
  · rw [hreceipt]
    exact ⟨payload, hpayload, hversion, hid, hcode, hpos, hsigner⟩
  · rw [hreceipt]
    exact hchecked.signed
  · rw [hreceipt, ← hget, hwalk, h.root.root, hroot]

/-- Where all statements see one set of tables, all events of the tally are signed, and the counts
add up. -/
theorem Audited.sum_counts {t : AuditTables} (h : Audited d s (fun _ ↦ t) r p a tally hashes) :
    (t.receipts tally).length = p.receiptTotal ∧
      ((t.receipts tally).map fun x ↦ x.1.count.toInt).sum = p.count.toInt := by
  obtain ⟨hlength, -, -, hsum, hsigned, -⟩ := h.summary
  have hall : ∀ e ∈ t.sharedEvents.stamped tally.row.sharedCodeID tally.row.period,
      e.receipt.isSome := by
    intro e he
    have hsome := List.filterMap_length_eq_length.1 (hsigned.trans hlength) e he
    rwa [Option.isSome_map] at hsome
  refine ⟨hsigned, ?_⟩
  rw [← h.committed.1] at hsum
  rw [← hsum, ← EventTable.map_fst_receipts hall, List.map_map]
  rfl

end Page

/-! ### Walks -/

/-- A page for a cursor: whoever walks asks for the same tally, from that cursor on, with a limit of
any kind. -/
def AuditStep (d : Deployment) (s : Auditor) (t : AuditTables) (r : AuditRequest) (_ c : ℕ)
    (p : AuditPage) : Prop :=
  ∃ cursor limit, auditCursor cursor = .ok c ∧
    handleAuditTally d s (fun _ ↦ t) { r with cursor, limit } = .ok p

/-- The receipts a request is about: those of the tally it names. -/
def AuditTables.requested (t : AuditTables) (d : Deployment) (s : Auditor) (r : AuditRequest) :
    List (SharedEvent × EventReceipt) :=
  ((auditTarget d s r).toOption.bind t.findTally).elim [] t.receipts

/-- What the pages of a walk are to say. All are about the tally asked for, with one root, count and
number of receipts. The receipts they publish are that many; each is vouched for; the root is the
Merkle root of their leaves, in the order published; and the counts their payloads state add up to
the count. -/
def SoundPages (d : Deployment) (s : Auditor) (r : AuditRequest) (pages : List AuditPage) : Prop :=
  ∃ a root count total leaves, auditTarget d s r = .ok a ∧
    (∀ p ∈ pages, p.network = d.cloudNetwork ∧ p.contractID = a.contract ∧
      p.campaignID = a.chainID ∧ p.code = a.code ∧ p.period = a.period ∧
      p.merkleRoot = root ∧ p.count = count ∧ p.receiptTotal = total) ∧
    (pages.flatMap (·.receipts)).length = total ∧
    (∀ y ∈ pages.flatMap (·.receipts), Vouched d s a root y) ∧
    (pages.flatMap (·.receipts)).map (fun y ↦ decodeHash y.receipt.leafHash) =
      leaves.map some ∧
    root = hexRoot (merkleRoot (.zero 32) (merkleParent d.sha256) leaves) ∧
    ((pages.flatMap (·.receipts)).map fun y ↦ payloadCount y.receipt.payload).sum =
      Int64.toInt count

section Walk

variable {s : Auditor} {t : AuditTables} {r : AuditRequest} {pages : List AuditPage}

/-- The pages of a walk are about one tally, found by one request. -/
theorem audited_of_step {k c : ℕ} {p : AuditPage} (h : AuditStep d s t r k c p) :
    ∃ a tally hashes, auditTarget d s r = .ok a ∧ t.findTally a = some tally ∧ p.cursor = c ∧
      ∃ r', Audited d s (fun _ ↦ t) r' p a tally hashes := by
  obtain ⟨cursor, limit, hcursor, hp⟩ := h
  obtain ⟨a, tally, hashes, haudited⟩ := handleAuditTally_eq_ok hp
  refine ⟨a, tally, hashes, haudited.target, haudited.found, ?_, _, haudited⟩
  exact Except.ok.inj (haudited.cursor.symm.trans hcursor)

/-- What is known of a walk whose pages are answers: each rests on the same tally, and together they
send all of its receipts. -/
structure Walked (d : Deployment) (s : Auditor) (t : AuditTables) (r : AuditRequest)
    (pages : List AuditPage) (a : AuditTarget) (tally : TallyRecord) : Prop where
  target : auditTarget d s r = .ok a
  requested : t.requested d s r = t.receipts tally
  ne : pages ≠ []
  audited : ∀ p ∈ pages, ∃ r' hashes, Audited d s (fun _ ↦ t) r' p a tally hashes
  sent : List.Forall₂ (Sent d s a) (t.receipts tally) (pages.flatMap (·.receipts))

theorem walked (hwalk : Walk AuditPage.nextCursor (AuditStep d s t r) 0 0 pages) :
    ∃ a tally, Walked d s t r pages a tally := by
  -- the first page fixes the tally
  obtain ⟨p₀, hp₀, hmem₀⟩ : ∃ p, AuditStep d s t r 0 0 p ∧ p ∈ pages := by
    cases hwalk with
    | last hask => exact ⟨_, hask, List.mem_cons_self⟩
    | step hask => exact ⟨_, hask, List.mem_cons_self⟩
  obtain ⟨a, tally, hashes, ha, htally, -, r₀, h₀⟩ := audited_of_step hp₀
  have hpages : ∀ k c p, AuditStep d s t r k c p →
      p.cursor = c ∧ ∃ r' hashes', Audited d s (fun _ ↦ t) r' p a tally hashes' := by
    intro k c p hp
    obtain ⟨a', tally', hashes', ha', htally', hc, r', h'⟩ := audited_of_step hp
    obtain rfl := Except.ok.inj (ha.symm.trans ha')
    obtain rfl := Option.some.inj (htally.symm.trans htally')
    exact ⟨hc, r', hashes', h'⟩
  have hall : ∀ p ∈ pages, ∃ r' hashes, Audited d s (fun _ ↦ t) r' p a tally hashes := by
    intro p hp
    obtain ⟨k, c, hask⟩ := hwalk.asked p hp
    exact (hpages k c p hask).2
  -- put end to end, the stretches of the receipts the pages are for are all receipts
  have hrows : pages.flatMap (fun p ↦ page (t.receipts tally) p.cursor p.limit) =
      t.receipts tally := by
    refine (hwalk.flatMap_items fun k c p hp ↦ ?_).trans List.drop_zero
    obtain ⟨rfl, r', hashes', h⟩ := hpages k c p hp
    refine ⟨p.limit, rfl, ?_⟩
    rw [h.next, pageEnd, h.sum_counts.1, h.sent.length_eq]
  refine ⟨a, tally, ha, ?_, List.ne_nil_of_mem hmem₀, hall, ?_⟩
  · rw [AuditTables.requested, ha]
    show (t.findTally a).elim [] t.receipts = _
    rw [htally]
    rfl
  · rw [← hrows]
    clear hwalk hrows hmem₀
    induction pages with
    | nil => exact .nil
    | cons p pages ih =>
      obtain ⟨r', hashes', h⟩ := hall p List.mem_cons_self
      rw [List.flatMap_cons, List.flatMap_cons]
      exact List.rel_append h.sent (ih fun q hq ↦ hall q (List.mem_cons_of_mem p hq))

/-- Pages that send compact payloads say what they are to say. -/
theorem Walked.sound {a : AuditTarget} {tally : TallyRecord} (h : Walked d s t r pages a tally)
    (htight : ∀ x ∈ t.receipts tally, Json.tight .token x.2.payload) : SoundPages d s r pages := by
  obtain ⟨p₀, hp₀⟩ := List.exists_mem_of_ne_nil pages h.ne
  obtain ⟨r₀, hashes, h₀⟩ := h.audited p₀ hp₀
  obtain ⟨hlen₀, hsum₀⟩ := h₀.sum_counts
  -- what is sent is what is stored
  have hsame : List.Forall₂ (fun x y ↦ Verified d s a x ∧ y.receipt = x.2) (t.receipts tally)
      (pages.flatMap (·.receipts)) := by
    refine ((List.forall₂_and_left _ _).2 ⟨htight, h.sent⟩).imp fun x y hxy ↦ ⟨hxy.2.checked, ?_⟩
    rw [hxy.2.sent, EventReceipt.encoded_of_tight hxy.1]
  refine ⟨a, p₀.merkleRoot, p₀.count, p₀.receiptTotal, hashes, h.target, fun p hp ↦ ?_, ?_,
    fun y hy ↦ ?_, ?_, ?_, ?_⟩
  · obtain ⟨r', hashes', hp⟩ := h.audited p hp
    obtain ⟨hnetwork, hcontract, hid, hcode, hperiod⟩ := hp.heading
    refine ⟨hnetwork, hcontract, hid, hcode, hperiod, ?_, ?_, ?_⟩
    · exact hp.committed.2.1.trans h₀.committed.2.1.symm
    · exact hp.committed.1.trans h₀.committed.1.symm
    · exact hp.sum_counts.1.symm.trans hlen₀
  · rw [← hlen₀, h.sent.length_eq]
  · obtain ⟨p, hp, hy⟩ := List.mem_flatMap.1 hy
    obtain ⟨r', hashes', hp⟩ := h.audited p hp
    have hvouched := hp.vouched rfl htight hy
    rwa [hp.committed.2.1, ← h₀.committed.2.1] at hvouched
  · rw [← h₀.root.read]
    exact map_eq_map_of_forall₂ hsame fun x y hxy ↦ by rw [hxy.2]
  · rw [h₀.root.root, h₀.committed.2.1]
  · rw [← hsum₀, map_eq_map_of_forall₂ hsame fun x y hxy ↦ ?_]
    rw [hxy.2, payloadCount_eq hxy.1]

/-- A payload that is sent with the leaf of another is that payload, where the two are told
apart. -/
theorem Walked.tight {a : AuditTarget} {tally : TallyRecord} (h : Walked d s t r pages a tally)
    (hinj : Set.InjOn d.sha256 {b | ∃ x ∈ t.receipts tally,
      b = x.2.payload ∨ b = Json.compact x.2.payload})
    (hsound : SoundPages d s r pages) :
    ∀ x ∈ t.receipts tally, Json.tight .token x.2.payload := by
  obtain ⟨a', root, -, -, -, -, -, -, hvouched, -⟩ := hsound
  intro x hx
  obtain ⟨y, hy, hsent⟩ := exists_of_mem_forall₂ h.sent.flip hx
  have hleaf := (hvouched y hy).leaf
  rw [hsent.sent] at hleaf
  refine Json.compact_eq_self_iff.1 (hinj ⟨x, hx, Or.inr rfl⟩ ⟨x, hx, Or.inl rfl⟩ ?_)
  exact Option.some.inj (hleaf.symm.trans hsent.checked.leaf)

/-- **When the public audit never vouches for a corrupted tally.** Whatever the tables hold, let
every page of a walk, from the first receipt to a page that names no next one, be an answer. The
pages say what they are to say where each payload stored for the tally is compact JSON, with no
white space between its tokens and nothing in it that the encoder escapes. Where one is not, they do
not, unless its digest is that of its compact form too. -/
theorem audit_sound_iff (hwalk : Walk AuditPage.nextCursor (AuditStep d s t r) 0 0 pages) :
    ((∀ x ∈ t.requested d s r, Json.tight .token x.2.payload) → SoundPages d s r pages) ∧
    (Set.InjOn d.sha256 {b | ∃ x ∈ t.requested d s r,
        b = x.2.payload ∨ b = Json.compact x.2.payload} →
      SoundPages d s r pages → ∀ x ∈ t.requested d s r, Json.tight .token x.2.payload) := by
  obtain ⟨a, tally, h⟩ := walked hwalk
  rw [h.requested]
  exact ⟨h.sound, h.tight⟩

end Walk

/-! ### A walk of two pages -/

namespace AuditSample

def contract : Bytes := ascii "CCXNPRC4C2DX2W7Z2AW35NC6WORZPTI5JWJCTQIVRJ2FLMI3ZZ32MKRF"

def signer : Bytes := ascii "GA5WUJ54Z23KILLCUOUNAKTPBVZWKMQVO4O6EQ5GHLAERIMLLHNCSKYH"

/-- The payload of a receipt, by its count and its nonce. -/
def payload (count nonce : String) : Bytes :=
  ascii "\x7b\"version\":2,\"network\":\"testnet\",\"contract_id\":\"" ++ contract ++
  ascii "\",\"campaign_id\":1,\"code\":\"SAVE\",\"count\":" ++ ascii count ++
  ascii ",\"timestamp\":20,\"nonce\":\"" ++ ascii nonce ++ ascii "\",\"signer\":\"" ++ signer ++
  ascii "\"\x7d"

/-- The SHA-256 digest of the first payload. -/
def digestA : BytesN 32 :=
  ⟨[203, 145, 196, 101, 138, 200, 243, 107, 252, 227, 146, 38, 155, 58, 151, 251, 251, 162, 223,
    81, 93, 62, 238, 26, 251, 108, 131, 213, 70, 159, 107, 247], rfl⟩

/-- The SHA-256 digest of the second payload. -/
def digestB : BytesN 32 :=
  ⟨[243, 156, 129, 144, 201, 162, 133, 52, 56, 38, 169, 251, 134, 253, 172, 84, 209, 198, 224,
    211, 175, 13, 120, 158, 176, 230, 254, 91, 24, 133, 35, 176], rfl⟩

/-- The SHA-256 digest of the two digests, concatenated. -/
def digestPair : BytesN 32 :=
  ⟨[146, 212, 77, 8, 46, 39, 112, 39, 239, 198, 17, 70, 76, 116, 204, 129, 129, 33, 90, 19, 110,
    87, 175, 66, 247, 147, 21, 139, 176, 220, 111, 118], rfl⟩

/-- SHA-256 on what is hashed to audit the two payloads. -/
def sha256 (x : Bytes) : BytesN 32 :=
  if x = payload "2" "00" then digestA
  else if x = payload "1" "01" then digestB
  else if x = digestA.bytes ++ digestB.bytes then digestPair
  else .zero 32

/-- The Ed25519 signature of the first payload. -/
def signatureA : Bytes :=
  [187, 93, 19, 177, 238, 244, 103, 211, 83, 251, 150, 192, 78, 109, 14, 154, 58, 6, 18, 121,
    217, 32, 201, 226, 129, 239, 47, 28, 93, 61, 24, 165, 10, 180, 97, 192, 97, 53, 89, 0, 186,
    5, 176, 247, 80, 40, 75, 71, 255, 50, 125, 164, 123, 177, 112, 204, 93, 167, 170, 6, 71,
    164, 188, 12]

/-- The Ed25519 signature of the second payload. -/
def signatureB : Bytes :=
  [52, 74, 68, 187, 255, 35, 184, 58, 85, 117, 212, 212, 87, 82, 55, 28, 113, 235, 174, 113,
    53, 222, 56, 27, 128, 163, 62, 92, 11, 150, 32, 238, 32, 218, 105, 255, 100, 86, 110, 193,
    183, 34, 189, 221, 128, 127, 163, 203, 6, 3, 137, 228, 95, 7, 99, 49, 170, 253, 152, 199,
    127, 78, 54, 12]

/-- Its encoders are those of the standard library. -/
def deployment : Deployment where
  cloudNetwork := ascii "testnet"
  currentContractID := contract
  quote b := encodeText (Json.quote (Json.runes b))
  base64 := Base64.encode
  sha256
  refMac _ := .zero 32

/-- One key is known, and it has signed the two payloads. -/
def auditor : Auditor where
  legacyContractID := ascii "CBSTBPSCSUXWK57OBQN7QKGS56WUDNJBURV5PD5ZDUHTR2KQYC52QDBX"
  trimSpace b := ((b.dropWhile (· = 32)).reverse.dropWhile (· = 32)).reverse
  toUpper b := b.map fun c ↦ if 97 ≤ c ∧ c ≤ 122 then c - 32 else c
  Key := Unit
  parseAddress address := if address = signer then some () else none
  verify _ p signature := (p = payload "2" "00" ∧ signature = signatureA) ∨
    (p = payload "1" "01" ∧ signature = signatureB)

def campaign : CampaignRow := ⟨1, ⟨7, .test⟩, 1, contract, 100, false⟩

def sharedCode : SharedCodeRow := ⟨1, 1, ascii "SAVE", none⟩

/-- Two receipts of a tally, and an event that waits. -/
def tables : AuditTables where
  campaigns := [campaign]
  sharedCodes := [sharedCode]
  tallies := [⟨⟨1, 202628, 3, 0, hexRoot digestPair, []⟩, 20⟩]
  sharedEvents :=
    { rows := [⟨1, 1, 2, [], some [], some 202628,
          some ⟨payload "2" "00", hexRoot digestA, Base64.encode signatureA, signer⟩⟩,
        ⟨3, 1, 1, [], some [], some 202628,
          some ⟨payload "1" "01", hexRoot digestB, Base64.encode signatureB, signer⟩⟩,
        ⟨4, 1, 1, [], some [], none, none⟩]
      ordered := by decide }

def request : AuditRequest :=
  ⟨ascii "1", ascii "202628", ascii " save", [], [], []⟩

theorem eq_ok_of_toOption {α : Type} {x : Except Problem α} {a : α} (h : x.toOption = some a) :
    x = .ok a := by
  cases x with
  | error problem => exact absurd h.symm (Option.some_ne_none a)
  | ok b => exact congrArg Except.ok (Option.some.inj h)

/-- The page of one receipt from a cursor on, and the cursor it names. -/
theorem exists_page (cursor : Bytes) (c : ℕ) (next : Option ℕ)
    (hcursor : (auditCursor cursor).toOption = some c)
    (h : (handleAuditTally deployment auditor (fun _ ↦ tables)
      { request with cursor, limit := ascii "1" }).toOption.map (·.nextCursor) = some next)
    (k : ℕ) : ∃ p : AuditPage,
      AuditStep deployment auditor tables request k c p ∧ p.nextCursor = next := by
  obtain ⟨p, hp, hnext⟩ := Option.map_eq_some_iff.1 h
  exact ⟨p, ⟨cursor, ascii "1", eq_ok_of_toOption hcursor, eq_ok_of_toOption hp⟩, hnext⟩

/-- A walk, one receipt at a time. -/
theorem exists_walk : ∃ pages, Walk AuditPage.nextCursor
    (AuditStep deployment auditor tables request) 0 0 pages := by
  obtain ⟨p, hp, hnext⟩ := exists_page [] 0 (some 1) rfl (by decide +kernel) 0
  obtain ⟨q, hq, hlast⟩ := exists_page (ascii "1") 1 none (by decide +kernel) (by decide +kernel) 1
  exact ⟨[p, q], .step hp hnext (.last hq hlast)⟩

end AuditSample

theorem audit_sound_iff_sample : ∃ pages, Walk AuditPage.nextCursor
    (AuditStep AuditSample.deployment AuditSample.auditor AuditSample.tables
      AuditSample.request) 0 0 pages ∧
    SoundPages AuditSample.deployment AuditSample.auditor AuditSample.request pages := by
  obtain ⟨pages, hwalk⟩ := AuditSample.exists_walk
  exact ⟨pages, hwalk, (audit_sound_iff hwalk).1 (by decide +kernel)⟩

/-! ### A payload with a space in it -/

namespace SpacedSample

open AuditSample (auditor campaign contract digestA payload request sharedCode signer)

/-- The first payload with a space behind its brace. -/
def spaced : Bytes := 123 :: 32 :: (payload "2" "00").tail

/-- Its SHA-256 digest. -/
def digest : BytesN 32 :=
  ⟨[144, 73, 157, 112, 103, 220, 185, 200, 21, 198, 103, 232, 154, 165, 226, 89, 223, 41, 30,
    204, 36, 237, 44, 123, 99, 253, 74, 184, 64, 26, 176, 104], rfl⟩

/-- Its Ed25519 signature. -/
def signature : Bytes :=
  [19, 232, 194, 173, 252, 252, 49, 37, 231, 213, 197, 152, 254, 30, 3, 202, 83, 223, 171, 24,
    119, 10, 33, 249, 52, 128, 169, 199, 163, 143, 64, 236, 123, 181, 155, 146, 71, 107, 21, 148,
    30, 114, 98, 179, 33, 111, 131, 240, 21, 196, 219, 161, 40, 157, 225, 11, 224, 132, 103, 76,
    137, 252, 65, 13]

/-- SHA-256 on the payload and on what is sent of it. -/
def deployment : Deployment :=
  { AuditSample.deployment with sha256 := fun x ↦
      if x = spaced then digest else if x = payload "2" "00" then digestA else .zero 32 }

/-- The key has signed the payload. -/
def auditor : Auditor :=
  { AuditSample.auditor with
    Key := Unit
    parseAddress := fun address ↦ if address = signer then some () else none
    verify := fun _ p sig ↦ p = spaced ∧ sig = signature }

/-- A tally of one receipt. -/
def tables : AuditTables where
  campaigns := [campaign]
  sharedCodes := [sharedCode]
  tallies := [⟨⟨1, 202628, 2, 0, hexRoot digest, []⟩, 20⟩]
  sharedEvents :=
    { rows := [⟨1, 1, 2, [], some [], some 202628,
          some ⟨spaced, hexRoot digest, Base64.encode signature, signer⟩⟩]
      ordered := by decide }

/-- The one page of a walk, with its only receipt: the payload is sent without the space. -/
theorem exists_page : ∃ p : AuditPage, AuditStep deployment auditor tables request 0 0 p ∧
    p.nextCursor = none ∧ ∃ y ∈ p.receipts, y.receipt.payload = payload "2" "00" ∧
      decodeHash y.receipt.leafHash = some digest := by
  have h : (handleAuditTally deployment auditor (fun _ ↦ tables) request).toOption.map
      (fun p ↦ (p.nextCursor, p.receipts.map fun y ↦ (y.receipt.payload,
        decodeHash y.receipt.leafHash))) = some (none, [(payload "2" "00", some digest)]) := by
    decide +kernel
  obtain ⟨p, hp, heq⟩ := Option.map_eq_some_iff.1 h
  obtain ⟨hlast, hreceipts⟩ := Prod.mk.inj heq
  obtain ⟨y, rest, hcons, hy, -⟩ := List.map_eq_cons_iff.1 hreceipts
  obtain ⟨hpayload, hleaf⟩ := Prod.mk.inj hy
  exact ⟨p, ⟨[], [], rfl, AuditSample.eq_ok_of_toOption hp⟩, hlast, y,
    hcons ▸ List.mem_cons_self, hpayload, hleaf⟩

end SpacedSample

/-- **The audit vouches for bytes nobody signed.** The walk is answered, with a payload whose digest
is not its leaf. -/
theorem audit_unsound : ∃ pages, Walk AuditPage.nextCursor (AuditStep SpacedSample.deployment
      SpacedSample.auditor SpacedSample.tables AuditSample.request) 0 0 pages ∧
    ¬SoundPages SpacedSample.deployment SpacedSample.auditor AuditSample.request pages := by
  obtain ⟨p, hp, hlast, y, hy, hpayload, hleaf⟩ := SpacedSample.exists_page
  refine ⟨[p], .last hp hlast, ?_⟩
  rintro ⟨a, root, -, -, -, -, -, -, hvouched, -⟩
  have hvouched := (hvouched y (by rwa [List.flatMap_singleton])).leaf
  rw [hpayload, hleaf] at hvouched
  exact absurd hvouched (by decide +kernel)

end Soroticket
