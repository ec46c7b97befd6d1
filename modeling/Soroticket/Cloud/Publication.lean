import Mathlib.Algebra.Order.BigOperators.Group.List
import Soroticket.Cloud.Audit

/-!
# What the service publishes passes an audit

The receipts the service signs are those the public audit accepts (`published_row`): what was signed
is read back, the hash it is stored with is its leaf, and its signature verifies. And an audit of a
tally that accounts for published events answers (`exists_page`), whichever page it is asked for and
however its statements are spread over time.

The encoders of the deployment are taken to be those of the standard library
(`Deployment.Standard`), its signers to sign as their addresses say (`Honest`), and the campaigns
and codes of the registry to be as the handlers that enter them check them (`Registry.WellFormed`).
-/

namespace Soroticket

open HashTree Paging

variable {d : Deployment}

/-! ### Assumptions -/

/-- The encoders of a deployment are those of the standard library, and what it names are texts. -/
structure Deployment.Standard (d : Deployment) : Prop where
  quote : ReceiptPayload.Quotes d.quote
  base64 : d.base64 = Base64.encode
  network : IsText d.cloudNetwork
  contract : IsText d.currentContractID

/-- Campaigns have ids of the ledger, which counts them from one, and codes are texts that are not
empty and not too long. -/
structure Registry.WellFormed (reg : Registry d) : Prop where
  chainID : ∀ sc : CurrentCode reg, sc.campaign.chainID ≠ 0 ∧ sc.campaign.chainID.toNat < 2 ^ 63
  code : ∀ sc : CurrentCode reg, sc.row.code ≠ [] ∧ sc.row.code.length ≤ maxCodeLen ∧
    IsText sc.row.code

/-- A signer signs as its address says, nonces are texts, and the time is an integer of 64 bits. -/
structure Honest (s : Auditor) (env : Surroundings) : Prop where
  address : ∀ signer, env.receiptSigner = some signer → IsText signer.address
  signs : ∀ signer, env.receiptSigner = some signer → ∃ publicKey,
    s.parseAddress signer.address = some publicKey ∧
    ∀ payload signature, signer.sign payload = some signature →
      s.verify publicKey payload signature = true
  nonce : ∀ nonce, env.randHex = some nonce → IsText nonce
  now : -2 ^ 63 ≤ env.now ∧ env.now ≤ 2 ^ 63 - 1

/-! ### Published events -/

variable {reg : Registry d}

/-- What an audit of a period of a code is for. -/
def CurrentCode.target (sc : CurrentCode reg) (period : UInt64) : AuditTarget :=
  ⟨sc.campaign.chainID, period, sc.row.code, d.currentContractID⟩

/-- An event of a code that an audit accepts and sends as it is stored, with the count of a recorded
event. -/
structure Published (s : Auditor) (sc : CurrentCode reg) (e : SharedEvent) : Prop where
  code : e.sharedCodeID = sc.row.id
  count : e.count.toInt ≤ 10000
  receipt : ∃ r, e.receipt = some r ∧ Json.tight .token r.payload ∧
    ∀ period, Verified d s (sc.target period) (e, r)

namespace Published

variable {s : Auditor} {sc : CurrentCode reg} {e : SharedEvent}

theorem isSome (h : Published s sc e) : e.receipt.isSome := by
  obtain ⟨r, hr, -⟩ := h.receipt
  rw [hr]
  rfl

theorem count_pos (h : Published s sc e) : 0 < e.count.toInt := by
  obtain ⟨r, -, -, hverified⟩ := h.receipt
  obtain ⟨p, -, -, -, -, hpos, hcount, -⟩ := (hverified 0).content
  exact hcount ▸ hpos

/-- Neither the period of an event nor its id is any matter. -/
theorem of_eq (h : Published s sc e) {x : SharedEvent} (hcode : x.sharedCodeID = e.sharedCodeID)
    (hcount : x.count = e.count) (hreceipt : x.receipt = e.receipt) : Published s sc x := by
  obtain ⟨r, hr, htight, hverified⟩ := h.receipt
  refine ⟨hcode.trans h.code, hcount ▸ h.count, r, hreceipt.trans hr, htight, fun period ↦ ?_⟩
  obtain ⟨hleaf, hcontent, hsigned⟩ := hverified period
  refine ⟨hleaf, ?_, hsigned⟩
  rw [hcount]
  exact hcontent

theorem stamp (h : Published s sc e) (period : UInt64) : Published s sc (e.stamp period) :=
  h.of_eq rfl rfl rfl

/-- An event is of one code. -/
theorem eq_of_code (h : Published s sc e) {sc' : CurrentCode reg}
    (hcode : e.sharedCodeID = sc'.row.id) : sc = sc' :=
  CurrentCode.eq_of_id (h.code.symm.trans hcode)

end Published

/-- **What the service signs passes an audit.** -/
theorem published_row (hd : Deployment.Standard d) (hreg : reg.WellFormed) {s : Auditor}
    {env : Surroundings} (henv : Honest s env) {sc : CurrentCode reg} {customer order : Bytes}
    (hcustomer : IsText customer) (horder : IsText order) {evidence : ReceiptEvidence}
    (hevidence : IsText evidence.type ∧ IsText evidence.contextHash ∧
      IsText evidence.policyVersion) {e : NewEvent} (hcode : e.sharedCodeID = sc.row.id)
    (h : signReceipt d env.receiptSigner env.randHex sc.campaign.chainID sc.row.code
      e.count.1.toInt customer order env.now evidence = some e.receipt) (id : ℕ) :
    Published s sc (e.row id) := by
  obtain ⟨signer, hsigner, h⟩ := Option.bind_eq_some_iff.1 h
  obtain ⟨nonce, hnonce, h⟩ := Option.bind_eq_some_iff.1 h
  obtain ⟨signature, hsignature, h⟩ := Option.bind_eq_some_iff.1 h
  have hpos : (0 : ℤ) < e.count.1.toInt := Int64.lt_iff_toInt_lt.1 e.count.2.1
  have hmost : e.count.1.toInt ≤ 10000 := Int64.le_iff_toInt_le.1 e.count.2.2
  obtain ⟨publicKey, hkey, hverify⟩ := henv.signs signer hsigner
  have hvalid : ReceiptPayload.Valid ⟨2, d.cloudNetwork, d.currentContractID, sc.campaign.chainID,
      sc.row.code, e.count.1.toInt, customer, order, evidence.type, evidence.contextHash,
      evidence.policyVersion, env.now, nonce, signer.address⟩ := {
    version := (by decide : (-2 ^ 63 : ℤ) ≤ 2 ∧ (2 : ℤ) ≤ 2 ^ 63 - 1)
    network := hd.network
    contractID := hd.contract
    code := (hreg.code sc).2.2
    count := ⟨by show -2 ^ 63 ≤ e.count.1.toInt; omega,
      by show e.count.1.toInt ≤ 2 ^ 63 - 1; omega⟩
    customerCommitment := hcustomer
    orderCommitment := horder
    evidenceType := hevidence.1
    contextHash := hevidence.2.1
    policyVersion := hevidence.2.2
    timestamp := henv.now
    nonce := henv.nonce nonce hnonce
    signer := henv.address signer hsigner }
  refine ⟨hcode, hmost, _, rfl, ?_⟩
  rw [← Option.some.inj h]
  refine ⟨ReceiptPayload.tight_marshal hd.quote hvalid, fun period ↦ ?_⟩
  constructor
  · exact decodeHash_hexRoot _
  · exact ⟨_, ReceiptPayload.unmarshal_marshal hd.quote hvalid, Or.inr ⟨rfl, rfl, rfl⟩, rfl, rfl,
      hpos, rfl, rfl⟩
  · refine ⟨publicKey, signature, hkey, ?_, hverify _ _ hsignature⟩
    show Base64.decode (d.base64 signature) = some signature
    rw [hd.base64]
    exact Base64.decode_encode signature

/-- The names of customers and orders are texts. -/
theorem isText_opaqueReference (domain ref : Bytes) : IsText (opaqueReference d domain ref) := by
  rw [opaqueReference]
  split
  · exact isText_nil
  · exact isText_hexEncode _

/-! ### Answering -/

/-- A tally that accounts for published events. -/
structure Backed (s : Auditor) (sc : CurrentCode reg) (t : TallyRow) (rows : List SharedEvent) :
    Prop where
  ne : rows ≠ []
  length_le : rows.length ≤ maxReceiptsPerTally
  published : ∀ e ∈ rows, Published s sc e
  count : t.count.toInt = eventTotal rows
  root : ∃ leaves, rows.map SharedEvent.leaf? = leaves.map some ∧
    t.merkleRoot = hexRoot (merkleRoot (.zero 32) (merkleParent d.sha256) leaves)

/-- A request that names a period of a code. -/
structure Asks (d : Deployment) (s : Auditor) (chainID : UInt64) (code : Bytes) (period : UInt64)
    (r : AuditRequest) : Prop where
  chainID : parseUint r.chainID = some chainID
  period : parseUint r.period = some period
  code : s.toUpper (s.trimSpace r.code) = code
  contract : s.trimSpace r.contract = [] ∨ s.trimSpace r.contract = d.currentContractID

/-- The cursor of a request, as a number. -/
def AuditRequest.cursor? (r : AuditRequest) : Option ℤ :=
  if r.cursor = [] then some 0 else parseInt r.cursor

/-- The limit of a request, as a number. -/
def AuditRequest.limit? (r : AuditRequest) : Option ℤ :=
  if r.limit = [] then some (maxAuditPageSize : ℤ) else parseInt r.limit

section Requests

variable {s : Auditor} {r : AuditRequest} {sc : CurrentCode reg} {period : UInt64}

theorem Asks.target (hreg : reg.WellFormed)
    (h : Asks d s sc.campaign.chainID sc.row.code period r) (hperiod : period ≠ 0) :
    auditTarget d s r = .ok (sc.target period) := by
  obtain ⟨hne, hlen, -⟩ := hreg.code sc
  refine bind_eq_ok.2 ⟨_, orProblem_eq_ok.2 h.chainID, bind_eq_ok.2 ⟨(), rejectWhen_eq_ok.2
    (hreg.chainID sc).1, bind_eq_ok.2 ⟨_, orProblem_eq_ok.2 h.period, bind_eq_ok.2 ⟨(),
    rejectWhen_eq_ok.2 hperiod, bind_eq_ok.2 ⟨(), rejectWhen_eq_ok.2 ?_, bind_eq_ok.2 ⟨(),
    rejectWhen_eq_ok.2 ?_, ?_⟩⟩⟩⟩⟩⟩
  · rw [h.code]
    exact not_or.2 ⟨hne, Nat.not_lt.2 hlen⟩
  · rintro ⟨hsome, hcurrent, -⟩
    exact h.contract.elim hsome hcurrent
  · have hcontract : (if s.trimSpace r.contract = [] then d.currentContractID
        else s.trimSpace r.contract) = d.currentContractID := by
      split
      · rfl
      case isFalse hsome => exact h.contract.resolve_left hsome
    rw [h.code, hcontract]
    rfl

theorem auditCursor_eq_ok {cursor : ℤ} (h : r.cursor? = some cursor) (hpos : 0 ≤ cursor) :
    auditCursor r.cursor = .ok cursor.toNat :=
  bind_eq_ok.2 ⟨cursor, orProblem_eq_ok.2 h,
    bind_eq_ok.2 ⟨(), rejectWhen_eq_ok.2 (Int.not_lt.2 hpos), rfl⟩⟩

theorem auditLimit_eq_ok {limit : ℤ} (h : r.limit? = some limit) (hpos : 1 ≤ limit)
    (hmost : limit ≤ 100) : auditLimit r.limit = .ok limit.toNat :=
  bind_eq_ok.2 ⟨limit, orProblem_eq_ok.2 h, bind_eq_ok.2 ⟨(), rejectWhen_eq_ok.2
    (not_or.2 ⟨Int.not_lt.2 hpos, Int.not_lt.2 hmost⟩), rfl⟩⟩

end Requests

/-- A sum of numbers that are not negative leaves the integers of 64 bits only if the whole does. -/
theorem sumColumn_of_nonneg {column : List ℤ} (hnonneg : ∀ n ∈ column, 0 ≤ n)
    (hsum : column.sum < 2 ^ 63) : sumColumn column = some column.sum := by
  induction column using List.reverseRecOn with
  | nil => rfl
  | append_singleton column n ih =>
    have hbefore : ∀ m ∈ column, 0 ≤ m := fun m hm ↦ hnonneg m (List.mem_append_left _ hm)
    have hn : 0 ≤ n := hnonneg n (List.mem_append_right _ List.mem_cons_self)
    have hpos : 0 ≤ column.sum := List.sum_nonneg hbefore
    rw [List.sum_append, List.sum_singleton] at hsum ⊢
    have hfold := ih hbefore (by omega)
    rw [sumColumn] at hfold ⊢
    rw [List.foldlM_append, hfold]
    show (some (column.sum) >>= fun sum ↦ [n].foldlM _ sum) = _
    rw [Option.bind_eq_bind, Option.bind_some, List.foldlM_cons, if_pos ⟨by omega, hsum⟩]
    rfl

theorem exists_mapM {α β : Type} {f : α → Except Problem β} {l : List α}
    (h : ∀ x ∈ l, ∃ y, f x = .ok y) : ∃ r, l.mapM f = .ok r := by
  induction l with
  | nil => exact ⟨[], rfl⟩
  | cons a l ih =>
    obtain ⟨b, hb⟩ := h a List.mem_cons_self
    obtain ⟨bs, hbs⟩ := ih fun x hx ↦ h x (List.mem_cons_of_mem a hx)
    exact ⟨b :: bs, mapM_eq_ok.2 (.cons hb (mapM_eq_ok.1 hbs))⟩

theorem Backed.counted {s : Auditor} {sc : CurrentCode reg} {t : TallyRow} {rows : List SharedEvent}
    (h : Backed s sc t rows) : Counted rows :=
  fun e he ↦ ⟨(h.published e he).count_pos, (h.published e he).count⟩

/-- The summary of a backed tally. -/
theorem Backed.auditSummary_eq {s : Auditor} {sc : CurrentCode reg} {tally : TallyRecord}
    {rows : List SharedEvent} (h : Backed s sc tally.row rows) {summary signed : AuditTables}
    {cursor : ℕ}
    (hrows : summary.sharedEvents.stamped tally.row.sharedCodeID tally.row.period = rows)
    (hsigned : (signed.receipts tally).length = rows.length) (hle : cursor ≤ rows.length) :
    auditSummary summary signed tally cursor = .ok rows.length := by
  have hpos : rows.length ≠ 0 := (List.length_pos_iff.2 h.ne).ne'
  have hbound : eventTotal rows ≤ 10000 * 10000 := by
    have hlen := h.length_le
    rw [maxReceiptsPerTally] at hlen
    have htotal := h.counted.length_le.2
    omega
  have hsum : sumColumn (rows.map fun e ↦ e.count.toInt) = some (eventTotal rows) := by
    refine sumColumn_of_nonneg (fun n hn ↦ ?_) (show eventTotal rows < 2 ^ 63 by omega)
    obtain ⟨e, he, rfl⟩ := List.mem_map.1 hn
    exact (h.counted e he).1.le
  rw [auditSummary, hrows, hsum, hsigned]
  refine bind_eq_ok.2 ⟨_, rfl, bind_eq_ok.2 ⟨(), rejectWhen_eq_ok.2 hpos, bind_eq_ok.2 ⟨(),
    rejectWhen_eq_ok.2 (Nat.not_lt.2 h.length_le), bind_eq_ok.2 ⟨(), rejectWhen_eq_ok.2
    (not_not.2 h.count.symm), bind_eq_ok.2 ⟨(), rejectWhen_eq_ok.2 hpos, bind_eq_ok.2 ⟨(),
    rejectWhen_eq_ok.2 (not_not.2 rfl), bind_eq_ok.2 ⟨(), rejectWhen_eq_ok.2 (Nat.not_lt.2 hle),
    rfl⟩⟩⟩⟩⟩⟩⟩

/-- The levels over hashes that have the committed root. -/
theorem Rooted.auditLevels_eq {leaves : AuditTables} {tally : TallyRecord}
    {hashes : List (BytesN 32)} (h : Rooted d leaves tally hashes) :
    auditLevels d leaves tally hashes.length =
      .ok (merkleLevels (merkleParent d.sha256) hashes) := by
  have hlast := getLast?_merkleLevels (merkleParent d.sha256) (.zero 32) h.ne
  refine bind_eq_ok.2 ⟨hashes, orProblem_eq_ok.2 (mapM_eq_some_iff.2 h.read), bind_eq_ok.2 ⟨(),
    rejectWhen_eq_ok.2 (not_not.2 rfl), bind_eq_ok.2 ⟨_, orProblem_eq_ok.2 ?_, bind_eq_ok.2 ⟨(),
    rejectWhen_eq_ok.2 (not_not.2 h.root), rfl⟩⟩⟩⟩
  rw [hlast]
  rfl

/-- **An audit of a backed tally answers**, whichever page it is asked for: each of its statements
may see tables of its own, where all hold the tally and its events. -/
theorem exists_page {s : Auditor} {tables : AuditQuery → AuditTables} {r : AuditRequest}
    {sc : CurrentCode reg} {tally : TallyRecord} {rows : List SharedEvent} {cursor limit : ℕ}
    (hreg : reg.WellFormed) (ha : auditTarget d s r = .ok (sc.target tally.row.period))
    (hcursor : auditCursor r.cursor = .ok cursor) (hlimit : auditLimit r.limit = .ok limit)
    (hperiod : tally.row.period.toNat < 2 ^ 63)
    (htally : (tables .tally).findTally (sc.target tally.row.period) = some tally)
    (hrows : ∀ q, (tables q).sharedEvents.stamped tally.row.sharedCodeID tally.row.period = rows)
    (hbacked : Backed s sc tally.row rows) (hle : cursor ≤ rows.length) :
    ∃ p, handleAuditTally d s tables r = .ok p := by
  obtain ⟨leaves, hleaves, hroot⟩ := hbacked.root
  have hsigned : ∀ e ∈ rows, e.receipt.isSome := fun e he ↦ (hbacked.published e he).isSome
  have hlen : leaves.length = rows.length := by
    have h := congrArg List.length hleaves
    rwa [List.length_map, List.length_map, eq_comm] at h
  -- the events joined with their receipts, which every statement sees
  have hfst : ∀ q, ((tables q).receipts tally).map Prod.fst = rows := by
    intro q
    rw [EventTable.map_fst_receipts ((hrows q).symm ▸ hsigned), hrows q]
  have hjoined : ∀ q, ∀ x ∈ (tables q).receipts tally,
      x.1 ∈ rows ∧ x.1.receipt = some x.2 := by
    intro q x hx
    obtain ⟨e, he, hmap⟩ := List.mem_filterMap.1 hx
    obtain ⟨receipt, hreceipt, rfl⟩ := Option.map_eq_some_iff.1 hmap
    exact ⟨hrows q ▸ he, hreceipt⟩
  have hlength : ∀ q, ((tables q).receipts tally).length = rows.length := by
    intro q
    rw [← hfst q, List.length_map]
  have hread : ((tables .leaves).receipts tally).map (fun x ↦ decodeHash x.2.leafHash) =
      leaves.map some := by
    rw [← hleaves, ← hfst .leaves, List.map_map]
    refine List.map_congr_left fun x hx ↦ ?_
    rw [Function.comp_apply, SharedEvent.leaf?, (hjoined .leaves x hx).2, Option.bind_some]
  have hne : leaves ≠ [] := by
    rintro rfl
    exact hbacked.ne (List.length_eq_zero_iff.1 hlen.symm)
  have hrooted : Rooted d (tables .leaves) tally leaves := ⟨hread, hne, hroot.symm⟩
  have hlevels := hrooted.auditLevels_eq
  rw [hlen] at hlevels
  -- every receipt of the page passes its check, and has a proof
  have hchecked : (page ((tables .receipts).receipts tally) cursor limit).forM
      (checkReceipt d s (sc.target tally.row.period)) = .ok () := by
    refine forM_eq_ok.2 fun x hx ↦ checkReceipt_eq_ok.2 ?_
    have hx := hjoined .receipts x ((page_prefix_drop _ _ _).subset hx |> List.mem_of_mem_drop)
    obtain ⟨receipt, hreceipt, -, hverified⟩ := (hbacked.published x.1 hx.1).receipt
    obtain rfl := Option.some.inj (hreceipt.symm.trans hx.2)
    exact hverified tally.row.period
  obtain ⟨receipts, hreceipts⟩ : ∃ receipts,
      ((page ((tables .receipts).receipts tally) cursor limit).zipIdx cursor).mapM
        (publishReceipt (merkleLevels (merkleParent d.sha256) leaves)) = .ok receipts := by
    exact exists_mapM fun x _ ↦ exists_publishReceipt d leaves x
  refine ⟨_, bind_eq_ok.2 ⟨_, ha, bind_eq_ok.2 ⟨cursor, hcursor, bind_eq_ok.2 ⟨limit, hlimit,
    bind_eq_ok.2 ⟨(), rejectWhen_eq_ok.2 (not_or.2 ⟨Nat.not_le.2 (hreg.chainID sc).2,
      Nat.not_le.2 hperiod⟩), bind_eq_ok.2 ⟨tally, orProblem_eq_ok.2 htally, bind_eq_ok.2 ⟨_,
    hbacked.auditSummary_eq (hrows .summary) (hlength .signed) hle, bind_eq_ok.2 ⟨_, hlevels,
    bind_eq_ok.2 ⟨(), hchecked, bind_eq_ok.2 ⟨receipts, hreceipts, rfl⟩⟩⟩⟩⟩⟩⟩⟩⟩⟩

end Soroticket
