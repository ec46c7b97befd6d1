import Soroticket.Cloud.Live

/-!
# A committed tally stays publicly auditable

A commit that has answered has stored a tally, and from then on the public audit of it answers every
request for a page of it, whatever the service goes through: more scans, punches and commits,
settlements, archived campaigns, customers renamed, requests that die. The statements of one audit
may each see another state of the service, since what they read of a tally no longer changes
(`Fresh.tally_le`).

`stays_auditable` puts this together with what a walk over pages reads (`Paging.Walk`) and with what
an answer rests on (`handleAuditTally_eq_ok`).
-/

namespace Soroticket

open HashTree Paging Interleaving

variable {d : Deployment} {reg : Registry d} {s : Auditor}

/-! ### Requests -/

/-- A number as a request writes it. -/
def decimal (n : ℤ) : Bytes := encodeText (Json.integer n)

theorem parseInt_decimal {n : ℤ} (h : -2 ^ 63 ≤ n ∧ n < 2 ^ 63) :
    parseInt (decimal n) = some n := by
  have hsigned : signedInteger (Json.integer n) = some n := by
    have hplus : ∀ ds, Json.integer n ≠ '+' :: ds := by
      intro ds heq
      rcases Json.integer_cases n with ⟨m, -, hm⟩ | ⟨m, -, hm⟩
      · obtain ⟨c, ds', hcons, hc⟩ := Json.toDigits_eq_cons m
        rw [hm, hcons] at heq
        rw [(List.cons.inj heq).1] at hc
        exact absurd hc (by decide)
      · rw [hm] at heq
        exact absurd (List.cons.inj heq).1 (by decide)
    rw [signedInteger]
    · exact Json.integer?_integer n
    · exact hplus
  rw [parseInt, decimal, runes_encodeText, hsigned, Option.bind_some, if_pos h]

theorem decimal_ne_nil (n : ℤ) : decimal n ≠ [] := by
  intro h
  have hrunes := congrArg Json.runes h
  rw [decimal, runes_encodeText] at hrunes
  rcases Json.integer_cases n with ⟨m, -, hm⟩ | ⟨m, -, hm⟩
  · rw [hm] at hrunes
    exact Nat.toDigits_ne_nil (hrunes.trans (by rw [Json.runes]))
  · rw [hm, Json.runes] at hrunes
    exact absurd hrunes (List.cons_ne_nil _ _)

/-- A period the service commits to is one an audit can be asked for. -/
theorem period_of_valid {period : UInt64} (h : validCloudPeriod period = true) :
    period ≠ 0 ∧ period.toNat < 2 ^ 63 := by
  rw [validCloudPeriod, decide_eq_true_iff] at h
  obtain ⟨-, hlo, hhi, -⟩ := h
  have hhundred : (100 : UInt64).toNat = 100 := rfl
  rw [UInt64.le_iff_toNat_le, UInt64.toNat_div, hhundred] at hlo hhi
  -- the year is between 1970 and 9999
  have hbase : 197000 ≤ (if 10000000 ≤ period then period / 100 else period).toNat ∧
      (if 10000000 ≤ period then period / 100 else period).toNat ≤ 999999 := by
    have hfirst : (1970 : UInt64).toNat = 1970 := rfl
    have hlast : (9999 : UInt64).toNat = 9999 := rfl
    omega
  constructor
  · rintro rfl
    exact absurd hbase.1 (by decide)
  · split at hbase
    · rw [UInt64.toNat_div, hhundred] at hbase
      omega
    · omega

/-! ### Finding a tally -/

/-- **An audit finds the tally it names**: no other has the names of its campaign and code. -/
theorem WellKept.findTally_eq {c : Config LiveState (Place reg)} (hc : WellKept s c) {t : TallyRow}
    (ht : t ∈ c.shared.world.db.tallies) {sc : CurrentCode reg}
    (hcode : t.sharedCodeID = sc.row.id) : (c.shared.tables reg).findTally (sc.target t.period) =
      some ⟨t, c.shared.committedAt t.sharedCodeID t.period⟩ := by
  obtain ⟨sc', hcode', hid, -⟩ := hc.backed t ht
  obtain rfl : sc = sc' := CurrentCode.eq_of_id (hcode.symm.trans hcode')
  have hnames : (c.shared.tables reg).Names (sc.target t.period)
      ⟨t, c.shared.committedAt t.sharedCodeID t.period⟩ := by
    refine ⟨rfl, sc.row, List.mem_filter.2 ⟨sc.row_mem, hid⟩, hcode.symm, rfl, ?_⟩
    exact ⟨_, List.mem_map_of_mem sc.campaign_mem, sc.row_campaign.symm, rfl, sc.current⟩
  have hmem : (⟨t, c.shared.committedAt t.sharedCodeID t.period⟩ : TallyRecord) ∈
      (c.shared.tables reg).tallies := List.mem_map_of_mem ht
  obtain ⟨x, hx⟩ : ∃ x, (c.shared.tables reg).findTally (sc.target t.period) = some x :=
    Option.isSome_iff_exists.1 (List.find?_isSome.2 ⟨_, hmem, decide_eq_true hnames⟩)
  -- whatever it finds has the same key
  obtain ⟨hin, hperiod, row, hrow, hrowid, hname, camp, hcamp, hcampid, hchain, hcontract⟩ :=
    AuditTables.findTally_spec hx
  obtain ⟨t', ht', rfl⟩ := List.mem_map.1 hin
  obtain ⟨camp', hcamp', rfl⟩ := List.mem_map.1 hcamp
  have hrowmem : row ∈ reg.sharedCodes := (List.mem_filter.1 hrow).1
  obtain rfl : sc.campaign = camp' :=
    reg.chain_key _ sc.campaign_mem _ hcamp' sc.current hcontract hchain.symm
  obtain rfl : sc.row = row :=
    reg.code_name_key _ sc.row_mem _ hrowmem (sc.row_campaign.trans hcampid) hname.symm
  obtain rfl : t = t' := hc.unique t ht t' ht' (hcode.trans hrowid) hperiod.symm
  exact hx

/-! ### Audits of a committed tally -/

section Turns

variable {init : Config LiveState (Place reg)} {turns : List (Turn (LiveChoice s) LiveEvent)}

/-- The tables of an audit whose statements run after some turns each. -/
def auditTables (init : Config LiveState (Place reg)) (turns : List (Turn (LiveChoice s) LiveEvent))
    (views : AuditQuery → ℕ) (q : AuditQuery) : AuditTables :=
  (liveAfter init turns (views q)).shared.tables reg

/-- The receipts of a period of a code after some turns, in the order of their events. -/
def committedReceipts (init : Config LiveState (Place reg))
    (turns : List (Turn (LiveChoice s) LiveEvent)) (n : ℕ) (sc : CurrentCode reg)
    (period : UInt64) : List EventReceipt :=
  ((liveAfter init turns n).shared.world.db.sharedEvents.stamped sc.row.id period).filterMap
    (·.receipt)

/-- An answer of an audit of a tally, with the page of its receipts that was asked for. -/
structure Answers (d : Deployment) (receipts : List EventReceipt) (count : Int64) (root : Bytes)
    (cursor limit : ℕ) (p : AuditPage) : Prop where
  total_eq : p.receiptTotal = receipts.length
  count_eq : p.count = count
  root_eq : p.merkleRoot = root
  page_eq : p.receipts.map (·.receipt) = page receipts cursor limit
  next_eq : p.nextCursor = pageEnd receipts cursor (p.receipts.map (·.receipt))
  proofs : ∀ y ∈ p.receipts, ∃ leaf, decodeHash y.receipt.leafHash = some leaf ∧
    hexRoot (walk (merkleParent d.sha256) leaf y.proof) = root

variable (hd : d.Standard) (hreg : reg.WellFormed) (hinit : Fresh init)

include hd hreg hinit

/-- Every statement of a later audit finds a stored tally and its events as they were stamped. -/
theorem Fresh.later {n : ℕ} {t : TallyRow}
    (ht : t ∈ (liveAfter init turns n).shared.world.db.tallies) {sc : CurrentCode reg}
    (hcode : t.sharedCodeID = sc.row.id) {views : AuditQuery → ℕ} (hviews : ∀ q, n ≤ views q) :
    (auditTables init turns views .tally).findTally (sc.target t.period) =
      some ⟨t, (liveAfter init turns (views .tally)).shared.committedAt t.sharedCodeID t.period⟩ ∧
    ∀ q, (auditTables init turns views q).sharedEvents.stamped t.sharedCodeID t.period =
      (liveAfter init turns n).shared.world.db.sharedEvents.stamped t.sharedCodeID t.period :=
  ⟨(hinit.wellKept_after hd hreg turns (views .tally)).findTally_eq
    (hinit.tally_le hd hreg (hviews .tally) ht).1 hcode,
    fun q ↦ (hinit.tally_le hd hreg (hviews q) ht).2⟩

/-- A stored tally is backed by its events, each with its receipt. -/
theorem Fresh.backed {n : ℕ} {t : TallyRow}
    (ht : t ∈ (liveAfter init turns n).shared.world.db.tallies) {sc : CurrentCode reg}
    (hcode : t.sharedCodeID = sc.row.id) :
    validCloudPeriod t.period = true ∧
      Backed s sc t ((liveAfter init turns n).shared.world.db.sharedEvents.stamped t.sharedCodeID
        t.period) ∧
      (committedReceipts init turns n sc t.period).length =
        ((liveAfter init turns n).shared.world.db.sharedEvents.stamped t.sharedCodeID
          t.period).length := by
  obtain ⟨sc', hcode', -, hperiod, hbacked⟩ :=
    (hinit.wellKept_after hd hreg turns n).backed t ht
  obtain rfl : sc = sc' := CurrentCode.eq_of_id (hcode.symm.trans hcode')
  refine ⟨hperiod, hbacked, ?_⟩
  rw [committedReceipts, ← hcode]
  exact List.filterMap_length_eq_length.2 fun e he ↦ (hbacked.published e he).isSome

/-- **An audit of a stored tally that answers, answers with the page it was asked for**, at any time
later. -/
theorem Fresh.answers {n : ℕ} {t : TallyRow}
    (ht : t ∈ (liveAfter init turns n).shared.world.db.tallies) {sc : CurrentCode reg}
    (hcode : t.sharedCodeID = sc.row.id) {views : AuditQuery → ℕ} (hviews : ∀ q, n ≤ views q)
    {r : AuditRequest} (hr : Asks d s sc.campaign.chainID sc.row.code t.period r) {p : AuditPage}
    (hp : handleAuditTally d s (auditTables init turns views) r = .ok p) :
    Answers d (committedReceipts init turns n sc t.period) t.count t.merkleRoot p.cursor p.limit
      p := by
  obtain ⟨hperiod, hbacked, hlength⟩ := hinit.backed hd hreg ht hcode
  obtain ⟨htally, hrows⟩ := hinit.later hd hreg ht hcode hviews
  obtain ⟨a, tally, hashes, h⟩ := handleAuditTally_eq_ok hp
  obtain rfl : a = sc.target t.period :=
    Except.ok.inj (h.target.symm.trans (hr.target hreg (period_of_valid hperiod).1))
  obtain rfl := Option.some.inj (h.found.symm.trans htally)
  have hreceipts : ∀ q, ((auditTables init turns views q).receipts
      ⟨t, (liveAfter init turns (views .tally)).shared.committedAt t.sharedCodeID t.period⟩) =
        ((liveAfter init turns n).shared.world.db.sharedEvents.stamped t.sharedCodeID
          t.period).filterMap fun e ↦ e.receipt.map fun r ↦ (e, r) := by
    intro q
    rw [← hrows q]
    rfl
  -- what the service has signed is sent as it is stored
  have htight : ∀ x ∈ (auditTables init turns views .receipts).receipts
      ⟨t, (liveAfter init turns (views .tally)).shared.committedAt t.sharedCodeID t.period⟩,
      Json.tight .token x.2.payload := by
    intro x hx
    rw [hreceipts] at hx
    obtain ⟨e, he, hx⟩ := List.mem_filterMap.1 hx
    obtain ⟨receipt, hreceipt, htight, -⟩ := (hbacked.published e he).receipt
    rw [hreceipt, Option.map_some] at hx
    rw [← Option.some.inj hx]
    exact htight
  have hpage : p.receipts.map (·.receipt) =
      page (committedReceipts init turns n sc t.period) p.cursor p.limit := by
    have hrows : ((auditTables init turns views .receipts).receipts
        ⟨t, (liveAfter init turns (views .tally)).shared.committedAt t.sharedCodeID t.period⟩).map
          Prod.snd = committedReceipts init turns n sc t.period := by
      rw [hreceipts, List.map_filterMap, committedReceipts, ← hcode]
      refine List.filterMap_congr fun e _ ↦ ?_
      rw [Option.map_map]
      exact congrFun Option.map_id e.receipt
    rw [← hrows, page_map]
    refine map_eq_map_of_forall₂ ((List.forall₂_and_left _ _).2 ⟨fun x hx ↦ htight x
      ((page_prefix_drop _ _ _).subset hx |> List.mem_of_mem_drop), h.sent⟩) fun x y hxy ↦ ?_
    rw [hxy.2.sent, EventReceipt.encoded_of_tight hxy.1]
  have htotal : p.receiptTotal = (committedReceipts init turns n sc t.period).length := by
    rw [hlength, ← hrows .summary]
    exact h.summary.length
  refine ⟨htotal, h.committed.1, h.committed.2.1, hpage, ?_, fun y hy ↦ ?_⟩
  · rw [h.next, pageEnd, htotal, List.length_map]
  · have hvouched := h.vouched ((hreceipts .receipts).trans (hreceipts .leaves).symm) htight hy
    exact ⟨_, hvouched.leaf, hvouched.proof.trans h.committed.2.1⟩

/-- **An audit of a stored tally answers**, at any time later. -/
theorem Fresh.exists_answer {n : ℕ} {t : TallyRow}
    (ht : t ∈ (liveAfter init turns n).shared.world.db.tallies) {sc : CurrentCode reg}
    (hcode : t.sharedCodeID = sc.row.id) {views : AuditQuery → ℕ} (hviews : ∀ q, n ≤ views q)
    {r : AuditRequest} (hr : Asks d s sc.campaign.chainID sc.row.code t.period r)
    {cursor limit : ℤ} (hcursor : r.cursor? = some cursor) (hlimit : r.limit? = some limit)
    (hpos : 0 ≤ cursor) (hle : cursor ≤ (committedReceipts init turns n sc t.period).length)
    (hone : 1 ≤ limit) (hmost : limit ≤ 100) :
    ∃ p, handleAuditTally d s (auditTables init turns views) r = .ok p ∧
      p.cursor = cursor.toNat ∧ p.limit = limit.toNat := by
  obtain ⟨hperiod, hbacked, hlength⟩ := hinit.backed hd hreg ht hcode
  obtain ⟨htally, hrows⟩ := hinit.later hd hreg ht hcode hviews
  obtain ⟨hne, hbound⟩ := period_of_valid hperiod
  have hcursor := auditCursor_eq_ok hcursor hpos
  have hlimit := auditLimit_eq_ok hlimit hone hmost
  obtain ⟨p, hp⟩ := @exists_page d reg s (auditTables init turns views) r sc
    ⟨t, (liveAfter init turns (views .tally)).shared.committedAt t.sharedCodeID t.period⟩ _ _ _
    hreg (hr.target hreg hne) hcursor hlimit hbound htally hrows hbacked (by omega)
  obtain ⟨a, tally, hashes, h⟩ := handleAuditTally_eq_ok hp
  exact ⟨p, hp, Except.ok.inj (h.cursor.symm.trans hcursor),
    Except.ok.inj (h.limit.symm.trans hlimit)⟩

end Turns

/-! ### Walks -/

/-- A round of a walk over a tally: some request for it, with the cursor the walk has come to and
the limit of the round, is answered with a page. -/
def AuditRound (d : Deployment) (s : Auditor) (chainID : UInt64) (code : Bytes) (period : UInt64)
    (tables : ℕ → AuditQuery → AuditTables) (limits : ℕ → ℤ) (k c : ℕ) (p : AuditPage) : Prop :=
  ∃ r, Asks d s chainID code period r ∧ r.cursor? = some (c : ℤ) ∧ r.limit? = some (limits k) ∧
    handleAuditTally d s (tables k) r = .ok p

/-- **A committed tally stays publicly auditable.** Let a service live, from its first request on,
and let a commit have answered after some turns. At any later time, and even when the statements of
an audit run at different times, every request for the tally, with a cursor within its receipts and
a limit between 1 and 100, is answered with that page of it. Walking its pages with any sequence of
limits comes to an end, lists each of its receipts once and in the order committed, and every proof
leads from the leaf of its receipt to the committed root. -/
theorem stays_auditable (hd : d.Standard) (hreg : reg.WellFormed)
    {init : Config LiveState (Place reg)} (hinit : Fresh init)
    (turns : List (Turn (LiveChoice s) LiveEvent)) {n i : ℕ} {sc : CurrentCode reg}
    {period : UInt64} {count : Int64} {receiptTotal : ℕ} {root txHash : Bytes}
    (hcommitted : (liveAfter init turns n).requests i =
      .commitRelease sc (.committed period count receiptTotal root txHash)) :
    (committedReceipts init turns n sc period).length = receiptTotal ∧
    (∃ leaves, (committedReceipts init turns n sc period).map (fun r ↦ decodeHash r.leafHash) =
      leaves.map some ∧ root = hexRoot (merkleRoot (.zero 32) (merkleParent d.sha256) leaves)) ∧
    (∀ views : AuditQuery → ℕ, (∀ q, n ≤ views q) → ∀ r cursor limit,
      Asks d s sc.campaign.chainID sc.row.code period r →
      r.cursor? = some cursor → r.limit? = some limit →
      0 ≤ cursor → cursor ≤ receiptTotal → 1 ≤ limit → limit ≤ 100 →
      ∃ p, handleAuditTally d s (auditTables init turns views) r = .ok p ∧
        Answers d (committedReceipts init turns n sc period) count root cursor.toNat limit.toNat
          p) ∧
    ∀ (views : ℕ → AuditQuery → ℕ) (limits : ℕ → ℤ), (∀ k q, n ≤ views k q) →
      (∀ k, 1 ≤ limits k ∧ limits k ≤ 100) →
      (∀ r, Asks d s sc.campaign.chainID sc.row.code period r →
        ∃ pages, Walk AuditPage.nextCursor (AuditRound d s sc.campaign.chainID sc.row.code period
          (fun k ↦ auditTables init turns (views k)) limits) 0 0 pages) ∧
      ∀ pages, Walk AuditPage.nextCursor (AuditRound d s sc.campaign.chainID sc.row.code period
          (fun k ↦ auditTables init turns (views k)) limits) 0 0 pages →
        (pages.flatMap (·.receipts)).map (·.receipt) = committedReceipts init turns n sc period ∧
        ∀ y ∈ pages.flatMap (·.receipts), ∃ leaf, decodeHash y.receipt.leafHash = some leaf ∧
          hexRoot (walk (merkleParent d.sha256) leaf y.proof) = root := by
  have hproceeds := ((hinit.wellKept_after hd hreg turns n).proceeds i).hand
  rw [hcommitted] at hproceeds
  obtain ⟨t, ht, hcode, rfl, rfl, rfl, hlen⟩ := hproceeds
  obtain ⟨-, hbacked, hlength⟩ := hinit.backed hd hreg ht hcode
  have htotal : (committedReceipts init turns n sc t.period).length = receiptTotal := by
    rw [hlength, hcode, hlen]
  have hlen_le : (committedReceipts init turns n sc t.period).length ≤ 10000 :=
    hlength ▸ hbacked.length_le
  -- a page from a request that was answered
  have hround : ∀ (views : ℕ → AuditQuery → ℕ) (limits : ℕ → ℤ), (∀ k q, n ≤ views k q) →
      ∀ k c p, AuditRound d s sc.campaign.chainID sc.row.code t.period
        (fun k ↦ auditTables init turns (views k)) limits k c p →
      ∃ limit, Answers d (committedReceipts init turns n sc t.period) t.count t.merkleRoot c limit
        p := by
    rintro views limits hviews k c p ⟨r, hr, hcursor, hlimit, hp⟩
    have hanswers := hinit.answers hd hreg ht hcode (hviews k) hr hp
    obtain ⟨a, tally, hashes, h⟩ := handleAuditTally_eq_ok hp
    obtain rfl : p.cursor = c :=
      Except.ok.inj (h.cursor.symm.trans (auditCursor_eq_ok hcursor (Int.natCast_nonneg c)))
    exact ⟨p.limit, hanswers⟩
  refine ⟨htotal, ?_, ?_, fun views limits hviews hlimits ↦ ⟨fun r hr ↦ ?_, fun pages hwalk ↦ ?_⟩⟩
  · obtain ⟨leaves, hleaves, hroot⟩ := hbacked.root
    refine ⟨leaves, ?_, hroot⟩
    rw [← hleaves, committedReceipts, ← hcode, List.map_filterMap, ← List.filterMap_eq_map]
    refine List.filterMap_congr fun e he ↦ ?_
    obtain ⟨receipt, hreceipt, -⟩ := (hbacked.published e he).receipt
    rw [Function.comp_apply, SharedEvent.leaf?, hreceipt]
    rfl
  · intro views hviews r cursor limit hr hcursor hlimit hpos hle hone hmost
    obtain ⟨p, hp, hpc, hpl⟩ := hinit.exists_answer hd hreg ht hcode hviews hr hcursor hlimit hpos
      (by rw [htotal]; exact hle) hone hmost
    have hanswers := hinit.answers hd hreg ht hcode hviews hr hp
    rw [hpc, hpl] at hanswers
    exact ⟨p, hp, hanswers⟩
  · refine @exists_walk EventReceipt (committedReceipts init turns n sc t.period) AuditPage
      AuditPage.nextCursor _ (fun p ↦ p.receipts.map (·.receipt)) (fun k c hc ↦ ?_) 0 0
      (Nat.zero_le _)
    have hcursor : ({ r with cursor := decimal c, limit := decimal (limits k) } :
        AuditRequest).cursor? = some (c : ℤ) := by
      rw [AuditRequest.cursor?, if_neg (decimal_ne_nil _), parseInt_decimal (by omega)]
    have hlimit : ({ r with cursor := decimal c, limit := decimal (limits k) } :
        AuditRequest).limit? = some (limits k) := by
      have hrange := hlimits k
      rw [AuditRequest.limit?, if_neg (decimal_ne_nil _), parseInt_decimal (by omega)]
    have hasks : Asks d s sc.campaign.chainID sc.row.code t.period
        { r with cursor := decimal c, limit := decimal (limits k) } :=
      ⟨hr.chainID, hr.period, hr.code, hr.contract⟩
    obtain ⟨p, hp, hpc, hpl⟩ := hinit.exists_answer hd hreg ht hcode (hviews k) hasks hcursor
      hlimit (Int.natCast_nonneg c) (Int.ofNat_le.2 hc) (hlimits k).1 (hlimits k).2
    have hanswers := hinit.answers hd hreg ht hcode (hviews k) hasks hp
    obtain rfl : p.cursor = c := hpc
    refine ⟨p, p.limit, ⟨_, hasks, hcursor, hlimit, hp⟩, ?_, hanswers.page_eq, hanswers.next_eq⟩
    have hone := (hlimits k).1
    omega
  · refine ⟨?_, fun y hy ↦ ?_⟩
    · have hitems : pages.flatMap (fun p ↦ p.receipts.map (·.receipt)) =
          (committedReceipts init turns n sc t.period).drop 0 := by
        refine hwalk.flatMap_items fun k c p hp ↦ ?_
        obtain ⟨limit, h⟩ := hround views limits hviews k c p hp
        exact ⟨limit, h.page_eq, h.next_eq⟩
      rw [List.drop_zero] at hitems
      rw [← hitems, List.map_flatMap]
    · obtain ⟨p, hp, hy⟩ := List.mem_flatMap.1 hy
      obtain ⟨k, c, hask⟩ := hwalk.asked p hp
      obtain ⟨limit, h⟩ := hround views limits hviews k c p hask
      exact h.proofs y hy

namespace LiveSample

open AuditSample (auditor deployment payload signatureA signatureB)
open Sample (envAt owner)

def account : AuthCtx := ⟨7, .test⟩

def registry : Registry deployment where
  accounts := [⟨account, owner, true⟩]
  campaigns := [AuditSample.campaign]
  sharedCodes := [AuditSample.sharedCode]
  programs := []
  campaign_key := by simp
  chain_key := by simp
  code_key := by simp
  code_name_key := by simp

def code : CurrentCode registry :=
  ⟨AuditSample.sharedCode, AuditSample.campaign, List.mem_cons_self, List.mem_cons_self, rfl, rfl⟩

/-- Two scans and a commit. -/
def start : Config LiveState (Place registry) where
  shared :=
    { world := ⟨.empty, runFrom 0 [], fun _ ↦ false⟩
      registered := fun _ ↦ true
      archived := fun _ ↦ false
      committedAt := fun _ _ ↦ 0
      settled := fun _ _ ↦ false }
  requests i :=
    if i = 0 then .recordEvents account 1 code.row.code ⟨some 2, "", "", "", "", ""⟩
    else if i = 1 then .recordEvents account 1 code.row.code ⟨some 1, "", "", "", "", ""⟩
    else .commitTally account 1 code.row.code 202628

/-- A key that signs the two payloads. -/
def signer : Signer where
  address := AuditSample.signer
  sign p :=
    if p = payload "2" "00" then some signatureA
    else if p = payload "1" "01" then some signatureB
    else none

/-- All goes well. -/
def choice (nonce : Bytes) : Choice where
  env := ⟨20, some signer, some nonce, .ok ()⟩
  stored := true
  read := 10000
  ledger := envAt 20 owner
  lands := true
  genCode _ := none
  decoded := true
  txHash := []

theorem isText_of_all {b : Bytes} (h : b.all (·.toNat < 128) = true) : IsText b :=
  isText_of_lt fun c hc ↦ of_decide_eq_true (List.all_eq_true.1 h c hc)

theorem honest {nonce : Bytes} (h : nonce.all (·.toNat < 128) = true) :
    Honest auditor (choice nonce).env where
  address _ hsigner := by
    obtain rfl := Option.some.inj hsigner
    exact isText_of_all (by decide +kernel)
  signs _ hsigner := by
    obtain rfl := Option.some.inj hsigner
    refine ⟨(), if_pos rfl, fun p signature hsign ↦ decide_eq_true ?_⟩
    simp only [signer] at hsign
    split at hsign
    case isTrue hp => exact Or.inl ⟨hp, (Option.some.inj hsign).symm⟩
    case isFalse =>
      split at hsign
      case isTrue hp => exact Or.inr ⟨hp, (Option.some.inj hsign).symm⟩
      case isFalse => cases hsign
  nonce _ hnonce := by
    obtain rfl := Option.some.inj hnonce
    exact isText_of_all h
  now := (by decide : (-2 ^ 63 : ℤ) ≤ 20 ∧ (20 : ℤ) ≤ 2 ^ 63 - 1)

/-- A step of the request `i`. -/
def step (i : ℕ) (nonce : Bytes) (h : nonce.all (·.toNat < 128) = true) :
    Turn (LiveChoice auditor) LiveEvent :=
  .request i ⟨choice nonce, honest h, runFrom 0 [], true, false⟩

/-- Each scan is stored before the next, and both before the commit. -/
def turns : List (Turn (LiveChoice auditor) LiveEvent) :=
  List.replicate 2 (step 0 (ascii "00") (by decide +kernel)) ++
  List.replicate 2 (step 1 (ascii "01") (by decide +kernel)) ++
  List.replicate 6 (step 2 [] rfl)

theorem standard : deployment.Standard where
  quote cs := by
    show encodeText (Json.quote (Json.runes (encodeText cs))) = _
    rw [runes_encodeText]
  base64 := rfl
  network := isText_of_all (by decide +kernel)
  contract := isText_of_all (by decide +kernel)

theorem code_eq (sc : CurrentCode registry) : sc = code := by
  apply CurrentCode.eq_of_id
  rw [List.mem_singleton.1 sc.row_mem]
  rfl

theorem wellFormed : registry.WellFormed where
  chainID sc := by
    rw [code_eq sc]
    exact ⟨by decide, by decide⟩
  code sc := by
    rw [code_eq sc]
    exact ⟨by decide +kernel, by decide +kernel, isText_of_all (by decide +kernel)⟩

theorem fresh : Fresh start where
  db := rfl
  arriving i := by
    show (if i = 0 then _ else if i = 1 then _ else _ : Place registry).Arriving
    split
    · trivial
    · split
      · trivial
      · trivial

/-- The answer of a request that is to release its lock. -/
def released : Place registry → Option (UInt64 × Int64 × ℕ × Bytes × Bytes)
  | .commitRelease _ (.committed period count receiptTotal root txHash) =>
    some (period, count, receiptTotal, root, txHash)
  | _ => none

theorem released_eq_some {p : Place registry} {period : UInt64} {count : Int64} {receiptTotal : ℕ}
    {root txHash : Bytes} (h : released p = some (period, count, receiptTotal, root, txHash)) :
    p = .commitRelease code (.committed period count receiptTotal root txHash) := by
  unfold released at h
  split at h
  case h_1 sc _ _ _ _ _ =>
    cases h
    rw [code_eq sc]
  case h_2 => cases h

theorem committed : (liveAfter start turns 10).requests 2 = .commitRelease code
    (.committed 202628 3 2 (hexRoot AuditSample.digestPair) []) :=
  released_eq_some (by decide +kernel)

theorem asks : Asks deployment auditor code.campaign.chainID code.row.code 202628
    AuditSample.request :=
  ⟨by decide +kernel, by decide +kernel, by decide +kernel, by decide +kernel⟩

end LiveSample

theorem stays_auditable_sample : ∃ pages, Walk AuditPage.nextCursor
    (AuditRound AuditSample.deployment AuditSample.auditor LiveSample.code.campaign.chainID
      LiveSample.code.row.code 202628
      (fun _ ↦ auditTables LiveSample.start LiveSample.turns fun _ ↦ 10) fun _ ↦ 1) 0 0 pages ∧
    (pages.flatMap (·.receipts)).length = 2 := by
  obtain ⟨htotal, -, -, hwalks⟩ := stays_auditable LiveSample.standard LiveSample.wellFormed
    LiveSample.fresh LiveSample.turns LiveSample.committed
  obtain ⟨hexists, hall⟩ := hwalks (fun _ _ ↦ 10) (fun _ ↦ 1) (fun _ _ ↦ le_rfl)
    fun _ ↦ ⟨le_rfl, by decide⟩
  obtain ⟨pages, hwalk⟩ := hexists _ LiveSample.asks
  refine ⟨pages, hwalk, ?_⟩
  rw [← htotal, ← (hall pages hwalk).1, List.length_map]

end Soroticket
