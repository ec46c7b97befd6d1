import Soroticket.Cloud.References

/-!
# The security migration

Events from before receipts have their orders as plain text. When the server starts, the schema
script enters the orders of all events into `operation_dedup`, as they are, and
`runSecurityMigrations` then hashes the orders of the unsigned events, one event after the other: it
renames the order in the event, takes the plain row out of `operation_dedup`, and enters the hashed
one. Events of one order share a row.

The rows taken out and the rows entered are of one table. So the migration is exact where no plain
order is itself the hash of an order of the database (`security_migration_exact`), and then the
starts that follow find nothing to do. Otherwise the plain text is there still, as the other order's
hash, and the row of that order may be taken out again (`plain_order_of_hash`).
-/

namespace Soroticket

variable {d : Deployment} {reg : Registry d}

/-! ### The database -/

/-- A row of `sessions`. -/
structure SessionRow where
  token : Bytes
  userID : ℕ
  expiresAt : ℤ

/-- The tables a start of the server changes, and whether `schema_migrations` has version 1. -/
structure Console where
  db : Database
  sessions : List SessionRow
  applied : Bool

/-- `legacyOrder`: an unsigned event with an order, joined with its code and campaign. -/
structure LegacyOrder where
  eventID : ℕ
  sharedID : ℕ
  account : AuthCtx
  chainID : UInt64
  code : Bytes
  reference : Bytes
  deriving DecidableEq

namespace LegacyOrder

variable (o : LegacyOrder)

/-- The order as the migration stores it. -/
def hashed (d : Deployment) : Bytes :=
  opaqueReference d (o.account.domain ++ ascii "|campaign:" ++ ascii (toString o.chainID.toNat) ++
    ascii "|code:" ++ o.code ++ ascii "|order") o.reference

/-- Its row in `operation_dedup`, before and after. -/
def plainRow : DedupRow := ⟨o.account, .shared o.sharedID, o.reference⟩

def hashedRow (d : Deployment) : DedupRow := ⟨o.account, .shared o.sharedID, o.hashed d⟩

end LegacyOrder

/-- The rows of the query that has to do with one event. -/
def Registry.ordersOf (reg : Registry d) (e : SharedEvent) : List LegacyOrder :=
  match e.receipt, e.orderRef with
  | none, some ref =>
    if ref = [] then []
    else (reg.sharedCodes.filter fun sc ↦ sc.id = e.sharedCodeID).flatMap fun sc ↦
      (reg.campaigns.filter fun c ↦ c.id = sc.campaignID).map fun c ↦
        ⟨e.id, e.sharedCodeID, c.account, c.chainID, sc.code, ref⟩
  | _, _ => []

/-- The query of `runSecurityMigrations`. -/
def Registry.legacyOrders (reg : Registry d) (t : EventTable) : List LegacyOrder :=
  t.rows.flatMap reg.ordersOf

/-- The order a query without `ORDER BY` answers in. -/
structure QueryOrder where
  order : List LegacyOrder → List LegacyOrder
  perm : ∀ l, (order l).Perm l

/-! ### A start of the server -/

/-- `UPDATE shared_events SET order_ref`. -/
def LegacyOrder.rename (o : LegacyOrder) (d : Deployment) (e : SharedEvent) : SharedEvent :=
  if e.id = o.eventID then { e with orderRef := some (o.hashed d) } else e

theorem LegacyOrder.id_rename (o : LegacyOrder) (d : Deployment) (e : SharedEvent) :
    (o.rename d e).id = e.id := by
  rw [rename]
  split <;> rfl

/-- The three statements for an order. -/
def Database.migrateOrder (d : Deployment) (db : Database) (o : LegacyOrder) : Database :=
  insertOrIgnore { db with
    sharedEvents := db.sharedEvents.update (o.rename d) (o.id_rename d)
    operationDedup := db.operationDedup.filter (· ≠ o.plainRow) } (o.hashedRow d)

/-- Historical events are kept out of the commits to come. -/
def SharedEvent.quarantine (e : SharedEvent) : SharedEvent :=
  if e.committedPeriod = none ∧ e.receipt = none then { e with committedPeriod := some (-1) }
  else e

theorem SharedEvent.id_quarantine (e : SharedEvent) : e.quarantine.id = e.id := by
  rw [quarantine]
  split <;> rfl

namespace Console

/-- The schema script of `openStore`. -/
def openStore (reg : Registry d) (c : Console) : Console := { c with db := c.db.openStore reg }

/-- `runSecurityMigrations`, where its transaction goes through. -/
def runSecurityMigrations (reg : Registry d) (q : QueryOrder) (c : Console) : Console :=
  if c.applied then c
  else
    let db := (q.order (reg.legacyOrders c.db.sharedEvents)).foldl (Database.migrateOrder d) c.db
    { db := { db with
        sharedEvents := db.sharedEvents.update SharedEvent.quarantine SharedEvent.id_quarantine }
      sessions := []
      applied := true }

end Console

/-- How a start ends: before the script, in the migration, which is then rolled back, or well. -/
inductive StartOutcome where
  | unopened
  | rolledBack
  | started (q : QueryOrder)

/-- A start of the server. -/
def Console.start (reg : Registry d) (c : Console) : StartOutcome → Console
  | .unopened => c
  | .rolledBack => c.openStore reg
  | .started q => (c.openStore reg).runSecurityMigrations reg q

/-- Starts, one after the other. -/
def Console.starts (reg : Registry d) (c : Console) (outcomes : List StartOutcome) : Console :=
  outcomes.foldl (Console.start reg) c

/-! ### What the script and the migration do to the tables -/

theorem mem_insertOrIgnore {db : Database} {row r : DedupRow} :
    r ∈ (db.insertOrIgnore row).operationDedup ↔ r ∈ db.operationDedup ∨ r = row := by
  rw [Database.insertOrIgnore]
  split
  case isTrue hmem =>
    refine ⟨Or.inl, ?_⟩
    rintro (h | rfl)
    · exact h
    · exact hmem
  case isFalse => rw [List.mem_append, List.mem_singleton]

theorem sharedEvents_insertOrIgnore (db : Database) (row : DedupRow) :
    (db.insertOrIgnore row).sharedEvents = db.sharedEvents := by
  rw [Database.insertOrIgnore]
  split <;> rfl

theorem foldl_insertOrIgnore (rows : List DedupRow) (db : Database) :
    (rows.foldl Database.insertOrIgnore db).sharedEvents = db.sharedEvents ∧
      ∀ r, r ∈ (rows.foldl Database.insertOrIgnore db).operationDedup ↔
        r ∈ db.operationDedup ∨ r ∈ rows := by
  induction rows generalizing db with
  | nil => exact ⟨rfl, fun r ↦ by simp⟩
  | cons row rows ih =>
    obtain ⟨hevents, hdedup⟩ := ih (db.insertOrIgnore row)
    refine ⟨hevents.trans (sharedEvents_insertOrIgnore db row), fun r ↦ ?_⟩
    rw [List.foldl_cons, hdedup, mem_insertOrIgnore, List.mem_cons, or_assoc]

theorem sharedEvents_openStore (reg : Registry d) (db : Database) :
    (db.openStore reg).sharedEvents = db.sharedEvents :=
  (foldl_insertOrIgnore _ db).1

theorem mem_openStore {db : Database} {r : DedupRow} :
    r ∈ (db.openStore reg).operationDedup ↔
      r ∈ db.operationDedup ∨ r ∈ reg.orderRows db.sharedEvents :=
  (foldl_insertOrIgnore _ db).2 r

/-- The script enters nothing again. -/
theorem openStore_openStore (reg : Registry d) (db : Database) :
    (db.openStore reg).openStore reg = db.openStore reg := by
  refine Database.openStore_eq fun row hrow ↦ ?_
  rw [sharedEvents_openStore] at hrow
  exact mem_openStore.2 (Or.inr hrow)

/-- What the orders of a list make of an event. -/
theorem foldl_migrateOrder_rows (l : List LegacyOrder) (db : Database) :
    (l.foldl (Database.migrateOrder d) db).sharedEvents.rows =
      db.sharedEvents.rows.map fun e ↦ l.foldl (fun e o ↦ o.rename d e) e := by
  induction l generalizing db with
  | nil => simp
  | cons o l ih =>
    have hstep : (db.migrateOrder d o).sharedEvents.rows =
        db.sharedEvents.rows.map (o.rename d) := by
      rw [Database.migrateOrder, sharedEvents_insertOrIgnore]
      rfl
    rw [List.foldl_cons, ih, hstep, List.map_map]
    rfl

/-- What the orders of a list make of `operation_dedup`, where no row that is taken out is one that
is entered. By induction on the list. -/
theorem mem_foldl_migrateOrder {l : List LegacyOrder} {db : Database} {r : DedupRow}
    (h : ∀ o ∈ l, ∀ o' ∈ l, o'.hashedRow d ≠ o.plainRow) :
    r ∈ (l.foldl (Database.migrateOrder d) db).operationDedup ↔
      (r ∈ db.operationDedup ∧ ∀ o ∈ l, r ≠ o.plainRow) ∨ ∃ o ∈ l, r = o.hashedRow d := by
  induction l generalizing db with
  | nil => simp
  | cons o l ih =>
    have hstep : r ∈ (db.migrateOrder d o).operationDedup ↔
        (r ∈ db.operationDedup ∧ r ≠ o.plainRow) ∨ r = o.hashedRow d := by
      rw [Database.migrateOrder, mem_insertOrIgnore]
      simp only [List.mem_filter, decide_eq_true_eq]
    have hrest : r ∈ (l.foldl (Database.migrateOrder d) (db.migrateOrder d o)).operationDedup ↔
        (r ∈ (db.migrateOrder d o).operationDedup ∧ ∀ o ∈ l, r ≠ o.plainRow) ∨
          ∃ o ∈ l, r = o.hashedRow d :=
      ih fun o₁ h₁ o₂ h₂ ↦ h o₁ (List.mem_cons_of_mem _ h₁) o₂ (List.mem_cons_of_mem _ h₂)
    rw [List.foldl_cons, hrest, hstep]
    constructor
    · rintro (⟨⟨hr, hne⟩ | rfl, hall⟩ | ⟨o', ho', rfl⟩)
      · exact Or.inl ⟨hr, List.forall_mem_cons.2 ⟨hne, hall⟩⟩
      · exact Or.inr ⟨o, List.mem_cons_self, rfl⟩
      · exact Or.inr ⟨o', List.mem_cons_of_mem _ ho', rfl⟩
    · rintro (⟨hr, hall⟩ | ⟨o', ho', rfl⟩)
      · obtain ⟨hne, hall⟩ := List.forall_mem_cons.1 hall
        exact Or.inl ⟨Or.inl ⟨hr, hne⟩, hall⟩
      · rcases List.mem_cons.1 ho' with rfl | ho'
        · refine Or.inl ⟨Or.inr rfl, fun o₁ h₁ ↦ ?_⟩
          exact h o₁ (List.mem_cons_of_mem _ h₁) o' List.mem_cons_self
        · exact Or.inr ⟨o', ho', rfl⟩

/-! ### The orders of an event -/

/-- What the query finds of an event. -/
structure LegacyOrder.Of (o : LegacyOrder) (reg : Registry d) (e : SharedEvent) : Prop where
  unsigned : e.receipt = none
  reference : e.orderRef = some o.reference
  ne_nil : o.reference ≠ []
  eventID : o.eventID = e.id
  sharedID : o.sharedID = e.sharedCodeID
  joined : ∃ sc ∈ reg.sharedCodes, ∃ c ∈ reg.campaigns, sc.id = e.sharedCodeID ∧
    c.id = sc.campaignID ∧ o.account = c.account ∧ o.chainID = c.chainID ∧ o.code = sc.code

theorem mem_ordersOf {e : SharedEvent} {o : LegacyOrder} : o ∈ reg.ordersOf e ↔ o.Of reg e := by
  constructor
  · intro h
    rw [Registry.ordersOf] at h
    split at h
    case h_1 ref hreceipt horder =>
      split at h
      · exact absurd h List.not_mem_nil
      case isFalse href =>
        obtain ⟨sc, hsc, h⟩ := List.mem_flatMap.1 h
        obtain ⟨c, hc, rfl⟩ := List.mem_map.1 h
        obtain ⟨hsc, hid⟩ := List.mem_filter.1 hsc
        obtain ⟨hc, hcampaign⟩ := List.mem_filter.1 hc
        exact ⟨hreceipt, horder, href, rfl, rfl, sc, hsc, c, hc, of_decide_eq_true hid,
          of_decide_eq_true hcampaign, rfl, rfl, rfl⟩
    · exact absurd h List.not_mem_nil
  · rintro ⟨hreceipt, horder, href, hevent, hshared, sc, hsc, c, hc, hid, hcampaign, haccount,
      hchain, hcode⟩
    rw [Registry.ordersOf, hreceipt, horder]
    dsimp only
    rw [if_neg href]
    refine List.mem_flatMap.2 ⟨sc, List.mem_filter.2 ⟨hsc, decide_eq_true hid⟩, List.mem_map.2
      ⟨c, List.mem_filter.2 ⟨hc, decide_eq_true hcampaign⟩, ?_⟩⟩
    rw [← haccount, ← hchain, ← hcode, ← hevent, ← hshared]

/-- An event has one order. -/
theorem LegacyOrder.Of.unique {e : SharedEvent} {o o' : LegacyOrder} (h : o.Of reg e)
    (h' : o'.Of reg e) : o = o' := by
  obtain ⟨sc, hsc, c, hc, hid, hcampaign, haccount, hchain, hcode⟩ := h.joined
  obtain ⟨sc', hsc', c', hc', hid', hcampaign', haccount', hchain', hcode'⟩ := h'.joined
  obtain rfl := reg.code_key sc hsc sc' hsc' (hid.trans hid'.symm)
  obtain rfl := reg.campaign_key c hc c' hc' (hcampaign.trans hcampaign'.symm)
  obtain ⟨eventID, sharedID, account, chainID, code, reference⟩ := o
  obtain ⟨eventID', sharedID', account', chainID', code', reference'⟩ := o'
  obtain rfl : eventID = eventID' := h.eventID.trans h'.eventID.symm
  obtain rfl : sharedID = sharedID' := h.sharedID.trans h'.sharedID.symm
  obtain rfl : account = account' := haccount.trans haccount'.symm
  obtain rfl : chainID = chainID' := hchain.trans hchain'.symm
  obtain rfl : code = code' := hcode.trans hcode'.symm
  obtain rfl : reference = reference' := Option.some.inj (h.reference.symm.trans h'.reference)
  rfl

/-- The event with its order hashed. -/
def Registry.rehash (reg : Registry d) (e : SharedEvent) : SharedEvent :=
  match (reg.ordersOf e).head? with
  | some o => { e with orderRef := some (o.hashed d) }
  | none => e

theorem Registry.rehash_of {e : SharedEvent} {o : LegacyOrder} (h : o.Of reg e) :
    reg.rehash e = { e with orderRef := some (o.hashed d) } := by
  rw [rehash]
  cases hhead : (reg.ordersOf e).head? with
  | none =>
    rw [List.head?_eq_none_iff] at hhead
    exact absurd (hhead ▸ mem_ordersOf.2 h) List.not_mem_nil
  | some o' =>
    obtain rfl := (mem_ordersOf.1 (List.mem_of_head? hhead)).unique h
    rfl

theorem Registry.rehash_of_none {e : SharedEvent} (h : ∀ o : LegacyOrder, ¬o.Of reg e) :
    reg.rehash e = e := by
  rw [rehash]
  cases hhead : (reg.ordersOf e).head? with
  | none => rfl
  | some o => exact absurd (mem_ordersOf.1 (List.mem_of_head? hhead)) (h o)

/-- Orders of which one at most is of an event rename its order or leave it. By induction on the
list, from its end. -/
theorem foldl_rename_cases {l : List LegacyOrder} {e : SharedEvent} {o : LegacyOrder}
    (h : ∀ o' ∈ l, o'.eventID = e.id → o' = o) :
    (l.foldl (fun e o ↦ o.rename d e) e = e ∧ ∀ o' ∈ l, o'.eventID ≠ e.id) ∨
      l.foldl (fun e o ↦ o.rename d e) e = { e with orderRef := some (o.hashed d) } ∧ o ∈ l ∧
        o.eventID = e.id := by
  induction l using List.reverseRecOn with
  | nil => exact Or.inl ⟨rfl, fun o' ho' ↦ absurd ho' List.not_mem_nil⟩
  | append_singleton l x ih =>
    have hbefore := ih fun o' ho' ↦ h o' (List.mem_append_left _ ho')
    rw [List.foldl_append, List.foldl_cons, List.foldl_nil]
    by_cases hx : x.eventID = e.id
    · obtain rfl := h x (List.mem_append_right _ List.mem_cons_self) hx
      refine Or.inr ⟨?_, List.mem_append_right _ List.mem_cons_self, hx⟩
      rcases hbefore with ⟨heq, -⟩ | ⟨heq, -⟩ <;> rw [heq, LegacyOrder.rename, if_pos hx.symm]
    · rcases hbefore with ⟨heq, hnone⟩ | ⟨heq, hmem, hid⟩
      · refine Or.inl ⟨?_, fun o' ho' ↦ ?_⟩
        · rw [heq, LegacyOrder.rename, if_neg (Ne.symm hx)]
        · rcases List.mem_append.1 ho' with ho' | ho'
          · exact hnone o' ho'
          · exact List.mem_singleton.1 ho' ▸ hx
      · refine Or.inr ⟨?_, List.mem_append_left _ hmem, hid⟩
        rw [heq, LegacyOrder.rename, if_neg (Ne.symm hx)]

theorem mem_legacyOrders {t : EventTable} {o : LegacyOrder} :
    o ∈ reg.legacyOrders t ↔ ∃ e ∈ t.rows, o.Of reg e := by
  simp only [Registry.legacyOrders, List.mem_flatMap, mem_ordersOf]

/-- The orders the query finds, in any order, hash the orders of the events. -/
theorem foldl_rename_eq {t : EventTable} {l : List LegacyOrder} (hl : l.Perm (reg.legacyOrders t))
    {e : SharedEvent} (he : e ∈ t.rows) :
    l.foldl (fun e o ↦ o.rename d e) e = reg.rehash e := by
  have hof : ∀ o ∈ l, o.eventID = e.id → o.Of reg e := by
    intro o ho hid
    obtain ⟨e', he', ho'⟩ := mem_legacyOrders.1 (hl.mem_iff.1 ho)
    obtain rfl := t.eq_of_id he' he (ho'.eventID.symm.trans hid)
    exact ho'
  by_cases hex : ∃ o : LegacyOrder, o.Of reg e
  · obtain ⟨o, ho⟩ := hex
    have hmem : o ∈ l := hl.mem_iff.2 (mem_legacyOrders.2 ⟨e, he, ho⟩)
    rw [reg.rehash_of ho]
    rcases foldl_rename_cases (d := d) fun o' ho' hid ↦ (hof o' ho' hid).unique ho with
      ⟨-, hnone⟩ | ⟨heq, -⟩
    · exact absurd ho.eventID (hnone o hmem)
    · exact heq
  · have hnone : ∀ o : LegacyOrder, ¬o.Of reg e := not_exists.1 hex
    rw [reg.rehash_of_none hnone]
    have hne : ∀ o ∈ l, o.eventID ≠ e.id := fun o ho hid ↦ hnone o (hof o ho hid)
    cases l with
    | nil => rfl
    | cons o l =>
      rcases foldl_rename_cases (d := d) (o := o) fun o' ho' hid ↦ absurd hid (hne o' ho') with
        ⟨heq, -⟩ | ⟨-, hmem, hid⟩
      · exact heq
      · exact absurd hid (hne o hmem)

/-! ### What is asked of the migration -/

/-- What the schema keeps of a database that is not migrated: its events are of codes of campaigns,
and the orders in `operation_dedup`, if there are any, are orders of its events. Rows of other kinds
are not plain orders. -/
structure Legacy (reg : Registry d) (c : Console) : Prop where
  unapplied : c.applied = false
  joined : ∀ e ∈ c.db.sharedEvents.rows, ∃ sc ∈ reg.sharedCodes, sc.id = e.sharedCodeID ∧
    ∃ x ∈ reg.campaigns, x.id = sc.campaignID
  dedup : ∀ r ∈ c.db.operationDedup, r ∈ reg.orderRows c.db.sharedEvents ∨
    ∀ o ∈ reg.legacyOrders c.db.sharedEvents, r.reference ≠ o.reference

/-- No plain order is the hash of an order of the database: of a signed event, or of an event whose
order is to be hashed. -/
structure PlainApart (reg : Registry d) (c : Console) : Prop where
  signed : ∀ o ∈ reg.legacyOrders c.db.sharedEvents, ∀ e ∈ c.db.sharedEvents.rows,
    e.receipt ≠ none → e.orderRef ≠ some o.reference
  hashed : ∀ o ∈ reg.legacyOrders c.db.sharedEvents, ∀ o' ∈ reg.legacyOrders c.db.sharedEvents,
    o'.hashed d ≠ o.reference

/-- What becomes of an event. -/
structure EventMigrated (reg : Registry d) (e e' : SharedEvent) : Prop where
  id : e'.id = e.id
  sharedCodeID : e'.sharedCodeID = e.sharedCodeID
  count : e'.count = e.count
  customerRef : e'.customerRef = e.customerRef
  receipt : e'.receipt = e.receipt
  signed : e.receipt ≠ none → e' = e
  /-- The order is hashed, once. -/
  hashed : e.receipt = none → ∀ ref, e.orderRef = some ref → ref ≠ [] →
    ∃ o : LegacyOrder, o.Of reg e ∧ e'.orderRef = some (o.hashed d)
  unnamed : e.orderRef = none ∨ e.orderRef = some [] → e'.orderRef = e.orderRef
  quarantined : e.receipt = none → e.committedPeriod = none → e'.committedPeriod = some (-1)
  committed : e.committedPeriod ≠ none → e'.committedPeriod = e.committedPeriod

/-- What the migration makes of a database. -/
structure Migrated (reg : Registry d) (c c' : Console) : Prop where
  events : List.Forall₂ (EventMigrated reg) c.db.sharedEvents.rows c'.db.sharedEvents.rows
  /-- No plain order is left. -/
  plain_events : ∀ o ∈ reg.legacyOrders c.db.sharedEvents, ∀ e ∈ c'.db.sharedEvents.rows,
    e.orderRef ≠ some o.reference
  plain_dedup : ∀ o ∈ reg.legacyOrders c.db.sharedEvents, ∀ r ∈ c'.db.operationDedup,
    r.reference ≠ o.reference
  /-- Every order of an event has its row. -/
  entered : ∀ r ∈ reg.orderRows c'.db.sharedEvents, r ∈ c'.db.operationDedup
  /-- The row of a legacy order is the one its event would be recorded with today. -/
  reserved : ∀ e ∈ c.db.sharedEvents.rows, e.receipt = none →
    ∀ env a campaignID code body new, recordEvents reg env a campaignID code body = .ok new →
      new.sharedCodeID = e.sharedCodeID → trimSpace body.orderRef ≠ "" →
      e.orderRef = some (utf8 (trimSpace body.orderRef)) →
        (∃ o : LegacyOrder, o.Of reg e ∧ new.orderRef = some (o.hashed d)) ∧
        ⟨a, .shared new.sharedCodeID, new.orderRef.getD []⟩ ∈ c'.db.operationDedup
  /-- A start changes nothing any more. -/
  settled : ∀ outcomes, c'.starts reg outcomes = c'

/-! ### The events -/

theorem SharedEvent.quarantine_of_neg {e : SharedEvent}
    (h : ¬(e.committedPeriod = none ∧ e.receipt = none)) : e.quarantine = e := if_neg h

theorem SharedEvent.quarantine_of_pos {e : SharedEvent} (h : e.committedPeriod = none)
    (h' : e.receipt = none) : e.quarantine = { e with committedPeriod := some (-1) } :=
  if_pos ⟨h, h'⟩

/-- An event keeps all but its period. -/
theorem SharedEvent.exists_quarantine (e : SharedEvent) :
    ∃ period, e.quarantine = { e with committedPeriod := period } := by
  rw [quarantine]
  split
  · exact ⟨_, rfl⟩
  · exact ⟨e.committedPeriod, rfl⟩

/-- An event keeps all but its order. -/
theorem Registry.exists_rehash (reg : Registry d) (e : SharedEvent) :
    ∃ ref, reg.rehash e = { e with orderRef := ref } := by
  rw [rehash]
  split
  · exact ⟨_, rfl⟩
  · exact ⟨e.orderRef, rfl⟩

/-- An unsigned event with an order has one that the query finds. -/
theorem exists_of {e : SharedEvent} {ref : Bytes} (hreceipt : e.receipt = none)
    (horder : e.orderRef = some ref) (href : ref ≠ [])
    (hjoined : ∃ sc ∈ reg.sharedCodes, sc.id = e.sharedCodeID ∧
      ∃ x ∈ reg.campaigns, x.id = sc.campaignID) :
    ∃ o : LegacyOrder, o.Of reg e ∧ o.reference = ref := by
  obtain ⟨sc, hsc, hid, x, hx, hcampaign⟩ := hjoined
  exact ⟨⟨e.id, e.sharedCodeID, x.account, x.chainID, sc.code, ref⟩,
    ⟨hreceipt, horder, href, rfl, rfl, sc, hsc, x, hx, hid, hcampaign, rfl, rfl, rfl⟩, rfl⟩

/-- **What becomes of an event.** -/
theorem eventMigrated {e : SharedEvent} (hjoined : ∃ sc ∈ reg.sharedCodes, sc.id = e.sharedCodeID ∧
    ∃ x ∈ reg.campaigns, x.id = sc.campaignID) :
    EventMigrated reg e (reg.rehash e).quarantine := by
  obtain ⟨ref', hrehash⟩ := reg.exists_rehash e
  obtain ⟨period, hquarantine⟩ := (reg.rehash e).exists_quarantine
  have hkept : (reg.rehash e).committedPeriod = e.committedPeriod ∧
      (reg.rehash e).receipt = e.receipt := by
    rw [hrehash]
    exact ⟨rfl, rfl⟩
  have hperiod : ∀ h : e.committedPeriod ≠ none,
      (reg.rehash e).quarantine.committedPeriod = e.committedPeriod := by
    intro h
    rw [SharedEvent.quarantine_of_neg fun hnone ↦ h (hkept.1.symm.trans hnone.1), hkept.1]
  have horder : (reg.rehash e).quarantine.orderRef = (reg.rehash e).orderRef := by
    rw [hquarantine]
  refine
    { id := by rw [hquarantine, hrehash]
      sharedCodeID := by rw [hquarantine, hrehash]
      count := by rw [hquarantine, hrehash]
      customerRef := by rw [hquarantine, hrehash]
      receipt := by rw [hquarantine, hrehash]
      signed := fun h ↦ ?_
      hashed := fun hreceipt ref href hne ↦ ?_
      unnamed := fun h ↦ ?_
      quarantined := fun hreceipt hnone ↦ ?_
      committed := hperiod }
  · have hnone : ∀ o : LegacyOrder, ¬o.Of reg e := fun o ho ↦ h ho.unsigned
    rw [reg.rehash_of_none hnone, SharedEvent.quarantine_of_neg fun hunsigned ↦ h hunsigned.2]
  · obtain ⟨o, ho, -⟩ := exists_of hreceipt href hne hjoined
    exact ⟨o, ho, by rw [horder, reg.rehash_of ho]⟩
  · have hnone : ∀ o : LegacyOrder, ¬o.Of reg e := by
      intro o ho
      rcases h with h | h
      · exact absurd (h.symm.trans ho.reference).symm (Option.some_ne_none _)
      · exact ho.ne_nil (Option.some.inj (h.symm.trans ho.reference)).symm
    rw [horder, reg.rehash_of_none hnone]
  · rw [SharedEvent.quarantine_of_pos (hkept.1.trans hnone) (hkept.2.trans hreceipt)]

theorem mem_orderRows_iff {t : EventTable} {r : DedupRow} :
    r ∈ reg.orderRows t ↔ ∃ e ∈ t.rows, ∃ sc ∈ reg.sharedCodes, ∃ x ∈ reg.campaigns, ∃ ref,
      sc.id = e.sharedCodeID ∧ x.id = sc.campaignID ∧ e.orderRef = some ref ∧ ref ≠ [] ∧
        r = ⟨x.account, .shared e.sharedCodeID, ref⟩ := by
  rw [Registry.orderRows, List.mem_dedup]
  constructor
  · intro h
    obtain ⟨e, he, h⟩ := List.mem_flatMap.1 h
    obtain ⟨sc, hsc, h⟩ := List.mem_flatMap.1 h
    obtain ⟨x, hx, h⟩ := List.mem_flatMap.1 h
    obtain ⟨hsc, hid⟩ := List.mem_filter.1 hsc
    obtain ⟨hx, hcampaign⟩ := List.mem_filter.1 hx
    split at h
    · exact absurd h List.not_mem_nil
    case h_2 ref horder =>
      split at h
      · exact absurd h List.not_mem_nil
      case isFalse href =>
        exact ⟨e, he, sc, hsc, x, hx, ref, of_decide_eq_true hid, of_decide_eq_true hcampaign,
          horder, href, List.mem_singleton.1 h⟩
  · rintro ⟨e, he, sc, hsc, x, hx, ref, hid, hcampaign, horder, href, rfl⟩
    refine List.mem_flatMap.2 ⟨e, he, List.mem_flatMap.2 ⟨sc, List.mem_filter.2 ⟨hsc,
      decide_eq_true hid⟩, List.mem_flatMap.2 ⟨x, List.mem_filter.2 ⟨hx,
        decide_eq_true hcampaign⟩, ?_⟩⟩⟩
    rw [horder]
    dsimp only
    rw [if_neg href]
    exact List.mem_singleton_self _

/-! ### The migration -/

/-- A start that goes well. -/
def Console.migrate (reg : Registry d) (q : QueryOrder) (c : Console) : Console :=
  (c.openStore reg).runSecurityMigrations reg q

/-- The tables when all orders are hashed. -/
def Console.hashedDb (reg : Registry d) (q : QueryOrder) (c : Console) : Database :=
  (q.order (reg.legacyOrders c.db.sharedEvents)).foldl (Database.migrateOrder d)
    (c.db.openStore reg)

theorem migrate_eq {c : Console} (hc : c.applied = false) (q : QueryOrder) :
    c.migrate reg q =
      { db := { c.hashedDb reg q with
          sharedEvents := (c.hashedDb reg q).sharedEvents.update SharedEvent.quarantine
            SharedEvent.id_quarantine }
        sessions := []
        applied := true } := by
  have hevents : (c.openStore reg).db.sharedEvents = c.db.sharedEvents :=
    sharedEvents_openStore reg c.db
  have hc' : ¬(c.openStore reg).applied = true := by
    rw [Console.openStore, hc]
    decide
  rw [Console.migrate, Console.runSecurityMigrations, if_neg hc', hevents]
  rfl

theorem rows_migrate {c : Console} (hc : c.applied = false) (q : QueryOrder) :
    (c.migrate reg q).db.sharedEvents.rows =
      c.db.sharedEvents.rows.map fun e ↦ (reg.rehash e).quarantine := by
  rw [migrate_eq hc]
  dsimp only
  rw [EventTable.rows_update, Console.hashedDb, foldl_migrateOrder_rows, List.map_map,
    sharedEvents_openStore]
  refine List.map_congr_left fun e he ↦ ?_
  rw [Function.comp_apply, foldl_rename_eq (q.perm _) he]

theorem mem_migrate {c : Console} (hc : c.applied = false) (hplain : PlainApart reg c)
    (q : QueryOrder) {r : DedupRow} :
    r ∈ (c.migrate reg q).db.operationDedup ↔
      ((r ∈ c.db.operationDedup ∨ r ∈ reg.orderRows c.db.sharedEvents) ∧
        ∀ o ∈ reg.legacyOrders c.db.sharedEvents, r ≠ o.plainRow) ∨
      ∃ o ∈ reg.legacyOrders c.db.sharedEvents, r = o.hashedRow d := by
  have hmem : ∀ o, o ∈ q.order (reg.legacyOrders c.db.sharedEvents) ↔
      o ∈ reg.legacyOrders c.db.sharedEvents := fun o ↦ (q.perm _).mem_iff
  have hapart : ∀ o ∈ q.order (reg.legacyOrders c.db.sharedEvents),
      ∀ o' ∈ q.order (reg.legacyOrders c.db.sharedEvents), o'.hashedRow d ≠ o.plainRow :=
    fun o ho o' ho' h ↦ hplain.hashed o ((hmem o).1 ho) o' ((hmem o').1 ho') (DedupRow.mk.inj h).2.2
  rw [migrate_eq hc]
  dsimp only
  rw [Console.hashedDb, mem_foldl_migrateOrder hapart, mem_openStore]
  simp only [hmem]

section Results

variable {c : Console} (hlegacy : Legacy reg c) (hplain : PlainApart reg c) (q : QueryOrder)

include hlegacy in
/-- The order of an event that is migrated is the hash of its order, or the order it had, and then
it is signed or has none. -/
theorem orderRef_migrated {e' : SharedEvent} (he' : e' ∈ (c.migrate reg q).db.sharedEvents.rows) :
    ∃ e ∈ c.db.sharedEvents.rows, e'.sharedCodeID = e.sharedCodeID ∧
      ((∃ o : LegacyOrder, o.Of reg e ∧ e'.orderRef = some (o.hashed d)) ∨
        (e'.orderRef = e.orderRef ∧
          ∀ ref, e.orderRef = some ref → ref ≠ [] → e.receipt ≠ none)) := by
  rw [rows_migrate hlegacy.unapplied q] at he'
  obtain ⟨e, he, rfl⟩ := List.mem_map.1 he'
  have hevent := eventMigrated (hlegacy.joined e he)
  refine ⟨e, he, hevent.sharedCodeID, ?_⟩
  by_cases hreceipt : e.receipt = none
  · cases horder : e.orderRef with
    | none =>
      refine Or.inr ⟨(hevent.unnamed (Or.inl horder)).trans horder, fun ref h ↦ ?_⟩
      cases h
    | some ref =>
      by_cases hne : ref = []
      · refine Or.inr ⟨?_, fun ref' h hne' ↦ absurd ((Option.some.inj h).symm.trans hne) hne'⟩
        rw [hevent.unnamed (Or.inr (horder.trans (congrArg some hne))), horder]
      · exact Or.inl (hevent.hashed hreceipt ref horder hne)
  · refine Or.inr ⟨?_, fun _ _ _ ↦ hreceipt⟩
    rw [hevent.signed hreceipt]

include hlegacy hplain

theorem plain_events {o : LegacyOrder} (ho : o ∈ reg.legacyOrders c.db.sharedEvents)
    {e' : SharedEvent} (he' : e' ∈ (c.migrate reg q).db.sharedEvents.rows) :
    e'.orderRef ≠ some o.reference := by
  intro horder
  obtain ⟨e, he, -, ⟨o', ho', hhashed⟩ | ⟨hkept, hsigned⟩⟩ := orderRef_migrated hlegacy q he'
  · exact hplain.hashed o ho o' (mem_legacyOrders.2 ⟨e, he, ho'⟩)
      (Option.some.inj (hhashed.symm.trans horder))
  · obtain ⟨e₀, -, hof⟩ := mem_legacyOrders.1 ho
    have heref := hkept.symm.trans horder
    exact hplain.signed o ho e he (hsigned o.reference heref hof.ne_nil) heref

theorem plain_dedup {o : LegacyOrder} (ho : o ∈ reg.legacyOrders c.db.sharedEvents) {r : DedupRow}
    (hr : r ∈ (c.migrate reg q).db.operationDedup) : r.reference ≠ o.reference := by
  intro href
  rcases (mem_migrate hlegacy.unapplied hplain q).1 hr with ⟨hold, hnot⟩ | ⟨o', ho', rfl⟩
  · have hrow : r ∈ reg.orderRows c.db.sharedEvents := by
      rcases hold with hold | hold
      · exact (hlegacy.dedup r hold).resolve_right fun h ↦ h o ho href
      · exact hold
    obtain ⟨e, he, sc, hsc, x, hx, ref, hid, hcampaign, horder, hne, rfl⟩ :=
      mem_orderRows_iff.1 hrow
    by_cases hreceipt : e.receipt = none
    · have hof : LegacyOrder.Of ⟨e.id, e.sharedCodeID, x.account, x.chainID, sc.code, ref⟩ reg e :=
        ⟨hreceipt, horder, hne, rfl, rfl, sc, hsc, x, hx, hid, hcampaign, rfl, rfl, rfl⟩
      exact hnot _ (mem_legacyOrders.2 ⟨e, he, hof⟩) rfl
    · exact hplain.signed o ho e he hreceipt (horder.trans (congrArg some href))
  · exact hplain.hashed o ho o' ho' href

theorem entered {r : DedupRow} (hr : r ∈ reg.orderRows (c.migrate reg q).db.sharedEvents) :
    r ∈ (c.migrate reg q).db.operationDedup := by
  obtain ⟨e', he', sc, hsc, x, hx, ref, hid, hcampaign, horder, hne, rfl⟩ := mem_orderRows_iff.1 hr
  obtain ⟨e, he, hshared, ⟨o, ho, hhashed⟩ | ⟨hkept, hsigned⟩⟩ := orderRef_migrated hlegacy q he'
  · refine (mem_migrate hlegacy.unapplied hplain q).2
      (Or.inr ⟨o, mem_legacyOrders.2 ⟨e, he, ho⟩, ?_⟩)
    obtain ⟨sc', hsc', x', hx', hid', hcampaign', haccount, -⟩ := ho.joined
    obtain rfl := reg.code_key sc hsc sc' hsc' (hid.trans (hshared.trans hid'.symm))
    obtain rfl := reg.campaign_key x hx x' hx' (hcampaign.trans hcampaign'.symm)
    obtain rfl : ref = o.hashed d := Option.some.inj (horder.symm.trans hhashed)
    rw [LegacyOrder.hashedRow, haccount, ho.sharedID, hshared]
  · have heref := hkept.symm.trans horder
    have hreceipt := hsigned ref heref hne
    refine (mem_migrate hlegacy.unapplied hplain q).2 (Or.inl ⟨Or.inr ?_, fun o ho h ↦ ?_⟩)
    · exact mem_orderRows_iff.2 ⟨e, he, sc, hsc, x, hx, ref, hid.trans hshared, hcampaign, heref,
        hne, by rw [hshared]⟩
    · have href : ref = o.reference := (DedupRow.mk.inj h).2.2
      exact hplain.signed o ho e he hreceipt (heref.trans (congrArg some href))

theorem reserved_row {e : SharedEvent} (he : e ∈ c.db.sharedEvents.rows)
    (hreceipt : e.receipt = none)
    {env : Surroundings} {a : AuthCtx} {campaignID : ℕ} {code : Bytes} {body : EventBody}
    {new : NewEvent} (hrequest : recordEvents reg env a campaignID code body = .ok new)
    (hid : new.sharedCodeID = e.sharedCodeID) (htext : trimSpace body.orderRef ≠ "")
    (horder : e.orderRef = some (utf8 (trimSpace body.orderRef))) :
    (∃ o : LegacyOrder, o.Of reg e ∧ new.orderRef = some (o.hashed d)) ∧
      ⟨a, .shared new.sharedCodeID, new.orderRef.getD []⟩ ∈
        (c.migrate reg q).db.operationDedup := by
  obtain ⟨sc, hsc, hrow, hnew⟩ := recordEvents_eq_ok hrequest
  obtain ⟨haccount, -⟩ := sharedByCampaignCode_eq_ok hsc
  have hof : LegacyOrder.Of ⟨e.id, e.sharedCodeID, sc.campaign.account, sc.campaign.chainID,
      sc.row.code, utf8 (trimSpace body.orderRef)⟩ reg e :=
    ⟨hreceipt, horder, utf8_ne_nil htext, rfl, rfl, sc.row, sc.row_mem, sc.campaign,
      sc.campaign_mem, hrow.symm.trans hid, sc.row_campaign.symm, rfl, rfl, rfl⟩
  rw [trimmed, dif_neg htext, Option.elim_some] at hnew
  refine ⟨⟨_, hof, hnew⟩, (mem_migrate hlegacy.unapplied hplain q).2
    (Or.inr ⟨_, mem_legacyOrders.2 ⟨e, he, hof⟩, ?_⟩)⟩
  rw [hnew, ← haccount, hid]
  rfl

/-- The script finds nothing to enter. -/
theorem openStore_migrate : (c.migrate reg q).openStore reg = c.migrate reg q := by
  rw [Console.openStore, Database.openStore_eq fun r hr ↦ entered hlegacy hplain q hr]

theorem starts_migrate (outcomes : List StartOutcome) :
    (c.migrate reg q).starts reg outcomes = c.migrate reg q := by
  have hstart : ∀ outcome, (c.migrate reg q).start reg outcome = c.migrate reg q := by
    intro outcome
    have hopen := openStore_migrate hlegacy hplain q
    cases outcome with
    | unopened => rfl
    | rolledBack => exact hopen
    | started q' =>
      have happlied : (c.migrate reg q).applied = true := by rw [migrate_eq hlegacy.unapplied]
      rw [Console.start, hopen, Console.runSecurityMigrations, if_pos happlied]
  induction outcomes with
  | nil => rfl
  | cons outcome outcomes ih =>
    rw [Console.starts, List.foldl_cons, hstart]
    exact ih

/-- **A start that goes well migrates.** -/
theorem migrated : Migrated reg c (c.migrate reg q) where
  events := by
    rw [rows_migrate hlegacy.unapplied q, List.forall₂_map_right_iff, List.forall₂_same]
    exact fun e he ↦ eventMigrated (hlegacy.joined e he)
  plain_events _ ho _ he' := plain_events hlegacy hplain q ho he'
  plain_dedup _ ho _ hr := plain_dedup hlegacy hplain q ho hr
  entered _ hr := entered hlegacy hplain q hr
  reserved _ he hreceipt _ _ _ _ _ _ hrequest hid htext horder :=
    reserved_row hlegacy hplain q he hreceipt hrequest hid htext horder
  settled := starts_migrate hlegacy hplain q

end Results

/-- Until a start goes well, the script at most has run. -/
theorem start_pending {c x : Console} (hx : x = c ∨ x = c.openStore reg) (outcome : StartOutcome) :
    ((x.start reg outcome = c ∨ x.start reg outcome = c.openStore reg) ∧
        ∀ q, .started q ≠ outcome) ∨
      ∃ q, x.start reg outcome = c.migrate reg q := by
  have hopen : x.openStore reg = c.openStore reg := by
    rcases hx with rfl | rfl
    · rfl
    · rw [Console.openStore, Console.openStore, openStore_openStore]
  cases outcome with
  | unopened => exact Or.inl ⟨hx, fun q h ↦ by cases h⟩
  | rolledBack => exact Or.inl ⟨Or.inr hopen, fun q h ↦ by cases h⟩
  | started q => exact Or.inr ⟨q, congrArg (·.runSecurityMigrations reg q) hopen⟩

/-- **The security migration is exact,** where no plain order is the hash of an order of the
database, however many starts fail before it goes through, and however many follow. -/
theorem security_migration_exact {c : Console} (hlegacy : Legacy reg c) (hplain : PlainApart reg c)
    {outcomes : List StartOutcome} (hstarted : ∃ q, .started q ∈ outcomes) :
    Migrated reg c (c.starts reg outcomes) := by
  have hall : ∀ x, x = c ∨ x = c.openStore reg → Migrated reg c (x.starts reg outcomes) := by
    obtain ⟨q, hq⟩ := hstarted
    induction outcomes with
    | nil => exact absurd hq List.not_mem_nil
    | cons outcome outcomes ih =>
      intro x hx
      rw [Console.starts, List.foldl_cons]
      rcases start_pending hx outcome with ⟨hpending, hne⟩ | ⟨q', hmigrated⟩
      · exact ih ((List.mem_cons.1 hq).resolve_left (hne q)) _ hpending
      · rw [hmigrated]
        have hsettled := starts_migrate hlegacy hplain q' outcomes
        rw [Console.starts] at hsettled
        rw [hsettled]
        exact migrated hlegacy hplain q'
  exact hall c (Or.inl rfl)

namespace Migration.Sample

/-- A deployment that hashes a reference as its last bytes. -/
def deployment : Deployment where
  cloudNetwork := []
  currentContractID := [67]
  quote x := x
  base64 x := x
  sha256 _ := .zero 32
  refMac b := .pad 32 b.reverse

def campaigns : List CampaignRow := [⟨1, ⟨7, .test⟩, 42, [67], 100, false⟩]

def sharedCodes : List SharedCodeRow := [⟨1, 1, ascii "SAVE", none⟩]

theorem campaign_key : ∀ c ∈ campaigns, ∀ c' ∈ campaigns, c.id = c'.id → c = c' := by
  simp [campaigns]

theorem chain_key : ∀ c ∈ campaigns, ∀ c' ∈ campaigns,
    c.contractID = deployment.currentContractID → c'.contractID = deployment.currentContractID →
      c.chainID = c'.chainID → c = c' := by
  simp [campaigns]

theorem code_key : ∀ c ∈ sharedCodes, ∀ c' ∈ sharedCodes, c.id = c'.id → c = c' := by
  simp [sharedCodes]

theorem code_name_key : ∀ c ∈ sharedCodes, ∀ c' ∈ sharedCodes, c.campaignID = c'.campaignID →
    c.code = c'.code → c = c' := by
  simp [sharedCodes]

def registry : Registry deployment :=
  ⟨[], campaigns, sharedCodes, [], campaign_key, chain_key, code_key, code_name_key⟩

/-- An event of the code. -/
def event (id : ℕ) (order : Option Bytes) (period : Option ℤ) (receipt : Option EventReceipt) :
    SharedEvent :=
  ⟨id, 1, 1, [], order, period, receipt⟩

/-- The order of an event. -/
def order (id : ℕ) (reference : Bytes) : LegacyOrder :=
  ⟨id, 1, ⟨7, .test⟩, 42, ascii "SAVE", reference⟩

def consoleOf (rows : List SharedEvent) (h : rows.Pairwise fun e e' ↦ e.id < e'.id) : Console where
  db := ⟨⟨rows, h⟩, [], [], [], []⟩
  sessions := []
  applied := false

theorem legacy_consoleOf {rows : List SharedEvent} (h : rows.Pairwise fun e e' ↦ e.id < e'.id)
    (hcode : ∀ e ∈ rows, e.sharedCodeID = 1) : Legacy registry (consoleOf rows h) where
  unapplied := rfl
  joined e he := ⟨_, List.mem_cons_self, (hcode e he).symm, _, List.mem_cons_self, rfl⟩
  dedup _ hr := absurd hr List.not_mem_nil

/-- An order recorded twice before receipts, an event without an order, and a signed event. -/
def events : List SharedEvent :=
  [event 1 (some (ascii "ORDER-42")) none none,
    event 2 (some (ascii "ORDER-42")) (some 202601) none, event 3 none none none,
    event 4 (some ((order 4 (ascii "ORDER-43")).hashed deployment)) none (some ⟨[], [], [], []⟩)]

theorem ordered_events : events.Pairwise fun e e' ↦ e.id < e'.id := by simp [events, event]

def legacy : Console := consoleOf events ordered_events

theorem plainApart_legacy : PlainApart registry legacy where
  signed := by
    have hall : ((registry.legacyOrders legacy.db.sharedEvents).all fun o ↦
        legacy.db.sharedEvents.rows.all fun e ↦
          e.receipt = none ∨ e.orderRef ≠ some o.reference) = true := by decide +kernel
    intro o ho e he hreceipt
    exact (of_decide_eq_true (List.all_eq_true.1 (List.all_eq_true.1 hall o ho) e he)).resolve_left
      hreceipt
  hashed := by
    have hall : ((registry.legacyOrders legacy.db.sharedEvents).all fun o ↦
        (registry.legacyOrders legacy.db.sharedEvents).all fun o' ↦
          o'.hashed deployment ≠ o.reference) = true := by decide +kernel
    intro o ho o' ho'
    exact of_decide_eq_true (List.all_eq_true.1 (List.all_eq_true.1 hall o ho) o' ho')

/-- The query answers in the order of the events. -/
def inOrder : QueryOrder := ⟨id, List.Perm.refl⟩

/-- A plain order, and another that is its hash. -/
def collidingEvents : List SharedEvent :=
  [event 1 (some (ascii "ORDER-42")) none none,
    event 2 (some ((order 1 (ascii "ORDER-42")).hashed deployment)) none none]

theorem ordered_collidingEvents : collidingEvents.Pairwise fun e e' ↦ e.id < e'.id := by
  simp [collidingEvents, event]

def colliding : Console := consoleOf collidingEvents ordered_collidingEvents

end Migration.Sample

theorem security_migration_exact_sample :
    Migrated Migration.Sample.registry Migration.Sample.legacy
      (Migration.Sample.legacy.starts Migration.Sample.registry
        [.rolledBack, .started Migration.Sample.inOrder, .started Migration.Sample.inOrder]) :=
  security_migration_exact (Migration.Sample.legacy_consoleOf Migration.Sample.ordered_events
      (by simp [Migration.Sample.events, Migration.Sample.event]))
    Migration.Sample.plainApart_legacy ⟨_, List.mem_cons_of_mem _ List.mem_cons_self⟩

/-- A plain order that is the hash of another order is still there, as that order's hash, and the
row of the other order is taken out. -/
theorem plain_order_of_hash :
    Legacy Migration.Sample.registry Migration.Sample.colliding ∧
      (Migration.Sample.order 1 (ascii "ORDER-42")).hashedRow Migration.Sample.deployment ∉
        (Migration.Sample.colliding.starts Migration.Sample.registry
          [.started Migration.Sample.inOrder]).db.operationDedup ∧
      ¬Migrated Migration.Sample.registry Migration.Sample.colliding
        (Migration.Sample.colliding.starts Migration.Sample.registry
          [.started Migration.Sample.inOrder]) := by
  refine ⟨Migration.Sample.legacy_consoleOf Migration.Sample.ordered_collidingEvents
    (by simp [Migration.Sample.collidingEvents, Migration.Sample.event]), ?_, fun h ↦ ?_⟩
  · decide +kernel
  · have hkept : Migration.Sample.event 1
        (some ((Migration.Sample.order 1 (ascii "ORDER-42")).hashed Migration.Sample.deployment))
          (some (-1)) none ∈ (Migration.Sample.colliding.starts Migration.Sample.registry
            [.started Migration.Sample.inOrder]).db.sharedEvents.rows := by decide +kernel
    have horder : Migration.Sample.order 2
        ((Migration.Sample.order 1 (ascii "ORDER-42")).hashed Migration.Sample.deployment) ∈
          Migration.Sample.registry.legacyOrders Migration.Sample.colliding.db.sharedEvents := by
      decide +kernel
    exact h.plain_events _ horder _ hkept rfl

end Soroticket
