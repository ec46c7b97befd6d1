import Mathlib.Data.List.Dedup
import Soroticket.Cloud.Entries

/-!
# Business references

An order of a shared code and an event of a loyalty program are business references. A request
refers to at most one, by its text as it is trimmed; the tables keep its keyed hash, and
`operation_dedup` a row for it, so that it is not counted again. The row determines the reference
where the hash has no collision (`BusinessReference.row_inj`).

What a request enters when it is counted is said of the request it arrived as (`Commits`): its
event, the row of its reference, which was not there before, and its punch. No other step enters
anything (`advance_commits`). The script that runs when the server starts enters the references of
events (`Database.openStore`), which is nothing new where they are all there (`openStore_eq`).
-/

namespace Soroticket

open Interleaving

variable {d : Deployment} {reg : Registry d}

/-! ### References -/

/-- The text of a reference. -/
abbrev ReferenceText := {text : String // text ≠ ""}

/-- The text of a request's reference, if it has one once it is trimmed. -/
def trimmed (text : String) : Option ReferenceText :=
  if h : trimSpace text = "" then none else some ⟨trimSpace text, h⟩

/-- An order of a shared code, or an event of a loyalty program. -/
inductive BusinessReference (reg : Registry d) where
  | order (sc : CurrentCode reg) (text : ReferenceText)
  | event (a : AuthCtx) (programID : ℕ) (text : ReferenceText)

namespace BusinessReference

def account : BusinessReference reg → AuthCtx
  | order sc _ => sc.campaign.account
  | event a _ _ => a

def scope : BusinessReference reg → DedupScope
  | order sc _ => .shared sc.row.id
  | event _ programID _ => .loyalty programID

def text : BusinessReference reg → ReferenceText
  | order _ text | event _ _ text => text

/-- What a reference is hashed with, so that its hash is its own. -/
def domain : BusinessReference reg → Bytes
  | order sc _ => sc.campaign.account.domain ++ ascii "|campaign:" ++
      ascii (toString sc.campaign.chainID.toNat) ++ ascii "|code:" ++ sc.row.code ++ ascii "|order"
  | event a programID _ =>
    a.domain ++ ascii "|loyalty:" ++ ascii (toString programID) ++ ascii "|event"

/-- The text a reference is hashed as. -/
def material (b : BusinessReference reg) : Bytes := b.domain ++ 0 :: utf8 b.text

/-- A reference as the tables keep it. -/
def reference (b : BusinessReference reg) : Bytes := opaqueReference d b.domain (utf8 b.text)

/-- The row of a reference in `operation_dedup`. -/
def row (b : BusinessReference reg) : DedupRow := ⟨b.account, b.scope, b.reference⟩

theorem reference_eq (b : BusinessReference reg) :
    b.reference = hexEncode (d.refMac b.material).bytes :=
  if_neg (utf8_ne_nil b.text.2)

theorem reference_ne_nil (b : BusinessReference reg) : b.reference ≠ [] := by
  intro hnil
  have hlen : b.reference.length = referenceLen := length_opaqueReference (utf8_ne_nil b.text.2) _
  rw [hnil] at hlen
  exact absurd hlen (by decide)

end BusinessReference

theorem utf8_inj {text text' : String} (h : utf8 text = utf8 text') : text = text' := by
  have harray : text.toUTF8.data = text'.toUTF8.data := Array.toList_inj.1 h
  exact String.toByteArray_inj.1 (ByteArray.ext harray)

/-- **A row determines its reference,** where the hash has no collision. -/
theorem BusinessReference.row_inj {M : Set Bytes} (hinj : Set.InjOn d.refMac M)
    {b b' : BusinessReference reg} (hb : b.material ∈ M) (hb' : b'.material ∈ M)
    (h : b.row = b'.row) : b = b' := by
  obtain ⟨haccount, hscope, href⟩ := DedupRow.mk.inj h
  have hmaterial : b.material = b'.material := by
    rw [reference_eq, reference_eq] at href
    exact hinj hb hb' (BytesN.ext (hexEncode_inj href))
  cases b with
  | order sc text =>
    cases b' with
    | order sc' text' =>
      obtain rfl := CurrentCode.eq_of_id (DedupScope.shared.inj hscope)
      have htext := (List.cons.inj (List.append_cancel_left hmaterial)).2
      exact congrArg _ (Subtype.ext (utf8_inj htext))
    | event => exact absurd hscope nofun
  | event a programID text =>
    cases b' with
    | order => exact absurd hscope nofun
    | event a' programID' text' =>
      obtain rfl : a = a' := haccount
      obtain rfl := DedupScope.loyalty.inj hscope
      have htext := (List.cons.inj (List.append_cancel_left hmaterial)).2
      exact congrArg _ (Subtype.ext (utf8_inj htext))

/-! ### What a request refers to -/

namespace Place

/-- What a request refers to. -/
def business : Place reg → Option (BusinessReference reg)
  | recordEvents a campaignID code body => do
    let sc ← (reg.sharedByCampaignCode a campaignID code).toOption
    let text ← trimmed body.orderRef
    return .order sc text
  | punch a id body => (trimmed body.eventRef).map (.event a id)
  | _ => none

/-- The code and the order of the event a request asks to record. -/
def entry : Place reg → Option (ℕ × Option Bytes)
  | recordEvents a campaignID code body =>
    (reg.sharedByCampaignCode a campaignID code).toOption.map fun sc ↦ (sc.row.id,
      some ((trimmed body.orderRef).elim [] fun text ↦ (BusinessReference.order sc text).reference))
  | punch a id _ => (reg.programByID a id).toOption.map fun x ↦ (x.2.row.id, none)
  | _ => none

/-- The program whose card a request asks to punch. -/
def card : Place reg → Option ℕ
  | punch _ id _ => some id
  | _ => none

end Place

/-- The reference a handler makes of a text. -/
theorem opaqueReference_trimmed (domain : Bytes) (text : String) :
    opaqueReference d domain (utf8 (trimSpace text)) =
      (trimmed text).elim [] fun t ↦ opaqueReference d domain (utf8 t) := by
  rw [trimmed]
  split
  case isTrue h =>
    rw [h]
    rfl
  case isFalse => rfl

theorem sharedByCampaignCode_eq_ok {a : AuthCtx} {campaignID : ℕ} {code : Bytes}
    {sc : CurrentCode reg} (h : reg.sharedByCampaignCode a campaignID code = .ok sc) :
    sc.campaign.account = a ∧ sc.row.code = code := by
  simp only [Registry.sharedByCampaignCode] at h
  split at h
  case h_1 row c hrow hc =>
    rw [Registry.current] at h
    split at h
    · obtain rfl := Except.ok.inj h
      have hrow := List.find?_some hrow
      have hc := List.find?_some hc
      exact ⟨(of_decide_eq_true hc).2, (of_decide_eq_true hrow).2⟩
    · cases h
  · cases h

theorem recordEvents_eq_ok {env : Surroundings} {a : AuthCtx} {campaignID : ℕ} {code : Bytes}
    {body : EventBody} {e : NewEvent} (h : recordEvents reg env a campaignID code body = .ok e) :
    ∃ sc, reg.sharedByCampaignCode a campaignID code = .ok sc ∧ e.sharedCodeID = sc.row.id ∧
      e.orderRef = some ((trimmed body.orderRef).elim [] fun text ↦
        (BusinessReference.order sc text).reference) := by
  obtain ⟨sc, hsc, h⟩ := bind_eq_ok.1 h
  obtain ⟨_, -, h⟩ := bind_eq_ok.1 h
  obtain ⟨_, -, h⟩ := bind_eq_ok.1 h
  obtain ⟨count, -, h⟩ := bind_eq_ok.1 h
  obtain ⟨_, -, h⟩ := bind_eq_ok.1 h
  obtain ⟨_, -, h⟩ := bind_eq_ok.1 h
  obtain ⟨_, -, h⟩ := bind_eq_ok.1 h
  obtain ⟨receipt, -, h⟩ := bind_eq_ok.1 h
  obtain ⟨_, -, h⟩ := bind_eq_ok.1 h
  obtain rfl := Except.ok.inj h
  refine ⟨sc, hsc, rfl, ?_⟩
  obtain ⟨rfl, rfl⟩ := sharedByCampaignCode_eq_ok hsc
  exact congrArg some (opaqueReference_trimmed _ _)

theorem programByID_of_punchRequest {env : Surroundings} {a : AuthCtx} {id : ℕ} {body : PunchBody}
    {q : PunchJob reg} (h : punchRequest reg env a id body = .ok q) :
    reg.programByID a id = .ok (q.program, q.sc) := by
  obtain ⟨⟨program, sc⟩, hprogram, h⟩ := bind_eq_ok.1 h
  obtain ⟨_, -, h⟩ := bind_eq_ok.1 h
  obtain ⟨_, -, h⟩ := bind_eq_ok.1 h
  obtain ⟨_, -, h⟩ := bind_eq_ok.1 h
  obtain ⟨_, -, h⟩ := bind_eq_ok.1 h
  obtain ⟨_, -, h⟩ := bind_eq_ok.1 h
  obtain ⟨count, -, h⟩ := bind_eq_ok.1 h
  obtain rfl := Except.ok.inj h
  exact hprogram

/-! ### Reserving a reference -/

/-- A row of `operation_dedup` is the row of what a request refers to, if anything. -/
structure DedupRow.StandsFor (row : DedupRow) (b? : Option (BusinessReference reg)) : Prop where
  some : ∀ b, b? = some b → b.row = row
  none : b? = none → row.reference = []

namespace DedupRow.StandsFor

variable {row : DedupRow} {b? : Option (BusinessReference reg)}

theorem mem_iff (h : row.StandsFor b?) (rows : List DedupRow) :
    (row.reference ≠ [] ∧ row ∈ rows) ↔ ∃ b, b? = Option.some b ∧ b.row ∈ rows := by
  constructor
  · rintro ⟨href, hmem⟩
    cases hb : b? with
    | none => exact absurd (h.none hb) href
    | some b => exact ⟨b, rfl, (h.some b hb).symm ▸ hmem⟩
  · rintro ⟨b, hb, hmem⟩
    rw [← h.some b hb]
    exact ⟨b.reference_ne_nil, hmem⟩

/-- A reference is reserved where it has no row. -/
theorem reserveReference_eq (h : row.StandsFor b?) (db : Database) (problem : Problem) :
    db.reserveReference row problem =
      if ∃ b, b? = Option.some b ∧ b.row ∈ db.operationDedup then .error problem
      else .ok { db with
        operationDedup := db.operationDedup ++ (b?.map BusinessReference.row).toList } := by
  by_cases hex : ∃ b, b? = Option.some b ∧ b.row ∈ db.operationDedup
  · obtain ⟨href, hmem⟩ := (h.mem_iff _).2 hex
    rw [if_pos hex, Database.reserveReference, if_neg href, if_pos hmem]
  · rw [if_neg hex, Database.reserveReference]
    cases hb : b? with
    | none =>
      rw [if_pos (h.none hb)]
      show _ = Except.ok { db with operationDedup := db.operationDedup ++ [] }
      rw [List.append_nil]
    | some b =>
      have href : b.row.reference ≠ [] := b.reference_ne_nil
      rw [← h.some b hb, if_neg href, if_neg fun hmem ↦ hex ⟨b, hb, hmem⟩]
      rfl

theorem reserved (h : row.StandsFor b?) {db db' : Database} {problem : Problem}
    (hres : db.reserveReference row problem = .ok db') :
    (∀ b, b? = Option.some b → b.row ∉ db.operationDedup) ∧ db' = { db with
      operationDedup := db.operationDedup ++ (b?.map BusinessReference.row).toList } := by
  rw [h.reserveReference_eq] at hres
  split at hres
  · exact absurd hres nofun
  case isFalse hnew => exact ⟨fun b hb hmem ↦ hnew ⟨b, hb, hmem⟩, (Except.ok.inj hres).symm⟩

end DedupRow.StandsFor

/-- What a request that is counted enters. -/
structure Commits (arrival : Place reg) (db db' : Database) : Prop where
  events : db'.sharedEvents.references.map some =
    db.sharedEvents.references.map some ++ [arrival.entry]
  fresh : ∀ b, arrival.business = some b → b.row ∉ db.operationDedup
  dedup : db'.operationDedup =
    db.operationDedup ++ (arrival.business.map BusinessReference.row).toList
  punches : db'.punches.map (·.programID) = db.punches.map (·.programID) ++ arrival.card.toList

/-- A request whose transaction is to come, and what its transaction makes of the database. -/
def Place.transaction (db : Database) : Place reg → Option (Except Problem Database)
  | recordStore a e => some (db.storeEvent a e)
  | punchStore q plan issued _ => some (db.storePunch q plan.receipt issued)
  | _ => none

/-- What becomes of a request whose reference is looked up next in `operation_dedup`. -/
def Place.lookup (db : Database) : Place reg → Option (Except Problem Unit)
  | punchDedup q => some (db.checkEventRef q.account q.program.id q.eventRef)
  | p => (p.transaction db).map (Except.map fun _ ↦ ())

section Transactions

variable {arrival : Place reg} {db db' : Database}

/-- The row of an event is the row of the order it was recorded with. -/
theorem Leads.event_row {a : AuthCtx} {e : NewEvent} (hl : Leads arrival (.recordStore a e)) :
    arrival.entry = some (e.sharedCodeID, e.orderRef) ∧ arrival.card = none ∧
      DedupRow.StandsFor ⟨a, .shared e.sharedCodeID, e.orderRef.getD []⟩ arrival.business := by
  obtain ⟨campaignID, code, body, env, rfl, hrequest⟩ := hl.event a e rfl
  obtain ⟨sc, hsc, hid, horder⟩ := recordEvents_eq_ok hrequest
  obtain ⟨haccount, -⟩ := sharedByCampaignCode_eq_ok hsc
  refine ⟨?_, rfl, ?_⟩
  · rw [Place.entry, hsc, hid, horder]
    rfl
  · have hbusiness : (Place.recordEvents a campaignID code body : Place reg).business =
        (trimmed body.orderRef).map (.order sc) := by
      rw [Place.business, hsc]
      cases trimmed body.orderRef <;> rfl
    rw [hbusiness, hid, horder, Option.getD_some, ← haccount]
    cases htext : trimmed body.orderRef with
    | none => exact ⟨nofun, fun _ ↦ rfl⟩
    | some text =>
      refine ⟨fun b hb ↦ ?_, nofun⟩
      obtain rfl := Option.some.inj hb
      rfl

/-- The row of a punch is the row of the event it was made for. -/
theorem Leads.punch_row {p : Place reg} {q : PunchJob reg} (hl : Leads arrival p)
    (hq : p.job = some q) :
    arrival.entry = some (q.sc.row.id, none) ∧ arrival.card = some q.program.id ∧
      DedupRow.StandsFor ⟨q.account, .loyalty q.program.id, q.eventRef⟩ arrival.business := by
  obtain ⟨id, body, env, rfl, hrequest⟩ := hl.job q hq
  have hchecked := punchRequest_eq_ok hrequest
  have hprogram := programByID_of_punchRequest hrequest
  obtain rfl := hchecked.programID
  refine ⟨?_, rfl, ?_⟩
  · rw [Place.entry, hprogram]
    rfl
  · rw [hchecked.eventRef, opaqueReference_trimmed, Place.business]
    cases htext : trimmed body.eventRef with
    | none => exact ⟨nofun, fun _ ↦ rfl⟩
    | some text =>
      refine ⟨fun b hb ↦ ?_, nofun⟩
      obtain rfl := Option.some.inj hb
      rfl

/-- A transaction commits what its request asked for. -/
theorem Leads.commits {p : Place reg} (hl : Leads arrival p)
    (h : p.transaction db = some (.ok db')) : Commits arrival db db' := by
  cases p with
  | recordStore a e =>
    obtain ⟨hentry, hcard, hrow⟩ := hl.event_row
    obtain ⟨db₁, hres, hins⟩ := bind_eq_ok.1 (Option.some.inj h)
    obtain ⟨hfresh, rfl⟩ := hrow.reserved hres
    obtain rfl := Except.ok.inj hins
    refine ⟨?_, hfresh, rfl, ?_⟩
    · rw [EventTable.references_insert, List.map_append, hentry]
      rfl
    · rw [hcard]
      exact (List.append_nil _).symm
  | punchStore q plan issued rewarding =>
    obtain ⟨hentry, hcard, hrow⟩ := hl.punch_row rfl
    obtain ⟨db₁, hres, hins⟩ := bind_eq_ok.1 (Option.some.inj h)
    obtain ⟨hfresh, rfl⟩ := hrow.reserved hres
    obtain rfl := Except.ok.inj hins
    refine ⟨?_, hfresh, rfl, ?_⟩
    · rw [EventTable.references_insert, List.map_append, hentry]
      rfl
    · rw [hcard, List.map_append]
      rfl
  | _ => exact absurd h nofun

/-- A request goes on where its reference has no row. -/
theorem Leads.lookup_eq_ok_iff {p : Place reg} (hl : Leads arrival p)
    {result : Except Problem Unit} (h : p.lookup db = some result) :
    result = .ok () ↔ ¬∃ b, arrival.business = some b ∧ b.row ∈ db.operationDedup := by
  cases p with
  | recordStore a e =>
    obtain ⟨-, -, hrow⟩ := hl.event_row
    rw [← Option.some.inj h, Database.storeEvent, hrow.reserveReference_eq]
    split
    case isTrue hmem => exact iff_of_false nofun (not_not_intro hmem)
    case isFalse hnone => exact iff_of_true rfl hnone
  | punchStore q plan issued rewarding =>
    obtain ⟨-, -, hrow⟩ := hl.punch_row rfl
    rw [← Option.some.inj h, Database.storePunch, hrow.reserveReference_eq]
    split
    case isTrue hmem => exact iff_of_false nofun (not_not_intro hmem)
    case isFalse hnone => exact iff_of_true rfl hnone
  | punchDedup q =>
    obtain ⟨-, -, hrow⟩ := hl.punch_row rfl
    rw [← Option.some.inj h, Database.checkEventRef, rejectWhen_eq_ok, ← hrow.mem_iff]
  | _ => exact absurd h nofun

end Transactions

/-! ### Steps -/

/-- Nothing is entered. -/
structure Keeps (db db' : Database) : Prop where
  events : db'.sharedEvents.references = db.sharedEvents.references
  dedup : db'.operationDedup = db.operationDedup
  punches : db'.punches.map (·.programID) = db.punches.map (·.programID)

theorem SameEntries.keeps {db db' : Database} (h : SameEntries db db') : Keeps db db' :=
  ⟨h.references, h.operationDedup, congrArg _ h.punches⟩

/-- A renamed customer keeps its punches. -/
theorem keeps_migrateCustomer (db : Database) (programID sharedID : ℕ)
    (legacyRef currentRef : Bytes) :
    Keeps db (db.migrateCustomer programID sharedID legacyRef currentRef) := by
  refine ⟨db.references_migrateCustomer .., db.operationDedup_migrateCustomer .., ?_⟩
  rw [Database.migrateCustomer]
  split
  · rfl
  · show (db.punches.map _).map _ = _
    rw [List.map_map]
    refine List.map_congr_left fun p _ ↦ ?_
    show PunchRow.programID (if _ then _ else _) = _
    split <;> rfl

/-- **What a request enters.** It enters nothing, or it is counted and enters what it asked for. -/
theorem advance_commits {arrival p p' : Place reg} {ch : Choice} {w w' : World}
    (hl : Leads arrival p) (h : advance reg ch p w = some (p', w')) :
    (p'.done = p.done ∧ Keeps w.db w'.db) ∨
      (p.done = false ∧ p'.done = true ∧ Commits arrival w.db w'.db) := by
  cases advance_writes h with
  | nothing hdone hdb => exact Or.inl ⟨hdone, hdb.keeps⟩
  | migrates q hp hp' hdb =>
    rw [hp, hp', hdb]
    exact Or.inl ⟨rfl, keeps_migrateCustomer ..⟩
  | records a e hp hp' hstore =>
    subst hp hp'
    exact Or.inr ⟨rfl, rfl, hl.commits (congrArg some hstore)⟩
  | punches q plan issued rewarding hp hp' hstore =>
    subst hp hp'
    exact Or.inr ⟨rfl, done_afterPunch .., hl.commits (congrArg some hstore)⟩

/-! ### The start-up script -/

/-- The rows the script finds in the events: one for each order of a code. -/
def Registry.orderRows (reg : Registry d) (t : EventTable) : List DedupRow :=
  (t.rows.flatMap fun e ↦
    (reg.sharedCodes.filter fun sc ↦ sc.id = e.sharedCodeID).flatMap fun sc ↦
      (reg.campaigns.filter fun c ↦ c.id = sc.campaignID).flatMap fun c ↦
        match e.orderRef with
        | none => []
        | some ref => if ref = [] then [] else [⟨c.account, .shared e.sharedCodeID, ref⟩]).dedup

namespace Database

/-- `INSERT OR IGNORE` a row into `operation_dedup`. -/
def insertOrIgnore (db : Database) (row : DedupRow) : Database :=
  if row ∈ db.operationDedup then db
  else { db with operationDedup := db.operationDedup ++ [row] }

/-- What the schema script of `openStore` does to a database that has the tables. -/
def openStore (reg : Registry d) (db : Database) : Database :=
  (reg.orderRows db.sharedEvents).foldl insertOrIgnore db

/-- The script enters nothing new where the orders are all there. -/
theorem openStore_eq {db : Database}
    (h : ∀ row ∈ reg.orderRows db.sharedEvents, row ∈ db.operationDedup) :
    db.openStore reg = db := by
  rw [openStore]
  generalize reg.orderRows db.sharedEvents = rows at h
  induction rows with
  | nil => rfl
  | cons row rows ih =>
    rw [List.foldl_cons, insertOrIgnore, if_pos (h row List.mem_cons_self)]
    exact ih fun row' hrow' ↦ h row' (List.mem_cons_of_mem _ hrow')

end Database

/-- What the script finds was an event of a code, with an order. -/
theorem mem_orderRows {t : EventTable} {row : DedupRow} (h : row ∈ reg.orderRows t) :
    ∃ sc ∈ reg.sharedCodes, ∃ c ∈ reg.campaigns, ∃ ref, c.id = sc.campaignID ∧ ref ≠ [] ∧
      (sc.id, some ref) ∈ t.references ∧ row = ⟨c.account, .shared sc.id, ref⟩ := by
  obtain ⟨e, he, h⟩ := List.mem_flatMap.1 (List.mem_dedup.1 h)
  obtain ⟨sc, hsc, h⟩ := List.mem_flatMap.1 h
  obtain ⟨c, hc, h⟩ := List.mem_flatMap.1 h
  obtain ⟨hsc, hid⟩ := List.mem_filter.1 hsc
  obtain ⟨hc, hcampaign⟩ := List.mem_filter.1 hc
  have hid := of_decide_eq_true hid
  cases horder : e.orderRef with
  | none =>
    rw [horder] at h
    exact absurd h List.not_mem_nil
  | some ref =>
    rw [horder] at h
    dsimp only at h
    split at h
    · exact absurd h List.not_mem_nil
    case isFalse href =>
      refine ⟨sc, hsc, c, hc, ref, of_decide_eq_true hcampaign, href, ?_, ?_⟩
      · rw [hid, ← horder]
        exact List.mem_map_of_mem he
      · rw [List.mem_singleton.1 h, hid]

end Soroticket
