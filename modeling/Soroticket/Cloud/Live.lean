import Soroticket.Cloud.Consistency
import Soroticket.Cloud.Publication
import Soroticket.Cloud.References

/-!
# The service over its whole life

The requests of `Cloud.Service`, in a service that lives: codes are registered while it runs,
campaigns archived, tallies settled, and requests die. What the ledger does is left open here. A
call of the contract may land or not, whatever the client reports; the ledger is any other
afterwards; and the transaction after a commit may fail.

`live_does` says what a step does to the tables of events and tallies, and what the request it is a
step of has in hand after it (`InHand`). A commit has a batch in hand that its transaction stamps as
it was gathered, or not at all: the transaction counts what it stamps, and what waits up to the last
event of the batch can only have become less (`Gathered`). No lock is needed for that.
-/

namespace Soroticket

open Interleaving

variable {d : Deployment} {reg : Registry d} {s : Auditor}

/-! ### The service -/

/-- What the requests share, with what of the tables changes while the service lives. -/
structure LiveState where
  world : World
  /-- The shared codes registered so far. -/
  registered : ℕ → Bool
  /-- The campaigns archived so far. -/
  archived : ℕ → Bool
  /-- The column `committed_at` of `tallies`. -/
  committedAt : ℕ → UInt64 → ℤ
  /-- The column `settled` of `tallies`. -/
  settled : ℕ → UInt64 → Bool

/-- What the surroundings decide at a step. -/
structure LiveChoice (s : Auditor) where
  choice : Choice
  honest : Honest s choice.env
  /-- The ledger after a call of the contract. -/
  ledger : ContractState
  /-- Whether the transaction after a commit goes through. -/
  indexed : Bool
  /-- Whether the request ends here, as all do that a process leaves behind. -/
  dies : Bool

/-- What happens beside the requests. -/
inductive LiveEvent where
  | ledger (chain : ContractState)
  | register (sharedID : ℕ)
  | archive (campaignID : ℕ)
  | settle (sharedID : ℕ) (period : UInt64)

section Steps

variable (reg)

/-- A request for a code that is not registered yet, or for an event of a campaign that is
archived. -/
def turnedAway (st : LiveState) : Place reg → Option Problem
  | .recordEvents a campaignID code _ =>
    match reg.sharedByCampaignCode a campaignID code with
    | .ok sc =>
      if st.registered sc.row.id = false then some ⟨404, "shared code not found"⟩
      else if st.archived sc.campaign.id then some ⟨409, "campaign is archived"⟩ else none
    | .error _ => none
  | .punch a id _ =>
    match reg.programByID a id with
    | .ok (_, sc) =>
      if st.registered sc.row.id = false then some ⟨404, "program not found"⟩
      else if st.archived sc.campaign.id then some ⟨409, "loyalty campaign is archived"⟩ else none
    | .error _ => none
  | .commitTally a campaignID code _ =>
    match reg.sharedByCampaignCode a campaignID code with
    | .ok sc =>
      if st.registered sc.row.id = false then some ⟨404, "shared code not found"⟩ else none
    | .error _ => none
  | _ => none

/-- A call of the contract for a punch. -/
def liveIssue (ch : LiveChoice s) (p : PunchJob reg) (plan : PunchPlan) (w : World) :
    Place reg × World :=
  match (List.range plan.newRewards).mapM ch.choice.genCode with
  | none => (.punchRelease p (.problem ⟨500, "secure randomness unavailable"⟩), w)
  | some codes =>
    (if ch.choice.lands then
      if ch.choice.decoded then .punchStore p plan codes true
      else .punchRelease p (.problem ⟨500,
        "reward vouchers were issued on-chain but token ids were not decoded"⟩)
    else .punchRelease p .chainError, { w with chain := ch.ledger })

/-- A call of the contract for a commit. -/
def liveAnchor (ch : LiveChoice s) (sc : CurrentCode reg) (period : UInt64) (b : Batch)
    (w : World) : Place reg × World :=
  (if ch.choice.lands then .commitStore sc period b ch.choice.txHash
    else .commitRelease sc .chainError, { w with chain := ch.ledger })

/-- The transaction of a commit. -/
def liveStore (ch : LiveChoice s) (sc : CurrentCode reg) (period : UInt64) (b : Batch)
    (txHash : Bytes) (st : LiveState) : Place reg × LiveState :=
  let row := tallyRow d.sha256 sc.row period b txHash
  match st.world.db.storeTally row b.eventIDs with
  | .error problem => (.commitRelease sc (.problem problem), st)
  | .ok db =>
    if ch.indexed then
      (.commitRelease sc (.committed period b.total b.eventIDs.length row.merkleRoot txHash),
        { st with
          world := { st.world with db }
          committedAt := Function.update st.committedAt sc.row.id
            (Function.update (st.committedAt sc.row.id) period ch.choice.env.now) })
    else (.commitRelease sc (.problem
      ⟨500, "tally committed on-chain but local indexing failed"⟩), st)

/-- One step of a request. -/
def liveAdvance (ch : LiveChoice s) (place : Place reg) (st : LiveState) :
    Option (Place reg × LiveState) :=
  if ch.dies then
    some (.answered (.problem ⟨500, "internal server error"⟩),
      { st with world := place.locks.foldl World.unlock st.world })
  else
    match turnedAway reg st place with
    | some problem => some (.answered (.problem problem), st)
    | none =>
      match place with
      | .punchIssue p plan _ =>
        let x := liveIssue reg ch p plan st.world
        some (x.1, { st with world := x.2 })
      | .commitAnchor sc period _ b =>
        let x := liveAnchor reg ch sc period b st.world
        some (x.1, { st with world := x.2 })
      | .commitStore sc period b txHash => some (liveStore reg ch sc period b txHash st)
      | place =>
        (advance reg ch.choice place st.world).map fun x ↦ (x.1, { st with world := x.2 })

end Steps

/-- What happens beside the requests. -/
def LiveEvent.run (event : LiveEvent) (st : LiveState) : LiveState :=
  match event with
  | .ledger chain => { st with world := { st.world with chain } }
  | .register sharedID => { st with registered := Function.update st.registered sharedID true }
  | .archive campaignID => { st with archived := Function.update st.archived campaignID true }
  | .settle sharedID period =>
    { st with settled :=
        Function.update st.settled sharedID (Function.update (st.settled sharedID) period true) }

/-- The service. -/
def liveService (s : Auditor) (reg : Registry d) :
    Service LiveState (Place reg) (LiveChoice s) LiveEvent where
  advance := liveAdvance reg
  outside := LiveEvent.run

/-- The tables an audit reads. -/
def LiveState.tables (reg : Registry d) (st : LiveState) : AuditTables where
  campaigns := reg.campaigns.map fun c ↦ { c with archived := c.archived || st.archived c.id }
  sharedCodes := reg.sharedCodes.filter fun sc ↦ st.registered sc.id
  tallies := st.world.db.tallies.map fun t ↦ ⟨t, st.committedAt t.sharedCodeID t.period⟩
  sharedEvents := st.world.db.sharedEvents

/-! ### What a request has in hand -/

/-- The events a batch was gathered from. What waits up to the last of them can only become
less. -/
structure Gathered (s : Auditor) (t : EventTable) (sc : CurrentCode reg) (b : Batch)
    (rows : List SharedEvent) : Prop where
  of : b.Of rows
  ne : rows ≠ []
  length_le : rows.length ≤ maxReceiptsPerTally
  published : ∀ e ∈ rows, Published s sc e
  sublist : (t.rows.filter fun e ↦
    EventTable.Stampable sc.row.id (b.eventIDs.getLastD 0) e).Sublist rows
  old : b.eventIDs.getLastD 0 < t.nextID

/-- A tally is stored as it was answered. -/
def Tallied (db : Database) (sc : CurrentCode reg) (period : UInt64) (count : Int64)
    (receiptCount : ℕ) (root : Bytes) : Prop :=
  ∃ t ∈ db.tallies, t.sharedCodeID = sc.row.id ∧ t.period = period ∧ t.count = count ∧
    t.merkleRoot = root ∧ (db.sharedEvents.stamped sc.row.id period).length = receiptCount

/-- What a request has in hand at each place. -/
def InHand (s : Auditor) (db : Database) (p : Place reg) : Prop :=
  match p with
  | .recordStore _ e => ∃ sc : CurrentCode reg, ∀ id, Published s sc (e.row id)
  | .punchAccount q plan | .punchIssue q plan _ | .punchStore q plan _ _ =>
    ∀ id, Published s q.sc ((Database.punchEvent q plan.receipt).row id)
  | .commitUnsigned _ period | .commitAccount _ period | .commitSelect _ period _ =>
    validCloudPeriod period = true
  | .commitAnchor sc period _ b | .commitStore sc period b _ =>
    validCloudPeriod period = true ∧ ∃ rows, Gathered s db.sharedEvents sc b rows
  | .commitRelease sc (.committed period count receiptCount root _) =>
    Tallied db sc period count receiptCount root
  | _ => True

/-- The code a request is for, once it is found. -/
def Place.sharedID? : Place reg → Option ℕ
  | .recordStore _ e => some e.sharedCodeID
  | .commitBase sc | .commitBatch sc _ _ | .commitUnsigned sc _ | .commitAccount sc _
  | .commitSelect sc _ _ | .commitAnchor sc _ _ _ | .commitStore sc _ _ _
  | .commitRelease sc _ => some sc.row.id
  | p => p.job.map fun q ↦ q.sc.row.id

/-- A punch is for the code of its program, and its references are texts. -/
structure PunchJob.Named (q : PunchJob reg) : Prop where
  code : q.sc.row.code = q.program.earnCode
  ref : IsText q.ref
  eventRef : IsText q.eventRef

/-- What holds of a request wherever it is. -/
structure Proceeds (s : Auditor) (st : LiveState) (p : Place reg) : Prop where
  job : ∀ q, p.job = some q → q.Named
  registered : ∀ id, p.sharedID? = some id → st.registered id = true
  hand : InHand s st.world.db p

theorem proceeds_answered (st : LiveState) (answer : Answer) :
    Proceeds s st (.answered answer : Place reg) :=
  ⟨fun q hq ↦ absurd hq.symm (Option.some_ne_none q), fun id hid ↦
    absurd hid.symm (Option.some_ne_none id), trivial⟩

/-- A step of a punch or of a commit, which stays the same. -/
theorem Proceeds.go {st st' : LiveState} {p p' : Place reg} (h : Proceeds s st p)
    (hjob : p'.job = p.job) (hid : p'.sharedID? = p.sharedID?)
    (hregistered : st'.registered = st.registered) (hhand : InHand s st'.world.db p') :
    Proceeds s st' p' :=
  ⟨fun q hq ↦ h.job q (hjob.symm.trans hq),
    fun id hq ↦ (congrFun hregistered id).trans (h.registered id (hid.symm.trans hq)), hhand⟩

theorem proceeds_arriving {p : Place reg} (h : p.Arriving) (st : LiveState) : Proceeds s st p := by
  cases p with
  | recordEvents | punch | commitTally =>
    exact ⟨fun q hq ↦ absurd hq.symm (Option.some_ne_none q), fun id hid ↦
      absurd hid.symm (Option.some_ne_none id), trivial⟩
  | _ => exact absurd h not_false

/-! ### How the tables change -/

/-- The tables of events and tallies stay, or an event is recorded, or a commit is stored. -/
inductive Grows (db db' : Database) : Prop
  | same (hevents : db'.sharedEvents = db.sharedEvents) (htallies : db'.tallies = db.tallies)
  | recorded (e : NewEvent) (hevents : db'.sharedEvents = db.sharedEvents.insert e)
    (htallies : db'.tallies = db.tallies)
  | stored (row : TallyRow) (eventIDs : List ℕ) (hstore : db.storeTally row eventIDs = .ok db')

/-- What the transaction of a commit has checked. -/
theorem Database.storeTally_checked {db db' : Database} {row : TallyRow} {eventIDs : List ℕ}
    (h : db.storeTally row eventIDs = .ok db') :
    (¬∃ t ∈ db.tallies, t.sharedCodeID = row.sharedCodeID ∧ t.period = row.period) ∧
      (db.sharedEvents.stamp row.sharedCodeID row.period (eventIDs.getLastD 0)).2 =
        eventIDs.length := by
  rw [storeTally] at h
  split at h
  · cases h
  case isFalse hfree =>
    dsimp only at h
    split at h
    · cases h
    case isFalse hcount => exact ⟨hfree, not_not.1 hcount⟩

namespace EventTable

theorem nextID_insert (t : EventTable) (e : NewEvent) : (t.insert e).nextID = t.nextID + 1 := by
  rw [nextID, insert, List.getLast?_concat]
  rfl

theorem nextID_update (t : EventTable) (f : SharedEvent → SharedEvent)
    (hf : ∀ e, (f e).id = e.id) : (t.update f hf).nextID = t.nextID := by
  rw [nextID, rows_update, List.getLast?_map, nextID]
  cases t.rows.getLast? with
  | none => rfl
  | some e => exact congrArg (· + 1) (hf e)

end EventTable

/-- A filter that a map only leaves. -/
theorem filter_map_sublist {α : Type} {f : α → α} {q : α → Bool} {l : List α}
    (h : ∀ a ∈ l, f a = a ∨ q (f a) = false) : ((l.map f).filter q).Sublist (l.filter q) := by
  induction l with
  | nil => exact .slnil
  | cons a l ih =>
    have htail := ih fun x hx ↦ h x (List.mem_cons_of_mem a hx)
    rcases h a List.mem_cons_self with hfix | hq
    · rw [List.map_cons, hfix, List.filter_cons, List.filter_cons]
      split
      · exact htail.cons_cons a
      · exact htail
    · rw [List.map_cons, List.filter_cons_of_neg (by simp [hq])]
      exact htail.trans ((List.sublist_cons_self a l).filter q)

section Grows

variable {db db' : Database} {sc : CurrentCode reg}

/-- **What waits of a batch only becomes less.** -/
theorem Gathered.grows (hgrows : Grows db db') {b : Batch} {rows : List SharedEvent}
    (h : Gathered s db.sharedEvents sc b rows) : Gathered s db'.sharedEvents sc b rows := by
  refine ⟨h.of, h.ne, h.length_le, h.published, ?_, ?_⟩
  · cases hgrows with
    | same hevents => exact hevents ▸ h.sublist
    | recorded e hevents =>
      have hnew : ([e.row db.sharedEvents.nextID].filter fun e ↦
          EventTable.Stampable sc.row.id (b.eventIDs.getLastD 0) e) = [] := by
        refine List.filter_eq_nil_iff.2 fun x hx ↦ ?_
        rw [List.mem_singleton.1 hx, decide_eq_true_iff]
        exact fun hst ↦ absurd hst.2.2 (Nat.not_le.2 h.old)
      rw [hevents, EventTable.insert, List.filter_append, hnew, List.append_nil]
      exact h.sublist
    | stored row eventIDs hstore =>
      rw [(Database.storeTally_eq_ok hstore).1, EventTable.rows_stamp]
      refine (filter_map_sublist fun e _ ↦ ?_).trans h.sublist
      split
      · exact Or.inr (decide_eq_false fun hst ↦ absurd hst.2.1 (Option.some_ne_none _))
      · exact Or.inl rfl
  · cases hgrows with
    | same hevents => exact hevents ▸ h.old
    | recorded e hevents =>
      rw [hevents, EventTable.nextID_insert]
      exact Nat.lt_succ_of_lt h.old
    | stored row eventIDs hstore =>
      rw [(Database.storeTally_eq_ok hstore).1, EventTable.stamp, EventTable.nextID_update]
      exact h.old

/-- The events of a tally stay as they are. -/
theorem stamped_grows (hgrows : Grows db db') {t : TallyRow} (ht : t ∈ db.tallies) :
    db'.sharedEvents.stamped t.sharedCodeID t.period =
      db.sharedEvents.stamped t.sharedCodeID t.period := by
  cases hgrows with
  | same hevents => rw [hevents]
  | recorded e hevents => rw [hevents, EventTable.stamped_insert]
  | stored row eventIDs hstore =>
    rw [(Database.storeTally_eq_ok hstore).1]
    refine EventTable.stamped_stamp_of_ne _ (fun heq ↦ ?_) _
    obtain ⟨hcode, hperiod⟩ := Prod.mk.inj heq
    exact (Database.storeTally_checked hstore).1 ⟨t, ht, hcode, hperiod⟩

theorem tallies_grows (hgrows : Grows db db') {t : TallyRow} (ht : t ∈ db.tallies) :
    t ∈ db'.tallies := by
  cases hgrows with
  | same hevents htallies => rwa [htallies]
  | recorded e hevents htallies => rwa [htallies]
  | stored row eventIDs hstore =>
    rw [(Database.storeTally_eq_ok hstore).2]
    exact List.mem_append_left _ ht

theorem InHand.grows (hgrows : Grows db db') {p : Place reg} (h : InHand s db p) :
    InHand s db' p := by
  have hgathered : ∀ {sc : CurrentCode reg} {b : Batch},
      (∃ rows, Gathered s db.sharedEvents sc b rows) →
        ∃ rows, Gathered s db'.sharedEvents sc b rows :=
    fun ⟨rows, h⟩ ↦ ⟨rows, h.grows hgrows⟩
  cases p with
  | commitAnchor | commitStore => exact ⟨h.1, hgathered h.2⟩
  | commitRelease sc answer =>
    cases answer with
    | committed period count receiptCount root txHash =>
      obtain ⟨t, ht, hcode, rfl, hcount, hroot, hlen⟩ := h
      refine ⟨t, tallies_grows hgrows ht, hcode, rfl, hcount, hroot, ?_⟩
      rw [← hlen, ← hcode, stamped_grows hgrows ht]
    | _ => trivial
  | _ => exact h

end Grows

/-! ### What the handlers sign -/

section Signing

variable (hd : d.Standard) (hreg : reg.WellFormed) {env : Surroundings} (henv : Honest s env)

include hd hreg henv in
theorem published_of_recordEvents {a : AuthCtx} {campaignID : ℕ} {code : Bytes} {body : EventBody}
    {e : NewEvent} (h : recordEvents reg env a campaignID code body = .ok e) :
    ∃ sc, reg.sharedByCampaignCode a campaignID code = .ok sc ∧ e.sharedCodeID = sc.row.id ∧
      ∀ id, Published s sc (e.row id) := by
  obtain ⟨sc, hsc, h⟩ := bind_eq_ok.1 h
  obtain ⟨_, -, h⟩ := bind_eq_ok.1 h
  obtain ⟨_, -, h⟩ := bind_eq_ok.1 h
  obtain ⟨count, -, h⟩ := bind_eq_ok.1 h
  obtain ⟨_, -, h⟩ := bind_eq_ok.1 h
  obtain ⟨_, -, h⟩ := bind_eq_ok.1 h
  obtain ⟨_, -, h⟩ := bind_eq_ok.1 h
  obtain ⟨receipt, hsign, h⟩ := bind_eq_ok.1 h
  obtain ⟨_, -, h⟩ := bind_eq_ok.1 h
  obtain rfl := Except.ok.inj h
  obtain ⟨-, hcode⟩ := sharedByCampaignCode_eq_ok hsc
  subst hcode
  exact ⟨sc, hsc, rfl, published_row hd hreg henv (isText_opaqueReference _ _)
    (isText_opaqueReference _ _) ⟨isText_utf8 _, isText_utf8 _, isText_utf8 _⟩ rfl
    (orProblem_eq_ok.1 hsign)⟩

theorem earnCode_of_programByID {a : AuthCtx} {id : ℕ} {program : ProgramRow}
    {sc : CurrentCode reg} (h : reg.programByID a id = .ok (program, sc)) :
    sc.row.code = program.earnCode := by
  obtain ⟨program', -, h⟩ := bind_eq_ok.1 h
  obtain ⟨c, -, h⟩ := bind_eq_ok.1 h
  obtain ⟨row, hrow, h⟩ := bind_eq_ok.1 h
  obtain ⟨sc', hsc, h⟩ := bind_eq_ok.1 h
  obtain ⟨rfl, rfl⟩ := Prod.mk.inj (Except.ok.inj h)
  have hcode := List.find?_some (orProblem_eq_ok.1 hrow)
  rw [decide_eq_true_iff] at hcode
  rw [Registry.current] at hsc
  split at hsc
  · rw [← Except.ok.inj hsc]
    exact hcode.2
  · cases hsc

theorem named_of_punchRequest {a : AuthCtx} {id : ℕ} {body : PunchBody} {q : PunchJob reg}
    (h : punchRequest reg env a id body = .ok q) : q.Named := by
  have hcode := earnCode_of_programByID (programByID_of_punchRequest h)
  have hchecked := punchRequest_eq_ok h
  refine ⟨hcode, ?_, ?_⟩
  · rw [hchecked.ref]
    exact isText_opaqueReference _ _
  · rw [hchecked.eventRef]
    exact isText_opaqueReference _ _

include hd hreg henv in
theorem published_of_planPunch {db : Database} {q : PunchJob reg} {before : Int64}
    {plan : PunchPlan} (hq : q.Named) (h : db.planPunch env q before = .ok plan) (id : ℕ) :
    Published s q.sc ((Database.punchEvent q plan.receipt).row id) := by
  obtain ⟨_, -, h⟩ := bind_eq_ok.1 h
  obtain ⟨receipt, hsign, h⟩ := bind_eq_ok.1 h
  obtain ⟨_, -, h⟩ := bind_eq_ok.1 h
  obtain rfl := Except.ok.inj h
  have hsign := orProblem_eq_ok.1 hsign
  rw [← hq.code] at hsign
  refine published_row (e := Database.punchEvent q receipt) hd hreg henv hq.ref hq.eventRef ?_ rfl
    hsign id
  exact ⟨isText_nil, isText_nil, isText_nil⟩

end Signing

/-! ### What a step does -/

/-- What a step does to the tables, and where its request goes on. -/
inductive LiveDoes (s : Auditor) (p : Place reg) (st : LiveState) (p' : Place reg)
    (st' : LiveState) : Prop
  | quiet (hevents : st'.world.db.sharedEvents = st.world.db.sharedEvents)
    (htallies : st'.world.db.tallies = st.world.db.tallies)
    (hregistered : st'.registered = st.registered) (hproceeds : Proceeds s st' p')
  | recorded (e : NewEvent) (sc : CurrentCode reg) (hpublished : ∀ id, Published s sc (e.row id))
    (hevents : st'.world.db.sharedEvents = st.world.db.sharedEvents.insert e)
    (htallies : st'.world.db.tallies = st.world.db.tallies)
    (hregistered : st'.registered = st.registered) (hproceeds : Proceeds s st' p')
  | stored (sc : CurrentCode reg) (period : UInt64) (b : Batch) (txHash : Bytes)
    (rows : List SharedEvent) (db : Database) (hid : st.registered sc.row.id = true)
    (hperiod : validCloudPeriod period = true)
    (hgathered : Gathered s st.world.db.sharedEvents sc b rows)
    (hstore : st.world.db.storeTally (tallyRow d.sha256 sc.row period b txHash) b.eventIDs = .ok db)
    (hdb : st'.world.db = db) (hregistered : st'.registered = st.registered)
    (hp' : p' = .commitRelease sc (.committed period b.total b.eventIDs.length
      (tallyRow d.sha256 sc.row period b txHash).merkleRoot txHash))

theorem db_unlock (ks : List Lock) (w : World) : (ks.foldl World.unlock w).db = w.db := by
  induction ks generalizing w with
  | nil => rfl
  | cons k ks ih => exact ih _

/-- Renaming customers leaves signed events alone. -/
theorem update_of_signed {t : EventTable} {f : SharedEvent → SharedEvent}
    (hid : ∀ e, (f e).id = e.id) (hf : Renames f) (h : ∀ e ∈ t.rows, e.receipt.isSome) :
    t.update f hid = t := by
  refine EventTable.ext ?_
  rw [EventTable.rows_update]
  refine (List.map_congr_left fun e he ↦ ?_).trans (List.map_id t.rows)
  exact (hf.spec e).2.2.2.2 (h e he)

/-- What a commit gathers. -/
theorem exists_gathered {w : World} {sc : CurrentCode reg} {b : Batch} {read : ℕ}
    (hread : readBatch (w.db.selectRows sc.row.id read) = some b) (hne : b.total ≠ 0)
    (hevents : ∀ e ∈ w.db.sharedEvents.rows, ∃ sc : CurrentCode reg, Published s sc e) :
    ∃ rows, Gathered s w.db.sharedEvents sc b rows := by
  obtain ⟨rows, rest, hpending, hb, hnil, hlen⟩ := selected_of_read hread hne
  have hsigned : w.AllSigned sc := by
    intro e he _ _
    obtain ⟨sc', hpub⟩ := hevents e he
    exact hpub.isSome
  have hmem : ∀ e ∈ rows, e ∈ w.db.sharedEvents.rows ∧ e.sharedCodeID = sc.row.id := by
    intro e he
    have hin : e ∈ w.pending sc := hpending ▸ List.mem_append_left rest he
    obtain ⟨hrows, hwaits⟩ := List.mem_filter.1 hin
    exact ⟨hrows, (of_decide_eq_true hwaits).1⟩
  refine ⟨rows, hb, hnil, hlen, fun e he ↦ ?_, ?_, ?_⟩
  · obtain ⟨sc', hpub⟩ := hevents e (hmem e he).1
    exact hpub.eq_of_code (hmem e he).2 ▸ hpub
  · rw [stampable_of_selected hpending hb hnil hsigned]
  · obtain ⟨init, last, rfl⟩ : ∃ init last, rows = init ++ [last] :=
      ⟨_, _, (List.dropLast_append_getLast hnil).symm⟩
    rw [hb.eventIDs, List.map_append, List.map_singleton, List.getLastD_concat]
    exact EventTable.lt_nextID _ (hmem last (List.mem_append_right _ List.mem_cons_self)).1

section Does

variable {st : LiveState} {p p' : Place reg} {w' : World}

/-- What an ordinary step does: it changes the world and nothing else. -/
abbrev Moves (s : Auditor) (p : Place reg) (st : LiveState) (p' : Place reg) (w' : World) : Prop :=
  LiveDoes s p st p' { st with world := w' }

/-- A step that leaves the database as it is. -/
theorem Moves.keep (hdb : w'.db = st.world.db) (h : Proceeds s { st with world := w' } p') :
    Moves s p st p' w' :=
  .quiet (congrArg Database.sharedEvents hdb) (congrArg Database.tallies hdb) rfl h

/-- A punch goes on to a place where it has nothing in hand but itself. -/
theorem Proceeds.punch (h : Proceeds s st p) (w' : World) (hjob : p'.job = p.job)
    (hid : p'.sharedID? = p.sharedID?) (hhand : InHand s w'.db p') :
    Proceeds s { st with world := w' } p' :=
  h.go hjob hid rfl hhand

theorem proceeds_afterPunch {q : PunchJob reg} {plan : PunchPlan} {issued : List Bytes}
    {rewarding : Bool} (h : Proceeds s st (.punchStore q plan issued rewarding)) (w' : World)
    (answer : Answer) : Proceeds s { st with world := w' } (afterPunch reg q rewarding answer) := by
  cases rewarding with
  | false => exact h.go rfl rfl rfl trivial
  | true => exact h.go rfl rfl rfl trivial

/-- A code found by a request that is not turned away is registered. -/
theorem registered_of_turnedAway {a : AuthCtx} {campaignID : ℕ} {code : Bytes}
    {sc : CurrentCode reg} (hsc : reg.sharedByCampaignCode a campaignID code = .ok sc) :
    (∀ body, turnedAway reg st (.recordEvents a campaignID code body) = none →
      st.registered sc.row.id = true) ∧
    ∀ period, turnedAway reg st (.commitTally a campaignID code period) = none →
      st.registered sc.row.id = true := by
  constructor
  · intro body h
    simp only [turnedAway, hsc] at h
    split at h
    · cases h
    case isFalse hid => exact Bool.eq_true_of_not_eq_false hid
  · intro period h
    simp only [turnedAway, hsc] at h
    split at h
    · cases h
    case isFalse hid => exact Bool.eq_true_of_not_eq_false hid

theorem registered_of_punch {a : AuthCtx} {id : ℕ} {body : PunchBody} {program : ProgramRow}
    {sc : CurrentCode reg} (hsc : reg.programByID a id = .ok (program, sc))
    (h : turnedAway reg st (.punch a id body) = none) : st.registered sc.row.id = true := by
  simp only [turnedAway, hsc] at h
  split at h
  · cases h
  case isFalse hid => exact Bool.eq_true_of_not_eq_false hid

/-- A commit that has its period goes on, or ends. -/
theorem proceeds_withPeriod {sc : CurrentCode reg} (hid : st.registered sc.row.id = true)
    (period : UInt64) : Proceeds s st (withPeriod reg sc period) := by
  rw [withPeriod]
  split
  case isTrue hperiod =>
    refine ⟨fun q hq ↦ absurd hq.symm (Option.some_ne_none q), fun id hq ↦ ?_, hperiod⟩
    rw [← Option.some.inj hq]
    exact hid
  case isFalse => exact proceeds_answered st _

section Advance

variable (hd : d.Standard) (hreg : reg.WellFormed) {ch : LiveChoice s}
  (hevents : ∀ e ∈ st.world.db.sharedEvents.rows, ∃ sc : CurrentCode reg, Published s sc e)

include hd hreg hevents in
/-- The inversion of an ordinary step. -/
theorem does_of_advance (hp : Proceeds s st p) (haway : turnedAway reg st p = none)
    (hanchor : ∀ sc period signer b, p ≠ .commitAnchor sc period signer b)
    (hstore : ∀ sc period b txHash, p ≠ .commitStore sc period b txHash)
    (hissue : ∀ q plan signer, p ≠ .punchIssue q plan signer)
    (h : advance reg ch.choice p st.world = some (p', w')) :
    Moves s p st p' w' := by
  cases p with
  | recordEvents a campaignID code body =>
    refine onward_elim h (fun e he ↦ ?_) fun problem _ ↦ .keep rfl (proceeds_answered _ _)
    obtain ⟨sc, hsc, hcode, hpub⟩ := published_of_recordEvents hd hreg ch.honest he
    have hid := (registered_of_turnedAway hsc).1 body haway
    refine .keep rfl ⟨fun q hq ↦ absurd hq.symm (Option.some_ne_none q), fun id hq ↦ ?_, sc, hpub⟩
    rw [← Option.some.inj hq, hcode]
    exact hid
  | recordStore a e =>
    refine onward_elim h (fun db hdb ↦ ?_) fun problem _ ↦ .keep rfl (proceeds_answered _ _)
    obtain ⟨hinsert, htallies⟩ := Database.storeEvent_eq_ok (Choice.store_eq_ok hdb)
    obtain ⟨sc, hpub⟩ := hp.hand
    exact .recorded e sc hpub hinsert htallies rfl (proceeds_answered _ _)
  | punch a id body =>
    refine onward_elim h (fun q hq ↦ ?_) fun problem _ ↦ .keep rfl (proceeds_answered _ _)
    have hid := registered_of_punch (programByID_of_punchRequest hq) haway
    refine .keep rfl ⟨fun q' hq' ↦ ?_, fun id hq' ↦ ?_, trivial⟩
    · rw [← Option.some.inj hq']
      exact named_of_punchRequest hq
    · rw [← Option.some.inj hq']
      exact hid
  | punchLock q => exact takeLock_elim h fun _ ↦ .keep rfl (hp.punch _ rfl rfl trivial)
  | punchMigrate q =>
    refine onward_elim h (fun db hdb ↦ ?_) fun problem _ ↦ .keep rfl (hp.punch _ rfl rfl trivial)
    obtain ⟨f, hf, hren, hupdate, htallies⟩ := st.world.db.migrateCustomer_spec q.program.id
      q.sc.row.id q.legacyRef q.ref
    obtain rfl := Except.ok.inj (Choice.store_eq_ok hdb)
    rw [update_of_signed hf hren fun e he ↦ (hevents e he).choose_spec.isSome] at hupdate
    exact .quiet hupdate htallies rfl (hp.punch _ rfl rfl trivial)
  | punchDedup q | punchBalance q =>
    exact onward_elim h (fun _ _ ↦ .keep rfl (hp.punch _ rfl rfl trivial))
      fun problem _ ↦ .keep rfl (hp.punch _ rfl rfl trivial)
  | punchRewards q before =>
    refine onward_elim h (fun plan hplan ↦ .keep rfl ?_)
      fun problem _ ↦ .keep rfl (hp.punch _ rfl rfl trivial)
    have hpub := published_of_planPunch hd hreg ch.honest (hp.job q rfl) hplan
    show Proceeds s _ (if plan.newRewards = 0 then _ else _)
    split
    · exact hp.punch _ rfl rfl hpub
    · exact hp.punch _ rfl rfl hpub
  | punchAccount q plan =>
    simp only [advance] at h
    split at h
    · exact takeLock_elim h fun _ ↦ .keep rfl (hp.punch _ rfl rfl hp.hand)
    · exact some_elim h (.keep rfl (hp.punch _ rfl rfl trivial))
  | punchIssue q plan signer => exact absurd rfl (hissue q plan signer)
  | punchStore q plan issued rewarding =>
    refine onward_elim h (fun db hdb ↦ ?_)
      fun problem _ ↦ .keep rfl (proceeds_afterPunch hp _ _)
    obtain ⟨hinsert, htallies⟩ := Database.storePunch_eq_ok (Choice.store_eq_ok hdb)
    exact .recorded _ q.sc hp.hand hinsert htallies rfl (proceeds_afterPunch hp _ _)
  | punchRelease q answer => exact some_elim h (.keep rfl (hp.punch _ rfl rfl trivial))
  | punchUnlock q answer => exact some_elim h (.keep rfl (proceeds_answered _ _))
  | commitTally a campaignID code period =>
    refine onward_elim h (fun sc hsc ↦ .keep rfl ?_) fun problem _ ↦
      .keep rfl (proceeds_answered _ _)
    have hid := (registered_of_turnedAway hsc).2 period haway
    show Proceeds s _ (if period = 0 then _ else _)
    split
    · refine ⟨fun q hq ↦ absurd hq.symm (Option.some_ne_none q), fun id hq ↦ ?_, trivial⟩
      rw [← Option.some.inj hq]
      exact hid
    · exact proceeds_withPeriod hid period
  | commitBase sc => exact some_elim h (.keep rfl (hp.go rfl rfl rfl trivial))
  | commitBatch sc base baseExists =>
    exact onward_elim h
      (fun period _ ↦ .keep rfl (proceeds_withPeriod (hp.registered _ rfl) period))
      fun problem _ ↦ .keep rfl (proceeds_answered _ _)
  | commitUnsigned sc period =>
    simp only [advance] at h
    split at h
    · exact some_elim h (.keep rfl (hp.go rfl rfl rfl hp.hand))
    · exact some_elim h (.keep rfl (proceeds_answered _ _))
  | commitAccount sc period =>
    simp only [advance] at h
    split at h
    · exact takeLock_elim h fun _ ↦ .keep rfl (hp.go rfl rfl rfl hp.hand)
    · exact some_elim h (.keep rfl (proceeds_answered _ _))
  | commitSelect sc period signer =>
    refine onward_elim h (fun b hb ↦ .keep rfl (hp.go rfl rfl rfl ?_))
      fun problem _ ↦ .keep rfl (hp.go rfl rfl rfl trivial)
    obtain ⟨hread, hne⟩ := gatherBatch_eq_ok hb
    exact ⟨hp.hand, exists_gathered hread hne hevents⟩
  | commitAnchor sc period signer b => exact absurd rfl (hanchor sc period signer b)
  | commitStore sc period b txHash => exact absurd rfl (hstore sc period b txHash)
  | commitRelease sc answer => exact some_elim h (.keep rfl (proceeds_answered _ _))
  | answered answer => exact absurd h.symm (Option.some_ne_none _)

include hd hreg hevents in
/-- **The inversion of a step.** -/
theorem live_does {st' : LiveState} (hp : Proceeds s st p)
    (h : liveAdvance reg ch p st = some (p', st')) : LiveDoes s p st p' st' := by
  unfold liveAdvance at h
  split at h
  case isTrue =>
    obtain ⟨rfl, rfl⟩ := Prod.mk.inj (Option.some.inj h)
    exact Moves.keep (db_unlock _ _) (proceeds_answered _ _)
  case isFalse =>
    split at h
    case h_1 problem _ =>
      obtain ⟨rfl, rfl⟩ := Prod.mk.inj (Option.some.inj h)
      exact .quiet rfl rfl rfl (proceeds_answered _ _)
    case h_2 haway =>
      split at h
      case h_1 _ q plan signer =>
        obtain ⟨rfl, rfl⟩ := Prod.mk.inj (Option.some.inj h)
        rw [liveIssue]
        split
        · exact Moves.keep rfl (hp.punch _ rfl rfl trivial)
        · refine Moves.keep rfl ?_
          split
          · split
            · exact hp.punch _ rfl rfl hp.hand
            · exact hp.punch _ rfl rfl trivial
          · exact hp.punch _ rfl rfl trivial
      case h_2 _ sc period signer b =>
        obtain ⟨rfl, rfl⟩ := Prod.mk.inj (Option.some.inj h)
        refine Moves.keep rfl ?_
        rw [liveAnchor]
        split
        · exact hp.go rfl rfl rfl hp.hand
        · exact hp.go rfl rfl rfl trivial
      case h_3 _ sc period b txHash =>
        obtain ⟨rfl, rfl⟩ := Prod.mk.inj (Option.some.inj h)
        obtain ⟨hperiod, rows, hgathered⟩ := hp.hand
        split
        · exact .quiet rfl rfl rfl (hp.go rfl rfl rfl trivial)
        case h_2 db hstore =>
          split
          · exact .stored sc period b txHash rows db (hp.registered _ rfl) hperiod hgathered hstore
              rfl rfl rfl
          · exact .quiet rfl rfl rfl (hp.go rfl rfl rfl trivial)
      case h_4 hissue hanchor hstore =>
        obtain ⟨⟨p₁, w₁⟩, hstep, hmap⟩ := Option.map_eq_some_iff.1 h
        obtain ⟨rfl, rfl⟩ := Prod.mk.inj hmap
        exact does_of_advance hd hreg hevents hp haway hanchor hstore hissue hstep

end Advance

end Does

/-! ### The tables of a service that lives -/

/-- The tables account for everything: every event is published; every tally is of a registered
code, in a valid period, and backed by the events stamped with it; no period of a code has two; and
no event is stamped without one. And every request is where it can go on. -/
structure WellKept (s : Auditor) (c : Config LiveState (Place reg)) : Prop where
  events : ∀ e ∈ c.shared.world.db.sharedEvents.rows, ∃ sc : CurrentCode reg, Published s sc e
  backed : ∀ t ∈ c.shared.world.db.tallies, ∃ sc : CurrentCode reg, t.sharedCodeID = sc.row.id ∧
    c.shared.registered sc.row.id = true ∧ validCloudPeriod t.period = true ∧
    Backed s sc t (c.shared.world.db.sharedEvents.stamped t.sharedCodeID t.period)
  unique : ∀ t ∈ c.shared.world.db.tallies, ∀ t' ∈ c.shared.world.db.tallies,
    t.sharedCodeID = t'.sharedCodeID → t.period = t'.period → t = t'
  stamped : ∀ e ∈ c.shared.world.db.sharedEvents.rows, ∀ q, e.committedPeriod = some q →
    ∃ t ∈ c.shared.world.db.tallies, t.sharedCodeID = e.sharedCodeID ∧ (t.period.toNat : ℤ) = q
  proceeds : ∀ i, Proceeds s c.shared (c.requests i)

/-- A new deployment: no event, no tally, and requests that have just arrived. -/
structure Fresh (c : Config LiveState (Place reg)) : Prop where
  db : c.shared.world.db = Database.empty
  arriving : ∀ i, (c.requests i).Arriving

theorem Fresh.wellKept {c : Config LiveState (Place reg)} (h : Fresh c) : WellKept s c where
  events e he := by
    rw [h.db] at he
    exact absurd he List.not_mem_nil
  backed t ht := by
    rw [h.db] at ht
    exact absurd ht List.not_mem_nil
  unique t ht := by
    rw [h.db] at ht
    exact absurd ht List.not_mem_nil
  stamped e he := by
    rw [h.db] at he
    exact absurd he List.not_mem_nil
  proceeds i := proceeds_arriving (h.arriving i) c.shared

/-! ### A step keeps them so -/

theorem Proceeds.grows {st st' : LiveState} {p : Place reg} (h : Proceeds s st p)
    (hgrows : Grows st.world.db st'.world.db)
    (hregistered : ∀ id, st.registered id = true → st'.registered id = true) : Proceeds s st' p :=
  ⟨h.job, fun id hid ↦ hregistered id (h.registered id hid), h.hand.grows hgrows⟩

/-- How a step changes the tables. -/
theorem LiveDoes.grows {p p' : Place reg} {st st' : LiveState} (h : LiveDoes s p st p' st') :
    Grows st.world.db st'.world.db ∧ st'.registered = st.registered := by
  cases h with
  | quiet hevents htallies hregistered => exact ⟨.same hevents htallies, hregistered⟩
  | recorded e sc hpublished hevents htallies hregistered =>
    exact ⟨.recorded e hevents htallies, hregistered⟩
  | stored sc period b txHash rows db hid hperiod hgathered hstore hdb hregistered =>
    exact ⟨.stored _ _ (hdb ▸ hstore), hregistered⟩

section Stored

variable {db db' : Database} {sc : CurrentCode reg} {period : UInt64} {b : Batch} {txHash : Bytes}
  {rows : List SharedEvent}

/-- **What the transaction of a commit stamps is what its batch was gathered from**: it is part of
it, and as many. -/
theorem Gathered.stampable (h : Gathered s db.sharedEvents sc b rows)
    (hstore : db.storeTally (tallyRow d.sha256 sc.row period b txHash) b.eventIDs = .ok db') :
    (db.sharedEvents.rows.filter fun e ↦
      EventTable.Stampable sc.row.id (b.eventIDs.getLastD 0) e) = rows := by
  refine h.sublist.eq_of_length ?_
  have hcount := (Database.storeTally_checked hstore).2
  rw [EventTable.stamp, List.countP_eq_length_filter] at hcount
  refine hcount.trans ?_
  rw [h.of.eventIDs, List.length_map]

/-- The events of the new tally. -/
theorem Gathered.stamped (h : Gathered s db.sharedEvents sc b rows)
    (hstore : db.storeTally (tallyRow d.sha256 sc.row period b txHash) b.eventIDs = .ok db')
    (hnone : db.sharedEvents.stamped sc.row.id period = []) :
    db'.sharedEvents.stamped sc.row.id period = rows.map (SharedEvent.stamp period) := by
  rw [(Database.storeTally_eq_ok hstore).1]
  refine (EventTable.stamped_stamp _ hnone _).trans ?_
  rw [h.stampable hstore]

theorem eventTotal_stamp (rows : List SharedEvent) (period : UInt64) :
    eventTotal (rows.map (SharedEvent.stamp period)) = eventTotal rows := by
  rw [eventTotal, List.map_map]
  rfl

/-- The new tally is backed. -/
theorem Gathered.backed (h : Gathered s db.sharedEvents sc b rows) :
    Backed s sc (tallyRow d.sha256 sc.row period b txHash)
      (rows.map (SharedEvent.stamp period)) := by
  have hcounted : Counted rows := fun e he ↦
    ⟨(h.published e he).count_pos, (h.published e he).count⟩
  constructor
  · simpa using h.ne
  · simpa using h.length_le
  · intro e he
    obtain ⟨x, hx, rfl⟩ := List.mem_map.1 he
    exact (h.published x hx).stamp period
  · rw [eventTotal_stamp]
    exact h.of.total_eq hcounted h.length_le
  · refine ⟨b.leaves, ?_, rfl⟩
    rw [← h.of.leaves, List.map_map]
    rfl

end Stored

section Keeps

variable {c : Config LiveState (Place reg)} {db : Database} {sc : CurrentCode reg}
  {period : UInt64} {b : Batch} {txHash : Bytes} {rows : List SharedEvent}

/-- A period of a code without a tally has no events. -/
theorem WellKept.stamped_eq_nil (hc : WellKept s c)
    (hfree : ¬∃ t ∈ c.shared.world.db.tallies, t.sharedCodeID = sc.row.id ∧ t.period = period) :
    c.shared.world.db.sharedEvents.stamped sc.row.id period = [] := by
  refine List.filter_eq_nil_iff.2 fun e he ↦ ?_
  rw [decide_eq_true_iff]
  rintro ⟨hcode, hperiod⟩
  obtain ⟨t, ht, htcode, htperiod⟩ := hc.stamped e he _ hperiod
  exact hfree ⟨t, ht, htcode.trans hcode, UInt64.toNat_inj.1 (Int.ofNat_inj.1 htperiod)⟩

/-- The tables after the transaction of a commit. -/
theorem WellKept.stamped_stored (hc : WellKept s c)
    (hgathered : Gathered s c.shared.world.db.sharedEvents sc b rows)
    (hstore : c.shared.world.db.storeTally (tallyRow d.sha256 sc.row period b txHash) b.eventIDs =
      .ok db) :
    db.sharedEvents.stamped sc.row.id period = rows.map (SharedEvent.stamp period) :=
  hgathered.stamped hstore (hc.stamped_eq_nil (Database.storeTally_checked hstore).1)

/-- What a step leaves in the tables is accounted for. -/
theorem WellKept.tables {p p' : Place reg} {st : LiveState} {requests : ℕ → Place reg}
    (hc : WellKept s c) (h : LiveDoes s p c.shared p' st)
    (hproceeds : ∀ i, Proceeds s st (requests i)) : WellKept s ⟨st, requests⟩ := by
  obtain ⟨hgrows, hregistered⟩ := h.grows
  -- a tally that was there is backed as it was
  have hold : ∀ t ∈ c.shared.world.db.tallies, ∃ sc : CurrentCode reg,
      t.sharedCodeID = sc.row.id ∧ st.registered sc.row.id = true ∧
        validCloudPeriod t.period = true ∧
        Backed s sc t (st.world.db.sharedEvents.stamped t.sharedCodeID t.period) := by
    intro t ht
    rw [stamped_grows hgrows ht, hregistered]
    exact hc.backed t ht
  cases h with
  | quiet hevents htallies =>
    refine ⟨hevents ▸ hc.events, htallies ▸ hold, htallies ▸ hc.unique, ?_, hproceeds⟩
    rw [hevents, htallies]
    exact hc.stamped
  | recorded e sc hpublished hevents htallies =>
    refine ⟨fun x hx ↦ ?_, htallies ▸ hold, htallies ▸ hc.unique, fun x hx q hq ↦ ?_, hproceeds⟩
    · rw [hevents] at hx
      rcases EventTable.mem_insert.1 hx with hx | rfl
      · exact hc.events x hx
      · exact ⟨sc, hpublished _⟩
    · rw [hevents] at hx
      rw [htallies]
      rcases EventTable.mem_insert.1 hx with hx | rfl
      · exact hc.stamped x hx q hq
      · exact absurd hq.symm (Option.some_ne_none q)
  | stored sc period b txHash rows db hid hperiod hgathered hstore hdb =>
    subst hdb
    obtain ⟨hevents, htallies⟩ := Database.storeTally_eq_ok hstore
    have hfree := (Database.storeTally_checked hstore).1
    refine ⟨fun x hx ↦ ?_, fun t ht ↦ ?_, fun t ht t' ht' hcode hperiod' ↦ ?_, fun x hx q hq ↦ ?_,
      hproceeds⟩
    · rw [hevents, EventTable.rows_stamp] at hx
      obtain ⟨e, he, rfl⟩ := List.mem_map.1 hx
      obtain ⟨sc', hpub⟩ := hc.events e he
      split
      · exact ⟨sc', hpub.stamp _⟩
      · exact ⟨sc', hpub⟩
    · rw [htallies] at ht
      rcases List.mem_append.1 ht with ht | ht
      · exact hold t ht
      · obtain rfl := List.mem_singleton.1 ht
        refine ⟨sc, rfl, hregistered ▸ hid, hperiod, ?_⟩
        rw [show (tallyRow d.sha256 sc.row period b txHash).sharedCodeID = sc.row.id from rfl,
          show (tallyRow d.sha256 sc.row period b txHash).period = period from rfl,
          hc.stamped_stored hgathered hstore]
        exact hgathered.backed
    · rw [htallies] at ht ht'
      rcases List.mem_append.1 ht with ht | ht <;> rcases List.mem_append.1 ht' with ht' | ht'
      · exact hc.unique t ht t' ht' hcode hperiod'
      · obtain rfl := List.mem_singleton.1 ht'
        exact absurd ⟨t, ht, hcode, hperiod'⟩ hfree
      · obtain rfl := List.mem_singleton.1 ht
        exact absurd ⟨t', ht', hcode.symm, hperiod'.symm⟩ hfree
      · exact (List.mem_singleton.1 ht).trans (List.mem_singleton.1 ht').symm
    · rw [hevents, EventTable.rows_stamp] at hx
      rw [htallies]
      obtain ⟨e, he, rfl⟩ := List.mem_map.1 hx
      split at hq
      case isTrue hst =>
        refine ⟨_, List.mem_append_right _ List.mem_cons_self, ?_, Option.some.inj hq⟩
        rw [if_pos hst]
        exact hst.1.symm
      case isFalse hst =>
        obtain ⟨t, ht, hcode, hperiod'⟩ := hc.stamped e he q hq
        refine ⟨t, List.mem_append_left _ ht, ?_, hperiod'⟩
        rw [if_neg hst]
        exact hcode

/-- **A step keeps the tables accounted for.** -/
theorem WellKept.advance (hd : d.Standard) (hreg : reg.WellFormed) (hc : WellKept s c) {i : ℕ}
    {ch : LiveChoice s} {p : Place reg} {st : LiveState}
    (h : liveAdvance reg ch (c.requests i) c.shared = some (p, st)) :
    WellKept s ⟨st, Function.update c.requests i p⟩ := by
  have hdoes := live_does hd hreg hc.events (hc.proceeds i) h
  obtain ⟨hgrows, hregistered⟩ := hdoes.grows
  refine hc.tables hdoes fun j ↦ ?_
  rcases eq_or_ne j i with rfl | hne
  · rw [Function.update_self]
    cases hdoes with
    | quiet _ _ _ hproceeds => exact hproceeds
    | recorded e sc _ _ _ _ hproceeds => exact hproceeds
    | stored sc period b txHash rows db hid hperiod hgathered hstore hdb _ hp' =>
      subst hp' hdb
      refine ⟨fun q hq ↦ absurd hq.symm (Option.some_ne_none q), fun id hq ↦ ?_, ?_⟩
      · rw [← Option.some.inj hq, hregistered]
        exact hid
      · refine ⟨tallyRow d.sha256 sc.row period b txHash, ?_, rfl, rfl, rfl, rfl, ?_⟩
        · rw [(Database.storeTally_eq_ok hstore).2]
          exact List.mem_append_right _ List.mem_cons_self
        · rw [hc.stamped_stored hgathered hstore, hgathered.of.eventIDs, List.length_map,
            List.length_map]
  · rw [Function.update_of_ne hne]
    exact (hc.proceeds j).grows hgrows fun id hid ↦ by rwa [hregistered]

/-- What happens beside the requests changes no event and no tally, and registers codes. -/
theorem LiveEvent.run_spec (event : LiveEvent) (st : LiveState) :
    (event.run st).world.db = st.world.db ∧
      ∀ id, st.registered id = true → (event.run st).registered id = true := by
  cases event with
  | ledger | archive | settle => exact ⟨rfl, fun _ h ↦ h⟩
  | register sharedID =>
    refine ⟨rfl, fun id hid ↦ ?_⟩
    show Function.update st.registered sharedID true id = true
    rcases eq_or_ne id sharedID with rfl | hne
    · rw [Function.update_self]
    · rw [Function.update_of_ne hne]
      exact hid

theorem WellKept.outside (hc : WellKept s c) (event : LiveEvent) :
    WellKept s ⟨event.run c.shared, c.requests⟩ := by
  obtain ⟨hdb, hregistered⟩ := event.run_spec c.shared
  have hgrows : Grows c.shared.world.db (event.run c.shared).world.db :=
    .same (congrArg _ hdb) (congrArg _ hdb)
  refine ⟨?_, ?_, ?_, ?_, fun i ↦ (hc.proceeds i).grows hgrows hregistered⟩
  · rw [hdb]
    exact hc.events
  · rw [hdb]
    intro t ht
    obtain ⟨sc, hcode, hid, hrest⟩ := hc.backed t ht
    exact ⟨sc, hcode, hregistered _ hid, hrest⟩
  · rw [hdb]
    exact hc.unique
  · rw [hdb]
    exact hc.stamped

end Keeps

/-! ### Whole lives -/

/-- The configuration after the first turns. -/
abbrev liveAfter (init : Config LiveState (Place reg))
    (turns : List (Turn (LiveChoice s) LiveEvent)) (n : ℕ) : Config LiveState (Place reg) :=
  (liveService s reg).after init turns n

section Turns

variable {init : Config LiveState (Place reg)} {turns : List (Turn (LiveChoice s) LiveEvent)}
  (hd : d.Standard) (hreg : reg.WellFormed) (hinit : Fresh init)

include hd hreg hinit

/-- **The tables of a service that lives are accounted for**, whatever it has been through. -/
theorem Fresh.wellKept_after (turns : List (Turn (LiveChoice s) LiveEvent)) (n : ℕ) :
    WellKept s (liveAfter init turns n) :=
  Service.serve_induction hinit.wellKept (fun _ _ _ _ _ hc h ↦ hc.advance hd hreg h)
    (fun _ event hc ↦ hc.outside event) (turns.take n)

/-- **A tally stays**, with its events as they are, and its code registered. -/
theorem Fresh.tally_le {k l : ℕ} (hkl : k ≤ l) {t : TallyRow}
    (ht : t ∈ (liveAfter init turns k).shared.world.db.tallies) :
    t ∈ (liveAfter init turns l).shared.world.db.tallies ∧
      (liveAfter init turns l).shared.world.db.sharedEvents.stamped t.sharedCodeID t.period =
        (liveAfter init turns k).shared.world.db.sharedEvents.stamped t.sharedCodeID t.period := by
  induction l, hkl using Nat.le_induction with
  | base => exact ⟨ht, rfl⟩
  | succ l _ ih =>
    obtain ⟨hmem, hstamped⟩ := ih
    have hgrows : Grows (liveAfter init turns l).shared.world.db
        (liveAfter init turns (l + 1)).shared.world.db := by
      have hc := hinit.wellKept_after hd hreg turns l
      show Grows _ ((liveService s reg).after init turns (l + 1)).shared.world.db
      rcases (liveService s reg).after_succ_cases init turns l with
        hpass | ⟨i, ch, p, st, hstep, hturn⟩ | ⟨event, hturn⟩
      · rw [hpass]
        exact .same rfl rfl
      · rw [hturn]
        exact (live_does hd hreg hc.events (hc.proceeds i) hstep).grows.1
      · rw [hturn]
        have hdb := (event.run_spec (liveAfter init turns l).shared).1
        exact .same (congrArg _ hdb) (congrArg _ hdb)
    exact ⟨tallies_grows hgrows hmem, (stamped_grows hgrows hmem).trans hstamped⟩

end Turns

end Soroticket
