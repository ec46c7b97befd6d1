import Soroticket.Cloud.Steps

/-!
# What a step enters

The entries of the service are the references it has counted, the punches, the rewards, and what
each event refers to. `Writes` is the inversion of a step for these: every step either leaves the
entries alone, gives a loyalty customer its present name, or is the transaction that records an
event or a punch, after which the request is `done`.

A request that is past its checks carries what they made of the request it arrived as (`Leads`).
-/

namespace Soroticket

open Interleaving

variable {d : Deployment} {reg : Registry d}

/-! ### References -/

theorem utf8_ne_nil {text : String} (h : text ≠ "") : utf8 text ≠ [] := by
  intro hnil
  refine h (String.utf8ByteSize_eq_zero_iff.1 ?_)
  rw [← String.size_toByteArray, ← String.toUTF8_eq_toByteArray]
  show text.toUTF8.data.size = 0
  rw [← Array.length_toList]
  exact congrArg List.length hnil

/-- The length of a present reference, in digits. -/
def referenceLen : ℕ := 64

theorem length_opaqueReference {ref : Bytes} (h : ref ≠ []) (domain : Bytes) :
    (opaqueReference d domain ref).length = referenceLen := by
  rw [opaqueReference, if_neg h, length_hexEncode, BytesN.length_bytes]
  rfl

theorem length_legacyCustomerReference {ref : Bytes} (h : ref ≠ []) (programID : ℕ) :
    (legacyCustomerReference d programID ref).length = 16 := by
  rw [legacyCustomerReference, if_neg h, length_hexEncode, List.length_take, BytesN.length_bytes]
  rfl

/-! ### Requests and their answers -/

/-- The answer of a request that was counted. -/
def Answer.success : Answer → Bool
  | recorded _ | punched .. => true
  | _ => false

namespace Place

/-- The punch of a request that passed its checks. -/
def job : Place reg → Option (PunchJob reg)
  | punchLock p | punchMigrate p | punchDedup p | punchBalance p | punchRewards p _
  | punchAccount p _ | punchIssue p _ _ | punchStore p _ _ _ | punchRelease p _
  | punchUnlock p _ => some p
  | _ => none

/-- A request whose transaction is to come. -/
def entering : Place reg → Bool
  | recordStore .. | punchStore .. => true
  | _ => false

/-- A punch whose transaction is to come. -/
def punching : Place reg → Bool
  | punchStore .. => true
  | _ => false

/-- A request that was counted. -/
def done : Place reg → Bool
  | punchRelease _ a | punchUnlock _ a | commitRelease _ a | answered a => a.success
  | _ => false

theorem Arriving.job {p : Place reg} (h : p.Arriving) : p.job = none := by
  cases p <;> trivial

theorem Arriving.done {p : Place reg} (h : p.Arriving) : p.done = false := by
  cases p <;> trivial

end Place

theorem done_afterPunch (q : PunchJob reg) (rewarding : Bool) (answer : Answer) :
    (afterPunch reg q rewarding answer).done = answer.success := by
  cases rewarding <;> rfl

theorem done_withPeriod (sc : CurrentCode reg) (period : UInt64) :
    (withPeriod reg sc period).done = false := by
  rw [withPeriod]
  split <;> rfl

/-! ### The entries -/

/-- The code of each event, and its order. -/
def EventTable.references (t : EventTable) : List (ℕ × Option Bytes) :=
  t.rows.map fun e ↦ (e.sharedCodeID, e.orderRef)

namespace EventTable

theorem references_insert (t : EventTable) (e : NewEvent) :
    (t.insert e).references = t.references ++ [(e.sharedCodeID, e.orderRef)] :=
  List.map_append

theorem references_of_rows {t t' : EventTable} {f : SharedEvent → SharedEvent}
    (hrows : t'.rows = t.rows.map f) (hcode : ∀ e, (f e).sharedCodeID = e.sharedCodeID)
    (horder : ∀ e, (f e).orderRef = e.orderRef) : t'.references = t.references := by
  rw [references, hrows, List.map_map]
  exact List.map_congr_left fun e _ ↦ Prod.ext (hcode e) (horder e)

theorem references_stamp (t : EventTable) (sharedID : ℕ) (period : UInt64) (last : ℕ) :
    (t.stamp sharedID period last).1.references = t.references := by
  refine references_of_rows (t.rows_stamp sharedID period last) (fun e ↦ ?_) fun e ↦ ?_ <;>
    split <;> rfl

end EventTable

/-- The entries are the same. -/
structure SameEntries (db db' : Database) : Prop where
  references : db'.sharedEvents.references = db.sharedEvents.references
  operationDedup : db'.operationDedup = db.operationDedup
  punches : db'.punches = db.punches
  rewards : db'.rewards = db.rewards

theorem SameEntries.refl (db : Database) : SameEntries db db := ⟨rfl, rfl, rfl, rfl⟩

namespace Database

/-- A renamed customer refers to the same orders. -/
theorem references_migrateCustomer (db : Database) (programID sharedID : ℕ)
    (legacyRef currentRef : Bytes) :
    (db.migrateCustomer programID sharedID legacyRef currentRef).sharedEvents.references =
      db.sharedEvents.references := by
  rw [migrateCustomer]
  split
  · rfl
  · refine EventTable.references_of_rows (EventTable.rows_update _ _ (id_renameEvent _ _ _))
      (fun e ↦ ?_) fun e ↦ ?_ <;> rw [renameEvent] <;> split <;> rfl

theorem operationDedup_migrateCustomer (db : Database) (programID sharedID : ℕ)
    (legacyRef currentRef : Bytes) :
    (db.migrateCustomer programID sharedID legacyRef currentRef).operationDedup =
      db.operationDedup := by
  rw [migrateCustomer]
  split <;> rfl

/-- A tally stamps events, and enters nothing. -/
theorem sameEntries_storeTally {db db' : Database} {row : TallyRow} {eventIDs : List ℕ}
    (h : db.storeTally row eventIDs = .ok db') : SameEntries db db' := by
  rw [storeTally] at h
  split at h
  · cases h
  · dsimp only at h
    split at h
    · cases h
    · obtain rfl := Except.ok.inj h
      exact ⟨db.sharedEvents.references_stamp _ _ _, rfl, rfl, rfl⟩

end Database

/-! ### What a step enters -/

/-- What a step enters. -/
inductive Writes (p : Place reg) (w : World) (p' : Place reg) (w' : World) : Prop
  | nothing (hdone : p'.done = p.done) (hdb : SameEntries w.db w'.db)
  | migrates (q : PunchJob reg) (hp : p = .punchMigrate q) (hp' : p' = .punchDedup q)
      (hdb : w'.db = w.db.migrateCustomer q.program.id q.sc.row.id q.legacyRef q.ref)
  | records (a : AuthCtx) (e : NewEvent) (hp : p = .recordStore a e)
      (hp' : p' = .answered (.recorded e.receipt)) (hstore : w.db.storeEvent a e = .ok w'.db)
  | punches (q : PunchJob reg) (plan : PunchPlan) (issued : List Bytes) (rewarding : Bool)
      (hp : p = .punchStore q plan issued rewarding)
      (hp' : p' = afterPunch reg q rewarding (.punched q.ref plan.after issued plan.receipt))
      (hstore : w.db.storePunch q plan.receipt issued = .ok w'.db)

theorem advance_writes {ch : Choice} {p p' : Place reg} {w w' : World}
    (h : advance reg ch p w = some (p', w')) : Writes p w p' w' := by
  cases p with
  | recordEvents | punch | punchDedup | punchBalance | commitSelect =>
    exact onward_elim h (fun _ _ ↦ .nothing rfl (.refl _)) fun _ _ ↦ .nothing rfl (.refl _)
  | recordStore a e =>
    refine onward_elim h (fun db hdb ↦ ?_) fun _ _ ↦ .nothing rfl (.refl _)
    exact .records a e rfl rfl (Choice.store_eq_ok hdb)
  | punchLock q => exact takeLock_elim h fun _ ↦ .nothing rfl (.refl _)
  | punchMigrate q =>
    refine onward_elim h (fun db hdb ↦ ?_) fun _ _ ↦ .nothing rfl (.refl _)
    obtain rfl := Except.ok.inj (Choice.store_eq_ok hdb)
    exact .migrates q rfl rfl rfl
  | punchRewards q before =>
    refine onward_elim h (fun plan _ ↦ .nothing ?_ (.refl _)) fun _ _ ↦ .nothing rfl (.refl _)
    show (if plan.newRewards = 0 then _ else _ : Place reg).done = _
    split <;> rfl
  | punchAccount q plan =>
    simp only [advance] at h
    split at h
    · exact takeLock_elim h fun _ ↦ .nothing rfl (.refl _)
    · exact some_elim h (.nothing rfl (.refl _))
  | punchIssue q plan signer =>
    simp only [advance] at h
    split at h
    · exact some_elim h (.nothing rfl (.refl _))
    · split at h
      · exact some_elim h (.nothing rfl (.refl _))
      · refine some_elim h (.nothing ?_ (.refl _))
        split <;> rfl
  | punchStore q plan issued rewarding =>
    refine onward_elim h (fun db hdb ↦ ?_)
      fun _ _ ↦ .nothing (done_afterPunch q rewarding _) (.refl _)
    exact .punches q plan issued rewarding rfl rfl (Choice.store_eq_ok hdb)
  | punchRelease | punchUnlock | commitRelease =>
    exact some_elim h (.nothing rfl (.refl _))
  | commitTally a campaignID code period =>
    refine onward_elim h (fun sc _ ↦ .nothing ?_ (.refl _)) fun _ _ ↦ .nothing rfl (.refl _)
    show (if period = 0 then _ else _ : Place reg).done = _
    split
    · rfl
    · exact done_withPeriod ..
  | commitBase sc => exact some_elim h (.nothing rfl (.refl _))
  | commitBatch sc base baseExists =>
    exact onward_elim h (fun _ _ ↦ .nothing (done_withPeriod ..) (.refl _))
      fun _ _ ↦ .nothing rfl (.refl _)
  | commitUnsigned sc period =>
    simp only [advance] at h
    split at h <;> exact some_elim h (.nothing rfl (.refl _))
  | commitAccount sc period =>
    simp only [advance] at h
    split at h
    · exact takeLock_elim h fun _ ↦ .nothing rfl (.refl _)
    · exact some_elim h (.nothing rfl (.refl _))
  | commitAnchor sc period signer b =>
    simp only [advance] at h
    split at h <;> exact some_elim h (.nothing rfl (.refl _))
  | commitStore sc period b txHash =>
    exact onward_elim h (fun db hstore ↦ .nothing rfl (Database.sameEntries_storeTally hstore))
      fun _ _ ↦ .nothing rfl (.refl _)
  | answered answer => exact absurd h (by simp [advance])

/-- What others do on the ledger enters nothing. -/
theorem db_outside (reg : Registry d) (tx : Tx) (w : World) : (outside reg tx w).db = w.db := by
  rw [outside]
  split <;> rfl

/-! ### Where a request comes from -/

/-- A step of a request that has passed its checks, or fails them. -/
structure Continued (p p' : Place reg) : Prop where
  arriving : ¬p'.Arriving
  job : ∀ q, p'.job = some q → p.job = some q
  event : ∀ a e, p' ≠ .recordStore a e
  store : ∀ q plan issued rewarding, p' = .punchStore q plan issued rewarding →
    (∃ before, p = .punchRewards q before ∧ issued = [] ∧ rewarding = false) ∨
      ∃ signer, p = .punchIssue q plan signer ∧ rewarding = true

theorem Continued.of_quiet {p p' : Place reg} (harriving : ¬p'.Arriving)
    (hjob : p'.job = none ∨ p'.job = p.job) (hentering : p'.entering = false) :
    Continued p p' := by
  refine ⟨harriving, fun q hq ↦ ?_, ?_, ?_⟩
  · rcases hjob with hnone | hsame
    · exact absurd (hnone.symm.trans hq) nofun
    · exact hsame.symm.trans hq
  · rintro a e rfl
    exact absurd hentering nofun
  · rintro q plan issued rewarding rfl
    exact absurd hentering nofun

theorem Continued.of_punchStore {p : Place reg} {q : PunchJob reg} {plan : PunchPlan}
    {issued : List Bytes} {rewarding : Bool} (hjob : p.job = some q)
    (hp : (∃ before, p = .punchRewards q before ∧ issued = [] ∧ rewarding = false) ∨
      ∃ signer, p = .punchIssue q plan signer ∧ rewarding = true) :
    Continued p (.punchStore q plan issued rewarding) := by
  refine ⟨not_false, fun _ h ↦ hjob.trans h, fun a e h ↦ ?_, fun _ _ _ _ heq ↦ ?_⟩
  · cases h
  · obtain ⟨rfl, rfl, rfl, rfl⟩ := Place.punchStore.inj heq
    exact hp

theorem continued_answered (p : Place reg) (answer : Answer) : Continued p (.answered answer) :=
  .of_quiet not_false (Or.inl rfl) rfl

theorem continued_withPeriod (p : Place reg) (sc : CurrentCode reg) (period : UInt64) :
    Continued p (withPeriod reg sc period) := by
  rw [withPeriod]
  split <;> exact .of_quiet not_false (Or.inl rfl) rfl

theorem continued_afterPunch {p : Place reg} {q : PunchJob reg} (hp : p.job = some q)
    (rewarding : Bool) (answer : Answer) : Continued p (afterPunch reg q rewarding answer) := by
  cases rewarding <;> exact .of_quiet not_false (Or.inr hp.symm) rfl

theorem continued_onward {α : Type} {p p' : Place reg} {x : Except Problem α}
    {stop : Problem → Place reg} {w w' : World} {next : α → Place reg × World}
    (h : onward reg x stop w next = some (p', w')) (hok : ∀ a, Continued p (next a).1)
    (hstop : ∀ problem, Continued p (stop problem)) : Continued p p' :=
  onward_elim (P := fun p' _ ↦ Continued p p') h (fun a _ ↦ hok a) fun problem _ ↦ hstop problem

theorem continued_some {p p₁ p' : Place reg} {w w' : World}
    (h : some (p₁, w) = some (p', w')) (hp₁ : Continued p p₁) : Continued p p' :=
  some_elim (P := fun p' _ ↦ Continued p p') h hp₁

theorem continued_takeLock {p p₁ p' : Place reg} {w w' : World} {k : Lock}
    (h : takeLock reg w k p₁ = some (p', w')) (hp₁ : Continued p p₁) : Continued p p' :=
  takeLock_elim (P := fun p' _ ↦ Continued p p') h fun _ ↦ hp₁

/-- What a step carries of the request. -/
inductive Carries (ch : Choice) (p p' : Place reg) : Prop
  | event (a : AuthCtx) (campaignID : ℕ) (code : Bytes) (body : EventBody) (e : NewEvent)
      (hp : p = .recordEvents a campaignID code body) (hp' : p' = .recordStore a e)
      (hrequest : recordEvents reg ch.env a campaignID code body = .ok e)
  | punch (a : AuthCtx) (id : ℕ) (body : PunchBody) (q : PunchJob reg)
      (hp : p = .punch a id body) (hp' : p' = .punchLock q)
      (hrequest : punchRequest reg ch.env a id body = .ok q)
  | same (h : Continued p p')

theorem advance_carries {ch : Choice} {p p' : Place reg} {w w' : World}
    (h : advance reg ch p w = some (p', w')) : Carries ch p p' := by
  cases p with
  | recordEvents a campaignID code body =>
    exact onward_elim (P := fun p' _ ↦ Carries ch _ p') h
      (fun e he ↦ .event a campaignID code body e rfl rfl he)
      fun _ _ ↦ .same (continued_answered ..)
  | punch a id body =>
    exact onward_elim (P := fun p' _ ↦ Carries ch _ p') h
      (fun q hq ↦ .punch a id body q rfl rfl hq) fun _ _ ↦ .same (continued_answered ..)
  | recordStore | commitSelect | commitStore =>
    exact .same (continued_onward h (fun _ ↦ .of_quiet not_false (Or.inl rfl) rfl)
      fun _ ↦ .of_quiet not_false (Or.inl rfl) rfl)
  | punchMigrate | punchDedup | punchBalance =>
    exact .same (continued_onward h (fun _ ↦ .of_quiet not_false (Or.inr rfl) rfl)
      fun _ ↦ .of_quiet not_false (Or.inr rfl) rfl)
  | punchLock q =>
    exact .same (continued_takeLock h (.of_quiet not_false (Or.inr rfl) rfl))
  | punchRewards q before =>
    refine .same (continued_onward h (fun plan ↦ ?_)
      fun _ ↦ .of_quiet not_false (Or.inr rfl) rfl)
    dsimp only
    split
    · exact .of_punchStore rfl (Or.inl ⟨before, rfl, rfl, rfl⟩)
    · exact .of_quiet not_false (Or.inr rfl) rfl
  | punchAccount q plan =>
    simp only [advance] at h
    split at h
    · exact .same (continued_takeLock h (.of_quiet not_false (Or.inr rfl) rfl))
    · exact .same (continued_some h (.of_quiet not_false (Or.inr rfl) rfl))
  | punchIssue q plan signer =>
    simp only [advance] at h
    split at h
    · exact .same (continued_some h (.of_quiet not_false (Or.inr rfl) rfl))
    · split at h
      · exact .same (continued_some h (.of_quiet not_false (Or.inr rfl) rfl))
      · refine .same (continued_some h ?_)
        split
        · exact .of_punchStore rfl (Or.inr ⟨signer, rfl, rfl⟩)
        · exact .of_quiet not_false (Or.inr rfl) rfl
  | punchStore q plan issued rewarding =>
    exact .same (continued_onward h (fun _ ↦ continued_afterPunch rfl ..)
      fun _ ↦ continued_afterPunch rfl ..)
  | punchRelease | commitBase =>
    exact .same (continued_some h (.of_quiet not_false (Or.inr rfl) rfl))
  | punchUnlock | commitRelease => exact .same (continued_some h (continued_answered ..))
  | commitTally a campaignID code period =>
    refine .same (continued_onward h (fun sc ↦ ?_) fun _ ↦ continued_answered ..)
    dsimp only
    split
    · exact .of_quiet not_false (Or.inl rfl) rfl
    · exact continued_withPeriod ..
  | commitBatch sc base baseExists =>
    exact .same (continued_onward h (fun _ ↦ continued_withPeriod ..)
      fun _ ↦ continued_answered ..)
  | commitUnsigned sc period =>
    simp only [advance] at h
    split at h <;> exact .same (continued_some h (.of_quiet not_false (Or.inl rfl) rfl))
  | commitAccount sc period =>
    simp only [advance] at h
    split at h
    · exact .same (continued_takeLock h (.of_quiet not_false (Or.inl rfl) rfl))
    · exact .same (continued_some h (.of_quiet not_false (Or.inl rfl) rfl))
  | commitAnchor sc period signer b =>
    simp only [advance] at h
    split at h <;> exact .same (continued_some h (.of_quiet not_false (Or.inl rfl) rfl))
  | answered answer => exact absurd h (by simp [advance])

/-- A request is where the request it arrived as leads. -/
structure Leads (arrival p : Place reg) : Prop where
  arriving : p.Arriving → p = arrival
  job : ∀ q, p.job = some q → ∃ id body env, arrival = .punch q.account id body ∧
    punchRequest reg env q.account id body = .ok q
  event : ∀ a e, p = .recordStore a e → ∃ campaignID code body env,
    arrival = .recordEvents a campaignID code body ∧
      recordEvents reg env a campaignID code body = .ok e

theorem Place.Arriving.leads {p : Place reg} (h : p.Arriving) : Leads p p where
  arriving _ := rfl
  job q hq := absurd (h.job.symm.trans hq) nofun
  event a e heq := by
    rw [heq] at h
    exact absurd h not_false

/-- What the checks of a punch say of it. -/
structure Checked (a : AuthCtx) (id : ℕ) (body : PunchBody) (q : PunchJob reg) : Prop where
  account : q.account = a
  mem : q.program ∈ reg.programs
  programID : q.program.id = id
  programAccount : q.program.account = a
  threshold : 0 < q.program.threshold
  customer : trimSpace body.customerRef ≠ ""
  ref : q.ref = opaqueReference d
    (a.domain ++ ascii "|loyalty:" ++ ascii (toString id) ++ ascii "|customer")
    (utf8 (trimSpace body.customerRef))
  legacyRef : q.legacyRef = legacyCustomerReference d id (utf8 (trimSpace body.customerRef))
  eventRef : q.eventRef = opaqueReference d
    (a.domain ++ ascii "|loyalty:" ++ ascii (toString id) ++ ascii "|event")
    (utf8 (trimSpace body.eventRef))

theorem programByID_eq_ok {a : AuthCtx} {id : ℕ} {program : ProgramRow} {sc : CurrentCode reg}
    (h : reg.programByID a id = .ok (program, sc)) :
    program ∈ reg.programs ∧ program.id = id ∧ program.account = a := by
  obtain ⟨program', hfind, h⟩ := bind_eq_ok.1 h
  obtain ⟨c, -, h⟩ := bind_eq_ok.1 h
  obtain ⟨row, -, h⟩ := bind_eq_ok.1 h
  obtain ⟨sc', -, h⟩ := bind_eq_ok.1 h
  obtain ⟨rfl, -⟩ := Prod.mk.inj (Except.ok.inj h)
  have hsome := orProblem_eq_ok.1 hfind
  obtain ⟨hid, haccount⟩ : program'.id = id ∧ program'.account = a := by
    simpa using List.find?_some hsome
  exact ⟨List.mem_of_find?_eq_some hsome, hid, haccount⟩

/-- The campaign of a program is the one its row names. -/
theorem campaignID_of_programByID {a : AuthCtx} {id : ℕ} {program : ProgramRow}
    {sc : CurrentCode reg} (h : reg.programByID a id = .ok (program, sc)) :
    sc.campaign.id = program.campaignID := by
  obtain ⟨program', -, h⟩ := bind_eq_ok.1 h
  obtain ⟨c, hfind, h⟩ := bind_eq_ok.1 h
  obtain ⟨row, -, h⟩ := bind_eq_ok.1 h
  obtain ⟨sc', hcurrent, h⟩ := bind_eq_ok.1 h
  obtain ⟨rfl, rfl⟩ := Prod.mk.inj (Except.ok.inj h)
  have hid : c.1.id = program'.campaignID := by
    simpa using List.find?_some (orProblem_eq_ok.1 hfind)
  rw [Registry.current] at hcurrent
  split at hcurrent
  · obtain rfl := Except.ok.inj hcurrent
    exact hid
  · exact absurd hcurrent (by simp)

theorem punchRequest_eq_ok {env : Surroundings} {a : AuthCtx} {id : ℕ} {body : PunchBody}
    {q : PunchJob reg} (h : punchRequest reg env a id body = .ok q) : Checked a id body q := by
  obtain ⟨⟨program, sc⟩, hprogram, h⟩ := bind_eq_ok.1 h
  obtain ⟨_, hthreshold, h⟩ := bind_eq_ok.1 h
  obtain ⟨_, -, h⟩ := bind_eq_ok.1 h
  obtain ⟨_, -, h⟩ := bind_eq_ok.1 h
  obtain ⟨_, hcustomer, h⟩ := bind_eq_ok.1 h
  obtain ⟨_, -, h⟩ := bind_eq_ok.1 h
  obtain ⟨count, -, h⟩ := bind_eq_ok.1 h
  obtain rfl := Except.ok.inj h
  obtain ⟨hmem, hid, haccount⟩ := programByID_eq_ok hprogram
  have hpositive : 0 < program.threshold := by
    rw [← Int64.not_le]
    exact rejectWhen_eq_ok.1 hthreshold
  exact ⟨rfl, hmem, hid, haccount, hpositive, rejectWhen_eq_ok.1 hcustomer, rfl, rfl, rfl⟩

theorem Leads.step {arrival p p' : Place reg} {ch : Choice} {w w' : World}
    (hl : Leads arrival p) (h : advance reg ch p w = some (p', w')) : Leads arrival p' := by
  cases advance_carries h with
  | event a campaignID code body e hp hp' hrequest =>
    have harrival := hl.arriving (by rw [hp]; trivial)
    rw [hp'] at *
    refine ⟨fun h ↦ absurd h not_false, fun _ hq ↦ absurd hq (Option.some_ne_none _).symm,
      fun a' e' heq ↦ ?_⟩
    obtain ⟨rfl, rfl⟩ := Place.recordStore.inj heq
    exact ⟨campaignID, code, body, ch.env, harrival.symm.trans hp, hrequest⟩
  | punch a id body q hp hp' hrequest =>
    have harrival := hl.arriving (by rw [hp]; trivial)
    rw [hp'] at *
    refine ⟨fun h ↦ absurd h not_false, fun q' hq ↦ ?_, fun _ _ heq ↦ absurd heq nofun⟩
    obtain rfl := Option.some.inj hq
    rw [(punchRequest_eq_ok hrequest).account]
    exact ⟨id, body, ch.env, harrival.symm.trans hp, hrequest⟩
  | same hc =>
    exact ⟨fun h ↦ absurd h hc.arriving, fun q hq ↦ hl.job q (hc.job q hq),
      fun a e heq ↦ absurd heq (hc.event a e)⟩

/-- Requests are where those they arrived as lead, whichever of them takes a step. -/
theorem leads_update {arrivals : ℕ → Place reg} {c : Config World (Place reg)} {i : ℕ} {ch : Choice}
    {p' : Place reg} {w : World} (hl : ∀ j, Leads (arrivals j) (c.requests j))
    (h : advance reg ch (c.requests i) c.shared = some (p', w)) (j : ℕ) :
    Leads (arrivals j) (Function.update c.requests i p' j) := by
  rcases eq_or_ne j i with rfl | hj
  · rw [Function.update_self]
    exact (hl j).step h
  · rw [Function.update_of_ne hj]
    exact hl j

end Soroticket
