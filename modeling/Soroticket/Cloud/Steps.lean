import Soroticket.Cloud.Service

/-!
# What a step does to the books

The books are what the database and the ledger say of anchored events: the ledger has a commitment
for a period of a code; the database has a row for it, and the events stamped with it.

`Does` is the inversion of a step for these: every step either leaves the books alone, records an
event, renames a customer in unsigned events, or is one of the five steps of a commit that matter,
from its check for unsigned events to its transaction. No proof after this module unfolds a step.
-/

namespace Soroticket

open Interleaving

variable {d : Deployment} {reg : Registry d}

/-! ### Commitments on the ledger -/

/-- A call changes the commitments of the campaign it commits to, and no other. -/
theorem Effect.tally_of_ne {env : Env} {call : Call} {v : Value} {s s' : Storage}
    {evs : List Event} (h : Effect env call v s s' evs) {c : UInt64}
    (hcall : call.commitsTo ≠ some c) (code : Bytes) (period : UInt64) :
    s'.tally (c, code, period) = s.tally (c, code, period) := by
  cases h with
  | commitTally hauth hcamp howner hshared hrule hfree =>
    refine Function.update_of_ne (fun heq ↦ hcall ?_) _ _
    rw [Call.commitsTo, (Prod.mk.inj heq).1]
  | issueUnique hauth hcamp howner htime hne hbatch hminted hsupply hmints => rw [hmints.frame]
  | unchanged | createCampaign | addDelegate | removeDelegate | redeemUnique | registerShared
  | settle => rfl

/-- The commitment of a period of a code. -/
def World.commitment (w : World) (sc : CurrentCode reg) (period : UInt64) :
    Option TallyCommitment :=
  w.chain.storage.tally (sc.campaign.chainID, sc.row.code, period)

/-- A call that commits to no campaign of the service leaves the commitments alone. -/
theorem commitment_of_foreign {w : World} {tx : Tx} {v : Value} {chain : ContractState}
    (h : tx.exec w.chain = .ok (v, chain)) (hforeign : Foreign reg tx.call) (sc : CurrentCode reg)
    (period : UInt64) : { w with chain }.commitment sc period = w.commitment sc period := by
  obtain ⟨evs, heff, -⟩ := exec_effect h
  exact heff.tally_of_ne (hforeign _ sc.campaign_mem sc.current) _ _

/-- The books are the same. -/
structure SameBooks (reg : Registry d) (w w' : World) : Prop where
  events : w'.db.sharedEvents = w.db.sharedEvents
  tallies : w'.db.tallies = w.db.tallies
  commitment : ∀ (sc : CurrentCode reg) (period : UInt64),
    w'.commitment sc period = w.commitment sc period

theorem SameBooks.refl (w : World) : SameBooks reg w w := ⟨rfl, rfl, fun _ _ ↦ rfl⟩

/-- Others leave the books alone. -/
theorem sameBooks_outside (reg : Registry d) (tx : Tx) (w : World) :
    SameBooks reg w (outside reg tx w) := by
  rw [outside]
  split
  case isTrue hforeign =>
    rcases applyTx_cases Tx.exec w.chain tx with ⟨v, chain, hexec, happ⟩ | ⟨-, happ⟩
    · rw [happ]
      exact ⟨rfl, rfl, commitment_of_foreign hexec hforeign⟩
    · rw [happ]
      exact SameBooks.refl w
  case isFalse => exact SameBooks.refl w

/-- A call that landed ran. -/
theorem Choice.submit_eq_some {ch : Choice} {tx : Tx} {w : World} {chain : ContractState}
    (h : ch.submit tx w = some chain) : ∃ v, tx.exec w.chain = .ok (v, chain) := by
  rw [submit] at h
  split at h
  case h_1 v chain' hexec =>
    split at h
    · exact ⟨v, (Option.some.inj h) ▸ hexec⟩
    · exact absurd h (by simp)
  case h_2 => exact absurd h (by simp)

/-! ### Transactions -/

theorem Choice.store_eq_ok {ch : Choice} {x : Except Problem Database} {message : String}
    {db : Database} (h : ch.store x message = .ok db) : x = .ok db := by
  obtain ⟨db', hx, hstored⟩ := bind_eq_ok.1 h
  split at hstored
  · exact hx.trans hstored
  · exact absurd hstored (by simp)

/-- A reference is entered where it is new. -/
theorem Database.reserveReference_cases {db db' : Database} {row : DedupRow} {problem : Problem}
    (h : db.reserveReference row problem = .ok db') :
    (row.reference = [] ∧ db' = db) ∨ (row.reference ≠ [] ∧ row ∉ db.operationDedup ∧
      db' = { db with operationDedup := db.operationDedup ++ [row] }) := by
  rw [reserveReference] at h
  split at h
  case isTrue hnone => exact Or.inl ⟨hnone, (Except.ok.inj h).symm⟩
  case isFalse hsome =>
    split at h
    · exact absurd h nofun
    case isFalse hnew => exact Or.inr ⟨hsome, hnew, (Except.ok.inj h).symm⟩

theorem Database.storeEvent_eq_ok {db db' : Database} {a : AuthCtx} {e : NewEvent}
    (h : db.storeEvent a e = .ok db') :
    db'.sharedEvents = db.sharedEvents.insert e ∧ db'.tallies = db.tallies := by
  obtain ⟨db₁, hres, hins⟩ := bind_eq_ok.1 h
  rw [← Except.ok.inj hins]
  rcases reserveReference_cases hres with ⟨-, rfl⟩ | ⟨-, -, rfl⟩
  · exact ⟨rfl, rfl⟩
  · exact ⟨rfl, rfl⟩

theorem Database.storePunch_eq_ok {db db' : Database} {p : PunchJob reg} {receipt : SignedReceipt}
    {issued : List Bytes} (h : db.storePunch p receipt issued = .ok db') :
    db'.sharedEvents = db.sharedEvents.insert (punchEvent p receipt) ∧
      db'.tallies = db.tallies := by
  obtain ⟨db₁, hres, hins⟩ := bind_eq_ok.1 h
  rw [← Except.ok.inj hins]
  rcases reserveReference_cases hres with ⟨-, rfl⟩ | ⟨-, -, rfl⟩
  · exact ⟨rfl, rfl⟩
  · exact ⟨rfl, rfl⟩

theorem Database.storeTally_eq_ok {db db' : Database} {row : TallyRow} {eventIDs : List ℕ}
    (h : db.storeTally row eventIDs = .ok db') :
    db'.sharedEvents =
        (db.sharedEvents.stamp row.sharedCodeID row.period (eventIDs.getLastD 0)).1 ∧
      db'.tallies = db.tallies ++ [row] := by
  rw [storeTally] at h
  split at h
  · exact absurd h (by simp)
  · dsimp only at h
    split at h
    · exact absurd h (by simp)
    · exact (Except.ok.inj h) ▸ ⟨rfl, rfl⟩

theorem Database.exists_storeTally_eq_ok {db : Database} {row : TallyRow} {eventIDs : List ℕ}
    (hfree : ¬∃ t ∈ db.tallies, t.sharedCodeID = row.sharedCodeID ∧ t.period = row.period)
    (hcount : (db.sharedEvents.stamp row.sharedCodeID row.period (eventIDs.getLastD 0)).2 =
      eventIDs.length) : ∃ db', db.storeTally row eventIDs = .ok db' := by
  rw [storeTally, if_neg hfree]
  exact ⟨_, if_neg (not_not.2 hcount)⟩

/-- What a commit gathers is what it read, and not nothing. -/
theorem gatherBatch_eq_ok {env : Surroundings} {db : Database} {sharedID read : ℕ} {b : Batch}
    (h : gatherBatch env db sharedID read = .ok b) :
    readBatch (db.selectRows sharedID read) = some b ∧ b.total ≠ 0 := by
  obtain ⟨b', hread, h⟩ := bind_eq_ok.1 h
  obtain ⟨_, hne, h⟩ := bind_eq_ok.1 h
  obtain ⟨_, -, h⟩ := bind_eq_ok.1 h
  obtain ⟨_, -, h⟩ := bind_eq_ok.1 h
  obtain rfl := Except.ok.inj h
  exact ⟨orProblem_eq_ok.1 hread, rejectWhen_eq_ok.1 hne⟩

/-! ### What a step does -/

/-- Renaming customers touches unsigned events only, and nothing else in them. -/
def Renames (f : SharedEvent → SharedEvent) : Prop :=
  ∀ e, f e = e ∨ e.receipt = none ∧ ∃ ref, f e = { e with customerRef := ref }

/-- A commit that has called the contract, and not ended its transaction. -/
def Place.storing : Place reg → Bool
  | .commitStore .. => true
  | _ => false

/-- What a step does to the books. -/
inductive Does (p : Place reg) (w : World) (p' : Place reg) (w' : World) : Prop
  | quiet (hp : p.storing = false) (hp' : p'.anchoring = false) (hbooks : SameBooks reg w w')
  | recorded (e : NewEvent) (hp : p.storing = false) (hp' : p'.anchoring = false)
      (hevents : w'.db.sharedEvents = w.db.sharedEvents.insert e)
      (htallies : w'.db.tallies = w.db.tallies) (hchain : w'.chain = w.chain)
  | renamed (f : SharedEvent → SharedEvent) (hid : ∀ e, (f e).id = e.id) (hf : Renames f)
      (hp : p.storing = false) (hp' : p'.anchoring = false)
      (hevents : w'.db.sharedEvents = w.db.sharedEvents.update f hid)
      (htallies : w'.db.tallies = w.db.tallies) (hchain : w'.chain = w.chain)
  | checked (sc : CurrentCode reg) (period : UInt64) (hp : p = .commitUnsigned sc period)
      (hp' : p' = .commitAccount sc period) (hw : w' = w)
      (hcheck : w.db.sharedEvents.unsignedReceipts sc.row.id = 0)
  | locked (sc : CurrentCode reg) (period : UInt64) (signer : Address)
      (hp : p = .commitAccount sc period) (hp' : p' = .commitSelect sc period signer)
      (hbooks : SameBooks reg w w')
  | selected (sc : CurrentCode reg) (period : UInt64) (signer : Address) (b : Batch) (read : ℕ)
      (hp : p = .commitSelect sc period signer) (hp' : p' = .commitAnchor sc period signer b)
      (hw : w' = w) (hread : readBatch (w.db.selectRows sc.row.id read) = some b)
      (hne : b.total ≠ 0)
  | anchored (sc : CurrentCode reg) (period : UInt64) (signer : Address) (b : Batch)
      (txHash : Bytes) (hp : p = .commitAnchor sc period signer b)
      (hp' : p' = .commitStore sc period b txHash) (hdb : w'.db = w.db)
      (hfree : w.commitment sc period = none)
      (hnew : w'.commitment sc period = some ⟨period, b.count,
        merkleRoot (.zero 32) (merkleParent d.sha256) b.leaves,
        b.attribution sc.row.attributedTo⟩)
      (hold : ∀ (sc' : CurrentCode reg) (period' : UInt64), (sc', period') ≠ (sc, period) →
        w'.commitment sc' period' = w.commitment sc' period')
  | stored (sc : CurrentCode reg) (period : UInt64) (b : Batch) (txHash : Bytes)
      (db : Database) (hp : p = .commitStore sc period b txHash)
      (hp' : p' = .commitRelease sc (.committed period b.total b.eventIDs.length
        (tallyRow d.sha256 sc.row period b txHash).merkleRoot txHash))
      (hstore : w.db.storeTally (tallyRow d.sha256 sc.row period b txHash) b.eventIDs = .ok db)
      (hw : w' = { w with db })
  | stuck (sc : CurrentCode reg) (period : UInt64) (b : Batch) (txHash : Bytes)
      (problem : Problem) (hp : p = .commitStore sc period b txHash)
      (hp' : p' = .commitRelease sc (.problem problem))
      (hstore : w.db.storeTally (tallyRow d.sha256 sc.row period b txHash) b.eventIDs =
        .error problem) (hw : w' = w)

theorem anchoring_withPeriod (sc : CurrentCode reg) (period : UInt64) :
    (withPeriod reg sc period).anchoring = false := by
  rw [withPeriod]
  split <;> rfl

theorem anchoring_afterPunch (p : PunchJob reg) (rewarding : Bool) (answer : Answer) :
    (afterPunch reg p rewarding answer).anchoring = false := by
  cases rewarding <;> rfl

/-- Migrating a customer renames, or does nothing. -/
theorem Database.migrateCustomer_spec (db : Database) (programID sharedID : ℕ)
    (legacyRef currentRef : Bytes) :
    ∃ f hid, Renames f ∧
      (db.migrateCustomer programID sharedID legacyRef currentRef).sharedEvents =
        db.sharedEvents.update f hid ∧
      (db.migrateCustomer programID sharedID legacyRef currentRef).tallies = db.tallies := by
  rw [migrateCustomer]
  split
  · refine ⟨id, fun _ ↦ rfl, fun _ ↦ Or.inl rfl, ?_, rfl⟩
    exact EventTable.ext (List.map_id _).symm
  · refine ⟨renameEvent sharedID legacyRef currentRef,
      id_renameEvent sharedID legacyRef currentRef, fun e ↦ ?_, rfl, rfl⟩
    rw [renameEvent]
    split
    case isTrue h => exact Or.inr ⟨by simpa using h.2.2, currentRef, rfl⟩
    case isFalse => exact Or.inl rfl

/-- A landed commitment is the only one that changed, and was free. -/
theorem anchored_of_submit {ch : Choice} {sc : CurrentCode reg} {period : UInt64}
    {signer : Address} {b : Batch} {w : World} {chain : ContractState}
    (h : ch.submit (anchorTx reg sc period signer b ch.ledger) w = some chain) :
    Does (.commitAnchor sc period signer b) w (.commitStore sc period b ch.txHash)
      { w with chain } := by
  obtain ⟨v, hexec⟩ := Choice.submit_eq_some h
  obtain ⟨u, hu, rfl⟩ := direct_ok (f := fun _ ↦ .unit) hexec
  obtain ⟨-, -, -, hfree, hstorage, -⟩ := commitTally_ok hu
  refine .anchored sc period signer b ch.txHash rfl rfl rfl hfree ?_ fun sc' period' hne ↦ ?_
  · rw [World.commitment, hstorage]
    exact Function.update_self ..
  · rw [World.commitment, hstorage]
    refine Function.update_of_ne (fun heq ↦ hne ?_) _ _
    obtain ⟨hchain, hrest⟩ := Prod.mk.inj heq
    obtain ⟨hcode, hperiod⟩ := Prod.mk.inj hrest
    rw [CurrentCode.eq_of_key hchain hcode, hperiod]

/-- **The inversion of a step.** -/
theorem advance_does {ch : Choice} {p p' : Place reg} {w w' : World}
    (h : advance reg ch p w = some (p', w')) : Does p w p' w' := by
  cases p with
  | recordEvents | punch | punchDedup | punchBalance =>
    exact onward_elim h (fun _ _ ↦ .quiet rfl rfl (.refl w)) fun _ _ ↦ .quiet rfl rfl (.refl w)
  | recordStore a e =>
    refine onward_elim h (fun db hdb ↦ ?_) fun _ _ ↦ .quiet rfl rfl (.refl w)
    obtain ⟨hevents, htallies⟩ := Database.storeEvent_eq_ok (Choice.store_eq_ok hdb)
    exact .recorded e rfl rfl hevents htallies rfl
  | punchMigrate p =>
    refine onward_elim h (fun db hdb ↦ ?_) fun _ _ ↦ .quiet rfl rfl (.refl w)
    obtain ⟨f, hid, hf, hevents, htallies⟩ := w.db.migrateCustomer_spec p.program.id p.sc.row.id
      p.legacyRef p.ref
    obtain rfl := Except.ok.inj (Choice.store_eq_ok hdb)
    exact .renamed f hid hf rfl rfl hevents htallies rfl
  | punchStore p plan issued rewarding =>
    refine onward_elim h (fun db hdb ↦ ?_)
      fun _ _ ↦ .quiet rfl (anchoring_afterPunch ..) (.refl w)
    obtain ⟨hevents, htallies⟩ := Database.storePunch_eq_ok (Choice.store_eq_ok hdb)
    exact .recorded _ rfl (anchoring_afterPunch ..) hevents htallies rfl
  | punchRewards p before =>
    refine onward_elim h (fun plan _ ↦ .quiet rfl ?_ (.refl w))
      fun _ _ ↦ .quiet rfl rfl (.refl w)
    show (if plan.newRewards = 0 then _ else _ : Place reg).anchoring = _
    split <;> rfl
  | punchLock p => exact takeLock_elim h fun _ ↦ .quiet rfl rfl ⟨rfl, rfl, fun _ _ ↦ rfl⟩
  | punchAccount p plan =>
    simp only [advance] at h
    split at h
    · exact takeLock_elim h fun _ ↦ .quiet rfl rfl ⟨rfl, rfl, fun _ _ ↦ rfl⟩
    · exact some_elim h (.quiet rfl rfl (.refl w))
  | punchIssue p plan signer =>
    simp only [advance] at h
    split at h
    · exact some_elim h (.quiet rfl rfl (.refl w))
    · split at h
      · exact some_elim h (.quiet rfl rfl (.refl w))
      case h_2 chain hsubmit =>
        obtain ⟨v, hexec⟩ := Choice.submit_eq_some hsubmit
        refine some_elim h (.quiet rfl ?_ ⟨rfl, rfl, commitment_of_foreign hexec fun _ _ _ ↦ ?_⟩)
        · split <;> rfl
        · simp [issueTx, Call.commitsTo]
  | punchRelease | punchUnlock | commitRelease =>
    exact some_elim h (.quiet rfl rfl ⟨rfl, rfl, fun _ _ ↦ rfl⟩)
  | commitTally a campaignID code period =>
    refine onward_elim h (fun sc _ ↦ .quiet rfl ?_ (.refl w)) fun _ _ ↦ .quiet rfl rfl (.refl w)
    show (if period = 0 then _ else _ : Place reg).anchoring = _
    split
    · rfl
    · exact anchoring_withPeriod ..
  | commitBase sc => exact some_elim h (.quiet rfl rfl (.refl w))
  | commitBatch sc base baseExists =>
    exact onward_elim h (fun _ _ ↦ .quiet rfl (anchoring_withPeriod ..) (.refl w))
      fun _ _ ↦ .quiet rfl rfl (.refl w)
  | commitUnsigned sc period =>
    simp only [advance] at h
    split at h
    case isTrue hcheck => exact some_elim h (.checked sc period rfl rfl rfl hcheck)
    case isFalse => exact some_elim h (.quiet rfl rfl (.refl w))
  | commitAccount sc period =>
    simp only [advance] at h
    split at h
    case h_1 signer _ =>
      exact takeLock_elim h fun _ ↦
        .locked sc period signer rfl rfl ⟨rfl, rfl, fun _ _ ↦ rfl⟩
    case h_2 => exact some_elim h (.quiet rfl rfl (.refl w))
  | commitSelect sc period signer =>
    refine onward_elim h (fun b hb ↦ ?_) fun _ _ ↦ .quiet rfl rfl (.refl w)
    obtain ⟨hread, hne⟩ := gatherBatch_eq_ok hb
    exact .selected sc period signer b ch.read rfl rfl rfl hread hne
  | commitAnchor sc period signer b =>
    simp only [advance] at h
    split at h
    case h_1 chain hsubmit => exact some_elim h (anchored_of_submit hsubmit)
    case h_2 => exact some_elim h (.quiet rfl rfl (.refl w))
  | commitStore sc period b txHash =>
    exact onward_elim h (fun db hstore ↦ .stored sc period b txHash db rfl rfl hstore rfl)
      fun problem hstore ↦ .stuck sc period b txHash problem rfl rfl hstore rfl
  | answered answer => exact absurd h (by simp [advance])

end Soroticket
