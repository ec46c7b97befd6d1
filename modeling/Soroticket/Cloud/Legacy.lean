import Soroticket.Cloud.Rewards
import Soroticket.Machine.Lockstep
import Soroticket.Machine.Renaming

/-!
# Legacy loyalty customers

A customer of a loyalty program is kept under a reference. Before, it was the first 64 bits of a
hash; now it is a MAC. When a customer punches its card, `migrateLegacyLoyaltyCustomer` first gives
what is still under the old reference the present one, and only then is the balance read.

What a program remembers of its customers is a `History`: for whom each row is, and whether it was
written under the old reference. The history in which everything of one customer has been written
under the present reference is another (`History.fromStart`), and the databases of both differ in
rows that a renaming makes equal (`alike_fromStart`). So whatever punches of the customer there are,
and however they are interleaved, they are answered as if the customer had never been a legacy one
(`requests_fromStart`), and from the first of them that is through the tables are the same.
-/

namespace Soroticket

open Interleaving Interleaving.Service Renaming

variable {d : Deployment} {reg : Registry d}

namespace Legacy

/-! ### Customers and what they are called -/

/-- The reference of a customer of a program. -/
def customerRef (d : Deployment) (a : AuthCtx) (programID : ℕ) (customer : Bytes) : Bytes :=
  opaqueReference d
    (a.domain ++ ascii "|loyalty:" ++ ascii (toString programID) ++ ascii "|customer") customer

/-- The customers of a program. Their old references tell them apart. -/
structure Clientele (d : Deployment) (programID : ℕ) where
  names : Set Bytes
  nonempty : ∀ c ∈ names, c ≠ []
  legacy_inj : Set.InjOn (legacyCustomerReference d programID) names

theorem customerRef_ne_legacy {c c' : Bytes} (hc : c ≠ []) (hc' : c' ≠ []) (a : AuthCtx)
    (programID : ℕ) : customerRef d a programID c ≠ legacyCustomerReference d programID c' := by
  intro heq
  have hlength := congrArg List.length heq
  rw [customerRef, length_opaqueReference hc, length_legacyCustomerReference hc'] at hlength
  exact absurd hlength (by decide)

theorem legacyCustomerReference_ne_nil {c : Bytes} (hc : c ≠ []) (programID : ℕ) :
    legacyCustomerReference d programID c ≠ [] := by
  refine List.ne_nil_of_length_pos ?_
  rw [length_legacyCustomerReference hc]
  decide

theorem customerRef_ne_nil {c : Bytes} (hc : c ≠ []) (a : AuthCtx) (programID : ℕ) :
    customerRef d a programID c ≠ [] := by
  refine List.ne_nil_of_length_pos ?_
  rw [customerRef, length_opaqueReference hc]
  decide

/-! ### The renaming in the three tables -/

/-- How punches of a program bear the references of customers. -/
def punchNames (programID : ℕ) : Naming PunchRow Bytes where
  mine p := p.programID = programID
  name p := p.customerRef
  rename ref p := { p with customerRef := ref }
  name_rename _ _ := rfl

/-- How rewards do. -/
def rewardNames (programID : ℕ) : Naming RewardRow Bytes where
  mine r := r.programID = programID
  name r := r.customerRef
  rename ref r := { r with customerRef := ref }
  name_rename _ _ := rfl

/-- How events do. Those with a signed receipt are not in question. -/
def eventNames (sharedID : ℕ) : Naming SharedEvent Bytes where
  mine e := e.sharedCodeID = sharedID ∧ e.receipt.isNone
  name e := e.customerRef
  rename ref e := { e with customerRef := ref }
  name_rename _ _ := rfl

instance (programID : ℕ) : DecidablePred (punchNames programID).mine :=
  fun p ↦ inferInstanceAs (Decidable (p.programID = programID))

instance (programID : ℕ) : DecidablePred (rewardNames programID).mine :=
  fun r ↦ inferInstanceAs (Decidable (r.programID = programID))

instance (sharedID : ℕ) : DecidablePred (eventNames sharedID).mine :=
  fun e ↦ inferInstanceAs (Decidable (e.sharedCodeID = sharedID ∧ e.receipt.isNone))

variable {programID sharedID : ℕ} {old new : Bytes} {db : Database}

theorem renameEvent_eq : Database.renameEvent sharedID old new =
    (eventNames sharedID).move old new := by
  funext e
  rw [Database.renameEvent]
  split
  · rename_i h
    exact (Naming.move_of_eq (N := eventNames sharedID) ⟨h.1, h.2.2⟩ h.2.1).symm
  · rename_i h
    exact (if_neg fun h' ↦ h ⟨h'.1.1, h'.2, h'.1.2⟩).symm

/-- What `migrateLegacyLoyaltyCustomer` makes of the tables, where it does anything. -/
theorem tables_migrate (db : Database) (programID sharedID : ℕ) (hold : old ≠ [])
    (hnew : new ≠ []) (hne : new ≠ old) :
    (db.migrateCustomer programID sharedID old new).punches =
        db.punches.map ((punchNames programID).move old new) ∧
      (db.migrateCustomer programID sharedID old new).rewards =
        db.rewards.map ((rewardNames programID).move old new) ∧
      (db.migrateCustomer programID sharedID old new).sharedEvents.rows =
        db.sharedEvents.rows.map ((eventNames sharedID).move old new) ∧
      (db.migrateCustomer programID sharedID old new).tallies = db.tallies ∧
      (db.migrateCustomer programID sharedID old new).operationDedup = db.operationDedup := by
  rw [Database.migrateCustomer, if_neg (by simp [hold, hnew, hne.symm])]
  refine ⟨rfl, rfl, ?_, rfl, rfl⟩
  rw [EventTable.rows_update, renameEvent_eq]

/-- What is migrated is migrated, or is as it was. -/
theorem migrate_cases (db : Database) (programID sharedID : ℕ) (old new : Bytes) :
    db.migrateCustomer programID sharedID old new = db ∨ old ≠ [] ∧ new ≠ [] ∧ new ≠ old := by
  by_cases h : old = [] ∨ new = [] ∨ old = new
  · exact Or.inl (if_pos h)
  · rw [not_or, not_or] at h
    exact Or.inr ⟨h.1, h.2.1, Ne.symm h.2.2⟩

theorem database_ext {db db' : Database} (hevents : db'.sharedEvents.rows = db.sharedEvents.rows)
    (htallies : db'.tallies = db.tallies) (hdedup : db'.operationDedup = db.operationDedup)
    (hpunches : db'.punches = db.punches) (hrewards : db'.rewards = db.rewards) : db' = db := by
  have htable : db'.sharedEvents = db.sharedEvents := EventTable.ext hevents
  cases db
  cases db'
  dsimp only at htable htallies hdedup hpunches hrewards
  subst htable htallies hdedup hpunches hrewards
  rfl

/-- **Migrating again changes nothing.** -/
theorem migrate_migrate (db : Database) (programID sharedID : ℕ) (old new : Bytes) :
    (db.migrateCustomer programID sharedID old new).migrateCustomer programID sharedID old new =
      db.migrateCustomer programID sharedID old new := by
  rcases migrate_cases db programID sharedID old new with hsame | ⟨hold, hnew, hne⟩
  · rw [hsame, hsame]
  · obtain ⟨hpunches, hrewards, hevents, -, -⟩ :=
      tables_migrate db programID sharedID hold hnew hne
    obtain ⟨hpunches', hrewards', hevents', htallies', hdedup'⟩ :=
      tables_migrate (db.migrateCustomer programID sharedID old new) programID sharedID hold hnew
        hne
    refine database_ext ?_ htallies' hdedup' ?_ ?_
    · rw [hevents', hevents, Naming.map_move_map_move hne]
    · rw [hpunches', hpunches, Naming.map_move_map_move hne]
    · rw [hrewards', hrewards, Naming.map_move_map_move hne]

end Legacy

namespace Database

/-- The punches of a program. -/
def programPunches (db : Database) (programID : ℕ) : ℤ :=
  ((db.punches.filter fun p ↦ p.programID = programID).map fun p ↦ p.count.toInt).sum

/-- The rewards of a program. -/
def programRewards (db : Database) (programID : ℕ) : ℕ :=
  ((db.rewards.filter fun r ↦ r.programID = programID).map fun _ ↦ 1).sum

/-- The counts of the events of a code. -/
def codeEvents (db : Database) (sharedID : ℕ) : ℤ :=
  ((db.sharedEvents.rows.filter fun e ↦ e.sharedCodeID = sharedID).map fun e ↦ e.count.toInt).sum

end Database

namespace Legacy

/-- **Migrating keeps the sums** of every program, and of every code. -/
theorem sums_migrate (db : Database) (programID sharedID : ℕ) (old new : Bytes)
    (programID' sharedID' : ℕ) :
    (db.migrateCustomer programID sharedID old new).programPunches programID' =
        db.programPunches programID' ∧
      (db.migrateCustomer programID sharedID old new).programRewards programID' =
        db.programRewards programID' ∧
      (db.migrateCustomer programID sharedID old new).codeEvents sharedID' =
        db.codeEvents sharedID' := by
  rcases migrate_cases db programID sharedID old new with hsame | ⟨hold, hnew, hne⟩
  · rw [hsame]
    exact ⟨rfl, rfl, rfl⟩
  · obtain ⟨hpunches, hrewards, hevents, -, -⟩ :=
      tables_migrate db programID sharedID hold hnew hne
    rw [Database.programPunches, Database.programRewards, Database.codeEvents, hpunches, hrewards,
      hevents]
    exact ⟨Naming.sum_map_move (fun _ _ ↦ rfl) (fun _ _ ↦ rfl) _,
      Naming.sum_map_move (fun _ _ ↦ rfl) (fun _ _ ↦ rfl) _,
      Naming.sum_map_move (fun _ _ ↦ rfl) (fun _ _ ↦ rfl) _⟩

/-- A row that is not renamed stays where it is. -/
theorem getElem?_map_of_fixed {α : Type} {f : α → α} {l : List α} {i : ℕ} {a : α}
    (h : l[i]? = some a) (hf : f a = a) : (l.map f)[i]? = some a := by
  rw [List.getElem?_map, h, Option.map_some, hf]

/-- **Migrating changes no other row**: none of another program, none under another reference, and
no event that has a receipt. -/
theorem frame_migrate (db : Database) (programID sharedID : ℕ) (old new : Bytes) (i : ℕ) :
    (∀ p, db.punches[i]? = some p → p.programID ≠ programID ∨ p.customerRef ≠ old →
        (db.migrateCustomer programID sharedID old new).punches[i]? = some p) ∧
      (∀ r, db.rewards[i]? = some r → r.programID ≠ programID ∨ r.customerRef ≠ old →
        (db.migrateCustomer programID sharedID old new).rewards[i]? = some r) ∧
      ∀ e, db.sharedEvents.rows[i]? = some e →
        e.sharedCodeID ≠ sharedID ∨ e.customerRef ≠ old ∨ e.receipt.isSome = true →
          (db.migrateCustomer programID sharedID old new).sharedEvents.rows[i]? = some e := by
  rcases migrate_cases db programID sharedID old new with hsame | ⟨hold, hnew, hne⟩
  · rw [hsame]
    exact ⟨fun _ h _ ↦ h, fun _ h _ ↦ h, fun _ h _ ↦ h⟩
  · obtain ⟨hpunches, hrewards, hevents, -, -⟩ :=
      tables_migrate db programID sharedID hold hnew hne
    rw [hpunches, hrewards, hevents]
    refine ⟨fun p hp hother ↦ getElem?_map_of_fixed hp ?_,
      fun r hr hother ↦ getElem?_map_of_fixed hr ?_, fun e he hother ↦ getElem?_map_of_fixed he ?_⟩
    · exact hother.elim (Naming.move_of_not_mine (N := punchNames programID))
        (Naming.move_of_ne (N := punchNames programID))
    · exact hother.elim (Naming.move_of_not_mine (N := rewardNames programID))
        (Naming.move_of_ne (N := rewardNames programID))
    · rcases hother with hcode | hname | hsigned
      · exact Naming.move_of_not_mine fun h ↦ hcode h.1
      · exact Naming.move_of_ne hname
      · refine Naming.move_of_not_mine fun h ↦ ?_
        rw [Option.isNone_iff_eq_none.1 h.2] at hsigned
        exact Bool.false_ne_true hsigned

/-! ### Histories -/

variable {a : AuthCtx} {cl : Clientele d programID}

/-- For whom a row is, and whether it was written under the old reference. -/
structure Entry (cl : Clientele d programID) where
  customer : cl.names
  legacy : Bool

/-- The reference an entry is under. -/
def Entry.ref (a : AuthCtx) (e : Entry cl) : Bytes :=
  if e.legacy then legacyCustomerReference d programID e.customer
  else customerRef d a programID e.customer

/-- The entry, as written under the present reference if it is of a customer. -/
def Entry.fromStart (x : cl.names) (e : Entry cl) : Entry cl :=
  if e.customer = x then { e with legacy := false } else e

/-- What is in the tables: for the rows of a program, for whom they are; and any other rows. -/
structure History (cl : Clientele d programID) where
  punches : List ({p : PunchRow // p.programID ≠ programID} ⊕ Entry cl × Int64)
  rewards : List ({r : RewardRow // r.programID ≠ programID} ⊕ Entry cl × Bytes)
  events : EventTable
  /-- For whom an event is, if it is of the program. -/
  eventFor : ℕ → Option (Entry cl)
  tallies : List TallyRow
  operationDedup : List DedupRow

namespace History

/-- An event under the reference of its entry. -/
def nameEvent (a : AuthCtx) (entry : Option (Entry cl)) (e : SharedEvent) : SharedEvent :=
  match entry with
  | some entry => { e with customerRef := entry.ref a }
  | none => e

theorem id_nameEvent (a : AuthCtx) (entry : Option (Entry cl)) (e : SharedEvent) :
    (nameEvent a entry e).id = e.id := by
  rcases entry with - | entry <;> rfl

/-- The database of a history. -/
def db (a : AuthCtx) (h : History cl) : Database where
  punches := h.punches.map (Sum.elim (·.1) fun x ↦ ⟨programID, x.1.ref a, x.2⟩)
  rewards := h.rewards.map (Sum.elim (·.1) fun x ↦ ⟨programID, x.1.ref a, x.2⟩)
  sharedEvents := h.events.update (fun e ↦ nameEvent a (h.eventFor e.id) e)
    fun e ↦ id_nameEvent a (h.eventFor e.id) e
  tallies := h.tallies
  operationDedup := h.operationDedup

/-- The history in which a customer has had the present reference from the start. -/
def fromStart (x : cl.names) (h : History cl) : History cl :=
  { h with
    punches := h.punches.map (Sum.map id fun p ↦ (p.1.fromStart x, p.2))
    rewards := h.rewards.map (Sum.map id fun r ↦ (r.1.fromStart x, r.2))
    eventFor := fun i ↦ (h.eventFor i).map (Entry.fromStart x) }

end History

/-- An event, and the same event under some reference. -/
def SameEvent (e e' : SharedEvent) : Prop := e' = { e with customerRef := e'.customerRef }

/-- Databases that differ in rows of a customer that are under the present reference in the second,
and may be under the old one in the first. -/
structure Alike (programID : ℕ) (old new : Bytes) (db db' : Database) : Prop where
  punches : List.Forall₂ ((punchNames programID).Late old new) db.punches db'.punches
  rewards : List.Forall₂ ((rewardNames programID).Late old new) db.rewards db'.rewards
  events : List.Forall₂ SameEvent db.sharedEvents.rows db'.sharedEvents.rows
  tallies : db'.tallies = db.tallies
  operationDedup : db'.operationDedup = db.operationDedup

/-- The references of a customer, before and now. -/
abbrev AlikeFor (a : AuthCtx) (x : cl.names) : Database → Database → Prop :=
  Alike programID (legacyCustomerReference d programID x) (customerRef d a programID x)

/-- An entry from the start is the entry, or one of the customer that was under the old
reference. -/
theorem ref_fromStart (a : AuthCtx) (x : cl.names) (e : Entry cl) :
    (e.fromStart x).ref a = e.ref a ∨
      e.ref a = legacyCustomerReference d programID x ∧
        (e.fromStart x).ref a = customerRef d a programID x := by
  rw [Entry.fromStart]
  split
  · rename_i hx
    subst hx
    rcases hlegacy : e.legacy with - | -
    · left
      rw [Entry.ref, Entry.ref, hlegacy]
    · right
      rw [Entry.ref, Entry.ref, hlegacy]
      exact ⟨rfl, rfl⟩
  · exact Or.inl rfl

/-- **A history, and the same from the start**, have databases that are alike. -/
theorem alike_fromStart (a : AuthCtx) (x : cl.names) (h : History cl) :
    AlikeFor a x (h.db a) ((h.fromStart x).db a) where
  punches := by
    change List.Forall₂ _ (h.punches.map _) ((h.punches.map _).map _)
    rw [List.map_map, List.forall₂_map_left_iff, List.forall₂_map_right_iff, List.forall₂_same]
    rintro (p | ⟨e, n⟩) -
    · exact .same _
    · rcases ref_fromStart a x e with heq | ⟨hold, hnew⟩
      · change Naming.Late _ _ _ _ (⟨programID, (e.fromStart x).ref a, n⟩ : PunchRow)
        rw [heq]
        exact .same _
      · change Naming.Late _ _ _ _ (⟨programID, (e.fromStart x).ref a, n⟩ : PunchRow)
        rw [hnew]
        exact .late (⟨programID, e.ref a, n⟩ : PunchRow) rfl hold
  rewards := by
    change List.Forall₂ _ (h.rewards.map _) ((h.rewards.map _).map _)
    rw [List.map_map, List.forall₂_map_left_iff, List.forall₂_map_right_iff, List.forall₂_same]
    rintro (r | ⟨e, code⟩) -
    · exact .same _
    · rcases ref_fromStart a x e with heq | ⟨hold, hnew⟩
      · change Naming.Late _ _ _ _ (⟨programID, (e.fromStart x).ref a, code⟩ : RewardRow)
        rw [heq]
        exact .same _
      · change Naming.Late _ _ _ _ (⟨programID, (e.fromStart x).ref a, code⟩ : RewardRow)
        rw [hnew]
        exact .late (⟨programID, e.ref a, code⟩ : RewardRow) rfl hold
  events := by
    change List.Forall₂ _ (h.events.rows.map _) (h.events.rows.map _)
    rw [List.forall₂_map_left_iff, List.forall₂_map_right_iff, List.forall₂_same]
    intro e _
    change SameEvent (History.nameEvent a (h.eventFor e.id) e)
      (History.nameEvent a ((h.eventFor e.id).map (Entry.fromStart x)) e)
    rcases h.eventFor e.id with - | entry <;> rfl
  tallies := rfl
  operationDedup := rfl

/-! ### What a step makes of databases that are alike -/

section Databases

variable {db db' : Database} {q : PunchJob reg}

/-- The same punches and the same rewards. -/
structure SameTables (db db' : Database) : Prop where
  punches : db'.punches = db.punches
  rewards : db'.rewards = db.rewards

/-- What the references have no part in is the same in events that are. -/
theorem map_sameEvent {β : Type} {f : SharedEvent → β}
    (hf : ∀ n e, f { e with customerRef := n } = f e) {l l' : List SharedEvent}
    (h : List.Forall₂ SameEvent l l') : l'.map f = l.map f := by
  induction h with
  | nil => rfl
  | @cons e e' _ _ h _ ih => rw [List.map_cons, List.map_cons, h, hf, ih]

theorem nextID_congr {t t' : EventTable} (h : List.Forall₂ SameEvent t.rows t'.rows) :
    t'.nextID = t.nextID := by
  have hid : ∀ t : EventTable, t.nextID = ((t.rows.map (·.id)).getLast?).elim 0 id + 1 := by
    intro t
    rw [EventTable.nextID, List.getLast?_map]
    rcases t.rows.getLast? with - | e <;> rfl
  rw [hid, hid, map_sameEvent (f := (·.id)) (fun _ _ ↦ rfl) h]

theorem Alike.sums (h : Alike programID old new db db') (programID' sharedID' : ℕ) :
    db'.programPunches programID' = db.programPunches programID' ∧
      db'.programRewards programID' = db.programRewards programID' ∧
      db'.codeEvents sharedID' = db.codeEvents sharedID' := by
  refine ⟨Naming.sum_late (fun _ _ ↦ rfl) (fun _ _ ↦ rfl) h.punches,
    Naming.sum_late (fun _ _ ↦ rfl) (fun _ _ ↦ rfl) h.rewards,
    sum_of_forall₂ h.events (fun e e' heq ↦ ?_) fun e e' heq ↦ ?_⟩
  · rw [show e' = _ from heq]
  · rw [show e' = _ from heq]

/-- **Once both are migrated, the punches and rewards are the same.** -/
theorem Alike.migrate (h : Alike programID old new db db') (hold : old ≠ []) (hnew : new ≠ [])
    (hne : new ≠ old) (sharedID : ℕ) :
    Alike programID old new (db.migrateCustomer programID sharedID old new)
        (db'.migrateCustomer programID sharedID old new) ∧
      SameTables (db.migrateCustomer programID sharedID old new)
        (db'.migrateCustomer programID sharedID old new) := by
  obtain ⟨hpunches, hrewards, hevents, htallies, hdedup⟩ :=
    tables_migrate db programID sharedID hold hnew hne
  obtain ⟨hpunches', hrewards', hevents', htallies', hdedup'⟩ :=
    tables_migrate db' programID sharedID hold hnew hne
  have hsame : SameTables (db.migrateCustomer programID sharedID old new)
      (db'.migrateCustomer programID sharedID old new) :=
    ⟨by rw [hpunches', hpunches, Naming.map_move_eq hne h.punches],
      by rw [hrewards', hrewards, Naming.map_move_eq hne h.rewards]⟩
  refine ⟨⟨?_, ?_, ?_, ?_, ?_⟩, hsame⟩
  · rw [hsame.punches]
    exact Naming.late_refl _
  · rw [hsame.rewards]
    exact Naming.late_refl _
  · rw [hevents, hevents', List.forall₂_map_left_iff, List.forall₂_map_right_iff]
    refine h.events.imp fun e e' heq ↦ ?_
    have hmove : ∀ e : SharedEvent, ∃ n, (eventNames sharedID).move old new e =
        { e with customerRef := n } := by
      intro e
      rw [Naming.move]
      split
      · exact ⟨new, rfl⟩
      · exact ⟨e.customerRef, rfl⟩
    obtain ⟨n, hn⟩ := hmove e
    obtain ⟨n', hn'⟩ := hmove e'
    rw [hn, hn', show e' = _ from heq]
    rfl
  · rw [htallies', htallies, h.tallies]
  · rw [hdedup', hdedup, h.operationDedup]

/-- A reference is new in both, or in neither. -/
theorem Alike.reserveReference (h : Alike programID old new db db') (hsame : SameTables db db')
    (row : DedupRow) (problem : Problem) :
    ExceptRel (fun db db' ↦ Alike programID old new db db' ∧ SameTables db db')
      (db.reserveReference row problem) (db'.reserveReference row problem) := by
  rw [Database.reserveReference, Database.reserveReference, h.operationDedup]
  split
  · exact .ok ⟨h, hsame⟩
  · split
    · exact .error problem
    · exact .ok ⟨⟨h.punches, h.rewards, h.events, h.tallies, rfl⟩, hsame.punches, hsame.rewards⟩

/-- A punch is stored in both, or in neither. -/
theorem Alike.storePunch (h : Alike programID old new db db') (hsame : SameTables db db')
    (receipt : SignedReceipt) (issued : List Bytes) :
    ExceptRel (fun db db' ↦ Alike programID old new db db' ∧ SameTables db db')
      (db.storePunch q receipt issued) (db'.storePunch q receipt issued) := by
  refine (h.reserveReference hsame _ _).bind fun db₁ db₂ hreserved ↦ .ok ?_
  obtain ⟨hstored, hpunches, hrewards⟩ := hreserved
  refine ⟨⟨?_, ?_, ?_, hstored.tallies, hstored.operationDedup⟩, ?_, ?_⟩
  · dsimp only
    rw [hpunches]
    exact Naming.late_refl _
  · dsimp only
    rw [hrewards]
    exact Naming.late_refl _
  · show List.Forall₂ SameEvent (_ ++ [_]) (_ ++ [_])
    rw [nextID_congr hstored.events]
    exact List.rel_append hstored.events (.cons rfl .nil)
  · dsimp only
    rw [hpunches]
  · dsimp only
    rw [hrewards]

end Databases

/-! ### One step of a punch -/

/-- Worlds whose databases are alike. -/
structure AlikeWorlds (a : AuthCtx) (x : cl.names) (w w' : World) : Prop where
  db : AlikeFor a x w.db w'.db
  chain : w'.chain = w.chain
  locks : w'.locks = w.locks

/-- A job for a customer. -/
structure JobOf (a : AuthCtx) (x : cl.names) (q : PunchJob reg) : Prop where
  program : q.program.id = programID
  ref : q.ref = customerRef d a programID x
  legacyRef : q.legacyRef = legacyCustomerReference d programID x

/-- A punch of a customer, on its way or answered. -/
def PunchOf (a : AuthCtx) (x : cl.names) : Place reg → Prop
  | .punch a' id body => a' = a ∧ id = programID ∧ utf8 (trimSpace body.customerRef) = x
  | .answered _ => True
  | p => ∃ q, p.job = some q ∧ JobOf a x q

/-- A punch that has migrated its customer, and was not turned down. -/
def Through : Place reg → Prop
  | .punchDedup _ | .punchBalance _ | .punchRewards .. | .punchAccount .. | .punchIssue ..
  | .punchStore .. => True
  | p => p.done = true

/-- What a punch and the same one from the start have done at a step. -/
structure Abreast (a : AuthCtx) (x : cl.names) (w w' : World) (y y' : Place reg × World) :
    Prop where
  place : y'.1 = y.1
  punch : PunchOf a x y.1
  worlds : AlikeWorlds a x y.2 y'.2
  through : Through y.1 → SameTables y.2.db y'.2.db
  keeps : SameTables w.db w'.db → SameTables y.2.db y'.2.db

section Step

variable {x : cl.names} {w w' : World} {p : Place reg} {q : PunchJob reg} {ch : Choice}

theorem jobOf_checked {id : ℕ} {body : PunchBody} {a' : AuthCtx} (h : Checked a' id body q)
    (ha : a' = a) (hid : id = programID) (hbody : utf8 (trimSpace body.customerRef) = x) :
    JobOf a x q := by
  subst ha hid
  exact ⟨h.programID, by rw [h.ref, hbody]; rfl, by rw [h.legacyRef, hbody]⟩

theorem PunchOf.jobOf (h : PunchOf a x p) (hjob : p.job = some q) : JobOf a x q := by
  cases p with
  | punch | answered => exact absurd hjob.symm (Option.some_ne_none _)
  | _ =>
    obtain ⟨_, hjob', hq⟩ := h
    obtain rfl := Option.some.inj (hjob.symm.trans hjob')
    exact hq

theorem punchOf_job (hjob : p.job = some q) (hq : JobOf a x q) : PunchOf a x p := by
  cases p with
  | punch | answered => exact absurd hjob.symm (Option.some_ne_none _)
  | _ => exact ⟨q, hjob, hq⟩

/-- A step that leaves the database alone. -/
theorem Abreast.keep {y : Place reg} {u u' : World} (h : AlikeWorlds a x w w')
    (hy : PunchOf a x y) (hthrough : Through y → SameTables w.db w'.db) (hdb : u.db = w.db)
    (hdb' : u'.db = w'.db) (hchain : u'.chain = u.chain) (hlocks : u'.locks = u.locks) :
    Abreast a x w w' (y, u) (y, u') where
  place := rfl
  punch := hy
  worlds := ⟨by rw [hdb, hdb']; exact h.db, hchain, hlocks⟩
  through hy := by
    dsimp only
    rw [hdb, hdb']
    exact hthrough hy
  keeps hsame := by
    dsimp only
    rw [hdb, hdb']
    exact hsame

theorem rel_onward {α : Type} {R : Place reg × World → Place reg × World → Prop} {T : α → α → Prop}
    {r r' : Except Problem α} {stop : Problem → Place reg} {next next' : α → Place reg × World}
    (hr : ExceptRel T r r') (hstop : ∀ problem, R (stop problem, w) (stop problem, w'))
    (hnext : ∀ y y', T y y' → R (next y) (next' y')) :
    Option.Rel R (onward reg r stop w next) (onward reg r' stop w' next') := by
  cases hr with
  | error problem => exact .some (hstop problem)
  | ok h => exact .some (hnext _ _ h)

theorem rel_store {T : Database → Database → Prop} {r r' : Except Problem Database}
    (hr : ExceptRel T r r') (message : String) :
    ExceptRel T (ch.store r message) (ch.store r' message) := by
  refine hr.bind fun db db' h ↦ ?_
  split
  · exact .ok h
  · exact .error _

/-- A lock is free in both worlds, or in neither. -/
theorem rel_takeLock {y : Place reg} (h : AlikeWorlds a x w w') (hy : PunchOf a x y)
    (hthrough : Through y → SameTables w.db w'.db) (k : Lock) :
    Option.Rel (Abreast a x w w') (takeLock reg w k y) (takeLock reg w' k y) := by
  rw [takeLock, takeLock, h.locks]
  split
  · exact .none
  · refine .some (.keep h hy hthrough rfl rfl h.chain ?_)
    rw [World.lock, World.lock, h.locks]

theorem submit_congr (h : AlikeWorlds a x w w') (ch : Choice) (tx : Tx) :
    ch.submit tx w' = ch.submit tx w := by
  rw [Choice.submit, Choice.submit, h.chain]

theorem loyaltyBalance_congr {db db' : Database} (h : SameTables db db') (id : ℕ) (ref : Bytes)
    (count : Int64) : db'.loyaltyBalance id ref count = db.loyaltyBalance id ref count := by
  rw [Database.loyaltyBalance, Database.loyaltyBalance, h.punches]

theorem planPunch_congr {db db' : Database} (h : SameTables db db') (env : Surroundings)
    (before : Int64) : db'.planPunch env q before = db.planPunch env q before := by
  rw [Database.planPunch, Database.planPunch, h.rewards]

theorem checkEventRef_congr {db db' : Database} (h : db'.operationDedup = db.operationDedup)
    (account : AuthCtx) (id : ℕ) (eventRef : Bytes) :
    db'.checkEventRef account id eventRef = db.checkEventRef account id eventRef := by
  rw [Database.checkEventRef, Database.checkEventRef, h]

/-- What is handed back at the end of a punch. -/
theorem punchOf_afterPunch (hq : JobOf a x q) (rewarding : Bool) (answer : Answer) :
    PunchOf a x (afterPunch reg q rewarding answer) := by
  rw [afterPunch]
  split
  · exact ⟨q, rfl, hq⟩
  · exact ⟨q, rfl, hq⟩

theorem not_through_afterPunch (rewarding : Bool) (problem : Problem) :
    ¬Through (afterPunch reg q rewarding (.problem problem)) := by
  rw [afterPunch]
  split
  · exact Bool.false_ne_true
  · exact Bool.false_ne_true

/-- **One step of a punch**, in worlds that are alike. -/
theorem rel_advance (h : AlikeWorlds a x w w') (hp : PunchOf a x p)
    (hthrough : Through p → SameTables w.db w'.db) :
    Option.Rel (Abreast a x w w') (advance reg ch p w) (advance reg ch p w') := by
  -- a step at which a problem is the answer
  have hstopped : ∀ (y : Place reg), PunchOf a x y → ¬Through y →
      Abreast a x w w' (y, w) (y, w') := fun y hy hnot ↦
    .keep h hy (fun hthrough ↦ absurd hthrough hnot) rfl rfl h.chain h.locks
  cases p with
  | punch a' id body =>
    obtain ⟨ha, hid, hbody⟩ := hp
    refine rel_onward (T := fun q q' ↦ q' = q ∧ JobOf a x q)
      (.of_ok fun q hq ↦ ⟨rfl, jobOf_checked (punchRequest_eq_ok hq) ha hid hbody⟩)
      (fun problem ↦ hstopped _ trivial Bool.false_ne_true) ?_
    rintro _ q ⟨rfl, hq⟩
    exact hstopped _ (punchOf_job rfl hq) Bool.false_ne_true
  | punchLock q =>
    have hq := hp.jobOf rfl
    rw [advance, advance]
    refine rel_takeLock h (punchOf_job rfl hq) (fun hnot ↦ ?_) _
    exact absurd hnot Bool.false_ne_true
  | punchMigrate q =>
    have hq := hp.jobOf rfl
    have hx : (x : Bytes) ≠ [] := cl.nonempty x x.2
    obtain ⟨hmigrated, hsame⟩ := h.db.migrate
      (legacyCustomerReference_ne_nil hx programID) (customerRef_ne_nil hx a programID)
      (customerRef_ne_legacy hx hx a programID) q.sc.row.id
    rw [advance, advance, hq.program, hq.ref, hq.legacyRef]
    refine rel_onward (T := fun db db' ↦ AlikeFor a x db db' ∧ SameTables db db')
      (rel_store (.ok ⟨hmigrated, hsame⟩) _)
      (fun problem ↦ hstopped _ (punchOf_job rfl hq) Bool.false_ne_true) ?_
    rintro db db' ⟨hdb, hsame⟩
    exact ⟨rfl, punchOf_job rfl hq, ⟨hdb, h.chain, h.locks⟩, fun _ ↦ hsame, fun _ ↦ hsame⟩
  | punchDedup q =>
    have hq := hp.jobOf rfl
    rw [advance, advance, checkEventRef_congr h.db.operationDedup]
    refine rel_onward (T := fun _ _ ↦ True) (.of_ok fun _ _ ↦ trivial)
      (fun problem ↦ hstopped _ (punchOf_job rfl hq) Bool.false_ne_true) fun _ _ _ ↦ ?_
    exact .keep h (punchOf_job rfl hq) (fun _ ↦ hthrough trivial) rfl rfl h.chain h.locks
  | punchBalance q =>
    have hq := hp.jobOf rfl
    rw [advance, advance, loyaltyBalance_congr (hthrough trivial)]
    refine rel_onward (T := Eq) (.of_ok fun _ _ ↦ rfl)
      (fun problem ↦ hstopped _ (punchOf_job rfl hq) Bool.false_ne_true) ?_
    rintro before _ rfl
    exact .keep h (punchOf_job rfl hq) (fun _ ↦ hthrough trivial) rfl rfl h.chain h.locks
  | punchRewards q before =>
    have hq := hp.jobOf rfl
    rw [advance, advance, planPunch_congr (hthrough trivial)]
    refine rel_onward (T := Eq) (.of_ok fun _ _ ↦ rfl)
      (fun problem ↦ hstopped _ (punchOf_job rfl hq) Bool.false_ne_true) ?_
    rintro plan _ rfl
    refine .keep h ?_ (fun _ ↦ hthrough trivial) rfl rfl h.chain h.locks
    split
    · exact punchOf_job rfl hq
    · exact punchOf_job rfl hq
  | punchAccount q plan =>
    have hq := hp.jobOf rfl
    rw [advance, advance]
    split
    · exact rel_takeLock h (punchOf_job rfl hq) (fun _ ↦ hthrough trivial) _
    · exact .some (hstopped _ (punchOf_job rfl hq) Bool.false_ne_true)
  | punchIssue q plan signer =>
    have hq := hp.jobOf rfl
    rw [advance, advance]
    split
    · exact .some (hstopped _ (punchOf_job rfl hq) Bool.false_ne_true)
    · rw [submit_congr h]
      split
      · exact .some (hstopped _ (punchOf_job rfl hq) Bool.false_ne_true)
      · refine .some (.keep h ?_ (fun _ ↦ hthrough trivial) rfl rfl rfl h.locks)
        split
        · exact punchOf_job rfl hq
        · exact punchOf_job rfl hq
  | punchStore q plan issued rewarding =>
    have hq := hp.jobOf rfl
    refine rel_onward (rel_store (h.db.storePunch (hthrough trivial) plan.receipt issued) _)
      (fun problem ↦ hstopped _ (punchOf_afterPunch hq rewarding _)
        (not_through_afterPunch rewarding problem)) ?_
    rintro db db' ⟨hdb, hsame⟩
    exact ⟨rfl, punchOf_afterPunch hq rewarding _, ⟨hdb, h.chain, h.locks⟩, fun _ ↦ hsame,
      fun _ ↦ hsame⟩
  | punchRelease q answer =>
    have hq := hp.jobOf rfl
    refine .some (.keep h (punchOf_job rfl hq) hthrough rfl rfl h.chain ?_)
    rw [World.unlock, World.unlock, h.locks]
  | punchUnlock q answer =>
    have hq := hp.jobOf rfl
    refine .some (.keep h trivial hthrough rfl rfl h.chain ?_)
    rw [World.unlock, World.unlock, h.locks]
  | answered answer => exact .none
  | _ =>
    obtain ⟨_, hjob, -⟩ := hp
    exact absurd hjob.symm (Option.some_ne_none _)

end Step

/-! ### Punches in any order -/

/-- The body of a punch of a customer. -/
abbrev BodyOf (x : cl.names) := {body : PunchBody // utf8 (trimSpace body.customerRef) = x}

/-- Punches of a customer that have arrived. -/
def arrivals (a : AuthCtx) (x : cl.names) (w : World) (bodies : ℕ → BodyOf x) :
    Config World (Place reg) :=
  ⟨w, fun i ↦ .punch a programID (bodies i)⟩

/-- A run of punches, and the one from the start. -/
structure AlikeRuns (a : AuthCtx) (x : cl.names) (c c' : Config World (Place reg)) : Prop where
  requests : c'.requests = c.requests
  worlds : AlikeWorlds a x c.shared c'.shared
  punches : ∀ i, PunchOf a x (c.requests i)
  through : ∀ i, Through (c.requests i) → SameTables c.shared.db c'.shared.db

/-- **The punches of a customer go as if it had had its reference from the start.** -/
theorem alikeRuns_serve (reg : Registry d) (a : AuthCtx) (h : History cl) (x : cl.names)
    (chain : ContractState) (locks : Lock → Bool) (bodies : ℕ → BodyOf x)
    (turns : List (Turn Choice Tx)) :
    AlikeRuns a x ((service reg).serve (arrivals a x ⟨h.db a, chain, locks⟩ bodies) turns)
      ((service reg).serve (arrivals a x ⟨(h.fromStart x).db a, chain, locks⟩ bodies) turns) := by
  refine serve_related (R := AlikeRuns a x) ?_ ?_ ?_ turns
  · exact ⟨rfl, ⟨alike_fromStart a x h, rfl, rfl⟩, fun i ↦ ⟨rfl, rfl, (bodies i).2⟩,
      fun i hi ↦ absurd hi Bool.false_ne_true⟩
  · intro c c' i ch hc
    rw [hc.requests]
    refine rel_imp (rel_advance hc.worlds (hc.punches i) (hc.through i)) ?_
    rintro ⟨p, w⟩ ⟨p', w'⟩ hstep
    obtain rfl : p' = p := hstep.place
    refine ⟨rfl, hstep.worlds, fun j ↦ ?_, fun j hj ↦ ?_⟩
    · dsimp only
      rcases eq_or_ne j i with rfl | hij
      · rw [Function.update_self]
        exact hstep.punch
      · rw [Function.update_of_ne hij]
        exact hc.punches j
    · dsimp only at hj ⊢
      rcases eq_or_ne j i with rfl | hij
      · rw [Function.update_self] at hj
        exact hstep.through hj
      · rw [Function.update_of_ne hij] at hj
        exact hstep.keeps (hc.through j hj)
  · intro c c' tx hc
    have hdb : ∀ w : World, ((service reg).outside tx w).db = w.db := db_outside reg tx
    refine ⟨hc.requests, ⟨?_, ?_, ?_⟩, hc.punches, fun i hi ↦ ?_⟩
    · rw [hdb, hdb]
      exact hc.worlds.db
    · show (outside reg tx c'.shared).chain = (outside reg tx c.shared).chain
      rw [outside, outside]
      split
      · rw [hc.worlds.chain]
      · exact hc.worlds.chain
    · show (outside reg tx c'.shared).locks = (outside reg tx c.shared).locks
      rw [outside, outside]
      split
      · exact hc.worlds.locks
      · exact hc.worlds.locks
    · dsimp only
      rw [hdb, hdb]
      exact hc.through i hi

/-! ### A legacy customer -/

/-- What `handlePunch` writes for a punch that was counted, without the hash of its transaction. -/
structure PunchReply where
  customerRef : Bytes
  punches : Int64
  progress : Int64
  threshold : Int64
  rewardsIssued : List Bytes
  receipt : SignedReceipt

/-- The reply of a request that was answered, if it was a punch that was counted. -/
def reply (program : ProgramRow) : Place reg → Option PunchReply
  | .answered (.punched ref after issued receipt) =>
    some ⟨ref, after, after % program.threshold, program.threshold, issued, receipt⟩
  | _ => none

theorem through_of_reply {program : ProgramRow} {p : Place reg} {r : PunchReply}
    (h : reply program p = some r) : Through p := by
  cases p with
  | answered answer =>
    cases answer with
    | punched => rfl
    | _ => exact absurd h nofun
  | _ => exact absurd h nofun

/-- `migrateLegacyLoyaltyCustomer`, for a customer of a program. -/
def migrate (a : AuthCtx) (x : cl.names) (sharedID : ℕ) (db : Database) : Database :=
  db.migrateCustomer programID sharedID (legacyCustomerReference d programID x)
    (customerRef d a programID x)

/-- A reference of another customer, before or now. -/
def OtherRef (a : AuthCtx) (x : cl.names) (ref : Bytes) : Prop :=
  ∃ y : cl.names, y ≠ x ∧
    (ref = customerRef d a programID y ∨ ref = legacyCustomerReference d programID y)

theorem OtherRef.ne {x : cl.names} {ref : Bytes} (h : OtherRef a x ref) :
    ref ≠ legacyCustomerReference d programID x := by
  obtain ⟨y, hyx, rfl | rfl⟩ := h
  · exact customerRef_ne_legacy (cl.nonempty y y.2) (cl.nonempty x x.2) a programID
  · exact fun heq ↦ hyx (Subtype.ext (cl.legacy_inj y.2 x.2 heq))

/-- **A customer that was a legacy one is as good as one that never was.** -/
theorem legacy_customer (reg : Registry d) (cl : Clientele d programID) (a : AuthCtx)
    (x : cl.names) (sharedID : ℕ) :
    (∀ (h : History cl) (chain : ContractState) (locks : Lock → Bool) (bodies : ℕ → BodyOf x)
        (turns : List (Turn Choice Tx)),
      let c := (service reg).serve (arrivals a x ⟨h.db a, chain, locks⟩ bodies) turns
      let c' := (service reg).serve (arrivals a x ⟨(h.fromStart x).db a, chain, locks⟩ bodies) turns
      c'.requests = c.requests ∧
        (∀ program i, reply program (c'.requests i) = reply program (c.requests i)) ∧
        c'.shared.chain = c.shared.chain ∧
        (∀ id, c'.shared.db.programPunches id = c.shared.db.programPunches id ∧
          c'.shared.db.programRewards id = c.shared.db.programRewards id) ∧
        (∀ id, c'.shared.db.codeEvents id = c.shared.db.codeEvents id) ∧
        ∀ program i r, reply program (c.requests i) = some r →
          c'.shared.db.punches = c.shared.db.punches ∧
            c'.shared.db.rewards = c.shared.db.rewards) ∧
      (∀ n db, (migrate a x sharedID)^[n + 1] db = migrate a x sharedID db) ∧
      (∀ db id, (migrate a x sharedID db).programPunches id = db.programPunches id ∧
        (migrate a x sharedID db).programRewards id = db.programRewards id ∧
        (migrate a x sharedID db).codeEvents id = db.codeEvents id) ∧
      ∀ (db : Database) (i : ℕ),
        (∀ p, db.punches[i]? = some p → p.programID ≠ programID ∨ OtherRef a x p.customerRef →
          (migrate a x sharedID db).punches[i]? = some p) ∧
        (∀ r, db.rewards[i]? = some r → r.programID ≠ programID ∨ OtherRef a x r.customerRef →
          (migrate a x sharedID db).rewards[i]? = some r) ∧
        ∀ e, db.sharedEvents.rows[i]? = some e →
          e.sharedCodeID ≠ sharedID ∨ OtherRef a x e.customerRef ∨ e.receipt.isSome = true →
            (migrate a x sharedID db).sharedEvents.rows[i]? = some e := by
  refine ⟨fun h chain locks bodies turns ↦ ?_, fun n db ↦ ?_, fun db id ↦ ?_, fun db i ↦ ?_⟩
  · have hruns := alikeRuns_serve reg a h x chain locks bodies turns
    refine ⟨hruns.requests, fun program i ↦ by rw [hruns.requests], hruns.worlds.chain,
      fun id ↦ ?_, fun id ↦ (hruns.worlds.db.sums 0 id).2.2, fun program i r hr ↦ ?_⟩
    · obtain ⟨hpunches, hrewards, -⟩ := hruns.worlds.db.sums id 0
      exact ⟨hpunches, hrewards⟩
    · have hthrough := hruns.through i (through_of_reply hr)
      exact ⟨hthrough.punches, hthrough.rewards⟩
  · induction n with
    | zero => rfl
    | succ n ih =>
      rw [Function.iterate_succ_apply', ih]
      exact migrate_migrate db programID sharedID _ _
  · exact sums_migrate db programID sharedID _ _ id id
  · obtain ⟨hpunches, hrewards, hevents⟩ := frame_migrate db programID sharedID
      (legacyCustomerReference d programID x) (customerRef d a programID x) i
    exact ⟨fun p hp hother ↦ hpunches p hp (hother.imp_right OtherRef.ne),
      fun r hr hother ↦ hrewards r hr (hother.imp_right OtherRef.ne),
      fun e he hother ↦ hevents e he (hother.imp_right fun h ↦ h.imp_left OtherRef.ne)⟩

/-! ### Two customers -/

namespace AliceAndBob

/-- The SHA-256 digests of what two customers are kept under before. -/
def aliceDigest : BytesN 32 :=
  ⟨[126, 165, 67, 24, 52, 201, 228, 28, 58, 82, 218, 254, 158, 125, 6, 118, 226, 46, 47, 219, 70, 6,
    167, 143, 155, 226, 89, 164, 183, 120, 98, 177], rfl⟩

def bobDigest : BytesN 32 :=
  ⟨[38, 118, 3, 22, 29, 14, 203, 241, 100, 146, 50, 177, 70, 192, 71, 28, 111, 88, 22, 175, 246, 46,
    80, 152, 21, 83, 15, 55, 41, 61, 134, 59], rfl⟩

/-- Their MACs, under the key `key`. -/
def aliceMac : BytesN 32 :=
  ⟨[240, 119, 24, 53, 88, 60, 151, 111, 134, 33, 24, 53, 88, 243, 199, 75, 195, 212, 238, 236, 49,
    132, 210, 45, 151, 131, 135, 100, 19, 245, 102, 161], rfl⟩

def bobMac : BytesN 32 :=
  ⟨[124, 29, 216, 27, 143, 229, 210, 77, 134, 35, 54, 120, 152, 71, 0, 16, 255, 36, 47, 78, 75, 39,
    183, 19, 24, 204, 11, 143, 50, 183, 243, 61], rfl⟩

/-- The hash and the MAC on the names of the two customers. -/
def deployment : Deployment where
  cloudNetwork := ascii "testnet"
  currentContractID := [67]
  quote b := 34 :: b ++ [34]
  base64 b := b
  sha256 b :=
    if b = ascii "sorodeal-loyalty|1|alice" then aliceDigest
    else if b = ascii "sorodeal-loyalty|1|bob" then bobDigest
    else .pad 32 b.reverse
  refMac b :=
    if b = ascii "org:1|env:test|loyalty:1|customer" ++ 0 :: ascii "alice" then aliceMac
    else if b = ascii "org:1|env:test|loyalty:1|customer" ++ 0 :: ascii "bob" then bobMac
    else .pad 32 b.reverse

def account : AuthCtx := ⟨1, .test⟩

/-- A reward for every two punches. -/
def program : ProgramRow := ⟨1, account, 2, 1, [83]⟩

def registry : Registry deployment where
  accounts := [⟨account, Soroticket.Sample.owner, true⟩]
  campaigns := [⟨1, account, 1, [67], 100, false⟩]
  sharedCodes := [⟨1, 1, [83], none⟩]
  programs := [program]
  campaign_key := by simp
  chain_key := by simp
  code_key := by simp
  code_name_key := by simp

/-- Two customers, whose old references differ. -/
def customers : Clientele deployment 1 where
  names := {utf8 "alice", utf8 "bob"}
  nonempty := by
    rintro c (rfl | rfl) <;> decide +kernel
  legacy_inj := by
    have hne : legacyCustomerReference deployment 1 (utf8 "alice") ≠
        legacyCustomerReference deployment 1 (utf8 "bob") := by decide +kernel
    rintro c (rfl | rfl) c' (rfl | rfl) heq
    · rfl
    · exact absurd heq hne
    · exact absurd heq.symm hne
    · rfl

def alice : customers.names := ⟨utf8 "alice", Or.inl rfl⟩

def bob : customers.names := ⟨utf8 "bob", Or.inr rfl⟩

/-- Both have rows under both references, and another program has a punch of its own. -/
def history : History customers where
  punches := [.inr (⟨alice, true⟩, 2), .inr (⟨bob, true⟩, 1), .inl ⟨⟨2, [1], 5⟩, by decide⟩,
    .inr (⟨alice, false⟩, 1), .inr (⟨bob, false⟩, 1)]
  rewards := [.inr (⟨alice, true⟩, [82]), .inr (⟨bob, false⟩, [83])]
  events := ⟨[⟨1, 1, 2, [], none, none, none⟩, ⟨2, 1, 1, [], none, none, none⟩], by decide⟩
  eventFor i := if i = 1 then some ⟨alice, true⟩ else some ⟨bob, true⟩
  tallies := []
  operationDedup := []

/-- Alice punches once. -/
def body : BodyOf alice := ⟨⟨"alice", "", some 1⟩, by decide +kernel⟩

def chain : ContractState := runFrom 0 (Soroticket.Sample.history.take 1)

/-- All goes well. -/
def choice : Choice where
  env := ⟨20, some ⟨[71], fun _ ↦ some [1]⟩, some [2], .ok ()⟩
  stored := true
  read := 0
  ledger := Soroticket.Sample.envAt 20 Soroticket.Sample.owner
  lands := true
  genCode j := some [82, 48 + j.toUInt8]
  decoded := true
  txHash := []

def turns : List (Turn Choice Tx) := List.replicate 11 (.request 0 choice)

/-- After the punches, in the database as it was. -/
def served : Config World (Place registry) :=
  (service registry).serve
    (arrivals account alice ⟨history.db account, chain, fun _ ↦ false⟩ fun _ ↦ body) turns

/-- And in the one in which Alice never was a legacy customer. -/
def servedFromStart : Config World (Place registry) :=
  (service registry).serve
    (arrivals account alice ⟨(history.fromStart alice).db account, chain, fun _ ↦ false⟩
      fun _ ↦ body) turns

/-- The old reference of Bob. -/
def bobRef : Bytes := legacyCustomerReference deployment 1 bob

end AliceAndBob

open AliceAndBob in
/-- Alice's punch is counted with those under her old reference, and is answered as if there had
been none under it; what is Bob's stays under his. -/
theorem legacy_customer_alice :
    (∃ r, reply program (served.requests 0) = some r ∧
      r.customerRef = customerRef deployment account 1 alice ∧ r.punches = 4 ∧
      r.rewardsIssued = [[82, 48]] ∧ reply program (servedFromStart.requests 0) = some r) ∧
    servedFromStart.shared.db.punches = served.shared.db.punches ∧
    servedFromStart.shared.db.rewards = served.shared.db.rewards ∧
    (migrate account alice 1)^[3] (history.db account) =
      migrate account alice 1 (history.db account) ∧
    (history.db account).punches[1]? = some ⟨1, bobRef, 1⟩ ∧
    (migrate account alice 1 (history.db account)).punches[1]? = some ⟨1, bobRef, 1⟩ := by
  obtain ⟨hruns, hagain, -, hframe⟩ := legacy_customer registry customers account alice 1
  obtain ⟨-, hreply, -, -, -, hsame⟩ :=
    hruns history chain (fun _ ↦ false) (fun _ ↦ body) turns
  have hanswered : (reply program (served.requests 0)).map
      (fun r ↦ (r.customerRef, r.punches, r.rewardsIssued)) =
        some (customerRef deployment account 1 alice, 4, [[82, 48]]) := by decide +kernel
  obtain ⟨r, hr, heq⟩ := Option.map_eq_some_iff.1 hanswered
  obtain ⟨href, hrest⟩ := Prod.mk.inj heq
  obtain ⟨hpunches, hissued⟩ := Prod.mk.inj hrest
  obtain ⟨hpunched, hrewarded⟩ := hsame program 0 r hr
  refine ⟨⟨r, hr, href, hpunches, hissued, (hreply program 0).trans hr⟩, hpunched, hrewarded,
    hagain 2 _, rfl, (hframe _ 1).1 _ rfl (Or.inr ⟨bob, ?_, Or.inr rfl⟩)⟩
  exact fun heq ↦ absurd (congrArg Subtype.val heq) (by decide +kernel)

end Legacy

end Soroticket
