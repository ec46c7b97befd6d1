import Soroticket.Cloud.Steps

/-!
# The books of the service

`Books` says that the database and the ledger agree on a code: only a period with a row has events,
and a period with a row has a commitment that covers them. `Asserts` says what a commit relies on at
each of its places, and `Undisturbed` what a step leaves of a code that it is not about.

## Why a commit may stamp by an id

A commit reads the events that wait, calls the contract, and then stamps every event that waits up
to the last id it read. Between the two others record events. At its place between them a commit
asserts that what waits still *begins* with what it read (`Selected`): new events get larger ids, so
they are appended; stamping elsewhere in the table is of other codes, since the lock of the account
is held. That is enough for the stamp to reach exactly the events read (`EventTable.stampable_eq`),
so the count of the transaction is the one it expects.
-/

namespace Soroticket

open Interleaving

variable {d : Deployment} {reg : Registry d}

/-! ### What the books say -/

/-- What a commitment says of the events it anchors. -/
structure Covers (d : Deployment) (commitment : TallyCommitment) (rows : List SharedEvent) :
    Prop where
  ne : rows ≠ []
  length_le : rows.length ≤ maxReceiptsPerTally
  signed : ∀ e ∈ rows, e.receipt.isSome
  count : (commitment.count.toNat : ℤ) = eventTotal rows
  root : ∃ leaves, rows.map SharedEvent.leaf? = leaves.map some ∧
    commitment.merkleRoot = merkleRoot (.zero 32) (merkleParent d.sha256) leaves

/-- The database has a row for a period of a code. -/
def World.HasRow (w : World) (sc : CurrentCode reg) (period : UInt64) : Prop :=
  ∃ t ∈ w.db.tallies, t.sharedCodeID = sc.row.id ∧ t.period = period

/-- The events of a code stamped with a period. -/
abbrev World.stamped (w : World) (sc : CurrentCode reg) (period : UInt64) : List SharedEvent :=
  w.db.sharedEvents.stamped sc.row.id period

/-- The signed events of a code that wait. -/
abbrev World.pending (w : World) (sc : CurrentCode reg) : List SharedEvent :=
  w.db.sharedEvents.pending sc.row.id

/-- The books of a code agree: only a period with a row has events, and a period with a row has a
commitment that covers them. -/
structure Books (w : World) (sc : CurrentCode reg) : Prop where
  row : ∀ period, w.stamped sc period ≠ [] → w.HasRow sc period
  covers : ∀ period, w.HasRow sc period → ∃ commitment,
    w.commitment sc period = some commitment ∧ Covers d commitment (w.stamped sc period)

theorem Books.stamped_eq_nil {w : World} {sc : CurrentCode reg} (h : Books w sc)
    {period : UInt64} (hrow : ¬w.HasRow sc period) : w.stamped sc period = [] := by
  by_contra hsome
  exact hrow (h.row period hsome)

/-- Signed events have the counts of recorded events. -/
def World.Counted (w : World) : Prop :=
  ∀ e ∈ w.db.sharedEvents.rows, e.receipt.isSome → 0 < e.count.toInt ∧ e.count.toInt ≤ 10000

/-! ### What a commit relies on -/

/-- All events of the code that wait are signed. -/
def World.AllSigned (w : World) (sc : CurrentCode reg) : Prop :=
  ∀ e ∈ w.db.sharedEvents.rows, e.sharedCodeID = sc.row.id → e.committedPeriod = none →
    e.receipt.isSome

/-- The events of a code that wait, signed or not. -/
def World.uncommitted (w : World) (sc : CurrentCode reg) : List SharedEvent :=
  w.db.sharedEvents.rows.filter fun e ↦ e.sharedCodeID = sc.row.id ∧ e.committedPeriod = none

theorem World.AllSigned.uncommitted_eq {w : World} {sc : CurrentCode reg} (h : w.AllSigned sc) :
    w.uncommitted sc = w.pending sc := by
  refine List.filter_congr fun e he ↦ ?_
  rw [decide_eq_decide]
  constructor
  · rintro ⟨hcode, hnone⟩
    exact ⟨hcode, hnone, h e he hcode hnone⟩
  · rintro ⟨hcode, hnone, -⟩
    exact ⟨hcode, hnone⟩

/-- What waits begins with what the batch was gathered from. -/
def World.Selected (w : World) (sc : CurrentCode reg) (b : Batch) : Prop :=
  ∃ rows rest, w.pending sc = rows ++ rest ∧ b.Of rows ∧ rows ≠ [] ∧
    rows.length ≤ maxReceiptsPerTally

/-- The batch is on the ledger, and not yet in the database. -/
def World.Pledged (w : World) (sc : CurrentCode reg) (period : UInt64) (b : Batch) : Prop :=
  ¬w.HasRow sc period ∧ ∃ m, w.commitment sc period = some
    ⟨period, b.count, merkleRoot (.zero 32) (merkleParent d.sha256) b.leaves, m⟩

/-- What a commit relies on at each place. -/
def Asserts (p : Place reg) (w : World) : Prop :=
  match p with
  | .commitAccount sc _ | .commitSelect sc _ _ => w.AllSigned sc
  | .commitAnchor sc _ _ b => w.AllSigned sc ∧ w.Selected sc b
  | .commitStore sc period b _ => w.AllSigned sc ∧ w.Selected sc b ∧ w.Pledged sc period b
  | _ => True

theorem asserts_of_anchoring {p : Place reg} (h : p.anchoring = false) (w : World) :
    Asserts p w := by
  cases p <;> trivial

/-! ### What does not disturb a code -/

/-- A step that does not disturb the books of a code: events may be added behind those that wait,
and customers renamed, but nothing is stamped and no commitment lost. -/
structure Undisturbed (sc : CurrentCode reg) (w w' : World) : Prop where
  period : ∀ x ∈ w'.db.sharedEvents.rows, x.sharedCodeID = sc.row.id → ∀ q,
    x.committedPeriod = some q → ∃ e ∈ w.db.sharedEvents.rows, e.id = x.id ∧
      e.sharedCodeID = sc.row.id ∧ e.committedPeriod = some q
  pending : ∃ more, w'.pending sc = w.pending sc ++ more
  stamped : ∀ period, ∃ f, Renames f ∧ w'.stamped sc period = (w.stamped sc period).map f
  row : ∀ period, w'.HasRow sc period ↔ w.HasRow sc period
  commitment : ∀ period m, w.commitment sc period = some m → w'.commitment sc period = some m

theorem renames_id : Renames id := fun _ ↦ Or.inl rfl

theorem SameBooks.undisturbed {w w' : World} (h : SameBooks reg w w') (sc : CurrentCode reg) :
    Undisturbed sc w w' where
  period x hx hcode q hq := ⟨x, h.events ▸ hx, rfl, hcode, hq⟩
  pending := ⟨[], by rw [World.pending, h.events, List.append_nil]⟩
  stamped period := ⟨id, renames_id, by rw [World.stamped, h.events, List.map_id]⟩
  row period := by rw [World.HasRow, World.HasRow, h.tallies]
  commitment period m hm := by rw [h.commitment, hm]

/-- What renaming leaves of an event. -/
theorem Renames.spec {f : SharedEvent → SharedEvent} (hf : Renames f) (e : SharedEvent) :
    (f e).sharedCodeID = e.sharedCodeID ∧ (f e).committedPeriod = e.committedPeriod ∧
      (f e).receipt = e.receipt ∧ (f e).count = e.count ∧ (e.receipt.isSome → f e = e) := by
  rcases hf e with hfix | ⟨hunsigned, ref, hren⟩
  · rw [hfix]
    exact ⟨rfl, rfl, rfl, rfl, fun _ ↦ rfl⟩
  · rw [hren]
    refine ⟨rfl, rfl, rfl, rfl, fun hsigned ↦ ?_⟩
    rw [hunsigned] at hsigned
    exact absurd hsigned (by simp)

theorem Renames.comp {f g : SharedEvent → SharedEvent} (hg : Renames g) (hf : Renames f) :
    Renames (g ∘ f) := by
  intro e
  rw [Function.comp_apply]
  rcases hf e with hfix | ⟨hunsigned, ref, hren⟩
  · rw [hfix]
    exact hg e
  · rw [hren]
    rcases hg { e with customerRef := ref } with hfix | ⟨-, ref', hren'⟩
    · exact Or.inr ⟨hunsigned, ref, hfix⟩
    · exact Or.inr ⟨hunsigned, ref', hren'⟩

namespace Undisturbed

variable {sc : CurrentCode reg} {w w' w'' : World}

theorem refl (sc : CurrentCode reg) (w : World) : Undisturbed sc w w :=
  (SameBooks.refl w).undisturbed sc

theorem trans (h : Undisturbed sc w w') (h' : Undisturbed sc w' w'') :
    Undisturbed sc w w'' where
  period x hx hcode q hq := by
    obtain ⟨y, hy, hid, hcode', hq'⟩ := h'.period x hx hcode q hq
    obtain ⟨e, he, hid', hcode'', hq''⟩ := h.period y hy hcode' q hq'
    exact ⟨e, he, hid'.trans hid, hcode'', hq''⟩
  pending := by
    obtain ⟨more, hmore⟩ := h.pending
    obtain ⟨more', hmore'⟩ := h'.pending
    exact ⟨more ++ more', by rw [hmore', hmore, List.append_assoc]⟩
  stamped period := by
    obtain ⟨f, hf, hstamped⟩ := h.stamped period
    obtain ⟨g, hg, hstamped'⟩ := h'.stamped period
    exact ⟨g ∘ f, hg.comp hf, by rw [hstamped', hstamped, List.map_map]⟩
  row period := (h'.row period).trans (h.row period)
  commitment period m hm := h'.commitment period m (h.commitment period m hm)

/-- An event recorded meanwhile waits. -/
theorem waits (h : Undisturbed sc w w') {x : SharedEvent} (hx : x ∈ w'.db.sharedEvents.rows)
    (hcode : x.sharedCodeID = sc.row.id) (hnew : ∀ e ∈ w.db.sharedEvents.rows, e.id ≠ x.id) :
    x.committedPeriod = none := by
  by_contra hsome
  obtain ⟨q, hq⟩ := Option.ne_none_iff_exists'.1 hsome
  obtain ⟨e, he, hid, -⟩ := h.period x hx hcode q hq
  exact hnew e he hid

/-- The events of a period are the same. -/
theorem stamped_ids (h : Undisturbed sc w w') (period : UInt64) :
    (w'.stamped sc period).map (·.id) = (w.stamped sc period).map (·.id) := by
  obtain ⟨f, hf, hstamped⟩ := h.stamped period
  rw [hstamped, List.map_map]
  refine List.map_congr_left fun e _ ↦ ?_
  rw [Function.comp_apply]
  rcases hf e with hfix | ⟨-, ref, hren⟩
  · rw [hfix]
  · rw [hren]

end Undisturbed

theorem pending_rename {f : SharedEvent → SharedEvent} (hf : Renames f) (t : EventTable)
    (hid : ∀ e, (f e).id = e.id) (sharedID : ℕ) :
    (t.update f hid).pending sharedID = t.pending sharedID := by
  rw [EventTable.pending, EventTable.rows_update, EventTable.pending]
  refine filter_map_of_fixed fun e _ ↦ (hf e).imp_right ?_
  rintro ⟨hunsigned, ref, hren⟩
  rw [hren]
  exact ⟨by simp [hunsigned], by simp [hunsigned]⟩

theorem stamped_rename {f : SharedEvent → SharedEvent} (hf : Renames f) (t : EventTable)
    (hid : ∀ e, (f e).id = e.id) (sharedID : ℕ) (period : UInt64) :
    (t.update f hid).stamped sharedID period = (t.stamped sharedID period).map f := by
  rw [EventTable.stamped, EventTable.rows_update, List.filter_map, EventTable.stamped]
  congr 1
  refine List.filter_congr fun e _ ↦ ?_
  obtain ⟨hcode, hperiod, -⟩ := hf.spec e
  simp only [Function.comp_apply, SharedEvent.Stamped, hcode, hperiod]

section Writes

variable {w w' : World}

/-- Recording an event disturbs no code. -/
theorem undisturbed_of_recorded {e : NewEvent}
    (hevents : w'.db.sharedEvents = w.db.sharedEvents.insert e)
    (htallies : w'.db.tallies = w.db.tallies) (hchain : w'.chain = w.chain)
    (sc : CurrentCode reg) : Undisturbed sc w w' where
  period x hx hcode q hq := by
    rw [hevents] at hx
    rcases EventTable.mem_insert.1 hx with hold | rfl
    · exact ⟨x, hold, rfl, hcode, hq⟩
    · exact absurd hq.symm (Option.some_ne_none q)
  pending := by
    rw [World.pending, hevents]
    exact w.db.sharedEvents.pending_insert e sc.row.id
  stamped period :=
    ⟨id, renames_id, by rw [World.stamped, hevents, EventTable.stamped_insert, List.map_id]⟩
  row period := by rw [World.HasRow, World.HasRow, htallies]
  commitment period m hm := by
    rw [World.commitment, hchain]
    exact hm

/-- Renaming customers disturbs no code. -/
theorem undisturbed_of_renamed {f : SharedEvent → SharedEvent} (hid : ∀ e, (f e).id = e.id)
    (hf : Renames f) (hevents : w'.db.sharedEvents = w.db.sharedEvents.update f hid)
    (htallies : w'.db.tallies = w.db.tallies) (hchain : w'.chain = w.chain)
    (sc : CurrentCode reg) : Undisturbed sc w w' where
  period x hx hcode q hq := by
    rw [hevents] at hx
    obtain ⟨e, he, rfl⟩ := List.mem_map.1 hx
    obtain ⟨hcode', hperiod', -⟩ := hf.spec e
    exact ⟨e, he, (hid e).symm, hcode' ▸ hcode, hperiod' ▸ hq⟩
  pending := ⟨[], by rw [World.pending, hevents, pending_rename hf, List.append_nil]⟩
  stamped period := ⟨f, hf, by rw [World.stamped, hevents, stamped_rename hf]⟩
  row period := by rw [World.HasRow, World.HasRow, htallies]
  commitment period m hm := by
    rw [World.commitment, hchain]
    exact hm

/-- A new commitment disturbs no code. -/
theorem undisturbed_of_anchored {sc : CurrentCode reg} (hdb : w'.db = w.db)
    (hkept : ∀ period m, w.commitment sc period = some m → w'.commitment sc period = some m) :
    Undisturbed sc w w' where
  period x hx hcode q hq := ⟨x, hdb ▸ hx, rfl, hcode, hq⟩
  pending := ⟨[], by rw [World.pending, hdb, List.append_nil]⟩
  stamped period := ⟨id, renames_id, by rw [World.stamped, hdb, List.map_id]⟩
  row period := by rw [World.HasRow, World.HasRow, hdb]
  commitment := hkept

/-- The transaction of a commit disturbs no code but its own. -/
theorem undisturbed_of_stored {sc sc' : CurrentCode reg} (hne : sc.row.id ≠ sc'.row.id)
    {period' : UInt64} {b : Batch} {txHash : Bytes} {db : Database}
    (hstore : w.db.storeTally (tallyRow d.sha256 sc'.row period' b txHash) b.eventIDs = .ok db) :
    Undisturbed sc w { w with db } := by
  obtain ⟨hevents, htallies⟩ := Database.storeTally_eq_ok hstore
  constructor
  · intro x hx hcode q hq
    rw [hevents, EventTable.rows_stamp] at hx
    obtain ⟨e, he, rfl⟩ := List.mem_map.1 hx
    split at hcode
    case isTrue hst => exact absurd (hcode.symm.trans hst.1) hne
    case isFalse hst =>
      rw [if_neg hst] at hq ⊢
      exact ⟨e, he, rfl, hcode, hq⟩
  · refine ⟨[], ?_⟩
    rw [World.pending, hevents, List.append_nil]
    exact EventTable.pending_stamp_of_ne _ hne _ _
  · refine fun period ↦ ⟨id, renames_id, ?_⟩
    rw [World.stamped, hevents, List.map_id]
    exact EventTable.stamped_stamp_of_ne _ (fun heq ↦ hne (Prod.mk.inj heq).1) _
  · intro period
    rw [World.HasRow, World.HasRow, htallies]
    constructor
    · rintro ⟨t, ht, hcode, hperiod⟩
      rcases List.mem_append.1 ht with hold | hnew
      · exact ⟨t, hold, hcode, hperiod⟩
      · rw [List.mem_singleton.1 hnew] at hcode
        exact absurd hcode.symm hne
    · rintro ⟨t, ht, hkey⟩
      exact ⟨t, List.mem_append_left _ ht, hkey⟩
  · exact fun period m hm ↦ hm

end Writes

/-- **Only the transaction of a commit disturbs a code**, and only its own. -/
theorem Does.undisturbed {p p' : Place reg} {w w' : World} (h : Does p w p' w')
    (sc : CurrentCode reg) (hsc : ∀ period b txHash, p ≠ .commitStore sc period b txHash) :
    Undisturbed sc w w' := by
  cases h with
  | quiet hp hp' hbooks => exact hbooks.undisturbed sc
  | locked sc' period signer hp hp' hbooks => exact hbooks.undisturbed sc
  | checked sc' period hp hp' hw hcheck => exact hw ▸ .refl sc w
  | selected sc' period signer b read hp hp' hw => exact hw ▸ .refl sc w
  | stuck sc' period b txHash problem hp hp' hstore hw => exact hw ▸ .refl sc w
  | recorded e hp hp' hevents htallies hchain =>
    exact undisturbed_of_recorded hevents htallies hchain sc
  | renamed f hid hf hp hp' hevents htallies hchain =>
    exact undisturbed_of_renamed hid hf hevents htallies hchain sc
  | anchored sc' period' signer b txHash hp hp' hdb hfree hnew hold =>
    refine undisturbed_of_anchored hdb fun period m hm ↦ ?_
    -- the period it lands in was free
    have hne : (sc, period) ≠ (sc', period') := by
      intro heq
      obtain ⟨rfl, rfl⟩ := Prod.mk.inj heq
      rw [hfree] at hm
      exact absurd hm.symm (Option.some_ne_none m)
    rw [hold sc period hne, hm]
  | stored sc' period' b txHash db hp hp' hstore hw =>
    have hne : sc.row.id ≠ sc'.row.id := by
      intro heq
      obtain rfl := CurrentCode.eq_of_id heq
      exact hsc period' b txHash hp
    exact hw ▸ undisturbed_of_stored hne hstore

/-! ### What a commit relies on survives the others -/

theorem World.Selected.undisturbed {sc : CurrentCode reg} {b : Batch} {w w' : World}
    (h : Undisturbed sc w w') (hsel : w.Selected sc b) : w'.Selected sc b := by
  obtain ⟨rows, rest, hpending, hb, hne, hlen⟩ := hsel
  obtain ⟨more, hmore⟩ := h.pending
  exact ⟨rows, rest ++ more, by rw [hmore, hpending, List.append_assoc], hb, hne, hlen⟩

theorem World.Pledged.undisturbed {sc : CurrentCode reg} {period : UInt64} {b : Batch}
    {w w' : World} (h : Undisturbed sc w w') (hpl : w.Pledged sc period b) :
    w'.Pledged sc period b := by
  obtain ⟨hrow, m, hm⟩ := hpl
  exact ⟨fun hrow' ↦ hrow ((h.row period).1 hrow'), m, h.commitment period _ hm⟩

/-- The code a commit is about. -/
def Place.code? : Place reg → Option (CurrentCode reg)
  | .commitAccount sc _ | .commitSelect sc _ _ | .commitAnchor sc _ _ _
  | .commitStore sc _ _ _ => some sc
  | _ => none

theorem Renames.continues {f : SharedEvent → SharedEvent} (hf : Renames f)
    (hid : ∀ e, (f e).id = e.id) (e : SharedEvent) : Continues e (f e) := by
  obtain ⟨hcode, hperiod, hreceipt, hcount, -⟩ := hf.spec e
  exact ⟨hid e, hcode, hcount, hreceipt, fun q hq ↦ hperiod.trans hq⟩

/-- No step takes an event back. -/
theorem Does.evolves {p p' : Place reg} {w w' : World} (h : Does p w p' w') :
    Evolves w.db.sharedEvents w'.db.sharedEvents := by
  cases h with
  | quiet hp hp' hbooks => exact hbooks.events ▸ .refl _
  | locked sc period signer hp hp' hbooks => exact hbooks.events ▸ .refl _
  | checked sc period hp hp' hw => exact hw ▸ .refl _
  | selected sc period signer b read hp hp' hw => exact hw ▸ .refl _
  | stuck sc period b txHash problem hp hp' hstore hw => exact hw ▸ .refl _
  | anchored sc period signer b txHash hp hp' hdb => exact hdb ▸ .refl _
  | recorded e hp hp' hevents => exact hevents ▸ .insert _ e
  | renamed f hid hf hp hp' hevents => exact hevents ▸ .update _ hid (hf.continues hid)
  | stored sc period b txHash db hp hp' hstore hw =>
    subst hw
    exact (Database.storeTally_eq_ok hstore).1 ▸ .stamp ..

theorem World.AllSigned.evolves {sc : CurrentCode reg} {w w' : World}
    (h : Evolves w.db.sharedEvents w'.db.sharedEvents) (hsigned : w.AllSigned sc) :
    w'.AllSigned sc := by
  intro x hx hcode hnone
  rcases h.origin x hx with ⟨e, he, hex⟩ | hnew
  · rw [hex.receipt]
    refine hsigned e he (hex.code ▸ hcode) ?_
    by_contra hsome
    obtain ⟨q, hq⟩ := Option.ne_none_iff_exists'.1 hsome
    rw [hex.period q hq] at hnone
    exact Option.some_ne_none q hnone
  · exact hnew.signed

theorem World.Counted.evolves {w w' : World}
    (h : Evolves w.db.sharedEvents w'.db.sharedEvents) (hcounted : w.Counted) : w'.Counted := by
  intro x hx hsigned
  rcases h.origin x hx with ⟨e, he, hex⟩ | hnew
  · rw [hex.count]
    exact hcounted e he (hex.receipt ▸ hsigned)
  · exact hnew.count

/-- **What a commit relies on survives the others.** Other requests that do not disturb the code a
commit holds the lock of leave it what it relies on. -/
theorem asserts_undisturbed {q : Place reg} {w w' : World}
    (hevolves : Evolves w.db.sharedEvents w'.db.sharedEvents)
    (h : ∀ sc, Lock.account sc.campaign.account ∈ q.locks → q.code? = some sc →
      Undisturbed sc w w') (hq : Asserts q w) : Asserts q w' := by
  cases q with
  | commitAccount sc | commitSelect sc => exact World.AllSigned.evolves hevolves hq
  | commitAnchor sc =>
    exact ⟨hq.1.evolves hevolves, hq.2.undisturbed (h sc List.mem_cons_self rfl)⟩
  | commitStore sc =>
    exact ⟨hq.1.evolves hevolves, hq.2.1.undisturbed (h sc List.mem_cons_self rfl),
      hq.2.2.undisturbed (h sc List.mem_cons_self rfl)⟩
  | _ => trivial

/-! ### The books survive a step -/

theorem Covers.congr {commitment : TallyCommitment} {rows rows' : List SharedEvent}
    (h : Covers d commitment rows)
    (hmap : ∃ f : SharedEvent → SharedEvent, rows' = rows.map f ∧
      ∀ e ∈ rows, (f e).receipt = e.receipt ∧ (f e).count = e.count) :
    Covers d commitment rows' := by
  obtain ⟨f, rfl, hf⟩ := hmap
  refine ⟨?_, ?_, ?_, ?_, ?_⟩
  · simpa using h.ne
  · simpa using h.length_le
  · intro x hx
    obtain ⟨e, he, rfl⟩ := List.mem_map.1 hx
    rw [(hf e he).1]
    exact h.signed e he
  · rw [h.count, eventTotal, eventTotal, List.map_map]
    refine congrArg List.sum (List.map_congr_left fun e he ↦ ?_)
    rw [Function.comp_apply, (hf e he).2]
  · obtain ⟨leaves, hleaves, hroot⟩ := h.root
    refine ⟨leaves, ?_, hroot⟩
    rw [← hleaves, List.map_map]
    refine List.map_congr_left fun e he ↦ ?_
    rw [Function.comp_apply, SharedEvent.leaf?, (hf e he).1, SharedEvent.leaf?]

theorem Books.undisturbed {sc : CurrentCode reg} {w w' : World} (h : Undisturbed sc w w')
    (hb : Books w sc) : Books w' sc where
  row period hne := by
    obtain ⟨f, -, hstamped⟩ := h.stamped period
    refine (h.row period).2 (hb.row period fun hnil ↦ hne ?_)
    rw [hstamped, hnil, List.map_nil]
  covers period hrow := by
    obtain ⟨f, hf, hstamped⟩ := h.stamped period
    obtain ⟨m, hm, hcov⟩ := hb.covers period ((h.row period).1 hrow)
    refine ⟨m, h.commitment period m hm, hcov.congr ⟨f, hstamped, fun e _ ↦ ?_⟩⟩
    obtain ⟨-, -, hreceipt, hcount, -⟩ := hf.spec e
    exact ⟨hreceipt, hcount⟩

section Stored

variable {w : World} {sc : CurrentCode reg} {period : UInt64} {b : Batch}
  {rows rest : List SharedEvent}

/-- What the transaction of a commit stamps is what its batch was gathered from. -/
theorem stampable_of_selected (hpending : w.pending sc = rows ++ rest) (hb : b.Of rows)
    (hne : rows ≠ []) (hsigned : w.AllSigned sc) :
    (w.db.sharedEvents.rows.filter fun e ↦
      EventTable.Stampable sc.row.id (b.eventIDs.getLastD 0) e) = rows := by
  obtain ⟨init, last, rfl⟩ : ∃ init last, rows = init ++ [last] :=
    ⟨_, _, (List.dropLast_append_getLast hne).symm⟩
  have hlast : b.eventIDs.getLastD 0 = last.id := by
    rw [hb.eventIDs, List.map_append, List.map_singleton, List.getLastD_concat]
  have hsplit : w.pending sc = init ++ last :: rest :=
    hpending.trans (List.append_cons init last rest).symm
  rw [hlast]
  exact EventTable.stampable_eq _ hsplit hsigned

/-- **The transaction of a commit does not fail** for want of a free period, or because its batch
changed. -/
theorem exists_storeTally (hpending : w.pending sc = rows ++ rest) (hb : b.Of rows)
    (hne : rows ≠ []) (hsigned : w.AllSigned sc) (hrow : ¬w.HasRow sc period) (txHash : Bytes) :
    ∃ db, w.db.storeTally (tallyRow d.sha256 sc.row period b txHash) b.eventIDs = .ok db := by
  have hcount : (w.db.sharedEvents.stamp sc.row.id period (b.eventIDs.getLastD 0)).2 =
      b.eventIDs.length := by
    rw [EventTable.stamp, List.countP_eq_length_filter,
      stampable_of_selected hpending hb hne hsigned, hb.eventIDs, List.length_map]
  exact Database.exists_storeTally_eq_ok hrow hcount

/-- The events it stamps. -/
theorem stamped_storeTally {db : Database} {txHash : Bytes}
    (hstore : w.db.storeTally (tallyRow d.sha256 sc.row period b txHash) b.eventIDs = .ok db)
    (hpending : w.pending sc = rows ++ rest) (hb : b.Of rows) (hne : rows ≠ [])
    (hsigned : w.AllSigned sc) (hnone : w.stamped sc period = []) :
    db.sharedEvents.stamped sc.row.id period = rows.map (SharedEvent.stamp period) := by
  rw [(Database.storeTally_eq_ok hstore).1]
  refine (EventTable.stamped_stamp _ hnone _).trans ?_
  rw [stampable_of_selected hpending hb hne hsigned]

/-- The events it stamps are those of its batch. -/
theorem stamped_ids_storeTally {db : Database} {txHash : Bytes}
    (hstore : w.db.storeTally (tallyRow d.sha256 sc.row period b txHash) b.eventIDs = .ok db)
    (hsel : w.Selected sc b) (hsigned : w.AllSigned sc) (hnone : w.stamped sc period = []) :
    (World.stamped { w with db } sc period).map SharedEvent.id = b.eventIDs := by
  obtain ⟨rows, rest, hpending, hb, hne, -⟩ := hsel
  rw [World.stamped, stamped_storeTally hstore hpending hb hne hsigned hnone, List.map_map,
    hb.eventIDs]
  rfl

/-- The transaction adds the row of its period, and no other. -/
theorem hasRow_storeTally {db : Database} {txHash : Bytes}
    (hstore : w.db.storeTally (tallyRow d.sha256 sc.row period b txHash) b.eventIDs = .ok db)
    (period' : UInt64) :
    { w with db }.HasRow sc period' ↔ w.HasRow sc period' ∨ period' = period := by
  rw [World.HasRow, (Database.storeTally_eq_ok hstore).2]
  constructor
  · rintro ⟨t, ht, hcode, hperiod⟩
    rcases List.mem_append.1 ht with hold | hnew
    · exact Or.inl ⟨t, hold, hcode, hperiod⟩
    · rw [List.mem_singleton.1 hnew] at hperiod
      exact Or.inr hperiod.symm
  · rintro (⟨t, ht, hkey⟩ | rfl)
    · exact ⟨t, List.mem_append_left _ ht, hkey⟩
    · exact ⟨_, List.mem_append_right _ List.mem_cons_self, rfl, rfl⟩

/-- A selected batch covers what it was gathered from. -/
theorem covers_of_selected (hcounted : w.Counted) (hpending : w.pending sc = rows ++ rest)
    (hb : b.Of rows) (hne : rows ≠ []) (hlen : rows.length ≤ maxReceiptsPerTally)
    (m : AttributionMap) : Covers d ⟨period, b.count,
      merkleRoot (.zero 32) (merkleParent d.sha256) b.leaves, m⟩ rows := by
  have hmem : ∀ e ∈ rows, e ∈ w.db.sharedEvents.rows ∧ e.receipt.isSome := by
    intro e he
    have hin : e ∈ w.pending sc := hpending ▸ List.mem_append_left rest he
    obtain ⟨hrows, hwaits⟩ := List.mem_filter.1 hin
    exact ⟨hrows, (of_decide_eq_true hwaits).2.2⟩
  refine ⟨hne, hlen, fun e he ↦ (hmem e he).2, ?_, b.leaves, hb.leaves, rfl⟩
  exact hb.toNat_count (fun e he ↦ hcounted e (hmem e he).1 (hmem e he).2) hlen

/-- The transaction leaves the other periods of its code alone. -/
theorem stamped_storeTally_of_ne {db : Database} {txHash : Bytes} {period' : UInt64}
    (hstore : w.db.storeTally (tallyRow d.sha256 sc.row period b txHash) b.eventIDs = .ok db)
    (hperiod : period' ≠ period) : { w with db }.stamped sc period' = w.stamped sc period' := by
  rw [World.stamped, (Database.storeTally_eq_ok hstore).1]
  exact EventTable.stamped_stamp_of_ne _ (fun heq ↦ hperiod (Prod.mk.inj heq).2) _

/-- The transaction changes nothing but the events of its batch. -/
theorem origin_storeTally {db : Database} {txHash : Bytes}
    (hstore : w.db.storeTally (tallyRow d.sha256 sc.row period b txHash) b.eventIDs = .ok db)
    (hpending : w.pending sc = rows ++ rest) (hb : b.Of rows) (hne : rows ≠ [])
    (hsigned : w.AllSigned sc) {x : SharedEvent} (hx : x ∈ db.sharedEvents.rows) :
    x ∈ w.db.sharedEvents.rows ∨ x.id ∈ b.eventIDs := by
  rw [(Database.storeTally_eq_ok hstore).1, EventTable.rows_stamp] at hx
  obtain ⟨e, he, rfl⟩ := List.mem_map.1 hx
  split
  case isTrue hst =>
    have hin : e ∈ rows := by
      rw [← stampable_of_selected hpending hb hne hsigned]
      exact List.mem_filter.2 ⟨he, decide_eq_true hst⟩
    rw [hb.eventIDs]
    exact Or.inr (List.mem_map.2 ⟨e, hin, rfl⟩)
  case isFalse => exact Or.inl he

/-- **The books agree after the transaction of a commit.** -/
theorem Books.stored {db : Database} {txHash : Bytes} (hbooks : Books w sc)
    (hcounted : w.Counted) (hsigned : w.AllSigned sc) (hsel : w.Selected sc b)
    (hpledged : w.Pledged sc period b)
    (hstore : w.db.storeTally (tallyRow d.sha256 sc.row period b txHash) b.eventIDs = .ok db) :
    Books { w with db } sc := by
  obtain ⟨rows, rest, hpending, hb, hne, hlen⟩ := hsel
  obtain ⟨hrow, m, hm⟩ := hpledged
  have hstamped := stamped_storeTally hstore hpending hb hne hsigned (hbooks.stamped_eq_nil hrow)
  constructor
  · intro period' hsome
    rw [hasRow_storeTally hstore]
    rcases eq_or_ne period' period with rfl | hperiod
    · exact Or.inr rfl
    · rw [stamped_storeTally_of_ne hstore hperiod] at hsome
      exact Or.inl (hbooks.row period' hsome)
  · intro period' hrow'
    rcases eq_or_ne period' period with rfl | hperiod
    · exact ⟨_, hm, (covers_of_selected hcounted hpending hb hne hlen m).congr
        ⟨_, hstamped, fun _ _ ↦ ⟨rfl, rfl⟩⟩⟩
    · rw [hasRow_storeTally hstore, or_iff_left hperiod] at hrow'
      rw [stamped_storeTally_of_ne hstore hperiod]
      exact hbooks.covers period' hrow'

end Stored

end Soroticket
