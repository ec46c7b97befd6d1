import Soroticket.Cloud.Books

/-!
# The service stays consistent

The state of the service is `Consistent` when the books of every code agree, every request has what
it relies on, and a commitment without a row belongs to a commit about to store it. A service at
rest is consistent and every turn keeps it so (`AtRest.consistent_serve`): the step of one request
leaves the others what they rely on, because the only step that disturbs a code is the transaction
of a commit, and a commit holds the lock of its account.
-/

namespace Soroticket

open Interleaving

variable {d : Deployment} {reg : Registry d}

/-! ### Consistency -/

/-- The state of the service agrees with itself. -/
structure Consistent (c : Config World (Place reg)) : Prop where
  exclusive : Exclusive (fun (p : Place reg) k ↦ k ∈ p.locks) (fun w k ↦ w.locks k = true) c
  counted : c.shared.Counted
  books : ∀ sc : CurrentCode reg, Books c.shared sc
  asserts : ∀ i, Asserts (c.requests i) c.shared
  pledges : ∀ (sc : CurrentCode reg) (period : UInt64) (m : TallyCommitment),
    c.shared.commitment sc period = some m → c.shared.HasRow sc period ∨
      ∃ i b txHash, c.requests i = .commitStore sc period b txHash

/-- The service at rest, before its first request: the books of every code agree, and every
commitment has a row. Its tables may hold any codes, any events that wait, and any tallies that
agree. -/
structure AtRest (c : Config World (Place reg)) : Prop where
  arriving : ∀ i, (c.requests i).Arriving
  counted : c.shared.Counted
  books : ∀ sc : CurrentCode reg, Books c.shared sc
  stored : ∀ (sc : CurrentCode reg) (period : UInt64) (m : TallyCommitment),
    c.shared.commitment sc period = some m → c.shared.HasRow sc period

theorem Place.Arriving.anchoring {p : Place reg} (h : p.Arriving) : p.anchoring = false := by
  cases p <;> trivial

theorem AtRest.consistent {c : Config World (Place reg)} (h : AtRest c) : Consistent c where
  exclusive := exclusive_of_arriving h.arriving
  counted := h.counted
  books := h.books
  asserts i := asserts_of_anchoring (h.arriving i).anchoring c.shared
  pledges sc period m hm := Or.inl (h.stored sc period m hm)

/-- Only one request holds the lock of an account. -/
theorem Consistent.eq_of_locks {c : Config World (Place reg)} (hc : Consistent c)
    {sc : CurrentCode reg} {i j : ℕ} (hi : Lock.account sc.campaign.account ∈ (c.requests i).locks)
    (hj : Lock.account sc.campaign.account ∈ (c.requests j).locks) : i = j :=
  (hc.exclusive (.account sc.campaign.account)).2 i j hi hj

theorem account_mem_locks {p : Place reg} {sc : CurrentCode reg} {period : UInt64} {b : Batch}
    {txHash : Bytes} (h : p = .commitStore sc period b txHash) :
    Lock.account sc.campaign.account ∈ p.locks := by
  rw [h]
  exact List.mem_cons_self

/-- A service whose events are unanchored, like its ledger, is at rest. -/
theorem atRest_of_unanchored {c : Config World (Place reg)}
    (harriving : ∀ i, (c.requests i).Arriving) (hcounted : c.shared.Counted)
    (hevents : ∀ e ∈ c.shared.db.sharedEvents.rows, e.committedPeriod = none)
    (htallies : c.shared.db.tallies = [])
    (hledger : ∀ (sc : CurrentCode reg) (period : UInt64), c.shared.commitment sc period = none) :
    AtRest c where
  arriving := harriving
  counted := hcounted
  books sc := by
    constructor
    · intro period hne
      obtain ⟨e, he⟩ := List.exists_mem_of_ne_nil _ hne
      obtain ⟨hin, hst⟩ := List.mem_filter.1 he
      have hsome := (of_decide_eq_true hst).2
      rw [hevents e hin] at hsome
      exact absurd hsome.symm (Option.some_ne_none _)
    · rintro period ⟨t, ht, -⟩
      rw [htallies] at ht
      exact absurd ht List.not_mem_nil
  stored sc period m hm := by
    rw [hledger] at hm
    exact absurd hm.symm (Option.some_ne_none m)

/-! ### A step keeps it -/

/-- No event waits unsigned where none is counted. -/
theorem allSigned_of_check {w : World} {sc : CurrentCode reg}
    (h : w.db.sharedEvents.unsignedReceipts sc.row.id = 0) : w.AllSigned sc := by
  intro e he hcode hnone
  by_contra hunsigned
  rw [EventTable.unsignedReceipts, List.countP_eq_zero] at h
  exact h e he (decide_eq_true ⟨hcode, hnone, by simpa using hunsigned⟩)

/-- A batch is selected by reading it. -/
theorem selected_of_read {w : World} {sc : CurrentCode reg} {b : Batch} {read : ℕ}
    (hread : readBatch (w.db.selectRows sc.row.id read) = some b) (hne : b.total ≠ 0) :
    w.Selected sc b := by
  have hb := readBatch_spec hread
  refine ⟨w.db.selectRows sc.row.id read,
    (w.pending sc).drop (min read maxReceiptsPerTally), ?_, hb, ?_, ?_⟩
  · rw [Database.selectRows, List.take_take, List.take_append_drop]
  · intro hnil
    rw [hnil] at hb
    exact hne hb.total
  · rw [Database.selectRows, List.take_take, List.length_take]
    omega

/-- A commit that has called the contract ends its transaction. -/
theorem Does.stores {p p' : Place reg} {w w' : World} (h : Does p w p' w') (hasserts : Asserts p w)
    {sc : CurrentCode reg} {period : UInt64} {b : Batch} {txHash : Bytes}
    (hp : p = .commitStore sc period b txHash) :
    ∃ db, w.db.storeTally (tallyRow d.sha256 sc.row period b txHash) b.eventIDs = .ok db ∧
      w' = { w with db } ∧
      p' = .commitRelease sc (.committed period b.total b.eventIDs.length
        (tallyRow d.sha256 sc.row period b txHash).merkleRoot txHash) := by
  subst hp
  obtain ⟨hsigned, ⟨rows, rest, hpending, hb, hne, -⟩, hrow, -⟩ := hasserts
  obtain ⟨db, hdb⟩ := exists_storeTally hpending hb hne hsigned hrow txHash
  cases h with
  | quiet hp | recorded e hp | renamed f hid hf hp => exact absurd hp (by simp [Place.storing])
  | checked sc' period' hp | locked sc' period' signer hp | selected sc' period' signer b' read hp
  | anchored sc' period' signer b' txHash' hp => exact absurd hp (by simp)
  | stored sc' period' b' txHash' db' hp hp' hstore hw =>
    obtain ⟨rfl, rfl, rfl, rfl⟩ := Place.commitStore.inj hp
    exact ⟨db', hstore, hw, hp'⟩
  | stuck sc' period' b' txHash' problem hp hp' hstore hw =>
    obtain ⟨rfl, rfl, rfl, rfl⟩ := Place.commitStore.inj hp
    rw [hdb] at hstore
    exact absurd hstore (by simp)

/-- A step leaves its request what it relies on next. -/
theorem Does.asserts {p p' : Place reg} {w w' : World} (h : Does p w p' w')
    (hbooks : ∀ sc : CurrentCode reg, Books w sc) (hasserts : Asserts p w) : Asserts p' w' := by
  have hevolves := h.evolves
  cases h with
  | quiet hp hp' | recorded e hp hp' | renamed f hid hf hp hp' =>
    exact asserts_of_anchoring hp' w'
  | checked sc period hp hp' hw hcheck =>
    subst hp' hw
    exact allSigned_of_check hcheck
  | locked sc period signer hp hp' hbooks' =>
    subst hp hp'
    exact World.AllSigned.evolves hevolves hasserts
  | selected sc period signer b read hp hp' hw hread hne =>
    subst hp hp' hw
    exact ⟨hasserts, selected_of_read hread hne⟩
  | anchored sc period signer b txHash hp hp' hdb hfree hnew hold =>
    subst hp hp'
    obtain ⟨hsigned, rows, rest, hpending, hb⟩ := hasserts
    refine ⟨hsigned.evolves hevolves, ⟨rows, rest, ?_, hb⟩, ?_, _, hnew⟩
    · rw [World.pending, hdb]
      exact hpending
    · rw [World.HasRow, hdb]
      intro hrow
      obtain ⟨m, hm, -⟩ := (hbooks sc).covers period hrow
      rw [hfree] at hm
      exact Option.some_ne_none m hm.symm
  | stored sc period b txHash db hp hp' | stuck sc period b txHash problem hp hp' =>
    subst hp'
    trivial

/-- A commit that has selected its batch and not ended its transaction. -/
def Place.Selected (sc : CurrentCode reg) (period : UInt64) (b : Batch) (p : Place reg) : Prop :=
  (∃ signer, p = .commitAnchor sc period signer b) ∨ ∃ txHash, p = .commitStore sc period b txHash

theorem Place.Selected.locks {sc : CurrentCode reg} {period : UInt64} {b : Batch} {p : Place reg}
    (h : p.Selected sc period b) : Lock.account sc.campaign.account ∈ p.locks := by
  rcases h with ⟨signer, rfl⟩ | ⟨txHash, rfl⟩
  · exact List.mem_cons_self
  · exact List.mem_cons_self

/-- A commit gets there by selecting: its batch is the first of the events that wait. -/
theorem Does.selects {p p' : Place reg} {w w' : World} (h : Does p w p' w') (hasserts : Asserts p w)
    {sc : CurrentCode reg} {period : UInt64} {b : Batch} (hp : ¬p.Selected sc period b)
    (hp' : p'.Selected sc period b) :
    (∃ signer, p = .commitSelect sc period signer) ∧
      b.eventIDs <+: (w.uncommitted sc).map (·.id) := by
  have hanchoring : p'.anchoring = true := by
    rcases hp' with ⟨signer, rfl⟩ | ⟨txHash, rfl⟩ <;> rfl
  cases h with
  | quiet _ hplace | recorded e _ hplace | renamed f hid hf _ hplace =>
    exact absurd hanchoring (by simp [hplace])
  | checked sc' period' _ hplace | locked sc' period' signer' _ hplace
  | stored sc' period' b' txHash' db _ hplace | stuck sc' period' b' txHash' problem _ hplace =>
    rw [hplace] at hp'
    rcases hp' with ⟨signer, hp'⟩ | ⟨txHash, hp'⟩
    · exact absurd hp' (by simp)
    · exact absurd hp' (by simp)
  | anchored sc' period' signer' b' txHash' hplace hplace' =>
    refine absurd (Or.inl ⟨signer', ?_⟩) hp
    rw [hplace'] at hp'
    rcases hp' with ⟨signer, hp'⟩ | ⟨txHash, hp'⟩
    · exact absurd hp' (by simp)
    · obtain ⟨rfl, rfl, rfl, -⟩ := Place.commitStore.inj hp'
      exact hplace
  | selected sc' period' signer' b' read hplace hplace' hw hread hne =>
    rw [hplace'] at hp'
    rcases hp' with ⟨signer, hp'⟩ | ⟨txHash, hp'⟩
    · obtain ⟨rfl, rfl, -, rfl⟩ := Place.commitAnchor.inj hp'
      rw [hplace] at hasserts
      refine ⟨⟨signer', hplace⟩, ?_⟩
      rw [World.AllSigned.uncommitted_eq hasserts, (readBatch_spec hread).eventIDs]
      refine List.IsPrefix.map _ ?_
      rw [Database.selectRows]
      exact (List.take_prefix _ _).trans (List.take_prefix _ _)
    · exact absurd hp' (by simp)

/-- A step leaves the books in agreement. -/
theorem Does.books {p p' : Place reg} {w w' : World} (h : Does p w p' w') (hcounted : w.Counted)
    (hasserts : Asserts p w) {sc : CurrentCode reg} (hbooks : Books w sc) : Books w' sc := by
  by_cases hp : ∃ period b txHash, p = .commitStore sc period b txHash
  · obtain ⟨period, b, txHash, rfl⟩ := hp
    obtain ⟨db, hstore, rfl, -⟩ := h.stores hasserts rfl
    exact hbooks.stored hcounted hasserts.1 hasserts.2.1 hasserts.2.2 hstore
  · exact hbooks.undisturbed
      (h.undisturbed sc fun period b txHash heq ↦ hp ⟨period, b, txHash, heq⟩)

/-- A commitment was there before the step, or the step landed it. -/
theorem Does.commitment_origin {p p' : Place reg} {w w' : World} (h : Does p w p' w')
    {sc : CurrentCode reg} {period : UInt64} {m : TallyCommitment}
    (hm : w'.commitment sc period = some m) :
    w.commitment sc period = some m ∨
      ∃ signer b txHash, p = .commitAnchor sc period signer b ∧
        p' = .commitStore sc period b txHash ∧ m.count = b.count ∧
        m.merkleRoot = merkleRoot (.zero 32) (merkleParent d.sha256) b.leaves := by
  cases h with
  | quiet hp hp' hbooks => exact Or.inl ((hbooks.commitment sc period) ▸ hm)
  | locked sc' period' signer hp hp' hbooks => exact Or.inl ((hbooks.commitment sc period) ▸ hm)
  | recorded e hp hp' hevents htallies hchain =>
    rw [World.commitment, hchain] at hm
    exact Or.inl hm
  | renamed f hid hf hp hp' hevents htallies hchain =>
    rw [World.commitment, hchain] at hm
    exact Or.inl hm
  | checked sc' period' hp hp' hw => exact Or.inl (hw ▸ hm)
  | selected sc' period' signer b read hp hp' hw => exact Or.inl (hw ▸ hm)
  | stuck sc' period' b txHash problem hp hp' hstore hw => exact Or.inl (hw ▸ hm)
  | stored sc' period' b txHash db hp hp' hstore hw =>
    subst hw
    exact Or.inl hm
  | anchored sc' period' signer b txHash hp hp' hdb hfree hnew hold =>
    by_cases hkey : (sc, period) = (sc', period')
    · obtain ⟨rfl, rfl⟩ := Prod.mk.inj hkey
      rw [hnew] at hm
      obtain rfl := Option.some.inj hm
      exact Or.inr ⟨signer, b, txHash, hp, hp', rfl, rfl⟩
    · rw [hold sc period hkey] at hm
      exact Or.inl hm

/-- A row stays. -/
theorem Does.hasRow {p p' : Place reg} {w w' : World} (h : Does p w p' w')
    (hasserts : Asserts p w) {sc : CurrentCode reg} {period : UInt64}
    (hrow : w.HasRow sc period) : w'.HasRow sc period := by
  by_cases hp : ∃ period' b txHash, p = .commitStore sc period' b txHash
  · obtain ⟨period', b, txHash, rfl⟩ := hp
    obtain ⟨db, hstore, rfl, -⟩ := h.stores hasserts rfl
    exact (hasRow_storeTally hstore period).2 (Or.inl hrow)
  · exact ((h.undisturbed sc fun period' b txHash heq ↦
      hp ⟨period', b, txHash, heq⟩).row period).2 hrow

/-- **A step keeps the service consistent.** -/
theorem Consistent.advance {c : Config World (Place reg)} (hc : Consistent c) {i : ℕ}
    {ch : Choice} {p : Place reg} {w : World}
    (h : (service reg).advance ch (c.requests i) c.shared = some (p, w)) :
    Consistent ⟨w, Function.update c.requests i p⟩ := by
  have hdoes : Does (c.requests i) c.shared p w := advance_does h
  constructor
  · have hturn := (lockDiscipline reg).exclusive_serve hc.exclusive [.request i ch]
    rwa [show (service reg).serve c [.request i ch] = ⟨w, Function.update c.requests i p⟩ from
      Service.turn_of_advance h] at hturn
  · exact hc.counted.evolves hdoes.evolves
  · exact fun sc ↦ hdoes.books hc.counted (hc.asserts i) (hc.books sc)
  · intro j
    show Asserts (Function.update c.requests i p j) w
    rcases eq_or_ne j i with rfl | hne
    · rw [Function.update_self]
      exact hdoes.asserts hc.books (hc.asserts j)
    · rw [Function.update_of_ne hne]
      refine asserts_undisturbed hdoes.evolves (fun sc hlock _ ↦ ?_) (hc.asserts j)
      -- the lock keeps out every other commit on the account
      exact hdoes.undisturbed sc fun period b txHash hp ↦
        hne (hc.eq_of_locks hlock (account_mem_locks hp))
  · intro sc period m hm
    rcases hdoes.commitment_origin hm with hold | ⟨signer, b, txHash, -, rfl, -⟩
    · rcases hc.pledges sc period m hold with hrow | ⟨j, b, txHash, hj⟩
      · exact Or.inl (hdoes.hasRow (hc.asserts i) hrow)
      · rcases eq_or_ne j i with rfl | hne
        · obtain ⟨db, hstore, rfl, -⟩ := hdoes.stores (hc.asserts j) hj
          exact Or.inl ((hasRow_storeTally hstore period).2 (Or.inr rfl))
        · refine Or.inr ⟨j, b, txHash, ?_⟩
          show Function.update c.requests i p j = _
          rw [Function.update_of_ne hne, hj]
    · refine Or.inr ⟨i, b, txHash, ?_⟩
      show Function.update c.requests i _ i = _
      rw [Function.update_self]

/-- Others keep the service consistent. -/
theorem Consistent.outside {c : Config World (Place reg)} (hc : Consistent c) (tx : Tx) :
    Consistent ⟨(service reg).outside tx c.shared, c.requests⟩ := by
  have hbooks : SameBooks reg c.shared ((service reg).outside tx c.shared) :=
    sameBooks_outside reg tx c.shared
  have hevolves : Evolves c.shared.db.sharedEvents
      ((service reg).outside tx c.shared).db.sharedEvents := hbooks.events ▸ .refl _
  constructor
  · exact (lockDiscipline reg).exclusive_serve hc.exclusive [.outside tx]
  · exact hc.counted.evolves hevolves
  · exact fun sc ↦ (hc.books sc).undisturbed (hbooks.undisturbed sc)
  · exact fun i ↦ asserts_undisturbed hevolves (fun sc _ _ ↦ hbooks.undisturbed sc) (hc.asserts i)
  · intro sc period m hm
    rw [hbooks.commitment] at hm
    exact (hc.pledges sc period m hm).imp_left ((hbooks.undisturbed sc).row period).2

/-- **The service is consistent after every schedule.** -/
theorem AtRest.consistent_serve {init : Config World (Place reg)} (hinit : AtRest init)
    (turns : List (Turn Choice Tx)) : Consistent ((service reg).serve init turns) :=
  Service.serve_induction hinit.consistent (fun _ _ _ _ _ hc h ↦ hc.advance h)
    (fun _ tx hc ↦ hc.outside tx) turns

end Soroticket
