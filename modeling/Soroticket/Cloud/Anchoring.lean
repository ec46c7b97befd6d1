import Soroticket.Cloud.Consistency

/-!
# Every scanned event is anchored at most once

`Counts` says which events a commitment counts, before and after its commit has stamped them, and
`Next` what a turn does to a code. From these follow the facts about whole schedules: what a
commitment counts it goes on counting (`AtRest.counts_le`), no two count the same event
(`AtRest.counts_unique`), and what a commit is about to store it selected at an earlier turn, with
its code left alone since (`AtRest.selected`). `anchored_once` puts them together.
-/

namespace Soroticket

open Interleaving

variable {d : Deployment} {reg : Registry d}

/-! ### The events a commitment counts -/

/-- The events the commitment of a period counts: those stamped with the period, or, while a commit
is about to stamp them, those its batch was gathered from. -/
def Counts (c : Config World (Place reg)) (sc : CurrentCode reg) (period : UInt64)
    (rows : List SharedEvent) : Prop :=
  (c.shared.HasRow sc period ∧ rows = c.shared.stamped sc period) ∨
    ∃ i b txHash, c.requests i = .commitStore sc period b txHash ∧
      rows <+: c.shared.pending sc ∧ b.Of rows

namespace Counts

variable {c : Config World (Place reg)} {sc sc' : CurrentCode reg} {period period' : UInt64}
  {rows rows' : List SharedEvent} {e : SharedEvent}

/-- They are events of the code in the table. -/
theorem mem (h : Counts c sc period rows) (he : e ∈ rows) :
    e ∈ c.shared.db.sharedEvents.rows ∧ e.sharedCodeID = sc.row.id := by
  rcases h with ⟨-, rfl⟩ | ⟨i, b, txHash, -, hpre, -⟩
  · obtain ⟨hin, hst⟩ := List.mem_filter.1 he
    exact ⟨hin, (of_decide_eq_true hst).1⟩
  · obtain ⟨hin, hwaits⟩ := List.mem_filter.1 (hpre.subset he)
    exact ⟨hin, (of_decide_eq_true hwaits).1⟩

/-- **An event is counted once.** Stamped events have one period. Two commits that are about to
stamp events of one code both hold the lock of its account. -/
theorem unique (hc : Consistent c) (h : Counts c sc period rows)
    (h' : Counts c sc' period' rows') (he : e ∈ rows) (he' : e ∈ rows') :
    sc = sc' ∧ period = period' := by
  obtain rfl : sc = sc' := CurrentCode.eq_of_id ((h.mem he).2.symm.trans (h'.mem he').2)
  refine ⟨rfl, ?_⟩
  -- a stamped event does not wait
  have hstamped : ∀ p, e ∈ c.shared.stamped sc p →
      e.committedPeriod = some (p.toNat : ℤ) :=
    fun p hin ↦ (of_decide_eq_true (List.mem_filter.1 hin).2).2
  have hwaits : ∀ l, l <+: c.shared.pending sc → e ∈ l → e.committedPeriod = none :=
    fun l hpre hin ↦ (of_decide_eq_true (List.mem_filter.1 (hpre.subset hin)).2).2.1
  rcases h with ⟨-, rfl⟩ | ⟨i, b, txHash, hi, hpre, -⟩ <;>
    rcases h' with ⟨-, rfl⟩ | ⟨j, b', txHash', hj, hpre', -⟩
  · have heq := (hstamped period he).symm.trans (hstamped period' he')
    exact UInt64.toNat_inj.1 (Int.ofNat_inj.1 (Option.some.inj heq))
  · have heq := (hstamped period he).symm.trans (hwaits rows' hpre' he')
    exact absurd heq (Option.some_ne_none _)
  · have heq := (hstamped period' he').symm.trans (hwaits rows hpre he)
    exact absurd heq (Option.some_ne_none _)
  · obtain rfl := hc.eq_of_locks (account_mem_locks hi) (account_mem_locks hj)
    exact (Place.commitStore.inj (hi.symm.trans hj)).2.1

end Counts

/-- **Every commitment counts its events.** -/
theorem Consistent.exists_counts {c : Config World (Place reg)} (hc : Consistent c)
    {sc : CurrentCode reg} {period : UInt64} {m : TallyCommitment}
    (hm : c.shared.commitment sc period = some m) :
    ∃ rows, Counts c sc period rows ∧ Covers d m rows := by
  rcases hc.pledges sc period m hm with hrow | ⟨i, b, txHash, hi⟩
  · obtain ⟨m', hm', hcovers⟩ := (hc.books sc).covers period hrow
    obtain rfl := Option.some.inj (hm.symm.trans hm')
    exact ⟨_, Or.inl ⟨hrow, rfl⟩, hcovers⟩
  · have hasserts := hc.asserts i
    rw [hi] at hasserts
    obtain ⟨-, ⟨rows, rest, hpending, hb, hne, hlen⟩, -, m', hm'⟩ := hasserts
    obtain rfl := Option.some.inj (hm.symm.trans hm')
    exact ⟨rows, Or.inr ⟨i, b, txHash, hi, ⟨rest, hpending.symm⟩, hb⟩,
      covers_of_selected hc.counted hpending hb hne hlen m'⟩

/-! ### One turn -/

/-- What a turn does to a code: it leaves it undisturbed, and every commit that is about to store
where it was, or it ends the transaction of one. -/
inductive Next (sc : CurrentCode reg) (c c' : Config World (Place reg)) : Prop
  | undisturbed (h : Undisturbed sc c.shared c'.shared)
      (hstoring : ∀ i period b txHash, c.requests i = .commitStore sc period b txHash →
        c'.requests i = .commitStore sc period b txHash)
  | stored (i : ℕ) (period : UInt64) (b : Batch) (txHash : Bytes) (db : Database)
      (hi : c.requests i = .commitStore sc period b txHash)
      (hi' : c'.requests i = .commitRelease sc (.committed period b.total b.eventIDs.length
        (tallyRow d.sha256 sc.row period b txHash).merkleRoot txHash))
      (hstore : c.shared.db.storeTally (tallyRow d.sha256 sc.row period b txHash) b.eventIDs =
        .ok db)
      (hshared : c'.shared = { c.shared with db })

/-- A step of a request, for one code. -/
theorem Consistent.next {c : Config World (Place reg)} (hc : Consistent c) {i : ℕ} {ch : Choice}
    {p : Place reg} {w : World} (h : (service reg).advance ch (c.requests i) c.shared = some (p, w))
    (sc : CurrentCode reg) : Next sc c ⟨w, Function.update c.requests i p⟩ := by
  have hdoes : Does (c.requests i) c.shared p w := advance_does h
  by_cases hp : ∃ period b txHash, c.requests i = .commitStore sc period b txHash
  · obtain ⟨period, b, txHash, hi⟩ := hp
    obtain ⟨db, hstore, rfl, rfl⟩ := hdoes.stores (hc.asserts i) hi
    refine .stored i period b txHash db hi ?_ hstore rfl
    show Function.update c.requests i _ i = _
    rw [Function.update_self]
  · have hundisturbed : Undisturbed sc c.shared w :=
      hdoes.undisturbed sc fun period b txHash hi ↦ hp ⟨period, b, txHash, hi⟩
    refine .undisturbed hundisturbed fun j period b txHash hj ↦ ?_
    have hne : j ≠ i := by
      rintro rfl
      exact hp ⟨period, b, txHash, hj⟩
    show Function.update c.requests i p j = _
    rw [Function.update_of_ne hne, hj]

/-- **What a commitment counts, it goes on counting.** -/
theorem Counts.next {c c' : Config World (Place reg)} {sc : CurrentCode reg} {period : UInt64}
    {rows : List SharedEvent} (hcounts : Counts c sc period rows) (hc : Consistent c)
    (h : Next sc c c') :
    ∃ rows', Counts c' sc period rows' ∧ rows'.map (·.id) = rows.map (·.id) := by
  cases h with
  | undisturbed h hstoring =>
    rcases hcounts with ⟨hrow, rfl⟩ | ⟨i, b, txHash, hi, hpre, hb⟩
    · exact ⟨_, Or.inl ⟨(h.row period).2 hrow, rfl⟩, h.stamped_ids period⟩
    · obtain ⟨more, hmore⟩ := h.pending
      refine ⟨rows, Or.inr ⟨i, b, txHash, hstoring i period b txHash hi, ?_, hb⟩, rfl⟩
      rw [hmore]
      exact hpre.trans (List.prefix_append _ _)
  | stored i period' b txHash db hi hi' hstore hshared =>
    have hasserts := hc.asserts i
    rw [hi] at hasserts
    obtain ⟨hsigned, hsel, hnorow, -⟩ := hasserts
    rcases hcounts with ⟨hrow, rfl⟩ | ⟨j, b', txHash', hj, hpre, hb'⟩
    · have hperiod : period ≠ period' := by
        rintro rfl
        exact hnorow hrow
      refine ⟨_, Or.inl ⟨?_, rfl⟩, ?_⟩
      · rw [hshared]
        exact (hasRow_storeTally hstore period).2 (Or.inl hrow)
      · rw [hshared, stamped_storeTally_of_ne hstore hperiod]
    · obtain rfl := hc.eq_of_locks (account_mem_locks hj) (account_mem_locks hi)
      obtain ⟨-, rfl, rfl, -⟩ := Place.commitStore.inj (hj.symm.trans hi)
      refine ⟨_, Or.inl ⟨?_, rfl⟩, ?_⟩
      · rw [hshared]
        exact (hasRow_storeTally hstore period).2 (Or.inr rfl)
      · rw [hshared, stamped_ids_storeTally hstore hsel hsigned
          ((hc.books sc).stamped_eq_nil hnorow), hb'.eventIDs]

/-! ### Whole schedules -/

section Turns

variable {init : Config World (Place reg)} {turns : List (Turn Choice Tx)} {n : ℕ}

/-- The configuration after the first turns. -/
abbrev after (init : Config World (Place reg)) (turns : List (Turn Choice Tx)) (n : ℕ) :
    Config World (Place reg) :=
  (service reg).after init turns n

theorem AtRest.consistent_after (hinit : AtRest init) (turns : List (Turn Choice Tx)) (n : ℕ) :
    Consistent (after init turns n) :=
  hinit.consistent_serve (turns.take n)

theorem AtRest.next (hinit : AtRest init) (turns : List (Turn Choice Tx)) (n : ℕ)
    (sc : CurrentCode reg) : Next sc (after init turns n) (after init turns (n + 1)) := by
  have hc := hinit.consistent_after turns n
  show Next sc _ ((service reg).after init turns (n + 1))
  rcases (service reg).after_succ_cases init turns n with
    hpass | ⟨i, ch, p, w, hstep, hturn⟩ | ⟨tx, hturn⟩
  · rw [hpass]
    exact .undisturbed (.refl sc _) fun _ _ _ _ h ↦ h
  · rw [hturn]
    exact hc.next hstep sc
  · rw [hturn]
    exact .undisturbed ((sameBooks_outside reg tx _).undisturbed sc) fun _ _ _ _ h ↦ h

/-- What a commitment counts, it goes on counting. -/
theorem AtRest.counts_le (hinit : AtRest init) {sc : CurrentCode reg} {period : UInt64}
    {rows : List SharedEvent} {k l : ℕ} (hkl : k ≤ l)
    (hcounts : Counts (after init turns k) sc period rows) :
    ∃ rows', Counts (after init turns l) sc period rows' ∧
      rows'.map (·.id) = rows.map (·.id) := by
  induction l, hkl using Nat.le_induction with
  | base => exact ⟨rows, hcounts, rfl⟩
  | succ l _ ih =>
    obtain ⟨rows', hcounts', hids⟩ := ih
    obtain ⟨rows'', hcounts'', hids'⟩ :=
      hcounts'.next (hinit.consistent_after turns l) (hinit.next turns l sc)
    exact ⟨rows'', hcounts'', hids'.trans hids⟩

/-- **Events of two commitments are different events**, whenever each is looked at. -/
theorem AtRest.counts_unique (hinit : AtRest init) {sc sc' : CurrentCode reg}
    {period period' : UInt64} {rows rows' : List SharedEvent} {k l : ℕ}
    (h : Counts (after init turns k) sc period rows)
    (h' : Counts (after init turns l) sc' period' rows') {e e' : SharedEvent} (he : e ∈ rows)
    (he' : e' ∈ rows') (hid : e.id = e'.id) : sc = sc' ∧ period = period' := by
  -- look at both at the later time
  obtain ⟨x, hx, hxid⟩ := hinit.counts_le (Nat.le_max_left k l) h
  obtain ⟨y, hy, hyid⟩ := hinit.counts_le (Nat.le_max_right k l) h'
  have hc := hinit.consistent_after turns (max k l)
  obtain ⟨a, ha, haid⟩ := List.mem_map.1 (hxid ▸ List.mem_map_of_mem he)
  obtain ⟨b, hb, hbid⟩ := List.mem_map.1 (hyid ▸ List.mem_map_of_mem he')
  obtain rfl : a = b := EventTable.eq_of_id _ (hx.mem ha).1 (hy.mem hb).1
    (haid.trans (hid.trans hbid.symm))
  exact hx.unique hc hy ha hb

/-- Turn `j` selects the batch a commit is about to store after `n` turns. The batch is the first of
the events that waited, and an event recorded since waits, also after the next turn. -/
structure SelectedAt (init : Config World (Place reg)) (turns : List (Turn Choice Tx)) (j n i : ℕ)
    (sc : CurrentCode reg) (period : UInt64) (b : Batch) : Prop where
  lt : j < n
  place : ∃ signer, (after init turns j).requests i = .commitSelect sc period signer
  first : b.eventIDs <+: ((after init turns j).shared.uncommitted sc).map (·.id)
  waits : ∀ l, j ≤ l → l ≤ n + 1 → ∀ x ∈ (after init turns l).shared.db.sharedEvents.rows,
    x.sharedCodeID = sc.row.id →
    (∀ e ∈ (after init turns j).shared.db.sharedEvents.rows, e.id ≠ x.id) →
    x.committedPeriod = none

/-- A commit selected what it is about to store, and its code has been left alone since. -/
theorem AtRest.selected (hinit : AtRest init) {i : ℕ} {sc : CurrentCode reg} {period : UInt64}
    {b : Batch} (h : ((after init turns n).requests i).Selected sc period b) :
    ∃ j < n, (∃ signer, (after init turns j).requests i = .commitSelect sc period signer) ∧
      b.eventIDs <+: ((after init turns j).shared.uncommitted sc).map (·.id) ∧
      ∀ l, j ≤ l → l ≤ n →
        Undisturbed sc (after init turns j).shared (after init turns l).shared := by
  have hstart : ¬(init.requests i).Selected sc period b := by
    have harriving := hinit.arriving i
    rintro (⟨signer, hp⟩ | ⟨txHash, hp⟩)
    · rw [hp] at harriving
      exact harriving
    · rw [hp] at harriving
      exact harriving
  obtain ⟨j, hj, ch, p, w, hstep, hout, hp, hin⟩ :=
    Service.exists_entry (Place.Selected sc period b) hstart h
  obtain ⟨⟨signer, hplace⟩, hfirst⟩ :=
    (advance_does hstep).selects ((hinit.consistent_after turns j).asserts i) hout hp
  refine ⟨j, hj, ⟨signer, hplace⟩, hfirst, fun l hjl ↦ ?_⟩
  induction l, hjl using Nat.le_induction with
  | base => exact fun _ ↦ .refl sc _
  | succ l hjl ih =>
    intro hln
    have hlock : Lock.account sc.campaign.account ∈ ((after init turns l).requests i).locks := by
      rcases eq_or_lt_of_le hjl with rfl | hlt
      · show _ ∈ ((service reg).after init turns j |>.requests i).locks
        rw [hplace]
        exact List.mem_cons_self
      · exact (hin l hlt (Nat.le_of_succ_le hln)).locks
    cases hinit.next turns l sc with
    | undisturbed h => exact (ih (Nat.le_of_succ_le hln)).trans h
    | stored i' period' b' txHash' db hi hi' =>
      -- it would be this commit, which is still about to store
      obtain rfl := (hinit.consistent_after turns l).eq_of_locks hlock (account_mem_locks hi)
      have hselected := hin (l + 1) (Nat.lt_succ_of_le hjl) hln
      rw [show ((service reg).after init turns (l + 1)).requests i = _ from hi'] at hselected
      rcases hselected with ⟨_, habs⟩ | ⟨_, habs⟩
      · exact absurd habs (by simp)
      · exact absurd habs (by simp)

/-- What a commit about to store selected. -/
theorem AtRest.selectedAt (hinit : AtRest init) {i : ℕ} {sc : CurrentCode reg} {period : UInt64}
    {b : Batch} {txHash : Bytes}
    (h : (after init turns n).requests i = .commitStore sc period b txHash) :
    ∃ j, SelectedAt init turns j n i sc period b := by
  obtain ⟨j, hj, hplace, hfirst, halone⟩ := hinit.selected (Or.inr ⟨txHash, h⟩)
  refine ⟨j, hj, hplace, hfirst, fun l hjl hln x hx hcode hnew ↦ ?_⟩
  rcases Nat.le_succ_iff.1 hln with hln | rfl
  · exact (halone l hjl hln).waits hx hcode hnew
  · cases hinit.next turns n sc with
    | undisturbed hlast =>
      exact ((halone n hj.le le_rfl).trans hlast).waits hx hcode hnew
    | stored i' period' b' txHash' db hi hi' hstore hshared =>
      have hc := hinit.consistent_after turns n
      obtain rfl := hc.eq_of_locks (account_mem_locks h) (account_mem_locks hi)
      obtain ⟨-, rfl, rfl, rfl⟩ := Place.commitStore.inj (h.symm.trans hi)
      have hasserts := hc.asserts i
      rw [h] at hasserts
      obtain ⟨hsigned, ⟨rows, rest, hpending, hb, hne, -⟩, -⟩ := hasserts
      rw [show (after init turns (n + 1)).shared = _ from hshared] at hx
      rcases origin_storeTally hstore hpending hb hne hsigned hx with hold | hid
      · exact (halone n hj.le le_rfl).waits hold hcode hnew
      · -- what the transaction stamps was there when it was selected
        obtain ⟨e, he, heid⟩ := List.mem_map.1 (hfirst.subset hid)
        exact absurd heid (hnew e (List.mem_filter.1 he).1)

/-- A commit about to store stays where it is, or ends, with its batch stamped. -/
theorem AtRest.ends (hinit : AtRest init) {i : ℕ} {sc : CurrentCode reg} {period : UInt64}
    {b : Batch} {txHash : Bytes}
    (h : (after init turns n).requests i = .commitStore sc period b txHash) :
    (after init turns (n + 1)).requests i = .commitStore sc period b txHash ∨
      (∃ root, (after init turns (n + 1)).requests i =
        .commitRelease sc (.committed period b.total b.eventIDs.length root txHash)) ∧
      ((after init turns (n + 1)).shared.stamped sc period).map (·.id) = b.eventIDs := by
  have hc := hinit.consistent_after turns n
  have hnext := hinit.next turns n sc
  have hasserts := hc.asserts i
  rw [h] at hasserts
  obtain ⟨hsigned, hsel, hnorow, -⟩ := hasserts
  cases hnext with
  | undisturbed _ hstoring => exact Or.inl (hstoring i period b txHash h)
  | stored i' period' b' txHash' db hi hi' hstore hshared =>
    obtain rfl := hc.eq_of_locks (account_mem_locks h) (account_mem_locks hi)
    obtain ⟨-, rfl, rfl, rfl⟩ := Place.commitStore.inj (h.symm.trans hi)
    refine Or.inr ⟨⟨_, hi'⟩, ?_⟩
    show (World.stamped (after init turns (n + 1)).shared sc period).map _ = _
    rw [show (after init turns (n + 1)).shared = _ from hshared]
    exact stamped_ids_storeTally hstore hsel hsigned ((hc.books sc).stamped_eq_nil hnorow)

/-- Nothing recorded is lost, and no commitment taken back. -/
theorem AtRest.evolves (hinit : AtRest init) {k l : ℕ} (hkl : k ≤ l) :
    Evolves (after init turns k).shared.db.sharedEvents
        (after init turns l).shared.db.sharedEvents ∧
      ∀ (sc : CurrentCode reg) (period : UInt64) (m : TallyCommitment),
        (after init turns k).shared.commitment sc period = some m →
          (after init turns l).shared.commitment sc period = some m := by
  induction l, hkl using Nat.le_induction with
  | base => exact ⟨.refl _, fun _ _ _ hm ↦ hm⟩
  | succ l _ ih =>
    obtain ⟨hevolves, hkept⟩ := ih
    constructor
    · refine hevolves.trans ?_
      show Evolves _ ((service reg).after init turns (l + 1)).shared.db.sharedEvents
      rcases (service reg).after_succ_cases init turns l with
        hpass | ⟨i, ch, p, w, hstep, hturn⟩ | ⟨tx, hturn⟩
      · rw [hpass]
        exact .refl _
      · rw [hturn]
        exact (advance_does hstep).evolves
      · rw [hturn]
        exact (sameBooks_outside reg tx _).events ▸ .refl _
    · intro sc period m hm
      cases hinit.next turns l sc with
      | undisturbed h => exact h.commitment period m (hkept sc period m hm)
      | stored i period' b txHash db hi hi' hstore hshared =>
        rw [show (after init turns (l + 1)).shared = _ from hshared]
        exact hkept sc period m hm

end Turns

namespace Sample

/-- A deployment whose texts are their own encodings. -/
def deployment : Deployment where
  cloudNetwork := []
  currentContractID := [67, 65]
  quote x := x
  base64 x := x
  sha256 := sha256
  refMac _ := .zero 32

def account : AuthCtx := ⟨1, .test⟩

/-- One shared code, in the campaign of `history`. -/
def registry : Registry deployment where
  accounts := [⟨account, owner, true⟩]
  campaigns := [⟨1, account, 1, [67, 65], 100, false⟩]
  sharedCodes := [⟨1, 1, sharedCode, some promoter⟩]
  programs := []
  campaign_key := by simp
  chain_key := by simp
  code_key := by simp
  code_name_key := by simp

def code : CurrentCode registry :=
  ⟨⟨1, 1, sharedCode, some promoter⟩, ⟨1, account, 1, [67, 65], 100, false⟩,
    List.mem_cons_self, List.mem_cons_self, rfl, rfl⟩

/-- Two events wait. -/
def events : EventTable where
  rows := [⟨1, 1, 2, [], none, none, some ⟨[97], hexRoot digestA, [], []⟩⟩,
    ⟨2, 1, 1, [], none, none, some ⟨[98], hexRoot digestB, [], []⟩⟩]
  ordered := by decide

/-- A request to commit, among requests to record. -/
def start : Config World (Place registry) where
  shared :=
    { db := ⟨events, [], [], [], []⟩
      chain := runFrom 0 (history.take 5)
      locks := fun _ ↦ false }
  requests := Function.update
    (fun _ ↦ .recordEvents account 1 sharedCode ⟨none, "", "", "", "", ""⟩) 0
    (.commitTally account 1 sharedCode 202628)

/-- All goes well. -/
def choice : Choice where
  env := ⟨20, none, none, .ok ()⟩
  stored := true
  read := 10000
  ledger := envAt 20 owner
  lands := true
  genCode _ := none
  decoded := true
  txHash := []

def turns : List (Turn Choice Tx) := List.replicate 7 (.request 0 choice)

theorem code_eq (sc : CurrentCode registry) : sc = code := by
  apply CurrentCode.eq_of_id
  rw [List.mem_singleton.1 sc.row_mem]
  rfl

theorem atRest_start : AtRest start := by
  have hcounted : start.shared.Counted := by
    show ∀ e ∈ events.rows, e.receipt.isSome → 0 < e.count.toInt ∧ e.count.toInt ≤ 10000
    decide
  refine atRest_of_unanchored (fun i ↦ ?_) hcounted (by decide) rfl fun sc period ↦ ?_
  · rcases i with - | i
    · trivial
    · trivial
  · rw [code_eq sc]
    rfl

theorem committed_turns :
    ((after start turns 7).shared.commitment code 202628).isSome = true := by decide

end Sample

/-- **Every scanned event is anchored at most once.** After any schedule of requests from a service
at rest: every commitment on the ledger has the count and the root of the events it counts, and no
two commitments count the same event; a commit stores the first of the events that waited when it
selected them, and what was recorded since waits; and no event is lost. -/
theorem anchored_once {init : Config World (Place reg)} (hinit : AtRest init)
    (turns : List (Turn Choice Tx)) :
    (∀ n (sc : CurrentCode reg) period m,
      (after init turns n).shared.commitment sc period = some m →
        ∃ rows, Counts (after init turns n) sc period rows ∧ Covers d m rows) ∧
    (∀ k l (sc sc' : CurrentCode reg) period period' rows rows',
      Counts (after init turns k) sc period rows →
      Counts (after init turns l) sc' period' rows' →
      ∀ e ∈ rows, ∀ e' ∈ rows', e.id = e'.id → sc = sc' ∧ period = period') ∧
    (∀ n i (sc : CurrentCode reg) period b txHash,
      (after init turns n).requests i = .commitStore sc period b txHash →
        (∃ j, SelectedAt init turns j n i sc period b) ∧
        ((after init turns (n + 1)).requests i = .commitStore sc period b txHash ∨
          (∃ root, (after init turns (n + 1)).requests i =
            .commitRelease sc (.committed period b.total b.eventIDs.length root txHash)) ∧
          ((after init turns (n + 1)).shared.stamped sc period).map (·.id) = b.eventIDs)) ∧
    ∀ k l, k ≤ l →
      Evolves (after init turns k).shared.db.sharedEvents
        (after init turns l).shared.db.sharedEvents ∧
      ∀ (sc : CurrentCode reg) period m,
        (after init turns k).shared.commitment sc period = some m →
          (after init turns l).shared.commitment sc period = some m := by
  refine ⟨?_, ?_, ?_, ?_⟩
  · intro n sc period m hm
    exact (hinit.consistent_after turns n).exists_counts hm
  · intro k l sc sc' period period' rows rows' h h' e he e' he' hid
    exact hinit.counts_unique h h' he he' hid
  · intro n i sc period b txHash h
    exact ⟨hinit.selectedAt h, hinit.ends h⟩
  · intro k l hkl
    exact hinit.evolves hkl

theorem anchored_once_pair :
    ∃ m rows, (after Sample.start Sample.turns 7).shared.commitment Sample.code 202628 = some m ∧
      Counts (after Sample.start Sample.turns 7) Sample.code 202628 rows ∧
      Covers Sample.deployment m rows := by
  obtain ⟨m, hm⟩ := Option.isSome_iff_exists.1 Sample.committed_turns
  obtain ⟨rows, hcounts, hcovers⟩ :=
    (anchored_once Sample.atRest_start Sample.turns).1 7 Sample.code 202628 m hm
  exact ⟨m, rows, hm, hcounts, hcovers⟩

end Soroticket
