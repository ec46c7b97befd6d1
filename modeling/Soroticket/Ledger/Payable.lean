import Soroticket.Ledger.Payouts
import Soroticket.Ledger.Persistence

/-!
# Which committed periods can be paid

A rate is accepted when the code is registered and a count when a period is committed, and neither
operation looks at the other's number; the product is first taken, with a check, when the payouts
are computed. So a committed period can be paid exactly when its count times its rate is a 128-bit
amount (`committed_payable_iff`). Where it is not, the computation and the settlement are refused,
now and ever after, since neither number changes.
-/

namespace Soroticket

open Outcome

/-! ### The campaign of a shared code -/

/-- Every shared code is of a campaign. -/
def SharedFiled (s : Storage) : Prop :=
  ∀ c code, s.shared (c, code) ≠ none → ∃ camp, s.campaign c = some camp

theorem Effect.sharedFiled {env : Env} {call : Call} {v : Value} {s s' : Storage}
    {evs : List Event} (h : Effect env call v s s' evs) (hf : Filed s) (hs : SharedFiled s) :
    SharedFiled s' := by
  -- no campaign goes away, and a new code is of a campaign that was found
  have hkeep : ∀ c, (∃ camp, s.campaign c = some camp) → ∃ camp, s'.campaign c = some camp := by
    rintro c ⟨camp, hcamp⟩
    obtain ⟨minted, burned, hcamp'⟩ := (h.later hf).campaign c camp hcamp
    exact ⟨_, hcamp'⟩
  intro c code hshared
  cases h with
  | @registerShared owner c' code' attributedTo payoutToken rate _ camp _ hcamp =>
    refine hkeep c ?_
    rcases eq_or_ne (c, code) (c', code') with hkey | hkey
    · obtain ⟨rfl, -⟩ := Prod.mk.inj hkey
      exact ⟨camp, hcamp⟩
    · exact hs c code fun hnone ↦ hshared ((Function.update_of_ne hkey _ _).trans hnone)
  | issueUnique _ _ _ _ _ _ _ _ hmints =>
    refine hkeep c (hs c code fun hnone ↦ hshared ?_)
    rw [hmints.frame]
    exact hnone
  | unchanged | createCampaign | addDelegate | removeDelegate | redeemUnique | commitTally
  | settle => exact hkeep c (hs c code hshared)

theorem Reachable.sharedFiled {s : ContractState} (h : Reachable s) : SharedFiled s.storage := by
  have hboth : Accounted s.storage ∧ SharedFiled s.storage := by
    refine h.induction (P := fun s ↦ Accounted s ∧ SharedFiled s) ?_ ?_
    · exact ⟨accounted_empty, fun c code hne ↦ absurd rfl hne⟩
    · intro env call v s s' evs hs heff
      exact ⟨heff.accounted hs.1, heff.sharedFiled hs.1.filed hs.2⟩
  exact hboth.2

/-! ### Amounts that do not fit -/

/-- The preview loop fails in one way only. -/
theorem foldlM_addPayout_error {rate : I128} {entries : List (Address × UInt32)} :
    ∀ {out : List Payout} {f : Fault Error},
      entries.foldlM (addPayout rate) out = .error f → f = .err .invalidSettlement := by
  induction entries with
  | nil =>
    intro out f h
    simp at h
  | cons e rest ih =>
    intro out f h
    rw [List.foldlM_cons] at h
    rcases hmul : (I128.ofUInt32 e.2).checkedMul rate with - | amount
    · simpa [addPayout, hmul, okOr, eq_comm] using h
    · simp only [addPayout, hmul, okOr_some, ok_bind, pure_eq_ok] at h
      exact ih h

/-- The settlement loop fails in one way only. -/
theorem foldlM_addSettlement_error {rate : I128} {entries : List (Address × UInt32)} :
    ∀ {acc : List Payout × I128} {f : Fault Error},
      entries.foldlM (addSettlement rate) acc = .error f → f = .err .invalidSettlement := by
  induction entries with
  | nil =>
    intro acc f h
    simp at h
  | cons e rest ih =>
    intro acc f h
    rw [List.foldlM_cons] at h
    rcases hround : addSettlement rate acc e with f' | acc'
    · rw [hround, error_bind, Except.error.injEq] at h
      subst h
      rcases hmul : (I128.ofUInt32 e.2).checkedMul rate with - | amount
      · simpa [addSettlement, hmul, okOr, eq_comm] using hround
      · simp only [addSettlement, hmul, okOr_some, ok_bind] at hround
        split at hround
        · rcases hadd : acc.2.checkedAdd amount with - | total
          · simpa [hadd, okOr, eq_comm] using hround
          · simp [hadd] at hround
        · simp at hround
    · rw [hround, ok_bind] at h
      exact ih h

/-! ### Count and rate -/

/-- The attribution of a code with a target is one entry, or none for an empty period. -/
theorem entries_of_rule {a : Address} {count : UInt32} {m : AttributionMap}
    (h : AttributionRule (some a) count m.entries) :
    m.entries = [] ∧ count.toNat = 0 ∨ m.entries = [(a, count)] := by
  obtain ⟨hall, hsum⟩ := h
  have hnodup := m.nodup
  rcases hm : m.entries with - | ⟨e, rest⟩
  · rw [hm] at hsum
    exact Or.inl ⟨rfl, hsum.symm⟩
  · rw [hm] at hall hsum hnodup
    have he : e.1 = a := hall e List.mem_cons_self
    -- a second entry would carry the same address
    have hrest : rest = [] := by
      rcases rest with - | ⟨e', rest⟩
      · rfl
      · have he' : e'.1 = a := hall e' (List.mem_cons_of_mem e List.mem_cons_self)
        simp [he, he'] at hnodup
    subst hrest
    have hcount : e.2 = count := by
      rw [← UInt32.toNat_inj, ← hsum]
      simp [countSum]
    exact Or.inr (by rw [← he, ← hcount])

section Committed

variable {s : ContractState} {c period : UInt64} {code : Bytes} {sc : SharedCode}
  {tally : TallyCommitment}

/-- The entries of a committed period have amounts exactly when its count times its rate is one. -/
theorem fits_iff (hi : TallyIntegrity s.storage) (hshared : s.storage.shared (c, code) = some sc)
    (htoken : sc.payoutToken.isSome = true)
    (htally : s.storage.tally (c, code, period) = some tally) :
    (∀ e ∈ tally.perAttribution.entries, I128.Fits ((e.2.toNat : ℤ) * sc.payoutRate.val)) ↔
      (tally.count.toNat : ℤ) * sc.payoutRate.val < 2 ^ 127 := by
  have hterms := hi.terms _ sc hshared
  have hrate : 0 < sc.payoutRate.val := I128.lt_def.1 (hterms.1.1 htoken)
  obtain ⟨a, ha⟩ := Option.isSome_iff_exists.1 (hterms.2 htoken)
  obtain ⟨sc', hshared', hrule⟩ := hi.tally c code period tally htally
  obtain rfl := Option.some.inj (hshared.symm.trans hshared')
  rw [ha] at hrule
  have hnonneg : 0 ≤ (tally.count.toNat : ℤ) * sc.payoutRate.val :=
    Int.mul_nonneg (Int.natCast_nonneg _) hrate.le
  rcases entries_of_rule hrule with ⟨hnil, hzero⟩ | hone
  · rw [hnil, hzero]
    simp
  · rw [hone, List.forall_mem_singleton]
    show -2 ^ 127 ≤ (tally.count.toNat : ℤ) * sc.payoutRate.val ∧
      (tally.count.toNat : ℤ) * sc.payoutRate.val < 2 ^ 127 ↔ _
    omega

/-- The payouts of a period that can be paid add up to its count times its rate. -/
theorem payoutSum_eq_owed {rate : I128} {entries : List (Address × UInt32)} {ps : List Payout}
    (hps : List.Forall₂ (Pays rate) entries ps) : payoutSum ps = owed rate.val entries := by
  induction hps with
  | nil => rfl
  | cons hpay _ ih =>
    rw [payoutSum_cons, ih, hpay.2]
    simp [owed]

/-- Where the product is no amount, the settlement loop fails. -/
theorem foldlM_addSettlement_of_overflow (hi : TallyIntegrity s.storage)
    (hshared : s.storage.shared (c, code) = some sc) (htoken : sc.payoutToken.isSome = true)
    (htally : s.storage.tally (c, code, period) = some tally)
    (hbig : 2 ^ 127 ≤ (tally.count.toNat : ℤ) * sc.payoutRate.val) :
    tally.perAttribution.entries.foldlM (addSettlement sc.payoutRate) ([], 0) =
      .error (.err .invalidSettlement) := by
  rcases hloop : tally.perAttribution.entries.foldlM (addSettlement sc.payoutRate) ([], 0) with
    f | ⟨out, total⟩
  · rw [foldlM_addSettlement_error hloop]
  · obtain ⟨ps, hps, -⟩ := foldlM_addSettlement_eq_ok_iff.1 hloop
    have hsmall := (fits_iff hi hshared htoken htally).1 (exists_pays_iff.1 ⟨ps, hps⟩)
    omega

/-- Where the product is no amount, the computation is refused. -/
theorem computePayouts_of_overflow (hi : TallyIntegrity s.storage)
    (hshared : s.storage.shared (c, code) = some sc) (htoken : sc.payoutToken.isSome = true)
    (htally : s.storage.tally (c, code, period) = some tally)
    (hbig : 2 ^ 127 ≤ (tally.count.toNat : ℤ) * sc.payoutRate.val) :
    computePayouts c code period s = .error (.err .invalidSettlement) := by
  have h₁ : s.get (.shared c code) = some sc := hshared
  have h₂ : s.get (.tally c code period) = some tally := htally
  rw [computePayouts, h₁, okOr_some, ok_bind, h₂, okOr_some, ok_bind]
  rcases hloop : tally.perAttribution.entries.foldlM (addPayout sc.payoutRate) [] with f | out
  · rw [foldlM_addPayout_error hloop]
  · obtain ⟨ps, hps, -⟩ := foldlM_addPayout_eq_ok_iff.1 hloop
    have hsmall := (fits_iff hi hshared htoken htally).1 (exists_pays_iff.1 ⟨ps, hps⟩)
    omega

/-- Where the product is no amount, the owner's settlement is refused before any token call. -/
theorem settle_of_overflow (hi : TallyIntegrity s.storage) {camp : Campaign}
    (hcamp : s.storage.campaign c = some camp) (hshared : s.storage.shared (c, code) = some sc)
    (htoken : sc.payoutToken.isSome = true)
    (htally : s.storage.tally (c, code, period) = some tally)
    (hfree : s.storage.settled (c, code, period) = none)
    (hbig : 2 ^ 127 ≤ (tally.count.toNat : ℤ) * sc.payoutRate.val) (env : Env) :
    settle env camp.owner c code period s = .done (.error (.err .invalidSettlement)) := by
  have hrate : ¬sc.payoutRate ≤ 0 := by
    rw [I128.le_def, not_le]
    exact I128.lt_def.1 ((hi.terms _ sc hshared).1.1 htoken)
  obtain ⟨token, htok⟩ := Option.isSome_iff_exists.1 htoken
  have howner : requireOwner c camp.owner s = .ok () :=
    requireOwner_eq_ok_iff.2 ⟨camp, hcamp, rfl⟩
  have h₁ : s.get (.shared c code) = some sc := hshared
  have h₂ : s.get (.tally c code period) = some tally := htally
  have hnot : ¬s.has (.settled c code period) = true := by
    simp [ContractState.has_def, Storage.get, hfree]
  have hloop := foldlM_addSettlement_of_overflow hi hshared htoken htally hbig
  have hchecks :
      settleChecks env camp.owner c code period s = .error (.err .invalidSettlement) := by
    rw [settleChecks, howner, ok_bind, h₁, okOr_some, ok_bind, htok, okOr_some, ok_bind,
      rejectIf_neg hrate, ok_bind, h₂, okOr_some, ok_bind, rejectIf_neg hnot, ok_bind, hloop]
    rfl
  rw [settle, hchecks]

end Committed

/-! ### For good -/

/-- A success leaves open a period whose product is no amount. -/
theorem Effect.settled_none {env : Env} {call : Call} {v : Value} {s s' : Storage}
    {evs : List Event} (h : Effect env call v s s' evs) {c period : UInt64} {code : Bytes}
    {sc : SharedCode} {tally : TallyCommitment} (hshared : s.shared (c, code) = some sc)
    (htally : s.tally (c, code, period) = some tally)
    (hloop : tally.perAttribution.entries.foldlM (addSettlement sc.payoutRate) ([], 0) =
      .error (.err .invalidSettlement))
    (hfree : s.settled (c, code, period) = none) : s'.settled (c, code, period) = none := by
  cases h with
  | @settle owner c' period' code' plan _ camp sc' tally' _ _ hshared' _ _ htally' _ _ hloop' =>
    refine (Function.update_of_ne ?_ _ _).trans hfree
    -- the settlement of this very period would have been refused
    intro hkey
    obtain ⟨rfl, rfl, rfl⟩ : c = c' ∧ code = code' ∧ period = period' := by simpa using hkey
    obtain rfl := Option.some.inj (hshared.symm.trans hshared')
    obtain rfl := Option.some.inj (htally.symm.trans htally')
    rw [hloop] at hloop'
    exact absurd hloop' (by simp)
  | issueUnique _ _ _ _ _ _ _ _ hmints =>
    rw [hmints.frame]
    exact hfree
  | unchanged | createCampaign | addDelegate | removeDelegate | redeemUnique | registerShared
  | commitTally => exact hfree

/-- Once committed, a period whose product is no amount stays open. -/
theorem settled_none_of_overflow {txs : List Tx} (hord : Ordered txs) (ttl : ℕ) {n m : ℕ}
    (hnm : n ≤ m) {c period : UInt64} {code : Bytes} {sc : SharedCode} {tally : TallyCommitment}
    (hshared : (runFrom ttl (txs.take n)).storage.shared (c, code) = some sc)
    (htoken : sc.payoutToken.isSome = true)
    (htally : (runFrom ttl (txs.take n)).storage.tally (c, code, period) = some tally)
    (hfree : (runFrom ttl (txs.take n)).storage.settled (c, code, period) = none)
    (hbig : 2 ^ 127 ≤ (tally.count.toNat : ℤ) * sc.payoutRate.val) :
    (runFrom ttl (txs.take m)).storage.settled (c, code, period) = none := by
  induction m, hnm using Nat.le_induction with
  | base => exact hfree
  | succ m hnm ih =>
    rcases htx : txs[m]? with - | tx
    · rw [List.take_add_one, htx, Option.toList_none, List.append_nil]
      exact ih
    · rw [List.take_add_one, htx, Option.toList_some]
      rcases runFrom_concat_cases ttl (txs.take m) tx with
        ⟨v, s', evs, -, hrun, heff, -⟩ | ⟨-, hrun⟩
      · have hlater := runFrom_later hord ttl hnm
        have hshared' := hlater.shared _ sc hshared
        have htally' := hlater.tally _ tally htally
        rw [hrun]
        exact heff.settled_none hshared' htally'
          (foldlM_addSettlement_of_overflow (hord.reachable ttl m).tallyIntegrity hshared' htoken
            htally' hbig) ih
      · rw [hrun]
        exact ih

/-! ### The theorem -/

/-- **Which committed periods can be paid.** In every state of a run and for every committed and
unsettled period of a code with a payout token, the payouts are computed exactly when the count
times the rate is a 128-bit amount. Then the campaign's owner is there to approve and hold the
computed total in a conforming token, and once that is so the settlement succeeds. Otherwise the
computation and the owner's settlement are refused as invalid in this state and in every later one,
and the period stays open. -/
theorem committed_payable_iff {txs : List Tx} (hord : Ordered txs) (ttl n : ℕ) {c period : UInt64}
    {code : Bytes} {sc : SharedCode} {tally : TallyCommitment}
    (hshared : (runFrom ttl (txs.take n)).storage.shared (c, code) = some sc)
    (htoken : sc.payoutToken.isSome = true)
    (htally : (runFrom ttl (txs.take n)).storage.tally (c, code, period) = some tally)
    (hfree : (runFrom ttl (txs.take n)).storage.settled (c, code, period) = none) :
    ((∃ ps, computePayouts c code period (runFrom ttl (txs.take n)) = .ok ps) ↔
      (tally.count.toNat : ℤ) * sc.payoutRate.val < 2 ^ 127) ∧
    (∀ ps, computePayouts c code period (runFrom ttl (txs.take n)) = .ok ps →
      ∃ camp, (runFrom ttl (txs.take n)).storage.campaign c = some camp ∧
        ∀ (τ : Type) (h : (op : TokenCall) → τ → Option (op.Answer × τ))
          (balance : τ → Address → ℤ) (allowance : τ → Address → Address → ℤ) (env : Env) (t : τ),
          (∀ token, sc.payoutToken = some token → Conforming h token balance allowance) →
          payoutSum ps ≤ allowance t camp.owner env.currentContract →
          payoutSum ps ≤ balance t camp.owner →
            ∃ out s' t', (settle env camp.owner c code period (runFrom ttl (txs.take n))).runWith
              h t = .ok (out, s', t')) ∧
    (2 ^ 127 ≤ (tally.count.toNat : ℤ) * sc.payoutRate.val → ∀ m, n ≤ m →
      computePayouts c code period (runFrom ttl (txs.take m)) = .error (.err .invalidSettlement) ∧
      (∃ camp, (runFrom ttl (txs.take m)).storage.campaign c = some camp ∧
        ∀ env, settle env camp.owner c code period (runFrom ttl (txs.take m)) =
          .done (.error (.err .invalidSettlement))) ∧
      (runFrom ttl (txs.take m)).storage.settled (c, code, period) = none) := by
  have hreach := hord.reachable ttl n
  have hi := hreach.tallyIntegrity
  refine ⟨?_, fun ps hps ↦ ?_, fun hbig m hnm ↦ ?_⟩
  · rw [← fits_iff hi hshared htoken htally, ← exists_pays_iff]
    constructor
    · rintro ⟨ps, hps⟩
      obtain ⟨sc', tally', hshared', htally', hpays⟩ := computePayouts_eq_ok_iff.1 hps
      obtain rfl := Option.some.inj (hshared.symm.trans hshared')
      obtain rfl := Option.some.inj (htally.symm.trans htally')
      exact ⟨ps, hpays⟩
    · rintro ⟨ps, hpays⟩
      exact ⟨ps, computePayouts_eq_ok_iff.2 ⟨sc, tally, hshared, htally, hpays⟩⟩
  · obtain ⟨sc', tally', hshared', htally', hpays⟩ := computePayouts_eq_ok_iff.1 hps
    obtain rfl := Option.some.inj (hshared.symm.trans hshared')
    obtain rfl := Option.some.inj (htally.symm.trans htally')
    obtain ⟨camp, hcamp⟩ := hreach.sharedFiled c code (by rw [hshared]; simp)
    refine ⟨camp, hcamp, fun τ h balance allowance env t hconf hallow hbal ↦ ?_⟩
    have hfits := exists_pays_iff.1 ⟨ps, hpays⟩
    have howed := owed_eq_count_mul hi hshared htally htoken
    have hrate : 0 < sc.payoutRate.val := I128.lt_def.1 ((hi.terms _ sc hshared).1.1 htoken)
    have hsum : I128.Fits (owed sc.payoutRate.val tally.perAttribution.entries) := by
      have hsmall := (fits_iff hi hshared htoken htally).1 hfits
      have hnonneg := Int.mul_nonneg (Int.natCast_nonneg tally.count.toNat) hrate.le
      rw [howed, I128.Fits]
      omega
    rw [payoutSum_eq_owed hpays] at hallow hbal
    obtain ⟨plan, s₁, hchecks⟩ :=
      exists_settleChecks env hi hcamp hshared htally hfree htoken hfits hsum
    obtain ⟨t', hrun, -⟩ := settle_covered hshared htally hconf hchecks hallow hbal
    exact ⟨_, _, t', hrun⟩
  · have hlater := runFrom_later hord ttl hnm
    have hreach' := hord.reachable ttl m
    have hshared' := hlater.shared _ sc hshared
    have htally' := hlater.tally _ tally htally
    have hopen := settled_none_of_overflow hord ttl hnm hshared htoken htally hfree hbig
    obtain ⟨camp, hcamp⟩ := hreach'.sharedFiled c code (by rw [hshared']; simp)
    exact ⟨computePayouts_of_overflow hreach'.tallyIntegrity hshared' htoken htally' hbig,
      ⟨camp, hcamp, fun env ↦
        settle_of_overflow hreach'.tallyIntegrity hcamp hshared' htoken htally' hopen hbig env⟩,
      hopen⟩

namespace Sample

/-- A code at the largest rate there is, and a period of two stamps. -/
def overflowing : List Tx :=
  [⟨envAt 10 owner, .createCampaign owner [78] [68] 1 3 100, replies⟩,
   ⟨envAt 11 owner, .registerShared owner 1 sharedCode (some promoter) (some token)
     ⟨2 ^ 127 - 1, by decide, by decide⟩, replies⟩,
   ⟨envAt 12 owner, .commitTally owner 1 sharedCode 1 2 (.zero 32) ⟨[(promoter, 2)], by decide⟩,
     replies⟩]

theorem ordered_overflowing : Ordered overflowing := by
  simp only [Ordered, overflowing, List.pairwise_cons]
  decide

end Sample

/-- A period can be committed whose payouts are never computed: two stamps at the largest rate. -/
theorem not_every_committed_payable :
    ¬∀ (s : ContractState) (c period : UInt64) (code : Bytes) (sc : SharedCode)
      (tally : TallyCommitment), Reachable s → s.storage.shared (c, code) = some sc →
      sc.payoutToken.isSome = true → s.storage.tally (c, code, period) = some tally →
      s.storage.settled (c, code, period) = none →
        ∃ ps, computePayouts c code period s = .ok ps := by
  intro hall
  have hreach : Reachable (runFrom 0 Sample.overflowing) :=
    ⟨0, Sample.overflowing, Sample.ordered_overflowing, rfl⟩
  have hshared : ∃ sc, (runFrom 0 Sample.overflowing).storage.shared (1, Sample.sharedCode) =
      some sc ∧ sc.payoutToken.isSome = true := by decide
  have htally :
      ((runFrom 0 Sample.overflowing).storage.tally (1, Sample.sharedCode, 1)).isSome = true := by
    decide
  obtain ⟨sc, hshared, htoken⟩ := hshared
  obtain ⟨tally, htally⟩ := Option.isSome_iff_exists.1 htally
  have hrefused : computePayouts 1 Sample.sharedCode 1 (runFrom 0 Sample.overflowing) =
      .error (.err .invalidSettlement) := by decide
  obtain ⟨ps, hps⟩ :=
    hall _ 1 1 Sample.sharedCode sc tally hreach hshared htoken htally (by decide)
  rw [hrefused] at hps
  exact absurd hps (by simp)

/-- The sample history's period, three stamps at a rate of five, can be paid. -/
theorem committed_payable_iff_sample :
    ∃ ps, computePayouts 1 Sample.sharedCode 1 (runFrom 0 (Sample.history.take 6)) = .ok ps := by
  have hshared : ((runFrom 0 (Sample.history.take 6)).storage.shared (1, Sample.sharedCode)).map
      (fun sc ↦ (sc.payoutToken, sc.payoutRate)) = some (some Sample.token, .ofUInt32 5) := by
    decide
  have htally : ((runFrom 0 (Sample.history.take 6)).storage.tally (1, Sample.sharedCode, 1)).map
      TallyCommitment.count = some 3 := by decide
  obtain ⟨sc, hshared, hsc⟩ := Option.map_eq_some_iff.1 hshared
  obtain ⟨tally, htally, hcount⟩ := Option.map_eq_some_iff.1 htally
  obtain ⟨htoken, hrate⟩ := Prod.mk.inj hsc
  refine (committed_payable_iff Sample.ordered_history 0 6 hshared (by rw [htoken]; rfl) htally
    (by decide)).1.2 ?_
  rw [hcount, hrate]
  decide

end Soroticket
