import Mathlib.Algebra.Order.BigOperators.Group.List
import Soroticket.Ledger.Campaigns
import Soroticket.Machine.Callout

/-!
# Shared codes, tallies and settlement

The Tally profile: a shared code is redeemed off-chain, its owner commits a count and a Merkle root
for each period, and a committed period is settled once by transfers of the code's payout token.

Two loops run over a commitment's attribution map: `commit_tally` adds the counts up and checks
every address, and the two payout loops multiply each count by the rate. Each is a `foldlM` over the
entries in whatever order the map is iterated, and each has one lemma that says what its success
means with no mention of the order.

`settle` is the one entry point that calls another contract. Everything before its first foreign
call is `settleChecks`, which ends by writing the guard `Settled`; what follows is a `Callout` with
an allowance read, a balance read (skipped, as `||` does, when the allowance is already short) and
one transfer for each payout.
-/

namespace Soroticket

open Outcome

/-! ### Registration -/

/-- `register_shared`: register a shared code with its settlement terms. -/
def registerShared (env : Env) (owner : Address) (campaignId : UInt64) (code : Bytes)
    (attributedTo payoutToken : Option Address) (payoutRate : I128) (s : ContractState) :
    Outcome Error (Unit × ContractState) := do
  requireAuth env owner
  let camp : Campaign ← okOr (s.get (.campaign campaignId)) .campaignNotFound
  rejectIf (owner ≠ camp.owner) .unauthorized
  rejectIf (camp.validUntil < env.timestamp) .campaignExpired
  rejectIf (code = []) .invalidCode
  rejectIf (maxCodeLen < code.length) .codeTooLong
  rejectIf (attributedTo.isNone ∧ payoutToken.isSome) .invalidSettlement
  rejectIf (if payoutToken.isSome then payoutRate ≤ 0 else payoutRate ≠ 0) .invalidSettlement
  rejectIf (s.has (.shared campaignId code) = true) .alreadyRegistered
  let shared : SharedCode :=
    { campaignId, code, attributedTo, payoutToken, payoutRate, registeredAt := env.timestamp }
  let s := s.set env (.shared campaignId code) shared
  let s ← s.extendTtl env (.shared campaignId code) ledgerBump extendTo
  return ((), s.publish (.sharedRegistered campaignId attributedTo))

/-- `get_shared`. -/
def getShared (campaignId : UInt64) (code : Bytes) (s : ContractState) :
    Outcome Error SharedCode :=
  okOr (s.get (.shared campaignId code)) .sharedNotFound

/-- The settlement terms a shared code may have: a payout token exactly when the rate is positive,
and only with an attribution target. -/
def ValidTerms (attributedTo payoutToken : Option Address) (rate : I128) : Prop :=
  (payoutToken.isSome = true ↔ 0 < rate) ∧ (payoutToken.isSome = true → attributedTo.isSome = true)

/-- The two checks of `register_shared` on the terms, and a negative rate left out, are the rule. -/
theorem validTerms_of_checks {attributedTo payoutToken : Option Address} {rate : I128}
    (h₁ : ¬(attributedTo.isNone ∧ payoutToken.isSome))
    (h₂ : ¬(if payoutToken.isSome then rate ≤ 0 else rate ≠ 0)) :
    ValidTerms attributedTo payoutToken rate := by
  rcases payoutToken with - | tok
  · have hrate : rate = 0 := by simpa using h₂
    simp [ValidTerms, hrate, I128.lt_def]
  · have hrate : 0 < rate := by
      have : ¬rate ≤ 0 := by simpa using h₂
      rw [I128.le_def] at this
      exact I128.lt_def.2 (Int.not_le.1 this)
    have hattr : attributedTo.isSome = true := by
      rcases attributedTo with - | a <;> simp_all
    simp [ValidTerms, hrate, hattr]

theorem registerShared_ok {env : Env} {owner : Address} {c : UInt64} {code : Bytes}
    {attributedTo payoutToken : Option Address} {rate : I128} {s s' : ContractState} {u : Unit}
    (h : registerShared env owner c code attributedTo payoutToken rate s = .ok (u, s')) :
    owner ∈ env.auths ∧ (∃ camp, s.storage.campaign c = some camp ∧ camp.owner = owner ∧
        env.timestamp ≤ camp.validUntil) ∧
      code ≠ [] ∧ code.length ≤ maxCodeLen ∧ ValidTerms attributedTo payoutToken rate ∧
      s.storage.shared (c, code) = none ∧
      s'.storage = { s.storage with
        shared := Function.update s.storage.shared (c, code)
          (some ⟨c, code, attributedTo, payoutToken, rate, env.timestamp⟩) } ∧
      s'.events = s.events ++ [.sharedRegistered c attributedTo] := by
  simp only [registerShared, bind_eq_ok_iff, requireAuth_eq_ok_iff, okOr_eq_ok_iff,
    rejectIf_eq_ok_iff, ContractState.extendTtl_eq_ok_iff, pure_eq_ok, Except.ok.injEq,
    Prod.mk.injEq, exists_const] at h
  obtain ⟨hauth, camp, hcamp, howner, htime, hne, hlen, hattr, hrate, hfree, _, ⟨-, rfl⟩, -,
    rfl⟩ := h
  have hnone : s.storage.shared (c, code) = none := by
    simpa [ContractState.has_def, Storage.get] using hfree
  exact ⟨hauth, ⟨camp, hcamp, (not_not.1 howner).symm, UInt64.not_lt.1 htime⟩, hne,
    Nat.le_of_not_lt hlen, validTerms_of_checks hattr hrate, hnone, rfl, rfl⟩

/-! ### Commitment -/

/-- One round of the attribution loop: an attributed code accepts its own target only, and the
counts are added with a check. -/
def addAttributed (target : Option Address) (attributed : UInt32) (entry : Address × UInt32) :
    Outcome Error UInt32 := do
  rejectIf (target.isSome = true ∧ some entry.1 ≠ target) .attributionMismatch
  okOr (attributed.checkedAdd entry.2) .invalidTally

/-- `commit_tally`: commit the count, root and attribution of one period. -/
def commitTally (env : Env) (owner : Address) (campaignId : UInt64) (code : Bytes)
    (period : UInt64) (count : UInt32) (merkleRoot : BytesN 32) (perAttribution : AttributionMap)
    (s : ContractState) : Outcome Error (Unit × ContractState) := do
  requireAuth env owner
  requireOwner campaignId owner s
  let shared : SharedCode ← okOr (s.get (.shared campaignId code)) .sharedNotFound
  rejectIf (s.has (.tally campaignId code period) = true) .periodCommitted
  rejectIf (shared.attributedTo.isNone ∧ perAttribution.entries ≠ []) .attributionMismatch
  let attributed ← perAttribution.entries.foldlM (addAttributed shared.attributedTo) 0
  rejectIf (shared.attributedTo.isSome ∧ attributed ≠ count) .invalidTally
  let s := s.set env (.tally campaignId code period) { period, count, merkleRoot, perAttribution }
  let s ← s.extendTtl env (.tally campaignId code period) ledgerBump extendTo
  return ((), s.publish (.tallyCommitted campaignId period count))

/-- The sum of the counts of an attribution map. -/
def countSum (entries : List (Address × UInt32)) : ℕ := (entries.map fun e ↦ e.2.toNat).sum

/-- **The attribution rule.** An unattributed code carries no entries; an attributed code credits
its own target only, and the counts add up to the total. The sum is of naturals, so a total that is
a word rules an overflow out. -/
def AttributionRule (attributedTo : Option Address) (count : UInt32)
    (entries : List (Address × UInt32)) : Prop :=
  match attributedTo with
  | none => entries = []
  | some a => (∀ e ∈ entries, e.1 = a) ∧ countSum entries = count.toNat

/-- The attribution loop succeeds exactly on entries of the target whose counts add up to a word,
whatever the order. The induction carries the sum so far; every partial sum is at most the last
one, so a last sum that is a word bounds them all. -/
theorem foldlM_addAttributed_eq_ok_iff {target : Option Address}
    {entries : List (Address × UInt32)} :
    ∀ {acc total : UInt32}, entries.foldlM (addAttributed target) acc = .ok total ↔
      (∀ a, target = some a → ∀ e ∈ entries, e.1 = a) ∧
        total.toNat = acc.toNat + countSum entries := by
  induction entries with
  | nil =>
    intro acc total
    simp [countSum, ← UInt32.toNat_inj, eq_comm]
  | cons e rest ih =>
    intro acc total
    have hhead : ¬(target.isSome = true ∧ some e.1 ≠ target) ↔ ∀ a, target = some a → e.1 = a := by
      rcases target with - | a <;> simp
    have hsum : countSum (e :: rest) = e.2.toNat + countSum rest := by simp [countSum]
    rw [List.foldlM_cons, bind_eq_ok_iff]
    simp only [addAttributed, bind_eq_ok_iff, rejectIf_eq_ok_iff, okOr_eq_ok_iff, exists_const, ih,
      UInt32.checkedAdd_eq_some_iff, hhead, hsum, List.forall_mem_cons]
    constructor
    · rintro ⟨mid, ⟨hh, hmid⟩, ht, htotal⟩
      exact ⟨fun a ha ↦ ⟨hh a ha, ht a ha⟩, by omega⟩
    · rintro ⟨hall, htotal⟩
      have hfit := total.toNat_lt
      refine ⟨.ofNat (acc.toNat + e.2.toNat), ⟨fun a ha ↦ (hall a ha).1, ?_⟩,
        fun a ha ↦ (hall a ha).2, ?_⟩ <;>
        rw [UInt32.toNat_ofNat_of_lt' (by simp only [UInt32.size]; omega)]
      omega

/-- The checks of `commit_tally` on the map are the attribution rule. -/
theorem attributionRule_iff {attributedTo : Option Address} {count : UInt32}
    {entries : List (Address × UInt32)} :
    (¬(attributedTo.isNone ∧ entries ≠ []) ∧ ∃ total,
      entries.foldlM (addAttributed attributedTo) 0 = .ok total ∧
        ¬(attributedTo.isSome ∧ total ≠ count)) ↔ AttributionRule attributedTo count entries := by
  simp only [foldlM_addAttributed_eq_ok_iff]
  rcases attributedTo with - | a
  · -- no target: the map is empty, and then the loop ends with the sum zero
    constructor
    · rintro ⟨h, -⟩
      simpa [AttributionRule] using h
    · intro (h : entries = [])
      subst h
      exact ⟨by simp, 0, ⟨by simp, rfl⟩, by simp⟩
  · -- a target: the sum is a word because it is the count
    constructor
    · rintro ⟨-, total, ⟨hall, hsum⟩, hcount⟩
      have : total = count := by simpa using hcount
      subst this
      exact ⟨hall a rfl, by simpa using hsum.symm⟩
    · rintro ⟨hall, hsum⟩
      exact ⟨by simp, count, ⟨fun b hb ↦ by obtain rfl := Option.some.inj hb; exact hall,
        by simpa using hsum.symm⟩, by simp⟩

/-- **A commitment** is accepted from the owner, for an unused period of a registered code, exactly
under the attribution rule. -/
theorem commitTally_eq_ok_iff {env : Env} {owner : Address} {c period : UInt64} {code : Bytes}
    {count : UInt32} {root : BytesN 32} {m : AttributionMap} {s s' : ContractState} {u : Unit} :
    commitTally env owner c code period count root m s = .ok (u, s') ↔
      owner ∈ env.auths ∧ (∃ camp, s.storage.campaign c = some camp ∧ camp.owner = owner) ∧
      (∃ shared, s.storage.shared (c, code) = some shared ∧
        AttributionRule shared.attributedTo count m.entries) ∧
      s.storage.tally (c, code, period) = none ∧
      s' = ((s.set env (.tally c code period) ⟨period, count, root, m⟩).raiseTtl env
        (.tally c code period) ledgerBump extendTo).publish (.tallyCommitted c period count) := by
  have hnone : s.has (.tally c code period) = true ↔
      ¬s.storage.tally (c, code, period) = none := by
    simp [ContractState.has_def, Storage.get, Option.isSome_iff_ne_none]
  simp only [commitTally, bind_eq_ok_iff, requireAuth_eq_ok_iff, requireOwner_eq_ok_iff,
    okOr_eq_ok_iff, rejectIf_eq_ok_iff, ContractState.extendTtl_eq_ok_iff,
    ContractState.has_set_self, pure_eq_ok, Except.ok.injEq, Prod.mk.injEq, exists_const, hnone,
    not_not, true_and]
  constructor
  · rintro ⟨hauth, howner, shared, hshared, hfree, hempty, total, hloop, htotal, _, rfl, rfl⟩
    exact ⟨hauth, howner, ⟨shared, hshared, attributionRule_iff.1 ⟨hempty, total, hloop, htotal⟩⟩,
      hfree, rfl⟩
  · rintro ⟨hauth, howner, ⟨shared, hshared, hrule⟩, hfree, rfl⟩
    obtain ⟨hempty, total, hloop, htotal⟩ := attributionRule_iff.2 hrule
    exact ⟨hauth, howner, shared, hshared, hfree, hempty, total, hloop, htotal, _, rfl, rfl⟩

theorem commitTally_ok {env : Env} {owner : Address} {c period : UInt64} {code : Bytes}
    {count : UInt32} {root : BytesN 32} {m : AttributionMap} {s s' : ContractState} {u : Unit}
    (h : commitTally env owner c code period count root m s = .ok (u, s')) :
    owner ∈ env.auths ∧ (∃ camp, s.storage.campaign c = some camp ∧ camp.owner = owner) ∧
      (∃ shared, s.storage.shared (c, code) = some shared ∧
        AttributionRule shared.attributedTo count m.entries) ∧
      s.storage.tally (c, code, period) = none ∧
      s'.storage = { s.storage with
        tally := Function.update s.storage.tally (c, code, period)
          (some ⟨period, count, root, m⟩) } ∧
      s'.events = s.events ++ [.tallyCommitted c period count] := by
  obtain ⟨hauth, howner, hshared, hfree, rfl⟩ := commitTally_eq_ok_iff.1 h
  exact ⟨hauth, howner, hshared, hfree, rfl, rfl⟩

/-- `get_tally`. -/
def getTally (campaignId : UInt64) (code : Bytes) (period : UInt64) (s : ContractState) :
    Outcome Error TallyCommitment :=
  okOr (s.get (.tally campaignId code period)) .tallyNotFound

/-! ### Payouts -/

/-- One round of the preview loop: the amount of one entry. -/
def addPayout (rate : I128) (out : List Payout) (entry : Address × UInt32) :
    Outcome Error (List Payout) := do
  let amount ← okOr ((I128.ofUInt32 entry.2).checkedMul rate) .invalidSettlement
  return out ++ [⟨entry.1, amount⟩]

/-- `compute_payouts`: the payouts a settlement of the period would make. -/
def computePayouts (campaignId : UInt64) (code : Bytes) (period : UInt64) (s : ContractState) :
    Outcome Error (List Payout) := do
  let shared : SharedCode ← okOr (s.get (.shared campaignId code)) .sharedNotFound
  let tally : TallyCommitment ← okOr (s.get (.tally campaignId code period)) .tallyNotFound
  tally.perAttribution.entries.foldlM (addPayout shared.payoutRate) []

/-- One round of the settlement loop: the amount of one entry, left out when it is not positive,
and the running total. -/
def addSettlement (rate : I128) (acc : List Payout × I128) (entry : Address × UInt32) :
    Outcome Error (List Payout × I128) := do
  let amount ← okOr ((I128.ofUInt32 entry.2).checkedMul rate) .invalidSettlement
  if 0 < amount then
    let total ← okOr (acc.2.checkedAdd amount) .invalidSettlement
    return (acc.1 ++ [⟨entry.1, amount⟩], total)
  else return acc

/-- What one entry is owed: its count times the rate, exactly. -/
def Pays (rate : I128) (entry : Address × UInt32) (p : Payout) : Prop :=
  p.payee = entry.1 ∧ p.amount.val = entry.2.toNat * rate.val

/-- The exact total of a list of payouts. -/
def payoutSum (ps : List Payout) : ℤ := (ps.map fun p ↦ p.amount.val).sum

/-- The payouts that move money. -/
def positivePayouts (ps : List Payout) : List Payout := ps.filter fun p ↦ decide (0 < p.amount)

/-- The preview loop lists what each entry is owed, and fails exactly when an amount is not an
`i128`. -/
theorem foldlM_addPayout_eq_ok_iff {rate : I128} {entries : List (Address × UInt32)} :
    ∀ {out res : List Payout}, entries.foldlM (addPayout rate) out = .ok res ↔
      ∃ ps, List.Forall₂ (Pays rate) entries ps ∧ res = out ++ ps := by
  induction entries with
  | nil =>
    intro out res
    simp [eq_comm]
  | cons e rest ih =>
    intro out res
    rw [List.foldlM_cons, bind_eq_ok_iff]
    simp only [addPayout, bind_eq_ok_iff, okOr_eq_ok_iff, pure_eq_ok, Except.ok.injEq, ih,
      I128.checkedMul_eq_some_iff, I128.val_ofUInt32, List.forall₂_cons_left_iff]
    constructor
    · rintro ⟨_, ⟨amount, hamount, rfl⟩, ps, hps, rfl⟩
      exact ⟨⟨e.1, amount⟩ :: ps, ⟨_, ps, ⟨rfl, hamount⟩, hps, rfl⟩, by simp⟩
    · rintro ⟨_, ⟨p, ps, ⟨hpayee, hamount⟩, hps, rfl⟩, rfl⟩
      refine ⟨_, ⟨p.amount, hamount, rfl⟩, ps, hps, ?_⟩
      rw [← hpayee, List.append_assoc, List.singleton_append]

theorem positivePayouts_cons (p : Payout) (ps : List Payout) :
    positivePayouts (p :: ps) =
      if 0 < p.amount then p :: positivePayouts ps else positivePayouts ps := by
  by_cases h : 0 < p.amount <;> simp [positivePayouts, h]

@[simp] theorem payoutSum_cons (p : Payout) (ps : List Payout) :
    payoutSum (p :: ps) = p.amount.val + payoutSum ps := by
  simp [payoutSum]

theorem payoutSum_positivePayouts_nonneg (ps : List Payout) :
    0 ≤ payoutSum (positivePayouts ps) := by
  refine List.sum_nonneg fun z hz ↦ ?_
  obtain ⟨p, hp, rfl⟩ := List.mem_map.1 hz
  have hpos : 0 < p.amount := by simpa using (List.mem_filter.1 hp).2
  exact (I128.lt_def.1 hpos).le

/-- One round of the settlement loop, by the sign of the amount. -/
theorem addSettlement_eq_ok_iff {rate total total' : I128} {out out' : List Payout}
    {e : Address × UInt32} :
    addSettlement rate (out, total) e = .ok (out', total') ↔
      ∃ p, Pays rate e p ∧ if 0 < p.amount
        then out' = out ++ [p] ∧ total'.val = total.val + p.amount.val
        else out' = out ∧ total' = total := by
  simp only [addSettlement, bind_eq_ok_iff, okOr_eq_ok_iff, I128.checkedMul_eq_some_iff,
    I128.val_ofUInt32]
  constructor
  · rintro ⟨amount, hamount, h⟩
    refine ⟨⟨e.1, amount⟩, ⟨rfl, hamount⟩, ?_⟩
    show if 0 < amount then _ else _
    split at h
    · next hpos =>
      simp only [bind_eq_ok_iff, okOr_eq_ok_iff, I128.checkedAdd_eq_some_iff, pure_eq_ok,
        Except.ok.injEq, Prod.mk.injEq] at h
      obtain ⟨t, ht, rfl, rfl⟩ := h
      exact if_pos hpos ▸ ⟨rfl, ht⟩
    · next hneg =>
      simp only [pure_eq_ok, Except.ok.injEq, Prod.mk.injEq] at h
      exact if_neg hneg ▸ ⟨h.1.symm, h.2.symm⟩
  · rintro ⟨⟨payee, amount⟩, ⟨rfl, hamount⟩, h⟩
    refine ⟨amount, hamount, ?_⟩
    change if 0 < amount then _ else _ at h
    split
    · next hpos =>
      rw [if_pos hpos] at h
      simpa [bind_eq_ok_iff, I128.checkedAdd_eq_some_iff, h.1] using h.2
    · next hneg =>
      rw [if_neg hneg] at h
      simp [h.1, h.2]

/-- The settlement loop makes the positive payouts of the same list, and its total is their exact
sum. The running total only grows, so it is an `i128` throughout when the last one is. -/
theorem foldlM_addSettlement_eq_ok_iff {rate : I128} {entries : List (Address × UInt32)} :
    ∀ {out res : List Payout} {acc total : I128},
      entries.foldlM (addSettlement rate) (out, acc) = .ok (res, total) ↔
        ∃ ps, List.Forall₂ (Pays rate) entries ps ∧ res = out ++ positivePayouts ps ∧
          total.val = acc.val + payoutSum (positivePayouts ps) := by
  induction entries with
  | nil =>
    intro out res acc total
    simp [positivePayouts, payoutSum, I128.ext_iff, eq_comm]
  | cons e rest ih =>
    intro out res acc total
    rw [List.foldlM_cons, bind_eq_ok_iff]
    simp only [Prod.exists, addSettlement_eq_ok_iff, ih, List.forall₂_cons_left_iff]
    constructor
    · rintro ⟨out₁, acc₁, ⟨p, hp, hround⟩, ps, hps, rfl, htotal⟩
      refine ⟨p :: ps, ⟨p, ps, hp, hps, rfl⟩, ?_⟩
      rw [positivePayouts_cons]
      by_cases hpos : 0 < p.amount
      · rw [if_pos hpos] at hround ⊢
        obtain ⟨rfl, hacc⟩ := hround
        exact ⟨by simp, by rw [payoutSum_cons]; omega⟩
      · rw [if_neg hpos] at hround ⊢
        obtain ⟨rfl, rfl⟩ := hround
        exact ⟨rfl, htotal⟩
    · rintro ⟨_, ⟨p, ps, hp, hps, rfl⟩, rfl, htotal⟩
      rw [positivePayouts_cons] at htotal ⊢
      by_cases hpos : 0 < p.amount
      · rw [if_pos hpos, payoutSum_cons] at htotal
        -- the running total after this round lies between the one before and the last one
        have hge := payoutSum_positivePayouts_nonneg ps
        have hlow := acc.le_val
        have hhigh := total.val_lt
        have hamount : 0 < p.amount.val := I128.lt_def.1 hpos
        refine ⟨out ++ [p], ⟨acc.val + p.amount.val, by omega, by omega⟩, ⟨p, hp, ?_⟩, ps, hps, ?_,
          ?_⟩
        · rw [if_pos hpos]
          exact ⟨rfl, rfl⟩
        · rw [if_pos hpos, List.append_assoc, List.singleton_append]
        · show total.val = acc.val + p.amount.val + _
          omega
      · rw [if_neg hpos] at htotal
        exact ⟨out, acc, ⟨p, hp, by rw [if_neg hpos]; exact ⟨rfl, rfl⟩⟩, ps, hps,
          by rw [if_neg hpos], htotal⟩

/-! ### Settlement -/

/-- A call of the payout token's contract. -/
inductive TokenCall where
  /-- `allowance(owner, spender)`. -/
  | allowance (token owner spender : Address)
  /-- `balance(id)`. -/
  | balance (token id : Address)
  /-- `transfer_from(spender, owner, payee, amount)`. -/
  | transferFrom (token spender owner payee : Address) (amount : I128)
  deriving DecidableEq

/-- What a token call answers. -/
abbrev TokenCall.Answer : TokenCall → Type
  | allowance _ _ _ => I128
  | balance _ _ => I128
  | transferFrom _ _ _ _ _ => Unit

/-- A computation of the contract that may call the payout token. -/
abbrev Interaction (α : Type) := Callout ContractState Error TokenCall TokenCall.Answer α

/-- What `settle` has computed when it makes its first token call. -/
structure SettlePlan where
  token : Address
  payoutRate : I128
  out : List Payout
  total : I128
  deriving DecidableEq

/-- `is_settled`. -/
def isSettled (campaignId : UInt64) (code : Bytes) (period : UInt64) (s : ContractState) : Bool :=
  s.has (.settled campaignId code period)

/-- `settle` up to its first token call: the checks, the payouts, and then the guard. -/
def settleChecks (env : Env) (owner : Address) (campaignId : UInt64) (code : Bytes)
    (period : UInt64) (s : ContractState) : Outcome Error (SettlePlan × ContractState) := do
  requireOwner campaignId owner s
  let shared : SharedCode ← okOr (s.get (.shared campaignId code)) .sharedNotFound
  let token ← okOr shared.payoutToken .invalidSettlement
  rejectIf (shared.payoutRate ≤ 0) .invalidSettlement
  let tally : TallyCommitment ← okOr (s.get (.tally campaignId code period)) .tallyNotFound
  rejectIf (s.has (.settled campaignId code period) = true) .alreadySettled
  let (out, total) ← tally.perAttribution.entries.foldlM (addSettlement shared.payoutRate) ([], 0)
  let s := s.set env (.settled campaignId code period) true
  let s ← s.extendTtl env (.settled campaignId code period) ledgerBump extendTo
  return ({ token, payoutRate := shared.payoutRate, out, total }, s)

/-- One `transfer_from` for each payout, in order, and then `rest`. -/
def transferAll (token spender owner : Address) (rest : ContractState → Interaction (List Payout)) :
    List Payout → ContractState → Interaction (List Payout)
  | [], s => rest s
  | p :: ps, s => .call (.transferFrom token spender owner p.payee p.amount) s
      fun _ s ↦ transferAll token spender owner rest ps s

/-- `settle` from its first token call on. -/
def settlePayments (env : Env) (owner : Address) (campaignId period : UInt64) (plan : SettlePlan)
    (s : ContractState) : Interaction (List Payout) :=
  .call (.allowance plan.token owner env.currentContract) s fun (allowance : I128) s ↦
    if allowance < plan.total then .done (.error (.err .invalidSettlement))
    else .call (.balance plan.token owner) s fun (balance : I128) s ↦
      if balance < plan.total then .done (.error (.err .invalidSettlement))
      else transferAll plan.token env.currentContract owner
        (fun s ↦ .done (.ok (plan.out,
          s.publish (.tallySettled campaignId period plan.token plan.payoutRate)))) plan.out s

/-- `settle`: pay every attributed address of a committed period, once. -/
def settle (env : Env) (owner : Address) (campaignId : UInt64) (code : Bytes) (period : UInt64)
    (s : ContractState) : Interaction (List Payout) :=
  match settleChecks env owner campaignId code period s with
  | .error f => .done (.error f)
  | .ok (plan, s) => settlePayments env owner campaignId period plan s

/-- **Before the first token call** the owner, the code's terms, the tally and the guard have been
checked, the payouts computed, and the guard written. -/
theorem settleChecks_eq_ok_iff {env : Env} {owner : Address} {c period : UInt64} {code : Bytes}
    {s s' : ContractState} {plan : SettlePlan} :
    settleChecks env owner c code period s = .ok (plan, s') ↔
      (∃ camp, s.storage.campaign c = some camp ∧ camp.owner = owner) ∧
      ∃ (shared : SharedCode) (tally : TallyCommitment),
        s.storage.shared (c, code) = some shared ∧ shared.payoutToken = some plan.token ∧
        0 < shared.payoutRate ∧ s.storage.tally (c, code, period) = some tally ∧
        s.storage.settled (c, code, period) = none ∧ plan.payoutRate = shared.payoutRate ∧
        tally.perAttribution.entries.foldlM (addSettlement shared.payoutRate) ([], 0) =
          .ok (plan.out, plan.total) ∧
        s' = (s.set env (.settled c code period) true).raiseTtl env (.settled c code period)
          ledgerBump extendTo := by
  have hnone : s.has (.settled c code period) = true ↔
      ¬s.storage.settled (c, code, period) = none := by
    simp [ContractState.has_def, Storage.get, Option.isSome_iff_ne_none]
  have hset : (s.set env (.settled c code period) true).has (.settled c code period) = true := by
    simp [ContractState.has_def, Storage.get, Storage.write]
  have hrate : ∀ r : I128, ¬r ≤ 0 ↔ 0 < r := fun r ↦ by rw [I128.le_def, I128.lt_def, not_le]
  simp only [settleChecks, bind_eq_ok_iff, requireOwner_eq_ok_iff, okOr_eq_ok_iff,
    rejectIf_eq_ok_iff, ContractState.extendTtl_eq_ok_iff, pure_eq_ok, Except.ok.injEq,
    Prod.mk.injEq, exists_const, hnone, not_not, hset, true_and, hrate]
  constructor
  · rintro ⟨howner, shared, hshared, token, htoken, hpos, tally, htally, hfree, ⟨out, total⟩, hloop,
      _, rfl, rfl, rfl⟩
    exact ⟨howner, shared, tally, hshared, htoken, hpos, htally, hfree, rfl, hloop, rfl⟩
  · rintro ⟨howner, shared, tally, hshared, htoken, hpos, htally, hfree, hr, hloop, rfl⟩
    exact ⟨howner, shared, hshared, plan.token, htoken, hpos, tally, htally, hfree,
      (plan.out, plan.total), hloop, _, rfl, by cases plan; simp_all, rfl⟩

/-- `bump_tally`: extend a shared code and the tallies and guards of up to `maxBatch` periods. -/
def bumpTally (env : Env) (campaignId : UInt64) (code : Bytes) (periods : List UInt64)
    (s : ContractState) : Outcome Error (Unit × ContractState) := do
  rejectIf (maxBatch < periods.length) .batchTooLarge
  rejectIf (s.has (.shared campaignId code) = false) .sharedNotFound
  let s ← s.extendTtl env (.shared campaignId code) ledgerBump extendTo
  let s ← periods.foldlM (fun s p ↦ do
    let s ← bumpIfPresent env (.tally campaignId code p) s
    bumpIfPresent env (.settled campaignId code p) s) s
  return ((), s)

theorem bumpTally_ok {env : Env} {c : UInt64} {code : Bytes} {periods : List UInt64}
    {s s' : ContractState} {u : Unit} (h : bumpTally env c code periods s = .ok (u, s')) :
    SameData s s' := by
  simp only [bumpTally, bind_eq_ok_iff, rejectIf_eq_ok_iff, exists_const, pure_eq_ok,
    Except.ok.injEq, Prod.mk.injEq] at h
  obtain ⟨-, -, s₁, h₁, s₂, h₂, -, rfl⟩ := h
  refine foldlM_induction (fun s₃ p s₄ hs hstep ↦ ?_) (sameData_of_extendTtl h₁) h₂
  rw [bind_eq_ok_iff] at hstep
  obtain ⟨s₅, h₅, h₆⟩ := hstep
  exact hs.trans ((sameData_of_bumpIfPresent h₅).trans (sameData_of_bumpIfPresent h₆))

end Soroticket
