import Soroticket.Ledger.Campaigns

/-!
# Coupons: issuance, redemption, verification

The Burn profile: unique codes issued in batches, each redeemed at most once. A batch is a loop that
writes one coupon a round, and `mintCode` is that round; the campaign's own count is written once,
after the loop. A redemption writes the coupon and the campaign's count of burned coupons.
-/

namespace Soroticket

open Outcome

/-! ### Issuance -/

/-- The coupon `issue_unique` stores for one code. -/
def newToken (tokenId campaignId : UInt64) (code : Bytes) (now : UInt64) : CouponToken :=
  { tokenId, campaignId, code, isBurned := false, mintedAt := now, redeemerRef := BytesN.zero 32,
    burnedAt := 0 }

/-- One round of `issue_unique`: check one code, store its coupon and its index entry, and append
the new id to the ids issued so far. -/
def mintCode (env : Env) (campaignId : UInt64) (acc : ContractState × List UInt64) (code : Bytes) :
    Outcome Error (ContractState × List UInt64) := do
  let s := acc.1
  rejectIf (code = []) .invalidCode
  rejectIf (maxCodeLen < code.length) .codeTooLong
  rejectIf (s.has (.codeIndex campaignId code) = true) .duplicateCode
  let tokenId ← orTrap ((s.storage.tokCtr.getD 0).checkedAdd 1)
  let s := { s with storage := { s.storage with tokCtr := some tokenId } }
  let s := s.set env (.token tokenId) (newToken tokenId campaignId code env.timestamp)
  let s ← s.extendTtl env (.token tokenId) ledgerBump extendTo
  let s := s.set env (.codeIndex campaignId code) tokenId
  let s ← s.extendTtl env (.codeIndex campaignId code) ledgerBump extendTo
  return (s.publish (.couponIssued tokenId campaignId), acc.2 ++ [tokenId])

/-- `issue_unique`: issue a batch of codes under a campaign. -/
def issueUnique (env : Env) (owner : Address) (campaignId : UInt64) (codes : List Bytes)
    (s : ContractState) : Outcome Error (List UInt64 × ContractState) := do
  requireAuth env owner
  let camp : Campaign ← okOr (s.get (.campaign campaignId)) .campaignNotFound
  rejectIf (owner ≠ camp.owner) .unauthorized
  rejectIf (camp.validUntil < env.timestamp) .campaignExpired
  rejectIf (codes.length = 0) .invalidCode
  rejectIf (maxBatch < codes.length) .batchTooLarge
  let newMinted ← okOr (camp.minted.checkedAdd (.ofNat codes.length)) .supplyExhausted
  rejectIf (camp.totalSupply < newMinted) .supplyExhausted
  let (s, tokenIds) ← codes.foldlM (mintCode env campaignId) (s, [])
  let s := s.set env (.campaign campaignId) { camp with minted := newMinted }
  let s ← s.extendTtl env (.campaign campaignId) ledgerBump extendTo
  return (tokenIds, s.extendInstanceTtl env ledgerBump extendTo)

/-- The stored values after one coupon is minted. -/
def Storage.mint (s : Storage) (t c : UInt64) (code : Bytes) (now : UInt64) : Storage :=
  { s with
    tokCtr := some t
    token := Function.update s.token t (some (newToken t c code now))
    codeIndex := Function.update s.codeIndex (c, code) (some t) }

/-- **One round** takes the next coupon id, under a code the campaign has not used. -/
theorem mintCode_ok {env : Env} {c : UInt64} {s s' : ContractState} {ids ids' : List UInt64}
    {code : Bytes} (h : mintCode env c (s, ids) code = .ok (s', ids')) :
    code ≠ [] ∧ code.length ≤ maxCodeLen ∧ s.storage.codeIndex (c, code) = none ∧
      ∃ t : UInt64, t.toNat = (s.storage.tokCtr.getD 0).toNat + 1 ∧ ids' = ids ++ [t] ∧
        s'.storage = s.storage.mint t c code env.timestamp ∧
        s'.events = s.events ++ [.couponIssued t c] := by
  simp only [mintCode, bind_eq_ok_iff, rejectIf_eq_ok_iff, orTrap_eq_ok_iff,
    ContractState.extendTtl_eq_ok_iff, pure_eq_ok, Except.ok.injEq, Prod.mk.injEq, exists_const,
    UInt64.checkedAdd_eq_some_iff] at h
  obtain ⟨hne, hlen, hfree, t, ht, _, ⟨-, rfl⟩, _, ⟨-, rfl⟩, rfl, rfl⟩ := h
  have hnone : s.storage.codeIndex (c, code) = none := by
    simpa [ContractState.has_def, Storage.get] using hfree
  exact ⟨hne, Nat.le_of_not_lt hlen, hnone, t, ht, rfl, rfl, rfl⟩

/-- **Issuing a batch** is the loop over its codes, and then the campaign's new count. -/
theorem issueUnique_ok {env : Env} {owner : Address} {c : UInt64} {codes : List Bytes}
    {s s' : ContractState} {ids : List UInt64}
    (h : issueUnique env owner c codes s = .ok (ids, s')) :
    owner ∈ env.auths ∧ ∃ (camp : Campaign) (newMinted : UInt32) (s₁ : ContractState),
      s.storage.campaign c = some camp ∧ camp.owner = owner ∧ env.timestamp ≤ camp.validUntil ∧
      codes.length ≠ 0 ∧ codes.length ≤ maxBatch ∧
      newMinted.toNat = camp.minted.toNat + codes.length ∧ newMinted ≤ camp.totalSupply ∧
      codes.foldlM (mintCode env c) (s, []) = .ok (s₁, ids) ∧
      s'.storage = { s₁.storage with
        campaign :=
          Function.update s₁.storage.campaign c (some { camp with minted := newMinted }) } ∧
      s'.events = s₁.events := by
  simp only [issueUnique, bind_eq_ok_iff, requireAuth_eq_ok_iff, okOr_eq_ok_iff,
    rejectIf_eq_ok_iff, ContractState.extendTtl_eq_ok_iff, pure_eq_ok, Except.ok.injEq,
    Prod.mk.injEq, exists_const, UInt32.checkedAdd_eq_some_iff] at h
  obtain ⟨hauth, camp, hcamp, howner, htime, hne, hbatch, n, hn, hsupply, ⟨s₁, ids'⟩, hloop, _,
    ⟨-, rfl⟩, rfl, rfl⟩ := h
  have hlen : (UInt32.ofNat codes.length).toNat = codes.length :=
    UInt32.toNat_ofNat_of_lt' (by simp only [maxBatch] at hbatch; simp only [UInt32.size]; omega)
  rw [hlen] at hn
  exact ⟨hauth, camp, n, s₁, hcamp, (not_not.1 howner).symm, UInt64.not_lt.1 htime, hne,
    Nat.le_of_not_lt hbatch, hn, UInt32.not_lt.1 hsupply, hloop, rfl, rfl⟩

/-! ### Redemption -/

/-- The coupon `redeem_unique` stores. -/
def CouponToken.burn (tok : CouponToken) (ref : BytesN 32) (now : UInt64) : CouponToken :=
  { tok with isBurned := true, redeemerRef := ref, burnedAt := now }

/-- The receipt `redeem_unique` returns. -/
def receiptFor (camp : Campaign) (t : UInt64) (code : Bytes) (ref : BytesN 32) (env : Env) :
    RedemptionReceipt :=
  { tokenId := t, code, campaignId := camp.id, campaignName := camp.name,
    discountType := camp.discountType, discountValue := camp.discountValue, redeemerRef := ref,
    burnedAt := env.timestamp, ledgerSeq := env.sequence }

/-- `redeem_unique`: burn the coupon of a code, by the campaign's owner or a delegate. -/
def redeemUnique (env : Env) (authorizer : Address) (campaignId : UInt64) (code : Bytes)
    (redeemerRefHash : BytesN 32) (s : ContractState) :
    Outcome Error (RedemptionReceipt × ContractState) := do
  requireAuth env authorizer
  let tokenId : UInt64 ← okOr (s.get (.codeIndex campaignId code)) .couponNotFound
  let token : CouponToken ← okOr (s.get (.token tokenId)) .couponNotFound
  rejectIf (token.isBurned = true) .alreadyRedeemed
  let camp : Campaign ← okOr (s.get (.campaign token.campaignId)) .campaignNotFound
  rejectIf (authorizer ≠ camp.owner ∧ isDelegateInternal token.campaignId authorizer s = false)
    .unauthorized
  rejectIf (camp.validUntil < env.timestamp) .campaignExpired
  let s := s.set env (.token tokenId) (token.burn redeemerRefHash env.timestamp)
  let s ← s.extendTtl env (.token tokenId) ledgerBump extendTo
  -- `camp.burned += 1` is unchecked in the source, and traps on overflow
  let burned ← orTrap (camp.burned.checkedAdd 1)
  let s := s.set env (.campaign token.campaignId) { camp with burned }
  let s ← s.extendTtl env (.campaign token.campaignId) ledgerBump extendTo
  let s := s.extendInstanceTtl env ledgerBump extendTo
  return (receiptFor camp tokenId code redeemerRefHash env,
    s.publish (.couponBurned tokenId env.sequence))

/-- **A redemption** finds an unburned coupon of a live campaign, with the owner's or a delegate's
authorization, and writes the coupon and the count of burned coupons. -/
theorem redeemUnique_ok {env : Env} {who : Address} {c : UInt64} {code : Bytes} {ref : BytesN 32}
    {s s' : ContractState} {r : RedemptionReceipt}
    (h : redeemUnique env who c code ref s = .ok (r, s')) :
    who ∈ env.auths ∧ ∃ (t : UInt64) (tok : CouponToken) (camp : Campaign) (burned : UInt32),
      s.storage.codeIndex (c, code) = some t ∧ s.storage.token t = some tok ∧
      tok.isBurned = false ∧ s.storage.campaign tok.campaignId = some camp ∧
      (who = camp.owner ∨ isDelegateInternal tok.campaignId who s = true) ∧
      env.timestamp ≤ camp.validUntil ∧ burned.toNat = camp.burned.toNat + 1 ∧
      r = receiptFor camp t code ref env ∧
      s'.storage = { s.storage with
        token := Function.update s.storage.token t (some (tok.burn ref env.timestamp))
        campaign := Function.update s.storage.campaign tok.campaignId
          (some { camp with burned }) } ∧
      s'.events = s.events ++ [.couponBurned t env.sequence] := by
  simp only [redeemUnique, bind_eq_ok_iff, requireAuth_eq_ok_iff, okOr_eq_ok_iff,
    rejectIf_eq_ok_iff, orTrap_eq_ok_iff, ContractState.extendTtl_eq_ok_iff, pure_eq_ok,
    Except.ok.injEq, Prod.mk.injEq, exists_const, UInt32.checkedAdd_eq_some_iff, not_and_or,
    not_not, Bool.not_eq_true, Bool.not_eq_false] at h
  obtain ⟨hauth, t, ht, tok, htok, hburned, camp, hcamp, hwho, htime, _, ⟨-, rfl⟩, burned, hb, _,
    ⟨-, rfl⟩, rfl, rfl⟩ := h
  exact ⟨hauth, t, tok, camp, burned, ht, htok, hburned, hcamp, hwho, UInt64.not_lt.1 htime, hb,
    rfl, rfl, rfl⟩

/-- **A redemption traps** for want of the authorization, or where a campaign that may be redeemed
under has burned as many coupons as a word counts. -/
theorem redeemUnique_eq_trap_iff {env : Env} {who : Address} {c : UInt64} {code : Bytes}
    {ref : BytesN 32} {s : ContractState} :
    redeemUnique env who c code ref s = .error .trap ↔ who ∉ env.auths ∨ who ∈ env.auths ∧
      ∃ (t : UInt64), s.storage.codeIndex (c, code) = some t ∧
      ∃ (tok : CouponToken), s.storage.token t = some tok ∧ tok.isBurned = false ∧
      ∃ (camp : Campaign), s.storage.campaign tok.campaignId = some camp ∧
        (who = camp.owner ∨ isDelegateInternal tok.campaignId who s = true) ∧
        env.timestamp ≤ camp.validUntil ∧ 2 ^ 32 ≤ camp.burned.toNat + 1 := by
  simp only [redeemUnique, bind_eq_trap_iff, requireAuth_eq_trap_iff, requireAuth_eq_ok_iff,
    okOr_eq_ok_iff, okOr_ne_trap, rejectIf_eq_ok_iff, rejectIf_ne_trap, orTrap_eq_trap_iff,
    orTrap_eq_ok_iff, ContractState.extendTtl_eq_ok_iff, ContractState.extendTtl_eq_trap_iff,
    ContractState.has_set_self, UInt32.checkedAdd_eq_none_iff, exists_const, exists_false,
    exists_eq_left, not_and_or, not_not, Bool.not_eq_true, Bool.not_eq_false, pure_eq_ok,
    reduceCtorEq, false_or, or_false, and_false, true_and, UInt64.not_lt]
  rfl

/-- A burned coupon is refused, whoever asks and whenever, before the campaign is looked at. -/
theorem redeemUnique_of_burned {env : Env} {who : Address} {c t : UInt64} {code : Bytes}
    {ref : BytesN 32} {s : ContractState} {tok : CouponToken} (hauth : who ∈ env.auths)
    (hindex : s.storage.codeIndex (c, code) = some t) (htok : s.storage.token t = some tok)
    (hburned : tok.isBurned = true) :
    redeemUnique env who c code ref s = .error (.err .alreadyRedeemed) := by
  have h₁ : s.get (.codeIndex c code) = some t := hindex
  have h₂ : s.get (.token t) = some tok := htok
  simp [redeemUnique, requireAuth, hauth, h₁, h₂, hburned, rejectIf_pos]

/-! ### Verification -/

/-- `verify`: the coupon of a code. -/
def verify (campaignId : UInt64) (code : Bytes) (s : ContractState) :
    Outcome Error CouponToken := do
  let tokenId : UInt64 ← okOr (s.get (.codeIndex campaignId code)) .couponNotFound
  okOr (s.get (.token tokenId)) .couponNotFound

/-- `is_valid`: whether the code can be redeemed now. -/
def isValid (env : Env) (campaignId : UInt64) (code : Bytes) (s : ContractState) : Bool :=
  match s.get (.codeIndex campaignId code) with
  | none => false
  | some id =>
    match s.get (.token id) with
    | none => false
    | some (t : CouponToken) =>
      if t.isBurned then false
      else
        match s.get (.campaign t.campaignId) with
        | none => false
        | some (c : Campaign) => decide (env.timestamp ≤ c.validUntil)

/-- `verify` follows the code index to the coupon. -/
theorem verify_eq_ok_iff {c : UInt64} {code : Bytes} {s : ContractState} {tok : CouponToken} :
    verify c code s = .ok tok ↔
      ∃ t, s.storage.codeIndex (c, code) = some t ∧ s.storage.token t = some tok := by
  simp [verify, bind_eq_ok_iff, ContractState.get_def, Storage.get]

end Soroticket
