import Soroticket.Ledger.Index

/-!
# Availability and redemption

`is_valid` is what a till asks before it redeems, and it is written apart from `redeem_unique`: it
compares the expiry the other way round, and falls back to `false` where the other returns one of
four errors. Here the two are one decision. In a reachable state an authenticated redemption has
exactly five outcomes, and which one it is depends on whether the code was issued, whether its
coupon is burned, whether the caller may redeem under the campaign (`MayRedeem`), and the time, in
this order; the last two branches of the source that would answer otherwise, a coupon without a
campaign and an overflow of the count, are closed by the accounts of the ledger.
-/

namespace Soroticket

open Outcome

/-- The address may redeem under the campaign: it is the owner or a current delegate. -/
def MayRedeem (s : ContractState) (c : UInt64) (who : Address) : Prop :=
  (∃ camp, getCampaign c s = .ok camp ∧ camp.owner = who) ∨ isDelegate c who s = true

theorem mayRedeem_iff {s : ContractState} {c : UInt64} {who : Address} {camp : Campaign}
    (hcamp : s.storage.campaign c = some camp) :
    MayRedeem s c who ↔ who = camp.owner ∨ isDelegateInternal c who s = true := by
  have hget : getCampaign c s = .ok camp := by
    rw [getCampaign, okOr_eq_ok_iff]
    exact hcamp
  rw [MayRedeem, hget, isDelegate]
  constructor
  · rintro (⟨camp', h, rfl⟩ | h)
    · rw [Except.ok.inj h]
      exact Or.inl rfl
    · exact Or.inr h
  · rintro (rfl | h)
    · exact Or.inl ⟨camp, rfl, rfl⟩
    · exact Or.inr h

/-! ### The outcomes of a redemption -/

section Outcomes

variable {env : Env} {who : Address} {c t : UInt64} {code : Bytes} {ref : BytesN 32}
  {s : ContractState} {tok : CouponToken} {camp : Campaign}

/-- A code the campaign has not issued is refused. -/
theorem redeemUnique_of_unissued (hauth : who ∈ env.auths)
    (hindex : s.storage.codeIndex (c, code) = none) :
    redeemUnique env who c code ref s = .error (.err .couponNotFound) := by
  have h₁ : s.get (.codeIndex c code) = none := hindex
  simp [redeemUnique, requireAuth, hauth, h₁, okOr]

/-- An unburned coupon is refused to whoever is neither owner nor delegate. -/
theorem redeemUnique_of_stranger (hauth : who ∈ env.auths)
    (hindex : s.storage.codeIndex (c, code) = some t) (htok : s.storage.token t = some tok)
    (hunburned : tok.isBurned = false) (hcamp : s.storage.campaign tok.campaignId = some camp)
    (hwho : ¬(who = camp.owner ∨ isDelegateInternal tok.campaignId who s = true)) :
    redeemUnique env who c code ref s = .error (.err .unauthorized) := by
  have h₁ : s.get (.codeIndex c code) = some t := hindex
  have h₂ : s.get (.token t) = some tok := htok
  have h₃ : s.get (.campaign tok.campaignId) = some camp := hcamp
  rw [not_or, Bool.not_eq_true] at hwho
  simp [redeemUnique, requireAuth, hauth, h₁, h₂, h₃, hunburned, rejectIf, hwho]

/-- After the campaign's last second an unburned coupon is refused as expired. -/
theorem redeemUnique_of_expired (hauth : who ∈ env.auths)
    (hindex : s.storage.codeIndex (c, code) = some t) (htok : s.storage.token t = some tok)
    (hunburned : tok.isBurned = false) (hcamp : s.storage.campaign tok.campaignId = some camp)
    (hwho : who = camp.owner ∨ isDelegateInternal tok.campaignId who s = true)
    (htime : camp.validUntil < env.timestamp) :
    redeemUnique env who c code ref s = .error (.err .campaignExpired) := by
  have h₁ : s.get (.codeIndex c code) = some t := hindex
  have h₂ : s.get (.token t) = some tok := htok
  have h₃ : s.get (.campaign tok.campaignId) = some camp := hcamp
  have hpass : ¬(who ≠ camp.owner ∧ isDelegateInternal tok.campaignId who s = false) := by
    rcases hwho with h | h <;> simp [h]
  simp [redeemUnique, requireAuth, hauth, h₁, h₂, h₃, hunburned, rejectIf_neg hpass,
    rejectIf_neg, rejectIf_pos htime]

/-- Until then it is redeemed. -/
theorem redeemUnique_of_open (hauth : who ∈ env.auths)
    (hindex : s.storage.codeIndex (c, code) = some t) (htok : s.storage.token t = some tok)
    (hunburned : tok.isBurned = false) (hcamp : s.storage.campaign tok.campaignId = some camp)
    (hwho : who = camp.owner ∨ isDelegateInternal tok.campaignId who s = true)
    (htime : env.timestamp ≤ camp.validUntil) (hroom : camp.burned.toNat + 1 < 2 ^ 32) :
    ∃ r s', redeemUnique env who c code ref s = .ok (r, s') := by
  have h₁ : s.get (.codeIndex c code) = some t := hindex
  have h₂ : s.get (.token t) = some tok := htok
  have h₃ : s.get (.campaign tok.campaignId) = some camp := hcamp
  have hpass : ¬(who ≠ camp.owner ∧ isDelegateInternal tok.campaignId who s = false) := by
    rcases hwho with h | h <;> simp [h]
  obtain ⟨burned, hburned⟩ : ∃ burned, camp.burned.checkedAdd 1 = some burned := by
    refine Option.ne_none_iff_exists'.1 fun hnone ↦ ?_
    rw [UInt32.checkedAdd_eq_none_iff, UInt32.toNat_one] at hnone
    omega
  simp [redeemUnique, requireAuth, hauth, h₁, h₂, h₃, hunburned, rejectIf_neg hpass,
    rejectIf_neg, rejectIf_neg (UInt64.not_lt.2 htime), ContractState.extendTtl, hburned, orTrap]

end Outcomes

/-! ### The outcomes, by what a till is told -/

namespace Accounted

variable {env : Env} {who : Address} {c t : UInt64} {code : Bytes} {ref : BytesN 32}
  {s : ContractState} {tok : CouponToken}

/-- The coupon a code leads to is of the campaign asked for, which exists. -/
theorem campaign_of_coupon (ha : Accounted s.storage)
    (hindex : s.storage.codeIndex (c, code) = some t) (htok : s.storage.token t = some tok) :
    tok.campaignId = c ∧ ∃ camp, s.storage.campaign tok.campaignId = some camp :=
  ⟨(ha.filed.campaignId_eq hindex htok).1,
    Option.isSome_iff_exists.1 (ha.filed.token_filed t tok htok).2.1⟩

theorem redeemUnique_of_not_mayRedeem (ha : Accounted s.storage) (hauth : who ∈ env.auths)
    (hindex : s.storage.codeIndex (c, code) = some t) (htok : s.storage.token t = some tok)
    (hunburned : tok.isBurned = false) (hwho : ¬MayRedeem s c who) :
    redeemUnique env who c code ref s = .error (.err .unauthorized) := by
  obtain ⟨rfl, camp, hcamp⟩ := ha.campaign_of_coupon hindex htok
  exact redeemUnique_of_stranger hauth hindex htok hunburned hcamp
    fun h ↦ hwho ((mayRedeem_iff hcamp).2 h)

/-- An unburned coupon that is not valid is one whose campaign has expired. -/
theorem redeemUnique_of_invalid (ha : Accounted s.storage) (hauth : who ∈ env.auths)
    (hindex : s.storage.codeIndex (c, code) = some t) (htok : s.storage.token t = some tok)
    (hunburned : tok.isBurned = false) (hwho : MayRedeem s c who)
    (hinvalid : isValid env c code s = false) :
    redeemUnique env who c code ref s = .error (.err .campaignExpired) := by
  obtain ⟨rfl, camp, hcamp⟩ := ha.campaign_of_coupon hindex htok
  refine redeemUnique_of_expired hauth hindex htok hunburned hcamp ((mayRedeem_iff hcamp).1 hwho)
    (UInt64.not_le.1 fun htime ↦ ?_)
  have hvalid := Soroticket.isValid_iff.2 ⟨t, tok, camp, hindex, htok, hunburned, hcamp, htime⟩
  exact Bool.false_ne_true (hinvalid.symm.trans hvalid)

theorem redeemUnique_of_valid (ha : Accounted s.storage) (hauth : who ∈ env.auths)
    (hvalid : isValid env c code s = true) (hwho : MayRedeem s c who) :
    ∃ r s', redeemUnique env who c code ref s = .ok (r, s') := by
  obtain ⟨t, tok, camp, hindex, htok, hunburned, hcamp, htime⟩ := Soroticket.isValid_iff.1 hvalid
  obtain ⟨rfl, -⟩ := ha.campaign_of_coupon hindex htok
  exact redeemUnique_of_open hauth hindex htok hunburned hcamp ((mayRedeem_iff hcamp).1 hwho) htime
    (ha.burned_lt htok hunburned hcamp)

theorem valid_of_redeemed (ha : Accounted s.storage) {r : RedemptionReceipt} {s' : ContractState}
    (h : redeemUnique env who c code ref s = .ok (r, s')) :
    isValid env c code s = true ∧ MayRedeem s c who := by
  obtain ⟨-, t, tok, camp, burned, hindex, htok, hunburned, hcamp, hwho, htime, -⟩ :=
    redeemUnique_ok h
  obtain ⟨rfl, -⟩ := ha.campaign_of_coupon hindex htok
  exact ⟨Soroticket.isValid_iff.2 ⟨t, tok, camp, hindex, htok, hunburned, hcamp, htime⟩,
    (mayRedeem_iff hcamp).2 hwho⟩

/-- The two branches that the accounts close: one of the five outcomes is the one at hand. -/
theorem redeemUnique_ne (ha : Accounted s.storage) (hauth : who ∈ env.auths) :
    redeemUnique env who c code ref s ≠ .error (.err .campaignNotFound) ∧
      redeemUnique env who c code ref s ≠ .error .trap := by
  rcases hindex : s.storage.codeIndex (c, code) with - | t
  · rw [redeemUnique_of_unissued hauth hindex]
    exact ⟨by simp, by simp⟩
  obtain ⟨tok, htok, -⟩ := ha.filed.codeIndex_iff.1 hindex
  rcases hb : tok.isBurned with - | -
  · by_cases hwho : MayRedeem s c who
    · rcases hvalid : isValid env c code s with - | -
      · rw [ha.redeemUnique_of_invalid hauth hindex htok hb hwho hvalid]
        exact ⟨by simp, by simp⟩
      · obtain ⟨r, s', h⟩ := ha.redeemUnique_of_valid hauth hvalid hwho
        rw [h]
        exact ⟨by simp, by simp⟩
    · rw [ha.redeemUnique_of_not_mayRedeem hauth hindex htok hb hwho]
      exact ⟨by simp, by simp⟩
  · rw [redeemUnique_of_burned hauth hindex htok hb]
    exact ⟨by simp, by simp⟩

end Accounted

/-! ### What a redemption does to the answers -/

/-- The state after a redemption, as it bears on the answers: the coupon burned, every other coupon
as it was, and every campaign with the same end. -/
theorem isValid_after_redeem {s s' : ContractState} (h : Filed s.storage) {env : Env}
    {who : Address} {c : UInt64} {code : Bytes} {ref : BytesN 32} {r : RedemptionReceipt}
    (hredeem : redeemUnique env who c code ref s = .ok (r, s')) (env' : Env) :
    isValid env' c code s' = false ∧ ∀ c' code', (c', code') ≠ (c, code) →
      isValid env' c' code' s' = isValid env' c' code' s := by
  obtain ⟨-, t, tok, camp, burned, hindex, htok, -, hcamp, -, -, -, -, hs', -⟩ :=
    redeemUnique_ok hredeem
  obtain ⟨rfl, rfl⟩ := h.campaignId_eq hindex htok
  have hidx : s'.storage.codeIndex = s.storage.codeIndex := by rw [hs']
  have htoken : s'.storage.token =
      Function.update s.storage.token t (some (tok.burn ref env.timestamp)) := by rw [hs']
  have hcampaign : s'.storage.campaign =
      Function.update s.storage.campaign tok.campaignId (some { camp with burned }) := by rw [hs']
  constructor
  · rw [Bool.eq_false_iff]
    intro hvalid
    obtain ⟨t', tok', camp', hindex', htok', hb', -⟩ := Soroticket.isValid_iff.1 hvalid
    rw [hidx, hindex, Option.some.injEq] at hindex'
    subst hindex'
    rw [htoken, Function.update_self, Option.some.injEq] at htok'
    subst htok'
    exact Bool.false_ne_true hb'.symm
  · intro c' code' hne
    -- another pair leads to another coupon, and its campaign ends when it did
    have hother : ∀ t', s.storage.codeIndex (c', code') = some t' → t' ≠ t := by
      rintro _ hindex' rfl
      obtain ⟨rfl, rfl⟩ := h.campaignId_eq hindex' htok
      exact hne rfl
    have hend : ∀ x now, (∃ camp', s'.storage.campaign x = some camp' ∧ now ≤ camp'.validUntil) ↔
        ∃ camp', s.storage.campaign x = some camp' ∧ now ≤ camp'.validUntil := by
      intro x now
      rw [hcampaign]
      rcases eq_or_ne x tok.campaignId with rfl | hx
      · rw [Function.update_self, hcamp]
        simp
      · rw [Function.update_of_ne hx]
    rw [Bool.eq_iff_iff, Soroticket.isValid_iff, Soroticket.isValid_iff]
    constructor
    · rintro ⟨t', tok', camp', hindex', htok', hb', hcamp', htime⟩
      rw [hidx] at hindex'
      rw [htoken, Function.update_of_ne (hother t' hindex')] at htok'
      obtain ⟨camp'', hcamp'', htime'⟩ := (hend _ _).1 ⟨camp', hcamp', htime⟩
      exact ⟨t', tok', camp'', hindex', htok', hb', hcamp'', htime'⟩
    · rintro ⟨t', tok', camp', hindex', htok', hb', hcamp', htime⟩
      obtain ⟨camp'', hcamp'', htime'⟩ := (hend _ _).2 ⟨camp', hcamp', htime⟩
      refine ⟨t', tok', camp'', hidx ▸ hindex', ?_, hb', hcamp'', htime'⟩
      rw [htoken, Function.update_of_ne (hother t' hindex'), htok']

/-! ### The theorem -/

/-- **Availability and redemption agree.** In every state of a run an authenticated caller redeems a
code exactly when it is reported valid at that second and the caller is the owner or a current
delegate of the campaign. A refusal names the first thing amiss: a code never issued, a coupon
burned, a caller without the right, an expired campaign; a missing campaign is never the reason, and
a refusal changes nothing. A valid code is of a campaign not reported expired, and a redemption
makes its own code invalid, at every time, and changes the answer for no other. -/
theorem availability_agrees {txs : List Tx} (hord : Ordered txs) (ttl : ℕ) (env : Env)
    (who : Address) (c : UInt64) (code : Bytes) (ref : BytesN 32) (hauth : who ∈ env.auths) :
    ((∃ r s', redeemUnique env who c code ref (runFrom ttl txs) = .ok (r, s')) ↔
      isValid env c code (runFrom ttl txs) = true ∧ MayRedeem (runFrom ttl txs) c who) ∧
    ((∀ i t, ¬IssuesAt ttl txs i c code t) →
      redeemUnique env who c code ref (runFrom ttl txs) = .error (.err .couponNotFound)) ∧
    (∀ i t tok, IssuesAt ttl txs i c code t → (runFrom ttl txs).storage.token t = some tok →
      tok.isBurned = true →
        redeemUnique env who c code ref (runFrom ttl txs) = .error (.err .alreadyRedeemed)) ∧
    (∀ i t tok, IssuesAt ttl txs i c code t → (runFrom ttl txs).storage.token t = some tok →
      tok.isBurned = false → ¬MayRedeem (runFrom ttl txs) c who →
        redeemUnique env who c code ref (runFrom ttl txs) = .error (.err .unauthorized)) ∧
    (∀ i t tok, IssuesAt ttl txs i c code t → (runFrom ttl txs).storage.token t = some tok →
      tok.isBurned = false → MayRedeem (runFrom ttl txs) c who →
      isValid env c code (runFrom ttl txs) = false →
        redeemUnique env who c code ref (runFrom ttl txs) = .error (.err .campaignExpired)) ∧
    (redeemUnique env who c code ref (runFrom ttl txs) ≠ .error (.err .campaignNotFound) ∧
      redeemUnique env who c code ref (runFrom ttl txs) ≠ .error .trap) ∧
    (∀ replies f, redeemUnique env who c code ref (runFrom ttl txs) = .error f →
      runFrom ttl (txs ++ [⟨env, .redeemUnique who c code ref, replies⟩]) = runFrom ttl txs) ∧
    (isValid env c code (runFrom ttl txs) = true →
      ∃ st, campaignStats env c (runFrom ttl txs) = .ok st ∧ st.isExpired = false) ∧
    (∀ r s', redeemUnique env who c code ref (runFrom ttl txs) = .ok (r, s') → ∀ env',
      isValid env' c code s' = false ∧ ∀ c' code', (c', code') ≠ (c, code) →
        isValid env' c' code' s' = isValid env' c' code' (runFrom ttl txs)) := by
  have hreach : Reachable (runFrom ttl txs) := ⟨ttl, txs, hord, rfl⟩
  have ha := hreach.accounted
  have hissued : ∀ {i t}, IssuesAt ttl txs i c code t →
      (runFrom ttl txs).storage.codeIndex (c, code) = some t :=
    fun h ↦ (codeIndex_iff_exists_issuesAt hord).2 ⟨_, h⟩
  refine ⟨⟨fun ⟨r, s', h⟩ ↦ ha.valid_of_redeemed h, fun h ↦ ha.redeemUnique_of_valid hauth h.1 h.2⟩,
    ?_, ?_, ?_, ?_, ha.redeemUnique_ne hauth, ?_, ?_, ?_⟩
  · intro hnever
    refine redeemUnique_of_unissued hauth (Option.eq_none_iff_forall_ne_some.2 fun t hindex ↦ ?_)
    obtain ⟨i, hi⟩ := (codeIndex_iff_exists_issuesAt hord).1 hindex
    exact hnever i t hi
  · intro i t tok hi htok hb
    exact redeemUnique_of_burned hauth (hissued hi) htok hb
  · intro i t tok hi htok hb hwho
    exact ha.redeemUnique_of_not_mayRedeem hauth (hissued hi) htok hb hwho
  · intro i t tok hi htok hb hwho hinvalid
    exact ha.redeemUnique_of_invalid hauth (hissued hi) htok hb hwho hinvalid
  · intro replies f h
    rw [runFrom_concat]
    refine applyTx_of_error (f := f) ?_
    show (direct Value.receipt _).runReplies replies = _
    rw [direct, Callout.runReplies_done, h]
    rfl
  · intro hvalid
    obtain ⟨t, tok, camp, -, -, -, hcamp, htime⟩ := ha.filed.isValid_iff.1 hvalid
    have hget : (runFrom ttl txs).get (.campaign c) = some camp := hcamp
    exact ⟨_, by rw [campaignStats, hget]; rfl, decide_eq_false (UInt64.not_lt.2 htime)⟩
  · intro r s' h env'
    exact isValid_after_redeem ha.filed h env'

/-- In the sample history, after its third transaction, the cashier redeems the first code at time
13, and nobody does after the campaign's last second. -/
theorem availability_agrees_sample :
    (∃ r s', redeemUnique (Sample.envAt 13 Sample.cashier) Sample.cashier 1 Sample.code₁
      Sample.customer (runFrom 0 (Sample.history.take 3)) = .ok (r, s')) ∧
    ¬∃ r s', redeemUnique (Sample.envAt 101 Sample.owner) Sample.owner 1 Sample.code₁
      Sample.customer (runFrom 0 (Sample.history.take 3)) = .ok (r, s') := by
  have hord : Ordered (Sample.history.take 3) := Sample.ordered_history.take 3
  have h₁ := availability_agrees hord 0 (Sample.envAt 13 Sample.cashier) Sample.cashier 1
    Sample.code₁ Sample.customer (by decide)
  have h₂ := availability_agrees hord 0 (Sample.envAt 101 Sample.owner) Sample.owner 1
    Sample.code₁ Sample.customer (by decide)
  refine ⟨h₁.1.2 ⟨by decide, Or.inr (by decide)⟩, fun h ↦ ?_⟩
  exact absurd (h₂.1.1 h).1 (by decide)

end Soroticket
