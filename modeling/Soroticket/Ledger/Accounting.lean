import Mathlib.Data.FinEnum
import Soroticket.Ledger.Runs
import Soroticket.Machine.Table

/-!
# Supply accounting

A campaign counts its coupons twice, once as issued and once as redeemed, in a record of its own
that `issue_unique` writes after its loop and `redeem_unique` after the coupon. Here the two figures
are the two counts: `minted` is the number of coupons filed under the campaign and `burned` the
number of those redeemed (`Accounted`).

The counts alone are not inductive. A new coupon adds one because its identifier is unused, and a
redemption adds one because the coupon it finds is the one the campaign filed. So the invariant
carries the identifiers as well: campaigns and coupons are numbered without gaps up to the
contract's counters, and the code index and the coupons point at each other (`Filed`).
-/

namespace Soroticket

/-- The records are where the counters and the code index say they are. -/
structure Filed (s : Storage) : Prop where
  /-- The campaigns are numbered from one up to `camp_ctr`. -/
  campaign_iff : ∀ c, (s.campaign c).isSome = true ↔
    1 ≤ c.toNat ∧ c.toNat ≤ (s.campCtr.getD 0).toNat
  /-- A campaign is stored under its own number. -/
  campaign_id : ∀ c camp, s.campaign c = some camp → camp.id = c
  /-- The coupons are numbered from one up to `tok_ctr`. -/
  token_iff : ∀ t, (s.token t).isSome = true ↔ 1 ≤ t.toNat ∧ t.toNat ≤ (s.tokCtr.getD 0).toNat
  /-- A coupon is stored under its own number, belongs to a campaign, and its code leads to it. -/
  token_filed : ∀ t tok, s.token t = some tok → tok.tokenId = t ∧
    (s.campaign tok.campaignId).isSome = true ∧ s.codeIndex (tok.campaignId, tok.code) = some t
  /-- A code leads to the coupon that carries it. -/
  index_filed : ∀ c code t, s.codeIndex (c, code) = some t →
    ∃ tok, s.token t = some tok ∧ tok.campaignId = c ∧ tok.code = code

/-- The coupons of a campaign. -/
def OfCampaign (c : UInt64) (tok : CouponToken) : Prop := tok.campaignId = c

/-- The redeemed coupons of a campaign. -/
def BurnedOf (c : UInt64) (tok : CouponToken) : Prop := tok.campaignId = c ∧ tok.isBurned = true

/-- A campaign's figures are the counts of its coupons. -/
structure Figures (token : UInt64 → Option CouponToken) (c : UInt64) (camp : Campaign) : Prop where
  minted_eq : camp.minted.toNat = recordCount token (OfCampaign c)
  burned_eq : camp.burned.toNat = recordCount token (BurnedOf c)
  minted_le : camp.minted ≤ camp.totalSupply

/-- The accounts of the ledger are in order. -/
structure Accounted (s : Storage) : Prop where
  filed : Filed s
  figures : ∀ c camp, s.campaign c = some camp → Figures s.token c camp
  tokCtr_eq : (s.tokCtr.getD 0).toNat = recordCount s.token fun _ ↦ True

/-! ### Numbers not yet taken -/

namespace Filed

variable {s : Storage}

/-- The next coupon number is free. -/
theorem token_next (h : Filed s) {t : UInt64} (ht : t.toNat = (s.tokCtr.getD 0).toNat + 1) :
    s.token t = none := by
  rw [← Option.not_isSome_iff_eq_none, h.token_iff]
  omega

/-- The next campaign number is free. -/
theorem campaign_next (h : Filed s) {c : UInt64} (hc : c.toNat = (s.campCtr.getD 0).toNat + 1) :
    s.campaign c = none := by
  rw [← Option.not_isSome_iff_eq_none, h.campaign_iff]
  omega

/-- No coupon belongs to a campaign that does not exist. -/
theorem not_ofCampaign (h : Filed s) {c : UInt64} (hc : s.campaign c = none) {t : UInt64}
    {tok : CouponToken} (htok : s.token t = some tok) : tok.campaignId ≠ c := by
  rintro rfl
  have hsome := (h.token_filed t tok htok).2.1
  rw [hc] at hsome
  exact Bool.false_ne_true hsome

/-- The coupon a code leads to belongs to the code's campaign. -/
theorem campaignId_eq (h : Filed s) {c t : UInt64} {code : Bytes} {tok : CouponToken}
    (hindex : s.codeIndex (c, code) = some t) (htok : s.token t = some tok) :
    tok.campaignId = c ∧ tok.code = code := by
  obtain ⟨tok', htok', hc, hcode⟩ := h.index_filed c code t hindex
  obtain rfl := Option.some.inj (htok'.symm.trans htok)
  exact ⟨hc, hcode⟩

end Filed

/-! ### One coupon minted -/

section Mint

variable {s s' : Storage} {c t now : UInt64} {code : Bytes}

/-- A new coupon is filed under the next number. -/
theorem Filed.mint (h : Filed s) (hcamp : (s.campaign c).isSome = true)
    (hfree : s.codeIndex (c, code) = none) (ht : t.toNat = (s.tokCtr.getD 0).toNat + 1) :
    Filed (s.mint t c code now) := by
  have htok := h.token_next ht
  refine ⟨h.campaign_iff, h.campaign_id, fun x ↦ ?_, fun x tok hx ↦ ?_, fun c' code' x hx ↦ ?_⟩
  · show (Function.update s.token t _ x).isSome = true ↔ 1 ≤ x.toNat ∧ x.toNat ≤ t.toNat
    by_cases hxt : x = t
    · subst hxt
      simp only [Function.update_self, Option.isSome_some, true_iff]
      omega
    · have hne : x.toNat ≠ t.toNat := fun he ↦ hxt (UInt64.toNat_inj.1 he)
      rw [Function.update_of_ne hxt, h.token_iff]
      omega
  · change Function.update s.token t _ x = _ at hx
    by_cases hxt : x = t
    · subst hxt
      rw [Function.update_self, Option.some.injEq] at hx
      subst hx
      exact ⟨rfl, hcamp, Function.update_self (c, code) _ _⟩
    · rw [Function.update_of_ne hxt] at hx
      obtain ⟨hid, howner, hindex⟩ := h.token_filed x tok hx
      refine ⟨hid, howner, ?_⟩
      -- the new code was free, so no older coupon carries it
      have hne : (tok.campaignId, tok.code) ≠ (c, code) := by
        intro he
        rw [he, hfree] at hindex
        exact Option.some_ne_none x hindex.symm
      exact (Function.update_of_ne hne _ _).trans hindex
  · change Function.update s.codeIndex (c, code) _ (c', code') = _ at hx
    by_cases hkey : (c', code') = (c, code)
    · obtain ⟨rfl, rfl⟩ := Prod.mk.inj hkey
      rw [Function.update_self, Option.some.injEq] at hx
      subst hx
      exact ⟨_, Function.update_self t _ _, rfl, rfl⟩
    · rw [Function.update_of_ne hkey] at hx
      obtain ⟨tok, hx', hc', hcode'⟩ := h.index_filed c' code' x hx
      have hxt : x ≠ t := by
        rintro rfl
        rw [htok] at hx'
        exact Option.some_ne_none tok hx'.symm
      exact ⟨tok, (Function.update_of_ne hxt _ _).trans hx', hc', hcode'⟩

theorem Mints.campaign_eq {codes : List Bytes} {ids : List UInt64}
    (h : Mints c now s codes ids s') : s'.campaign = s.campaign := by
  rw [h.frame]

/-- A batch is filed coupon by coupon. -/
theorem Filed.mints {codes : List Bytes} {ids : List UInt64} (h : Filed s)
    (hcamp : (s.campaign c).isSome = true) (hmints : Mints c now s codes ids s') : Filed s' := by
  induction hmints with
  | nil s => exact h
  | cons hne hlen hfree ht hrest ih => exact ih (h.mint hcamp hfree ht) hcamp

/-- A batch counts in full under a predicate all its coupons satisfy. -/
theorem Mints.recordCount_of_pos {p : CouponToken → Prop} {codes : List Bytes} {ids : List UInt64}
    (h : Filed s) (hcamp : (s.campaign c).isSome = true) (hmints : Mints c now s codes ids s')
    (hp : ∀ t code, p (newToken t c code now)) :
    recordCount s'.token p = recordCount s.token p + codes.length := by
  induction hmints with
  | nil s => rfl
  | @cons s s' code codes t ids hne hlen hfree ht hrest ih =>
    have hone : recordCount (s.mint t c code now).token p = recordCount s.token p + 1 :=
      recordCount_update_of_new (notMem_keysWith_of_none (h.token_next ht) p) (hp t code)
    rw [ih (h.mint hcamp hfree ht) hcamp, hone, List.length_cons]
    omega

/-- A batch counts for nothing under a predicate none of its coupons satisfies. -/
theorem Mints.recordCount_of_neg {p : CouponToken → Prop} {codes : List Bytes} {ids : List UInt64}
    (h : Filed s) (hcamp : (s.campaign c).isSome = true) (hmints : Mints c now s codes ids s')
    (hp : ∀ t code, ¬p (newToken t c code now)) :
    recordCount s'.token p = recordCount s.token p := by
  induction hmints with
  | nil s => rfl
  | @cons s s' code codes t ids hne hlen hfree ht hrest ih =>
    have hsame : recordCount (s.mint t c code now).token p = recordCount s.token p :=
      recordCount_update_of_iff
        (iff_of_false (notMem_keysWith_of_none (h.token_next ht) p) (hp t code))
    rw [ih (h.mint hcamp hfree ht) hcamp, hsame]

/-- The coupon counter moves by the size of the batch. -/
theorem Mints.tokCtr_eq {codes : List Bytes} {ids : List UInt64}
    (hmints : Mints c now s codes ids s') :
    (s'.tokCtr.getD 0).toNat = (s.tokCtr.getD 0).toNat + codes.length := by
  induction hmints with
  | nil s => rfl
  | @cons s s' code codes t ids hne hlen hfree ht hrest ih =>
    have hone : ((s.mint t c code now).tokCtr.getD 0).toNat = t.toNat := rfl
    rw [ih, hone, ht, List.length_cons]
    omega

end Mint

/-! ### Every effect -/

/-- The accounts read the campaigns, the coupons, their index and the two counters only. -/
theorem Accounted.congr {s s' : Storage} (h : Accounted s) (h₁ : s'.campCtr = s.campCtr)
    (h₂ : s'.tokCtr = s.tokCtr) (h₃ : s'.campaign = s.campaign) (h₄ : s'.token = s.token)
    (h₅ : s'.codeIndex = s.codeIndex) : Accounted s' := by
  obtain ⟨⟨f₁, f₂, f₃, f₄, f₅⟩, a₁, a₂⟩ := h
  refine ⟨⟨?_, ?_, ?_, ?_, ?_⟩, ?_, ?_⟩ <;> simpa only [h₁, h₂, h₃, h₄, h₅]

theorem accounted_empty : Accounted Storage.empty := by
  refine ⟨⟨fun c ↦ ?_, ?_, fun t ↦ ?_, ?_, ?_⟩, ?_, ?_⟩
  · show (none : Option Campaign).isSome = true ↔ 1 ≤ c.toNat ∧ c.toNat ≤ 0
    simp only [Option.isSome_none, Bool.false_eq_true, false_iff]
    omega
  · intro c camp h
    exact absurd h (by simp [Storage.empty])
  · show (none : Option CouponToken).isSome = true ↔ 1 ≤ t.toNat ∧ t.toNat ≤ 0
    simp only [Option.isSome_none, Bool.false_eq_true, false_iff]
    omega
  · intro t tok h
    exact absurd h (by simp [Storage.empty])
  · intro c code t h
    exact absurd h (by simp [Storage.empty])
  · intro c camp h
    exact absurd h (by simp [Storage.empty])
  · exact (recordCount_eq_zero fun t tok h ↦ absurd h (by simp [Storage.empty])).symm

/-- A new campaign has no coupons, under a number no coupon mentions. -/
theorem Accounted.newCampaign {s s' : Storage} {id : UInt64} {camp : Campaign} (h : Accounted s)
    (hid : id.toNat = (s.campCtr.getD 0).toNat + 1) (hcamp : camp.id = id)
    (hminted : camp.minted = 0)
    (hburned : camp.burned = 0) (h₁ : s'.campCtr = some id) (h₂ : s'.tokCtr = s.tokCtr)
    (h₃ : s'.campaign = Function.update s.campaign id (some camp)) (h₄ : s'.token = s.token)
    (h₅ : s'.codeIndex = s.codeIndex) : Accounted s' := by
  have hnone : ∀ t tok, s.token t = some tok → tok.campaignId ≠ id :=
    fun t tok htok ↦ h.filed.not_ofCampaign (h.filed.campaign_next hid) htok
  refine ⟨⟨fun c ↦ ?_, fun c camp' hc ↦ ?_, ?_, fun t tok htok ↦ ?_, ?_⟩, fun c camp' hc ↦ ?_, ?_⟩
  · rw [h₁, h₃]
    show _ ↔ 1 ≤ c.toNat ∧ c.toNat ≤ id.toNat
    by_cases hcid : c = id
    · subst hcid
      simp only [Function.update_self, Option.isSome_some, true_iff]
      omega
    · have hne : c.toNat ≠ id.toNat := fun he ↦ hcid (UInt64.toNat_inj.1 he)
      rw [Function.update_of_ne hcid, h.filed.campaign_iff]
      omega
  · rw [h₃] at hc
    rcases eq_or_eq_of_update hc with ⟨rfl, rfl⟩ | ⟨-, hc⟩
    · exact hcamp
    · exact h.filed.campaign_id c camp' hc
  · rw [h₂, h₄]
    exact h.filed.token_iff
  · rw [h₄] at htok
    rw [h₃, h₅, Function.update_of_ne (hnone t tok htok)]
    exact h.filed.token_filed t tok htok
  · rw [h₄, h₅]
    exact h.filed.index_filed
  · rw [h₃] at hc
    rw [h₄]
    rcases eq_or_eq_of_update hc with ⟨rfl, rfl⟩ | ⟨-, hc⟩
    · have hm : recordCount s.token (OfCampaign c) = 0 := recordCount_eq_zero hnone
      have hb : recordCount s.token (BurnedOf c) = 0 :=
        recordCount_eq_zero fun t tok htok hp ↦ hnone t tok htok hp.1
      exact ⟨by rw [hminted, hm]; rfl, by rw [hburned, hb]; rfl,
        by rw [hminted, UInt32.le_iff_toNat_le]; exact Nat.zero_le _⟩
    · exact h.figures c camp' hc
  · rw [h₂, h₄]
    exact h.tokCtr_eq

/-- A record put in the place of a campaign, under the campaign's own number. -/
theorem Filed.replaceCampaign {s : Storage} {c : UInt64} {camp camp' : Campaign} (h : Filed s)
    (hcamp : s.campaign c = some camp) (hid : camp'.id = camp.id) :
    Filed { s with campaign := Function.update s.campaign c (some camp') } := by
  have hsome : ∀ x, (Function.update s.campaign c (some camp') x).isSome =
      (s.campaign x).isSome := by
    intro x
    by_cases hx : x = c
    · subst hx
      rw [Function.update_self, hcamp]
      rfl
    · rw [Function.update_of_ne hx]
  refine ⟨fun x ↦ ?_, fun x camp₁ hx ↦ ?_, h.token_iff, fun t tok htok ↦ ?_, h.index_filed⟩
  · show (Function.update s.campaign c (some camp') x).isSome = true ↔ _
    rw [hsome]
    exact h.campaign_iff x
  · rcases eq_or_eq_of_update hx with ⟨rfl, rfl⟩ | ⟨-, hx⟩
    · exact hid.trans (h.campaign_id x camp hcamp)
    · exact h.campaign_id x camp₁ hx
  · obtain ⟨hid', howner, hindex⟩ := h.token_filed t tok htok
    exact ⟨hid', (hsome tok.campaignId).trans howner, hindex⟩

/-- A batch moves its campaign's figure by its size, and no other figure. -/
theorem Accounted.issue {s s₁ : Storage} {c now : UInt64} {codes : List Bytes} {ids : List UInt64}
    {camp : Campaign} {newMinted : UInt32} (h : Accounted s) (hcamp : s.campaign c = some camp)
    (hminted : newMinted.toNat = camp.minted.toNat + codes.length)
    (hsupply : newMinted ≤ camp.totalSupply) (hmints : Mints c now s codes ids s₁) :
    Accounted { s₁ with
      campaign := Function.update s₁.campaign c (some { camp with minted := newMinted }) } := by
  have hsome : (s.campaign c).isSome = true := by rw [hcamp]; rfl
  have hcamp₁ : s₁.campaign = s.campaign := hmints.campaign_eq
  have hcamp' : s₁.campaign c = some camp := by rw [hcamp₁, hcamp]
  have hburned : ∀ x, recordCount s₁.token (BurnedOf x) = recordCount s.token (BurnedOf x) :=
    fun x ↦ hmints.recordCount_of_neg h.filed hsome fun t code hp ↦ Bool.false_ne_true hp.2
  refine ⟨(h.filed.mints hsome hmints).replaceCampaign hcamp' rfl, fun x camp₁ hx ↦ ?_, ?_⟩
  · rcases eq_or_eq_of_update hx with ⟨rfl, rfl⟩ | ⟨hxc, hx⟩
    · have hcount := hmints.recordCount_of_pos (p := OfCampaign x) h.filed hsome fun t code ↦ rfl
      have hold := h.figures x camp hcamp
      exact ⟨hminted.trans (by rw [hcount, hold.minted_eq]),
        hold.burned_eq.trans (hburned x).symm, hsupply⟩
    · have hcount : recordCount s₁.token (OfCampaign x) = recordCount s.token (OfCampaign x) :=
        hmints.recordCount_of_neg h.filed hsome fun t code hp ↦ hxc (Eq.symm hp)
      rw [hcamp₁] at hx
      have hold := h.figures x camp₁ hx
      exact ⟨hold.minted_eq.trans hcount.symm, hold.burned_eq.trans (hburned x).symm,
        hold.minted_le⟩
  · have hcount := hmints.recordCount_of_pos (p := fun _ ↦ True) h.filed hsome fun t code ↦ trivial
    exact hmints.tokCtr_eq.trans (by rw [hcount, h.tokCtr_eq])

/-- A coupon redeemed is filed where it was. -/
theorem Filed.burn {s : Storage} {t now : UInt64} {tok : CouponToken} {ref : BytesN 32}
    (h : Filed s) (htok : s.token t = some tok) :
    Filed { s with token := Function.update s.token t (some (tok.burn ref now)) } := by
  refine ⟨h.campaign_iff, h.campaign_id, fun x ↦ ?_, fun x tok₁ hx ↦ ?_, fun c code x hx ↦ ?_⟩
  · show (Function.update s.token t _ x).isSome = true ↔ _
    rw [← h.token_iff]
    by_cases hxt : x = t
    · subst hxt
      rw [Function.update_self, htok]
      exact Iff.rfl
    · rw [Function.update_of_ne hxt]
  · rcases eq_or_eq_of_update hx with ⟨rfl, rfl⟩ | ⟨-, hx⟩
    · exact h.token_filed x tok htok
    · exact h.token_filed x tok₁ hx
  · obtain ⟨tok₁, htok₁, hc, hcode⟩ := h.index_filed c code x hx
    by_cases hxt : x = t
    · subst hxt
      obtain rfl := Option.some.inj (htok₁.symm.trans htok)
      exact ⟨_, Function.update_self x _ _, hc, hcode⟩
    · exact ⟨tok₁, (Function.update_of_ne hxt _ _).trans htok₁, hc, hcode⟩

/-- A redemption moves one figure by one: the burned figure of the coupon's own campaign. -/
theorem Accounted.redeem {s : Storage} {t now : UInt64} {tok : CouponToken} {ref : BytesN 32}
    {camp : Campaign} {burned : UInt32} (h : Accounted s) (htok : s.token t = some tok)
    (hunburned : tok.isBurned = false) (hcamp : s.campaign tok.campaignId = some camp)
    (hburned : burned.toNat = camp.burned.toNat + 1) :
    Accounted { s with
      token := Function.update s.token t (some (tok.burn ref now))
      campaign := Function.update s.campaign tok.campaignId (some { camp with burned }) } := by
  have hof : ∀ x, recordCount (Function.update s.token t (some (tok.burn ref now))) (OfCampaign x) =
      recordCount s.token (OfCampaign x) :=
    fun x ↦ recordCount_update_of_iff ((mem_keysWith_of_some htok).trans Iff.rfl)
  refine ⟨(h.filed.burn htok).replaceCampaign hcamp rfl, fun x camp₁ hx ↦ ?_, ?_⟩
  · rcases eq_or_eq_of_update hx with ⟨rfl, rfl⟩ | ⟨hxc, hx⟩
    · have hold := h.figures _ camp hcamp
      have hnew : t ∉ keysWith s.token (BurnedOf tok.campaignId) := by
        rw [mem_keysWith_of_some htok]
        rintro ⟨-, hb⟩
        exact Bool.false_ne_true (hunburned.symm.trans hb)
      have hcount := recordCount_update_of_new (b := tok.burn ref now) hnew ⟨rfl, rfl⟩
      exact ⟨hold.minted_eq.trans (hof _).symm,
        hburned.trans (by rw [hcount, hold.burned_eq]), hold.minted_le⟩
    · have hold := h.figures x camp₁ hx
      -- the coupon is of another campaign, before and after
      have hsame : recordCount (Function.update s.token t (some (tok.burn ref now))) (BurnedOf x) =
          recordCount s.token (BurnedOf x) :=
        recordCount_update_of_iff ((mem_keysWith_of_some htok).trans
          (iff_of_false (fun hp ↦ hxc hp.1.symm) (fun hp ↦ hxc hp.1.symm)))
      exact ⟨hold.minted_eq.trans (hof x).symm, hold.burned_eq.trans hsame.symm, hold.minted_le⟩
  · have hall : recordCount (Function.update s.token t (some (tok.burn ref now))) (fun _ ↦ True) =
        recordCount s.token fun _ ↦ True :=
      recordCount_update_of_iff (iff_of_true ((mem_keysWith_of_some htok).2 trivial) trivial)
    exact h.tokCtr_eq.trans hall.symm

/-- **Every success keeps the accounts.** -/
theorem Effect.accounted {env : Env} {call : Call} {v : Value} {s s' : Storage} {evs : List Event}
    (h : Effect env call v s s' evs) (ha : Accounted s) : Accounted s' := by
  cases h with
  | unchanged => exact ha
  | createCampaign hauth hterms htime hid =>
    exact ha.newCampaign hid rfl rfl rfl rfl rfl rfl rfl rfl
  | issueUnique hauth hcamp howner htime hne hbatch hminted hsupply hmints =>
    exact ha.issue hcamp hminted hsupply hmints
  | redeemUnique hauth hindex htok hunburned hcamp hwho htime hburned =>
    exact ha.redeem htok hunburned hcamp hburned
  | addDelegate | removeDelegate | registerShared | commitTally | settle =>
    exact ha.congr rfl rfl rfl rfl rfl

/-- The accounts of the ledger are always in order. -/
theorem Reachable.accounted {s : ContractState} (h : Reachable s) : Accounted s.storage :=
  h.induction accounted_empty fun _ _ _ _ _ _ ha heff ↦ heff.accounted ha

/-! ### The figures -/

/-- What a campaign's record says it has issued; nothing where there is no campaign. -/
def mintedBy (s : Storage) (c : UInt64) : ℕ :=
  (s.campaign c).elim 0 fun camp ↦ camp.minted.toNat

/-- The coupon counter is the sum of the campaigns' figures. -/
theorem Accounted.tokCtr_eq_sum {s : Storage} (h : Accounted s) :
    (s.tokCtr.getD 0).toNat = ∑ c, mintedBy s c := by
  rw [h.tokCtr_eq, recordCount_eq_sum s.token CouponToken.campaignId]
  refine Finset.sum_congr rfl fun c _ ↦ ?_
  rcases hcamp : s.campaign c with - | camp
  · rw [mintedBy, hcamp]
    exact recordCount_eq_zero fun t tok htok ↦ h.filed.not_ofCampaign hcamp htok
  · rw [mintedBy, hcamp]
    exact ((h.figures c camp hcamp).minted_eq).symm

theorem Figures.burned_le_minted {token : UInt64 → Option CouponToken} {c : UInt64}
    {camp : Campaign} (h : Figures token c camp) : camp.burned.toNat ≤ camp.minted.toNat := by
  rw [h.burned_eq, h.minted_eq]
  exact recordCount_mono fun tok hb ↦ hb.1

/-- The count of an unburned coupon's campaign has room for one more. -/
theorem Accounted.burned_lt {s : Storage} (h : Accounted s) {t : UInt64} {tok : CouponToken}
    {camp : Campaign} (htok : s.token t = some tok) (hunburned : tok.isBurned = false)
    (hcamp : s.campaign tok.campaignId = some camp) : camp.burned.toNat + 1 < 2 ^ 32 := by
  have hfig := h.figures _ camp hcamp
  -- were this coupon redeemed, the figure would still be at most the number issued
  have hnew : t ∉ keysWith s.token (BurnedOf tok.campaignId) := by
    rw [mem_keysWith_of_some htok]
    rintro ⟨-, hb⟩
    exact Bool.false_ne_true (hunburned.symm.trans hb)
  have hlt : recordCount s.token (BurnedOf tok.campaignId) <
      recordCount s.token (OfCampaign tok.campaignId) := by
    refine Set.ncard_lt_ncard ((Set.ssubset_iff_of_subset ?_).2 ⟨t, ?_, hnew⟩)
    · intro x hx
      obtain ⟨b, hb, hp⟩ := hx
      exact ⟨b, hb, hp.1⟩
    · exact ⟨tok, htok, rfl⟩
  rw [← hfig.burned_eq, ← hfig.minted_eq] at hlt
  have hmax := camp.minted.toNat_lt
  omega

/-- A redemption traps for want of an authorization only: the count never overflows. -/
theorem Accounted.redeemUnique_trap_iff {s : ContractState} (h : Accounted s.storage) (env : Env)
    (who : Address) (c : UInt64) (code : Bytes) (ref : BytesN 32) :
    redeemUnique env who c code ref s = .error .trap ↔ who ∉ env.auths := by
  rw [redeemUnique_eq_trap_iff]
  constructor
  · rintro (hno | ⟨-, t, -, tok, htok, hunburned, camp, hcamp, -, -, hover⟩)
    · exact hno
    · have hroom := h.burned_lt htok hunburned hcamp
      omega
  · exact Or.inl

/-- **Supply accounting.** In every reachable state the figures of every campaign are the counts of
its coupons and within its supply, the campaigns are numbered up to their counter, and the coupon
counter is both the number of coupons and the sum of the campaigns' figures. So the count of
redemptions never overflows, and the availability a campaign reports is exact. -/
theorem supply_accounting {s : ContractState} (h : Reachable s) :
    (∀ c camp, s.storage.campaign c = some camp →
      camp.burned ≤ camp.minted ∧ camp.minted ≤ camp.totalSupply ∧
      camp.minted.toNat = recordCount s.storage.token (fun tok ↦ tok.campaignId = c) ∧
      camp.burned.toNat =
        recordCount s.storage.token (fun tok ↦ tok.campaignId = c ∧ tok.isBurned = true)) ∧
    (∀ c, (∃ camp, s.storage.campaign c = some camp) ↔
      1 ≤ c.toNat ∧ c.toNat ≤ (totalCampaigns s).toNat) ∧
    (∀ c camp, s.storage.campaign c = some camp → camp.id = c) ∧
    (totalMinted s).toNat = recordCount s.storage.token (fun _ ↦ True) ∧
    (totalMinted s).toNat = ∑ c, mintedBy s.storage c ∧
    (∀ env who c code ref,
      redeemUnique env who c code ref s = .error .trap ↔ who ∉ env.auths) ∧
    (∀ env c camp, s.storage.campaign c = some camp → ∃ st, campaignStats env c s = .ok st ∧
      (st.available.toNat : ℤ) = camp.minted.toNat - camp.burned.toNat) := by
  have ha := h.accounted
  refine ⟨fun c camp hcamp ↦ ?_, fun c ↦ ?_, ha.filed.campaign_id, ha.tokCtr_eq, ha.tokCtr_eq_sum,
    ha.redeemUnique_trap_iff, fun env c camp hcamp ↦ ?_⟩
  · have hfig := ha.figures c camp hcamp
    exact ⟨UInt32.le_iff_toNat_le.2 hfig.burned_le_minted, hfig.minted_le, hfig.minted_eq,
      hfig.burned_eq⟩
  · rw [totalCampaigns, ← ha.filed.campaign_iff, Option.isSome_iff_exists]
  · have hget : s.get (.campaign c) = some camp := hcamp
    have hle := (ha.figures c camp hcamp).burned_le_minted
    refine ⟨_, by rw [campaignStats, hget]; rfl, ?_⟩
    show ((camp.minted.saturatingSub camp.burned).toNat : ℤ) = _
    rw [UInt32.toNat_saturatingSub]
    omega

/-- After the redemption of the sample history: two coupons issued, one of them redeemed. -/
theorem supply_accounting_sample :
    recordCount (runFrom 0 (Sample.history.take 4)).storage.token
        (fun tok ↦ tok.campaignId = 1) = 2 ∧
      recordCount (runFrom 0 (Sample.history.take 4)).storage.token
        (fun tok ↦ tok.campaignId = 1 ∧ tok.isBurned = true) = 1 := by
  have hfig : ∃ camp, (runFrom 0 (Sample.history.take 4)).storage.campaign 1 = some camp ∧
      camp.minted = 2 ∧ camp.burned = 1 := by decide
  obtain ⟨camp, hcamp, hminted, hburned⟩ := hfig
  obtain ⟨-, -, hm, hb⟩ := (supply_accounting (Sample.reachable_take 4)).1 1 camp hcamp
  exact ⟨by rw [← hm, hminted]; rfl, by rw [← hb, hburned]; rfl⟩

end Soroticket
