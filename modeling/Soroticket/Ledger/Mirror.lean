import Soroticket.Ledger.Index
import Soroticket.Machine.Agreement

/-!
# One campaign in two ledgers

Two stored ledgers may differ in everything but one campaign `c`: other campaigns, their coupons,
and with them the numbers under which the coupons of `c` are filed. `Mirrors c s r` says that the
second holds of `c` what the first does, coupon by coupon, up to those numbers. It is stated by code
and not by number, because a code is what a caller names.

Every entry point called on `c` answers alike in the two (`Mirrors.exec`): the same error, or values
that differ only in coupon numbers, and afterwards the ledgers mirror each other again. One thing is
set aside. The coupon counter is shared by all campaigns, so the fuller ledger may run out of it in
a batch where the other does not (`CounterOverflows`).
-/

namespace Soroticket

open Outcome

/-! ### Calls on a campaign -/

/-- The campaign a call names, if it names one. -/
def Call.campaign? : Call → Option UInt64
  | getCampaign c | campaignStats c | bumpCampaign c | bumpCodes c _ | bumpDelegates c _
  | addDelegate _ c _ | removeDelegate _ c _ | isDelegate c _ | issueUnique _ c _
  | redeemUnique _ c _ _ | verify c _ | isValid c _ | registerShared _ c _ _ _ _ | getShared c _
  | commitTally _ c _ _ _ _ _ | getTally c _ _ | isSettled c _ _ | computePayouts c _ _
  | settle _ c _ _ | bumpTally c _ _ => some c
  | createCampaign .. | campaignsOf _ | campaignsPage .. | totalCampaigns | totalMinted => none

/-- The call is a settlement, the one entry point that calls another contract. -/
def Call.settles : Call → Bool
  | settle .. => true
  | _ => false

/-- An authorized batch traps: its loop takes the coupon counter past its last value. -/
def CounterOverflows (tx : Tx) (s : ContractState) : Prop :=
  ∃ owner c codes, tx.call = .issueUnique owner c codes ∧ owner ∈ tx.env.auths ∧
    tx.exec s = .error .trap

/-! ### The relation -/

/-- The second ledger holds of the campaign what the first does, up to coupon numbers. -/
structure Mirrors (c : UInt64) (s r : Storage) : Prop where
  campaign : r.campaign c = s.campaign c
  delegate : ∀ who, r.delegate (c, who) = s.delegate (c, who)
  shared : ∀ code, r.shared (c, code) = s.shared (c, code)
  tally : ∀ code period, r.tally (c, code, period) = s.tally (c, code, period)
  settled : ∀ code period, r.settled (c, code, period) = s.settled (c, code, period)
  /-- A code issued in the first is issued in the second, and the coupons differ in their number
  only. -/
  coupon : ∀ code t tok, s.codeIndex (c, code) = some t → s.token t = some tok →
    ∃ t', r.codeIndex (c, code) = some t' ∧ r.token t' = some { tok with tokenId := t' }
  free : ∀ code, s.codeIndex (c, code) = none → r.codeIndex (c, code) = none
  /-- The second has issued no more coupons than the first. -/
  tokCtr_le : (r.tokCtr.getD 0).toNat ≤ (s.tokCtr.getD 0).toNat

/-- The numbers a code of the campaign has in the two ledgers. -/
def Twin (c : UInt64) (s r : Storage) (t t' : UInt64) : Prop :=
  ∃ code, s.codeIndex (c, code) = some t ∧ r.codeIndex (c, code) = some t'

/-- Two values are the same up to coupon numbers, which are related. -/
def Value.Alike (twin : UInt64 → UInt64 → Prop) : Value → Value → Prop
  | .ids l, v => ∃ l', v = .ids l' ∧ List.Forall₂ twin l l'
  | .coupon tok, v => ∃ t', v = .coupon { tok with tokenId := t' } ∧ twin tok.tokenId t'
  | .receipt rc, v => ∃ t', v = .receipt { rc with tokenId := t' } ∧ twin rc.tokenId t'
  | w, v => v = w

/-- Two results of a call on the campaign: values alike, and ledgers that mirror each other. -/
def After (c : UInt64) (p q : Value × ContractState) : Prop :=
  Mirrors c p.2.storage q.2.storage ∧ p.1.Alike (Twin c p.2.storage q.2.storage) q.1

theorem Mirrors.refl (c : UInt64) {s : Storage} (hf : Filed s) : Mirrors c s s where
  campaign := rfl
  delegate _ := rfl
  shared _ := rfl
  tally _ _ := rfl
  settled _ _ := rfl
  coupon code t tok hindex htok := by
    have hid : tok.tokenId = t := (hf.token_filed t tok htok).1
    exact ⟨t, hindex, by rw [htok, ← hid]⟩
  free _ h := h
  tokCtr_le := Nat.le_refl _

/-- Two states with the same data as two that mirror each other. -/
theorem Mirrors.sameData {c : UInt64} {s s' r r' : ContractState}
    (h : Mirrors c s.storage r.storage) (hs : SameData s s') (hr : SameData r r') :
    Mirrors c s'.storage r'.storage := by
  rw [hs.1, hr.1]
  exact h

/-! ### Reads -/

section Reads

variable {c : UInt64} {s r : ContractState} (h : Mirrors c s.storage r.storage)
include h

theorem Mirrors.getCampaign_eq : getCampaign c r = getCampaign c s := by
  simp only [getCampaign, ContractState.get_def, Storage.get, h.campaign]

theorem Mirrors.campaignStats_eq (env : Env) : campaignStats env c r = campaignStats env c s := by
  simp only [campaignStats, ContractState.get_def, Storage.get, h.campaign]

theorem Mirrors.requireOwner_eq (who : Address) : requireOwner c who r = requireOwner c who s := by
  simp only [requireOwner, ContractState.get_def, Storage.get, h.campaign]

theorem Mirrors.isDelegate_eq (who : Address) : isDelegate c who r = isDelegate c who s := by
  simp only [isDelegate, isDelegateInternal, ContractState.get_def, Storage.get, h.delegate]

theorem Mirrors.getShared_eq (code : Bytes) : getShared c code r = getShared c code s := by
  simp only [getShared, ContractState.get_def, Storage.get, h.shared]

theorem Mirrors.getTally_eq (code : Bytes) (period : UInt64) :
    getTally c code period r = getTally c code period s := by
  simp only [getTally, ContractState.get_def, Storage.get, h.tally]

theorem Mirrors.isSettled_eq (code : Bytes) (period : UInt64) :
    isSettled c code period r = isSettled c code period s := by
  simp only [isSettled, ContractState.has_def, Storage.get, h.settled]

theorem Mirrors.computePayouts_eq (code : Bytes) (period : UInt64) :
    computePayouts c code period r = computePayouts c code period s := by
  simp only [computePayouts, ContractState.get_def, Storage.get, h.shared, h.tally]

/-- A code is found in both or in neither; where it is found, the coupons differ in their number
only. -/
theorem Mirrors.lookup (hf : Filed s.storage) (code : Bytes) :
    (s.storage.codeIndex (c, code) = none ∧ r.storage.codeIndex (c, code) = none) ∨
      ∃ t t' tok, s.storage.codeIndex (c, code) = some t ∧ s.storage.token t = some tok ∧
        r.storage.codeIndex (c, code) = some t' ∧
        r.storage.token t' = some { tok with tokenId := t' } ∧ tok.campaignId = c := by
  rcases hindex : s.storage.codeIndex (c, code) with - | t
  · exact Or.inl ⟨rfl, h.free code hindex⟩
  · obtain ⟨tok, htok, hc, -⟩ := hf.index_filed c code t hindex
    obtain ⟨t', hindex', htok'⟩ := h.coupon code t tok hindex htok
    exact Or.inr ⟨t, t', tok, rfl, htok, hindex', htok', hc⟩

theorem Mirrors.isValid_eq (hf : Filed s.storage) (env : Env) (code : Bytes) :
    isValid env c code r = isValid env c code s := by
  rw [Bool.eq_iff_iff, isValid_iff, isValid_iff]
  rcases h.lookup hf code with ⟨hs, hr⟩ | ⟨t, t', tok, hs, htok, hr, htok', hc⟩
  · simp only [hs, hr, reduceCtorEq, false_and, exists_false]
  · have hcampaign : r.storage.campaign tok.campaignId = s.storage.campaign tok.campaignId := by
      rw [hc]
      exact h.campaign
    constructor
    · rintro ⟨t₁, tok₁, camp, hindex, htok₁, hb, hcamp, htime⟩
      obtain rfl := Option.some.inj (hr.symm.trans hindex)
      obtain rfl := Option.some.inj (htok'.symm.trans htok₁)
      exact ⟨t, tok, camp, hs, htok, hb, hcampaign ▸ hcamp, htime⟩
    · rintro ⟨t₁, tok₁, camp, hindex, htok₁, hb, hcamp, htime⟩
      obtain rfl := Option.some.inj (hs.symm.trans hindex)
      obtain rfl := Option.some.inj (htok.symm.trans htok₁)
      exact ⟨t', _, camp, hr, htok', hb, hcampaign.trans hcamp, htime⟩

theorem Mirrors.verify_agree (hf : Filed s.storage) (code : Bytes) :
    Agree (fun tok tok' ↦ ∃ t', tok' = { tok with tokenId := t' } ∧
      Twin c s.storage r.storage tok.tokenId t') (verify c code s) (verify c code r) := by
  simp only [verify, ContractState.get_def, Storage.get]
  rcases h.lookup hf code with ⟨hs, hr⟩ | ⟨t, t', tok, hs, htok, hr, htok', -⟩
  · rw [hs, hr]
    exact .error _
  · rw [hs, hr, okOr_some, okOr_some, ok_bind, ok_bind, htok, htok', okOr_some, okOr_some]
    have hid : tok.tokenId = t := (hf.token_filed t tok htok).1
    exact .ok ⟨t', rfl, code, by rw [hid]; exact hs, hr⟩

end Reads

/-! ### Upkeep -/

section Upkeep

variable {c : UInt64} {env : Env} {s r : ContractState}

/-- Two states that mirror each other. -/
def Mirroring (c : UInt64) (s r : ContractState) : Prop := Mirrors c s.storage r.storage

theorem extendTtl_set (s : ContractState) (k : DataKey) (v : k.Value) (t e : ℕ) :
    (s.set env k v).extendTtl env k t e = .ok ((s.set env k v).raiseTtl env k t e) :=
  if_pos (ContractState.has_set_self s env k v)

theorem extendTtl_agree (h : Mirrors c s.storage r.storage) {k : DataKey} (hk : r.has k = s.has k)
    (t e : ℕ) : Agree (Mirroring c) (s.extendTtl env k t e) (r.extendTtl env k t e) := by
  rw [ContractState.extendTtl, ContractState.extendTtl, hk]
  split
  · exact .ok h
  · exact .error _

/-- An extension of an entry that may be missing does not fail. -/
theorem exists_bumpIfPresent (env : Env) (k : DataKey) (s : ContractState) :
    ∃ s', bumpIfPresent env k s = .ok s' := by
  rw [bumpIfPresent]
  split
  · next hk => exact ⟨_, if_pos hk⟩
  · exact ⟨s, rfl⟩

theorem bumpIfPresent_agree (env : Env) (h : Mirrors c s.storage r.storage) (k k' : DataKey) :
    Agree (Mirroring c) (bumpIfPresent env k s) (bumpIfPresent env k' r) := by
  obtain ⟨s', hs⟩ := exists_bumpIfPresent env k s
  obtain ⟨r', hr⟩ := exists_bumpIfPresent env k' r
  rw [hs, hr]
  exact .ok (h.sameData (sameData_of_bumpIfPresent hs) (sameData_of_bumpIfPresent hr))

theorem exists_bumpOwnerEntry (env : Env) (c : UInt64) (owner : Address) (s : ContractState) :
    ∃ s', bumpOwnerEntry env c owner s = .ok s' ∧ SameData s s' := by
  rw [bumpOwnerEntry]
  split
  · next slot hslot =>
    have hhas : s.has (.campaignOwnerSlot c) = true := by
      rw [ContractState.has_def, ← ContractState.get_def, hslot]
      rfl
    have hext : s.extendTtl env (.campaignOwnerSlot c) ledgerBump extendTo =
        .ok (s.raiseTtl env (.campaignOwnerSlot c) ledgerBump extendTo) := if_pos hhas
    obtain ⟨s', hs'⟩ := exists_bumpIfPresent env (.ownerCampaign owner slot)
      (s.raiseTtl env (.campaignOwnerSlot c) ledgerBump extendTo)
    refine ⟨s', ?_, (sameData_of_extendTtl hext).trans (sameData_of_bumpIfPresent hs')⟩
    rw [hext, ok_bind, hs']
  · exact ⟨s, rfl, SameData.refl s⟩

theorem has_campaign_eq (h : Mirrors c s.storage r.storage) :
    r.has (.campaign c) = s.has (.campaign c) := by
  simp only [ContractState.has_def, Storage.get, h.campaign]

theorem bumpCampaign_agree (h : Mirrors c s.storage r.storage) :
    Agree (fun p q ↦ Mirrors c p.2.storage q.2.storage) (bumpCampaign env c s)
      (bumpCampaign env c r) := by
  refine Agree.bind_same h.getCampaign_eq fun camp _ ↦ ?_
  refine (extendTtl_agree h (has_campaign_eq h) _ _).bind fun s₁ r₁ h₁ ↦ ?_
  refine (bumpIfPresent_agree env h₁ _ _).bind fun s₂ r₂ h₂ ↦ ?_
  obtain ⟨s₃, hs₃, hds⟩ := exists_bumpOwnerEntry env c camp.owner s₂
  obtain ⟨r₃, hr₃, hdr⟩ := exists_bumpOwnerEntry env c camp.owner r₂
  rw [hs₃, hr₃, ok_bind, ok_bind]
  exact .ok (h₂.sameData (hds.trans (sameData_extendInstanceTtl ..))
    (hdr.trans (sameData_extendInstanceTtl ..)))

theorem bumpCode_agree (hf : Filed s.storage) (h : Mirrors c s.storage r.storage) (code : Bytes) :
    Agree (Mirroring c) (bumpCode env c s code) (bumpCode env c r code) := by
  refine Agree.bind_same rfl fun _ _ ↦ Agree.bind_same rfl fun _ _ ↦ ?_
  simp only [ContractState.get_def, Storage.get]
  rcases h.lookup hf code with ⟨hs, hr⟩ | ⟨t, t', tok, hs, htok, hr, htok', -⟩
  · rw [hs, hr]
    exact .ok h
  · rw [hs, hr]
    have hhas : r.has (.codeIndex c code) = s.has (.codeIndex c code) := by
      simp only [ContractState.has_def, Storage.get, hs, hr, Option.isSome_some]
    exact (extendTtl_agree h hhas _ _).bind fun s₁ r₁ h₁ ↦ bumpIfPresent_agree env h₁ _ _

theorem bumpCodes_agree (hf : Filed s.storage) (h : Mirrors c s.storage r.storage)
    (codes : List Bytes) : Agree (fun p q ↦ Mirrors c p.2.storage q.2.storage)
      (bumpCodes env c codes s) (bumpCodes env c codes r) := by
  refine Agree.bind_same rfl fun _ _ ↦ Agree.bind_same rfl fun _ _ ↦ ?_
  have hloop := Agree.foldlM (P := fun a b : ContractState ↦
    Filed a.storage ∧ Mirrors c a.storage b.storage) (f := bumpCode env c) (g := bumpCode env c)
    (fun a b code hab ↦ (bumpCode_agree hab.1 hab.2 code).with_ok.imp fun a' b' h' ↦
      ⟨(sameData_of_bumpCode h'.2.1).1 ▸ hab.1, h'.1⟩) (l := codes) ⟨hf, h⟩
  exact hloop.bind fun a b hab ↦ .ok hab.2

theorem bumpDelegates_agree (h : Mirrors c s.storage r.storage) (ds : List Address) :
    Agree (fun p q ↦ Mirrors c p.2.storage q.2.storage) (bumpDelegates env c ds s)
      (bumpDelegates env c ds r) := by
  refine Agree.bind_same rfl fun _ _ ↦ Agree.bind_same (by rw [has_campaign_eq h]) fun _ _ ↦ ?_
  have hloop := Agree.foldlM (P := Mirroring c) (fun a b who hab ↦
    bumpIfPresent_agree env hab (.delegate c who) (.delegate c who)) (l := ds) h
  exact hloop.bind fun a b hab ↦ .ok hab

theorem bumpTally_agree (h : Mirrors c s.storage r.storage) (code : Bytes)
    (periods : List UInt64) : Agree (fun p q ↦ Mirrors c p.2.storage q.2.storage)
      (bumpTally env c code periods s) (bumpTally env c code periods r) := by
  have hhas : r.has (.shared c code) = s.has (.shared c code) := by
    simp only [ContractState.has_def, Storage.get, h.shared]
  refine Agree.bind_same rfl fun _ _ ↦ Agree.bind_same (by rw [hhas]) fun _ _ ↦ ?_
  refine (extendTtl_agree h hhas _ _).bind fun s₁ r₁ h₁ ↦ ?_
  have hloop := Agree.foldlM (P := Mirroring c) (fun a b p hab ↦
    (bumpIfPresent_agree env hab (.tally c code p) (.tally c code p)).bind fun a' b' hab' ↦
      bumpIfPresent_agree env hab' (.settled c code p) (.settled c code p))
    (l := periods) h₁
  exact hloop.bind fun a b hab ↦ .ok hab

end Upkeep

/-! ### Delegates, shared codes and tallies -/

section Records

variable {c : UInt64} {env : Env} {s r : ContractState}

/-- Maps that agree on a key still do after the same write to both. -/
theorem update_congr {α β : Type} [DecidableEq α] {f g : α → β} {k k' : α} (v : β)
    (h : g k' = f k') : Function.update g k v k' = Function.update f k v k' := by
  rcases eq_or_ne k' k with rfl | hne
  · rw [Function.update_self, Function.update_self]
  · rw [Function.update_of_ne hne, Function.update_of_ne hne, h]

theorem addDelegate_agree (h : Mirrors c s.storage r.storage) (owner d : Address) :
    Agree (fun p q ↦ Mirrors c p.2.storage q.2.storage) (addDelegate env owner c d s)
      (addDelegate env owner c d r) := by
  refine Agree.bind_same rfl fun _ _ ↦ Agree.bind_same (h.requireOwner_eq owner) fun _ _ ↦ ?_
  simp only [extendTtl_set, ok_bind]
  exact .ok { h with delegate := fun who ↦ update_congr _ (h.delegate who) }

theorem removeDelegate_agree (h : Mirrors c s.storage r.storage) (owner d : Address) :
    Agree (fun p q ↦ Mirrors c p.2.storage q.2.storage) (removeDelegate env owner c d s)
      (removeDelegate env owner c d r) := by
  refine Agree.bind_same rfl fun _ _ ↦ Agree.bind_same (h.requireOwner_eq owner) fun _ _ ↦ ?_
  exact .ok { h with delegate := fun who ↦ update_congr _ (h.delegate who) }

theorem registerShared_agree (h : Mirrors c s.storage r.storage) (owner : Address) (code : Bytes)
    (attributedTo payoutToken : Option Address) (rate : I128) :
    Agree (fun p q ↦ Mirrors c p.2.storage q.2.storage)
      (registerShared env owner c code attributedTo payoutToken rate s)
      (registerShared env owner c code attributedTo payoutToken rate r) := by
  have hhas : r.has (.shared c code) = s.has (.shared c code) := by
    simp only [ContractState.has_def, Storage.get, h.shared]
  refine Agree.bind_same rfl fun _ _ ↦ Agree.bind_same h.getCampaign_eq fun camp _ ↦ ?_
  iterate 6 refine Agree.bind_same rfl fun _ _ ↦ ?_
  refine Agree.bind_same (by rw [hhas]) fun _ _ ↦ ?_
  simp only [extendTtl_set, ok_bind]
  exact .ok { h with shared := fun code ↦ update_congr _ (h.shared code) }

theorem commitTally_agree (h : Mirrors c s.storage r.storage) (owner : Address) (code : Bytes)
    (period : UInt64) (count : UInt32) (root : BytesN 32) (m : AttributionMap) :
    Agree (fun p q ↦ Mirrors c p.2.storage q.2.storage)
      (commitTally env owner c code period count root m s)
      (commitTally env owner c code period count root m r) := by
  have hhas : r.has (.tally c code period) = s.has (.tally c code period) := by
    simp only [ContractState.has_def, Storage.get, h.tally]
  refine Agree.bind_same rfl fun _ _ ↦ Agree.bind_same (h.requireOwner_eq owner) fun _ _ ↦ ?_
  refine Agree.bind_same (h.getShared_eq code) fun sc _ ↦ ?_
  refine Agree.bind_same (by rw [hhas]) fun _ _ ↦ ?_
  iterate 3 refine Agree.bind_same rfl fun _ _ ↦ ?_
  simp only [extendTtl_set, ok_bind]
  exact .ok { h with tally := fun code' p ↦ update_congr _ (h.tally code' p) }

end Records

/-! ### Issuance -/

section Issuance

variable {c : UInt64} {env : Env}

/-- A pair of codes that led to twins still does after a batch in both ledgers. -/
theorem Twin.mono {s r s' r' : Storage} {t t' : UInt64} (h : Twin c s r t t')
    (hs : ∀ k x, s.codeIndex k = some x → s'.codeIndex k = some x)
    (hr : ∀ k x, r.codeIndex k = some x → r'.codeIndex k = some x) : Twin c s' r' t t' := by
  obtain ⟨code, hcode, hcode'⟩ := h
  exact ⟨code, hs _ _ hcode, hr _ _ hcode'⟩

/-- One coupon minted for one code in both ledgers, under the next number of each. -/
theorem Mirrors.mint {s r : Storage} (h : Mirrors c s r) (hs : Filed s) (hr : Filed r)
    {code : Bytes} {t t' now : UInt64} (hfree : s.codeIndex (c, code) = none)
    (ht : t.toNat = (s.tokCtr.getD 0).toNat + 1) (ht' : t'.toNat = (r.tokCtr.getD 0).toNat + 1) :
    Mirrors c (s.mint t c code now) (r.mint t' c code now) where
  campaign := h.campaign
  delegate := h.delegate
  shared := h.shared
  tally := h.tally
  settled := h.settled
  coupon code' x tok hindex htok := by
    have hnew : s.token t = none := hs.token_next ht
    rcases eq_or_eq_of_update hindex with ⟨hkey, rfl⟩ | ⟨hkey, hold⟩
    · obtain ⟨-, rfl⟩ := Prod.mk.inj hkey
      have htok' : tok = newToken x c code' now := by
        rcases eq_or_eq_of_update htok with ⟨-, he⟩ | ⟨hne, -⟩
        · exact he
        · exact absurd rfl hne
      subst htok'
      exact ⟨t', Function.update_self (c, code') _ _, Function.update_self t' _ _⟩
    · rcases eq_or_eq_of_update htok with ⟨rfl, -⟩ | ⟨-, htok⟩
      · -- the new number leads nowhere yet
        obtain ⟨old, hold', -⟩ := hs.index_filed c code' x hold
        rw [hnew] at hold'
        exact absurd hold'.symm (Option.some_ne_none old)
      · obtain ⟨x', hindex', htok'⟩ := h.coupon code' x tok hold htok
        exact ⟨x', (Function.update_of_ne hkey _ _).trans hindex',
          update_of_free (hr.token_next ht') htok'⟩
  free code' hnone := by
    by_cases hkey : (c, code') = (c, code)
    · obtain ⟨-, rfl⟩ := Prod.mk.inj hkey
      change Function.update s.codeIndex (c, code') (some t) (c, code') = none at hnone
      rw [Function.update_self] at hnone
      exact absurd hnone (Option.some_ne_none t)
    · exact (Function.update_of_ne hkey _ _).trans
        (h.free code' ((Function.update_of_ne hkey _ _).symm.trans hnone))
  tokCtr_le := by
    have hle := h.tokCtr_le
    show t'.toNat ≤ t.toNat
    omega

/-- Two accumulators of the issuing loop: ledgers in order that mirror each other, and the numbers
of the same codes. -/
structure Minting (c : UInt64) (a b : ContractState × List UInt64) : Prop where
  left : Filed a.1.storage
  right : Filed b.1.storage
  mirrors : Mirrors c a.1.storage b.1.storage
  exists_campaign : (a.1.storage.campaign c).isSome = true
  twins : List.Forall₂ (Twin c a.1.storage b.1.storage) a.2 b.2

/-- A round that reaches the counter and does not trap has found room in it. -/
theorem mintCode_room {a : ContractState × List UInt64} {code : Bytes}
    (hno : mintCode env c a code ≠ .error .trap) (hne : ¬code = [])
    (hlen : ¬maxCodeLen < code.length) (hfree : ¬a.1.has (.codeIndex c code) = true) :
    (a.1.storage.tokCtr.getD 0).toNat + 1 < 2 ^ 64 := by
  by_contra hfull
  have hnone : (a.1.storage.tokCtr.getD 0).checkedAdd 1 = none := by
    rw [UInt64.checkedAdd, UInt64.toNat_one, if_neg hfull]
  apply hno
  simp [mintCode, rejectIf_neg hne, rejectIf_neg hlen, rejectIf_neg hfree, hnone, orTrap]

theorem mintCode_agree {a b : ContractState × List UInt64} (h : Minting c a b) {code : Bytes}
    (hno : mintCode env c a code ≠ .error .trap) :
    Agree (Minting c) (mintCode env c a code) (mintCode env c b code) := by
  have hhas : b.1.has (.codeIndex c code) = a.1.has (.codeIndex c code) := by
    simp only [ContractState.has_def, Storage.get]
    rcases h.mirrors.lookup h.left code with ⟨hs, hr⟩ | ⟨t, t', tok, hs, -, hr, -⟩
    · rw [hs, hr]
    · rw [hs, hr]
      rfl
  have hroom := mintCode_room hno
  refine Agree.bind_same rfl fun _ hne ↦ Agree.bind_same rfl fun _ hlen ↦
    Agree.bind_same (by rw [hhas]) fun _ hfree ↦ ?_
  rw [rejectIf_eq_ok_iff] at hne hlen hfree
  have hctr := hroom hne hlen hfree
  have hle := h.mirrors.tokCtr_le
  have hnone : a.1.storage.codeIndex (c, code) = none := by
    simpa [ContractState.has_def, Storage.get] using hfree
  -- the next number of each ledger
  obtain ⟨t, hadd⟩ : ∃ t, (a.1.storage.tokCtr.getD 0).checkedAdd 1 = some t := by
    rw [UInt64.checkedAdd, UInt64.toNat_one, if_pos hctr]
    exact ⟨_, rfl⟩
  obtain ⟨t', hadd'⟩ : ∃ t', (b.1.storage.tokCtr.getD 0).checkedAdd 1 = some t' := by
    rw [UInt64.checkedAdd, UInt64.toNat_one, if_pos (by omega)]
    exact ⟨_, rfl⟩
  have ht := UInt64.checkedAdd_eq_some_iff.1 hadd
  have ht' := UInt64.checkedAdd_eq_some_iff.1 hadd'
  rw [UInt64.toNat_one] at ht ht'
  simp only [hadd, hadd', orTrap, extendTtl_set, ok_bind, pure_eq_ok]
  have hmirrors : Mirrors c (a.1.storage.mint t c code env.timestamp)
      (b.1.storage.mint t' c code env.timestamp) := h.mirrors.mint h.left h.right hnone ht ht'
  have hsome' : (b.1.storage.campaign c).isSome = true := by
    rw [h.mirrors.campaign]
    exact h.exists_campaign
  refine .ok ⟨h.left.mint h.exists_campaign hnone ht,
    h.right.mint hsome' (h.mirrors.free code hnone) ht', hmirrors, h.exists_campaign, ?_⟩
  refine List.rel_append (h.twins.imp fun x x' htwin ↦ ?_) ?_
  · exact htwin.mono (fun _ _ hx ↦ update_of_free hnone hx)
      (fun _ _ hx ↦ update_of_free (h.mirrors.free code hnone) hx)
  · exact .cons ⟨code, Function.update_self (c, code) _ _, Function.update_self (c, code) _ _⟩ .nil

/-- Two ledgers that mirror each other still do under the same new record of the campaign. -/
theorem Mirrors.replaceCampaign {s r : Storage} (h : Mirrors c s r) (camp : Option Campaign) :
    Mirrors c { s with campaign := Function.update s.campaign c camp }
      { r with campaign := Function.update r.campaign c camp } :=
  { h with campaign := update_congr _ h.campaign }

theorem issueUnique_agree {s r : ContractState} (hs : Filed s.storage) (hr : Filed r.storage)
    (h : Mirrors c s.storage r.storage) {owner : Address} {codes : List Bytes}
    (hno : owner ∈ env.auths → issueUnique env owner c codes s ≠ .error .trap) :
    Agree (fun p q ↦ Mirrors c p.2.storage q.2.storage ∧
        List.Forall₂ (Twin c p.2.storage q.2.storage) p.1 q.1)
      (issueUnique env owner c codes s) (issueUnique env owner c codes r) := by
  refine Agree.bind_same rfl fun _ h₁ ↦ Agree.bind_same h.getCampaign_eq fun camp h₂ ↦ ?_
  refine Agree.bind_same rfl fun _ h₃ ↦ Agree.bind_same rfl fun _ h₄ ↦ ?_
  refine Agree.bind_same rfl fun _ h₅ ↦ Agree.bind_same rfl fun _ h₆ ↦ ?_
  refine Agree.bind_same rfl fun newMinted h₇ ↦ Agree.bind_same rfl fun _ h₈ ↦ ?_
  -- the checks are passed, so a trap of the loop would be one of the call
  have hloop : codes.foldlM (mintCode env c) (s, []) ≠ .error .trap := by
    intro htrap
    refine hno (requireAuth_eq_ok_iff.1 h₁) ?_
    rw [issueUnique, h₁, ok_bind, h₂, ok_bind, h₃, ok_bind, h₄, ok_bind, h₅, ok_bind, h₆, ok_bind,
      h₇, ok_bind, h₈, ok_bind, htrap, error_bind]
  have hcamp : (s.storage.campaign c).isSome = true := by
    rw [show s.storage.campaign c = some camp from okOr_eq_ok_iff.1 h₂]
    rfl
  have hstart : Minting c (s, []) (r, []) := ⟨hs, hr, h, hcamp, .nil⟩
  have hagree := Agree.foldlM_of_ne_trap (P := Minting c) (f := mintCode env c)
    (g := mintCode env c) (fun a b code hab hround ↦ mintCode_agree hab hround) hstart hloop
  refine hagree.bind fun a b hab ↦ ?_
  simp only [extendTtl_set, ok_bind, pure_eq_ok]
  exact .ok ⟨hab.mirrors.replaceCampaign _, hab.twins⟩

end Issuance

/-! ### Redemption -/

section Redemption

variable {c : UInt64} {env : Env}

/-- The coupon of one code burned in both ledgers. -/
theorem Mirrors.burn {s r : Storage} (h : Mirrors c s r) (hs : Filed s) (hr : Filed r)
    {code : Bytes} {t t' now : UInt64} {tok : CouponToken} {ref : BytesN 32}
    (hindex : s.codeIndex (c, code) = some t) (htok : s.token t = some tok)
    (hindex' : r.codeIndex (c, code) = some t')
    (htok' : r.token t' = some { tok with tokenId := t' }) :
    Mirrors c { s with token := Function.update s.token t (some (tok.burn ref now)) }
      { r with
        token := Function.update r.token t'
          (some (CouponToken.burn { tok with tokenId := t' } ref now)) } :=
  { h with
    coupon := by
      intro code₁ x tok₁ hx htok₁
      rcases eq_or_eq_of_update htok₁ with ⟨rfl, rfl⟩ | ⟨hne, hold⟩
      · -- the code is the one burned
        obtain ⟨-, rfl⟩ := hs.campaignId_eq hx htok
        obtain ⟨-, hcode⟩ := hs.campaignId_eq hindex htok
        exact ⟨t', by rw [hcode]; exact hindex', Function.update_self t' _ _⟩
      · obtain ⟨x', hx', hxtok'⟩ := h.coupon code₁ x tok₁ hx hold
        refine ⟨x', hx', (Function.update_of_ne ?_ _ _).trans hxtok'⟩
        -- one number in the second ledger would be one code, and so one number in the first
        rintro rfl
        obtain ⟨-, hcode₁⟩ := hr.campaignId_eq hx' htok'
        obtain ⟨-, hcode⟩ := hr.campaignId_eq hindex' htok'
        rw [← hcode₁, hcode, hindex, Option.some.injEq] at hx
        exact hne hx.symm }

theorem redeemUnique_agree {s r : ContractState} (hs : Filed s.storage) (hr : Filed r.storage)
    (h : Mirrors c s.storage r.storage) (who : Address) (code : Bytes) (ref : BytesN 32) :
    Agree (fun p q ↦ Mirrors c p.2.storage q.2.storage ∧ ∃ t',
        q.1 = { p.1 with tokenId := t' } ∧ Twin c p.2.storage q.2.storage p.1.tokenId t')
      (redeemUnique env who c code ref s) (redeemUnique env who c code ref r) := by
  refine Agree.bind_same rfl fun _ _ ↦ ?_
  simp only [ContractState.get_def, Storage.get]
  rcases h.lookup hs code with ⟨hsn, hrn⟩ | ⟨t, t', tok, hindex, htok, hindex', htok', rfl⟩
  · rw [hsn, hrn]
    exact .error _
  · rw [hindex, hindex', okOr_some, okOr_some, ok_bind, ok_bind, htok, htok', okOr_some, okOr_some,
      ok_bind, ok_bind]
    have hdelegate : isDelegateInternal tok.campaignId who r =
        isDelegateInternal tok.campaignId who s := h.isDelegate_eq who
    refine Agree.bind_same rfl fun _ _ ↦ Agree.bind_same (by rw [h.campaign]) fun camp _ ↦ ?_
    refine Agree.bind_same (by rw [hdelegate]) fun _ _ ↦ Agree.bind_same rfl fun _ _ ↦ ?_
    simp only [extendTtl_set, ok_bind]
    refine Agree.bind_same rfl fun burned _ ↦ .ok ⟨?_, t', rfl, code, hindex, hindex'⟩
    exact (h.burn hs hr hindex htok hindex' htok').replaceCampaign _

end Redemption

/-! ### Every call on the campaign -/

section Calls

variable {c : UInt64} {s r : ContractState}

/-- Reads that agree, on ledgers that mirror each other. -/
theorem reading_agree {replies : ℕ → (op : TokenCall) → Option op.Answer}
    (h : Mirrors c s.storage r.storage) {x y : Outcome Error Value}
    (hxy : Agree (Value.Alike (Twin c s.storage r.storage)) x y) :
    Agree (After c) ((reading x s).runReplies replies) ((reading y r).runReplies replies) := by
  rw [reading, reading, Callout.runReplies_done, Callout.runReplies_done]
  exact hxy.map fun v w hvw ↦ ⟨h, hvw⟩

/-- A read that is the same in both. -/
theorem reading_same {replies : ℕ → (op : TokenCall) → Option op.Answer} {α : Type}
    {f : α → Value} (h : Mirrors c s.storage r.storage) {x y : Outcome Error α} (hxy : y = x)
    (hf : ∀ a, (f a).Alike (Twin c s.storage r.storage) (f a)) :
    Agree (After c) ((reading (x.map f) s).runReplies replies)
      ((reading (y.map f) r).runReplies replies) := by
  refine reading_agree h ?_
  rw [hxy]
  exact (Agree.rfl_eq x).map fun a b hab ↦ hab ▸ hf a

/-- Direct calls that agree. -/
theorem direct_agree {replies : ℕ → (op : TokenCall) → Option op.Answer} {α : Type}
    {f : α → Value} {P : α × ContractState → α × ContractState → Prop}
    {x y : Outcome Error (α × ContractState)} (hxy : Agree P x y)
    (hP : ∀ p q, P p q → After c (f p.1, p.2) (f q.1, q.2)) :
    Agree (After c) ((direct f x).runReplies replies) ((direct f y).runReplies replies) := by
  rw [direct, direct, Callout.runReplies_done, Callout.runReplies_done]
  exact hxy.map hP

/-- Direct calls that return nothing. -/
theorem direct_unit_agree {replies : ℕ → (op : TokenCall) → Option op.Answer}
    {x y : Outcome Error (Unit × ContractState)}
    (hxy : Agree (fun p q ↦ Mirrors c p.2.storage q.2.storage) x y) :
    Agree (After c) ((direct (fun _ ↦ Value.unit) x).runReplies replies)
      ((direct (fun _ ↦ Value.unit) y).runReplies replies) :=
  direct_agree hxy fun _ _ hpq ↦ ⟨hpq, rfl⟩

/-- **Every call on the campaign answers alike** in ledgers that mirror each other, and leaves them
so. -/
theorem Mirrors.exec (hs : Filed s.storage) (hr : Filed r.storage)
    (h : Mirrors c s.storage r.storage) {tx : Tx} (hname : tx.call.campaign? = some c)
    (hsettle : tx.call.settles = false) (hroom : ¬CounterOverflows tx s) :
    Agree (After c) (tx.exec s) (tx.exec r) := by
  obtain ⟨env, call, replies⟩ := tx
  cases call with
  | createCampaign | campaignsOf | campaignsPage | totalCampaigns | totalMinted =>
    exact absurd hname (by simp [Call.campaign?])
  | settle => exact absurd hsettle (by simp [Call.settles])
  | getCampaign =>
    obtain rfl := Option.some.inj hname
    exact reading_same h h.getCampaign_eq fun _ ↦ rfl
  | campaignStats =>
    obtain rfl := Option.some.inj hname
    exact reading_same h (h.campaignStats_eq env) fun _ ↦ rfl
  | isDelegate x who =>
    obtain rfl := Option.some.inj hname
    exact reading_agree h (h.isDelegate_eq who ▸ .ok rfl)
  | getShared x code =>
    obtain rfl := Option.some.inj hname
    exact reading_same h (h.getShared_eq code) fun _ ↦ rfl
  | getTally x code period =>
    obtain rfl := Option.some.inj hname
    exact reading_same h (h.getTally_eq code period) fun _ ↦ rfl
  | isSettled x code period =>
    obtain rfl := Option.some.inj hname
    exact reading_agree h (h.isSettled_eq code period ▸ .ok rfl)
  | computePayouts x code period =>
    obtain rfl := Option.some.inj hname
    exact reading_same h (h.computePayouts_eq code period) fun _ ↦ rfl
  | isValid x code =>
    obtain rfl := Option.some.inj hname
    exact reading_agree h (h.isValid_eq hs env code ▸ .ok rfl)
  | verify x code =>
    obtain rfl := Option.some.inj hname
    refine reading_agree h ((h.verify_agree hs code).map fun tok tok' htwin ↦ ?_)
    obtain ⟨t', rfl, htwin⟩ := htwin
    exact ⟨t', rfl, htwin⟩
  | bumpCampaign =>
    obtain rfl := Option.some.inj hname
    exact direct_unit_agree (bumpCampaign_agree h)
  | bumpCodes x codes =>
    obtain rfl := Option.some.inj hname
    exact direct_unit_agree (bumpCodes_agree hs h codes)
  | bumpDelegates x ds =>
    obtain rfl := Option.some.inj hname
    exact direct_unit_agree (bumpDelegates_agree h ds)
  | bumpTally x code periods =>
    obtain rfl := Option.some.inj hname
    exact direct_unit_agree (bumpTally_agree h code periods)
  | addDelegate owner x d =>
    obtain rfl := Option.some.inj hname
    exact direct_unit_agree (addDelegate_agree h owner d)
  | removeDelegate owner x d =>
    obtain rfl := Option.some.inj hname
    exact direct_unit_agree (removeDelegate_agree h owner d)
  | registerShared owner x code attributedTo payoutToken rate =>
    obtain rfl := Option.some.inj hname
    exact direct_unit_agree (registerShared_agree h owner code attributedTo payoutToken rate)
  | commitTally owner x code period count root m =>
    obtain rfl := Option.some.inj hname
    exact direct_unit_agree (commitTally_agree h owner code period count root m)
  | issueUnique owner x codes =>
    obtain rfl := Option.some.inj hname
    have hno : owner ∈ env.auths → Soroticket.issueUnique env owner x codes s ≠ .error .trap := by
      intro hauth htrap
      refine hroom ⟨owner, x, codes, rfl, hauth, ?_⟩
      show (direct Value.ids _).runReplies replies = _
      rw [direct, Callout.runReplies_done, htrap]
      rfl
    exact direct_agree (issueUnique_agree hs hr h hno) fun p q hpq ↦ ⟨hpq.1, q.1, rfl, hpq.2⟩
  | redeemUnique who x code ref =>
    obtain rfl := Option.some.inj hname
    refine direct_agree (redeemUnique_agree hs hr h who code ref) fun p q hpq ↦ ⟨hpq.1, ?_⟩
    obtain ⟨t', hq, htwin⟩ := hpq.2
    exact ⟨t', by rw [hq], htwin⟩

end Calls

end Soroticket
