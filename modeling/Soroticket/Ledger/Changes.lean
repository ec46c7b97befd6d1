import Soroticket.Ledger.Isolation
import Soroticket.Ledger.Issuance

/-!
# What a call changes of a campaign's coupons

Two entry points write coupons. A batch adds its codes to the index of its campaign, each with a new
number, and to the campaign's count (`Effect.issues`). A redemption burns the coupon its code leads
to, and adds one to the campaign's count of these (`Effect.burns`). Every other success leaves the
coupons of a campaign and both counts as they are (`Effect.couponsKept`).
-/

namespace Soroticket

variable {env : Env} {call : Call} {v : Value} {s s' : Storage} {evs : List Event} {c : UInt64}

/-- The campaign whose coupons a call may change. -/
def Call.coupons? : Call → Option UInt64
  | issueUnique _ c _ => some c
  | redeemUnique _ c _ _ => some c
  | _ => none

/-- The coupons of a campaign are as they were, and so is its record. -/
structure CouponsKept (c : UInt64) (s s' : Storage) : Prop where
  campaign : s'.campaign c = s.campaign c
  codeIndex : ∀ code, s'.codeIndex (c, code) = s.codeIndex (c, code)
  token : ∀ t tok, s.token t = some tok → tok.campaignId = c → s'.token t = some tok

/-- **Only batches and redemptions of a campaign change its coupons.** -/
theorem Effect.couponsKept (h : Effect env call v s s' evs) (hf : Filed s)
    (hc : (s.campaign c).isSome = true) (hcall : call.coupons? ≠ some c) : CouponsKept c s s' := by
  by_cases hname : call.campaign? = some c
  · cases h with
    | unchanged => exact ⟨rfl, fun _ ↦ rfl, fun _ _ ht _ ↦ ht⟩
    | createCampaign => exact absurd hname.symm (Option.some_ne_none c)
    | issueUnique => exact absurd hname hcall
    | redeemUnique => exact absurd hname hcall
    | addDelegate | removeDelegate | registerShared | commitTally | settle =>
      exact ⟨rfl, fun _ ↦ rfl, fun _ _ ht _ ↦ ht⟩
  · have hu := h.untouched hf hc hname
    exact ⟨hu.campaign, hu.codeIndex, hu.token⟩

/-- A batch has been added to a campaign: its codes are new, each has a number, and they are
counted. -/
structure Issues (c : UInt64) (codes : List Bytes) (ids : List UInt64) (s s' : Storage) : Prop where
  length : ids.length = codes.length
  nodup : codes.Nodup
  free : ∀ code ∈ codes, s.codeIndex (c, code) = none
  campaign : ∃ camp camp', s.campaign c = some camp ∧ s'.campaign c = some camp' ∧
    camp'.minted.toNat = camp.minted.toNat + codes.length ∧ camp'.burned = camp.burned
  supply : ∀ camp camp', s.campaign c = some camp → s'.campaign c = some camp' →
    camp'.totalSupply = camp.totalSupply ∧ camp'.minted ≤ camp.totalSupply
  index : ∀ x ∈ codes.zip ids, s'.codeIndex (c, x.1) = some x.2
  kept : ∀ code t, s.codeIndex (c, code) = some t → s'.codeIndex (c, code) = some t
  origin : ∀ code t, s'.codeIndex (c, code) = some t →
    s.codeIndex (c, code) = some t ∨ code ∈ codes
  token : ∀ t tok, s.token t = some tok → s'.token t = some tok

theorem Effect.issues {owner : Address} {codes : List Bytes}
    (h : Effect env (.issueUnique owner c codes) v s s' evs) (hf : Filed s) :
    ∃ ids, v = .ids ids ∧ Issues c codes ids s s' := by
  cases h with
  | unchanged hcall => exact absurd hcall.symm Bool.false_ne_true
  | @issueUnique _ _ _ ids _ s₁ camp n _ hcamp _ _ _ _ hminted hsupply hmints =>
    refine ⟨ids, rfl, ?_⟩
    have hissuable := hmints.issuable
    refine ⟨?_, hissuable.nodup, hissuable.free,
      ⟨camp, _, hcamp, Function.update_self .., hminted, rfl⟩, fun x y hx hy ↦ ?_, fun x hx ↦ ?_,
      fun _ _ ↦ hmints.codeIndex_mono, fun code t ht ↦ ?_, fun t tok ht ↦ ?_⟩
    · have hlen := congrArg List.length hmints.ids_eq
      rwa [List.length_map, List.length_range'] at hlen
    · obtain rfl := Option.some.inj (hx.symm.trans hcamp)
      obtain rfl := Option.some.inj ((Function.update_self c _ _).symm.trans hy)
      exact ⟨rfl, hsupply⟩
    · obtain ⟨k, hk⟩ := List.mem_iff_getElem?.1 hx
      obtain ⟨hcode, hid⟩ := List.getElem?_zip_eq_some.1 hk
      exact hmints.codeIndex_of_getElem hcode hid
    · exact (hmints.codeIndex_origin ht).imp_right fun ⟨_, k, hcode, _⟩ ↦
        List.mem_of_getElem? hcode
    · have hle := ((hf.token_iff t).1 (by rw [ht]; rfl)).2
      exact (hmints.token_of_le hle).trans ht

/-- A coupon of a campaign has been burned, and is counted. -/
structure Burns (c : UInt64) (code : Bytes) (s s' : Storage) : Prop where
  coupon : ∃ t tok tok', s.codeIndex (c, code) = some t ∧ s.token t = some tok ∧
    tok.isBurned = false ∧ s'.token = Function.update s.token t (some tok') ∧ tok'.isBurned = true
  campaign : ∃ camp camp', s.campaign c = some camp ∧ s'.campaign c = some camp' ∧
    camp'.minted = camp.minted ∧ camp'.burned.toNat = camp.burned.toNat + 1
  codeIndex : s'.codeIndex = s.codeIndex

theorem Effect.burns {who : Address} {code : Bytes} {ref : BytesN 32}
    (h : Effect env (.redeemUnique who c code ref) v s s' evs) (hf : Filed s) :
    Burns c code s s' := by
  cases h with
  | unchanged hcall => exact absurd hcall.symm Bool.false_ne_true
  | @redeemUnique _ _ t _ _ _ tok camp burned _ hindex htok hunburned hcamp _ _ hburned =>
    obtain ⟨rfl, -⟩ := hf.campaignId_eq hindex htok
    exact ⟨⟨t, tok, _, hindex, htok, hunburned, rfl, rfl⟩,
      ⟨camp, _, hcamp, Function.update_self .., rfl, hburned⟩, rfl⟩

end Soroticket
