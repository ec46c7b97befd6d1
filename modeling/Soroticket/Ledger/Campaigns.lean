import Soroticket.Ledger.Storage

/-!
# Campaigns, delegates and upkeep

The entry points of the contract that create campaigns, list them, name delegates, and extend
lifetimes, each a function of the environment, its arguments and the state, with the checks in the
order of the source. Every one is total: what the source leaves to the host, a missing
authorization or an overflow, is the fault `trap`.

After each operation comes the one lemma later modules use: what its success says about the state
before, and the stored values after, as writes to named keys. Nothing later unfolds an operation.
-/

namespace Soroticket

open Outcome

/-! ### Campaigns -/

/-- The campaign `create_campaign` stores. -/
def newCampaign (id : UInt64) (owner : Address) (name discountType : Bytes)
    (discountValue : UInt64) (totalSupply : UInt32) (validUntil : UInt64) : Campaign :=
  { id, owner, name, discountType, discountValue, totalSupply, minted := 0, burned := 0,
    validUntil }

/-- `create_campaign`: create a campaign owned by `owner`. -/
def createCampaign (env : Env) (owner : Address) (name discountType : Bytes)
    (discountValue : UInt64) (totalSupply : UInt32) (validUntil : UInt64) (s : ContractState) :
    Outcome Error (UInt64 × ContractState) := do
  requireAuth env owner
  rejectIf (totalSupply = 0 ∨ name = [] ∨ maxNameLen < name.length ∨ discountType = [] ∨
    maxDiscountTypeLen < discountType.length) .invalidTerms
  rejectIf (validUntil ≤ env.timestamp) .invalidTerms
  let id ← orTrap ((s.storage.campCtr.getD 0).checkedAdd 1)
  let s := { s with storage := { s.storage with campCtr := some id } }
  let s := s.extendInstanceTtl env ledgerBump extendTo
  let s := s.set env (.campaign id)
    (newCampaign id owner name discountType discountValue totalSupply validUntil)
  let s ← s.extendTtl env (.campaign id) ledgerBump extendTo
  -- the paged owner index: one entry for each slot, and the number of slots
  let ownerCount : UInt64 := (s.get (.ownerCount owner)).getD 0
  let nextCount ← okOr (ownerCount.checkedAdd 1) .invalidTerms
  let s := s.set env (.ownerCampaign owner ownerCount) id
  let s := s.set env (.campaignOwnerSlot id) ownerCount
  let s := s.set env (.ownerCount owner) nextCount
  let s ← s.extendTtl env (.ownerCampaign owner ownerCount) ledgerBump extendTo
  let s ← s.extendTtl env (.campaignOwnerSlot id) ledgerBump extendTo
  let s ← s.extendTtl env (.ownerCount owner) ledgerBump extendTo
  let s := s.publish (.campaignCreated id owner name totalSupply)
  return (id, s)

/-- **Creating a campaign** takes the next id, writes the new record under it, and files it at the
owner's next slot. -/
theorem createCampaign_ok {env : Env} {owner : Address} {name discountType : Bytes}
    {discountValue : UInt64} {totalSupply : UInt32} {validUntil id : UInt64}
    {s s' : ContractState}
    (h : createCampaign env owner name discountType discountValue totalSupply validUntil s =
      .ok (id, s')) :
    owner ∈ env.auths ∧
      ¬(totalSupply = 0 ∨ name = [] ∨ maxNameLen < name.length ∨ discountType = [] ∨
        maxDiscountTypeLen < discountType.length) ∧
      ¬validUntil ≤ env.timestamp ∧
      id.toNat = (s.storage.campCtr.getD 0).toNat + 1 ∧
      (∃ nextCount : UInt64,
        nextCount.toNat = ((s.storage.ownerCount owner).getD 0).toNat + 1 ∧
        s'.storage = { s.storage with
          campCtr := some id
          campaign := Function.update s.storage.campaign id (some
            (newCampaign id owner name discountType discountValue totalSupply validUntil))
          ownerCampaign := Function.update s.storage.ownerCampaign
            (owner, (s.storage.ownerCount owner).getD 0) (some id)
          campaignOwnerSlot := Function.update s.storage.campaignOwnerSlot id
            (some ((s.storage.ownerCount owner).getD 0))
          ownerCount := Function.update s.storage.ownerCount owner (some nextCount) }) ∧
      s'.events = s.events ++ [.campaignCreated id owner name totalSupply] := by
  simp only [createCampaign, bind_eq_ok_iff, requireAuth_eq_ok_iff, rejectIf_eq_ok_iff,
    orTrap_eq_ok_iff, okOr_eq_ok_iff, ContractState.extendTtl_eq_ok_iff, pure_eq_ok,
    Except.ok.injEq, Prod.mk.injEq, exists_const, UInt64.checkedAdd_eq_some_iff] at h
  obtain ⟨hauth, hterms, htime, id', hid, _, ⟨-, rfl⟩, next, hnext, _, ⟨-, rfl⟩, _, ⟨-, rfl⟩, _,
    ⟨-, rfl⟩, rfl, rfl⟩ := h
  simp only [ContractState.get_def, ContractState.storage_raiseTtl, ContractState.storage_set,
    ContractState.storage_extendInstanceTtl, Storage.write, Storage.get, UInt64.toNat_one]
    at hid hnext ⊢
  exact ⟨hauth, hterms, htime, hid, ⟨next, hnext, rfl⟩, rfl⟩

/-- `get_campaign`. -/
def getCampaign (campaignId : UInt64) (s : ContractState) : Outcome Error Campaign :=
  okOr (s.get (.campaign campaignId)) .campaignNotFound

/-- The loop of `campaigns_of` and `campaigns_page`: the ids at the owner's slots from `slot` up to
`stop`, a missing one skipped. The slot is a word, and counting it up is checked. -/
def ownerLoop (owner : Address) (s : ContractState) (stop slot : UInt64) (out : List UInt64) :
    Outcome Error (List UInt64) :=
  if slot < stop then
    match _h : slot.checkedAdd 1 with
    | some next =>
      ownerLoop owner s stop next (out ++ (s.get (.ownerCampaign owner slot)).toList)
    | none => .error .trap
  else .ok out
termination_by stop.toNat - slot.toNat
decreasing_by
  rename_i hlt
  rw [UInt64.lt_iff_toNat_lt] at hlt
  rw [UInt64.checkedAdd_eq_some_iff, UInt64.toNat_one] at _h
  omega

/-- The ids found at the owner's slots from `slot` up to `stop`; a missing slot is skipped. -/
def ownerSlots (owner : Address) (slot stop : ℕ) (s : ContractState) : List UInt64 :=
  (List.range' slot (stop - slot)).filterMap fun i ↦ s.get (.ownerCampaign owner (.ofNat i))

/-- **The loop never traps**, and collects the entries of the slots. -/
theorem ownerLoop_eq (owner : Address) (s : ContractState) (stop slot : UInt64)
    (out : List UInt64) : ownerLoop owner s stop slot out =
      .ok (out ++ ownerSlots owner slot.toNat stop.toNat s) := by
  fun_induction ownerLoop owner s stop slot out with
  | case1 slot out hlt next hnext ih =>
    rw [UInt64.lt_iff_toNat_lt] at hlt
    rw [UInt64.checkedAdd_eq_some_iff, UInt64.toNat_one] at hnext
    have hcount : stop.toNat - slot.toNat = stop.toNat - next.toNat + 1 := by omega
    rw [ih, List.append_assoc, ownerSlots, ownerSlots, hcount, List.range'_succ, hnext,
      List.filterMap_cons, UInt64.ofNat_toNat]
    rcases s.get (.ownerCampaign owner slot) with - | id <;> rfl
  | case2 slot out hlt hnone =>
    -- a slot below a word has a successor
    rw [UInt64.checkedAdd_eq_none_iff, UInt64.toNat_one] at hnone
    have hmax := stop.toNat_lt
    rw [UInt64.lt_iff_toNat_lt] at hlt
    omega
  | case3 slot out hge =>
    have hcount : stop.toNat - slot.toNat = 0 := by
      rw [UInt64.lt_iff_toNat_lt] at hge
      omega
    rw [ownerSlots, hcount, List.range'_zero, List.filterMap_nil, List.append_nil]

/-- `campaigns_of`: every campaign id of `owner`. -/
def campaignsOf (owner : Address) (s : ContractState) : Outcome Error (List UInt64) :=
  let count : UInt64 := (s.get (.ownerCount owner)).getD 0
  ownerLoop owner s count 0 []

/-- `campaigns_page`: the campaign ids of `owner` from the slot `cursor` on, at most `limit` of
them. -/
def campaignsPage (owner : Address) (cursor : UInt64) (limit : UInt32) (s : ContractState) :
    Outcome Error (List UInt64) := do
  rejectIf (limit = 0 ∨ maxBatch < limit.toNat) .batchTooLarge
  let count : UInt64 := (s.get (.ownerCount owner)).getD 0
  let requestedEnd := cursor.saturatingAdd limit.toUInt64
  let stop := if requestedEnd < count then requestedEnd else count
  ownerLoop owner s stop cursor []

/-- `campaign_stats`. -/
def campaignStats (env : Env) (campaignId : UInt64) (s : ContractState) :
    Outcome Error CampaignStats := do
  let camp : Campaign ← okOr (s.get (.campaign campaignId)) .campaignNotFound
  return { totalSupply := camp.totalSupply, minted := camp.minted, burned := camp.burned,
           available := camp.minted.saturatingSub camp.burned,
           isExpired := decide (camp.validUntil < env.timestamp) }

/-- `total_campaigns`. -/
def totalCampaigns (s : ContractState) : UInt64 := s.storage.campCtr.getD 0

/-- `total_minted`. -/
def totalMinted (s : ContractState) : UInt64 := s.storage.tokCtr.getD 0

/-! ### Ownership -/

/-- `require_owner`: the campaign exists and `caller` owns it. -/
def requireOwner (campaignId : UInt64) (caller : Address) (s : ContractState) :
    Outcome Error Unit := do
  let camp : Campaign ← okOr (s.get (.campaign campaignId)) .campaignNotFound
  rejectIf (caller ≠ camp.owner) .unauthorized

@[simp] theorem requireOwner_eq_ok_iff {c : UInt64} {caller : Address} {s : ContractState}
    {u : Unit} : requireOwner c caller s = .ok u ↔
      ∃ camp, s.storage.campaign c = some camp ∧ camp.owner = caller := by
  rw [requireOwner, bind_eq_ok_iff]
  simp only [okOr_eq_ok_iff, rejectIf_eq_ok_iff, not_not, ContractState.get_def, Storage.get,
    @eq_comm _ caller]

/-- `is_delegate_internal`. -/
def isDelegateInternal (campaignId : UInt64) (who : Address) (s : ContractState) : Bool :=
  (s.get (.delegate campaignId who)).getD false

theorem isDelegateInternal_iff {c : UInt64} {who : Address} {s : ContractState} :
    isDelegateInternal c who s = true ↔ s.storage.delegate (c, who) = some true := by
  show (s.storage.delegate (c, who)).getD false = true ↔ _
  rcases s.storage.delegate (c, who) with - | b <;> simp

/-! ### Delegates -/

/-- `add_delegate`: authorize `delegate` to redeem coupons of the campaign. -/
def addDelegate (env : Env) (owner : Address) (campaignId : UInt64) (delegate : Address)
    (s : ContractState) : Outcome Error (Unit × ContractState) := do
  requireAuth env owner
  requireOwner campaignId owner s
  let s := s.set env (.delegate campaignId delegate) true
  let s ← s.extendTtl env (.delegate campaignId delegate) ledgerBump extendTo
  return ((), s.publish (.delegateAdded campaignId delegate))

theorem addDelegate_ok {env : Env} {owner delegate : Address} {c : UInt64}
    {s s' : ContractState} {u : Unit} (h : addDelegate env owner c delegate s = .ok (u, s')) :
    owner ∈ env.auths ∧ (∃ camp, s.storage.campaign c = some camp ∧ camp.owner = owner) ∧
      s'.storage = { s.storage with
        delegate := Function.update s.storage.delegate (c, delegate) (some true) } ∧
      s'.events = s.events ++ [.delegateAdded c delegate] := by
  simp only [addDelegate, bind_eq_ok_iff, requireAuth_eq_ok_iff, requireOwner_eq_ok_iff,
    ContractState.extendTtl_eq_ok_iff, pure_eq_ok, Except.ok.injEq, Prod.mk.injEq,
    exists_const] at h
  obtain ⟨hauth, howner, _, ⟨-, rfl⟩, -, rfl⟩ := h
  exact ⟨hauth, howner, rfl, rfl⟩

/-- `remove_delegate`: revoke that authority. -/
def removeDelegate (env : Env) (owner : Address) (campaignId : UInt64) (delegate : Address)
    (s : ContractState) : Outcome Error (Unit × ContractState) := do
  requireAuth env owner
  requireOwner campaignId owner s
  let s := s.remove (.delegate campaignId delegate)
  return ((), s.publish (.delegateRemoved campaignId delegate))

theorem removeDelegate_ok {env : Env} {owner delegate : Address} {c : UInt64}
    {s s' : ContractState} {u : Unit} (h : removeDelegate env owner c delegate s = .ok (u, s')) :
    owner ∈ env.auths ∧ (∃ camp, s.storage.campaign c = some camp ∧ camp.owner = owner) ∧
      s'.storage = { s.storage with
        delegate := Function.update s.storage.delegate (c, delegate) none } ∧
      s'.events = s.events ++ [.delegateRemoved c delegate] := by
  simp only [removeDelegate, bind_eq_ok_iff, requireAuth_eq_ok_iff, requireOwner_eq_ok_iff,
    pure_eq_ok, Except.ok.injEq, Prod.mk.injEq, exists_const] at h
  obtain ⟨hauth, howner, -, rfl⟩ := h
  exact ⟨hauth, howner, rfl, rfl⟩

/-- `is_delegate`. -/
def isDelegate (campaignId : UInt64) (who : Address) (s : ContractState) : Bool :=
  isDelegateInternal campaignId who s

/-! ### Upkeep -/

/-- Extend the lifetime of an entry if it is there. -/
def bumpIfPresent (env : Env) (k : DataKey) (s : ContractState) : Outcome Error ContractState :=
  if s.has k then s.extendTtl env k ledgerBump extendTo else .ok s

/-- The part of `bump_campaign` that follows the campaign's slot to its owner-index entry. -/
def bumpOwnerEntry (env : Env) (campaignId : UInt64) (owner : Address) (s : ContractState) :
    Outcome Error ContractState :=
  match s.get (.campaignOwnerSlot campaignId) with
  | some slot => do
    let s ← s.extendTtl env (.campaignOwnerSlot campaignId) ledgerBump extendTo
    bumpIfPresent env (.ownerCampaign owner slot) s
  | none => .ok s

/-- The stored values and the published events are the same. -/
def SameData (s s' : ContractState) : Prop := s'.storage = s.storage ∧ s'.events = s.events

theorem SameData.refl (s : ContractState) : SameData s s := ⟨rfl, rfl⟩

theorem SameData.trans {s₁ s₂ s₃ : ContractState} (h : SameData s₁ s₂) (h' : SameData s₂ s₃) :
    SameData s₁ s₃ :=
  ⟨h'.1.trans h.1, h'.2.trans h.2⟩

theorem sameData_of_extendTtl {env : Env} {k : DataKey} {t e : ℕ} {s s' : ContractState}
    (h : s.extendTtl env k t e = .ok s') : SameData s s' := by
  obtain ⟨-, rfl⟩ := ContractState.extendTtl_eq_ok_iff.1 h
  exact ⟨rfl, rfl⟩

theorem sameData_of_bumpIfPresent {env : Env} {k : DataKey} {s s' : ContractState}
    (h : bumpIfPresent env k s = .ok s') : SameData s s' := by
  rw [bumpIfPresent] at h
  split at h
  · exact sameData_of_extendTtl h
  · obtain rfl := Except.ok.inj h
    exact SameData.refl _

/-- `bump_campaign`: extend the campaign, its owner-index entries and the instance entry. -/
def bumpCampaign (env : Env) (campaignId : UInt64) (s : ContractState) :
    Outcome Error (Unit × ContractState) := do
  let camp : Campaign ← okOr (s.get (.campaign campaignId)) .campaignNotFound
  let s ← s.extendTtl env (.campaign campaignId) ledgerBump extendTo
  let s ← bumpIfPresent env (.ownerCount camp.owner) s
  let s ← bumpOwnerEntry env campaignId camp.owner s
  return ((), s.extendInstanceTtl env ledgerBump extendTo)

theorem sameData_extendInstanceTtl (env : Env) (t e : ℕ) (s : ContractState) :
    SameData s (s.extendInstanceTtl env t e) :=
  ⟨rfl, rfl⟩

theorem bumpCampaign_ok {env : Env} {c : UInt64} {s s' : ContractState} {u : Unit}
    (h : bumpCampaign env c s = .ok (u, s')) : SameData s s' := by
  simp only [bumpCampaign, bind_eq_ok_iff, pure_eq_ok, Except.ok.injEq, Prod.mk.injEq] at h
  obtain ⟨camp, -, s₁, h₁, s₂, h₂, s₃, h₃, -, rfl⟩ := h
  have h₂₃ : SameData s₂ s₃ := by
    rw [bumpOwnerEntry] at h₃
    split at h₃
    · rw [bind_eq_ok_iff] at h₃
      obtain ⟨s₄, h₄, h₅⟩ := h₃
      exact (sameData_of_extendTtl h₄).trans (sameData_of_bumpIfPresent h₅)
    · obtain rfl := Except.ok.inj h₃
      exact SameData.refl _
  exact (((sameData_of_extendTtl h₁).trans (sameData_of_bumpIfPresent h₂)).trans h₂₃).trans
    (sameData_extendInstanceTtl env _ _ s₃)

/-- One round of `bump_codes`: extend the index entry and the coupon of one code. -/
def bumpCode (env : Env) (campaignId : UInt64) (s : ContractState) (code : Bytes) :
    Outcome Error ContractState := do
  rejectIf (code = []) .invalidCode
  rejectIf (maxCodeLen < code.length) .codeTooLong
  match s.get (.codeIndex campaignId code) with
  | some tokenId => do
    let s ← s.extendTtl env (.codeIndex campaignId code) ledgerBump extendTo
    bumpIfPresent env (.token tokenId) s
  | none => .ok s

theorem sameData_of_bumpCode {env : Env} {c : UInt64} {code : Bytes} {s s' : ContractState}
    (h : bumpCode env c s code = .ok s') : SameData s s' := by
  simp only [bumpCode, bind_eq_ok_iff, rejectIf_eq_ok_iff, exists_const] at h
  obtain ⟨-, -, h⟩ := h
  split at h
  · rw [bind_eq_ok_iff] at h
    obtain ⟨s₁, h₁, h₂⟩ := h
    exact (sameData_of_extendTtl h₁).trans (sameData_of_bumpIfPresent h₂)
  · obtain rfl := Except.ok.inj h
    exact SameData.refl _

/-- `bump_codes`: extend the index entries and coupons of up to `maxBatch` codes. -/
def bumpCodes (env : Env) (campaignId : UInt64) (codes : List Bytes) (s : ContractState) :
    Outcome Error (Unit × ContractState) := do
  rejectIf (codes = []) .invalidCode
  rejectIf (maxBatch < codes.length) .batchTooLarge
  let s ← codes.foldlM (bumpCode env campaignId) s
  return ((), s)

theorem bumpCodes_ok {env : Env} {c : UInt64} {codes : List Bytes} {s s' : ContractState} {u : Unit}
    (h : bumpCodes env c codes s = .ok (u, s')) : SameData s s' := by
  simp only [bumpCodes, bind_eq_ok_iff, rejectIf_eq_ok_iff, exists_const, pure_eq_ok,
    Except.ok.injEq, Prod.mk.injEq] at h
  obtain ⟨-, -, s₁, h₁, -, rfl⟩ := h
  exact foldlM_induction (fun _ _ _ hs hstep ↦ hs.trans (sameData_of_bumpCode hstep))
    (SameData.refl s) h₁

/-- `bump_delegates`: extend up to `maxBatch` delegate entries. -/
def bumpDelegates (env : Env) (campaignId : UInt64) (delegates : List Address)
    (s : ContractState) : Outcome Error (Unit × ContractState) := do
  rejectIf (maxBatch < delegates.length) .batchTooLarge
  rejectIf (s.has (.campaign campaignId) = false) .campaignNotFound
  let s ← delegates.foldlM (fun s who ↦ bumpIfPresent env (.delegate campaignId who) s) s
  return ((), s)

theorem bumpDelegates_ok {env : Env} {c : UInt64} {delegates : List Address}
    {s s' : ContractState} {u : Unit} (h : bumpDelegates env c delegates s = .ok (u, s')) :
    SameData s s' := by
  simp only [bumpDelegates, bind_eq_ok_iff, rejectIf_eq_ok_iff, exists_const, pure_eq_ok,
    Except.ok.injEq, Prod.mk.injEq] at h
  obtain ⟨-, -, s₁, h₁, -, rfl⟩ := h
  exact foldlM_induction (fun _ _ _ hs hstep ↦ hs.trans (sameData_of_bumpIfPresent hstep))
    (SameData.refl s) h₁

end Soroticket
