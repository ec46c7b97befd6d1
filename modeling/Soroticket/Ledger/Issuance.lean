import Soroticket.Ledger.Index

/-!
# Which batches are issued

`issue_unique` checks a campaign and the size of a batch, and then its codes one by one, each after
the codes before it were written: a code that comes twice is found in the index the second time
(`Issuable`). The loop goes through exactly for such a batch, and numbers it in order.

The numbers come from one counter for all campaigns, of 64 bits. There is one way a batch is turned
away that no owner has caused: when the counter is used up, the host traps. Some run leads there
(`numbers_used_up`), by creating campaigns without end.
-/

namespace Soroticket

open Outcome

/-! ### The loop -/

/-- What the loop needs of a batch: codes that are acceptable, each once, not yet in the campaign's
index, and numbers for them. -/
structure Issuable (s : Storage) (c : UInt64) (codes : List Bytes) : Prop where
  acceptable : ∀ code ∈ codes, code ≠ [] ∧ code.length ≤ maxCodeLen
  nodup : codes.Nodup
  free : ∀ code ∈ codes, s.codeIndex (c, code) = none
  room : (s.tokCtr.getD 0).toNat + codes.length < 2 ^ 64

section Loop

variable {s s' : Storage} {c now t : UInt64} {code : Bytes} {codes : List Bytes}
  {ids : List UInt64}

/-- The rest of a batch stays so when its first code is minted. -/
theorem Issuable.rest (h : Issuable s c (code :: codes))
    (ht : t.toNat = (s.tokCtr.getD 0).toNat + 1) : Issuable (s.mint t c code now) c codes where
  acceptable code' hmem := h.acceptable code' (List.mem_cons_of_mem _ hmem)
  nodup := (List.nodup_cons.1 h.nodup).2
  free code' hmem := by
    have hne : code' ≠ code := by
      rintro rfl
      exact (List.nodup_cons.1 h.nodup).1 hmem
    show Function.update s.codeIndex (c, code) (some t) (c, code') = none
    rw [Function.update_of_ne fun hkey ↦ hne (Prod.mk.inj hkey).2]
    exact h.free code' (List.mem_cons_of_mem _ hmem)
  room := by
    have hroom := h.room
    rw [List.length_cons] at hroom
    show t.toNat + codes.length < 2 ^ 64
    omega

/-- No code of a batch was in the index: a round finds what an earlier one wrote. -/
theorem Mints.free (h : Mints c now s codes ids s') {code : Bytes} (hcode : code ∈ codes) :
    s.codeIndex (c, code) = none := by
  induction h with
  | nil s => exact absurd hcode List.not_mem_nil
  | @cons s s' code₁ codes t ids hne hlen hfree ht hrest ih =>
    rcases List.mem_cons.1 hcode with rfl | hmem
    · exact hfree
    · by_contra hused
      obtain ⟨u, hu⟩ := Option.ne_none_iff_exists'.1 hused
      have hkept : (s.mint t c code₁ now).codeIndex (c, code) = some u := update_of_free hfree hu
      exact absurd (hkept.symm.trans (ih hmem)) (Option.some_ne_none u)

/-- A batch that is minted was issuable. -/
theorem Mints.issuable (h : Mints c now s codes ids s') : Issuable s c codes := by
  have hroom : (s.tokCtr.getD 0).toNat + codes.length < 2 ^ 64 := by
    rw [← h.tokCtr_eq]
    exact (s'.tokCtr.getD 0).toNat_lt
  have hfree : ∀ code ∈ codes, s.codeIndex (c, code) = none := fun _ ↦ h.free
  have hcodes : (∀ code ∈ codes, code ≠ [] ∧ code.length ≤ maxCodeLen) ∧ codes.Nodup := by
    clear hroom hfree
    induction h with
    | nil s => exact ⟨fun _ hmem ↦ absurd hmem List.not_mem_nil, List.nodup_nil⟩
    | @cons s s' code codes t ids hne hlen hfree ht hrest ih =>
      refine ⟨List.forall_mem_cons.2 ⟨⟨hne, hlen⟩, ih.1⟩, List.nodup_cons.2 ⟨fun hmem ↦ ?_, ih.2⟩⟩
      have hwritten : (s.mint t c code now).codeIndex (c, code) = some t :=
        Function.update_self (c, code) _ _
      exact absurd (hwritten.symm.trans (hrest.free hmem)) (Option.some_ne_none t)
  exact ⟨hcodes.1, hcodes.2, hfree, hroom⟩

/-- A batch takes the next numbers, in order. -/
theorem Mints.ids_eq (h : Mints c now s codes ids s') :
    ids.map UInt64.toNat = List.range' ((s.tokCtr.getD 0).toNat + 1) codes.length := by
  induction h with
  | nil s => rfl
  | @cons s s' code codes t ids hne hlen hfree ht hrest ih =>
    have hnext : ((s.mint t c code now).tokCtr.getD 0).toNat = t.toNat := rfl
    rw [List.map_cons, ih, hnext, List.length_cons, List.range'_succ, ht]

/-- A batch writes no coupon up to the counter. -/
theorem Mints.token_of_le (h : Mints c now s codes ids s')
    (ht : t.toNat ≤ (s.tokCtr.getD 0).toNat) : s'.token t = s.token t := by
  induction h with
  | nil s => rfl
  | @cons s s' code codes u ids hne hlen hfree hu hrest ih =>
    have hnext : ((s.mint u c code now).tokCtr.getD 0).toNat = u.toNat := rfl
    have hne : t ≠ u := by
      rintro rfl
      omega
    rw [ih (by omega)]
    exact Function.update_of_ne hne _ _

/-- A batch writes a new coupon for each code, under its number. -/
theorem Mints.token_of_getElem (h : Mints c now s codes ids s') {k : ℕ}
    (hcode : codes[k]? = some code) (ht : ids[k]? = some t) :
    s'.token t = some (newToken t c code now) := by
  induction h generalizing k with
  | nil s => exact absurd hcode (by simp)
  | @cons s s' code₁ codes u ids hne hlen hfree hu hrest ih =>
    cases k with
    | zero =>
      obtain rfl : code₁ = code := by simpa using hcode
      obtain rfl : u = t := by simpa using ht
      have hkept : s'.token u = (s.mint u c code₁ now).token u := hrest.token_of_le le_rfl
      rw [hkept]
      exact Function.update_self u _ _
    | succ k => exact ih (by simpa using hcode) (by simpa using ht)

end Loop

/-- A round goes through for a code the batch can begin with. -/
theorem mintCode_of_issuable {env : Env} {c : UInt64} {code : Bytes} {codes : List Bytes}
    {s : ContractState} (h : Issuable s.storage c (code :: codes)) (ids : List UInt64) :
    ∃ p, mintCode env c (s, ids) code = .ok p := by
  obtain ⟨hne, hlen⟩ := h.acceptable code List.mem_cons_self
  have hfree : s.has (.codeIndex c code) = false := by
    rw [ContractState.has_def]
    show (s.storage.codeIndex (c, code)).isSome = false
    rw [h.free code List.mem_cons_self]
    rfl
  obtain ⟨t, ht⟩ : ∃ t, (s.storage.tokCtr.getD 0).checkedAdd 1 = some t := by
    refine Option.ne_none_iff_exists'.1 fun hnone ↦ ?_
    have hroom := h.room
    rw [UInt64.checkedAdd_eq_none_iff, UInt64.toNat_one] at hnone
    rw [List.length_cons] at hroom
    omega
  simp [mintCode, rejectIf_neg hne, rejectIf_neg (Nat.not_lt.2 hlen), hfree, rejectIf_neg, orTrap,
    ht, ContractState.extendTtl]

/-- The loop goes through for a batch that is issuable. -/
theorem foldlM_of_issuable (env : Env) {c : UInt64} {codes : List Bytes} :
    ∀ {s : ContractState} (ids : List UInt64), Issuable s.storage c codes →
      ∃ p, codes.foldlM (mintCode env c) (s, ids) = .ok p := by
  induction codes with
  | nil => exact fun _ _ ↦ ⟨_, rfl⟩
  | cons code codes ih =>
    intro s ids h
    obtain ⟨⟨s₁, ids₁⟩, hround⟩ := mintCode_of_issuable h ids
    obtain ⟨-, -, -, t, ht, -, hs₁, -⟩ := mintCode_ok hround
    have hrest : Issuable s₁.storage c codes := hs₁ ▸ h.rest ht
    obtain ⟨p, hp⟩ := ih ids₁ hrest
    exact ⟨p, by rw [List.foldlM_cons, hround, ok_bind, hp]⟩

/-! ### The call -/

section Call

variable {env : Env} {owner : Address} {c : UInt64} {codes : List Bytes} {s : ContractState}

/-- What the call needs: a live campaign of the owner, a batch of a size it takes, supply for it,
and what the loop needs. -/
theorem issueUnique_of_issuable (hauth : owner ∈ env.auths) {camp : Campaign}
    (hcamp : s.storage.campaign c = some camp) (howner : camp.owner = owner)
    (htime : env.timestamp ≤ camp.validUntil) (hne : codes.length ≠ 0)
    (hbatch : codes.length ≤ maxBatch)
    (hsupply : camp.minted.toNat + codes.length ≤ camp.totalSupply.toNat)
    (h : Issuable s.storage c codes) :
    ∃ ids s', issueUnique env owner c codes s = .ok (ids, s') := by
  have hget : s.get (.campaign c) = some camp := hcamp
  have hlen : (UInt32.ofNat codes.length).toNat = codes.length :=
    UInt32.toNat_ofNat_of_lt' (by simp only [maxBatch] at hbatch; simp only [UInt32.size]; omega)
  obtain ⟨minted, hminted⟩ : ∃ n, camp.minted.checkedAdd (.ofNat codes.length) = some n := by
    refine Option.ne_none_iff_exists'.1 fun hnone ↦ ?_
    have hword := camp.totalSupply.toNat_lt
    rw [UInt32.checkedAdd_eq_none_iff, hlen] at hnone
    omega
  have hpass : ¬camp.totalSupply < minted := by
    rw [UInt32.not_lt, UInt32.le_iff_toNat_le, UInt32.checkedAdd_eq_some_iff.1 hminted, hlen]
    exact hsupply
  obtain ⟨⟨s₁, ids⟩, hloop⟩ := foldlM_of_issuable env [] h
  simp [issueUnique, requireAuth, hauth, hget, howner, rejectIf_neg, UInt64.not_lt.2 htime,
    hne, Nat.not_lt.2 hbatch, hminted, hpass, hloop, ContractState.extendTtl]

end Call

/-! ### Batches of a run -/

/-- A batch that its campaign takes: the campaign is the owner's and live, has supply for it, and
has issued none of its codes before. -/
structure TakesBatch (ttl : ℕ) (txs : List Tx) (env : Env) (owner : Address) (c : UInt64)
    (codes : List Bytes) : Prop where
  campaign : ∃ camp, (runFrom ttl txs).storage.campaign c = some camp ∧ camp.owner = owner ∧
    env.timestamp ≤ camp.validUntil ∧
    camp.minted.toNat + codes.length ≤ camp.totalSupply.toNat
  size : 1 ≤ codes.length ∧ codes.length ≤ 100
  lengths : ∀ code ∈ codes, 1 ≤ code.length ∧ code.length ≤ 64
  nodup : codes.Nodup
  unissued : ∀ code ∈ codes, ∀ i t, ¬IssuesAt ttl txs i c code t

section Runs

variable {ttl : ℕ} {txs : List Tx} {env : Env} {owner : Address} {c : UInt64} {codes : List Bytes}

/-- Nothing of a campaign is in its index that the run did not issue. -/
theorem codeIndex_eq_none_iff (hord : Ordered txs) {code : Bytes} :
    (runFrom ttl txs).storage.codeIndex (c, code) = none ↔ ∀ i t, ¬IssuesAt ttl txs i c code t := by
  rw [Option.eq_none_iff_forall_ne_some]
  constructor
  · exact fun h i t hi ↦ h t ((codeIndex_iff_exists_issuesAt hord).2 ⟨i, hi⟩)
  · intro h t ht
    obtain ⟨i, hi⟩ := (codeIndex_iff_exists_issuesAt hord).1 ht
    exact h i t hi

/-- A batch that is issued is committed. -/
theorem runFrom_issueUnique {ids : List UInt64} {s' : ContractState}
    (h : issueUnique env owner c codes (runFrom ttl txs) = .ok (ids, s'))
    (replies : ℕ → (op : TokenCall) → Option op.Answer) :
    runFrom ttl (txs ++ [⟨env, .issueUnique owner c codes, replies⟩]) = s' := by
  have hexec : Tx.exec ⟨env, .issueUnique owner c codes, replies⟩ (runFrom ttl txs) =
      .ok (.ids ids, s') := by
    show (direct Value.ids (issueUnique env owner c codes (runFrom ttl txs))).runReplies replies = _
    rw [direct, Callout.runReplies_done, h]
    rfl
  rw [runFrom_concat, applyTx_of_ok hexec]

/-- A batch that is turned away leaves nothing behind. -/
theorem runFrom_issueUnique_of_error {f : Fault Error}
    (h : issueUnique env owner c codes (runFrom ttl txs) = .error f)
    (replies : ℕ → (op : TokenCall) → Option op.Answer) :
    runFrom ttl (txs ++ [⟨env, .issueUnique owner c codes, replies⟩]) = runFrom ttl txs := by
  have hexec : Tx.exec ⟨env, .issueUnique owner c codes, replies⟩ (runFrom ttl txs) =
      .error f := by
    show (direct Value.ids (issueUnique env owner c codes (runFrom ttl txs))).runReplies replies = _
    rw [direct, Callout.runReplies_done, h]
    rfl
  rw [runFrom_concat, applyTx_of_error hexec]

/-- The call succeeds for the batches of the campaign, while there are numbers for them. -/
theorem issueUnique_iff (hord : Ordered txs) (hauth : owner ∈ env.auths) :
    (∃ ids s', issueUnique env owner c codes (runFrom ttl txs) = .ok (ids, s')) ↔
      TakesBatch ttl txs env owner c codes ∧
        (totalMinted (runFrom ttl txs)).toNat + codes.length < 2 ^ 64 := by
  constructor
  · rintro ⟨ids, s', h⟩
    obtain ⟨-, camp, minted, s₁, hcamp, howner, htime, hne, hbatch, hminted, hsupply, hloop, -,
      -⟩ := issueUnique_ok h
    obtain ⟨_, -, hmints, -⟩ := mints_of_foldlM hloop
    have hissuable := hmints.issuable
    rw [UInt32.le_iff_toNat_le, hminted] at hsupply
    refine ⟨⟨⟨camp, hcamp, howner, htime, hsupply⟩, ⟨Nat.pos_of_ne_zero hne, hbatch⟩, ?_,
      hissuable.nodup, ?_⟩, hissuable.room⟩
    · intro code hmem
      obtain ⟨hcode, hlen⟩ := hissuable.acceptable code hmem
      exact ⟨List.length_pos_of_ne_nil hcode, hlen⟩
    · exact fun code hmem ↦ (codeIndex_eq_none_iff hord).1 (hissuable.free code hmem)
  · rintro ⟨htakes, hroom⟩
    obtain ⟨camp, hcamp, howner, htime, hsupply⟩ := htakes.campaign
    refine issueUnique_of_issuable hauth hcamp howner htime
      (Nat.ne_of_gt htakes.size.1) htakes.size.2 hsupply ⟨fun code hmem ↦ ?_, htakes.nodup,
        fun code hmem ↦ (codeIndex_eq_none_iff hord).2 (htakes.unissued code hmem), hroom⟩
    exact ⟨List.ne_nil_of_length_pos (htakes.lengths code hmem).1, (htakes.lengths code hmem).2⟩

end Runs

/-! ### A run that uses up the numbers -/

/-- A campaign can be created while there are numbers for campaigns and places for its owner's. -/
theorem createCampaign_of_room {env : Env} {owner : Address} {name discountType : Bytes}
    {discountValue validUntil : UInt64} {totalSupply : UInt32} {s : ContractState}
    (hauth : owner ∈ env.auths)
    (hterms : ¬(totalSupply = 0 ∨ name = [] ∨ maxNameLen < name.length ∨ discountType = [] ∨
      maxDiscountTypeLen < discountType.length)) (htime : ¬validUntil ≤ env.timestamp)
    (hcampaigns : (s.storage.campCtr.getD 0).toNat + 1 < 2 ^ 64)
    (hslots : ((s.storage.ownerCount owner).getD 0).toNat + 1 < 2 ^ 64) :
    ∃ id s', createCampaign env owner name discountType discountValue totalSupply validUntil s =
      .ok (id, s') := by
  have hroom : ∀ n : UInt64, n.toNat + 1 < 2 ^ 64 → ∃ m, n.checkedAdd 1 = some m := by
    intro n hn
    refine Option.ne_none_iff_exists'.1 fun hnone ↦ ?_
    rw [UInt64.checkedAdd_eq_none_iff, UInt64.toNat_one] at hnone
    omega
  obtain ⟨id, hid⟩ := hroom _ hcampaigns
  obtain ⟨next, hnext⟩ := hroom _ hslots
  simp [createCampaign, requireAuth, hauth, rejectIf_neg hterms, rejectIf_neg htime, hid, orTrap,
    ContractState.extendTtl, ContractState.get_def, ContractState.has_def, Storage.write,
    Storage.get, hnext]

namespace Sample

/-- Two transactions: a campaign for two coupons, and one of them. -/
def filling (c : UInt64) : List Tx :=
  [⟨envAt 10 owner, .createCampaign owner [78] [68] 1 2 100, replies⟩,
    ⟨envAt 10 owner, .issueUnique owner c [[65]], replies⟩]

/-- So many campaigns, and one coupon of each. -/
structure Filled (k : ℕ) (s : Storage) : Prop where
  campaigns : (s.campCtr.getD 0).toNat = k
  coupons : (s.tokCtr.getD 0).toNat = k
  slots : ((s.ownerCount owner).getD 0).toNat = k
  last : ∀ c, 0 < k → c.toNat = k → ∃ camp, s.campaign c = some camp ∧ camp.owner = owner ∧
    camp.validUntil = 100 ∧ camp.minted = 1 ∧ camp.totalSupply = 2
  second : ∀ c, s.codeIndex (c, [66]) = none
  free : ∀ c code, k < c.toNat → s.codeIndex (c, code) = none

theorem filled_empty : Filled 0 Storage.empty where
  campaigns := rfl
  coupons := rfl
  slots := rfl
  last _ h := absurd h (Nat.lt_irrefl 0)
  second _ := rfl
  free _ _ _ := rfl

/-- One more. -/
theorem Filled.succ {k : ℕ} {txs : List Tx} (h : Filled k (runFrom 0 txs).storage)
    (hk : k + 1 < 2 ^ 64) :
    Filled (k + 1) (runFrom 0 (txs ++ filling (.ofNat (k + 1)))).storage := by
  have hauth : owner ∈ (envAt 10 owner).auths := List.mem_singleton_self owner
  -- the campaign
  obtain ⟨c, s₁, hcreate⟩ : ∃ c s₁, createCampaign (envAt 10 owner) owner [78] [68] 1 2 100
      (runFrom 0 txs) = .ok (c, s₁) :=
    createCampaign_of_room hauth (by decide) (by decide) (by rw [h.campaigns]; exact hk)
      (by rw [h.slots]; exact hk)
  obtain ⟨-, -, -, hc, ⟨next, hnext, hs₁⟩, -⟩ := createCampaign_ok hcreate
  rw [h.campaigns] at hc
  rw [h.slots] at hnext
  obtain rfl : UInt64.ofNat (k + 1) = c := by
    rw [← UInt64.toNat_inj, hc, UInt64.toNat_ofNat_of_lt' hk]
  have hexec : Tx.exec ⟨envAt 10 owner, .createCampaign owner [78] [68] 1 2 100, replies⟩
      (runFrom 0 txs) = .ok (.u64 (.ofNat (k + 1)), s₁) := by
    show (direct Value.u64 (createCampaign _ _ _ _ _ _ _ _)).runReplies replies = _
    rw [direct, Callout.runReplies_done, hcreate]
    rfl
  have hrun₁ : runFrom 0 (txs ++ [⟨envAt 10 owner, .createCampaign owner [78] [68] 1 2 100,
      replies⟩]) = s₁ := by
    rw [runFrom_concat, applyTx_of_ok hexec]
  -- its coupon
  have hissuable : Issuable s₁.storage (.ofNat (k + 1)) [[65]] := by
    refine ⟨by decide, by decide, fun code _ ↦ ?_, ?_⟩
    · rw [hs₁]
      exact h.free _ _ (by omega)
    · rw [hs₁]
      show ((runFrom 0 txs).storage.tokCtr.getD 0).toNat + 1 < 2 ^ 64
      rw [h.coupons]
      exact hk
  have hcamp₁ : s₁.storage.campaign (.ofNat (k + 1)) =
      some (newCampaign (.ofNat (k + 1)) owner [78] [68] 1 2 100) := by
    rw [hs₁]
    exact Function.update_self _ _ _
  have hlive : (envAt 10 owner).timestamp ≤
      (newCampaign (.ofNat (k + 1)) owner [78] [68] 1 2 100).validUntil :=
    (by decide : (10 : UInt64) ≤ 100)
  have hsupply : (newCampaign (.ofNat (k + 1)) owner [78] [68] 1 2 100).minted.toNat +
      ([[65]] : List Bytes).length ≤
        (newCampaign (.ofNat (k + 1)) owner [78] [68] 1 2 100).totalSupply.toNat :=
    (by decide : (0 : UInt32).toNat + 1 ≤ (2 : UInt32).toNat)
  obtain ⟨ids, s₂, hissue⟩ := issueUnique_of_issuable hauth hcamp₁ rfl hlive (by decide) (by decide)
    hsupply hissuable
  obtain ⟨-, camp, minted, s₃, hcamp, -, -, -, -, hminted, -, hloop, hs₂, -⟩ :=
    issueUnique_ok hissue
  obtain rfl := Option.some.inj (hcamp₁.symm.trans hcamp)
  obtain ⟨_, rfl, hmints, -⟩ := mints_of_foldlM hloop
  have hrun₂ : runFrom 0 (txs ++ filling (.ofNat (k + 1))) = s₂ := by
    have happend : txs ++ filling (.ofNat (k + 1)) = (txs ++ [⟨envAt 10 owner,
        .createCampaign owner [78] [68] 1 2 100, replies⟩]) ++ [⟨envAt 10 owner,
          .issueUnique owner (.ofNat (k + 1)) [[65]], replies⟩] := by
      rw [List.append_assoc]
      rfl
    rw [happend]
    exact runFrom_issueUnique (hrun₁.symm ▸ hissue) replies
  have hframe := hmints.frame
  have hctr := hmints.tokCtr_eq
  rw [hrun₂, hs₂]
  refine ⟨?_, ?_, ?_, fun c _ hc' ↦ ?_, fun c ↦ ?_, fun c code hlt ↦ ?_⟩
  · rw [hframe, hs₁]
    exact hc
  · show (s₃.storage.tokCtr.getD 0).toNat = k + 1
    rw [hctr, hs₁]
    show ((runFrom 0 txs).storage.tokCtr.getD 0).toNat + 1 = k + 1
    rw [h.coupons]
  · rw [hframe, hs₁]
    show ((Function.update (runFrom 0 txs).storage.ownerCount owner (some next) owner).getD 0).toNat
      = k + 1
    rw [Function.update_self]
    exact hnext
  · obtain rfl : c = .ofNat (k + 1) := by rw [← UInt64.toNat_inj, hc', hc]
    have hone : minted = 1 := UInt32.toNat_inj.1 hminted
    exact ⟨_, Function.update_self _ _ _, rfl, rfl, hone, rfl⟩
  · rw [Option.eq_none_iff_forall_ne_some]
    intro t ht
    rcases hmints.codeIndex_origin ht with hold | ⟨-, n, hcode, -⟩
    · rw [hs₁] at hold
      exact absurd ((h.second c).symm.trans hold) (Option.some_ne_none t).symm
    · have hmem := List.mem_of_getElem? hcode
      exact absurd hmem (by decide)
  · rw [Option.eq_none_iff_forall_ne_some]
    intro t ht
    rcases hmints.codeIndex_origin ht with hold | ⟨rfl, -⟩
    · rw [hs₁] at hold
      exact absurd ((h.free c code (by omega)).symm.trans hold) (Option.some_ne_none t).symm
    · omega

/-- As many as there are numbers. By induction on how many. -/
theorem exists_filled {k : ℕ} (hk : k < 2 ^ 64) :
    ∃ txs, (∀ tx ∈ txs, tx.env = envAt 10 owner) ∧ Filled k (runFrom 0 txs).storage := by
  induction k with
  | zero => exact ⟨[], fun _ h ↦ absurd h List.not_mem_nil, filled_empty⟩
  | succ k ih =>
    obtain ⟨txs, henv, hfilled⟩ := ih (Nat.lt_of_succ_lt hk)
    refine ⟨txs ++ filling (.ofNat (k + 1)), fun tx htx ↦ ?_, hfilled.succ hk⟩
    rcases List.mem_append.1 htx with hold | hnew
    · exact henv tx hold
    · rw [filling, List.mem_cons, List.mem_singleton] at hnew
      rcases hnew with rfl | rfl <;> rfl

end Sample

/-! ### The theorem -/

/-- **A batch is issued whole, or not at all.** After every run an owner's batch is issued exactly
when it is one that its campaign takes, as long as the counter has numbers for it. It gets the next
numbers, in order; each of its codes leads to its coupon, not redeemed and of this second; and the
campaign's figure grows by its size. A batch that is turned away changes nothing. -/
theorem issue_unique_exact {txs : List Tx} (hord : Ordered txs) (ttl : ℕ) (env : Env)
    (owner : Address) (c : UInt64) (codes : List Bytes) (hauth : owner ∈ env.auths) :
    ((∃ ids s', issueUnique env owner c codes (runFrom ttl txs) = .ok (ids, s')) ↔
      TakesBatch ttl txs env owner c codes ∧
        (totalMinted (runFrom ttl txs)).toNat + codes.length < 2 ^ 64) ∧
    (∀ ids s', issueUnique env owner c codes (runFrom ttl txs) = .ok (ids, s') →
      ids.map UInt64.toNat =
        List.range' ((totalMinted (runFrom ttl txs)).toNat + 1) codes.length ∧
      (∀ (k : ℕ) code t, codes[k]? = some code → ids[k]? = some t →
        verify c code s' = .ok (newToken t c code env.timestamp)) ∧
      (∃ camp minted, (runFrom ttl txs).storage.campaign c = some camp ∧
        s'.storage.campaign c = some { camp with minted } ∧
        minted.toNat = camp.minted.toNat + codes.length) ∧
      ∀ replies, runFrom ttl (txs ++ [⟨env, .issueUnique owner c codes, replies⟩]) = s') ∧
    (∀ f, issueUnique env owner c codes (runFrom ttl txs) = .error f → ∀ replies,
      runFrom ttl (txs ++ [⟨env, .issueUnique owner c codes, replies⟩]) = runFrom ttl txs) := by
  refine ⟨issueUnique_iff hord hauth, fun ids s' h ↦ ?_, fun f h ↦ runFrom_issueUnique_of_error h⟩
  obtain ⟨-, camp, minted, s₁, hcamp, -, -, -, -, hminted, -, hloop, hs', -⟩ := issueUnique_ok h
  obtain ⟨_, rfl, hmints, -⟩ := mints_of_foldlM hloop
  refine ⟨hmints.ids_eq, fun k code t hcode ht ↦ ?_, ⟨camp, minted, hcamp, ?_, hminted⟩,
    runFrom_issueUnique h⟩
  · rw [verify_eq_ok_iff, hs']
    exact ⟨t, hmints.codeIndex_of_getElem hcode ht, hmints.token_of_getElem hcode ht⟩
  · rw [hs']
    exact Function.update_self _ _ _

/-- After the first two transactions of the sample history the owner issues its two codes as coupons
1 and 2, and no batch in which one of them comes twice. -/
theorem issue_unique_exact_sample :
    (∃ ids s', issueUnique (Sample.envAt 12 Sample.owner) Sample.owner 1
      [Sample.code₁, Sample.code₂] (runFrom 0 (Sample.history.take 2)) = .ok (ids, s')) ∧
    ¬∃ ids s', issueUnique (Sample.envAt 12 Sample.owner) Sample.owner 1
      [Sample.code₁, Sample.code₂, Sample.code₁] (runFrom 0 (Sample.history.take 2)) =
        .ok (ids, s') := by
  have hord : Ordered (Sample.history.take 2) := Sample.ordered_history.take 2
  have h₁ := issue_unique_exact hord 0 (Sample.envAt 12 Sample.owner) Sample.owner 1
    [Sample.code₁, Sample.code₂] (by decide)
  have h₂ := issue_unique_exact hord 0 (Sample.envAt 12 Sample.owner) Sample.owner 1
    [Sample.code₁, Sample.code₂, Sample.code₁] (by decide)
  refine ⟨h₁.1.2 ⟨⟨⟨_, rfl, by decide, by decide, by decide⟩, by decide, by decide, by decide, ?_⟩,
    by decide⟩, fun h ↦ absurd (h₂.1.1 h).1.nodup (by decide)⟩
  intro code hmem
  refine (codeIndex_eq_none_iff hord).1 ?_
  rcases List.mem_cons.1 hmem with rfl | hmem
  · decide
  · obtain rfl := List.mem_singleton.1 hmem
    decide

/-- A run creates a campaign for two coupons, and issues one of them, for every number there is. The
second coupon of the last campaign cannot be issued. -/
theorem numbers_used_up :
    ∃ txs, Ordered txs ∧
      TakesBatch 0 txs (Sample.envAt 10 Sample.owner) Sample.owner (.ofNat (2 ^ 64 - 1)) [[66]] ∧
      ¬∃ ids s', issueUnique (Sample.envAt 10 Sample.owner) Sample.owner (.ofNat (2 ^ 64 - 1))
        [[66]] (runFrom 0 txs) = .ok (ids, s') := by
  obtain ⟨txs, henv, hfilled⟩ := Sample.exists_filled (k := 2 ^ 64 - 1) (by decide)
  have hord : Ordered txs := by
    refine List.pairwise_iff_forall_sublist.2 fun {a b} hab ↦ ?_
    rw [henv a (hab.subset List.mem_cons_self),
      henv b (hab.subset (List.mem_cons_of_mem _ List.mem_cons_self))]
    exact UInt64.le_refl _
  obtain ⟨camp, hcamp, howner, huntil, hminted, hsupply⟩ :=
    hfilled.last (.ofNat (2 ^ 64 - 1)) (by decide) (by decide)
  refine ⟨txs, hord, ⟨⟨camp, hcamp, howner, ?_, ?_⟩, by decide, by decide, by decide, ?_⟩, ?_⟩
  · rw [huntil]
    decide
  · rw [hminted, hsupply]
    decide
  · intro code hmem
    obtain rfl := List.mem_singleton.1 hmem
    exact (codeIndex_eq_none_iff hord).1 (hfilled.second _)
  · intro h
    have hroom := ((issueUnique_iff hord (List.mem_singleton_self Sample.owner)).1 h).2
    have hall : (totalMinted (runFrom 0 txs)).toNat = 2 ^ 64 - 1 := hfilled.coupons
    rw [hall] at hroom
    exact absurd hroom (by decide)

end Soroticket
