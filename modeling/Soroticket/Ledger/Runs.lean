import Soroticket.Ledger.Coupons
import Soroticket.Ledger.Tallies

/-!
# Calls, effects and runs

A `Call` names an entry point with its arguments, and a `Tx` is a call together with the environment
it runs in and the replies of the payout token. The host forbids a contract to be re-entered, so a
run is a list of transactions, each committed or rolled back before the next one starts; what a
token could do if it *could* re-enter is the subject of `Ledger.Settlement`.

`Effect` is the inversion of the whole interface, stated once: for each entry point that can change
a stored value, the guards its success implies, the stored values it leaves and the events it
publishes; every other success changes nothing (`Effect.unchanged`). `exec_effect` is the only
theorem that looks inside the entry points, and every invariant of the ledger is an induction over
a run with a case analysis on `Effect`.
-/

namespace Soroticket

open Outcome

/-! ### The interface -/

/-- An entry point, with its arguments. -/
inductive Call where
  | createCampaign (owner : Address) (name discountType : Bytes) (discountValue : UInt64)
      (totalSupply : UInt32) (validUntil : UInt64)
  | getCampaign (campaignId : UInt64)
  | campaignsOf (owner : Address)
  | campaignsPage (owner : Address) (cursor : UInt64) (limit : UInt32)
  | campaignStats (campaignId : UInt64)
  | bumpCampaign (campaignId : UInt64)
  | bumpCodes (campaignId : UInt64) (codes : List Bytes)
  | bumpDelegates (campaignId : UInt64) (delegates : List Address)
  | addDelegate (owner : Address) (campaignId : UInt64) (delegate : Address)
  | removeDelegate (owner : Address) (campaignId : UInt64) (delegate : Address)
  | isDelegate (campaignId : UInt64) (who : Address)
  | issueUnique (owner : Address) (campaignId : UInt64) (codes : List Bytes)
  | redeemUnique (authorizer : Address) (campaignId : UInt64) (code : Bytes)
      (redeemerRefHash : BytesN 32)
  | verify (campaignId : UInt64) (code : Bytes)
  | isValid (campaignId : UInt64) (code : Bytes)
  | totalCampaigns
  | totalMinted
  | registerShared (owner : Address) (campaignId : UInt64) (code : Bytes)
      (attributedTo payoutToken : Option Address) (payoutRate : I128)
  | getShared (campaignId : UInt64) (code : Bytes)
  | commitTally (owner : Address) (campaignId : UInt64) (code : Bytes) (period : UInt64)
      (count : UInt32) (merkleRoot : BytesN 32) (perAttribution : AttributionMap)
  | getTally (campaignId : UInt64) (code : Bytes) (period : UInt64)
  | isSettled (campaignId : UInt64) (code : Bytes) (period : UInt64)
  | computePayouts (campaignId : UInt64) (code : Bytes) (period : UInt64)
  | settle (owner : Address) (campaignId : UInt64) (code : Bytes) (period : UInt64)
  | bumpTally (campaignId : UInt64) (code : Bytes) (periods : List UInt64)
  deriving DecidableEq

/-- Whether an entry point may change a stored value. -/
def Call.updates : Call → Bool
  | createCampaign .. | addDelegate .. | removeDelegate .. | issueUnique .. | redeemUnique ..
  | registerShared .. | commitTally .. | settle .. => true
  | _ => false

/-- What a call returns. -/
inductive Value where
  | unit
  | u64 (n : UInt64)
  | bool (b : Bool)
  | ids (l : List UInt64)
  | campaign (c : Campaign)
  | stats (st : CampaignStats)
  | coupon (t : CouponToken)
  | receipt (r : RedemptionReceipt)
  | shared (c : SharedCode)
  | tally (t : TallyCommitment)
  | payouts (l : List Payout)
  deriving DecidableEq

/-- A call that only reads. -/
def reading (r : Outcome Error Value) (s : ContractState) : Interaction Value :=
  .done (r.map (·, s))

/-- A call that calls no other contract. -/
def direct {α : Type} (f : α → Value) (r : Outcome Error (α × ContractState)) :
    Interaction Value :=
  .done (r.map fun p ↦ (f p.1, p.2))

/-- The interface: run an entry point. -/
def Call.exec (env : Env) (s : ContractState) : Call → Interaction Value
  | createCampaign owner name discountType discountValue totalSupply validUntil =>
    direct .u64
      (Soroticket.createCampaign env owner name discountType discountValue totalSupply validUntil s)
  | getCampaign c => reading ((Soroticket.getCampaign c s).map .campaign) s
  | campaignsOf owner => reading ((Soroticket.campaignsOf owner s).map .ids) s
  | campaignsPage owner cursor limit =>
    reading ((Soroticket.campaignsPage owner cursor limit s).map .ids) s
  | campaignStats c => reading ((Soroticket.campaignStats env c s).map .stats) s
  | bumpCampaign c => direct (fun _ ↦ .unit) (Soroticket.bumpCampaign env c s)
  | bumpCodes c codes => direct (fun _ ↦ .unit) (Soroticket.bumpCodes env c codes s)
  | bumpDelegates c ds => direct (fun _ ↦ .unit) (Soroticket.bumpDelegates env c ds s)
  | addDelegate owner c d => direct (fun _ ↦ .unit) (Soroticket.addDelegate env owner c d s)
  | removeDelegate owner c d => direct (fun _ ↦ .unit) (Soroticket.removeDelegate env owner c d s)
  | isDelegate c who => reading (.ok (.bool (Soroticket.isDelegate c who s))) s
  | issueUnique owner c codes => direct .ids (Soroticket.issueUnique env owner c codes s)
  | redeemUnique who c code ref =>
    direct .receipt (Soroticket.redeemUnique env who c code ref s)
  | verify c code => reading ((Soroticket.verify c code s).map .coupon) s
  | isValid c code => reading (.ok (.bool (Soroticket.isValid env c code s))) s
  | totalCampaigns => reading (.ok (.u64 (Soroticket.totalCampaigns s))) s
  | totalMinted => reading (.ok (.u64 (Soroticket.totalMinted s))) s
  | registerShared owner c code attributedTo payoutToken rate =>
    direct (fun _ ↦ .unit)
      (Soroticket.registerShared env owner c code attributedTo payoutToken rate s)
  | getShared c code => reading ((Soroticket.getShared c code s).map .shared) s
  | commitTally owner c code period count root m =>
    direct (fun _ ↦ .unit) (Soroticket.commitTally env owner c code period count root m s)
  | getTally c code period => reading ((Soroticket.getTally c code period s).map .tally) s
  | isSettled c code period => reading (.ok (.bool (Soroticket.isSettled c code period s))) s
  | computePayouts c code period =>
    reading ((Soroticket.computePayouts c code period s).map .payouts) s
  | settle owner c code period => (Soroticket.settle env owner c code period s).map .payouts
  | bumpTally c code periods => direct (fun _ ↦ .unit) (Soroticket.bumpTally env c code periods s)

/-- A transaction: a call in an environment, with the replies of the payout token. -/
structure Tx where
  env : Env
  call : Call
  /-- The answer to the `n`-th token call, or `none` where the token traps. -/
  replies : ℕ → (op : TokenCall) → Option op.Answer

/-- Run a transaction's call to its end. -/
def Tx.exec (tx : Tx) (s : ContractState) : Outcome Error (Value × ContractState) :=
  (tx.call.exec tx.env s).runReplies tx.replies

/-! ### Runs -/

/-- The timestamps of a list of transactions do not decrease. -/
def Ordered (txs : List Tx) : Prop :=
  txs.Pairwise fun a b ↦ a.env.timestamp ≤ b.env.timestamp

/-- The state after a list of transactions on a contract deployed with the given lifetime. -/
def runFrom (ttl : ℕ) (txs : List Tx) : ContractState :=
  runAll Tx.exec (ContractState.deployed ttl) txs

/-- The states of the contract: what some list of transactions at non-decreasing timestamps
leaves. -/
def Reachable (s : ContractState) : Prop :=
  ∃ ttl txs, Ordered txs ∧ s = runFrom ttl txs

/-! ### Effects -/

/-- The stored values after a batch of codes is minted, one code a round. -/
inductive Mints (c now : UInt64) : Storage → List Bytes → List UInt64 → Storage → Prop
  | nil (s : Storage) : Mints c now s [] [] s
  | cons {s s' : Storage} {code : Bytes} {codes : List Bytes} {t : UInt64} {ids : List UInt64}
      (hne : code ≠ []) (hlen : code.length ≤ maxCodeLen) (hfree : s.codeIndex (c, code) = none)
      (ht : t.toNat = (s.tokCtr.getD 0).toNat + 1)
      (hrest : Mints c now (s.mint t c code now) codes ids s') :
      Mints c now s (code :: codes) (t :: ids) s'

/-- Minting leaves every map alone but the coupons and their index. -/
theorem Mints.frame {c now : UInt64} {s s' : Storage} {codes : List Bytes} {ids : List UInt64}
    (h : Mints c now s codes ids s') :
    s' = { s with tokCtr := s'.tokCtr, token := s'.token, codeIndex := s'.codeIndex } := by
  induction h with
  | nil s => rfl
  | cons hne hlen hfree ht hrest ih => rw [ih]; rfl

/-- What a successful call does: the guards it passed, the stored values it leaves, and the events
it publishes. -/
inductive Effect (env : Env) : Call → Value → Storage → Storage → List Event → Prop
  /-- Reads and lifetime extensions change no value and publish nothing. -/
  | unchanged {call : Call} {v : Value} {s : Storage} (hcall : call.updates = false) :
      Effect env call v s s []
  | createCampaign {owner : Address} {name discountType : Bytes} {discountValue : UInt64}
      {totalSupply : UInt32} {validUntil id nextCount : UInt64} {s : Storage}
      (hauth : owner ∈ env.auths)
      (hterms : ¬(totalSupply = 0 ∨ name = [] ∨ maxNameLen < name.length ∨ discountType = [] ∨
        maxDiscountTypeLen < discountType.length))
      (htime : ¬validUntil ≤ env.timestamp)
      (hid : id.toNat = (s.campCtr.getD 0).toNat + 1)
      (hcount : nextCount.toNat = ((s.ownerCount owner).getD 0).toNat + 1) :
      Effect env
        (.createCampaign owner name discountType discountValue totalSupply validUntil) (.u64 id) s
        { s with
          campCtr := some id
          campaign := Function.update s.campaign id (some
            (newCampaign id owner name discountType discountValue totalSupply validUntil))
          ownerCampaign := Function.update s.ownerCampaign
            (owner, (s.ownerCount owner).getD 0) (some id)
          campaignOwnerSlot := Function.update s.campaignOwnerSlot id
            (some ((s.ownerCount owner).getD 0))
          ownerCount := Function.update s.ownerCount owner (some nextCount) }
        [.campaignCreated id owner name totalSupply]
  | addDelegate {owner delegate : Address} {c : UInt64} {s : Storage} {camp : Campaign}
      (hauth : owner ∈ env.auths) (hcamp : s.campaign c = some camp) (howner : camp.owner = owner) :
      Effect env (.addDelegate owner c delegate) .unit s
        { s with delegate := Function.update s.delegate (c, delegate) (some true) }
        [.delegateAdded c delegate]
  | removeDelegate {owner delegate : Address} {c : UInt64} {s : Storage} {camp : Campaign}
      (hauth : owner ∈ env.auths) (hcamp : s.campaign c = some camp) (howner : camp.owner = owner) :
      Effect env (.removeDelegate owner c delegate) .unit s
        { s with delegate := Function.update s.delegate (c, delegate) none }
        [.delegateRemoved c delegate]
  | issueUnique {owner : Address} {c : UInt64} {codes : List Bytes} {ids : List UInt64}
      {s s₁ : Storage} {camp : Campaign} {newMinted : UInt32}
      (hauth : owner ∈ env.auths) (hcamp : s.campaign c = some camp) (howner : camp.owner = owner)
      (htime : env.timestamp ≤ camp.validUntil) (hne : codes.length ≠ 0)
      (hbatch : codes.length ≤ maxBatch)
      (hminted : newMinted.toNat = camp.minted.toNat + codes.length)
      (hsupply : newMinted ≤ camp.totalSupply) (hmints : Mints c env.timestamp s codes ids s₁) :
      Effect env (.issueUnique owner c codes) (.ids ids) s
        { s₁ with
          campaign := Function.update s₁.campaign c (some { camp with minted := newMinted }) }
        (ids.map fun t ↦ .couponIssued t c)
  | redeemUnique {who : Address} {c t : UInt64} {code : Bytes} {ref : BytesN 32} {s : Storage}
      {tok : CouponToken} {camp : Campaign} {burned : UInt32}
      (hauth : who ∈ env.auths) (hindex : s.codeIndex (c, code) = some t)
      (htok : s.token t = some tok) (hunburned : tok.isBurned = false)
      (hcamp : s.campaign tok.campaignId = some camp)
      (hwho : who = camp.owner ∨ s.delegate (tok.campaignId, who) = some true)
      (htime : env.timestamp ≤ camp.validUntil)
      (hburned : burned.toNat = camp.burned.toNat + 1) :
      Effect env (.redeemUnique who c code ref) (.receipt (receiptFor camp t code ref env)) s
        { s with
          token := Function.update s.token t (some (tok.burn ref env.timestamp))
          campaign := Function.update s.campaign tok.campaignId (some { camp with burned }) }
        [.couponBurned t env.sequence]
  | registerShared {owner : Address} {c : UInt64} {code : Bytes}
      {attributedTo payoutToken : Option Address} {rate : I128} {s : Storage} {camp : Campaign}
      (hauth : owner ∈ env.auths) (hcamp : s.campaign c = some camp) (howner : camp.owner = owner)
      (htime : env.timestamp ≤ camp.validUntil) (hne : code ≠ [])
      (hlen : code.length ≤ maxCodeLen) (hterms : ValidTerms attributedTo payoutToken rate)
      (hfree : s.shared (c, code) = none) :
      Effect env (.registerShared owner c code attributedTo payoutToken rate) .unit s
        { s with
          shared := Function.update s.shared (c, code)
            (some ⟨c, code, attributedTo, payoutToken, rate, env.timestamp⟩) }
        [.sharedRegistered c attributedTo]
  | commitTally {owner : Address} {c period : UInt64} {code : Bytes} {count : UInt32}
      {root : BytesN 32} {m : AttributionMap} {s : Storage} {camp : Campaign} {sc : SharedCode}
      (hauth : owner ∈ env.auths) (hcamp : s.campaign c = some camp) (howner : camp.owner = owner)
      (hshared : s.shared (c, code) = some sc)
      (hrule : AttributionRule sc.attributedTo count m.entries)
      (hfree : s.tally (c, code, period) = none) :
      Effect env (.commitTally owner c code period count root m) .unit s
        { s with
          tally := Function.update s.tally (c, code, period) (some ⟨period, count, root, m⟩) }
        [.tallyCommitted c period count]
  | settle {owner : Address} {c period : UInt64} {code : Bytes} {plan : SettlePlan} {s : Storage}
      {camp : Campaign} {sc : SharedCode} {tally : TallyCommitment}
      (hcamp : s.campaign c = some camp) (howner : camp.owner = owner)
      (hshared : s.shared (c, code) = some sc) (htoken : sc.payoutToken = some plan.token)
      (hrate : 0 < sc.payoutRate) (htally : s.tally (c, code, period) = some tally)
      (hfree : s.settled (c, code, period) = none) (hplan : plan.payoutRate = sc.payoutRate)
      (hloop : tally.perAttribution.entries.foldlM (addSettlement sc.payoutRate) ([], 0) =
        .ok (plan.out, plan.total)) :
      Effect env (.settle owner c code period) (.payouts plan.out) s
        { s with settled := Function.update s.settled (c, code, period) (some true) }
        [.tallySettled c period plan.token plan.payoutRate]

/-! ### The inversion -/

/-- The loop of `issue_unique` mints its codes one by one. -/
theorem mints_of_foldlM {env : Env} {c : UInt64} {codes : List Bytes} :
    ∀ {s s' : ContractState} {ids ids' : List UInt64},
      codes.foldlM (mintCode env c) (s, ids) = .ok (s', ids') →
        ∃ new, ids' = ids ++ new ∧ Mints c env.timestamp s.storage codes new s'.storage ∧
          s'.events = s.events ++ new.map fun t ↦ .couponIssued t c := by
  induction codes with
  | nil =>
    intro s s' ids ids' h
    simp only [List.foldlM_nil, pure_eq_ok, Except.ok.injEq, Prod.mk.injEq] at h
    obtain ⟨rfl, rfl⟩ := h
    exact ⟨[], by simp, .nil _, by simp⟩
  | cons code codes ih =>
    intro s s' ids ids' h
    rw [List.foldlM_cons, bind_eq_ok_iff] at h
    obtain ⟨⟨s₁, ids₁⟩, hround, hrest⟩ := h
    obtain ⟨hne, hlen, hfree, t, ht, rfl, hs₁, hev₁⟩ := mintCode_ok hround
    obtain ⟨new, rfl, hmints, hev⟩ := ih hrest
    refine ⟨t :: new, by simp, .cons hne hlen hfree ht (hs₁ ▸ hmints), ?_⟩
    rw [hev, hev₁, List.append_assoc]
    rfl

/-- After the checks a settlement can only end with its planned payouts and its event: the token
calls neither read nor write the contract's storage. -/
theorem settlePayments_runWith {τ : Type} {h : (op : TokenCall) → τ → Option (op.Answer × τ)}
    {env : Env} {owner : Address} {c period : UInt64} {plan : SettlePlan} {s s' : ContractState}
    {t t' : τ} {out : List Payout}
    (hrun : (settlePayments env owner c period plan s).runWith h t = .ok (out, s', t')) :
    out = plan.out ∧ s' = s.publish (.tallySettled c period plan.token plan.payoutRate) := by
  have htransfers : ∀ (ps : List Payout) (s : ContractState) (t : τ),
      (transferAll plan.token env.currentContract owner (fun s ↦ .done (.ok (plan.out,
        s.publish (.tallySettled c period plan.token plan.payoutRate)))) ps s).runWith h t =
          .ok (out, s', t') →
      out = plan.out ∧ s' = s.publish (.tallySettled c period plan.token plan.payoutRate) := by
    intro ps
    induction ps with
    | nil =>
      intro s t hend
      simp only [transferAll, Callout.runWith, Except.ok.injEq, Prod.mk.injEq] at hend
      exact ⟨hend.1.symm, hend.2.1.symm⟩
    | cons p ps ih =>
      intro s t hend
      rw [transferAll, Callout.runWith] at hend
      split at hend
      · exact ih s _ hend
      · simp at hend
  rw [settlePayments, Callout.runWith] at hrun
  split at hrun
  · split at hrun
    · simp [Callout.runWith] at hrun
    · rw [Callout.runWith] at hrun
      split at hrun
      · split at hrun
        · simp [Callout.runWith] at hrun
        · exact htransfers _ _ _ hrun
      · simp at hrun
  · simp at hrun

theorem settle_ok {τ : Type} {h : (op : TokenCall) → τ → Option (op.Answer × τ)} {env : Env}
    {owner : Address} {c period : UInt64} {code : Bytes} {s s' : ContractState} {t t' : τ}
    {out : List Payout}
    (hrun : (settle env owner c code period s).runWith h t = .ok (out, s', t')) :
    ∃ plan s₁, settleChecks env owner c code period s = .ok (plan, s₁) ∧ out = plan.out ∧
      s' = s₁.publish (.tallySettled c period plan.token plan.payoutRate) := by
  rw [settle] at hrun
  split at hrun
  · simp [Callout.runWith] at hrun
  · next plan s₁ hchecks =>
    obtain ⟨hout, hs'⟩ := settlePayments_runWith hrun
    exact ⟨plan, s₁, hchecks, hout, hs'⟩

theorem reading_ok {replies : ℕ → (op : TokenCall) → Option op.Answer} {r : Outcome Error Value}
    {s s' : ContractState} {v : Value} (h : (reading r s).runReplies replies = .ok (v, s')) :
    s' = s := by
  rw [reading, Callout.runReplies_done] at h
  rcases r with f | w
  · simp [Except.map] at h
  · simp only [Except.map, Except.ok.injEq, Prod.mk.injEq] at h
    exact h.2.symm

theorem direct_ok {α : Type} {f : α → Value} {replies : ℕ → (op : TokenCall) → Option op.Answer}
    {r : Outcome Error (α × ContractState)} {s' : ContractState} {v : Value}
    (h : (direct f r).runReplies replies = .ok (v, s')) : ∃ a, r = .ok (a, s') ∧ v = f a := by
  rw [direct, Callout.runReplies_done] at h
  rcases r with f | ⟨a, s⟩
  · simp [Except.map] at h
  · simp only [Except.map, Except.ok.injEq, Prod.mk.injEq] at h
    obtain ⟨rfl, rfl⟩ := h
    exact ⟨a, rfl, rfl⟩

/-- A call that keeps the data has the trivial effect. -/
theorem SameData.effect {env : Env} {call : Call} {v : Value} {s s' : ContractState}
    (h : SameData s s') (hcall : call.updates = false) :
    ∃ evs, Effect env call v s.storage s'.storage evs ∧ s'.events = s.events ++ evs :=
  ⟨[], by rw [h.1]; exact .unchanged hcall, by rw [h.2, List.append_nil]⟩

/-- **Every success has its effect.** -/
theorem exec_effect {tx : Tx} {s s' : ContractState} {v : Value} (h : tx.exec s = .ok (v, s')) :
    ∃ evs, Effect tx.env tx.call v s.storage s'.storage evs ∧ s'.events = s.events ++ evs := by
  obtain ⟨env, call, replies⟩ := tx
  change (call.exec env s).runReplies replies = .ok (v, s') at h
  cases call with
  | createCampaign owner name discountType discountValue totalSupply validUntil =>
    obtain ⟨id, hid, rfl⟩ := direct_ok h
    obtain ⟨hauth, hterms, htime, hctr, ⟨next, hnext, hs⟩, hev⟩ := createCampaign_ok hid
    exact ⟨_, hs ▸ .createCampaign hauth hterms htime hctr hnext, hev⟩
  | addDelegate owner c d =>
    obtain ⟨u, hu, rfl⟩ := direct_ok (f := fun _ ↦ .unit) h
    obtain ⟨hauth, ⟨camp, hcamp, howner⟩, hs, hev⟩ := addDelegate_ok hu
    exact ⟨_, hs ▸ .addDelegate hauth hcamp howner, hev⟩
  | removeDelegate owner c d =>
    obtain ⟨u, hu, rfl⟩ := direct_ok (f := fun _ ↦ .unit) h
    obtain ⟨hauth, ⟨camp, hcamp, howner⟩, hs, hev⟩ := removeDelegate_ok hu
    exact ⟨_, hs ▸ .removeDelegate hauth hcamp howner, hev⟩
  | issueUnique owner c codes =>
    obtain ⟨ids, hids, rfl⟩ := direct_ok h
    obtain ⟨hauth, camp, n, s₁, hcamp, howner, htime, hne, hbatch, hn, hsupply, hloop, hs, hev⟩ :=
      issueUnique_ok hids
    obtain ⟨new, rfl, hmints, hev₁⟩ := mints_of_foldlM hloop
    exact ⟨_, hs ▸ .issueUnique hauth hcamp howner htime hne hbatch hn hsupply hmints,
      hev.trans hev₁⟩
  | redeemUnique who c code ref =>
    obtain ⟨r, hr, rfl⟩ := direct_ok h
    obtain ⟨hauth, t, tok, camp, burned, hindex, htok, hun, hcamp, hwho, htime, hb, rfl, hs, hev⟩ :=
      redeemUnique_ok hr
    exact ⟨_, hs ▸ .redeemUnique hauth hindex htok hun hcamp
      (hwho.imp_right isDelegateInternal_iff.1) htime hb, hev⟩
  | registerShared owner c code attributedTo payoutToken rate =>
    obtain ⟨u, hu, rfl⟩ := direct_ok (f := fun _ ↦ .unit) h
    obtain ⟨hauth, ⟨camp, hcamp, howner, htime⟩, hne, hlen, hterms, hfree, hs, hev⟩ :=
      registerShared_ok hu
    exact ⟨_, hs ▸ .registerShared hauth hcamp howner htime hne hlen hterms hfree, hev⟩
  | commitTally owner c code period count root m =>
    obtain ⟨u, hu, rfl⟩ := direct_ok (f := fun _ ↦ .unit) h
    obtain ⟨hauth, ⟨camp, hcamp, howner⟩, ⟨sc, hshared, hrule⟩, hfree, hs, hev⟩ := commitTally_ok hu
    exact ⟨_, hs ▸ .commitTally hauth hcamp howner hshared hrule hfree, hev⟩
  | settle owner c code period =>
    obtain ⟨n, hn⟩ := Callout.runReplies_eq_ok_iff.1 h
    change ((settle env owner c code period s).map Value.payouts).runWith _ 0 = _ at hn
    rw [Callout.runWith_map] at hn
    rcases hrun : (settle env owner c code period s).runWith
        (fun op n ↦ (replies n op).map (·, n + 1)) 0 with f | ⟨out, s₂, n₂⟩
    · simp [hrun, Except.map] at hn
    · simp only [hrun, Except.map, Except.ok.injEq, Prod.mk.injEq] at hn
      obtain ⟨rfl, rfl, -⟩ := hn
      obtain ⟨plan, s₁, hchecks, rfl, rfl⟩ := settle_ok hrun
      obtain ⟨⟨camp, hcamp, howner⟩, sc, tally, hshared, htoken, hrate, htally, hfree, hplan, hloop,
        rfl⟩ := settleChecks_eq_ok_iff.1 hchecks
      exact ⟨_, .settle hcamp howner hshared htoken hrate htally hfree hplan hloop, rfl⟩
  | bumpCampaign c =>
    obtain ⟨u, hu, rfl⟩ := direct_ok (f := fun _ ↦ .unit) h
    exact (bumpCampaign_ok hu).effect rfl
  | bumpCodes c codes =>
    obtain ⟨u, hu, rfl⟩ := direct_ok (f := fun _ ↦ .unit) h
    exact (bumpCodes_ok hu).effect rfl
  | bumpDelegates c ds =>
    obtain ⟨u, hu, rfl⟩ := direct_ok (f := fun _ ↦ .unit) h
    exact (bumpDelegates_ok hu).effect rfl
  | bumpTally c code periods =>
    obtain ⟨u, hu, rfl⟩ := direct_ok (f := fun _ ↦ .unit) h
    exact (bumpTally_ok hu).effect rfl
  | getCampaign | campaignsOf | campaignsPage | campaignStats | isDelegate | verify | isValid
  | totalCampaigns | totalMinted | getShared | getTally | isSettled | computePayouts =>
    obtain rfl := reading_ok h
    exact (SameData.refl _).effect rfl

/-! ### Induction over runs -/

theorem runFrom_concat (ttl : ℕ) (txs : List Tx) (tx : Tx) :
    runFrom ttl (txs ++ [tx]) = applyTx Tx.exec (runFrom ttl txs) tx :=
  runAll_concat _ _ _ _

/-- A failed transaction changes nothing; a successful one has its effect. -/
theorem runFrom_concat_cases (ttl : ℕ) (txs : List Tx) (tx : Tx) :
    (∃ v s' evs, tx.exec (runFrom ttl txs) = .ok (v, s') ∧ runFrom ttl (txs ++ [tx]) = s' ∧
        Effect tx.env tx.call v (runFrom ttl txs).storage s'.storage evs ∧
        s'.events = (runFrom ttl txs).events ++ evs) ∨
      ((∃ f, tx.exec (runFrom ttl txs) = .error f) ∧
        runFrom ttl (txs ++ [tx]) = runFrom ttl txs) := by
  rw [runFrom_concat]
  rcases applyTx_cases Tx.exec (runFrom ttl txs) tx with ⟨v, s', h, happ⟩ | ⟨hf, happ⟩
  · obtain ⟨evs, heff, hev⟩ := exec_effect h
    exact Or.inl ⟨v, s', evs, h, happ, heff, hev⟩
  · exact Or.inr ⟨hf, happ⟩

theorem Ordered.of_concat {txs : List Tx} {tx : Tx} (h : Ordered (txs ++ [tx])) :
    Ordered txs ∧ ∀ tx' ∈ txs, tx'.env.timestamp ≤ tx.env.timestamp := by
  obtain ⟨h₁, -, h₂⟩ := List.pairwise_append.1 h
  exact ⟨h₁, fun tx' htx' ↦ h₂ tx' htx' tx (List.mem_singleton_self tx)⟩

/-- **The invariant rule of the ledger.** `P` may mention the transactions run so far; it survives
a failure because nothing changes, and a success by its effect. -/
theorem runFrom_induction {P : List Tx → Storage → Prop} (ttl : ℕ) (hinit : P [] Storage.empty)
    (hskip : ∀ txs tx s, P txs s → P (txs ++ [tx]) s)
    (hstep : ∀ txs tx v s s' evs, (∀ tx' ∈ txs, tx'.env.timestamp ≤ tx.env.timestamp) → P txs s →
      Effect tx.env tx.call v s s' evs → P (txs ++ [tx]) s') :
    ∀ txs, Ordered txs → P txs (runFrom ttl txs).storage := by
  intro txs hord
  show P txs (runAll Tx.exec (ContractState.deployed ttl) txs).storage
  refine runAll_induction (P := fun txs (s : ContractState) ↦ Ordered txs → P txs s.storage)
    (fun _ ↦ hinit) ?_ ?_ txs hord
  · intro txs tx v s' ih hexec hord
    obtain ⟨hord', hlast⟩ := hord.of_concat
    obtain ⟨evs, heff, -⟩ := exec_effect hexec
    exact hstep txs tx v _ _ evs hlast (ih hord') heff
  · intro txs tx f ih _ hord
    exact hskip txs tx _ (ih hord.of_concat.1)

/-- What holds of the empty storage and survives every effect holds of every reachable state. -/
theorem Reachable.induction {P : Storage → Prop} (hinit : P Storage.empty)
    (hstep : ∀ env call v s s' evs, P s → Effect env call v s s' evs → P s') {s : ContractState}
    (h : Reachable s) : P s.storage := by
  obtain ⟨ttl, txs, hord, rfl⟩ := h
  exact runFrom_induction (P := fun _ s ↦ P s) ttl hinit (fun _ _ _ h ↦ h)
    (fun _ tx v s s' evs _ hP heff ↦ hstep tx.env tx.call v s s' evs hP heff) txs hord

/-! ### A sample history

One campaign from its creation to a settled period, for the concrete instances of the theorems
about runs. -/

namespace Sample

/-- The campaign's owner. -/
def owner : Address := .account (.replicate 32 1)

/-- A delegate of the campaign. -/
def cashier : Address := .account (.replicate 32 2)

/-- The target of the shared code. -/
def promoter : Address := .account (.replicate 32 3)

/-- The payout token. -/
def token : Address := .contract (.replicate 32 4)

/-- An environment at a time, authorized by one address. -/
def envAt (now : UInt64) (who : Address) : Env :=
  { timestamp := now, sequence := 7, auths := [who], currentContract := .contract (.replicate 32 5),
    minPersistentTtl := 4096 }

/-- A token with ample allowance and balance. -/
def replies (_ : ℕ) : (op : TokenCall) → Option op.Answer
  | .allowance _ _ _ => some (.ofUInt32 1000)
  | .balance _ _ => some (.ofUInt32 1000)
  | .transferFrom _ _ _ _ _ => some ()

/-- The coupon codes, the shared code and a customer's reference. -/
def code₁ : Bytes := [65, 49]
def code₂ : Bytes := [66, 50]
def sharedCode : Bytes := [83]
def customer : BytesN 32 := .replicate 32 9

/-- The attribution of the committed period. -/
def attribution : AttributionMap := ⟨[(promoter, 3)], by decide⟩

/-- The transactions, oldest first. -/
def history : List Tx :=
  [⟨envAt 10 owner, .createCampaign owner [78] [68] 1 3 100, replies⟩,
   ⟨envAt 11 owner, .addDelegate owner 1 cashier, replies⟩,
   ⟨envAt 12 owner, .issueUnique owner 1 [code₁, code₂], replies⟩,
   ⟨envAt 13 cashier, .redeemUnique cashier 1 code₁ customer, replies⟩,
   ⟨envAt 14 owner, .registerShared owner 1 sharedCode (some promoter) (some token) (.ofUInt32 5),
    replies⟩,
   ⟨envAt 15 owner, .commitTally owner 1 sharedCode 1 3 (.zero 32) attribution, replies⟩,
   ⟨envAt 16 owner, .settle owner 1 sharedCode 1, replies⟩]

theorem ordered_history : Ordered history := by
  simp only [Ordered, history, List.pairwise_cons]
  decide

/-- A computed success is a success. -/
theorem succeeds {tx : Tx} {s : ContractState} (h : (tx.exec s).toBool = true) :
    ∃ v s', tx.exec s = .ok (v, s') := by
  rcases hexec : tx.exec s with f | ⟨v, s'⟩
  · rw [hexec] at h
    exact absurd h Bool.false_ne_true
  · exact ⟨v, s', rfl⟩

/-- Every prefix of the history leaves a reachable state. -/
theorem reachable_take (n : ℕ) : Reachable (runFrom 0 (history.take n)) :=
  ⟨0, history.take n, ordered_history.sublist (List.take_sublist n history), rfl⟩

end Sample

end Soroticket
