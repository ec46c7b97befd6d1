import Soroticket.Ledger.Integrity

/-!
# What the events tell

An indexer sees the contract's events and nothing else. `Replica` is what it can keep of them, and
`Replica.apply` how one event changes it. The replica that has applied every event of a run shows
the ledger as it is (`Shows`): the campaigns with their figures, the coupons and which of them are
burned, the delegates, and what was committed and settled.

Codes are not published, so a tally or a settlement is known by its period alone, and the replica
keeps a multiset of each. A burn names its coupon only: the campaign it counts for is one the
replica remembers from the coupon's issue, which is why the replica is related to the storage after
every call and not just at the end.
-/

namespace Soroticket

/-! ### The replica -/

/-- What an indexer shows of a campaign. -/
structure Shown where
  owner : Address
  name : Bytes
  totalSupply : UInt32
  minted : ℕ
  burned : ℕ
  deriving DecidableEq

/-- What an indexer keeps. -/
structure Replica where
  campaign : UInt64 → Option Shown
  /-- The coupons, each with its campaign and whether it is burned. -/
  coupon : UInt64 → Option (UInt64 × Bool)
  delegate : UInt64 × Address → Bool
  /-- The periods committed under a campaign, with their counts. -/
  committed : UInt64 → Multiset (UInt64 × UInt32)
  /-- The periods settled under a campaign, with the token and the rate. -/
  settled : UInt64 → Multiset (UInt64 × Address × I128)

namespace Replica

/-- Before any event. -/
def empty : Replica where
  campaign _ := none
  coupon _ := none
  delegate _ := false
  committed _ := 0
  settled _ := 0

/-- A coupon issued under a campaign. -/
def issue (r : Replica) (t c : UInt64) : Replica :=
  { r with
    coupon := Function.update r.coupon t (some (c, false))
    campaign := Function.update r.campaign c
      ((r.campaign c).map fun camp ↦ { camp with minted := camp.minted + 1 }) }

/-- A coupon of a campaign burned. -/
def burn (r : Replica) (t c : UInt64) : Replica :=
  { r with
    coupon := Function.update r.coupon t (some (c, true))
    campaign := Function.update r.campaign c
      ((r.campaign c).map fun camp ↦ { camp with burned := camp.burned + 1 }) }

/-- Apply one event. A burn of a coupon never issued is ignored. -/
def apply (r : Replica) : Event → Replica
  | .campaignCreated id owner name totalSupply =>
    { r with campaign := Function.update r.campaign id (some ⟨owner, name, totalSupply, 0, 0⟩) }
  | .couponIssued t c => r.issue t c
  | .couponBurned t _ =>
    match r.coupon t with
    | some (c, _) => r.burn t c
    | none => r
  | .delegateAdded c who => { r with delegate := Function.update r.delegate (c, who) true }
  | .delegateRemoved c who => { r with delegate := Function.update r.delegate (c, who) false }
  | .sharedRegistered _ _ => r
  | .tallyCommitted c period count =>
    { r with committed := Function.update r.committed c ((period, count) ::ₘ r.committed c) }
  | .tallySettled c period token rate =>
    { r with settled := Function.update r.settled c ((period, token, rate) ::ₘ r.settled c) }

/-- Apply events, oldest first. -/
def replay (events : List Event) : Replica := events.foldl apply empty

end Replica

/-! ### What it shows -/

/-- A campaign, as an indexer shows it. -/
def Campaign.shown (camp : Campaign) : Shown :=
  ⟨camp.owner, camp.name, camp.totalSupply, camp.minted.toNat, camp.burned.toNat⟩

/-- What is committed under a campaign for a code and a period, the code left out. -/
def Storage.committed (s : Storage) (c : UInt64) (k : Bytes × UInt64) : Option (UInt64 × UInt32) :=
  (s.tally (c, k.1, k.2)).map fun tally ↦ (k.2, tally.count)

/-- What is settled under a campaign for a code and a period, the code left out. -/
def Storage.paid (s : Storage) (c : UInt64) (k : Bytes × UInt64) :
    Option (UInt64 × Address × I128) := do
  let _ ← s.settled (c, k.1, k.2)
  let sc ← s.shared (c, k.1)
  let token ← sc.payoutToken
  some (k.2, token, sc.payoutRate)

/-- The replica shows the ledger as it is stored. -/
structure Shows (r : Replica) (s : Storage) : Prop where
  campaign : ∀ c, r.campaign c = (s.campaign c).map Campaign.shown
  coupon : ∀ t, r.coupon t = (s.token t).map fun tok ↦ (tok.campaignId, tok.isBurned)
  delegate : ∀ k, r.delegate k = (s.delegate k).getD false
  committed : ∀ c, Collects (s.committed c) (r.committed c)
  settled : ∀ c, Collects (s.paid c) (r.settled c)

theorem shows_empty : Shows Replica.empty Storage.empty :=
  ⟨fun _ ↦ rfl, fun _ ↦ rfl, fun _ ↦ rfl, fun _ ↦ collects_empty, fun _ ↦ collects_empty⟩

/-- The replica reads neither the counters nor the indexes. -/
theorem Shows.congr {r : Replica} {s s' : Storage} (h : Shows r s) (h₁ : s'.campaign = s.campaign)
    (h₂ : s'.token = s.token) (h₃ : s'.delegate = s.delegate) (h₄ : s'.tally = s.tally)
    (h₅ : s'.settled = s.settled) (h₆ : s'.shared = s.shared) : Shows r s' := by
  obtain ⟨f₁, f₂, f₃, f₄, f₅⟩ := h
  refine ⟨?_, ?_, ?_, fun c ↦ ?_, fun c ↦ ?_⟩
  · simpa only [h₁] using f₁
  · simpa only [h₂] using f₂
  · simpa only [h₃] using f₃
  · have hsame : s'.committed c = s.committed c := by
      funext k
      rw [Storage.committed, Storage.committed, h₄]
    rw [hsame]
    exact f₄ c
  · have hsame : s'.paid c = s.paid c := by
      funext k
      rw [Storage.paid, Storage.paid, h₅, h₆]
    rw [hsame]
    exact f₅ c

/-! ### One event of each kind -/

section Events

variable {r : Replica} {s : Storage}

/-- A map of records after a write is the map of the old ones, written. -/
theorem map_update {α β γ : Type} [DecidableEq α] (f : α → Option β) (g : β → γ) (a : α)
    (b : Option β) (x : α) :
    (Function.update f a b x).map g = Function.update (fun x ↦ (f x).map g) a (b.map g) x := by
  rcases eq_or_ne x a with rfl | hx
  · rw [Function.update_self, Function.update_self]
  · rw [Function.update_of_ne hx, Function.update_of_ne hx]

theorem Shows.create (h : Shows r s) {s' : Storage} {id : UInt64} {owner : Address} {name : Bytes}
    {totalSupply : UInt32} {camp : Campaign} (hcamp : camp.shown = ⟨owner, name, totalSupply, 0, 0⟩)
    (hs : s'.campaign = Function.update s.campaign id (some camp)) (h₂ : s'.token = s.token)
    (h₃ : s'.delegate = s.delegate) (h₄ : s'.tally = s.tally) (h₅ : s'.settled = s.settled)
    (h₆ : s'.shared = s.shared) :
    Shows (r.apply (.campaignCreated id owner name totalSupply)) s' := by
  have hrest : Shows r { s' with campaign := s.campaign } := h.congr rfl h₂ h₃ h₄ h₅ h₆
  refine { hrest with campaign := fun c ↦ ?_ }
  rw [hs, map_update, ← funext h.campaign, Option.map_some, hcamp]
  rfl

/-- A delegate added or removed. -/
theorem Shows.delegated (h : Shows r s) (k : UInt64 × Address) (b : Option Bool) :
    Shows { r with delegate := Function.update r.delegate k (b.getD false) }
      { s with delegate := Function.update s.delegate k b } := by
  refine { h with delegate := fun x ↦ ?_ }
  show Function.update r.delegate k _ x = (Function.update s.delegate k b x).getD false
  rcases eq_or_ne x k with rfl | hx
  · rw [Function.update_self, Function.update_self]
  · rw [Function.update_of_ne hx, Function.update_of_ne hx]
    exact h.delegate x

/-- A coupon burned, of a campaign the replica remembers. -/
theorem Shows.burned (h : Shows r s) (seq : UInt32) {t now : UInt64} {tok : CouponToken}
    {ref : BytesN 32} {camp : Campaign} {burned : UInt32} (htok : s.token t = some tok)
    (hcamp : s.campaign tok.campaignId = some camp)
    (hburned : burned.toNat = camp.burned.toNat + 1) :
    Shows (r.apply (.couponBurned t seq)) { s with
      token := Function.update s.token t (some (tok.burn ref now))
      campaign := Function.update s.campaign tok.campaignId (some { camp with burned }) } := by
  have hcoupon : r.coupon t = some (tok.campaignId, tok.isBurned) := by
    rw [h.coupon, htok, Option.map_some]
  have happly : r.apply (.couponBurned t seq) = r.burn t tok.campaignId := by
    simp only [Replica.apply, hcoupon]
  rw [happly]
  refine { h with campaign := fun c ↦ ?_, coupon := fun x ↦ ?_ }
  · show Function.update r.campaign _ _ c = (Function.update s.campaign _ _ c).map Campaign.shown
    rw [map_update, ← funext h.campaign, h.campaign, hcamp]
    simp only [Option.map_some, Campaign.shown, hburned]
  · show Function.update r.coupon t _ x = (Function.update s.token t _ x).map _
    rw [map_update, ← funext h.coupon]
    rfl

/-- The events of a batch add its coupons, and its size to the figure of the campaign. By induction
on the batch. -/
theorem foldl_issued {c now : UInt64} {codes : List Bytes} {ids : List UInt64} {s' : Storage}
    (hmints : Mints c now s codes ids s') :
    ∀ r : Replica, (∀ t, r.coupon t = (s.token t).map fun tok ↦ (tok.campaignId, tok.isBurned)) →
      ∃ coupon, (ids.map fun t ↦ Event.couponIssued t c).foldl Replica.apply r =
        { r with
          coupon
          campaign := Function.update r.campaign c ((r.campaign c).map fun camp ↦
            { camp with minted := camp.minted + codes.length }) } ∧
        ∀ t, coupon t = (s'.token t).map fun tok ↦ (tok.campaignId, tok.isBurned) := by
  induction hmints with
  | nil s =>
    intro r h
    refine ⟨r.coupon, ?_, h⟩
    have hsame : (r.campaign c).map (fun camp ↦
        { camp with minted := camp.minted + ([] : List Bytes).length }) = r.campaign c :=
      Option.map_id'
    rw [hsame, Function.update_eq_self]
    rfl
  | @cons s s' code codes t ids hne hlen hfree ht hrest ih =>
    intro r h
    obtain ⟨coupon, hfold, hcoupon⟩ := ih (r.issue t c) fun x ↦ by
      show Function.update r.coupon t _ x = (Function.update s.token t _ x).map _
      rw [map_update, ← funext h]
      rfl
    refine ⟨coupon, ?_, hcoupon⟩
    rw [List.map_cons, List.foldl_cons]
    refine hfold.trans ?_
    simp only [Replica.issue, Function.update_self, Function.update_idem, Option.map_map,
      Function.comp_def, List.length_cons, Nat.add_assoc, Nat.add_comm 1]

theorem Shows.issued (h : Shows r s) {s₁ : Storage} {c now : UInt64} {codes : List Bytes}
    {ids : List UInt64} {camp : Campaign} {newMinted : UInt32}
    (hcamp : s.campaign c = some camp)
    (hminted : newMinted.toNat = camp.minted.toNat + codes.length)
    (hmints : Mints c now s codes ids s₁) :
    Shows ((ids.map fun t ↦ Event.couponIssued t c).foldl Replica.apply r) { s₁ with
      campaign := Function.update s₁.campaign c (some { camp with minted := newMinted }) } := by
  obtain ⟨coupon, hfold, hcoupon⟩ := foldl_issued hmints r h.coupon
  have hrest : Shows r { s with tokCtr := s₁.tokCtr, codeIndex := s₁.codeIndex } :=
    h.congr rfl rfl rfl rfl rfl rfl
  rw [hfold, hmints.frame]
  refine { hrest with campaign := fun x ↦ ?_, coupon := hcoupon }
  show Function.update r.campaign _ _ x = (Function.update s.campaign _ _ x).map Campaign.shown
  rw [map_update, ← funext h.campaign, h.campaign, hcamp]
  simp only [Option.map_some, Campaign.shown, hminted]

/-- A shared code registered: under a new code nothing was settled. -/
theorem Shows.registered (h : Shows r s) (hi : TallyIntegrity s) {c : UInt64} {code : Bytes}
    (hfree : s.shared (c, code) = none) (sc : SharedCode) :
    Shows r { s with shared := Function.update s.shared (c, code) (some sc) } := by
  refine { h with settled := fun x ↦ ?_ }
  have hsame : Storage.paid { s with shared := Function.update s.shared (c, code) (some sc) } x =
      s.paid x := by
    funext k
    simp only [Storage.paid]
    rcases eq_or_ne (x, k.1) (c, code) with hkey | hkey
    · have hnone : s.settled (x, k.1, k.2) = none := by
        by_contra hsome
        obtain ⟨-, sc', hsc', -⟩ := hi.settled x k.1 k.2 hsome
        rw [hkey, hfree] at hsc'
        exact absurd hsc'.symm (Option.some_ne_none sc')
      rw [hnone]
      rfl
    · rw [Function.update_of_ne hkey]
  rw [hsame]
  exact h.settled x

/-- A tally committed for a free period. -/
theorem Shows.tallied (h : Shows r s) {c period : UInt64} {code : Bytes}
    (hfree : s.tally (c, code, period) = none) (tally : TallyCommitment) :
    Shows (r.apply (.tallyCommitted c period tally.count))
      { s with tally := Function.update s.tally (c, code, period) (some tally) } := by
  refine { h with committed := fun x ↦ ?_ }
  show Collects _ (Function.update r.committed c _ x)
  rcases eq_or_ne x c with rfl | hx
  · have hnew : Storage.committed { s with
        tally := Function.update s.tally (x, code, period) (some tally) } x =
        Function.update (s.committed x) (code, period) (some (period, tally.count)) := by
      funext k
      rcases eq_or_ne k (code, period) with rfl | hk
      · simp only [Storage.committed, Function.update_self, Option.map_some]
      · have hkey : (x, k.1, k.2) ≠ (x, code, period) := fun he ↦ hk (Prod.mk.inj he).2
        simp only [Storage.committed, Function.update_of_ne hkey, Function.update_of_ne hk]
    rw [hnew, Function.update_self]
    exact (h.committed x).insert (by rw [Storage.committed, hfree, Option.map_none]) _
  · have hsame : Storage.committed { s with
        tally := Function.update s.tally (c, code, period) (some tally) } x = s.committed x := by
      funext k
      have hkey : (x, k.1, k.2) ≠ (c, code, period) := fun he ↦ hx (Prod.mk.inj he).1
      simp only [Storage.committed, Function.update_of_ne hkey]
    rw [hsame, Function.update_of_ne hx]
    exact h.committed x

/-- A period settled under a free guard, at the terms of its code. -/
theorem Shows.paid (h : Shows r s) {c period : UInt64} {code : Bytes} {sc : SharedCode}
    {token : Address} (hshared : s.shared (c, code) = some sc)
    (htoken : sc.payoutToken = some token) (hfree : s.settled (c, code, period) = none) :
    Shows (r.apply (.tallySettled c period token sc.payoutRate))
      { s with settled := Function.update s.settled (c, code, period) (some true) } := by
  refine { h with settled := fun x ↦ ?_ }
  show Collects _ (Function.update r.settled c _ x)
  rcases eq_or_ne x c with rfl | hx
  · have hnew : Storage.paid { s with
        settled := Function.update s.settled (x, code, period) (some true) } x =
        Function.update (s.paid x) (code, period) (some (period, token, sc.payoutRate)) := by
      funext k
      rcases eq_or_ne k (code, period) with rfl | hk
      · simp only [Storage.paid, Function.update_self, hshared, htoken, Option.bind_eq_bind,
          Option.bind_some]
      · have hkey : (x, k.1, k.2) ≠ (x, code, period) := fun he ↦ hk (Prod.mk.inj he).2
        simp only [Storage.paid, Function.update_of_ne hkey, Function.update_of_ne hk]
    rw [hnew, Function.update_self]
    refine (h.settled x).insert ?_ _
    simp only [Storage.paid, hfree, Option.bind_eq_bind, Option.bind_none]
  · have hsame : Storage.paid { s with
        settled := Function.update s.settled (c, code, period) (some true) } x = s.paid x := by
      funext k
      have hkey : (x, k.1, k.2) ≠ (c, code, period) := fun he ↦ hx (Prod.mk.inj he).1
      simp only [Storage.paid, Function.update_of_ne hkey]
    rw [hsame, Function.update_of_ne hx]
    exact h.settled x

end Events

/-! ### Every success -/

/-- **The events of a success show what it did.** -/
theorem Effect.shows {env : Env} {call : Call} {v : Value} {s s' : Storage} {evs : List Event}
    (h : Effect env call v s s' evs) (hi : TallyIntegrity s) {r : Replica} (hr : Shows r s) :
    Shows (evs.foldl Replica.apply r) s' := by
  cases h with
  | unchanged => exact hr
  | createCampaign => exact hr.create rfl rfl rfl rfl rfl rfl rfl
  | addDelegate => exact hr.delegated _ (some true)
  | removeDelegate => exact hr.delegated _ none
  | issueUnique _ hcamp _ _ _ _ hminted _ hmints => exact hr.issued hcamp hminted hmints
  | redeemUnique _ _ htok _ hcamp _ _ hburned => exact hr.burned env.sequence htok hcamp hburned
  | registerShared _ _ _ _ _ _ _ hfree => exact hr.registered hi hfree _
  | @commitTally owner c period code count root m _ camp sc _ _ _ _ _ hfree =>
    exact hr.tallied hfree ⟨period, count, root, m⟩
  | settle _ _ hshared htoken _ _ hfree hplan =>
    rw [hplan]
    exact hr.paid hshared htoken hfree

/-! ### The theorem -/

/-- The replica shows the ledger after every transaction of a run. -/
theorem shows_runFrom (ttl : ℕ) (txs : List Tx) :
    TallyIntegrity (runFrom ttl txs).storage ∧
      Shows (.replay (runFrom ttl txs).events) (runFrom ttl txs).storage := by
  show TallyIntegrity (runAll Tx.exec (.deployed ttl) txs).storage ∧
    Shows (.replay (runAll Tx.exec (.deployed ttl) txs).events) _
  refine runAll_induction (P := fun _ (s : ContractState) ↦
    TallyIntegrity s.storage ∧ Shows (.replay s.events) s.storage) ?_ ?_ (fun _ _ _ h _ ↦ h) txs
  · exact ⟨tallyIntegrity_empty, shows_empty⟩
  rintro _ tx v s' ⟨hi, hr⟩ hexec
  obtain ⟨evs, heff, hev⟩ := exec_effect hexec
  refine ⟨heff.tallyIntegrity hi, ?_⟩
  rw [hev, Replica.replay, List.foldl_append]
  exact heff.shows hi hr

/-- **The events determine the ledger.** After every run, the replica that has applied the published
events, oldest first, has every campaign with its owner, name, supply and figures, every coupon with
its campaign and whether it is burned, the delegates, and the multisets of what was committed and
settled under each campaign, with nothing besides. A success publishes its events after those there
were, and a failure publishes none. -/
theorem events_determine (ttl : ℕ) (txs : List Tx) :
    let s := runFrom ttl txs
    let r := Replica.replay s.events
    (∀ c, r.campaign c = (s.storage.campaign c).map Campaign.shown) ∧
    (∀ t, r.coupon t = (s.storage.token t).map fun tok ↦ (tok.campaignId, tok.isBurned)) ∧
    (∀ c who, r.delegate (c, who) = isDelegate c who s) ∧
    (∀ c m, Collects (s.storage.committed c) m ↔ r.committed c = m) ∧
    (∀ c m, Collects (s.storage.paid c) m ↔ r.settled c = m) ∧
    (∀ tx v s', tx.exec s = .ok (v, s') → runFrom ttl (txs ++ [tx]) = s' ∧
      ∃ evs, Effect tx.env tx.call v s.storage s'.storage evs ∧ s'.events = s.events ++ evs) ∧
    ∀ tx f, tx.exec s = .error f → (runFrom ttl (txs ++ [tx])).events = s.events := by
  intro s r
  have hr : Shows r s.storage := (shows_runFrom ttl txs).2
  refine ⟨hr.campaign, hr.coupon, fun c who ↦ hr.delegate (c, who), fun c m ↦ ?_, fun c m ↦ ?_,
    fun tx v s' hexec ↦ ?_, fun tx f hexec ↦ ?_⟩
  · constructor
    · exact (hr.committed c).unique
    · rintro rfl
      exact hr.committed c
  · constructor
    · exact (hr.settled c).unique
    · rintro rfl
      exact hr.settled c
  · exact ⟨by rw [runFrom_concat, applyTx_of_ok hexec], exec_effect hexec⟩
  · rw [runFrom_concat, applyTx_of_error hexec]

/-- What the events of the sample show at its end: two coupons, one burned, and one period
settled. -/
example :
    let r := Replica.replay (runFrom 0 Sample.history).events
    r.campaign 1 = some ⟨Sample.owner, [78], 3, 2, 1⟩ ∧ r.coupon 1 = some (1, true) ∧
      r.coupon 2 = some (1, false) ∧ r.delegate (1, Sample.cashier) = true ∧
      r.settled 1 = {(1, Sample.token, .ofUInt32 5)} := by decide +kernel

end Soroticket
