import Soroticket.Ledger.Persistence

/-!
# Who may change what

Everything stored under a campaign changes with the signature of its owner, with two exceptions the
contract makes on purpose. A delegate redeems: that burns one coupon and counts it. And anyone may
settle a committed period of a code with a payout token, because a settlement moves the token
contract's money under an allowance the owner gave there; here it leaves its guard and nothing else.

A delegate is who the owner's *last word* says. The delegate entry of a storage is the trace of the
run's delegate operations (`lastWord_of_delegate`), which is the only place where the past of a run
matters: the rest is a case analysis on one effect (`Effect.frame`).
-/

namespace Soroticket

/-- The values stored under a campaign, before or after a step. -/
def Belongs (s s' : Storage) (c : UInt64) : DataKey → Prop
  | .campaign id => id = c
  | .token t => ∃ tok, (s.token t = some tok ∨ s'.token t = some tok) ∧ tok.campaignId = c
  | .codeIndex c' _ | .delegate c' _ | .campaignOwnerSlot c' | .shared c' _ | .tally c' _ _
  | .settled c' _ _ => c' = c
  | .ownerCount _ | .ownerCampaign _ _ => False

/-! ### The owner's last word on a delegate -/

/-- Whether a call adds or removes this delegate of this campaign. -/
def Call.concerns (c : UInt64) (who : Address) : Call → Bool
  | .addDelegate _ c' d | .removeDelegate _ c' d => decide (c' = c ∧ d = who)
  | _ => false

/-- One transaction, with the record of the calls that succeeded. -/
def commitCall (acc : ContractState × List Call) (tx : Tx) : ContractState × List Call :=
  match tx.exec acc.1 with
  | .ok (_, s) => (s, acc.2 ++ [tx.call])
  | .error _ => acc

/-- The calls of a run that succeeded, oldest first. -/
def committedCalls (ttl : ℕ) (txs : List Tx) : List Call :=
  (txs.foldl commitCall (ContractState.deployed ttl, [])).2

/-- The last delegate operation of a run on `who`. -/
def lastWord (ttl : ℕ) (txs : List Tx) (c : UInt64) (who : Address) : Option Call :=
  ((committedCalls ttl txs).filter (Call.concerns c who)).getLast?

/-- The record goes along with the states of the run. -/
theorem foldl_commitCall (txs : List Tx) : ∀ (s : ContractState) (calls : List Call),
    (txs.foldl commitCall (s, calls)).1 = runAll Tx.exec s txs := by
  induction txs with
  | nil => exact fun s calls ↦ rfl
  | cons tx txs ih =>
    intro s calls
    rw [List.foldl_cons, runAll_cons]
    rcases hexec : tx.exec s with f | ⟨v, s'⟩
    · have hround : commitCall (s, calls) tx = (s, calls) := by simp only [commitCall, hexec]
      rw [hround, applyTx_of_error hexec, ih]
    · have hround : commitCall (s, calls) tx = (s', calls ++ [tx.call]) := by
        simp only [commitCall, hexec]
      rw [hround, applyTx_of_ok hexec, ih]

theorem committedCalls_concat (ttl : ℕ) (txs : List Tx) (tx : Tx) :
    committedCalls ttl (txs ++ [tx]) =
      (commitCall (runFrom ttl txs, committedCalls ttl txs) tx).2 := by
  have hstate := foldl_commitCall txs (ContractState.deployed ttl) []
  rw [committedCalls, List.foldl_concat, runFrom, ← hstate]
  rfl

theorem committedCalls_concat_ok {ttl : ℕ} {txs : List Tx} {tx : Tx} {v : Value}
    {s' : ContractState} (h : tx.exec (runFrom ttl txs) = .ok (v, s')) :
    committedCalls ttl (txs ++ [tx]) = committedCalls ttl txs ++ [tx.call] := by
  rw [committedCalls_concat, commitCall, h]

theorem committedCalls_concat_error {ttl : ℕ} {txs : List Tx} {tx : Tx} {f : Fault Error}
    (h : tx.exec (runFrom ttl txs) = .error f) :
    committedCalls ttl (txs ++ [tx]) = committedCalls ttl txs := by
  rw [committedCalls_concat, commitCall, h]

/-- A success adds the delegate by the owner, removes it, or does not concern it. -/
theorem Effect.delegate_cases {env : Env} {call : Call} {v : Value} {s s' : Storage}
    {evs : List Event} (h : Effect env call v s s' evs) (c : UInt64) (who : Address) :
    (∃ owner camp, call = .addDelegate owner c who ∧ s.campaign c = some camp ∧
        camp.owner = owner) ∨
      (call.concerns c who = true ∧ s'.delegate (c, who) = none) ∨
      (call.concerns c who = false ∧ s'.delegate (c, who) = s.delegate (c, who)) := by
  cases h with
  | unchanged hcall =>
    refine Or.inr (Or.inr ⟨?_, rfl⟩)
    cases call <;> first | rfl | exact absurd hcall.symm Bool.false_ne_true
  | @addDelegate owner d c' _ camp _ hcamp howner =>
    rcases eq_or_ne (c', d) (c, who) with hkey | hkey
    · obtain ⟨rfl, rfl⟩ := Prod.mk.inj hkey
      exact Or.inl ⟨owner, camp, rfl, hcamp, howner⟩
    · refine Or.inr (Or.inr ⟨?_, Function.update_of_ne hkey.symm _ _⟩)
      simpa [Call.concerns] using hkey
  | @removeDelegate owner d c' _ camp _ hcamp howner =>
    rcases eq_or_ne (c', d) (c, who) with hkey | hkey
    · obtain ⟨rfl, rfl⟩ := Prod.mk.inj hkey
      exact Or.inr (Or.inl ⟨by simp [Call.concerns], Function.update_self _ _ _⟩)
    · refine Or.inr (Or.inr ⟨?_, Function.update_of_ne hkey.symm _ _⟩)
      simpa [Call.concerns] using hkey
  | issueUnique _ _ _ _ _ _ _ _ hmints =>
    refine Or.inr (Or.inr ⟨rfl, ?_⟩)
    rw [hmints.frame]
  | _ => exact Or.inr (Or.inr ⟨rfl, rfl⟩)

/-- **A delegate entry is the owner's last word.** By induction on the run: the call that wrote the
entry is the last one to concern it, and the campaign's owner has not changed since. -/
theorem lastWord_of_delegate {ttl : ℕ} {c : UInt64} {who : Address} :
    ∀ txs : List Tx, Ordered txs → (runFrom ttl txs).storage.delegate (c, who) = some true →
      ∃ camp, (runFrom ttl txs).storage.campaign c = some camp ∧
        lastWord ttl txs c who = some (.addDelegate camp.owner c who) := by
  intro txs
  induction txs using List.reverseRecOn with
  | nil =>
    intro _ h
    exact absurd h (by simp [runFrom, ContractState.deployed, Storage.empty])
  | append_singleton txs tx ih =>
    intro hord h
    have hord' := hord.of_concat.1
    rcases runFrom_concat_cases ttl txs tx with ⟨v, s', evs, hexec, hrun, heff, -⟩ | ⟨⟨f, hf⟩, hrun⟩
    · rw [hrun] at h ⊢
      have hlater := heff.later (Reachable.accounted ⟨ttl, txs, hord', rfl⟩).filed
      rw [lastWord, committedCalls_concat_ok hexec, List.filter_append]
      rcases heff.delegate_cases c who with ⟨owner, camp, hcall, hcamp, rfl⟩ | ⟨-, hnone⟩ |
        ⟨hother, hsame⟩
      · obtain ⟨m, b, hcamp'⟩ := hlater.campaign c camp hcamp
        refine ⟨_, hcamp', ?_⟩
        rw [hcall]
        simp [Call.concerns]
      · rw [h] at hnone
        exact absurd hnone (Option.some_ne_none true)
      · rw [hsame] at h
        obtain ⟨camp, hcamp, hlast⟩ := ih hord' h
        obtain ⟨m, b, hcamp'⟩ := hlater.campaign c camp hcamp
        refine ⟨_, hcamp', ?_⟩
        rw [List.filter_singleton, hother]
        simpa [lastWord] using hlast
    · rw [hrun] at h ⊢
      rw [lastWord, committedCalls_concat_error hf]
      exact ih hord' h

/-! ### The frame of one success -/

/-- The call carries the authorization of the campaign's owner. -/
def OwnerSigned (env : Env) (s' : Storage) (c : UInt64) : Prop :=
  ∃ camp, s'.campaign c = some camp ∧ camp.owner ∈ env.auths

/-- The call is a redemption by `who`, of a coupon of the campaign; it burns that coupon, adds one
to the campaign's count, and changes nothing else. -/
def RedeemedBy (env : Env) (call : Call) (s s' : Storage) (c : UInt64) (who : Address) : Prop :=
  ∃ code ref t tok camp burned, call = .redeemUnique who c code ref ∧ who ∈ env.auths ∧
    s.token t = some tok ∧ tok.campaignId = c ∧ tok.code = code ∧ s.campaign c = some camp ∧
    burned.toNat = camp.burned.toNat + 1 ∧
    s' = { s with
      token := Function.update s.token t (some (tok.burn ref env.timestamp))
      campaign := Function.update s.campaign c (some { camp with burned }) }

/-- The call is a settlement; it marks a free period, committed, of a code of the campaign that has
a payout token, and changes nothing else. -/
def SettledOnly (call : Call) (s s' : Storage) (c : UInt64) : Prop :=
  ∃ owner code period tally sc, call = .settle owner c code period ∧
    s.tally (c, code, period) = some tally ∧ s.shared (c, code) = some sc ∧
    sc.payoutToken.isSome = true ∧ s.settled (c, code, period) = none ∧
    s' = { s with settled := Function.update s.settled (c, code, period) (some true) }

/-- A batch changes the coupons it mints and their index entries. -/
theorem Mints.changed {s s' : Storage} {c now : UInt64} {codes : List Bytes} {ids : List UInt64}
    (hmints : Mints c now s codes ids s') {k : DataKey} (hk : s'.get k ≠ s.get k) :
    (∃ t, k = .token t) ∨ ∃ code, k = .codeIndex c code := by
  induction hmints with
  | nil s => exact absurd rfl hk
  | @cons s s' code codes t ids hne hlen hfree ht hrest ih =>
    rcases eq_or_ne (s'.get k) ((s.mint t c code now).get k) with hsame | hdiff
    · rw [hsame] at hk
      change ((({ s with tokCtr := some t } : Storage).write (.token t) _).write
        (.codeIndex c code) _).get k ≠ s.get k at hk
      rcases Storage.eq_or_ne_of_write hk with rfl | hk
      · exact Or.inr ⟨code, rfl⟩
      · rcases Storage.eq_or_ne_of_write hk with rfl | hk
        · exact Or.inl ⟨t, rfl⟩
        · exact absurd (by cases k <;> rfl) hk
    · exact ih hdiff

/-- A coupon of a campaign is one after the step: coupons do not leave their campaign. -/
theorem Belongs.after {s s' : Storage} (hlater : Later s s') {c t : UInt64}
    (h : Belongs s s' c (.token t)) : ∃ tok, s'.token t = some tok ∧ tok.campaignId = c := by
  obtain ⟨tok, hold | hnew, rfl⟩ := h
  · rcases hlater.token t tok hold with hsame | ⟨-, ref, now, hburn⟩
    · exact ⟨tok, hsame, rfl⟩
    · exact ⟨_, hburn, rfl⟩
  · exact ⟨tok, hnew, rfl⟩

/-- The owner's check of an entry point, read off the state after it. -/
theorem OwnerSigned.of_later {env : Env} {s s' : Storage} {c : UInt64} {camp : Campaign}
    (hlater : Later s s') (hcamp : s.campaign c = some camp) (hauth : camp.owner ∈ env.auths) :
    OwnerSigned env s' c := by
  obtain ⟨m, b, hcamp'⟩ := hlater.campaign c camp hcamp
  exact ⟨_, hcamp', hauth⟩

/-- A change of one key that only the owner of its campaign makes. -/
theorem OwnerSigned.of_write {env : Env} {s s' : Storage} {c c' : UInt64} {k key : DataKey}
    {v : Option key.Value} {camp : Campaign} (hk : (s.write key v).get k ≠ s.get k)
    (hbelongs : Belongs s s' c k) (hkey : Belongs s s' c key → c' = c) (hlater : Later s s')
    (hcamp : s.campaign c' = some camp) (hauth : camp.owner ∈ env.auths) :
    OwnerSigned env s' c := by
  rcases Storage.eq_or_ne_of_write hk with rfl | hk
  · obtain rfl := hkey hbelongs
    exact .of_later hlater hcamp hauth
  · exact absurd rfl hk

/-- **The frame.** A success that changes a value of a campaign is signed by the campaign's owner,
is a redemption by a delegate, or is a settlement. -/
theorem Effect.frame {env : Env} {call : Call} {v : Value} {s s' : Storage} {evs : List Event}
    (h : Effect env call v s s' evs) (hf : Filed s) {c : UInt64} {k : DataKey}
    (hbelongs : Belongs s s' c k) (hk : s'.get k ≠ s.get k) :
    OwnerSigned env s' c ∨
      (∃ who, s.delegate (c, who) = some true ∧ RedeemedBy env call s s' c who) ∨
      SettledOnly call s s' c := by
  have hlater := h.later hf
  cases h with
  | unchanged hcall => exact absurd rfl hk
  | @createCampaign owner name discountType discountValue totalSupply validUntil id next _ hauth =>
    -- of the five places written, two belong to a campaign: the new one
    obtain rfl : id = c := by
      change (((({ s with campCtr := some id } : Storage).write (.campaign id) (some
        (newCampaign id owner name discountType discountValue totalSupply validUntil))).write
          (.ownerCampaign owner _) _).write (.campaignOwnerSlot id) _ |>.write
            (.ownerCount owner) _).get k ≠ s.get k at hk
      rcases Storage.eq_or_ne_of_write hk with rfl | hk
      · exact hbelongs.elim
      · rcases Storage.eq_or_ne_of_write hk with rfl | hk
        · exact hbelongs
        · rcases Storage.eq_or_ne_of_write hk with rfl | hk
          · exact hbelongs.elim
          · rcases Storage.eq_or_ne_of_write hk with rfl | hk
            · exact hbelongs
            · exact absurd (by cases k <;> rfl) hk
    exact Or.inl ⟨_, Function.update_self id _ _, hauth⟩
  | @addDelegate owner d c' _ camp hauth hcamp howner =>
    change (s.write (.delegate c' d) _).get k ≠ s.get k at hk
    exact Or.inl (.of_write hk hbelongs id hlater hcamp (howner ▸ hauth))
  | @removeDelegate owner d c' _ camp hauth hcamp howner =>
    change (s.write (.delegate c' d) _).get k ≠ s.get k at hk
    exact Or.inl (.of_write hk hbelongs id hlater hcamp (howner ▸ hauth))
  | @issueUnique owner c' codes ids _ s₁ camp n hauth hcamp howner _ _ _ _ _ hmints =>
    obtain rfl : c' = c := by
      change (s₁.write (.campaign c') _).get k ≠ s.get k at hk
      rcases Storage.eq_or_ne_of_write hk with rfl | hk
      · exact hbelongs
      · rcases hmints.changed hk with ⟨t, rfl⟩ | ⟨code, rfl⟩
        · -- the coupon is there after the step and was not before, so the batch minted it
          obtain ⟨tok, hnew, rfl⟩ := hbelongs.after hlater
          rcases hmints.token_origin hnew with hold | ⟨code, rfl⟩
          · exact absurd (hnew.trans hold.symm) hk
          · rfl
        · exact hbelongs
    exact Or.inl (.of_later hlater hcamp (howner ▸ hauth))
  | @redeemUnique who c' t code ref _ tok camp burned hauth hindex htok _ hcamp hwho _ hburned =>
    obtain ⟨rfl, rfl⟩ := hf.campaignId_eq hindex htok
    obtain rfl : tok.campaignId = c := by
      change ((s.write (.token t) _).write (.campaign tok.campaignId) _).get k ≠ s.get k at hk
      rcases Storage.eq_or_ne_of_write hk with rfl | hk
      · exact hbelongs
      · rcases Storage.eq_or_ne_of_write hk with rfl | hk
        · obtain ⟨tok', hnew, rfl⟩ := hbelongs.after hlater
          obtain rfl := Option.some.inj ((Function.update_self t _ _).symm.trans hnew)
          rfl
        · exact absurd rfl hk
    rcases hwho with rfl | hdelegate
    · exact Or.inl (.of_later hlater hcamp hauth)
    · exact Or.inr (Or.inl ⟨who, hdelegate, tok.code, ref, t, tok, camp, burned, rfl, hauth, htok,
        rfl, rfl, hcamp, hburned, rfl⟩)
  | @registerShared owner c' code attributedTo payoutToken rate _ camp hauth hcamp howner =>
    change (s.write (.shared c' code) _).get k ≠ s.get k at hk
    exact Or.inl (.of_write hk hbelongs id hlater hcamp (howner ▸ hauth))
  | @commitTally owner c' period code count root m _ camp sc hauth hcamp howner =>
    change (s.write (.tally c' code period) _).get k ≠ s.get k at hk
    exact Or.inl (.of_write hk hbelongs id hlater hcamp (howner ▸ hauth))
  | @settle owner c' period code plan _ camp sc tally _ _ hshared htoken _ htally hfree =>
    change (s.write (.settled c' code period) _).get k ≠ s.get k at hk
    rcases Storage.eq_or_ne_of_write hk with rfl | hk
    · obtain rfl : c' = c := hbelongs
      exact Or.inr (Or.inr ⟨owner, code, period, tally, sc, rfl, htally, hshared,
        by rw [htoken]; rfl, hfree, rfl⟩)
    · exact absurd rfl hk

/-! ### The theorem -/

/-- **The authorization frame.** Take any reachable state and any call that succeeds there. Where it
changes a value of a campaign, it carries the authorization of the campaign's owner; or it is a
redemption authorized by an address that the owner's last word made a delegate, burning one coupon
and counting it; or it is a settlement marking one period. And along the whole run the terms of a
campaign, the shared codes, the tallies and the guards of settled periods stay as they are. -/
theorem authorization_frame {ttl : ℕ} {txs : List Tx} (hord : Ordered txs) :
    (∀ (tx : Tx) v s', tx.exec (runFrom ttl txs) = .ok (v, s') →
      ∀ c k, Belongs (runFrom ttl txs).storage s'.storage c k →
        s'.storage.get k ≠ (runFrom ttl txs).storage.get k →
          OwnerSigned tx.env s'.storage c ∨
          (∃ who camp, (runFrom ttl txs).storage.campaign c = some camp ∧
            lastWord ttl txs c who = some (.addDelegate camp.owner c who) ∧
            RedeemedBy tx.env tx.call (runFrom ttl txs).storage s'.storage c who) ∨
          SettledOnly tx.call (runFrom ttl txs).storage s'.storage c) ∧
    (∀ n m, n ≤ m →
      let s := (runFrom ttl (txs.take n)).storage
      let s' := (runFrom ttl (txs.take m)).storage
      (∀ c camp, s.campaign c = some camp → ∃ camp', s'.campaign c = some camp' ∧
        camp'.id = camp.id ∧ camp'.owner = camp.owner ∧ camp'.name = camp.name ∧
        camp'.discountType = camp.discountType ∧ camp'.discountValue = camp.discountValue ∧
        camp'.totalSupply = camp.totalSupply ∧ camp'.validUntil = camp.validUntil) ∧
      (∀ k sc, s.shared k = some sc → s'.shared k = some sc) ∧
      (∀ k tally, s.tally k = some tally → s'.tally k = some tally) ∧
      (∀ k b, s.settled k = some b → s'.settled k = some b)) := by
  refine ⟨fun tx v s' hexec c k hbelongs hk ↦ ?_, fun n m hnm ↦ ?_⟩
  · obtain ⟨evs, heff, -⟩ := exec_effect hexec
    have hfiled := (Reachable.accounted ⟨ttl, txs, hord, rfl⟩).filed
    rcases heff.frame hfiled hbelongs hk with hsigned | ⟨who, hdelegate, hredeemed⟩ | hsettled
    · exact Or.inl hsigned
    · obtain ⟨camp, hcamp, hlast⟩ := lastWord_of_delegate txs hord hdelegate
      exact Or.inr (Or.inl ⟨who, camp, hcamp, hlast, hredeemed⟩)
    · exact Or.inr (Or.inr hsettled)
  · have hlater := runFrom_later hord ttl hnm
    refine ⟨fun c camp hcamp ↦ ?_, hlater.shared, hlater.tally, hlater.settled⟩
    obtain ⟨m', b', hcamp'⟩ := hlater.campaign c camp hcamp
    exact ⟨_, hcamp', rfl, rfl, rfl, rfl, rfl, rfl, rfl⟩

/-- The sample redemption changes its campaign without the owner's signature, on the owner's last
word about the cashier. -/
theorem authorization_frame_sample :
    ∃ who camp, (runFrom 0 (Sample.history.take 3)).storage.campaign 1 = some camp ∧
      lastWord 0 (Sample.history.take 3) 1 who = some (.addDelegate camp.owner 1 who) ∧
      RedeemedBy (Sample.envAt 13 Sample.cashier)
        (.redeemUnique Sample.cashier 1 Sample.code₁ Sample.customer)
        (runFrom 0 (Sample.history.take 3)).storage (runFrom 0 (Sample.history.take 4)).storage 1
        who := by
  let tx : Tx := ⟨Sample.envAt 13 Sample.cashier,
    .redeemUnique Sample.cashier 1 Sample.code₁ Sample.customer, Sample.replies⟩
  obtain ⟨v, s', hexec⟩ : ∃ v s', tx.exec (runFrom 0 (Sample.history.take 3)) = .ok (v, s') :=
    Sample.succeeds (by decide)
  have hstate : runFrom 0 (Sample.history.take 4) = s' := by
    have htx : Sample.history[3]? = some tx := rfl
    rw [runFrom_take_succ htx, applyTx_of_ok hexec]
  have howner : ((runFrom 0 (Sample.history.take 4)).storage.campaign 1).map Campaign.owner =
      some Sample.owner := by decide
  have hchanged : (runFrom 0 (Sample.history.take 4)).storage.campaign 1 ≠
      (runFrom 0 (Sample.history.take 3)).storage.campaign 1 := by decide
  rw [hstate] at howner hchanged ⊢
  rcases (authorization_frame (Sample.ordered_history.take 3)).1 tx v s' hexec 1 (.campaign 1) rfl
    hchanged with ⟨camp, hcamp, hsigned⟩ | hredeemed | ⟨_, _, _, _, _, hcall, -⟩
  · -- the owner did not sign
    rw [hcamp, Option.map_some, Option.some.injEq] at howner
    rw [howner] at hsigned
    exact absurd hsigned (by decide)
  · exact hredeemed
  · exact absurd hcall (by simp [tx])

end Soroticket
