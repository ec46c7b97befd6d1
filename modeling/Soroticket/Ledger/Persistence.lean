import Soroticket.Ledger.Accounting

/-!
# What no later call undoes

Most of what the ledger stores is written once. `Later s s'` says what has become of the records of
`s` by the time of `s'`: a campaign has kept its terms, a coupon has changed at most by its one
redemption, and code index entries, shared codes, tallies and settlement guards are as they were.
Delegates are the exception, since their owner may revoke them, and so are the owner's page slots,
which carry no promise.

The relation is a preorder and every success moves along it (`Effect.later`), so any two states of a
run are related (`runFrom_later`): a fact about a record once stored is a fact about every state
after.
-/

namespace Soroticket

/-- What becomes of the records of `s` by the time of `s'`. -/
structure Later (s s' : Storage) : Prop where
  /-- A campaign changes in its two figures only. -/
  campaign : ∀ c camp, s.campaign c = some camp →
    ∃ minted burned, s'.campaign c = some { camp with minted, burned }
  /-- A coupon changes by its redemption only, and a redeemed coupon not at all. -/
  token : ∀ t tok, s.token t = some tok → s'.token t = some tok ∨
    tok.isBurned = false ∧ ∃ ref now, s'.token t = some (tok.burn ref now)
  codeIndex : ∀ k t, s.codeIndex k = some t → s'.codeIndex k = some t
  shared : ∀ k sc, s.shared k = some sc → s'.shared k = some sc
  tally : ∀ k tally, s.tally k = some tally → s'.tally k = some tally
  settled : ∀ k b, s.settled k = some b → s'.settled k = some b

namespace Later

theorem refl (s : Storage) : Later s s where
  campaign _ camp h := ⟨camp.minted, camp.burned, h⟩
  token _ _ h := Or.inl h
  codeIndex _ _ h := h
  shared _ _ h := h
  tally _ _ h := h
  settled _ _ h := h

/-- Two redemptions of one coupon cannot follow each other, so `Later` composes. -/
theorem trans {s₁ s₂ s₃ : Storage} (h : Later s₁ s₂) (h' : Later s₂ s₃) : Later s₁ s₃ where
  campaign c camp hc := by
    obtain ⟨m, b, hc'⟩ := h.campaign c camp hc
    obtain ⟨m', b', hc''⟩ := h'.campaign c _ hc'
    exact ⟨m', b', hc''⟩
  token t tok ht := by
    rcases h.token t tok ht with ht' | ⟨hun, ref, now, ht'⟩
    · exact h'.token t tok ht'
    · rcases h'.token t _ ht' with ht'' | ⟨hun', -⟩
      · exact Or.inr ⟨hun, ref, now, ht''⟩
      · exact absurd hun' (by simp [CouponToken.burn])
  codeIndex k t hk := h'.codeIndex k t (h.codeIndex k t hk)
  shared k sc hk := h'.shared k sc (h.shared k sc hk)
  tally k tally hk := h'.tally k tally (h.tally k tally hk)
  settled k b hk := h'.settled k b (h.settled k b hk)

/-- A redeemed coupon stays as it is. -/
theorem token_of_burned {s s' : Storage} (h : Later s s') {t : UInt64} {tok : CouponToken}
    (ht : s.token t = some tok) (hb : tok.isBurned = true) : s'.token t = some tok := by
  rcases h.token t tok ht with ht' | ⟨hun, -⟩
  · exact ht'
  · exact absurd (hb.symm.trans hun) (by decide)

end Later

/-! ### Every effect moves on -/

theorem Later.mint {s : Storage} {c t now : UInt64} {code : Bytes} (h : Filed s)
    (hfree : s.codeIndex (c, code) = none) (ht : t.toNat = (s.tokCtr.getD 0).toNat + 1) :
    Later s (s.mint t c code now) :=
  { Later.refl s with
    token := fun _ _ hx ↦ Or.inl (update_of_free (h.token_next ht) hx)
    codeIndex := fun _ _ hx ↦ update_of_free hfree hx }

theorem Mints.later {s s' : Storage} {c now : UInt64} {codes : List Bytes} {ids : List UInt64}
    (h : Filed s) (hcamp : (s.campaign c).isSome = true) (hmints : Mints c now s codes ids s') :
    Later s s' := by
  induction hmints with
  | nil s => exact Later.refl s
  | cons hne hlen hfree ht hrest ih =>
    exact (Later.mint h hfree ht).trans (ih (h.mint hcamp hfree ht) hcamp)

/-- A coupon after a batch was there before, or is new. -/
theorem Mints.token_origin {s s' : Storage} {c now : UInt64} {codes : List Bytes}
    {ids : List UInt64} (hmints : Mints c now s codes ids s') {t : UInt64} {tok : CouponToken}
    (ht : s'.token t = some tok) :
    s.token t = some tok ∨ ∃ code, tok = newToken t c code now := by
  induction hmints with
  | nil s => exact Or.inl ht
  | cons hne hlen hfree hnext hrest ih =>
    rcases ih ht with hmid | hnew
    · rcases eq_or_eq_of_update hmid with ⟨rfl, rfl⟩ | ⟨-, hold⟩
      · exact Or.inr ⟨_, rfl⟩
      · exact Or.inl hold
    · exact Or.inr hnew

/-- **Every success moves on.** -/
theorem Effect.later {env : Env} {call : Call} {v : Value} {s s' : Storage} {evs : List Event}
    (h : Effect env call v s s' evs) (hf : Filed s) : Later s s' := by
  cases h with
  | unchanged => exact Later.refl s
  | createCampaign hauth hterms htime hid =>
    exact { Later.refl s with
      campaign := fun c camp hc ↦
        ⟨camp.minted, camp.burned, update_of_free (hf.campaign_next hid) hc⟩ }
  | addDelegate | removeDelegate => exact { Later.refl s with }
  | @issueUnique owner c codes ids _ s₁ camp n hauth hcamp howner htime hne hbatch hminted hsupply
      hmints =>
    -- the loop, and then the campaign's figure
    have hloop : Later s s₁ := hmints.later hf (by rw [hcamp]; rfl)
    refine hloop.trans { Later.refl s₁ with campaign := fun x camp' hx ↦ ?_ }
    rcases eq_or_ne x c with rfl | hne
    · rw [hmints.campaign_eq, hcamp, Option.some.injEq] at hx
      subst hx
      exact ⟨n, camp.burned, Function.update_self x _ _⟩
    · exact ⟨camp'.minted, camp'.burned, (Function.update_of_ne hne _ _).trans hx⟩
  | @redeemUnique who c t code ref _ tok camp burned hauth hindex htok hunburned hcamp =>
    -- one coupon and its campaign's figure
    refine { Later.refl s with campaign := fun x camp' hx ↦ ?_, token := fun x tok' hx ↦ ?_ }
    · rcases eq_or_ne x tok.campaignId with rfl | hne
      · obtain rfl := Option.some.inj (hx.symm.trans hcamp)
        exact ⟨camp'.minted, burned, Function.update_self _ _ _⟩
      · exact ⟨camp'.minted, camp'.burned, (Function.update_of_ne hne _ _).trans hx⟩
    · rcases eq_or_ne x t with rfl | hne
      · obtain rfl := Option.some.inj (hx.symm.trans htok)
        exact Or.inr ⟨hunburned, ref, env.timestamp, Function.update_self x _ _⟩
      · exact Or.inl ((Function.update_of_ne hne _ _).trans hx)
  | registerShared hauth hcamp howner htime hne hlen hterms hfree =>
    exact { Later.refl s with shared := fun _ _ hx ↦ update_of_free hfree hx }
  | commitTally hauth hcamp howner hshared hrule hfree =>
    exact { Later.refl s with tally := fun _ _ hx ↦ update_of_free hfree hx }
  | settle hcamp howner hshared htoken hrate htally hfree =>
    exact { Later.refl s with settled := fun _ _ hx ↦ update_of_free hfree hx }

/-! ### Along a run -/

theorem Ordered.take {txs : List Tx} (h : Ordered txs) (n : ℕ) : Ordered (txs.take n) :=
  h.sublist (List.take_sublist n txs)

/-- Every state of a run is reachable. -/
theorem Ordered.reachable {txs : List Tx} (h : Ordered txs) (ttl n : ℕ) :
    Reachable (runFrom ttl (txs.take n)) :=
  ⟨ttl, txs.take n, h.take n, rfl⟩

/-- The state after one more transaction. -/
theorem runFrom_take_succ {ttl n : ℕ} {txs : List Tx} {tx : Tx} (h : txs[n]? = some tx) :
    runFrom ttl (txs.take (n + 1)) = applyTx Tx.exec (runFrom ttl (txs.take n)) tx := by
  rw [List.take_add_one, h, Option.toList_some, runFrom_concat]

/-- **Any two states of a run are related.** -/
theorem runFrom_later {txs : List Tx} (hord : Ordered txs) (ttl : ℕ) {n m : ℕ} (hnm : n ≤ m) :
    Later (runFrom ttl (txs.take n)).storage (runFrom ttl (txs.take m)).storage := by
  induction m, hnm using Nat.le_induction with
  | base => exact Later.refl _
  | succ m hnm ih =>
    rcases htx : txs[m]? with - | tx
    · rw [List.take_add_one, htx, Option.toList_none, List.append_nil]
      exact ih
    · rw [List.take_add_one, htx, Option.toList_some]
      rcases runFrom_concat_cases ttl (txs.take m) tx with
        ⟨v, s', evs, -, hrun, heff, -⟩ | ⟨-, hrun⟩
      · rw [hrun]
        exact ih.trans (heff.later (hord.reachable ttl m).accounted.filed)
      · rw [hrun]
        exact ih

end Soroticket
