import Soroticket.Ledger.Persistence

/-!
# Single use

A coupon is redeemed at most once in a run, and its record tells which of the two states it is in: a
coupon nobody has redeemed carries no reference and no time, and a redeemed one carries those of its
one redemption ever after. Both halves follow from where the records of one step come from
(`Effect.token_origin`): a record is the old one, a newly minted one, or the one a redemption wrote
over an unburned coupon.

Positions in a run are indices of its list of transactions: the transaction `i` runs on the state
that `txs.take i` leaves.
-/

namespace Soroticket

/-- The transaction `i` of the run redeems `(c, code)` at the time `now`, with the reference
`ref`. -/
def RedeemsAt (ttl : ℕ) (txs : List Tx) (i : ℕ) (c : UInt64) (code : Bytes) (ref : BytesN 32)
    (now : UInt64) : Prop :=
  ∃ tx who, txs[i]? = some tx ∧ tx.call = .redeemUnique who c code ref ∧ tx.env.timestamp = now ∧
    ∃ v s', tx.exec (runFrom ttl (txs.take i)) = .ok (v, s')

/-! ### Where the coupons of a state come from -/

/-- **A coupon after a success** was there before, or is newly minted, or was redeemed by the
call, in time, from an unburned coupon. -/
theorem Effect.token_origin {env : Env} {call : Call} {v : Value} {s s' : Storage}
    {evs : List Event} (h : Effect env call v s s' evs) {t : UInt64} {tok' : CouponToken}
    (ht : s'.token t = some tok') :
    s.token t = some tok' ∨ (∃ c code, tok' = newToken t c code env.timestamp) ∨
      ∃ who c code ref tok camp, call = .redeemUnique who c code ref ∧
        s.codeIndex (c, code) = some t ∧ s.token t = some tok ∧ tok.isBurned = false ∧
        s.campaign tok.campaignId = some camp ∧ env.timestamp ≤ camp.validUntil ∧
        tok' = tok.burn ref env.timestamp := by
  cases h with
  | @issueUnique owner c codes ids s s₁ camp minted hauth hcamp howner htime hne hbatch hminted
      hsupply hmints =>
    rcases hmints.token_origin ht with hold | ⟨code, rfl⟩
    · exact Or.inl hold
    · exact Or.inr (Or.inl ⟨c, code, rfl⟩)
  | @redeemUnique who c t' code ref s tok camp burned hauth hindex htok hunburned hcamp hwho
      htime =>
    rcases eq_or_eq_of_update ht with ⟨rfl, rfl⟩ | ⟨-, hold⟩
    · exact Or.inr (Or.inr
        ⟨who, c, code, ref, tok, camp, rfl, hindex, htok, hunburned, hcamp, htime, rfl⟩)
    · exact Or.inl hold
  | unchanged | createCampaign | addDelegate | removeDelegate | registerShared | commitTally
  | settle => exact Or.inl ht

/-- A redemption finds the coupon of the code unburned and leaves it with its reference and time. -/
theorem Effect.redeems {env : Env} {who : Address} {c : UInt64} {code : Bytes} {ref : BytesN 32}
    {v : Value} {s s' : Storage} {evs : List Event}
    (h : Effect env (.redeemUnique who c code ref) v s s' evs) :
    ∃ t tok, s.codeIndex (c, code) = some t ∧ s.token t = some tok ∧ tok.isBurned = false ∧
      s'.codeIndex (c, code) = some t ∧ s'.token t = some (tok.burn ref env.timestamp) := by
  cases h with
  | unchanged hcall => exact absurd hcall.symm Bool.false_ne_true
  | @redeemUnique who c t code ref s tok camp burned hauth hindex htok hunburned =>
    exact ⟨t, tok, hindex, htok, hunburned, hindex, Function.update_self t _ _⟩

section Run

variable {txs : List Tx} {ttl i n : ℕ} {c : UInt64} {code : Bytes} {ref : BytesN 32} {now : UInt64}

/-- The states around a redemption. -/
theorem RedeemsAt.around (h : RedeemsAt ttl txs i c code ref now) :
    ∃ t tok, (runFrom ttl (txs.take i)).storage.codeIndex (c, code) = some t ∧
      (runFrom ttl (txs.take i)).storage.token t = some tok ∧ tok.isBurned = false ∧
      (runFrom ttl (txs.take (i + 1))).storage.codeIndex (c, code) = some t ∧
      (runFrom ttl (txs.take (i + 1))).storage.token t = some (tok.burn ref now) := by
  obtain ⟨tx, who, htx, hcall, rfl, v, s', hexec⟩ := h
  obtain ⟨evs, heff, -⟩ := exec_effect hexec
  rw [hcall] at heff
  rw [runFrom_take_succ htx, applyTx_of_ok hexec]
  exact heff.redeems

/-- Ever after a redemption the code leads to the coupon as it was burned then. -/
theorem RedeemsAt.after (hord : Ordered txs) (h : RedeemsAt ttl txs i c code ref now)
    (hin : i < n) :
    ∃ (t : UInt64) (tok : CouponToken),
      (runFrom ttl (txs.take n)).storage.codeIndex (c, code) = some t ∧
      (runFrom ttl (txs.take n)).storage.token t = some (tok.burn ref now) := by
  obtain ⟨t, tok, -, -, -, hindex, htok⟩ := h.around
  have hlater := runFrom_later hord ttl (n := i + 1) (m := n) (by omega)
  exact ⟨t, tok, hlater.codeIndex _ t hindex, hlater.token_of_burned htok rfl⟩

/-- Of two redemptions of one code the second would find the coupon burned. -/
theorem RedeemsAt.not_lt (hord : Ordered txs) {j : ℕ} {ref' : BytesN 32} {now' : UInt64}
    (h : RedeemsAt ttl txs i c code ref now) (h' : RedeemsAt ttl txs j c code ref' now') :
    ¬i < j := by
  intro hij
  obtain ⟨t, tok, hindex, htok⟩ := h.after hord hij
  obtain ⟨t', tok', hindex', htok', hunburned, -, -⟩ := h'.around
  obtain rfl := Option.some.inj (hindex.symm.trans hindex')
  obtain rfl := Option.some.inj (htok.symm.trans htok')
  exact absurd hunburned (by simp [CouponToken.burn])

/-- **A coupon nobody has redeemed is blank.** By induction on the length of the run: a coupon is
minted blank, and only a redemption of its own code rewrites it. -/
theorem blank_of_not_redeemed (hord : Ordered txs) (ttl : ℕ) :
    ∀ n t tok, (runFrom ttl (txs.take n)).storage.token t = some tok →
      (∀ i ref now, i < n → ¬RedeemsAt ttl txs i tok.campaignId tok.code ref now) →
        tok.isBurned = false ∧ tok.redeemerRef = BytesN.zero 32 ∧ tok.burnedAt = 0 := by
  intro n
  induction n with
  | zero =>
    intro t tok htok
    exact absurd htok (by simp [runFrom, ContractState.deployed, Storage.empty])
  | succ n ih =>
    intro t tok htok hnever
    rcases htx : txs[n]? with - | tx
    · rw [List.take_add_one, htx, Option.toList_none, List.append_nil] at htok
      exact ih t tok htok fun i ref now hi ↦ hnever i ref now (by omega)
    · have htake := List.take_add_one (l := txs) (i := n)
      rw [htx, Option.toList_some] at htake
      rw [htake] at htok
      rcases runFrom_concat_cases ttl (txs.take n) tx with
        ⟨v, s', evs, hexec, hrun, heff, -⟩ | ⟨-, hrun⟩
      · rw [hrun] at htok
        rcases heff.token_origin htok with hold | ⟨c, code, rfl⟩ |
          ⟨who, c, code, ref, old, camp, hcall, hindex, hold, -, -, -, rfl⟩
        · exact ih t tok hold fun i ref now hi ↦ hnever i ref now (by omega)
        · exact ⟨rfl, rfl, rfl⟩
        · -- the transaction redeems the coupon's own code, which nobody was to do
          obtain ⟨rfl, rfl⟩ := (hord.reachable ttl n).accounted.filed.campaignId_eq hindex hold
          exact absurd ⟨tx, who, htx, hcall, rfl, v, s', hexec⟩
            (hnever n ref tx.env.timestamp (by omega))
      · rw [hrun] at htok
        exact ih t tok htok fun i ref now hi ↦ hnever i ref now (by omega)

end Run

/-! ### Times -/

/-- Coupons were minted in the past, and redeemed between then and the end of their campaign. -/
structure Timed (txs : List Tx) (s : Storage) : Prop where
  minted : ∀ t tok, s.token t = some tok → ∃ tx ∈ txs, tok.mintedAt = tx.env.timestamp
  burned : ∀ t tok, s.token t = some tok → tok.isBurned = true → ∃ camp,
    s.campaign tok.campaignId = some camp ∧ tok.mintedAt ≤ tok.burnedAt ∧
      tok.burnedAt ≤ camp.validUntil

theorem Timed.concat {txs : List Tx} {tx : Tx} {s : Storage} (h : Timed txs s) :
    Timed (txs ++ [tx]) s where
  minted t tok ht := by
    obtain ⟨tx', hmem, heq⟩ := h.minted t tok ht
    exact ⟨tx', List.mem_append_left _ hmem, heq⟩
  burned := h.burned

theorem Effect.timed {txs : List Tx} {tx : Tx} {v : Value} {s s' : Storage} {evs : List Event}
    (heff : Effect tx.env tx.call v s s' evs) (hf : Filed s) (h : Timed txs s)
    (hlast : ∀ tx' ∈ txs, tx'.env.timestamp ≤ tx.env.timestamp) : Timed (txs ++ [tx]) s' := by
  have hlater := heff.later hf
  refine ⟨fun t tok ht ↦ ?_, fun t tok ht hb ↦ ?_⟩
  · rcases heff.token_origin ht with hold | ⟨c, code, rfl⟩ |
      ⟨-, -, -, ref, old, -, -, -, hold, -, -, -, rfl⟩
    · exact h.concat.minted t tok hold
    · exact ⟨tx, List.mem_append_right _ (List.mem_singleton_self tx), rfl⟩
    · exact h.concat.minted t old hold
  · rcases heff.token_origin ht with hold | ⟨c, code, rfl⟩ |
      ⟨-, -, -, ref, old, camp, -, -, hold, -, hcamp, htime, rfl⟩
    · -- redeemed before: the campaign's end has not moved
      obtain ⟨camp, hcamp, hmint, hend⟩ := h.burned t tok hold hb
      obtain ⟨m, b, hcamp'⟩ := hlater.campaign _ camp hcamp
      exact ⟨_, hcamp', hmint, hend⟩
    · exact absurd hb (by simp [newToken])
    · -- redeemed now, by a coupon minted in some earlier transaction
      obtain ⟨tx', hmem, hminted⟩ := h.minted t old hold
      obtain ⟨m, b, hcamp'⟩ := hlater.campaign _ camp hcamp
      refine ⟨_, hcamp', ?_, htime⟩
      show old.mintedAt ≤ tx.env.timestamp
      exact hminted ▸ hlast tx' hmem

theorem runFrom_timed {txs : List Tx} (hord : Ordered txs) (ttl : ℕ) :
    Timed txs (runFrom ttl txs).storage := by
  refine (runFrom_induction (P := fun txs s ↦ Accounted s ∧ Timed txs s) ttl ?_ ?_ ?_ txs hord).2
  · refine ⟨accounted_empty, fun t tok ht ↦ ?_, fun t tok ht ↦ ?_⟩
    · exact absurd ht (by simp [Storage.empty])
    · exact absurd ht (by simp [Storage.empty])
  · intro txs tx s h
    exact ⟨h.1, h.2.concat⟩
  · intro txs tx v s s' evs hlast h heff
    exact ⟨heff.accounted h.1, heff.timed h.1.filed h.2 hlast⟩

/-! ### The theorem -/

/-- **Single use.** In every run a code is redeemed at most once. Until then its coupon is blank;
from then on the coupon keeps the reference and the time of that redemption, and every authorized
attempt to redeem it again is refused as a repetition. A redeemed coupon was redeemed after it was
minted and before its campaign ended. -/
theorem single_use {txs : List Tx} (hord : Ordered txs) (ttl : ℕ) :
    (∀ c code i j ref ref' now now', RedeemsAt ttl txs i c code ref now →
      RedeemsAt ttl txs j c code ref' now' → i = j) ∧
    (∀ c code n tok, verify c code (runFrom ttl (txs.take n)) = .ok tok →
      (∀ i ref now, i < n → ¬RedeemsAt ttl txs i c code ref now) →
        tok.isBurned = false ∧ tok.redeemerRef = BytesN.zero 32 ∧ tok.burnedAt = 0) ∧
    (∀ c code i n ref now, RedeemsAt ttl txs i c code ref now → i < n →
      (∃ tok, verify c code (runFrom ttl (txs.take n)) = .ok tok ∧ tok.isBurned = true ∧
        tok.redeemerRef = ref ∧ tok.burnedAt = now) ∧
      ∀ env who ref', who ∈ env.auths →
        redeemUnique env who c code ref' (runFrom ttl (txs.take n)) =
          .error (.err .alreadyRedeemed)) ∧
    (∀ n t tok, (runFrom ttl (txs.take n)).storage.token t = some tok → tok.isBurned = true →
      ∃ camp, (runFrom ttl (txs.take n)).storage.campaign tok.campaignId = some camp ∧
        tok.mintedAt ≤ tok.burnedAt ∧ tok.burnedAt ≤ camp.validUntil) := by
  refine ⟨fun c code i j ref ref' now now' h h' ↦ ?_, fun c code n tok hverify hnever ↦ ?_,
    fun c code i n ref now h hin ↦ ?_, fun n t tok htok hb ↦ ?_⟩
  · have h₁ := h.not_lt hord h'
    have h₂ := h'.not_lt hord h
    omega
  · obtain ⟨t, hindex, htok⟩ := verify_eq_ok_iff.1 hverify
    obtain ⟨rfl, rfl⟩ := (hord.reachable ttl n).accounted.filed.campaignId_eq hindex htok
    exact blank_of_not_redeemed hord ttl n t tok htok hnever
  · obtain ⟨t, tok, hindex, htok⟩ := h.after hord hin
    refine ⟨⟨_, verify_eq_ok_iff.2 ⟨t, hindex, htok⟩, rfl, rfl, rfl⟩, fun env who ref' hauth ↦ ?_⟩
    exact redeemUnique_of_burned hauth hindex htok rfl
  · exact (runFrom_timed (hord.take n) ttl).burned t tok htok hb

/-- In the sample history the cashier redeems the first code at time 13; after it the owner's own
attempt is a repetition. -/
theorem single_use_sample :
    redeemUnique (Sample.envAt 90 Sample.owner) Sample.owner 1 Sample.code₁ (.zero 32)
      (runFrom 0 (Sample.history.take 5)) = .error (.err .alreadyRedeemed) := by
  have hredeems : RedeemsAt 0 Sample.history 3 1 Sample.code₁ Sample.customer 13 := by
    refine ⟨_, Sample.cashier, rfl, rfl, rfl, ?_⟩
    exact Sample.succeeds (by decide)
  exact ((single_use Sample.ordered_history 0).2.2.1 1 Sample.code₁ 3 5 Sample.customer 13 hredeems
    (by decide)).2 _ Sample.owner (.zero 32) (by decide)

end Soroticket
