import Soroticket.Ledger.Redemption

/-!
# The code index

A coupon is found by the pair of its campaign and its code, and written under a number of its own.
`Filed` makes the index and the coupons point at each other; here the index is tied to the run that
built it. An entry of the index is the record of one success of `issue_unique`
(`codeIndex_iff_issuesAt`), and a campaign's record is that of the call which created it, up to its
two figures (`createsAt_of_campaign`). So whatever reads a coupon through the index reads the one
issued for the code in the campaign, under the terms the campaign was created with.

Positions in a run are those of `Ledger.Redemption`: the transaction `i` runs on the state that
`txs.take i` leaves.
-/

namespace Soroticket

/-- The transaction `i` of the run issues the coupon `t` for `(c, code)`. -/
def IssuesAt (ttl : ℕ) (txs : List Tx) (i : ℕ) (c : UInt64) (code : Bytes) (t : UInt64) : Prop :=
  ∃ (tx : Tx) (owner : Address) (codes : List Bytes) (ids : List UInt64) (s' : ContractState)
    (k : ℕ), txs[i]? = some tx ∧ tx.call = .issueUnique owner c codes ∧
    tx.exec (runFrom ttl (txs.take i)) = .ok (.ids ids, s') ∧
    codes[k]? = some code ∧ ids[k]? = some t

/-- The transaction `i` of the run creates the campaign `c` under the given terms. -/
def CreatesAt (ttl : ℕ) (txs : List Tx) (i : ℕ) (c : UInt64) (owner : Address)
    (name discountType : Bytes) (discountValue : UInt64) (totalSupply : UInt32)
    (validUntil : UInt64) : Prop :=
  ∃ tx s', txs[i]? = some tx ∧
    tx.call = .createCampaign owner name discountType discountValue totalSupply validUntil ∧
    tx.exec (runFrom ttl (txs.take i)) = .ok (.u64 c, s')

/-! ### What a batch writes in the index -/

section Mint

variable {s s' : Storage} {c now : UInt64} {codes : List Bytes} {ids : List UInt64}

/-- A batch rewrites no entry of the index. -/
theorem Mints.codeIndex_mono (h : Mints c now s codes ids s') {k : UInt64 × Bytes} {t : UInt64}
    (hk : s.codeIndex k = some t) : s'.codeIndex k = some t := by
  induction h with
  | nil s => exact hk
  | cons hne hlen hfree ht hrest ih => exact ih (update_of_free hfree hk)

/-- The codes of a batch lead to its coupons, in order. -/
theorem Mints.codeIndex_of_getElem (h : Mints c now s codes ids s') {k : ℕ} {code : Bytes}
    {t : UInt64} (hcode : codes[k]? = some code) (ht : ids[k]? = some t) :
    s'.codeIndex (c, code) = some t := by
  induction h generalizing k with
  | nil s => exact absurd hcode (by simp)
  | @cons s s' code₁ codes t₁ ids hne hlen hfree hnext hrest ih =>
    cases k with
    | zero =>
      obtain rfl : code₁ = code := by simpa using hcode
      obtain rfl : t₁ = t := by simpa using ht
      exact hrest.codeIndex_mono (Function.update_self (c, code₁) _ _)
    | succ k => exact ih (by simpa using hcode) (by simpa using ht)

/-- An entry of the index after a batch was there before, or is of the batch. -/
theorem Mints.codeIndex_origin (h : Mints c now s codes ids s') {x t : UInt64} {code : Bytes}
    (hk : s'.codeIndex (x, code) = some t) :
    s.codeIndex (x, code) = some t ∨
      x = c ∧ ∃ k : ℕ, codes[k]? = some code ∧ ids[k]? = some t := by
  induction h with
  | nil s => exact Or.inl hk
  | @cons s s' code₁ codes t₁ ids hne hlen hfree hnext hrest ih =>
    rcases ih hk with hmid | ⟨hx, k, hcode, ht⟩
    · rcases eq_or_eq_of_update hmid with ⟨hkey, hval⟩ | ⟨-, hold⟩
      · obtain ⟨rfl, rfl⟩ := Prod.mk.inj hkey
        exact Or.inr ⟨rfl, 0, rfl, by rw [hval]; rfl⟩
      · exact Or.inl hold
    · exact Or.inr ⟨hx, k + 1, hcode, ht⟩

end Mint

/-! ### What a success writes in the index and in the campaigns -/

/-- An entry of the index after a success was there before, or was issued by the call. -/
theorem Effect.codeIndex_origin {env : Env} {call : Call} {v : Value} {s s' : Storage}
    {evs : List Event} (h : Effect env call v s s' evs) {c t : UInt64} {code : Bytes}
    (hk : s'.codeIndex (c, code) = some t) :
    s.codeIndex (c, code) = some t ∨ ∃ owner codes ids, ∃ k : ℕ,
      call = .issueUnique owner c codes ∧ v = .ids ids ∧ codes[k]? = some code ∧
      ids[k]? = some t := by
  cases h with
  | @issueUnique owner x codes ids _ s₁ camp n _ _ _ _ _ _ _ _ hmints =>
    rcases hmints.codeIndex_origin hk with hold | ⟨rfl, k, hcode, ht⟩
    · exact Or.inl hold
    · exact Or.inr ⟨owner, codes, ids, k, rfl, rfl, hcode, ht⟩
  | unchanged | createCampaign | addDelegate | removeDelegate | redeemUnique | registerShared
  | commitTally | settle => exact Or.inl hk

/-- After a batch is issued its codes lead to its coupons. -/
theorem Effect.codeIndex_of_issue {env : Env} {owner : Address} {c t : UInt64} {codes : List Bytes}
    {ids : List UInt64} {s s' : Storage} {evs : List Event} {k : ℕ} {code : Bytes}
    (h : Effect env (.issueUnique owner c codes) (.ids ids) s s' evs)
    (hcode : codes[k]? = some code) (ht : ids[k]? = some t) :
    s'.codeIndex (c, code) = some t := by
  cases h with
  | unchanged hcall => exact absurd hcall.symm Bool.false_ne_true
  | issueUnique _ _ _ _ _ _ _ _ hmints => exact hmints.codeIndex_of_getElem hcode ht

/-- A campaign after a success was there before, under the same terms, or was created by the
call. -/
theorem Effect.campaign_origin {env : Env} {call : Call} {v : Value} {s s' : Storage}
    {evs : List Event} (h : Effect env call v s s' evs) {c : UInt64} {camp : Campaign}
    (hc : s'.campaign c = some camp) :
    (∃ old minted burned, s.campaign c = some old ∧ camp = { old with minted, burned }) ∨
      ∃ owner name discountType discountValue totalSupply validUntil,
        call = .createCampaign owner name discountType discountValue totalSupply validUntil ∧
        v = .u64 c ∧
        camp = newCampaign c owner name discountType discountValue totalSupply validUntil := by
  have hsame : s.campaign c = some camp →
      ∃ old minted burned, s.campaign c = some old ∧ camp = { old with minted, burned } :=
    fun hold ↦ ⟨camp, camp.minted, camp.burned, hold, rfl⟩
  cases h with
  | @createCampaign owner name discountType discountValue totalSupply validUntil id =>
    rcases eq_or_eq_of_update hc with ⟨rfl, rfl⟩ | ⟨-, hold⟩
    · exact Or.inr
        ⟨owner, name, discountType, discountValue, totalSupply, validUntil, rfl, rfl, rfl⟩
    · exact Or.inl (hsame hold)
  | @issueUnique owner x codes ids _ s₁ old n _ hcamp _ _ _ _ _ _ hmints =>
    rcases eq_or_eq_of_update hc with ⟨rfl, rfl⟩ | ⟨-, hold⟩
    · exact Or.inl ⟨old, n, old.burned, hcamp, rfl⟩
    · rw [hmints.campaign_eq] at hold
      exact Or.inl (hsame hold)
  | @redeemUnique who x t code ref _ tok old burned _ _ _ _ hcamp =>
    rcases eq_or_eq_of_update hc with ⟨rfl, rfl⟩ | ⟨-, hold⟩
    · exact Or.inl ⟨old, old.minted, burned, hcamp, rfl⟩
    · exact Or.inl (hsame hold)
  | unchanged | addDelegate | removeDelegate | registerShared | commitTally | settle =>
    exact Or.inl (hsame hc)

/-! ### Along a run -/

section Run

variable {txs : List Tx} {ttl : ℕ} {c t : UInt64} {code : Bytes}

/-- An entry of the index is there after its coupon is issued, and ever after. -/
theorem IssuesAt.after (hord : Ordered txs) {i n : ℕ} (h : IssuesAt ttl txs i c code t)
    (hin : i < n) : (runFrom ttl (txs.take n)).storage.codeIndex (c, code) = some t := by
  obtain ⟨tx, owner, codes, ids, s', k, htx, hcall, hexec, hcode, ht⟩ := h
  obtain ⟨evs, heff, -⟩ := exec_effect hexec
  rw [hcall] at heff
  refine (runFrom_later hord ttl (n := i + 1) (m := n) (by omega)).codeIndex _ t ?_
  rw [runFrom_take_succ htx, applyTx_of_ok hexec]
  exact heff.codeIndex_of_issue hcode ht

/-- Every entry of the index was issued. By induction on the length of the run. -/
theorem issuesAt_of_codeIndex (ttl : ℕ) (txs : List Tx) :
    ∀ n c code t, (runFrom ttl (txs.take n)).storage.codeIndex (c, code) = some t →
      ∃ i < n, IssuesAt ttl txs i c code t := by
  intro n
  induction n with
  | zero =>
    intro c code t h
    exact absurd h (by simp [runFrom, ContractState.deployed, Storage.empty])
  | succ n ih =>
    intro c code t h
    have hold : (runFrom ttl (txs.take n)).storage.codeIndex (c, code) = some t →
        ∃ i < n + 1, IssuesAt ttl txs i c code t := by
      intro hold
      obtain ⟨i, hi, hissue⟩ := ih c code t hold
      exact ⟨i, by omega, hissue⟩
    rcases htx : txs[n]? with - | tx
    · rw [List.take_add_one, htx, Option.toList_none, List.append_nil] at h
      exact hold h
    · rw [List.take_add_one, htx, Option.toList_some] at h
      rcases runFrom_concat_cases ttl (txs.take n) tx with
        ⟨v, s', evs, hexec, hrun, heff, -⟩ | ⟨-, hrun⟩
      · rw [hrun] at h
        rcases heff.codeIndex_origin h with hprev | ⟨owner, codes, ids, k, hcall, rfl, hcode, ht⟩
        · exact hold hprev
        · exact ⟨n, by omega, tx, owner, codes, ids, s', k, htx, hcall, hexec, hcode, ht⟩
      · rw [hrun] at h
        exact hold h

/-- **The index records what was issued.** -/
theorem codeIndex_iff_issuesAt (hord : Ordered txs) (n : ℕ) :
    (runFrom ttl (txs.take n)).storage.codeIndex (c, code) = some t ↔
      ∃ i < n, IssuesAt ttl txs i c code t := by
  constructor
  · exact issuesAt_of_codeIndex ttl txs n c code t
  · rintro ⟨i, hi, hissue⟩
    exact hissue.after hord hi

/-- At the end of a run: the index records what the run issued. -/
theorem codeIndex_iff_exists_issuesAt (hord : Ordered txs) :
    (runFrom ttl txs).storage.codeIndex (c, code) = some t ↔ ∃ i, IssuesAt ttl txs i c code t := by
  have hiff : (runFrom ttl (txs.take txs.length)).storage.codeIndex (c, code) = some t ↔
      ∃ i < txs.length, IssuesAt ttl txs i c code t := codeIndex_iff_issuesAt hord txs.length
  rw [List.take_length] at hiff
  rw [hiff]
  constructor
  · rintro ⟨i, -, h⟩
    exact ⟨i, h⟩
  · rintro ⟨i, h⟩
    obtain ⟨tx, owner, codes, ids, s', k, htx, -⟩ := id h
    exact ⟨i, (List.getElem?_eq_some_iff.1 htx).1, h⟩

/-- Every campaign was created, under the terms its record shows. By induction on the length of the
run. -/
theorem createsAt_of_campaign (ttl : ℕ) (txs : List Tx) :
    ∀ n c camp, (runFrom ttl (txs.take n)).storage.campaign c = some camp →
      ∃ i < n, CreatesAt ttl txs i c camp.owner camp.name camp.discountType camp.discountValue
        camp.totalSupply camp.validUntil := by
  intro n
  induction n with
  | zero =>
    intro c camp h
    exact absurd h (by simp [runFrom, ContractState.deployed, Storage.empty])
  | succ n ih =>
    intro c camp h
    have hold : (runFrom ttl (txs.take n)).storage.campaign c = some camp →
        ∃ i < n + 1, CreatesAt ttl txs i c camp.owner camp.name camp.discountType
          camp.discountValue camp.totalSupply camp.validUntil := by
      intro hold
      obtain ⟨i, hi, hcreate⟩ := ih c camp hold
      exact ⟨i, by omega, hcreate⟩
    rcases htx : txs[n]? with - | tx
    · rw [List.take_add_one, htx, Option.toList_none, List.append_nil] at h
      exact hold h
    · rw [List.take_add_one, htx, Option.toList_some] at h
      rcases runFrom_concat_cases ttl (txs.take n) tx with
        ⟨v, s', evs, hexec, hrun, heff, -⟩ | ⟨-, hrun⟩
      · rw [hrun] at h
        rcases heff.campaign_origin h with ⟨old, minted, burned, hprev, rfl⟩ |
          ⟨owner, name, discountType, discountValue, totalSupply, validUntil, hcall, rfl, rfl⟩
        · obtain ⟨i, hi, hcreate⟩ := ih c old hprev
          exact ⟨i, by omega, hcreate⟩
        · exact ⟨n, by omega, tx, s', htx, hcall, hexec⟩
      · rw [hrun] at h
        exact hold h

end Run

/-! ### Numbers and codes -/

section Filed

variable {s : Storage}

/-- An entry of the index is a coupon of its campaign with its code. -/
theorem Filed.codeIndex_iff (h : Filed s) {c t : UInt64} {code : Bytes} :
    s.codeIndex (c, code) = some t ↔
      ∃ tok, s.token t = some tok ∧ tok.campaignId = c ∧ tok.code = code := by
  constructor
  · exact h.index_filed c code t
  · rintro ⟨tok, htok, rfl, rfl⟩
    exact (h.token_filed t tok htok).2.2

/-- The numbers up to the counter are those the index leads to, each from one entry. -/
theorem Filed.existsUnique_iff (h : Filed s) {t : UInt64} :
    (∃! k, s.codeIndex k = some t) ↔ 1 ≤ t.toNat ∧ t.toNat ≤ (s.tokCtr.getD 0).toNat := by
  rw [← h.token_iff, Option.isSome_iff_exists]
  constructor
  · rintro ⟨⟨c, code⟩, hk, -⟩
    obtain ⟨tok, htok, -⟩ := h.codeIndex_iff.1 hk
    exact ⟨tok, htok⟩
  · rintro ⟨tok, htok⟩
    refine ⟨(tok.campaignId, tok.code), h.codeIndex_iff.2 ⟨tok, htok, rfl, rfl⟩, ?_⟩
    rintro ⟨c, code⟩ hk
    obtain ⟨tok', htok', rfl, rfl⟩ := h.codeIndex_iff.1 hk
    rw [Option.some.inj (htok.symm.trans htok')]

/-- No entry of the index leads past the counter. -/
theorem Filed.codeIndex_le (h : Filed s) {k : UInt64 × Bytes} {t : UInt64}
    (hk : s.codeIndex k = some t) : 1 ≤ t.toNat ∧ t.toNat ≤ (s.tokCtr.getD 0).toNat := by
  obtain ⟨tok, htok, -⟩ := h.codeIndex_iff.1 (show s.codeIndex (k.1, k.2) = some t from hk)
  exact (h.token_iff t).1 (by rw [htok]; rfl)

end Filed

/-- A code can be redeemed when its coupon is unburned and its campaign has not ended. -/
theorem isValid_iff {env : Env} {c : UInt64} {code : Bytes} {s : ContractState} :
    isValid env c code s = true ↔ ∃ t tok camp, s.storage.codeIndex (c, code) = some t ∧
      s.storage.token t = some tok ∧ tok.isBurned = false ∧
      s.storage.campaign tok.campaignId = some camp ∧ env.timestamp ≤ camp.validUntil := by
  simp only [isValid, ContractState.get_def, Storage.get]
  rcases s.storage.codeIndex (c, code) with - | t
  · simp
  · rcases htok : s.storage.token t with - | tok
    · simp [htok]
    · rcases hb : tok.isBurned with - | -
      · rcases hcamp : s.storage.campaign tok.campaignId with - | camp
        · simp [htok, hb, hcamp]
        · simp [htok, hb, hcamp]
      · simp [htok, hb]

/-- Its coupon and its campaign are those the code is filed under. -/
theorem Filed.isValid_iff {s : ContractState} (h : Filed s.storage) {env : Env} {c : UInt64}
    {code : Bytes} : isValid env c code s = true ↔ ∃ t tok camp,
      s.storage.codeIndex (c, code) = some t ∧ s.storage.token t = some tok ∧
      tok.isBurned = false ∧ s.storage.campaign c = some camp ∧
      env.timestamp ≤ camp.validUntil := by
  rw [Soroticket.isValid_iff]
  constructor
  · rintro ⟨t, tok, camp, hindex, htok, hb, hcamp, htime⟩
    obtain ⟨rfl, rfl⟩ := h.campaignId_eq hindex htok
    exact ⟨t, tok, camp, hindex, htok, hb, hcamp, htime⟩
  · rintro ⟨t, tok, camp, hindex, htok, hb, hcamp, htime⟩
    obtain ⟨rfl, rfl⟩ := h.campaignId_eq hindex htok
    exact ⟨t, tok, camp, hindex, htok, hb, hcamp, htime⟩

/-! ### The theorem -/

/-- **The code index is a bijection.** In every state of a run the index leads from `(c, code)` to
the coupon of `c` that carries `code`, which is the one some transaction issued for it; the coupon
numbers are those up to the counter, each reached from one pair; and a coupon is stored under its
own number. So `verify` and `is_valid` answer for that coupon, and a redemption burns it alone and
returns its number, the campaign asked for, and the name and reward the campaign was created
with. -/
theorem code_index_bijection {txs : List Tx} (hord : Ordered txs) (ttl : ℕ) :
    (∀ c code t, (runFrom ttl txs).storage.codeIndex (c, code) = some t ↔
      ∃ tok, (runFrom ttl txs).storage.token t = some tok ∧ tok.campaignId = c ∧
        tok.code = code) ∧
    (∀ t : UInt64, 1 ≤ t.toNat ∧ t.toNat ≤ (totalMinted (runFrom ttl txs)).toNat →
      ∃! k, (runFrom ttl txs).storage.codeIndex k = some t) ∧
    (∀ t : UInt64, (∃ tok, (runFrom ttl txs).storage.token t = some tok) ∨
      (∃ k, (runFrom ttl txs).storage.codeIndex k = some t) →
        1 ≤ t.toNat ∧ t.toNat ≤ (totalMinted (runFrom ttl txs)).toNat) ∧
    (∀ t tok, (runFrom ttl txs).storage.token t = some tok → tok.tokenId = t) ∧
    (∀ c code t, (runFrom ttl txs).storage.codeIndex (c, code) = some t ↔
      ∃ i, IssuesAt ttl txs i c code t) ∧
    (∀ c code tok, verify c code (runFrom ttl txs) = .ok tok ↔
      ∃ i t, IssuesAt ttl txs i c code t ∧ (runFrom ttl txs).storage.token t = some tok) ∧
    (∀ env c code, isValid env c code (runFrom ttl txs) = true ↔
      ∃ i t tok camp, IssuesAt ttl txs i c code t ∧
        (runFrom ttl txs).storage.token t = some tok ∧ tok.isBurned = false ∧
        (runFrom ttl txs).storage.campaign c = some camp ∧ env.timestamp ≤ camp.validUntil) ∧
    (∀ env who c code ref r s', redeemUnique env who c code ref (runFrom ttl txs) = .ok (r, s') →
      ∃ i t tok, IssuesAt ttl txs i c code t ∧ (runFrom ttl txs).storage.token t = some tok ∧
        s'.storage.token = Function.update (runFrom ttl txs).storage.token t
          (some (tok.burn ref env.timestamp)) ∧
        r.tokenId = t ∧ r.code = code ∧ r.campaignId = c ∧
        ∃ j owner totalSupply validUntil, CreatesAt ttl txs j c owner r.campaignName
          r.discountType r.discountValue totalSupply validUntil) := by
  have hreach : Reachable (runFrom ttl txs) := ⟨ttl, txs, hord, rfl⟩
  have hf := hreach.accounted.filed
  have hissue : ∀ c code t, (runFrom ttl txs).storage.codeIndex (c, code) = some t ↔
      ∃ i, IssuesAt ttl txs i c code t := fun c code t ↦ codeIndex_iff_exists_issuesAt hord
  refine ⟨fun c code t ↦ hf.codeIndex_iff, fun t ↦ hf.existsUnique_iff.2, fun t h ↦ ?_,
    fun t tok h ↦ (hf.token_filed t tok h).1, hissue, fun c code tok ↦ ?_, fun env c code ↦ ?_,
    fun env who c code ref r s' h ↦ ?_⟩
  · rcases h with ⟨tok, htok⟩ | ⟨k, hk⟩
    · exact (hf.token_iff t).1 (by rw [htok]; rfl)
    · exact hf.codeIndex_le hk
  · rw [verify_eq_ok_iff]
    constructor
    · rintro ⟨t, hindex, htok⟩
      obtain ⟨i, hi⟩ := (hissue c code t).1 hindex
      exact ⟨i, t, hi, htok⟩
    · rintro ⟨i, t, hi, htok⟩
      exact ⟨t, (hissue c code t).2 ⟨i, hi⟩, htok⟩
  · rw [hf.isValid_iff]
    constructor
    · rintro ⟨t, tok, camp, hindex, hrest⟩
      obtain ⟨i, hi⟩ := (hissue c code t).1 hindex
      exact ⟨i, t, tok, camp, hi, hrest⟩
    · rintro ⟨i, t, tok, camp, hi, hrest⟩
      exact ⟨t, tok, camp, (hissue c code t).2 ⟨i, hi⟩, hrest⟩
  · obtain ⟨-, t, tok, camp, burned, hindex, htok, -, hcamp, -, -, -, rfl, hs', -⟩ :=
      redeemUnique_ok h
    obtain ⟨rfl, rfl⟩ := hf.campaignId_eq hindex htok
    obtain ⟨i, hi⟩ := (hissue _ _ t).1 hindex
    have hcreate := createsAt_of_campaign ttl txs txs.length tok.campaignId camp
    rw [List.take_length] at hcreate
    obtain ⟨j, -, hj⟩ := hcreate hcamp
    exact ⟨i, t, tok, hi, htok, by rw [hs'], rfl, rfl, hf.campaign_id _ camp hcamp, j, _, _, _, hj⟩

/-- In the sample history the third transaction issues coupon 2 for the second code, which is
untouched by the redemption of the first. -/
theorem code_index_bijection_sample :
    (∃ i, IssuesAt 0 Sample.history i 1 Sample.code₂ 2) ∧
      ∃! k, (runFrom 0 Sample.history).storage.codeIndex k = some 2 := by
  have h := code_index_bijection Sample.ordered_history 0
  exact ⟨(h.2.2.2.2.1 1 Sample.code₂ 2).1 (by decide), h.2.1 2 (by decide)⟩

end Soroticket
