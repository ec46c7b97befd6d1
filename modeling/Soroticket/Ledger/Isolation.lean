import Mathlib.Logic.Equiv.Fintype
import Soroticket.Ledger.Mirror

/-!
# Campaigns do not interfere

Take a run and leave out of it every call that does not name the campaign `c`: the calls that remain
give the same results, and `c` ends up with the same answers, up to the numbers of the coupons
issued meanwhile. Two facts make this an induction on the run. A call on another campaign, and the
creation of one, leave what the ledger holds of `c` untouched (`Effect.untouched`), and the one run
keeps mirroring the other through the calls on `c` (`Mirrors.exec`).

The renaming is read off the two final ledgers. No later call takes a code away, so the numbers two
codes had in the middle of the runs are those they have in the end.
-/

namespace Soroticket

open Outcome

/-- What a transaction returns, or the fault it fails with. -/
def Tx.result (tx : Tx) (s : ContractState) : Outcome Error Value := (tx.exec s).map Prod.fst

/-- The transactions that name the campaign, in order. -/
def naming (c : UInt64) (txs : List Tx) : List Tx :=
  txs.filter fun tx ↦ decide (tx.call.campaign? = some c)

/-- A coupon under another number. -/
def CouponToken.rename (ρ : UInt64 → UInt64) (tok : CouponToken) : CouponToken :=
  { tok with tokenId := ρ tok.tokenId }

/-- A value with its coupon numbers renamed. -/
def Value.rename (ρ : UInt64 → UInt64) : Value → Value
  | .ids l => .ids (l.map ρ)
  | .coupon tok => .coupon (tok.rename ρ)
  | .receipt rc => .receipt { rc with tokenId := ρ rc.tokenId }
  | v => v

/-! ### The coupon counter -/

/-- A loop that traps would have taken the counter past its last value. -/
theorem foldlM_mintCode_trap {env : Env} {c : UInt64} :
    ∀ {codes : List Bytes} {s : ContractState} {ids : List UInt64},
      codes.foldlM (mintCode env c) (s, ids) = .error .trap →
        2 ^ 64 ≤ (s.storage.tokCtr.getD 0).toNat + codes.length := by
  intro codes
  induction codes with
  | nil =>
    intro s ids h
    simp at h
  | cons code codes ih =>
    intro s ids h
    rw [List.foldlM_cons, bind_eq_trap_iff] at h
    rcases h with htrap | ⟨⟨s₁, ids₁⟩, hround, hrest⟩
    · simp only [mintCode, bind_eq_trap_iff, rejectIf_ne_trap, rejectIf_eq_ok_iff,
        orTrap_eq_trap_iff, orTrap_eq_ok_iff, ContractState.extendTtl_eq_trap_iff,
        ContractState.extendTtl_eq_ok_iff, ContractState.has_set_self, exists_const, false_or,
        pure_eq_ok, reduceCtorEq, and_false, exists_false, or_false, Bool.true_eq_false] at htrap
      have hnone : (s.storage.tokCtr.getD 0).checkedAdd 1 = none := htrap.2.2.2
      rw [UInt64.checkedAdd, UInt64.toNat_one] at hnone
      split at hnone
      · simp at hnone
      · rw [List.length_cons]
        omega
    · obtain ⟨-, -, -, t, ht, -, hs₁, -⟩ := mintCode_ok hround
      have hctr : (s₁.storage.tokCtr.getD 0).toNat = t.toNat := by rw [hs₁]; rfl
      have hle := ih hrest
      rw [List.length_cons]
      omega

/-- An authorized batch traps only where the counter has no room for it. -/
theorem CounterOverflows.no_room {tx : Tx} {s : ContractState} (h : CounterOverflows tx s) :
    ∃ owner c codes, tx.call = .issueUnique owner c codes ∧
      2 ^ 64 ≤ (s.storage.tokCtr.getD 0).toNat + codes.length := by
  obtain ⟨owner, c, codes, hcall, hauth, hexec⟩ := h
  refine ⟨owner, c, codes, hcall, ?_⟩
  obtain ⟨env, call, replies⟩ := tx
  obtain rfl : call = .issueUnique owner c codes := hcall
  change (direct Value.ids (issueUnique env owner c codes s)).runReplies replies = _ at hexec
  rw [direct, Callout.runReplies_done] at hexec
  have htrap : issueUnique env owner c codes s = .error .trap := by
    rcases hx : issueUnique env owner c codes s with f | p
    · rw [hx] at hexec
      simpa [Except.map] using hexec
    · rw [hx] at hexec
      simp [Except.map] at hexec
  have hno : owner ∉ env.auths ↔ False := by simp [hauth]
  simp only [issueUnique, bind_eq_trap_iff, requireAuth_eq_trap_iff, hno, okOr_ne_trap,
    rejectIf_ne_trap, false_or] at htrap
  obtain ⟨_, -, camp, -, _, -, _, -, _, -, _, -, n, -, _, -, hloop | ⟨⟨s₁, ids⟩, -, hend⟩⟩ := htrap
  · exact foldlM_mintCode_trap hloop
  · simp [extendTtl_set] at hend

/-! ### Calls that do not name the campaign -/

/-- What the ledger holds of the campaign is as it was; coupons may have been issued elsewhere. -/
structure Untouched (c : UInt64) (s s' : Storage) : Prop where
  campaign : s'.campaign c = s.campaign c
  delegate : ∀ who, s'.delegate (c, who) = s.delegate (c, who)
  shared : ∀ code, s'.shared (c, code) = s.shared (c, code)
  tally : ∀ code period, s'.tally (c, code, period) = s.tally (c, code, period)
  settled : ∀ code period, s'.settled (c, code, period) = s.settled (c, code, period)
  codeIndex : ∀ code, s'.codeIndex (c, code) = s.codeIndex (c, code)
  token : ∀ t tok, s.token t = some tok → tok.campaignId = c → s'.token t = some tok
  tokCtr_le : (s.tokCtr.getD 0).toNat ≤ (s'.tokCtr.getD 0).toNat

theorem Untouched.refl (c : UInt64) (s : Storage) : Untouched c s s :=
  ⟨rfl, fun _ ↦ rfl, fun _ ↦ rfl, fun _ _ ↦ rfl, fun _ _ ↦ rfl, fun _ ↦ rfl, fun _ _ h _ ↦ h,
    Nat.le_refl _⟩

/-- A batch of another campaign. -/
theorem Mints.untouched {x c now : UInt64} {s s' : Storage} {codes : List Bytes}
    {ids : List UInt64} (hmints : Mints x now s codes ids s') (hf : Filed s)
    (hx : (s.campaign x).isSome = true) (hne : x ≠ c) :
    (∀ code, s'.codeIndex (c, code) = s.codeIndex (c, code)) ∧
      ∀ t tok, s.token t = some tok → s'.token t = some tok := by
  induction hmints with
  | nil s => exact ⟨fun _ ↦ rfl, fun _ _ h ↦ h⟩
  | @cons s s' code codes t ids hcode hlen hfree ht hrest ih =>
    obtain ⟨hindex, htoken⟩ := ih (hf.mint hx hfree ht) hx
    refine ⟨fun code' ↦ (hindex code').trans (Function.update_of_ne ?_ _ _), fun t' tok h ↦ ?_⟩
    · intro hkey
      exact hne (Prod.mk.inj hkey).1.symm
    · exact htoken t' tok (update_of_free (hf.token_next ht) h)

/-- **A success that does not name the campaign leaves it untouched.** -/
theorem Effect.untouched {env : Env} {call : Call} {v : Value} {s s' : Storage}
    {evs : List Event} (h : Effect env call v s s' evs) (hf : Filed s) {c : UInt64}
    (hc : (s.campaign c).isSome = true) (hname : call.campaign? ≠ some c) : Untouched c s s' := by
  have hrefl := Untouched.refl c s
  -- a key of another campaign is another key
  have hkey : ∀ {α : Type} {x : UInt64} {a b : α}, some x ≠ some c → (c, a) ≠ (x, b) := by
    intro α x a b hne he
    exact hne (by rw [(Prod.mk.inj he).1])
  cases h with
  | unchanged => exact hrefl
  | @createCampaign owner name discountType discountValue totalSupply validUntil id next _ _ _ _
      hid =>
    have hne : c ≠ id := by
      rintro rfl
      rw [hf.campaign_next hid] at hc
      exact Bool.false_ne_true hc
    exact { hrefl with campaign := Function.update_of_ne hne _ _ }
  | addDelegate | removeDelegate =>
    exact { hrefl with delegate := fun who ↦ Function.update_of_ne (hkey hname) _ _ }
  | @issueUnique owner x codes ids _ s₁ camp n _ hcamp _ _ _ _ _ _ hmints =>
    have hne : x ≠ c := fun he ↦ hname (by rw [he]; rfl)
    obtain ⟨hindex, htoken⟩ := hmints.untouched hf (by rw [hcamp]; rfl) hne
    have hctr := hmints.tokCtr_eq
    have hframe := hmints.frame
    exact {
      campaign := by
        show Function.update s₁.campaign x _ c = _
        rw [Function.update_of_ne (Ne.symm hne), hmints.campaign_eq]
      delegate := fun who ↦ by rw [hframe]
      shared := fun code ↦ by rw [hframe]
      tally := fun code period ↦ by rw [hframe]
      settled := fun code period ↦ by rw [hframe]
      codeIndex := hindex
      token := fun t tok ht _ ↦ htoken t tok ht
      tokCtr_le := by
        show (s.tokCtr.getD 0).toNat ≤ (s₁.tokCtr.getD 0).toNat
        omega }
  | @redeemUnique who x t code ref _ tok camp burned _ hindex htok _ _ _ _ _ =>
    obtain ⟨rfl, -⟩ := hf.campaignId_eq hindex htok
    have hne : c ≠ tok.campaignId := fun he ↦ hname (by rw [he]; rfl)
    refine { hrefl with
      campaign := Function.update_of_ne hne _ _
      token := fun t' tok' h' hc' ↦ ?_ }
    refine (Function.update_of_ne ?_ _ _).trans h'
    -- the coupon burned is of another campaign
    rintro rfl
    obtain rfl := Option.some.inj (htok.symm.trans h')
    exact hne hc'.symm
  | registerShared =>
    exact { hrefl with shared := fun code ↦ Function.update_of_ne (hkey hname) _ _ }
  | commitTally =>
    exact { hrefl with tally := fun code period ↦ Function.update_of_ne (hkey hname) _ _ }
  | settle =>
    exact { hrefl with settled := fun code period ↦ Function.update_of_ne (hkey hname) _ _ }

/-- A ledger that mirrors one from before still mirrors it. -/
theorem Mirrors.of_untouched {c : UInt64} {s s' r : Storage} (hf : Filed s) (h : Mirrors c s r)
    (hu : Untouched c s s') : Mirrors c s' r where
  campaign := h.campaign.trans hu.campaign.symm
  delegate who := (h.delegate who).trans (hu.delegate who).symm
  shared code := (h.shared code).trans (hu.shared code).symm
  tally code period := (h.tally code period).trans (hu.tally code period).symm
  settled code period := (h.settled code period).trans (hu.settled code period).symm
  coupon code t tok hindex htok := by
    rw [hu.codeIndex] at hindex
    obtain ⟨old, hold, hc, -⟩ := hf.index_filed c code t hindex
    obtain rfl := Option.some.inj ((hu.token t old hold hc).symm.trans htok)
    exact h.coupon code t old hindex hold
  free code hnone := h.free code ((hu.codeIndex code).symm.trans hnone)
  tokCtr_le := h.tokCtr_le.trans hu.tokCtr_le

/-! ### Along two runs -/

/-- A run keeps the accounts and takes no record away. -/
theorem runAll_later {s : ContractState} (ha : Accounted s.storage) (txs : List Tx) :
    Accounted (runAll Tx.exec s txs).storage ∧
      Later s.storage (runAll Tx.exec s txs).storage := by
  refine runAll_induction
    (P := fun _ (s' : ContractState) ↦ Accounted s'.storage ∧ Later s.storage s'.storage)
    ⟨ha, Later.refl _⟩ ?_ ?_ txs
  · intro ts tx v s' h hexec
    obtain ⟨evs, heff, -⟩ := exec_effect hexec
    exact ⟨heff.accounted h.1, h.2.trans (heff.later h.1.filed)⟩
  · intro ts tx f h _
    exact h

section Runs

variable {s : ContractState} {c : UInt64} {txs : List Tx}

/-- The full run mirrors the one of the calls on the campaign, at every point. By induction on the
number of transactions run. -/
theorem mirrors_take (ha : Accounted s.storage) (hc : (s.storage.campaign c).isSome = true)
    (hsettle : ∀ tx ∈ txs, tx.call.settles = false)
    (hroom : ∀ (k : ℕ) (tx : Tx), txs[k]? = some tx →
      ¬CounterOverflows tx (runAll Tx.exec s (txs.take k))) :
    ∀ k, Mirrors c (runAll Tx.exec s (txs.take k)).storage
      (runAll Tx.exec s (naming c (txs.take k))).storage := by
  intro k
  induction k with
  | zero => exact Mirrors.refl c ha.filed
  | succ k ih =>
    rcases htx : txs[k]? with - | tx
    · rw [List.take_add_one, htx, Option.toList_none, List.append_nil]
      exact ih
    · obtain ⟨hacc, hlater⟩ := runAll_later ha (txs.take k)
      have hacc' := (runAll_later ha (naming c (txs.take k))).1
      rw [List.take_add_one, htx, Option.toList_some, runAll_concat, naming, List.filter_append]
      rw [← naming, ← naming]
      by_cases hname : tx.call.campaign? = some c
      · -- both runs make the call
        rw [show naming c [tx] = [tx] from List.filter_singleton.trans (by simp [hname]),
          runAll_concat]
        have hagree := Mirrors.exec hacc.filed hacc'.filed ih hname
          (hsettle tx (List.mem_of_getElem? htx)) (hroom k tx htx)
        rcases hx : tx.exec (runAll Tx.exec s (txs.take k)) with f | ⟨v, s'⟩
        · rw [hx] at hagree
          rw [applyTx_of_error hx, applyTx_of_error hagree.of_error]
          exact ih
        · rw [hx] at hagree
          obtain ⟨⟨v', r'⟩, hy, hafter⟩ := hagree.of_ok
          rw [applyTx_of_ok hx, applyTx_of_ok hy]
          exact hafter.1
      · -- only the full run does, and it leaves the campaign untouched
        rw [show naming c [tx] = [] from List.filter_singleton.trans (by simp [hname]),
          List.append_nil]
        have hsome : ((runAll Tx.exec s (txs.take k)).storage.campaign c).isSome = true := by
          obtain ⟨camp, hcamp⟩ := Option.isSome_iff_exists.1 hc
          obtain ⟨m, b, hcamp'⟩ := hlater.campaign c camp hcamp
          rw [hcamp']
          rfl
        rcases applyTx_cases Tx.exec (runAll Tx.exec s (txs.take k)) tx with
          ⟨v, s', hx, happ⟩ | ⟨-, happ⟩
        · obtain ⟨evs, heff, -⟩ := exec_effect hx
          rw [happ]
          exact ih.of_untouched hacc.filed (heff.untouched hacc.filed hsome hname)
        · rw [happ]
          exact ih

/-- A later state of a run, from one in the middle. -/
theorem runAll_take_later (ha : Accounted s.storage) (k : ℕ) :
    Later (runAll Tx.exec s (txs.take k)).storage (runAll Tx.exec s txs).storage := by
  have hsplit := runAll_append Tx.exec s (txs.take k) (txs.drop k)
  rw [List.take_append_drop] at hsplit
  rw [hsplit]
  exact (runAll_later (runAll_later ha (txs.take k)).1 (txs.drop k)).2

/-- What is left of a list is what is left of its first part, and more. -/
theorem naming_take (c : UInt64) (txs : List Tx) (k : ℕ) :
    naming c txs = naming c (txs.take k) ++ naming c (txs.drop k) := by
  rw [naming, naming, naming, ← List.filter_append, List.take_append_drop]

theorem runAll_naming_later (ha : Accounted s.storage) (k : ℕ) :
    Later (runAll Tx.exec s (naming c (txs.take k))).storage
      (runAll Tx.exec s (naming c txs)).storage := by
  rw [naming_take c txs k, runAll_append]
  exact (runAll_later (runAll_later ha (naming c (txs.take k))).1 (naming c (txs.drop k))).2

end Runs

/-! ### The renaming -/

section Renaming

variable {c : UInt64} {s S R : Storage}

theorem Twin.symm {t t' : UInt64} (h : Twin c S R t t') : Twin c R S t' t := by
  obtain ⟨code, hcode, hcode'⟩ := h
  exact ⟨code, hcode', hcode⟩

/-- A number has one twin. -/
theorem Twin.unique (hS : Filed S) {t a b : UInt64} (h : Twin c S R t a) (h' : Twin c S R t b) :
    a = b := by
  obtain ⟨code, hcode, ha⟩ := h
  obtain ⟨code', hcode', hb⟩ := h'
  obtain ⟨tok, htok, -⟩ := hS.index_filed c code t hcode
  obtain ⟨-, rfl⟩ := hS.campaignId_eq hcode htok
  obtain ⟨-, rfl⟩ := hS.campaignId_eq hcode' htok
  exact Option.some.inj (ha.symm.trans hb)

/-- A coupon that was there before the runs has the same number in both. -/
theorem Twin.eq_of_old (hs : Filed s) (hS : Filed S) (hsS : Later s S) (hsR : Later s R)
    {t b : UInt64} (hold : (s.token t).isSome = true) (h : Twin c S R t b) : t = b := by
  obtain ⟨tok, htok⟩ := Option.isSome_iff_exists.1 hold
  have hindex := (hs.token_filed t tok htok).2.2
  have htwin : Twin tok.campaignId S R t t :=
    ⟨tok.code, hsS.codeIndex _ t hindex, hsR.codeIndex _ t hindex⟩
  obtain ⟨code, hcode, hb⟩ := h
  obtain ⟨tok', htok', rfl, -⟩ := hS.index_filed c code t hcode
  obtain ⟨hc, -⟩ := hS.campaignId_eq (hsS.codeIndex _ t hindex) htok'
  rw [hc] at hcode hb
  exact htwin.unique hS ⟨code, hcode, hb⟩

/-- **The renaming.** Old coupons keep their numbers, and a new one goes to its twin. -/
theorem exists_renaming (hs : Filed s) (hS : Filed S) (hR : Filed R) (hsS : Later s S)
    (hsR : Later s R) (c : UInt64) :
    ∃ ρ : Equiv.Perm UInt64, (∀ t, (s.token t).isSome = true → ρ t = t) ∧
      ∀ t t', Twin c S R t t' → ρ t = t' := by
  let Related (p : UInt64 × UInt64) : Prop :=
    (p.1 = p.2 ∧ (s.token p.1).isSome = true) ∨ Twin c S R p.1 p.2
  have hleft : ∀ p q, Related p → Related q → p.1 = q.1 → p.2 = q.2 := by
    rintro ⟨t, a⟩ ⟨t', b⟩ hp hq (rfl : t = t')
    rcases hp with ⟨hta, hold⟩ | hp <;> rcases hq with ⟨htb, hold'⟩ | hq
    · exact hta.symm.trans htb
    · exact hta.symm.trans (hq.eq_of_old hs hS hsS hsR hold)
    · exact (hp.eq_of_old hs hS hsS hsR hold').symm.trans htb
    · exact hp.unique hS hq
  have hright : ∀ p q, Related p → Related q → p.2 = q.2 → p.1 = q.1 := by
    rintro ⟨a, t⟩ ⟨b, t'⟩ hp hq (rfl : t = t')
    rcases hp with ⟨hat, hold⟩ | hp <;> rcases hq with ⟨hbt, hold'⟩ | hq
    · exact hat.trans hbt.symm
    · exact hat.trans (hq.symm.eq_of_old hs hR hsR hsS (hat ▸ hold))
    · exact (hp.symm.eq_of_old hs hR hsR hsS (hbt ▸ hold')).symm.trans hbt.symm
    · exact hp.symm.unique hR hq.symm
  obtain ⟨ρ, hρ⟩ := Equiv.Perm.exists_extending_pair
    (fun p : {p : UInt64 × UInt64 // Related p} ↦ p.1.1) (fun p ↦ p.1.2)
    (fun p q h ↦ Subtype.ext (Prod.ext h (hleft p.1 q.1 p.2 q.2 h)))
    (fun p q h ↦ Subtype.ext (Prod.ext (hright p.1 q.1 p.2 q.2 h) h))
  exact ⟨ρ, fun t hold ↦ hρ ⟨(t, t), Or.inl ⟨rfl, hold⟩⟩, fun t t' h ↦ hρ ⟨(t, t'), Or.inr h⟩⟩

/-- Values alike are renamed into each other by whatever sends a number to its twin. -/
theorem Value.Alike.rename_eq {twin : UInt64 → UInt64 → Prop} {ρ : UInt64 → UInt64}
    (hρ : ∀ t t', twin t t' → ρ t = t') {v w : Value} (h : v.Alike twin w) : w = v.rename ρ := by
  cases v with
  | ids l =>
    obtain ⟨l', rfl, htwins⟩ := h
    have hmap : l' = l.map ρ := by
      induction htwins with
      | nil => rfl
      | cons htwin _ ih => rw [List.map_cons, hρ _ _ htwin, ih]
    rw [hmap]
    rfl
  | coupon tok =>
    obtain ⟨t', rfl, htwin⟩ := h
    rw [Value.rename, CouponToken.rename, hρ _ _ htwin]
  | receipt rc =>
    obtain ⟨t', rfl, htwin⟩ := h
    rw [Value.rename, hρ _ _ htwin]
  | unit | u64 | bool | campaign | stats | shared | tally | payouts => exact h

end Renaming

/-! ### The theorem -/

/-- **Campaign isolation.** Let `c` exist in a reachable state, and run any transactions from there,
with no settlement among them and no overflow of the coupon counter. Run from the same state only
those that name `c`, in their own environments. Then some renaming of coupon numbers, which fixes
the coupons that were there before, takes the result of every transaction on `c` in the first run to
its result in the second, errors included, and the final answers about `c` likewise. -/
theorem campaign_isolation {s : ContractState} (hs : Reachable s) {c : UInt64}
    (hc : (s.storage.campaign c).isSome = true) (txs : List Tx)
    (hsettle : ∀ tx ∈ txs, tx.call.settles = false)
    (hroom : ∀ (k : ℕ) (tx : Tx), txs[k]? = some tx →
      ¬CounterOverflows tx (runAll Tx.exec s (txs.take k))) :
    ∃ ρ : Equiv.Perm UInt64, (∀ t, (s.storage.token t).isSome = true → ρ t = t) ∧
      (∀ (k : ℕ) (tx : Tx), txs[k]? = some tx → tx.call.campaign? = some c →
        tx.result (runAll Tx.exec s (naming c (txs.take k))) =
          (tx.result (runAll Tx.exec s (txs.take k))).map (Value.rename ρ)) ∧
      let full := runAll Tx.exec s txs
      let reduced := runAll Tx.exec s (naming c txs)
      getCampaign c reduced = getCampaign c full ∧
      (∀ env, campaignStats env c reduced = campaignStats env c full) ∧
      (∀ code, verify c code reduced = (verify c code full).map (CouponToken.rename ρ)) ∧
      (∀ env code, isValid env c code reduced = isValid env c code full) ∧
      (∀ who, isDelegate c who reduced = isDelegate c who full) ∧
      (∀ code, getShared c code reduced = getShared c code full) ∧
      (∀ code period, getTally c code period reduced = getTally c code period full) ∧
      ∀ code period, computePayouts c code period reduced = computePayouts c code period full := by
  have ha := hs.accounted
  obtain ⟨haS, hsS⟩ := runAll_later ha txs
  obtain ⟨haR, hsR⟩ := runAll_later ha (naming c txs)
  obtain ⟨ρ, hold, hρ⟩ := exists_renaming ha.filed haS.filed haR.filed hsS hsR c
  have hmirror := mirrors_take ha hc hsettle hroom
  have hend : Mirrors c (runAll Tx.exec s txs).storage
      (runAll Tx.exec s (naming c txs)).storage := by
    have hall := hmirror txs.length
    rwa [List.take_length] at hall
  refine ⟨ρ, hold, fun k tx htx hname ↦ ?_, hend.getCampaign_eq, hend.campaignStats_eq,
    fun code ↦ ?_, hend.isValid_eq haS.filed, hend.isDelegate_eq, hend.getShared_eq,
    hend.getTally_eq, hend.computePayouts_eq⟩
  · have hagree := Mirrors.exec (runAll_later ha (txs.take k)).1.filed
      (runAll_later ha (naming c (txs.take k))).1.filed (hmirror k) hname
      (hsettle tx (List.mem_of_getElem? htx)) (hroom k tx htx)
    refine Outcome.Agree.eq_map (hagree.with_ok.map fun p q hpq ↦ ?_)
    obtain ⟨⟨-, hvalue⟩, hx, hy⟩ := hpq
    refine hvalue.rename_eq fun t t' htwin ↦ hρ t t' ?_
    -- the numbers of a code after the call are its numbers at the end
    have htake : txs.take (k + 1) = txs.take k ++ [tx] := by
      rw [List.take_add_one, htx, Option.toList_some]
    have hnaming : naming c (txs.take (k + 1)) = naming c (txs.take k) ++ [tx] := by
      rw [htake, naming, naming, List.filter_append, List.filter_singleton]
      simp [hname]
    have hS : Later _ (runAll Tx.exec s txs).storage := runAll_take_later ha (k + 1)
    have hR : Later _ (runAll Tx.exec s (naming c txs)).storage :=
      runAll_naming_later ha (k + 1)
    rw [htake, runAll_concat, applyTx_of_ok hx] at hS
    rw [hnaming, runAll_concat, applyTx_of_ok hy] at hR
    exact htwin.mono hS.codeIndex hR.codeIndex
  · refine ((hend.verify_agree haS.filed code).imp fun tok tok' htok ↦ ?_).eq_map
    obtain ⟨t', rfl, htwin⟩ := htok
    rw [CouponToken.rename, hρ _ _ htwin]

namespace Sample

/-- A second campaign with a coupon of its own, and then one more coupon of the first. -/
def crossing : List Tx :=
  [⟨envAt 13 cashier, .createCampaign cashier [77] [68] 1 3 100, replies⟩,
   ⟨envAt 14 cashier, .issueUnique cashier 2 [code₁], replies⟩,
   ⟨envAt 15 owner, .issueUnique owner 1 [[67]], replies⟩]

end Sample

/-- The new coupon of the sample's first campaign is number 4 after the second campaign's and number
3 without it; the renaming sends the one to the other and keeps the coupons from before. -/
theorem campaign_isolation_sample :
    ∃ ρ : Equiv.Perm UInt64, ρ 4 = 3 ∧ ρ 1 = 1 ∧ ρ 2 = 2 := by
  have hroom : ∀ (k : ℕ) (tx : Tx), Sample.crossing[k]? = some tx → ¬CounterOverflows tx
      (runAll Tx.exec (runFrom 0 (Sample.history.take 3)) (Sample.crossing.take k)) := by
    intro k tx htx hover
    obtain ⟨owner, c, codes, hcall, hbig⟩ := hover.no_room
    have hctr : ∀ k < 3, ((runAll Tx.exec (runFrom 0 (Sample.history.take 3))
        (Sample.crossing.take k)).storage.tokCtr.getD 0).toNat ≤ 4 := by decide
    have hlen : codes.length = 1 := by
      have hmem := List.mem_of_getElem? htx
      simp only [Sample.crossing, List.mem_cons, List.not_mem_nil, or_false] at hmem
      rcases hmem with rfl | rfl | rfl <;> cases hcall <;> rfl
    have hk := hctr k (List.getElem?_eq_some_iff.1 htx).1
    omega
  obtain ⟨ρ, hold, hresult, -⟩ := campaign_isolation (Sample.reachable_take 3) (c := 1) (by decide)
    Sample.crossing (by decide) hroom
  have hthree := hresult 2 _ rfl rfl
  have hfull : (⟨Sample.envAt 15 Sample.owner, .issueUnique Sample.owner 1 [[67]],
      Sample.replies⟩ : Tx).result (runAll Tx.exec (runFrom 0 (Sample.history.take 3))
        (Sample.crossing.take 2)) = .ok (.ids [4]) := by decide
  have hreduced : (⟨Sample.envAt 15 Sample.owner, .issueUnique Sample.owner 1 [[67]],
      Sample.replies⟩ : Tx).result (runAll Tx.exec (runFrom 0 (Sample.history.take 3))
        (naming 1 (Sample.crossing.take 2))) = .ok (.ids [3]) := by decide
  rw [hfull, hreduced] at hthree
  refine ⟨ρ, ?_, hold 1 (by decide), hold 2 (by decide)⟩
  simpa [Except.map, Value.rename] using hthree.symm

end Soroticket
