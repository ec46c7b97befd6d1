import Soroticket.Ledger.Amounts

/-!
# The books of a run

The contract is run against tokens that do what tokens should, each with books of its own
(`Market`). It moves nothing but by a settlement, and a settlement moves what its period is owed, in
the token of its code, from the owner of the campaign to the addresses of the tally. So after any
calls of anybody the books are those from before and the payments that were made (`books_balance`),
and there is one payment for each period that was settled.
-/

namespace Soroticket

variable {τ : Type} {h : (op : TokenCall) → τ → Option (op.Answer × τ)}
  {balance : Address → τ → Address → ℤ} {allowance : Address → τ → Address → Address → ℤ}

/-! ### Tokens beside each other -/

/-- The token that is called. -/
def TokenCall.token : TokenCall → Address
  | .allowance token _ _ | .balance token _ | .transferFrom token _ _ _ _ => token

/-- Every token conforms, and leaves the balances of the others as they are. -/
structure Market (h : (op : TokenCall) → τ → Option (op.Answer × τ))
    (balance : Address → τ → Address → ℤ) (allowance : Address → τ → Address → Address → ℤ) :
    Prop where
  conforming : ∀ token, Conforming h token (balance token) (allowance token)
  others : ∀ {op : TokenCall} {t t' : τ} {r : op.Answer}, h op t = some (r, t') →
    ∀ token, op.token ≠ token → balance token t' = balance token t

/-- The transfers of one token move no other. -/
theorem Market.transferAll_others (hmarket : Market h balance allowance)
    {token other spender owner : Address} (hne : token ≠ other)
    {rest : ContractState → Interaction (List Payout)} {out : List Payout} {s' : ContractState}
    {t' : τ}
    (hrest : ∀ s t, (rest s).runWith h t = .ok (out, s', t') → balance other t' = balance other t)
    (ps : List Payout) (s : ContractState) (t : τ)
    (hrun : (transferAll token spender owner rest ps s).runWith h t = .ok (out, s', t')) :
    balance other t' = balance other t := by
  induction ps generalizing s t with
  | nil => exact hrest s t hrun
  | cons p ps ih =>
    rw [transferAll, Callout.runWith] at hrun
    split at hrun
    · rename_i t₁ hcall
      exact (ih _ _ hrun).trans (hmarket.others hcall other hne)
    · exact absurd hrun (by simp)

/-- Neither does a settlement. -/
theorem Market.settlePayments_others (hmarket : Market h balance allowance) {env : Env}
    {owner other : Address} {c period : UInt64} {plan : SettlePlan} (hne : plan.token ≠ other)
    {s s' : ContractState} {t t' : τ} {out : List Payout}
    (hrun : (settlePayments env owner c period plan s).runWith h t = .ok (out, s', t')) :
    balance other t' = balance other t := by
  rw [settlePayments, Callout.runWith] at hrun
  split at hrun
  · rename_i allowed t₁ hallowance
    split at hrun
    · exact absurd hrun (by simp [Callout.runWith])
    · rw [Callout.runWith] at hrun
      split at hrun
      · rename_i held t₂ hbalance
        split at hrun
        · exact absurd hrun (by simp [Callout.runWith])
        · have hend : balance other t' = balance other t₂ := by
            refine hmarket.transferAll_others hne (fun s t h ↦ ?_) _ _ _ hrun
            obtain ⟨-, -, rfl⟩ : plan.out = out ∧ _ = s' ∧ t = t' := by
              simpa [Callout.runWith] using h
            rfl
          rw [hend, hmarket.others hbalance other hne, hmarket.others hallowance other hne]
      · exact absurd hrun (by simp)
  · exact absurd hrun (by simp)

/-- Any number of tokens of one kind, each with its own books. -/
def eachToken (h : (op : TokenCall) → τ → Option (op.Answer × τ)) (op : TokenCall)
    (t : Address → τ) : Option (op.Answer × (Address → τ)) :=
  (h op (t op.token)).map fun (r, books) ↦ (r, Function.update t op.token books)

theorem eachToken_of {op : TokenCall} {t : Address → τ} {r : op.Answer} {books : τ}
    (hcall : h op (t op.token) = some (r, books)) :
    eachToken h op t = some (r, Function.update t op.token books) := by rw [eachToken, hcall]; rfl

/-- Conforming tokens beside each other. -/
theorem market_eachToken {balance : τ → Address → ℤ} {allowance : τ → Address → Address → ℤ}
    (hconf : ∀ token, Conforming h token balance allowance) :
    Market (eachToken h) (fun token t ↦ balance (t token)) fun token t ↦ allowance (t token) where
  conforming token :=
    { allowance_eq := fun t owner spender ↦ by
        obtain ⟨a, books, hcall, ha, hbalance, hallowance⟩ :=
          (hconf token).allowance_eq (t token) owner spender
        refine ⟨a, Function.update t token books, eachToken_of hcall, ha, ?_, ?_⟩
        · rw [Function.update_self]
          exact hbalance
        · rw [Function.update_self]
          exact hallowance
      balance_eq := fun t owner ↦ by
        obtain ⟨a, books, hcall, ha, hbalance, hallowance⟩ :=
          (hconf token).balance_eq (t token) owner
        refine ⟨a, Function.update t token books, eachToken_of hcall, ha, ?_, ?_⟩
        · rw [Function.update_self]
          exact hbalance
        · rw [Function.update_self]
          exact hallowance
      transfer_ok := fun t spender owner payee amount hpos hbal hallow ↦ by
        obtain ⟨books, hcall, hbalance, hallowance⟩ :=
          (hconf token).transfer_ok (t token) spender owner payee amount hpos hbal hallow
        refine ⟨Function.update t token books, eachToken_of hcall, ?_, ?_⟩
        · rw [Function.update_self]
          exact hbalance
        · rw [Function.update_self]
          exact hallowance
      transfer_short := fun t spender owner payee amount hpos hshort ↦ by
        have hcall := (hconf token).transfer_short (t token) spender owner payee amount hpos hshort
        exact congrArg (Option.map _) hcall }
  others := by
    intro op t t' r hcall token hne
    obtain ⟨⟨r', books⟩, -, heq⟩ := Option.map_eq_some_iff.1 hcall
    obtain ⟨-, rfl⟩ := Prod.mk.inj heq
    rw [Function.update_of_ne hne.symm]

/-! ### Payments -/

/-- What a settlement has moved. -/
structure Payment where
  key : PeriodKey
  token : Address
  owner : Address
  payouts : List Payout

/-- What an address has gained of a token by a payment. -/
def Payment.gain (token a : Address) (p : Payment) : ℤ :=
  if p.token = token then paidTo p.payouts a - if a = p.owner then payoutSum p.payouts else 0 else 0

/-- A payment is as its period has it: from the owner of the campaign, in the token of the code, and
the count of the tally times the rate, all for the target of the code. -/
structure Payment.Due (s : Storage) (p : Payment) : Prop where
  owner : ∃ camp, s.campaign p.key.1 = some camp ∧ camp.owner = p.owner
  amount : ∃ sc tally target, s.shared (p.key.1, p.key.2.1) = some sc ∧
    sc.payoutToken = some p.token ∧ sc.attributedTo = some target ∧ s.tally p.key = some tally ∧
    payoutSum p.payouts = tally.count.toNat * sc.payoutRate.val ∧
    ∀ a, paidTo p.payouts a = if a = target then payoutSum p.payouts else 0

/-- It stays so. -/
theorem Payment.Due.later {s s' : Storage} {p : Payment} (h : p.Due s) (hlater : Later s s') :
    p.Due s' := by
  obtain ⟨⟨camp, hcamp, howner⟩, sc, tally, target, hshared, htoken, htarget, htally, hamount⟩ := h
  obtain ⟨minted, burned, hcamp'⟩ := hlater.campaign _ _ hcamp
  exact ⟨⟨_, hcamp', howner⟩, sc, tally, target, hlater.shared _ _ hshared, htoken, htarget,
    hlater.tally _ _ htally, hamount⟩

/-- The payment of a call that has succeeded, if it is a settlement. -/
def payment? (s : Storage) : Call → Value → Option Payment
  | .settle owner c code period, .payouts out => do
    let sc ← s.shared (c, code)
    let token ← sc.payoutToken
    return ⟨(c, code, period), token, owner, out⟩
  | _, _ => none

/-- Who settles a period owns its campaign, and pays the addresses of its tally. -/
theorem Effect.settled_by {env : Env} {owner : Address} {c period : UInt64} {code : Bytes}
    {out : List Payout} {s s' : Storage} {evs : List Event}
    (h : Effect env (.settle owner c code period) (.payouts out) s s' evs) :
    (∃ camp, s.campaign c = some camp ∧ camp.owner = owner) ∧
      ∃ tally, s.tally (c, code, period) = some tally ∧
        ∀ q ∈ out, q.payee ∈ tally.perAttribution.entries.map Prod.fst := by
  cases h with
  | unchanged hcall => exact absurd hcall.symm Bool.false_ne_true
  | settle hcamp howner hshared htoken hrate htally hfree hplan hloop =>
    obtain ⟨ps, hps, hout, -⟩ := foldlM_addSettlement_eq_ok_iff.1 hloop
    rw [List.nil_append] at hout
    refine ⟨⟨_, hcamp, howner⟩, _, htally, fun q hq ↦ ?_⟩
    rw [hout] at hq
    rw [← map_payee hps]
    exact List.mem_map_of_mem (List.mem_filter.1 hq).1

/-- Payouts for one address alone. -/
theorem paidTo_of_payees {ps : List Payout} {target : Address} (h : ∀ q ∈ ps, q.payee = target)
    (a : Address) : paidTo ps a = if a = target then payoutSum ps else 0 := by
  induction ps with
  | nil => simp [paidTo]
  | cons q ps ih =>
    rw [paidTo_cons, payoutSum_cons, h q List.mem_cons_self,
      ih fun q hq ↦ h q (List.mem_cons_of_mem _ hq)]
    rcases eq_or_ne a target with rfl | hne
    · rw [if_pos rfl, if_pos rfl, if_pos rfl]
    · rw [if_neg hne.symm, if_neg hne, if_neg hne, add_zero]

/-- A settlement makes its payment. -/
theorem Effect.pays {env : Env} {owner : Address} {c period : UInt64} {code : Bytes} {v : Value}
    {s s' : ContractState} {evs : List Event}
    (h : Effect env (.settle owner c code period) v s.storage s'.storage evs)
    (hs : Accounted s.storage) (hi : TallyIntegrity s.storage) :
    ∃ out sc tally token, v = .payouts out ∧ s.storage.shared (c, code) = some sc ∧
      sc.payoutToken = some token ∧ s.storage.tally (c, code, period) = some tally ∧
      (Payment.mk (c, code, period) token owner out).Due s'.storage := by
  obtain ⟨out, rfl, howed, -, hnow⟩ := h.settles
  obtain ⟨sc, tally, hshared, htally, hsum⟩ := howed
  have hsettled : s'.storage.settled (c, code, period) ≠ none := by
    rw [hnow]
    exact Option.some_ne_none true
  have htoken : sc.payoutToken.isSome = true := by
    obtain ⟨-, sc', hsc', htoken⟩ := (h.tallyIntegrity hi).settled c code period hsettled
    obtain rfl := Option.some.inj (((h.later hs.filed).shared _ _ hshared).symm.trans hsc')
    exact htoken
  have hamount := hsum.trans (owed_eq_count_mul hi hshared htally htoken)
  obtain ⟨target, htarget⟩ := Option.isSome_iff_exists.1 ((hi.terms _ sc hshared).2 htoken)
  obtain ⟨token, htoken⟩ := Option.isSome_iff_exists.1 htoken
  obtain ⟨⟨camp, hcamp, howner⟩, tally', htally', hpayees⟩ := h.settled_by
  obtain rfl := Option.some.inj (htally.symm.trans htally')
  have hpayee : ∀ q ∈ out, q.payee = target := by
    intro q hq
    obtain ⟨sc', hsc', hrule⟩ := hi.tally c code period tally htally
    obtain rfl := Option.some.inj (hshared.symm.trans hsc')
    rw [htarget] at hrule
    obtain ⟨e, he, heq⟩ := List.mem_map.1 (hpayees q hq)
    rw [← heq]
    exact hrule.1 e he
  have hdue : (Payment.mk (c, code, period) token owner out).Due s.storage :=
    ⟨⟨camp, hcamp, howner⟩, sc, tally, target, hshared, htoken, htarget, htally, hamount,
      paidTo_of_payees hpayee⟩
  exact ⟨out, sc, tally, token, rfl, hshared, htoken, htally, hdue.later (h.later hs.filed)⟩

/-- A settlement moves its payment, and nothing else. -/
theorem Market.settle_gain (hmarket : Market h balance allowance) {env : Env} {owner : Address}
    {c period : UInt64} {code : Bytes} {s s' : ContractState} {t t' : τ} {out : List Payout}
    {sc : SharedCode} {tally : TallyCommitment} {token : Address}
    (hshared : s.storage.shared (c, code) = some sc) (htoken : sc.payoutToken = some token)
    (htally : s.storage.tally (c, code, period) = some tally)
    (hrun : (settle env owner c code period s).runWith h t = .ok (out, s', t'))
    (token' a : Address) :
    balance token' t' a =
      balance token' t a + Payment.gain token' a ⟨(c, code, period), token, owner, out⟩ := by
  -- the owner is all that is read of the campaign
  let camp : Campaign := ⟨c, owner, [], [], 0, 0, 0, 0, 0⟩
  have hsettle : (settle env camp.owner c code period s).runWith h t = .ok (out, s', t') := hrun
  rw [Payment.gain]
  dsimp only
  split
  · rename_i heq
    obtain rfl := heq
    have hconf : ∀ token', sc.payoutToken = some token' →
        Conforming h token' (balance token) (allowance token) := by
      intro token' htoken'
      obtain rfl := Option.some.inj (htoken.symm.trans htoken')
      exact hmarket.conforming token
    obtain ⟨-, -, -, -, -, -, hbalance, -⟩ := settle_eq_ok hshared htally hconf hsettle
    rw [hbalance, paidOut, add_sub_assoc]
  · rename_i hne
    obtain ⟨plan, s₁, hchecks, -⟩ := settle_ok hsettle
    obtain ⟨hplan, -⟩ := settleChecks_committed hshared htally hchecks
    obtain rfl := Option.some.inj (htoken.symm.trans hplan)
    rw [settle_of_checks hchecks] at hsettle
    rw [hmarket.settlePayments_others hne hsettle, add_zero]

/-! ### Runs -/

/-- The contract, the books of the tokens, and the payments so far. -/
structure Sheet (τ : Type) where
  chain : ContractState
  books : τ
  paid : List Payment

namespace Sheet

/-- One call: a success counts, a failure changes nothing. -/
def turn (h : (op : TokenCall) → τ → Option (op.Answer × τ)) (x : Sheet τ) (i : Invocation) :
    Sheet τ :=
  match (invoke i x.chain).runWith h x.books with
  | .ok (v, chain, books) => ⟨chain, books, x.paid ++ (payment? x.chain.storage i.2 v).toList⟩
  | .error _ => x

/-- Any calls of anybody. -/
def run (h : (op : TokenCall) → τ → Option (op.Answer × τ)) (x : Sheet τ)
    (calls : List Invocation) : Sheet τ := calls.foldl (turn h) x

/-- The books are those from before and the payments, one for each period that was settled since. -/
structure Balanced (balance : Address → τ → Address → ℤ) (s : Storage) (t : τ) (x : Sheet τ) :
    Prop where
  accounted : Accounted x.chain.storage
  integrity : TallyIntegrity x.chain.storage
  books : ∀ token a,
    balance token x.books a = balance token t a + (x.paid.map (Payment.gain token a)).sum
  nodup : (x.paid.map Payment.key).Nodup
  settled : ∀ k, x.chain.storage.settled k ≠ none ↔
    s.settled k ≠ none ∨ k ∈ x.paid.map Payment.key
  paid : ∀ p ∈ x.paid, s.settled p.key = none ∧ p.Due x.chain.storage

namespace Balanced

variable {s : Storage} {t : τ} {x : Sheet τ} {v : Value} {chain : ContractState} {books : τ}

/-- A call that is no settlement. -/
theorem unpaid (hx : Balanced balance s t x) {i : Invocation} (hkey : settleKey i = none)
    (hrun : (invoke i x.chain).runWith h x.books = .ok (v, chain, books)) :
    Balanced balance s t ⟨chain, books, x.paid⟩ := by
  obtain ⟨evs, heffect⟩ := runWith_effect hrun
  obtain ⟨r, hr⟩ := invoke_done hkey x.chain
  have hbooks : books = x.books := by
    rw [hr] at hrun
    rcases r with f | ⟨v', s'⟩
    · exact absurd hrun (by simp [Callout.runWith])
    · exact (Prod.mk.inj (Prod.mk.inj (Except.ok.inj hrun)).2).2.symm
  have hsettled : ∀ k, chain.storage.settled k = x.chain.storage.settled k := fun k ↦
    heffect.settled_of_ne fun hk ↦ Option.some_ne_none k (hk.symm.trans hkey)
  have hlater := heffect.later hx.accounted.filed
  refine ⟨heffect.accounted hx.accounted, heffect.tallyIntegrity hx.integrity, ?_, hx.nodup,
    fun k ↦ ?_, fun p hp ↦ ⟨(hx.paid p hp).1, (hx.paid p hp).2.later hlater⟩⟩
  · rw [hbooks]
    exact hx.books
  · rw [hsettled]
    exact hx.settled k

/-- A settlement. -/
theorem settle (hmarket : Market h balance allowance) (hx : Balanced balance s t x) {env : Env}
    {owner : Address} {c period : UInt64} {code : Bytes}
    (hrun : ((Call.settle owner c code period).exec env x.chain).runWith h x.books =
      .ok (v, chain, books)) :
    ∃ p, payment? x.chain.storage (.settle owner c code period) v = some p ∧
      Balanced balance s t ⟨chain, books, x.paid ++ [p]⟩ := by
  obtain ⟨evs, heffect⟩ := runWith_effect hrun
  obtain ⟨out, sc, tally, token, rfl, hshared, htoken, htally, hdue⟩ :=
    heffect.pays hx.accounted hx.integrity
  obtain ⟨out', hout, hsettle⟩ := settle_of_runWith hrun
  obtain rfl := Value.payouts.inj hout
  obtain ⟨-, -, -, hopen, hnow⟩ := heffect.settles
  have hlater := heffect.later hx.accounted.filed
  have hnew : (c, code, period) ∉ x.paid.map Payment.key := fun hmem ↦
    (hx.settled _).2 (Or.inr hmem) hopen
  have hbefore : s.settled (c, code, period) = none := by
    by_contra hsettled
    exact (hx.settled _).2 (Or.inl hsettled) hopen
  refine ⟨⟨(c, code, period), token, owner, out⟩, ?_, heffect.accounted hx.accounted,
    heffect.tallyIntegrity hx.integrity, fun token' a ↦ ?_, ?_, fun k ↦ ?_, fun p hp ↦ ?_⟩
  · simp [payment?, hshared, htoken]
  · have hgain := hmarket.settle_gain hshared htoken htally hsettle token' a
    rw [hgain, hx.books, List.map_append, List.sum_append, List.map_singleton, List.sum_singleton,
      add_assoc]
  · rw [List.map_append, List.map_singleton]
    refine List.nodup_append.2 ⟨hx.nodup, List.nodup_singleton _, fun k hk k' hk' heq ↦ hnew ?_⟩
    rwa [heq, List.mem_singleton.1 hk'] at hk
  · rw [List.map_append, List.map_singleton, List.mem_append, List.mem_singleton, ← or_assoc,
      ← hx.settled k]
    rcases eq_or_ne k (c, code, period) with rfl | hne
    · exact iff_of_true (by rw [hnow]; simp) (Or.inr rfl)
    · rw [heffect.settled_of_ne (fun heq ↦ hne (Option.some.inj heq).symm)]
      exact (or_iff_left hne).symm
  · rcases List.mem_append.1 hp with hold | hnew
    · exact ⟨(hx.paid p hold).1, (hx.paid p hold).2.later hlater⟩
    · obtain rfl := List.mem_singleton.1 hnew
      exact ⟨hbefore, hdue⟩

/-- One call. -/
theorem turn (hmarket : Market h balance allowance) (hx : Balanced balance s t x)
    (i : Invocation) : Balanced balance s t (x.turn h i) := by
  rw [Sheet.turn]
  split
  · rename_i v chain books hrun
    rcases hkey : settleKey i with - | k
    · have hpayment : payment? x.chain.storage i.2 v = none := by
        obtain ⟨env, call⟩ := i
        cases call with
        | settle => exact absurd hkey.symm (by simp [settleKey])
        | _ => rfl
      rw [hpayment, Option.toList_none, List.append_nil]
      exact hx.unpaid hkey hrun
    · obtain ⟨env, owner, rfl⟩ : ∃ env owner, i = (env, .settle owner k.1 k.2.1 k.2.2) := by
        obtain ⟨env, call⟩ := i
        cases call with
        | settle owner c code period =>
          obtain rfl := Option.some.inj hkey
          exact ⟨env, owner, rfl⟩
        | _ => exact absurd hkey.symm (Option.some_ne_none k)
      obtain ⟨p, hp, hbalanced⟩ := hx.settle hmarket hrun
      rw [hp]
      exact hbalanced
  · exact hx

end Balanced

end Sheet

/-- **The books balance**, after any calls from any reachable state. What an address holds of a
token is what it held before and what it was paid, less what it has paid as an owner. A period that
was settled meanwhile was paid once, and no other was. What was paid is the count of the tally times
the rate of the code, in its token, by the owner of the campaign and to the target of the code. -/
theorem books_balance (hmarket : Market h balance allowance) {s : ContractState} (hs : Reachable s)
    (t : τ) (calls : List Invocation) :
    let x := Sheet.run h ⟨s, t, []⟩ calls
    (∀ token a, balance token x.books a =
      balance token t a + (x.paid.map (Payment.gain token a)).sum) ∧
    (x.paid.map Payment.key).Nodup ∧
    (∀ k, x.chain.storage.settled k ≠ none ↔
      s.storage.settled k ≠ none ∨ k ∈ x.paid.map Payment.key) ∧
    ∀ p ∈ x.paid, s.storage.settled p.key = none ∧ p.Due x.chain.storage := by
  have hstart : Sheet.Balanced balance s.storage t ⟨s, t, []⟩ :=
    ⟨hs.accounted, hs.tallyIntegrity, fun token a ↦ (add_zero _).symm, List.nodup_nil,
      fun k ↦ (or_iff_left List.not_mem_nil).symm, fun p hp ↦ absurd hp List.not_mem_nil⟩
  have hrun : Sheet.Balanced balance s.storage t (Sheet.run h ⟨s, t, []⟩ calls) :=
    List.foldlRecOn calls (Sheet.turn h) hstart fun x hx i _ ↦ hx.turn hmarket i
  exact ⟨hrun.books, hrun.nodup, hrun.settled, hrun.paid⟩

/-- The sample period is settled, for fifteen. -/
theorem books_balance_sample :
    let x := Sheet.run (eachToken Sample.Books.handle)
      ⟨runFrom 0 (Sample.history.take 6), fun _ ↦ Sample.books, []⟩ [Sample.settlement]
    ((x.books Sample.token).balance Sample.promoter : ℤ) = 15 := by
  intro x
  have hbalance := (books_balance (market_eachToken Sample.Books.conforming)
    (Sample.reachable_take 6) (fun _ ↦ Sample.books) [Sample.settlement]).1 Sample.token
    Sample.promoter
  have hgain : (x.paid.map (Payment.gain Sample.token Sample.promoter)).sum = 15 := by
    decide +kernel
  exact hbalance.trans (congrArg (((Sample.books.balance Sample.promoter : ℕ) : ℤ) + ·) hgain)

end Soroticket
