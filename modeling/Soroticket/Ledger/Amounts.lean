import Soroticket.Ledger.Payable
import Soroticket.Ledger.Refusals
import Soroticket.Ledger.Settlement

/-!
# The amount of a period

What a period pays is fixed once its code is registered and it is committed (`OwedAt`): neither
record changes, so the amount is the same in every later state (`OwedAt.later`). Whoever computes it
and whoever settles the period finds this amount, whatever token answers the settlement.
-/

namespace Soroticket

open Outcome

variable {τ : Type} {h : (op : TokenCall) → τ → Option (op.Answer × τ)} {env : Env} {call : Call}
  {s s' : ContractState} {t t' : τ} {v : Value}

/-! ### Calls that a token answers -/

/-- A call that a token with a state answers is a transaction. -/
theorem exists_tx (h : (op : TokenCall) → τ → Option (op.Answer × τ)) (env : Env) (call : Call)
    (s : ContractState) (t : τ) : ∃ replies, (Tx.mk env call replies).exec s =
      ((call.exec env s).runWith h t).map fun r ↦ (r.1, r.2.1) := by
  obtain ⟨replies, hreplies⟩ := Callout.exists_replies h (call.exec env s) t 0
  refine ⟨replies, ?_⟩
  rw [← hreplies, Tx.exec, Callout.runReplies]
  dsimp only
  rcases (call.exec env s).runWith (fun op n ↦ (replies n op).map (·, n + 1)) 0 with f | ⟨v, s', n⟩
  · rfl
  · rfl

/-- **Every success has its effect**, whatever token answers. -/
theorem runWith_effect (hrun : (call.exec env s).runWith h t = .ok (v, s', t')) :
    ∃ evs, Effect env call v s.storage s'.storage evs := by
  obtain ⟨replies, hexec⟩ := exists_tx h env call s t
  rw [hrun] at hexec
  obtain ⟨evs, heffect, -⟩ := exec_effect hexec
  exact ⟨evs, heffect⟩

/-- A settlement that is run by itself. -/
theorem settle_of_runWith {owner : Address} {c period : UInt64} {code : Bytes}
    (hrun : ((Call.settle owner c code period).exec env s).runWith h t = .ok (v, s', t')) :
    ∃ out, v = .payouts out ∧
      (settle env owner c code period s).runWith h t = .ok (out, s', t') := by
  rw [Call.exec, Callout.runWith_map] at hrun
  rcases hsettle : (settle env owner c code period s).runWith h t with f | ⟨out, s₁, t₁⟩
  · rw [hsettle] at hrun
    exact absurd hrun (by simp [Except.map])
  · rw [hsettle] at hrun
    obtain ⟨rfl, rfl, rfl⟩ : Value.payouts out = v ∧ s₁ = s' ∧ t₁ = t' := by
      simpa [Except.map] using hrun
    exact ⟨out, rfl, rfl⟩

/-! ### Reads -/

/-- A read asks no token. -/
theorem exists_of_reading {α : Type} {r : Outcome Error α} {f : α → Value}
    (hrun : (reading (r.map f) s).runWith h t = .ok (v, s', t')) : ∃ a, r = .ok a ∧ v = f a := by
  rcases r with e | a
  · exact absurd hrun.symm nofun
  · exact ⟨a, rfl, (Prod.mk.inj (Except.ok.inj hrun)).1.symm⟩

theorem shared_of_runWith {c : UInt64} {code : Bytes}
    (hrun : ((Call.getShared c code).exec env s).runWith h t = .ok (v, s', t')) :
    ∃ sc, v = .shared sc ∧ s.storage.shared (c, code) = some sc := by
  obtain ⟨sc, hsc, rfl⟩ := exists_of_reading hrun
  exact ⟨sc, rfl, okOr_eq_ok_iff.1 hsc⟩

theorem settled_of_runWith {c period : UInt64} {code : Bytes}
    (hrun : ((Call.isSettled c code period).exec env s).runWith h t = .ok (.bool true, s', t')) :
    s.storage.settled (c, code, period) ≠ none := by
  have hhas : s.has (.settled c code period) = true :=
    (Value.bool.inj (Prod.mk.inj (Except.ok.inj hrun)).1)
  rw [ContractState.has_def] at hhas
  exact Option.isSome_iff_ne_none.1 hhas

/-! ### The amount -/

/-- What a period is owed, by its code and its tally. -/
def OwedAt (s : Storage) (k : PeriodKey) (total : ℤ) : Prop :=
  ∃ sc tally, s.shared (k.1, k.2.1) = some sc ∧ s.tally k = some tally ∧
    total = owed sc.payoutRate.val tally.perAttribution.entries

/-- The amount of a period does not change. -/
theorem OwedAt.later {s s' : Storage} {k : PeriodKey} {total : ℤ} (h : OwedAt s k total)
    (hlater : Later s s') : OwedAt s' k total := by
  obtain ⟨sc, tally, hshared, htally, rfl⟩ := h
  exact ⟨sc, tally, hlater.shared _ _ hshared, hlater.tally _ _ htally, rfl⟩

theorem OwedAt.eq {s : Storage} {k : PeriodKey} {total total' : ℤ} (h : OwedAt s k total)
    (h' : OwedAt s k total') : total = total' := by
  obtain ⟨sc, tally, hshared, htally, rfl⟩ := h
  obtain ⟨sc', tally', hshared', htally', rfl⟩ := h'
  obtain rfl := Option.some.inj (hshared.symm.trans hshared')
  obtain rfl := Option.some.inj (htally.symm.trans htally')
  rfl

/-- The amount that is computed. -/
theorem owedAt_of_computePayouts {c period : UInt64} {code : Bytes} {ps : List Payout}
    (h : computePayouts c code period s = .ok ps) :
    OwedAt s.storage (c, code, period) (payoutSum ps) := by
  obtain ⟨sc, tally, hshared, htally, hps⟩ := computePayouts_eq_ok_iff.1 h
  exact ⟨sc, tally, hshared, htally, payoutSum_eq_owed hps⟩

theorem owedAt_of_runWith {c period : UInt64} {code : Bytes}
    (hrun : ((Call.computePayouts c code period).exec env s).runWith h t = .ok (v, s', t')) :
    ∃ ps, v = .payouts ps ∧ OwedAt s.storage (c, code, period) (payoutSum ps) := by
  obtain ⟨ps, hps, rfl⟩ := exists_of_reading hrun
  exact ⟨ps, rfl, owedAt_of_computePayouts hps⟩

/-- The amount of a period that is settled is its count times the rate of its code. -/
theorem OwedAt.eq_count_mul {s : ContractState} {k : PeriodKey} {total : ℤ}
    (h : OwedAt s.storage k total) (hi : TallyIntegrity s.storage)
    (hsettled : s.storage.settled k ≠ none) :
    ∃ sc tally, s.storage.shared (k.1, k.2.1) = some sc ∧ s.storage.tally k = some tally ∧
      total = tally.count.toNat * sc.payoutRate.val := by
  obtain ⟨sc, tally, hshared, htally, rfl⟩ := h
  obtain ⟨-, sc', hshared', htoken⟩ := hi.settled k.1 k.2.1 k.2.2 hsettled
  obtain rfl := Option.some.inj (hshared.symm.trans hshared')
  exact ⟨sc, tally, hshared, htally, owed_eq_count_mul hi hshared htally htoken⟩

/-- The amount that is settled, of a period that was open. -/
theorem Effect.settles {owner : Address} {c period : UInt64} {code : Bytes} {s s' : Storage}
    {evs : List Event} (h : Effect env (.settle owner c code period) v s s' evs) :
    ∃ out, v = .payouts out ∧ OwedAt s (c, code, period) (payoutSum out) ∧
      s.settled (c, code, period) = none ∧ s'.settled (c, code, period) = some true := by
  cases h with
  | unchanged hcall => exact absurd hcall.symm Bool.false_ne_true
  | settle hcamp howner hshared htoken hrate htally hfree hplan hloop =>
    obtain ⟨ps, hps, hout, -⟩ := foldlM_addSettlement_eq_ok_iff.1 hloop
    rw [List.nil_append] at hout
    refine ⟨_, rfl, ⟨_, _, hshared, htally, ?_⟩, hfree, Function.update_self ..⟩
    rw [hout, payoutSum_positivePayouts (I128.lt_def.1 hrate).le hps]

/-- Only a settlement of a period settles it. -/
theorem Effect.settled_of_ne {s s' : Storage} {evs : List Event} (h : Effect env call v s s' evs)
    {k : PeriodKey} (hk : settleKey (env, call) ≠ some k) : s'.settled k = s.settled k := by
  cases h with
  | settle => exact Function.update_of_ne (fun heq ↦ hk (congrArg some heq.symm)) _ _
  | issueUnique hauth hcamp howner htime hne hbatch hminted hsupply hmints => rw [hmints.frame]
  | unchanged | createCampaign | addDelegate | removeDelegate | redeemUnique | registerShared
  | commitTally => rfl

/-- The tally that is committed. -/
theorem Effect.commits {owner : Address} {c period : UInt64} {code : Bytes} {count : UInt32}
    {root : BytesN 32} {m : AttributionMap} {s s' : Storage} {evs : List Event}
    (h : Effect env (.commitTally owner c code period count root m) v s s' evs) :
    ∃ tally, s'.tally (c, code, period) = some tally ∧ tally.count = count := by
  cases h with
  | unchanged hcall => exact absurd hcall.symm Bool.false_ne_true
  | commitTally => exact ⟨_, Function.update_self .., rfl⟩

/-! ### A period that is settled already -/

/-- The checks refuse a period as settled only where it is. -/
theorem raises_settleChecks {owner : Address} {c period : UInt64} {code : Bytes} :
    Raises (fun e ↦ e = Error.alreadySettled → s.storage.settled (c, code, period) ≠ none)
      (settleChecks env owner c code period s) := by
  refine raises_bind (raises_bind (raises_okOr fun _ ↦ nofun) fun _ _ ↦
    raises_rejectIf fun _ ↦ nofun) fun _ _ ↦ ?_
  refine raises_bind (raises_okOr fun _ ↦ nofun) fun _ _ ↦ ?_
  refine raises_bind (raises_okOr fun _ ↦ nofun) fun _ _ ↦ ?_
  refine raises_bind (raises_rejectIf fun _ ↦ nofun) fun _ _ ↦ ?_
  refine raises_bind (raises_okOr fun _ ↦ nofun) fun _ _ ↦ ?_
  refine raises_bind (raises_rejectIf fun hhas _ ↦ ?_) fun _ _ ↦ ?_
  · rw [ContractState.has_def] at hhas
    exact Option.isSome_iff_ne_none.1 hhas
  refine raises_bind (fun e he ↦ ?_) fun _ _ ↦ ?_
  · obtain rfl := Fault.err.inj (foldlM_addSettlement_error he)
    exact nofun
  · exact raises_bind raises_extendTtl fun _ _ ↦ raises_ok _

/-- From its first token call on a settlement fails in one way only, or traps. -/
theorem raises_settlePayments {owner : Address} {c period : UInt64} {plan : SettlePlan} :
    Raises (fun e ↦ e = Error.invalidSettlement)
      ((settlePayments env owner c period plan s).runWith h t) := by
  have htransfer : ∀ (rest : ContractState → Interaction (List Payout)) (ps : List Payout)
      (s : ContractState) (t : τ),
      (∀ s t, Raises (fun e ↦ e = Error.invalidSettlement) ((rest s).runWith h t)) →
      Raises (fun e ↦ e = Error.invalidSettlement)
        ((transferAll plan.token env.currentContract owner rest ps s).runWith h t) := by
    intro rest ps
    induction ps with
    | nil => exact fun s t hrest ↦ hrest s t
    | cons p ps ih =>
      intro s t hrest
      rw [transferAll, Callout.runWith]
      split
      · exact ih _ _ hrest
      · exact raises_trap
  rw [settlePayments, Callout.runWith]
  split
  · rename_i allowance t₁ _
    show Raises _ (Callout.runWith h (if allowance < plan.total then _ else _) t₁)
    split
    · exact fun e he ↦ (Fault.err.inj (Except.error.inj he)).symm
    · rw [Callout.runWith]
      split
      · rename_i balance t₂ _
        show Raises _ (Callout.runWith h (if balance < plan.total then _ else _) t₂)
        split
        · exact fun e he ↦ (Fault.err.inj (Except.error.inj he)).symm
        · exact htransfer _ _ _ _ fun s t ↦ raises_ok _
      · exact raises_trap
  · exact raises_trap

/-- A settlement is refused as one that was made only where it was. -/
theorem settled_of_alreadySettled {owner : Address} {c period : UInt64} {code : Bytes}
    (hrun : ((Call.settle owner c code period).exec env s).runWith h t =
      .error (.err .alreadySettled)) : s.storage.settled (c, code, period) ≠ none := by
  have hsettle : (settle env owner c code period s).runWith h t =
      .error (.err .alreadySettled) := by
    rw [Call.exec, Callout.runWith_map] at hrun
    rcases hrun' : (settle env owner c code period s).runWith h t with f | r
    · rw [hrun'] at hrun
      simpa [Except.map] using hrun
    · rw [hrun'] at hrun
      exact absurd hrun (by simp [Except.map])
  rw [settle] at hsettle
  split at hsettle
  · rename_i f hchecks
    obtain rfl := Except.error.inj hsettle
    exact raises_settleChecks _ hchecks rfl
  · exact absurd (raises_settlePayments _ hsettle) (by decide)

end Soroticket
