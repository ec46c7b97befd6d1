import Soroticket.Ledger.Runs
import Soroticket.Machine.Reentrancy
import Soroticket.Machine.Table

/-!
# Settle once

`settle` pays through a contract the campaign's owner chose, so nothing may be assumed of it. Here
the payout token is the foreign code of a re-entrant machine: at each allowance, balance and
transfer it may invoke any entry point with any arguments and authorizations, `settle` on the same
period included, to any depth, and then answer anything or trap.

The guard is what makes a period settle once. `settle` writes `Settled` before its first token call,
refuses when it is there, and no entry point takes it away: this is the discipline of
`Machine.Reentrancy`, with one flag for each period (`guarded`), and the theorem is its instance.
-/

namespace Soroticket

open Reentrancy

/-- A period of a shared code. -/
abbrev PeriodKey := UInt64 × Bytes × UInt64

/-- An invocation: an entry point in an environment. -/
abbrev Invocation := Env × Call

/-- The machine: an invocation up to its first token call. -/
def invoke (call : Invocation) (s : ContractState) : Interaction Value := call.2.exec call.1 s

/-- A configuration of the contract while the payout token runs. -/
abbrev Configuration := Config ContractState Error TokenCall TokenCall.Answer Invocation Value

/-- The periods marked as settled. -/
def settledSet (s : ContractState) : Set PeriodKey := {k | s.storage.settled k ≠ none}

/-- The period an invocation settles, if it is a settlement. -/
def settleKey : Invocation → Option PeriodKey
  | (_, .settle _ c code period) => some (c, code, period)
  | _ => none

/-- How many invocations settled the period, of those that have ended with a value. -/
def settleCount (k : PeriodKey) (log : List (Invocation × Value)) : ℕ :=
  log.countP fun e ↦ settleKey e.1 == some k

/-- A call of `settle` on the period reaches the guard: the checks before it pass. -/
def ReachesGuard (owner : Address) (k : PeriodKey) (s : ContractState) : Prop :=
  (∃ camp, s.storage.campaign k.1 = some camp ∧ camp.owner = owner) ∧
    (∃ sc, s.storage.shared (k.1, k.2.1) = some sc ∧ sc.payoutToken.isSome = true ∧
      0 < sc.payoutRate) ∧
    ∃ tally, s.storage.tally k = some tally

/-! ### The guard is never taken away -/

/-- No success clears a guard. -/
theorem Effect.settled_mono {env : Env} {call : Call} {v : Value} {s s' : Storage}
    {evs : List Event} (h : Effect env call v s s' evs) {k : PeriodKey} (hk : s.settled k ≠ none) :
    s'.settled k ≠ none := by
  cases h with
  | settle => exact update_ne_none hk
  | issueUnique hauth hcamp howner htime hne hbatch hminted hsupply hmints =>
    rw [hmints.frame]
    exact hk
  | unchanged | createCampaign | addDelegate | removeDelegate | redeemUnique | registerShared
  | commitTally => exact hk

/-- Every entry point but `settle` runs to its end at once. -/
theorem invoke_done {call : Invocation} (h : settleKey call = none) (s : ContractState) :
    ∃ r, invoke call s = .done r := by
  obtain ⟨env, call⟩ := call
  cases call <;> first | exact ⟨_, rfl⟩ | exact absurd h (by simp [settleKey])

/-- Transfers leave the state to what follows them. -/
theorem transferAll_keeps {R : ContractState → ContractState → Prop} (hrefl : ∀ s, R s s)
    {token spender owner : Address} {rest : ContractState → Interaction (List Payout)}
    (hrest : ∀ s, (rest s).Keeps R s) :
    ∀ (ps : List Payout) (s : ContractState),
      (transferAll token spender owner rest ps s).Keeps R s := by
  intro ps
  induction ps with
  | nil => exact hrest
  | cons p ps ih => exact fun s ↦ ⟨hrefl s, fun _ s' ↦ ih s'⟩

/-- From its first token call on, `settle` writes no value. -/
theorem settlePayments_keeps {R : ContractState → ContractState → Prop}
    (hR : ∀ s s' : ContractState, s'.storage = s.storage → R s s') (env : Env) (owner : Address)
    (c period : UInt64) (plan : SettlePlan) (s : ContractState) :
    (settlePayments env owner c period plan s).Keeps R s := by
  have hrefl : ∀ s, R s s := fun s ↦ hR s s rfl
  refine ⟨hrefl s, fun (allowance : I128) s₁ ↦ ?_⟩
  show Callout.Keeps R s₁ (if allowance < plan.total then _ else _)
  split
  · trivial
  · refine ⟨hrefl s₁, fun (balance : I128) s₂ ↦ ?_⟩
    show Callout.Keeps R s₂ (if balance < plan.total then _ else _)
    split
    · trivial
    · refine transferAll_keeps hrefl ?_ plan.out s₂
      intro s
      exact hR s _ rfl

/-- The two ways `settle` starts: it faults at once, or it has set the guard of a period that was
free and turns to the token. -/
theorem settle_cases (env : Env) (owner : Address) (c : UInt64) (code : Bytes) (period : UInt64)
    (s : ContractState) :
    (∃ f, settle env owner c code period s = .done (.error f)) ∨
      ∃ plan s₁, settle env owner c code period s = settlePayments env owner c period plan s₁ ∧
        s.storage.settled (c, code, period) = none ∧
        s₁.storage.settled =
          Function.update s.storage.settled (c, code, period) (some true) := by
  rw [settle]
  rcases hchecks : settleChecks env owner c code period s with f | ⟨plan, s₁⟩
  · exact Or.inl ⟨f, rfl⟩
  · obtain ⟨-, _, _, -, -, -, -, hfree, -, -, rfl⟩ := settleChecks_eq_ok_iff.1 hchecks
    exact Or.inr ⟨plan, _, rfl, hfree, rfl⟩

/-- No segment of any entry point takes a guard away. -/
theorem invoke_keeps (call : Invocation) (s : ContractState) :
    (invoke call s).Keeps (fun s s' ↦ settledSet s ⊆ settledSet s') s := by
  rcases hkey : settleKey call with - | k
  · obtain ⟨r, hr⟩ := invoke_done hkey s
    rw [hr]
    rcases r with f | ⟨v, s'⟩
    · trivial
    · have hexec : Tx.exec ⟨call.1, call.2, fun _ _ ↦ none⟩ s = .ok (v, s') := by
        show (invoke call s).runReplies _ = _
        rw [hr, Callout.runReplies_done]
      obtain ⟨evs, heff, -⟩ := exec_effect hexec
      exact fun k hk ↦ heff.settled_mono hk
  · obtain ⟨env, call⟩ := call
    cases call with
    | settle owner c code period =>
      refine Callout.Keeps.map ?_
      rcases settle_cases env owner c code period s with ⟨f, hf⟩ | ⟨plan, s₁, hrun, -, hs₁⟩
      · rw [hf]
        trivial
      · rw [hrun]
        have hR : ∀ s s' : ContractState, s'.storage = s.storage →
            settledSet s ⊆ settledSet s' := by
          intro s s' h k hk
          show s'.storage.settled k ≠ none
          rwa [h]
        refine ⟨fun k hk ↦ ?_, (settlePayments_keeps hR env owner c period plan s₁).2⟩
        show s₁.storage.settled k ≠ none
        rw [hs₁]
        exact update_ne_none hk
    | _ => exact absurd hkey (by simp [settleKey])

/-! ### The machine is guarded -/

/-- **The guard discipline.** A settlement refuses a marked period and marks a free one before its
first token call; it has no way to end with a value at once. -/
theorem guarded : Guarded invoke settledSet settleKey := by
  have hcases : ∀ (call : Invocation) (s : ContractState) (k : PeriodKey), settleKey call = some k →
      (∃ f, invoke call s = .done (.error f)) ∨
        k ∉ settledSet s ∧
          ∃ op s₁ resume, invoke call s = .call op s₁ resume ∧ k ∈ settledSet s₁ := by
    intro call s k hk
    obtain ⟨env, call⟩ := call
    cases call with
    | settle owner c code period =>
      obtain rfl : (c, code, period) = k := Option.some.inj hk
      rcases settle_cases env owner c code period s with ⟨f, hf⟩ | ⟨plan, s₁, hrun, hfree, hs₁⟩
      · refine Or.inl ⟨f, ?_⟩
        show (settle env owner c code period s).map Value.payouts = _
        rw [hf]
        rfl
      · obtain ⟨resume, hcall⟩ : ∃ resume, invoke (env, .settle owner c code period) s =
            .call (.allowance plan.token owner env.currentContract) s₁ resume := by
          have hmap : invoke (env, .settle owner c code period) s =
              (settlePayments env owner c period plan s₁).map Value.payouts := by
            rw [← hrun]
            rfl
          exact ⟨_, hmap⟩
        refine Or.inr ⟨fun hmem ↦ hmem hfree, _, s₁, resume, hcall, ?_⟩
        · show s₁.storage.settled (c, code, period) ≠ none
          rw [hs₁, Function.update_self]
          exact Option.some_ne_none true
    | _ => exact absurd hk (by simp [settleKey])
  refine ⟨invoke_keeps, fun call s k hk hmem ↦ ?_, fun call s k v s' hk hrun ↦ ?_,
    fun call s k op s' resume hk hrun ↦ ?_⟩
  · rcases hcases call s k hk with hf | ⟨hfree, -⟩
    · exact hf
    · exact absurd hmem hfree
  · rcases hcases call s k hk with ⟨f, hf⟩ | ⟨-, op, s₁, resume, hcall, -⟩
    · rw [hf] at hrun
      simp at hrun
    · rw [hcall] at hrun
      simp at hrun
  · rcases hcases call s k hk with ⟨f, hf⟩ | ⟨-, op, s₁, resume, hcall, hmarked⟩
    · rw [hf] at hrun
      simp at hrun
    · rw [hcall] at hrun
      obtain ⟨rfl, rfl, -⟩ := Callout.call.inj hrun
      exact hmarked

/-- On a marked period a settlement that reaches the guard returns the guard's own error, before any
token call. -/
theorem settle_of_settled {env : Env} {owner : Address} {c period : UInt64} {code : Bytes}
    {s : ContractState} (hreach : ReachesGuard owner (c, code, period) s)
    (hset : (c, code, period) ∈ settledSet s) :
    settle env owner c code period s = .done (.error (.err .alreadySettled)) := by
  obtain ⟨⟨camp, hcamp, howner⟩, ⟨sc, hshared, htoken, hrate⟩, tally, htally⟩ := hreach
  obtain ⟨token, htoken⟩ := Option.isSome_iff_exists.1 htoken
  have h₁ : requireOwner c owner s = .ok () := requireOwner_eq_ok_iff.2 ⟨camp, hcamp, howner⟩
  have h₂ : s.get (.shared c code) = some sc := hshared
  have h₃ : s.get (.tally c code period) = some tally := htally
  have h₄ : s.has (.settled c code period) = true := Option.isSome_iff_ne_none.2 hset
  have h₅ : ¬sc.payoutRate ≤ 0 := by
    rw [I128.le_def, not_le]
    exact I128.lt_def.1 hrate
  have hchecks : settleChecks env owner c code period s = .error (.err .alreadySettled) := by
    simp [settleChecks, h₁, h₂, h₃, h₄, htoken, Outcome.rejectIf_neg h₅, Outcome.rejectIf_pos]
  rw [settle, hchecks]

/-! ### The theorem -/

/-- **Settle once, whatever the token does.** Start the contract in any state and let anyone invoke
it, the payout token included, at every token call of every settlement and to any depth. Of the
invocations that have ended with a value, at most one settled any one period. A period marked while
nothing is suspended stays marked, and every settlement of it that reaches the guard is refused as a
repetition, at any depth. -/
theorem settle_once {s₀ : ContractState} {cfg : Configuration}
    (hreach : Reaches invoke ⟨s₀, [], []⟩ cfg) :
    (∀ k, settleCount k cfg.log ≤ 1) ∧
    (∀ k, 0 < settleCount k cfg.log → k ∈ settledSet cfg.state) ∧
    (cfg.stack = [] → ∀ cfg', Reaches invoke cfg cfg' → ∀ k ∈ settledSet cfg.state,
      k ∈ settledSet cfg'.state ∧
      ∀ env owner, ReachesGuard owner k cfg'.state →
        settle env owner k.1 k.2.1 k.2.2 cfg'.state = .done (.error (.err .alreadySettled))) := by
  have hcount : ∀ k, (logKeys settleKey cfg.log).count k = settleCount k cfg.log :=
    fun k ↦ List.count_filterMap
  refine ⟨fun k ↦ ?_, fun k hk ↦ ?_, fun hstack cfg' hreach' k hk ↦ ?_⟩
  · rw [← hcount]
    exact List.nodup_iff_count_le_one.1 (guarded.nodup_keys hreach) k
  · rw [← hcount, List.count_pos_iff] at hk
    exact guarded.flag_of_mem_log hreach hk
  · obtain ⟨s, log, stack⟩ := cfg
    obtain rfl : stack = [] := hstack
    have hset := guarded.flag_persists hreach' hk
    exact ⟨hset, fun env owner hguard ↦ settle_of_settled hguard hset⟩

namespace Sample

/-- The settlement of the sample period. -/
def settlement : Invocation := (envAt 16 owner, .settle owner 1 sharedCode 1)

/-- A token that asks for the settlement again before it reports the allowance and before it makes
the transfer, and otherwise pays. -/
def reentrant : List (Move TokenCall TokenCall.Answer Invocation) :=
  let pay := .answer fun op ↦ match op with
    | .allowance _ _ _ => .ofUInt32 1000
    | .balance _ _ => .ofUInt32 1000
    | .transferFrom _ _ _ _ _ => ()
  [.invoke settlement, .invoke settlement, pay, pay, .invoke settlement, pay]

/-- The committed period of the sample history, settled through that token. -/
def resettled : Configuration :=
  Config.play invoke ⟨runFrom 0 (history.take 6), [], []⟩ reentrant

end Sample

/-- The re-entrant token is paid once. -/
theorem settle_once_sample :
    settleCount (1, Sample.sharedCode, 1) Sample.resettled.log ≤ 1 ∧
      0 < settleCount (1, Sample.sharedCode, 1) Sample.resettled.log ∧
      (1, Sample.sharedCode, 1) ∈ settledSet Sample.resettled.state := by
  have hreach := reaches_play invoke Sample.reentrant ⟨runFrom 0 (Sample.history.take 6), [], []⟩
  have hpaid : 0 < settleCount (1, Sample.sharedCode, 1) Sample.resettled.log := by decide
  exact ⟨(settle_once hreach).1 _, hpaid, (settle_once hreach).2.1 _ hpaid⟩

end Soroticket
