import Soroticket.Ledger.Accounting

/-!
# The integrity of tallies

A committed tally is only as good as the code it was committed for: its attribution has to agree
with the code's target, and its counts with its total. `TallyIntegrity` says this of everything the
ledger stores, from the terms a shared code may have, over the tallies committed under it, to the
periods settled; each level points to the one below, and none is ever rewritten.

The rule a commitment has to meet is `AttributionRule`, which names no order of the attribution map
although the contract checks it in a loop with an early exit (`AttributionRule.of_perm`).
-/

namespace Soroticket

/-- Every shared code, tally and guard stored is in order. -/
structure TallyIntegrity (s : Storage) : Prop where
  /-- A code has a payout token exactly when it has a rate, and only with an attribution target. -/
  terms : ∀ k sc, s.shared k = some sc → ValidTerms sc.attributedTo sc.payoutToken sc.payoutRate
  /-- A tally is of a registered code, and meets the code's attribution rule. -/
  tally : ∀ c code period tally, s.tally (c, code, period) = some tally →
    ∃ sc, s.shared (c, code) = some sc ∧
      AttributionRule sc.attributedTo tally.count tally.perAttribution.entries
  /-- A settled period was committed, under a code with a payout token. -/
  settled : ∀ c code period, s.settled (c, code, period) ≠ none →
    (∃ tally, s.tally (c, code, period) = some tally) ∧
      ∃ sc, s.shared (c, code) = some sc ∧ sc.payoutToken.isSome = true

/-- The rule does not depend on the order of the entries. -/
theorem AttributionRule.of_perm {attributedTo : Option Address} {count : UInt32}
    {entries entries' : List (Address × UInt32)} (hperm : entries.Perm entries')
    (h : AttributionRule attributedTo count entries) :
    AttributionRule attributedTo count entries' := by
  rcases attributedTo with - | a
  · have hnil : entries = [] := h
    rw [hnil, List.nil_perm] at hperm
    exact hperm
  · obtain ⟨hall, hsum⟩ := h
    refine ⟨fun e he ↦ hall e (hperm.mem_iff.2 he), ?_⟩
    rw [← hsum, countSum, countSum]
    exact (hperm.map _).sum_eq.symm

/-! ### Every effect keeps it -/

/-- The integrity reads the shared codes, the tallies and the guards only. -/
theorem TallyIntegrity.congr {s s' : Storage} (h : TallyIntegrity s) (h₁ : s'.shared = s.shared)
    (h₂ : s'.tally = s.tally) (h₃ : s'.settled = s.settled) : TallyIntegrity s' := by
  obtain ⟨f₁, f₂, f₃⟩ := h
  refine ⟨?_, ?_, ?_⟩ <;> simpa only [h₁, h₂, h₃]

theorem tallyIntegrity_empty : TallyIntegrity Storage.empty where
  terms k sc h := absurd h (by simp [Storage.empty])
  tally c code period tally h := absurd h (by simp [Storage.empty])
  settled c code period h := absurd rfl h

/-- A code registered under a free key has valid terms; what points to older codes still does. -/
theorem TallyIntegrity.register {s : Storage} {c : UInt64} {code : Bytes} {sc : SharedCode}
    (h : TallyIntegrity s) (hfree : s.shared (c, code) = none)
    (hterms : ValidTerms sc.attributedTo sc.payoutToken sc.payoutRate) :
    TallyIntegrity { s with shared := Function.update s.shared (c, code) (some sc) } := by
  refine ⟨fun k sc' hk ↦ ?_, fun x code' period tally ht ↦ ?_, fun x code' period hset ↦ ?_⟩
  · rcases eq_or_eq_of_update hk with ⟨-, rfl⟩ | ⟨-, hold⟩
    · exact hterms
    · exact h.terms k sc' hold
  · obtain ⟨sc', hshared, hrule⟩ := h.tally x code' period tally ht
    exact ⟨sc', update_of_free hfree hshared, hrule⟩
  · obtain ⟨htally, sc', hshared, htoken⟩ := h.settled x code' period hset
    exact ⟨htally, sc', update_of_free hfree hshared, htoken⟩

/-- A tally committed for a free period meets the rule of its code. -/
theorem TallyIntegrity.commit {s : Storage} {c period : UInt64} {code : Bytes} {sc : SharedCode}
    {tally : TallyCommitment} (h : TallyIntegrity s) (hshared : s.shared (c, code) = some sc)
    (hrule : AttributionRule sc.attributedTo tally.count tally.perAttribution.entries) :
    TallyIntegrity { s with
      tally := Function.update s.tally (c, code, period) (some tally) } := by
  refine ⟨h.terms, fun x code' p tally' ht ↦ ?_, fun x code' p hset ↦ ?_⟩
  · rcases eq_or_eq_of_update ht with ⟨hkey, rfl⟩ | ⟨-, hold⟩
    · obtain ⟨rfl, rfl, rfl⟩ : x = c ∧ code' = code ∧ p = period := by simpa using hkey
      exact ⟨sc, hshared, hrule⟩
    · exact h.tally x code' p tally' hold
  · obtain ⟨⟨tally', htally'⟩, hcode⟩ := h.settled x code' p hset
    refine ⟨?_, hcode⟩
    rcases eq_or_ne (x, code', p) (c, code, period) with hkey | hkey
    · rw [hkey]
      exact ⟨tally, Function.update_self _ _ _⟩
    · exact ⟨tally', (Function.update_of_ne hkey _ _).trans htally'⟩

/-- A guard is set over a committed tally of a code with a payout token. -/
theorem TallyIntegrity.settle {s : Storage} {c period : UInt64} {code : Bytes} {sc : SharedCode}
    {tally : TallyCommitment} (h : TallyIntegrity s) (hshared : s.shared (c, code) = some sc)
    (htoken : sc.payoutToken.isSome = true) (htally : s.tally (c, code, period) = some tally) :
    TallyIntegrity { s with
      settled := Function.update s.settled (c, code, period) (some true) } := by
  refine ⟨h.terms, h.tally, fun x code' p hset ↦ ?_⟩
  rcases eq_or_ne (x, code', p) (c, code, period) with hkey | hkey
  · obtain ⟨rfl, rfl, rfl⟩ : x = c ∧ code' = code ∧ p = period := by simpa using hkey
    exact ⟨⟨tally, htally⟩, sc, hshared, htoken⟩
  · refine h.settled x code' p ?_
    change Function.update s.settled (c, code, period) (some true) (x, code', p) ≠ none at hset
    rwa [Function.update_of_ne hkey] at hset

theorem Effect.tallyIntegrity {env : Env} {call : Call} {v : Value} {s s' : Storage}
    {evs : List Event} (h : Effect env call v s s' evs) (hi : TallyIntegrity s) :
    TallyIntegrity s' := by
  cases h with
  | registerShared _ _ _ _ _ _ hterms hfree => exact hi.register hfree hterms
  | commitTally _ _ _ hshared hrule _ => exact hi.commit hshared hrule
  | settle _ _ hshared htoken _ htally _ _ _ =>
    exact hi.settle hshared (by rw [htoken]; rfl) htally
  | issueUnique _ _ _ _ _ _ _ _ hmints =>
    have hframe := hmints.frame
    exact hi.congr (by rw [hframe]) (by rw [hframe]) (by rw [hframe])
  | _ => exact hi.congr rfl rfl rfl

theorem Reachable.tallyIntegrity {s : ContractState} (h : Reachable s) :
    TallyIntegrity s.storage :=
  h.induction tallyIntegrity_empty fun _ _ _ _ _ _ hi heff ↦ heff.tallyIntegrity hi

/-! ### The theorem -/

/-- **Tally and attribution integrity.** In every reachable state a shared code has a payout token
exactly when it has a positive rate, and then a target; a tally belongs to a registered code and is
attributed to the code's target alone, in counts that add up to its total, or to nobody; and a
settled period was committed under a code with a payout token. And the authenticated owner commits
an unused period of a registered code exactly with the maps that meet this rule, in any order. -/
theorem tally_integrity {s : ContractState} (h : Reachable s) :
    (∀ c code sc, s.storage.shared (c, code) = some sc →
      (sc.payoutToken.isSome = true ↔ 0 < sc.payoutRate) ∧
      (sc.payoutToken.isSome = true → sc.attributedTo.isSome = true)) ∧
    (∀ c code period tally, s.storage.tally (c, code, period) = some tally →
      ∃ sc, s.storage.shared (c, code) = some sc ∧
        (sc.attributedTo = none → tally.perAttribution.entries = []) ∧
        ∀ a, sc.attributedTo = some a → (∀ e ∈ tally.perAttribution.entries, e.1 = a) ∧
          (tally.perAttribution.entries.map fun e ↦ e.2.toNat).sum = tally.count.toNat) ∧
    (∀ c code period, s.storage.settled (c, code, period) ≠ none →
      (∃ tally, s.storage.tally (c, code, period) = some tally) ∧
        ∃ sc, s.storage.shared (c, code) = some sc ∧ sc.payoutToken.isSome = true) ∧
    (∀ env owner c code period count root m camp sc, owner ∈ env.auths →
      s.storage.campaign c = some camp → camp.owner = owner →
      s.storage.shared (c, code) = some sc → s.storage.tally (c, code, period) = none →
        ((∃ s', commitTally env owner c code period count root m s = .ok ((), s')) ↔
          AttributionRule sc.attributedTo count m.entries) ∧
        ∀ m' : AttributionMap, m.entries.Perm m'.entries →
          ((∃ s', commitTally env owner c code period count root m' s = .ok ((), s')) ↔
            AttributionRule sc.attributedTo count m.entries)) := by
  have hi := h.tallyIntegrity
  refine ⟨fun c code sc hsc ↦ hi.terms _ sc hsc, fun c code period tally htally ↦ ?_, hi.settled,
    fun env owner c code period count root m camp sc hauth hcamp howner hshared hfree ↦ ?_⟩
  · obtain ⟨sc, hshared, hrule⟩ := hi.tally c code period tally htally
    refine ⟨sc, hshared, fun hnone ↦ ?_, fun a ha ↦ ?_⟩
    · rw [hnone] at hrule
      exact hrule
    · rw [ha] at hrule
      exact hrule
  · have hcommit : ∀ m : AttributionMap,
        (∃ s', commitTally env owner c code period count root m s = .ok ((), s')) ↔
          AttributionRule sc.attributedTo count m.entries := by
      intro m
      simp only [commitTally_eq_ok_iff]
      constructor
      · rintro ⟨s', -, -, ⟨sc', hshared', hrule⟩, -⟩
        obtain rfl := Option.some.inj (hshared.symm.trans hshared')
        exact hrule
      · intro hrule
        exact ⟨_, hauth, ⟨camp, hcamp, howner⟩, ⟨sc, hshared, hrule⟩, hfree, rfl⟩
    refine ⟨hcommit m, fun m' hperm ↦ (hcommit m').trans ⟨fun hrule ↦ ?_, fun hrule ↦ ?_⟩⟩
    · exact hrule.of_perm hperm.symm
    · exact hrule.of_perm hperm

/-- After the sample history the owner commits a second period with the target's three stamps, and
not with a total of four. -/
theorem tally_integrity_sample :
    (∃ s', commitTally (Sample.envAt 20 Sample.owner) Sample.owner 1 Sample.sharedCode 2 3
      (.zero 32) Sample.attribution (runFrom 0 (Sample.history.take 7)) = .ok ((), s')) ∧
    ¬∃ s', commitTally (Sample.envAt 20 Sample.owner) Sample.owner 1 Sample.sharedCode 2 4
      (.zero 32) Sample.attribution (runFrom 0 (Sample.history.take 7)) = .ok ((), s') := by
  have howner : ((runFrom 0 (Sample.history.take 7)).storage.campaign 1).map Campaign.owner =
      some Sample.owner := by decide
  have htarget : ((runFrom 0 (Sample.history.take 7)).storage.shared (1, Sample.sharedCode)).map
      SharedCode.attributedTo = some (some Sample.promoter) := by decide
  have hfree : (runFrom 0 (Sample.history.take 7)).storage.tally (1, Sample.sharedCode, 2) = none :=
    by decide
  obtain ⟨camp, hcamp, howner⟩ := Option.map_eq_some_iff.1 howner
  obtain ⟨sc, hsc, htarget⟩ := Option.map_eq_some_iff.1 htarget
  have hiff := fun count ↦ ((tally_integrity (Sample.reachable_take 7)).2.2.2
    (Sample.envAt 20 Sample.owner) Sample.owner 1 Sample.sharedCode 2 count (.zero 32)
    Sample.attribution camp sc (by decide) hcamp howner hsc hfree).1
  rw [hiff 3, hiff 4, htarget]
  exact ⟨⟨by decide, by decide⟩, fun hrule ↦ absurd hrule.2 (by decide)⟩

end Soroticket
