import Soroticket.Ledger.Runs

/-!
# What the contract refuses for what a call says

A call may be refused for what it says, whatever the state: a campaign without a name, a code that
is too long, a batch with a code twice. `Call.WellFormed` leaves these out, and a call that is well
formed is never refused with one of their errors: `create_campaign` returns `InvalidTerms` only when
the campaign is over already, or its owner can have no more of them, and `issue_unique` returns
`DuplicateCode` only for a code the campaign has (`raises_of_wellFormed`).
-/

namespace Soroticket

open Outcome

/-- What a call that creates, registers or issues says is in order. -/
def Call.WellFormed : Call → Prop
  | .createCampaign _ name discountType _ totalSupply _ =>
    totalSupply ≠ 0 ∧ name ≠ [] ∧ name.length ≤ maxNameLen ∧ discountType ≠ [] ∧
      discountType.length ≤ maxDiscountTypeLen
  | .registerShared _ _ code attributedTo payoutToken rate =>
    code ≠ [] ∧ code.length ≤ maxCodeLen ∧
      (payoutToken.isSome = true → attributedTo.isSome = true) ∧
      if payoutToken.isSome then 0 < rate else rate = 0
  | .issueUnique _ _ codes =>
    codes ≠ [] ∧ codes.length ≤ maxBatch ∧ (∀ code ∈ codes, code ≠ [] ∧ code.length ≤ maxCodeLen) ∧
      codes.Nodup
  | _ => True

/-- The errors that a call of these is left with, and what they then say of the state. -/
def Call.MayRaise (env : Env) (s : ContractState) : Call → Error → Prop
  | .createCampaign owner _ _ _ _ validUntil, e =>
    e = .invalidTerms → validUntil ≤ env.timestamp ∨
      UInt64.checkedAdd ((s.get (.ownerCount owner)).getD 0 : UInt64) 1 = none
  | .registerShared .., e => e ≠ .invalidCode ∧ e ≠ .codeTooLong ∧ e ≠ .invalidSettlement
  | .issueUnique _ c codes, e =>
    e ≠ .invalidCode ∧ e ≠ .codeTooLong ∧ e ≠ .batchTooLarge ∧
      (e = .duplicateCode → ∃ code ∈ codes, s.has (.codeIndex c code) = true)
  | _, _ => True

section Host

variable {P : Error → Prop} {env : Env} {s : ContractState} {who : Address} {k : DataKey}

theorem raises_requireAuth : Raises P (requireAuth env who) := by
  rw [requireAuth]
  split
  · exact raises_ok ()
  · exact raises_trap

theorem raises_extendTtl {threshold extend : ℕ} :
    Raises P (s.extendTtl env k threshold extend) := by
  rw [ContractState.extendTtl]
  split
  · exact raises_ok _
  · exact raises_trap

end Host

section Errors

variable {env : Env} {s : ContractState} {owner : Address} {c : UInt64}

theorem raises_createCampaign {name discountType : Bytes} {discountValue : UInt64}
    {totalSupply : UInt32} {validUntil : UInt64}
    (h : (Call.createCampaign owner name discountType discountValue totalSupply
      validUntil).WellFormed) :
    Raises ((Call.createCampaign owner name discountType discountValue totalSupply
        validUntil).MayRaise env s)
      (createCampaign env owner name discountType discountValue totalSupply validUntil s) := by
  obtain ⟨hsupply, hname, hnameLen, htype, htypeLen⟩ := h
  refine raises_bind raises_requireAuth fun _ _ ↦ ?_
  refine raises_bind (raises_rejectIf ?_) fun _ _ ↦ ?_
  · rintro (hzero | hnil | hlong | hnil | hlong)
    · exact absurd hzero hsupply
    · exact absurd hnil hname
    · exact absurd hlong (not_lt.2 hnameLen)
    · exact absurd hnil htype
    · exact absurd hlong (not_lt.2 htypeLen)
  refine raises_bind (raises_rejectIf fun hexpired _ ↦ Or.inl hexpired) fun _ _ ↦ ?_
  refine raises_bind (raises_orTrap _) fun id _ ↦ ?_
  refine raises_bind raises_extendTtl fun s' hs' ↦ ?_
  -- the owner has as many campaigns as before
  refine raises_bind (raises_okOr fun hnone _ ↦ Or.inr ?_) fun _ _ ↦ ?_
  · rw [(ContractState.extendTtl_eq_ok_iff.1 hs').2] at hnone
    exact hnone
  refine raises_bind raises_extendTtl fun _ _ ↦ ?_
  refine raises_bind raises_extendTtl fun _ _ ↦ ?_
  exact raises_bind raises_extendTtl fun _ _ ↦ raises_ok _

theorem raises_registerShared {code : Bytes} {attributedTo payoutToken : Option Address}
    {rate : I128}
    (h : (Call.registerShared owner c code attributedTo payoutToken rate).WellFormed) :
    Raises ((Call.registerShared owner c code attributedTo payoutToken rate).MayRaise env s)
      (registerShared env owner c code attributedTo payoutToken rate s) := by
  obtain ⟨hcode, hlen, hattributed, hrate⟩ := h
  refine raises_bind raises_requireAuth fun _ _ ↦ ?_
  refine raises_bind (raises_okOr fun _ ↦ ⟨nofun, nofun, nofun⟩) fun _ _ ↦ ?_
  refine raises_bind (raises_rejectIf fun _ ↦ ⟨nofun, nofun, nofun⟩) fun _ _ ↦ ?_
  refine raises_bind (raises_rejectIf fun _ ↦ ⟨nofun, nofun, nofun⟩) fun _ _ ↦ ?_
  refine raises_bind (raises_rejectIf fun hnil ↦ absurd hnil hcode) fun _ _ ↦ ?_
  refine raises_bind (raises_rejectIf fun hlong ↦ absurd hlong (not_lt.2 hlen)) fun _ _ ↦ ?_
  refine raises_bind (raises_rejectIf ?_) fun _ _ ↦ ?_
  · rintro ⟨hnone, hsome⟩
    rw [Option.isNone_iff_eq_none.1 hnone] at hattributed
    exact absurd (hattributed hsome) Bool.false_ne_true
  refine raises_bind (raises_rejectIf ?_) fun _ _ ↦ ?_
  · intro hbad
    split at hbad
    · rename_i hsome
      rw [if_pos hsome] at hrate
      exact absurd hbad (not_le.2 (I128.lt_def.1 hrate))
    · rename_i hnone
      rw [if_neg hnone] at hrate
      exact absurd hrate hbad
  refine raises_bind (raises_rejectIf fun _ ↦ ⟨nofun, nofun, nofun⟩) fun _ _ ↦ ?_
  exact raises_bind raises_extendTtl fun _ _ ↦ raises_ok _

/-- A code that is not in the index is not in it after another was minted. -/
theorem has_codeIndex_mintCode {acc acc' : ContractState × List UInt64} {code code' : Bytes}
    (h : mintCode env c acc code = .ok acc') (hne : code' ≠ code) :
    acc'.1.has (.codeIndex c code') = acc.1.has (.codeIndex c code') := by
  obtain ⟨-, -, -, t, -, -, hstorage, -⟩ := mintCode_ok h
  rw [ContractState.has_def, ContractState.has_def, hstorage]
  show (Function.update acc.1.storage.codeIndex (c, code) (some t) (c, code')).isSome = _
  rw [Function.update_of_ne fun heq ↦ hne (Prod.mk.inj heq).2]
  rfl

/-- A batch of codes that are all different is refused only for one that is there already. -/
theorem raises_mint {codes : List Bytes} (hnodup : codes.Nodup)
    (hcodes : ∀ code ∈ codes, code ≠ [] ∧ code.length ≤ maxCodeLen)
    (acc : ContractState × List UInt64) :
    Raises (fun e ↦ e = .duplicateCode ∧ ∃ code ∈ codes, acc.1.has (.codeIndex c code) = true)
      (codes.foldlM (mintCode env c) acc) := by
  induction codes generalizing acc with
  | nil => exact raises_ok acc
  | cons code codes ih =>
    obtain ⟨hfresh, hnodup⟩ := List.nodup_cons.1 hnodup
    obtain ⟨hcode, hlen⟩ := hcodes code List.mem_cons_self
    rw [List.foldlM_cons]
    refine raises_bind ?_ fun acc' hmint e he ↦ ?_
    · refine raises_bind (raises_rejectIf fun hnil ↦ absurd hnil hcode) fun _ _ ↦ ?_
      refine raises_bind (raises_rejectIf fun hlong ↦ absurd hlong (not_lt.2 hlen)) fun _ _ ↦ ?_
      refine raises_bind (raises_rejectIf fun hhas ↦ ⟨rfl, code, List.mem_cons_self, hhas⟩)
        fun _ _ ↦ ?_
      refine raises_bind (raises_orTrap _) fun _ _ ↦ ?_
      refine raises_bind raises_extendTtl fun _ _ ↦ ?_
      exact raises_bind raises_extendTtl fun _ _ ↦ raises_ok _
    · obtain ⟨hdup, code', hmem, hhas⟩ :=
        ih hnodup (fun code' h ↦ hcodes code' (List.mem_cons_of_mem code h)) acc' e he
      have hne : code' ≠ code := by
        rintro rfl
        exact hfresh hmem
      rw [has_codeIndex_mintCode hmint hne] at hhas
      exact ⟨hdup, code', List.mem_cons_of_mem code hmem, hhas⟩

theorem raises_issueUnique {codes : List Bytes}
    (h : (Call.issueUnique owner c codes).WellFormed) :
    Raises ((Call.issueUnique owner c codes).MayRaise env s)
      (issueUnique env owner c codes s) := by
  obtain ⟨hne, hbatch, hcodes, hnodup⟩ := h
  refine raises_bind raises_requireAuth fun _ _ ↦ ?_
  refine raises_bind (raises_okOr fun _ ↦ ⟨nofun, nofun, nofun, nofun⟩) fun _ _ ↦ ?_
  refine raises_bind (raises_rejectIf fun _ ↦ ⟨nofun, nofun, nofun, nofun⟩) fun _ _ ↦ ?_
  refine raises_bind (raises_rejectIf fun _ ↦ ⟨nofun, nofun, nofun, nofun⟩) fun _ _ ↦ ?_
  refine raises_bind (raises_rejectIf fun hzero ↦ absurd (List.length_eq_zero_iff.1 hzero) hne)
    fun _ _ ↦ ?_
  refine raises_bind (raises_rejectIf fun hlarge ↦ absurd hlarge (not_lt.2 hbatch)) fun _ _ ↦ ?_
  refine raises_bind (raises_okOr fun _ ↦ ⟨nofun, nofun, nofun, nofun⟩) fun _ _ ↦ ?_
  refine raises_bind (raises_rejectIf fun _ ↦ ⟨nofun, nofun, nofun, nofun⟩) fun _ _ ↦ ?_
  refine raises_bind (fun e he ↦ ?_) fun _ _ ↦ ?_
  · obtain ⟨rfl, hhas⟩ := raises_mint hnodup hcodes _ e he
    exact ⟨nofun, nofun, nofun, fun _ ↦ hhas⟩
  · exact raises_bind raises_extendTtl fun _ _ ↦ raises_ok _

end Errors

theorem raises_direct {α : Type} {P : Error → Prop} {f : α → Value}
    {r : Outcome Error (α × ContractState)} (h : Raises P r)
    (replies : ℕ → (op : TokenCall) → Option op.Answer) :
    Raises P ((direct f r).runReplies replies) := by
  rw [direct, Callout.runReplies_done]
  rcases r with fault | a
  · exact fun e he ↦ h e (Except.error.inj he ▸ rfl)
  · exact raises_ok _

/-- **A call that is well formed is not refused for what it says.** -/
theorem raises_of_wellFormed {call : Call} (h : call.WellFormed) (env : Env) (s : ContractState)
    (replies : ℕ → (op : TokenCall) → Option op.Answer) :
    Raises (call.MayRaise env s) ((call.exec env s).runReplies replies) := by
  cases call with
  | createCampaign => exact raises_direct (raises_createCampaign h) replies
  | registerShared => exact raises_direct (f := fun _ ↦ .unit) (raises_registerShared h) replies
  | issueUnique => exact raises_direct (raises_issueUnique h) replies
  | _ => exact fun _ _ ↦ trivial

end Soroticket
