import Soroticket.Ledger.Integrity
import Soroticket.Ledger.Owners

/-!
# Upkeep

An entry that nobody extends is archived some day, and storage cannot be iterated, so whoever keeps
a campaign alive calls `bump_campaign`, `bump_codes`, `bump_delegates` and `bump_tally` with a list
of what to extend. Four operations extend what six others wrote. Here they miss nothing: a caller
with a full inventory (`Upkeep`) extends every entry of the campaign.

One call is specified by the keys it refreshes (`Call.refreshes`), the same for every state with the
same values, since no call of the four changes a value. Of the entries of a campaign the inventory
names only codes, delegates and periods; that this is enough rests on what the other operations
write together: a coupon with its code, an owner's entry with the campaign's slot, a guard over a
committed tally.
-/

namespace Soroticket

open Outcome

/-! ### Lifetimes -/

/-- The entry lives for `ledgerBump` ledgers from `now`. -/
def Alive (now : ℕ) (k : DataKey) (s : ContractState) : Prop := now + ledgerBump ≤ s.liveUntil k

/-- The instance entry lives for `ledgerBump` ledgers from `now`. -/
def InstanceAlive (now : ℕ) (s : ContractState) : Prop := now + ledgerBump ≤ s.instanceLiveUntil

/-- The data is the same, and no lifetime is shorter. -/
structure Extends (s s' : ContractState) : Prop where
  data : SameData s s'
  liveUntil : ∀ k, s.liveUntil k ≤ s'.liveUntil k
  instanceLiveUntil : s.instanceLiveUntil ≤ s'.instanceLiveUntil

namespace Extends

variable {s s₁ s₂ s₃ : ContractState}

theorem refl (s : ContractState) : Extends s s := ⟨.refl s, fun _ ↦ le_rfl, le_rfl⟩

theorem trans (h : Extends s₁ s₂) (h' : Extends s₂ s₃) : Extends s₁ s₃ :=
  ⟨h.data.trans h'.data, fun k ↦ (h.liveUntil k).trans (h'.liveUntil k),
    h.instanceLiveUntil.trans h'.instanceLiveUntil⟩

theorem get_eq (h : Extends s s₁) (k : DataKey) : s₁.get k = s.get k := by
  rw [ContractState.get_def, ContractState.get_def, h.data.1]

theorem has_eq (h : Extends s s₁) (k : DataKey) : s₁.has k = s.has k := by
  rw [ContractState.has, ContractState.has, h.get_eq]

theorem alive (h : Extends s s₁) {now : ℕ} {k : DataKey} (hk : Alive now k s) : Alive now k s₁ :=
  hk.trans (h.liveUntil k)

theorem instanceAlive (h : Extends s s₁) {now : ℕ} (hs : InstanceAlive now s) :
    InstanceAlive now s₁ :=
  hs.trans h.instanceLiveUntil

end Extends

/-- An extension never shortens a lifetime, and leaves at least the threshold. -/
theorem le_extended (env : Env) (l : ℕ) : l ≤ ContractState.extended env l ledgerBump extendTo ∧
    env.sequence.toNat + ledgerBump ≤ ContractState.extended env l ledgerBump extendTo := by
  have hbump : ledgerBump ≤ extendTo := by decide
  rw [ContractState.extended]
  split <;> omega

section Extensions

variable {env : Env} {k : DataKey} {s : ContractState}

theorem extends_raiseTtl (s : ContractState) (env : Env) (k : DataKey) :
    Extends s (s.raiseTtl env k ledgerBump extendTo) ∧
      Alive env.sequence.toNat k (s.raiseTtl env k ledgerBump extendTo) := by
  refine ⟨⟨⟨rfl, rfl⟩, fun k' ↦ ?_, le_rfl⟩, ?_⟩
  · rw [ContractState.liveUntil_raiseTtl]
    rcases eq_or_ne k' k with rfl | hne
    · rw [Function.update_self]
      exact (le_extended env _).1
    · rw [Function.update_of_ne hne]
  · rw [Alive, ContractState.liveUntil_raiseTtl, Function.update_self]
    exact (le_extended env _).2

/-- An entry that is there is extended. -/
theorem exists_extendTtl (env : Env) (hk : s.has k = true) :
    ∃ s', s.extendTtl env k ledgerBump extendTo = .ok s' ∧ Extends s s' ∧
      Alive env.sequence.toNat k s' :=
  ⟨_, if_pos hk, extends_raiseTtl s env k⟩

/-- An entry is extended if it is there. -/
theorem bumpIfPresent_extends (env : Env) (k : DataKey) (s : ContractState) :
    ∃ s', bumpIfPresent env k s = .ok s' ∧ Extends s s' ∧
      (s.has k = true → Alive env.sequence.toNat k s') := by
  rw [bumpIfPresent]
  split
  case isTrue hk =>
    obtain ⟨s', hs', hext, halive⟩ := exists_extendTtl env hk
    exact ⟨s', hs', hext, fun _ ↦ halive⟩
  case isFalse hk => exact ⟨s, rfl, .refl s, fun h ↦ absurd h hk⟩

theorem extends_extendInstanceTtl (env : Env) (s : ContractState) :
    Extends s (s.extendInstanceTtl env ledgerBump extendTo) ∧
      InstanceAlive env.sequence.toNat (s.extendInstanceTtl env ledgerBump extendTo) := by
  refine ⟨⟨sameData_extendInstanceTtl env _ _ s, fun k ↦ ?_, ?_⟩, ?_⟩
  · rw [ContractState.liveUntil_extendInstanceTtl]
  · rw [ContractState.instanceLiveUntil_extendInstanceTtl]
    exact (le_extended env _).1
  · rw [InstanceAlive, ContractState.instanceLiveUntil_extendInstanceTtl]
    exact (le_extended env _).2

end Extensions

/-! ### What a call refreshes -/

/-- The keys that an upkeep call extends, if there are entries under them. -/
def Call.refreshes (s : Storage) : Call → DataKey → Prop
  | bumpCampaign c, k => k = .campaign c ∨ ∃ camp, s.campaign c = some camp ∧
    (k = .ownerCount camp.owner ∨ ∃ slot, s.campaignOwnerSlot c = some slot ∧
      (k = .campaignOwnerSlot c ∨ k = .ownerCampaign camp.owner slot))
  | bumpCodes c codes, k => ∃ code ∈ codes,
    k = .codeIndex c code ∨ ∃ t, s.codeIndex (c, code) = some t ∧ k = .token t
  | bumpDelegates c ds, k => ∃ who ∈ ds, k = .delegate c who
  | bumpTally c code periods, k => k = .shared c code ∨
    ∃ p ∈ periods, k = .tally c code p ∨ k = .settled c code p
  | _, _ => False

/-- The calls that upkeep of a campaign may make: with at most a hundred items, known or not, where
an unknown code must be one that could be issued. -/
def Call.Accepted (s : Storage) (c : UInt64) : Call → Prop
  | bumpCampaign c' => c' = c
  | bumpCodes c' codes => c' = c ∧ codes ≠ [] ∧ codes.length ≤ maxBatch ∧ ∀ code ∈ codes,
    (s.codeIndex (c, code)).isSome = true ∨ code ≠ [] ∧ code.length ≤ maxCodeLen
  | bumpDelegates c' ds => c' = c ∧ ds.length ≤ maxBatch
  | bumpTally c' code periods =>
    c' = c ∧ (s.shared (c, code)).isSome = true ∧ periods.length ≤ maxBatch
  | _ => False

section Calls

variable {env : Env} {c : UInt64} {s : ContractState}

/-- What a call achieves: it extends what it refreshes, and changes nothing else. -/
def Refreshed (s : ContractState) (env : Env) (call : Call) (s' : ContractState) : Prop :=
  Extends s s' ∧ ∀ k, call.refreshes s.storage k → s.has k = true → Alive env.sequence.toNat k s'

theorem bumpOwnerEntry_extends (env : Env) (c : UInt64) (owner : Address) (s : ContractState) :
    ∃ s', bumpOwnerEntry env c owner s = .ok s' ∧ Extends s s' ∧
      ∀ slot, s.get (.campaignOwnerSlot c) = some slot →
        Alive env.sequence.toNat (.campaignOwnerSlot c) s' ∧
        (s.has (.ownerCampaign owner slot) = true →
          Alive env.sequence.toNat (.ownerCampaign owner slot) s') := by
  rw [bumpOwnerEntry]
  split
  case h_1 slot hslot =>
    have hhas : s.has (.campaignOwnerSlot c) = true := by
      rw [ContractState.has, hslot]
      rfl
    obtain ⟨s₁, hs₁, hext₁, halive₁⟩ := exists_extendTtl env hhas
    obtain ⟨s₂, hs₂, hext₂, halive₂⟩ :=
      bumpIfPresent_extends env (.ownerCampaign owner slot) s₁
    refine ⟨s₂, by rw [hs₁, ok_bind, hs₂], hext₁.trans hext₂, fun slot' hslot' ↦ ?_⟩
    obtain rfl : slot = slot' := Option.some.inj (hslot.symm.trans hslot')
    exact ⟨hext₂.alive halive₁, fun h ↦ halive₂ (by rwa [hext₁.has_eq])⟩
  case h_2 hslot =>
    exact ⟨s, rfl, .refl s, fun slot h ↦ absurd (h.symm.trans hslot) (Option.some_ne_none slot)⟩

theorem bumpCampaign_refreshed (env : Env) {camp : Campaign}
    (hcamp : s.storage.campaign c = some camp) :
    ∃ s', bumpCampaign env c s = .ok ((), s') ∧ Refreshed s env (.bumpCampaign c) s' ∧
      InstanceAlive env.sequence.toNat s' := by
  have hget : s.get (.campaign c) = some camp := hcamp
  have hhas : s.has (.campaign c) = true := by rw [ContractState.has, hget]; rfl
  obtain ⟨s₁, hs₁, hext₁, halive₁⟩ := exists_extendTtl env hhas
  obtain ⟨s₂, hs₂, hext₂, halive₂⟩ := bumpIfPresent_extends env (.ownerCount camp.owner) s₁
  obtain ⟨s₃, hs₃, hext₃, halive₃⟩ := bumpOwnerEntry_extends env c camp.owner s₂
  obtain ⟨hext₄, halive₄⟩ := extends_extendInstanceTtl env s₃
  have hext₂₄ := hext₃.trans hext₄
  refine ⟨_, ?_, ⟨hext₁.trans (hext₂.trans hext₂₄), ?_⟩, halive₄⟩
  · rw [bumpCampaign, hget, okOr_some, ok_bind, hs₁, ok_bind, hs₂, ok_bind, hs₃, ok_bind]
    rfl
  · rintro k (rfl | ⟨camp', hcamp', h⟩) hk
    · exact (hext₂.trans hext₂₄).alive halive₁
    · obtain rfl := Option.some.inj (hcamp.symm.trans hcamp')
      rcases h with rfl | ⟨slot, hslot, h⟩
      · exact hext₂₄.alive (halive₂ (by rwa [hext₁.has_eq]))
      · have hslot₂ : s₂.get (.campaignOwnerSlot c) = some slot :=
          ((hext₁.trans hext₂).get_eq _).trans hslot
        obtain ⟨hself, hentry⟩ := halive₃ slot hslot₂
        rcases h with rfl | rfl
        · exact hext₄.alive hself
        · exact hext₄.alive (hentry (by rwa [(hext₁.trans hext₂).has_eq]))

/-- A round of `bump_codes`: the code may be issued, or one that could be. -/
theorem bumpCode_refreshed (env : Env) {code : Bytes} (hne : code ≠ [])
    (hlen : code.length ≤ maxCodeLen) :
    ∃ s', bumpCode env c s code = .ok s' ∧ Extends s s' ∧
      ∀ t, s.get (.codeIndex c code) = some t →
        Alive env.sequence.toNat (.codeIndex c code) s' ∧
        (s.has (.token t) = true → Alive env.sequence.toNat (.token t) s') := by
  rw [bumpCode, rejectIf_neg hne, ok_bind, rejectIf_neg (Nat.not_lt.2 hlen), ok_bind]
  split
  case h_1 t ht =>
    have hhas : s.has (.codeIndex c code) = true := by
      rw [ContractState.has, ht]
      rfl
    obtain ⟨s₁, hs₁, hext₁, halive₁⟩ := exists_extendTtl env hhas
    obtain ⟨s₂, hs₂, hext₂, halive₂⟩ := bumpIfPresent_extends env (.token t) s₁
    refine ⟨s₂, by rw [hs₁, ok_bind, hs₂], hext₁.trans hext₂, fun t' ht' ↦ ?_⟩
    obtain rfl : t = t' := Option.some.inj (ht.symm.trans ht')
    exact ⟨hext₂.alive halive₁, fun h ↦ halive₂ (by rwa [hext₁.has_eq])⟩
  case h_2 hnone =>
    exact ⟨s, rfl, .refl s, fun t h ↦ absurd (h.symm.trans hnone) (Option.some_ne_none t)⟩

theorem bumpCodes_refreshed (env : Env) {codes : List Bytes} (hne : codes ≠ [])
    (hbatch : codes.length ≤ maxBatch)
    (hcodes : ∀ code ∈ codes, code ≠ [] ∧ code.length ≤ maxCodeLen) :
    ∃ s', bumpCodes env c codes s = .ok ((), s') ∧ Refreshed s env (.bumpCodes c codes) s' := by
  obtain ⟨s', hs', hext, halive⟩ := exists_foldlM (R := Extends)
    (Q := fun code s' ↦ ∀ t, s.get (.codeIndex c code) = some t →
      Alive env.sequence.toNat (.codeIndex c code) s' ∧
      (s.has (.token t) = true → Alive env.sequence.toNat (.token t) s'))
    (f := bumpCode env c) Extends.refl (fun _ _ _ ↦ Extends.trans)
    (fun code s₁ s₂ hQ hext t ht ↦
      ⟨hext.alive (hQ t ht).1, fun h ↦ hext.alive ((hQ t ht).2 h)⟩)
    (l := codes) (fun code hcode s₁ hext ↦ by
      obtain ⟨s₂, hs₂, hext₂, hQ⟩ := bumpCode_refreshed (c := c) (s := s₁) env (hcodes code hcode).1
        (hcodes code hcode).2
      refine ⟨s₂, hs₂, hext₂, fun t ht ↦ ?_⟩
      obtain ⟨hindex, htoken⟩ := hQ t ((hext.get_eq _).trans ht)
      exact ⟨hindex, fun h ↦ htoken (by rwa [hext.has_eq])⟩)
  refine ⟨s', ?_, hext, ?_⟩
  · rw [bumpCodes, rejectIf_neg hne, ok_bind, rejectIf_neg (Nat.not_lt.2 hbatch), ok_bind, hs',
      ok_bind]
    rfl
  · rintro k ⟨code, hcode, rfl | ⟨t, ht, rfl⟩⟩ hk
    · obtain ⟨t, ht⟩ := Option.isSome_iff_exists.1 hk
      exact (halive code hcode t ht).1
    · exact (halive code hcode t ht).2 hk

theorem bumpDelegates_refreshed (env : Env) {ds : List Address} (hbatch : ds.length ≤ maxBatch)
    (hcamp : (s.storage.campaign c).isSome = true) :
    ∃ s', bumpDelegates env c ds s = .ok ((), s') ∧ Refreshed s env (.bumpDelegates c ds) s' := by
  obtain ⟨s', hs', hext, halive⟩ := exists_foldlM (R := Extends)
    (Q := fun who s' ↦ s.has (.delegate c who) = true →
      Alive env.sequence.toNat (.delegate c who) s')
    (f := fun s who ↦ bumpIfPresent env (.delegate c who) s) Extends.refl
    (fun _ _ _ ↦ Extends.trans) (fun who s₁ s₂ hQ hext h ↦ hext.alive (hQ h))
    (l := ds) (fun who _ s₁ hext ↦ by
      obtain ⟨s₂, hs₂, hext₂, hQ⟩ := bumpIfPresent_extends env (.delegate c who) s₁
      exact ⟨s₂, hs₂, hext₂, fun h ↦ hQ (by rwa [hext.has_eq])⟩)
  have hhas : s.has (.campaign c) = true := hcamp
  refine ⟨s', ?_, hext, ?_⟩
  · rw [bumpDelegates, rejectIf_neg (Nat.not_lt.2 hbatch), ok_bind,
      rejectIf_neg (by rw [hhas]; exact Bool.true_eq_false.mp), ok_bind, hs', ok_bind]
    rfl
  · rintro k ⟨who, hwho, rfl⟩ hk
    exact halive who hwho hk

theorem bumpTally_refreshed (env : Env) {code : Bytes} {periods : List UInt64}
    (hbatch : periods.length ≤ maxBatch) (hshared : (s.storage.shared (c, code)).isSome = true) :
    ∃ s', bumpTally env c code periods s = .ok ((), s') ∧
      Refreshed s env (.bumpTally c code periods) s' := by
  have hhas : s.has (.shared c code) = true := hshared
  obtain ⟨s₁, hs₁, hext₁, halive₁⟩ := exists_extendTtl env hhas
  obtain ⟨s', hs', hext, halive⟩ := exists_foldlM (R := Extends)
    (Q := fun p s' ↦ (s.has (.tally c code p) = true →
      Alive env.sequence.toNat (.tally c code p) s') ∧
      (s.has (.settled c code p) = true → Alive env.sequence.toNat (.settled c code p) s'))
    (f := fun s p ↦ do
      let s ← bumpIfPresent env (.tally c code p) s
      bumpIfPresent env (.settled c code p) s) Extends.refl (fun _ _ _ ↦ Extends.trans)
    (fun p s₁ s₂ hQ hext ↦ ⟨fun h ↦ hext.alive (hQ.1 h), fun h ↦ hext.alive (hQ.2 h)⟩)
    (l := periods) (fun p _ s₂ hext ↦ by
      obtain ⟨s₃, hs₃, hext₃, htally⟩ := bumpIfPresent_extends env (.tally c code p) s₂
      obtain ⟨s₄, hs₄, hext₄, hsettled⟩ := bumpIfPresent_extends env (.settled c code p) s₃
      have hall := hext₁.trans hext
      refine ⟨s₄, by rw [hs₃, ok_bind, hs₄], hext₃.trans hext₄, fun h ↦ ?_, fun h ↦ ?_⟩
      · exact hext₄.alive (htally (by rwa [hall.has_eq]))
      · exact hsettled (by rwa [(hall.trans hext₃).has_eq]))
  refine ⟨s', ?_, hext₁.trans hext, ?_⟩
  · rw [bumpTally, rejectIf_neg (Nat.not_lt.2 hbatch), ok_bind,
      rejectIf_neg (by rw [hhas]; exact Bool.true_eq_false.mp), ok_bind, hs₁, ok_bind, hs', ok_bind]
    rfl
  · rintro k (rfl | ⟨p, hp, rfl | rfl⟩) hk
    · exact hext.alive halive₁
    · exact (halive p hp).1 hk
    · exact (halive p hp).2 hk

end Calls

/-! ### Codes that were issued -/

theorem Mints.acceptable {c now : UInt64} {s s' : Storage} {codes : List Bytes} {ids : List UInt64}
    (h : Mints c now s codes ids s') : ∀ code ∈ codes, code ≠ [] ∧ code.length ≤ maxCodeLen := by
  induction h with
  | nil s => exact fun code hcode ↦ absurd hcode List.not_mem_nil
  | cons hne hlen hfree ht hrest ih =>
    intro code hcode
    rcases List.mem_cons.1 hcode with rfl | hcode
    · exact ⟨hne, hlen⟩
    · exact ih code hcode

/-- **Every code that was issued is one that `bump_codes` accepts.** -/
theorem Reachable.acceptable {s : ContractState} (h : Reachable s) {c : UInt64} {code : Bytes}
    (hcode : (s.storage.codeIndex (c, code)).isSome = true) :
    code ≠ [] ∧ code.length ≤ maxCodeLen := by
  refine h.induction (P := fun s ↦ ∀ c code, (s.codeIndex (c, code)).isSome = true →
    code ≠ [] ∧ code.length ≤ maxCodeLen) (fun c code h ↦ absurd h Bool.false_ne_true) ?_ c code
    hcode
  intro env call v s s' evs ih heff c code hcode
  obtain ⟨t, ht⟩ := Option.isSome_iff_exists.1 hcode
  rcases heff.codeIndex_origin ht with hold | ⟨owner, codes, ids, k, rfl, rfl, hk, -⟩
  · exact ih c code (by rw [hold]; rfl)
  · cases heff with
    | unchanged hcall => exact absurd hcall Bool.true_eq_false.mp
    | issueUnique _ _ _ _ _ _ _ _ hmints =>
      exact hmints.acceptable code (List.mem_of_getElem? hk)

/-! ### A full inventory -/

/-- The entries that belong to a campaign. -/
def Storage.EntryOf (s : Storage) (c : UInt64) : DataKey → Prop
  | .campaign id => id = c
  | .token t => ∃ tok, s.token t = some tok ∧ tok.campaignId = c
  | .codeIndex c' _ | .delegate c' _ | .campaignOwnerSlot c' | .shared c' _ | .tally c' _ _
  | .settled c' _ _ => c' = c
  | .ownerCount a => s.ownerOf c = some a
  | .ownerCampaign a i => s.ownerCampaign (a, i) = some c

/-- Upkeep of a campaign: accepted calls, in any order, that among them name the campaign, every
code issued, every delegate, every shared code, and every committed period. -/
structure Upkeep (s : Storage) (c : UInt64) (calls : List Tx) : Prop where
  accepted : ∀ tx ∈ calls, tx.call.Accepted s c
  campaign : ∃ tx ∈ calls, tx.call = .bumpCampaign c
  codes : ∀ code, (s.codeIndex (c, code)).isSome = true →
    ∃ tx ∈ calls, ∃ batch, tx.call = .bumpCodes c batch ∧ code ∈ batch
  delegates : ∀ who, (s.delegate (c, who)).isSome = true →
    ∃ tx ∈ calls, ∃ batch, tx.call = .bumpDelegates c batch ∧ who ∈ batch
  shared : ∀ code, (s.shared (c, code)).isSome = true →
    ∃ tx ∈ calls, ∃ batch, tx.call = .bumpTally c code batch
  periods : ∀ code p, (s.tally (c, code, p)).isSome = true →
    ∃ tx ∈ calls, ∃ batch, tx.call = .bumpTally c code batch ∧ p ∈ batch

/-- **A full inventory reaches every entry of the campaign.** -/
theorem Upkeep.covers {s : Storage} {c : UInt64} {calls : List Tx} (h : Upkeep s c calls)
    (hf : Filed s) (hl : Listed s) (hi : TallyIntegrity s) {camp : Campaign}
    (hcamp : s.campaign c = some camp) {k : DataKey} (hk : s.EntryOf c k)
    (hsome : (s.get k).isSome = true) : ∃ tx ∈ calls, tx.call.refreshes s k := by
  obtain ⟨tx₀, htx₀, hcall₀⟩ := h.campaign
  have howner : ∀ a, s.ownerOf c = some a → ∃ camp, s.campaign c = some camp ∧ camp.owner = a :=
    fun a ha ↦ Option.map_eq_some_iff.1 ha
  -- the entries of a period are reached by naming it
  have hperiod : ∀ code p, (s.tally (c, code, p)).isSome = true → ∃ tx ∈ calls,
      ∀ k, k = .tally c code p ∨ k = .settled c code p → tx.call.refreshes s k := by
    intro code p hp
    obtain ⟨tx, htx, batch, hcall, hmem⟩ := h.periods code p hp
    exact ⟨tx, htx, fun k hk ↦ by rw [hcall]; exact Or.inr ⟨p, hmem, hk⟩⟩
  cases k with
  | campaign id =>
    obtain rfl : id = c := hk
    exact ⟨tx₀, htx₀, by rw [hcall₀]; exact Or.inl rfl⟩
  | ownerCount a =>
    obtain ⟨camp, hcamp, rfl⟩ := howner a hk
    exact ⟨tx₀, htx₀, by rw [hcall₀]; exact Or.inr ⟨camp, hcamp, Or.inl rfl⟩⟩
  | ownerCampaign a i =>
    obtain ⟨ha, hslot⟩ := (hl.owned a i c).1 hk
    obtain ⟨camp, hcamp, rfl⟩ := howner a ha
    refine ⟨tx₀, htx₀, ?_⟩
    rw [hcall₀]
    exact Or.inr ⟨camp, hcamp, Or.inr ⟨i, hslot, Or.inr rfl⟩⟩
  | campaignOwnerSlot c' =>
    obtain rfl : c' = c := hk
    obtain ⟨slot, hslot⟩ := Option.isSome_iff_exists.1 hsome
    refine ⟨tx₀, htx₀, ?_⟩
    rw [hcall₀]
    exact Or.inr ⟨camp, hcamp, Or.inr ⟨slot, hslot, Or.inl rfl⟩⟩
  | token t =>
    obtain ⟨tok, htok, rfl⟩ := hk
    have hindex := (hf.token_filed t tok htok).2.2
    obtain ⟨tx, htx, batch, hcall, hmem⟩ := h.codes tok.code (by rw [hindex]; rfl)
    exact ⟨tx, htx, by rw [hcall]; exact ⟨tok.code, hmem, Or.inr ⟨t, hindex, rfl⟩⟩⟩
  | codeIndex c' code =>
    obtain rfl : c' = c := hk
    obtain ⟨tx, htx, batch, hcall, hmem⟩ := h.codes code hsome
    exact ⟨tx, htx, by rw [hcall]; exact ⟨code, hmem, Or.inl rfl⟩⟩
  | delegate c' who =>
    obtain rfl : c' = c := hk
    obtain ⟨tx, htx, batch, hcall, hmem⟩ := h.delegates who hsome
    exact ⟨tx, htx, by rw [hcall]; exact ⟨who, hmem, rfl⟩⟩
  | shared c' code =>
    obtain rfl : c' = c := hk
    obtain ⟨tx, htx, batch, hcall⟩ := h.shared code hsome
    exact ⟨tx, htx, by rw [hcall]; exact Or.inl rfl⟩
  | tally c' code p =>
    obtain rfl : c' = c := hk
    obtain ⟨tx, htx, hreach⟩ := hperiod code p hsome
    exact ⟨tx, htx, hreach _ (Or.inl rfl)⟩
  | settled c' code p =>
    obtain rfl : c' = c := hk
    -- a guard stands over a committed tally
    obtain ⟨⟨tally, htally⟩, -⟩ := hi.settled c' code p (Option.isSome_iff_ne_none.1 hsome)
    obtain ⟨tx, htx, hreach⟩ := hperiod code p (by rw [htally]; rfl)
    exact ⟨tx, htx, hreach _ (Or.inr rfl)⟩

/-! ### The calls of an upkeep -/

/-- A call that succeeds without a value. -/
theorem exec_of_direct {tx : Tx} {s s' : ContractState} {r : Outcome Error (Unit × ContractState)}
    (hcall : tx.call.exec tx.env s = direct (fun _ ↦ .unit) r) (hr : r = .ok ((), s')) :
    tx.exec s = .ok (.unit, s') := by
  rw [Tx.exec, hcall, direct, Callout.runReplies_done, hr]
  rfl

/-- **An accepted call succeeds**, and extends what it refreshes. -/
theorem exec_accepted {s : ContractState} {c : UInt64} {camp : Campaign} {tx : Tx}
    (hcamp : s.storage.campaign c = some camp) (hcodes : ∀ code,
      (s.storage.codeIndex (c, code)).isSome = true → code ≠ [] ∧ code.length ≤ maxCodeLen)
    (h : tx.call.Accepted s.storage c) :
    ∃ s', tx.exec s = .ok (.unit, s') ∧ Refreshed s tx.env tx.call s' ∧
      (tx.call = .bumpCampaign c → InstanceAlive tx.env.sequence.toNat s') := by
  obtain ⟨env, call, replies⟩ := tx
  cases call with
  | bumpCampaign c' =>
    obtain rfl : c' = c := h
    obtain ⟨s', hs', hfresh, hinst⟩ := bumpCampaign_refreshed env hcamp
    exact ⟨s', exec_of_direct rfl hs', hfresh, fun _ ↦ hinst⟩
  | bumpCodes c' codes =>
    obtain ⟨rfl, hne, hbatch, hall⟩ := h
    obtain ⟨s', hs', hfresh⟩ := bumpCodes_refreshed (c := c') env hne hbatch
      fun code hcode ↦ (hall code hcode).elim (hcodes code) id
    exact ⟨s', exec_of_direct rfl hs', hfresh, fun he ↦ by cases he⟩
  | bumpDelegates c' ds =>
    obtain ⟨rfl, hbatch⟩ := h
    obtain ⟨s', hs', hfresh⟩ := bumpDelegates_refreshed (c := c') env hbatch (by rw [hcamp]; rfl)
    exact ⟨s', exec_of_direct rfl hs', hfresh, fun he ↦ by cases he⟩
  | bumpTally c' code periods =>
    obtain ⟨rfl, hshared, hbatch⟩ := h
    obtain ⟨s', hs', hfresh⟩ := bumpTally_refreshed (c := c') env hbatch hshared
    exact ⟨s', exec_of_direct rfl hs', hfresh, fun he ↦ by cases he⟩
  | _ => exact h.elim

/-! ### Reads -/

/-- Whether an entry point only reads. -/
def Call.reads : Call → Bool
  | getCampaign .. | campaignsOf .. | campaignsPage .. | campaignStats .. | isDelegate ..
  | verify .. | isValid .. | totalCampaigns | totalMinted | getShared .. | getTally ..
  | isSettled .. | computePayouts .. => true
  | _ => false

/-- A read answers from the stored values. -/
theorem exec_reads {tx : Tx} {s s' : ContractState} (htx : tx.call.reads = true)
    (hs : s'.storage = s.storage) : (tx.exec s').map Prod.fst = (tx.exec s).map Prod.fst := by
  have hreading : ∀ (r : ContractState → Outcome Error Value), r s' = r s →
      (((reading (r s') s').runReplies tx.replies).map Prod.fst =
        ((reading (r s) s).runReplies tx.replies).map Prod.fst) := by
    intro r hr
    rw [reading, reading, Callout.runReplies_done, Callout.runReplies_done, hr]
    rcases r s with f | v <;> rfl
  obtain ⟨env, call, replies⟩ := tx
  obtain ⟨storage, live, inst, evs⟩ := s
  obtain ⟨storage', live', inst', evs'⟩ := s'
  obtain rfl : storage' = storage := hs
  cases call with
  | getCampaign c => exact hreading (fun s ↦ (getCampaign c s).map .campaign) rfl
  | campaignsOf owner =>
    refine hreading (fun s ↦ (campaignsOf owner s).map .ids) ?_
    rw [campaignsOf, campaignsOf, ownerLoop_eq, ownerLoop_eq]
    rfl
  | campaignsPage owner cursor limit =>
    refine hreading (fun s ↦ (campaignsPage owner cursor limit s).map .ids) ?_
    simp only [campaignsPage, ownerLoop_eq]
    rfl
  | campaignStats c => exact hreading (fun s ↦ (campaignStats env c s).map .stats) rfl
  | isDelegate c who => exact hreading (fun s ↦ .ok (.bool (isDelegate c who s))) rfl
  | verify c code => exact hreading (fun s ↦ (verify c code s).map .coupon) rfl
  | isValid c code => exact hreading (fun s ↦ .ok (.bool (isValid env c code s))) rfl
  | totalCampaigns => exact hreading (fun s ↦ .ok (.u64 (totalCampaigns s))) rfl
  | totalMinted => exact hreading (fun s ↦ .ok (.u64 (totalMinted s))) rfl
  | getShared c code => exact hreading (fun s ↦ (getShared c code s).map .shared) rfl
  | getTally c code period => exact hreading (fun s ↦ (getTally c code period s).map .tally) rfl
  | isSettled c code period => exact hreading (fun s ↦ .ok (.bool (isSettled c code period s))) rfl
  | computePayouts c code period =>
    exact hreading (fun s ↦ (computePayouts c code period s).map .payouts) rfl
  | _ => exact absurd htx Bool.false_ne_true

/-! ### The theorem -/

/-- **Upkeep is complete and changes nothing.** In a reachable state, every call of an upkeep of a
campaign succeeds. If none is made before ledger `now`, then afterwards every entry of the campaign,
and the instance entry, lives for `ledgerBump` ledgers from `now`; every value is what it was, and
every read answers what it did. -/
theorem upkeep_complete {s : ContractState} (h : Reachable s) {c : UInt64} {camp : Campaign}
    (hcamp : getCampaign c s = .ok camp) {calls : List Tx} (hup : Upkeep s.storage c calls)
    {now : ℕ} (hnow : ∀ tx ∈ calls, now ≤ tx.env.sequence.toNat) :
    runStrict Tx.exec s calls = .ok (runAll Tx.exec s calls) ∧
    (∀ k, s.storage.EntryOf c k → s.has k = true →
      now + ledgerBump ≤ (runAll Tx.exec s calls).liveUntil k) ∧
    now + ledgerBump ≤ (runAll Tx.exec s calls).instanceLiveUntil ∧
    (runAll Tx.exec s calls).storage = s.storage ∧
    ∀ tx : Tx, tx.call.reads = true →
      (tx.exec (runAll Tx.exec s calls)).map Prod.fst = (tx.exec s).map Prod.fst := by
  rw [getCampaign, okOr_eq_ok_iff] at hcamp
  -- a call achieves the same in every state with the values of the first
  let achieved (tx : Tx) (s' : ContractState) : Prop :=
    (∀ k, tx.call.refreshes s.storage k → s.has k = true → Alive tx.env.sequence.toNat k s') ∧
      (tx.call = .bumpCampaign c → InstanceAlive tx.env.sequence.toNat s')
  have hkept : ∀ tx s₁ s₂, achieved tx s₁ → Extends s₁ s₂ → achieved tx s₂ :=
    fun tx s₁ s₂ hdone hext ↦ ⟨fun k hk hsome ↦ hext.alive (hdone.1 k hk hsome),
      fun hcall ↦ hext.instanceAlive (hdone.2 hcall)⟩
  have hround : ∀ tx ∈ calls, ∀ s₁, Extends s s₁ →
      ∃ s₂, (tx.exec s₁).map Prod.snd = .ok s₂ ∧ Extends s₁ s₂ ∧ achieved tx s₂ := by
    intro tx htx s₁ hext
    have hstorage := hext.data.1
    have hcamp₁ : s₁.storage.campaign c = some camp := by
      rw [hstorage]
      exact hcamp
    have haccepted : tx.call.Accepted s₁.storage c := by
      rw [hstorage]
      exact hup.accepted tx htx
    obtain ⟨s₂, hs₂, ⟨hext₂, hfresh⟩, hinst⟩ := exec_accepted hcamp₁
      (fun code hcode ↦ h.acceptable (by rwa [hstorage] at hcode)) haccepted
    refine ⟨s₂, by rw [hs₂]; rfl, hext₂, fun k hk hsome ↦ ?_, hinst⟩
    exact hfresh k (by rwa [hstorage]) (by rwa [hext.has_eq])
  obtain ⟨s', hs', hext, halive⟩ := exists_foldlM (f := fun s (tx : Tx) ↦ (tx.exec s).map Prod.snd)
    Extends.refl (fun _ _ _ ↦ Extends.trans) hkept hround
  have hrun : runStrict Tx.exec s calls = .ok s' := hs'
  obtain rfl := runAll_of_runStrict hrun
  refine ⟨hrun, fun k hk hsome ↦ ?_, ?_, hext.data.1, fun tx htx ↦ exec_reads htx hext.data.1⟩
  · obtain ⟨tx, htx, hfresh⟩ :=
      hup.covers h.accounted.filed h.listed h.tallyIntegrity hcamp hk hsome
    exact (Nat.add_le_add_right (hnow tx htx) _).trans ((halive tx htx).1 k hfresh hsome)
  · obtain ⟨tx, htx, hcall⟩ := hup.campaign
    exact (Nat.add_le_add_right (hnow tx htx) _).trans ((halive tx htx).2 hcall)

namespace Sample

/-- Upkeep of the campaign of the sample, with a code, a delegate and a period that are not there,
and a code and a period twice. -/
def upkeep : List Tx :=
  [⟨envAt 20 owner, .bumpTally 1 sharedCode [9, 1], replies⟩,
   ⟨envAt 21 promoter, .bumpCodes 1 [code₂, [90], code₁], replies⟩,
   ⟨envAt 22 cashier, .bumpCodes 1 [code₁], replies⟩,
   ⟨envAt 23 owner, .bumpCampaign 1, replies⟩,
   ⟨envAt 24 owner, .bumpDelegates 1 [promoter, cashier], replies⟩,
   ⟨envAt 25 owner, .bumpTally 1 sharedCode [1], replies⟩]

theorem upkeep_upkeep : Upkeep (runFrom 0 history).storage 1 upkeep := by
  have hindex : (runFrom 0 history).storage.codeIndex =
      Function.update (Function.update (fun _ ↦ none) (1, code₁) (some 1)) (1, code₂) (some 2) :=
    rfl
  have hdelegate : (runFrom 0 history).storage.delegate =
      Function.update (fun _ ↦ none) (1, cashier) (some true) := rfl
  have hshared : (runFrom 0 history).storage.shared = Function.update (fun _ ↦ none) (1, sharedCode)
      (some ⟨1, sharedCode, some promoter, some token, .ofUInt32 5, 14⟩) := rfl
  have htally : (runFrom 0 history).storage.tally = Function.update (fun _ ↦ none)
      (1, sharedCode, 1) (some ⟨1, 3, .zero 32, attribution⟩) := rfl
  have hregistered : ((runFrom 0 history).storage.shared (1, sharedCode)).isSome = true := by
    rw [hshared, Function.update_self]
    rfl
  refine ⟨?_, ⟨_, List.mem_of_getElem? (show upkeep[3]? = some _ from rfl), rfl⟩,
    fun code h ↦ ?_, fun who h ↦ ?_, fun code h ↦ ?_, fun code p h ↦ ?_⟩
  · simp only [upkeep, List.forall_mem_cons, List.not_mem_nil, false_implies, implies_true,
      and_true, Call.Accepted, true_and]
    exact ⟨⟨hregistered, by decide⟩, ⟨by decide, by decide, Or.inr (by decide), Or.inr (by decide),
      Or.inr (by decide)⟩, ⟨by decide, by decide, Or.inr (by decide)⟩, by decide, hregistered,
      by decide⟩
  · obtain ⟨t, ht⟩ := Option.isSome_iff_exists.1 h
    rw [hindex] at ht
    refine ⟨_, List.mem_of_getElem? (show upkeep[1]? = some _ from rfl), _, rfl, ?_⟩
    rcases eq_or_eq_of_update ht with ⟨hkey, -⟩ | ⟨-, ht⟩
    · rw [(Prod.mk.inj hkey).2]
      decide
    · rcases eq_or_eq_of_update ht with ⟨hkey, -⟩ | ⟨-, ht⟩
      · rw [(Prod.mk.inj hkey).2]
        decide
      · exact absurd ht.symm (Option.some_ne_none t)
  · obtain ⟨b, hb⟩ := Option.isSome_iff_exists.1 h
    rw [hdelegate] at hb
    rcases eq_or_eq_of_update hb with ⟨hkey, -⟩ | ⟨-, hb⟩
    · rw [(Prod.mk.inj hkey).2]
      exact ⟨_, List.mem_of_getElem? (show upkeep[4]? = some _ from rfl), _, rfl, by decide⟩
    · exact absurd hb.symm (Option.some_ne_none b)
  · obtain ⟨sc, hsc⟩ := Option.isSome_iff_exists.1 h
    rw [hshared] at hsc
    rcases eq_or_eq_of_update hsc with ⟨hkey, -⟩ | ⟨-, hsc⟩
    · rw [(Prod.mk.inj hkey).2]
      exact ⟨_, List.mem_of_getElem? (show upkeep[5]? = some _ from rfl), _, rfl⟩
    · exact absurd hsc.symm (Option.some_ne_none sc)
  · obtain ⟨tally, ht⟩ := Option.isSome_iff_exists.1 h
    rw [htally] at ht
    rcases eq_or_eq_of_update ht with ⟨hkey, -⟩ | ⟨-, ht⟩
    · obtain ⟨-, rfl, rfl⟩ : (1 : UInt64) = 1 ∧ code = sharedCode ∧ p = 1 := by simpa using hkey
      exact ⟨_, List.mem_of_getElem? (show upkeep[5]? = some _ from rfl), _, rfl, by decide⟩
    · exact absurd ht.symm (Option.some_ne_none tally)

end Sample

/-- The guard of the sample's settled period, once written, outlives its upkeep. -/
theorem upkeep_complete_sample :
    runStrict Tx.exec (runFrom 0 Sample.history) Sample.upkeep =
        .ok (runAll Tx.exec (runFrom 0 Sample.history) Sample.upkeep) ∧
      7 + ledgerBump ≤ (runAll Tx.exec (runFrom 0 Sample.history) Sample.upkeep).liveUntil
        (.settled 1 Sample.sharedCode 1) := by
  have hcamp : ∃ camp, getCampaign 1 (runFrom 0 Sample.history) = .ok camp := ⟨_, rfl⟩
  obtain ⟨camp, hcamp⟩ := hcamp
  have hnow : ∀ tx ∈ Sample.upkeep, 7 ≤ tx.env.sequence.toNat := by decide
  obtain ⟨hall, halive, -⟩ :=
    upkeep_complete (Sample.reachable_take 7) hcamp Sample.upkeep_upkeep hnow
  exact ⟨hall, halive (.settled 1 Sample.sharedCode 1) rfl (by decide)⟩

end Soroticket
