import Soroticket.Cloud.Coining

/-!
# Amounts that coincide

A period has one amount: its count times the rate of its code. The list of settlements shows it
before it is settled, the contract computes it, a request to settle approves it and, where the
contract takes the settlement, is answered with it; and then nothing of the allowance is left.

The rows of `shared_codes` come from the requests that register codes, so a row has the terms of its
record on the chain (`Enrolled`). The rows of `tallies` have the counts of theirs (`Kept`), and each
is of a code in the table (`Found`), so it is listed. One question is read once for all three
(`CoinWorld.answered`): to the tallies it is a question of the server without the codes.
-/

namespace Soroticket

open Programs Handler Interleaving

variable {d : Deployment} {reg : Registry d} {τ : Type} {T : Tokens τ}

/-! ### The tables and the chain -/

/-- The table `shared_codes` beside the tallies and the chain: its rows, each with its rate. -/
structure CoinWorld (τ : Type) extends PayWorld τ where
  codes : List (SharedCodeRow × ℤ)

/-- The row a code is inserted as. -/
def Registry.sharedRow (reg : Registry d) (campaignID : ℕ) (row : NewShared) :
    Option SharedCodeRow :=
  reg.sharedCodes.find? fun r ↦
    r.campaignID = campaignID ∧ r.code = utf8 row.code ∧ r.attributedTo = row.attributedTo

/-- Whether a campaign is in the table under this id, with this id on the chain. -/
def Registry.hasCampaign (reg : Registry d) (id : ℕ) (chainID : UInt64) : Bool :=
  reg.campaigns.any fun c ↦ c.id = id ∧ c.chainID = chainID

namespace CoinWorld

/-- A row is inserted into `shared_codes`. -/
def insert (w : CoinWorld τ) (r : SharedCodeRow) (rate : ℤ) : CoinWorld τ :=
  { w with codes := w.codes ++ [(r, rate)] }

/-- The answer to a question. The registry holds the rows that the tables come to hold: a row is
inserted as it says, or the statement fails, and a code is found once it is inserted. -/
def answer (T : Tokens τ) (ch : PayChoice reg) (w : CoinWorld τ) :
    (e : Ask reg) → Option (e.Reply × CoinWorld τ)
  | .campaignByID a id =>
    match ch.reply (.campaignByID a id) with
    | none => some (none, w)
    | some c => if c.row ∈ reg.campaigns ∧ c.row.id = id then some (some c, w) else some (none, w)
  | .insertCampaign row =>
    match ch.reply (.insertCampaign row) with
    | none => some (none, w)
    | some id => if reg.hasCampaign id row.chainID = true then some (some id, w) else some (none, w)
  | .insertShared campaignID row =>
    match ch.reply (.insertShared campaignID row), reg.sharedRow campaignID row with
    | true, some r => some (true, w.insert r row.rate)
    | _, _ => some (false, w)
  | .insertProgram campaign program row =>
    match ch.reply (.insertProgram campaign program row) with
    | none => some (none, w)
    | some (programID, campaignID) =>
      match reg.hasCampaign campaignID campaign.chainID, reg.sharedRow campaignID row with
      | true, some r => some (some (programID, campaignID), w.insert r row.rate)
      | _, _ => some (none, w)
  | .sharedByCampaignCode a campaignID code =>
    match ch.reply (.sharedByCampaignCode a campaignID code) with
    | .error p => some (.error p, w)
    | .ok _ =>
      match reg.sharedByCampaignCode a campaignID code with
      | .error p => some (.error p, w)
      | .ok sc =>
        if sc.row ∈ w.codes.map Prod.fst then some (.ok sc, w)
        else some (.error ⟨404, "shared code not found"⟩, w)
  | e => (w.toPayWorld.answer T ch e).map fun (r, pay) ↦ (r, { w with toPayWorld := pay })

end CoinWorld

/-- The server. -/
def coinServer (T : Tokens τ) (reg : Registry d) :
    Server (@Ask.Reply d reg) (CoinWorld τ) (PayChoice reg) (PayEvent τ) where
  answer := CoinWorld.answer T
  outside event w := { w with toPayWorld := (payServer T reg).outside event w.toPayWorld }

/-! ### The list of settlements -/

/-- A settlement as it is listed. -/
structure SettlementView where
  tally : SettlementRow
  code : SharedCodeRow
  campaign : CampaignRow
  payoutRate : ℤ
  payoutPreview : ℤ

/-- What a period shows as its amount. -/
def payoutPreview (code : SharedCodeRow) (rate : ℤ) (attributedCount : Int64) : ℤ :=
  if code.attributedTo.isSome then rate * attributedCount.toInt else 0

/-- `handleListSettlements`. -/
def CoinWorld.listSettlements (reg : Registry d) (w : CoinWorld τ) (a : AuthCtx) :
    List SettlementView :=
  w.tallies.reverse.flatMap fun t ↦
    (w.codes.filter fun x ↦ x.1.id = t.sharedCodeID).flatMap fun (r, rate) ↦
      (reg.campaigns.filter fun c ↦ c.id = r.campaignID ∧ c.account = a).map fun c ↦
        ⟨t, r, c, rate, payoutPreview r rate t.attributedCount⟩

/-- What is listed: the periods of the codes in the table, for the accounts of their campaigns. -/
theorem CoinWorld.mem_listSettlements {w : CoinWorld τ} {a : AuthCtx} {v : SettlementView} :
    v ∈ w.listSettlements reg a ↔ v.tally ∈ w.tallies ∧ (v.code, v.payoutRate) ∈ w.codes ∧
      v.code.id = v.tally.sharedCodeID ∧ v.campaign ∈ reg.campaigns ∧
      v.campaign.id = v.code.campaignID ∧ v.campaign.account = a ∧
      v.payoutPreview = Soroticket.payoutPreview v.code v.payoutRate v.tally.attributedCount := by
  constructor
  · intro h
    obtain ⟨t, ht, h⟩ := List.mem_flatMap.1 h
    obtain ⟨⟨r, rate⟩, hr, h⟩ := List.mem_flatMap.1 h
    obtain ⟨c, hc, rfl⟩ := List.mem_map.1 h
    obtain ⟨hmem, hid⟩ := List.mem_filter.1 hr
    obtain ⟨hcamp, hcid⟩ := List.mem_filter.1 hc
    exact ⟨List.mem_reverse.1 ht, hmem, of_decide_eq_true hid, hcamp, (of_decide_eq_true hcid).1,
      (of_decide_eq_true hcid).2, rfl⟩
  · obtain ⟨t, r, c, rate, preview⟩ := v
    rintro ⟨ht, hr, hid, hc, hcid, haccount, hpreview⟩
    dsimp only at hpreview
    subst hpreview
    refine List.mem_flatMap.2 ⟨t, List.mem_reverse.2 ht, List.mem_flatMap.2 ⟨(r, rate), ?_, ?_⟩⟩
    · exact List.mem_filter.2 ⟨hr, decide_eq_true hid⟩
    · exact List.mem_map.2 ⟨c, List.mem_filter.2 ⟨hc, decide_eq_true ⟨hcid, haccount⟩⟩, rfl⟩

/-- A period of a code in the table is listed. -/
theorem CoinWorld.exists_listed {w : CoinWorld τ} {t : SettlementRow} (ht : t ∈ w.tallies)
    {sc : CurrentCode reg} (hsc : sc.row ∈ w.codes.map Prod.fst)
    (hid : sc.row.id = t.sharedCodeID) : ∃ v ∈ w.listSettlements reg sc.campaign.account,
      v.tally = t ∧ v.code = sc.row ∧ v.campaign = sc.campaign := by
  obtain ⟨⟨r, rate⟩, hr, rfl⟩ := List.mem_map.1 hsc
  let v : SettlementView :=
    ⟨t, sc.row, sc.campaign, rate, payoutPreview sc.row rate t.attributedCount⟩
  have hv : v ∈ w.listSettlements reg sc.campaign.account := CoinWorld.mem_listSettlements.2
    ⟨ht, hr, hid, sc.campaign_mem, sc.row_campaign.symm, rfl, rfl⟩
  exact ⟨v, hv, rfl, rfl, rfl⟩

/-! ### What is kept -/

/-- The contract has taken these terms. -/
def TermsFiled (s : Storage) (g : Option (UInt64 × Terms)) : Prop :=
  ∀ c terms, g = some (c, terms) → ∃ rec, s.shared (c, terms.code) = some rec ∧
    rec.attributedTo = terms.attributedTo ∧ rec.payoutRate = terms.rate

theorem TermsFiled.later {s s' : Storage} {g : Option (UInt64 × Terms)} (h : TermsFiled s g)
    (hlater : Later s s') : TermsFiled s' g := by
  intro c terms hg
  obtain ⟨rec, hshared, hterms⟩ := h c terms hg
  exact ⟨rec, hlater.shared _ _ hshared, hterms⟩

/-- A row of `shared_codes` has the terms of its record on the chain. -/
def CodeFiled (reg : Registry d) (s : Storage) (r : SharedCodeRow) (rate : ℤ) : Prop :=
  ∃ c ∈ reg.campaigns, c.id = r.campaignID ∧ (r.attributedTo = none → rate = 0) ∧
    ∃ rec, s.shared (c.chainID, r.code) = some rec ∧ rec.attributedTo = r.attributedTo ∧
      rec.payoutRate.val = rate

theorem CodeFiled.later {s s' : Storage} {r : SharedCodeRow} {rate : ℤ}
    (h : CodeFiled reg s r rate) (hlater : Later s s') : CodeFiled reg s' r rate := by
  obtain ⟨c, hc, hid, hrate, rec, hshared, hterms⟩ := h
  exact ⟨c, hc, hid, hrate, rec, hlater.shared _ _ hshared, hterms⟩

/-- A row that is inserted as what the contract has taken. -/
theorem TermsFiled.codeFiled {s : Storage} {c : CampaignRow} {terms : Terms} {campaignID : ℕ}
    {row : NewShared} {r : SharedCodeRow} (h : TermsFiled s (some (c.chainID, terms)))
    (hc : c ∈ reg.campaigns) (hid : c.id = campaignID) (hhas : row.Has terms)
    (hrow : reg.sharedRow campaignID row = some r) : CodeFiled reg s r row.rate := by
  obtain ⟨hcampaign, hcode, hattributed⟩ :
      r.campaignID = campaignID ∧ r.code = utf8 row.code ∧ r.attributedTo = row.attributedTo := by
    simpa using List.find?_some hrow
  obtain ⟨rec, hshared, hrecAttributed, hrecRate⟩ := h _ _ rfl
  refine ⟨c, hc, hid.trans hcampaign.symm, fun hnone ↦ hhas.unattributed ?_, rec, ?_, ?_, ?_⟩
  · rw [← hattributed, hnone]
  · rw [hcode, ← hhas.code, hshared]
  · rw [hrecAttributed, hhas.attributedTo, hattributed]
  · rw [hrecRate, hhas.rate]

/-- What is registered has its terms. -/
theorem Effect.registers {env : Env} {owner : Address} {c : UInt64} {code : Bytes}
    {attributedTo payoutToken : Option Address} {rate : I128} {v : Value} {s s' : Storage}
    {evs : List Event}
    (h : Effect env (.registerShared owner c code attributedTo payoutToken rate) v s s' evs) :
    TermsFiled s' (some (c, ⟨code, attributedTo, payoutToken, rate⟩)) := by
  intro c' terms hterms
  obtain ⟨rfl, rfl⟩ := Prod.mk.inj (Option.some.inj hterms)
  cases h with
  | unchanged hcall => exact absurd hcall.symm Bool.false_ne_true
  | registerShared => exact ⟨_, Function.update_self .., rfl, rfl⟩

/-- The codes of the table are on the chain. -/
def CoinWorld.CodesFiled (reg : Registry d) (w : CoinWorld τ) : Prop :=
  ∀ x ∈ w.codes, CodeFiled reg w.chain.storage x.1 x.2

/-- What the requests have registered is on the chain, and so are the codes of the table. -/
structure Enrolled (reg : Registry d) (w : CoinWorld τ) (gs : ℕ → Enrollment reg) : Prop where
  accounted : Accounted w.chain.storage
  filed : ∀ i, TermsFiled w.chain.storage (gs i).registered
  codes : w.CodesFiled reg

/-- The codes that the requests have found are in the table, and so is the code of every tally. -/
structure Found (reg : Registry d) (w : CoinWorld τ) (gs : ℕ → Enrollment reg) : Prop where
  found : ∀ i sc, (gs i).found = some sc → sc.row ∈ w.codes.map Prod.fst
  tallies : ∀ t ∈ w.tallies, ∃ sc : CurrentCode reg, sc.row ∈ w.codes.map Prod.fst ∧
    sc.row.id = t.sharedCodeID

/-! ### Answers -/

section Answers

variable {w w' : PayWorld τ} {ch : PayChoice reg}

/-- A call that is answered with a value is a transaction. -/
theorem PayWorld.answer_call_ok {call : Call} {v : Value} {txHash : Bytes}
    (h : w.answer T ch (.call call) = some (.ok (v, txHash), w')) :
    w.submit T ch.env call (some txHash) = .ok (v, w') := by
  rw [PayWorld.answer] at h
  split at h
  · exact absurd (Prod.mk.inj (Option.some.inj h)).1 (by simp)
  · split at h
    · exact absurd (Prod.mk.inj (Option.some.inj h)).1 (by simp)
    · rename_i hsubmit
      obtain ⟨hreply, rfl⟩ := Prod.mk.inj (Option.some.inj h)
      obtain ⟨rfl, rfl⟩ := Prod.mk.inj (Except.ok.inj hreply)
      exact hsubmit

/-- Every tally is of a code that had one before, or that a request stores one of. -/
def PayWorld.Tallied (w w' : PayWorld τ) (e : Ask reg) : Prop :=
  ∀ t ∈ w'.tallies, (∃ t' ∈ w.tallies, t'.sharedCodeID = t.sharedCodeID) ∨
    ∃ row eventIDs, e = .storeTally row eventIDs ∧ row.sharedCodeID = t.sharedCodeID

theorem PayWorld.Tallied.of_eq {e : Ask reg} (h : w'.tallies = w.tallies) : w.Tallied w' e :=
  fun t ht ↦ Or.inl ⟨t, h ▸ ht, rfl⟩

theorem PayWorld.Tallied.update {e : Ask reg} (w : PayWorld τ) (sharedID : ℕ) (period : UInt64)
    {f : SettlementRow → SettlementRow} (hf : ∀ t, (f t).sharedCodeID = t.sharedCodeID) :
    w.Tallied (w.updateTally sharedID period f) e := by
  intro t ht
  obtain ⟨t', ht', rfl⟩ := List.mem_map.1 ht
  refine Or.inl ⟨t', ht', ?_⟩
  split
  · exact (hf t').symm
  · rfl

theorem PayWorld.storeTally?_eq_some {row : TallyRow} (h : w.storeTally? row = some w') :
    w' = { w with tallies := w.tallies ++ [⟨row, false, none, none⟩] } := by
  rw [storeTally?] at h
  split at h
  · exact absurd h.symm (Option.some_ne_none w')
  · exact (Option.some.inj h).symm

/-- **What an answer does**: it is a transaction, or the chain stays as it is. -/
theorem PayWorld.answer_cases {e : Ask reg} {r : e.Reply} (h : w.answer T ch e = some (r, w')) :
    (w'.chain = w.chain ∧ w.Tallied w' e) ∨
    ∃ call v txHash, (⟨e, r⟩ : Exchange (@Ask.Reply d reg)) = ⟨.call call, .ok (v, txHash)⟩ ∧
      w.submit T ch.env call (some txHash) = .ok (v, w') := by
  have hsame : w' = w → w'.chain = w.chain ∧ w.Tallied w' e := by
    rintro rfl
    exact ⟨rfl, .of_eq rfl⟩
  have hleft : ∀ {r' : e.Reply} {w'' : PayWorld τ}, some (r', w'') = some (r, w') → w' = w'' :=
    fun heq ↦ (Prod.mk.inj (Option.some.inj heq)).2.symm
  cases e with
  | call call =>
    rcases r with error | ⟨v, txHash⟩
    · refine Or.inl (hsame ?_)
      rw [PayWorld.answer] at h
      split at h
      · exact hleft h
      · split at h
        · exact hleft h
        · exact absurd (Prod.mk.inj (Option.some.inj h)).1 (by simp)
    · exact Or.inr ⟨call, v, txHash, rfl, PayWorld.answer_call_ok h⟩
  | storeTally row eventIDs =>
    rw [PayWorld.answer] at h
    split at h
    · exact Or.inl (hsame (hleft h))
    · split at h
      · exact Or.inl (hsame (hleft h))
      · rename_i hstore
        obtain rfl := (hleft h).trans (PayWorld.storeTally?_eq_some hstore)
        refine Or.inl ⟨rfl, fun t ht ↦ ?_⟩
        rcases List.mem_append.1 ht with hold | hnew
        · exact Or.inl ⟨t, hold, rfl⟩
        · exact Or.inr ⟨row, eventIDs, rfl, by rw [List.mem_singleton.1 hnew]⟩
  | settleTally sharedID period txHash total =>
    obtain rfl := hleft h
    split
    · exact Or.inl ⟨rfl, .update w sharedID period fun _ ↦ rfl⟩
    · exact Or.inl ⟨rfl, .of_eq rfl⟩
  | reconcile sharedID period =>
    obtain rfl := hleft h
    split
    · refine Or.inl ⟨rfl, .update w sharedID period fun t ↦ ?_⟩
      split
      · rfl
      · rfl
    · exact Or.inl ⟨rfl, .of_eq rfl⟩
  | clientFor a =>
    rw [PayWorld.answer] at h
    split at h
    · exact Or.inl (hsame (hleft h))
    · split at h
      · exact absurd h.symm (Option.some_ne_none _)
      · obtain rfl := hleft h
        exact Or.inl ⟨rfl, .of_eq rfl⟩
  | approveSettlement token owner amount last =>
    rw [PayWorld.answer] at h
    split at h
    · exact Or.inl (hsame (hleft h))
    · split at h
      · exact Or.inl (hsame (hleft h))
      · obtain rfl := hleft h
        exact Or.inl ⟨rfl, .of_eq rfl⟩
  | simulate call =>
    rw [PayWorld.answer] at h
    split at h
    · exact Or.inl (hsame (hleft h))
    · split at h
      · exact Or.inl (hsame (hleft h))
      · exact Or.inl (hsame (hleft h))
  | sharedByCampaignCode a campaignID code =>
    rw [PayWorld.answer] at h
    split at h
    · exact Or.inl (hsame (hleft h))
    · exact Or.inl (hsame (hleft h))
  | _ =>
    obtain rfl := hleft h
    exact Or.inl ⟨rfl, .of_eq rfl⟩

/-- A transaction keeps the records of the chain. -/
theorem PayWorld.submit_later (haccounted : Accounted w.chain.storage) {env : Env} {call : Call}
    {txHash : Option Bytes} {v : Value} (h : w.submit T env call txHash = .ok (v, w')) :
    Accounted w'.chain.storage ∧ Soroticket.Later w.chain.storage w'.chain.storage ∧
      ∃ evs, Effect { env with currentContract := T.spender } call v w.chain.storage
        w'.chain.storage evs := by
  obtain ⟨chain, books, hrun, rfl⟩ := PayWorld.submit_eq_ok h
  obtain ⟨evs, heffect⟩ := runWith_effect hrun
  exact ⟨heffect.accounted haccounted, heffect.later haccounted.filed, evs, heffect⟩

/-- What a request has registered is on the chain after an answer. -/
theorem PayWorld.registered_of_answer (haccounted : Accounted w.chain.storage)
    {g : Enrollment reg} (hg : TermsFiled w.chain.storage g.registered) {e : Ask reg} {r : e.Reply}
    (h : w.answer T ch e = some (r, w')) :
    Accounted w'.chain.storage ∧ Soroticket.Later w.chain.storage w'.chain.storage ∧
      TermsFiled w'.chain.storage ((enrolling reg).next g e r).registered := by
  have hstill : w'.chain = w.chain → ∀ g' : Enrollment reg, g'.registered = g.registered →
      Accounted w'.chain.storage ∧ Soroticket.Later w.chain.storage w'.chain.storage ∧
        TermsFiled w'.chain.storage g'.registered := by
    intro hchain g' hsame
    rw [hchain, hsame]
    exact ⟨haccounted, .refl _, hg⟩
  cases e with
  | call call =>
    rcases r with error | ⟨v, txHash⟩
    · obtain ⟨hchain, -⟩ | ⟨_, _, _, heq, -⟩ := PayWorld.answer_cases h
      · exact hstill hchain _ (by cases call with | _ => rfl)
      · cases heq
    · obtain ⟨haccounted', hlater, evs, heffect⟩ :=
        PayWorld.submit_later haccounted (PayWorld.answer_call_ok h)
      refine ⟨haccounted', hlater, ?_⟩
      cases call with
      | registerShared => exact heffect.registers
      | _ => exact hg.later hlater
  | sharedByCampaignCode a campaignID code =>
    obtain ⟨hchain, -⟩ | ⟨_, _, _, heq, -⟩ := PayWorld.answer_cases h
    · exact hstill hchain _ (by rcases r with p | sc <;> rfl)
    · cases heq
  | _ =>
    obtain ⟨hchain, -⟩ | ⟨_, _, _, heq, -⟩ := PayWorld.answer_cases h
    · exact hstill hchain g rfl
    · cases heq

variable (reg T) in
/-- What others do keeps the records of the chain. -/
theorem payServer_later (haccounted : Accounted w.chain.storage) (event : PayEvent τ) :
    let w' := (payServer T reg).outside event w
    Accounted w'.chain.storage ∧ Soroticket.Later w.chain.storage w'.chain.storage := by
  rcases event with ⟨env, call⟩ | f
  · rw [payServer]
    dsimp only
    split
    · exact ⟨haccounted, .refl _⟩
    · rename_i hsubmit
      obtain ⟨haccounted', hlater, -⟩ := PayWorld.submit_later haccounted hsubmit
      exact ⟨haccounted', hlater⟩
  · exact ⟨haccounted, .refl _⟩

variable (reg T) in
/-- And it leaves the tallies as they are. -/
theorem payServer_tallies (event : PayEvent τ) :
    ((payServer T reg).outside event w).tallies = w.tallies := by
  rcases event with ⟨env, call⟩ | f
  · rw [payServer]
    dsimp only
    split
    · rfl
    · rename_i hsubmit
      obtain ⟨_, _, -, rfl⟩ := PayWorld.submit_eq_ok hsubmit
      rfl
  · rfl

end Answers

/-- What an answer does to the codes: it is one of the server of the tallies, under some choice, and
a code is inserted where a request asks for it. -/
structure CoinAnswered (T : Tokens τ) (w w' : CoinWorld τ) (e : Ask reg) (r : e.Reply) : Prop where
  pay : ∃ ch, w.toPayWorld.answer T ch e = some (r, w'.toPayWorld)
  codes : w'.codes = w.codes ∨ ∃ campaignID row x, reg.sharedRow campaignID row = some x ∧
    w'.codes = w.codes ++ [(x, row.rate)] ∧ (e = .insertShared campaignID row ∨
      ∃ campaign program, e = .insertProgram campaign program row ∧
        ∃ c ∈ reg.campaigns, c.id = campaignID ∧ c.chainID = campaign.chainID)
  possible : ∀ g, (enrolling reg).possible g e r
  found : ∀ g sc, ((enrolling reg).next g e r).found = some sc →
    g.found = some sc ∨ sc.row ∈ w.codes.map Prod.fst

theorem Registry.exists_of_hasCampaign {id : ℕ} {chainID : UInt64}
    (h : reg.hasCampaign id chainID = true) :
    ∃ c ∈ reg.campaigns, c.id = id ∧ c.chainID = chainID := by
  obtain ⟨c, hc, heq⟩ := List.any_eq_true.1 h
  exact ⟨c, hc, of_decide_eq_true heq⟩

namespace CoinWorld

variable {w w' : CoinWorld τ} {ch : PayChoice reg}

/-- A reply that the tables of codes give could have been chosen. -/
theorem exists_choice (w : CoinWorld τ) (ch : PayChoice reg) {e : Ask reg} {r : e.Reply}
    (h : ∀ ch' : PayChoice reg, ch'.reply e = r →
      w.toPayWorld.answer T ch' e = some (r, w.toPayWorld)) :
    ∃ ch', w.toPayWorld.answer T ch' e = some (r, w.toPayWorld) := by
  classical
  exact ⟨{ ch with reply := Function.update ch.reply e r }, h _ (Function.update_self e r ch.reply)⟩

/-- Where the server of the tallies gives any reply that is chosen, it could have given this one. -/
theorem exists_choice_of_reply (w : CoinWorld τ) (ch : PayChoice reg) (e : Ask reg)
    (h : ∀ ch' : PayChoice reg,
      w.toPayWorld.answer T ch' e = some (ch'.reply e, w.toPayWorld)) (r : e.Reply) :
    ∃ ch', w.toPayWorld.answer T ch' e = some (r, w.toPayWorld) :=
  w.exists_choice ch fun ch' hreply ↦ hreply ▸ h ch'

theorem answered_campaignByID {a : AuthCtx} {id : ℕ} {r : Option CampaignView}
    (h : w.answer T ch (.campaignByID a id) = some (r, w')) :
    CoinAnswered T w w' (.campaignByID a id : Ask reg) r := by
  have hstays : (∀ g, (enrolling reg).possible g (.campaignByID a id) r) →
      CoinAnswered T w w (.campaignByID a id : Ask reg) r := fun hpossible ↦
    ⟨w.exists_choice_of_reply ch (.campaignByID a id) (fun _ ↦ rfl) r, Or.inl rfl,
      hpossible, fun _ _ ↦ Or.inl⟩
  rw [answer] at h
  split at h
  · obtain ⟨rfl, rfl⟩ := Prod.mk.inj (Option.some.inj h)
    exact hstays fun _ ↦ trivial
  · split at h
    · rename_i hrow
      obtain ⟨rfl, rfl⟩ := Prod.mk.inj (Option.some.inj h)
      exact hstays fun _ ↦ hrow
    · obtain ⟨rfl, rfl⟩ := Prod.mk.inj (Option.some.inj h)
      exact hstays fun _ ↦ trivial

theorem answered_insertCampaign {row : NewCampaign} {r : Option ℕ}
    (h : w.answer T ch (.insertCampaign row) = some (r, w')) :
    CoinAnswered T w w' (.insertCampaign row : Ask reg) r := by
  have hstays : (∀ g, (enrolling reg).possible g (.insertCampaign row) r) →
      CoinAnswered T w w (.insertCampaign row : Ask reg) r := fun hpossible ↦
    ⟨w.exists_choice_of_reply ch (.insertCampaign row) (fun _ ↦ rfl) r, Or.inl rfl,
      hpossible, fun _ _ ↦ Or.inl⟩
  rw [answer] at h
  split at h
  · obtain ⟨rfl, rfl⟩ := Prod.mk.inj (Option.some.inj h)
    exact hstays fun _ ↦ trivial
  · split at h
    · rename_i hcampaign
      obtain ⟨rfl, rfl⟩ := Prod.mk.inj (Option.some.inj h)
      exact hstays fun _ ↦ reg.exists_of_hasCampaign hcampaign
    · obtain ⟨rfl, rfl⟩ := Prod.mk.inj (Option.some.inj h)
      exact hstays fun _ ↦ trivial

theorem answered_insertShared {campaignID : ℕ} {row : NewShared} {r : Bool}
    (h : w.answer T ch (.insertShared campaignID row) = some (r, w')) :
    CoinAnswered T w w' (.insertShared campaignID row : Ask reg) r := by
  have hchoice : ∀ r : Bool, ∃ ch' : PayChoice reg, w.toPayWorld.answer T ch'
      (.insertShared campaignID row) = some (r, w.toPayWorld) :=
    w.exists_choice_of_reply ch (.insertShared campaignID row) fun _ ↦ rfl
  rw [answer] at h
  split at h
  · rename_i x _ hrow
    obtain ⟨rfl, rfl⟩ := Prod.mk.inj (Option.some.inj h)
    exact ⟨hchoice true, Or.inr ⟨campaignID, row, x, hrow, rfl, Or.inl rfl⟩, fun _ ↦ trivial,
      fun _ _ ↦ Or.inl⟩
  · obtain ⟨rfl, rfl⟩ := Prod.mk.inj (Option.some.inj h)
    exact ⟨hchoice false, Or.inl rfl, fun _ ↦ trivial, fun _ _ ↦ Or.inl⟩

theorem answered_insertProgram {campaign : NewCampaign} {program : NewProgram} {row : NewShared}
    {r : Option (ℕ × ℕ)} (h : w.answer T ch (.insertProgram campaign program row) = some (r, w')) :
    CoinAnswered T w w' (.insertProgram campaign program row : Ask reg) r := by
  have hchoice : ∀ r : Option (ℕ × ℕ), ∃ ch' : PayChoice reg, w.toPayWorld.answer T ch'
      (.insertProgram campaign program row) = some (r, w.toPayWorld) :=
    w.exists_choice_of_reply ch (.insertProgram campaign program row) fun _ ↦ rfl
  rw [answer] at h
  split at h
  · obtain ⟨rfl, rfl⟩ := Prod.mk.inj (Option.some.inj h)
    exact ⟨hchoice none, Or.inl rfl, fun _ ↦ trivial, fun _ _ ↦ Or.inl⟩
  · split at h
    · rename_i campaignID _ _ _ x hcampaign hrow
      obtain ⟨rfl, rfl⟩ := Prod.mk.inj (Option.some.inj h)
      exact ⟨hchoice _, Or.inr ⟨campaignID, row, x, hrow, rfl, Or.inr ⟨campaign, program, rfl,
        reg.exists_of_hasCampaign hcampaign⟩⟩, fun _ ↦ trivial, fun _ _ ↦ Or.inl⟩
    · obtain ⟨rfl, rfl⟩ := Prod.mk.inj (Option.some.inj h)
      exact ⟨hchoice none, Or.inl rfl, fun _ ↦ trivial, fun _ _ ↦ Or.inl⟩

theorem answered_sharedByCampaignCode {a : AuthCtx} {campaignID : ℕ} {code : Bytes}
    {r : Except Problem (CurrentCode reg)}
    (h : w.answer T ch (.sharedByCampaignCode a campaignID code) = some (r, w')) :
    CoinAnswered T w w' (.sharedByCampaignCode a campaignID code : Ask reg) r := by
  have hrefused : ∀ p, CoinAnswered T w w (.sharedByCampaignCode a campaignID code : Ask reg)
      (.error p) := by
    intro p
    refine ⟨w.exists_choice ch fun ch' hreply ↦ ?_, Or.inl rfl, fun _ ↦ trivial, fun _ _ ↦ Or.inl⟩
    rw [PayWorld.answer, hreply]
  rw [answer] at h
  split at h
  · obtain ⟨rfl, rfl⟩ := Prod.mk.inj (Option.some.inj h)
    exact hrefused _
  · split at h
    · obtain ⟨rfl, rfl⟩ := Prod.mk.inj (Option.some.inj h)
      exact hrefused _
    · rename_i sc hsc
      split at h
      · rename_i hmem
        obtain ⟨rfl, rfl⟩ := Prod.mk.inj (Option.some.inj h)
        refine ⟨w.exists_choice ch fun ch' hreply ↦ ?_, Or.inl rfl, fun _ ↦ trivial,
          fun g sc' hfound ↦ Or.inr ?_⟩
        · rw [PayWorld.answer, hreply]
          dsimp only
          rw [hsc]
        · obtain rfl := Option.some.inj hfound
          exact hmem
      · obtain ⟨rfl, rfl⟩ := Prod.mk.inj (Option.some.inj h)
        exact hrefused _

variable (ch) in
/-- A question of the tallies and the chain. -/
theorem answered_pay {e : Ask reg} {r : e.Reply}
    (h : (w.toPayWorld.answer T ch e).map (fun (r, pay) ↦ (r, { w with toPayWorld := pay })) =
      some (r, w')) (hpossible : ∀ g, (enrolling reg).possible g e r)
    (hfound : ∀ g, ((enrolling reg).next g e r).found = g.found) : CoinAnswered T w w' e r := by
  obtain ⟨⟨r', pay⟩, hpay, heq⟩ := Option.map_eq_some_iff.1 h
  obtain ⟨rfl, rfl⟩ := Prod.mk.inj heq
  exact ⟨⟨ch, hpay⟩, Or.inl rfl, hpossible, fun g sc hsc ↦ Or.inl ((hfound g).symm.trans hsc)⟩

/-- **What one question does.** -/
theorem answered {e : Ask reg} {r : e.Reply} (h : w.answer T ch e = some (r, w')) :
    CoinAnswered T w w' e r := by
  cases e with
  | campaignByID a id => exact answered_campaignByID h
  | insertCampaign row => exact answered_insertCampaign h
  | insertShared campaignID row => exact answered_insertShared h
  | insertProgram campaign program row => exact answered_insertProgram h
  | sharedByCampaignCode a campaignID code => exact answered_sharedByCampaignCode h
  | call call =>
    refine answered_pay ch h (fun _ ↦ trivial) fun g ↦ ?_
    rcases r with error | v
    · cases call with | _ => rfl
    · cases call with | _ => rfl
  | _ => exact answered_pay ch h (fun _ ↦ trivial) fun _ ↦ rfl

end CoinWorld

/-- **One question keeps the codes.** -/
theorem Enrolled.answered {w w' : CoinWorld τ} {gs : ℕ → Enrollment reg} (h : Enrolled reg w gs)
    {i : ℕ} {ch : PayChoice reg} {e : Ask reg} {r : e.Reply} (hmay : (enrolling reg).may (gs i) e)
    (hanswer : w.answer T ch e = some (r, w')) :
    Enrolled reg w' (Function.update gs i ((enrolling reg).next (gs i) e r)) := by
  have hwhat := CoinWorld.answered hanswer
  obtain ⟨ch', hpay⟩ := hwhat.pay
  obtain ⟨haccounted, hlater, hfiled⟩ := PayWorld.registered_of_answer h.accounted (h.filed i) hpay
  have hold : ∀ x ∈ w.codes, CodeFiled reg w'.chain.storage x.1 x.2 :=
    fun x hx ↦ (h.codes x hx).later hlater
  refine ⟨haccounted, fun j ↦ ?_, ?_⟩
  · rcases eq_or_ne j i with rfl | hne
    · rw [Function.update_self]
      exact hfiled
    · rw [Function.update_of_ne hne]
      exact (h.filed j).later hlater
  · rcases hwhat.codes with hsame | ⟨campaignID, row, x, hrow, hcodes, hasked⟩
    · rw [CoinWorld.CodesFiled, hsame]
      exact hold
    · -- what is inserted is what the request has registered
      have hnew : CodeFiled reg w.chain.storage x row.rate := by
        have hregistered := h.filed i
        rcases hasked with rfl | ⟨campaign, program, rfl, c, hc, hid, hchain⟩
        · obtain ⟨c, hc, hid, terms, hg, hhas⟩ := hmay
          exact (hg ▸ hregistered).codeFiled hc hid hhas hrow
        · obtain ⟨terms, hg, hhas⟩ := hmay
          rw [hg, ← hchain] at hregistered
          exact hregistered.codeFiled hc hid hhas hrow
      intro y hy
      rw [hcodes] at hy
      rcases List.mem_append.1 hy with hy | hy
      · exact hold y hy
      · rw [List.mem_singleton.1 hy]
        exact hnew.later hlater

/-- **One question keeps the codes of the tallies in the table.** -/
theorem Found.answered {w w' : CoinWorld τ} {gs : ℕ → Enrollment reg} (h : Found reg w gs)
    {i : ℕ} {ch : PayChoice reg} {e : Ask reg} {r : e.Reply} (hmay : (enrolling reg).may (gs i) e)
    (hanswer : w.answer T ch e = some (r, w')) :
    Found reg w' (Function.update gs i ((enrolling reg).next (gs i) e r)) := by
  have hwhat := CoinWorld.answered hanswer
  have hsubset : ∀ x ∈ w.codes.map Prod.fst, x ∈ w'.codes.map Prod.fst := by
    intro x hx
    rcases hwhat.codes with hsame | ⟨_, _, _, -, hcodes, -⟩
    · rw [hsame]
      exact hx
    · rw [hcodes, List.map_append]
      exact List.mem_append_left _ hx
  obtain ⟨ch', hpay⟩ := hwhat.pay
  refine ⟨fun j sc hfound ↦ ?_, fun t ht ↦ ?_⟩
  · rcases eq_or_ne j i with rfl | hne
    · rw [Function.update_self] at hfound
      exact hsubset _ ((hwhat.found _ _ hfound).elim (h.found j sc) id)
    · rw [Function.update_of_ne hne] at hfound
      exact hsubset _ (h.found j sc hfound)
  · have hold : ∀ t' ∈ w.tallies, t'.sharedCodeID = t.sharedCodeID → ∃ sc : CurrentCode reg,
        sc.row ∈ w'.codes.map Prod.fst ∧ sc.row.id = t.sharedCodeID := by
      intro t' ht' hid
      obtain ⟨sc, hsc, hscid⟩ := h.tallies t' ht'
      exact ⟨sc, hsubset _ hsc, hscid.trans hid⟩
    rcases PayWorld.answer_cases hpay with ⟨-, htallied⟩ | ⟨call, v, txHash, -, hsubmit⟩
    · rcases htallied t ht with ⟨t', ht', hid⟩ | ⟨row, eventIDs, rfl, hid⟩
      · exact hold t' ht' hid
      · obtain ⟨sc, hsc, hscid⟩ := hmay
        exact ⟨sc, hsubset _ (h.found i sc hsc), hscid.trans hid⟩
    · obtain ⟨_, _, -, hw'⟩ := PayWorld.submit_eq_ok hsubmit
      rw [hw'] at ht
      exact hold t ht rfl

/-- **One question keeps the tallies.** -/
theorem Kept.coined {w w' : CoinWorld τ} {gs : ℕ → Dealing} (h : Kept reg w.toPayWorld gs) {i : ℕ}
    {ch : PayChoice reg} {e : Ask reg} {r : e.Reply} (hmay : (dealing reg).may (gs i) e)
    (hanswer : w.answer T ch e = some (r, w')) : (dealing reg).possible (gs i) e r ∧
      Kept reg w'.toPayWorld (Function.update gs i ((dealing reg).next (gs i) e r)) := by
  obtain ⟨ch', hpay⟩ := (CoinWorld.answered hanswer).pay
  obtain ⟨hpossible, -, hkept⟩ := h.answered hmay hpay
  exact ⟨hpossible, hkept⟩

/-! ### Requests -/

/-- The requests that register codes, commit periods and settle them. -/
inductive CoinRequest where
  | createCampaign (a : AuthCtx) (body : CampaignBody)
  | createProgram (a : AuthCtx) (body : ProgramBody)
  | registerShared (a : AuthCtx) (id : ℕ) (body : SharedTerms)
  | commitTally (a : AuthCtx) (campaignID : ℕ) (pathCode : String) (period : UInt64)
  | settle (a : AuthCtx) (body : SettleBody)

/-- Its handler. -/
def CoinRequest.handle (reg : Registry d) (cl : Platform) : CoinRequest → Work reg Response
  | createCampaign a body => handleCreateCampaign cl a body
  | createProgram a body => handleCreateProgram a body
  | registerShared a id body => handleRegisterShared cl a id body
  | commitTally a campaignID pathCode period => handleCommitTally cl a campaignID pathCode period
  | settle a body => handleSettle cl a body

/-- How a request ends. -/
def CoinRequest.Ends (reg : Registry d) (cl : Platform) :
    CoinRequest → Except Response Response × Meter → Dealing → Prop
  | settle a body, x, g => Approving (body.find reg cl a) body.period x.1 g
  | _, _, _ => True

theorem CoinRequest.deals (reg : Registry d) (cl : Platform) (request : CoinRequest) :
    (request.handle reg cl ⟨none, 0⟩).Keeps (dealing reg) Dealing.start (request.Ends reg cl) := by
  have hplain : ∀ {h : Work reg Response}, h.Keeps (dealing reg) ⟨none, 0⟩ Dealing.start
      (fun _ _ _ ↦ True) (fun _ _ _ ↦ True) →
      (h ⟨none, 0⟩).Keeps (dealing reg) Dealing.start fun _ _ ↦ True :=
    fun h ↦ h.start.mono fun _ _ _ ↦ trivial
  cases request with
  | createCampaign a body => exact hplain (deals_createCampaign body)
  | createProgram a body => exact hplain (deals_createProgram body)
  | registerShared a id body => exact hplain (deals_registerShared id body)
  | commitTally a campaignID pathCode period =>
    exact hplain (stored_commitTally reg cl a campaignID pathCode period)
  | settle a body =>
    refine (approving_settle reg cl a body rfl).start.mono fun x g hx ↦ ?_
    obtain ⟨x | x, m⟩ := x
    · exact hx
    · exact hx

theorem CoinRequest.enrols (reg : Registry d) (cl : Platform) (request : CoinRequest) :
    (request.handle reg cl ⟨none, 0⟩).Keeps (enrolling reg) Enrollment.start fun _ _ ↦ True := by
  have hplain : ∀ {h : Work reg Response}, Enrols h ⟨none, 0⟩ Enrollment.start →
      (h ⟨none, 0⟩).Keeps (enrolling reg) Enrollment.start fun _ _ ↦ True :=
    fun h ↦ h.start.mono fun _ _ _ ↦ trivial
  cases request with
  | createCampaign a body => exact hplain (enrols_createCampaign body)
  | createProgram a body => exact hplain (enrols_createProgram body)
  | registerShared a id body => exact hplain (enrols_registerShared id body)
  | commitTally a campaignID pathCode period => exact hplain (enrols_commitTally ..)
  | settle a body => exact hplain (enrols_settle body)

/-- Where these requests arrive. -/
def arriveToCoin (reg : Registry d) (cl : Platform) (requests : ℕ → CoinRequest) (i : ℕ) :
    Programs.Place (@Ask.Reply d reg) (Except Response Response × Meter) :=
  .start ((requests i).handle reg cl ⟨none, 0⟩)

/-! ### Runs -/

/-- A service whose tables are empty. -/
structure CoinOpening (w : CoinWorld τ) : Prop extends Opening w.toPayWorld where
  codes : w.codes = []

/-- What a period is owed is what it shows, and its count times the rate of its code. -/
theorem CoinWorld.owed_eq {w : CoinWorld τ} (htruthful : TruthfulRows reg w.toPayWorld)
    (hcodes : w.CodesFiled reg) {a : AuthCtx} {v : SettlementView}
    (hv : v ∈ w.listSettlements reg a) {sc : CurrentCode reg} (hsc : sc.row = v.code) {total : ℤ}
    (howed : OwedAt w.chain.storage (sc.period v.tally.period) total) :
    total = v.payoutPreview ∧ total = v.tally.count.toInt * v.payoutRate := by
  obtain ⟨hrow, hcode, hid, -, -, -, hpreview⟩ := CoinWorld.mem_listSettlements.1 hv
  have htruth := htruthful.row v.tally hrow sc (by rw [hsc, hid])
  obtain ⟨c, hc, hcid, hrate, rec, hshared, hattributed, hrecRate⟩ := hcodes _ hcode
  dsimp only at hcid hrate hshared hattributed hrecRate
  -- the campaign of the row is the campaign of the code
  obtain rfl : sc.campaign = c := by
    refine reg.campaign_key _ sc.campaign_mem _ hc ?_
    rw [hcid, ← hsc, sc.row_campaign]
  obtain ⟨rec', tally, hshared', htally, rfl⟩ := howed
  obtain rfl : rec = rec' := by
    rw [← hsc] at hshared
    exact Option.some.inj (hshared.symm.trans hshared')
  obtain ⟨tally', htally', hcount⟩ := htruth.tally
  obtain rfl := Option.some.inj (htally.symm.trans htally')
  obtain ⟨rec', hshared'', hrule⟩ := htruthful.integrity.tally _ _ _ _ htally
  obtain rfl := Option.some.inj (hshared'.symm.trans hshared'')
  have hattributes := htruth.attributes
  rw [TallyRow.Attributes, hsc] at hattributes
  rw [hpreview, payoutPreview, hattributes, owed_eq_mul, hrecRate]
  rw [hattributed] at hrule
  rcases htarget : v.code.attributedTo with - | target
  · rw [htarget] at hrule
    have hentries : tally.perAttribution.entries = [] := hrule
    rw [hrate htarget, mul_zero, mul_zero]
    exact ⟨rfl, rfl⟩
  · rw [htarget] at hrule
    have hsum : (countSum tally.perAttribution.entries : ℤ) = v.tally.count.toInt := by
      rw [hrule.2, hcount]
    rw [hsum]
    exact ⟨mul_comm _ _, rfl⟩

/-- An approval is recorded as it is given, and only then. -/
theorem approved_next {g : Dealing} {e : Ask reg} {r : e.Reply} {x : Address × Address × ℤ}
    (hnone : g.approved ≠ some x) (h : ((dealing reg).next g e r).approved = some x) :
    ∃ last txHash, (⟨e, r⟩ : Exchange (@Ask.Reply d reg)) =
      ⟨.approveSettlement x.1 x.2.1 x.2.2 last, .ok txHash⟩ := by
  cases e with
  | call call =>
    rcases r with e | v
    · cases call with
      | settle owner c code period =>
        rcases e with e | -
        · cases e with
          | _ => exact absurd h hnone
        · exact absurd h hnone
      | _ => exact absurd h hnone
    · cases call with
      | _ => exact absurd h hnone
  | simulate call =>
    rcases r with e | v
    · cases call with
      | _ => exact absurd h hnone
    · cases call with
      | isSettled c code period =>
        cases v with
        | bool b =>
          rcases b with - | -
          · exact absurd h hnone
          · exact absurd h hnone
        | _ => exact absurd h hnone
      | _ => exact absurd h hnone
  | reserveCharge c =>
    rcases r with p | u
    · exact absurd h hnone
    · exact absurd h hnone
  | approveSettlement token owner amount last =>
    rcases r with e | txHash
    · exact absurd h hnone
    · obtain rfl := Option.some.inj h
      exact ⟨last, txHash, rfl⟩
  | _ => exact absurd h hnone

/-! ### Allowances -/

/-- A call that is answered with a value is a transaction. -/
theorem CoinWorld.submit_of_answer {w w' : CoinWorld τ} {ch : PayChoice reg} {call : Call}
    {v : Value} {txHash : Bytes} (h : w.answer T ch (.call call) = some (.ok (v, txHash), w')) :
    w.toPayWorld.submit T ch.env call (some txHash) = .ok (v, w'.toPayWorld) := by
  obtain ⟨⟨r, pay⟩, hpay, heq⟩ := Option.map_eq_some_iff.1 h
  obtain ⟨rfl, rfl⟩ := Prod.mk.inj heq
  exact PayWorld.answer_call_ok hpay

/-- An approval that is answered with a hash was given. -/
theorem CoinWorld.approve_of_answer {w w' : CoinWorld τ} {ch : PayChoice reg}
    {token owner : Address} {amount : ℤ} {last : UInt32} {txHash : Bytes}
    (h : w.answer T ch (.approveSettlement token owner amount last) = some (.ok txHash, w')) :
    T.approve token owner T.spender amount last w.books = some w'.books := by
  obtain ⟨⟨r, pay⟩, hpay, heq⟩ := Option.map_eq_some_iff.1 h
  obtain ⟨rfl, rfl⟩ := Prod.mk.inj heq
  rw [PayWorld.answer] at hpay
  split at hpay
  · exact absurd (Prod.mk.inj (Option.some.inj hpay)).1 (by simp)
  · split at hpay
    · exact absurd (Prod.mk.inj (Option.some.inj hpay)).1 (by simp)
    · rename_i hbooks
      obtain ⟨-, rfl⟩ := Prod.mk.inj (Option.some.inj hpay)
      exact hbooks

/-- A settlement uses up as much of the allowance as it pays, which is what its period is owed. -/
theorem PayWorld.settle_uses {w w' : PayWorld τ} {env : Env} {owner token : Address}
    {c period : UInt64} {code : Bytes} {v : Value} {txHash : Option Bytes} {total : ℤ}
    {balance : τ → Address → ℤ} {allowance : τ → Address → Address → ℤ} {sc : SharedCode}
    (hconforming : Conforming T.handle token balance allowance)
    (hsubmit : w.submit T env (.settle owner c code period) txHash = .ok (v, w'))
    (hsc : w.chain.storage.shared (c, code) = some sc) (htoken : sc.payoutToken = some token)
    (howed : OwedAt w.chain.storage (c, code, period) total) :
    payoutSum v.payoutList = total ∧
      allowance w'.books owner T.spender = allowance w.books owner T.spender - total := by
  obtain ⟨chain, books, hrun, rfl⟩ := PayWorld.submit_eq_ok hsubmit
  obtain ⟨evs, heffect⟩ := runWith_effect hrun
  obtain ⟨out, rfl, hsettle⟩ := settle_of_runWith hrun
  obtain ⟨out', hout, howed', -⟩ := heffect.settles
  obtain rfl := Value.payouts.inj hout
  have htotal : payoutSum out = total := howed'.eq howed
  obtain ⟨sc', tally, hsc', htally, -⟩ := howed
  obtain rfl := Option.some.inj (hsc.symm.trans hsc')
  -- the owner is all that is read of the campaign
  let camp : Campaign := ⟨c, owner, [], [], 0, 0, 0, 0, 0⟩
  have hsettle' : (settle { env with currentContract := T.spender } camp.owner c code period
      w.chain).runWith T.handle w.books = .ok (out, chain, books) := hsettle
  obtain ⟨-, -, -, -, -, -, -, hallowance⟩ := settle_eq_ok hsc htally
    (fun token' htoken' ↦ Option.some.inj (htoken.symm.trans htoken') ▸ hconforming) hsettle'
  refine ⟨htotal, ?_⟩
  show allowance books owner T.spender = _
  rw [hallowance, lowered, if_pos ⟨rfl, rfl⟩, htotal]

section Runs

variable {cl : Platform} {requests : ℕ → CoinRequest} {w : CoinWorld τ}
  {turns : List (Turn (PayChoice reg) (PayEvent τ))}

variable (T reg cl requests turns) in
/-- The tallies are kept. -/
theorem kept_coined (hw : Opening w.toPayWorld) (n : ℕ) :
    let run := ((coinServer T reg).service _).after ⟨w, arriveToCoin reg cl requests⟩ turns
    Server.Keeping (dealing reg) Dealing.start (fun i ↦ (requests i).Ends reg cl) (run n) ∧
      Kept reg (run n).shared.toPayWorld
        (Server.records (dealing reg) Dealing.start (run n)) := by
  refine Server.serve_keeps (J := fun w : CoinWorld τ ↦ Kept reg w.toPayWorld)
    (K := fun _ _ ↦ True) (fun i ↦ (requests i).deals reg cl) (hw.kept reg) (fun _ _ _ ↦ trivial)
    (fun c i ch e r w' hkept _ hasks ↦ ?_) (fun w gs event hkept ↦ (hkept.outside event).1) n
  exact hkept.coined hasks.may hasks.answer

variable (T reg cl requests turns) in
/-- What the requests have registered is on the chain, and so are the codes of the table. -/
theorem enrolled_after (haccounted : Accounted w.chain.storage) (hcodes : w.CodesFiled reg)
    (n : ℕ) :
    let run := ((coinServer T reg).service _).after ⟨w, arriveToCoin reg cl requests⟩ turns
    Enrolled reg (run n).shared (Server.records (enrolling reg) Enrollment.start (run n)) := by
  refine (Server.serve_keeps (J := Enrolled reg) (K := fun _ _ ↦ True) (Q := fun _ _ _ ↦ True)
    (fun i ↦ (requests i).enrols reg cl) ?_ (fun _ _ _ ↦ trivial)
    (fun c i ch e r w' h _ hasks ↦ ?_) (fun w gs event h ↦ ?_) n).2
  · exact ⟨haccounted, fun _ _ _ hnone ↦ absurd hnone.symm (Option.some_ne_none _), hcodes⟩
  · exact ⟨(CoinWorld.answered hasks.answer).possible _, h.answered hasks.may hasks.answer⟩
  · obtain ⟨haccounted, hlater⟩ := payServer_later reg T h.accounted event
    exact ⟨haccounted, fun i ↦ (h.filed i).later hlater, fun x hx ↦ (h.codes x hx).later hlater⟩

variable (T reg cl requests turns) in
/-- The code of every tally is in the table. -/
theorem found_after (htallies : w.tallies = []) (n : ℕ) :
    let run := ((coinServer T reg).service _).after ⟨w, arriveToCoin reg cl requests⟩ turns
    Found reg (run n).shared (Server.records (enrolling reg) Enrollment.start (run n)) := by
  refine (Server.serve_keeps (J := Found reg) (K := fun _ _ ↦ True) (Q := fun _ _ _ ↦ True)
    (fun i ↦ (requests i).enrols reg cl) ?_ (fun _ _ _ ↦ trivial)
    (fun c i ch e r w' h _ hasks ↦ ?_) (fun w gs event h ↦ ?_) n).2
  · exact ⟨fun _ _ hnone ↦ absurd hnone.symm (Option.some_ne_none _),
      fun t ht ↦ absurd (htallies ▸ ht) List.not_mem_nil⟩
  · exact ⟨(CoinWorld.answered hasks.answer).possible _, h.answered hasks.may hasks.answer⟩
  · exact ⟨h.found, fun t ht ↦ h.tallies t (payServer_tallies reg T event ▸ ht)⟩

section Allowances

variable {balance : Address → τ → Address → ℤ} {allowance : Address → τ → Address → Address → ℤ}

/-- A settlement that pays something was approved before, exactly; and where the tokens are then as
the approval has left them, nothing is left of the allowance. -/
theorem approved_of_settled (hw : CoinOpening w)
    (hconforming : ∀ token, Conforming T.handle token (balance token) (allowance token))
    (happrove : ∀ token owner amount last t t', 0 < amount →
      T.approve token owner T.spender amount last t = some t' →
        allowance token t' owner T.spender = amount)
    {n i : ℕ} {owner : Address} {c period : UInt64} {code : Bytes} {v : Value} {txHash : Bytes} :
    let run := ((coinServer T reg).service _).after ⟨w, arriveToCoin reg cl requests⟩ turns
    ((run (n + 1)).requests i).said = ((run n).requests i).said ++
        [⟨.call (.settle owner c code period), .ok (v, txHash)⟩] →
      0 < payoutSum v.payoutList → ∃ k < n, ∃ token last hash,
        ((run (k + 1)).requests i).said = ((run k).requests i).said ++
            [⟨.approveSettlement token owner (payoutSum v.payoutList) last, .ok hash⟩] ∧
          ((run n).shared.books = (run (k + 1)).shared.books →
            allowance token (run (n + 1)).shared.books owner T.spender = 0) := by
  intro run hsaid hpos
  obtain ⟨hkeeping, hkept⟩ := kept_coined reg T cl requests turns hw.toOpening n
  obtain ⟨ch, k, hrest, hanswer⟩ := Server.answer_of_said hsaid
  have hsubmit := CoinWorld.submit_of_answer hanswer
  have hkeeps := hkeeping i
  rw [hrest] at hkeeps
  obtain ⟨-, token, total, htoken, hamount, happroved⟩ := hkeeps.1
  obtain ⟨sc, hsc, hsctoken⟩ := (hkept.accurate i).token _ _ _ htoken
  obtain ⟨htotal, hused⟩ := PayWorld.settle_uses (hconforming token) hsubmit hsc hsctoken
    ((hkept.accurate i).amount _ _ hamount)
  subst htotal
  rw [if_pos hpos] at happroved
  have hstart : ¬((dealing reg).after Dealing.start ((run 0).requests i).said).approved =
      some (token, owner, payoutSum v.payoutList) := (Option.some_ne_none _).symm
  obtain ⟨k, hk, ⟨e, r⟩, hsaid', hnot, hyes⟩ := Server.exists_exchange
    (P := fun said ↦ ((dealing reg).after Dealing.start said).approved = _)
    hstart happroved
  rw [hsaid', Law.after_concat] at hyes
  obtain ⟨last, hash, hexchange⟩ := approved_next hnot hyes
  rw [hexchange] at hsaid'
  refine ⟨k, hk, token, last, hash, hsaid', fun hbooks ↦ ?_⟩
  obtain ⟨ch', _, -, hanswer'⟩ := Server.answer_of_said hsaid'
  have hallowance : allowance token (run (k + 1)).shared.books owner T.spender =
      payoutSum v.payoutList := happrove _ _ _ _ _ _ hpos (CoinWorld.approve_of_answer hanswer')
  rw [hused, hbooks, hallowance, sub_self]

end Allowances

/-- The amount of a period: what its tally is owed, and the sum of what the contract computes for it
wherever it computes something. -/
structure AmountOf (s : ContractState) (sc : CurrentCode reg) (period : UInt64) (amount : ℤ) :
    Prop where
  owed : OwedAt s.storage (sc.period period) amount
  computed : ∀ ps, computePayouts sc.campaign.chainID sc.row.code period s = .ok ps →
    amount = payoutSum ps

theorem OwedAt.amountOf {s : ContractState} {sc : CurrentCode reg} {period : UInt64} {amount : ℤ}
    (h : OwedAt s.storage (sc.period period) amount) : AmountOf s sc period amount :=
  ⟨h, fun _ hps ↦ h.eq (owedAt_of_computePayouts hps)⟩

/-- What a request to settle has approved, if anything, is the amount of its period; and where it is
answered with a settlement, so is the total, which was approved if it is positive. -/
structure SettledExactly (s : ContractState) (found : Except Problem (CurrentCode reg))
    (period : UInt64) (x : Except Response Response) (g : Dealing) : Prop where
  approved : ∀ token owner amount, g.approved = some (token, owner, amount) → ∃ sc,
    found = .ok sc ∧ AmountOf s sc period amount
  answered : ∀ txHash total, settledAnswer x = some (txHash, total) → ∃ sc, found = .ok sc ∧
    AmountOf s sc period total ∧
    (0 < total → ∃ token owner, g.approved = some (token, owner, total))

theorem Approving.settledExactly {found : Except Problem (CurrentCode reg)} {period : UInt64}
    {x : Except Response Response} {g : Dealing} {w : PayWorld τ}
    (h : Approving found period x g) (hg : g.Accurate w) :
    SettledExactly w.chain found period x g where
  approved token owner amount happroved := by
    obtain ⟨sc, hsc, hamount⟩ := h.approved token owner amount happroved
    exact ⟨sc, hsc, (hg.amount _ _ hamount).amountOf⟩
  answered txHash total hanswered := by
    obtain ⟨sc, token, owner, amount, hsc, hown, hamount, happroved⟩ := h.answered _ _ hanswered
    obtain rfl : total = amount := (hg.own _ _ _ hown).2.eq (hg.amount _ _ hamount)
    refine ⟨sc, hsc, (hg.amount _ _ hamount).amountOf, fun hpos ↦ ⟨token, owner, ?_⟩⟩
    rw [happroved, if_pos hpos]

/-- **The displayed, the approved and the paid amount coincide**, in every run of requests that
register codes, commit periods and settle them, with whatever others do in between: for tokens that
conform, and whose approvals replace an allowance. Every committed period is displayed. -/
theorem amounts_coincide (T : Tokens τ) (reg : Registry d) (cl : Platform)
    (requests : ℕ → CoinRequest) (w : CoinWorld τ) (hw : CoinOpening w)
    (balance : Address → τ → Address → ℤ) (allowance : Address → τ → Address → Address → ℤ)
    (hconforming : ∀ token, Conforming T.handle token (balance token) (allowance token))
    (happrove : ∀ token owner amount last t t', 0 < amount →
      T.approve token owner T.spender amount last t = some t' →
        allowance token t' owner T.spender = amount)
    (turns : List (Turn (PayChoice reg) (PayEvent τ))) :
    let run := ((coinServer T reg).service _).after ⟨w, arriveToCoin reg cl requests⟩ turns
    -- every period is one of a code, and is listed for the account of its campaign
    (∀ n, ∀ t ∈ (run n).shared.tallies,
      (∃ sc : CurrentCode reg, sc.row.id = t.sharedCodeID) ∧
      ∀ sc : CurrentCode reg, sc.row.id = t.sharedCodeID →
        ∃ v ∈ (run n).shared.listSettlements reg sc.campaign.account,
          v.tally = t ∧ v.code = sc.row ∧ v.campaign = sc.campaign) ∧
    -- what is listed is what the contract computes, and the count times the rate
    (∀ n a, ∀ v ∈ (run n).shared.listSettlements reg a, ∀ sc : CurrentCode reg, sc.row = v.code →
      ∀ ps, computePayouts sc.campaign.chainID sc.row.code v.tally.period (run n).shared.chain =
          .ok ps →
        v.payoutPreview = payoutSum ps ∧
          v.payoutPreview = v.tally.count.toInt * v.payoutRate) ∧
    -- a request to settle approves it, and is answered with it
    (∀ n i a body x m, requests i = .settle a body → ((run n).requests i).rest = .ret (x, m) →
      SettledExactly (run n).shared.chain (body.find reg cl a) body.period x
        (dealt reg ((run n).requests i).said)) ∧
    -- and uses up what it has approved
    ∀ n i owner c code period v txHash,
      ((run (n + 1)).requests i).said = ((run n).requests i).said ++
          [⟨.call (.settle owner c code period), .ok (v, txHash)⟩] →
        0 < payoutSum v.payoutList → ∃ k < n, ∃ token last hash,
          ((run (k + 1)).requests i).said = ((run k).requests i).said ++
              [⟨.approveSettlement token owner (payoutSum v.payoutList) last, .ok hash⟩] ∧
            ((run n).shared.books = (run (k + 1)).shared.books →
              allowance token (run (n + 1)).shared.books owner T.spender = 0) := by
  intro run
  have haccounted := hw.reachable.accounted
  have hnone : w.CodesFiled reg := fun _ hx ↦ absurd (hw.codes ▸ hx) List.not_mem_nil
  refine ⟨fun n t ht ↦ ?_, fun n a v hv sc hsc ps hps ↦ ?_, fun n i a body x m hrequest hrest ↦ ?_,
    fun n i owner c code period v txHash hsaid hpos ↦ ?_⟩
  · obtain ⟨sc, hsc, hid⟩ :=
      (found_after reg T cl requests turns hw.tallies n).tallies t ht
    refine ⟨⟨sc, hid⟩, fun sc' hid' ↦ ?_⟩
    have hrow : sc.row = sc'.row := reg.code_key _ sc.row_mem _ sc'.row_mem (hid.trans hid'.symm)
    exact CoinWorld.exists_listed ht (hrow ▸ hsc) hid'
  · have hfiled := (enrolled_after reg T cl requests turns haccounted hnone n).codes
    have hkept := (kept_coined reg T cl requests turns hw.toOpening n).2
    obtain ⟨hpreview, hcount⟩ :=
      CoinWorld.owed_eq hkept.truthful hfiled hv hsc (owedAt_of_computePayouts hps)
    exact ⟨hpreview.symm, hpreview.symm.trans hcount⟩
  · obtain ⟨hkeeping, hkept⟩ := kept_coined reg T cl requests turns hw.toOpening n
    have hends : (requests i).Ends reg cl (x, m) (dealt reg ((run n).requests i).said) := by
      have hkeeps := hkeeping i
      rw [hrest] at hkeeps
      exact hkeeps
    rw [hrequest] at hends
    exact Approving.settledExactly hends (hkept.accurate i)
  · exact approved_of_settled hw hconforming happrove hsaid hpos

/-- **What the table says of a code is on the chain**, in every state of every run that begins so:
whatever programs, campaigns and codes are registered, each row is of a campaign, and the contract
has its code with the same target and the same rate. -/
theorem codes_filed (T : Tokens τ) (reg : Registry d) (cl : Platform) (requests : ℕ → CoinRequest)
    (w : CoinWorld τ) (hw : Reachable w.chain) (hcodes : w.CodesFiled reg)
    (turns : List (Turn (PayChoice reg) (PayEvent τ))) (n : ℕ) :
    (((coinServer T reg).service _).after ⟨w, arriveToCoin reg cl requests⟩ turns
      n).shared.CodesFiled reg :=
  (enrolled_after reg T cl requests turns hw.accounted hcodes n).codes

end Runs

/-! ### Two codes -/

namespace Coining

/-- An approval that is given is the allowance from then on. -/
theorem approve_replaces (token owner spender : Address) (amount : ℤ) (last : UInt32)
    (t t' : Sample.Books) (hpos : 0 < amount)
    (h : Paying.approve token owner spender amount last t = some t') :
    (t'.allowance owner spender : ℤ) = amount := by
  rw [Paying.approve] at h
  split at h
  · obtain rfl := Option.some.inj h
    show ((if owner = owner ∧ spender = spender then amount.toNat else _ : ℕ) : ℤ) = amount
    rw [if_pos ⟨rfl, rfl⟩, Int.toNat_of_nonneg hpos.le]
  · exact absurd h.symm (Option.some_ne_none t')

/-- One address is known to the platform, and one token is paid in. -/
def platform : Platform := { Acceptance.platform with
  validStellarAddress := fun text ↦ if text = "promoter" then some Sample.promoter else none
  payoutToken := Sample.token }

/-- A campaign without shared codes. -/
def world : CoinWorld Sample.Books := ⟨{ Paying.world with
  chain := runFrom 0 (Sample.history.take 4) }, []⟩

theorem opening : CoinOpening world := ⟨⟨Sample.reachable_take 4, rfl, rfl⟩, rfl⟩

/-- A code with a target is registered, and one that is only counted; a week of each is committed,
and the week of the first is settled. -/
def requests : ℕ → CoinRequest
  | 0 => .registerShared ⟨1, .live⟩ 1 ⟨"s", "promoter", "5"⟩
  | 1 => .registerShared ⟨1, .live⟩ 1 ⟨"leaflet", "", ""⟩
  | 2 => .commitTally ⟨1, .live⟩ 1 "s" 202628
  | 3 => .commitTally ⟨1, .live⟩ 1 "leaflet" 202628
  | _ => .settle ⟨1, .live⟩ ⟨1, "s", 202628⟩

def turns : List (Turn (PayChoice Paying.registry) (PayEvent Sample.Books)) :=
  List.replicate 7 (.request 0 (Paying.choice [65])) ++
    List.replicate 7 (.request 1 (Paying.choice [66])) ++
    List.replicate 9 (.request 2 (Paying.choice [67])) ++
    List.replicate 9 (.request 3 (Paying.choice [68])) ++
    List.replicate 12 (.request 4 (Paying.choice [69]))

/-- Where the run is after some turns. -/
def now (n : ℕ) : Config (CoinWorld Sample.Books)
    (Programs.Place (@Ask.Reply _ Paying.registry) (Except Response Response × Meter)) :=
  ((coinServer Paying.tokens Paying.registry).service _).after
    ⟨world, arriveToCoin Paying.registry platform requests⟩ turns n

/-- The list of settlements, and what is left of the allowance. -/
def listed (n : ℕ) : List (ℕ × ℤ × Option Bytes × Option ℤ) :=
  ((now n).shared.listSettlements Paying.registry ⟨1, .live⟩).map fun v ↦
    (v.code.id, v.payoutPreview, v.tally.settleTx, v.tally.payoutAmount)

/-- The code of a campaign is in the table, with a period that was committed. -/
def begun : CoinWorld Sample.Books where
  tallies := [⟨⟨1, 1, 3, 3, ascii ("".pushn '0' 64), [67]⟩, false, none, none⟩]
  chain := runFrom 0 (Sample.history.take 6)
  books := Sample.books
  locked _ := false
  settlers := []
  codes := [(Paying.code, 5)]

theorem codesFiled : begun.CodesFiled Paying.registry := by
  intro x hx
  obtain rfl := List.mem_singleton.1 hx
  have hshared : (begun.chain.storage.shared (1, Sample.sharedCode)).map
      (fun sc ↦ (sc.attributedTo, sc.payoutRate)) = some (some Sample.promoter, .ofUInt32 5) := by
    decide
  obtain ⟨rec, hshared, hterms⟩ := Option.map_eq_some_iff.1 hshared
  obtain ⟨hattributed, hrate⟩ := Prod.mk.inj hterms
  refine ⟨Mirroring.campaign, List.mem_cons_self, rfl, fun hnone ↦ ?_, rec, hshared, hattributed,
    ?_⟩
  · exact absurd hnone (Option.some_ne_none _)
  · rw [hrate]
    rfl

/-- Where the second request is after some turns, from such a beginning. -/
def later (n : ℕ) : Config (CoinWorld Sample.Books)
    (Programs.Place (@Ask.Reply _ Paying.registry) (Except Response Response × Meter)) :=
  ((coinServer Paying.tokens Paying.registry).service _).after
    ⟨begun, arriveToCoin Paying.registry platform requests⟩
    (List.replicate 7 (.request 1 (Paying.choice [66]))) n

end Coining

/-- Two codes are registered and a week of each is committed: the first is paid what it shows, and
nothing is left of the allowance. -/
theorem amounts_coincide_codes :
    Coining.listed 32 = [(2, 0, none, none), (1, 10, none, none)] ∧
      Coining.listed 44 = [(2, 0, none, none), (1, 10, some [69], some 10)] ∧
      ((Coining.now 44).requests 4).returned.map (fun x ↦ settledAnswer x.1) =
        some (some ([69], 10)) ∧
      (Coining.now 44).shared.books.allowance Sample.owner Paying.tokens.spender = 0 ∧
      ∀ n, (∀ t ∈ (Coining.now n).shared.tallies,
          ∃ sc : CurrentCode Paying.registry, sc.row.id = t.sharedCodeID) ∧
        ∀ i a body x m, Coining.requests i = .settle a body →
          ((Coining.now n).requests i).rest = .ret (x, m) →
            SettledExactly (Coining.now n).shared.chain
              (body.find Paying.registry Coining.platform a) body.period x
              (dealt Paying.registry ((Coining.now n).requests i).said) := by
  obtain ⟨hlisted, -, hexactly, -⟩ := amounts_coincide Paying.tokens Paying.registry
    Coining.platform Coining.requests Coining.world Coining.opening
    (fun _ t a ↦ (t.balance a : ℤ)) (fun _ t o s ↦ (t.allowance o s : ℤ))
    Sample.Books.conforming
    (fun token owner amount last t t' ↦ Coining.approve_replaces token owner _ amount last t t')
    Coining.turns
  refine ⟨by decide +kernel, by decide +kernel, by decide +kernel, by decide +kernel, fun n ↦ ⟨?_,
    ?_⟩⟩
  · exact fun t ht ↦ (hlisted n t ht).1
  · exact fun i a body x m hrequest hrest ↦ hexactly n i a body x m hrequest hrest

/-- A second code is registered. -/
theorem codes_filed_leaflet :
    (Coining.later 7).shared.codes.map (fun x ↦ (x.1.id, x.2)) = [(1, 5), (2, 0)] ∧
      ∀ n, (Coining.later n).shared.CodesFiled Paying.registry := by
  refine ⟨by decide +kernel, fun n ↦ ?_⟩
  exact codes_filed Paying.tokens Paying.registry Coining.platform Coining.requests Coining.begun
    (Sample.reachable_take 6) Coining.codesFiled _ n

end Soroticket
