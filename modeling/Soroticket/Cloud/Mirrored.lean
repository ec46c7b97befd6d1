import Soroticket.Cloud.Acceptance
import Soroticket.Cloud.Mirroring

/-!
# Counters that mirror the chain

Any number of requests issue, redeem and reward codes, in any order and with other calls of the
contract in between. One question keeps the books (`Bookkept.answered`), so a run does. Where nobody
holds the client of an account, or no request is under way, the rows and both counters of its
campaigns are what the contract has (`Mirrored`).

One handler leaves a debt behind. `handleIssueCodes` answers with what it has issued where the
contract refuses a batch after it has taken another, and then does not count it.
-/

namespace Soroticket

open Programs Interleaving

variable {d : Deployment} {reg : Registry d}

/-! ### One question -/

/-- The programs of an account earn on campaigns of its own: `handleCreateProgram` inserts a program
and its campaign together. -/
def Registry.ProgramsOwn (reg : Registry d) : Prop :=
  ∀ p ∈ reg.programs, ∀ c ∈ reg.campaigns, c.id = p.campaignID → c.account = p.account

/-- A batch was refused. -/
def Refused : (e : Ask reg) → e.Reply → Prop
  | .call (.issueUnique ..), .error _ => True
  | _, _ => False

/-- An answer that is possible, and leaves the books kept. -/
structure Answered (reg : Registry d) (w' : CodeWorld) (gs : ℕ → Owing) (i : ℕ) (e : Ask reg)
    (r : e.Reply) : Prop where
  possible : (bookkeeping reg).possible (gs i) e r
  kept : ∃ holder, Bookkept reg holder w'
    (Function.update gs i ((bookkeeping reg).next (gs i) e r))

namespace Bookkept

variable {holder : AuthCtx → Option ℕ} {w w' : CodeWorld} {gs : ℕ → Owing} {i : ℕ}
  {ch : CodeChoice reg}

/-- An answer that changes neither the server nor the record. -/
theorem silent (h : Bookkept reg holder w gs) {e : Ask reg} {r : e.Reply}
    (hpossible : (bookkeeping reg).possible (gs i) e r)
    (hnext : (bookkeeping reg).next (gs i) e r = gs i) : Answered reg w gs i e r := by
  refine ⟨hpossible, holder, ?_⟩
  rw [hnext, Function.update_eq_self]
  exact h

/-- A call that leaves the coupons of all campaigns of Cloud as they are. -/
theorem chain (h : Bookkept reg holder w gs) {s' : ContractState}
    (haccounted : Accounted s'.storage)
    (hkept : ∀ c, Current reg c → CouponsKept c.chainID w.chain.storage s'.storage) :
    Bookkept reg holder { w with chain := s' } gs :=
  { h with
    accounted := haccounted
    tracked := fun c hc ↦ (h.tracked c hc).kept h.accounted.filed (hkept c hc) }

/-- What a call leaves as it is of a campaign of Cloud. -/
theorem couponsKept (h : Bookkept reg holder w gs) {tx : Tx} {v : Value} {s' : ContractState}
    (hexec : tx.exec w.chain = .ok (v, s')) {c : CampaignRow} (hc : Current reg c)
    (hcall : tx.call.coupons? ≠ some c.chainID) :
    CouponsKept c.chainID w.chain.storage s'.storage := by
  obtain ⟨evs, heffect, -⟩ := exec_effect hexec
  obtain ⟨camp, hcamp, -⟩ := (h.tracked c hc).figures
  exact heffect.couponsKept h.accounted.filed (by rw [hcamp]; rfl) hcall

theorem accounted_exec (h : Bookkept reg holder w gs) {tx : Tx} {v : Value} {s' : ContractState}
    (hexec : tx.exec w.chain = .ok (v, s')) : Accounted s'.storage := by
  obtain ⟨evs, heffect, -⟩ := exec_effect hexec
  exact heffect.accounted h.accounted

/-- Whoever owes a campaign something has it tracked with what it owes. -/
theorem tracks (h : Bookkept reg holder w gs) {id : ℕ} (howes : (gs i).Owes reg id)
    (hdebt : (gs i).debt ≠ Debt.none) :
    ∃ c : CampaignRow, c.id = id ∧ Tracked w c (gs i).debt := by
  obtain ⟨c, hc, hchain, hid⟩ := howes
  obtain ⟨c', hc', hchain', hclient⟩ := h.debtor i hdebt
  obtain rfl := hc'.eq_of_chainID hc (hchain'.trans hchain.symm)
  have htracked := h.tracked c' hc
  rw [owedTo, (h.holds i _).1 hclient, Option.elim_some, Owing.debtFor, if_pos hchain.symm]
    at htracked
  exact ⟨c', hid, htracked⟩

theorem answered_clientFor (h : Bookkept reg holder w gs) {a : AuthCtx}
    {r : Except Response Address} (hmay : (bookkeeping reg).may (gs i) (.clientFor a))
    (hanswer : w.answer ch (.clientFor a) = some (r, w')) :
    Answered reg w' gs i (.clientFor a) r := by
  rw [CodeWorld.answer] at hanswer
  split at hanswer
  · obtain ⟨rfl, rfl⟩ := Prod.mk.inj (Option.some.inj hanswer)
    exact h.silent trivial rfl
  · split at hanswer
    · exact absurd hanswer.symm (Option.some_ne_none _)
    · rename_i hfree
      obtain ⟨rfl, rfl⟩ := Prod.mk.inj (Option.some.inj hanswer)
      exact ⟨trivial, _, h.take (Bool.not_eq_true _ ▸ hfree) hmay⟩

theorem answered_issue (h : Bookkept reg holder w gs) {owner : Address} {chainID : UInt64}
    {codes : List Bytes}
    (hmay : (bookkeeping reg).may (gs i) (.call (.issueUnique owner chainID codes)))
    {env : Env} {replies : ℕ → (op : TokenCall) → Option op.Answer} {v : Value} {s' : ContractState}
    (hexec : (Tx.mk env (.issueUnique owner chainID codes) replies).exec w.chain = .ok (v, s'))
    (txHash : Bytes) : Answered reg { w with chain := s' } gs i
      (.call (.issueUnique owner chainID codes)) (.ok (v, txHash)) := by
  obtain ⟨⟨c, hc, rfl, hclient⟩, hrows, hcode, hburns, hcount⟩ := hmay
  obtain ⟨evs, heffect, -⟩ := exec_effect hexec
  obtain ⟨ids, rfl, hissues⟩ := heffect.issues h.accounted.filed
  have hdebt : (gs i).chainID ≠ c.chainID → (gs i).debt = Debt.none := by
    intro hne
    have hzero : (gs i).debt.count = 0 := by
      by_contra hcount'
      exact hne (hcount hcount')
    show Debt.mk (gs i).debt.rows (gs i).debt.count (gs i).debt.code (gs i).debt.burns = Debt.none
    rw [hrows, hzero, hcode, hburns]
    rfl
  refine ⟨hissues.length, holder, h.change hc hclient hdebt (h.accounted_exec hexec) rfl rfl rfl
    (fun htracked ↦ htracked.issue h.accounted.filed hrows hcode hissues) ?_⟩
  intro c' hc' hne o ho
  refine ho.kept h.accounted.filed (h.couponsKept hexec hc' fun hchain ↦ hne ?_)
  exact hc'.eq_of_chainID hc (Option.some.inj hchain).symm

theorem answered_redeem (h : Bookkept reg holder w gs) {who : Address} {chainID : UInt64}
    {code : Bytes} {ref : BytesN 32}
    (hmay : (bookkeeping reg).may (gs i) (.call (.redeemUnique who chainID code ref)))
    {env : Env} {replies : ℕ → (op : TokenCall) → Option op.Answer} {v : Value} {s' : ContractState}
    (hexec : (Tx.mk env (.redeemUnique who chainID code ref) replies).exec w.chain = .ok (v, s'))
    (txHash : Bytes) : Answered reg { w with chain := s' } gs i
      (.call (.redeemUnique who chainID code ref)) (.ok (v, txHash)) := by
  obtain ⟨⟨c, hc, rfl, hclient⟩, hdebt⟩ := hmay
  obtain ⟨evs, heffect, -⟩ := exec_effect hexec
  have hburns := heffect.burns h.accounted.filed
  refine ⟨trivial, holder, h.change hc hclient (fun _ ↦ hdebt) (h.accounted_exec hexec) rfl rfl rfl
    (fun htracked ↦ htracked.burn hdebt hburns) ?_⟩
  intro c' hc' hne o ho
  refine ho.kept h.accounted.filed (h.couponsKept hexec hc' fun hchain ↦ hne ?_)
  exact hc'.eq_of_chainID hc (Option.some.inj hchain).symm

/-- A call that is answered: it was refused, or it has its effect. -/
theorem answered_call (h : Bookkept reg holder w gs) {call : Call}
    {r : Except ChainError (Value × Bytes)} (hmay : (bookkeeping reg).may (gs i) (.call call))
    (hanswer : w.answer ch (.call call) = some (r, w'))
    (hwhole : Refused (.call call : Ask reg) r → (gs i).debt.count = 0) :
    Answered reg w' gs i (.call call) r := by
  have hrefused : ∀ e, r = .error e → w' = w → Answered reg w' gs i (.call call) r := by
    rintro e rfl rfl
    cases call with
    | issueUnique => exact h.silent (hwhole trivial) rfl
    | _ => exact h.silent trivial rfl
  rw [CodeWorld.answer] at hanswer
  split at hanswer
  · obtain ⟨rfl, rfl⟩ := Prod.mk.inj (Option.some.inj hanswer)
    exact hrefused _ rfl rfl
  · split at hanswer
    · obtain ⟨rfl, rfl⟩ := Prod.mk.inj (Option.some.inj hanswer)
      exact hrefused _ rfl rfl
    · rename_i v s' hexec
      obtain ⟨rfl, rfl⟩ := Prod.mk.inj (Option.some.inj hanswer)
      have hother : call.coupons? = none →
          Bookkept reg holder { w with chain := s' } (Function.update gs i (gs i)) := by
        intro hnone
        rw [Function.update_eq_self]
        refine h.chain (h.accounted_exec hexec) fun c hc ↦ h.couponsKept hexec hc ?_
        rw [hnone]
        exact (Option.some_ne_none _).symm
      cases call with
      | issueUnique => exact h.answered_issue hmay hexec _
      | redeemUnique => exact h.answered_redeem hmay hexec _
      | _ => exact ⟨trivial, holder, hother rfl⟩

/-- The campaign that is found is one of the account. -/
theorem answered_campaignByID (h : Bookkept reg holder w gs) {a : AuthCtx} {id : ℕ}
    {r : Option CampaignView} (hanswer : w.answer ch (.campaignByID a id) = some (r, w')) :
    Answered reg w' gs i (.campaignByID a id) r := by
  rw [CodeWorld.answer] at hanswer
  split at hanswer
  · obtain ⟨rfl, rfl⟩ := Prod.mk.inj (Option.some.inj hanswer)
    exact h.silent trivial rfl
  · obtain ⟨rfl, rfl⟩ := Prod.mk.inj (Option.some.inj hanswer)
    rcases hfind : reg.campaigns.find? fun row ↦ row.id = id ∧ row.account = a with - | row
    · rw [hfind]
      exact h.silent trivial rfl
    · obtain ⟨hid, haccount⟩ : row.id = id ∧ row.account = a := by
        simpa using List.find?_some hfind
      rw [hfind]
      exact h.silent ⟨List.mem_of_find?_eq_some hfind, hid, haccount⟩ rfl

/-- A punch is on a campaign of its account. -/
theorem answered_punch (h : Bookkept reg holder w gs) (hprograms : reg.ProgramsOwn) {a : AuthCtx}
    {id : ℕ} {body : PunchBody} {r : Except Problem (PunchJob reg × String)}
    (hanswer : w.answer ch (.punch a id body) = some (r, w')) :
    Answered reg w' gs i (.punch a id body) r := by
  rw [CodeWorld.answer] at hanswer
  split at hanswer
  · obtain ⟨rfl, rfl⟩ := Prod.mk.inj (Option.some.inj hanswer)
    exact h.silent trivial rfl
  · obtain ⟨rfl, rfl⟩ := Prod.mk.inj (Option.some.inj hanswer)
    rcases hrequest : punchRequest reg ch.surroundings a id body with problem | p
    · exact h.silent trivial rfl
    · have hprogram := programByID_of_punchRequest hrequest
      obtain ⟨hmem, -, haccount⟩ := programByID_eq_ok hprogram
      refine h.silent ?_ rfl
      show p.sc.campaign.account = a
      rw [← haccount]
      exact hprograms _ hmem _ p.sc.campaign_mem (campaignID_of_programByID hprogram)

theorem answered_insertCode (h : Bookkept reg holder w gs) {id : ℕ} {row : IssuedCode} {r : Unit}
    (hmay : (bookkeeping reg).may (gs i) (.insertCode id row))
    (hanswer : w.answer ch (.insertCode id row) = some (r, w')) :
    Answered reg w' gs i (.insertCode id row) r := by
  obtain ⟨howes, t, rest, hrows, ht⟩ := hmay
  obtain ⟨-, rfl⟩ := Prod.mk.inj (Option.some.inj hanswer)
  have hdebt : (gs i).debt ≠ Debt.none := by
    intro hnone
    rw [hnone] at hrows
    exact absurd hrows.symm (List.cons_ne_nil _ _)
  obtain ⟨c, rfl, htracked⟩ := h.tracks howes hdebt
  obtain ⟨w', hinsert, -⟩ := htracked.insert hrows ht
  rw [hinsert, Option.getD_some]
  refine ⟨trivial, holder, h.write howes hdebt (.of_insert? hinsert) rfl rfl fun c' hid ho ↦ ?_⟩
  obtain ⟨w₁, hw₁, ho'⟩ := ho.insert hrows ht
  rw [hid, hinsert] at hw₁
  obtain rfl := Option.some.inj hw₁
  show Tracked w' c' { (gs i).debt with rows := (gs i).debt.rows.tail }
  rw [hrows]
  exact ho'

theorem answered_addMinted (h : Bookkept reg holder w gs) {id n : ℕ} {r : Unit}
    (hmay : (bookkeeping reg).may (gs i) (.addMinted id n))
    (hanswer : w.answer ch (.addMinted id n) = some (r, w')) :
    Answered reg w' gs i (.addMinted id n) r := by
  obtain ⟨howes, hrows, rfl⟩ := hmay
  obtain ⟨-, rfl⟩ := Prod.mk.inj (Option.some.inj hanswer)
  rcases eq_or_ne (gs i).debt.count 0 with hzero | hne
  · -- nothing to count
    have hsame : w.addMinted id (gs i).debt.count = w := by
      rw [CodeWorld.addMinted, hzero, add_zero, Function.update_eq_self]
    rw [hsame]
    refine h.silent trivial ?_
    show { gs i with debt := { (gs i).debt with count := 0 } } = gs i
    rw [← hzero]
  · have hdebt : (gs i).debt ≠ Debt.none := fun hnone ↦ hne (by rw [hnone]; rfl)
    refine ⟨trivial, holder, h.write (howes hne) hdebt (.addMinted w id _) rfl rfl ?_⟩
    rintro c rfl ho
    exact ho.addMinted

theorem answered_redeemCode (h : Bookkept reg holder w gs) {id : ℕ} {code : String} {r : Unit}
    (hmay : (bookkeeping reg).may (gs i) (.redeemCode id code))
    (hanswer : w.answer ch (.redeemCode id code) = some (r, w')) :
    Answered reg w' gs i (.redeemCode id code) r := by
  obtain ⟨howes, hcode⟩ := hmay
  obtain ⟨-, rfl⟩ := Prod.mk.inj (Option.some.inj hanswer)
  have hdebt : (gs i).debt ≠ Debt.none := by
    intro hnone
    rw [hnone] at hcode
    exact absurd hcode.symm (Option.some_ne_none _)
  refine ⟨trivial, holder, h.write howes hdebt (.redeemCode w id code) rfl rfl ?_⟩
  rintro c rfl ho
  exact ho.redeemCode hcode

theorem answered_addBurned (h : Bookkept reg holder w gs) {id : ℕ} {r : Unit}
    (hmay : (bookkeeping reg).may (gs i) (.addBurned id))
    (hanswer : w.answer ch (.addBurned id) = some (r, w')) :
    Answered reg w' gs i (.addBurned id) r := by
  obtain ⟨howes, hcode, hburns⟩ := hmay
  obtain ⟨-, rfl⟩ := Prod.mk.inj (Option.some.inj hanswer)
  have hdebt : (gs i).debt ≠ Debt.none := by
    intro hnone
    rw [hnone] at hburns
    exact absurd hburns Nat.zero_ne_one
  refine ⟨trivial, holder, h.write howes hdebt (.addBurned w id) rfl rfl ?_⟩
  rintro c rfl ho
  exact ho.addBurned hburns

/-- The transaction of a punch that has earned rewards stores them all. -/
theorem answered_storePunch (h : Bookkept reg holder w gs) {p : PunchJob reg}
    {receipt : SignedReceipt} {issued : List IssuedCode} {r : Except Problem Unit}
    (hmay : (bookkeeping reg).may (gs i) (.storePunch p receipt issued))
    (hanswer : w.answer ch (.storePunch p receipt issued) = some (r, w')) :
    Answered reg w' gs i (.storePunch p receipt issued) r := by
  rw [CodeWorld.answer] at hanswer
  by_cases hnil : issued = []
  · rw [if_pos hnil] at hanswer
    obtain ⟨rfl, rfl⟩ := Prod.mk.inj (Option.some.inj hanswer)
    rcases hr : ch.reply (.storePunch p receipt issued) with problem | -
    · exact h.silent hnil rfl
    · exact h.silent trivial (if_pos hnil)
  · obtain ⟨howes, hcount, hrows⟩ := hmay.resolve_left hnil
    have hdebt : (gs i).debt ≠ Debt.none := by
      intro hnone
      rw [hnone] at hcount
      exact hnil (List.length_eq_zero_iff.1 hcount.symm)
    obtain ⟨c, hid, htracked⟩ := h.tracks howes hdebt
    obtain ⟨w₁, hstore, -, hsame⟩ := htracked.storeRewards hcount hrows
    rw [hid] at hstore hsame
    rw [if_neg hnil, hstore] at hanswer
    obtain ⟨rfl, rfl⟩ := Prod.mk.inj (Option.some.inj hanswer)
    refine ⟨trivial, holder, ?_⟩
    have hnext : (bookkeeping reg).next (gs i) (.storePunch p receipt issued) (.ok ()) =
        { gs i with debt := { (gs i).debt with rows := [], count := 0 } } := if_neg hnil
    rw [hnext]
    refine h.write howes hdebt hsame rfl rfl fun c' hid' ho ↦ ?_
    obtain ⟨w₂, hstore', ho', -⟩ := ho.storeRewards hcount hrows
    rw [hid', hstore] at hstore'
    obtain rfl := Option.some.inj hstore'
    exact ho'

/-- **One question keeps the books.** -/
theorem answered (h : Bookkept reg holder w gs) (hprograms : reg.ProgramsOwn) {e : Ask reg}
    {r : e.Reply} (hmay : (bookkeeping reg).may (gs i) e) (hanswer : w.answer ch e = some (r, w'))
    (hwhole : Refused e r → (gs i).debt.count = 0) : Answered reg w' gs i e r := by
  cases e with
  | clientFor a => exact h.answered_clientFor hmay hanswer
  | release a =>
    obtain ⟨rfl, rfl⟩ := Prod.mk.inj (Option.some.inj hanswer)
    exact ⟨trivial, _, h.giveBack hmay.1 hmay.2⟩
  | call call => exact h.answered_call hmay hanswer hwhole
  | campaignByID a id => exact h.answered_campaignByID hanswer
  | punch a id body => exact h.answered_punch hprograms hanswer
  | insertCode id row => exact h.answered_insertCode hmay hanswer
  | addMinted id n => exact h.answered_addMinted hmay hanswer
  | redeemCode id code => exact h.answered_redeemCode hmay hanswer
  | addBurned id => exact h.answered_addBurned hmay hanswer
  | storePunch p receipt issued => exact h.answered_storePunch hmay hanswer
  | _ =>
    obtain ⟨rfl, rfl⟩ := Prod.mk.inj (Option.some.inj hanswer)
    exact h.silent trivial rfl

end Bookkept

/-! ### Requests -/

/-- A request that writes codes and counters. -/
inductive CodeRequest where
  | issueCodes (a : AuthCtx) (campaignID : ℕ) (body : IssueBody)
  | redeem (a : AuthCtx) (body : RedeemBody)
  | punch (a : AuthCtx) (programID : ℕ) (body : PunchBody)

/-- The handler of a request. -/
def CodeRequest.handle (reg : Registry d) (cl : Platform) : CodeRequest → Work reg Response
  | issueCodes a campaignID body => handleIssueCodes cl a campaignID body
  | redeem a body => handleRedeem cl a body
  | punch a programID body => handlePunch a programID body

theorem leaving_handle (cl : Platform) {m : Meter} {g : Owing} (hg : g.Free)
    (request : CodeRequest) : Leaving Owing.Free (request.handle reg cl) m g := by
  cases request with
  | issueCodes a campaignID body => exact leaving_issue hg campaignID body
  | redeem a body => exact leaving_redeem hg body
  | punch a programID body => exact leaving_punch hg programID body

/-- The place of a request. -/
abbrev CodePlace (reg : Registry d) : Type :=
  Programs.Place (@Ask.Reply d reg) (Except Response Response × Meter)

/-- Where these requests arrive. -/
def arrive (reg : Registry d) (cl : Platform) (requests : ℕ → CodeRequest) (i : ℕ) :
    CodePlace reg :=
  .start ((requests i).handle reg cl ⟨none, 0⟩)

/-- The contract has taken a batch. -/
def BatchTaken (said : List (Exchange (@Ask.Reply d reg))) : Prop :=
  ∃ owner chainID codes v txHash,
    (⟨.call (.issueUnique owner chainID codes), .ok (v, txHash)⟩ : Exchange Ask.Reply) ∈ said

/-- A turn at which no request has a batch refused after one was taken. -/
def Whole (c : Config CodeWorld (CodePlace reg)) : Turn (CodeChoice reg) Tx → Prop
  | .request i ch => ∀ e k r w', (c.requests i).rest = .ask e k →
      c.shared.answer ch e = some (r, w') → Refused e r → ¬BatchTaken (c.requests i).said
  | .outside _ => True

/-- Codes are counted late only after a batch was taken. -/
theorem batchTaken_of_count (said : List (Exchange (@Ask.Reply d reg)))
    (h : ((bookkeeping reg).after Owing.start said).debt.count ≠ 0) : BatchTaken said := by
  induction said using List.reverseRecOn with
  | nil => exact absurd rfl h
  | append_singleton said x ih =>
    have hmono : BatchTaken said → BatchTaken (said ++ [x]) := fun ⟨_, _, _, _, _, hmem⟩ ↦
      ⟨_, _, _, _, _, List.mem_append_left _ hmem⟩
    rw [Law.after_concat] at h
    obtain ⟨e, r⟩ := x
    revert h
    generalize (bookkeeping reg).after Owing.start said = g at ih ⊢
    intro h
    unfold bookkeeping at h
    dsimp only at h
    split at h
    · exact hmono (ih h)
    · exact hmono (ih h)
    · exact ⟨_, _, _, _, _, List.mem_append_right _ List.mem_cons_self⟩
    · exact hmono (ih h)
    · exact hmono (ih h)
    · exact absurd rfl h
    · exact hmono (ih h)
    · exact hmono (ih h)
    · split at h
      · exact hmono (ih h)
      · exact absurd rfl h
    · exact hmono (ih h)

/-! ### The theorem -/

/-- The rows and the counters of a campaign are what the contract has. -/
structure Mirrored (w : CodeWorld) (c : CampaignRow) : Prop where
  minted : w.minted c.id = (w.codes c.id).length
  burned : w.burned c.id = (w.codes c.id).countP (·.redeemed)
  chain : ∃ camp, w.chain.storage.campaign c.chainID = some camp ∧
    camp.minted.toNat = w.minted c.id ∧ camp.burned.toNat = w.burned c.id
  row : ∀ row ∈ w.codes c.id, ∃ t, row.tokenID = some t ∧
    w.chain.storage.codeIndex (c.chainID, utf8 row.code) = some t

/-- A campaign to which nothing is owed. -/
theorem Tracked.mirrored {w : CodeWorld} {c : CampaignRow} (h : Tracked w c Debt.none) :
    Mirrored w c := by
  obtain ⟨camp, hcamp, hminted, hlength, hburned, hredeemed⟩ := h.figures
  have hknown : (w.known c Debt.none).length = (w.codes c.id).length := by
    rw [CodeWorld.known, Debt.none, List.map_nil, List.append_nil, List.length_map]
  refine ⟨(hlength.symm.trans hminted).symm.trans hknown, hburned.symm.trans hredeemed,
    ⟨camp, hcamp, hminted, hburned⟩, fun row hrow ↦ ?_⟩
  obtain ⟨t, ht, hindex, -⟩ := h.row row hrow
  exact ⟨t, ht, hindex⟩

/-- What the tables say of a campaign has happened on the chain. -/
structure Behind (w : CodeWorld) (c : CampaignRow) : Prop where
  counters : ∃ camp, w.chain.storage.campaign c.chainID = some camp ∧
    w.minted c.id ≤ camp.minted.toNat ∧ w.burned c.id ≤ camp.burned.toNat
  nodup : ((w.codes c.id).map (·.code)).Nodup
  row : ∀ row ∈ w.codes c.id, ∃ t, row.tokenID = some t ∧
    w.chain.storage.codeIndex (c.chainID, utf8 row.code) = some t ∧
    (row.redeemed = true → ∀ tok, w.chain.storage.token t = some tok → tok.isBurned = true)

/-- So it is, whatever is owed to the campaign. -/
theorem Tracked.behind {w : CodeWorld} {c : CampaignRow} {o : Debt} (h : Tracked w c o) :
    Behind w c := by
  obtain ⟨camp, hcamp, hminted, -, hburned, -⟩ := h.figures
  refine ⟨⟨camp, hcamp, ?_, ?_⟩, ?_, h.row⟩
  · rw [hminted]
    exact Nat.le_add_right _ _
  · rw [hburned]
    exact Nat.le_add_right _ _
  · have hcodes : ((w.codes c.id).map fun row ↦ utf8 row.code).Nodup :=
      (List.nodup_append.1 h.nodup).1
    rw [← Function.comp_def utf8, ← List.map_map] at hcodes
    exact hcodes.of_map utf8

/-- The campaigns of Cloud have been created, and no code of them was issued. -/
structure Unissued (reg : Registry d) (w : CodeWorld) : Prop where
  reachable : Reachable w.chain
  unlocked : ∀ a, w.locked a = false
  tables : ∀ c, Current reg c → w.codes c.id = [] ∧ w.minted c.id = 0 ∧ w.burned c.id = 0
  chain : ∀ c, Current reg c → ∃ camp, w.chain.storage.campaign c.chainID = some camp ∧
    camp.minted = 0 ∧ camp.burned = 0

/-- A campaign of which no code was issued. -/
theorem Unissued.tracked {w : CodeWorld} (h : Unissued reg w) {c : CampaignRow}
    (hc : Current reg c) : Tracked w c Debt.none := by
  obtain ⟨hcodes, hminted, hburned⟩ := h.tables c hc
  obtain ⟨camp, hcamp, hminted', hburned'⟩ := h.chain c hc
  have hknown : w.known c Debt.none = [] := by rw [CodeWorld.known, hcodes]; rfl
  have haccounted := h.reachable.accounted
  refine ⟨⟨camp, hcamp, ?_, ?_, ?_, ?_⟩, hknown ▸ List.nodup_nil, fun code t ht ↦ ?_,
    fun row hrow ↦ ?_, fun x hx ↦ absurd hx List.not_mem_nil,
    fun _ hcode ↦ absurd hcode.symm (Option.some_ne_none _)⟩
  · rw [hminted', hminted]
    rfl
  · rw [hminted', hknown]
    rfl
  · rw [hburned', hburned]
    rfl
  · rw [hburned', hcodes]
    rfl
  · -- a coupon would be counted
    obtain ⟨tok, htok, hcamp', -⟩ := haccounted.filed.index_filed _ _ _ ht
    have hfigure := (haccounted.figures _ _ hcamp).minted_eq
    have hmem : t ∈ keysWith w.chain.storage.token (OfCampaign c.chainID) :=
      mem_keysWith_of_some htok |>.2 hcamp'
    have hpos : 0 < recordCount w.chain.storage.token (OfCampaign c.chainID) :=
      (Set.ncard_pos (Set.toFinite _)).2 ⟨t, hmem⟩
    rw [hminted'] at hfigure
    exact absurd hfigure (Nat.ne_of_lt hpos)
  · rw [hcodes] at hrow
    exact absurd hrow List.not_mem_nil

/-- A request that has said nothing or is answered. -/
def Resting (p : CodePlace reg) : Prop := p.said = [] ∨ ∃ x, p.rest = .ret x

section Runs

variable {cl : Platform} {requests : ℕ → CodeRequest} {w : CodeWorld}
  {turns : List (Turn (CodeChoice reg) Tx)}

/-- **The books are kept in every run** in which no batch is refused after one was taken. -/
theorem bookkept_after (hprograms : reg.ProgramsOwn) (hw : Unissued reg w)
    (hturns : ∀ n t, turns[n]? = some t →
      Whole (((codeServer reg).service _).after ⟨w, arrive reg cl requests⟩ turns n) t) (n : ℕ) :
    let c := ((codeServer reg).service _).after ⟨w, arrive reg cl requests⟩ turns n
    Server.Keeping (bookkeeping reg) Owing.start
        (fun _ ↦ Handler.post (fun _ _ ↦ Owing.Free) fun _ _ ↦ Owing.Free) c ∧
      ∃ holder, Bookkept reg holder c.shared
        (Server.records (bookkeeping reg) Owing.start c) := by
  refine Server.serve_keeps (J := fun w gs ↦ ∃ holder, Bookkept reg holder w gs) (fun i ↦ ?_) ?_
    hturns ?_ ?_ n
  · exact (leaving_handle cl ⟨rfl, rfl⟩ (requests i)).start
  · -- nobody holds a client yet
    refine ⟨fun _ ↦ none, hw.reachable.accounted, hw.unlocked, fun i a ↦ ?_, fun i h ↦ absurd rfl h,
      fun c hc ↦ hw.tracked hc⟩
    exact iff_of_false (Option.some_ne_none a).symm (Option.some_ne_none i).symm
  · rintro c i ch e r w' ⟨holder, hbooks⟩ hwhole ⟨⟨k, hrest⟩, hmay, hanswer⟩
    have hcount : Refused e r →
        (Server.records (bookkeeping reg) Owing.start c i).debt.count = 0 := by
      intro hrefused
      by_contra hcount
      exact hwhole e k r w' hrest hanswer hrefused (batchTaken_of_count _ hcount)
    obtain ⟨hpossible, hkept⟩ := hbooks.answered hprograms hmay hanswer hcount
    exact ⟨hpossible, hkept⟩
  · rintro w gs tx ⟨holder, hbooks⟩
    refine ⟨holder, ?_⟩
    show Bookkept reg holder (if _ then _ else _) gs
    split
    · exact hbooks
    · rename_i hothers
      split
      · exact hbooks
      · rename_i v s' hexec
        refine hbooks.chain (hbooks.accounted_exec hexec) fun c hc ↦ hbooks.couponsKept hexec hc ?_
        intro hcall
        refine hothers (List.any_eq_true.2 ⟨c, hc.1, ?_⟩)
        rw [decide_eq_true_eq]
        exact ⟨hc.2, hcall⟩

/-- **The counters mirror the chain.** In every run in which no request has a batch refused after
one was taken, a campaign is mirrored wherever nobody holds the client of its account, and where no
request is under way. -/
theorem counters_mirror (reg : Registry d) (hprograms : reg.ProgramsOwn) (cl : Platform)
    (requests : ℕ → CodeRequest) (w : CodeWorld) (hw : Unissued reg w)
    (turns : List (Turn (CodeChoice reg) Tx))
    (hturns : ∀ n t, turns[n]? = some t →
      Whole (((codeServer reg).service _).after ⟨w, arrive reg cl requests⟩ turns n) t) (n : ℕ) :
    let now := ((codeServer reg).service _).after ⟨w, arrive reg cl requests⟩ turns n
    ∀ c, Current reg c → (now.shared.locked c.account = false ∨ ∀ i, Resting (now.requests i)) →
      Mirrored now.shared c := by
  intro now c hc hquiet
  obtain ⟨hkeeping, holder, hbooks⟩ := bookkept_after hprograms hw hturns n
  have hholder : holder c.account = none := by
    rw [Option.eq_none_iff_forall_ne_some]
    intro i hi
    rcases hquiet with hfree | hresting
    · have hlocked := hbooks.locked c.account
      rw [hi] at hlocked
      exact absurd (hfree.symm.trans hlocked) Bool.false_ne_true
    · have hclient := (hbooks.holds i c.account).2 hi
      have hnone : (Server.records (bookkeeping reg) Owing.start now i).client = none := by
        rcases hresting i with hsaid | ⟨⟨x, m⟩, hrest⟩
        · rw [Server.records, hsaid]
          rfl
        · have hend := hkeeping i
          rw [hrest] at hend
          rcases x with x | x
          · exact hend.1
          · exact hend.1
      exact absurd (hclient.symm.trans hnone) (Option.some_ne_none _)
  have htracked := hbooks.tracked c hc
  rw [owedTo, hholder] at htracked
  exact htracked.mirrored

/-- **The tables never run ahead of the chain**, in whatever state of such a run: a code that is in
the table was issued, with its token, one that is marked was redeemed, and no counter is above that
of the contract. -/
theorem tables_behind (reg : Registry d) (hprograms : reg.ProgramsOwn) (cl : Platform)
    (requests : ℕ → CodeRequest) (w : CodeWorld) (hw : Unissued reg w)
    (turns : List (Turn (CodeChoice reg) Tx))
    (hturns : ∀ n t, turns[n]? = some t →
      Whole (((codeServer reg).service _).after ⟨w, arrive reg cl requests⟩ turns n) t) (n : ℕ) :
    ∀ c, Current reg c →
      Behind (((codeServer reg).service _).after ⟨w, arrive reg cl requests⟩ turns n).shared c := by
  intro c hc
  obtain ⟨-, holder, hbooks⟩ := bookkept_after hprograms hw hturns n
  exact (hbooks.tracked c hc).behind

end Runs

/-! ### A campaign that is out of step -/

/-- A question that fails, where it may fail. -/
def Ask.failing : (e : Ask reg) → e.Reply
  | .now => epoch
  | .randHex | .randRead | .randInts _ | .campaignByID .. | .insertCampaign _ | .insertProgram .. =>
    none
  | .insertShared .. => false
  | .reserveCharge _ | .recordEvents .. | .storeEvent .. | .punch .. | .migrateCustomer _
  | .checkEventRef _ | .loyaltyBalance _ | .planPunch .. | .storePunch .. | .nextCommitPeriod _
  | .unsignedReceipts _ | .gatherBatch _ | .storeTally .. | .sharedByCampaignCode .. =>
    .error ⟨500, "internal server error"⟩
  | .clientFor _ => .error (.problem ⟨500, "internal server error"⟩)
  | .call _ | .simulate _ | .latestLedger | .approveSettlement .. => .error .other
  | .resolve .. | .release _ | .lockProgram .. | .unlockProgram .. | .insertCode .. | .addMinted ..
  | .redeemCode .. | .addBurned _ | .settleTally .. | .reconcile .. => ()

/-- Any question may be answered in any way, in any environment. -/
theorem exists_choice (e : Ask reg) (r : e.Reply) (env : Env) :
    ∃ ch : CodeChoice reg, ch.reply e = r ∧ ch.env = env ∧ ch.replies = fun _ _ ↦ none := by
  classical
  refine ⟨⟨Function.update Ask.failing e r, env, fun _ _ ↦ none, ⟨0, none, none, .ok ()⟩⟩, ?_, rfl,
    rfl⟩
  exact Function.update_self e r Ask.failing

section Alone

open Server Handler

variable {cl : Platform} {w : CodeWorld} {m : Meter}

theorem serves_resolve (reg : Registry d) (how : Resolve) (w : CodeWorld) (m : Meter) :
    ∃ m', Serves (codeServer reg) w (m.resolve how) w m' := by
  rw [Meter.resolve]
  split
  · exact ⟨m, .ret w m⟩
  · rename_i c _
    obtain ⟨ch, -⟩ :=
      exists_choice (.resolve c how : Ask reg) () (ownerEnv (.account (.zero 32)))
    exact ⟨_, .ask ch rfl (.ret w _)⟩

/-- The rows of a batch leave the counters and the chain as they are. -/
theorem alone_insertCodes (reg : Registry d) (w : CodeWorld) (m : Meter) (id : ℕ)
    (rows : List IssuedCode) :
    ∃ w', Alone (codeServer reg) w (insertCodes id rows) m w' (.ok ()) m ∧
      w'.minted = w.minted ∧ w'.chain = w.chain := by
  induction rows generalizing w with
  | nil => exact ⟨w, alone_pure w () m, rfl, rfl⟩
  | cons row rows ih =>
    obtain ⟨ch, -⟩ :=
      exists_choice (.insertCode id row : Ask reg) () (ownerEnv (.account (.zero 32)))
    obtain ⟨w', hw', hminted, hchain⟩ := ih ((w.insert? id row).getD w)
    have hrow : ((w.insert? id row).getD w).minted = w.minted ∧
        ((w.insert? id row).getD w).chain = w.chain := by
      rw [CodeWorld.insert?]
      split
      · exact ⟨rfl, rfl⟩
      · exact ⟨rfl, rfl⟩
    exact ⟨w', (alone_ask ch rfl m).bind hw', hminted.trans hrow.1, hchain.trans hrow.2⟩

/-- A call that the contract takes, or refuses. -/
theorem alone_call {env : Env} (call : Call) (m : Meter) :
    (∀ v s', (Tx.mk env call fun _ _ ↦ none).exec w.chain = .ok (v, s') →
      Alone (codeServer reg) w (query (.call call)) m { w with chain := s' }
        (.ok (.ok (v, []))) m) ∧
    ∀ fault, (Tx.mk env call fun _ _ ↦ none).exec w.chain = .error fault →
      Alone (codeServer reg) w (query (.call call)) m w (.ok (.error (chainError fault))) m := by
  obtain ⟨ch, hreply, rfl, hreplies⟩ := exists_choice (.call call : Ask reg) (.ok (.unit, [])) env
  constructor
  · intro v s' hexec
    refine alone_ask ch ?_ m
    show CodeWorld.answer ch w (.call call) = _
    rw [CodeWorld.answer, hreply, hreplies]
    dsimp only
    rw [hexec]
  · intro fault hexec
    refine alone_ask ch ?_ m
    show CodeWorld.answer ch w (.call call) = _
    rw [CodeWorld.answer, hreply, hreplies]
    dsimp only
    rw [hexec]

/-- The second batch of a request is refused. -/
theorem alone_issueCodes_partly {signer : Address} {chainID : UInt64} (id : ℕ)
    {b₁ b₂ : List String} (m : Meter) {env : Env} {v : Value} {s' : ContractState}
    {fault : Fault Error} (hne : b₁ ≠ [])
    (htaken : (Tx.mk env (.issueUnique signer chainID (b₁.map utf8)) fun _ _ ↦ none).exec w.chain =
      .ok (v, s'))
    (hrefused : (Tx.mk env (.issueUnique signer chainID (b₂.map utf8)) fun _ _ ↦ none).exec s' =
      .error fault) :
    ∃ w' x m', Alone (codeServer reg) w (issueCodes signer chainID id [b₁, b₂] []) m w'
      (.error x) m' ∧ w'.minted = w.minted ∧ w'.chain = s' := by
  obtain ⟨w', hrows, hminted, hchain⟩ :=
    alone_insertCodes reg { w with chain := s' } m id (issuedRows b₁ v [])
  subst hchain
  obtain ⟨m', hresolve⟩ := serves_resolve reg
    (.commitUsed ((issuedRows b₁ v []).length * mcrIssuePerCode)) w' m
  refine ⟨w', .partlyIssued (issuedRows b₁ v []) (chainError fault), m',
    ((alone_call _ m).1 v _ htaken).bind (hrows.bind (((alone_call _ m).2 fault hrefused).bind ?_)),
    hminted, rfl⟩
  have hissued : ([] ++ issuedRows b₁ v []).length ≠ 0 := by
    rw [List.nil_append, issuedRows, List.length_mapIdx]
    exact fun h ↦ hne (List.length_eq_zero_iff.1 h)
  show Alone _ _ (if _ then _ else _) _ _ _ _
  rw [if_pos hissued]
  refine Alone.bind (a := ()) ?_ (alone_stop _ _ _)
  show Serves _ _ ((Meter.resolve _ _).bind _) _ _
  exact hresolve.bind (.ret _ _)

/-- **A request whose second batch is refused** counts none of the codes it has issued. -/
theorem alone_issue_partly (reg : Registry d) (cl : Platform) (w : CodeWorld) (m : Meter)
    (a : AuthCtx) (body : IssueBody) (c : CampaignRow) {signer : Address} {b₁ b₂ : List String}
    {env : Env} {v : Value} {s' : ContractState} {fault : Fault Error}
    (hfind : reg.campaigns.find? (fun row ↦ row.id = c.id ∧ row.account = a) = some c)
    (hopen : c.archived = false) (hcurrent : c.contractID = d.currentContractID)
    (hgenerate : body.generate = none) (hcodes : checkCodes (cl.givenCodes body.codes) = .ok ())
    (hbatches : issueBatches (cl.givenCodes body.codes) = [b₁, b₂]) (hne : b₁ ≠ [])
    (hfree : w.locked a = false)
    (htaken : (Tx.mk env (.issueUnique signer c.chainID (b₁.map utf8)) fun _ _ ↦ none).exec
      w.chain = .ok (v, s'))
    (hrefused : (Tx.mk env (.issueUnique signer c.chainID (b₂.map utf8)) fun _ _ ↦ none).exec s' =
      .error fault) :
    ∃ w' x m', Alone (codeServer reg) w (handleIssueCodes cl a c.id body : Work reg Response) m w'
      x m' ∧ w'.minted = w.minted ∧ w'.chain = s' := by
  obtain ⟨chFind, hreplyFind, -⟩ := exists_choice (.campaignByID a c.id : Ask reg)
    (some ⟨c, "Launch"⟩) env
  have hwritable : Alone (codeServer reg) w (writableCampaign a c.id) m w
      (.ok ⟨c, "Launch"⟩) m := by
    have hfound : Alone (codeServer reg) w (query (.campaignByID a c.id)) m w
        (.ok (some ⟨c, "Launch"⟩)) m := by
      refine alone_ask chFind ?_ m
      show CodeWorld.answer chFind w (.campaignByID a c.id) = some (some ⟨c, "Launch"⟩, w)
      rw [CodeWorld.answer, hreplyFind]
      dsimp only
      rw [hfind]
      rfl
    refine (hfound.bind (.ret _ _)).bind ((alone_stopWhen ?_ w _ m).bind
      ((alone_stopWhen (not_not.2 hcurrent) w _ m).bind (.ret _ _)))
    exact Bool.eq_false_iff.1 hopen
  have hrequested : requestedCodes cl body = (pure (cl.givenCodes body.codes) : Work reg _) := by
    rw [requestedCodes, hgenerate]
  let charge : Charge := ⟨a, "issue_codes", toString (cl.givenCodes body.codes).length ++
    " codes · " ++ "Launch", (cl.givenCodes body.codes).length * mcrIssuePerCode⟩
  obtain ⟨chReserve, hreplyReserve, -⟩ :=
    exists_choice (.reserveCharge charge : Ask reg) (.ok ()) env
  obtain ⟨chClient, hreplyClient, -⟩ := exists_choice (.clientFor a : Ask reg) (.ok signer) env
  obtain ⟨chRelease, -⟩ := exists_choice (.release a : Ask reg) () env
  have hreserve : ∃ m', Alone (codeServer reg) w (reserveCharge charge) m w (.ok ()) m' := by
    refine ⟨_, Alone.bind (a := ()) (Alone.bind (a := .ok ()) (alone_ask chReserve ?_ m)
      (alone_check _ _ _)) (.ret _ _)⟩
    show some (chReserve.reply _, w) = _
    rw [hreplyReserve]
  obtain ⟨m₁, hreserve⟩ := hreserve
  obtain ⟨w', x, m₂, hissue, hminted, hchain⟩ :=
    alone_issueCodes_partly (w := w.setLocked a true) c.id m₁ hne htaken hrefused
  obtain ⟨m₃, hrefund⟩ := serves_resolve reg .refund (w'.setLocked a false) m₂
  refine ⟨w'.setLocked a false, .error x, m₃, ?_, hminted, hchain⟩
  refine hwritable.bind ?_
  rw [hrequested]
  refine (alone_pure _ _ _).bind ?_
  rw [hcodes]
  refine (alone_check _ (.ok ()) _).bind (hreserve.bind (Alone.deferring ?_ hrefund))
  have hclient : Alone (codeServer reg) w (query (.clientFor a)) m₁ (w.setLocked a true)
      (.ok (.ok signer)) m₁ := by
    refine alone_ask chClient ?_ m₁
    show CodeWorld.answer chClient w (.clientFor a) = _
    rw [CodeWorld.answer, hreplyClient]
    dsimp only
    rw [hfree]
    rfl
  refine (hclient.bind (alone_check _ (.ok signer) _)).bind (Alone.deferring ?_
    (.ask chRelease rfl (.ret _ _)))
  rw [hbatches]
  exact hissue.bind_error

end Alone

namespace Mirroring

/-- A campaign of a hundred coupons. -/
def campaign : CampaignRow := ⟨1, ⟨1, .live⟩, 1, [], 100, false⟩

theorem one_campaign : ∀ c ∈ [campaign], ∀ c' ∈ [campaign], c.id = c'.id → c = c' := by
  intro c hc c' hc' _
  rw [List.mem_singleton.1 hc, List.mem_singleton.1 hc']

theorem one_current : ∀ c ∈ [campaign], ∀ c' ∈ [campaign],
    c.contractID = Acceptance.deployment.currentContractID →
    c'.contractID = Acceptance.deployment.currentContractID → c.chainID = c'.chainID → c = c' := by
  intro c hc c' hc' _ _ _
  rw [List.mem_singleton.1 hc, List.mem_singleton.1 hc']

theorem no_codes : ∀ c ∈ ([] : List SharedCodeRow), ∀ c' ∈ ([] : List SharedCodeRow),
    c.id = c'.id → c = c' := fun _ h ↦ absurd h List.not_mem_nil

theorem no_code_names : ∀ c ∈ ([] : List SharedCodeRow), ∀ c' ∈ ([] : List SharedCodeRow),
    c.campaignID = c'.campaignID → c.code = c'.code → c = c' := fun _ h ↦ absurd h List.not_mem_nil

def registry : Registry Acceptance.deployment :=
  ⟨[], [campaign], [], [], one_campaign, one_current, no_codes, no_code_names⟩

def owner : Address := .account (.zero 32)

/-- Its creation, on the chain. -/
def creation : Tx := ⟨ownerEnv owner, .createCampaign owner [78] [68] 1 100 100, fun _ _ ↦ none⟩

def record : Campaign := ⟨1, owner, [78], [68], 1, 100, 0, 0, 100⟩

/-- No code of it was issued. -/
def world : CodeWorld := ⟨fun _ ↦ [], fun _ ↦ 0, fun _ ↦ 0, runFrom 0 [creation], fun _ ↦ false⟩

theorem unissued_world {reg : Registry Acceptance.deployment} (hreg : reg.campaigns = [campaign]) :
    Unissued reg world where
  reachable := ⟨0, [creation], List.pairwise_singleton _ _, rfl⟩
  unlocked _ := rfl
  tables _ _ := ⟨rfl, rfl, rfl⟩
  chain c hc := by
    have hmem : c ∈ [campaign] := hreg ▸ hc.1
    rw [List.mem_singleton.1 hmem]
    exact ⟨record, rfl, rfl, rfl⟩

theorem unissued : Unissued registry world := unissued_world rfl

/-- A hundred codes and one more. -/
def body : IssueBody := ⟨(List.range 101).map toString, none⟩

def first : List String := (List.range 100).map toString

theorem givenCodes_body : Acceptance.platform.givenCodes body.codes = body.codes := by
  decide +kernel

theorem checkCodes_body : (checkCodes body.codes).isOk = true := by decide +kernel

theorem issueBatches_body : issueBatches body.codes = [first, ["100"]] := by decide +kernel

theorem nodup_first : first.Nodup := by decide +kernel

theorem acceptable_first :
    (first.all fun code ↦ utf8 code ≠ [] ∧ (utf8 code).length ≤ maxCodeLen) = true := by
  decide +kernel

theorem issuable_first : Issuable world.chain.storage 1 (first.map utf8) where
  acceptable code hcode := by
    obtain ⟨text, htext, rfl⟩ := List.mem_map.1 hcode
    simpa using List.all_eq_true.1 acceptable_first text htext
  nodup := nodup_first.map fun _ _ ↦ utf8_inj
  free _ _ := rfl
  room := by decide +kernel

/-- A call to issue a batch of codes of it. -/
def batch (codes : List String) : Tx :=
  ⟨ownerEnv owner, .issueUnique owner 1 (codes.map utf8), fun _ _ ↦ none⟩

theorem exec_first : ∃ v s', (batch first).exec world.chain = .ok (v, s') := by
  have hauth : owner ∈ (ownerEnv owner).auths := List.mem_cons_self
  have hcamp : world.chain.storage.campaign 1 = some record := rfl
  obtain ⟨ids, s', hissue⟩ := issueUnique_of_issuable hauth hcamp rfl (by decide)
    (by decide +kernel) (by decide +kernel) (by decide +kernel) issuable_first
  refine ⟨.ids ids, s', ?_⟩
  show (direct Value.ids (issueUnique (ownerEnv owner) owner 1 _ _)).runReplies _ = _
  rw [direct, Callout.runReplies_done, hissue]
  rfl

end Mirroring

/-! ### A run in step -/

/-- A batch is refused at a turn. -/
def refuses (c : Config CodeWorld (CodePlace reg)) : Turn (CodeChoice reg) Tx → Bool
  | .request i ch =>
    match (c.requests i).rest with
    | .ask (.call (.issueUnique owner chainID codes)) _ =>
      match c.shared.answer ch (.call (.issueUnique owner chainID codes)) with
      | some (.error _, _) => true
      | _ => false
    | _ => false
  | .outside _ => false

theorem whole_of_not_refuses {c : Config CodeWorld (CodePlace reg)} {t : Turn (CodeChoice reg) Tx}
    (h : refuses c t = false) : Whole c t := by
  rcases t with ⟨i, ch⟩ | tx
  · rintro e k r w' hrest hanswer hrefused
    exfalso
    cases e with
    | call call =>
      cases call with
      | issueUnique owner chainID codes =>
        rcases r with e | v
        · rw [refuses, hrest] at h
          dsimp only at h
          rw [hanswer] at h
          exact absurd h.symm Bool.false_ne_true
        · exact hrefused
      | _ => exact hrefused
    | _ => exact hrefused
  · trivial

namespace Mirroring

/-- A card that earns on the campaign. -/
def card : ProgramRow := ⟨1, ⟨1, .live⟩, 2, 1, ascii earnCode⟩

def punches : SharedCodeRow := ⟨1, 1, ascii earnCode, none⟩

theorem one_punches : ∀ c ∈ [punches], ∀ c' ∈ [punches], c = c' := by
  intro c hc c' hc'
  rw [List.mem_singleton.1 hc, List.mem_singleton.1 hc']

def cards : Registry Acceptance.deployment :=
  ⟨[], [campaign], [punches], [card], one_campaign, one_current,
    fun c hc c' hc' _ ↦ one_punches c hc c' hc', fun c hc c' hc' _ _ ↦ one_punches c hc c' hc'⟩

theorem programsOwn_cards : cards.ProgramsOwn := by
  intro p hp c hc _
  rw [List.mem_singleton.1 hp, List.mem_singleton.1 hc]
  rfl

def letters (n : ℕ) : Letters n :=
  ⟨List.replicate n 'A', List.length_replicate, fun c hc ↦ by
    rw [List.eq_of_mem_replicate hc]
    decide⟩

def surroundings : Surroundings := ⟨0, none, none, .ok ()⟩

/-- All goes well, and a punch is the second of its customer. -/
def reply : (e : Ask cards) → e.Reply
  | .randHex => some [1]
  | .randInts n => some (letters n)
  | .reserveCharge _ => .ok ()
  | .clientFor _ => .ok owner
  | .call _ => .ok (.unit, [7])
  | .campaignByID .. => some ⟨campaign, "Launch"⟩
  | .punch a id body => (punchRequest cards surroundings a id body).map (·, "Coffee card")
  | .migrateCustomer _ | .checkEventRef _ | .storePunch .. => .ok ()
  | .loyaltyBalance _ => .ok 1
  | .planPunch _ before => .ok ⟨before + 1, 1, ⟨[], .zero 32, [], []⟩⟩
  | e => e.failing

def choice : CodeChoice cards := ⟨reply, ownerEnv owner, fun _ _ ↦ none, surroundings⟩

/-- Two codes are issued, one of them is redeemed, and a punch earns a reward. -/
def start : Config CodeWorld (CodePlace cards) :=
  ⟨world, arrive cards Acceptance.platform fun
    | 0 => .issueCodes ⟨1, .live⟩ 1 ⟨["one", "two"], none⟩
    | 1 => .redeem ⟨1, .live⟩ ⟨1, "one", "alice"⟩
    | _ => .punch ⟨1, .live⟩ 1 ⟨"alice", "", none⟩⟩

/-- The second request waits for the client. -/
def turns : List (Turn (CodeChoice cards) Tx) :=
  List.replicate 4 (.request 0 choice) ++ List.replicate 5 (.request 1 choice) ++
    List.replicate 5 (.request 0 choice) ++ List.replicate 6 (.request 1 choice) ++
    List.replicate 14 (.request 2 choice)

/-- Where the run is after some turns. -/
def now (n : ℕ) : Config CodeWorld (CodePlace cards) :=
  ((codeServer cards).service _).after start turns n

theorem none_refused : ∀ n < 34, turns[n]?.all (fun t ↦ !refuses (now n) t) = true := by
  decide +kernel

theorem whole_turns (n : ℕ) (t : Turn (CodeChoice cards) Tx) (ht : turns[n]? = some t) :
    Whole (now n) t := by
  have hn : n < 34 := (List.getElem?_eq_some_iff.1 ht).1
  have hnone := none_refused n hn
  rw [ht] at hnone
  exact whole_of_not_refuses (by simpa using hnone)

end Mirroring

/-- Three codes of the campaign are issued, and one is redeemed. -/
theorem counters_mirror_cards :
    (Mirroring.now 34).shared.minted 1 = 3 ∧ (Mirroring.now 34).shared.burned 1 = 1 ∧
      Mirrored (Mirroring.now 34).shared Mirroring.campaign := by
  refine ⟨by decide +kernel, by decide +kernel, ?_⟩
  exact counters_mirror Mirroring.cards Mirroring.programsOwn_cards Acceptance.platform _
    Mirroring.world (Mirroring.unissued_world rfl) Mirroring.turns Mirroring.whole_turns 34
    Mirroring.campaign ⟨List.mem_cons_self, rfl⟩ (Or.inl (by decide +kernel))

/-- Where two codes are in the table, and not counted yet. -/
theorem tables_behind_cards :
    (Mirroring.now 11).shared.minted 1 = 0 ∧ ((Mirroring.now 11).shared.codes 1).length = 2 ∧
      Behind (Mirroring.now 11).shared Mirroring.campaign := by
  refine ⟨by decide +kernel, by decide +kernel, ?_⟩
  exact tables_behind Mirroring.cards Mirroring.programsOwn_cards Acceptance.platform _
    Mirroring.world (Mirroring.unissued_world rfl) Mirroring.turns Mirroring.whole_turns 11
    Mirroring.campaign ⟨List.mem_cons_self, rfl⟩

/-! ### A run out of step -/

/-- **A campaign may be out of step** with no request under way: of a hundred and one codes for a
campaign of a hundred, a hundred are issued, and none is counted. -/
theorem counters_drift :
    Unissued Mirroring.registry Mirroring.world ∧ Current Mirroring.registry Mirroring.campaign ∧
      ∃ turns now, ((codeServer Mirroring.registry).service _).serve
          ⟨Mirroring.world, arrive Mirroring.registry Acceptance.platform fun _ ↦
            .issueCodes ⟨1, .live⟩ 1 Mirroring.body⟩ turns = now ∧
        (∀ i, Resting (now.requests i)) ∧ ¬Mirrored now.shared Mirroring.campaign := by
  refine ⟨Mirroring.unissued, ⟨List.mem_cons_self, rfl⟩, ?_⟩
  obtain ⟨v, s', htaken⟩ := Mirroring.exec_first
  have haccounted := Mirroring.unissued.reachable.accounted
  -- the contract has a hundred, which is all there may be
  obtain ⟨camp, hcamp, hsupply, hminted⟩ : ∃ camp, s'.storage.campaign 1 = some camp ∧
      camp.totalSupply = 100 ∧ camp.minted.toNat = 100 := by
    obtain ⟨evs, heffect, -⟩ := exec_effect htaken
    obtain ⟨ids, -, hissues⟩ := heffect.issues haccounted.filed
    obtain ⟨camp, camp', hbefore, hafter, hminted, -⟩ := hissues.campaign
    obtain rfl : Mirroring.record = camp := Option.some.inj hbefore
    exact ⟨camp', hafter, (hissues.supply _ _ hbefore hafter).1, hminted⟩
  have hrefused : ∃ fault, (Mirroring.batch ["100"]).exec s' = .error fault := by
    rcases hexec : (Mirroring.batch ["100"]).exec s' with fault | ⟨v', s''⟩
    · exact ⟨fault, rfl⟩
    · obtain ⟨evs, heffect, -⟩ := exec_effect htaken
      obtain ⟨evs', heffect', -⟩ := exec_effect hexec
      obtain ⟨ids, -, hissues⟩ := heffect'.issues (heffect.accounted haccounted).filed
      obtain ⟨camp₁, camp₂, hbefore, hafter, hminted', -⟩ := hissues.campaign
      obtain rfl := Option.some.inj (hcamp.symm.trans hbefore)
      have hle := UInt32.le_iff_toNat_le.1 (hissues.supply _ _ hbefore hafter).2
      rw [hminted', hminted, hsupply] at hle
      exact absurd hle (by decide +kernel)
  obtain ⟨fault, hrefused⟩ := hrefused
  obtain ⟨okay, hokay⟩ : ∃ u, checkCodes Mirroring.body.codes = .ok u := by
    rcases h : checkCodes Mirroring.body.codes with problem | u
    · have hok := Mirroring.checkCodes_body
      rw [h] at hok
      exact absurd hok Bool.false_ne_true
    · exact ⟨u, rfl⟩
  obtain ⟨w', x, m', halone, hcounted, hchain⟩ :=
    alone_issue_partly Mirroring.registry Acceptance.platform Mirroring.world ⟨none, 0⟩ ⟨1, .live⟩
      Mirroring.body Mirroring.campaign rfl rfl rfl rfl (Mirroring.givenCodes_body ▸ hokay)
      (Mirroring.givenCodes_body.symm ▸ Mirroring.issueBatches_body) (List.cons_ne_nil _ _) rfl
      htaken hrefused
  obtain ⟨turns, said, hturns⟩ := halone.exists_turns (arrive Mirroring.registry
    Acceptance.platform fun _ ↦ .issueCodes ⟨1, .live⟩ 1 Mirroring.body) 0 rfl
  refine ⟨turns, _, hturns, fun i ↦ ?_, fun hmirrored ↦ ?_⟩
  · rcases eq_or_ne i 0 with rfl | hi
    · dsimp only
      rw [Function.update_self]
      exact Or.inr ⟨_, rfl⟩
    · dsimp only
      rw [Function.update_of_ne hi]
      exact Or.inl rfl
  · obtain ⟨camp', hcamp', hcount, -⟩ := hmirrored.chain
    dsimp only at hcamp' hcount
    rw [hchain] at hcamp'
    obtain rfl := Option.some.inj (hcamp.symm.trans hcamp')
    rw [hcounted, hminted] at hcount
    exact absurd hcount (show (100 : ℕ) ≠ 0 by decide)

end Soroticket
