import Soroticket.Cloud.Enrolling
import Soroticket.Cloud.Settled

/-!
# Codes, tallies and settlements in one service

The requests that register shared codes and those that commit and settle their periods, in front of
one chain. A row of `shared_codes` is in the table once its request has put it there (`CoinWorld`),
and then it has the terms of its record on the chain (`Enrolled`). A request to settle approves what
it has computed for its own period, and is answered with a settlement of that period
(`Approving`).
-/

namespace Soroticket

open Programs Handler Interleaving

variable {d : Deployment} {reg : Registry d} {τ : Type} {T : Tokens τ}

/-! ### Requests that register a code -/

/-- A handler may be left: its charge is open, or resolved. -/
def Closable (reg : Registry d) (m : Meter) (g : Dealing) : Prop :=
  ∀ how, Closes (dealing reg) (m.resolving how) g fun _ ↦ True

section Registrations

variable {cl : Platform} {a : AuthCtx} {m : Meter} {g : Dealing} {α β : Type}

theorem Dealing.Pending.closable (h : g.Pending m) : Closable reg m g := fun _ ↦ h.closes trivial

/-- After a charge was reserved, and nothing else. -/
theorem closable_reserved (c : Charge) (used : ℤ) :
    Closable reg ⟨c.reservation, used⟩ { Dealing.start with reserved := c.reservation } :=
  Dealing.Pending.closable ⟨rfl, rfl⟩

/-- A handler that keeps to the law of settlements, and may be left however it ends. -/
abbrev Deals (h : Work reg α) (m : Meter) (g : Dealing) : Prop :=
  h.Keeps (dealing reg) m g (fun _ ↦ Closable reg) fun _ ↦ Closable reg

theorem deals_withClient {h : Address → Work reg β} (hg : Closable reg m g)
    (hh : ∀ signer, Deals (h signer) m g) : Deals (withClient a h) m g := by
  refine keeps_withClient trivial (fun signer _ ↦ ?_) fun _ _ ↦ hg
  exact (hh signer).mono (fun _ _ _ hclose ↦ ⟨trivial, fun _ _ ↦ hclose⟩)
    fun _ _ _ hclose ↦ ⟨trivial, fun _ _ ↦ hclose⟩

theorem deals_registerSharedCode {signer : Address} {chainID : UInt64} {j : SharedJob}
    {f : Bytes → Work reg β} (hg : Closable reg m g) (hf : ∀ txHash, Deals (f txHash) m g) :
    Deals (registerSharedCode signer chainID j >>= f) m g := by
  refine keeps_bind.2 ?_
  rw [registerSharedCode]
  split
  · exact keeps_stop.2 hg
  · exact step_callClient trivial (fun v _ ↦ keeps_pure.2 (hf v.2)) fun _ _ ↦ hg

/-- A row is inserted, or not, and the request is answered. -/
theorem deals_insertShared {campaignID : ℕ} {row : NewShared} {message : String} {x : Response}
    (hg : Closable reg m g) : Deals (do
      let stored : Bool ← query (.insertShared campaignID row)
      problemWhen (stored = false) 500 message
      return x : Work reg Response) m g := by
  refine step_query trivial fun (stored : Bool) _ ↦ ?_
  exact step_problemWhen (fun _ ↦ keeps_pure.2 hg) fun _ ↦ hg

theorem deals_createCampaign (body : CampaignBody) :
    (handleCreateCampaign cl a body : Work reg Response).Keeps (dealing reg) ⟨none, 0⟩
      Dealing.start (fun _ _ _ ↦ True) fun _ _ _ ↦ True := by
  unfold handleCreateCampaign
  refine step_silent ⟨trivial, fun _ ↦ rfl⟩ fun first _ ↦ ?_
  refine step_silent ⟨trivial, fun _ ↦ rfl⟩ fun second _ ↦ ?_
  refine step_checked (fun job _ ↦ ?_) fun _ _ ↦ trivial
  refine step_reserveCharge ⟨rfl, rfl⟩ (fun _ ↦ ?_) fun _ _ ↦ trivial
  refine keeps_deferCommitUsed (Keeps.mono (?_ : Deals _ _ _) (fun _ _ _ h ↦ h _)
    fun _ _ _ h ↦ h _)
  refine deals_withClient (closable_reserved _ _) fun signer ↦ ?_
  refine step_callClient trivial (fun v _ ↦ step_setUsed ?_) fun _ _ ↦ closable_reserved _ _
  refine step_query trivial fun r _ ↦ step_orStop (fun id _ ↦ ?_) (closable_reserved _ _)
  rcases job.shared with - | shared
  · exact keeps_pure.2 (closable_reserved _ _)
  · refine deals_registerSharedCode (closable_reserved _ _) fun txHash ↦ step_setUsed ?_
    exact deals_insertShared (closable_reserved _ _)

theorem deals_createProgram (body : ProgramBody) :
    (handleCreateProgram a body : Work reg Response).Keeps (dealing reg) ⟨none, 0⟩
      Dealing.start (fun _ _ _ ↦ True) fun _ _ _ ↦ True := by
  refine step_checked (fun job _ ↦ ?_) fun _ _ ↦ trivial
  refine step_reserveCharge ⟨rfl, rfl⟩ (fun _ ↦ ?_) fun _ _ ↦ trivial
  refine keeps_deferCommitUsed (Keeps.mono (?_ : Deals _ _ _) (fun _ _ _ h ↦ h _)
    fun _ _ _ h ↦ h _)
  refine deals_withClient (closable_reserved _ _) fun signer ↦ ?_
  refine step_silent ⟨trivial, fun _ ↦ rfl⟩ fun clock _ ↦ ?_
  refine step_callClient trivial (fun v _ ↦ step_setUsed ?_) fun _ _ ↦ closable_reserved _ _
  refine deals_registerSharedCode (closable_reserved _ _) fun txHash ↦ step_setUsed ?_
  refine step_query trivial fun r _ ↦ step_orStop (fun _ _ ↦ ?_) (closable_reserved _ _)
  exact keeps_pure.2 (closable_reserved _ _)

theorem deals_registerShared (id : ℕ) (body : SharedTerms) :
    (handleRegisterShared cl a id body : Work reg Response).Keeps (dealing reg) ⟨none, 0⟩
      Dealing.start (fun _ _ _ ↦ True) fun _ _ _ ↦ True := by
  unfold handleRegisterShared
  refine step_writableCampaign ⟨trivial, fun _ ↦ rfl⟩ (fun c _ _ ↦ ?_) fun _ ↦ trivial
  refine step_checked (fun job _ ↦ ?_) fun _ _ ↦ trivial
  refine step_reserveCharge ⟨rfl, rfl⟩ (fun _ ↦ ?_) fun _ _ ↦ trivial
  refine keeps_deferRefund (Keeps.mono (?_ : Deals _ _ _) (fun _ _ _ h ↦ h _) fun _ _ _ h ↦ h _)
  refine deals_withClient (closable_reserved _ _) fun signer ↦ ?_
  refine deals_registerSharedCode (closable_reserved _ _) fun txHash ↦ ?_
  refine step_resolveCharge (Dealing.Pending.closes ⟨rfl, rfl⟩ ?_)
  exact deals_insertShared fun _ ↦ trivial

end Registrations

/-! ### Requests that settle -/

/-- What a request to settle has approved is what it has computed for its period; and where it is
answered with a settlement, that is one of the period, whose amount was approved if it is
positive. -/
structure Approving (found : Except Problem (CurrentCode reg)) (period : UInt64)
    (x : Except Response Response) (g : Dealing) : Prop where
  approved : ∀ token owner amount, g.approved = some (token, owner, amount) → ∃ sc,
    found = .ok sc ∧ g.amount = some (sc.period period, amount)
  answered : ∀ txHash total, settledAnswer x = some (txHash, total) → ∃ sc token owner amount,
    found = .ok sc ∧ g.own = some (sc.period period, txHash, total) ∧
      g.amount = some (sc.period period, amount) ∧
      g.approved = if 0 < amount then some (token, owner, amount) else none

section Settlements

variable {cl : Platform} {a : AuthCtx} {m : Meter} {g : Dealing} {β : Type}
  {found : Except Problem (CurrentCode reg)} {period : UInt64}

/-- A request that is refused. -/
theorem Approving.refused (h : ∀ token owner amount, g.approved = some (token, owner, amount) →
    ∃ sc, found = .ok sc ∧ g.amount = some (sc.period period, amount)) (x : Response) :
    Approving found period (.error x) g :=
  ⟨h, fun _ _ hsome ↦ absurd hsome.symm (Option.some_ne_none _)⟩

/-- Nothing was approved. -/
theorem Approving.of_none (h : g.approved = none) (x : Response) :
    Approving found period (.error x) g :=
  .refused (fun _ _ _ hsome ↦ absurd (hsome.symm.trans h) (Option.some_ne_none _)) x

/-- What becomes of the charge does not matter. -/
theorem Dealing.Pending.approving (h : g.Pending m) {how : Resolve}
    {x : Except Response Response} (hx : Approving found period x g) :
    Closes (dealing reg) (m.resolving how) g (Approving found period x) :=
  h.closes ⟨hx.approved, hx.answered⟩

/-- It has released its client before. -/
theorem Dealing.Pending.forgoes (h : g.Pending m) {x : Response}
    (hx : Approving found period (.error x) g) :
    Closes (dealing reg) (some (.release a)) g fun g ↦
      Closes (dealing reg) (m.resolving .refund) g (Approving found period (.error x)) :=
  ⟨trivial, fun _ _ ↦ h.approving hx⟩

theorem approving_settle (reg : Registry d) (cl : Platform) (a : AuthCtx) (body : SettleBody)
    {found : Except Problem (CurrentCode reg)}
    (hfound : reg.sharedByCampaignCode a body.campaignID (utf8 (cl.normalize body.code)) = found) :
    (handleSettle cl a body : Work reg Response).Keeps (dealing reg) ⟨none, 0⟩ Dealing.start
      (fun x _ ↦ Approving found body.period (.ok x))
      fun x _ ↦ Approving found body.period (.error x) := by
  unfold handleSettle
  refine step_silent ⟨trivial, fun _ ↦ rfl⟩ fun r hr ↦ ?_
  refine step_checked (fun sc hsc ↦ ?_) fun _ _ ↦ .of_none rfl _
  obtain rfl : r = .ok sc := hsc
  replace hr : found = .ok sc := hfound.symm.trans hr
  refine step_reserveCharge ⟨rfl, rfl⟩ (fun _ ↦ ?_) fun _ _ ↦ .of_none rfl _
  refine keeps_deferRefund ?_
  refine keeps_withClient trivial (fun signer _ ↦ ?_) fun x _ ↦
    Dealing.Pending.approving ⟨rfl, rfl⟩ (.of_none rfl x)
  refine step_simulated trivial (fun v _ ↦ ?_) fun e _ ↦
    Dealing.Pending.forgoes ⟨rfl, rfl⟩ (.of_none rfl _)
  refine step_orStop (fun token htoken ↦ ?_)
    (Dealing.Pending.forgoes ⟨rfl, rfl⟩ (.of_none rfl _))
  refine step_checkUnsettled_seen ?_ fun _ ↦
    Dealing.Pending.forgoes ⟨rfl, rfl⟩ (.of_none rfl _)
  refine step_simulated trivial (fun preview _ ↦ ?_) fun e _ ↦
    Dealing.Pending.forgoes ⟨rfl, rfl⟩ (.of_none rfl _)
  have hcode : v.payoutToken.map (sc.campaign.chainID, sc.row.code, ·) =
      some (sc.campaign.chainID, sc.row.code, token) := by
    rw [htoken]
    rfl
  refine step_approvePayouts_exact rfl (k := sc.period body.period) hcode rfl ?_
    fun e ↦ Dealing.Pending.forgoes ⟨rfl, rfl⟩ (.of_none rfl _)
  have hexact : ∀ {g : Dealing},
      g.amount = some (sc.period body.period, payoutSum preview.payoutList) →
      g.approved = (if 0 < payoutSum preview.payoutList then
        some (token, signer, payoutSum preview.payoutList) else none) →
      ∀ token owner amount, g.approved = some (token, owner, amount) →
        ∃ sc, found = .ok sc ∧ g.amount = some (sc.period body.period, amount) := by
    intro g hamount happroved token' owner amount hsome
    refine ⟨sc, hr, ?_⟩
    rw [happroved] at hsome
    split at hsome
    · obtain ⟨-, -, rfl⟩ : token = token' ∧ signer = owner ∧ _ = amount := by simpa using hsome
      exact hamount
    · exact absurd hsome.symm (Option.some_ne_none _)
  refine step_query ⟨rfl, token, _, hcode, rfl, rfl⟩ fun r _ ↦ ?_
  split
  · exact step_query ⟨sc, rfl, rfl⟩ fun _ _ ↦
      keeps_stop.2 (Dealing.Pending.forgoes ⟨rfl, rfl⟩ (.refused (hexact rfl rfl) _))
  · rename_i e hne _
    refine keeps_stop.2 ?_
    rcases e with e | -
    · cases e with
      | alreadySettled => exact absurd rfl (hne · )
      | _ => exact Dealing.Pending.forgoes ⟨rfl, rfl⟩ (.refused (hexact rfl rfl) _)
    · exact Dealing.Pending.forgoes ⟨rfl, rfl⟩ (.refused (hexact rfl rfl) _)
  · rename_i value txHash
    refine step_resolveCharge (Dealing.Pending.closes ⟨rfl, rfl⟩ ?_)
    refine step_query ⟨sc, rfl, rfl⟩ fun _ _ ↦ keeps_pure.2 ⟨trivial, fun _ _ ↦ ?_⟩
    refine ⟨hexact rfl rfl, fun txHash' total hsome ↦ ?_⟩
    obtain ⟨rfl, rfl⟩ := Prod.mk.inj (Option.some.inj hsome)
    exact ⟨sc, token, signer, _, hr, rfl, rfl, rfl⟩

end Settlements

end Soroticket
