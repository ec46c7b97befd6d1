import Soroticket.Cloud.Steps
import Soroticket.Scanner.Scans

/-!
# What a step of the scanner does

Few steps matter to what the scanner says of a scan (`ScanEffect`): it finds the phone and the code
in its memory, Cloud checks the event of the scan and refuses it, or stores it or finds its order
among those it has counted, and the scanner notes Cloud's answer and passes it on. The other steps
leave Cloud as it was, and do not say that anything is used.

Cloud's checks answer with 409 only where the campaign does not take events
(`recordEvents_eq_error`), and its transaction only where the order was counted before.
-/

namespace Soroticket

open Interleaving

variable {d : Deployment} {u : UpperCase} {a : AuthCtx}

/-! ### What a step does -/

/-- No event has been stored yet, and Cloud has not answered. -/
def ScanPlace.Early : ScanPlace → Prop
  | .marking _ _ | .answered _ | .told _ _ => False
  | _ => True

/-- What a scan will be told, from when Cloud has answered. -/
def ScanPlace.outcome : ScanPlace → Option (Scan × ScanReply)
  | .marking job used => some (job.scan, if used then .used else
      .registered job.name job.discountType job.discountValue)
  | .told scan reply => some (scan, reply)
  | _ => none

/-- What tells the phone that the code is used, now or before. -/
def ScanReply.Claims : ScanReply → Prop
  | .used | .registered _ _ _ => True
  | .recordTrouble | .recordFailed => False

/-- **What a step does.** -/
inductive ScanEffect (u : UpperCase) (a : AuthCtx) (ch : ScanChoice) (p p' : ScanPlace)
    (s s' : ScanState d) : Prop
  /-- Nothing to Cloud, and nothing is said of what is used. -/
  | quiet (hp : p.Early) (hcloud : s'.cloud = s.cloud) (hstoring : ∀ job e, p' ≠ .storing job e)
      (hclaims : ∀ scan reply, p'.outcome = some (scan, reply) → ¬reply.Claims)
  | hit (phone : String) (res : Resolution) (hp : p = .checking phone res)
      (hp' : p' = .told ⟨phone, res.campaignID, textOf res.code⟩ .used)
      (hcloud : s'.cloud = s.cloud) (hdone : s.alreadyDone phone (textOf res.code) = true)
  | checked (job : ScanJob) (e : NewEvent) (hp : p = .posting job) (hp' : p' = .storing job e)
      (hcloud : s'.cloud = s.cloud) (hcheck : s.cloud.check u a ch.env job = .ok e)
  | refused (job : ScanJob) (problem : Problem) (hp : p = .posting job)
      (hp' : p' = .marking job true) (hcloud : s'.cloud = s.cloud)
      (hcheck : s.cloud.check u a ch.env job = .error problem) (hstatus : problem.status = 409)
  | stored (job : ScanJob) (e : NewEvent) (db : Database) (hp : p = .storing job e)
      (hp' : p' = .marking job false ∨ p' = .told job.scan .recordTrouble)
      (hcloud : s'.cloud = { s.cloud with db }) (hstore : s.cloud.db.storeEvent a e = .ok db)
  | duplicate (job : ScanJob) (e : NewEvent) (problem : Problem) (hp : p = .storing job e)
      (hp' : p' = .marking job true) (hcloud : s'.cloud = s.cloud)
      (hstore : s.cloud.db.storeEvent a e = .error problem)
  | marked (job : ScanJob) (used : Bool) (hp : p = .marking job used)
      (hp' : ∃ reply, p' = .told job.scan reply ∧ p.outcome = some (job.scan, reply))
      (hcloud : s'.cloud = s.cloud)

/-! #### Cloud's refusals -/

theorem bind_eq_error {α β : Type} {x : Except Problem α} {f : α → Except Problem β}
    {problem : Problem} (h : (x >>= f) = .error problem) :
    x = .error problem ∨ ∃ y, x = .ok y ∧ f y = .error problem := by
  cases x with
  | error problem' =>
    have hsame : (Except.error problem' : Except Problem β) = .error problem := h
    obtain rfl := Except.error.inj hsame
    exact Or.inl rfl
  | ok y => exact Or.inr ⟨y, rfl, h⟩

theorem rejectWhen_eq_error {p : Prop} [Decidable p] {status : ℕ} {message : String}
    {problem : Problem} (h : rejectWhen p status message = .error problem) :
    p ∧ problem.status = status := by
  rw [rejectWhen] at h
  split at h
  case isTrue hp =>
    obtain rfl := Except.error.inj h
    exact ⟨hp, rfl⟩
  case isFalse => cases h

theorem orProblem_eq_error {α : Type} {o : Option α} {status : ℕ} {message : String}
    {problem : Problem} (h : orProblem o status message = .error problem) :
    problem.status = status := by
  cases o with
  | none =>
    obtain rfl := Except.error.inj h
    rfl
  | some x => cases h

theorem checkedCount_eq_error {count : Option Int64} {most : Int64} {problem : Problem}
    (h : checkedCount count most = .error problem) : problem.status = 400 := by
  simp only [checkedCount] at h
  split at h
  · split at h
    · cases h
    · obtain rfl := Except.error.inj h
      rfl
  · obtain rfl := Except.error.inj h
    rfl

/-- A campaign takes an event at a time. -/
structure CampaignRow.Takes (x : CampaignRow) (d : Deployment) (now : ℤ) : Prop where
  current : x.contractID = d.currentContractID
  live : x.archived = false
  unexpired : now ≤ x.validUntil

/-- The campaign of a shared code that is found has the id that was asked for. -/
theorem campaign_of_sharedByCampaignCode {reg : Registry d} {campaignID : ℕ} {code : Bytes}
    {sc : CurrentCode reg} (h : reg.sharedByCampaignCode a campaignID code = .ok sc) :
    sc.campaign.id = campaignID := by
  simp only [Registry.sharedByCampaignCode] at h
  split at h
  case h_1 row c hrow hc =>
    rw [Registry.current] at h
    split at h
    · obtain rfl := Except.ok.inj h
      have hc := List.find?_some hc
      exact (of_decide_eq_true hc).1
    · cases h
  · cases h

/-- A shared code is refused where it is not found, or is of a campaign of another deployment. -/
theorem sharedByCampaignCode_eq_error {reg : Registry d} {campaignID : ℕ} {code : Bytes}
    {problem : Problem} (h : reg.sharedByCampaignCode a campaignID code = .error problem) :
    problem.status = 404 ∨ problem.status = 409 ∧ ∃ x ∈ reg.campaigns, x.id = campaignID ∧
      x.contractID ≠ d.currentContractID := by
  simp only [Registry.sharedByCampaignCode] at h
  split at h
  case h_1 row c hrow hc =>
    rw [Registry.current] at h
    split at h
    · cases h
    case isFalse hcurrent =>
      have hc := List.find?_some hc
      have hrow := List.find?_some hrow
      have hid := (of_decide_eq_true hc).1
      obtain rfl := Except.error.inj h
      exact Or.inr ⟨rfl, c.1, c.2, hid, fun h ↦
        hcurrent ⟨(of_decide_eq_true hrow).1.trans hid.symm, h⟩⟩
  · obtain rfl := Except.error.inj h
    exact Or.inl rfl

/-- **What Cloud's checks refuse.** An event of a campaign that takes events is refused with one of
four statuses. -/
theorem recordEvents_eq_error {reg : Registry d} {env : Surroundings} {campaignID : ℕ}
    {code : Bytes} {body : EventBody} {problem : Problem}
    (hcharge : ∀ p, env.reserveCharge = .error p → p.status = 402 ∨ p.status = 500)
    (h : recordEvents reg env a campaignID code body = .error problem) :
    problem.status ∈ [400, 402, 404, 500] ∨ problem.status = 409 ∧
      ∃ x ∈ reg.campaigns, x.id = campaignID ∧ ¬x.Takes d env.now := by
  have hlisted : ∀ status ∈ [400, 402, 404, 500], problem.status = status →
      problem.status ∈ [400, 402, 404, 500] ∨ problem.status = 409 ∧
        ∃ x ∈ reg.campaigns, x.id = campaignID ∧ ¬x.Takes d env.now :=
    fun status hstatus hproblem ↦ Or.inl (hproblem ▸ hstatus)
  rcases bind_eq_error h with h | ⟨sc, hsc, h⟩
  · rcases sharedByCampaignCode_eq_error h with hstatus | ⟨hstatus, x, hx, hid, hcontract⟩
    · exact hlisted 404 (by decide) hstatus
    · exact Or.inr ⟨hstatus, x, hx, hid, fun htakes ↦ hcontract htakes.current⟩
  have hid := campaign_of_sharedByCampaignCode hsc
  rcases bind_eq_error h with h | ⟨_, -, h⟩
  · obtain ⟨harchived, hstatus⟩ := rejectWhen_eq_error h
    exact Or.inr ⟨hstatus, sc.campaign, sc.campaign_mem, hid,
      fun htakes ↦ absurd harchived (by rw [htakes.live]; decide)⟩
  rcases bind_eq_error h with h | ⟨_, -, h⟩
  · obtain ⟨hexpired, hstatus⟩ := rejectWhen_eq_error h
    exact Or.inr ⟨hstatus, sc.campaign, sc.campaign_mem, hid,
      fun htakes ↦ absurd htakes.unexpired (not_le.2 hexpired)⟩
  rcases bind_eq_error h with h | ⟨count, -, h⟩
  · exact hlisted 400 (by decide) (checkedCount_eq_error h)
  rcases bind_eq_error h with h | ⟨_, -, h⟩
  · exact hlisted 400 (by decide) (rejectWhen_eq_error h).2
  rcases bind_eq_error h with h | ⟨_, -, h⟩
  · exact hlisted 400 (by decide) (rejectWhen_eq_error h).2
  rcases bind_eq_error h with h | ⟨_, -, h⟩
  · exact hlisted 400 (by decide) (rejectWhen_eq_error h).2
  rcases bind_eq_error h with h | ⟨receipt, -, h⟩
  · exact hlisted 500 (by decide) (orProblem_eq_error h)
  rcases bind_eq_error h with h | ⟨_, -, h⟩
  · rcases hcharge problem h with hstatus | hstatus
    · exact hlisted 402 (by decide) hstatus
    · exact hlisted 500 (by decide) hstatus
  · cases h

/-! #### Steps -/

section Steps

variable {ch : ScanChoice} {p p' : ScanPlace} {s s' : ScanState d}

/-- A step to another place before Cloud has answered. -/
theorem ScanEffect.onward (hp : p.Early) (hp' : p'.Early) (hcloud : s'.cloud = s.cloud)
    (hstoring : ∀ job e, p' ≠ .storing job e) : ScanEffect u a ch p p' s s' := by
  refine .quiet hp hcloud hstoring fun scan reply h ↦ ?_
  cases p' with
  | marking => exact hp'.elim
  | told => exact hp'.elim
  | _ => exact absurd h.symm (Option.some_ne_none _)

/-- A step to a reply that is not about an event. -/
theorem ScanEffect.answered (hp : p.Early) (hcloud : s'.cloud = s.cloud) (reply : MessageReply) :
    ScanEffect u a ch p (.answered reply) s s' := by
  refine .quiet hp hcloud (fun job e h ↦ ?_) fun scan reply h ↦
    absurd h.symm (Option.some_ne_none _)
  cases h

/-- A step to a reply that says nothing of what is used. -/
theorem ScanEffect.told (hp : p.Early) (hcloud : s'.cloud = s.cloud) (scan : Scan)
    {reply : ScanReply} (hreply : ¬reply.Claims) : ScanEffect u a ch p (.told scan reply) s s' := by
  refine .quiet hp hcloud (fun job e h ↦ ?_) fun scan' reply' h ↦ ?_
  · cases h
  · obtain ⟨-, rfl⟩ := Prod.mk.inj (Option.some.inj h)
    exact hreply

theorem early_route (phone : String) (res : Resolution) :
    (route phone res).Early ∨ ∃ reply, route phone res = .answered reply := by
  rw [route]
  split
  · exact Or.inr ⟨_, rfl⟩
  · split
    · exact Or.inr ⟨_, rfl⟩
    · split
      · exact Or.inl trivial
      · exact Or.inl trivial

theorem route_ne_storing (phone : String) (res : Resolution) (job : ScanJob) (e : NewEvent) :
    route phone res ≠ .storing job e := by
  intro h
  rw [route] at h
  split at h
  · cases h
  · split at h
    · cases h
    · split at h
      · cases h
      · cases h

theorem ScanEffect.route (hp : p.Early) (phone : String) (res : Resolution) :
    ScanEffect u a ch p (route phone res) s s := by
  rcases early_route phone res with hearly | ⟨reply, hreply⟩
  · exact .onward hp hearly rfl (route_ne_storing phone res)
  · rw [hreply]
    exact .answered hp rfl reply

/-- What the scanner makes of a status other than these. -/
theorem onStatus_of_ne (job : ScanJob) (delivered : Bool) {status : ℕ} (h₁ : status ≠ 409)
    (h₂ : status ≠ 201) :
    ∃ reply, onStatus job delivered status = .told job.scan reply ∧ ¬reply.Claims := by
  cases delivered with
  | false => exact ⟨.recordTrouble, rfl, id⟩
  | true => exact ⟨.recordFailed, by simp only [onStatus, h₁, h₂, if_false, reduceCtorEq], id⟩

theorem onStatus_conflict (job : ScanJob) (delivered : Bool) :
    onStatus job delivered 409 = .told job.scan .recordTrouble ∨
      onStatus job delivered 409 = .marking job true := by
  cases delivered with
  | false => exact Or.inl rfl
  | true => exact Or.inr rfl

theorem onStatus_created (job : ScanJob) (delivered : Bool) :
    onStatus job delivered 201 = .marking job false ∨
      onStatus job delivered 201 = .told job.scan .recordTrouble := by
  cases delivered with
  | false => exact Or.inr rfl
  | true => exact Or.inl rfl

/-- The transaction of an event fails on its order. -/
theorem storeEvent_error {db : Database} {e : NewEvent} {problem : Problem}
    (h : db.storeEvent a e = .error problem) : problem.status = 409 ∧ e.orderRef.getD [] ≠ [] ∧
      ⟨a, .shared e.sharedCodeID, e.orderRef.getD []⟩ ∈ db.operationDedup := by
  rw [Database.storeEvent, Database.reserveReference] at h
  split at h
  · cases h
  case isFalse hne =>
    split at h
    case isTrue hmem =>
      obtain rfl := Except.error.inj h
      exact ⟨rfl, hne, hmem⟩
    case isFalse => cases h

/-- And otherwise stores the event, and its order if it has one. -/
theorem storeEvent_ok {db db' : Database} {e : NewEvent} (h : db.storeEvent a e = .ok db') :
    db'.sharedEvents = db.sharedEvents.insert e ∧ ∀ r ∈ db'.operationDedup,
      r ∈ db.operationDedup ∨ r = ⟨a, .shared e.sharedCodeID, e.orderRef.getD []⟩ := by
  rw [Database.storeEvent, Database.reserveReference] at h
  split at h
  · obtain rfl := Except.ok.inj h
    exact ⟨rfl, fun r hr ↦ Or.inl hr⟩
  · split at h
    · cases h
    · obtain rfl := Except.ok.inj h
      exact ⟨rfl, fun r hr ↦ (List.mem_append.1 hr).imp_right List.mem_singleton.1⟩

/-- **A step does what `ScanEffect` says.** By the place of the message. -/
theorem scanStep_effect (h : scanStep u a ch p s = some (p', s')) :
    ScanEffect u a ch p p' s s' := by
  cases p with
  | text phone body =>
    have hp : (ScanPlace.text phone body).Early := trivial
    simp only [scanStep] at h
    split at h
    · obtain ⟨rfl, rfl⟩ := Prod.mk.inj (Option.some.inj h)
      exact .answered hp rfl _
    · obtain ⟨rfl, rfl⟩ := Prod.mk.inj (Option.some.inj h)
      exact .onward hp trivial rfl fun _ _ h ↦ by cases h
  | location phone lat lon =>
    have hp : (ScanPlace.location phone lat lon).Early := trivial
    simp only [scanStep, ScanState.takePending] at h
    split at h
    case h_1 heq =>
      obtain ⟨-, rfl⟩ := Prod.mk.inj heq
      obtain ⟨rfl, rfl⟩ := Prod.mk.inj (Option.some.inj h)
      refine .answered hp ?_ _
      rfl
    case h_2 heq =>
      obtain ⟨-, rfl⟩ := Prod.mk.inj heq
      obtain ⟨rfl, rfl⟩ := Prod.mk.inj (Option.some.inj h)
      exact .onward hp trivial rfl fun _ _ h ↦ by cases h
  | resolving phone code token asToken =>
    have hp : (ScanPlace.resolving phone code token asToken).Early := trivial
    simp only [scanStep] at h
    split at h
    · obtain ⟨rfl, rfl⟩ := Prod.mk.inj (Option.some.inj h)
      exact .answered hp rfl _
    split at h
    · obtain ⟨rfl, rfl⟩ := Prod.mk.inj (Option.some.inj h)
      exact .route hp phone _
    split at h
    · obtain ⟨rfl, rfl⟩ := Prod.mk.inj (Option.some.inj h)
      exact .route hp phone _
    split at h
    · obtain ⟨rfl, rfl⟩ := Prod.mk.inj (Option.some.inj h)
      exact .onward hp trivial rfl fun _ _ h ↦ by cases h
    · obtain ⟨rfl, rfl⟩ := Prod.mk.inj (Option.some.inj h)
      exact .answered hp rfl _
  | checking phone res =>
    have hp : (ScanPlace.checking phone res).Early := trivial
    simp only [scanStep] at h
    split at h
    case isTrue hdone =>
      obtain ⟨rfl, rfl⟩ := Prod.mk.inj (Option.some.inj h)
      exact .hit phone res rfl rfl rfl hdone
    case isFalse =>
      split at h
      · obtain ⟨rfl, rfl⟩ := Prod.mk.inj (Option.some.inj h)
        exact .onward hp trivial rfl fun _ _ h ↦ by cases h
      · obtain ⟨rfl, rfl⟩ := Prod.mk.inj (Option.some.inj h)
        exact .onward hp trivial rfl fun _ _ h ↦ by cases h
  | asking phone res =>
    have hp : (ScanPlace.asking phone res).Early := trivial
    obtain ⟨rfl, rfl⟩ := Prod.mk.inj (Option.some.inj h)
    refine .answered hp ?_ _
    rfl
  | redeeming phone res =>
    have hp : (ScanPlace.redeeming phone res).Early := trivial
    obtain ⟨rfl, rfl⟩ := Prod.mk.inj (Option.some.inj h)
    exact .answered hp rfl _
  | posting job =>
    have hp : (ScanPlace.posting job).Early := trivial
    simp only [scanStep] at h
    split at h
    · obtain ⟨rfl, rfl⟩ := Prod.mk.inj (Option.some.inj h)
      exact .told hp rfl job.scan id
    split at h
    case h_1 e hcheck =>
      obtain ⟨rfl, rfl⟩ := Prod.mk.inj (Option.some.inj h)
      exact .checked job e rfl rfl rfl hcheck
    case h_2 problem hcheck =>
      obtain ⟨rfl, rfl⟩ := Prod.mk.inj (Option.some.inj h)
      by_cases hstatus : problem.status = 409
      · rw [hstatus]
        rcases onStatus_conflict job ch.delivered with hplace | hplace
        · rw [hplace]
          exact .told hp rfl job.scan id
        · exact .refused job problem rfl hplace rfl hcheck hstatus
      · have hcreated : problem.status ≠ 201 := by
          rcases recordEvents_eq_error ch.charged hcheck with hlisted | ⟨hconflict, -⟩
          · intro h
            rw [h] at hlisted
            exact absurd hlisted (by decide)
          · exact absurd hconflict hstatus
        obtain ⟨reply, hplace, hreply⟩ := onStatus_of_ne job ch.delivered hstatus hcreated
        rw [hplace]
        exact .told hp rfl job.scan hreply
  | storing job e =>
    have hp : (ScanPlace.storing job e).Early := trivial
    simp only [scanStep] at h
    split at h
    · obtain ⟨rfl, rfl⟩ := Prod.mk.inj (Option.some.inj h)
      obtain ⟨reply, hplace, hreply⟩ := onStatus_of_ne job ch.delivered
        (by decide : 500 ≠ 409) (by decide)
      rw [hplace]
      exact .told hp rfl job.scan hreply
    split at h
    case h_1 db hstore =>
      obtain ⟨rfl, rfl⟩ := Prod.mk.inj (Option.some.inj h)
      exact .stored job e db rfl (onStatus_created job ch.delivered) rfl hstore
    case h_2 problem hstore =>
      obtain ⟨rfl, rfl⟩ := Prod.mk.inj (Option.some.inj h)
      rw [(storeEvent_error hstore).1]
      rcases onStatus_conflict job ch.delivered with hplace | hplace
      · rw [hplace]
        exact .told hp rfl job.scan id
      · rw [hplace]
        exact .duplicate job e problem rfl rfl rfl hstore
  | marking job used =>
    obtain ⟨rfl, rfl⟩ := Prod.mk.inj (Option.some.inj h)
    exact .marked job used rfl ⟨_, rfl, rfl⟩ rfl
  | answered reply => cases h
  | told scan reply => cases h

end Steps

end Soroticket
