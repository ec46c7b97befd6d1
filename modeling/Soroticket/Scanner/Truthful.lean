import Soroticket.Scanner.Orders

/-!
# What the scanner says

The scanner says that a code was used in three cases: its memory holds the phone and the code, Cloud
answers with 409 to the checks of the event, or Cloud answers so to its transaction. The last is
always true. The others can be false: the memory is kept by the text of the code, which several
campaigns may share, and Cloud refuses events with 409 for other reasons (`scanner_untruthful`).

In a run where neither happens, whatever the scanner says of a scan is so (`scanner_truthful`). What
it says was registered has been recorded once in any run.
-/

namespace Soroticket

open Interleaving Interleaving.Service

variable {d : Deployment} {u : UpperCase} {a : AuthCtx}

/-! ### Runs -/

section Runs

variable {cloud : ScanCloud d} {messages : ℕ → ScanPlace}
  {turns : List (Turn ScanChoice (ScanEvent d))} {n : ℕ}

/-- The configuration after the first turns. -/
def scanAfter (u : UpperCase) (a : AuthCtx) (cloud : ScanCloud d) (messages : ℕ → ScanPlace)
    (turns : List (Turn ScanChoice (ScanEvent d))) (n : ℕ) : Config (ScanState d) ScanPlace :=
  (scanner u a).after (scans cloud messages) turns n

/-- A message has the turn. -/
def HasTurn (turns : List (Turn ScanChoice (ScanEvent d))) (n i : ℕ) (ch : ScanChoice) : Prop :=
  turns[n]? = some (.request i ch)

/-- The orders of the scans that are posted are among the strings that are hashed. -/
def OrdersAmong (u : UpperCase) (a : AuthCtx) (cloud : ScanCloud d) (messages : ℕ → ScanPlace)
    (turns : List (Turn ScanChoice (ScanEvent d))) (M : Set Bytes) : Prop :=
  ∀ n i ch job, HasTurn turns n i ch →
    (scanAfter u a cloud messages turns n).requests i = .posting job →
    ∀ x ∈ (scanAfter u a cloud messages turns n).shared.cloud.reg.campaigns,
      x.id = job.scan.campaignID → (job.scan.order u a x.chainID).material ∈ M

/-- Nothing that is said of a scan without its event: the memory that answers a scan was written for
a scan of the same campaign, and the campaign takes events when Cloud checks one. -/
structure Undisputed (u : UpperCase) (a : AuthCtx) (cloud : ScanCloud d)
    (messages : ℕ → ScanPlace) (turns : List (Turn ScanChoice (ScanEvent d))) : Prop where
  memory : ∀ n i ch phone res, HasTurn turns n i ch →
    (scanAfter u a cloud messages turns n).requests i = .checking phone res →
    (scanAfter u a cloud messages turns n).shared.alreadyDone phone (textOf res.code) = true →
    ∃ m < n, ∃ j job used, (scanAfter u a cloud messages turns m).requests j = .marking job used ∧
      job.scan = ⟨phone, res.campaignID, textOf res.code⟩
  takes : ∀ n i ch job, HasTurn turns n i ch →
    (scanAfter u a cloud messages turns n).requests i = .posting job →
    ∀ x ∈ (scanAfter u a cloud messages turns n).shared.cloud.reg.campaigns,
      x.id = job.scan.campaignID → x.Takes d ch.env.now

/-- Message `i` has recorded one event by its turns so far, of the phone of a scan for its shared
code. -/
def RecordsOne (u : UpperCase) (a : AuthCtx) (cloud : ScanCloud d) (messages : ℕ → ScanPlace)
    (turns : List (Turn ScanChoice (ScanEvent d))) (n i : ℕ) (scan : Scan) : Prop :=
  ∃ m < n, (∃ ch, HasTurn turns m i ch) ∧
    (∃ e : NewEvent, e.OfScan u a (scanAfter u a cloud messages turns m).shared.cloud scan ∧
      (scanAfter u a cloud messages turns (m + 1)).shared.cloud.db.sharedEvents =
        (scanAfter u a cloud messages turns m).shared.cloud.db.sharedEvents.insert e) ∧
    ∀ k < n, k ≠ m → (∃ ch, HasTurn turns k i ch) →
      (scanAfter u a cloud messages turns (k + 1)).shared.cloud.db.sharedEvents =
        (scanAfter u a cloud messages turns k).shared.cloud.db.sharedEvents

/-- **Whatever the scanner says of a scan is so.** -/
structure Truthful (u : UpperCase) (a : AuthCtx) (cloud : ScanCloud d)
    (messages : ℕ → ScanPlace) (turns : List (Turn ScanChoice (ScanEvent d))) : Prop where
  used : ∀ n i scan, (scanAfter u a cloud messages turns n).requests i = .told scan .used →
    (scanAfter u a cloud messages turns n).shared.cloud.Holds u a scan
  registered : ∀ n i scan name type value,
    (scanAfter u a cloud messages turns n).requests i =
      .told scan (.registered name type value) → RecordsOne u a cloud messages turns n i scan

/-- What Cloud has counted of what is hashed was posted for a scan, and is held. -/
structure Sound (u : UpperCase) (a : AuthCtx) (M : Set Bytes)
    (c : Config (ScanState d) ScanPlace) : Prop where
  storing : ∀ i job e, c.requests i = .storing job e → Posted u a M c.shared.cloud job.scan e
  counted : ∀ r ∈ c.shared.cloud.db.operationDedup,
    (∃ m ∈ M, r.reference = hexEncode (d.refMac m).bytes) →
      ∃ scan e, Posted u a M c.shared.cloud scan e ∧
        r = ⟨a, .shared e.sharedCodeID, e.orderRef.getD []⟩ ∧ c.shared.cloud.Holds u a scan

theorem commitmentOf_orderText (d : Deployment) (u : UpperCase) (a : AuthCtx) (scan : Scan)
    (chainID : UInt64) :
    commitmentOf d a (.tally chainID (scan.upperCode u)) .business scan.orderText =
      (scan.order u a chainID).commitment d := by
  rw [commitmentOf, trimmed, dif_neg scan.trimSpace_orderText_ne, Option.elim_some, Scan.order]

/-- What passes Cloud's checks is posted. -/
theorem posted_of_check {c : ScanCloud d} {env : Surroundings} {job : ScanJob} {e : NewEvent}
    {M : Set Bytes} (h : c.check u a env job = .ok e)
    (hM : ∀ x ∈ c.reg.campaigns, x.id = job.scan.campaignID →
      (job.scan.order u a x.chainID).material ∈ M) : Posted u a M c job.scan e := by
  have hrequest : recordEvents c.reg env a job.scan.campaignID (utf8 (job.scan.upperCode u).1)
      job.body = .ok e := h
  obtain ⟨sc, hsc, hcustomer, horder⟩ := recordEvents_commits hrequest
  obtain ⟨sc', hsc', hid, -⟩ := recordEvents_eq_ok hrequest
  obtain rfl := Except.ok.inj (hsc.symm.trans hsc')
  obtain ⟨haccount, hcode⟩ := sharedByCampaignCode_eq_ok hsc
  have hcampaign := campaign_of_sharedByCampaignCode hsc
  have hof : job.scan.Of u a c sc.row sc.campaign :=
    ⟨sc.row_mem, sc.campaign_mem, haccount, hcampaign, sc.row_campaign.trans hcampaign, hcode⟩
  refine ⟨sc.row, sc.campaign, hof, hid, hcustomer, ?_, hM _ sc.campaign_mem hcampaign⟩
  rw [horder]
  exact congrArg some (commitmentOf_orderText d u a job.scan sc.campaign.chainID)

theorem Sound.init {M : Set Bytes} (hcomes : ∀ i, (messages i).Comes)
    (hfresh : ∀ r ∈ cloud.db.operationDedup, ∀ m ∈ M, r.reference ≠ hexEncode (d.refMac m).bytes) :
    Sound u a M (scans cloud messages) where
  storing i job e h := by
    have hcome := hcomes i
    have hplace : messages i = .storing job e := h
    rw [hplace] at hcome
    cases hcome
  counted r hr := fun ⟨m, hm, href⟩ ↦ absurd href (hfresh r hr m hm)

/-- **A step keeps what is sound.** Only two steps matter: Cloud's checks let an event on that is
posted for its scan, and its transaction counts the order of one and stores it. -/
theorem Sound.advance {M : Set Bytes} {c : Config (ScanState d) ScanPlace} {i : ℕ} {ch : ScanChoice}
    {p : ScanPlace} {s : ScanState d} (hs : Sound u a M c)
    (hM : ∀ job, c.requests i = .posting job → ∀ x ∈ c.shared.cloud.reg.campaigns,
      x.id = job.scan.campaignID → (job.scan.order u a x.chainID).material ∈ M)
    (hstep : scanStep u a ch (c.requests i) c.shared = some (p, s)) :
    Sound u a M ⟨s, Function.update c.requests i p⟩ := by
  have heffect := scanStep_effect hstep
  -- where Cloud is as before, only the place of the message is new
  have hsame : s.cloud = c.shared.cloud →
      (∀ job e, p = .storing job e → Posted u a M c.shared.cloud job.scan e) →
      Sound u a M ⟨s, Function.update c.requests i p⟩ := by
    intro hcloud hp
    refine ⟨fun j job e h ↦ ?_, ?_⟩
    · show Posted u a M s.cloud job.scan e
      rw [hcloud]
      rcases eq_or_ne j i with rfl | hne
      · exact hp job e ((Function.update_self ..).symm.trans h)
      · exact hs.storing j job e ((Function.update_of_ne hne ..).symm.trans h)
    · show ∀ r ∈ s.cloud.db.operationDedup, _
      dsimp only
      rw [hcloud]
      exact hs.counted
  have hquiet : s.cloud = c.shared.cloud → (∀ job e, p ≠ .storing job e) →
      Sound u a M ⟨s, Function.update c.requests i p⟩ :=
    fun hcloud hp ↦ hsame hcloud fun job e h ↦ absurd h (hp job e)
  cases heffect with
  | quiet hp hcloud hstoring hclaims => exact hquiet hcloud hstoring
  | hit phone res hp hp' hcloud hdone => exact hquiet hcloud fun job e h ↦ by cases hp'.symm.trans h
  | checked job e hp hp' hcloud hcheck =>
    refine hsame hcloud fun job' e' h ↦ ?_
    cases hp'.symm.trans h
    exact posted_of_check hcheck (hM job hp)
  | refused job problem hp hp' hcloud hcheck hstatus =>
    exact hquiet hcloud fun job e h ↦ by cases hp'.symm.trans h
  | stored job e db hp hp' hcloud hstore =>
    have hposted := hs.storing i job e hp
    have hlater : c.shared.cloud.Later s.cloud := by
      rw [hcloud]
      exact .of_store hstore
    have hholds : s.cloud.Holds u a job.scan := by
      rw [hcloud]
      exact hposted.holds hstore
    refine ⟨fun j job' e' h ↦ ?_, fun r hr hm ↦ ?_⟩
    · rcases eq_or_ne j i with rfl | hne
      · have hplace := (Function.update_self ..).symm.trans h
        rcases hp' with hp' | hp'
        · cases hp'.symm.trans hplace
        · cases hp'.symm.trans hplace
      · exact hlater.posted (hs.storing j job' e' ((Function.update_of_ne hne ..).symm.trans h))
    · have hr : r ∈ db.operationDedup := by
        have hr : r ∈ s.cloud.db.operationDedup := hr
        rwa [hcloud] at hr
      rcases (storeEvent_ok hstore).2 r hr with hold | rfl
      · obtain ⟨scan, e', hposted', hrow, hheld⟩ := hs.counted r hold hm
        exact ⟨scan, e', hlater.posted hposted', hrow, hlater.holds hheld⟩
      · exact ⟨job.scan, e, hlater.posted hposted, rfl, hholds⟩
  | duplicate job e problem hp hp' hcloud hstore =>
    exact hquiet hcloud fun job e h ↦ by cases hp'.symm.trans h
  | marked job used hp hp' hcloud =>
    obtain ⟨reply, hp', -⟩ := hp'
    exact hquiet hcloud fun job e h ↦ by cases hp'.symm.trans h

theorem Sound.outside {M : Set Bytes} {c : Config (ScanState d) ScanPlace} (hs : Sound u a M c)
    (event : ScanEvent d) : Sound u a M ⟨(scanner u a).outside event c.shared, c.requests⟩ := by
  cases event with
  | campaigns change =>
    have hlater := ScanCloud.Later.of_grows (change.2 c.shared.cloud)
    refine ⟨fun i job e h ↦ hlater.posted (hs.storing i job e h), fun r hr hm ↦ ?_⟩
    have hr : r ∈ (change.1 c.shared.cloud).db.operationDedup := hr
    rw [(change.2 c.shared.cloud).db] at hr
    obtain ⟨scan, e, hposted, hrow, hheld⟩ := hs.counted r hr hm
    exact ⟨scan, e, hlater.posted hposted, hrow, hlater.holds hheld⟩
  | restart => exact ⟨hs.storing, hs.counted⟩

theorem scans_sound_after {M : Set Bytes} (hcomes : ∀ i, (messages i).Comes)
    (hM : OrdersAmong u a cloud messages turns M)
    (hfresh : ∀ r ∈ cloud.db.operationDedup, ∀ m ∈ M, r.reference ≠ hexEncode (d.refMac m).bytes) :
    Sound u a M (scanAfter u a cloud messages turns n) := by
  let G : Config (ScanState d) ScanPlace → Turn ScanChoice (ScanEvent d) → Prop := fun c t ↦
    ∀ i ch job, t = .request i ch → c.requests i = .posting job →
      ∀ x ∈ c.shared.cloud.reg.campaigns, x.id = job.scan.campaignID →
        (job.scan.order u a x.chainID).material ∈ M
  refine after_induction (P := Sound u a M) (G := G) (k := 0) (Sound.init hcomes hfresh)
    (fun n t hturn i ch job ht ↦ hM n i ch job (hturn.trans (congrArg some ht)))
    (fun c i ch p s hs hG hstep ↦ ?_) (fun c event hs ↦ hs.outside event) (Nat.zero_le n)
  exact hs.advance (fun job ↦ hG i ch job rfl) hstep

theorem effect_of_advance {ch : ScanChoice} {p p' : ScanPlace} {s s' : ScanState d}
    (h : (scanner u a).advance ch p s = some (p', s')) : ScanEffect u a ch p p' s s' :=
  scanStep_effect h

theorem ScanEffect.later {ch : ScanChoice} {p p' : ScanPlace} {s s' : ScanState d}
    (h : ScanEffect u a ch p p' s s') : s.cloud.Later s'.cloud := by
  cases h with
  | quiet _ hcloud => exact .of_eq hcloud
  | hit _ _ _ _ hcloud => exact .of_eq hcloud
  | checked _ _ _ _ hcloud => exact .of_eq hcloud
  | refused _ _ _ _ hcloud => exact .of_eq hcloud
  | stored _ _ _ _ _ hcloud hstore =>
    rw [hcloud]
    exact .of_store hstore
  | duplicate _ _ _ _ _ hcloud => exact .of_eq hcloud
  | marked _ _ _ _ hcloud => exact .of_eq hcloud

/-- Cloud loses nothing as turns go by. -/
theorem later_after {m : ℕ} (hmn : m ≤ n) :
    (scanAfter u a cloud messages turns m).shared.cloud.Later
      (scanAfter u a cloud messages turns n).shared.cloud := by
  induction n, hmn using Nat.le_induction with
  | base => exact .of_eq rfl
  | succ n _ ih =>
    have hnext : (scanAfter u a cloud messages turns n).shared.cloud.Later
        (scanAfter u a cloud messages turns (n + 1)).shared.cloud := by
      rcases after_succ_cases (scanner u a) (scans cloud messages) turns n with
        hpass | ⟨i, ch, p, s, hstep, hturn⟩ | ⟨event, hturn⟩
      · rw [scanAfter, scanAfter, hpass]
        exact .of_eq rfl
      · rw [scanAfter, scanAfter, hturn]
        exact (effect_of_advance hstep).later
      · rw [scanAfter, scanAfter, hturn]
        cases event with
        | campaigns change => exact .of_grows (change.2 _)
        | restart => exact .of_eq rfl
    exact ih.trans hnext

/-- A message at a place it did not start at was taken there at a turn of its own. -/
theorem exists_effect_into {i : ℕ} {place : ScanPlace} (hinit : messages i ≠ place)
    (h : (scanAfter u a cloud messages turns n).requests i = place) :
    ∃ m < n, ∃ ch, HasTurn turns m i ch ∧
      (scanAfter u a cloud messages turns (m + 1)).requests i = place ∧
      ScanEffect u a ch ((scanAfter u a cloud messages turns m).requests i) place
        (scanAfter u a cloud messages turns m).shared
        (scanAfter u a cloud messages turns (m + 1)).shared := by
  obtain ⟨m, hm, -, -, -, -, hout, -, hin⟩ := exists_entry (S := scanner u a) (· = place) hinit h
  have hplace : (scanAfter u a cloud messages turns (m + 1)).requests i = place :=
    hin (m + 1) (Nat.lt_succ_self m) hm
  have hmoves : (scanAfter u a cloud messages turns (m + 1)).requests i ≠
      (scanAfter u a cloud messages turns m).requests i := by
    rw [hplace]
    exact Ne.symm hout
  obtain ⟨ch, hturn⟩ := turn_of_ne hmoves
  rcases after_request_cases hturn with hpass | hstep
  · have hsame : (scanAfter u a cloud messages turns (m + 1)).requests i =
        (scanAfter u a cloud messages turns m).requests i := by
      rw [scanAfter, hpass, scanAfter]
    exact absurd hsame hmoves
  · exact ⟨m, hm, ch, hturn, hplace, hplace ▸ effect_of_advance hstep⟩

theorem ne_of_comes {place : ScanPlace} (hcomes : ∀ i, (messages i).Comes)
    (hplace : ∃ claim, place.outcome = some claim) (i : ℕ) : messages i ≠ place := by
  obtain ⟨claim, hclaim⟩ := hplace
  have hcome := hcomes i
  intro h
  rw [h] at hcome
  cases hcome with
  | text => cases hclaim
  | location => cases hclaim

/-- A message that Cloud has been answered for is answered ever after. -/
theorem not_early_after {k i : ℕ} (hkn : k ≤ n)
    (h : ¬((scanAfter u a cloud messages turns k).requests i).Early) :
    ¬((scanAfter u a cloud messages turns n).requests i).Early := by
  refine after_induction (P := fun c ↦ ¬ScanPlace.Early (c.requests i)) (G := fun _ _ ↦ True) h
    (fun _ _ _ ↦ trivial) (fun c j ch p s hc _ hstep ↦ ?_) (fun _ _ hc ↦ hc) hkn
  show ¬(Function.update c.requests j p i).Early
  rcases eq_or_ne i j with rfl | hij
  · rw [Function.update_self]
    have heffect := effect_of_advance hstep
    generalize c.requests i = place at heffect hc
    cases heffect with
    | quiet hp => exact absurd hp hc
    | hit _ _ hp =>
      rw [hp] at hc
      exact absurd trivial hc
    | checked _ _ hp =>
      rw [hp] at hc
      exact absurd trivial hc
    | refused _ _ hp =>
      rw [hp] at hc
      exact absurd trivial hc
    | stored _ _ _ hp =>
      rw [hp] at hc
      exact absurd trivial hc
    | duplicate _ _ _ hp =>
      rw [hp] at hc
      exact absurd trivial hc
    | marked job used hp hp' =>
      obtain ⟨reply, hp', -⟩ := hp'
      rw [hp']
      exact id
  · rw [Function.update_of_ne hij]
    exact hc

/-- **A message stores at most once.** At its other turns no event is stored, since the turn that
stores is the last before Cloud's answer. -/
theorem events_of_turn {m k i : ℕ} {ch : ScanChoice} (hturn : HasTurn turns k i ch) (hkm : k ≠ m)
    (hm : ((scanAfter u a cloud messages turns m).requests i).Early)
    (hm' : ¬((scanAfter u a cloud messages turns (m + 1)).requests i).Early) :
    (scanAfter u a cloud messages turns (k + 1)).shared.cloud.db.sharedEvents =
      (scanAfter u a cloud messages turns k).shared.cloud.db.sharedEvents := by
  rcases after_request_cases hturn with hpass | hstep
  · rw [scanAfter, hpass, scanAfter]
  have heffect : ScanEffect u a ch ((scanAfter u a cloud messages turns k).requests i)
      ((scanAfter u a cloud messages turns (k + 1)).requests i)
      (scanAfter u a cloud messages turns k).shared
      (scanAfter u a cloud messages turns (k + 1)).shared := effect_of_advance hstep
  have hsame : ∀ {c c' : ScanCloud d}, c' = c → c'.db.sharedEvents = c.db.sharedEvents :=
    fun h ↦ by rw [h]
  generalize hp' : (scanAfter u a cloud messages turns (k + 1)).requests i = p' at heffect
  generalize hp : (scanAfter u a cloud messages turns k).requests i = p at heffect
  cases heffect with
  | quiet _ hcloud => exact hsame hcloud
  | hit _ _ _ _ hcloud => exact hsame hcloud
  | checked _ _ _ _ hcloud => exact hsame hcloud
  | refused _ _ _ _ hcloud => exact hsame hcloud
  | duplicate _ _ _ _ _ hcloud => exact hsame hcloud
  | marked _ _ _ _ hcloud => exact hsame hcloud
  | stored job e db hstoring hmarking =>
    exfalso
    have hearly : ((scanAfter u a cloud messages turns k).requests i).Early := by
      rw [hp, hstoring]
      trivial
    have hlate : ¬((scanAfter u a cloud messages turns (k + 1)).requests i).Early := by
      rw [hp']
      rcases hmarking with hmarking | hmarking <;> rw [hmarking] <;> exact id
    rcases lt_or_gt_of_ne hkm with hlt | hlt
    · exact not_early_after hlt hlate hm
    · exact not_early_after hlt hm' hearly

section Truths

variable {M : Set Bytes} (hu : u.NoSmall) (hinj : Set.InjOn d.refMac M)
  (hcomes : ∀ i, (messages i).Comes) (hM : OrdersAmong u a cloud messages turns M)
  (hfresh : ∀ r ∈ cloud.db.operationDedup, ∀ m ∈ M, r.reference ≠ hexEncode (d.refMac m).bytes)
  (hundisputed : Undisputed u a cloud messages turns)

include hu hinj hcomes hM hfresh hundisputed

/-- **What the memory is about to note is so.** -/
theorem holds_of_marking {i : ℕ} {job : ScanJob} {used : Bool}
    (h : (scanAfter u a cloud messages turns n).requests i = .marking job used) :
    (scanAfter u a cloud messages turns n).shared.cloud.Holds u a job.scan := by
  obtain ⟨m, hm, ch, hturn, -, heffect⟩ := exists_effect_into (ne_of_comes hcomes ⟨_, rfl⟩ i) h
  have hsound : Sound u a M (scanAfter u a cloud messages turns m) :=
    scans_sound_after hcomes hM hfresh
  refine (later_after hm).holds ?_
  generalize hplace : (scanAfter u a cloud messages turns m).requests i = p at heffect
  cases heffect with
  | quiet hp hcloud hstoring hclaims =>
    exact absurd (by cases used <;> trivial) (hclaims job.scan _ rfl)
  | hit phone res hp hp' => cases hp'
  | checked job' e hp hp' => cases hp'
  | refused job' problem hp hp' hcloud hcheck hstatus =>
    obtain ⟨rfl, -⟩ := ScanPlace.marking.inj hp'
    rcases recordEvents_eq_error ch.charged hcheck with hlisted | ⟨-, x, hx, hid, htakes⟩
    · rw [hstatus] at hlisted
      exact absurd hlisted (by decide)
    · exact absurd (hundisputed.takes m i ch job hturn (hplace.trans hp) x hx hid) htakes
  | stored job' e db hp hp' hcloud hstore =>
    have hjob : job' = job := by
      rcases hp' with hp' | hp'
      · exact (ScanPlace.marking.inj hp').1.symm
      · cases hp'
    rw [hcloud, ← hjob]
    exact (hsound.storing i job' e (hplace.trans hp)).holds hstore
  | duplicate job' e problem hp hp' hcloud hstore =>
    obtain ⟨rfl, -⟩ := ScanPlace.marking.inj hp'
    obtain ⟨-, href, hmem⟩ := storeEvent_error hstore
    have hposted := hsound.storing i job e (hplace.trans hp)
    obtain ⟨scan, e', hposted', hrow, hheld⟩ := hsound.counted _ hmem hposted.hashed
    obtain ⟨-, hscope, hreference⟩ := DedupRow.mk.inj hrow
    rw [hcloud]
    exact hposted.holds_of_order hu hinj hposted' (DedupScope.shared.inj hscope) hreference hheld
  | marked job' used' hp hp' hcloud =>
    obtain ⟨reply, hp', -⟩ := hp'
    cases hp'

/-- What the phone is told of a code it has used is so. -/
theorem holds_of_used {i : ℕ} {scan : Scan}
    (h : (scanAfter u a cloud messages turns n).requests i = .told scan .used) :
    (scanAfter u a cloud messages turns n).shared.cloud.Holds u a scan := by
  obtain ⟨m, hm, ch, hturn, -, heffect⟩ := exists_effect_into (ne_of_comes hcomes ⟨_, rfl⟩ i) h
  refine (later_after hm.le).holds ?_
  generalize hplace : (scanAfter u a cloud messages turns m).requests i = p at heffect
  cases heffect with
  | quiet hp hcloud hstoring hclaims => exact absurd trivial (hclaims scan .used rfl)
  | hit phone res hp hp' hcloud hdone =>
    obtain ⟨rfl, -⟩ := ScanPlace.told.inj hp'
    obtain ⟨k, hk, j, job, used, hmarking, hscan⟩ :=
      hundisputed.memory m i ch phone res hturn (hplace.trans hp) hdone
    rw [← hscan]
    exact (later_after hk.le).holds
      (holds_of_marking hu hinj hcomes hM hfresh hundisputed hmarking)
  | checked job e hp hp' => cases hp'
  | refused job problem hp hp' => cases hp'
  | stored job e db hp hp' =>
    rcases hp' with hp' | hp'
    · cases hp'
    · cases hp'
  | duplicate job e problem hp hp' => cases hp'
  | marked job used hp hp' =>
    obtain ⟨reply, hp', -⟩ := hp'
    obtain ⟨rfl, -⟩ := ScanPlace.told.inj hp'
    exact holds_of_marking hu hinj hcomes hM hfresh hundisputed (hplace.trans hp)

omit hu hinj hundisputed in
/-- What the phone is told was registered was recorded, once. -/
theorem recordsOne_of_registered {i : ℕ} {scan : Scan} {name type : Bytes} {value : ℤ}
    (h : (scanAfter u a cloud messages turns n).requests i =
      .told scan (.registered name type value)) :
    RecordsOne u a cloud messages turns n i scan := by
  obtain ⟨k, hk, ch, -, -, heffect⟩ := exists_effect_into (ne_of_comes hcomes ⟨_, rfl⟩ i) h
  -- the message came from where Cloud's answer was noted, and the answer was 201
  obtain ⟨job, hjob, rfl⟩ : ∃ job, (scanAfter u a cloud messages turns k).requests i =
      .marking job false ∧ scan = job.scan := by
    generalize hplace : (scanAfter u a cloud messages turns k).requests i = p at heffect
    cases heffect with
    | quiet hp hcloud hstoring hclaims => exact absurd trivial (hclaims scan _ rfl)
    | hit phone res hp hp' => cases hp'
    | checked job e hp hp' => cases hp'
    | refused job problem hp hp' => cases hp'
    | stored job e db hp hp' =>
      rcases hp' with hp' | hp'
      · cases hp'
      · cases hp'
    | duplicate job e problem hp hp' => cases hp'
    | marked job used hp hp' =>
      obtain ⟨reply, hp', houtcome⟩ := hp'
      obtain ⟨rfl, rfl⟩ := ScanPlace.told.inj hp'
      cases used with
      | false => exact ⟨job, hp, rfl⟩
      | true =>
        rw [hp] at houtcome
        cases houtcome
  obtain ⟨m, hm, ch, hturn, hmarking, heffect⟩ :=
    exists_effect_into (ne_of_comes hcomes ⟨_, rfl⟩ i) hjob
  obtain ⟨e, db, hstoring, hcloud, hstore⟩ : ∃ e db,
      (scanAfter u a cloud messages turns m).requests i = .storing job e ∧
      (scanAfter u a cloud messages turns (m + 1)).shared.cloud =
        { (scanAfter u a cloud messages turns m).shared.cloud with db } ∧
      (scanAfter u a cloud messages turns m).shared.cloud.db.storeEvent a e = .ok db := by
    generalize hplace : (scanAfter u a cloud messages turns m).requests i = p at heffect
    cases heffect with
    | quiet hp hcloud hstoring hclaims => exact absurd trivial (hclaims job.scan _ rfl)
    | hit phone res hp hp' => cases hp'
    | checked job' e hp hp' => cases hp'
    | refused job' problem hp hp' => cases hp'
    | stored job' e db hp hp' hcloud hstore =>
      rcases hp' with hp' | hp'
      · obtain ⟨rfl, -⟩ := ScanPlace.marking.inj hp'
        exact ⟨e, db, hp, hcloud, hstore⟩
      · cases hp'
    | duplicate job' e problem hp hp' => cases hp'
    | marked job' used hp hp' =>
      obtain ⟨reply, hp', -⟩ := hp'
      cases hp'
  have hsound : Sound u a M (scanAfter u a cloud messages turns m) :=
    scans_sound_after hcomes hM hfresh
  refine ⟨m, hm.trans hk, ⟨ch, hturn⟩, ⟨e, (hsound.storing i job e hstoring).ofScan, ?_⟩, ?_⟩
  · rw [hcloud]
    exact (storeEvent_ok hstore).1
  · rintro l - hlm ⟨ch', hturn'⟩
    refine events_of_turn hturn' hlm ?_ ?_
    · rw [hstoring]
      trivial
    · rw [hmarking]
      exact id

end Truths

/-- **What the scanner says is so,** in every run in which its memory answers a scan of a campaign
only for a scan of the same campaign, and Cloud is asked to record scans of campaigns that take
them. -/
theorem scanner_truthful (hu : u.NoSmall) (hcomes : ∀ i, (messages i).Comes) {M : Set Bytes}
    (hinj : Set.InjOn d.refMac M) (hM : OrdersAmong u a cloud messages turns M)
    (hfresh : ∀ r ∈ cloud.db.operationDedup, ∀ m ∈ M, r.reference ≠ hexEncode (d.refMac m).bytes)
    (hundisputed : Undisputed u a cloud messages turns) : Truthful u a cloud messages turns where
  used _ _ _ h := holds_of_used hu hinj hcomes hM hfresh hundisputed h
  registered _ _ _ _ _ _ h := recordsOne_of_registered hcomes hM hfresh h

end Runs

namespace Scans.Sample

open Separation (upper)

def deployment : Deployment where
  cloudNetwork := []
  currentContractID := [67]
  quote x := x
  base64 x := x
  sha256 _ := .zero 32
  refMac _ := .zero 32

def account : AuthCtx := ⟨7, .test⟩

def campaign (id : ℕ) : CampaignDetails where
  id
  account
  chainID := .ofNat id
  contractID := [67]
  validUntil := 100
  archived := false
  kind := ascii "coupon"
  name := ascii "Promo"
  discountType := []
  discountValue := 0

def campaigns : List CampaignDetails := [campaign 1, campaign 2]

def sharedCodes : List SharedCodeRow :=
  [⟨1, 1, ascii "PROMO", none⟩, ⟨2, 2, ascii "PROMO", none⟩]

theorem campaign_key : ∀ c ∈ campaigns, ∀ c' ∈ campaigns, c.id = c'.id → c = c' := by
  simp [campaigns, campaign]

theorem token_account : ∀ r ∈ ([] : List ScanTokenRow), ∀ c ∈ campaigns,
    c.id = r.campaignID → c.account = r.account :=
  fun _ h ↦ absurd h List.not_mem_nil

theorem row_key : ∀ c ∈ campaigns.map (·.toCampaignRow), ∀ c' ∈ campaigns.map (·.toCampaignRow),
    c.id = c'.id → c = c' := by
  simp [campaigns, campaign]

theorem chain_key : ∀ c ∈ campaigns.map (·.toCampaignRow), ∀ c' ∈ campaigns.map (·.toCampaignRow),
    c.contractID = deployment.currentContractID → c'.contractID = deployment.currentContractID →
      c.chainID = c'.chainID → c = c' := by
  simp [campaigns, campaign]

theorem code_key : ∀ c ∈ sharedCodes, ∀ c' ∈ sharedCodes, c.id = c'.id → c = c' := by
  simp [sharedCodes]

theorem code_name_key : ∀ c ∈ sharedCodes, ∀ c' ∈ sharedCodes, c.campaignID = c'.campaignID →
    c.code = c'.code → c = c' := by
  simp [sharedCodes]

/-- Two campaigns with one code. -/
def cloud : ScanCloud deployment where
  tables := ⟨campaigns, sharedCodes.map fun row ↦ ⟨row.campaignID, row.code, none⟩, [], [],
    campaign_key, Typing.Sample.token_key_nil, token_account⟩
  reg := ⟨[], campaigns.map (·.toCampaignRow), sharedCodes, [], row_key, chain_key, code_key,
    code_name_key⟩
  db := .empty
  campaigns_eq := rfl
  shared_eq := rfl

/-- The code of both campaigns, again and again from one phone. -/
def messages (_ : ℕ) : ScanPlace := .text "+5215500000000" "PROMO"

/-- All goes well. -/
def choice : ScanChoice where
  now := 0
  env := ⟨20, some ⟨[71], fun _ ↦ some [1]⟩, some [2], .ok ()⟩
  charged _ h := by cases h
  reached := true
  delivered := true
  stored := true
  redemption := none

/-- `UPDATE campaigns SET archived = 1` of a campaign. -/
def archivedRow (id : ℕ) (x : CampaignRow) : CampaignRow :=
  { x with archived := x.archived || x.id = id }

def archivedDetails (id : ℕ) (x : CampaignDetails) : CampaignDetails :=
  { x with archived := x.archived || x.id = id }

theorem eq_of_map {α β γ : Type} {f : α → β} {k : α → γ} {k' : β → γ} {l : List α}
    (hk : ∀ x, k' (f x) = k x) (h : ∀ x ∈ l, ∀ y ∈ l, k x = k y → x = y) :
    ∀ x ∈ l.map f, ∀ y ∈ l.map f, k' x = k' y → x = y := by
  intro x hx y hy hxy
  obtain ⟨x₀, hx₀, rfl⟩ := List.mem_map.1 hx
  obtain ⟨y₀, hy₀, rfl⟩ := List.mem_map.1 hy
  rw [h x₀ hx₀ y₀ hy₀ ((hk x₀).symm.trans (hxy.trans (hk y₀)))]

def archive (id : ℕ) (c : ScanCloud d) : ScanCloud d where
  tables :=
    { c.tables with
      campaigns := c.tables.campaigns.map (archivedDetails id)
      campaign_key := eq_of_map (fun _ ↦ rfl) c.tables.campaign_key
      token_account := by
        intro r hr x hx hid
        obtain ⟨x₀, hx₀, rfl⟩ := List.mem_map.1 hx
        exact c.tables.token_account r hr x₀ hx₀ hid }
  reg :=
    { c.reg with
      campaigns := c.reg.campaigns.map (archivedRow id)
      campaign_key := eq_of_map (fun _ ↦ rfl) c.reg.campaign_key
      chain_key := by
        intro x hx y hy hcx hcy hxy
        obtain ⟨x₀, hx₀, rfl⟩ := List.mem_map.1 hx
        obtain ⟨y₀, hy₀, rfl⟩ := List.mem_map.1 hy
        rw [c.reg.chain_key x₀ hx₀ y₀ hy₀ hcx hcy hxy] }
  db := c.db
  campaigns_eq := by
    show c.reg.campaigns.map _ = (c.tables.campaigns.map _).map _
    rw [c.campaigns_eq, List.map_map, List.map_map]
    rfl
  shared_eq := c.shared_eq

theorem grows_archive (id : ℕ) (c : ScanCloud d) : c.Grows (archive id c) where
  db := rfl
  code _ h := h
  campaign x hx := ⟨archivedRow id x, List.mem_map_of_mem hx, rfl, rfl, rfl⟩

def scan (i : ℕ) : Turn ScanChoice (ScanEvent deployment) := .request i choice

def archiving (id : ℕ) : Turn ScanChoice (ScanEvent deployment) :=
  .outside (.campaigns ⟨archive id, grows_archive id⟩)

/-- A scan is recorded, and then another is answered from memory. -/
def twice : List (Turn ScanChoice (ScanEvent deployment)) :=
  List.replicate 6 (scan 0) ++ List.replicate 3 (scan 1)

/-- The campaign of a scan is archived just before Cloud checks its event. -/
def late : List (Turn ScanChoice (ScanEvent deployment)) :=
  List.replicate 3 (scan 0) ++ [archiving 2] ++ List.replicate 2 (scan 0)

/-- A scan is recorded, its campaign is archived, and the next scan is of the other campaign. -/
def reused : List (Turn ScanChoice (ScanEvent deployment)) :=
  List.replicate 6 (scan 0) ++ [archiving 2] ++ List.replicate 3 (scan 1)

theorem comes (i : ℕ) : (messages i).Comes := .text _ _

/-- The campaign whose code a phone was told it has used. -/
def toldUsed : ScanPlace → Option ℕ
  | .told scan .used => some scan.campaignID
  | _ => none

theorem eq_of_toldUsed {p : ScanPlace} {campaignID : ℕ} (h : toldUsed p = some campaignID) :
    ∃ scan, p = .told scan .used ∧ scan.campaignID = campaignID := by
  cases p with
  | told scan reply =>
    cases reply with
    | used => exact ⟨scan, rfl, Option.some.inj h⟩
    | _ => cases h
  | _ => cases h

/-- No event is of a shared code of a campaign. -/
def missing (c : ScanCloud d) (campaignID : ℕ) : Bool :=
  c.reg.sharedCodes.all fun row ↦
    row.campaignID ≠ campaignID ∨ c.db.sharedEvents.rows.all (·.sharedCodeID ≠ row.id) = true

theorem not_holds_of_missing {c : ScanCloud d} {scan : Scan}
    (h : missing c scan.campaignID = true) : ¬c.Holds u a scan := by
  rintro ⟨row, x, hof, e, he, hid, -⟩
  rcases of_decide_eq_true (List.all_eq_true.1 h row hof.row_mem) with hne | hall
  · exact hne hof.campaignID
  · exact of_decide_eq_true (List.all_eq_true.1 hall e he) hid

theorem not_truthful {turns : List (Turn ScanChoice (ScanEvent deployment))} (n i campaignID : ℕ)
    (htold : toldUsed ((scanAfter upper account cloud messages turns n).requests i) =
      some campaignID)
    (hmissing : missing (scanAfter upper account cloud messages turns n).shared.cloud campaignID =
      true) : ¬Truthful upper account cloud messages turns := by
  intro h
  obtain ⟨scan, hscan, rfl⟩ := eq_of_toldUsed htold
  exact not_holds_of_missing hmissing (h.used n i scan hscan)

/-- The scan of the run that is recorded. -/
def first : Scan := ⟨"+5215500000000", 2, "PROMO"⟩

/-- A turn of `twice` does not reach what is disputed. -/
def fits (n : ℕ) : Turn ScanChoice (ScanEvent deployment) → Bool
  | .request i ch =>
    match (scanAfter upper account cloud messages twice n).requests i with
    | .posting job => job.scan = first ∧
        ((scanAfter upper account cloud messages twice n).shared.cloud.reg.campaigns.all fun x ↦
          x.id ≠ 2 ∨ x.chainID = 2 ∧ x.contractID = [67] ∧ x.archived = false ∧
            ch.env.now ≤ x.validUntil) = true
    | .checking phone res =>
      (scanAfter upper account cloud messages twice n).shared.alreadyDone phone (textOf res.code)
        = false ∨ 5 < n ∧ first = ⟨phone, res.campaignID, textOf res.code⟩
    | _ => true
  | .outside _ => true

theorem fits_twice {n i : ℕ} {ch : ScanChoice} (h : HasTurn twice n i ch) :
    fits n (.request i ch) = true := by
  have hall : ∀ n < 9, (twice[n]?.all (fits n)) = true := by decide +kernel
  have hn : n < 9 := by
    by_contra hn
    have hnone : twice[n]? = none := List.getElem?_eq_none (not_lt.1 hn)
    exact absurd (hnone.symm.trans h).symm (Option.some_ne_none _)
  have hfits := hall n hn
  have hturn : twice[n]? = some (.request i ch) := h
  rw [hturn] at hfits
  exact hfits

theorem fits_posting {n i : ℕ} {ch : ScanChoice} {job : ScanJob} (hturn : HasTurn twice n i ch)
    (hp : (scanAfter upper account cloud messages twice n).requests i = .posting job)
    {x : CampaignRow}
    (hx : x ∈ (scanAfter upper account cloud messages twice n).shared.cloud.reg.campaigns)
    (hid : x.id = job.scan.campaignID) :
    job.scan = first ∧ x.chainID = 2 ∧ x.Takes deployment ch.env.now := by
  have hfits := fits_twice hturn
  rw [fits, hp] at hfits
  obtain ⟨hfirst, hall⟩ := of_decide_eq_true hfits
  rw [hfirst] at hid
  rcases of_decide_eq_true (List.all_eq_true.1 hall x hx) with
    hne | ⟨hchain, hcontract, hlive, hnow⟩
  · exact absurd hid hne
  · exact ⟨hfirst, hchain, hcontract, hlive, hnow⟩

theorem ordersAmong_twice :
    OrdersAmong upper account cloud messages twice {(first.order upper account 2).material} := by
  intro n i ch job hturn hp x hx hid
  obtain ⟨hfirst, hchain, -⟩ := fits_posting hturn hp hx hid
  rw [hfirst, hchain]
  rfl

/-- The memory was written at turn 5. -/
theorem exists_marking : ∃ job used, (scanAfter upper account cloud messages twice 5).requests 0 =
    .marking job used ∧ job.scan = first := by
  have hmarking : (match (scanAfter upper account cloud messages twice 5).requests 0 with
    | .marking job _ => decide (job.scan = first)
    | _ => false) = true := by decide +kernel
  split at hmarking
  case h_1 job used hp => exact ⟨job, used, hp, of_decide_eq_true hmarking⟩
  case h_2 => cases hmarking

theorem undisputed_twice : Undisputed upper account cloud messages twice where
  memory n i ch phone res hturn hp hdone := by
    have hfits := fits_twice hturn
    rw [fits, hp] at hfits
    rcases of_decide_eq_true hfits with hnew | ⟨hn, hfirst⟩
    · exact absurd (hdone.symm.trans hnew) (by decide)
    · obtain ⟨job, used, hmarking, hjob⟩ := exists_marking
      exact ⟨5, hn, 0, job, used, hmarking, hjob.trans hfirst⟩
  takes _ _ _ _ hturn hp _ hx hid := (fits_posting hturn hp hx hid).2.2

end Scans.Sample

theorem scanner_truthful_twice :
    Truthful Separation.upper Scans.Sample.account Scans.Sample.cloud Scans.Sample.messages
      Scans.Sample.twice :=
  scanner_truthful Separation.noSmall_upper Scans.Sample.comes (Set.injOn_singleton _ _)
    Scans.Sample.ordersAmong_twice (fun _ hr ↦ absurd hr List.not_mem_nil)
    Scans.Sample.undisputed_twice

/-- The scanner says that a code is used of which Cloud holds no event: the campaign was archived in
the meantime, or the memory is of another campaign with the same code. -/
theorem scanner_untruthful :
    (∀ i, (Scans.Sample.messages i).Comes) ∧ Scans.Sample.cloud.db = .empty ∧
      ¬Truthful Separation.upper Scans.Sample.account Scans.Sample.cloud Scans.Sample.messages
        Scans.Sample.late ∧
      ¬Truthful Separation.upper Scans.Sample.account Scans.Sample.cloud Scans.Sample.messages
        Scans.Sample.reused :=
  ⟨Scans.Sample.comes, rfl,
    Scans.Sample.not_truthful 6 0 2 (by decide +kernel) (by decide +kernel),
    Scans.Sample.not_truthful 10 1 1 (by decide +kernel) (by decide +kernel)⟩

end Soroticket
