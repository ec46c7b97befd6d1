import Soroticket.Cloud.Rewards

/-!
# The vouchers of loyalty customers

The vouchers issued on the ledger to a customer are those in the table of rewards, and those a
request is about to enter (`Matched`), where every confirmed issuance is followed by its
transaction (`Confirmed`). With the law of the cards, `rewards_follow_punches`: they are one for
every `threshold` punches, however the punches were made.
-/

namespace Soroticket

open Interleaving Interleaving.Service

variable {d : Deployment} {reg : Registry d}

/-! ### Vouchers on the ledger -/

/-- The vouchers a request issues on the ledger, if its call lands. -/
def Choice.issue (ch : Choice) (q : PunchJob reg) (plan : PunchPlan) (signer : Address)
    (w : World) : Option (List Bytes) :=
  ((List.range plan.newRewards).mapM ch.genCode).bind fun codes ↦
    (ch.submit (issueTx reg q signer codes ch.ledger) w).map fun _ ↦ codes

/-- The number of vouchers a turn issues on the ledger to a customer of a program. -/
def issuedTo (program : ProgramRow) (ref : Bytes) (c : Config World (Place reg)) :
    Turn Choice Tx → ℕ
  | .request i ch =>
    match c.requests i with
    | .punchIssue q plan signer =>
      if q.program = program ∧ q.ref = ref then
        (ch.issue q plan signer c.shared).elim 0 List.length
      else 0
    | _ => 0
  | .outside _ => 0

/-- The number of vouchers issued on the ledger to a customer of a program, in the first turns. -/
def vouchers (program : ProgramRow) (ref : Bytes) (init : Config World (Place reg))
    (turns : List (Turn Choice Tx)) : ℕ → ℕ
  | 0 => 0
  | n + 1 => vouchers program ref init turns n +
      turns[n]?.elim 0 (issuedTo program ref ((service reg).after init turns n))

/-- A turn after which a confirmed issuance is followed by a successful local commit: the ids of
issued tokens can be decoded, and the transaction of a punch with rewards commits. -/
def Confirmed (c : Config World (Place reg)) : Turn Choice Tx → Prop
  | .request i ch =>
    match c.requests i with
    | .punchIssue .. => ch.decoded = true
    | .punchStore q plan issued rewarding => rewarding = true →
      ∃ db, ch.store (c.shared.db.storePunch q plan.receipt issued)
        "could not commit loyalty punch" = .ok db
    | _ => True
  | .outside _ => True

/-- A request whose plan may be about to be stored. -/
def Place.planning : Place reg → Bool
  | punchRewards .. | punchIssue .. => true
  | _ => false

/-- The vouchers of a customer that are issued, and not entered. -/
def Place.unentered (program : ProgramRow) (ref : Bytes) : Place reg → Option (List Bytes)
  | punchStore q _ issued _ => if q.program = program ∧ q.ref = ref then some issued else none
  | _ => none

/-- What a step does to the vouchers of a customer: nothing, or it issues some, or it enters those
it issued. -/
inductive Vouches (program : ProgramRow) (ref : Bytes) (issued : ℕ) (p p' : Place reg)
    (db db' : Database) : Prop
  | nothing (hp : p.unentered program ref = none) (hp' : p'.unentered program ref = none)
      (hissued : issued = 0)
      (hcount : db'.rewardCount program.id ref = db.rewardCount program.id ref)
  | issues (codes : List Bytes) (q : PunchJob reg) (hjob : p.job = some q)
      (hprogram : q.program = program) (hlock : .loyalty q.account q.program.id ∈ p.locks)
      (hp : p.unentered program ref = none) (hp' : p'.unentered program ref = some codes)
      (hissued : issued = codes.length)
      (hcount : db'.rewardCount program.id ref = db.rewardCount program.id ref)
  | enters (codes : List Bytes) (hp : p.unentered program ref = some codes)
      (hp' : p'.unentered program ref = none) (hissued : issued = 0)
      (hcount : db'.rewardCount program.id ref = db.rewardCount program.id ref + codes.length)

/-- A transaction is to come after the plan of a punch without rewards, or an issuance. -/
theorem unentered_of_advance {ch : Choice} {p p' : Place reg} {w w' : World}
    (h : advance reg ch p w = some (p', w')) (hp : p.planning = false) (program : ProgramRow)
    (ref : Bytes) : p'.unentered program ref = none := by
  cases hp' : p' with
  | punchStore q plan issued rewarding =>
    cases advance_carries h with
    | event _ _ _ _ _ _ hevent => exact absurd (hp'.symm.trans hevent) nofun
    | punch _ _ _ _ _ hlock => exact absurd (hp'.symm.trans hlock) nofun
    | same hc =>
      rcases hc.store q plan issued rewarding hp' with ⟨before, rfl, -⟩ | ⟨signer, rfl, -⟩
      · exact absurd hp Bool.false_ne_true.symm
      · exact absurd hp Bool.false_ne_true.symm
  | _ => rfl

namespace InOrder

variable {program : ProgramRow} {init c : Config World (Place reg)} {i : ℕ} {ch : Choice}
  {p' : Place reg} {w : World}

/-- The transaction of a punch adds the rewards it issued, if it does not fail. -/
theorem rewardCount_punchStore (hc : InOrder program init c) (hkey : ProgramKey reg)
    (hmem : program ∈ reg.programs) (hconfirmed : Confirmed c (.request i ch)) {q : PunchJob reg}
    {plan : PunchPlan} {issued : List Bytes} {rewarding : Bool}
    (hp : c.requests i = .punchStore q plan issued rewarding)
    (h : advance reg ch (c.requests i) c.shared = some (p', w)) (ref : Bytes) :
    w.db.rewardCount program.id ref = c.shared.db.rewardCount program.id ref +
      if q.program = program ∧ q.ref = ref then issued.length else 0 := by
  have hjob : (c.requests i).job = some q := by rw [hp]; rfl
  obtain ⟨body, -, hchecked⟩ := hc.checked hjob
  have hplanned := hc.planned i q hjob
  rw [hp] at h hplanned
  refine onward_elim (P := fun _ w ↦ w.db.rewardCount program.id ref =
    c.shared.db.rewardCount program.id ref +
      if q.program = program ∧ q.ref = ref then issued.length else 0) h (fun db hdb ↦ ?_)
    fun problem hproblem ↦ ?_
  · have hstore := Choice.store_eq_ok hdb
    by_cases hprogram : q.program = program
    · subst hprogram
      simpa only [true_and] using Database.rewardCount_storePunch hstore ref
    · rw [if_neg fun h ↦ hprogram h.1, Nat.add_zero]
      have hid : q.program.id ≠ program.id := fun hid ↦ hprogram (hkey _ hchecked.mem _ hmem hid)
      exact (Database.sameCards_storePunch hstore hid).rewardCount ref
  · split
    case isTrue hmine =>
      -- a failed transaction had nothing to enter
      have hrewarding : rewarding = false := by
        rw [Bool.eq_false_iff]
        intro hrewarding
        have hcommits : ∃ db, ch.store (c.shared.db.storePunch q plan.receipt issued)
            "could not commit loyalty punch" = .ok db := by
          simp only [Confirmed, hp] at hconfirmed
          exact hconfirmed hrewarding
        obtain ⟨db, hdb⟩ := hcommits
        exact absurd (hdb.symm.trans hproblem) nofun
      rw [(hplanned hmine.1).2 hrewarding]
      rfl
    case isFalse => rfl

/-- **What a step does to the vouchers of a customer.** -/
theorem vouches (hc : InOrder program init c) (hkey : ProgramKey reg)
    (hmem : program ∈ reg.programs) (hconfirmed : Confirmed c (.request i ch))
    (h : advance reg ch (c.requests i) c.shared = some (p', w)) (ref : Bytes) :
    Vouches program ref (issuedTo program ref c (.request i ch)) (c.requests i) p' c.shared.db
      w.db := by
  cases hp : c.requests i with
  | punchStore q plan issued rewarding =>
    have hissued : issuedTo program ref c (.request i ch) = 0 := by simp only [issuedTo, hp]
    have hcount := hc.rewardCount_punchStore hkey hmem hconfirmed hp h ref
    rw [hp] at h
    have hp' := unentered_of_advance h rfl program ref
    by_cases hmine : q.program = program ∧ q.ref = ref
    · rw [if_pos hmine] at hcount
      exact .enters issued (if_pos hmine) hp' hissued hcount
    · rw [if_neg hmine] at hcount
      exact .nothing (if_neg hmine) hp' hissued hcount
  | punchIssue q plan signer =>
    have hdecoded : ch.decoded = true := by simpa only [Confirmed, hp] using hconfirmed
    have hissued : issuedTo program ref c (.request i ch) =
        if q.program = program ∧ q.ref = ref then
          (ch.issue q plan signer c.shared).elim 0 List.length else 0 := by
      simp only [issuedTo, hp]
    rw [hp] at h
    simp only [advance] at h
    rw [Choice.issue] at hissued
    split at h
    case h_1 hcodes =>
      rw [hcodes] at hissued
      refine some_elim (P := fun p' w ↦ Vouches program ref _ _ p' c.shared.db w.db) h ?_
      exact .nothing rfl rfl (hissued.trans (ite_self 0)) rfl
    case h_2 codes hcodes =>
      rw [hcodes] at hissued
      split at h
      case h_1 hsubmit =>
        rw [Option.bind_some, hsubmit] at hissued
        refine some_elim (P := fun p' w ↦ Vouches program ref _ _ p' c.shared.db w.db) h ?_
        exact .nothing rfl rfl (hissued.trans (ite_self 0)) rfl
      case h_2 chain hsubmit =>
        rw [Option.bind_some, hsubmit] at hissued
        rw [if_pos hdecoded] at h
        refine some_elim (P := fun p' w ↦ Vouches program ref _ _ p' c.shared.db w.db) h ?_
        by_cases hmine : q.program = program ∧ q.ref = ref
        · rw [if_pos hmine] at hissued
          exact .issues codes q rfl hmine.1 (List.mem_cons_of_mem _ List.mem_cons_self) rfl
            (if_pos hmine) hissued rfl
        · rw [if_neg hmine] at hissued
          exact .nothing rfl (if_neg hmine) hissued rfl
  | punchRewards q before =>
    have hissued : issuedTo program ref c (.request i ch) = 0 := by simp only [issuedTo, hp]
    rw [hp] at h
    refine onward_elim (P := fun p' w ↦ Vouches program ref _ _ p' c.shared.db w.db) h
      (fun plan _ ↦ ?_) (fun _ _ ↦ .nothing rfl rfl hissued rfl)
    dsimp only
    split
    · by_cases hmine : q.program = program ∧ q.ref = ref
      · exact .issues [] q rfl hmine.1 List.mem_cons_self rfl (if_pos hmine) hissued rfl
      · exact .nothing rfl (if_neg hmine) hissued rfl
    · exact .nothing rfl rfl hissued rfl
  | _ =>
    have hissued : issuedTo program ref c (.request i ch) = 0 := by simp only [issuedTo, hp]
    have hcount := (hc.sameCards_request h (by rw [hp]; rfl)).rewardCount ref
    rw [hp] at h
    exact .nothing rfl (unentered_of_advance h rfl program ref) hissued hcount

/-- Only one request holds the lock of the program. -/
theorem eq_of_lock (hc : InOrder program init c) (hlocks : LocksHeld c) {j : ℕ}
    {q q' : PunchJob reg} (hq : (c.requests i).job = some q) (hq' : (c.requests j).job = some q')
    (hprogram : q.program = program) (hprogram' : q'.program = program)
    (hlock : .loyalty q.account q.program.id ∈ (c.requests i).locks)
    (hlock' : .loyalty q'.account q'.program.id ∈ (c.requests j).locks) : i = j := by
  obtain ⟨body, -, hchecked⟩ := hc.checked hq
  obtain ⟨body', -, hchecked'⟩ := hc.checked hq'
  rw [← hchecked.programAccount, hprogram] at hlock
  rw [← hchecked'.programAccount, hprogram'] at hlock'
  exact (hlocks _).2 i j hlock hlock'

end InOrder

/-- The vouchers of a customer on the ledger are those in the table, and those about to be entered
by a request. -/
structure Matched (program : ProgramRow) (ref : Bytes) (count : ℕ)
    (c : Config World (Place reg)) : Prop where
  unentered : ∀ i codes, (c.requests i).unentered program ref = some codes →
    count = c.shared.db.rewardCount program.id ref + codes.length
  entered : (∀ i, (c.requests i).unentered program ref = none) →
    count = c.shared.db.rewardCount program.id ref

theorem lock_of_unentered {p : Place reg} {program : ProgramRow} {ref : Bytes}
    {codes : List Bytes} (h : p.unentered program ref = some codes) :
    ∃ q, p.job = some q ∧ q.program = program ∧
      .loyalty q.account q.program.id ∈ p.locks := by
  cases p with
  | punchStore q plan issued rewarding =>
    rw [Place.unentered] at h
    split at h
    case isTrue hmine =>
      refine ⟨q, rfl, hmine.1, ?_⟩
      cases rewarding with
      | true => exact List.mem_cons_of_mem _ List.mem_cons_self
      | false => exact List.mem_cons_self
    case isFalse => exact absurd h nofun
  | _ => exact absurd h nofun

/-- **The vouchers stay matched.** -/
theorem Matched.request {program : ProgramRow} {ref : Bytes} {count : ℕ}
    {init c : Config World (Place reg)} {i : ℕ} {ch : Choice} {p' : Place reg} {w : World}
    (hm : Matched program ref count c) (hc : InOrder program init c) (hkey : ProgramKey reg)
    (hmem : program ∈ reg.programs) (hlocks : LocksHeld c)
    (hconfirmed : Confirmed c (.request i ch))
    (h : advance reg ch (c.requests i) c.shared = some (p', w)) :
    Matched program ref (count + issuedTo program ref c (.request i ch))
      ⟨w, Function.update c.requests i p'⟩ := by
  -- while request `i` holds the lock, nobody else has vouchers to enter
  have hothers : ∀ q, (c.requests i).job = some q → q.program = program →
      .loyalty q.account q.program.id ∈ (c.requests i).locks → ∀ j, j ≠ i →
        (c.requests j).unentered program ref = none := by
    intro q hq hprogram hlock j hj
    rw [Option.eq_none_iff_forall_ne_some]
    intro codes hcodes
    obtain ⟨q', hq', hprogram', hlock'⟩ := lock_of_unentered hcodes
    exact hj (hc.eq_of_lock hlocks hq' hq hprogram' hprogram hlock' hlock)
  cases hc.vouches hkey hmem hconfirmed h ref with
  | nothing hp hp' hissued hcount =>
    have hsame : ∀ j, (Function.update c.requests i p' j).unentered program ref =
        (c.requests j).unentered program ref := by
      intro j
      rcases eq_or_ne j i with rfl | hj
      · rw [Function.update_self, hp, hp']
      · rw [Function.update_of_ne hj]
    refine ⟨fun j codes hj ↦ ?_, fun hnone ↦ ?_⟩
    · rw [hissued, hcount]
      exact hm.unentered j codes ((hsame j).symm.trans hj)
    · rw [hissued, hcount]
      exact hm.entered fun j ↦ (hsame j).symm.trans (hnone j)
  | issues codes q hjob hprogram hlock hp hp' hissued hcount =>
    have hnone := hothers q hjob hprogram hlock
    have hbefore : count = c.shared.db.rewardCount program.id ref := by
      refine hm.entered fun j ↦ ?_
      rcases eq_or_ne j i with rfl | hj
      · exact hp
      · exact hnone j hj
    refine ⟨fun j codes' hj' ↦ ?_, fun hall ↦ ?_⟩
    · dsimp only at hj' ⊢
      rcases eq_or_ne j i with rfl | hj
      · rw [Function.update_self, hp'] at hj'
        obtain rfl := Option.some.inj hj'
        rw [hissued, hcount, hbefore]
      · rw [Function.update_of_ne hj, hnone j hj] at hj'
        exact absurd hj' nofun
    · have hi := hall i
      dsimp only at hi
      rw [Function.update_self, hp'] at hi
      exact absurd hi nofun
  | enters codes hp hp' hissued hcount =>
    obtain ⟨q, hjob, hprogram, hlock⟩ := lock_of_unentered hp
    have hnone := hothers q hjob hprogram hlock
    refine ⟨fun j codes' hj' ↦ ?_, fun _ ↦ ?_⟩
    · dsimp only at hj'
      rcases eq_or_ne j i with rfl | hj
      · rw [Function.update_self, hp'] at hj'
        exact absurd hj' nofun
      · rw [Function.update_of_ne hj, hnone j hj] at hj'
        exact absurd hj' nofun
    · rw [hissued, hcount]
      exact hm.unentered i codes hp

/-- A turn that passes issues nothing. -/
theorem issuedTo_of_wait {program : ProgramRow} {ref : Bytes} {c : Config World (Place reg)} {i : ℕ}
    {ch : Choice} (h : advance reg ch (c.requests i) c.shared = none) :
    issuedTo program ref c (.request i ch) = 0 := by
  cases hp : c.requests i with
  | punchIssue q plan signer =>
    rw [hp] at h
    simp only [advance] at h
    split at h
    · exact absurd h (Option.some_ne_none _)
    · split at h <;> exact absurd h (Option.some_ne_none _)
  | _ => simp only [issuedTo, hp]

/-! ### Runs -/

/-- The answer to a punch that would owe too many rewards. -/
def tooManyRewards : Problem :=
  ⟨400, "this punch would issue more than 100 rewards; split it into smaller requests"⟩

/-- Where no transaction fails for reasons of the database, and no event was counted before, every
issuance is entered. -/
theorem confirmed_of_choice {c : Config World (Place reg)} {i : ℕ} {ch : Choice}
    (hdecoded : ch.decoded = true) (hstored : ch.stored = true)
    (hevent : ∀ q, (c.requests i).job = some q → q.eventRef = []) :
    Confirmed c (.request i ch) := by
  cases hp : c.requests i with
  | punchIssue q plan signer => simpa only [Confirmed, hp] using hdecoded
  | punchStore q plan issued rewarding =>
    simp only [Confirmed, hp]
    intro _
    rw [Database.storePunch, Database.reserveReference, if_pos (hevent q (by rw [hp]; rfl)),
      Choice.store, hstored]
    exact ⟨_, rfl⟩
  | _ => simp only [Confirmed, hp]

section Turns

variable {program : ProgramRow} {init : Config World (Place reg)} {turns : List (Turn Choice Tx)}
  {n : ℕ}

/-- **The vouchers on the ledger follow the table,** where every issuance is entered. -/
theorem matched_after (hkey : ProgramKey reg) (hmem : program ∈ reg.programs)
    (harriving : ∀ i, (init.requests i).Arriving)
    (hhistory : NoHistory program.id init.shared.db)
    (hconfirmed : ∀ n t, turns[n]? = some t → Confirmed ((service reg).after init turns n) t)
    (ref : Bytes) (n : ℕ) :
    Matched program ref (vouchers program ref init turns n) ((service reg).after init turns n) := by
  induction n with
  | zero =>
    refine ⟨fun i codes hi ↦ ?_, fun _ ↦ (hhistory.rewardCount ref).symm⟩
    obtain ⟨q, hq, -⟩ := lock_of_unentered hi
    have harrived : (init.requests i).job = none := (harriving i).job
    exact absurd (harrived.symm.trans hq) nofun
  | succ n ih =>
    rw [vouchers]
    cases ht : turns[n]? with
    | none =>
      rw [after_succ_of_none ht]
      exact ih
    | some t =>
      rw [after_succ_of_some ht, Option.elim_some]
      have hc := inOrder_after hkey hmem harriving hhistory turns n
      have hlocks := locksHeld_after harriving turns n
      have hturn := hconfirmed n t ht
      generalize (service reg).after init turns n = c at ih hc hlocks hturn
      cases t with
      | outside tx =>
        have hdb : ((service reg).outside tx c.shared).db = c.shared.db :=
          db_outside reg tx c.shared
        refine ⟨fun i codes hi ↦ ?_, fun hnone ↦ ?_⟩
        · show _ = ((service reg).outside tx c.shared).db.rewardCount program.id ref + _
          rw [hdb]
          exact ih.unentered i codes hi
        · show _ = ((service reg).outside tx c.shared).db.rewardCount program.id ref
          rw [hdb]
          exact ih.entered hnone
      | request i ch =>
        cases hstep : (service reg).advance ch (c.requests i) c.shared with
        | none =>
          rw [Service.turn, hstep, issuedTo_of_wait hstep]
          exact ih
        | some r =>
          rw [turn_of_advance hstep]
          exact ih.request hc hkey hmem hlocks hturn hstep

theorem done_after {i : ℕ} {k : ℕ} (h : (((service reg).after init turns k).requests i).done = true)
    (hkn : k ≤ n) : (((service reg).after init turns n).requests i).done = true := by
  refine after_induction (S := service reg) (P := fun c ↦ (c.requests i).done = true)
    (G := fun _ _ ↦ True) h (fun _ _ _ ↦ trivial) ?_ (fun _ _ h ↦ h) hkn
  intro c j ch p w hc _ hstep
  dsimp only
  rcases eq_or_ne i j with rfl | hij
  · rw [Function.update_self]
    cases advance_writes hstep with
    | nothing hdone => exact hdone.trans hc
    | migrates q hp =>
      rw [hp] at hc
      exact absurd hc Bool.false_ne_true
    | records a e hp =>
      rw [hp] at hc
      exact absurd hc Bool.false_ne_true
    | punches q plan issued rewarding hp =>
      rw [hp] at hc
      exact absurd hc Bool.false_ne_true
  · rwa [Function.update_of_ne hij]

/-- A punch that is not counted changes no punches and no rewards. -/
theorem tables_of_refused (hc : InOrder program init ((service reg).after init turns n)) {i : ℕ}
    {a : AuthCtx} {body : PunchBody} (harrival : init.requests i = .punch a program.id body)
    {m : ℕ} (hm : n < m) (hrefused : (((service reg).after init turns m).requests i).done = false)
    (hmoved : ((service reg).after init turns (n + 1)).requests i ≠
      ((service reg).after init turns n).requests i) :
    ((service reg).after init turns (n + 1)).shared.db.punches =
        ((service reg).after init turns n).shared.db.punches ∧
      ((service reg).after init turns (n + 1)).shared.db.rewards =
        ((service reg).after init turns n).shared.db.rewards := by
  obtain ⟨ch, hstep⟩ := advance_of_ne (S := service reg) rfl rfl hmoved.symm
  cases advance_writes hstep with
  | nothing _ hdb => exact ⟨hdb.punches, hdb.rewards⟩
  | migrates q hp _ hdb =>
    have hjob : (((service reg).after init turns n).requests i).job = some q := by rw [hp]; rfl
    obtain ⟨body', harrival', -⟩ := hc.checked hjob
    obtain ⟨-, hid, -⟩ := Place.punch.inj (harrival.symm.trans harrival')
    rw [hdb, ← hid]
    exact tables_migrateCustomer hc.named (hc.length_legacyRef_ne hjob)
  | records a' e hp =>
    obtain ⟨_, _, _, _, harrival', -⟩ := (hc.leads i).event a' e hp
    exact absurd (harrival.symm.trans harrival') nofun
  | punches q plan issued rewarding _ hp' =>
    have hdone : (((service reg).after init turns (n + 1)).requests i).done = true := by
      rw [hp', done_afterPunch]
      rfl
    exact absurd (hrefused.symm.trans (done_after hdone hm)) Bool.false_ne_true

/-- **Rewards follow punches.** After every turn, a customer has one reward for every `threshold`
punches, and as many vouchers on the ledger unless some are just being entered. So the rewards are
those of any other way to get as many punches; and a punch that would owe too many rewards changes
neither punches nor rewards at any of its turns. -/
theorem rewards_follow_punches (hkey : ProgramKey reg) (hmem : program ∈ reg.programs)
    (harriving : ∀ i, (init.requests i).Arriving)
    (hhistory : NoHistory program.id init.shared.db)
    (hconfirmed : ∀ n t, turns[n]? = some t → Confirmed ((service reg).after init turns n) t)
    (n : ℕ) :
    (∀ ref, (((service reg).after init turns n).shared.db.rewardCount program.id ref : ℤ) =
      ((service reg).after init turns n).shared.db.punchTotal program.id ref /
        program.threshold.toInt) ∧
    (∀ ref, (∀ i, (((service reg).after init turns n).requests i).unentered program ref = none) →
      (vouchers program ref init turns n : ℤ) =
        ((service reg).after init turns n).shared.db.punchTotal program.id ref /
          program.threshold.toInt) ∧
    (∀ init' : Config World (Place reg), (∀ i, (init'.requests i).Arriving) →
      NoHistory program.id init'.shared.db → ∀ turns' n' ref ref',
        ((service reg).after init' turns' n').shared.db.punchTotal program.id ref' =
          ((service reg).after init turns n).shared.db.punchTotal program.id ref →
        ((service reg).after init' turns' n').shared.db.rewardCount program.id ref' =
          ((service reg).after init turns n).shared.db.rewardCount program.id ref) ∧
    ∀ i a body m, init.requests i = .punch a program.id body → n < m →
      ((service reg).after init turns m).requests i = .answered (.problem tooManyRewards) →
      ((service reg).after init turns (n + 1)).requests i ≠
        ((service reg).after init turns n).requests i →
      ((service reg).after init turns (n + 1)).shared.db.punches =
          ((service reg).after init turns n).shared.db.punches ∧
        ((service reg).after init turns (n + 1)).shared.db.rewards =
          ((service reg).after init turns n).shared.db.rewards := by
  have hc := inOrder_after hkey hmem harriving hhistory turns n
  refine ⟨hc.law, fun ref hnone ↦ ?_, fun init' harriving' hhistory' turns' n' ref ref' htotal ↦ ?_,
    fun i a body m harrival hm hrefused hmoved ↦ ?_⟩
  · rw [(matched_after hkey hmem harriving hhistory hconfirmed ref n).entered hnone]
    exact hc.law ref
  · have hc' := inOrder_after hkey hmem harriving' hhistory' turns' n'
    have hlaw := hc'.law ref'
    rw [htotal, ← hc.law ref] at hlaw
    exact Int.ofNat_inj.1 hlaw
  · refine tables_of_refused hc harrival hm ?_ hmoved
    rw [hrefused]
    rfl

end Turns

namespace Loyalty.Sample

/-- A deployment whose texts are their own encodings. -/
def deployment : Deployment where
  cloudNetwork := []
  currentContractID := [67]
  quote x := x
  base64 x := x
  sha256 _ := .zero 32
  refMac b := .pad 32 b

def account : AuthCtx := ⟨1, .test⟩

/-- A reward for every two punches. -/
def program : ProgramRow := ⟨1, account, 2, 1, [69]⟩

def registry : Registry deployment where
  accounts := [⟨account, Soroticket.Sample.owner, true⟩]
  campaigns := [⟨1, account, 1, [67], 100, false⟩]
  sharedCodes := [⟨1, 1, [69], none⟩]
  programs := [program]
  campaign_key := by simp
  chain_key := by simp
  code_key := by simp
  code_name_key := by simp

/-- A customer punches three times in one request, and once in another. -/
def start : Config World (Place registry) where
  shared :=
    { db := .empty
      chain := runFrom 0 (Soroticket.Sample.history.take 1)
      locks := fun _ ↦ false }
  requests i := .punch account 1 ⟨"alice", "", if i = 0 then some 3 else some 1⟩

/-- The customer, as the tables name it. -/
def alice : Bytes :=
  opaqueReference deployment (account.domain ++ ascii "|loyalty:1|customer") (utf8 "alice")

/-- All goes well for a request. -/
def choice (i : UInt8) : Choice where
  env := ⟨20, some ⟨[71], fun _ ↦ some [1]⟩, some [2], .ok ()⟩
  stored := true
  read := 0
  ledger := Soroticket.Sample.envAt 20 Soroticket.Sample.owner
  lands := true
  genCode j := some [82, 48 + i, 48 + j.toUInt8]
  decoded := true
  txHash := []

def turns : List (Turn Choice Tx) :=
  List.replicate 11 (.request 0 (choice 0)) ++ List.replicate 11 (.request 1 (choice 1))

theorem programKey : ProgramKey registry := by
  intro p hp p' hp' _
  rw [List.mem_singleton.1 hp, List.mem_singleton.1 hp']

theorem noHistory : NoHistory program.id start.shared.db := ⟨nofun, nofun⟩

theorem arriving (i : ℕ) : (start.requests i).Arriving := trivial

/-- The requests name no events, so no transaction of theirs finds one counted. -/
theorem confirmed (n : ℕ) (t : Turn Choice Tx) (ht : turns[n]? = some t) :
    Confirmed ((service registry).after start turns n) t := by
  have hc := inOrder_after programKey List.mem_cons_self arriving noHistory turns n
  have hevent : ∀ i q, (((service registry).after start turns n).requests i).job = some q →
      q.eventRef = [] := by
    intro i q hq
    obtain ⟨body, harrival, hchecked⟩ := hc.checked hq
    obtain ⟨-, -, rfl⟩ := Place.punch.inj harrival
    rw [hchecked.eventRef]
    rfl
  rcases List.mem_append.1 (List.mem_of_getElem? ht) with h | h <;>
    rw [List.eq_of_mem_replicate h] <;> exact confirmed_of_choice rfl rfl (hevent _)

end Loyalty.Sample

theorem rewards_follow_punches_alice :
    (((service Loyalty.Sample.registry).after Loyalty.Sample.start Loyalty.Sample.turns
      22).shared.db.rewardCount 1 Loyalty.Sample.alice : ℤ) =
    ((service Loyalty.Sample.registry).after Loyalty.Sample.start Loyalty.Sample.turns
      22).shared.db.punchTotal 1 Loyalty.Sample.alice / (2 : Int64).toInt :=
  (rewards_follow_punches Loyalty.Sample.programKey List.mem_cons_self Loyalty.Sample.arriving
    Loyalty.Sample.noHistory Loyalty.Sample.confirmed 22).1 Loyalty.Sample.alice

/-- Three punches are one reward. -/
example : ((service Loyalty.Sample.registry).after Loyalty.Sample.start Loyalty.Sample.turns
    11).shared.db.rewardCount 1 Loyalty.Sample.alice = 1 := by decide +kernel

end Soroticket
