import Soroticket.Cloud.Entries

/-!
# Rewards follow punches

A loyalty customer owns one reward for every `threshold` punches, whatever is interleaved
(`Lawful`). A punch reads the customer's balance and rewards, issues what they are short of, and
enters both in one transaction, all of it under the lock of the program; what a request has planned
stays right because nobody else enters punches or rewards of the program meanwhile (`Planned`).

The cards of a program with no history are `InOrder` after every turn (`inOrder_after`). A customer
is told by its present name: rows under earlier names belong to earlier history.
-/

namespace Soroticket

open Interleaving Interleaving.Service

variable {d : Deployment} {reg : Registry d}

/-! ### Cards -/

namespace Database

/-- The punches of a customer. -/
def punchTotal (db : Database) (programID : ℕ) (ref : Bytes) : ℤ :=
  ((db.punches.filter fun p ↦ p.programID = programID ∧ p.customerRef = ref).map
    fun p ↦ p.count.toInt).sum

/-- The rewards of a customer. -/
def rewardCount (db : Database) (programID : ℕ) (ref : Bytes) : ℕ :=
  db.rewards.countP fun r ↦ r.programID = programID ∧ r.customerRef = ref

end Database

/-- The rows of a program are counts of customers under their present names. -/
structure Named (programID : ℕ) (db : Database) : Prop where
  punches : ∀ p ∈ db.punches, p.programID = programID →
    p.customerRef.length = referenceLen ∧ 0 ≤ p.count.toInt
  rewards : ∀ r ∈ db.rewards, r.programID = programID → r.customerRef.length = referenceLen

/-- The rows of a program are the same. -/
structure SameCards (programID : ℕ) (db db' : Database) : Prop where
  punches : (db'.punches.filter fun p ↦ p.programID = programID) =
    db.punches.filter fun p ↦ p.programID = programID
  rewards : (db'.rewards.filter fun r ↦ r.programID = programID) =
    db.rewards.filter fun r ↦ r.programID = programID

section Cards

variable {programID : ℕ} {db db' : Database}

theorem SameEntries.sameCards (h : SameEntries db db') : SameCards programID db db' :=
  ⟨by rw [h.punches], by rw [h.rewards]⟩

theorem SameCards.punchTotal (h : SameCards programID db db') (ref : Bytes) :
    db'.punchTotal programID ref = db.punchTotal programID ref := by
  have hcard : ∀ db : Database,
      (db.punches.filter fun p ↦ p.programID = programID ∧ p.customerRef = ref) =
        (db.punches.filter fun p ↦ p.programID = programID).filter fun p ↦ p.customerRef = ref := by
    intro db
    rw [List.filter_filter]
    exact List.filter_congr fun p _ ↦ by rw [Bool.decide_and, Bool.and_comm]
  rw [Database.punchTotal, Database.punchTotal, hcard, hcard, h.punches]

theorem SameCards.rewardCount (h : SameCards programID db db') (ref : Bytes) :
    db'.rewardCount programID ref = db.rewardCount programID ref := by
  have hcard : ∀ db : Database, db.rewardCount programID ref =
      (db.rewards.filter fun r ↦ r.programID = programID).countP fun r ↦ r.customerRef = ref := by
    intro db
    rw [List.countP_filter]
    exact List.countP_congr fun r _ ↦ by simp [and_comm]
  rw [hcard, hcard, h.rewards]

theorem SameCards.named (h : SameCards programID db db') (hnamed : Named programID db) :
    Named programID db' where
  punches p hp hid := by
    have hmem : p ∈ db'.punches.filter fun p ↦ p.programID = programID :=
      List.mem_filter.2 ⟨hp, decide_eq_true hid⟩
    rw [h.punches] at hmem
    exact hnamed.punches p (List.mem_of_mem_filter hmem) hid
  rewards r hr hid := by
    have hmem : r ∈ db'.rewards.filter fun r ↦ r.programID = programID :=
      List.mem_filter.2 ⟨hr, decide_eq_true hid⟩
    rw [h.rewards] at hmem
    exact hnamed.rewards r (List.mem_of_mem_filter hmem) hid

/-- Customers of other programs are renamed, and those of the program have no earlier names. -/
theorem sameCards_migrateCustomer (hnamed : Named programID db) {programID' sharedID : ℕ}
    {legacyRef currentRef : Bytes}
    (hlegacy : programID' = programID → legacyRef.length ≠ referenceLen) :
    SameCards programID db (db.migrateCustomer programID' sharedID legacyRef currentRef) := by
  rw [Database.migrateCustomer]
  split
  · exact ⟨rfl, rfl⟩
  · refine ⟨filter_map_of_fixed fun p hp ↦ ?_, filter_map_of_fixed fun r hr ↦ ?_⟩
    · split
      case isFalse => exact Or.inl rfl
      case isTrue h =>
        obtain ⟨hid, hname⟩ := h
        have hne : p.programID ≠ programID := by
          rintro hp'
          have hlen := (hnamed.punches p hp hp').1
          rw [hname] at hlen
          exact hlegacy (hid.symm.trans hp') hlen
        exact Or.inr ⟨decide_eq_false hne, decide_eq_false hne⟩
    · split
      case isFalse => exact Or.inl rfl
      case isTrue h =>
        obtain ⟨hid, hname⟩ := h
        have hne : r.programID ≠ programID := by
          rintro hr'
          have hlen := hnamed.rewards r hr hr'
          rw [hname] at hlen
          exact hlegacy (hid.symm.trans hr') hlen
        exact Or.inr ⟨decide_eq_false hne, decide_eq_false hne⟩

/-- A customer of the program has no earlier name, so its rows stay. -/
theorem tables_migrateCustomer (hnamed : Named programID db) {sharedID : ℕ}
    {legacyRef currentRef : Bytes} (hlegacy : legacyRef.length ≠ referenceLen) :
    (db.migrateCustomer programID sharedID legacyRef currentRef).punches = db.punches ∧
      (db.migrateCustomer programID sharedID legacyRef currentRef).rewards = db.rewards := by
  rw [Database.migrateCustomer]
  split
  · exact ⟨rfl, rfl⟩
  · have hpunches : ∀ p ∈ db.punches, (if p.programID = programID ∧ p.customerRef = legacyRef then
        { p with customerRef := currentRef } else p) = p := by
      intro p hp
      refine if_neg fun h ↦ hlegacy ?_
      rw [← h.2]
      exact (hnamed.punches p hp h.1).1
    have hrewards : ∀ r ∈ db.rewards, (if r.programID = programID ∧ r.customerRef = legacyRef then
        { r with customerRef := currentRef } else r) = r := by
      intro r hr
      refine if_neg fun h ↦ hlegacy ?_
      rw [← h.2]
      exact hnamed.rewards r hr h.1
    exact ⟨(List.map_congr_left hpunches).trans (List.map_id' _),
      (List.map_congr_left hrewards).trans (List.map_id' _)⟩

end Cards

/-! ### Storing a punch -/

namespace Database

variable {db db' : Database} {q : PunchJob reg} {receipt : SignedReceipt} {issued : List Bytes}

/-- An event leaves the rows of customers alone. -/
theorem sameCards_storeEvent {a : AuthCtx} {e : NewEvent} (h : db.storeEvent a e = .ok db')
    (programID : ℕ) : SameCards programID db db' := by
  obtain ⟨db₁, hres, hins⟩ := bind_eq_ok.1 h
  rw [← Except.ok.inj hins]
  rcases reserveReference_cases hres with ⟨-, rfl⟩ | ⟨-, -, rfl⟩
  · exact ⟨rfl, rfl⟩
  · exact ⟨rfl, rfl⟩

/-- The rows a punch inserts. -/
theorem tables_storePunch (h : db.storePunch q receipt issued = .ok db') :
    db'.punches = db.punches ++ [⟨q.program.id, q.ref, q.count⟩] ∧
      db'.rewards = db.rewards ++ issued.map fun code ↦ ⟨q.program.id, q.ref, code⟩ := by
  obtain ⟨db₁, hres, hins⟩ := bind_eq_ok.1 h
  rw [← Except.ok.inj hins]
  rcases reserveReference_cases hres with ⟨-, rfl⟩ | ⟨-, -, rfl⟩
  · exact ⟨rfl, rfl⟩
  · exact ⟨rfl, rfl⟩

theorem punchTotal_storePunch (h : db.storePunch q receipt issued = .ok db') (ref : Bytes) :
    db'.punchTotal q.program.id ref =
      db.punchTotal q.program.id ref + if q.ref = ref then q.count.1.toInt else 0 := by
  rw [punchTotal, (tables_storePunch h).1, List.filter_append, List.map_append, List.sum_append,
    ← punchTotal]
  congr 1
  by_cases href : q.ref = ref <;> simp [href]

theorem rewardCount_storePunch (h : db.storePunch q receipt issued = .ok db') (ref : Bytes) :
    db'.rewardCount q.program.id ref =
      db.rewardCount q.program.id ref + if q.ref = ref then issued.length else 0 := by
  rw [rewardCount, (tables_storePunch h).2, List.countP_append, ← rewardCount]
  congr 1
  by_cases href : q.ref = ref
  · rw [if_pos href, List.countP_eq_length.2 fun r hr ↦ ?_, List.length_map]
    obtain ⟨code, -, rfl⟩ := List.mem_map.1 hr
    exact decide_eq_true ⟨rfl, href⟩
  · rw [if_neg href, List.countP_eq_zero]
    intro r hr
    obtain ⟨code, -, rfl⟩ := List.mem_map.1 hr
    simp [href]

/-- A punch of another program leaves the rows of a program alone. -/
theorem sameCards_storePunch (h : db.storePunch q receipt issued = .ok db') {programID : ℕ}
    (hne : q.program.id ≠ programID) : SameCards programID db db' := by
  obtain ⟨hpunches, hrewards⟩ := tables_storePunch h
  constructor
  · rw [hpunches, List.filter_append, List.filter_cons_of_neg (by simpa using hne),
      List.filter_nil, List.append_nil]
  · rw [hrewards, List.filter_append, List.append_right_eq_self, List.filter_eq_nil_iff]
    intro r hr
    obtain ⟨code, -, rfl⟩ := List.mem_map.1 hr
    simpa using hne

theorem named_storePunch (h : db.storePunch q receipt issued = .ok db') {programID : ℕ}
    (hnamed : Named programID db) (href : q.ref.length = referenceLen) : Named programID db' := by
  obtain ⟨hpunches, hrewards⟩ := tables_storePunch h
  constructor
  · intro p hp hid
    rw [hpunches] at hp
    rcases List.mem_append.1 hp with hold | hnew
    · exact hnamed.punches p hold hid
    · rw [List.mem_singleton.1 hnew]
      refine ⟨href, ?_⟩
      have hpos := Int64.lt_iff_toInt_lt.1 q.count.2.1
      exact (show (0 : ℤ) < q.count.1.toInt from hpos).le
  · intro r hr hid
    rw [hrewards] at hr
    rcases List.mem_append.1 hr with hold | hnew
    · exact hnamed.rewards r hold hid
    · obtain ⟨code, -, rfl⟩ := List.mem_map.1 hnew
      exact href

end Database

/-! ### What a punch plans -/

/-- The rewards of every customer of a program follow the punches. -/
def Lawful (program : ProgramRow) (db : Database) : Prop :=
  ∀ ref, (db.rewardCount program.id ref : ℤ) =
    db.punchTotal program.id ref / program.threshold.toInt

/-- With `n` more rewards, the rewards of a customer follow the punches with the new one. -/
def Owed (q : PunchJob reg) (db : Database) (n : ℕ) : Prop :=
  (db.rewardCount q.program.id q.ref : ℤ) + n =
    (db.punchTotal q.program.id q.ref + q.count.1.toInt) / q.program.threshold.toInt

/-- What a request has read and worked out is still right. -/
def Planned (db : Database) : Place reg → Prop
  | .punchRewards q before =>
    before.toInt = db.punchTotal q.program.id q.ref ∧ before.toInt + q.count.1.toInt < 2 ^ 63
  | .punchAccount q plan => Owed q db plan.newRewards
  | .punchIssue q plan _ => Owed q db plan.newRewards
  | .punchStore q _ issued rewarding =>
    Owed q db issued.length ∧ (rewarding = false → issued = [])
  | _ => True

/-- The plans of a request rest on the rows of its customer. -/
theorem Planned.congr {p : Place reg} {q : PunchJob reg} {db db' : Database} (hp : p.job = some q)
    (h : SameCards q.program.id db db') (hplanned : Planned db p) : Planned db' p := by
  have howed : ∀ n, Owed q db n → Owed q db' n := by
    intro n hn
    rwa [Owed, h.rewardCount, h.punchTotal]
  cases p with
  | punchRewards q' before =>
    obtain rfl := Option.some.inj hp
    rw [Planned, h.punchTotal]
    exact hplanned
  | punchAccount q' plan =>
    obtain rfl := Option.some.inj hp
    exact howed _ hplanned
  | punchIssue q' plan signer =>
    obtain rfl := Option.some.inj hp
    exact howed _ hplanned
  | punchStore q' plan issued rewarding =>
    obtain rfl := Option.some.inj hp
    exact ⟨howed _ hplanned.1, hplanned.2⟩
  | _ => trivial

theorem planned_afterPunch (q : PunchJob reg) (rewarding : Bool) (answer : Answer)
    (db : Database) : Planned db (afterPunch reg q rewarding answer) := by
  cases rewarding <;> trivial

theorem count_bounds (q : PunchJob reg) : 0 < q.count.1.toInt ∧ q.count.1.toInt ≤ 1000 :=
  ⟨Int64.lt_iff_toInt_lt.1 q.count.2.1, Int64.le_iff_toInt_le.1 q.count.2.2⟩

/-- The balance a punch reads is the total of the customer, and has room for the punch. -/
theorem loyaltyBalance_eq_ok {db : Database} {q : PunchJob reg} {before : Int64}
    (h : db.loyaltyBalance q.program.id q.ref q.count = .ok before) :
    before.toInt = db.punchTotal q.program.id q.ref ∧
      before.toInt + q.count.1.toInt < 2 ^ 63 := by
  obtain ⟨before', hsum, h⟩ := bind_eq_ok.1 h
  obtain ⟨_, hroom, h⟩ := bind_eq_ok.1 h
  obtain rfl := Except.ok.inj h
  have hsome := orProblem_eq_ok.1 hsum
  obtain ⟨hpos, hle⟩ := count_bounds q
  constructor
  · rw [sumCounts] at hsome
    split at hsome
    case isTrue hrange =>
      rw [← Option.some.inj hsome, Int64.toInt_ofInt_of_le hrange.1 hrange.2, List.map_map]
      rfl
    case isFalse => exact absurd hsome nofun
  · have hroom := rejectWhen_eq_ok.1 hroom
    rw [Int64.not_lt, Int64.le_iff_toInt_le, Int64.toInt_sub] at hroom
    have hmax : Int64.maxValue.toInt = 2 ^ 63 - 1 := by decide
    rw [hmax, Int.bmod_eq_of_le (by omega) (by omega)] at hroom
    omega

/-- What a punch plans is what the customer will be short of. -/
theorem planPunch_eq_ok {db : Database} {env : Surroundings} {q : PunchJob reg} {before : Int64}
    {plan : PunchPlan} (h : db.planPunch env q before = .ok plan)
    (hbefore : before.toInt = db.punchTotal q.program.id q.ref)
    (hroom : before.toInt + q.count.1.toInt < 2 ^ 63)
    (hnonneg : 0 ≤ db.punchTotal q.program.id q.ref) (hthreshold : 0 < q.program.threshold)
    (hlaw : (db.rewardCount q.program.id q.ref : ℤ) =
      db.punchTotal q.program.id q.ref / q.program.threshold.toInt) :
    Owed q db plan.newRewards := by
  obtain ⟨_, -, h⟩ := bind_eq_ok.1 h
  obtain ⟨_, -, h⟩ := bind_eq_ok.1 h
  obtain ⟨_, -, h⟩ := bind_eq_ok.1 h
  obtain rfl := Except.ok.inj h
  obtain ⟨hpos, hle⟩ := count_bounds q
  have hT : 0 < q.program.threshold.toInt := Int64.lt_iff_toInt_lt.1 hthreshold
  have hafter : (before + q.count.1).toInt =
      db.punchTotal q.program.id q.ref + q.count.1.toInt := by
    rw [Int64.toInt_add, Int.bmod_eq_of_le (by omega) (by omega), hbefore]
  have hquotient : ((before + q.count.1) / q.program.threshold).toInt =
      (db.punchTotal q.program.id q.ref + q.count.1.toInt) / q.program.threshold.toInt := by
    have hne : q.program.threshold ≠ -1 := by
      rintro heq
      rw [heq] at hT
      exact absurd hT (by decide)
    rw [Int64.toInt_div_of_ne_right _ _ hne, hafter, Int.tdiv_eq_ediv_of_nonneg (by omega)]
  have hmono : db.punchTotal q.program.id q.ref / q.program.threshold.toInt ≤
      (db.punchTotal q.program.id q.ref + q.count.1.toInt) / q.program.threshold.toInt :=
    Int.ediv_le_ediv hT (by omega)
  show (db.rewardCount q.program.id q.ref : ℤ) +
    ((((before + q.count.1) / q.program.threshold).toInt -
      (db.rewardCount q.program.id q.ref : ℤ)).toNat : ℤ) = _
  rw [hquotient, Int.toNat_of_nonneg (by omega)]
  omega

/-- A code is generated for each reward. -/
theorem length_of_mapM {α β : Type} {f : α → Option β} {l : List α} {r : List β}
    (h : l.mapM f = some r) : r.length = l.length := by
  induction l generalizing r with
  | nil =>
    rw [List.mapM_nil] at h
    obtain rfl := Option.some.inj h
    rfl
  | cons a l ih =>
    rw [List.mapM_cons] at h
    obtain ⟨b, -, h⟩ := Option.bind_eq_some_iff.1 h
    obtain ⟨r', hr', h⟩ := Option.bind_eq_some_iff.1 h
    obtain rfl := Option.some.inj h
    rw [List.length_cons, List.length_cons, ih hr']

/-- **A request plans what its customer will be short of,** under the law of its program. -/
theorem advance_planned {ch : Choice} {p p' : Place reg} {w w' : World} {q : PunchJob reg}
    (h : advance reg ch p w = some (p', w')) (hp : p.job = some q)
    (hthreshold : 0 < q.program.threshold) (hnamed : Named q.program.id w.db)
    (hlaw : Lawful q.program w.db) (hplanned : Planned w.db p) : Planned w'.db p' := by
  cases p with
  | punchBalance q' =>
    obtain rfl := Option.some.inj hp
    exact onward_elim (P := fun p' w' ↦ Planned w'.db p') h
      (fun before hbefore ↦ loyaltyBalance_eq_ok hbefore) fun _ _ ↦ trivial
  | punchRewards q' before =>
    obtain rfl := Option.some.inj hp
    obtain ⟨hbefore, hroom⟩ := hplanned
    have hnonneg : 0 ≤ w.db.punchTotal q'.program.id q'.ref := by
      refine List.sum_nonneg fun x hx ↦ ?_
      obtain ⟨row, hrow, rfl⟩ := List.mem_map.1 hx
      obtain ⟨hmem, hkey⟩ := List.mem_filter.1 hrow
      exact (hnamed.punches row hmem (of_decide_eq_true hkey).1).2
    refine onward_elim (P := fun p' w' ↦ Planned w'.db p') h (fun plan hplan ↦ ?_)
      fun _ _ ↦ trivial
    have howed := planPunch_eq_ok hplan hbefore hroom hnonneg hthreshold (hlaw q'.ref)
    dsimp only
    split
    case isTrue hnone =>
      rw [hnone] at howed
      exact ⟨howed, fun _ ↦ rfl⟩
    case isFalse => exact howed
  | punchAccount q' plan =>
    simp only [advance] at h
    split at h
    · exact takeLock_elim (P := fun p' w' ↦ Planned w'.db p') h fun _ ↦ hplanned
    · exact some_elim (P := fun p' w' ↦ Planned w'.db p') h trivial
  | punchIssue q' plan signer =>
    obtain rfl := Option.some.inj hp
    simp only [advance] at h
    split at h
    · exact some_elim (P := fun p' w' ↦ Planned w'.db p') h trivial
    · split at h
      · exact some_elim (P := fun p' w' ↦ Planned w'.db p') h trivial
      case h_2 codes hcodes _ chain _ =>
        have hlength : codes.length = plan.newRewards := by
          rw [length_of_mapM hcodes, List.length_range]
        refine some_elim (P := fun p' w' ↦ Planned w'.db p') h ?_
        split
        · refine ⟨?_, (Bool.noConfusion ·)⟩
          rw [hlength]
          exact hplanned
        · trivial
  | punchLock q' => exact takeLock_elim (P := fun p' w' ↦ Planned w'.db p') h fun _ ↦ trivial
  | punchMigrate | punchDedup =>
    exact onward_elim (P := fun p' w' ↦ Planned w'.db p') h (fun _ _ ↦ trivial) fun _ _ ↦ trivial
  | punchStore q' plan issued rewarding =>
    exact onward_elim (P := fun p' w' ↦ Planned w'.db p') h
      (fun _ _ ↦ planned_afterPunch ..) fun _ _ ↦ planned_afterPunch ..
  | punchRelease | punchUnlock =>
    exact some_elim (P := fun p' w' ↦ Planned w'.db p') h trivial
  | _ => exact absurd hp.symm (Option.some_ne_none _)

/-! ### The cards of a program stay in order -/

/-- The ids of programs are unique, as the primary key of their table. -/
def ProgramKey (reg : Registry d) : Prop :=
  ∀ p ∈ reg.programs, ∀ p' ∈ reg.programs, p.id = p'.id → p = p'

/-- The cards of a program are in order. -/
structure InOrder (program : ProgramRow) (init c : Config World (Place reg)) : Prop where
  leads : ∀ i, Leads (init.requests i) (c.requests i)
  named : Named program.id c.shared.db
  law : Lawful program c.shared.db
  planned : ∀ i q, (c.requests i).job = some q → q.program = program →
    Planned c.shared.db (c.requests i)

/-- Nobody holds a lock that another holds. -/
abbrev LocksHeld (c : Config World (Place reg)) : Prop :=
  Exclusive (fun (p : Place reg) k ↦ k ∈ p.locks) (fun w k ↦ w.locks k = true) c

theorem locksHeld_after {init : Config World (Place reg)}
    (harriving : ∀ i, (init.requests i).Arriving) (turns : List (Turn Choice Tx)) (n : ℕ) :
    LocksHeld ((service reg).after init turns n) :=
  (lockDiscipline reg).exclusive_serve (exclusive_of_arriving harriving) _

/-- A request with plans holds the lock of its program. -/
theorem planned_or_lock {p : Place reg} {q : PunchJob reg} (hp : p.job = some q) :
    (∀ db, Planned db p) ∨ .loyalty q.account q.program.id ∈ p.locks := by
  cases p with
  | punchRewards | punchAccount =>
    obtain rfl := Option.some.inj hp
    exact Or.inr List.mem_cons_self
  | punchIssue =>
    obtain rfl := Option.some.inj hp
    exact Or.inr (List.mem_cons_of_mem _ List.mem_cons_self)
  | punchStore q' plan issued rewarding =>
    obtain rfl := Option.some.inj hp
    refine Or.inr ?_
    cases rewarding with
    | true => exact List.mem_cons_of_mem _ List.mem_cons_self
    | false => exact List.mem_cons_self
  | _ => exact Or.inl fun _ ↦ trivial

namespace InOrder

variable {program : ProgramRow} {init c : Config World (Place reg)} {i : ℕ} {ch : Choice}
  {p' : Place reg} {w : World} {q : PunchJob reg}

/-- What a request with a job arrived as. -/
theorem checked (hc : InOrder program init c) (hq : (c.requests i).job = some q) :
    ∃ body, init.requests i = .punch q.account q.program.id body ∧
      Checked q.account q.program.id body q := by
  obtain ⟨id, body, env, harrival, hrequest⟩ := (hc.leads i).job q hq
  have hchecked := punchRequest_eq_ok hrequest
  have hid := hchecked.programID
  subst hid
  exact ⟨body, harrival, hchecked⟩

/-- A customer of a request has no rows under its earlier name. -/
theorem length_legacyRef_ne (hc : InOrder program init c) (hq : (c.requests i).job = some q) :
    q.legacyRef.length ≠ referenceLen := by
  obtain ⟨body, -, hchecked⟩ := hc.checked hq
  rw [hchecked.legacyRef, length_legacyCustomerReference (utf8_ne_nil hchecked.customer)]
  decide

/-- The plans of the request that takes the step. -/
theorem planned_request (hc : InOrder program init c)
    (h : advance reg ch (c.requests i) c.shared = some (p', w)) (hq : p'.job = some q)
    (hprogram : q.program = program) : Planned w.db p' := by
  cases advance_carries h with
  | event a campaignID code body e _ hp' =>
    rw [hp'] at hq
    exact absurd hq nofun
  | punch a id body q' _ hp' =>
    rw [hp']
    trivial
  | same hcontinued =>
    have hjob := hcontinued.job q hq
    obtain ⟨body, -, hchecked⟩ := hc.checked hjob
    subst hprogram
    exact advance_planned h hjob hchecked.threshold hc.named hc.law (hc.planned i q hjob rfl)

/-- A step that leaves the rows of the program alone. -/
theorem sameCards (hc : InOrder program init c)
    (h : advance reg ch (c.requests i) c.shared = some (p', w))
    (hsame : SameCards program.id c.shared.db w.db) :
    InOrder program init ⟨w, Function.update c.requests i p'⟩ where
  leads := leads_update hc.leads h
  named := hsame.named hc.named
  law ref := by
    rw [hsame.rewardCount, hsame.punchTotal]
    exact hc.law ref
  planned j q hq hprogram := by
    dsimp only at hq ⊢
    rcases eq_or_ne j i with rfl | hj
    · rw [Function.update_self] at hq ⊢
      exact hc.planned_request h hq hprogram
    · rw [Function.update_of_ne hj] at hq ⊢
      exact (hc.planned j q hq hprogram).congr hq (hprogram ▸ hsame)

/-- **The step that enters a punch of the program.** The customer gets what it is short of, and
nobody else has plans, which need the lock. -/
theorem punched (hc : InOrder program init c) (hlocks : LocksHeld c)
    (h : advance reg ch (c.requests i) c.shared = some (p', w)) {plan : PunchPlan}
    {issued : List Bytes} {rewarding : Bool}
    (hp : c.requests i = .punchStore q plan issued rewarding) (hprogram : q.program = program)
    (hstore : c.shared.db.storePunch q plan.receipt issued = .ok w.db) :
    InOrder program init ⟨w, Function.update c.requests i p'⟩ := by
  have hjob : (c.requests i).job = some q := by rw [hp]; rfl
  obtain ⟨body, -, hchecked⟩ := hc.checked hjob
  have howed : Owed q c.shared.db issued.length := by
    have hplanned := hc.planned i q hjob hprogram
    rw [hp] at hplanned
    exact hplanned.1
  have href : q.ref.length = referenceLen := by
    rw [hchecked.ref]
    exact length_opaqueReference (utf8_ne_nil hchecked.customer) _
  subst hprogram
  refine ⟨leads_update hc.leads h, Database.named_storePunch hstore hc.named href, fun ref ↦ ?_,
    fun j q' hq' hprogram' ↦ ?_⟩
  · dsimp only
    rw [Database.rewardCount_storePunch hstore, Database.punchTotal_storePunch hstore]
    by_cases hcustomer : q.ref = ref
    · rw [if_pos hcustomer, if_pos hcustomer, ← hcustomer]
      push_cast
      exact howed
    · rw [if_neg hcustomer, if_neg hcustomer, Nat.add_zero, Int.add_zero]
      exact hc.law ref
  · dsimp only at hq' ⊢
    rcases eq_or_ne j i with rfl | hj
    · rw [Function.update_self] at hq' ⊢
      exact hc.planned_request h hq' hprogram'
    · rw [Function.update_of_ne hj] at hq' ⊢
      rcases planned_or_lock hq' with hnone | hlock
      · exact hnone w.db
      · refine absurd ((hlocks _).2 j i hlock ?_) hj
        obtain ⟨body', -, hchecked'⟩ := hc.checked hq'
        have haccount : q'.account = q.account := by
          rw [← hchecked'.programAccount, ← hchecked.programAccount, hprogram']
        rw [hprogram', haccount]
        rcases planned_or_lock hjob with hnone | hlock
        · rw [hp]
          exact (by cases rewarding <;> simp [Place.locks])
        · exact hlock

/-- A step that is not the transaction of a punch leaves the rows of the program alone. -/
theorem sameCards_request (hc : InOrder program init c)
    (h : advance reg ch (c.requests i) c.shared = some (p', w))
    (hp : (c.requests i).punching = false) : SameCards program.id c.shared.db w.db := by
  cases advance_writes h with
  | nothing _ hdb => exact hdb.sameCards
  | migrates q hq _ hdb =>
    rw [hdb]
    exact sameCards_migrateCustomer hc.named fun _ ↦ hc.length_legacyRef_ne (by rw [hq]; rfl)
  | records a e _ _ hstore => exact Database.sameCards_storeEvent hstore _
  | punches q plan issued rewarding hq =>
    rw [hq] at hp
    exact absurd hp Bool.false_ne_true.symm

/-- **The cards stay in order.** -/
theorem request (hc : InOrder program init c) (hkey : ProgramKey reg)
    (hmem : program ∈ reg.programs) (hlocks : LocksHeld c)
    (h : advance reg ch (c.requests i) c.shared = some (p', w)) :
    InOrder program init ⟨w, Function.update c.requests i p'⟩ := by
  cases advance_writes h with
  | punches q plan issued rewarding hp _ hstore =>
    by_cases hid : q.program.id = program.id
    · obtain ⟨body, -, hchecked⟩ := hc.checked (i := i) (q := q) (by rw [hp]; rfl)
      exact hc.punched hlocks h hp (hkey _ hchecked.mem _ hmem hid) hstore
    · exact hc.sameCards h (Database.sameCards_storePunch hstore hid)
  | nothing _ hdb => exact hc.sameCards h hdb.sameCards
  | migrates q hq =>
    exact hc.sameCards h (hc.sameCards_request h (by rw [hq]; rfl))
  | records a e hq =>
    exact hc.sameCards h (hc.sameCards_request h (by rw [hq]; rfl))

end InOrder

/-! ### Runs -/

/-- A program with no history. -/
structure NoHistory (programID : ℕ) (db : Database) : Prop where
  punches : ∀ p ∈ db.punches, p.programID ≠ programID
  rewards : ∀ r ∈ db.rewards, r.programID ≠ programID

theorem NoHistory.rewardCount {programID : ℕ} {db : Database} (h : NoHistory programID db)
    (ref : Bytes) : db.rewardCount programID ref = 0 := by
  refine List.countP_eq_zero.2 fun r hr ↦ ?_
  simp [h.rewards r hr]

theorem NoHistory.punchTotal {programID : ℕ} {db : Database} (h : NoHistory programID db)
    (ref : Bytes) : db.punchTotal programID ref = 0 := by
  have hnone : (db.punches.filter fun p ↦ p.programID = programID ∧ p.customerRef = ref) = [] :=
    List.filter_eq_nil_iff.2 fun p hp ↦ by simp [h.punches p hp]
  rw [Database.punchTotal, hnone]
  rfl

section Turns

variable {program : ProgramRow} {init : Config World (Place reg)}

theorem inOrder_init (harriving : ∀ i, (init.requests i).Arriving)
    (hhistory : NoHistory program.id init.shared.db) : InOrder program init init where
  leads i := (harriving i).leads
  named := ⟨fun p hp hid ↦ absurd hid (hhistory.punches p hp),
    fun r hr hid ↦ absurd hid (hhistory.rewards r hr)⟩
  law ref := by
    rw [hhistory.rewardCount, hhistory.punchTotal, Int.zero_ediv]
    rfl
  planned i q hq := by
    rw [(harriving i).job] at hq
    exact absurd hq nofun

/-- **The cards of a program are in order after every turn.** -/
theorem inOrder_after (hkey : ProgramKey reg) (hmem : program ∈ reg.programs)
    (harriving : ∀ i, (init.requests i).Arriving)
    (hhistory : NoHistory program.id init.shared.db) (turns : List (Turn Choice Tx)) (n : ℕ) :
    InOrder program init ((service reg).after init turns n) := by
  refine after_induction (S := service reg) (P := InOrder program init)
    (G := fun c _ ↦ LocksHeld c) (k := 0) (inOrder_init harriving hhistory)
    (fun n _ _ ↦ locksHeld_after harriving turns n) ?_ ?_ (Nat.zero_le n)
  · exact fun c i ch p w hc hlocks h ↦ hc.request hkey hmem hlocks h
  · intro c tx hc
    have hdb : ((service reg).outside tx c.shared).db = c.shared.db := db_outside reg tx c.shared
    refine ⟨hc.leads, ?_, ?_, ?_⟩ <;> dsimp only <;> rw [hdb]
    · exact hc.named
    · exact hc.law
    · exact hc.planned

end Turns

end Soroticket
