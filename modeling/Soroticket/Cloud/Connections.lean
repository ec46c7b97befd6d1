import Soroticket.Cloud.Store
import Soroticket.Machine.Pool

/-!
# The one database connection

The pool that `openStore` opens has one connection. `db.Query` holds it until its rows are exhausted
or closed, a transaction until it is committed or rolled back, and every other statement for as long
as it runs. The handlers that iterate rows are clients of that pool: what they do with the
connection, under every reply of the database.

All of them close their rows before they go on, except `handleListScans`, whose loop is left by a
`break` once a page is full, and whose next statement then waits for the connection its rows hold.
It completes exactly when the events that match are no more than its limit
(`disciplined_listScans_iff`).
-/

namespace Soroticket

namespace Connections

open Pool Client

/-! ### Statements and rows -/

/-- A reply of the database: whether a step went well, or a condition holds of what was read; and
the number of rows of a result. -/
structure DbReply where
  ok : Bool
  rows : ℕ

abbrev Conn (α : Type) := Client DbReply α

/-- Whether a step went well, or a condition holds. -/
def ask : Conn Bool := .reply fun r ↦ .done r.ok

/-- The number of rows of a result. -/
def rowCount : Conn ℕ := .reply fun r ↦ .done r.rows

/-- Give the connection back. -/
def release : Conn Unit := .release (.done ())

/-- `db.QueryRow(…).Scan(…)`, `db.Exec`, and a transaction from `db.Begin` until its end: the
connection is taken, and given back whatever happens. -/
def statement : Conn Bool := .acquire do
  let ok ← ask
  release
  return ok

/-- `for rows.Next()`. The body goes on with a new state, or leaves the loop. The rows are closed
where none is left and where `Next` fails; the flag says whether they are still open. -/
def forRows {β σ γ : Type} (body : σ → β → Conn (σ ⊕ γ)) : List β → σ → Conn ((σ ⊕ γ) × Bool)
  | [], s => do
    release
    return (.inl s, false)
  | b :: rest, s => do
    if ← ask then
      match ← body s b with
      | .inl s => forRows body rest s
      | .inr g => return (.inr g, true)
    else
      release
      return (.inl s, false)

/-- `rows.Close()`, which does nothing where the rows are closed. -/
def closeRows (isOpen : Bool) : Conn Unit := if isOpen then release else pure ()

/-- `rows.Scan` and the checks of a row: the loop goes on to the next, or is left. -/
def scanRow (n : ℕ) (_ : Unit) : Conn (ℕ ⊕ Unit) := do
  if ← ask then return .inl (n + 1) else return .inr ()

/-- `rows.Scan` where a row that fails is passed over. -/
def scanOrSkip (n : ℕ) (_ : Unit) : Conn (ℕ ⊕ Unit) := do
  if ← ask then return .inl (n + 1) else return .inl n

/-- Rows read one by one and closed on every way out, with the number of those that were read.
`checked` says whether `rows.Err()` is looked at. -/
def collectRows (body : ℕ → Unit → Conn (ℕ ⊕ Unit)) (checked : Bool) :
    Conn (Option ℕ) := .acquire do
  if ← ask then
    let n ← rowCount
    let (left, isOpen) ← forRows body (List.replicate n ()) 0
    match left with
    | .inr _ => do
      closeRows isOpen
      return none
    | .inl got => do
      let ok ← if checked then ask else pure true
      closeRows isOpen
      return if ok then some got else none
  else
    release
    return none

/-- Rows with a deferred `rows.Close()`: `after` goes on from how the loop was left. -/
def withRows {β σ γ δ : Type} (rows : Conn (List β)) (body : σ → β → Conn (σ ⊕ γ)) (s : σ)
    (failed : δ) (after : σ ⊕ γ → Conn δ) : Conn δ := .acquire do
  if ← ask then
    let rows ← rows
    let (left, isOpen) ← forRows body rows s
    let result ← after left
    closeRows isOpen
    return result
  else
    release
    return failed

/-- The rows of a result, of which only the number matters. -/
def someRows : Conn (List Unit) := do return List.replicate (← rowCount) ()

/-- Do something up to `n` times, until it fails. -/
def upTo (c : Conn Bool) : ℕ → Conn Bool
  | 0 => return true
  | n + 1 => do if ← c then upTo c n else return false

/-! ### What the handlers share -/

/-- `campaignByID`: two statements, and a third for a campaign with a shared code. -/
def campaignByID (found : Bool) : Conn Bool := do
  if !(← statement) || !found then return false
  if ← statement then statement
  else ask

/-- `ensureMonthlyGrant`. -/
def ensureMonthlyGrant : Conn Bool := statement

/-- `charge`. -/
def charge (live : Bool) : Conn Bool := do
  if !live then return true
  if !(← ensureMonthlyGrant) then return false
  statement

/-- `refundCharge`. -/
def refundCharge (live : Bool) : Conn Bool := if live then statement else pure true

/-- `queueWebhookAt`, for a subscription to the event. A failure is logged. -/
def queueWebhook : Conn Bool := do
  if ← ask then
    let _ ← statement
  return true

/-- `enqueueActivityWebhook`. -/
def enqueueActivityWebhook : Conn Unit := do
  if !(← ask) then return
  match ← collectRows scanOrSkip false with
  | none => return
  | some subscriptions => let _ ← upTo queueWebhook subscriptions

/-- `logActivity`. -/
def logActivity : Conn Unit := do
  if ← statement then enqueueActivityWebhook

/-- `maybeNotifyLowCredits`. -/
def maybeNotifyLowCredits (live : Bool) : Conn Unit := do
  if !live then return
  if !(← statement) then return
  if !(← ask) then return
  if !(← statement) then return
  if ← ask then logActivity

/-- `recentActivity`. -/
def recentActivity : Conn Unit := withRows someRows scanRow 0 () fun _ ↦ pure ()

/-! ### The handlers that iterate rows -/

/-- `handleMe`. -/
def handleMe : Conn Unit := do
  if !(← statement) then return
  if !(← statement) then return
  if !(← statement) then return
  if !(← statement) then return
  let _ ← collectRows scanRow true

/-- `handleListKeys`, and with it `handleListRedemptions`, `handleListSettlements` and
`handleListWebhooks`: one query, whose rows are closed by a deferred call. -/
def handleListKeys : Conn Unit := withRows someRows scanRow 0 () fun _ ↦ pure ()

def handleListRedemptions : Conn Unit := withRows someRows scanRow 0 () fun _ ↦ pure ()

def handleListSettlements : Conn Unit := withRows someRows scanRow 0 () fun _ ↦ pure ()

def handleListWebhooks : Conn Unit := withRows someRows scanRow 0 () fun _ ↦ pure ()

/-- `handleActivity`. -/
def handleActivity : Conn Unit := recentActivity

/-- `handleAuditTally`: three summaries, the hashes of all leaves, then a page of receipts. -/
def handleAuditTally : Conn Unit := do
  if !(← ask) then return
  if !(← statement) then return
  if !(← statement) then return
  if !(← ask) then return
  if !(← statement) then return
  if !(← ask) then return
  match ← collectRows scanRow true with
  | none => return
  | some _ =>
    if !(← ask) then return
    let _ ← collectRows scanRow true

/-- `handleListCampaigns`. -/
def handleListCampaigns : Conn Unit := do
  match ← collectRows scanRow true with
  | none => return
  | some ids => let _ ← upTo (campaignByID true) ids

/-- `handleGetCampaign`. -/
def handleGetCampaign : Conn Unit := do
  if !(← campaignByID (← ask)) then return
  let _ ← collectRows scanRow true

/-- The two summaries of a program. -/
def summarizeProgram : Conn Bool := do
  if !(← statement) then return false
  statement

/-- `handleListPrograms`. -/
def handleListPrograms : Conn Unit := do
  match ← collectRows scanRow true with
  | none => return
  | some programs => let _ ← upTo summarizeProgram programs

/-- `handleGetProgram`. -/
def handleGetProgram : Conn Unit := do
  if !(← statement) then return
  if !(← ask) then return
  match ← collectRows scanRow true with
  | none => return
  | some customers =>
    if !(← upTo statement customers) then return
    match ← collectRows scanRow true with
    | none => return
    | some _ =>
      if !(← summarizeProgram) then return
      let _ ← statement

/-- The two counts of a day. -/
def dayCounts : Conn Bool := do
  if !(← statement) then return false
  statement

/-- The credits of `handleOverview` and of `handleCredits`. -/
def loadCredits (live : Bool) : Conn Bool := do
  if !live then return true
  if !(← ensureMonthlyGrant) then return false
  statement

/-- `handleOverview`. -/
def handleOverview (live : Bool) : Conn Unit := do
  if !(← upTo statement 3) then return
  match ← collectRows scanRow true with
  | none => return
  | some _ =>
    if !(← upTo dayCounts 30) then return
    recentActivity
    if !(← loadCredits live) then return
    let _ ← upTo statement 2

/-- `handleCredits`. -/
def handleCredits (live : Bool) : Conn Unit := do
  if !(← loadCredits live) then return
  let _ ← collectRows scanRow true

/-- `handleUsage`. The deferred close comes after the last statement, but the loop was not left
early. -/
def handleUsage : Conn Unit := withRows someRows scanRow 0 () fun left ↦ do
  match left with
  | .inr _ => return
  | .inl _ =>
    if !(← ask) then return
    let _ ← statement

/-- `handleCommitTally`, once it has its batch. The charge is refunded where the contract
refuses. -/
def commitBatch (live : Bool) : Conn Unit := do
  if !(← charge live) then return
  if !(← ask) then
    let _ ← refundCharge live
    return
  maybeNotifyLowCredits live
  if !(← statement) then return
  logActivity
  let _ ← statement

/-- `handleCommitTally`, once it has a period. -/
def commitPeriod (live : Bool) : Conn Unit := do
  if !(← ask) then return
  if !(← statement) || !(← ask) then return
  if !(← statement) || !(← ask) then return
  match ← collectRows scanRow false with
  | none => return
  | some _ =>
    if !(← ask) then return
    commitBatch live

/-- `handleCommitTally`. Two statements find a period where none is given. -/
def handleCommitTally (live : Bool) : Conn Unit := do
  if !(← statement) || !(← ask) then return
  if ← ask then
    if !(← upTo statement 2) || !(← ask) then return
    commitPeriod live
  else
    commitPeriod live

/-- The update of a delivery, which may fail. -/
def updateDelivery : Conn Bool := do
  let _ ← statement
  return true

/-- `deliverDueWebhooks`. -/
def deliverDueWebhooks : Conn Unit := do
  if !(← ask) then return
  match ← collectRows scanOrSkip false with
  | none => return
  | some due => let _ ← upTo updateDelivery due

/-! ### The scans of a campaign -/

/-- The tables `handleListScans` reads its page from. -/
structure ScanTables where
  campaigns : List CampaignRow
  sharedCodes : List SharedCodeRow
  events : EventTable
  code_key : ∀ c ∈ sharedCodes, ∀ c' ∈ sharedCodes, c.id = c'.id → c = c'

/-- The request: the id in its path, and its limit and cursor, absent or perhaps no numbers. -/
structure ScanQuery where
  id : Option ℤ
  limit : Option (Option ℤ)
  cursor : Option (Option ℤ)

/-- `maxScanPage`. -/
def maxScanPage : ℤ := 200

/-- The limit of a request. -/
def ScanQuery.checkedLimit (q : ScanQuery) : Except Problem ℕ :=
  match q.limit with
  | none => .ok 100
  | some raw =>
    match raw with
    | some n => if 1 ≤ n ∧ n ≤ maxScanPage then .ok n.toNat
        else .error ⟨400, "limit must be between 1 and 200"⟩
    | none => .error ⟨400, "limit must be between 1 and 200"⟩

/-- The cursor of a request. -/
def ScanQuery.checkedCursor (q : ScanQuery) : Except Problem ℕ :=
  match q.cursor with
  | none => .ok 0
  | some raw =>
    match raw with
    | some n => if 0 ≤ n then .ok n.toNat
        else .error ⟨400, "cursor must be a non-negative integer"⟩
    | none => .error ⟨400, "cursor must be a non-negative integer"⟩

/-- The events of a campaign's codes, older than the cursor if there is one, newest first. -/
def ScanTables.matching (t : ScanTables) (campaignID cursor : ℕ) : List SharedEvent :=
  (t.events.rows.filter fun e ↦
    (∃ sc ∈ t.sharedCodes, sc.id = e.sharedCodeID ∧ sc.campaignID = campaignID) ∧
      (0 < cursor → e.id < cursor)).reverse

/-- A page of scans. -/
structure ScanPage where
  scans : List SharedEvent
  limit : ℕ
  nextCursor : Option ℕ

/-- How the loop of `handleListScans` is left early: the page is full and there is more, or a row
cannot be read. -/
inductive ScanStop where
  | more (scans : List SharedEvent)
  | failed

/-- The body of its loop. -/
def scanEvent (limit : ℕ) (scans : List SharedEvent) (e : SharedEvent) :
    Conn (List SharedEvent ⊕ ScanStop) := do
  if scans.length = limit then return .inr (.more scans)
  if ← ask then return .inl (scans ++ [e]) else return .inr .failed

/-- What it does after its loop. -/
def summarizeScans (limit : ℕ) : List SharedEvent ⊕ ScanStop → Conn (Except Problem ScanPage)
  | .inr .failed => return .error ⟨500, "internal server error"⟩
  | .inr (.more scans) => do
    if ← statement then return .ok ⟨scans, limit, scans.getLast?.map (·.id)⟩
    else return .error ⟨500, "internal server error"⟩
  | .inl scans => do
    if !(← ask) then return .error ⟨500, "internal server error"⟩
    if ← statement then return .ok ⟨scans, limit, none⟩
    else return .error ⟨500, "internal server error"⟩

/-- Its page, for a checked request. -/
def readScans (t : ScanTables) (id limit cursor : ℕ) : Conn (Except Problem ScanPage) :=
  withRows (return (t.matching id cursor).take (limit + 1)) (scanEvent limit) []
    (.error ⟨500, "internal server error"⟩) (summarizeScans limit)

/-- A campaign of the account. -/
def ScanTables.hasCampaign (t : ScanTables) (a : AuthCtx) (id : ℤ) : Bool :=
  0 < id ∧ ∃ c ∈ t.campaigns, (c.id : ℤ) = id ∧ c.account = a

/-- `handleListScans`. -/
def handleListScans (t : ScanTables) (a : AuthCtx) (q : ScanQuery) :
    Conn (Except Problem ScanPage) := do
  let id := q.id.getD 0
  if id ≤ 0 then return .error ⟨404, "campaign not found"⟩
  if !(← campaignByID (t.hasCampaign a id)) then return .error ⟨404, "campaign not found"⟩
  match q.checkedLimit with
  | .error problem => return .error problem
  | .ok limit =>
    match q.checkedCursor with
    | .error problem => return .error problem
    | .ok cursor => readScans t id.toNat limit cursor

/-! ### The discipline -/

@[simp] theorem keeps_ask {held : Bool} {Q : Bool → Bool → Prop} :
    ask.Keeps held Q ↔ ∀ ok, Q ok held :=
  ⟨fun h ok ↦ h ⟨ok, 0⟩, fun h r ↦ h r.ok⟩

@[simp] theorem keeps_rowCount {held : Bool} {Q : ℕ → Bool → Prop} :
    rowCount.Keeps held Q ↔ ∀ n, Q n held :=
  ⟨fun h n ↦ h ⟨true, n⟩, fun h r ↦ h r.rows⟩

@[simp] theorem keeps_releaseRows {held : Bool} {Q : Unit → Bool → Prop} :
    release.Keeps held Q ↔ held = true ∧ Q () false := Iff.rfl

@[simp] theorem keeps_statement {held : Bool} {Q : Bool → Bool → Prop} :
    statement.Keeps held Q ↔ held = false ∧ ∀ ok, Q ok false := by
  simp [statement]

@[simp] theorem keeps_closeRows {isOpen held : Bool} {Q : Unit → Bool → Prop} :
    (closeRows isOpen).Keeps held Q ↔ if isOpen then held = true ∧ Q () false else Q () held := by
  cases isOpen <;> simp [closeRows]

/-- The rule of the loop: `I` is an invariant of its state and of the rows that are left, and `G`
holds of what it is left early with. The rows are open in that case only. -/
theorem keeps_forRows {β σ γ : Type} {body : σ → β → Conn (σ ⊕ γ)} {I : List β → σ → Prop}
    {G : γ → Prop} (hbody : ∀ b rest s, I (b :: rest) s →
      (body s b).Keeps true fun r held ↦ held = true ∧ Sum.elim (I rest) G r)
    {rows : List β} {s : σ} (hI : I rows s) :
    (forRows body rows s).Keeps true fun r held ↦
      r.2 = held ∧ Sum.elim (fun _ ↦ held = false) (fun g ↦ held = true ∧ G g) r.1 := by
  induction rows generalizing s with
  | nil => simp [forRows]
  | cons b rest ih =>
    rw [forRows, keeps_bind, keeps_ask]
    intro ok
    rw [keeps_ite]
    refine ⟨fun _ ↦ ?_, fun _ ↦ by simp⟩
    rw [keeps_bind]
    refine (hbody b rest s hI).mono ?_
    rintro r held ⟨rfl, hr⟩
    cases r with
    | inl s' => exact ih hr
    | inr g => simpa using hr

/-- Rows are open in the body of a loop. -/
def StaysOpen {β σ γ : Type} (body : σ → β → Conn (σ ⊕ γ)) : Prop :=
  ∀ s b, (body s b).Keeps true fun _ held ↦ held = true

theorem staysOpen_scanRow : StaysOpen scanRow := fun n _ ↦ by simp [scanRow]

theorem staysOpen_scanOrSkip : StaysOpen scanOrSkip := fun n _ ↦ by simp [scanOrSkip]

/-- A loop whose body keeps the rows open. -/
theorem StaysOpen.keeps_forRows {β σ γ : Type} {body : σ → β → Conn (σ ⊕ γ)}
    (hbody : StaysOpen body) (rows : List β) (s : σ) :
    (forRows body rows s).Keeps true fun r held ↦
      r.2 = held ∧ Sum.elim (fun _ ↦ held = false) (fun _ ↦ held = true) r.1 := by
  refine (Connections.keeps_forRows (I := fun _ _ ↦ True) (G := fun _ ↦ True)
    (fun b _ s _ ↦ (hbody s b).mono fun r held hheld ↦ ⟨hheld, by cases r <;> trivial⟩)
    trivial).mono ?_
  rintro ⟨left, isOpen⟩ held ⟨hopen, hleft⟩
  cases left with
  | inl s' => exact ⟨hopen, hleft⟩
  | inr g => exact ⟨hopen, hleft.1⟩

theorem StaysOpen.collectRows {body : ℕ → Unit → Conn (ℕ ⊕ Unit)} (hbody : StaysOpen body)
    (checked : Bool) : (collectRows body checked).Disciplined := by
  refine ⟨rfl, ?_⟩
  rw [keeps_bind, keeps_ask]
  intro ok
  rw [keeps_ite]
  refine ⟨fun _ ↦ ?_, fun _ ↦ by simp⟩
  rw [keeps_bind, keeps_rowCount]
  intro n
  rw [keeps_bind]
  refine (hbody.keeps_forRows _ 0).mono ?_
  rintro ⟨left, isOpen⟩ held ⟨rfl, hleft⟩
  cases left with
  | inl got =>
    obtain rfl : isOpen = false := hleft
    cases checked <;> simp
  | inr g =>
    obtain rfl : isOpen = true := hleft
    simp

/-- Rows with a deferred close: what comes after the loop finds the rows open where the loop was
left early, and leaves them as they are. -/
theorem keeps_withRows {β σ γ δ : Type} {rows : Conn (List β)} {body : σ → β → Conn (σ ⊕ γ)} {s : σ}
    {failed : δ} {after : σ ⊕ γ → Conn δ} {G : γ → Prop}
    (hrows : rows.Keeps true fun rows held ↦ held = true ∧
      (forRows body rows s).Keeps true fun r held ↦
        r.2 = held ∧ Sum.elim (fun _ ↦ held = false) (fun g ↦ held = true ∧ G g) r.1)
    (hend : ∀ s, (after (.inl s)).Disciplined)
    (hleft : ∀ g, G g → (after (.inr g)).Keeps true fun _ held ↦ held = true) :
    (withRows rows body s failed after).Disciplined := by
  refine ⟨rfl, ?_⟩
  rw [keeps_bind, keeps_ask]
  intro ok
  rw [keeps_ite]
  refine ⟨fun _ ↦ ?_, fun _ ↦ by simp⟩
  rw [keeps_bind]
  refine hrows.mono ?_
  rintro rows held ⟨rfl, hloop⟩
  rw [keeps_bind]
  refine hloop.mono ?_
  rintro ⟨left, isOpen⟩ held ⟨rfl, hr⟩
  dsimp only at hr ⊢
  rw [keeps_bind]
  cases left with
  | inl s' =>
    obtain rfl : isOpen = false := hr
    exact (hend s').mono fun d held hheld ↦ by simp [hheld]
  | inr g =>
    obtain ⟨rfl, hg⟩ := hr
    exact (hleft g hg).mono fun d held hheld ↦ by simp [hheld]

theorem disciplined_upTo {c : Conn Bool} (hc : c.Disciplined) :
    ∀ n, (upTo c n).Disciplined
  | 0 => rfl
  | n + 1 => hc.bind fun ok ↦ by
    split
    · exact disciplined_upTo hc n
    · rfl

/-! ### The handlers that close their rows -/

section Handlers

variable {α : Type} {a : α} {c : Conn Bool} {k : Conn α}

theorem disciplined_ask : ask.Disciplined := fun _ ↦ rfl

theorem disciplined_statement : statement.Disciplined := ⟨rfl, fun _ ↦ ⟨rfl, rfl⟩⟩

/-- `if err != nil { return }`. -/
theorem orReturn (hc : c.Disciplined) (hk : k.Disciplined) :
    (c >>= fun ok ↦ if !ok then pure a else k).Disciplined :=
  hc.bind fun ok ↦ by
    cases ok
    · rfl
    · exact hk

/-- The same, with two things to go wrong. -/
theorem orReturn₂ {c' : Conn Bool} (hc : c.Disciplined) (hc' : c'.Disciplined)
    (hk : k.Disciplined) :
    (c >>= fun ok ↦ c' >>= fun ok' ↦ if !ok || !ok' then pure a else k).Disciplined :=
  hc.bind fun ok ↦ hc'.bind fun ok' ↦ by
    cases ok
    · rfl
    · cases ok'
      · rfl
      · exact hk

/-- `for rows.Next() { … }`, with the rows closed on every way out of it, and what comes after. -/
theorem afterRows {checked : Bool} {k : ℕ → Conn Unit} (hk : ∀ n, (k n).Disciplined) :
    (do match ← collectRows scanRow checked with
      | none => return
      | some n => k n : Conn Unit).Disciplined :=
  (staysOpen_scanRow.collectRows checked).bind fun n ↦ by
    cases n
    · rfl
    · exact hk _

theorem afterRowsSkipping {k : ℕ → Conn Unit} (hk : ∀ n, (k n).Disciplined) :
    (do match ← collectRows scanOrSkip false with
      | none => return
      | some n => k n : Conn Unit).Disciplined :=
  (staysOpen_scanOrSkip.collectRows false).bind fun n ↦ by
    cases n
    · rfl
    · exact hk _

/-- The result of the last step is not looked at. -/
theorem ignoring {β : Type} {c : Conn β} (hc : c.Disciplined) :
    (do let _ ← c : Conn Unit).Disciplined :=
  hc.bind fun _ ↦ rfl

/-- A query with a deferred close, and nothing more while its rows are open. -/
theorem disciplined_withRows {after : ℕ ⊕ Unit → Conn Unit}
    (hend : ∀ n, (after (.inl n)).Disciplined)
    (hleft : (after (.inr ())).Keeps true fun _ held ↦ held = true) :
    (withRows someRows scanRow 0 () after).Disciplined := by
  refine keeps_withRows (G := fun _ ↦ True) ?_ hend fun _ _ ↦ hleft
  rw [someRows, keeps_bind, keeps_rowCount]
  intro n
  refine ⟨rfl, (staysOpen_scanRow.keeps_forRows _ 0).mono ?_⟩
  rintro ⟨left, isOpen⟩ held ⟨hopen, hr⟩
  cases left with
  | inl s => exact ⟨hopen, hr⟩
  | inr g => exact ⟨hopen, hr, trivial⟩

theorem disciplined_campaignByID (found : Bool) : (campaignByID found).Disciplined := by
  simp [Disciplined, campaignByID]

theorem disciplined_charge (live : Bool) : (charge live).Disciplined := by
  simp [Disciplined, charge, ensureMonthlyGrant]

theorem disciplined_refundCharge (live : Bool) : (refundCharge live).Disciplined := by
  simp [Disciplined, refundCharge]

theorem disciplined_queueWebhook : queueWebhook.Disciplined := by
  simp [Disciplined, queueWebhook]

theorem disciplined_enqueueActivityWebhook : enqueueActivityWebhook.Disciplined :=
  orReturn disciplined_ask <| afterRowsSkipping fun n ↦
    ignoring (disciplined_upTo disciplined_queueWebhook n)

theorem disciplined_logActivity : logActivity.Disciplined :=
  disciplined_statement.bind fun ok ↦ by
    cases ok
    · rfl
    · exact disciplined_enqueueActivityWebhook

theorem disciplined_maybeNotifyLowCredits (live : Bool) :
    (maybeNotifyLowCredits live).Disciplined := by
  cases live
  · rfl
  · exact orReturn disciplined_statement <| orReturn disciplined_ask <|
      orReturn disciplined_statement <| disciplined_ask.bind fun ok ↦ by
        cases ok
        · rfl
        · exact disciplined_logActivity

theorem disciplined_recentActivity : recentActivity.Disciplined :=
  disciplined_withRows (fun _ ↦ rfl) rfl

theorem disciplined_handleMe : handleMe.Disciplined :=
  orReturn disciplined_statement <| orReturn disciplined_statement <|
    orReturn disciplined_statement <| orReturn disciplined_statement <|
      ignoring (staysOpen_scanRow.collectRows true)

theorem disciplined_handleListKeys : handleListKeys.Disciplined :=
  disciplined_withRows (fun _ ↦ rfl) rfl

theorem disciplined_handleAuditTally : handleAuditTally.Disciplined :=
  orReturn disciplined_ask <| orReturn disciplined_statement <|
    orReturn disciplined_statement <| orReturn disciplined_ask <|
      orReturn disciplined_statement <| orReturn disciplined_ask <| afterRows fun _ ↦
        orReturn disciplined_ask <| ignoring (staysOpen_scanRow.collectRows true)

theorem disciplined_handleListCampaigns : handleListCampaigns.Disciplined :=
  afterRows fun n ↦ ignoring (disciplined_upTo (disciplined_campaignByID true) n)

theorem disciplined_handleGetCampaign : handleGetCampaign.Disciplined :=
  disciplined_ask.bind fun found ↦ orReturn (disciplined_campaignByID found) <|
    ignoring (staysOpen_scanRow.collectRows true)

theorem disciplined_summarizeProgram : summarizeProgram.Disciplined :=
  orReturn disciplined_statement disciplined_statement

theorem disciplined_handleListPrograms : handleListPrograms.Disciplined :=
  afterRows fun n ↦ ignoring (disciplined_upTo disciplined_summarizeProgram n)

theorem disciplined_handleGetProgram : handleGetProgram.Disciplined :=
  orReturn disciplined_statement <| orReturn disciplined_ask <| afterRows fun n ↦
    orReturn (disciplined_upTo disciplined_statement n) <| afterRows fun _ ↦
      orReturn disciplined_summarizeProgram <| ignoring disciplined_statement

theorem disciplined_dayCounts : dayCounts.Disciplined :=
  orReturn disciplined_statement disciplined_statement

theorem disciplined_loadCredits (live : Bool) : (loadCredits live).Disciplined := by
  cases live
  · rfl
  · exact orReturn disciplined_statement disciplined_statement

theorem disciplined_handleOverview (live : Bool) : (handleOverview live).Disciplined :=
  orReturn (disciplined_upTo disciplined_statement 3) <| afterRows fun _ ↦
    orReturn (disciplined_upTo disciplined_dayCounts 30) <|
      disciplined_recentActivity.bind fun _ ↦ orReturn (disciplined_loadCredits live) <|
        ignoring (disciplined_upTo disciplined_statement 2)

theorem disciplined_handleCredits (live : Bool) : (handleCredits live).Disciplined :=
  orReturn (disciplined_loadCredits live) <| ignoring (staysOpen_scanRow.collectRows true)

theorem disciplined_handleUsage : handleUsage.Disciplined :=
  disciplined_withRows (fun _ ↦ orReturn disciplined_ask <| ignoring disciplined_statement) rfl

theorem disciplined_updateDelivery : updateDelivery.Disciplined := by
  simp [Disciplined, updateDelivery]

theorem disciplined_deliverDueWebhooks : deliverDueWebhooks.Disciplined :=
  orReturn disciplined_ask <| afterRowsSkipping fun n ↦
    ignoring (disciplined_upTo disciplined_updateDelivery n)

theorem disciplined_commitBatch (live : Bool) : (commitBatch live).Disciplined := by
  refine orReturn (disciplined_charge live) <| disciplined_ask.bind fun ok ↦ ?_
  cases ok
  · exact ignoring (disciplined_refundCharge live)
  · exact (disciplined_maybeNotifyLowCredits live).bind fun _ ↦ orReturn disciplined_statement <|
      disciplined_logActivity.bind fun _ ↦ ignoring disciplined_statement

theorem disciplined_commitPeriod (live : Bool) : (commitPeriod live).Disciplined :=
  orReturn disciplined_ask <| orReturn₂ disciplined_statement disciplined_ask <|
    orReturn₂ disciplined_statement disciplined_ask <| afterRows fun _ ↦
      orReturn disciplined_ask (disciplined_commitBatch live)

theorem disciplined_handleCommitTally (live : Bool) : (handleCommitTally live).Disciplined := by
  refine orReturn₂ disciplined_statement disciplined_ask <| disciplined_ask.bind fun given ↦ ?_
  cases given
  · exact disciplined_commitPeriod live
  · exact orReturn₂ (disciplined_upTo disciplined_statement 2) disciplined_ask
      (disciplined_commitPeriod live)

end Handlers

/-! ### The page of scans -/

section Scans

variable {t : ScanTables} {a : AuthCtx} {q : ScanQuery}

/-- The loop is left by its `break` only where there are more rows than the limit. -/
theorem keeps_scanEvents {limit : ℕ} {rows : List SharedEvent} (h : rows.length ≤ limit) :
    (forRows (scanEvent limit) rows []).Keeps true fun r held ↦
      r.2 = held ∧ Sum.elim (fun _ ↦ held = false) (fun g ↦ held = true ∧ g = .failed) r.1 := by
  refine keeps_forRows (I := fun rest scans ↦ scans.length + rest.length ≤ limit)
    (fun b rest scans hI ↦ ?_) (by simpa using h)
  rw [List.length_cons] at hI
  rw [scanEvent, keeps_ite]
  refine ⟨fun hfull ↦ absurd hfull (by omega), fun _ ↦ ?_⟩
  rw [keeps_bind, keeps_ask]
  intro ok
  cases ok
  · exact ⟨rfl, rfl⟩
  · refine ⟨rfl, ?_⟩
    show (scans ++ [b]).length + rest.length ≤ limit
    rw [List.length_append, List.length_singleton]
    omega

/-- With more rows than the limit, and no failure, the loop is left with its rows open. -/
theorem exists_more {limit : ℕ} {Q : (List SharedEvent ⊕ ScanStop) × Bool → Bool → Prop} :
    ∀ {rows scans : List SharedEvent}, limit < scans.length + rows.length → scans.length ≤ limit →
      (forRows (scanEvent limit) rows scans).Keeps true Q →
        ∃ page, Q (.inr (.more page), true) true
  | [], scans, hmore, hscans, _ => absurd hmore (by simpa using hscans)
  | b :: rest, scans, hmore, hscans, h => by
    rw [forRows, keeps_bind, keeps_ask] at h
    have hnext := h true
    rw [if_pos rfl, keeps_bind, scanEvent] at hnext
    by_cases hfull : scans.length = limit
    · rw [if_pos hfull] at hnext
      exact ⟨scans, hnext⟩
    · rw [if_neg hfull, keeps_bind, keeps_ask] at hnext
      have hread := hnext true
      rw [if_pos rfl] at hread
      refine exists_more ?_ ?_ hread
      · rw [List.length_append, List.length_singleton]
        rw [List.length_cons] at hmore
        omega
      · rw [List.length_append, List.length_singleton]
        omega

/-- The page is read with the discipline exactly where all that matches fits on it. -/
theorem disciplined_readScans_iff {id limit cursor : ℕ} :
    (readScans t id limit cursor).Disciplined ↔ (t.matching id cursor).length ≤ limit := by
  constructor
  · intro h
    by_contra hmore
    have hrows : limit < ((t.matching id cursor).take (limit + 1)).length := by
      rw [List.length_take]
      omega
    have hquery := h.2
    rw [keeps_bind, keeps_ask] at hquery
    have hloop := hquery true
    rw [if_pos rfl, keeps_bind, keeps_pure, keeps_bind] at hloop
    obtain ⟨page, hpage⟩ := exists_more (by simpa using hrows) (Nat.zero_le limit) hloop
    -- the summary asks for a connection while the rows hold it
    dsimp only at hpage
    rw [keeps_bind, summarizeScans, keeps_bind, keeps_statement] at hpage
    exact absurd hpage.1 (by decide)
  · intro hfits
    refine keeps_withRows (G := fun g ↦ g = .failed) ⟨rfl, keeps_scanEvents ?_⟩
      (fun scans ↦ ?_) fun g hg ↦ ?_
    · rw [List.length_take]
      exact (min_le_right _ _).trans hfits
    · exact orReturn disciplined_ask <| disciplined_statement.bind fun ok ↦ by
        cases ok <;> rfl
    · rw [hg]
      rfl

theorem keeps_campaignByID {Q : Bool → Bool → Prop} :
    (campaignByID true).Keeps false Q ↔ Q true false ∧ Q false false := by
  simp [campaignByID, and_comm]

/-- What a request asks for fits on a page, if it gets as far as its query. -/
def ScanTables.Fits (t : ScanTables) (a : AuthCtx) (q : ScanQuery) : Prop :=
  ∀ limit cursor, t.hasCampaign a (q.id.getD 0) → q.checkedLimit = .ok limit →
    q.checkedCursor = .ok cursor → (t.matching (q.id.getD 0).toNat cursor).length ≤ limit

/-- The list of scans keeps to the discipline exactly where all that matches fits on a page. -/
theorem disciplined_listScans_iff :
    (handleListScans t a q).Disciplined ↔ t.Fits a q := by
  by_cases hid : q.id.getD 0 ≤ 0
  · have hnone : t.hasCampaign a (q.id.getD 0) = false := by
      rw [ScanTables.hasCampaign, decide_eq_false_iff_not]
      exact fun h ↦ absurd h.1 (not_lt.2 hid)
    rw [handleListScans, if_pos hid]
    exact iff_of_true rfl fun _ _ hfound ↦ absurd hfound (by simp [hnone])
  rw [handleListScans, if_neg hid, Disciplined, keeps_bind]
  cases hfound : t.hasCampaign a (q.id.getD 0) with
  | false =>
    refine iff_of_true ?_ fun _ _ h ↦ absurd h (by simp [hfound])
    simp [campaignByID]
  | true =>
    rw [keeps_campaignByID]
    refine (and_iff_left rfl).trans ?_
    rw [if_neg (by decide)]
    cases hlimit : q.checkedLimit with
    | error problem => exact iff_of_true rfl fun _ _ _ h ↦ absurd (hlimit.symm.trans h) nofun
    | ok limit =>
      cases hcursor : q.checkedCursor with
      | error problem => exact iff_of_true rfl fun _ _ _ _ h ↦ absurd (hcursor.symm.trans h) nofun
      | ok cursor =>
        refine disciplined_readScans_iff.trans ⟨fun h limit' cursor' _ hl hc ↦ ?_, fun h ↦ ?_⟩
        · obtain rfl := Except.ok.inj (hlimit.symm.trans hl)
          obtain rfl := Except.ok.inj (hcursor.symm.trans hc)
          exact h
        · exact h limit cursor hfound hlimit hcursor

end Scans

/-! ### All requests -/

/-- A request to a handler that iterates rows, or the pass of the webhook worker. -/
inductive Endpoint where
  | me
  | listKeys
  | auditTally
  | listCampaigns
  | getCampaign
  | listRedemptions
  | listPrograms
  | getProgram
  | overview (live : Bool)
  | activity
  | credits (live : Bool)
  | usage
  | listScans (t : ScanTables) (a : AuthCtx) (q : ScanQuery)
  | commitTally (live : Bool)
  | listSettlements
  | listWebhooks
  | webhookPass

namespace Endpoint

/-- What a request does with the connection. -/
def program : Endpoint → Conn Unit
  | me => handleMe
  | listKeys => handleListKeys
  | auditTally => handleAuditTally
  | listCampaigns => handleListCampaigns
  | getCampaign => handleGetCampaign
  | listRedemptions => handleListRedemptions
  | listPrograms => handleListPrograms
  | getProgram => handleGetProgram
  | overview live => handleOverview live
  | activity => handleActivity
  | credits live => handleCredits live
  | usage => handleUsage
  | listScans t a q => do let _ ← handleListScans t a q
  | commitTally live => handleCommitTally live
  | listSettlements => handleListSettlements
  | listWebhooks => handleListWebhooks
  | webhookPass => deliverDueWebhooks

/-- A request for scans asks for no more than fits on its page. -/
def Fits : Endpoint → Prop
  | listScans t a q => t.Fits a q
  | _ => True

theorem disciplined_iff (e : Endpoint) : e.program.Disciplined ↔ e.Fits := by
  cases e with
  | me => exact iff_of_true disciplined_handleMe trivial
  | listKeys => exact iff_of_true disciplined_handleListKeys trivial
  | auditTally => exact iff_of_true disciplined_handleAuditTally trivial
  | listCampaigns => exact iff_of_true disciplined_handleListCampaigns trivial
  | getCampaign => exact iff_of_true disciplined_handleGetCampaign trivial
  | listRedemptions => exact iff_of_true disciplined_handleListKeys trivial
  | listPrograms => exact iff_of_true disciplined_handleListPrograms trivial
  | getProgram => exact iff_of_true disciplined_handleGetProgram trivial
  | overview live => exact iff_of_true (disciplined_handleOverview live) trivial
  | activity => exact iff_of_true disciplined_recentActivity trivial
  | credits live => exact iff_of_true (disciplined_handleCredits live) trivial
  | usage => exact iff_of_true disciplined_handleUsage trivial
  | listScans t a q => exact keeps_bind.trans disciplined_listScans_iff
  | commitTally live => exact iff_of_true (disciplined_handleCommitTally live) trivial
  | listSettlements => exact iff_of_true disciplined_handleListKeys trivial
  | listWebhooks => exact iff_of_true disciplined_handleListKeys trivial
  | webhookPass => exact iff_of_true disciplined_deliverDueWebhooks trivial

end Endpoint

namespace Sample

def account : AuthCtx := ⟨1, .test⟩

/-- A campaign with two events. -/
def tables : ScanTables where
  campaigns := [⟨1, account, 1, [], 100, false⟩]
  sharedCodes := [⟨1, 1, [88], none⟩]
  events := ⟨[⟨1, 1, 1, [], none, none, none⟩, ⟨2, 1, 1, [], none, none, none⟩], by decide⟩
  code_key := by simp

/-- A request for the first page of so many events. -/
def page (limit : ℤ) : Endpoint := .listScans tables account ⟨some 1, some (some limit), none⟩

theorem fits_page_two : (page 2).Fits := by
  intro limit cursor _ hlimit hcursor
  obtain rfl : 2 = limit := Except.ok.inj hlimit
  obtain rfl : 0 = cursor := Except.ok.inj hcursor
  decide

end Sample

/-- **Which requests complete.** A request never asks for the connection while it holds it, and
gives it back, exactly where it is no request for scans or what it asks for fits on its page. Such
requests, any number of them and in any schedule, all complete: no run of theirs is infinite, and
none stops before all are done. -/
theorem requests_complete {ι : Type} [Finite ι] [DecidableEq ι] (requests : ι → Endpoint) :
    (∀ i, (requests i).program.Disciplined ↔ (requests i).Fits) ∧
    ((∀ i, (requests i).Fits) →
      ∀ s, Reaches ⟨none, fun i ↦ (requests i).program⟩ s →
        (Finished s ∨ ∃ s', Step s s') ∧ Acc (fun s' s ↦ Step s s') s) := by
  refine ⟨fun i ↦ (requests i).disciplined_iff, fun hfits s hreach ↦ ⟨?_, ?_⟩⟩
  · have : Nonempty DbReply := ⟨⟨true, 0⟩⟩
    exact progress (fun i ↦ (requests i).disciplined_iff.2 (hfits i)) hreach
  · exact wellFounded_step.apply s

theorem requests_complete_two :
    Acc (fun s' s ↦ Step s s')
      ⟨none, fun i : Bool ↦ (if i then Sample.page 2 else .listPrograms).program⟩ := by
  refine ((requests_complete fun i : Bool ↦ if i then Sample.page 2 else .listPrograms).2 ?_ _
    .refl).2
  intro i
  cases i
  · trivial
  · exact Sample.fits_page_two

/-- A request for one of two events waits forever for the connection that its rows hold. -/
theorem listScans_waits_forever :
    ∃ s k, Reaches (alone (false, (Sample.page 1).program)) s ∧
      s.holder = some () ∧ s.clients () = .acquire k ∧
        ∀ s', Reaches s s' → s'.holder = some () ∧ s'.clients () = .acquire k := by
  have hreach := reaches_iterate (⟨true, 0⟩ : DbReply) (false, (Sample.page 1).program) 20
  have hasks : ((advance ⟨true, 0⟩)^[20] (false, (Sample.page 1).program)).2.asks = true := by
    decide
  obtain ⟨k, hk⟩ := asks_iff.1 hasks
  have hheld : (alone ((advance ⟨true, 0⟩)^[20] (false, (Sample.page 1).program))).holder =
      some () := by decide
  exact ⟨_, k, hreach, hheld, hk, fun s' h ↦ waits_forever hheld hk h⟩

end Connections

end Soroticket
