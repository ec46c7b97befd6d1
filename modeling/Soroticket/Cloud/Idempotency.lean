import Soroticket.Cloud.Handlers
import Soroticket.Machine.Interleaving

/-!
# Idempotency keys

A request with an `Idempotency-Key` reserves a row for its key before it runs its handler, stores
the response in the row afterwards, and only then answers with it. A request that finds its key
reserved replays the stored response, or is refused. Each request that stored a response then
deletes the rows that are older than 24 hours.

Every statement is a step of its own, and so is every reading of the clock, so a request can be
overtaken between any two of them; a request, or all of them, may stop for good anywhere. A step
leaves the table alone, reserves a row, stores a response or sweeps (`step_does`). What this
guarantees over a run is `Cloud.Replay`.
-/

namespace Soroticket

open Interleaving Interleaving.Service

namespace Idempotency

/-! ### Requests -/

/-- What ends the method and the target in the text a request is hashed as. -/
def newline : UInt8 := 10

/-- What a request asks for. The line of a request ends with the first newline. -/
structure RequestTarget where
  method : Bytes
  requestURI : Bytes
  body : Bytes
  newline_method : newline ∉ method
  newline_requestURI : newline ∉ requestURI
  deriving DecidableEq

/-- The text a request is hashed as. -/
def RequestTarget.material (t : RequestTarget) : Bytes :=
  t.method ++ newline :: (t.requestURI ++ newline :: t.body)

/-- A line can be told from what follows it. -/
theorem line_inj {l l' r r' : Bytes} (hl : newline ∉ l) (hl' : newline ∉ l')
    (h : l ++ newline :: r = l' ++ newline :: r') : l = l' ∧ r = r' := by
  induction l generalizing l' with
  | nil =>
    cases l' with
    | nil => exact ⟨rfl, (List.cons.inj h).2⟩
    | cons b l' => exact absurd ((List.cons.inj h).1 ▸ List.mem_cons_self) hl'
  | cons a l ih =>
    cases l' with
    | nil => exact absurd ((List.cons.inj h).1 ▸ List.mem_cons_self) hl
    | cons b l' =>
      obtain ⟨rfl, htail⟩ := List.cons.inj h
      obtain ⟨rfl, hr⟩ := ih (fun hm ↦ hl (List.mem_cons_of_mem a hm))
        (fun hm ↦ hl' (List.mem_cons_of_mem a hm)) htail
      exact ⟨rfl, hr⟩

/-- Requests are hashed as the same text where they ask for the same. -/
theorem RequestTarget.material_inj {t t' : RequestTarget} (h : t.material = t'.material) :
    t = t' := by
  obtain ⟨hmethod, hrest⟩ := line_inj t.newline_method t'.newline_method h
  obtain ⟨huri, hbody⟩ := line_inj t.newline_requestURI t'.newline_requestURI hrest
  cases t
  cases t'
  simp_all

/-- What a key is looked up by. -/
structure Slot where
  key : String
  account : AuthCtx
  endpoint : String
  deriving DecidableEq

/-- A request to a handler that `idempotent` wraps. -/
structure IdemCall where
  idempotencyKey : String
  account : AuthCtx
  endpoint : String
  target : RequestTarget

namespace IdemCall

/-- The row of a request. -/
def slot (c : IdemCall) : Slot := ⟨trimSpace c.idempotencyKey, c.account, c.endpoint⟩

/-- The fingerprint of a request. -/
def requestHash (d : Deployment) (c : IdemCall) : Bytes := hexRoot (d.refMac c.target.material)

end IdemCall

/-- `idempotencyKeyRE`. -/
def idempotencyKeyRE (key : String) : Bool :=
  0 < key.length ∧ key.length ≤ 255 ∧
    key.toList.all fun c ↦ c.isAlphanum ∨ c ∈ ['.', '_', ':', '-']

/-- The longest body of a request with a key. -/
def maxBodyLen : ℕ := 2 ^ 20

/-! ### Responses -/

/-- A response of a handler, as the table keeps it. The status `0` is kept for requests in
progress. -/
structure Response where
  status : ℕ
  contentType : String
  body : Bytes
  status_ne : status ≠ 0
  deriving DecidableEq

/-- `recorder`, with the content type from the header it shares with the writer it wraps. -/
structure Recorder where
  contentType : String
  status : ℕ
  buf : Bytes
  deriving DecidableEq

namespace Recorder

/-- A recorder before its handler runs. -/
def new : Recorder := ⟨"", 0, []⟩

/-- `recorder.WriteHeader`. -/
def writeHeader (r : Recorder) (code : ℕ) : Recorder :=
  if r.status ≠ 0 then r else { r with status := code }

/-- `recorder.Write`. -/
def write (r : Recorder) (b : Bytes) : Recorder :=
  let r := if r.status = 0 then r.writeHeader 200 else r
  { r with buf := r.buf ++ b }

/-- What is stored once the handler returns. -/
def response (r : Recorder) : Response where
  status := if r.status = 0 then 200 else r.status
  contentType := if r.contentType = "" then "application/json" else r.contentType
  body := r.buf
  status_ne := by
    split
    · decide
    · assumption

end Recorder

/-! ### The table -/

/-- A row of `idempotency_v2`. Its response is missing while its request is in progress. -/
structure IdemRow where
  requestHash : Bytes
  createdAt : ℤ
  response : Option Response
  deriving DecidableEq

/-- The table, and the clock. -/
structure State where
  rows : Slot → Option IdemRow
  clock : ℤ

/-- How long keys are kept, in seconds. -/
def day : ℤ := 24 * 60 * 60

namespace State

/-- Write the row of a key. -/
def put (s : State) (slot : Slot) (row : IdemRow) : State :=
  { s with rows := Function.update s.rows slot (some row) }

/-- The sweep. -/
def sweep (s : State) (cutoff : ℤ) : State :=
  { s with rows := fun slot ↦ (s.rows slot).filter fun row ↦ cutoff ≤ row.createdAt }

variable (s : State) (slot : Slot) (row : IdemRow) (cutoff : ℤ)

theorem rows_put : (s.put slot row).rows = Function.update s.rows slot (some row) := rfl

theorem clock_put : (s.put slot row).clock = s.clock := rfl

theorem clock_sweep : (s.sweep cutoff).clock = s.clock := rfl

variable {s slot row cutoff}

/-- A row that is recent enough survives the sweep. -/
theorem rows_sweep (h : s.rows slot = some row) (hrecent : cutoff ≤ row.createdAt) :
    (s.sweep cutoff).rows slot = some row := by
  show Option.filter _ (s.rows slot) = _
  rw [h, Option.filter_some, if_pos (decide_eq_true hrecent)]

/-- The sweep makes no rows. -/
theorem rows_of_sweep (h : (s.sweep cutoff).rows slot = some row) : s.rows slot = some row :=
  Option.eq_some_of_filter_eq_some h

end State

/-! ### The steps of a request -/

/-- Where a request is. A request that has reserved its key keeps the reading of the clock it was
reserved with. -/
inductive Phase where
  | arriving
  /-- It has no key, and runs its handler alone. -/
  | unkeyed
  | refused (problem : Problem)
  /-- The clock is read, and the insertion to come. -/
  | reserving (now : ℤ)
  /-- The insertion was ignored, and the row is to be read. -/
  | reading
  | executing (now : ℤ) (rec : Recorder)
  /-- The handler has returned, and the update is to come. -/
  | storing (now : ℤ) (response : Response)
  /-- The update failed, which is answered as an internal error. -/
  | unstored (now : ℤ) (response : Response)
  /-- The update is done, and the answer to come. -/
  | stored (now : ℤ) (response : Response)
  | acknowledged (now : ℤ) (response : Response)
  | sweeping (now : ℤ) (response : Response) (cutoff : ℤ)
  | finished (now : ℤ) (response : Response)
  /-- Answered with a stored response, marked as replayed. -/
  | replayed (response : Response)
  /-- Stopped for good. -/
  | crashed (last : Phase)
  deriving DecidableEq

/-- A request, and where it is. -/
structure Request where
  call : IdemCall
  phase : Phase

/-- What happens at a step: it goes ahead, its statement fails, the request stops for good, or its
handler does something. -/
inductive Choice where
  | go
  | fail
  | crash
  | contentType (type : String)
  | writeHeader (code : ℕ)
  | write (b : Bytes)
  deriving DecidableEq

/-- A request whose key was reserved for another request. -/
def mismatch : Problem := ⟨409, "Idempotency-Key was already used with different parameters"⟩

/-- A request whose key was reserved and has no response yet. -/
def inProgress : Problem := ⟨409, "a request with this Idempotency-Key is still in progress"⟩

/-- `idempotent`, up to its insertion. -/
def arrive (c : IdemCall) (bodyRead : Bool) (clock : ℤ) : Phase :=
  let key := trimSpace c.idempotencyKey
  if key = "" then .unkeyed
  else if idempotencyKeyRE key = false then
    .refused ⟨400, "Idempotency-Key must be 1-255 letters, digits, '.', '_', ':' or '-'"⟩
  else if bodyRead = false ∨ maxBodyLen < c.target.body.length then
    .refused ⟨413, "request body exceeds 1 MiB"⟩
  else .reserving clock

/-- The answer to a request whose key was reserved. -/
def answer (requestHash : Bytes) (row : IdemRow) : Phase :=
  if row.requestHash ≠ requestHash then .refused mismatch
  else row.response.elim (.refused inProgress) .replayed

/-- `idempotent`, one statement at a time. -/
def step (d : Deployment) (c : IdemCall) (s : State) : Choice → Phase → Option (Phase × State)
  | .go, .arriving => some (arrive c true s.clock, s)
  | .fail, .arriving => some (arrive c false s.clock, s)
  | .go, .reserving now =>
    match s.rows c.slot with
    | some _ => some (.reading, s)
    | none => some (.executing now .new, s.put c.slot ⟨c.requestHash d, now, none⟩)
  | .fail, .reserving _ => some (.refused ⟨500, "could not reserve idempotency key"⟩, s)
  | .go, .reading =>
    match s.rows c.slot with
    | some row => some (answer (c.requestHash d) row, s)
    | none => some (.refused ⟨500, "could not read idempotency result"⟩, s)
  | .fail, .reading => some (.refused ⟨500, "could not read idempotency result"⟩, s)
  | .contentType type, .executing now rec =>
    some (.executing now { rec with contentType := type }, s)
  | .writeHeader code, .executing now rec => some (.executing now (rec.writeHeader code), s)
  | .write b, .executing now rec => some (.executing now (rec.write b), s)
  | .go, .executing now rec => some (.storing now rec.response, s)
  | .go, .storing now response =>
    match s.rows c.slot with
    | some row =>
      if row.requestHash = c.requestHash d then
        some (.stored now response, s.put c.slot { row with response := some response })
      else some (.unstored now response, s)
    | none => some (.unstored now response, s)
  | .fail, .storing now response => some (.unstored now response, s)
  | .go, .stored now response => some (.acknowledged now response, s)
  | .go, .acknowledged now response => some (.sweeping now response (s.clock - day), s)
  | .go, .sweeping now response cutoff => some (.finished now response, s.sweep cutoff)
  | .fail, .sweeping now response _ => some (.finished now response, s)
  -- only a request that is under way can stop
  | .crash, .unkeyed => none
  | .crash, .refused _ => none
  | .crash, .finished _ _ => none
  | .crash, .replayed _ => none
  | .crash, .crashed _ => none
  | .crash, p => some (.crashed p, s)
  | _, _ => none

/-- The wrapped handlers as a service. From outside, time passes. -/
def service (d : Deployment) : Service State Request Choice ℕ where
  advance ch r s := (step d r.call s ch r.phase).map fun ps ↦ (⟨r.call, ps.1⟩, ps.2)
  outside seconds s := { s with clock := s.clock + seconds }

/-! ### What a request has done -/

namespace Phase

/-- The reading of the clock that a key was reserved with, by a request that runs its handler. -/
def reservedAt : Phase → Option ℤ
  | executing now _ => some now
  | storing now _ => some now
  | unstored now _ => some now
  | stored now _ => some now
  | acknowledged now _ => some now
  | sweeping now _ _ => some now
  | finished now _ => some now
  | crashed last => last.reservedAt
  | _ => none

/-- The response of a handler that has returned. -/
def response : Phase → Option Response
  | storing _ response => some response
  | unstored _ response => some response
  | stored _ response => some response
  | acknowledged _ response => some response
  | sweeping _ response _ => some response
  | finished _ response => some response
  | crashed last => last.response
  | _ => none

/-- The response of a handler, where its update succeeded. -/
def recorded : Phase → Option Response
  | stored _ response => some response
  | acknowledged _ response => some response
  | sweeping _ response _ => some response
  | finished _ response => some response
  | crashed last => last.recorded
  | _ => none

/-- The response of its own handler that a client has received. -/
def received : Phase → Option Response
  | acknowledged _ response => some response
  | sweeping _ response _ => some response
  | finished _ response => some response
  | crashed last => last.received
  | _ => none

/-- The reading of the clock that a key is about to be reserved with. -/
def pending : Phase → Option ℤ
  | reserving now => some now
  | _ => none

/-- The time before which rows are about to be deleted. -/
def cutoff : Phase → Option ℤ
  | sweeping _ _ cutoff => some cutoff
  | _ => none

/-- A request that found its key reserved for another: it reads the row, is refused, or stops. -/
def Turned : Phase → Prop
  | reading => True
  | refused problem => problem = mismatch
  | crashed (reserving _) => True
  | crashed reading => True
  | _ => False

theorem recorded_of_received {p : Phase} {response : Response} (h : p.received = some response) :
    p.recorded = some response := by
  induction p with
  | crashed last ih => exact ih h
  | acknowledged | sweeping | finished => exact h
  | _ => exact absurd h nofun

end Phase

/-- What an arriving request does next reserves nothing, and answers with nothing of a handler. -/
theorem arrive_cases (c : IdemCall) (bodyRead : Bool) (clock : ℤ) :
    arrive c bodyRead clock = .unkeyed ∨ (∃ problem, arrive c bodyRead clock = .refused problem) ∨
      arrive c bodyRead clock = .reserving clock := by
  fun_cases arrive c bodyRead clock with
  | case1 => exact Or.inl rfl
  | case2 => exact Or.inr (Or.inl ⟨_, rfl⟩)
  | case3 => exact Or.inr (Or.inl ⟨_, rfl⟩)
  | case4 => exact Or.inr (Or.inr rfl)

-- from here on an arriving request is opened through `arrive_cases` only
attribute [irreducible] arrive

theorem answer_cases (requestHash : Bytes) (row : IdemRow) :
    (∃ problem, answer requestHash row = .refused problem) ∨
      ∃ response, answer requestHash row = .replayed response := by
  rw [answer]
  split
  · exact Or.inl ⟨_, rfl⟩
  · cases row.response with
    | none => exact Or.inl ⟨_, rfl⟩
    | some response => exact Or.inr ⟨response, rfl⟩

/-- What a step does: it leaves the table alone, or reserves a row, or stores a response in one, or
sweeps. -/
inductive Does (d : Deployment) (c : IdemCall) (s : State) :
    Choice → Phase → Phase → State → Prop
  | quiet {ch : Choice} {p p' : Phase} (hreserved : p'.reservedAt = p.reservedAt)
      (hresponse : ∀ r, p.response = some r → p'.response = some r)
      (hrecorded : p'.recorded = p.recorded)
      (hpending : ∀ now, p'.pending = some now → now = s.clock)
      (hcutoff : ∀ t, p'.cutoff = some t → t + day = s.clock) : Does d c s ch p p' s
  | reserves {now : ℤ} (hfree : s.rows c.slot = none) :
      Does d c s .go (.reserving now) (.executing now .new)
        (s.put c.slot ⟨c.requestHash d, now, none⟩)
  | stores {now : ℤ} {response : Response} {row : IdemRow} (hrow : s.rows c.slot = some row)
      (hhash : row.requestHash = c.requestHash d) :
      Does d c s .go (.storing now response) (.stored now response)
        (s.put c.slot { row with response := some response })
  | sweeps {now : ℤ} {response : Response} {cutoff : ℤ} :
      Does d c s .go (.sweeping now response cutoff) (.finished now response) (s.sweep cutoff)

/-- A step that leaves the table alone, of a request that has not arrived at its handler. -/
theorem Does.idle {d : Deployment} {c : IdemCall} {s : State} {ch : Choice} {p p' : Phase}
    (hreserved : p.reservedAt = none) (hresponse : p.response = none)
    (hrecorded : p.recorded = none)
    (hp' : p' = .unkeyed ∨ (∃ problem, p' = .refused problem) ∨ p' = .reserving s.clock ∨
      ∃ response, p' = .replayed response) : Does d c s ch p p' s := by
  rcases hp' with rfl | ⟨problem, rfl⟩ | rfl | ⟨response, rfl⟩
  · exact .quiet hreserved.symm (fun _ h ↦ absurd (hresponse.symm.trans h) nofun) hrecorded.symm
      nofun nofun
  · exact .quiet hreserved.symm (fun _ h ↦ absurd (hresponse.symm.trans h) nofun) hrecorded.symm
      nofun nofun
  · exact .quiet hreserved.symm (fun _ h ↦ absurd (hresponse.symm.trans h) nofun) hrecorded.symm
      (fun _ h ↦ (Option.some.inj h).symm) nofun
  · exact .quiet hreserved.symm (fun _ h ↦ absurd (hresponse.symm.trans h) nofun) hrecorded.symm
      nofun nofun

theorem step_does {d : Deployment} {c : IdemCall} {s s' : State} {ch : Choice} {p p' : Phase}
    (h : step d c s ch p = some (p', s')) : Does d c s ch p p' s' := by
  revert h
  fun_cases step d c s ch p <;> intro h <;> cases h
  case case1 =>
    rcases arrive_cases c true s.clock with h | h | h
    · exact .idle rfl rfl rfl (Or.inl h)
    · exact .idle rfl rfl rfl (Or.inr (Or.inl h))
    · exact .idle rfl rfl rfl (Or.inr (Or.inr (Or.inl h)))
  case case2 =>
    rcases arrive_cases c false s.clock with h | h | h
    · exact .idle rfl rfl rfl (Or.inl h)
    · exact .idle rfl rfl rfl (Or.inr (Or.inl h))
    · exact .idle rfl rfl rfl (Or.inr (Or.inr (Or.inl h)))
  case case4 now hfree => exact .reserves hfree
  case case6 row _ =>
    rcases answer_cases (c.requestHash d) row with h | h
    · exact .idle rfl rfl rfl (Or.inr (Or.inl h))
    · exact .idle rfl rfl rfl (Or.inr (Or.inr (Or.inr h)))
  case case12 => exact .quiet rfl nofun rfl nofun nofun
  case case13 hrow hhash => exact .stores hrow hhash
  case case18 =>
    refine .quiet rfl (fun _ h ↦ h) rfl nofun fun t ht ↦ ?_
    rw [← Option.some.inj ht, Int.sub_add_cancel]
  case case19 => exact .sweeps
  -- the table, and what the request has done, stay as they are
  all_goals exact .quiet rfl (fun _ h ↦ h) rfl nofun nofun

end Idempotency

end Soroticket
