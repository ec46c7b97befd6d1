import Mathlib.Data.List.Flatten
import Soroticket.Cloud.Audit
import Soroticket.Cloud.Secrets
import Soroticket.Machine.Retries

/-!
# Deliveries of webhooks

An event is queued as a row for each webhook that subscribes to it. A pass reads the rows that are
due, sends each to the endpoint of its webhook, and writes into the row what came of it. Passes are
started by a ticker and by whoever has queued something, at any time; a pass that does not get the
lock does nothing. Meanwhile rows are queued and webhooks are disabled.

Here a pass is as many steps as others can come between: it tries the lock, asks the clock, reads
its batch, opens the secret of a row and sends, waits for the answer, asks the clock again, and
updates the row. What an endpoint has seen, and what the attempts came to, is kept in a log.

A row is a course of `Retries` under the policy of the service, with the events of its log
(`Invariant`). What a pass has in hand is what is in the table, because the lock is its alone; so
the number of attempts in the row, which is that of a batch read long ago, is right.
-/

namespace Soroticket

open Interleaving Interleaving.Service

namespace Deliveries

open Secrets (WebhookRow DeliveryRow Due attempted nextID)

/-! ### Tables -/

/-- What a service signs with: the secret in a box or the error of its cipher, and HMAC-SHA-256. -/
structure Signer where
  unsealBox : Bytes → Except String Bytes
  hmac : Bytes → Bytes → Bytes

/-- What an endpoint is sent. -/
structure Request where
  endpoint : String
  deliveryID : String
  eventType : String
  timestamp : String
  signature : String
  payload : Bytes
  deriving DecidableEq

/-- What comes of a request: the status of a response, or an error. -/
inductive Answer where
  | response (code : ℕ)
  | failure (message : String)
  deriving DecidableEq

/-- An attempt at a delivery is a request and its answer, or a secret that cannot be opened. -/
inductive Event where
  | sent (id : ℕ) (request : Request) (now : ℤ)
  | answered (id : ℕ) (answer : Answer) (now : ℤ)
  | unopened (id : ℕ) (now : ℤ)
  deriving DecidableEq

/-- The two tables, `webhookMu`, the clock, and what has been attempted so far. -/
structure Outbox where
  webhooks : List WebhookRow
  deliveries : List DeliveryRow
  locked : Bool
  clock : ℤ
  log : List Event
  webhook_key : (webhooks.map (·.id)).Nodup
  delivery_key : (deliveries.map (·.id)).Nodup

/-- Before anything is subscribed to. -/
def Outbox.empty (clock : ℤ) : Outbox := ⟨[], [], false, clock, [], List.nodup_nil, List.nodup_nil⟩

theorem lt_nextID {ids : List ℕ} {id : ℕ} (h : id ∈ ids) : id < nextID ids := by
  have hmax : ∀ (ids : List ℕ) (n : ℕ), n ≤ ids.foldl max n ∧ ∀ id ∈ ids, id ≤ ids.foldl max n := by
    intro ids
    induction ids with
    | nil => exact fun n ↦ ⟨le_rfl, fun id hid ↦ absurd hid List.not_mem_nil⟩
    | cons m ids ih =>
      intro n
      obtain ⟨hstart, hrest⟩ := ih (max n m)
      refine ⟨(le_max_left n m).trans hstart, fun id hid ↦ ?_⟩
      rcases List.mem_cons.1 hid with rfl | hid
      · exact (le_max_right n id).trans hstart
      · exact hrest id hid
  exact Nat.lt_succ_of_le ((hmax ids 0).2 id h)

theorem nodup_nextID {ids : List ℕ} (h : ids.Nodup) : (ids ++ [nextID ids]).Nodup := by
  refine List.nodup_append.2 ⟨h, List.nodup_singleton _, fun a ha b hb ↦ ?_⟩
  rw [List.mem_singleton.1 hb]
  exact (lt_nextID ha).ne

namespace Outbox

/-- One more event. -/
def record (s : Outbox) (e : Event) : Outbox := { s with log := s.log ++ [e] }

/-- The row of a new webhook. -/
def newWebhook (s : Outbox) (a : AuthCtx) (url : String) (secretEnc : Bytes)
    (secretPrefix : String) (events : List String) : WebhookRow :=
  ⟨nextID (s.webhooks.map (·.id)), a, url, secretEnc, secretPrefix, events, true, s.clock, none⟩

theorem nodup_newWebhook (s : Outbox) (a : AuthCtx) (url : String) (secretEnc : Bytes)
    (secretPrefix : String) (events : List String) :
    ((s.webhooks ++ [s.newWebhook a url secretEnc secretPrefix events]).map (·.id)).Nodup := by
  rw [List.map_append]
  exact nodup_nextID s.webhook_key

/-- The webhooks after an account has disabled one. -/
def disabled (s : Outbox) (a : AuthCtx) (id : ℤ) : List WebhookRow :=
  s.webhooks.map fun w ↦
    if w.id = id ∧ w.account = a ∧ w.active then
      { w with active := false, disabledAt := some s.clock }
    else w

theorem ids_disabled (s : Outbox) (a : AuthCtx) (id : ℤ) :
    (s.disabled a id).map (·.id) = s.webhooks.map (·.id) := by
  rw [disabled, List.map_map]
  refine List.map_congr_left fun w _ ↦ ?_
  rw [Function.comp_apply]
  split <;> rfl

theorem nodup_disabled (s : Outbox) (a : AuthCtx) (id : ℤ) :
    ((s.disabled a id).map (·.id)).Nodup := by
  rw [ids_disabled]
  exact s.webhook_key

/-- The deliveries that are due, with their webhooks. The rows are in the order of their ids. -/
def dueDeliveries (s : Outbox) (now : ℤ) : List Due :=
  (s.deliveries.flatMap fun row ↦
    if row.status ∈ [.pending, .retrying] ∧ row.nextAttemptAt ≤ now then
      (s.webhooks.filter fun w ↦ w.id = row.webhookID ∧ w.active).map (row, ·)
    else []).take 20

/-- The deliveries after an attempt at one of them, which had been made `attempts` times when the
batch was read. -/
def noted (s : Outbox) (id attempts status : ℕ) (now : ℤ) (error : Option String) :
    List DeliveryRow :=
  s.deliveries.map fun row ↦
    if row.id = id then attempted row (attempts + 1) status now error else row

theorem ids_noted (s : Outbox) (id attempts status : ℕ) (now : ℤ) (error : Option String) :
    (s.noted id attempts status now error).map (·.id) = s.deliveries.map (·.id) := by
  rw [noted, List.map_map]
  refine List.map_congr_left fun row _ ↦ ?_
  rw [Function.comp_apply]
  split
  · rcases error with - | error
    · rfl
    · rw [attempted]
      split <;> rfl
  · rfl

theorem nodup_noted (s : Outbox) (id attempts status : ℕ) (now : ℤ) (error : Option String) :
    ((s.noted id attempts status now error).map (·.id)).Nodup := by
  rw [ids_noted]
  exact s.delivery_key

/-- The row of a new delivery. -/
def newDelivery (s : Outbox) (webhookID : ℕ) (deliveryID eventType : String) (payload : Bytes)
    (createdAt : ℤ) : DeliveryRow :=
  ⟨nextID (s.deliveries.map (·.id)), webhookID, deliveryID, eventType, payload, .pending, 0, none,
    none, createdAt, createdAt, none⟩

theorem nodup_newDelivery (s : Outbox) (webhookID : ℕ) (deliveryID eventType : String)
    (payload : Bytes) (createdAt : ℤ) :
    ((s.deliveries ++ [s.newDelivery webhookID deliveryID eventType payload createdAt]).map
      (·.id)).Nodup := by
  rw [List.map_append]
  exact nodup_nextID s.delivery_key

end Outbox

/-! ### What is queued and what is sent -/

/-- What `queueWebhookAt` is called with. The data is the text of its JSON, if it has one. -/
structure Queued where
  webhookID : ℕ
  eventType : String
  data : Option (List Char)
  env : CloudEnv
  createdAt : ℤ

/-- The payload of a delivery. -/
def Queued.payload (q : Queued) (deliveryID : String) (data : List Char) : Bytes :=
  encodeText (Json.object ("created_at".toList, Json.integer q.createdAt)
    [("data".toList, data), ("id".toList, Json.quote deliveryID.toList),
      ("livemode".toList, "false".toList),
      ("mode".toList, Json.quote (Secrets.externalMode q.env).toList),
      ("network".toList, Json.quote "testnet".toList), ("production".toList, "false".toList),
      ("type".toList, Json.quote q.eventType.toList)])

/-- `webhookSignature`. -/
def Signer.webhookSignature (K : Signer) (secret : Bytes) (timestamp : String) (payload : Bytes) :
    String :=
  "v1=" ++ String.ofList ((hexEncode (K.hmac secret (utf8 timestamp ++ utf8 "." ++ payload))).map
    fun b ↦ Char.ofNat b.toNat)

/-- What `sendWebhook` sends. -/
def Signer.request (K : Signer) (item : Due) (secret : Bytes) (now : ℤ) : Request :=
  ⟨item.2.url, item.1.deliveryID, item.1.eventType, toString now,
    K.webhookSignature secret (toString now) item.1.payload, item.1.payload⟩

/-- What `sendWebhook` returns. -/
def Answer.result : Answer → ℕ × Option String
  | response code =>
    (code, if code < 200 ∨ 300 ≤ code then some ("endpoint returned HTTP " ++ toString code)
      else none)
  | failure message => (0, some message)

/-- Whether an answer is a response of class 2xx. -/
def Answer.ok : Answer → Bool
  | response code => 200 ≤ code ∧ code < 300
  | failure _ => false

theorem Answer.result_eq_none {a : Answer} : a.result.2 = none ↔ a.ok = true := by
  rcases a with code | message
  · rw [result, ok, decide_eq_true_eq, ite_eq_right_iff]
    refine ⟨fun h ↦ ?_, fun h hbad ↦ ?_⟩
    · by_contra hbad
      exact absurd (h (by omega)) (Option.some_ne_none _)
    · omega
  · exact ⟨fun h ↦ absurd h (Option.some_ne_none _), fun h ↦ absurd h Bool.false_ne_true⟩

/-! ### Steps -/

/-- Where a pass, a caller of `queueWebhookAt` or a request to disable a webhook is. -/
inductive Place where
  | trying
  | reading
  | querying (now : ℤ)
  | delivering (due : List Due)
  | sending (item : Due) (due : List Due)
  /-- The attempt has been made. -/
  | timing (item : Due) (status : ℕ) (error : Option String) (due : List Due)
  | updating (item : Due) (status : ℕ) (error : Option String) (now : ℤ) (due : List Due)
  | returned
  | queueing (q : Queued)
  | inserting (q : Queued) (deliveryID : String) (payload : Bytes)
  | queued (deliveryID : Option String)
  | disabling (a : AuthCtx) (id : Bytes)
  | responded (result : Except Problem Unit)

/-- What is decided at a step: that it goes well or fails, the rows of the batch that can be read,
the random bytes of an identifier, or the answer of an endpoint. -/
inductive Choice where
  | go
  | fail
  | scan (readable : Due → Bool)
  | draw (random : Bytes)
  | answer (a : Answer)

/-- `handleDisableWebhook`, up to its statement. -/
def disableID (id : Bytes) : Except Problem ℤ :=
  match parseInt id with
  | some id => if id ≤ 0 then .error ⟨400, "invalid webhook id"⟩ else .ok id
  | none => .error ⟨400, "invalid webhook id"⟩

/-- `deliverDueWebhooks`, `queueWebhookAt` and `handleDisableWebhook`. Updates of a row of
`webhook_deliveries` do not fail. -/
def Place.step (K : Signer) (s : Outbox) : Choice → Place → Option (Place × Outbox)
  | .go, .trying =>
    some (if s.locked then (.returned, s) else (.reading, { s with locked := true }))
  | .go, .reading => some (.querying s.clock, s)
  | .scan readable, .querying now => some (.delivering ((s.dueDeliveries now).filter readable), s)
  | .fail, .querying _ => some (.delivering [], s)
  | .go, .delivering [] => some (.returned, { s with locked := false })
  | .go, .delivering (item :: due) =>
    match K.unsealBox item.2.secretEnc with
    | .ok secret =>
      some (.sending item due, s.record (.sent item.1.id (K.request item secret s.clock) s.clock))
    | .error message =>
      some (.timing item 0 (some message) due, s.record (.unopened item.1.id s.clock))
  | .answer a, .sending item due =>
    some (.timing item a.result.1 a.result.2 due, s.record (.answered item.1.id a s.clock))
  | .go, .timing item status error due => some (.updating item status error s.clock due, s)
  | .go, .updating item status error now due =>
    some (.delivering due, { s with
      deliveries := s.noted item.1.id item.1.attempts status now error
      delivery_key := s.nodup_noted item.1.id item.1.attempts status now error })
  | .draw random, .queueing q =>
    if random.length = 16 then
      let deliveryID := "whd_" ++ Secrets.randHex random
      some (match q.data with
        | some data => .inserting q deliveryID (q.payload deliveryID data)
        | none => .queued none, s)
    else none
  | .fail, .queueing _ => some (.queued none, s)
  | .go, .inserting q deliveryID payload =>
    -- the identifier is unique in the table, and the webhook is referred to
    if deliveryID ∈ s.deliveries.map (·.deliveryID) ∨ q.webhookID ∉ s.webhooks.map (·.id) then
      some (.queued none, s)
    else some (.queued (some deliveryID), { s with
      deliveries := s.deliveries ++
        [s.newDelivery q.webhookID deliveryID q.eventType payload q.createdAt]
      delivery_key := s.nodup_newDelivery q.webhookID deliveryID q.eventType payload q.createdAt })
  | .fail, .inserting _ _ _ => some (.queued none, s)
  | .go, .disabling a id =>
    match disableID id with
    | .error p => some (.responded (.error p), s)
    | .ok id =>
      if s.webhooks.any fun w ↦ w.id = id ∧ w.account = a ∧ w.active then
        some (.responded (.ok ()), { s with
          webhooks := s.disabled a id
          webhook_key := s.nodup_disabled a id })
      else some (.responded (.error ⟨404, "active webhook not found"⟩), s)
  | .fail, .disabling _ id =>
    match disableID id with
    | .error p => some (.responded (.error p), s)
    | .ok _ => some (.responded (.error Secrets.writeInternal), s)
  | _, _ => none

/-- What may be started. -/
inductive Job where
  | deliverDueWebhooks
  | queueWebhookAt (q : Queued)
  | handleDisableWebhook (a : AuthCtx) (id : Bytes)

/-- Where a job starts. -/
def Job.start : Job → Place
  | deliverDueWebhooks => .trying
  | queueWebhookAt q => .queueing q
  | handleDisableWebhook a id => .disabling a id

/-- What happens outside: time passes, or a webhook is subscribed. -/
inductive Outside where
  | tick (seconds : ℕ)
  | subscribe (a : AuthCtx) (url : String) (secretEnc : Bytes) (secretPrefix : String)
      (events : List String)

/-- Deliveries, and what they are made with. -/
def service (K : Signer) : Service Outbox Place Choice Outside where
  advance ch p s := p.step K s ch
  outside
    | .tick seconds, s => { s with clock := s.clock + seconds }
    | .subscribe a url secretEnc secretPrefix events, s =>
      { s with
        webhooks := s.webhooks ++ [s.newWebhook a url secretEnc secretPrefix events]
        webhook_key := s.nodup_newWebhook a url secretEnc secretPrefix events }

/-- A run of jobs, from the start of the service. -/
def start (jobs : ℕ → Job) (clock : ℤ) : Config Outbox Place :=
  ⟨Outbox.empty clock, fun i ↦ (jobs i).start⟩

/-! ### What a step does -/

/-- Whether a pass has the lock. -/
def Place.locks : Place → Bool
  | reading | querying _ | delivering _ | sending _ _ | timing _ _ _ _ | updating _ _ _ _ _ => true
  | _ => false

/-- The steps there are. -/
inductive Step (K : Signer) (s : Outbox) : Place → Place → Outbox → Prop
  | lock (hfree : s.locked = false) : Step K s .trying .reading { s with locked := true }
  | time : Step K s .reading (.querying s.clock) s
  | batch (now : ℤ) (readable : Due → Bool) :
      Step K s (.querying now) (.delivering ((s.dueDeliveries now).filter readable)) s
  | unlock : Step K s (.delivering []) .returned { s with locked := false }
  | send (item : Due) (due : List Due) (secret : Bytes) :
      Step K s (.delivering (item :: due)) (.sending item due)
        (s.record (.sent item.1.id (K.request item secret s.clock) s.clock))
  | unopened (item : Due) (due : List Due) (message : String) :
      Step K s (.delivering (item :: due)) (.timing item 0 (some message) due)
        (s.record (.unopened item.1.id s.clock))
  | answer (item : Due) (due : List Due) (a : Answer) :
      Step K s (.sending item due) (.timing item a.result.1 a.result.2 due)
        (s.record (.answered item.1.id a s.clock))
  | note (item : Due) (status : ℕ) (error : Option String) (due : List Due) :
      Step K s (.timing item status error due) (.updating item status error s.clock due) s
  | update (item : Due) (status : ℕ) (error : Option String) (now : ℤ) (due : List Due) :
      Step K s (.updating item status error now due) (.delivering due) { s with
        deliveries := s.noted item.1.id item.1.attempts status now error
        delivery_key := s.nodup_noted item.1.id item.1.attempts status now error }
  | insert (q : Queued) (deliveryID : String) (payload : Bytes) :
      Step K s (.inserting q deliveryID payload) (.queued (some deliveryID)) { s with
        deliveries := s.deliveries ++
          [s.newDelivery q.webhookID deliveryID q.eventType payload q.createdAt]
        delivery_key := s.nodup_newDelivery q.webhookID deliveryID q.eventType payload q.createdAt }
  | disable (a : AuthCtx) (raw : Bytes) (id : ℤ) :
      Step K s (.disabling a raw) (.responded (.ok ())) { s with
        webhooks := s.disabled a id
        webhook_key := s.nodup_disabled a id }
  | pass (p p' : Place) (hp : p.locks = false) (hp' : p'.locks = false) : Step K s p p' s

theorem step_of_advance {K : Signer} {s s' : Outbox} {p p' : Place} {ch : Choice}
    (h : p.step K s ch = some (p', s')) : Step K s p p' s' := by
  unfold Place.step at h
  split at h
  · -- a pass that tries the lock
    split at h <;> cases h
    · exact .pass _ _ rfl rfl
    · rename_i hfree
      exact .lock (Bool.eq_false_iff.2 hfree)
  · cases h
    exact .time
  · cases h
    exact .batch _ _
  · -- a batch that cannot be read is empty
    cases h
    have hstep : ∀ now, Step K s (.querying now)
        (.delivering ((s.dueDeliveries now).filter fun _ ↦ false)) s := fun now ↦ .batch now _
    simp only [List.filter_eq_nil_iff.2 fun _ _ ↦ Bool.false_ne_true] at hstep
    exact hstep _
  · cases h
    exact .unlock
  · split at h <;> cases h
    · exact .send _ _ _
    · exact .unopened _ _ _
  · cases h
    exact .answer _ _ _
  · cases h
    exact .note _ _ _ _
  · cases h
    exact .update _ _ _ _ _
  · split at h
    · cases h
      refine .pass _ _ rfl ?_
      split <;> rfl
    · cases h
  · cases h
    exact .pass _ _ rfl rfl
  · split at h <;> cases h
    · exact .pass _ _ rfl rfl
    · exact .insert _ _ _
  · cases h
    exact .pass _ _ rfl rfl
  · split at h
    · cases h
      exact .pass _ _ rfl rfl
    · split at h <;> cases h
      · exact .disable _ _ _
      · exact .pass _ _ rfl rfl
  · split at h <;> cases h <;> exact .pass _ _ rfl rfl
  · cases h

/-- Events are only added. -/
theorem Step.log_prefix {K : Signer} {s s' : Outbox} {p p' : Place} (h : Step K s p p' s') :
    s.log <+: s'.log := by
  cases h with
  | send | unopened | answer => exact List.prefix_append _ _
  | _ => exact List.prefix_rfl

/-- The lock is taken when it is free, and given back by its holder. -/
theorem lockDiscipline (K : Signer) : LockDiscipline (service K)
    (fun p (_ : Unit) ↦ p.locks = true) (fun s _ ↦ s.locked = true) where
  advance h _ := by
    cases step_of_advance h with
    | lock hfree => exact Or.inr (Or.inl ⟨by rw [hfree]; exact Bool.false_ne_true, rfl⟩)
    | unlock => exact Or.inr (Or.inr ⟨rfl, Bool.false_ne_true⟩)
    | pass _ _ hp hp' => exact Or.inl ⟨by rw [hp, hp'], Iff.rfl⟩
    | _ => exact Or.inl ⟨Iff.rfl, Iff.rfl⟩
  outside event _ _ := by cases event <;> exact Iff.rfl

/-! ### Rows and courses -/

/-- The policy of the service. -/
def policy : Retries.Policy :=
  ⟨Secrets.webhookMaxAttempts, fun k ↦ 30 * 2 ^ min (k - 1) 9, by decide⟩

/-- The delivery an event is about. -/
def Event.delivery : Event → ℕ
  | sent id _ _ | answered id _ _ | unopened id _ => id

/-- An event, as an event of the course of its delivery. -/
def Event.ofCourse : Event → List Retries.Event
  | sent _ _ now => [.begun now]
  | answered _ a now => [.ended a.ok now]
  | unopened _ now => [.begun now, .ended false now]

/-- The events of a delivery. -/
def eventsOf (id : ℕ) (log : List Event) : List Retries.Event :=
  log.flatMap fun e ↦ if e.delivery = id then e.ofCourse else []

/-- The course of a delivery. -/
def Outbox.course (s : Outbox) (id : ℕ) : Option Retries.Course := policy.run (eventsOf id s.log)

theorem eventsOf_append (id : ℕ) (log log' : List Event) :
    eventsOf id (log ++ log') = eventsOf id log ++ eventsOf id log' := List.flatMap_append

theorem eventsOf_cons (id : ℕ) (e : Event) (log : List Event) :
    eventsOf id (e :: log) = (if e.delivery = id then e.ofCourse else []) ++ eventsOf id log := rfl

theorem eventsOf_eq_nil {id : ℕ} {log : List Event} (h : ∀ e ∈ log, e.delivery ≠ id) :
    eventsOf id log = [] :=
  List.flatMap_eq_nil_iff.2 fun e he ↦ if_neg (h e he)

theorem course_record_of_ne (s : Outbox) {e : Event} {id : ℕ} (h : e.delivery ≠ id) :
    (s.record e).course id = s.course id := by
  rw [Outbox.course, Outbox.record, eventsOf_append, eventsOf_cons, if_neg h]
  exact congrArg policy.run (List.append_nil _)

theorem course_record (s : Outbox) (e : Event) :
    (s.record e).course e.delivery =
      (s.course e.delivery).bind fun k ↦ policy.runFrom k e.ofCourse := by
  rw [Outbox.course, Outbox.record, eventsOf_append, eventsOf_cons, if_pos rfl]
  exact (congrArg policy.run (congrArg _ (List.append_nil _))).trans
    (Retries.Policy.run_append _ _)

/-- One more event of a course. -/
theorem runFrom_singleton (k : Retries.Course) (e : Retries.Event) :
    policy.runFrom k [e] = policy.step k e := Option.bind_fun_some _

theorem course_sent (s : Outbox) (id : ℕ) (q : Request) (now : ℤ) :
    (s.record (.sent id q now)).course id =
      (s.course id).bind fun k ↦ policy.step k (.begun now) :=
  (course_record s (.sent id q now)).trans
    (congrArg _ (funext fun k ↦ runFrom_singleton k (.begun now)))

theorem course_answered (s : Outbox) (id : ℕ) (a : Answer) (now : ℤ) :
    (s.record (.answered id a now)).course id =
      (s.course id).bind fun k ↦ policy.step k (.ended a.ok now) :=
  (course_record s (.answered id a now)).trans
    (congrArg _ (funext fun k ↦ runFrom_singleton k (.ended a.ok now)))

theorem course_unopened (s : Outbox) (id : ℕ) (now : ℤ) :
    (s.record (.unopened id now)).course id =
      ((s.course id).bind fun k ↦ policy.step k (.begun now)).bind fun k ↦
        policy.step k (.ended false now) := by
  rw [Option.bind_assoc]
  exact (course_record s (.unopened id now)).trans (congrArg _ (funext fun k ↦
    congrArg _ (funext fun k ↦ runFrom_singleton k (.ended false now))))

/-- The status of a row whose course goes on. -/
def openStatus (failures : ℕ) : Secrets.DeliveryStatus :=
  if failures = 0 then .pending else .retrying

/-- A row has been written since the last event of its delivery. -/
def Settled (s : Outbox) (row : DeliveryRow) : Prop :=
  ∃ k, s.course row.id = some k ∧
    match k.stage with
    | .waiting => row.status = openStatus k.failures ∧ row.attempts = k.failures ∧
        ∀ due ∈ k.due, due ≤ row.nextAttemptAt
    | .attempting => False
    | .succeeded => row.status = .delivered
    | .failed => row.status = .failed

/-- A row may be attempted. -/
structure Ready (s : Outbox) (row : DeliveryRow) : Prop where
  mem : row ∈ s.deliveries
  status : row.status = openStatus row.attempts
  due : row.nextAttemptAt ≤ s.clock

/-- An attempt at a row is being made. -/
def Attempting (s : Outbox) (row : DeliveryRow) : Prop :=
  ∃ k, s.course row.id = some k ∧ k.stage = .attempting ∧ k.failures = row.attempts

/-- An attempt at a row has been made by a time, and the row has not been written since. -/
def Attempted (s : Outbox) (row : DeliveryRow) (now : ℤ) : Option String → Prop
  | none => ∃ k, s.course row.id = some k ∧ k.stage = .succeeded
  | some _ => ∃ k, s.course row.id = some k ∧ k.failures = row.attempts + 1 ∧
      (k.stage = .failed ∧ Secrets.webhookMaxAttempts ≤ k.failures ∨
        k.stage = .waiting ∧ k.failures < Secrets.webhookMaxAttempts ∧
          ∃ ended ≤ now, k.due = some (ended + policy.delay k.failures))

/-- A batch. -/
structure Batch (s : Outbox) (due : List Due) : Prop where
  nodup : (due.map (·.1.id)).Nodup
  ready : ∀ item ∈ due, Ready s item.1

/-- What is known of what a pass has in hand. -/
def Place.Fits (s : Outbox) : Place → Prop
  | querying now => now ≤ s.clock
  | delivering due => Batch s due
  | sending item due => Batch s (item :: due) ∧ Attempting s item.1
  | timing item _ error due => Batch s (item :: due) ∧ Attempted s item.1 s.clock error
  | updating item _ error now due => Batch s (item :: due) ∧ Attempted s item.1 now error
  | _ => True

/-- The delivery that a pass is at. -/
def Place.inHand : Place → Option ℕ
  | sending item _ | timing item _ _ _ | updating item _ _ _ _ => some item.1.id
  | _ => none

/-- What an event says of the row of its delivery. -/
def Event.About (row : DeliveryRow) : Event → Prop
  | sent _ q _ => q.deliveryID = row.deliveryID ∧ q.payload = row.payload
  | _ => True

/-- What holds of the service at any time. -/
structure Invariant (c : Config Outbox Place) : Prop where
  known : ∀ e ∈ c.shared.log, ∃ row ∈ c.shared.deliveries, row.id = e.delivery ∧ e.About row
  settled : ∀ row ∈ c.shared.deliveries,
    (∀ i, (c.requests i).inHand ≠ some row.id) → Settled c.shared row
  fits : ∀ i, (c.requests i).Fits c.shared

theorem fits_of_not_locks {p : Place} (h : p.locks = false) (s : Outbox) : p.Fits s := by
  cases p <;> first | exact trivial | exact absurd h (by simp [Place.locks])

theorem inHand_of_not_locks {p : Place} (h : p.locks = false) : p.inHand = none := by
  cases p <;> first | rfl | exact absurd h (by simp [Place.locks])

/-! ### What an attempt does to its course -/

variable {K : Signer} {s s' : Outbox} {row : DeliveryRow}

theorem openStatus_ne {n : ℕ} : openStatus n ≠ .delivered ∧ openStatus n ≠ .failed := by
  rw [openStatus]
  split <;> exact ⟨by decide, by decide⟩

/-- A row that is written and may be attempted waits, and is due. -/
theorem Settled.waiting (h : Settled s row) (hready : Ready s row) :
    ∃ k, s.course row.id = some k ∧ k.stage = .waiting ∧ k.failures = row.attempts ∧
      ∀ due ∈ k.due, due ≤ s.clock := by
  obtain ⟨k, hk, hrow⟩ := h
  rw [hready.status] at hrow
  split at hrow
  · rename_i hstage
    obtain ⟨-, hattempts, hdue⟩ := hrow
    exact ⟨k, hk, hstage, hattempts.symm, fun due h ↦ (hdue due h).trans hready.due⟩
  · exact hrow.elim
  · exact absurd hrow openStatus_ne.1
  · exact absurd hrow openStatus_ne.2

/-- The course of a row that is due, once an attempt has begun. -/
theorem Settled.begin (h : Settled s row) (hready : Ready s row) :
    ∃ k, ((s.course row.id).bind fun k ↦ policy.step k (.begun s.clock)) = some k ∧
      k.stage = .attempting ∧ k.failures = row.attempts := by
  obtain ⟨k, hk, hstage, hfailures, hdue⟩ := h.waiting hready
  rw [hk, Option.bind_some, Retries.Policy.step_begun hstage hdue]
  exact ⟨_, rfl, rfl, hfailures⟩

theorem Settled.send (h : Settled s row) (hready : Ready s row) (q : Request) :
    Attempting (s.record (.sent row.id q s.clock)) row := by
  obtain ⟨k, hk, hattempting⟩ := h.begin hready
  exact ⟨k, (course_sent s row.id q s.clock).trans hk, hattempting⟩

/-- A failure of what is being attempted. -/
theorem attempted_of_failure {k : Retries.Course} {now : ℤ} (hstage : k.stage = .attempting)
    (hfailures : k.failures = row.attempts)
    (hcourse : s.course row.id = policy.step k (.ended false now)) (error : String) :
    Attempted s row now (some error) := by
  rw [Retries.Policy.step_failure hstage, hfailures] at hcourse
  split at hcourse
  · rename_i hlimit
    exact ⟨_, hcourse, rfl, Or.inl ⟨rfl, hlimit⟩⟩
  · rename_i hlimit
    exact ⟨_, hcourse, rfl, Or.inr ⟨rfl, not_le.1 hlimit, now, le_rfl, rfl⟩⟩

theorem Settled.unopened (h : Settled s row) (hready : Ready s row) (error : String) :
    Attempted (s.record (.unopened row.id s.clock)) row s.clock (some error) := by
  obtain ⟨k, hk, hstage, hfailures⟩ := h.begin hready
  refine attempted_of_failure hstage hfailures ?_ error
  rw [course_unopened, hk]
  rfl

theorem Attempting.answer (h : Attempting s row) (a : Answer) :
    Attempted (s.record (.answered row.id a s.clock)) row s.clock a.result.2 := by
  obtain ⟨k, hk, hstage, hfailures⟩ := h
  have hcourse := course_answered s row.id a s.clock
  rw [hk, Option.bind_some] at hcourse
  rcases hok : a.ok with - | -
  · obtain ⟨error, herror⟩ : ∃ error, a.result.2 = some error := by
      rw [← Option.isSome_iff_exists, Option.isSome_iff_ne_none, Ne, Answer.result_eq_none, hok]
      exact Bool.false_ne_true
    rw [hok] at hcourse
    rw [herror]
    exact attempted_of_failure hstage hfailures hcourse error
  · rw [hok, Retries.Policy.step_success hstage] at hcourse
    rw [Answer.result_eq_none.2 hok]
    exact ⟨_, hcourse, rfl⟩

/-- What is written into a row is what its course has come to. -/
theorem Attempted.settled {now : ℤ} {error : Option String} (h : Attempted s row now error)
    {s' : Outbox} (hlog : s'.log = s.log) (status : ℕ) :
    Settled s' (attempted row (row.attempts + 1) status now error) := by
  have hcourse : ∀ id, s'.course id = s.course id := fun id ↦ by
    rw [Outbox.course, hlog, Outbox.course]
  rcases error with - | error
  · obtain ⟨k, hk, hstage⟩ := h
    refine ⟨k, (hcourse _).trans hk, ?_⟩
    rw [hstage]
    rfl
  · obtain ⟨k, hk, hfailures, ⟨hstage, hlimit⟩ | ⟨hstage, hlimit, ended, hended, hdue⟩⟩ := h
    · rw [attempted, ← hfailures, if_pos hlimit]
      refine ⟨k, (hcourse _).trans hk, ?_⟩
      rw [hstage]
    · rw [attempted, ← hfailures, if_neg (not_le.2 hlimit)]
      refine ⟨k, (hcourse _).trans hk, ?_⟩
      rw [hstage, hdue]
      have hopen : openStatus k.failures = .retrying := if_neg (by omega)
      refine ⟨hopen.symm, rfl, fun due hmem ↦ ?_⟩
      rw [← Option.some.inj hmem]
      exact add_le_add_left hended _

/-! ### Batches -/

/-- A row is in a batch once, since a webhook is in its table once. -/
theorem length_webhooks_le_one (s : Outbox) (row : DeliveryRow) :
    (s.webhooks.filter fun w ↦ w.id = row.webhookID ∧ w.active).length ≤ 1 := by
  have hnodup : ((s.webhooks.filter fun w ↦ w.id = row.webhookID ∧ w.active).map (·.id)).Nodup :=
    s.webhook_key.sublist (List.filter_sublist.map _)
  have hall : ∀ id ∈ (s.webhooks.filter fun w ↦ w.id = row.webhookID ∧ w.active).map (·.id),
      id = row.webhookID := by
    intro id hid
    obtain ⟨w, hw, rfl⟩ := List.mem_map.1 hid
    exact (of_decide_eq_true (List.mem_filter.1 hw).2).1
  rw [List.eq_replicate_of_mem hall, List.nodup_replicate, List.length_map] at hnodup
  exact hnodup

theorem ids_dueDeliveries_sublist (s : Outbox) (now : ℤ) :
    ((s.dueDeliveries now).map (·.1.id)).Sublist (s.deliveries.map (·.id)) := by
  refine ((List.take_sublist _ _).map _).trans ?_
  rw [List.map_flatMap, List.map_eq_flatMap]
  refine List.Sublist.flatMap_right _ fun row _ ↦ ?_
  split
  · -- one webhook at most
    rw [List.map_map]
    change (List.map (Function.const WebhookRow row.id) _).Sublist (List.replicate 1 row.id)
    rw [List.map_const, List.replicate_sublist_replicate]
    exact length_webhooks_le_one s row
  · exact List.nil_sublist _

theorem of_mem_dueDeliveries {now : ℤ} {item : Due} (h : item ∈ s.dueDeliveries now) :
    item.1 ∈ s.deliveries ∧ item.1.status ∈ [.pending, .retrying] ∧
      item.1.nextAttemptAt ≤ now ∧ item.2 ∈ s.webhooks ∧ item.2.id = item.1.webhookID ∧
      item.2.active = true := by
  obtain ⟨row, hrow, hitem⟩ := List.mem_flatMap.1 (List.mem_of_mem_take h)
  split at hitem
  · rename_i hdue
    obtain ⟨w, hw, rfl⟩ := List.mem_map.1 hitem
    obtain ⟨hmem, hw⟩ := List.mem_filter.1 hw
    exact ⟨hrow, hdue.1, hdue.2, hmem, of_decide_eq_true hw⟩
  · exact absurd hitem List.not_mem_nil

/-- **What is due may be attempted.** -/
theorem batch_dueDeliveries (hsettled : ∀ row ∈ s.deliveries, Settled s row) {now : ℤ}
    (hnow : now ≤ s.clock) (readable : Due → Bool) :
    Batch s ((s.dueDeliveries now).filter readable) where
  nodup := s.delivery_key.sublist
    ((List.filter_sublist.map _).trans (ids_dueDeliveries_sublist s now))
  ready item hitem := by
    obtain ⟨hmem, hstatus, hdue, -⟩ := of_mem_dueDeliveries (List.mem_filter.1 hitem).1
    refine ⟨hmem, ?_, hdue.trans hnow⟩
    obtain ⟨k, -, hrow⟩ := hsettled _ hmem
    split at hrow
    · rw [hrow.1, hrow.2.1]
    · exact hrow.elim
    · rw [hrow] at hstatus
      exact absurd hstatus (by decide)
    · rw [hrow] at hstatus
      exact absurd hstatus (by decide)

/-! ### What other steps leave alone -/

/-- What steps other than those of the pass with the lock do to the tables and the log. -/
structure Grows (s s' : Outbox) : Prop where
  log : s'.log = s.log
  clock : s.clock ≤ s'.clock
  rows : s.deliveries ⊆ s'.deliveries

namespace Grows

variable (h : Grows s s')

include h

theorem course (id : ℕ) : s'.course id = s.course id := by
  rw [Outbox.course, h.log, Outbox.course]

theorem settled (hrow : Settled s row) : Settled s' row := by
  rwa [Settled, h.course]

theorem batch {due : List Due} (hdue : Batch s due) : Batch s' due where
  nodup := hdue.nodup
  ready item hitem := by
    obtain ⟨hmem, hstatus, hready⟩ := hdue.ready item hitem
    exact ⟨h.rows hmem, hstatus, hready.trans h.clock⟩

theorem attempted {now now' : ℤ} (hnow : now ≤ now') {error : Option String}
    (hrow : Attempted s row now error) : Attempted s' row now' error := by
  rcases error with - | error
  · rwa [Attempted, h.course]
  · rw [Attempted, h.course]
    obtain ⟨k, hk, hfailures, hfailed | ⟨hstage, hlimit, ended, hended, hdue⟩⟩ := hrow
    · exact ⟨k, hk, hfailures, Or.inl hfailed⟩
    · exact ⟨k, hk, hfailures, Or.inr ⟨hstage, hlimit, ended, hended.trans hnow, hdue⟩⟩

theorem fits {p : Place} (hp : p.Fits s) : p.Fits s' := by
  cases p with
  | querying now => exact le_trans hp h.clock
  | delivering due => exact h.batch hp
  | sending item due =>
    refine ⟨h.batch hp.1, ?_⟩
    rw [Attempting, h.course]
    exact hp.2
  | timing item status error due => exact ⟨h.batch hp.1, h.attempted h.clock hp.2⟩
  | updating item status error now due => exact ⟨h.batch hp.1, h.attempted le_rfl hp.2⟩
  | _ => trivial

end Grows

/-- **A step without the lock** keeps the invariant, where it leaves the log alone and writes no row
but new ones. -/
theorem Invariant.grow {c : Config Outbox Place} (hc : Invariant c) (h : Grows c.shared s')
    (hnew : ∀ row ∈ s'.deliveries, row ∈ c.shared.deliveries ∨ Settled s' row) {p : ℕ → Place}
    (hp : ∀ i, p i = c.requests i ∨ (p i).Fits s' ∧ (c.requests i).inHand = none) :
    Invariant ⟨s', p⟩ where
  known e he := by
    obtain ⟨row, hrow, habout⟩ := hc.known e (h.log ▸ he)
    exact ⟨row, h.rows hrow, habout⟩
  settled row hrow hfree := by
    rcases hnew row hrow with hold | hsettled
    · refine h.settled (hc.settled row hold fun i ↦ ?_)
      rcases hp i with heq | ⟨-, hnone⟩
      · rw [← heq]
        exact hfree i
      · rw [hnone]
        exact (Option.some_ne_none _).symm
    · exact hsettled
  fits i := by
    rcases hp i with heq | ⟨hfits, -⟩
    · change (p i).Fits s'
      rw [heq]
      exact h.fits (hc.fits i)
    · exact hfits

/-- Where one pass has the lock, no other has. -/
def Alone (c : Config Outbox Place) (i : ℕ) : Prop := ∀ j, j ≠ i → (c.requests j).locks = false

/-- **A step with the lock** keeps the invariant, where it leaves every row settled but the one it
has in hand. -/
theorem Invariant.hold {c : Config Outbox Place} {i : ℕ} (halone : Alone c i) {p : Place}
    (hknown : ∀ e ∈ s'.log, ∃ row ∈ s'.deliveries, row.id = e.delivery ∧ e.About row)
    (hsettled : ∀ row ∈ s'.deliveries, p.inHand ≠ some row.id → Settled s' row)
    (hfits : p.Fits s') : Invariant ⟨s', Function.update c.requests i p⟩ where
  known := hknown
  settled row hrow hfree := by
    refine hsettled row hrow ?_
    have hi : (Function.update c.requests i p i).inHand ≠ some row.id := hfree i
    rwa [Function.update_self] at hi
  fits j := by
    rcases eq_or_ne j i with rfl | hj
    · change (Function.update c.requests j p j).Fits s'
      rw [Function.update_self]
      exact hfits
    · change (Function.update c.requests i p j).Fits s'
      rw [Function.update_of_ne hj]
      exact fits_of_not_locks (halone j hj) s'

/-- A row that the pass with the lock has not in hand is settled. -/
theorem Invariant.settled_of_alone {c : Config Outbox Place} (hc : Invariant c) {i : ℕ}
    (halone : Alone c i) (hrow : row ∈ c.shared.deliveries)
    (hi : (c.requests i).inHand ≠ some row.id) : Settled c.shared row := by
  refine hc.settled row hrow fun j ↦ ?_
  rcases eq_or_ne j i with rfl | hj
  · exact hi
  · rw [inHand_of_not_locks (halone j hj)]
    exact (Option.some_ne_none _).symm

/-! ### The invariant -/

theorem known_record {c : Config Outbox Place} (hc : Invariant c) {e : Event}
    (he : ∃ row ∈ c.shared.deliveries, row.id = e.delivery ∧ e.About row) :
    ∀ e' ∈ (c.shared.record e).log,
      ∃ row ∈ (c.shared.record e).deliveries, row.id = e'.delivery ∧ e'.About row := by
  intro e' he'
  rcases List.mem_append.1 he' with hold | hnew
  · exact hc.known e' hold
  · rw [List.mem_singleton.1 hnew]
    exact he

/-- Another row is as settled as before. -/
theorem settled_record {e : Event} (hne : e.delivery ≠ row.id) (h : Settled s row) :
    Settled (s.record e) row := by
  rwa [Settled, course_record_of_ne s hne]

theorem batch_record {due : List Due} (h : Batch s due) (e : Event) : Batch (s.record e) due :=
  ⟨h.nodup, fun item hitem ↦ ⟨(h.ready item hitem).mem, (h.ready item hitem).status,
    (h.ready item hitem).due⟩⟩

theorem Batch.tail {item : Due} {due : List Due} (h : Batch s (item :: due)) : Batch s due :=
  ⟨(List.nodup_cons.1 h.nodup).2, fun item' hitem ↦ h.ready item' (List.mem_cons_of_mem _ hitem)⟩

/-- A row that is not about to be written stays. -/
theorem mem_noted {id attempts status : ℕ} {now : ℤ} {error : Option String}
    (hrow : row ∈ s.deliveries) (hne : row.id ≠ id) :
    row ∈ s.noted id attempts status now error :=
  List.mem_map.2 ⟨row, hrow, if_neg hne⟩

/-- What is in the table once a row has been written. -/
theorem noted_cases {item : DeliveryRow} (hitem : item ∈ s.deliveries) {status : ℕ} {now : ℤ}
    {error : Option String} (hrow : row ∈ s.noted item.id item.attempts status now error) :
    row = attempted item (item.attempts + 1) status now error ∨
      row ∈ s.deliveries ∧ row.id ≠ item.id := by
  obtain ⟨row₀, hrow₀, rfl⟩ := List.mem_map.1 hrow
  split
  · rename_i hid
    rw [List.inj_on_of_nodup_map s.delivery_key hrow₀ hitem hid]
    exact Or.inl rfl
  · rename_i hid
    exact Or.inr ⟨hrow₀, hid⟩

theorem attempted_id (row : DeliveryRow) (attempts status : ℕ) (now : ℤ)
    (error : Option String) : (attempted row attempts status now error).id = row.id ∧
      (attempted row attempts status now error).webhookID = row.webhookID ∧
      (attempted row attempts status now error).deliveryID = row.deliveryID ∧
      (attempted row attempts status now error).payload = row.payload := by
  rcases error with - | error
  · exact ⟨rfl, rfl, rfl, rfl⟩
  · rw [attempted]
    split <;> exact ⟨rfl, rfl, rfl, rfl⟩

/-- A new row is settled: nothing is known of its delivery. -/
theorem settled_newDelivery {c : Config Outbox Place} (hc : Invariant c)
    (hlog : s'.log = c.shared.log) (webhookID : ℕ) (deliveryID eventType : String)
    (payload : Bytes) (createdAt : ℤ) :
    Settled s' (c.shared.newDelivery webhookID deliveryID eventType payload createdAt) := by
  refine ⟨Retries.Course.start, ?_, rfl, rfl, fun due h ↦ absurd h (Option.some_ne_none _).symm⟩
  rw [Outbox.course, hlog, eventsOf_eq_nil]
  · rfl
  · intro e he heq
    obtain ⟨row, hrow, hid, -⟩ := hc.known e he
    have hlt : row.id < nextID (c.shared.deliveries.map (·.id)) :=
      lt_nextID (List.mem_map_of_mem hrow)
    exact absurd (hid.trans heq) hlt.ne

/-- The invariant survives a step. -/
theorem Invariant.step {c : Config Outbox Place} (hc : Invariant c) {i : ℕ} {p p' : Place}
    (hp : c.requests i = p) (halone : p.locks = true → Alone c i)
    (hstep : Step K c.shared p p' s') : Invariant ⟨s', Function.update c.requests i p'⟩ := by
  have hfits := hc.fits i
  rw [hp] at hfits
  -- the rows that are settled while this request has the lock
  have hsettled : p.locks = true → ∀ row ∈ c.shared.deliveries, p.inHand ≠ some row.id →
      Settled c.shared row := by
    intro hlocks row hrow hhand
    exact hc.settled_of_alone (halone hlocks) hrow (hp ▸ hhand)
  -- the steps without the lock
  have hgrow : Grows c.shared s' →
      (∀ row ∈ s'.deliveries, row ∈ c.shared.deliveries ∨ Settled s' row) → p.inHand = none →
        p'.Fits s' → Invariant ⟨s', Function.update c.requests i p'⟩ := by
    intro hgrows hnew hnone hfits'
    refine hc.grow hgrows hnew fun j ↦ ?_
    rcases eq_or_ne j i with rfl | hj
    · rw [Function.update_self, hp]
      exact Or.inr ⟨hfits', hnone⟩
    · exact Or.inl (Function.update_of_ne hj _ _)
  cases hstep with
  | lock hfree =>
    exact hgrow ⟨rfl, le_rfl, List.Subset.refl _⟩ (fun row hrow ↦ Or.inl hrow) rfl trivial
  | time =>
    exact .hold (halone rfl) hc.known (fun row hrow _ ↦ hsettled rfl row hrow
      (Option.some_ne_none _).symm) (le_refl c.shared.clock)
  | batch now readable =>
    have hall : ∀ row ∈ c.shared.deliveries, Settled c.shared row := fun row hrow ↦
      hsettled rfl row hrow (Option.some_ne_none _).symm
    exact .hold (halone rfl) hc.known (fun row hrow _ ↦ hall row hrow)
      (batch_dueDeliveries hall hfits readable)
  | unlock =>
    exact .hold (halone rfl) hc.known (fun row hrow _ ↦ hsettled rfl row hrow
      (Option.some_ne_none _).symm) trivial
  | send item due secret =>
    have hready := hfits.ready item List.mem_cons_self
    have hitem := hsettled rfl item.1 hready.mem (Option.some_ne_none _).symm
    refine .hold (halone rfl) (known_record hc ⟨item.1, hready.mem, rfl, rfl, rfl⟩) ?_
      ⟨batch_record hfits _, hitem.send hready _⟩
    intro row hrow hhand
    exact settled_record (fun heq ↦ hhand (congrArg some heq))
      (hsettled rfl row hrow (Option.some_ne_none _).symm)
  | unopened item due message =>
    have hready := hfits.ready item List.mem_cons_self
    have hitem := hsettled rfl item.1 hready.mem (Option.some_ne_none _).symm
    refine .hold (halone rfl) (known_record hc ⟨item.1, hready.mem, rfl, trivial⟩) ?_
      ⟨batch_record hfits _, hitem.unopened hready message⟩
    intro row hrow hhand
    exact settled_record (fun heq ↦ hhand (congrArg some heq))
      (hsettled rfl row hrow (Option.some_ne_none _).symm)
  | answer item due a =>
    have hready := hfits.1.ready item List.mem_cons_self
    refine .hold (halone rfl) (known_record hc ⟨item.1, hready.mem, rfl, trivial⟩) ?_
      ⟨batch_record hfits.1 _, hfits.2.answer a⟩
    intro row hrow hhand
    exact settled_record (fun heq ↦ hhand (congrArg some heq)) (hsettled rfl row hrow hhand)
  | note item status error due =>
    exact .hold (halone rfl) hc.known (fun row hrow hhand ↦ hsettled rfl row hrow hhand) hfits
  | update item status error now due =>
    obtain ⟨hbatch, hattempted⟩ := hfits
    have hitem := (hbatch.ready item List.mem_cons_self).mem
    refine .hold (halone rfl) ?_ ?_ ⟨hbatch.tail.nodup, fun item' hitem' ↦ ?_⟩
    · -- what has been sent is what the row still says
      intro e he
      obtain ⟨row, hrow, hid, habout⟩ := hc.known e he
      refine ⟨_, List.mem_map_of_mem hrow, ?_⟩
      split
      · obtain ⟨hid', -, hdelivery, hpayload⟩ :=
          attempted_id row (item.1.attempts + 1) status now error
        refine ⟨hid'.trans hid, ?_⟩
        cases e with
        | sent id q now => exact ⟨habout.1.trans hdelivery.symm, habout.2.trans hpayload.symm⟩
        | _ => trivial
      · exact ⟨hid, habout⟩
    · intro row hrow _
      rcases noted_cases hitem hrow with rfl | ⟨hold, hne⟩
      · exact hattempted.settled rfl status
      · exact hsettled rfl row hold fun heq ↦ hne (Option.some.inj heq).symm
    · -- the rest of the batch is about other rows
      obtain ⟨hmem, hstatus, hdue⟩ := hbatch.tail.ready item' hitem'
      have hne : item'.1.id ≠ item.1.id := fun heq ↦
        (List.nodup_cons.1 hbatch.nodup).1 (List.mem_map.2 ⟨item', hitem', heq⟩)
      exact ⟨mem_noted hmem hne, hstatus, hdue⟩
  | insert q deliveryID payload =>
    refine hgrow ⟨rfl, le_rfl, List.subset_append_left _ _⟩ (fun row hrow ↦ ?_) rfl trivial
    rcases List.mem_append.1 hrow with hold | hnew
    · exact Or.inl hold
    · rw [List.mem_singleton.1 hnew]
      exact Or.inr (settled_newDelivery hc rfl _ _ _ _ _)
  | disable a raw id =>
    exact hgrow ⟨rfl, le_rfl, List.Subset.refl _⟩ (fun row hrow ↦ Or.inl hrow) rfl trivial
  | pass _ _ hunlocked hunlocked' =>
    exact hgrow ⟨rfl, le_rfl, List.Subset.refl _⟩ (fun row hrow ↦ Or.inl hrow)
      (inHand_of_not_locks hunlocked) (fits_of_not_locks hunlocked' _)

/-! ### Runs -/

/-- The service after some turns of a run. -/
def history (K : Signer) (jobs : ℕ → Job) (clock : ℤ) (turns : List (Turn Choice Outside)) (n : ℕ) :
    Config Outbox Place :=
  (service K).after (start jobs clock) turns n

section Runs

variable {jobs : ℕ → Job} {clock : ℤ} {turns : List (Turn Choice Outside)} {m n i : ℕ}

theorem start_locks (job : Job) : job.start.locks = false := by
  cases job <;> rfl

theorem alone_history {i : ℕ}
    (hlocks : ((history K jobs clock turns n).requests i).locks = true) :
    Alone (history K jobs clock turns n) i := by
  have hfree : ∀ i, (jobs i).start.locks ≠ true := fun i ↦ by
    rw [start_locks]
    exact Bool.false_ne_true
  have hexclusive : Exclusive _ _ ((service K).serve (start jobs clock) (turns.take n)) :=
    (lockDiscipline K).exclusive_serve
      (fun _ ↦ ⟨fun i hi ↦ absurd hi (hfree i), fun i _ hi ↦ absurd hi (hfree i)⟩) _
  exact fun j hj ↦ Bool.eq_false_iff.2 fun hjlocks ↦ hj ((hexclusive ()).2 j i hjlocks hlocks)

variable (K jobs clock turns n) in
/-- What a turn does. -/
theorem history_succ_cases :
    history K jobs clock turns (n + 1) = history K jobs clock turns n ∨
      (∃ i p' s', Step K (history K jobs clock turns n).shared
          ((history K jobs clock turns n).requests i) p' s' ∧
        history K jobs clock turns (n + 1) =
          ⟨s', Function.update (history K jobs clock turns n).requests i p'⟩) ∨
      ∃ event, history K jobs clock turns (n + 1) =
        ⟨(service K).outside event (history K jobs clock turns n).shared,
          (history K jobs clock turns n).requests⟩ := by
  rcases after_succ_cases (service K) (start jobs clock) turns n with
    hpass | ⟨i, choice, p', s', hstep, hturn⟩ | houtside
  · exact Or.inl hpass
  · exact Or.inr (Or.inl ⟨i, p', s', step_of_advance hstep, hturn⟩)
  · exact Or.inr (Or.inr houtside)

variable (K) in
theorem grows_outside (s : Outbox) (event : Outside) : Grows s ((service K).outside event s) := by
  cases event with
  | tick seconds =>
    exact ⟨rfl, le_add_of_nonneg_right (Int.natCast_nonneg seconds), List.Subset.refl _⟩
  | subscribe => exact ⟨rfl, le_rfl, List.Subset.refl _⟩

variable (K) in
theorem rows_outside (s : Outbox) (event : Outside) :
    ((service K).outside event s).deliveries = s.deliveries := by
  cases event <;> rfl

variable (K jobs clock turns n) in
/-- **The invariant holds at any time of any run.** -/
theorem invariant_history : Invariant (history K jobs clock turns n) := by
  induction n with
  | zero =>
    refine ⟨fun e he ↦ absurd he List.not_mem_nil, fun row hrow ↦ absurd hrow List.not_mem_nil,
      fun i ↦ fits_of_not_locks (start_locks (jobs i)) _⟩
  | succ n ih =>
    rcases history_succ_cases K jobs clock turns n with
      hpass | ⟨i, p', s', hstep, hturn⟩ | ⟨event, hturn⟩
    · rw [hpass]
      exact ih
    · rw [hturn]
      exact ih.step rfl alone_history hstep
    · rw [hturn]
      refine ih.grow (grows_outside K _ event) (fun row hrow ↦ Or.inl ?_) fun i ↦ Or.inl rfl
      rwa [rows_outside] at hrow

end Runs

/-! ### What the log says -/

namespace Event

/-- Whether a delivery is sent. -/
def isSent (id : ℕ) : Event → Bool
  | sent d _ _ => d = id
  | _ => false

/-- When an attempt at a delivery starts. -/
def startedAt (id : ℕ) : Event → Option ℤ
  | sent d _ now | unopened d now => if d = id then some now else none
  | answered _ _ _ => none

/-- When a failed attempt at a delivery is completed. -/
def failedAt (id : ℕ) : Event → Option ℤ
  | sent _ _ _ => none
  | answered d a now => if d = id ∧ a.ok = false then some now else none
  | unopened d now => if d = id then some now else none

end Event

/-- The failed attempts at a delivery. -/
def failures (id : ℕ) (log : List Event) : ℕ := log.countP fun e ↦ (e.failedAt id).isSome

variable {id : ℕ} {log : List Event}

theorem isSent_of_ne {e : Event} (h : e.delivery ≠ id) : e.isSent id = false := by
  cases e with
  | sent => exact decide_eq_false h
  | _ => rfl

theorem failedAt_of_ne {e : Event} (h : e.delivery ≠ id) : e.failedAt id = none := by
  cases e with
  | sent => rfl
  | answered => exact if_neg fun h' ↦ h h'.1
  | unopened => exact if_neg h

theorem failedAt_isSome (e : Event) :
    (e.failedAt e.delivery).isSome = e.ofCourse.any Retries.Event.isFailure := by
  cases e with
  | sent => rfl
  | answered id a now =>
    rcases hok : a.ok with - | - <;>
      simp [Event.failedAt, Event.delivery, Event.ofCourse, Retries.Event.isFailure, hok]
  | unopened id now => exact congrArg _ (if_pos rfl)

theorem countP_isSent_le (id : ℕ) (log : List Event) :
    log.countP (·.isSent id) ≤ (eventsOf id log).countP Retries.Event.isBegun := by
  induction log with
  | nil => exact le_rfl
  | cons e log ih =>
    rw [List.countP_cons, eventsOf_cons, List.countP_append, Nat.add_comm]
    refine Nat.add_le_add ?_ ih
    by_cases h : e.delivery = id
    · rw [if_pos h]
      cases e with
      | sent =>
        change _ ≤ 1
        split <;> omega
      | _ => exact Nat.zero_le _
    · rw [isSent_of_ne h]
      exact Nat.zero_le _

theorem countP_isFailure (id : ℕ) (log : List Event) :
    (eventsOf id log).countP Retries.Event.isFailure = failures id log := by
  induction log with
  | nil => rfl
  | cons e log ih =>
    rw [eventsOf_cons, List.countP_append, ih, failures, failures, List.countP_cons, Nat.add_comm]
    refine congrArg _ ?_
    by_cases h : e.delivery = id
    · subst h
      rw [if_pos rfl, failedAt_isSome]
      cases e with
      | sent => rfl
      | answered id a now => rcases hok : a.ok with - | - <;> simp [Event.ofCourse, hok,
          Retries.Event.isFailure]
      | unopened => rfl
    · rw [if_neg h, failedAt_of_ne h]
      rfl

theorem eventsOf_sent (id : ℕ) (q : Request) (now : ℤ) (log : List Event) :
    eventsOf id (.sent id q now :: log) = .begun now :: eventsOf id log := by
  rw [eventsOf_cons]
  exact congrArg (· ++ _) (if_pos rfl)

theorem eventsOf_answered (id : ℕ) (a : Answer) (now : ℤ) (log : List Event) :
    eventsOf id (.answered id a now :: log) = .ended a.ok now :: eventsOf id log := by
  rw [eventsOf_cons]
  exact congrArg (· ++ _) (if_pos rfl)

theorem eventsOf_unopened (id : ℕ) (now : ℤ) (log : List Event) :
    eventsOf id (.unopened id now :: log) =
      .begun now :: .ended false now :: eventsOf id log := by
  rw [eventsOf_cons]
  exact congrArg (· ++ _) (if_pos rfl)

/-- Where a failed attempt is completed, the course has a failure, and before it the beginning of an
attempt at most. -/
theorem eventsOf_failed {e : Event} {now : ℤ} (he : e.failedAt id = some now) :
    ∃ start, start.countP Retries.Event.isFailure = 0 ∧ ∀ log, eventsOf id (e :: log) =
      start ++ .ended false now :: eventsOf id log := by
  cases e with
  | sent => exact absurd he (Option.some_ne_none _).symm
  | answered d a now' =>
    obtain ⟨⟨rfl, hok⟩, hnow⟩ := Option.ite_none_right_eq_some.1 he
    obtain rfl := Option.some.inj hnow
    exact ⟨[], rfl, fun log ↦ by rw [eventsOf_answered, hok, List.nil_append]⟩
  | unopened d now' =>
    obtain ⟨rfl, hnow⟩ := Option.ite_none_right_eq_some.1 he
    obtain rfl := Option.some.inj hnow
    exact ⟨[.begun now'], rfl, fun log ↦ eventsOf_unopened _ _ _⟩

/-- Where an attempt starts, the course has the beginning of one. -/
theorem eventsOf_started {e : Event} {now : ℤ} (he : e.startedAt id = some now) :
    ∃ rest, ∀ log, eventsOf id (e :: log) = .begun now :: (rest ++ eventsOf id log) := by
  cases e with
  | sent d q now' =>
    obtain ⟨rfl, hnow⟩ := Option.ite_none_right_eq_some.1 he
    obtain rfl := Option.some.inj hnow
    exact ⟨[], fun log ↦ eventsOf_sent _ _ _ _⟩
  | answered => exact absurd he (Option.some_ne_none _).symm
  | unopened d now' =>
    obtain ⟨rfl, hnow⟩ := Option.ite_none_right_eq_some.1 he
    obtain rfl := Option.some.inj hnow
    exact ⟨[.ended false now'], fun log ↦ eventsOf_unopened _ _ _⟩

/-- Where no attempt starts, the course has no beginning of one. -/
theorem isBegun_of_not_started (h : ∀ e ∈ log, e.startedAt id = none) :
    ∀ e ∈ eventsOf id log, e.isBegun = false := by
  intro e' he'
  obtain ⟨e, he, hmem⟩ := List.mem_flatMap.1 he'
  have hnone := h e he
  split at hmem
  · rename_i hid
    subst hid
    cases e with
    | sent => exact absurd hnone (by simp [Event.startedAt, Event.delivery])
    | answered => rw [List.mem_singleton.1 hmem, Retries.Event.isBegun]
    | unopened => exact absurd hnone (by simp [Event.startedAt, Event.delivery])
  · exact absurd hmem List.not_mem_nil

/-- The last success of a course is an answer, and nothing about the delivery comes after it. By
induction on the log, from its last event. -/
theorem exists_last_answer {now : ℤ} (h : (eventsOf id log).getLast? = some (.ended true now)) :
    ∃ before a later, log = before ++ .answered id a now :: later ∧ a.ok = true ∧
      ∀ e ∈ later, e.delivery ≠ id := by
  induction log using List.reverseRecOn with
  | nil => exact absurd h (Option.some_ne_none _).symm
  | append_singleton log e ih =>
    rw [eventsOf_append] at h
    by_cases hid : e.delivery = id
    · subst hid
      cases e with
      | sent id q now' =>
        rw [Event.delivery, eventsOf_sent] at h
        simp [eventsOf] at h
      | answered id a now' =>
        rw [Event.delivery, eventsOf_answered] at h
        change (eventsOf id log ++ [_]).getLast? = _ at h
        rw [List.getLast?_concat] at h
        obtain ⟨hok, rfl⟩ := Retries.Event.ended.inj (Option.some.inj h)
        exact ⟨log, a, [], rfl, hok, fun e he ↦ absurd he List.not_mem_nil⟩
      | unopened id now' =>
        rw [Event.delivery, eventsOf_unopened] at h
        simp [eventsOf] at h
    · rw [eventsOf_cons, if_neg hid] at h
      change (eventsOf id log ++ []).getLast? = _ at h
      rw [List.append_nil] at h
      obtain ⟨before, a, later, rfl, hok, hlater⟩ := ih h
      refine ⟨before, a, later ++ [e], by rw [List.append_assoc, List.cons_append], hok, ?_⟩
      intro e' he'
      rcases List.mem_append.1 he' with hmem | hmem
      · exact hlater e' hmem
      · rw [List.mem_singleton.1 hmem]
        exact hid

section Course

variable {k : Retries.Course} (h : s.course id = some k)

include h

theorem sends_le : s.log.countP (·.isSent id) ≤ Secrets.webhookMaxAttempts :=
  (countP_isSent_le id s.log).trans (Retries.Policy.begins_le h)

theorem answered_between {before mid later : List Event} {q q' : Request} {now now' : ℤ}
    (hlog : s.log = before ++ .sent id q now :: (mid ++ .sent id q' now' :: later)) :
    ∃ a now'', .answered id a now'' ∈ mid := by
  rw [Outbox.course, hlog, eventsOf_append, eventsOf_sent, eventsOf_append, eventsOf_sent] at h
  obtain ⟨ok, now'', rest, hmid⟩ := Retries.Policy.ended_between h
  clear h hlog
  -- the first event of the course between the two is an answer
  induction mid with
  | nil => exact absurd hmid (List.cons_ne_nil _ _).symm
  | cons e mid ih =>
    rw [eventsOf_cons] at hmid
    by_cases hid : e.delivery = id
    · subst hid
      rw [if_pos rfl] at hmid
      cases e with
      | sent => exact Retries.Event.noConfusion (List.cons.inj hmid).1
      | answered id a now => exact ⟨a, now, List.mem_cons_self⟩
      | unopened => exact Retries.Event.noConfusion (List.cons.inj hmid).1
    · rw [if_neg hid] at hmid
      obtain ⟨a, now, hmem⟩ := ih hmid
      exact ⟨a, now, List.mem_cons_of_mem _ hmem⟩

/-- **The attempt after the `k`-th failed one** starts `30 * 2 ^ (k - 1)` seconds after that has
been completed. -/
theorem started_after {before mid later : List Event} {e e' : Event} {now now' : ℤ}
    (hlog : s.log = before ++ e :: (mid ++ e' :: later)) (he : e.failedAt id = some now)
    (he' : e'.startedAt id = some now') (hmid : ∀ e ∈ mid, e.startedAt id = none) :
    now + 30 * 2 ^ failures id before ≤ now' := by
  obtain ⟨first, hfirst, hfailed⟩ := eventsOf_failed he
  obtain ⟨rest, hstarted⟩ := eventsOf_started he'
  have hcourse := h
  rw [Outbox.course, hlog, eventsOf_append, hfailed, eventsOf_append, hstarted,
    ← List.append_assoc] at hcourse
  have hdue := Retries.Policy.due_le hcourse (isBegun_of_not_started hmid)
  rw [List.countP_append, hfirst, countP_isFailure, Nat.add_zero] at hdue
  -- there are no more failures than attempts
  have hfew : failures id before + 1 ≤ Secrets.webhookMaxAttempts := by
    have hbound := (Retries.Policy.tells_of_run h).bound
    rw [← (Retries.Policy.tells_of_run h).failures, countP_isFailure, hlog, failures,
      List.countP_append, List.countP_cons, he] at hbound
    exact le_trans (Nat.add_le_add_left (Nat.le_add_left _ _) _) hbound
  have hdelay : policy.delay (failures id before + 1) = 30 * 2 ^ failures id before := by
    change (30 : ℤ) * 2 ^ min (failures id before) 9 = _
    rw [Nat.min_eq_left (by rw [Secrets.webhookMaxAttempts] at hfew; omega)]
  rwa [hdelay] at hdue

/-- **A course has succeeded** when its last send was answered with 2xx. -/
theorem succeeded_iff_last :
    k.stage = .succeeded ↔ ∃ before a now later, s.log = before ++ .answered id a now :: later ∧
      a.ok = true ∧ ∀ q now', .sent id q now' ∉ later := by
  rw [Retries.Policy.succeeded_iff h]
  constructor
  · rintro ⟨now, hlast⟩
    obtain ⟨before, a, later, hlog, hok, hlater⟩ := exists_last_answer hlast
    exact ⟨before, a, now, later, hlog, hok, fun q now' hmem ↦ hlater _ hmem rfl⟩
  · rintro ⟨before, a, now, later, hlog, hok, -⟩
    have hcourse := h
    rw [Outbox.course, hlog, eventsOf_append, eventsOf_answered, hok, List.append_cons] at hcourse
    -- nothing comes after a success
    obtain ⟨k', hk', -⟩ := Retries.Policy.exists_run_of_append hcourse
    have hsucceeded := (Retries.Policy.succeeded_iff hk').2 ⟨now, List.getLast?_concat⟩
    have hnil := Retries.Policy.eq_nil_of_final hk' (Or.inl hsucceeded) hcourse
    refine ⟨now, ?_⟩
    rw [hlog, eventsOf_append, eventsOf_answered, hok, List.append_cons, hnil, List.append_nil]
    exact List.getLast?_concat

theorem failed_iff_failures :
    k.stage = .failed ↔ failures id s.log = Secrets.webhookMaxAttempts := by
  rw [Retries.Policy.failed_iff h, countP_isFailure]
  rfl

/-- **Nothing happens to a delivery** once its course is over. -/
theorem nothing_after {k' : Retries.Course} {later : List Event}
    (hfinal : k.stage = .succeeded ∨ k.stage = .failed) (hlog : s'.log = s.log ++ later)
    (h' : s'.course id = some k') : ∀ e ∈ later, e.delivery ≠ id := by
  intro e he heq
  rw [Outbox.course, hlog, eventsOf_append] at h'
  have hnil := Retries.Policy.eq_nil_of_final h hfinal h'
  have hevents := List.flatMap_eq_nil_iff.1 hnil e he
  rw [if_pos heq] at hevents
  cases e <;> exact absurd hevents (List.cons_ne_nil _ _)

end Course

/-! ### What a row says -/

/-- The delivery that an attempt has been made at, where the row has not been written since. -/
def Place.noting : Place → Option ℕ
  | timing item _ _ _ | updating item _ _ _ _ => some item.1.id
  | _ => none

namespace Invariant

variable {c : Config Outbox Place} (hc : Invariant c)

include hc

/-- A row in hand is the one of the table, which has not been written since the batch was read. -/
theorem of_inHand {i : ℕ} (hrow : row ∈ c.shared.deliveries)
    (hhand : (c.requests i).inHand = some row.id) :
    row.status = openStatus row.attempts ∧ ((c.requests i).noting = none →
      Attempting c.shared row) ∧ ∃ k, c.shared.course row.id = some k := by
  have heq : ∀ {item : Due} {due : List Due}, item.1.id = row.id →
      Batch c.shared (item :: due) → item.1 = row ∧ row.status = openStatus row.attempts := by
    intro item due hid hbatch
    obtain ⟨hmem, hstatus, -⟩ := hbatch.ready item List.mem_cons_self
    obtain rfl := List.inj_on_of_nodup_map c.shared.delivery_key hmem hrow hid
    exact ⟨rfl, hstatus⟩
  have hattempted : ∀ {row : DeliveryRow} {now : ℤ} {error : Option String},
      Attempted c.shared row now error → ∃ k, c.shared.course row.id = some k := by
    intro row now error h
    rcases error with - | error
    · exact ⟨_, h.choose_spec.1⟩
    · exact ⟨_, h.choose_spec.1⟩
  have hfits := hc.fits i
  cases hp : c.requests i with
  | sending item due =>
    rw [hp] at hfits hhand
    obtain ⟨rfl, hstatus⟩ := heq (Option.some.inj hhand) hfits.1
    obtain ⟨k, hk, -⟩ := hfits.2
    exact ⟨hstatus, fun _ ↦ hfits.2, k, hk⟩
  | timing item status error due =>
    rw [hp] at hfits hhand
    obtain ⟨rfl, hstatus⟩ := heq (Option.some.inj hhand) hfits.1
    exact ⟨hstatus, fun hnone ↦ absurd hnone (Option.some_ne_none _), hattempted hfits.2⟩
  | updating item status error now due =>
    rw [hp] at hfits hhand
    obtain ⟨rfl, hstatus⟩ := heq (Option.some.inj hhand) hfits.1
    exact ⟨hstatus, fun hnone ↦ absurd hnone (Option.some_ne_none _), hattempted hfits.2⟩
  | _ =>
    rw [hp] at hhand
    exact absurd hhand (Option.some_ne_none _).symm

/-- **Every delivery has a course**: the policy accepts what has happened to it. -/
theorem exists_course (id : ℕ) : ∃ k, c.shared.course id = some k := by
  by_cases hid : ∃ row ∈ c.shared.deliveries, row.id = id
  · obtain ⟨row, hrow, rfl⟩ := hid
    by_cases hhand : ∃ i, (c.requests i).inHand = some row.id
    · obtain ⟨i, hi⟩ := hhand
      exact (hc.of_inHand hrow hi).2.2
    · obtain ⟨k, hk, -⟩ := hc.settled row hrow fun i hi ↦ hhand ⟨i, hi⟩
      exact ⟨k, hk⟩
  · refine ⟨Retries.Course.start, ?_⟩
    rw [Outbox.course, eventsOf_eq_nil]
    · rfl
    · intro e he heq
      obtain ⟨row, hrow, hrowid, -⟩ := hc.known e he
      exact hid ⟨row, hrow, hrowid.trans heq⟩

/-- **The status of a row** says whether its course is over, and how it ended. -/
theorem status_iff (hrow : row ∈ c.shared.deliveries)
    (hnoted : ∀ i, (c.requests i).noting ≠ some row.id) :
    ∃ k, c.shared.course row.id = some k ∧ (row.status = .delivered ↔ k.stage = .succeeded) ∧
      (row.status = .failed ↔ k.stage = .failed) := by
  by_cases hhand : ∃ i, (c.requests i).inHand = some row.id
  · obtain ⟨i, hi⟩ := hhand
    obtain ⟨hstatus, hattempting, -⟩ := hc.of_inHand hrow hi
    have hnone : (c.requests i).noting = none := by
      have hnoted := hnoted i
      cases hp : c.requests i with
      | timing | updating =>
        rw [hp] at hnoted hi
        exact absurd hi hnoted
      | _ => rfl
    obtain ⟨k, hk, hstage, -⟩ := hattempting hnone
    refine ⟨k, hk, ?_⟩
    rw [hstatus, hstage]
    exact ⟨iff_of_false openStatus_ne.1 (by decide), iff_of_false openStatus_ne.2 (by decide)⟩
  · obtain ⟨k, hk, hstatus⟩ := hc.settled row hrow fun i hi ↦ hhand ⟨i, hi⟩
    refine ⟨k, hk, ?_⟩
    split at hstatus
    · rename_i hstage
      rw [hstatus.1, hstage]
      exact ⟨iff_of_false openStatus_ne.1 (by decide), iff_of_false openStatus_ne.2 (by decide)⟩
    · exact hstatus.elim
    · rename_i hstage
      rw [hstatus, hstage]
      exact ⟨iff_of_true rfl rfl, iff_of_false (by decide) (by decide)⟩
    · rename_i hstage
      rw [hstatus, hstage]
      exact ⟨iff_of_false (by decide) (by decide), iff_of_true rfl rfl⟩

/-- A row with a final status has a course that is over. -/
theorem final (hrow : row ∈ c.shared.deliveries)
    (hfinal : row.status = .delivered ∨ row.status = .failed) :
    ∃ k, c.shared.course row.id = some k ∧ (k.stage = .succeeded ∨ k.stage = .failed) := by
  have hfree : ∀ i, (c.requests i).inHand ≠ some row.id := by
    intro i hi
    rw [(hc.of_inHand hrow hi).1] at hfinal
    exact hfinal.elim openStatus_ne.1 openStatus_ne.2
  obtain ⟨k, hk, hstatus⟩ := hc.settled row hrow hfree
  refine ⟨k, hk, ?_⟩
  split at hstatus
  · rw [hstatus.1] at hfinal
    exact absurd hfinal (not_or.2 openStatus_ne)
  · exact hstatus.elim
  · exact Or.inl ‹_›
  · exact Or.inr ‹_›

end Invariant

/-! ### What becomes of a row -/

/-- How a status moves. -/
inductive Moves : Secrets.DeliveryStatus → Secrets.DeliveryStatus → Prop
  | retry {status : Secrets.DeliveryStatus} (h : status = .pending ∨ status = .retrying) :
      Moves status .retrying
  | deliver {status : Secrets.DeliveryStatus} (h : status = .pending ∨ status = .retrying) :
      Moves status .delivered
  | fail : Moves .retrying .failed

/-- A row later on. -/
structure Becomes (row row' : DeliveryRow) : Prop where
  id : row'.id = row.id
  webhookID : row'.webhookID = row.webhookID
  deliveryID : row'.deliveryID = row.deliveryID
  payload : row'.payload = row.payload
  status : Relation.ReflTransGen Moves row.status row'.status

theorem Becomes.refl (row : DeliveryRow) : Becomes row row := ⟨rfl, rfl, rfl, rfl, .refl⟩

theorem Becomes.trans {row₁ row₂ row₃ : DeliveryRow} (h : Becomes row₁ row₂)
    (h' : Becomes row₂ row₃) : Becomes row₁ row₃ :=
  ⟨h'.id.trans h.id, h'.webhookID.trans h.webhookID, h'.deliveryID.trans h.deliveryID,
    h'.payload.trans h.payload, h.status.trans h'.status⟩

/-- An attempt moves the status of its row. -/
theorem moves_attempted (h : row.status = openStatus row.attempts) (status : ℕ) (now : ℤ)
    (error : Option String) :
    Moves row.status (attempted row (row.attempts + 1) status now error).status := by
  have hopen : row.status = .pending ∨ row.status = .retrying := by
    rw [h, openStatus]
    split
    · exact Or.inl rfl
    · exact Or.inr rfl
  rcases error with - | error
  · exact .deliver hopen
  · rw [attempted]
    split
    · -- the last of several attempts
      rename_i hlimit
      rw [h, openStatus, if_neg (by rw [Secrets.webhookMaxAttempts] at hlimit; omega)]
      exact .fail
    · exact .retry hopen

/-- A step keeps every row, and moves one at most. -/
theorem Step.becomes {c : Config Outbox Place} (hc : Invariant c) {i : ℕ} {p p' : Place}
    (hp : c.requests i = p) (hstep : Step K c.shared p p' s') :
    ∀ row ∈ c.shared.deliveries, ∃ row' ∈ s'.deliveries, Becomes row row' := by
  intro row hrow
  have hfits := hc.fits i
  rw [hp] at hfits
  cases hstep with
  | update item status error now due =>
    obtain ⟨hmem, hstatus, -⟩ := hfits.1.ready item List.mem_cons_self
    refine ⟨_, List.mem_map_of_mem hrow, ?_⟩
    split
    · rename_i hid
      obtain rfl := List.inj_on_of_nodup_map c.shared.delivery_key hrow hmem hid
      obtain ⟨hid, hwebhook, hdelivery, hpayload⟩ :=
        attempted_id item.1 (item.1.attempts + 1) status now error
      exact ⟨hid, hwebhook, hdelivery, hpayload, .single (moves_attempted hstatus _ _ _)⟩
    · exact .refl row
  | insert => exact ⟨row, List.mem_append_left _ hrow, .refl row⟩
  | _ => exact ⟨row, hrow, .refl row⟩

/-- A row that a step brings is pending. -/
theorem Step.pending {p p' : Place} (hstep : Step K s p p' s') {row' : DeliveryRow}
    (hrow : row' ∈ s'.deliveries) :
    (∃ row ∈ s.deliveries, row.id = row'.id) ∨ row'.status = .pending := by
  cases hstep with
  | update item status error now due =>
    have hids := s.ids_noted item.1.id item.1.attempts status now error
    have hmem : row'.id ∈ s.deliveries.map (·.id) := hids ▸ List.mem_map_of_mem hrow
    obtain ⟨row, hmem, hid⟩ := List.mem_map.1 hmem
    exact Or.inl ⟨row, hmem, hid⟩
  | insert =>
    rcases List.mem_append.1 hrow with hold | hnew
    · exact Or.inl ⟨row', hold, rfl⟩
    · rw [List.mem_singleton.1 hnew]
      exact Or.inr rfl
  | _ => exact Or.inl ⟨row', hrow, rfl⟩

/-- A webhook that has been disabled. -/
def Outbox.Disabled (s : Outbox) (id : ℕ) : Prop :=
  id ∈ s.webhooks.map (·.id) ∧ ∀ w ∈ s.webhooks, w.id = id → w.active = false

/-- **A webhook stays disabled.** -/
theorem Step.disabled {p p' : Place} (hstep : Step K s p p' s') (h : s.Disabled id) :
    s'.Disabled id := by
  cases hstep with
  | disable a raw id' =>
    refine ⟨s.ids_disabled a id' ▸ h.1, fun w hw hid ↦ ?_⟩
    obtain ⟨w₀, hw₀, rfl⟩ := List.mem_map.1 hw
    split at hid
    · rw [if_pos ‹_›]
    · rw [if_neg ‹_›]
      exact h.2 w₀ hw₀ hid
  | _ => exact h

variable (K) in
theorem disabled_outside (event : Outside) (h : s.Disabled id) :
    ((service K).outside event s).Disabled id := by
  cases event with
  | tick => exact h
  | subscribe a url secretEnc secretPrefix events =>
    refine ⟨?_, fun w hw hid ↦ ?_⟩
    · change id ∈ (s.webhooks ++ [_]).map _
      rw [List.map_append]
      exact List.mem_append_left _ h.1
    · rcases List.mem_append.1 hw with hold | hnew
      · exact h.2 w hold hid
      · -- a new webhook has another id
        rw [List.mem_singleton.1 hnew] at hid
        exact absurd hid.symm (lt_nextID h.1).ne

/-- The deliveries that a pass has still to attempt, or is at. -/
def Place.items : Place → List Due
  | delivering due => due
  | sending item due | timing item _ _ due | updating item _ _ _ due => item :: due
  | _ => []

/-- Nothing of a disabled webhook comes into a batch. -/
theorem Step.items {p p' : Place} (hstep : Step K s p p' s') (h : s.Disabled id)
    (hp : ∀ item ∈ p.items, item.1.webhookID ≠ id) : ∀ item ∈ p'.items, item.1.webhookID ≠ id := by
  cases hstep with
  | batch now readable =>
    intro item hitem heq
    obtain ⟨-, -, -, hmem, hid, hactive⟩ := of_mem_dueDeliveries (List.mem_filter.1 hitem).1
    rw [h.2 _ hmem (hid.trans heq)] at hactive
    exact Bool.false_ne_true hactive
  | send | unopened | answer | note => exact hp
  | update => exact fun item hitem ↦ hp item (List.mem_cons_of_mem _ hitem)
  | pass _ _ _ hunlocked =>
    intro item hitem
    cases p' <;> first
      | exact absurd hitem List.not_mem_nil
      | exact absurd hunlocked (by simp [Place.locks])
  | _ => exact fun item hitem ↦ absurd hitem List.not_mem_nil

section Runs

variable {jobs : ℕ → Job} {clock : ℤ} {turns : List (Turn Choice Outside)} {m n : ℕ}

variable (K jobs clock turns) in
/-- The log only grows. -/
theorem log_history (hmn : m ≤ n) :
    (history K jobs clock turns m).shared.log <+: (history K jobs clock turns n).shared.log := by
  induction n, hmn using Nat.le_induction with
  | base => exact List.prefix_rfl
  | succ n _ ih =>
    refine ih.trans ?_
    rcases history_succ_cases K jobs clock turns n with
      hpass | ⟨i, p', s', hstep, hturn⟩ | ⟨event, hturn⟩
    · rw [hpass]
    · rw [hturn]
      exact hstep.log_prefix
    · rw [hturn]
      rw [(grows_outside K _ event).log]

theorem becomes_history (hmn : m ≤ n) :
    ∀ row ∈ (history K jobs clock turns m).shared.deliveries,
      ∃ row' ∈ (history K jobs clock turns n).shared.deliveries, Becomes row row' := by
  induction n, hmn using Nat.le_induction with
  | base => exact fun row hrow ↦ ⟨row, hrow, .refl row⟩
  | succ n _ ih =>
    intro row hrow
    obtain ⟨row', hrow', hbecomes⟩ := ih row hrow
    rcases history_succ_cases K jobs clock turns n with
      hpass | ⟨i, p', s', hstep, hturn⟩ | ⟨event, hturn⟩
    · rw [hpass]
      exact ⟨row', hrow', hbecomes⟩
    · rw [hturn]
      obtain ⟨row'', hrow'', hbecomes'⟩ :=
        hstep.becomes (invariant_history K jobs clock turns n) rfl row' hrow'
      exact ⟨row'', hrow'', hbecomes.trans hbecomes'⟩
    · rw [hturn]
      rw [← rows_outside K _ event] at hrow'
      exact ⟨row', hrow', hbecomes⟩

/-- Every row was pending when it came. -/
theorem pending_history : ∀ row ∈ (history K jobs clock turns n).shared.deliveries,
    ∃ m ≤ n, ∃ row₀ ∈ (history K jobs clock turns m).shared.deliveries,
      row₀.id = row.id ∧ row₀.status = .pending := by
  induction n with
  | zero => exact fun row hrow ↦ absurd hrow List.not_mem_nil
  | succ n ih =>
    intro row hrow
    have hearlier : (∃ row₁ ∈ (history K jobs clock turns n).shared.deliveries,
        row₁.id = row.id) ∨ row.status = .pending := by
      rcases history_succ_cases K jobs clock turns n with
        hpass | ⟨i, p', s', hstep, hturn⟩ | ⟨event, hturn⟩
      · rw [hpass] at hrow
        exact Or.inl ⟨row, hrow, rfl⟩
      · rw [hturn] at hrow
        exact hstep.pending hrow
      · rw [hturn] at hrow
        rw [rows_outside] at hrow
        exact Or.inl ⟨row, hrow, rfl⟩
    rcases hearlier with ⟨row₁, hrow₁, hid⟩ | hpending
    · obtain ⟨m, hm, row₀, hrow₀, hid₀, hpending⟩ := ih row₁ hrow₁
      exact ⟨m, hm.trans n.le_succ, row₀, hrow₀, hid₀.trans hid, hpending⟩
    · exact ⟨n + 1, le_rfl, row, hrow, rfl, hpending⟩

/-- What a pass that starts when a webhook is disabled has to do is of other webhooks. -/
theorem items_history {i w : ℕ} (hi : (history K jobs clock turns m).requests i = .trying)
    (hw : (history K jobs clock turns m).shared.Disabled w) (hmn : m ≤ n) :
    (history K jobs clock turns n).shared.Disabled w ∧
      ∀ item ∈ ((history K jobs clock turns n).requests i).items, item.1.webhookID ≠ w := by
  induction n, hmn using Nat.le_induction with
  | base =>
    refine ⟨hw, ?_⟩
    rw [hi]
    exact fun item hitem ↦ absurd hitem List.not_mem_nil
  | succ n _ ih =>
    obtain ⟨hdisabled, hitems⟩ := ih
    rcases history_succ_cases K jobs clock turns n with
      hpass | ⟨j, p', s', hstep, hturn⟩ | ⟨event, hturn⟩
    · rw [hpass]
      exact ⟨hdisabled, hitems⟩
    · rw [hturn]
      refine ⟨hstep.disabled hdisabled, ?_⟩
      rcases eq_or_ne i j with rfl | hij
      · have hmine := hstep.items hdisabled hitems
        rwa [← Function.update_self i p' (history K jobs clock turns n).requests] at hmine
      · rwa [← Function.update_of_ne hij p' (history K jobs clock turns n).requests] at hitems
    · rw [hturn]
      exact ⟨disabled_outside K event hdisabled, hitems⟩

end Runs

/-- **Deliveries follow their state machine**, after any number of turns of any run. A delivery is
sent at most eight times, always with the same identifier and payload, and answered before it is
sent again. Its row starts as pending and moves as `Moves` says; it is delivered when the last send
was answered with 2xx, and failed when eight attempts have failed. Nothing is attempted after that,
nor sent by a pass that starts after its webhook has been disabled, nor attempted again before its
time. -/
theorem webhook_deliveries (K : Signer) (jobs : ℕ → Job) (clock : ℤ)
    (turns : List (Turn Choice Outside)) (n : ℕ) :
    let c := history K jobs clock turns n
    (∀ id, c.shared.log.countP (·.isSent id) ≤ 8) ∧
    (∀ id before mid later q q' now now',
      c.shared.log = before ++ .sent id q now :: (mid ++ .sent id q' now' :: later) →
        (∃ a now'', .answered id a now'' ∈ mid) ∧ q'.deliveryID = q.deliveryID ∧
          q'.payload = q.payload) ∧
    (∀ row ∈ c.shared.deliveries, ∃ m ≤ n,
      ∃ row₀ ∈ (history K jobs clock turns m).shared.deliveries,
        row₀.status = .pending ∧ Becomes row₀ row) ∧
    (∀ m ≤ n, ∀ row ∈ (history K jobs clock turns m).shared.deliveries,
      (∃ row' ∈ c.shared.deliveries, Becomes row row') ∧
        (row.status = .delivered ∨ row.status = .failed →
          ∃ later, c.shared.log = (history K jobs clock turns m).shared.log ++ later ∧
            ∀ e ∈ later, e.delivery ≠ row.id)) ∧
    (∀ row ∈ c.shared.deliveries, (∀ i, (c.requests i).noting ≠ some row.id) →
      (row.status = .delivered ↔ ∃ before a now later,
        c.shared.log = before ++ .answered row.id a now :: later ∧ a.ok = true ∧
          ∀ q now', .sent row.id q now' ∉ later) ∧
      (row.status = .failed ↔ failures row.id c.shared.log = 8)) ∧
    (∀ m ≤ n, ∀ i w, (history K jobs clock turns m).requests i = .trying →
      (history K jobs clock turns m).shared.Disabled w →
        ∀ item due, c.requests i = .sending item due → item.1.webhookID ≠ w) ∧
    ∀ id before mid later e e' now now', c.shared.log = before ++ e :: (mid ++ e' :: later) →
      e.failedAt id = some now → e'.startedAt id = some now' →
        (∀ e ∈ mid, e.startedAt id = none) → now + 30 * 2 ^ failures id before ≤ now' := by
  intro c
  have hc : Invariant c := invariant_history K jobs clock turns n
  refine ⟨fun id ↦ ?_, fun id before mid later q q' now now' hlog ↦ ?_, fun row hrow ↦ ?_,
    fun m hm row hrow ↦ ⟨becomes_history hm row hrow, fun hfinal ↦ ?_⟩,
    fun row hrow hnoted ↦ ?_, fun m hm i w hi hw item due hsending ↦ ?_,
    fun id before mid later e e' now now' hlog he he' hmid ↦ ?_⟩
  · obtain ⟨k, hk⟩ := hc.exists_course id
    exact sends_le hk
  · obtain ⟨k, hk⟩ := hc.exists_course id
    refine ⟨answered_between hk hlog, ?_⟩
    have hmem : .sent id q now ∈ c.shared.log := by simp [hlog]
    have hmem' : .sent id q' now' ∈ c.shared.log := by simp [hlog]
    obtain ⟨row, hrow, hid, hdelivery, hpayload⟩ := hc.known _ hmem
    obtain ⟨row', hrow', hid', hdelivery', hpayload'⟩ := hc.known _ hmem'
    obtain rfl := List.inj_on_of_nodup_map c.shared.delivery_key hrow hrow' (hid.trans hid'.symm)
    exact ⟨hdelivery'.trans hdelivery.symm, hpayload'.trans hpayload.symm⟩
  · obtain ⟨m, hm, row₀, hrow₀, hid, hpending⟩ := pending_history row hrow
    obtain ⟨row', hrow', hbecomes⟩ := becomes_history hm row₀ hrow₀
    obtain rfl := List.inj_on_of_nodup_map c.shared.delivery_key hrow hrow'
      (hid.symm.trans hbecomes.id.symm)
    exact ⟨m, hm, row₀, hrow₀, hpending, hbecomes⟩
  · obtain ⟨later, hlater⟩ := log_history K jobs clock turns hm
    refine ⟨later, hlater.symm, ?_⟩
    obtain ⟨k, hk, hover⟩ := (invariant_history K jobs clock turns m).final hrow hfinal
    obtain ⟨k', hk'⟩ := hc.exists_course row.id
    exact nothing_after hk hover hlater.symm hk'
  · obtain ⟨k, hk, hdelivered, hfailed⟩ := hc.status_iff hrow hnoted
    exact ⟨hdelivered.trans (succeeded_iff_last hk), hfailed.trans (failed_iff_failures hk)⟩
  · have hitems := (items_history hi hw hm).2
    rw [hsending] at hitems
    exact hitems item List.mem_cons_self
  · obtain ⟨k, hk⟩ := hc.exists_course id
    exact started_after hk hlog he he' hmid

namespace Sample

/-- A service whose boxes all open. -/
def signer : Signer := ⟨fun _ ↦ .ok [], fun _ _ ↦ []⟩

/-- One delivery, and any number of passes. -/
def jobs : ℕ → Job
  | 0 => .queueWebhookAt ⟨1, "endpoint.test", some "null".toList, .test, 5⟩
  | _ => .deliverDueWebhooks

/-- The first pass gets an error, the second does not get the lock, and the third, after thirty
seconds, succeeds. -/
def turns : List (Turn Choice Outside) :=
  [.outside (.tick 5), .outside (.subscribe ⟨1, .test⟩ "https://example.com/" [] "" []),
    .request 0 (.draw (List.replicate 16 7)), .request 0 .go,
    .request 1 .go, .request 1 .go, .request 1 (.scan fun _ ↦ true), .request 1 .go,
    .request 2 .go, .request 1 (.answer (.response 500)), .request 1 .go, .request 1 .go,
    .request 1 .go, .outside (.tick 30),
    .request 3 .go, .request 3 .go, .request 3 (.scan fun _ ↦ true), .request 3 .go,
    .request 3 (.answer (.response 204)), .request 3 .go, .request 3 .go]

end Sample

example : ((history Sample.signer Sample.jobs 0 Sample.turns 21).shared.deliveries.map fun row ↦
    (row.status, row.attempts, row.nextAttemptAt)) = [(.delivered, 2, 35)] := rfl

end Deliveries

end Soroticket
