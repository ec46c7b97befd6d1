import Soroticket.Cloud.Idempotency
import Soroticket.Cloud.Payloads

/-!
# API keys and signing secrets

An API key and the signing secret of a webhook are made by a request, shown in its response, and
from then on known to the service only through what it keeps of them: the hash of a key, the sealed
box of a signing secret, and the first characters of either for display. A request is let in by the
hash of the key it shows, and a round of deliveries opens the boxes of the webhooks it signs for.

The handlers that make a secret are modelled one statement at a time, and so are what is around
them: the check of who calls, the rate limiter's answer, and the keeper of responses to requests
with an `Idempotency-Key`, which is the one of `Cloud.Idempotency`. Every other handler is any
function at all of the request, the tables, and what its surroundings decide (`Platform`): what is
proved of the whole service does not depend on what those do with what they can read.
-/

namespace Soroticket

open Interleaving Interleaving.Service

namespace Secrets

/-! ### What is kept of a secret -/

/-- What stands between a secret and what is kept of it. -/
structure Vault where
  hashKey : String → String
  /-- The box of a text, for a nonce. -/
  sealBox : Bytes → String → Bytes
  /-- The text in a box, or the error of the cipher. -/
  unsealBox : Bytes → Except String String

/-- `randHex`, of the random bytes. -/
def randHex (random : Bytes) : String :=
  String.ofList ((hexEncode random).map fun b ↦ Char.ofNat b.toNat)

/-- `externalMode`. -/
def externalMode : CloudEnv → String
  | .test => "test"
  | .live => "metered"

/-- What a key starts with. -/
def keyStart (env : CloudEnv) : String := "sk_" ++ externalMode env ++ "_"

/-- A key, of the random bytes. -/
def fullKey (env : CloudEnv) (random : Bytes) : String := keyStart env ++ randHex random

/-- What is displayed of a key. -/
def keyPrefix (env : CloudEnv) (full : String) : String :=
  String.ofList (full.toList.take ((keyStart env).toList.length + 4)) ++ "…"

/-- A signing secret, of the random bytes. -/
def webhookSecret (random : Bytes) : String := "whsec_" ++ randHex random

/-- What is displayed of a signing secret. -/
def secretPrefix (secret : String) : String := String.ofList (secret.toList.take 14) ++ "…"

/-! ### Tables -/

/-- A row of `api_keys`. -/
structure ApiKeyRow where
  id : ℕ
  account : AuthCtx
  label : String
  keyPrefix : String
  hash : String
  createdAt : ℤ
  lastUsedAt : Option ℤ
  revokedAt : Option ℤ
  deriving DecidableEq

/-- A row of `webhooks`. -/
structure WebhookRow where
  id : ℕ
  account : AuthCtx
  url : String
  secretEnc : Bytes
  secretPrefix : String
  events : List String
  active : Bool
  createdAt : ℤ
  disabledAt : Option ℤ
  deriving DecidableEq

/-- Where a delivery is. -/
inductive DeliveryStatus where
  | pending
  | retrying
  | delivered
  | failed
  deriving DecidableEq

/-- A row of `webhook_deliveries`. -/
structure DeliveryRow where
  id : ℕ
  webhookID : ℕ
  deliveryID : String
  eventType : String
  payload : Bytes
  status : DeliveryStatus
  attempts : ℕ
  responseStatus : Option ℕ
  lastError : Option Bytes
  nextAttemptAt : ℤ
  createdAt : ℤ
  deliveredAt : Option ℤ
  deriving DecidableEq

/-- A row of `activity`. -/
structure ActivityRow where
  id : ℕ
  account : AuthCtx
  ts : ℤ
  kind : String
  code : String
  message : String
  txHash : String
  errorCode : Option ℤ
  campaignID : Option ℕ
  deriving DecidableEq

/-- The tables, and the clock. `rest` is every other table, and what the process keeps in
memory. -/
structure Tables (τ : Type) where
  apiKeys : List ApiKeyRow
  webhooks : List WebhookRow
  deliveries : List DeliveryRow
  activity : List ActivityRow
  idem : Idempotency.State
  rest : τ

/-- The id of the next row of a table. -/
def nextID (ids : List ℕ) : ℕ := ids.foldl max 0 + 1

/-! ### Requests and responses -/

/-- The handler of a request. -/
inductive Route (ρ : Type) where
  | createKey
  | createWebhook
  | other (r : ρ)

/-- A request, but for its `Authorization`. -/
structure Ask (ρ : Type) where
  route : Route ρ
  target : Idempotency.RequestTarget
  header : List (String × String)
  idempotencyKey : String

/-- A request. -/
structure Call (ρ : Type) where
  ask : Ask ρ
  authorization : String

/-- The key a request shows. -/
def bearer (authorization : String) : Option String :=
  if "Bearer sk_".toList <+: authorization.toList then
    some (String.ofList (authorization.toList.drop "Bearer ".toList.length))
  else none

/-- A response, with its header but for the content type. -/
structure Reply where
  header : List (String × String)
  response : Idempotency.Response
  deriving DecidableEq

/-- The body of a problem. -/
def problemBody (p : Problem) : Bytes :=
  encodeText (Json.object ("status".toList, Json.integer p.status)
    [("message".toList, Json.quote p.message.toList)] ++ ['\n'])

/-- `writeProblem`. -/
def writeProblem (p : Problem) : Reply where
  header := []
  response := (({ Idempotency.Recorder.new with contentType := "application/problem+json" }
    ).writeHeader p.status |>.write (problemBody p)).response

/-- `writeInternal`. -/
def writeInternal : Problem := ⟨500, "internal server error"⟩

/-- What a handler answers. The two responses that show a secret are kept as what they are written
from. -/
inductive Answer where
  | reply (r : Reply)
  | createdKey (id : ℕ) (full keyPrefix label : String) (env : CloudEnv)
  | createdWebhook (id : ℕ) (url : String) (events : List String) (secret : String)
      (createdAt : ℤ)

namespace Answer

/-- The secret that an answer shows. -/
def made : Answer → Option String
  | reply _ => none
  | createdKey _ full _ _ _ => some full
  | createdWebhook _ _ _ secret _ => some secret

/-- A JSON array of strings. -/
def strings : List String → List Char
  | [] => "[]".toList
  | s :: more => '[' :: (Json.quote s.toList ++
      (more.flatMap fun s ↦ ',' :: Json.quote s.toList) ++ [']'])

/-- The body that shows a key. -/
def keyBody (id : ℕ) (full keyPrefix label : String) (env : CloudEnv) : Bytes :=
  encodeText (Json.object
    ("env".toList, Json.quote (match env with | .test => "test" | .live => "live").toList)
    [("id".toList, Json.integer id), ("key".toList, Json.quote full.toList),
      ("label".toList, Json.quote label.toList),
      ("mode".toList, Json.quote (externalMode env).toList),
      ("prefix".toList, Json.quote keyPrefix.toList)] ++ ['\n'])

/-- The body that shows a signing secret. -/
def webhookBody (id : ℕ) (url : String) (events : List String) (secret : String)
    (createdAt : ℤ) : Bytes :=
  encodeText (Json.object
    ("warning".toList,
      Json.quote "Copy the signing secret now; it is not returned again.".toList)
    [("webhook".toList, Json.object ("active".toList, "true".toList)
      [("created_at".toList, Json.integer createdAt), ("events".toList, strings events),
        ("id".toList, Json.integer id), ("secret".toList, Json.quote secret.toList),
        ("url".toList, Json.quote url.toList)])] ++ ['\n'])

/-- `writeJSON`, with the status of what has been created. -/
def created (body : Bytes) : Reply := ⟨[], 201, "application/json", body, by decide⟩

/-- What is sent. -/
def written : Answer → Reply
  | reply r => r
  | createdKey id full keyPrefix label env => created (keyBody id full keyPrefix label env)
  | createdWebhook id url events secret createdAt =>
    created (webhookBody id url events secret createdAt)

end Answer

/-- A problem, as an answer. -/
def refuse (status : ℕ) (message : String) : Answer := .reply (writeProblem ⟨status, message⟩)

/-! ### The rest of the service -/

/-- What the handlers that make secrets take as given, and all other handlers: the places these can
be in, and what they do in each. -/
structure Platform (ρ μ χ τ : Type) where
  deployment : Deployment
  /-- Who calls with the cookie of a session. -/
  session : χ → Ask ρ → Tables τ → Except Problem AuthCtx
  readLabel : Ask ρ → Except String String
  readWebhook : Ask ρ → Except String (String × List String)
  validateWebhookURL : String → Except String String
  /-- A text in quotes, as in an error. -/
  quoted : String → String
  /-- Whether a handler is behind the check of who calls. -/
  guarded : ρ → Bool
  /-- The endpoint that the responses of a handler are kept under. -/
  endpoint : ρ → Option String
  start : ρ → μ
  handle : χ → Option AuthCtx → Ask ρ → μ → Tables τ → Option ((μ ⊕ Reply) × Tables τ)

variable {ρ μ χ τ : Type}

/-- What happens at a step: its statement is executed or fails, the rate limiter answers, bytes are
drawn, a delivery has been attempted, or what another handler needs is decided. -/
inductive Choice (χ : Type) where
  | go
  | fail
  | limit (allowed : Bool) (header : List (String × String))
  | draw (random : Bytes)
  | nonce (random : Bytes)
  | sent (status : ℕ) (error : Option String) (written : Bool)
  | other (ch : χ)

/-! ### The handlers that make a secret -/

/-- Where a handler is. -/
inductive Handler (μ : Type) where
  | createKey
  | drawingKey (label : String)
  | insertingKey (label keyPrefix full : String)
  | loggingKey (id : ℕ) (label keyPrefix full : String)
  | createWebhook
  | readingWebhook
  | resolvingWebhook (url : String) (events : List String)
  | drawingSecret (url : String) (events : List String)
  | sealingSecret (url : String) (events : List String) (secret secretPrefix : String)
  | insertingWebhook (url : String) (events : List String) (secret secretPrefix : String)
      (sealed : Bytes) (now : ℤ)
  | other (place : μ)

/-- The names of `supportedWebhookEvents`. -/
def supportedWebhookEvents : List String :=
  ["redemption.created", "tally.committed", "settlement.paid", "loyalty.reward_issued",
    "credits.low"]

/-- `normalizeWebhookEvents`. -/
def normalizeWebhookEvents (quoted : String → String) (events : List String) :
    Except String (List String) :=
  if events = [] then .error "select at least one webhook event"
  else
    let events := events.map trimSpace
    match events.find? (· ∉ supportedWebhookEvents) with
    | some event => .error ("unsupported webhook event " ++ quoted event)
    | none => .ok (events.eraseDups.mergeSort fun a b ↦ a ≤ b)

/-- The most active webhooks of an account. -/
def maxWebhooks : ℕ := 20

/-- `handleCreateKey`, up to its random bytes. -/
def checkedLabel (read : Except String String) : Except Problem String := do
  let label ← read.mapError fun message ↦ (⟨400, message⟩ : Problem)
  let label := if trimSpace label = "" then "Default" else trimSpace label
  rejectWhen (96 < (utf8 label).length) 400 "API key label must not exceed 96 bytes"
  return label

/-- What a handler does next, or its answer. -/
abbrev Outcome (μ : Type) : Type := Handler μ ⊕ Answer

/-- A problem is answered with, and what is no problem goes on. -/
def orRefuse {α : Type} (x : Except Problem α) (next : α → Handler μ) : Outcome μ :=
  match x with
  | .ok a => .inl (next a)
  | .error p => .inr (refuse p.status p.message)

/-- The row of a new key. -/
def newKey (V : Vault) (a : AuthCtx) (label keyPrefix full : String) (s : Tables τ) : ApiKeyRow :=
  ⟨nextID (s.apiKeys.map (·.id)), a, label, keyPrefix, V.hashKey full, s.idem.clock, none, none⟩

/-- The row of the activity of a new key. -/
def keyActivity (a : AuthCtx) (label : String) (s : Tables τ) : ActivityRow :=
  ⟨nextID (s.activity.map (·.id)), a, s.idem.clock, "key", "", "API key created · " ++ label, "",
    none, none⟩

/-- `handleCreateKey` and `handleCreateWebhook`, one statement at a time, and the other handlers. -/
def Handler.step (P : Platform ρ μ χ τ) (V : Vault) (a : AuthCtx) (ask : Ask ρ) (s : Tables τ) :
    Choice χ → Handler μ → Option (Outcome μ × Tables τ)
  | .go, .createKey => some (orRefuse (checkedLabel (P.readLabel ask)) .drawingKey, s)
  | .draw random, .drawingKey label =>
    if random.length = 24 then
      let full := fullKey a.env random
      some (.inl (.insertingKey label (keyPrefix a.env full) full), s)
    else none
  | .fail, .drawingKey _ => some (.inr (refuse 500 "secure randomness unavailable"), s)
  | .go, .insertingKey label keyPrefix full =>
    let row := newKey V a label keyPrefix full s
    -- the hash of a key is unique in the table
    if s.apiKeys.any (·.hash = row.hash) then some (.inr (refuse 500 writeInternal.message), s)
    else some (.inl (.loggingKey row.id label keyPrefix full),
      { s with apiKeys := s.apiKeys ++ [row] })
  | .fail, .insertingKey _ _ _ => some (.inr (refuse 500 writeInternal.message), s)
  -- no webhook subscribes to this kind of activity
  | .go, .loggingKey id label keyPrefix full =>
    some (.inr (.createdKey id full keyPrefix label a.env),
      { s with activity := s.activity ++ [keyActivity a label s] })
  | .fail, .loggingKey id label keyPrefix full =>
    some (.inr (.createdKey id full keyPrefix label a.env), s)
  | .go, .createWebhook =>
    if maxWebhooks ≤ (s.webhooks.filter fun w ↦ w.account = a ∧ w.active).length then
      some (.inr (refuse 409 "maximum 20 active webhook endpoints per environment"), s)
    else some (.inl .readingWebhook, s)
  | .fail, .createWebhook => some (.inr (refuse 500 writeInternal.message), s)
  | .go, .readingWebhook =>
    some (orRefuse
      (do
        let input ← (P.readWebhook ask).mapError fun message ↦ (⟨400, message⟩ : Problem)
        let url ← (P.validateWebhookURL input.1).mapError fun message ↦ ⟨400, message⟩
        return (url, input.2))
      fun input ↦ .resolvingWebhook input.1 input.2, s)
  | .go, .resolvingWebhook url events =>
    some (orRefuse ((normalizeWebhookEvents P.quoted events).mapError fun message ↦ ⟨400, message⟩)
      (.drawingSecret url), s)
  | .fail, .resolvingWebhook _ _ =>
    some (.inr (refuse 400 "webhook host must resolve to a public address"), s)
  | .draw random, .drawingSecret url events =>
    if random.length = 32 then
      let secret := webhookSecret random
      some (.inl (.sealingSecret url events secret (secretPrefix secret)), s)
    else none
  | .fail, .drawingSecret _ _ => some (.inr (refuse 500 writeInternal.message), s)
  | .nonce random, .sealingSecret url events secret secretPrefix =>
    some (.inl (.insertingWebhook url events secret secretPrefix (V.sealBox random secret)
      s.idem.clock), s)
  | .fail, .sealingSecret _ _ _ _ => some (.inr (refuse 500 writeInternal.message), s)
  | .go, .insertingWebhook url events secret secretPrefix sealed now =>
    let id := nextID (s.webhooks.map (·.id))
    some (.inr (.createdWebhook id url events secret now), { s with
      webhooks := s.webhooks ++ [⟨id, a, url, sealed, secretPrefix, events, true, now, none⟩] })
  | .fail, .insertingWebhook _ _ _ _ _ _ => some (.inr (refuse 500 writeInternal.message), s)
  | .other ch, .other place =>
    (P.handle ch (some a) ask place s).map fun x ↦ (x.1.map .other .reply, x.2)
  | _, _ => none

/-- Where the handler of a route starts. -/
def Route.start (P : Platform ρ μ χ τ) : Route ρ → Handler μ
  | createKey => .createKey
  | createWebhook => .createWebhook
  | other r => .other (P.start r)

/-- The endpoint that the responses of a route are kept under. -/
def Route.endpoint (P : Platform ρ μ χ τ) : Route ρ → Option String
  | createKey => some "api_keys"
  | createWebhook => some "webhooks"
  | other r => P.endpoint r

/-- Whether a route is behind the check of who calls. -/
def Route.guarded (P : Platform ρ μ χ τ) : Route ρ → Bool
  | other r => P.guarded r
  | _ => true

/-! ### Requests, one statement at a time -/

/-- Where a request is. A request that has been let in knows its account and the lines of the rate
limiter. Its handler runs under the keeper of responses, and it has made a secret once its handler
has answered with one. -/
inductive Phase (μ : Type) where
  | arriving
  | limiting (a : AuthCtx) (keyID : Option ℕ)
  /-- The key has been shown, and the note of its use is to come. -/
  | touching (a : AuthCtx) (header : List (String × String)) (keyID : ℕ)
  | running (a : AuthCtx) (header : List (String × String)) (keeper : Idempotency.Phase)
      (h : Handler μ) (made : Option String)
  /-- A handler that anyone may call. -/
  | unguarded (place : μ)
  | answered (header : List (String × String)) (answer : Answer)

/-- What is kept of a response is looked up by. -/
def Ask.idemCall (P : Platform ρ μ χ τ) (ask : Ask ρ) (a : AuthCtx) : Idempotency.IdemCall :=
  ⟨ask.idempotencyKey, a, (ask.route.endpoint P).getD "", ask.target⟩

/-- Where a request that has been let in goes on. -/
def Ask.enter (P : Platform ρ μ χ τ) (ask : Ask ρ) (a : AuthCtx)
    (header : List (String × String)) : Phase μ :=
  .running a header (if (ask.route.endpoint P).isSome then .arriving else .unkeyed)
    (ask.route.start P) none

/-- A request that is refused before its handler. -/
def turnedAway (header : List (String × String)) (status : ℕ) (message : String) : Phase μ :=
  .answered header (refuse status message)

/-- The step of the keeper of responses, where it is not its handler's. -/
def keep (P : Platform ρ μ χ τ) (a : AuthCtx) (ask : Ask ρ) (s : Tables τ) (ch : Choice χ)
    (keeper : Idempotency.Phase) : Option (Idempotency.Phase × Tables τ) :=
  let taken : Option Idempotency.Choice := match ch with
    | .go => some .go
    | .fail => some .fail
    | _ => none
  taken.bind fun ch ↦ (Idempotency.step P.deployment (ask.idemCall P a) s.idem ch keeper).map
    fun x ↦ (x.1, { s with idem := x.2 })

/-- The note of the use of a key. -/
def touch (keyID : ℕ) (s : Tables τ) : Tables τ :=
  { s with apiKeys := s.apiKeys.map fun row ↦
      if row.id = keyID then { row with lastUsedAt := some s.idem.clock } else row }

/-- `requireAuth`, around `idempotent`, around a handler. -/
def Phase.step (P : Platform ρ μ χ τ) (V : Vault) (call : Call ρ) (s : Tables τ) (ch : Choice χ) :
    Phase μ → Option (Phase μ × Tables τ)
  | .arriving =>
    match call.ask.route, call.ask.route.guarded P with
    | .other r, false => some (.unguarded (P.start r), s)
    | _, _ =>
      match bearer call.authorization, ch with
      | some key, .go =>
        match s.apiKeys.find? (·.hash = V.hashKey key) with
        | some row =>
          if row.revokedAt.isSome then some (turnedAway [] 401 "invalid or revoked API key", s)
          else some (.limiting row.account (some row.id), s)
        | none => some (turnedAway [] 401 "invalid or revoked API key", s)
      | some _, .fail => some (turnedAway [] 401 "invalid or revoked API key", s)
      | none, .other ch =>
        match P.session ch call.ask s with
        | .ok a => some (.limiting a none, s)
        | .error p => some (turnedAway [] p.status p.message, s)
      | _, _ => none
  | .limiting a keyID =>
    match ch with
    | .limit true header => some (keyID.elim (call.ask.enter P a header) (.touching a header), s)
    | .limit false header => some (turnedAway header 429 "rate limit exceeded", s)
    | _ => none
  | .touching a header keyID =>
    match ch with
    | .go => some (call.ask.enter P a header, touch keyID s)
    | .fail => some (call.ask.enter P a header, s)
    | _ => none
  | .running a header .unkeyed h made =>
    (h.step P V a call.ask s ch).map fun x ↦ match x.1 with
      | .inl h => (.running a header .unkeyed h made, x.2)
      | .inr answer => (.answered header answer, x.2)
  | .running a header (.executing now rec) h made =>
    (h.step P V a call.ask s ch).map fun x ↦ match x.1 with
      | .inl h => (.running a header (.executing now rec) h made, x.2)
      | .inr answer => (.running a (header ++ answer.written.header)
          (.storing now answer.written.response) h answer.made, x.2)
  | .running a header keeper h made =>
    (keep P a call.ask s ch keeper).map fun x ↦ (.running a header x.1 h made, x.2)
  | .unguarded place =>
    match ch with
    | .other ch => (P.handle ch none call.ask place s).map fun x ↦ match x.1 with
        | .inl place => (.unguarded place, x.2)
        | .inr r => (.answered [] (.reply r), x.2)
    | _ => none
  | .answered _ _ => none

/-- What the client of the keeper of responses has been sent. -/
def kept (header : List (String × String)) : Idempotency.Phase → Option Reply
  | .refused problem =>
    let more := if problem = Idempotency.inProgress then [("Retry-After", "1")] else []
    some ⟨header ++ more, (writeProblem problem).response⟩
  | .unstored _ _ => some ⟨header, (writeProblem writeInternal).response⟩
  | .replayed response => some ⟨header ++ [("Idempotency-Replayed", "true")], response⟩
  | keeper => keeper.received.map fun response ↦ ⟨header, response⟩

namespace Phase

/-- The response that a client has been sent. -/
def reply? : Phase μ → Option Reply
  | running _ header keeper _ _ => kept header keeper
  | answered header answer => some { answer.written with header := header ++ answer.written.header }
  | _ => none

/-- The secret that a request has made. -/
def made : Phase μ → Option String
  | running _ _ _ _ made => made
  | answered _ answer => answer.made
  | _ => none

end Phase

/-! ### Deliveries -/

/-- A delivery that is due, with its webhook. -/
abbrev Due : Type := DeliveryRow × WebhookRow

/-- Where a round of deliveries is. -/
inductive Round where
  | reading
  | delivering (due : List Due)

/-- The deliveries of a round. The rows are in the order of their ids. -/
def dueDeliveries (s : Tables τ) : List Due :=
  (s.deliveries.filterMap fun row ↦
    if row.status ∈ [.pending, .retrying] ∧ row.nextAttemptAt ≤ s.idem.clock then
      (s.webhooks.find? fun w ↦ w.id = row.webhookID ∧ w.active).map (row, ·)
    else none).take 20

/-- `webhookMaxAttempts`. -/
def webhookMaxAttempts : ℕ := 8

/-- The row of a delivery after an attempt. -/
def attempted (row : DeliveryRow) (attempts status : ℕ) (now : ℤ) : Option String → DeliveryRow
  | none => { row with
      status := .delivered
      attempts
      responseStatus := some status
      lastError := none
      deliveredAt := some now }
  | some error =>
    let row := { row with
      attempts
      responseStatus := if status = 0 then none else some status
      lastError := some ((utf8 error).take 500) }
    if webhookMaxAttempts ≤ attempts then { row with status := .failed }
    else { row with
      status := .retrying
      nextAttemptAt := now + 30 * 2 ^ min (attempts - 1) 9 }

/-- `deliverDueWebhooks`, one delivery at a time: what is sent is signed with the secret, and not
kept. The lock that keeps rounds apart is left out. -/
def Round.step (V : Vault) (s : Tables τ) (ch : Choice χ) : Round → Option (Round × Tables τ)
  | .reading =>
    match ch with
    | .go => some (.delivering (dueDeliveries s), s)
    | .fail => some (.delivering [], s)
    | _ => none
  | .delivering ((item, webhook) :: due) =>
    match ch with
    | .sent status error written =>
      let (status, error) := match V.unsealBox webhook.secretEnc with
        | .ok _ => (status, error)
        | .error message => (0, some message)
      some (.delivering due, if written then { s with
        deliveries := s.deliveries.map fun row ↦
          if row.id = item.id then attempted row (item.attempts + 1) status s.idem.clock error
          else row } else s)
    | _ => none
  | .delivering [] => none

/-! ### The service -/

/-- A request and where it is, or a round of deliveries. -/
inductive Process (ρ μ : Type) where
  | request (call : Call ρ) (phase : Phase μ)
  | round (r : Round)

/-- The service. From outside, time passes. -/
def service (P : Platform ρ μ χ τ) (V : Vault) :
    Service (Tables τ) (Process ρ μ) (Choice χ) ℕ where
  advance ch p s := match p with
    | .request call phase => (phase.step P V call s ch).map fun x ↦ (.request call x.1, x.2)
    | .round r => (r.step V s ch).map fun x ↦ (.round x.1, x.2)
  outside seconds s := { s with idem := { s.idem with clock := s.idem.clock + seconds } }

namespace Process

/-- The response that a client has been sent. -/
def reply? : Process ρ μ → Option Reply
  | request _ phase => phase.reply?
  | round _ => none

/-- The secret that a request has made. -/
def made : Process ρ μ → Option String
  | request _ phase => phase.made
  | round _ => none

end Process

end Secrets

end Soroticket
