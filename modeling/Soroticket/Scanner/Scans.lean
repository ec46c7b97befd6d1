import Soroticket.Cloud.Throttle
import Soroticket.Scanner.Typing

/-!
# Scans

A message to the scanner becomes a reply. `onText` finds a code, asks Cloud for its campaign, and
records an event of it, or asks for a location first; `onLocation` records the event of the scan
that waits. The scanner remembers what each phone has used, by the phone and the code, so that it
need not ask Cloud again, and forgets it when it is restarted.

A message is handled one step at a time: a request to Cloud, or one use of the scanner's memory
under its lock. Cloud's own handler of an event checks it first, and stores it in a transaction
later. In between anything may happen: other messages, and to the campaigns of the organization.
-/

namespace Soroticket

open Interleaving

/-! ### Cloud -/

/-- The tables of Cloud that scans are answered from. The tables behind resolving a code, and those
behind an event, are the same. -/
structure ScanCloud (d : Deployment) where
  tables : ScanDatabase
  reg : Registry d
  db : Database
  campaigns_eq : reg.campaigns = tables.campaigns.map (·.toCampaignRow)
  shared_eq : reg.sharedCodes.map (fun row ↦ (row.campaignID, row.code)) =
    tables.sharedCodes.map fun row ↦ (row.campaignID, row.code)

/-- Campaigns are created and changed, but none is lost, and neither are the codes of one. Nothing
but scans is recorded. -/
structure ScanCloud.Grows {d : Deployment} (c c' : ScanCloud d) : Prop where
  db : c'.db = c.db
  code : ∀ row ∈ c.reg.sharedCodes, row ∈ c'.reg.sharedCodes
  campaign : ∀ x ∈ c.reg.campaigns, ∃ x' ∈ c'.reg.campaigns, x'.id = x.id ∧
    x'.account = x.account ∧ x'.chainID = x.chainID

/-- What happens to the campaigns. -/
abbrev CampaignChange (d : Deployment) :=
  {f : ScanCloud d → ScanCloud d // ∀ c : ScanCloud d, c.Grows (f c)}

/-! ### The scanner's memory -/

/-- Text, as JSON carries it. -/
def textOf (b : Bytes) : String := String.ofList (Json.runes b)

/-- `pendingScan`: a scan that waits for a location. -/
structure PendingScan where
  code : String
  campaignID : ℕ
  name : Bytes
  expires : ℕ

/-- The scanner's maps, and Cloud. -/
structure ScanState (d : Deployment) where
  cloud : ScanCloud d
  pending : String → Option PendingScan
  done : String → Option ℕ

/-- How long a scan waits for its location. -/
def pendingWindow : ℕ := 10 * minute

/-- How long the scanner remembers. -/
def doneWindow : ℕ := 24 * 60 * minute

/-- The key of what a phone has used. -/
def doneKey (phone code : String) : String := phone ++ "|" ++ code

namespace ScanState

variable {d : Deployment} (s : ScanState d)

/-- `markDone`: forget what is old, and remember. -/
def markDone (phone code : String) (now : ℕ) : ScanState d :=
  { s with
    done := Function.update (fun k ↦ (s.done k).filter fun t ↦ now ≤ t + doneWindow)
      (doneKey phone code) (some now) }

/-- `alreadyDone`. -/
def alreadyDone (phone code : String) : Bool := (s.done (doneKey phone code)).isSome

/-- `setPending`. -/
def setPending (phone : String) (p : PendingScan) : ScanState d :=
  { s with pending := Function.update s.pending phone (some p) }

/-- `takePending`: the scan that waits, unless it has waited too long. -/
def takePending (phone : String) (now : ℕ) : Option PendingScan × ScanState d :=
  ((s.pending phone).filter fun p ↦ now ≤ p.expires,
    { s with pending := Function.update s.pending phone none })

end ScanState

/-! ### Replies -/

/-- A scan of a shared code of a campaign. -/
structure Scan where
  phone : String
  campaignID : ℕ
  code : String
  deriving DecidableEq

/-- What a scan of a shared code is answered with. -/
inductive ScanReply where
  | used
  | registered (name discountType : Bytes) (discountValue : ℤ)
  | recordTrouble
  | recordFailed

/-- What a message is answered with that is not about the event of a shared code. -/
inductive MessageReply where
  | unrecognized
  | trouble
  | inactiveToken
  | greeting
  | unknownCode (code : String)
  | archived (name : Bytes)
  | expired (name : Bytes)
  | shareLocation
  | noScanWaits
  | redeemTrouble
  | redeemed (name code : Bytes)
  | alreadyRedeemed (code : Bytes)
  | redeemRefused (message : String)

/-- `discountCopy`. -/
def discountCopy (name discountType : Bytes) (value : ℤ) : String :=
  if discountType = ascii "percentage" then
    "tienes " ++ toString value ++ "% de descuento (" ++ textOf name ++ ")."
  else if discountType = ascii "fixed_amount" then
    "tienes " ++ toString value ++ " de descuento (" ++ textOf name ++ ")."
  else "«" ++ textOf name ++ "»."

def ScanReply.text : ScanReply → String
  | used => "Ya usaste este código — es una vez por persona. 😉"
  | registered name discountType discountValue =>
    "✓ Registrado — " ++ discountCopy name discountType discountValue ++
      "\n\nMuestra este mensaje en el mostrador si te lo piden."
  | recordTrouble => "Tuvimos un problema técnico registrando tu escaneo. Intenta de nuevo."
  | recordFailed => "No pudimos registrar el escaneo. Intenta de nuevo en un momento."

def MessageReply.text : MessageReply → String
  | unrecognized => "🤔 No reconocimos ningún código en tu mensaje. Escanea el QR o escribe el " ++
      "código tal como aparece."
  | trouble => "Tuvimos un problema técnico. Intenta de nuevo en un momento."
  | inactiveToken => "🤔 Este QR no está activo. Puede ser de una promo que ya terminó — " ++
      "pregunta en el local."
  | greeting => "👋 ¡Hola! Escanea el QR de la promoción o envía el código exactamente como aparece."
  | unknownCode code => "🤔 El código " ++ code ++
      " no existe. Revisa que esté escrito exactamente como aparece."
  | archived name => "Esta promo (" ++ textOf name ++ ") ya no está activa."
  | expired name => "⏰ " ++ textOf name ++ " venció. Pregunta en el local por la promo vigente."
  | shareLocation => "📍 Para validar tu escaneo, comparte tu ubicación:\n\nToca el clip 📎 → " ++
      "Ubicación → «Enviar tu ubicación actual»."
  | noScanWaits => "Recibimos tu ubicación, pero no hay ningún escaneo esperándola. Envía " ++
      "primero el código del QR."
  | redeemTrouble => "Tuvimos un problema técnico validando el código. Intenta de nuevo."
  | redeemed name code => "✅ VÁLIDO — " ++ textOf name ++ "\n" ++ textOf code ++
      " · recién marcado como usado."
  | alreadyRedeemed code => "❌ YA USADO — " ++ textOf code ++ " ya fue canjeado antes."
  | redeemRefused "" => "❌ No se pudo validar este código."
  | redeemRefused message => "❌ " ++ message

/-! ### Handling a message -/

/-- The event of a scan, about to be recorded. -/
structure ScanJob where
  scan : Scan
  name : Bytes
  discountType : Bytes
  discountValue : ℤ
  evidenceType : String
  policyVersion : String
  contextHash : String

/-- The payload of `recordShared`. -/
def ScanJob.body (j : ScanJob) : EventBody where
  count := none
  customerRef := j.scan.phone
  orderRef := "scan|" ++ j.scan.code ++ "|" ++ j.scan.phone
  evidenceType := j.evidenceType
  policyVersion := j.policyVersion
  contextHash := j.contextHash

/-- The answer to a redemption: its status, and the code and the message of its error. -/
structure RedemptionAnswer where
  status : ℕ
  code : Option ℤ
  message : String

/-- Where the handling of a message is. -/
inductive ScanPlace where
  /-- A message has come, with a text or a location. -/
  | text (phone body : String)
  | location (phone lat lon : String)
  /-- Next is the query for a code, which was found as a token or not. -/
  | resolving (phone code : String) (token asToken : Bool)
  /-- The code is of a live campaign; next is a look at what the phone has used. -/
  | checking (phone : String) (res : Resolution)
  /-- A gift, which waits for a location. -/
  | asking (phone : String) (res : Resolution)
  | redeeming (phone : String) (res : Resolution)
  /-- Next are Cloud's checks of the event. -/
  | posting (job : ScanJob)
  /-- Next is Cloud's transaction. -/
  | storing (job : ScanJob) (e : NewEvent)
  /-- Cloud has answered; next is a note that the phone has used the code. -/
  | marking (job : ScanJob) (used : Bool)
  | answered (reply : MessageReply)
  | told (scan : Scan) (reply : ScanReply)

/-- What a step finds: the time; what Cloud finds, where `charge` refuses an account with one of two
statuses; whether a request comes to Cloud, its answer back, and a transaction through; and what a
redemption is answered with. -/
structure ScanChoice where
  now : ℕ
  env : Surroundings
  charged : ∀ p, env.reserveCharge = .error p → p.status = 402 ∨ p.status = 500
  reached : Bool
  delivered : Bool
  stored : Bool
  redemption : Option RedemptionAnswer

/-- What JSON leaves of an answer that is no resolution. -/
def Resolution.zero : Resolution where
  type := .shared false
  code := []
  campaignID := 0
  chainID := 0
  kind := []
  campaignName := []
  discountType := []
  discountValue := 0
  validUntil := 0
  archived := false
  expired := false
  contractID := []

/-- The reply where a code is not known. -/
def unknownReply (code : String) (token : Bool) : MessageReply :=
  if token then .inactiveToken
  else if code.toList.any fun c ↦ c.isDigit || c = '-' then .unknownCode code
  else .greeting

/-- Where a resolved code leads. -/
def route (phone : String) (res : Resolution) : ScanPlace :=
  if res.archived then .answered (.archived res.campaignName)
  else if res.expired then .answered (.expired res.campaignName)
  else match res.type with
    | .unique _ => .redeeming phone res
    | .shared _ => .checking phone res

/-- The event of a scan with a text. -/
def textJob (phone : String) (res : Resolution) : ScanJob where
  scan := ⟨phone, res.campaignID, textOf res.code⟩
  name := res.campaignName
  discountType := res.discountType
  discountValue := res.discountValue
  evidenceType := "whatsapp_scan"
  policyVersion := "scan-v1"
  contextHash := ""

/-- The event of a scan with a location, to which its receipt commits. -/
def locationJob (d : Deployment) (phone lat lon : String) (p : PendingScan) : ScanJob where
  scan := ⟨phone, p.campaignID, p.code⟩
  name := p.name
  discountType := []
  discountValue := 0
  evidenceType := "whatsapp_scan_geo"
  policyVersion := "geo-v1"
  contextHash := textOf (hexEncode
    (d.sha256 (utf8 (lat ++ "|" ++ lon ++ "|" ++ phone ++ "|" ++ p.code))).bytes)

/-- `redeemUnique`. -/
def redeemReply (res : Resolution) : Option RedemptionAnswer → MessageReply
  | none => .redeemTrouble
  | some answer =>
    if answer.status = 201 then .redeemed res.campaignName res.code
    else if answer.code = some 3 then .alreadyRedeemed res.code
    else .redeemRefused answer.message

/-- What `recordShared` makes of Cloud's answer. -/
def onStatus (job : ScanJob) (delivered : Bool) (status : ℕ) : ScanPlace :=
  if delivered = false then .told job.scan .recordTrouble
  else if status = 409 then .marking job true
  else if status = 201 then .marking job false
  else .told job.scan .recordFailed

variable {d : Deployment}

/-- Cloud's checks of an event. -/
def ScanCloud.check (c : ScanCloud d) (u : UpperCase) (a : AuthCtx) (env : Surroundings)
    (job : ScanJob) : Except Problem NewEvent :=
  recordEvents c.reg env a job.scan.campaignID (utf8 (u.toUpper job.scan.code)) job.body

/-- One step of the handling of a message, for the account the scanner serves. -/
def scanStep (u : UpperCase) (a : AuthCtx) (ch : ScanChoice) (p : ScanPlace) (s : ScanState d) :
    Option (ScanPlace × ScanState d) :=
  match p with
  | .text phone body =>
    match scanned u body with
    | none => some (.answered .unrecognized, s)
    | some (code, token) => some (.resolving phone code token token, s)
  | .location phone lat lon =>
    match s.takePending phone ch.now with
    | (none, s) => some (.answered .noScanWaits, s)
    | (some p, s) => some (.posting (locationJob d phone lat lon p), s)
  | .resolving phone code token asToken =>
    if ch.reached = false ∨ ch.delivered = false then some (.answered .trouble, s)
    else match s.cloud.tables.handleResolveCode u a (resolveQuery code asToken) ch.env.now with
      | .ok res => some (route phone res, s)
      | .error problem =>
        if problem.status ≠ 404 then some (route phone .zero, s)
        else if asToken then some (.resolving phone code token false, s)
        else some (.answered (unknownReply code token), s)
  | .checking phone res =>
    if s.alreadyDone phone (textOf res.code) then
      some (.told ⟨phone, res.campaignID, textOf res.code⟩ .used, s)
    else if res.kind = ascii "gift" then some (.asking phone res, s)
    else some (.posting (textJob phone res), s)
  | .asking phone res =>
    some (.answered .shareLocation, s.setPending phone
      ⟨textOf res.code, res.campaignID, res.campaignName, ch.now + pendingWindow⟩)
  | .redeeming _ res => some (.answered (redeemReply res ch.redemption), s)
  | .posting job =>
    if ch.reached = false then some (.told job.scan .recordTrouble, s)
    else match s.cloud.check u a ch.env job with
      | .ok e => some (.storing job e, s)
      | .error problem => some (onStatus job ch.delivered problem.status, s)
  | .storing job e =>
    if ch.stored = false then some (onStatus job ch.delivered 500, s)
    else match s.cloud.db.storeEvent a e with
      | .ok db => some (onStatus job ch.delivered 201, { s with cloud := { s.cloud with db } })
      | .error problem => some (onStatus job ch.delivered problem.status, s)
  | .marking job used =>
    some (.told job.scan (if used then .used else
      .registered job.name job.discountType job.discountValue),
      s.markDone job.scan.phone job.scan.code ch.now)
  | .answered _ => none
  | .told _ _ => none

/-- What happens apart from messages: the campaigns change, or the scanner is restarted. -/
inductive ScanEvent (d : Deployment) where
  | campaigns (change : CampaignChange d)
  | restart

/-- The scanner of an account. -/
def scanner (u : UpperCase) (a : AuthCtx) :
    Service (ScanState d) ScanPlace ScanChoice (ScanEvent d) where
  advance := scanStep u a
  outside
    | .campaigns change, s => { s with cloud := change.1 s.cloud }
    | .restart, s => { s with pending := fun _ ↦ none, done := fun _ ↦ none }

/-- Any number of messages to a scanner that has just been started, before any event. -/
def scans (cloud : ScanCloud d) (messages : ℕ → ScanPlace) : Config (ScanState d) ScanPlace :=
  ⟨⟨cloud, fun _ ↦ none, fun _ ↦ none⟩, messages⟩

/-- A message that has come. -/
inductive ScanPlace.Comes : ScanPlace → Prop
  | text (phone body : String) : Comes (.text phone body)
  | location (phone lat lon : String) : Comes (.location phone lat lon)

end Soroticket
