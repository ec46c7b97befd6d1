import Soroticket.Cloud.Audit
import Soroticket.Cloud.Handlers
import Soroticket.Cloud.Resolve

/-!
# Bodies of requests

The checks that `handleCreateCampaign`, `handleCreateProgram`, `handleRegisterShared` and
`handleIssueCodes` make on a request before they reserve a charge. A body that passes leaves a job:
what the handler goes on with, in the form in which it hands it to the contract.

Texts of a body are trimmed and turned to upper case by their runes, and measured in bytes; which
rune is the upper case of which is left open (`UpperCase`), and so is which text is an address.
-/

namespace Soroticket

/-- What the handlers take from their libraries and constants: the upper case of a rune, the address
a text stands for where it is valid, and the token payouts are made in. -/
structure Platform where
  unicode : UpperCase
  validStellarAddress : String → Option Address
  payoutToken : Address

/-- `time.Now()`, in seconds, and `AddDate`: the same day and time in later years. -/
structure Clock where
  now : Int64
  inYears : ℕ → Int64
  now_nonneg : 0 ≤ now
  now_lt : ∀ n, 0 < n → now < inYears n

/-- `big.Int.SetString`, in base ten. -/
def setString (text : String) : Option ℤ := signedInteger text.toList

/-- `maxCodeLen`: the longest code, in bytes. -/
def Platform.maxCodeLen : ℕ := 64

/-! ### Shared codes -/

/-- The terms of a shared code, as a body gives them. -/
structure SharedTerms where
  code : String
  attributedTo : String
  payoutRate : String

/-- A shared code that is to be registered. -/
structure SharedJob where
  code : String
  attributedTo : Option Address
  payoutToken : Option Address
  rate : ℤ

namespace Platform

variable (cl : Platform)

/-- A code as the handlers keep it. -/
def normalize (text : String) : String := cl.unicode.toUpper (trimSpace text)

/-- A rate that is given, and the token it is paid in. -/
def payoutTerms (payoutRate message : String) : Except Problem (Option Address × ℤ) :=
  if payoutRate ≠ "" ∧ payoutRate ≠ "0" then
    match setString payoutRate with
    | some rate =>
      if 0 < rate ∧ rate < 2 ^ 127 then .ok (some cl.payoutToken, rate) else .error ⟨400, message⟩
    | none => .error ⟨400, message⟩
  else .ok (none, 0)

/-- Whom a code is attributed to, and what it pays. Without an attribution there is no rate. -/
def attribution (terms : SharedTerms) (required : Bool) (message : String) :
    Except Problem (Option Address × Option Address × ℤ) :=
  let target := trimSpace terms.attributedTo
  if target = "" ∧ required = false then do
    rejectWhen (terms.payoutRate ≠ "" ∧ terms.payoutRate ≠ "0") 400
      "payout_rate requires attributed_to"
    return (none, none, 0)
  else do
    let address ← orProblem (cl.validStellarAddress target) 400
      "attributed_to must be a valid Stellar account or contract address"
    let (token, rate) ← cl.payoutTerms terms.payoutRate message
    return (some address, token, rate)

/-- The checks of `handleRegisterShared` on its body. -/
def sharedRequest (body : SharedTerms) : Except Problem SharedJob := do
  let code := cl.normalize body.code
  rejectWhen (code = "") 400 "code is required"
  rejectWhen (maxCodeLen < code.utf8ByteSize) 400 "code exceeds 64 UTF-8 bytes"
  let (attributedTo, payoutToken, rate) ← cl.attribution body false
    "payout_rate must be a positive i128 integer"
  return ⟨code, attributedTo, payoutToken, rate⟩

end Platform

/-! ### Campaigns and programs -/

/-- The body of a request to create a campaign. -/
structure CampaignBody where
  kind : String
  name : String
  discountType : String
  discountValue : Int64
  totalSupply : Int64
  validUntil : Int64
  shared : Option SharedTerms

/-- A campaign that is to be created. -/
structure CampaignJob where
  kind : String
  name : String
  discountType : String
  discountValue : Int64
  totalSupply : Int64
  validUntil : Int64
  shared : Option SharedJob

/-- `kindLabels`. -/
def kindLabels : List String := ["coupon", "creator", "gift", "voucher", "ticket"]

/-- The kinds of campaigns with a shared code. -/
def sharedKinds : List String := ["coupon", "creator", "gift"]

namespace Platform

variable (cl : Platform)

/-- The shared code of a new campaign. A code of a creator is attributed, one of a gift may be, and
of a coupon neither is asked for nor looked at. -/
def campaignShared (kind : String) (terms : SharedTerms) : Except Problem SharedJob := do
  let code := cl.normalize terms.code
  rejectWhen (maxCodeLen < code.utf8ByteSize) 400 "shared.code exceeds 64 UTF-8 bytes"
  if kind = "creator" ∨ kind = "gift" then
    let (attributedTo, payoutToken, rate) ← cl.attribution terms (kind = "creator")
      "payout_rate must be a positive i128 integer (token base-units)"
    return ⟨code, attributedTo, payoutToken, rate⟩
  else return ⟨code, none, none, 0⟩

/-- The shared code of a new campaign of one of the kinds that have one. -/
def requiredShared (kind : String) (shared : Option SharedTerms) :
    Except Problem (Option SharedJob) := do
  if kind ∈ sharedKinds then
    let terms ← orProblem (shared.filter fun terms ↦ trimSpace terms.code ≠ "") 400
      "shared.code is required for coupon/creator/gift campaigns"
    return some (← cl.campaignShared kind terms)
  else return none

/-- The checks of `handleCreateCampaign`, which reads the clock for a default and again to compare
with. -/
def campaignRequest (first second : Clock) (body : CampaignBody) : Except Problem CampaignJob := do
  rejectWhen (body.kind ∉ kindLabels) 400 ("kind must be one of " ++
    "coupon|creator|gift|voucher|ticket; create loyalty through /v1/loyalty/programs")
  let name := trimSpace body.name
  let discountType := trimSpace body.discountType
  rejectWhen (name = "" ∨ 96 < name.utf8ByteSize ∨ discountType = "" ∨
    32 < discountType.utf8ByteSize) 400 "name and discount_type are required"
  rejectWhen (body.discountValue < 0) 400 "discount_value cannot be negative"
  let validUntil := if body.validUntil = 0 then first.inYears 1 else body.validUntil
  rejectWhen (validUntil ≤ second.now) 400 "valid_until must be in the future"
  rejectWhen (body.totalSupply = 0 ∧ body.kind ∉ sharedKinds) 400
    "total_supply is required for voucher/ticket campaigns"
  let totalSupply := if body.totalSupply = 0 then 10000 else body.totalSupply
  rejectWhen (totalSupply < 0 ∨ 4294967295 < totalSupply) 400
    "total_supply must fit an unsigned 32-bit integer"
  let shared ← cl.requiredShared body.kind body.shared
  return ⟨body.kind, name, discountType, body.discountValue, totalSupply, validUntil, shared⟩

end Platform

/-- The body of a request to create a loyalty program. -/
structure ProgramBody where
  name : String
  threshold : Int64
  rewardDiscountType : String
  rewardDiscountValue : Int64
  validYears : Int64

/-- A loyalty program that is to be created. -/
structure ProgramJob where
  name : String
  threshold : Int64
  rewardDiscountType : String
  rewardDiscountValue : Int64
  validYears : ℕ

/-- The checks of `handleCreateProgram`. A missing type takes its default before types are
trimmed. -/
def programRequest (body : ProgramBody) : Except Problem ProgramJob := do
  let name := trimSpace body.name
  rejectWhen (name = "" ∨ 96 < name.utf8ByteSize ∨ body.threshold < 1 ∨
    1000000 < body.threshold) 400 "name and a threshold ≥ 1 are required"
  rejectWhen (body.rewardDiscountValue < 0) 400 "reward_discount_value cannot be negative"
  let rewardDiscountType := trimSpace
    (if body.rewardDiscountType = "" then "free_item" else body.rewardDiscountType)
  rejectWhen (32 < rewardDiscountType.utf8ByteSize) 400
    "reward_discount_type exceeds 32 UTF-8 bytes"
  let validYears := if body.validYears ≤ 0 then 2 else body.validYears
  rejectWhen (10 < validYears) 400 "valid_years cannot exceed 10"
  return ⟨name, body.threshold, rewardDiscountType, body.rewardDiscountValue,
    validYears.toInt.toNat⟩

/-! ### Codes to issue -/

/-- Codes that are to be generated. -/
structure GenerateBody where
  count : Int64
  codePrefix : String

/-- The body of a request to issue codes. -/
structure IssueBody where
  codes : List String
  generate : Option GenerateBody

/-- The most codes of one request. -/
def maxIssue : ℕ := 1000

/-- The letters after the prefix of a generated code. -/
def generatedLen : ℕ := 12

/-- `codeAlphabet`. -/
def codeAlphabet : List Char := "ABCDEFGHJKMNPQRSTUVWXYZ23456789".toList

/-- Letters drawn from the alphabet. -/
abbrev Letters (n : ℕ) : Type := {l : List Char // l.length = n ∧ ∀ c ∈ l, c ∈ codeAlphabet}

/-- `genCode`, with the letters it draws. -/
def genCode (codePrefix : String) {n : ℕ} (letters : Letters n) : String :=
  if codePrefix ≠ "" then codePrefix ++ "-" ++ String.ofList letters else String.ofList letters

/-- The codes a body gives. -/
def Platform.givenCodes (cl : Platform) (codes : List String) : List String :=
  (codes.map cl.normalize).filter (· ≠ "")

/-- The checks on codes that are to be generated: their prefix. -/
def Platform.generateRequest (cl : Platform) (given : List String) (g : GenerateBody) :
    Except Problem String := do
  rejectWhen ((maxIssue : ℤ) < g.count.toInt ∨ (maxIssue : ℤ) - g.count.toInt < given.length) 400
    "max 1000 codes per request"
  let codePrefix := cl.normalize g.codePrefix
  rejectWhen (Platform.maxCodeLen < codePrefix.utf8ByteSize + 1 + generatedLen) 400
    "generated-code prefix is too long"
  return codePrefix

/-- The first code that occurs again in a list after it was seen. -/
def firstRepeated : List String → List String → Option String
  | _, [] => none
  | seen, code :: codes => if code ∈ seen then some code else firstRepeated (code :: seen) codes

/-- The checks on all codes of a request. -/
def checkCodes (codes : List String) : Except Problem Unit := do
  rejectWhen (codes = []) 400 "provide codes[] or generate.count"
  rejectWhen (maxIssue < codes.length) 400 "max 1000 codes per request"
  match codes.find? fun code ↦ Platform.maxCodeLen < code.utf8ByteSize with
  | some code => .error ⟨400, "code " ++ code.quote ++ " exceeds 64 chars"⟩
  | none =>
    match firstRepeated [] codes with
    | some code => .error ⟨400, "duplicate code " ++ code.quote ++ " in request"⟩
    | none => .ok ()

end Soroticket
