import Mathlib.Data.List.MinMax
import Mathlib.Data.List.ProdSigma
import Mathlib.Data.Prod.Lex
import Soroticket.Cloud.Handlers

/-!
# Scan tokens

A printed code carries an opaque token. `scanTokenFor` hands out the token of a campaign and one of
its codes, and `handleResolveCode` takes a scanned token, or a typed code, to a campaign.

A token is stored with its campaign, but is resolved to its code only: the campaign is then the one
the query for a typed code prefers, among all that carry the same code. So a token comes back to its
campaign exactly when that query prefers it (`scan_token_resolves_iff`), and a second campaign with
the same code takes over the tokens of the first (`scan_token_lost`).
-/

namespace Soroticket

/-! ### The tables -/

/-- A row of `campaigns`, with the columns a scan is answered with. -/
structure CampaignDetails extends CampaignRow where
  kind : Bytes
  name : Bytes
  discountType : Bytes
  discountValue : ℤ
  deriving DecidableEq

/-- A row of `shared_codes` or of `codes`, with the column of it that a scan is answered with. -/
structure CodeRow (δ : Type) where
  campaignID : ℕ
  code : Bytes
  detail : δ
  deriving DecidableEq

/-- `tokenAlphabet`. -/
def tokenAlphabet : List Char :=
  ['A', 'B', 'C', 'D', 'E', 'F', 'G', 'H', 'J', 'K', 'M', 'N', 'P', 'Q', 'R', 'S', 'T', 'U', 'V',
    'W', 'X', 'Y', 'Z', '2', '3', '4', '5', '6', '7', '8', '9']

/-- What `newScanToken` draws: the letters after `ST`. -/
structure ScanToken where
  body : List Char
  length_body : body.length = 14
  mem_alphabet : ∀ c ∈ body, c ∈ tokenAlphabet
  deriving DecidableEq

/-- The token as it is printed. -/
def ScanToken.text (t : ScanToken) : String := String.ofList ('S' :: 'T' :: t.body)

/-- A row of `scan_tokens`. -/
structure ScanTokenRow where
  token : ScanToken
  account : AuthCtx
  campaignID : ℕ
  code : Bytes
  revokedAt : Option ℤ
  deriving DecidableEq

/-- The tables behind scan tokens, with the keys that are unique in them. A token is stored under
the account of its campaign. -/
structure ScanDatabase where
  campaigns : List CampaignDetails
  sharedCodes : List (CodeRow (Option Bytes))
  codes : List (CodeRow Bytes)
  scanTokens : List ScanTokenRow
  campaign_key : ∀ c ∈ campaigns, ∀ c' ∈ campaigns, c.id = c'.id → c = c'
  token_key : ∀ r ∈ scanTokens, ∀ r' ∈ scanTokens, r.token = r'.token → r = r'
  token_account : ∀ r ∈ scanTokens, ∀ c ∈ campaigns, c.id = r.campaignID → c.account = r.account

/-- A campaign of an account. -/
structure OwnCampaign (db : ScanDatabase) (a : AuthCtx) where
  row : CampaignDetails
  mem : row ∈ db.campaigns
  own : row.account = a

namespace ScanDatabase

variable (db : ScanDatabase) {δ : Type}

/-! ### Handing out a token -/

/-- `campaignByID`: a campaign of the account. -/
def campaignByID (a : AuthCtx) (id : ℕ) : Option (OwnCampaign db a) :=
  (db.campaigns.attach.find? fun c ↦ c.1.id = id ∧ c.1.account = a).bind fun c ↦
    if h : c.1.account = a then some ⟨c.1, c.2, h⟩ else none

/-- `qrTarget`: a campaign of the account, and the requested one of its codes, or its shared one. -/
def qrTarget (a : AuthCtx) (id : ℕ) (requested : Bytes) :
    Except Problem (OwnCampaign db a × Bytes) := do
  let c ← orProblem (db.campaignByID a id) 404 "campaign not found"
  let shared := (db.sharedCodes.find? fun r ↦ r.campaignID = c.row.id).elim [] (·.code)
  rejectWhen (requested = [] ∧ shared = []) 404
    "this campaign has no shared code; pass ?code= for a specific code"
  let code := if requested = [] then shared else requested
  rejectWhen (¬((∃ r ∈ db.sharedCodes, r.campaignID = c.row.id ∧ r.code = code) ∨
    ∃ r ∈ db.codes, r.campaignID = c.row.id ∧ r.code = code)) 404 "code not found in this campaign"
  return (c, code)

variable {db}

/-- The live token of a campaign and a code. -/
def liveToken (db : ScanDatabase) (campaignID : ℕ) (code : Bytes) : Option ScanTokenRow :=
  db.scanTokens.find? fun r ↦ r.campaignID = campaignID ∧ r.code = code ∧ r.revokedAt = none

/-- Insert a token that is not there yet. -/
def insertToken {a : AuthCtx} (c : OwnCampaign db a) (code : Bytes) (minted : ScanToken)
    (hfresh : ∀ r ∈ db.scanTokens, r.token ≠ minted) : ScanDatabase :=
  { db with
    scanTokens := db.scanTokens ++ [⟨minted, a, c.row.id, code, none⟩]
    token_key := by
      intro r hr r' hr' h
      rcases List.mem_append.1 hr with hr | hr <;> rcases List.mem_append.1 hr' with hr' | hr'
      · exact db.token_key r hr r' hr' h
      · exact absurd (by rw [h, List.mem_singleton.1 hr']) (hfresh r hr)
      · exact absurd (by rw [← h, List.mem_singleton.1 hr]) (hfresh r' hr')
      · rw [List.mem_singleton.1 hr, List.mem_singleton.1 hr']
    token_account := by
      intro r hr c' hc' h
      rcases List.mem_append.1 hr with hr | hr
      · exact db.token_account r hr c' hc' h
      · rw [List.mem_singleton.1 hr] at h ⊢
        rw [db.campaign_key c' hc' c.row c.mem h, c.own] }

/-- `scanTokenFor`: the live token of a campaign and a code, or a new one. A new one that another
row has already is refused by the table. -/
def scanTokenFor {a : AuthCtx} (c : OwnCampaign db a) (code : Bytes) (minted : ScanToken) :
    Except Problem (ScanToken × ScanDatabase) :=
  match db.liveToken c.row.id code with
  | some r => .ok (r.token, db)
  | none =>
    if hfresh : ∀ r ∈ db.scanTokens, r.token ≠ minted then
      .ok (minted, insertToken c code minted hfresh)
    else .error ⟨500, "internal server error"⟩

/-- What `scanTokenFor` hands out is stored, live, for the campaign and the code it was asked for,
and no row is lost. -/
theorem scanTokenFor_spec {a : AuthCtx} {c : OwnCampaign db a} {code : Bytes} {minted t : ScanToken}
    {db₁ : ScanDatabase} (h : scanTokenFor c code minted = .ok (t, db₁)) :
    ⟨t, a, c.row.id, code, none⟩ ∈ db₁.scanTokens ∧ ∀ r ∈ db.scanTokens, r ∈ db₁.scanTokens := by
  rw [scanTokenFor] at h
  cases hlive : db.liveToken c.row.id code with
  | some r =>
    rw [hlive] at h
    obtain ⟨rfl, rfl⟩ := Prod.mk.inj (Except.ok.inj h)
    have hr := List.mem_of_find?_eq_some hlive
    have hwhere := List.find?_some hlive
    obtain ⟨rcamp, rcode, rlive⟩ := of_decide_eq_true hwhere
    have raccount : r.account = a := by
      rw [← c.own]
      exact (db.token_account r hr c.row c.mem rcamp.symm).symm
    obtain ⟨token, account, campaignID, rowCode, revokedAt⟩ := r
    dsimp only at rcamp rcode rlive raccount
    subst rcamp rcode rlive raccount
    exact ⟨hr, fun _ ↦ id⟩
  | none =>
    rw [hlive] at h
    dsimp only at h
    split at h
    case isTrue hfresh =>
      obtain ⟨rfl, rfl⟩ := Prod.mk.inj (Except.ok.inj h)
      exact ⟨List.mem_append_right _ List.mem_cons_self, fun r hr ↦ List.mem_append_left _ hr⟩
    case isFalse => exact absurd h.symm (by simp)

/-! ### Resolving -/

/-- `resolveScanToken`: the campaign and the code of a live token of the account. -/
def resolveScanToken (db : ScanDatabase) (a : AuthCtx) (token : String) : Option (ℕ × Bytes) :=
  (db.scanTokens.find? fun r ↦ r.token.text = token ∧ r.account = a ∧ r.revokedAt = none).map
    fun r ↦ (r.campaignID, r.code)

/-- What the query for a code sorts by: the campaigns that run, then the newest. -/
def rank (now : ℤ) (c : CampaignDetails) : ℕ ×ₗ ℕ :=
  toLex (if c.archived = false ∧ now < c.validUntil then 1 else 0, c.id)

/-- The rows of a code in one of the two tables, joined with their campaigns of the account. -/
def carriers (db : ScanDatabase) (rows : List (CodeRow δ)) (a : AuthCtx) (code : Bytes) :
    List (CodeRow δ × CampaignDetails) :=
  (rows ×ˢ db.campaigns).filter fun p ↦
    p.1.code = code ∧ p.2.id = p.1.campaignID ∧ p.2.account = a

/-- The first of them in the order of the query. -/
def preferred (db : ScanDatabase) (rows : List (CodeRow δ)) (a : AuthCtx) (code : Bytes)
    (now : ℤ) : Option (CodeRow δ × CampaignDetails) :=
  (db.carriers rows a code).argmax fun p ↦ rank now p.2

end ScanDatabase

/-- What kind of code was scanned. -/
inductive ScannedAs where
  | shared (attributed : Bool)
  | unique (status : Bytes)
  deriving DecidableEq

/-- The answer of `handleResolveCode`. -/
structure Resolution where
  type : ScannedAs
  code : Bytes
  campaignID : ℕ
  chainID : UInt64
  kind : Bytes
  campaignName : Bytes
  discountType : Bytes
  discountValue : ℤ
  validUntil : ℤ
  archived : Bool
  expired : Bool
  contractID : Bytes
  deriving DecidableEq

/-- The answer for a code and its campaign. -/
def resolution (type : ScannedAs) (code : Bytes) (c : CampaignDetails) (now : ℤ) : Resolution where
  type
  code
  campaignID := c.id
  chainID := c.chainID
  kind := c.kind
  campaignName := c.name
  discountType := c.discountType
  discountValue := c.discountValue
  validUntil := c.validUntil
  archived := c.archived
  expired := c.validUntil < now
  contractID := c.contractID

/-- `unicode.ToUpper`, which is known here for ASCII. -/
structure UpperCase where
  upper : Char → Char
  upper_ascii : ∀ c : Char, c.toNat < 128 → upper c = c.toUpper

/-- `strings.ToUpper`. -/
def UpperCase.toUpper (u : UpperCase) (text : String) : String :=
  String.ofList (text.toList.map u.upper)

/-- The query of a request to resolve a code. -/
structure ResolveQuery where
  code : String
  token : String

namespace ScanDatabase

/-- The longest code, and the longest token, in bytes. -/
def maxCodeLen : ℕ := 64

/-- `handleResolveCode`, once it has a code. -/
def resolveCode (db : ScanDatabase) (a : AuthCtx) (code : Bytes) (now : ℤ) :
    Except Problem Resolution := do
  rejectWhen (code = [] ∨ maxCodeLen < code.length) 400 "code or token is required (1-64 bytes)"
  match db.preferred db.sharedCodes a code now with
  | some (row, c) => return resolution (.shared (row.detail.getD [] ≠ [])) code c now
  | none =>
    let (row, c) ← orProblem (db.preferred db.codes a code now) 404
      "code not found in this organization"
    return resolution (.unique row.detail) code c now

/-- `handleResolveCode`. The campaign of a token is not used. -/
def handleResolveCode (db : ScanDatabase) (u : UpperCase) (a : AuthCtx) (query : ResolveQuery)
    (now : ℤ) : Except Problem Resolution := do
  let token := u.toUpper (trimSpace query.token)
  let code ←
    if token = "" then .ok (utf8 (u.toUpper (trimSpace query.code)))
    else do
      rejectWhen (maxCodeLen < token.utf8ByteSize) 400 "token is too long"
      let (_, resolved) ← orProblem (db.resolveScanToken a token) 404 "unknown scan token"
      pure resolved
  db.resolveCode a code now

end ScanDatabase

/-! ### The text of a token -/

theorem trimSpace_of_no_space {l : List Char} (h : ∀ c ∈ l, isSpace c = false) :
    trimSpace (String.ofList l) = String.ofList l := by
  have hdrop : ∀ l' : List Char, (∀ c ∈ l', isSpace c = false) → l'.dropWhile isSpace = l' := by
    intro l' h'
    cases l' with
    | nil => rfl
    | cons c l' => rw [List.dropWhile_cons, h' c List.mem_cons_self]; rfl
  rw [trimSpace, String.toList_ofList, hdrop l h,
    hdrop l.reverse fun c hc ↦ h c (List.mem_reverse.1 hc), List.reverse_reverse]

theorem utf8ByteSize_ofList {l : List Char} (h : ∀ c ∈ l, c.utf8Size = 1) :
    (String.ofList l).utf8ByteSize = l.length := by
  induction l with
  | nil => rfl
  | cons c l ih =>
    rw [String.ofList_cons, String.utf8ByteSize_append, String.utf8ByteSize_singleton,
      h c List.mem_cons_self, ih fun x hx ↦ h x (List.mem_cons_of_mem c hx), List.length_cons,
      Nat.add_comm]

/-- The letters of a token: none is cut or changed, and each is one byte. -/
theorem tokenAlphabet_plain : ∀ c ∈ tokenAlphabet,
    isSpace c = false ∧ c.toNat < 128 ∧ c.toUpper = c ∧ c.utf8Size = 1 := by
  have hall : (tokenAlphabet.all fun c ↦
      isSpace c = false ∧ c.toNat < 128 ∧ c.toUpper = c ∧ c.utf8Size = 1) = true := by decide
  exact fun c hc ↦ of_decide_eq_true (List.all_eq_true.1 hall c hc)

namespace ScanToken

theorem plain (t : ScanToken) : ∀ c ∈ 'S' :: 'T' :: t.body,
    isSpace c = false ∧ c.toNat < 128 ∧ c.toUpper = c ∧ c.utf8Size = 1 := by
  intro c hc
  apply tokenAlphabet_plain
  rcases List.mem_cons.1 hc with rfl | hc
  · decide
  · rcases List.mem_cons.1 hc with rfl | hc
    · decide
    · exact t.mem_alphabet c hc

theorem text_inj {t t' : ScanToken} (h : t.text = t'.text) : t = t' := by
  have hlist := congrArg String.toList h
  rw [text, text, String.toList_ofList, String.toList_ofList] at hlist
  cases t
  cases t'
  simpa using hlist

/-- A token is scanned as it is printed. -/
theorem toUpper_trimSpace (u : UpperCase) (t : ScanToken) :
    u.toUpper (trimSpace t.text) = t.text := by
  rw [text, trimSpace_of_no_space fun c hc ↦ (t.plain c hc).1, UpperCase.toUpper,
    String.toList_ofList]
  have hmap : ('S' :: 'T' :: t.body).map u.upper = ('S' :: 'T' :: t.body).map id := by
    refine List.map_congr_left fun c hc ↦ ?_
    obtain ⟨-, hascii, hupper, -⟩ := t.plain c hc
    rw [u.upper_ascii c hascii, hupper, id]
  rw [hmap, List.map_id]

theorem utf8ByteSize_text (t : ScanToken) : t.text.utf8ByteSize = 16 := by
  rw [text, utf8ByteSize_ofList fun c hc ↦ (t.plain c hc).2.2.2, List.length_cons,
    List.length_cons, t.length_body]

theorem text_ne_empty (t : ScanToken) : t.text ≠ "" := by
  intro h
  have hsize := t.utf8ByteSize_text
  rw [h] at hsize
  exact absurd hsize (by decide)

end ScanToken

namespace ScanDatabase

variable {db : ScanDatabase} {δ : Type} {rows : List (CodeRow δ)} {a : AuthCtx} {code : Bytes}
  {now : ℤ} {id : ℕ}

/-! ### What a resolution depends on -/

/-- A campaign carries a code in a table, and the query ranks none above it that does. -/
def Prefers (db : ScanDatabase) (rows : List (CodeRow δ)) (a : AuthCtx) (code : Bytes) (now : ℤ)
    (id : ℕ) : Prop :=
  ∃ p ∈ db.carriers rows a code, p.2.id = id ∧
    ∀ q ∈ db.carriers rows a code, rank now q.2 ≤ rank now p.2

/-- A code belongs to a campaign before all others of the account: as a shared code, or as a unique
one where no campaign shares it. -/
def Owns (db : ScanDatabase) (a : AuthCtx) (code : Bytes) (now : ℤ) (id : ℕ) : Prop :=
  db.Prefers db.sharedCodes a code now id ∨
    db.carriers db.sharedCodes a code = [] ∧ db.Prefers db.codes a code now id

theorem mem_carriers {p : CodeRow δ × CampaignDetails} : p ∈ db.carriers rows a code ↔
    (p.1 ∈ rows ∧ p.2 ∈ db.campaigns) ∧
      p.1.code = code ∧ p.2.id = p.1.campaignID ∧ p.2.account = a := by
  rw [carriers, List.mem_filter, List.mem_product, decide_eq_true_iff]

/-- A table whose carriers of a code are one campaign prefers that campaign. -/
theorem prefers_of_only (hne : db.carriers rows a code ≠ [])
    (honly : ∀ p ∈ db.carriers rows a code, p.2.id = id) : db.Prefers rows a code now id := by
  obtain ⟨p, hp⟩ := List.exists_mem_of_ne_nil _ hne
  refine ⟨p, hp, honly p hp, fun q hq ↦ ?_⟩
  have hsame : q.2 = p.2 := db.campaign_key _ (mem_carriers.1 hq).1.2 _ (mem_carriers.1 hp).1.2
    ((honly q hq).trans (honly p hp).symm)
  rw [hsame]

/-- What a QR points at is carried by its campaign. -/
theorem carriers_of_qrTarget {requested : Bytes} {c : OwnCampaign db a}
    (h : db.qrTarget a id requested = .ok (c, code)) :
    db.carriers db.sharedCodes a code ≠ [] ∨ db.carriers db.codes a code ≠ [] := by
  obtain ⟨c', -, h⟩ := bind_eq_ok.1 h
  obtain ⟨_, -, h⟩ := bind_eq_ok.1 h
  obtain ⟨_, hexists, h⟩ := bind_eq_ok.1 h
  rw [rejectWhen_eq_ok, not_not] at hexists
  obtain ⟨rfl, hcode⟩ := Prod.mk.inj (Except.ok.inj h)
  rw [hcode] at hexists
  rcases hexists with ⟨r, hr, hcamp, hrcode⟩ | ⟨r, hr, hcamp, hrcode⟩
  · exact Or.inl (List.ne_nil_of_mem (a := (r, c'.row))
      (mem_carriers.2 ⟨⟨hr, c'.mem⟩, hrcode, hcamp.symm, c'.own⟩))
  · exact Or.inr (List.ne_nil_of_mem (a := (r, c'.row))
      (mem_carriers.2 ⟨⟨hr, c'.mem⟩, hrcode, hcamp.symm, c'.own⟩))

/-- A code of one campaign of the account is that campaign's. -/
theorem owns_of_only (hcarried : db.carriers db.sharedCodes a code ≠ [] ∨
      db.carriers db.codes a code ≠ [])
    (hshared : ∀ p ∈ db.carriers db.sharedCodes a code, p.2.id = id)
    (hunique : ∀ p ∈ db.carriers db.codes a code, p.2.id = id) : db.Owns a code now id := by
  by_cases hnone : db.carriers db.sharedCodes a code = []
  · exact Or.inr ⟨hnone, prefers_of_only (hcarried.resolve_left (not_not_intro hnone)) hunique⟩
  · exact Or.inl (prefers_of_only hnone hshared)

/-- What a QR points at is its campaign's, where no other of the account carries the code. -/
theorem owns_of_qrTarget {requested : Bytes} {c : OwnCampaign db a}
    (h : db.qrTarget a id requested = .ok (c, code))
    (hshared : ∀ p ∈ db.carriers db.sharedCodes a code, p.2.id = c.row.id)
    (hunique : ∀ p ∈ db.carriers db.codes a code, p.2.id = c.row.id) :
    db.Owns a code now c.row.id :=
  owns_of_only (carriers_of_qrTarget h) hshared hunique

/-- Campaigns of one rank are one campaign, up to its id. -/
theorem id_of_rank {c c' : CampaignDetails} (h : rank now c ≤ rank now c')
    (h' : rank now c' ≤ rank now c) : c.id = c'.id :=
  congrArg (fun r ↦ (ofLex r).2) (le_antisymm h h')

/-- What the query takes carries the code, and none that does is ranked above it. -/
theorem preferred_spec {p : CodeRow δ × CampaignDetails}
    (h : db.preferred rows a code now = some p) :
    p ∈ db.carriers rows a code ∧ ∀ q ∈ db.carriers rows a code, rank now q.2 ≤ rank now p.2 :=
  ⟨List.argmax_mem h, fun _ hq ↦ List.le_of_mem_argmax (f := fun p ↦ rank now p.2) hq h⟩

/-- What the query takes is what it prefers. -/
theorem prefers_iff :
    db.Prefers rows a code now id ↔ ∃ p, db.preferred rows a code now = some p ∧ p.2.id = id := by
  constructor
  · rintro ⟨p, hp, hid, hbest⟩
    cases hpref : db.preferred rows a code now with
    | none =>
      rw [preferred, List.argmax_eq_none] at hpref
      rw [hpref] at hp
      exact absurd hp List.not_mem_nil
    | some q =>
      obtain ⟨hq, hmost⟩ := preferred_spec hpref
      exact ⟨q, rfl, (id_of_rank (hbest q hq) (hmost p hp)).trans hid⟩
  · rintro ⟨p, hpref, hid⟩
    obtain ⟨hp, hmost⟩ := preferred_spec hpref
    exact ⟨p, hp, hid, hmost⟩

/-- A typed code is taken to the campaign that owns it, and to no other. -/
theorem resolveCode_iff :
    (∃ res, db.resolveCode a code now = .ok res ∧ res.campaignID = id ∧ res.code = code) ↔
      (code ≠ [] ∧ code.length ≤ maxCodeLen) ∧ db.Owns a code now id := by
  rw [Owns, prefers_iff, prefers_iff, ← List.argmax_eq_none (f := fun p ↦ rank now p.2)]
  constructor
  · rintro ⟨res, hres, hid, -⟩
    obtain ⟨_, hlen, hres⟩ := bind_eq_ok.1 hres
    rw [rejectWhen_eq_ok, not_or, not_lt] at hlen
    refine ⟨hlen, ?_⟩
    cases hshared : db.preferred db.sharedCodes a code now with
    | some p =>
      rw [hshared] at hres
      obtain rfl := Except.ok.inj hres
      exact Or.inl ⟨p, rfl, hid⟩
    | none =>
      rw [hshared] at hres
      obtain ⟨p, hp, hres⟩ := bind_eq_ok.1 hres
      rw [orProblem_eq_ok] at hp
      obtain rfl := Except.ok.inj hres
      exact Or.inr ⟨hshared, p, hp, hid⟩
  · rintro ⟨⟨hne, hlen⟩, ⟨p, hp, hid⟩ | ⟨hnone, p, hp, hid⟩⟩
    · refine ⟨resolution (.shared (p.1.detail.getD [] ≠ [])) code p.2 now, ?_, hid, rfl⟩
      rw [resolveCode, rejectWhen, if_neg (by simp [hne, hlen]), hp]
      rfl
    · refine ⟨resolution (.unique p.1.detail) code p.2 now, ?_, hid, rfl⟩
      rw [resolveCode, rejectWhen, if_neg (by simp [hne, hlen]),
        show db.preferred db.sharedCodes a code now = none from hnone, hp]
      rfl

/-- A live token is taken to its code. -/
theorem resolveScanToken_eq {r : ScanTokenRow} (hr : r ∈ db.scanTokens)
    (hlive : r.revokedAt = none) :
    db.resolveScanToken r.account r.token.text = some (r.campaignID, r.code) := by
  rw [resolveScanToken]
  cases hfind : db.scanTokens.find? fun r' ↦
      r'.token.text = r.token.text ∧ r'.account = r.account ∧ r'.revokedAt = none with
  | none =>
    have hnot := List.find?_eq_none.1 hfind r hr
    exact absurd (decide_eq_true ⟨rfl, rfl, hlive⟩) hnot
  | some r' =>
    have hwhere := List.find?_some hfind
    obtain ⟨htext, -, -⟩ := of_decide_eq_true hwhere
    rw [db.token_key r' (List.mem_of_find?_eq_some hfind) r hr (ScanToken.text_inj htext)]
    rfl

/-- Scanning a live token is typing its code. -/
theorem handleResolveCode_token (u : UpperCase) {r : ScanTokenRow} (hr : r ∈ db.scanTokens)
    (hlive : r.revokedAt = none) (typed : String) :
    db.handleResolveCode u r.account ⟨typed, r.token.text⟩ now =
      db.resolveCode r.account r.code now := by
  rw [handleResolveCode, r.token.toUpper_trimSpace u, if_neg r.token.text_ne_empty,
    r.token.utf8ByteSize_text, rejectWhen, if_neg (by decide), resolveScanToken_eq hr hlive]
  rfl

/-- A database goes on as another: rows of `scan_tokens` are revoked, but never rewritten or
deleted. -/
def KeepsTokens (db db' : ScanDatabase) : Prop :=
  ∀ r ∈ db.scanTokens, ∃ r' ∈ db'.scanTokens, r'.token = r.token ∧ r'.account = r.account ∧
    r'.campaignID = r.campaignID ∧ r'.code = r.code

namespace Sample

def account : AuthCtx := ⟨1, .test⟩

def campaign (id : ℕ) : CampaignDetails where
  id
  account
  chainID := 1
  contractID := []
  validUntil := 100
  archived := false
  kind := []
  name := []
  discountType := []
  discountValue := 1

/-- Two campaigns share one code, and the older has another of its own. -/
def shop : ScanDatabase where
  campaigns := [campaign 1, campaign 2]
  sharedCodes := [⟨1, [88], none⟩, ⟨2, [88], none⟩]
  codes := [⟨1, [89], []⟩]
  scanTokens := []
  campaign_key := by decide
  token_key := by simp
  token_account := by simp

def older : OwnCampaign shop account := ⟨campaign 1, by decide, rfl⟩

def newer : OwnCampaign shop account := ⟨campaign 2, by decide, rfl⟩

def token : ScanToken where
  body := List.replicate 14 'A'
  length_body := rfl
  mem_alphabet c hc := by
    rw [List.eq_of_mem_replicate hc]
    exact List.mem_cons_self

def upper : UpperCase := ⟨Char.toUpper, fun _ _ ↦ rfl⟩

/-- What the two QRs point at. -/
theorem qrTarget_newer : shop.qrTarget account 2 [] = .ok (newer, [88]) := rfl

theorem qrTarget_older : shop.qrTarget account 1 [89] = .ok (older, [89]) := rfl

/-- The shop, with the token of a campaign and a code. -/
def printed (c : OwnCampaign shop account) (code : Bytes) : ScanDatabase :=
  insertToken c code token (List.forall_mem_nil _)

theorem scanTokenFor_printed (c : OwnCampaign shop account) (code : Bytes) :
    scanTokenFor c code token = .ok (token, printed c code) := by
  rw [scanTokenFor, show shop.liveToken c.row.id code = none from rfl]
  exact dif_pos (List.forall_mem_nil _)

theorem live_printed (c : OwnCampaign shop account) (code : Bytes) :
    ∀ r ∈ (printed c code).scanTokens, r.token = token → r.revokedAt = none := by
  intro r hr _
  rw [List.mem_singleton.1 hr]

/-- The query prefers the newer campaign. -/
theorem owns_printed (c : OwnCampaign shop account) :
    (printed c [88]).Owns account [88] 0 2 := by
  refine Or.inl ⟨(⟨2, [88], none⟩, campaign 2), ?_, rfl, ?_⟩
  · show _ ∈ shop.carriers shop.sharedCodes account [88]
    decide
  · show ∀ q ∈ shop.carriers shop.sharedCodes account [88], rank 0 q.2 ≤ rank 0 (campaign 2)
    decide

/-- The other code is the older campaign's. -/
theorem owns_printed_older : (printed older [89]).Owns account [89] 0 1 := by
  show shop.Owns account [89] 0 older.row.id
  exact owns_of_qrTarget qrTarget_older (by decide) (by decide)

end Sample

/-- **A token comes back to the campaign it was printed for exactly when the query for its code
prefers that campaign.** `db₁` is the database once the token is handed out, and `db₂` any later
one, with whatever campaigns and codes. -/
theorem scan_token_resolves_iff (u : UpperCase) {db db₁ db₂ : ScanDatabase} {a : AuthCtx}
    (c : OwnCampaign db a) {code : Bytes} {minted t : ScanToken}
    (h : scanTokenFor c code minted = .ok (t, db₁)) (hkeeps : KeepsTokens db₁ db₂)
    (hlive : ∀ r ∈ db₂.scanTokens, r.token = t → r.revokedAt = none) (typed : String) (now : ℤ) :
    (∃ res, db₂.handleResolveCode u a ⟨typed, t.text⟩ now = .ok res ∧
      res.campaignID = c.row.id ∧ res.code = code) ↔
      (code ≠ [] ∧ code.length ≤ maxCodeLen) ∧ db₂.Owns a code now c.row.id := by
  obtain ⟨r, hr, htoken, haccount, -, hcode⟩ := hkeeps _ (scanTokenFor_spec h).1
  dsimp only at htoken haccount hcode
  have hscan : db₂.handleResolveCode u r.account ⟨typed, r.token.text⟩ now =
      db₂.resolveCode r.account r.code now := handleResolveCode_token u hr (hlive r hr htoken) typed
  rw [htoken, haccount, hcode] at hscan
  rw [hscan]
  exact resolveCode_iff

/-- The token of the newer campaign comes back to it, and that of the code no other carries to the
older one. -/
theorem scan_token_resolves_iff_shop :
    (Sample.shop.qrTarget Sample.account 2 [] = .ok (Sample.newer, [88]) ∧
      ∃ res, (Sample.printed Sample.newer [88]).handleResolveCode Sample.upper Sample.account
        ⟨"", Sample.token.text⟩ 0 = .ok res ∧ res.campaignID = 2 ∧ res.code = [88]) ∧
    Sample.shop.qrTarget Sample.account 1 [89] = .ok (Sample.older, [89]) ∧
      ∃ res, (Sample.printed Sample.older [89]).handleResolveCode Sample.upper Sample.account
        ⟨"", Sample.token.text⟩ 0 = .ok res ∧ res.campaignID = 1 ∧ res.code = [89] := by
  refine ⟨⟨Sample.qrTarget_newer, ?_⟩, Sample.qrTarget_older, ?_⟩
  · exact (scan_token_resolves_iff Sample.upper Sample.newer (Sample.scanTokenFor_printed _ _)
      (fun r hr ↦ ⟨r, hr, rfl, rfl, rfl, rfl⟩) (Sample.live_printed _ _) "" 0).2
      ⟨by decide, Sample.owns_printed _⟩
  · exact (scan_token_resolves_iff Sample.upper Sample.older (Sample.scanTokenFor_printed _ _)
      (fun r hr ↦ ⟨r, hr, rfl, rfl, rfl, rfl⟩) (Sample.live_printed _ _) "" 0).2
      ⟨by decide, Sample.owns_printed_older⟩

/-- The token of the older of two campaigns that share a code is taken to the newer one. -/
theorem scan_token_lost :
    scanTokenFor Sample.older [88] Sample.token =
        .ok (Sample.token, Sample.printed Sample.older [88]) ∧
      Sample.older.row.id = 1 ∧
      ∃ res, (Sample.printed Sample.older [88]).handleResolveCode Sample.upper Sample.account
        ⟨"", Sample.token.text⟩ 0 = .ok res ∧ res.campaignID = 2 := by
  refine ⟨Sample.scanTokenFor_printed _ _, rfl, ?_⟩
  have hrow : (⟨Sample.token, Sample.account, 1, [88], none⟩ : ScanTokenRow) ∈
      (Sample.printed Sample.older [88]).scanTokens := List.mem_cons_self
  obtain ⟨res, hres, hid, -⟩ := resolveCode_iff.2 ⟨by decide, Sample.owns_printed Sample.older⟩
  exact ⟨res, (handleResolveCode_token Sample.upper hrow rfl "").trans hres, hid⟩

end ScanDatabase

end Soroticket
