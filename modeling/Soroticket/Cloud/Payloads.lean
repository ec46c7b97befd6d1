import Soroticket.Cloud.Handlers
import Soroticket.Machine.Base64
import Soroticket.Machine.Compact

/-!
# Reading a payload back

The payload of a receipt is signed as `json.Marshal` wrote it, and whoever audits the receipt reads
it with `json.Unmarshal`. The reader takes any JSON object: members it does not know are passed
over, names are compared without regard to case, `null` leaves a field as it is, and of two members
of one name the second counts. `unmarshal_marshal` says that it finds in a payload what was signed,
for payloads of texts (`ReceiptPayload.Valid`), which all that the service signs are; and
`tight_marshal` that such a payload, handed to an encoder as it is, is written as it is.
-/

namespace Soroticket

/-! ### Texts -/

/-- The bytes of characters. -/
def encodeText (cs : List Char) : Bytes := cs.flatMap String.utf8EncodeChar

/-- A byte string that is a text. -/
def IsText (b : Bytes) : Prop := encodeText (Json.runes b) = b

theorem encodeText_append (cs cs' : List Char) :
    encodeText (cs ++ cs') = encodeText cs ++ encodeText cs' :=
  List.flatMap_append

theorem runes_encodeText (cs : List Char) : Json.runes (encodeText cs) = cs := by
  have h := Json.runes_append cs []
  rwa [List.append_nil, Json.runes, List.append_nil] at h

theorem isText_encodeText (cs : List Char) : IsText (encodeText cs) := by
  rw [IsText, runes_encodeText]

theorem utf8_eq (text : String) : utf8 text = encodeText text.toList := by
  rw [utf8, String.toUTF8_eq_toByteArray, ← String.utf8Encode_toList, List.utf8Encode]
  exact List.toList_data_toByteArray

theorem isText_utf8 (text : String) : IsText (utf8 text) := by
  rw [utf8_eq]
  exact isText_encodeText _

theorem ascii_eq {text : String} (h : ∀ c ∈ text.toList, c.toNat < 128) :
    ascii text = encodeText text.toList := by
  rw [ascii, encodeText]
  generalize text.toList = cs at h
  induction cs with
  | nil => rfl
  | cons c cs ih =>
    rw [List.map_cons, List.flatMap_cons, ih fun x hx ↦ h x (List.mem_cons_of_mem c hx),
      Json.utf8EncodeChar_of_lt (h c List.mem_cons_self)]
    rfl

theorem ascii_of_all {text : String} (h : text.toList.all (·.toNat < 128) = true) :
    ascii text = encodeText text.toList :=
  ascii_eq fun c hc ↦ of_decide_eq_true (List.all_eq_true.1 h c hc)

theorem isText_nil : IsText [] := isText_encodeText []

theorem toNat_ofNat : ∀ n < 128, (Char.ofNat n).toNat = n := by decide

/-- Bytes of ASCII are a text. -/
theorem isText_of_lt {b : Bytes} (h : ∀ c ∈ b, c.toNat < 128) : IsText b := by
  have hb : encodeText (b.map fun c ↦ Char.ofNat c.toNat) = b := by
    induction b with
    | nil => rfl
    | cons c b ih =>
      have hlt : c.toNat < 128 := h c List.mem_cons_self
      have hchar := toNat_ofNat c.toNat hlt
      rw [List.map_cons, encodeText, List.flatMap_cons,
        Json.utf8EncodeChar_of_lt (by rw [hchar]; exact hlt), hchar, ← encodeText,
        ih fun x hx ↦ h x (List.mem_cons_of_mem c hx)]
      exact congrArg (· :: b) (UInt8.ofNat_toNat)
  rw [← hb]
  exact isText_encodeText _

theorem hexDigit_lt : ∀ n < 16, (hexDigit (UInt8.ofNat n)).toNat < 128 := by decide

theorem isText_hexEncode (b : Bytes) : IsText (hexEncode b) := by
  refine isText_of_lt fun c hc ↦ ?_
  obtain ⟨x, -, hc⟩ := List.mem_flatMap.1 hc
  have hdigit : ∀ y : UInt8, y.toNat < 16 → (hexDigit y).toNat < 128 := by
    intro y hy
    rw [← UInt8.ofNat_toNat (x := y)]
    exact hexDigit_lt _ hy
  have hx := x.toNat_lt
  rcases List.mem_cons.1 hc with rfl | hc
  · refine hdigit _ ?_
    rw [UInt8.toNat_div]
    show x.toNat / 16 < 16
    omega
  · rw [List.mem_singleton.1 hc]
    refine hdigit _ ?_
    rw [UInt8.toNat_mod]
    show x.toNat % 16 < 16
    omega

theorem ascii_toString (n : ℤ) : ascii (toString n) = encodeText (Json.integer n) := by
  have hdigit : ∀ (m : ℕ), ∀ c ∈ Nat.toDigits 10 m, c.toNat < 128 := by
    intro m c hc
    have h := Nat.isDigit_of_mem_toDigits (by decide) (by decide) hc
    rw [Char.isDigit, Bool.and_eq_true, decide_eq_true_iff, decide_eq_true_iff] at h
    exact Nat.lt_of_le_of_lt (UInt32.le_iff_toNat_le.1 h.2) (by decide)
  refine ascii_eq fun c hc ↦ ?_
  rcases Json.integer_cases n with ⟨m, -, hm⟩ | ⟨m, -, hm⟩
  · exact hdigit m c (hm ▸ hc)
  · have hmem : c ∈ '-' :: Nat.toDigits 10 m := hm ▸ hc
    rcases List.mem_cons.1 hmem with rfl | hmem
    · decide
    · exact hdigit m c hmem

/-! ### Unmarshalling -/

/-- The letters of a field's name, without regard to case. Two characters outside ASCII fold to a
letter of it. -/
def foldRune (c : Char) : Char :=
  if c = '\u017f' then 'S' else if c = '\u212a' then 'K' else c.toUpper

/-- A value for an integer between two bounds. -/
def assignInt (least most old : ℤ) : Json.Value → Option ℤ
  | .null => some old
  | .number text => (Json.integer? text).bind fun n ↦
    if least ≤ n ∧ n ≤ most then some n else none
  | _ => none

/-- A value for an `int64`. -/
abbrev assignInt64 : ℤ → Json.Value → Option ℤ := assignInt (-2 ^ 63) (2 ^ 63 - 1)

/-- `strconv.ParseUint`, in base ten: no sign is taken, not even that of `-0`. -/
def uintOf (cs : List Char) : Option UInt64 :=
  (Json.natural cs).bind fun n ↦ if n < 2 ^ 64 then some (UInt64.ofNat n) else none

/-- A value for a `uint64`. -/
def assignUInt64 (old : UInt64) : Json.Value → Option UInt64
  | .null => some old
  | .number text => uintOf text
  | _ => none

/-- A value for a string. -/
def assignString (old : Bytes) : Json.Value → Option Bytes
  | .null => some old
  | .string cs => some (encodeText cs)
  | _ => none

namespace ReceiptPayload

/-- A payload before its members are read. -/
def zero : ReceiptPayload := ⟨0, [], [], 0, [], 0, [], [], [], [], [], 0, [], []⟩

/-- The fields of a payload, by the names of their members. -/
def fields : List (String × (ReceiptPayload → Json.Value → Option ReceiptPayload)) :=
  [("version", fun p v ↦ (assignInt64 p.version v).map fun version ↦ { p with version }),
    ("network", fun p v ↦ (assignString p.network v).map fun network ↦ { p with network }),
    ("contract_id", fun p v ↦
      (assignString p.contractID v).map fun contractID ↦ { p with contractID }),
    ("campaign_id", fun p v ↦
      (assignUInt64 p.campaignID v).map fun campaignID ↦ { p with campaignID }),
    ("code", fun p v ↦ (assignString p.code v).map fun code ↦ { p with code }),
    ("count", fun p v ↦ (assignInt64 p.count v).map fun count ↦ { p with count }),
    ("customer_commitment", fun p v ↦ (assignString p.customerCommitment v).map
      fun customerCommitment ↦ { p with customerCommitment }),
    ("order_commitment", fun p v ↦
      (assignString p.orderCommitment v).map fun orderCommitment ↦ { p with orderCommitment }),
    ("evidence_type", fun p v ↦
      (assignString p.evidenceType v).map fun evidenceType ↦ { p with evidenceType }),
    ("context_hash", fun p v ↦
      (assignString p.contextHash v).map fun contextHash ↦ { p with contextHash }),
    ("policy_version", fun p v ↦
      (assignString p.policyVersion v).map fun policyVersion ↦ { p with policyVersion }),
    ("timestamp", fun p v ↦ (assignInt64 p.timestamp v).map fun timestamp ↦ { p with timestamp }),
    ("nonce", fun p v ↦ (assignString p.nonce v).map fun nonce ↦ { p with nonce }),
    ("signer", fun p v ↦ (assignString p.signer v).map fun signer ↦ { p with signer })]

/-- Read one member into a payload. -/
def set (p : ReceiptPayload) (m : List Char × Json.Value) : Option ReceiptPayload :=
  match fields.find? fun f ↦ f.1.toList.map foldRune = m.1.map foldRune with
  | some f => f.2 p m.2
  | none => some p

/-- `json.Unmarshal` into a payload. -/
def unmarshal (payload : Bytes) : Option ReceiptPayload :=
  match Json.parse (Json.runes payload) with
  | some .null => some zero
  | some (.object members) => members.foldlM set zero
  | _ => none

/-! ### What is written -/

/-- The strings of a payload are texts, and its numbers fit. -/
structure Valid (p : ReceiptPayload) : Prop where
  version : -2 ^ 63 ≤ p.version ∧ p.version ≤ 2 ^ 63 - 1
  network : IsText p.network
  contractID : IsText p.contractID
  code : IsText p.code
  count : -2 ^ 63 ≤ p.count ∧ p.count ≤ 2 ^ 63 - 1
  customerCommitment : IsText p.customerCommitment
  orderCommitment : IsText p.orderCommitment
  evidenceType : IsText p.evidenceType
  contextHash : IsText p.contextHash
  policyVersion : IsText p.policyVersion
  timestamp : -2 ^ 63 ≤ p.timestamp ∧ p.timestamp ≤ 2 ^ 63 - 1
  nonce : IsText p.nonce
  signer : IsText p.signer

/-- A member that is a string. -/
def textMember (key : String) (b : Bytes) : Json.Member where
  key := key.toList
  text := Json.quote (Json.runes b)
  value := .string (Json.runes b)
  reads := Json.reads_quote _

/-- A member that is an integer. -/
def numberMember (key : String) (n : ℤ) : Json.Member where
  key := key.toList
  text := Json.integer n
  value := .number (Json.integer n)
  reads := Json.reads_integer n

/-- A member that is left out when it is empty. -/
def optionalMember (key : String) (b : Bytes) : List Json.Member :=
  if b = [] then [] else [textMember key b]

/-- The members of a payload, from the second on. -/
def members (p : ReceiptPayload) : List Json.Member :=
  optionalMember "network" p.network ++ (optionalMember "contract_id" p.contractID ++
    (numberMember "campaign_id" p.campaignID.toNat :: textMember "code" p.code ::
    numberMember "count" p.count :: (optionalMember "customer_commitment" p.customerCommitment ++
    (optionalMember "order_commitment" p.orderCommitment ++
    (optionalMember "evidence_type" p.evidenceType ++
    (optionalMember "context_hash" p.contextHash ++
    (optionalMember "policy_version" p.policyVersion ++
    [numberMember "timestamp" p.timestamp, textMember "nonce" p.nonce,
      textMember "signer" p.signer])))))))

theorem eq_of_mem_optionalMember {key : String} {b : Bytes} {m : Json.Member}
    (h : m ∈ optionalMember key b) : m = textMember key b := by
  rw [optionalMember] at h
  split at h
  case isTrue => exact absurd h List.not_mem_nil
  case isFalse => exact List.mem_singleton.1 h

/-- Every member is an integer or a string. -/
theorem eq_of_mem_members {p : ReceiptPayload} {m : Json.Member} (h : m ∈ p.members) :
    (∃ key n, m = numberMember key n) ∨ ∃ key b, m = textMember key b := by
  have hoptional : ∀ {key b}, m ∈ optionalMember key b →
      (∃ key n, m = numberMember key n) ∨ ∃ key b, m = textMember key b :=
    fun hm ↦ Or.inr ⟨_, _, eq_of_mem_optionalMember hm⟩
  simp only [members, List.mem_append, List.mem_cons, List.not_mem_nil, or_false] at h
  rcases h with h | h | h | h | h | h | h | h | h | h | h | h | h
  · exact hoptional h
  · exact hoptional h
  · exact Or.inl ⟨_, _, h⟩
  · exact Or.inr ⟨_, _, h⟩
  · exact Or.inl ⟨_, _, h⟩
  · exact hoptional h
  · exact hoptional h
  · exact hoptional h
  · exact hoptional h
  · exact hoptional h
  · exact Or.inl ⟨_, _, h⟩
  · exact Or.inr ⟨_, _, h⟩
  · exact Or.inr ⟨_, _, h⟩

/-- What a string is rendered with is what the standard library renders it with. -/
def Quotes (quote : Bytes → Bytes) : Prop :=
  ∀ cs, quote (encodeText cs) = encodeText (Json.quote cs)

/-- What stands before the value of a member, and the name of the member. -/
def leads : List (String × String) :=
  [(",\"network\":", "network"), (",\"contract_id\":", "contract_id"),
    (",\"campaign_id\":", "campaign_id"), (",\"code\":", "code"), (",\"count\":", "count"),
    (",\"customer_commitment\":", "customer_commitment"),
    (",\"order_commitment\":", "order_commitment"), (",\"evidence_type\":", "evidence_type"),
    (",\"context_hash\":", "context_hash"), (",\"policy_version\":", "policy_version"),
    (",\"timestamp\":", "timestamp"), (",\"nonce\":", "nonce"), (",\"signer\":", "signer")]

/-- The lead of a member quotes its name. -/
theorem leads_spec : leads.all (fun l ↦ l.1.toList = ',' :: (Json.quote l.2.toList ++ [':']) ∧
    l.1.toList.all fun c ↦ c.toNat < 128) = true := by
  decide +kernel

theorem ascii_lead {literal key : String} (h : (literal, key) ∈ leads) :
    ascii literal = encodeText (',' :: (Json.quote key.toList ++ [':'])) := by
  obtain ⟨hkey, hascii⟩ := of_decide_eq_true (List.all_eq_true.1 leads_spec _ h)
  rw [ascii_of_all hascii, hkey]

section Marshal

variable {quote : Bytes → Bytes} (hquote : Quotes quote)

include hquote in
theorem quote_eq {b : Bytes} (hb : IsText b) :
    quote b = encodeText (Json.quote (Json.runes b)) := by
  have h := hquote (Json.runes b)
  rwa [hb] at h

include hquote in
/-- A string behind its name is its member. -/
theorem ascii_append_quote (literal key : String) (h : (literal, key) ∈ leads) {b : Bytes}
    (hb : IsText b) (rest : Bytes) :
    ascii literal ++ (quote b ++ rest) = encodeText (Json.more [textMember key b]) ++ rest := by
  rw [ascii_lead h, quote_eq hquote hb, ← List.append_assoc, ← encodeText_append, List.cons_append,
    List.append_assoc]
  exact congrArg (encodeText · ++ rest) (List.append_nil _).symm

include hquote in
theorem omitEmpty_eq (literal key : String) (h : (literal, key) ∈ leads) {b : Bytes}
    (hb : IsText b) :
    omitEmpty quote literal b = encodeText (Json.more (optionalMember key b)) := by
  have hmember := ascii_append_quote hquote literal key h hb []
  rw [List.append_nil, List.append_nil] at hmember
  rw [omitEmpty, optionalMember]
  split
  · rfl
  · exact hmember

/-- A number behind its name is its member. -/
theorem ascii_append_toString (literal key : String) (h : (literal, key) ∈ leads) (n : ℤ)
    (rest : Bytes) : ascii literal ++ (ascii (toString n) ++ rest) =
      encodeText (Json.more [numberMember key n]) ++ rest := by
  rw [ascii_lead h, ascii_toString, ← List.append_assoc, ← encodeText_append, List.cons_append,
    List.append_assoc]
  exact congrArg (encodeText · ++ rest) (List.append_nil _).symm

theorem more_append (ms ms' : List Json.Member) :
    Json.more (ms ++ ms') = Json.more ms ++ Json.more ms' :=
  List.flatMap_append

theorem more_cons (m : Json.Member) (ms : List Json.Member) :
    Json.more (m :: ms) = Json.more [m] ++ Json.more ms :=
  more_append [m] ms

/-- The texts of the members, one by one. -/
theorem more_members (p : ReceiptPayload) : Json.more p.members =
    Json.more (optionalMember "network" p.network) ++
    (Json.more (optionalMember "contract_id" p.contractID) ++
    (Json.more [numberMember "campaign_id" p.campaignID.toNat] ++
    (Json.more [textMember "code" p.code] ++ (Json.more [numberMember "count" p.count] ++
    (Json.more (optionalMember "customer_commitment" p.customerCommitment) ++
    (Json.more (optionalMember "order_commitment" p.orderCommitment) ++
    (Json.more (optionalMember "evidence_type" p.evidenceType) ++
    (Json.more (optionalMember "context_hash" p.contextHash) ++
    (Json.more (optionalMember "policy_version" p.policyVersion) ++
    (Json.more [numberMember "timestamp" p.timestamp] ++
    (Json.more [textMember "nonce" p.nonce] ++
    Json.more [textMember "signer" p.signer]))))))))))) := by
  rw [members, more_append, more_append, more_cons (numberMember "campaign_id" _),
    more_cons (textMember "code" _), more_cons (numberMember "count" _), more_append, more_append,
    more_append, more_append, more_append, more_cons (numberMember "timestamp" _),
    more_cons (textMember "nonce" _)]

theorem object_members (p : ReceiptPayload) :
    Json.object ("version".toList, Json.integer p.version)
      (p.members.map fun m ↦ (m.key, m.text)) =
        ('{' :: (Json.quote "version".toList ++ [':'])) ++
          (Json.integer p.version ++ (Json.more p.members ++ ['}'])) := by
  rw [Json.object, Json.member, List.flatMap_map, List.cons_append, List.append_assoc,
    List.append_assoc]
  rfl

include hquote in
/-- **A payload is an object of its members.** -/
theorem marshal_eq {p : ReceiptPayload} (hp : p.Valid) :
    p.marshal quote = encodeText (Json.object ("version".toList, Json.integer p.version)
      (p.members.map fun m ↦ (m.key, m.text))) := by
  have hversion : ascii "\x7b\"version\":" =
      encodeText ('{' :: (Json.quote "version".toList ++ [':'])) := ascii_of_all (by decide)
  have hclose : ascii "\x7d" = encodeText ['}'] := ascii_of_all (by decide)
  have hid : toString p.campaignID.toNat = toString (p.campaignID.toNat : ℤ) := rfl
  unfold marshal
  rw [object_members, hversion, hclose, hid]
  simp only [List.append_assoc, ascii_toString p.version]
  rw [omitEmpty_eq hquote ",\"network\":" "network" (by simp [leads]) hp.network]
  rw [omitEmpty_eq hquote ",\"contract_id\":" "contract_id" (by simp [leads]) hp.contractID]
  rw [ascii_append_toString ",\"campaign_id\":" "campaign_id" (by simp [leads]) p.campaignID.toNat]
  rw [ascii_append_quote hquote ",\"code\":" "code" (by simp [leads]) hp.code]
  rw [ascii_append_toString ",\"count\":" "count" (by simp [leads]) p.count]
  rw [omitEmpty_eq hquote ",\"customer_commitment\":" "customer_commitment" (by simp [leads])
    hp.customerCommitment]
  rw [omitEmpty_eq hquote ",\"order_commitment\":" "order_commitment" (by simp [leads])
    hp.orderCommitment]
  rw [omitEmpty_eq hquote ",\"evidence_type\":" "evidence_type" (by simp [leads]) hp.evidenceType]
  rw [omitEmpty_eq hquote ",\"context_hash\":" "context_hash" (by simp [leads]) hp.contextHash]
  rw [omitEmpty_eq hquote ",\"policy_version\":" "policy_version" (by simp [leads])
    hp.policyVersion]
  rw [ascii_append_toString ",\"timestamp\":" "timestamp" (by simp [leads]) p.timestamp]
  rw [ascii_append_quote hquote ",\"nonce\":" "nonce" (by simp [leads]) hp.nonce]
  rw [ascii_append_quote hquote ",\"signer\":" "signer" (by simp [leads]) hp.signer]
  rw [more_members]
  simp only [encodeText_append, List.append_assoc]

include hquote in
/-- **A payload is published as it was signed.** -/
theorem tight_marshal {p : ReceiptPayload} (hp : p.Valid) :
    Json.tight .token (p.marshal quote) := by
  rw [marshal_eq hquote hp]
  refine Json.tight_object fun m hm ↦ ?_
  rcases List.mem_cons.1 hm with rfl | hm
  · exact Json.passes_integer p.version
  obtain ⟨m', hm', rfl⟩ := List.mem_map.1 hm
  rcases eq_of_mem_members hm' with ⟨key, n, rfl⟩ | ⟨key, b, rfl⟩
  · exact Json.passes_integer n
  · exact Json.passes_quote (Json.runes b)

end Marshal

/-! ### What is read -/

theorem assignInt64_integer (old : ℤ) {n : ℤ} (h : -2 ^ 63 ≤ n ∧ n ≤ 2 ^ 63 - 1) :
    assignInt64 old (.number (Json.integer n)) = some n := by
  rw [assignInt64, assignInt, Json.integer?_integer, Option.bind_some, if_pos h]

theorem assignUInt64_number (old n : UInt64) :
    assignUInt64 old (.number (Json.integer n.toNat)) = some n := by
  have hinteger : Json.integer n.toNat = Nat.toDigits 10 n.toNat := Nat.toList_repr
  rw [assignUInt64, uintOf, hinteger, Json.natural_toDigits, Option.bind_some, if_pos n.toNat_lt,
    UInt64.ofNat_toNat]

theorem assignString_text (old : Bytes) {b : Bytes} (hb : IsText b) :
    assignString old (.string (Json.runes b)) = some b := congrArg some hb

/-- A payload of which the first fields are read. -/
def readUpTo (p : ReceiptPayload) (k : ℕ) : ReceiptPayload where
  version := if 0 < k then p.version else 0
  network := if 1 < k then p.network else []
  contractID := if 2 < k then p.contractID else []
  campaignID := if 3 < k then p.campaignID else 0
  code := if 4 < k then p.code else []
  count := if 5 < k then p.count else 0
  customerCommitment := if 6 < k then p.customerCommitment else []
  orderCommitment := if 7 < k then p.orderCommitment else []
  evidenceType := if 8 < k then p.evidenceType else []
  contextHash := if 9 < k then p.contextHash else []
  policyVersion := if 10 < k then p.policyVersion else []
  timestamp := if 11 < k then p.timestamp else 0
  nonce := if 12 < k then p.nonce else []
  signer := if 13 < k then p.signer else []

/-- Reading some members takes a payload to another. -/
def Takes (ms : List Json.Member) (p q : ReceiptPayload) : Prop :=
  (ms.map fun m ↦ (m.key, m.value)).foldlM set p = some q

theorem Takes.append {ms ms' : List Json.Member} {p q r : ReceiptPayload} (h : Takes ms p q)
    (h' : Takes ms' q r) : Takes (ms ++ ms') p r := by
  rw [Takes, List.map_append, List.foldlM_append, show _ = some q from h]
  exact h'

theorem Takes.cons {m : Json.Member} {ms : List Json.Member} {p q r : ReceiptPayload}
    (h : p.set (m.key, m.value) = some q) (h' : Takes ms q r) : Takes (m :: ms) p r := by
  rw [Takes, List.map_cons, List.foldlM_cons, h]
  exact h'

/-- An optional member leaves its field as it was written. -/
theorem Takes.optional {key : String} {b : Bytes} {p q : ReceiptPayload} (hnil : b = [] → q = p)
    (hset : p.set (key.toList, .string (Json.runes b)) = some q) :
    Takes (optionalMember key b) p q := by
  rw [optionalMember]
  split
  case isTrue h => exact congrArg some (hnil h).symm
  case isFalse => exact Takes.cons hset rfl

section Set

variable {p : ReceiptPayload} {key name : String}
  {f : ReceiptPayload → Json.Value → Option ReceiptPayload}
  (hfind : (fields.find? fun f ↦ f.1.toList.map foldRune = key.toList.map foldRune) =
    some (name, f))

include hfind in
theorem set_eq (v : Json.Value) : p.set (key.toList, v) = f p v := by
  rw [set, hfind]

include hfind in
theorem set_string {put : Bytes → ReceiptPayload} {old b : Bytes}
    (hf : ∀ v, f p v = (assignString old v).map put) (hb : IsText b) :
    p.set (key.toList, .string (Json.runes b)) = some (put b) := by
  rw [set_eq hfind, hf, assignString_text old hb]
  rfl

include hfind in
theorem set_number {put : ℤ → ReceiptPayload} {old n : ℤ}
    (hf : ∀ v, f p v = (assignInt64 old v).map put) (hn : -2 ^ 63 ≤ n ∧ n ≤ 2 ^ 63 - 1) :
    p.set (key.toList, .number (Json.integer n)) = some (put n) := by
  rw [set_eq hfind, hf, assignInt64_integer old hn]
  rfl

end Set

/-- The members of a payload, read into nothing, are the payload. -/
theorem takes_members {p : ReceiptPayload} (hp : p.Valid) :
    Takes (numberMember "version" p.version :: p.members) zero p := by
  refine Takes.cons (q := p.readUpTo 1) ?_ ?_
  · exact (set_number rfl (fun _ ↦ rfl) hp.version).trans rfl
  refine Takes.append (q := p.readUpTo 2) ?_ ?_
  · refine Takes.optional (fun h ↦ by simp [readUpTo, h]) ?_
    exact (set_string rfl (fun _ ↦ rfl) hp.network).trans rfl
  refine Takes.append (q := p.readUpTo 3) ?_ ?_
  · refine Takes.optional (fun h ↦ by simp [readUpTo, h]) ?_
    exact (set_string rfl (fun _ ↦ rfl) hp.contractID).trans rfl
  refine Takes.cons (q := p.readUpTo 4) ?_ ?_
  · rw [numberMember, set_eq rfl, assignUInt64_number]
    rfl
  refine Takes.cons (q := p.readUpTo 5) ?_ ?_
  · exact (set_string rfl (fun _ ↦ rfl) hp.code).trans rfl
  refine Takes.cons (q := p.readUpTo 6) ?_ ?_
  · exact (set_number rfl (fun _ ↦ rfl) hp.count).trans rfl
  refine Takes.append (q := p.readUpTo 7) ?_ ?_
  · refine Takes.optional (fun h ↦ by simp [readUpTo, h]) ?_
    exact (set_string rfl (fun _ ↦ rfl) hp.customerCommitment).trans rfl
  refine Takes.append (q := p.readUpTo 8) ?_ ?_
  · refine Takes.optional (fun h ↦ by simp [readUpTo, h]) ?_
    exact (set_string rfl (fun _ ↦ rfl) hp.orderCommitment).trans rfl
  refine Takes.append (q := p.readUpTo 9) ?_ ?_
  · refine Takes.optional (fun h ↦ by simp [readUpTo, h]) ?_
    exact (set_string rfl (fun _ ↦ rfl) hp.evidenceType).trans rfl
  refine Takes.append (q := p.readUpTo 10) ?_ ?_
  · refine Takes.optional (fun h ↦ by simp [readUpTo, h]) ?_
    exact (set_string rfl (fun _ ↦ rfl) hp.contextHash).trans rfl
  refine Takes.append (q := p.readUpTo 11) ?_ ?_
  · refine Takes.optional (fun h ↦ by simp [readUpTo, h]) ?_
    exact (set_string rfl (fun _ ↦ rfl) hp.policyVersion).trans rfl
  refine Takes.cons (q := p.readUpTo 12) ?_ ?_
  · exact (set_number rfl (fun _ ↦ rfl) hp.timestamp).trans rfl
  refine Takes.cons (q := p.readUpTo 13) ?_ ?_
  · exact (set_string rfl (fun _ ↦ rfl) hp.nonce).trans rfl
  refine Takes.cons (q := p) ?_ rfl
  exact (set_string rfl (fun _ ↦ rfl) hp.signer).trans rfl

/-- **A payload is read as what was signed.** -/
theorem unmarshal_marshal {quote : Bytes → Bytes} (hquote : Quotes quote) {p : ReceiptPayload}
    (hp : p.Valid) : unmarshal (p.marshal quote) = some p := by
  have hparse : Json.parse (Json.runes (p.marshal quote)) = some (.object
      ((numberMember "version" p.version :: p.members).map fun m ↦ (m.key, m.value))) := by
    rw [marshal_eq hquote hp, runes_encodeText]
    exact Json.parse_object (numberMember "version" p.version) p.members
  rw [unmarshal, hparse]
  exact takes_members hp

end ReceiptPayload

end Soroticket
