import Soroticket.Cloud.Payloads
import Soroticket.Cloud.References
import Soroticket.Cloud.Resolve

/-!
# Domains of references

Cloud keeps customers, orders and loyalty events by a keyed hash of their texts, each text after a
domain: the organization, the environment, the shared code of a campaign or the loyalty program, and
what the text names. The domain is a formatted string, with a code in its middle that a merchant has
chosen, and a zero byte follows it, and then a text that may hold anything.

Still a hashed string is read in only one way (`OpaqueRef.material_inj`). Numbers end at the first
bar. A code may hold bars and zero bytes, and even what looks like the rest of a domain, but it is
in upper case, and what follows it is the first small letter. So commitments of different references
are different, where the hash has no collision (`references_separated`).
-/

namespace Soroticket

/-! ### What a string is read as -/

/-- Two strings that go on differently from where they first leave `p` are read in one way. -/
theorem append_cons_inj {α : Type} {p : α → Prop} {l l' r r' : List α} {x x' : α}
    (hl : ∀ a ∈ l, p a) (hl' : ∀ a ∈ l', p a) (hx : ¬p x) (hx' : ¬p x')
    (h : l ++ x :: r = l' ++ x' :: r') : l = l' ∧ x = x' ∧ r = r' := by
  induction l generalizing l' with
  | nil =>
    cases l' with
    | nil => exact ⟨rfl, List.cons.inj h⟩
    | cons a l' => exact absurd ((List.cons.inj h).1 ▸ hl' a List.mem_cons_self) hx
  | cons a l ih =>
    cases l' with
    | nil => exact absurd ((List.cons.inj h).1 ▸ hl a List.mem_cons_self) hx'
    | cons b l' =>
      obtain ⟨rfl, htail⟩ := List.cons.inj h
      obtain ⟨rfl, hrest⟩ := ih (fun c hc ↦ hl c (List.mem_cons_of_mem _ hc))
        (fun c hc ↦ hl' c (List.mem_cons_of_mem _ hc)) htail
      exact ⟨rfl, hrest⟩

theorem number_eq (n : ℕ) : ascii (toString n) = encodeText (Nat.toDigits 10 n) := by
  have hlist : (toString n).toList = Nat.toDigits 10 n := Nat.toList_repr
  have hdigits : ∀ c ∈ (toString n).toList, c.toNat < 128 := by
    intro c hc
    rw [hlist] at hc
    have hdigit := Nat.isDigit_of_mem_toDigits (by decide) (by decide) hc
    rw [Char.isDigit, Bool.and_eq_true, decide_eq_true_iff, decide_eq_true_iff] at hdigit
    exact Nat.lt_of_le_of_lt (UInt32.le_iff_toNat_le.1 hdigit.2) (by decide)
  rw [ascii_eq hdigits, hlist]

theorem number_inj {n m : ℕ} (h : ascii (toString n) = ascii (toString m)) : n = m := by
  rw [number_eq, number_eq] at h
  have hdigits : Nat.toDigits 10 n = Nat.toDigits 10 m := by
    rw [← runes_encodeText (Nat.toDigits 10 n), h, runes_encodeText]
  rw [← Nat.ofDigitChars_ten_toDigits (n := n), hdigits, Nat.ofDigitChars_ten_toDigits]

/-- A byte of ASCII in a text is one of its characters. -/
theorem mem_encodeText {cs : List Char} {b : UInt8} (h : b ∈ encodeText cs) (hb : b.toNat < 128) :
    ∃ c ∈ cs, c.toNat = b.toNat := by
  obtain ⟨c, hc, hbyte⟩ := List.mem_flatMap.1 h
  refine ⟨c, hc, ?_⟩
  show c.val.toNat = b.toNat
  rw [String.utf8EncodeChar] at hbyte
  split at hbyte
  case isTrue hle =>
    rw [List.mem_singleton.1 hbyte, UInt8.toNat_ofNat']
    exact (Nat.mod_eq_of_lt (by omega)).symm
  case isFalse =>
    -- the bytes of the other characters are above
    exfalso
    split at hbyte
    · simp only [List.mem_cons, List.not_mem_nil, or_false] at hbyte
      rcases hbyte with rfl | rfl <;> rw [UInt8.toNat_ofNat'] at hb <;> omega
    · split at hbyte
      · simp only [List.mem_cons, List.not_mem_nil, or_false] at hbyte
        rcases hbyte with rfl | rfl | rfl <;> rw [UInt8.toNat_ofNat'] at hb <;> omega
      · simp only [List.mem_cons, List.not_mem_nil, or_false] at hbyte
        rcases hbyte with rfl | rfl | rfl | rfl <;> rw [UInt8.toNat_ofNat'] at hb <;> omega

/-- A number is written without bars. -/
theorem ne_bar_of_mem_number {n : ℕ} {b : UInt8} (h : b ∈ ascii (toString n)) : b ≠ 124 := by
  rintro rfl
  rw [number_eq] at h
  obtain ⟨c, hc, hbar⟩ := mem_encodeText h (by decide)
  have hdigit := Nat.isDigit_of_mem_toDigits (by decide) (by decide) hc
  obtain rfl : c = '|' := Char.toNat_inj.1 hbar
  exact absurd hdigit (by decide)

/-! ### References -/

/-- No character is one of the small letters of ASCII in upper case. -/
def UpperCase.NoSmall (u : UpperCase) : Prop := ∀ c, (u.upper c).isLower = false

/-- A code in upper case. -/
abbrev UpperCode (u : UpperCase) := {code : String // ∃ text, u.toUpper text = code}

/-- A small letter of ASCII. -/
def IsSmall (b : UInt8) : Prop := 97 ≤ b.toNat ∧ b.toNat ≤ 122

instance (b : UInt8) : Decidable (IsSmall b) := inferInstanceAs (Decidable (_ ∧ _))

theorem UpperCode.not_isSmall {u : UpperCase} (hu : u.NoSmall) (code : UpperCode u) {b : UInt8}
    (hb : b ∈ utf8 code.1) : ¬IsSmall b := by
  rintro ⟨hlow, hhigh⟩
  obtain ⟨_, text, rfl⟩ := code
  rw [utf8_eq] at hb
  obtain ⟨c, hc, hcb⟩ := mem_encodeText hb (by omega)
  have hc : c ∈ (String.ofList (text.toList.map u.upper)).toList := hc
  rw [String.toList_ofList] at hc
  obtain ⟨x, -, rfl⟩ := List.mem_map.1 hc
  have hlower : (u.upper x).isLower = true := by
    have hval : (u.upper x).val.toNat = b.toNat := hcb
    delta Char.isLower
    rw [Bool.and_eq_true, decide_eq_true_iff, decide_eq_true_iff, ge_iff_le,
      UInt32.le_iff_toNat_le, UInt32.le_iff_toNat_le, hval]
    exact ⟨hlow, hhigh⟩
  exact absurd (hu x) (by rw [hlower]; exact Bool.true_eq_false.mp)

/-- What a reference is to: a shared code of a campaign of the ledger, or a loyalty program. -/
inductive RefSubject (u : UpperCase) where
  | tally (chainID : UInt64) (code : UpperCode u)
  | loyalty (programID : ℕ)

/-- What a reference names. -/
inductive RefRole where
  | customer
  /-- An order of a shared code, or an event of a loyalty program. -/
  | business
  deriving DecidableEq

/-- A reference Cloud commits to. -/
structure OpaqueRef (u : UpperCase) where
  account : AuthCtx
  subject : RefSubject u
  role : RefRole
  text : ReferenceText

namespace OpaqueRef

variable {u : UpperCase}

/-- The format of a domain, in each of four families. -/
def domain (r : OpaqueRef u) : Bytes :=
  match r.subject, r.role with
  | .tally chainID code, .customer =>
    r.account.domain ++ ascii "|campaign:" ++ ascii (toString chainID.toNat) ++ ascii "|code:" ++
      utf8 code.1 ++ ascii "|customer"
  | .tally chainID code, .business =>
    r.account.domain ++ ascii "|campaign:" ++ ascii (toString chainID.toNat) ++ ascii "|code:" ++
      utf8 code.1 ++ ascii "|order"
  | .loyalty programID, .customer =>
    r.account.domain ++ ascii "|loyalty:" ++ ascii (toString programID) ++ ascii "|customer"
  | .loyalty programID, .business =>
    r.account.domain ++ ascii "|loyalty:" ++ ascii (toString programID) ++ ascii "|event"

/-- What is hashed. -/
def material (r : OpaqueRef u) : Bytes := r.domain ++ 0 :: utf8 r.text.1

/-- The commitment. -/
def commitment (d : Deployment) (r : OpaqueRef u) : Bytes :=
  opaqueReference d r.domain (utf8 r.text.1)

/-! #### How a hashed string is read -/

/-- The name of a role, of a shared code or of a program: its first letter, and the others. -/
def roleName (tally : Bool) : RefRole → UInt8 × Bytes
  | .customer => (99, ascii "ustomer")
  | .business => if tally then (111, ascii "rder") else (101, ascii "vent")

/-- A name, and the text after it. -/
def named (tally : Bool) (role : RefRole) (text : ReferenceText) : Bytes :=
  (roleName tally role).1 :: ((roleName tally role).2 ++ 0 :: utf8 text.1)

/-- What stands after the account and a bar. -/
def tail (role : RefRole) (text : ReferenceText) : RefSubject u → Bytes
  | .tally chainID code =>
    ascii "campaign:" ++ (ascii (toString chainID.toNat) ++ 124 :: (ascii "code:" ++
      ((utf8 code.1 ++ [124]) ++ named true role text)))
  | .loyalty programID =>
    ascii "loyalty:" ++ (ascii (toString programID) ++ 124 :: named false role text)

theorem material_eq (r : OpaqueRef u) : r.material =
    ascii "org:" ++ (ascii (toString r.account.orgID) ++ 124 :: (ascii "env:" ++
      (r.account.env.name ++ 124 :: tail r.role r.text r.subject))) := by
  have hnames : ascii "|customer" = 124 :: 99 :: ascii "ustomer" ∧
      ascii "|order" = 124 :: 111 :: ascii "rder" ∧
      ascii "|event" = 124 :: 101 :: ascii "vent" := by simp [ascii]
  have hbars : ascii "|env:" = 124 :: ascii "env:" ∧
      ascii "|campaign:" = 124 :: ascii "campaign:" ∧ ascii "|code:" = 124 :: ascii "code:" ∧
      ascii "|loyalty:" = 124 :: ascii "loyalty:" := by simp [ascii]
  obtain ⟨a, subject, role, text⟩ := r
  cases subject with
  | tally chainID code =>
    cases role with
    | customer =>
      simp only [material, domain, AuthCtx.domain, tail, named, roleName, hnames, hbars,
        List.append_assoc, List.cons_append, List.nil_append]
    | business =>
      simp only [material, domain, AuthCtx.domain, tail, named, roleName, hnames, hbars,
        List.append_assoc, List.cons_append, List.nil_append, if_true]
  | loyalty programID =>
    cases role with
    | customer =>
      simp only [material, domain, AuthCtx.domain, tail, named, roleName, hnames, hbars,
        List.append_assoc, List.cons_append]
    | business =>
      simp only [material, domain, AuthCtx.domain, tail, named, roleName, hnames, hbars,
        List.append_assoc, List.cons_append, Bool.false_eq_true, if_false]

theorem env_name_inj {e e' : CloudEnv} (h : e.name = e'.name) : e = e' := by
  cases e with
  | test =>
    cases e' with
    | test => rfl
    | live => simp [CloudEnv.name, ascii] at h
  | live =>
    cases e' with
    | test => simp [CloudEnv.name, ascii] at h
    | live => rfl

theorem ne_bar_of_mem_env {e : CloudEnv} {b : UInt8} (h : b ∈ e.name) : b ≠ 124 := by
  have hall : (e.name.all (· ≠ 124)) = true := by
    cases e with
    | test => simp [CloudEnv.name, ascii]
    | live => simp [CloudEnv.name, ascii]
  exact of_decide_eq_true (List.all_eq_true.1 hall b h)

/-- A name starts with a small letter. -/
theorem isSmall_roleName (tally : Bool) (role : RefRole) : IsSmall (roleName tally role).1 := by
  cases role with
  | customer => exact (by decide : IsSmall 99)
  | business =>
    cases tally with
    | false => exact (by decide : IsSmall 101)
    | true => exact (by decide : IsSmall 111)

/-- And of one kind of subject, with its own. -/
theorem roleName_inj {tally : Bool} {role role' : RefRole}
    (h : (roleName tally role).1 = (roleName tally role').1) : role = role' := by
  have hall : ∀ tally role role', (roleName tally role).1 = (roleName tally role').1 →
      role = role' := by
    intro tally role role' h
    cases tally <;> cases role <;> cases role' <;> simp [roleName] at h ⊢
  exact hall tally role role' h

theorem named_inj {tally : Bool} {role role' : RefRole} {text text' : ReferenceText}
    (h : named tally role text = named tally role' text') : role = role' ∧ text = text' := by
  obtain ⟨hletter, hrest⟩ := List.cons.inj h
  obtain rfl := roleName_inj hletter
  have htext := (List.cons.inj (List.append_cancel_left hrest)).2
  exact ⟨rfl, Subtype.ext (utf8_inj htext)⟩

theorem tail_inj (hu : u.NoSmall) {role role' : RefRole} {text text' : ReferenceText}
    {s s' : RefSubject u} (h : tail role text s = tail role' text' s') :
    role = role' ∧ text = text' ∧ s = s' := by
  have hkinds : ascii "campaign:" = 99 :: ascii "ampaign:" ∧
      ascii "loyalty:" = 108 :: ascii "oyalty:" := by simp [ascii]
  cases s with
  | tally chainID code =>
    cases s' with
    | tally chainID' code' =>
      obtain ⟨hchain, -, h⟩ := append_cons_inj (p := (· ≠ 124)) (fun _ ↦ ne_bar_of_mem_number)
        (fun _ ↦ ne_bar_of_mem_number) (not_not.2 rfl) (not_not.2 rfl) (List.append_cancel_left h)
      -- the code is all that comes before the first small letter, but for the bar
      have hcode : ∀ code : UpperCode u, ∀ b ∈ utf8 code.1 ++ [124], ¬IsSmall b := by
        intro code b hb
        rcases List.mem_append.1 hb with hb | hb
        · exact code.not_isSmall hu hb
        · rw [List.mem_singleton.1 hb]
          decide
      obtain ⟨hcode, hletter, hrest⟩ := append_cons_inj (p := (¬IsSmall ·)) (hcode code)
        (hcode code') (not_not.2 (isSmall_roleName true role))
        (not_not.2 (isSmall_roleName true role')) (List.append_cancel_left h)
      have hnamed : named true role text = named true role' text' := by
        rw [named, named, hletter, hrest]
      obtain ⟨rfl, rfl⟩ := named_inj hnamed
      obtain rfl := UInt64.toNat_inj.1 (number_inj hchain)
      obtain rfl := Subtype.ext (utf8_inj (List.append_cancel_right hcode))
      exact ⟨rfl, rfl, rfl⟩
    | loyalty programID =>
      rw [tail, tail, hkinds.1, hkinds.2] at h
      exact absurd (List.cons.inj h).1 (by decide)
  | loyalty programID =>
    cases s' with
    | tally chainID code =>
      rw [tail, tail, hkinds.1, hkinds.2] at h
      exact absurd (List.cons.inj h).1 (by decide)
    | loyalty programID' =>
      obtain ⟨hprogram, -, h⟩ := append_cons_inj (p := (· ≠ 124)) (fun _ ↦ ne_bar_of_mem_number)
        (fun _ ↦ ne_bar_of_mem_number) (not_not.2 rfl) (not_not.2 rfl) (List.append_cancel_left h)
      obtain ⟨rfl, rfl⟩ := named_inj h
      obtain rfl := number_inj hprogram
      exact ⟨rfl, rfl, rfl⟩

/-- **A hashed string is read in one way.** -/
theorem material_inj (hu : u.NoSmall) {r r' : OpaqueRef u} (h : r.material = r'.material) :
    r = r' := by
  rw [material_eq, material_eq] at h
  obtain ⟨horg, -, h⟩ := append_cons_inj (p := (· ≠ 124)) (fun _ ↦ ne_bar_of_mem_number)
    (fun _ ↦ ne_bar_of_mem_number) (not_not.2 rfl) (not_not.2 rfl) (List.append_cancel_left h)
  obtain ⟨henv, -, h⟩ := append_cons_inj (p := (· ≠ 124)) (fun _ ↦ ne_bar_of_mem_env)
    (fun _ ↦ ne_bar_of_mem_env) (not_not.2 rfl) (not_not.2 rfl) (List.append_cancel_left h)
  obtain ⟨⟨org, env⟩, subject, role, text⟩ := r
  obtain ⟨⟨org', env'⟩, subject', role', text'⟩ := r'
  obtain rfl : org = org' := number_inj horg
  obtain rfl : env = env' := env_name_inj henv
  obtain ⟨rfl, rfl, rfl⟩ := tail_inj hu h
  rfl

theorem commitment_eq (d : Deployment) (r : OpaqueRef u) :
    r.commitment d = hexEncode (d.refMac r.material).bytes := if_neg (utf8_ne_nil r.text.2)

/-- Of references of which the hash has no collision, the commitments are different. -/
theorem commitment_inj (hu : u.NoSmall) {d : Deployment} {M : Set Bytes} (hM : Set.InjOn d.refMac M)
    {r r' : OpaqueRef u} (hr : r.material ∈ M) (hr' : r'.material ∈ M)
    (h : r.commitment d = r'.commitment d) : r = r' := by
  rw [commitment_eq, commitment_eq] at h
  exact material_inj hu (hM hr hr' (BytesN.ext (hexEncode_inj h)))

end OpaqueRef

/-! ### What the handlers commit to -/

variable {u : UpperCase} {d : Deployment} {reg : Registry d}

/-- The commitment to a reference a request may leave out. -/
def commitmentOf (d : Deployment) (account : AuthCtx) (subject : RefSubject u) (role : RefRole)
    (text : String) : Bytes :=
  (trimmed text).elim [] fun t ↦ OpaqueRef.commitment d ⟨account, subject, role, t⟩

/-- An event is kept with its customer and order of its shared code. -/
theorem recordEvents_commits {env : Surroundings} {a : AuthCtx} {campaignID : ℕ}
    {code : UpperCode u} {body : EventBody} {e : NewEvent}
    (h : recordEvents reg env a campaignID (utf8 code.1) body = .ok e) :
    ∃ sc, reg.sharedByCampaignCode a campaignID (utf8 code.1) = .ok sc ∧
      e.customerRef = commitmentOf d a (.tally sc.campaign.chainID code) .customer
        body.customerRef ∧
      e.orderRef = some (commitmentOf d a (.tally sc.campaign.chainID code) .business
        body.orderRef) := by
  obtain ⟨sc, hsc, h⟩ := bind_eq_ok.1 h
  obtain ⟨_, -, h⟩ := bind_eq_ok.1 h
  obtain ⟨_, -, h⟩ := bind_eq_ok.1 h
  obtain ⟨count, -, h⟩ := bind_eq_ok.1 h
  obtain ⟨_, -, h⟩ := bind_eq_ok.1 h
  obtain ⟨_, -, h⟩ := bind_eq_ok.1 h
  obtain ⟨_, -, h⟩ := bind_eq_ok.1 h
  obtain ⟨receipt, -, h⟩ := bind_eq_ok.1 h
  obtain ⟨_, -, h⟩ := bind_eq_ok.1 h
  obtain rfl := Except.ok.inj h
  exact ⟨sc, hsc, opaqueReference_trimmed _ _, congrArg some (opaqueReference_trimmed _ _)⟩

/-- A punch is kept with its customer and event of its program. -/
theorem punchRequest_commits {env : Surroundings} {a : AuthCtx} {id : ℕ} {body : PunchBody}
    {q : PunchJob reg} (h : punchRequest reg env a id body = .ok q) :
    q.ref = commitmentOf d a (.loyalty id : RefSubject u) .customer body.customerRef ∧
      q.eventRef = commitmentOf d a (.loyalty id : RefSubject u) .business body.eventRef := by
  have hc := punchRequest_eq_ok h
  exact ⟨hc.ref.trans (opaqueReference_trimmed _ _),
    hc.eventRef.trans (opaqueReference_trimmed _ _)⟩

/-! ### The domains -/

/-- **Opaque references are separated by their domains.** Two references hashed as one string are
one, whatever their families, accounts, subjects and texts; so where the hash has no collision,
equal commitments are of one reference. -/
theorem references_separated (u : UpperCase) (hu : u.NoSmall) :
    (∀ r r' : OpaqueRef u, r.material = r'.material → r = r') ∧
      ∀ (d : Deployment) (M : Set Bytes), Set.InjOn d.refMac M → ∀ r r' : OpaqueRef u,
        r.material ∈ M → r'.material ∈ M → r.commitment d = r'.commitment d → r = r' :=
  ⟨fun _ _ h ↦ OpaqueRef.material_inj hu h,
    fun _ _ hM _ _ hr hr' h ↦ OpaqueRef.commitment_inj hu hM hr hr' h⟩

namespace Separation

/-- Letters of ASCII in upper case. -/
def upper : UpperCase := ScanDatabase.Sample.upper

theorem noSmall_upper : upper.NoSmall := by
  intro c
  show c.toUpper.isLower = false
  delta Char.isLower Char.toUpper
  split <;> grind [UInt32.toNat_add, Char.toNat_val]

/-- A deployment that hashes a reference as its last bytes. -/
def deployment : Deployment where
  cloudNetwork := []
  currentContractID := []
  quote x := x
  base64 x := x
  sha256 _ := .zero 32
  refMac b := .pad 32 b.reverse

def account : AuthCtx := ⟨7, .test⟩

def short : UpperCode upper := ⟨"A", "a", rfl⟩

/-- A code that spells out the name of an order, and the start of its text. -/
def spelled : UpperCode upper := ⟨"A|ORDER\x00B", "a|order\x00b", rfl⟩

def customer : OpaqueRef upper := ⟨account, .tally 1 spelled, .customer, ⟨"c", by decide⟩⟩

/-- An order that spells out the rest of the other domain. -/
def order : OpaqueRef upper := ⟨account, .tally 1 short, .business, ⟨"B|customer\x00d", by decide⟩⟩

theorem injOn : Set.InjOn deployment.refMac {customer.material, order.material} := by
  have hne : deployment.refMac customer.material ≠ deployment.refMac order.material := by
    decide +kernel
  rintro x (rfl | rfl) y (rfl | rfl) hxy
  · rfl
  · exact absurd hxy hne
  · exact absurd hxy.symm hne
  · rfl

theorem ne : customer ≠ order := fun h ↦ absurd (congrArg OpaqueRef.role h) (by decide)

end Separation

/-- Domains are apart that codes and references spell out. -/
theorem references_separated_spelled :
    Separation.customer.material ≠ Separation.order.material ∧
      Separation.customer.commitment Separation.deployment ≠
        Separation.order.commitment Separation.deployment :=
  have hsep := references_separated Separation.upper Separation.noSmall_upper
  ⟨fun h ↦ Separation.ne (hsep.1 _ _ h), fun h ↦ Separation.ne (hsep.2 Separation.deployment _
    Separation.injOn _ _ (Set.mem_insert _ _) (Set.mem_insert_of_mem _ rfl) h)⟩

end Soroticket
