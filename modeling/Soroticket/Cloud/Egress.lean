import Soroticket.Cloud.Handlers
import Soroticket.Machine.Network

/-!
# Where webhooks are sent

An endpoint is a URL that somebody else has chosen, under a name that somebody else resolves. The
server checks it when it is registered (`validateWebhookURL`), and its client checks every address
again before it dials (`secureWebhookClient`). What was checked at registration proves nothing of
the addresses: a name may resolve to others by then.

So the addresses are safe because the client dials nothing else than addresses it has checked, in
the form it has checked them (`mem_attempts_secureDial`). The port and TLS are safe because of the
URL, and the rest because the client refuses to be sent elsewhere.
-/

namespace Soroticket

open Network

/-! ### Public addresses -/

/-- The blocks that are not public, though they are unicast. -/
def reservedBlocks : List IPNet :=
  [⟨[100, 64, 0, 0], [255, 192, 0, 0]⟩, ⟨[198, 18, 0, 0], [255, 254, 0, 0]⟩]

/-- `isPublicWebhookIP`. -/
def isPublicWebhookIP (ip : IP) : Bool :=
  if ip.bytes = [] || !ip.isGlobalUnicast || ip.isPrivate || ip.isLoopback ||
      ip.isLinkLocalUnicast || ip.isLinkLocalMulticast || ip.isUnspecified then false
  else !reservedBlocks.any (·.contains ip)

/-- What `strings.EqualFold` compares, of a text it compares with one of ASCII letters: two letters
outside ASCII fold to letters within. -/
def foldChar (c : Char) : Char :=
  if c = 'ſ' then 's' else if c = '\u212A' then 'k' else c.toLower

/-- `strings.EqualFold`, with a text of ASCII letters. -/
def equalFold (text ascii : String) : Bool := text.toList.map foldChar = ascii.toList.map foldChar

/-- `validateWebhookURL`. -/
def validateWebhookURL (n : NetLib) (raw : String) : Except String String :=
  let raw := trimSpace raw
  if 2048 < raw.utf8ByteSize then .error "webhook URL must not exceed 2048 bytes"
  else
    match n.parseURL raw with
    | none => .error "webhook URL must be an absolute https URL"
    | some u =>
      if !equalFold u.scheme "https" ∨ u.hostname = "" then
        .error "webhook URL must be an absolute https URL"
      else
        let u := { u with scheme := "https" }
        if u.hasUser ∨ u.fragment ≠ "" then
          .error "webhook URL cannot contain credentials or a fragment"
        else if u.port ≠ "" ∧ u.port ≠ "443" then .error "webhook URL must use HTTPS port 443"
        else if (n.parseIP u.hostname).any (!isPublicWebhookIP ·) then
          .error "webhook URL cannot target a private or reserved address"
        else .ok (n.urlString u)

/-! ### The client -/

/-- The loop over the addresses of a host, with the error of the last that was dialed. -/
def dialPublic (n : NetLib) (port : List Char) :
    List Network.Candidate → Option String → Network.Dial
  | [], err => ⟨[], .error (err.getD "webhook host has no public address")⟩
  | candidate :: rest, err =>
    if !isPublicWebhookIP candidate.ip then dialPublic n port rest err
    else
      let d := n.dial candidate (joinHostPort (n.ipString candidate.ip).toList port)
      match d.conn with
      | .ok () => d
      | .error dialErr =>
        let later := dialPublic n port rest (some dialErr)
        ⟨d.attempts ++ later.attempts, later.conn⟩

/-- The `DialContext` of the client. -/
def secureDial (n : NetLib) (lookup : Network.Lookup) (address : List Char) : Network.Dial :=
  match splitHostPort address with
  | .error e => ⟨[], .error e⟩
  | .ok (host, port) =>
    match lookup (String.ofList host) with
    | .error e => ⟨[], .error e⟩
    | .ok ips => dialPublic n port ips none

/-- `secureWebhookClient`. -/
def secureWebhookClient (n : NetLib) : Network.Client where
  proxy := none
  dialContext := secureDial n
  checkRedirect := some "webhook redirects are not followed"

/-- `sendWebhook`: what its client does, and the status or the error that it returns. -/
def sendWebhook (n : NetLib) (client : Network.Client) (endpoint : String)
    (rounds : List Network.Round) : List NetEvent × Except String ℕ :=
  match n.parseURL endpoint with
  | none => ([], .error "invalid URL")
  | some u =>
    let done := client.run n rounds u
    (done.1, done.2.bind fun status ↦
      if status < 200 ∨ 300 ≤ status then .error ("endpoint returned HTTP " ++ toString status)
      else .ok status)

/-! ### What is not public -/

/-- The four bytes of an address that is no destination: unspecified, loopback, private, link-local,
multicast, of 100.64.0.0/10 or of 198.18.0.0/15. -/
inductive Reserved4 : Bytes → Prop
  | unspecified : Reserved4 [0, 0, 0, 0]
  | loopback (b c d : UInt8) : Reserved4 [127, b, c, d]
  | private8 (b c d : UInt8) : Reserved4 [10, b, c, d]
  | private12 (b c d : UInt8) (hlow : 16 ≤ b) (hhigh : b ≤ 31) : Reserved4 [172, b, c, d]
  | private16 (c d : UInt8) : Reserved4 [192, 168, c, d]
  | linkLocal (c d : UInt8) : Reserved4 [169, 254, c, d]
  | multicast (a b c d : UInt8) (hlow : 224 ≤ a) (hhigh : a ≤ 239) : Reserved4 [a, b, c, d]
  | shared (b c d : UInt8) (hlow : 64 ≤ b) (hhigh : b ≤ 127) : Reserved4 [100, b, c, d]
  | benchmarking (b c d : UInt8) (hlow : 18 ≤ b) (hhigh : b ≤ 19) : Reserved4 [198, b, c, d]

/-- An address that is no destination, in any of its forms. Of six: unspecified, loopback, fc00::/7,
fe80::/10 and ff00::/8. -/
inductive Reserved : IP → Prop
  | v4 {bytes : Bytes} (h : Reserved4 bytes) : Reserved ⟨bytes⟩
  | mapped {bytes : Bytes} (h : Reserved4 bytes) : Reserved (IP.mapped bytes)
  | unspecified : Reserved ⟨List.replicate 16 0⟩
  | loopback : Reserved ⟨List.replicate 15 0 ++ [1]⟩
  | unique (a : UInt8) (rest : Bytes) (hlow : 0xfc ≤ a) (hhigh : a ≤ 0xfd)
      (hlength : rest.length = 15) : Reserved ⟨a :: rest⟩
  | linkLocal (b : UInt8) (rest : Bytes) (hlow : 0x80 ≤ b) (hhigh : b ≤ 0xbf)
      (hlength : rest.length = 14) : Reserved ⟨0xfe :: b :: rest⟩
  | multicast (rest : Bytes) (hlength : rest.length = 15) : Reserved ⟨0xff :: rest⟩

/-- What holds of the 256 bytes. -/
theorem forall_byte {p : UInt8 → Prop} (h : ∀ n < 256, p (UInt8.ofNat n)) (b : UInt8) : p b := by
  have hb := h b.toNat b.toNat_lt
  rwa [UInt8.ofNat_toNat] at hb

/-- The ranges of bytes that a mask takes to their first one. -/
def maskedRanges : List (UInt8 × UInt8 × UInt8) :=
  [(16, 31, 0xf0), (224, 239, 0xf0), (64, 127, 192), (18, 19, 254), (0xfc, 0xfd, 0xfe),
    (0x80, 0xbf, 0xc0)]

theorem and_of_masked (b : UInt8) {r : UInt8 × UInt8 × UInt8} (hr : r ∈ maskedRanges)
    (hlow : r.1 ≤ b) (hhigh : b ≤ r.2.1) : b &&& r.2.2 = r.1 := by
  have hall : ∀ b : UInt8,
      (maskedRanges.all fun r ↦ r.1 ≤ b ∧ b ≤ r.2.1 → b &&& r.2.2 = r.1) = true :=
    forall_byte (by decide +kernel)
  exact of_decide_eq_true (List.all_eq_true.1 (hall b) r hr) ⟨hlow, hhigh⟩

/-- An address of a class that is not public. -/
def Classed (ip : IP) : Prop :=
  ip.isUnspecified ∨ ip.isLoopback ∨ ip.isPrivate ∨ ip.isMulticast ∨ ip.isLinkLocalUnicast ∨
    reservedBlocks.any (·.contains ip)

theorem not_public_of_classed {ip : IP} (h : Classed ip) : isPublicWebhookIP ip = false := by
  rcases h with h | h | h | h | h | h <;>
    simp [isPublicWebhookIP, IP.isGlobalUnicast, h]

theorem classed_of_reserved4 {bytes : Bytes} (h : Reserved4 bytes) : Classed ⟨bytes⟩ := by
  cases h with
  | unspecified => exact Or.inl rfl
  | loopback b c d => exact Or.inr (Or.inl rfl)
  | private8 b c d => exact Or.inr (Or.inr (Or.inl rfl))
  | private12 b c d hlow hhigh =>
    refine Or.inr (Or.inr (Or.inl ?_))
    have hblock := and_of_masked b (r := (16, 31, 0xf0)) (by decide) hlow hhigh
    simp [IP.isPrivate, IP.to4, IP.byte, hblock]
  | private16 c d => exact Or.inr (Or.inr (Or.inl rfl))
  | linkLocal c d => exact Or.inr (Or.inr (Or.inr (Or.inr (Or.inl rfl))))
  | multicast a b c d hlow hhigh =>
    refine Or.inr (Or.inr (Or.inr (Or.inl ?_)))
    have hblock := and_of_masked a (r := (224, 239, 0xf0)) (by decide) hlow hhigh
    simp [IP.isMulticast, IP.to4, IP.byte, hblock]
  | shared b c d hlow hhigh =>
    refine Or.inr (Or.inr (Or.inr (Or.inr (Or.inr ?_))))
    have hmask : (64 : UInt8) &&& 192 = 64 := rfl
    have hblock := and_of_masked b (r := (64, 127, 192)) (by decide) hlow hhigh
    simp [reservedBlocks, IPNet.contains, IP.to4, hblock, hmask]
  | benchmarking b c d hlow hhigh =>
    refine Or.inr (Or.inr (Or.inr (Or.inr (Or.inr ?_))))
    have hmask : (18 : UInt8) &&& 254 = 18 := rfl
    have hblock := and_of_masked b (r := (18, 19, 254)) (by decide) hlow hhigh
    simp [reservedBlocks, IPNet.contains, IP.to4, hblock, hmask]

theorem Reserved4.length_eq {bytes : Bytes} (h : Reserved4 bytes) : bytes.length = 4 := by
  cases h <;> rfl

section

variable {v4 : Bytes} (h : v4.length = 4)

include h

theorem isUnspecified_mapped : (IP.mapped v4).isUnspecified = (⟨v4⟩ : IP).isUnspecified := by
  rw [IP.isUnspecified, IP.equal_mapped h rfl, IP.equal_mapped h rfl]
  rfl

theorem isLoopback_mapped : (IP.mapped v4).isLoopback = (⟨v4⟩ : IP).isLoopback := by
  rw [IP.isLoopback, IP.isLoopback, IP.to4_mapped h, IP.to4_of_length h]

theorem isPrivate_mapped : (IP.mapped v4).isPrivate = (⟨v4⟩ : IP).isPrivate := by
  rw [IP.isPrivate, IP.isPrivate, IP.to4_mapped h, IP.to4_of_length h]

theorem isMulticast_mapped : (IP.mapped v4).isMulticast = (⟨v4⟩ : IP).isMulticast := by
  rw [IP.isMulticast, IP.isMulticast, IP.to4_mapped h, IP.to4_of_length h]

theorem isLinkLocalUnicast_mapped :
    (IP.mapped v4).isLinkLocalUnicast = (⟨v4⟩ : IP).isLinkLocalUnicast := by
  rw [IP.isLinkLocalUnicast, IP.isLinkLocalUnicast, IP.to4_mapped h, IP.to4_of_length h]

theorem isLinkLocalMulticast_mapped :
    (IP.mapped v4).isLinkLocalMulticast = (⟨v4⟩ : IP).isLinkLocalMulticast := by
  rw [IP.isLinkLocalMulticast, IP.isLinkLocalMulticast, IP.to4_mapped h, IP.to4_of_length h]

theorem contains_mapped (block : IPNet) :
    block.contains (IP.mapped v4) = block.contains ⟨v4⟩ := by
  rw [IPNet.contains, IPNet.contains, IP.to4_mapped h, IP.to4_of_length h]
  rfl

theorem isGlobalUnicast_mapped :
    (IP.mapped v4).isGlobalUnicast = (⟨v4⟩ : IP).isGlobalUnicast := by
  rw [IP.isGlobalUnicast, IP.isGlobalUnicast, IP.equal_mapped h rfl, isUnspecified_mapped h,
    isLoopback_mapped h, isMulticast_mapped h, isLinkLocalUnicast_mapped h, IP.length_mapped h, h]
  rfl

/-- **Both forms of an address** are public, or neither is. -/
theorem isPublicWebhookIP_mapped :
    isPublicWebhookIP (IP.mapped v4) = isPublicWebhookIP ⟨v4⟩ := by
  have hsome : (IP.mapped v4).bytes ≠ [] ∧ v4 ≠ [] := by
    refine ⟨fun hnil ↦ ?_, fun hnil ↦ ?_⟩
    · have hlength := IP.length_mapped h
      rw [hnil] at hlength
      exact absurd hlength (by decide)
    · rw [hnil] at h
      exact absurd h (by decide)
  simp only [isPublicWebhookIP, isGlobalUnicast_mapped h, isPrivate_mapped h, isLoopback_mapped h,
    isLinkLocalUnicast_mapped h, isLinkLocalMulticast_mapped h, isUnspecified_mapped h,
    contains_mapped h, decide_eq_false hsome.1, decide_eq_false hsome.2]

end

/-- **No reserved address is public**, in whatever form it is given. -/
theorem not_public_of_reserved {ip : IP} (h : Reserved ip) : isPublicWebhookIP ip = false := by
  cases h with
  | v4 h => exact not_public_of_classed (classed_of_reserved4 h)
  | mapped h =>
    rw [isPublicWebhookIP_mapped h.length_eq]
    exact not_public_of_classed (classed_of_reserved4 h)
  | unspecified => exact not_public_of_classed (Or.inl rfl)
  | loopback => exact not_public_of_classed (Or.inr (Or.inl rfl))
  | unique a rest hlow hhigh hlength =>
    have ha : a ≠ 0 := fun hzero ↦ absurd (hzero ▸ hlow) (by decide)
    refine not_public_of_classed (Or.inr (Or.inr (Or.inl ?_)))
    have hblock := and_of_masked a (r := (0xfc, 0xfd, 0xfe)) (by decide) hlow hhigh
    simp [IP.isPrivate, IP.to4_of_head ha hlength, hlength, IP.byte, hblock]
  | linkLocal b rest hlow hhigh hlength =>
    have hfirst : (0xfe : UInt8) ≠ 0 := by decide
    have hrest : (b :: rest).length = 15 := congrArg (· + 1) hlength
    refine not_public_of_classed (Or.inr (Or.inr (Or.inr (Or.inr (Or.inl ?_)))))
    have hblock := and_of_masked b (r := (0x80, 0xbf, 0xc0)) (by decide) hlow hhigh
    simp [IP.isLinkLocalUnicast, IP.to4_of_head hfirst hrest, hlength, IP.byte, hblock]
  | multicast rest hlength =>
    have hfirst : (0xff : UInt8) ≠ 0 := by decide
    refine not_public_of_classed (Or.inr (Or.inr (Or.inr (Or.inl ?_))))
    simp [IP.isMulticast, IP.to4_of_head hfirst hlength, hlength, IP.byte]

/-! ### What is dialed -/

variable {n : NetLib} {port : List Char}

theorem length_of_public {ip : IP} (h : isPublicWebhookIP ip = true) :
    ip.bytes.length = 4 ∨ ip.bytes.length = 16 := by
  by_contra hlength
  rw [not_or] at hlength
  refine absurd h (Bool.eq_false_iff.1 ?_)
  simp [isPublicWebhookIP, IP.isGlobalUnicast, hlength.1, hlength.2]

/-- An address is dialed as itself: what the dialer reads is public as well. -/
theorem mem_attempts_dial (hlawful : n.Lawful) (hport : ':' ∉ port) {candidate : Network.Candidate}
    (hpublic : isPublicWebhookIP candidate.ip = true) {a : IP × List Char}
    (ha : a ∈ (n.dial candidate
      (joinHostPort (n.ipString candidate.ip).toList port)).attempts) :
    isPublicWebhookIP a.1 = true ∧ a.2 = port := by
  rw [NetLib.dial] at ha
  split at ha
  · exact absurd ha List.not_mem_nil
  · rename_i host port' hsplit
    obtain rfl := port_of_split hport hsplit
    obtain ⟨hleft, hright⟩ := hlawful.plain candidate.ip
    obtain rfl := host_of_split hport hleft hright hsplit
    obtain ⟨ip', hparse, hsame⟩ := hlawful.literal candidate.ip (length_of_public hpublic)
    rw [String.ofList_toList, hparse] at ha
    obtain rfl := List.mem_singleton.1 ha
    obtain ⟨x, hx⟩ := IP.exists_to16 (length_of_public hpublic)
    refine ⟨?_, rfl⟩
    rw [IP.eq_of_to16 (fun _ ↦ isPublicWebhookIP_mapped) (hsame.trans hx),
      ← IP.eq_of_to16 (fun _ ↦ isPublicWebhookIP_mapped) hx]
    exact hpublic

/-- The loop over addresses dials those that are public. -/
theorem mem_attempts_dialPublic (hlawful : n.Lawful) (hport : ':' ∉ port)
    {candidates : List Network.Candidate} {err : Option String} {a : IP × List Char}
    (ha : a ∈ (dialPublic n port candidates err).attempts) :
    isPublicWebhookIP a.1 = true ∧ a.2 = port := by
  induction candidates generalizing err with
  | nil => exact absurd ha List.not_mem_nil
  | cons candidate rest ih =>
    rw [dialPublic] at ha
    split at ha
    · exact ih ha
    · rename_i hpublic
      have hpublic : isPublicWebhookIP candidate.ip = true := by simpa using hpublic
      dsimp only at ha
      split at ha
      · exact mem_attempts_dial hlawful hport hpublic ha
      · rcases List.mem_append.1 ha with hfirst | hlater
        · exact mem_attempts_dial hlawful hport hpublic hfirst
        · exact ih hlater

/-- **Whatever names resolve to**, what is dialed is public. -/
theorem mem_attempts_secureDial (hlawful : n.Lawful) (hport : ':' ∉ port) {host : List Char}
    {lookup : Network.Lookup} {a : IP × List Char}
    (ha : a ∈ (secureDial n lookup (joinHostPort host port)).attempts) :
    isPublicWebhookIP a.1 = true ∧ a.2 = port := by
  rw [secureDial] at ha
  split at ha
  · exact absurd ha List.not_mem_nil
  · rename_i host' port' hsplit
    obtain rfl := port_of_split hport hsplit
    split at ha
    · exact absurd ha List.not_mem_nil
    · exact mem_attempts_dialPublic hlawful hport ha

/-! ### What is registered -/

/-- The URL that an endpoint is read as again. -/
theorem parse_of_valid (hlawful : n.Lawful) {raw endpoint : String}
    (h : validateWebhookURL n raw = .ok endpoint) : ∃ u, n.parseURL endpoint = some u ∧
      u.scheme = "https" ∧ (u.port = "" ∨ u.port = "443") := by
  rw [validateWebhookURL] at h
  dsimp only at h
  split at h
  · cases h
  · split at h
    · cases h
    · rename_i u hparse
      split at h
      · cases h
      · rename_i hscheme
        split at h
        · cases h
        · rename_i huser
          split at h
          · cases h
          · rename_i hport
            split at h
            · cases h
            · obtain rfl := Except.ok.inj h
              rw [not_or] at hscheme huser
              obtain ⟨u', hu', hhttps, -, hsame⟩ := hlawful.reparse hparse hscheme.2
                (Bool.eq_false_iff.2 huser.1) (not_not.1 huser.2)
              refine ⟨u', hu', hhttps, ?_⟩
              rw [hsame]
              by_contra hother
              exact hport (not_or.1 hother)

/-- **Webhook delivery cannot be steered into a private network**: whatever names resolve to and
whatever servers answer, the client of an endpoint that was accepted connects only to public
addresses, at port 443 and over TLS, and is not sent elsewhere. No reserved address is public, in
whatever form it is given. -/
theorem webhook_egress {n : NetLib} (hlawful : n.Lawful) {raw endpoint : String}
    (hvalid : validateWebhookURL n raw = .ok endpoint) (rounds : List Network.Round) :
    (∀ e ∈ (sendWebhook n (secureWebhookClient n) endpoint rounds).1,
      ∃ ip, e = .connect ip "443".toList true ∧ isPublicWebhookIP ip = true) ∧
    ∀ ip, Reserved ip → isPublicWebhookIP ip = false := by
  refine ⟨fun e he ↦ ?_, fun ip ↦ not_public_of_reserved⟩
  obtain ⟨u, hu, hhttps, hport⟩ := parse_of_valid hlawful hvalid
  have haddr : n.canonicalAddr u = joinHostPort (n.ascii u.hostname).toList "443".toList := by
    rw [NetLib.canonicalAddr]
    rcases hport with hport | hport
    · rw [hport, if_pos rfl, hhttps]
      rfl
    · rw [hport, if_neg (by decide)]
  rw [sendWebhook, hu] at he
  obtain ⟨r, -, a, ha, rfl⟩ := Network.Client.mem_run rfl (Option.some_ne_none _) he
  rw [haddr] at ha
  obtain ⟨hpublic, hsame⟩ := mem_attempts_secureDial hlawful (by decide) ha
  exact ⟨a.1, by rw [hsame, hhttps, decide_eq_true rfl], hpublic⟩

namespace Sample

/-- An address that is public. -/
def publicIP : IP := IP.mapped [8, 8, 8, 8]

def publicUrl : Url := ⟨"https", false, "8.8.8.8", "", "", "/webhook"⟩

/-- The characters of bytes, and back. -/
def charsOf (bytes : Bytes) : List Char := bytes.map fun b ↦ Char.ofNat b.toNat

def bytesOf (chars : List Char) : Bytes := chars.map fun c ↦ UInt8.ofNat c.toNat

/-- Texts of one public address and of the URL of an endpoint there. Other addresses are written
with hexadecimal digits. -/
def netLib : NetLib where
  parseURL raw :=
    if raw = "HTTPS://8.8.8.8/webhook" ∨ raw = "https://8.8.8.8/webhook" then some publicUrl
    else none
  urlString u := if u = publicUrl then "https://8.8.8.8/webhook" else ""
  parseIP text :=
    if text = "8.8.8.8" then some publicIP else (hexDecode (bytesOf text.toList)).map IP.mk
  ipString ip :=
    if ip.to16 = some publicIP then "8.8.8.8"
    else String.ofList (charsOf (hexEncode (ip.to16.getD ip).bytes))
  ascii name := name

theorem bytesOf_charsOf (bytes : Bytes) : bytesOf (charsOf bytes) = bytes := by
  have hbyte : ∀ b : UInt8, UInt8.ofNat (Char.ofNat b.toNat).toNat = b :=
    forall_byte (by decide +kernel)
  rw [bytesOf, charsOf, List.map_map]
  exact List.map_id'' hbyte bytes

/-- There is no bracket among hexadecimal digits. -/
theorem hexDigit_ne : ∀ x : UInt8, Char.ofNat (hexDigit (x / 16)).toNat ∉ ['[', ']'] ∧
    Char.ofNat (hexDigit (x % 16)).toNat ∉ ['[', ']'] := forall_byte (by decide +kernel)

theorem not_mem_charsOf {c : Char} (hc : c ∈ ['[', ']']) (bytes : Bytes) :
    c ∉ charsOf (hexEncode bytes) := by
  intro h
  obtain ⟨b, hb, rfl⟩ := List.mem_map.1 h
  obtain ⟨x, -, hx⟩ := List.mem_flatMap.1 hb
  rcases List.mem_pair.1 hx with rfl | rfl
  · exact (hexDigit_ne x).1 hc
  · exact (hexDigit_ne x).2 hc

theorem lawful_netLib : netLib.Lawful where
  reparse := by
    intro raw u h _ _ _
    simp only [netLib] at h ⊢
    split at h
    · obtain rfl := Option.some.inj h
      exact ⟨publicUrl, by decide, rfl, rfl, rfl⟩
    · exact absurd h.symm (Option.some_ne_none u)
  literal := by
    intro ip hlength
    obtain ⟨x, hx⟩ := IP.exists_to16 hlength
    obtain ⟨hsixteen, hagain⟩ := IP.to16_of_to16 hx
    simp only [netLib, hx, Option.getD_some, Option.some.injEq]
    by_cases hpublic : x = publicIP
    · rw [if_pos hpublic, if_pos rfl, hpublic]
      exact ⟨publicIP, rfl, rfl⟩
    · rw [if_neg hpublic, if_neg, String.toList_ofList, bytesOf_charsOf, hexDecode_hexEncode]
      · exact ⟨x, rfl, hagain⟩
      · intro heq
        have hlengths := congrArg (fun text : String ↦ text.toList.length) heq
        simp only [String.toList_ofList, charsOf, List.length_map, length_hexEncode,
          hsixteen] at hlengths
        exact absurd hlengths (by decide)
  plain := by
    intro ip
    simp only [netLib]
    split
    · decide
    · rw [String.toList_ofList]
      exact ⟨not_mem_charsOf (by decide) _, not_mem_charsOf (by decide) _⟩

/-- A name that resolves to a loopback address and to a public one. -/
def round : Network.Round where
  lookup _ := .ok [⟨⟨[127, 0, 0, 1]⟩, .ok (), []⟩, ⟨⟨[8, 8, 8, 8]⟩, .ok (), []⟩]
  reused := false
  response := some ⟨302, some "http://127.0.0.1/"⟩
  again := false

end Sample

theorem webhook_egress_sample :
    .connect Sample.publicIP "443".toList true ∈ (sendWebhook Sample.netLib
        (secureWebhookClient Sample.netLib) "https://8.8.8.8/webhook" [Sample.round]).1 ∧
      ∃ ip, (.connect Sample.publicIP "443".toList true : NetEvent) =
        .connect ip "443".toList true ∧ isPublicWebhookIP ip = true := by
  have hvalid : validateWebhookURL Sample.netLib "HTTPS://8.8.8.8/webhook" =
      .ok "https://8.8.8.8/webhook" := by decide +kernel
  have hmem : .connect Sample.publicIP "443".toList true ∈ (sendWebhook Sample.netLib
      (secureWebhookClient Sample.netLib) "https://8.8.8.8/webhook" [Sample.round]).1 := by
    decide +kernel
  exact ⟨hmem, (webhook_egress Sample.lawful_netLib hvalid [Sample.round]).1 _ hmem⟩

end Soroticket
