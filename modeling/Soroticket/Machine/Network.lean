import Mathlib.Data.List.Basic
import Soroticket.Machine.Bytes

/-!
# Addresses, names and clients

What a program sees of a network: IP addresses as four or sixteen bytes, texts of a host and a port,
and a client of HTTP that dials, speaks and may be sent elsewhere. Everything the network answers is
a choice: what a name resolves to, each time it is asked, who accepts a connection, and what is
said. Parsers of URLs and addresses are parameters (`NetLib`) with the laws that their
documentation gives (`NetLib.Lawful`).

**A client that refuses to be sent elsewhere** connects only to where its dialer takes the address
of its request (`Client.mem_run`).
-/

namespace Soroticket.Network

/-! ### IP addresses -/

/-- `net.IP`. An address that is nil has no bytes. -/
structure IP where
  bytes : Bytes
  deriving DecidableEq

/-- What stands before the four bytes of an address in its form of sixteen. -/
def v4InV6Prefix : Bytes := [0, 0, 0, 0, 0, 0, 0, 0, 0, 0, 0xff, 0xff]

namespace IP

/-- The form of sixteen bytes of an address of four. -/
def mapped (v4 : Bytes) : IP := ⟨v4InV6Prefix ++ v4⟩

/-- `To4`. -/
def to4 (ip : IP) : Option Bytes :=
  if ip.bytes.length = 4 then some ip.bytes
  else if ip.bytes.length = 16 ∧ ip.bytes.take 12 = v4InV6Prefix then some (ip.bytes.drop 12)
  else none

/-- `To16`. -/
def to16 (ip : IP) : Option IP :=
  if ip.bytes.length = 4 then some (mapped ip.bytes)
  else if ip.bytes.length = 16 then some ip
  else none

/-- `Equal`. -/
def equal (ip x : IP) : Bool :=
  if ip.bytes.length = x.bytes.length then ip = x
  else if ip.bytes.length = 4 ∧ x.bytes.length = 16 then
    x.bytes.take 12 = v4InV6Prefix ∧ ip.bytes = x.bytes.drop 12
  else if ip.bytes.length = 16 ∧ x.bytes.length = 4 then
    ip.bytes.take 12 = v4InV6Prefix ∧ ip.bytes.drop 12 = x.bytes
  else false

/-- `IPv4zero`, `IPv4bcast`, `IPv6unspecified` and `IPv6loopback`. -/
def v4zero : IP := mapped [0, 0, 0, 0]
def v4bcast : IP := mapped [255, 255, 255, 255]
def v6unspecified : IP := ⟨List.replicate 16 0⟩
def v6loopback : IP := ⟨List.replicate 15 0 ++ [1]⟩

/-- `IsUnspecified`. -/
def isUnspecified (ip : IP) : Bool := ip.equal v4zero || ip.equal v6unspecified

/-- The byte of an address, where it has one. -/
def byte (bytes : Bytes) (i : ℕ) : UInt8 := bytes.getD i 0

/-- `IsLoopback`. -/
def isLoopback (ip : IP) : Bool :=
  match ip.to4 with
  | some v4 => byte v4 0 = 127
  | none => ip.equal v6loopback

/-- `IsPrivate`. -/
def isPrivate (ip : IP) : Bool :=
  match ip.to4 with
  | some v4 => byte v4 0 = 10 || (byte v4 0 = 172 && byte v4 1 &&& 0xf0 = 16) ||
      (byte v4 0 = 192 && byte v4 1 = 168)
  | none => ip.bytes.length = 16 && byte ip.bytes 0 &&& 0xfe = 0xfc

/-- `IsMulticast`. -/
def isMulticast (ip : IP) : Bool :=
  match ip.to4 with
  | some v4 => byte v4 0 &&& 0xf0 = 0xe0
  | none => ip.bytes.length = 16 && byte ip.bytes 0 = 0xff

/-- `IsLinkLocalMulticast`. -/
def isLinkLocalMulticast (ip : IP) : Bool :=
  match ip.to4 with
  | some v4 => byte v4 0 = 224 && byte v4 1 = 0 && byte v4 2 = 0
  | none => ip.bytes.length = 16 && byte ip.bytes 0 = 0xff && byte ip.bytes 1 &&& 0x0f = 0x02

/-- `IsLinkLocalUnicast`. -/
def isLinkLocalUnicast (ip : IP) : Bool :=
  match ip.to4 with
  | some v4 => byte v4 0 = 169 && byte v4 1 = 254
  | none => ip.bytes.length = 16 && byte ip.bytes 0 = 0xfe && byte ip.bytes 1 &&& 0xc0 = 0x80

/-- `IsGlobalUnicast`. -/
def isGlobalUnicast (ip : IP) : Bool :=
  (ip.bytes.length = 4 || ip.bytes.length = 16) && !ip.equal v4bcast && !ip.isUnspecified &&
    !ip.isLoopback && !ip.isMulticast && !ip.isLinkLocalUnicast

/-! ### Two forms of one address -/

variable {ip ip' x : IP} {v4 : Bytes}

theorem length_mapped (h : v4.length = 4) : (mapped v4).bytes.length = 16 := by
  rw [mapped, List.length_append, h]
  rfl

theorem to4_mapped (h : v4.length = 4) : (mapped v4).to4 = some v4 := by
  rw [to4, if_neg (by rw [length_mapped h]; decide), if_pos ⟨length_mapped h, rfl⟩]
  rfl

theorem to4_of_length (h : v4.length = 4) : (⟨v4⟩ : IP).to4 = some v4 := if_pos h

/-- An address of sixteen bytes that does not start with a zero has no form of four. -/
theorem to4_of_head {a : UInt8} {rest : Bytes} (ha : a ≠ 0) (h : rest.length = 15) :
    (⟨a :: rest⟩ : IP).to4 = none := by
  rw [to4, if_neg, if_neg]
  · rintro ⟨-, htake⟩
    exact ha (List.cons.inj htake).1
  · rw [List.length_cons, h]
    decide

/-- Both forms are equal to the same addresses of sixteen bytes. -/
theorem equal_mapped (h : v4.length = 4) (hx : x.bytes.length = 16) :
    (mapped v4).equal x = (⟨v4⟩ : IP).equal x := by
  have hparts : mapped v4 = x ↔ x.bytes.take 12 = v4InV6Prefix ∧ v4 = x.bytes.drop 12 := by
    constructor
    · rintro rfl
      exact ⟨rfl, rfl⟩
    · rintro ⟨htake, hdrop⟩
      have hbytes := List.take_append_drop 12 x.bytes
      rw [htake, ← hdrop] at hbytes
      cases x
      exact congrArg IP.mk hbytes
  rw [equal, equal, if_pos ((length_mapped h).trans hx.symm),
    if_neg (by rw [h, hx]; decide), if_pos ⟨h, hx⟩]
  exact decide_eq_decide.2 hparts

theorem exists_to16 (h : ip.bytes.length = 4 ∨ ip.bytes.length = 16) : ∃ x, ip.to16 = some x := by
  rw [to16]
  rcases h with h | h
  · exact ⟨_, if_pos h⟩
  · exact ⟨ip, by rw [if_neg (by rw [h]; decide), if_pos h]⟩

/-- The form of sixteen bytes is its own. -/
theorem to16_of_to16 (h : ip.to16 = some x) : x.bytes.length = 16 ∧ x.to16 = some x := by
  have hlength : x.bytes.length = 16 := by
    rw [to16] at h
    split at h
    · obtain rfl := Option.some.inj h
      exact length_mapped ‹_›
    · split at h
      · rename_i hsixteen
        obtain rfl := Option.some.inj h
        exact hsixteen
      · exact absurd h.symm (Option.some_ne_none x)
  exact ⟨hlength, by rw [to16, if_neg (by rw [hlength]; decide), if_pos hlength]⟩

/-- What holds alike of both forms holds alike of an address and its form of sixteen bytes. -/
theorem eq_of_to16 {β : Type} {f : IP → β}
    (hf : ∀ v4 : Bytes, v4.length = 4 → f (mapped v4) = f ⟨v4⟩) (h : ip.to16 = some x) :
    f ip = f x := by
  rw [to16] at h
  split at h
  · rename_i hlength
    obtain rfl := Option.some.inj h
    exact (hf ip.bytes hlength).symm
  · split at h
    · obtain rfl := Option.some.inj h
      rfl
    · exact absurd h.symm (Option.some_ne_none x)

end IP

/-- `net.IPNet`: an address and a mask. -/
structure IPNet where
  ip : Bytes
  mask : Bytes
  deriving DecidableEq

/-- `Contains`. -/
def IPNet.contains (block : IPNet) (ip : IP) : Bool :=
  let bytes := ip.to4.getD ip.bytes
  bytes.length = block.ip.length &&
    List.zipWith (· &&& ·) block.ip block.mask = List.zipWith (· &&& ·) bytes block.mask

/-! ### Hosts and ports -/

/-- `net.JoinHostPort`. -/
def joinHostPort (host port : List Char) : List Char :=
  if ':' ∈ host then '[' :: (host ++ ']' :: ':' :: port) else host ++ ':' :: port

/-- `net.SplitHostPort`. -/
def splitHostPort (text : List Char) : Except String (List Char × List Char) :=
  let port := (text.reverse.takeWhile (· ≠ ':')).reverse
  let colon := text.length - port.length - 1
  let close := text.idxOf ']'
  if ':' ∉ text then .error "missing port in address"
  else if text.head? = some '[' then
    if ']' ∉ text then .error "missing ']' in address"
    else if close + 1 = text.length then .error "missing port in address"
    else if close + 1 ≠ colon then
      if text[close + 1]? = some ':' then .error "too many colons in address"
      else .error "missing port in address"
    else if '[' ∈ text.drop 1 then .error "unexpected '[' in address"
    else if ']' ∈ text.drop (close + 1) then .error "unexpected ']' in address"
    else .ok ((text.take close).drop 1, port)
  else if ':' ∈ text.take colon then .error "too many colons in address"
  else if '[' ∈ text then .error "unexpected '[' in address"
  else if ']' ∈ text then .error "unexpected ']' in address"
  else .ok (text.take colon, port)

section

variable {host host' port port' : List Char}

/-- The port is what stands after the last colon. -/
theorem takeWhile_join (hport : ':' ∉ port) (before : List Char) :
    ((before ++ ':' :: port).reverse.takeWhile (· ≠ ':')).reverse = port := by
  have hall : ∀ c ∈ port.reverse, decide (c ≠ ':') = true := fun c hc ↦
    decide_eq_true fun heq ↦ hport (heq ▸ List.mem_reverse.1 hc)
  rw [List.reverse_append, List.reverse_cons, List.append_assoc,
    List.takeWhile_append_of_pos hall]
  show (port.reverse ++ []).reverse = port
  rw [List.append_nil, List.reverse_reverse]

theorem joinHostPort_eq (host port : List Char) :
    ∃ before, joinHostPort host port = before ++ ':' :: port := by
  rw [joinHostPort]
  split
  · exact ⟨'[' :: (host ++ [']']), by simp⟩
  · exact ⟨host, rfl⟩

/-- Whatever a text is split into, its port is the one it was joined with. -/
theorem port_of_split (hport : ':' ∉ port)
    (h : splitHostPort (joinHostPort host port) = .ok (host', port')) : port' = port := by
  obtain ⟨before, htext⟩ := joinHostPort_eq host port
  have hlast := takeWhile_join hport before
  rw [htext] at h
  simp only [splitHostPort, hlast] at h
  repeat' split at h
  all_goals first
    | exact (Prod.mk.inj (Except.ok.inj h)).2.symm
    | cases h

/-- A host without brackets is split off again. -/
theorem host_of_split (hport : ':' ∉ port) (hleft : '[' ∉ host) (hright : ']' ∉ host)
    (h : splitHostPort (joinHostPort host port) = .ok (host', port')) : host' = host := by
  by_cases hcolon : ':' ∈ host
  · have htext : joinHostPort host port = '[' :: host ++ ']' :: ':' :: port := if_pos hcolon
    have hlast : ((joinHostPort host port).reverse.takeWhile (· ≠ ':')).reverse = port := by
      have h := takeWhile_join hport ('[' :: host ++ [']'])
      rwa [List.append_assoc, List.singleton_append, ← htext] at h
    have hclose : (joinHostPort host port).idxOf ']' = ('[' :: host).length := by
      rw [htext, List.idxOf_append_of_notMem, List.idxOf_cons_self, Nat.add_zero]
      rw [List.mem_cons, not_or]
      exact ⟨by decide, hright⟩
    have htake : (joinHostPort host port).take ('[' :: host).length = '[' :: host := by
      rw [htext, List.take_left]
    have hhead : (joinHostPort host port).head? = some '[' := by
      rw [htext]
      rfl
    simp only [splitHostPort, hlast, hclose, htake, if_pos hhead] at h
    repeat' split at h
    all_goals first
      | exact (Prod.mk.inj (Except.ok.inj h)).1.symm
      | cases h
  · have htext : joinHostPort host port = host ++ ':' :: port := if_neg hcolon
    have hlast : ((joinHostPort host port).reverse.takeWhile (· ≠ ':')).reverse = port := by
      rw [htext]
      exact takeWhile_join hport host
    have htake : (joinHostPort host port).take
        ((joinHostPort host port).length - port.length - 1) = host := by
      have hlength : (joinHostPort host port).length - port.length - 1 = host.length := by
        rw [htext, List.length_append, List.length_cons]
        omega
      rw [hlength, htext, List.take_left]
    have hhead : (joinHostPort host port).head? ≠ some '[' := by
      rw [htext]
      cases host with
      | nil => exact fun heq ↦ absurd (Option.some.inj heq) (by decide)
      | cons c host => exact fun heq ↦ hleft (Option.some.inj heq ▸ List.mem_cons_self)
    simp only [splitHostPort, hlast, htake, if_neg hhead] at h
    repeat' split at h
    all_goals first
      | exact (Prod.mk.inj (Except.ok.inj h)).1.symm
      | cases h

end

/-! ### Names -/

/-- `url.URL`, with what `Hostname` and `Port` return of its host. -/
structure Url where
  scheme : String
  hasUser : Bool
  hostname : String
  port : String
  fragment : String
  rest : String
  deriving DecidableEq

/-- The parsers and printers of texts. -/
structure NetLib where
  /-- `url.Parse`. -/
  parseURL : String → Option Url
  /-- `URL.String`. -/
  urlString : Url → String
  /-- `net.ParseIP`. -/
  parseIP : String → Option IP
  /-- `IP.String`. -/
  ipString : IP → String
  /-- The ASCII form of a name, as it is dialed. -/
  ascii : String → String

/-- What their documentation says of them. -/
structure NetLib.Lawful (n : NetLib) : Prop where
  /-- The text of a URL that was parsed is parsed as the same one. -/
  reparse : ∀ {raw u}, n.parseURL raw = some u → u.hostname ≠ "" → u.hasUser = false →
    u.fragment = "" → ∃ u', n.parseURL (n.urlString { u with scheme := "https" }) = some u' ∧
      u'.scheme = "https" ∧ u'.hostname = u.hostname ∧ u'.port = u.port
  /-- The text of an address is parsed as the same address. -/
  literal : ∀ ip : IP, ip.bytes.length = 4 ∨ ip.bytes.length = 16 →
    ∃ ip', n.parseIP (n.ipString ip) = some ip' ∧ ip'.to16 = ip.to16
  /-- It has no brackets. -/
  plain : ∀ ip, '[' ∉ (n.ipString ip).toList ∧ ']' ∉ (n.ipString ip).toList

/-! ### Dialing -/

/-- An address that a name resolves to, whether a connection to it would be accepted, and what the
dialer would find if it had to resolve a name itself. -/
structure Candidate where
  ip : IP
  accepts : Except String Unit
  resolved : List IP

/-- What `LookupIPAddr` answers. -/
abbrev Lookup := String → Except String (List Candidate)

/-- What a dialer has tried, and whether it has a connection. -/
structure Dial where
  attempts : List (IP × List Char)
  conn : Except String Unit

/-- `Dialer.DialContext`: an address is dialed as it is, a name is resolved first. -/
def NetLib.dial (n : NetLib) (c : Candidate) (address : List Char) : Dial :=
  match splitHostPort address with
  | .error e => ⟨[], .error e⟩
  | .ok (host, port) =>
    match n.parseIP (String.ofList host) with
    | some ip => ⟨[(ip, port)], c.accepts⟩
    | none => ⟨c.resolved.map fun ip ↦ (ip, port), c.accepts⟩

/-! ### Clients -/

/-- `http.Client` and its transport: a proxy, a dialer, and what it says to being sent elsewhere. -/
structure Client where
  proxy : Option (List Char)
  dialContext : Lookup → List Char → Dial
  checkRedirect : Option String

/-- An answer of a server. -/
structure Response where
  status : ℕ
  location : Option String

/-- The statuses that send a client elsewhere. -/
def Response.redirects (r : Response) : Bool := r.status ∈ [301, 302, 303, 307, 308]

/-- What happens to one try of a request: what names resolve to, whether a connection of before is
used, the answer if there is one, and whether the transport tries again if there is none. -/
structure Round where
  lookup : Lookup
  reused : Bool
  response : Option Response
  again : Bool

/-- What a client does that can be seen. -/
inductive NetEvent where
  | connect (ip : IP) (port : List Char) (tls : Bool)
  | redirect (location : String)
  deriving DecidableEq

/-- The ports of schemes. -/
def portMap (scheme : String) : String :=
  if scheme = "http" then "80" else if scheme = "https" then "443"
  else if scheme = "socks5" then "1080" else ""

/-- The address that a request is sent to. -/
def NetLib.canonicalAddr (n : NetLib) (u : Url) : List Char :=
  joinHostPort (n.ascii u.hostname).toList
    (if u.port = "" then portMap u.scheme else u.port).toList

namespace Client

/-- The connection for a request. -/
def connection (c : Client) (n : NetLib) (r : Round) (u : Url) : Dial :=
  if r.reused then ⟨[], .ok ()⟩
  else c.dialContext r.lookup (c.proxy.getD (n.canonicalAddr u))

/-- `Client.Do`: what it does, and the status or the error that it returns. -/
def run (c : Client) (n : NetLib) : List Round → Url → List NetEvent × Except String ℕ
  | [], _ => ([], .error "context deadline exceeded")
  | r :: rs, u =>
    if u.scheme ≠ "http" ∧ u.scheme ≠ "https" then ([], .error "unsupported protocol scheme")
    else
      let d := c.connection n r u
      let seen := d.attempts.map fun a ↦ NetEvent.connect a.1 a.2 (u.scheme = "https")
      match d.conn, r.response with
      | .error e, _ =>
        if r.again then (seen ++ (c.run n rs u).1, (c.run n rs u).2) else (seen, .error e)
      | .ok _, none =>
        if r.again then (seen ++ (c.run n rs u).1, (c.run n rs u).2) else (seen, .error "EOF")
      | .ok _, some response =>
        match response.redirects, response.location with
        | false, _ => (seen, .ok response.status)
        | true, none => (seen, .ok response.status)
        | true, some location =>
          match n.parseURL location, c.checkRedirect with
          | none, _ => (seen, .error "failed to parse Location header")
          | some _, some e => (seen, .error e)
          | some u', none => (seen ++ .redirect location :: (c.run n rs u').1, (c.run n rs u').2)

variable {c : Client} {n : NetLib} {u : Url} {rounds : List Round} {e : NetEvent}

/-- **A client that refuses to be sent elsewhere** connects only where its dialer takes the address
of the request, in the scheme of the request. -/
theorem mem_run (hproxy : c.proxy = none) (hrefuse : c.checkRedirect ≠ none)
    (h : e ∈ (c.run n rounds u).1) : ∃ r ∈ rounds,
      ∃ a ∈ (c.dialContext r.lookup (n.canonicalAddr u)).attempts,
        e = .connect a.1 a.2 (u.scheme = "https") := by
  obtain ⟨message, hmessage⟩ := Option.ne_none_iff_exists'.1 hrefuse
  induction rounds with
  | nil => exact absurd h List.not_mem_nil
  | cons r rs ih =>
    have hcases : e ∈ (c.connection n r u).attempts.map
        (fun a ↦ NetEvent.connect a.1 a.2 (u.scheme = "https")) ∨ e ∈ (c.run n rs u).1 := by
      simp only [run, hmessage] at h
      repeat' split at h
      all_goals first
        | exact absurd h List.not_mem_nil
        | exact Or.inl h
        | exact List.mem_append.1 h
        | exact absurd ‹some _ = none› (Option.some_ne_none _)
    rcases hcases with hseen | hlater
    · obtain ⟨a, ha, rfl⟩ := List.mem_map.1 hseen
      rw [connection] at ha
      split at ha
      · exact absurd ha List.not_mem_nil
      · rw [hproxy, Option.getD_none] at ha
        exact ⟨r, List.mem_cons_self, a, ha, rfl⟩
    · obtain ⟨r', hr', hattempt⟩ := ih hlater
      exact ⟨r', List.mem_cons_of_mem r hr', hattempt⟩

end Client

end Soroticket.Network
