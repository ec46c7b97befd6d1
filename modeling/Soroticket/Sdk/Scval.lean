import Mathlib.Data.List.Pairwise
import Soroticket.Ledger.Types
import Soroticket.Machine.Base64

/-!
# The attribution map of the client

`CommitTally` of the Go client hands the contract a map from addresses to counts. The host wants the
entries of a map in the ascending order of the XDR bytes of their keys: accounts before contracts,
then by the 32 bytes of the key (`Address.scVal_lt_iff`).

`scAttributionMap` sorts by the base64 text of those bytes. Base64 keeps the order where the first
six bits that differ are written in one run of its alphabet (`Base64.encode_lt_iff`), but figures
and signs come before letters as characters and after them as numbers. So the map is canonical for
exactly the sets of addresses without such a pair (`scAttributionMap_canonical_iff`).
-/

namespace Soroticket

/-! ### Addresses -/

/-- The kinds of `strkey`, by their first character. -/
inductive VersionByte where
  /-- `G`. -/
  | accountID
  /-- `C`. -/
  | contract
  deriving DecidableEq

/-- The `strkey` codec: a text is the only one for what it stands for. -/
structure Strkey where
  decode : VersionByte → String → Except String (BytesN 32)
  decode_inj : ∀ {version addr addr' key}, decode version addr = .ok key →
    decode version addr' = .ok key → addr = addr'

/-- `parseScAddress`. -/
def Strkey.parseScAddress (k : Strkey) (addr : String) : Except String Address :=
  match addr.toList with
  | 'C' :: _ => (k.decode .contract addr).map .contract
  | _ => (k.decode .accountID addr).map .account

theorem Except.map_eq_ok {ε α β : Type} {x : Except ε α} {f : α → β} {b : β} :
    x.map f = .ok b ↔ ∃ a, x = .ok a ∧ f a = b := by
  cases x with
  | error e => simp [Except.map]
  | ok a => simp [Except.map]

/-- No two texts are parsed as one address. -/
theorem Strkey.parseScAddress_inj (k : Strkey) {addr addr' : String} {key : Address}
    (h : k.parseScAddress addr = .ok key) (h' : k.parseScAddress addr' = .ok key) :
    addr = addr' := by
  unfold parseScAddress at h h'
  split at h
  · obtain ⟨id, hid, rfl⟩ := Except.map_eq_ok.1 h
    split at h'
    · obtain ⟨id', hid', heq⟩ := Except.map_eq_ok.1 h'
      obtain rfl := Address.contract.inj heq
      exact k.decode_inj hid hid'
    · obtain ⟨key', -, heq⟩ := Except.map_eq_ok.1 h'
      cases heq
  · obtain ⟨key, hkey, rfl⟩ := Except.map_eq_ok.1 h
    split at h'
    · obtain ⟨id', -, heq⟩ := Except.map_eq_ok.1 h'
      cases heq
    · obtain ⟨key', hkey', heq⟩ := Except.map_eq_ok.1 h'
      obtain rfl := Address.account.inj heq
      exact k.decode_inj hkey hkey'

/-! ### XDR -/

/-- Four bytes, the highest first. -/
def xdrUint32 (n : ℕ) : Bytes :=
  [UInt8.ofNat (n / 2 ^ 24), UInt8.ofNat (n / 2 ^ 16), UInt8.ofNat (n / 2 ^ 8), UInt8.ofNat n]

namespace Address

/-- The XDR of the `ScVal` of an address: the kind of value, the kind of address, for an account
the kind of key, and the key. -/
def scVal : Address → Bytes
  | account key => xdrUint32 18 ++ xdrUint32 0 ++ xdrUint32 0 ++ key.bytes
  | contract id => xdrUint32 18 ++ xdrUint32 1 ++ id.bytes

@[simp] def isContract : Address → Bool
  | account _ => false
  | contract _ => true

/-- The 32 bytes of an address. -/
def keyBytes : Address → Bytes
  | account key => key.bytes
  | contract id => id.bytes

variable {a b : Address}

theorem length_scVal (h : a.isContract = b.isContract) : a.scVal.length = b.scVal.length := by
  cases a with
  | account key =>
    cases b with
    | account key' =>
      simp only [scVal, List.length_append, key.length_bytes, key'.length_bytes]
    | contract => exact absurd h Bool.false_ne_true
  | contract id =>
    cases b with
    | account => exact absurd h.symm Bool.false_ne_true
    | contract id' => simp only [scVal, List.length_append, id.length_bytes, id'.length_bytes]

theorem scVal_inj (h : a.scVal = b.scVal) : a = b := by
  cases a with
  | account key =>
    cases b with
    | account key' => exact congrArg account (BytesN.ext (List.append_cancel_left h))
    | contract id => simp [scVal, xdrUint32] at h
  | contract id =>
    cases b with
    | account key => simp [scVal, xdrUint32] at h
    | contract id' => exact congrArg contract (BytesN.ext (List.append_cancel_left h))

/-- Accounts come before contracts. -/
theorem scVal_account_lt (key id : BytesN 32) : (account key).scVal < (contract id).scVal := by
  simp [scVal, xdrUint32, List.cons_lt_cons_iff]

/-- And so do their texts: the kinds of address are letters. -/
theorem encode_account_lt (key id : BytesN 32) :
    Base64.encode (account key).scVal < Base64.encode (contract id).scVal := by
  have hid : ∃ x rest, id.bytes = x :: rest := by
    refine List.exists_cons_of_length_pos ?_
    rw [id.length_bytes]
    decide
  obtain ⟨x, rest, hbytes⟩ := hid
  have hx := x.toNat_lt
  have hdigit : Base64.digit 0 < Base64.digit (4 + x.toNat / 64) := by
    have hall : ∀ n < 4, Base64.digit 0 < Base64.digit (4 + n) := by decide
    exact hall _ (by omega)
  rw [scVal, scVal, hbytes]
  simp [xdrUint32, Base64.encode, List.cons_lt_cons_iff, hdigit]

/-- The order of the XDR of two addresses: accounts first, then by the bytes of the key. -/
theorem scVal_lt_iff : a.scVal < b.scVal ↔
    a.isContract < b.isContract ∨ a.isContract = b.isContract ∧ a.keyBytes < b.keyBytes := by
  cases a with
  | account key =>
    cases b with
    | account key' => simp [scVal, xdrUint32, keyBytes]
    | contract id => exact iff_of_true (scVal_account_lt key id) (Or.inl (by simp))
  | contract id =>
    cases b with
    | account key =>
      have hlt := scVal_account_lt key id
      exact iff_of_false (List.lt_asymm hlt) (by simp)
    | contract id' => simp [scVal, xdrUint32, keyBytes]

end Address

/-! ### The map -/

/-- A map from the texts of addresses to counts, in the order the client ranges over it. -/
structure PerAttribution where
  entries : List (String × UInt32)
  nodup : (entries.map Prod.fst).Nodup

/-- An entry before it is sorted: `kv`. -/
structure Kv where
  key : Address
  enc : Bytes
  val : UInt32

/-- The order of the texts, in which entries are sorted. -/
def Kv.le (p q : Kv) : Bool := p.enc ≤ q.enc

namespace Strkey

/-- One turn of the loop over the map. -/
def kv (k : Strkey) (e : String × UInt32) : Except String Kv := do
  let key ← k.parseScAddress e.1
  return ⟨key, Base64.encode key.scVal, e.2⟩

/-- `scAttributionMap`: the keys and values of its entries. -/
def scAttributionMap (k : Strkey) (perAttribution : PerAttribution) :
    Except String (List (Address × UInt32)) := do
  let pairs ← perAttribution.entries.mapM k.kv
  return (pairs.mergeSort Kv.le).map fun p ↦ (p.key, p.val)

variable (k : Strkey) (perAttribution : PerAttribution)

/-- Every address of a map is one. -/
def Valid : Prop := ∀ e ∈ perAttribution.entries, ∃ key, k.parseScAddress e.1 = .ok key

/-- An address is a key of a map. -/
def IsKey (key : Address) : Prop :=
  ∃ e ∈ perAttribution.entries, k.parseScAddress e.1 = .ok key

/-- The entries are those of a map, each once, and they ascend as the host wants them. -/
structure Canonical (entries : List (Address × UInt32)) : Prop where
  mem_iff : ∀ key n, (key, n) ∈ entries ↔
    ∃ addr, (addr, n) ∈ perAttribution.entries ∧ k.parseScAddress addr = .ok key
  nodup : (entries.map Prod.fst).Nodup
  ascending : entries.Pairwise fun e e' ↦ e.1.scVal < e'.1.scVal

/-! ### What the loop collects -/

variable {k perAttribution}

theorem kv_eq_ok {e : String × UInt32} {p : Kv} (h : k.kv e = .ok p) :
    k.parseScAddress e.1 = .ok p.key ∧ p.enc = Base64.encode p.key.scVal ∧ p.val = e.2 := by
  rw [kv] at h
  cases hkey : k.parseScAddress e.1 with
  | error problem =>
    rw [hkey] at h
    cases h
  | ok key =>
    rw [hkey] at h
    obtain rfl := Except.ok.inj h
    exact ⟨rfl, rfl, rfl⟩

/-- The loop goes through. It collects what it makes of each entry, and no address twice. -/
theorem exists_pairs {entries : List (String × UInt32)} (hnodup : (entries.map Prod.fst).Nodup)
    (hvalid : ∀ e ∈ entries, ∃ key, k.parseScAddress e.1 = .ok key) :
    ∃ pairs, entries.mapM k.kv = .ok pairs ∧ (∀ p, p ∈ pairs ↔ ∃ e ∈ entries, k.kv e = .ok p) ∧
      (pairs.map Kv.key).Nodup := by
  induction entries with
  | nil => exact ⟨[], rfl, by simp, List.nodup_nil⟩
  | cons e entries ih =>
    obtain ⟨hnew, hnodup⟩ := List.nodup_cons.1 hnodup
    obtain ⟨key, hkey⟩ := hvalid e List.mem_cons_self
    obtain ⟨pairs, hpairs, hmem, hkeys⟩ :=
      ih hnodup fun e' he' ↦ hvalid e' (List.mem_cons_of_mem _ he')
    have he : k.kv e = .ok ⟨key, Base64.encode key.scVal, e.2⟩ := by
      rw [kv, hkey]
      rfl
    refine ⟨⟨key, Base64.encode key.scVal, e.2⟩ :: pairs, ?_, fun p ↦ ?_, ?_⟩
    · rw [List.mapM_cons, he, hpairs]
      rfl
    · rw [List.mem_cons, hmem]
      constructor
      · rintro (rfl | ⟨e', he', hp⟩)
        · exact ⟨e, List.mem_cons_self, he⟩
        · exact ⟨e', List.mem_cons_of_mem _ he', hp⟩
      · rintro ⟨e', he', hp⟩
        rcases List.mem_cons.1 he' with rfl | he'
        · exact Or.inl (Except.ok.inj (hp.symm.trans he))
        · exact Or.inr ⟨e', he', hp⟩
    · refine List.nodup_cons.2 ⟨fun hold ↦ ?_, hkeys⟩
      -- another entry with this address would have this text
      obtain ⟨p, hp, hpkey⟩ := List.mem_map.1 hold
      obtain ⟨e', he', hkv⟩ := (hmem p).1 hp
      have hpkey : p.key = key := hpkey
      have hsame : k.parseScAddress e'.1 = .ok key := hpkey ▸ (kv_eq_ok hkv).1
      refine hnew ?_
      rw [k.parseScAddress_inj hkey hsame]
      exact List.mem_map_of_mem he'

/-! ### The order of the entries -/

/-- The sorted pairs ascend by their texts, strictly where no two have one key. -/
theorem pairwise_sorted {pairs : List Kv} (henc : ∀ p ∈ pairs, p.enc = Base64.encode p.key.scVal)
    (hkeys : (pairs.map Kv.key).Nodup) :
    (pairs.mergeSort Kv.le).Pairwise fun p q ↦
      Base64.encode p.key.scVal < Base64.encode q.key.scVal := by
  have htrans : ∀ p q r : Kv, Kv.le p q = true → Kv.le q r = true → Kv.le p r = true := by
    intro p q r hpq hqr
    exact decide_eq_true (List.le_trans (of_decide_eq_true hpq) (of_decide_eq_true hqr))
  have htotal : ∀ p q : Kv, (Kv.le p q || Kv.le q p) = true := by
    intro p q
    rw [Bool.or_eq_true]
    exact (List.le_total p.enc q.enc).imp decide_eq_true decide_eq_true
  have hsorted := List.pairwise_mergeSort htrans htotal pairs
  have hperm := List.mergeSort_perm pairs Kv.le
  have hdistinct : (pairs.mergeSort Kv.le).Pairwise fun p q ↦ p.key ≠ q.key :=
    List.pairwise_map.1 ((hperm.map Kv.key).nodup_iff.2 hkeys)
  refine (hsorted.and hdistinct).imp_of_mem fun {p q} hp hq h ↦ ?_
  obtain ⟨hle, hne⟩ := h
  have hle : p.enc ≤ q.enc := of_decide_eq_true hle
  rw [henc p (hperm.mem_iff.1 hp), henc q (hperm.mem_iff.1 hq)] at hle
  rcases List.le_iff_lt_or_eq.1 hle with hlt | heq
  · exact hlt
  · exact absurd (Address.scVal_inj (Base64.encode_inj heq)) hne

/-- Two addresses are written in the order of their bytes. -/
def Ordered (a b : Address) : Prop :=
  (Base64.encode a.scVal < Base64.encode b.scVal ↔ a.scVal < b.scVal) ∧
    (Base64.encode b.scVal < Base64.encode a.scVal ↔ b.scVal < a.scVal)

theorem Ordered.symm {a b : Address} (h : Ordered a b) : Ordered b a := ⟨h.2, h.1⟩

/-- Of two kinds, they always are. -/
theorem ordered_of_ne {a b : Address} (h : a.isContract ≠ b.isContract) : Ordered a b := by
  have hkinds : ∀ key id, Ordered (.account key) (.contract id) := fun key id ↦
    ⟨iff_of_true (Address.encode_account_lt key id) (Address.scVal_account_lt key id),
      iff_of_false (List.lt_asymm (Address.encode_account_lt key id))
        (List.lt_asymm (Address.scVal_account_lt key id))⟩
  cases a with
  | account key =>
    cases b with
    | account => exact absurd rfl h
    | contract id => exact hkinds key id
  | contract id =>
    cases b with
    | account key => exact (hkinds key id).symm
    | contract => exact absurd rfl h

/-- The entries that are returned ascend exactly where every two keys are written in order. -/
theorem ascending_sorted_iff {pairs : List Kv}
    (henc : ∀ p ∈ pairs, p.enc = Base64.encode p.key.scVal) (hkeys : (pairs.map Kv.key).Nodup) :
    (pairs.mergeSort Kv.le).Pairwise (fun p q ↦ p.key.scVal < q.key.scVal) ↔
      ∀ p ∈ pairs, ∀ q ∈ pairs, Ordered p.key q.key := by
  have hsorted := pairwise_sorted henc hkeys
  have hperm := List.mergeSort_perm pairs Kv.le
  constructor
  · intro hascending p hp q hq
    have hordered : (pairs.mergeSort Kv.le).Pairwise fun p q ↦ Ordered p.key q.key := by
      refine (hsorted.and hascending).imp fun {p q} h ↦ ?_
      exact ⟨iff_of_true h.1 h.2, iff_of_false (List.lt_asymm h.1) (List.lt_asymm h.2)⟩
    have hsymm : Std.Symm fun p q : Kv ↦ Ordered p.key q.key := ⟨fun _ _ h ↦ h.symm⟩
    refine hordered.forall_of_forall (fun p _ ↦ ?_) (hperm.mem_iff.2 hp) (hperm.mem_iff.2 hq)
    exact ⟨iff_of_false (List.lt_irrefl _) (List.lt_irrefl _),
      iff_of_false (List.lt_irrefl _) (List.lt_irrefl _)⟩
  · intro hordered
    refine hsorted.imp_of_mem fun {p q} hp hq hlt ↦ ?_
    exact (hordered p (hperm.mem_iff.1 hp) q (hperm.mem_iff.1 hq)).1.1 hlt

/-- What is returned is canonical exactly where every two keys are written in order. -/
theorem canonical_iff_ordered (hvalid : k.Valid perAttribution) :
    (∃ entries, k.scAttributionMap perAttribution = .ok entries ∧
        k.Canonical perAttribution entries) ↔
      ∀ a b, k.IsKey perAttribution a → k.IsKey perAttribution b → Ordered a b := by
  obtain ⟨pairs, hpairs, hmem, hkeys⟩ := exists_pairs perAttribution.nodup hvalid
  have henc : ∀ p ∈ pairs, p.enc = Base64.encode p.key.scVal := by
    intro p hp
    obtain ⟨e, -, he⟩ := (hmem p).1 hp
    exact (kv_eq_ok he).2.1
  have hkey : ∀ a, k.IsKey perAttribution a ↔ ∃ p ∈ pairs, p.key = a := by
    intro a
    constructor
    · rintro ⟨e, he, ha⟩
      have hkv : k.kv e = .ok ⟨a, Base64.encode a.scVal, e.2⟩ := by
        rw [kv, ha]
        rfl
      exact ⟨_, (hmem _).2 ⟨e, he, hkv⟩, rfl⟩
    · rintro ⟨p, hp, rfl⟩
      obtain ⟨e, he, hkv⟩ := (hmem p).1 hp
      exact ⟨e, he, (kv_eq_ok hkv).1⟩
  have hreturned : k.scAttributionMap perAttribution =
      .ok ((pairs.mergeSort Kv.le).map fun p ↦ (p.key, p.val)) := by
    rw [scAttributionMap, hpairs]
    rfl
  have hperm := List.mergeSort_perm pairs Kv.le
  have hcanonical : k.Canonical perAttribution
      ((pairs.mergeSort Kv.le).map fun p ↦ (p.key, p.val)) ↔
        (pairs.mergeSort Kv.le).Pairwise fun p q ↦ p.key.scVal < q.key.scVal := by
    refine ⟨fun h ↦ ?_, fun h ↦ ⟨fun key n ↦ ?_, ?_, ?_⟩⟩
    · have hascending := h.ascending
      rwa [List.pairwise_map] at hascending
    · rw [List.mem_map]
      constructor
      · rintro ⟨p, hp, heq⟩
        obtain ⟨rfl, rfl⟩ := Prod.mk.inj heq
        obtain ⟨e, he, hkv⟩ := (hmem p).1 (hperm.mem_iff.1 hp)
        obtain ⟨hparse, -, hval⟩ := kv_eq_ok hkv
        exact ⟨e.1, hval ▸ he, hparse⟩
      · rintro ⟨addr, haddr, hparse⟩
        have hkv : k.kv (addr, n) = .ok ⟨key, Base64.encode key.scVal, n⟩ := by
          rw [kv, hparse]
          rfl
        exact ⟨_, hperm.mem_iff.2 ((hmem _).2 ⟨_, haddr, hkv⟩), rfl⟩
    · rw [List.map_map]
      exact (hperm.map Kv.key).nodup_iff.2 hkeys
    · rwa [List.pairwise_map]
  rw [hreturned]
  have hreturn : (∃ entries, (Except.ok ((pairs.mergeSort Kv.le).map fun p ↦ (p.key, p.val)) :
      Except String (List (Address × UInt32))) = .ok entries ∧ k.Canonical perAttribution entries) ↔
        k.Canonical perAttribution ((pairs.mergeSort Kv.le).map fun p ↦ (p.key, p.val)) :=
    ⟨fun ⟨_, heq, h⟩ ↦ Except.ok.inj heq ▸ h, fun h ↦ ⟨_, rfl, h⟩⟩
  rw [hreturn, hcanonical, ascending_sorted_iff henc hkeys]
  constructor
  · intro hordered a b ha hb
    obtain ⟨p, hp, rfl⟩ := (hkey a).1 ha
    obtain ⟨q, hq, rfl⟩ := (hkey b).1 hb
    exact hordered p hp q hq
  · intro hordered p hp q hq
    exact hordered _ _ ((hkey _).2 ⟨p, hp, rfl⟩) ((hkey _).2 ⟨q, hq, rfl⟩)

end Strkey

namespace Sample

/-- An account whose key is written with letters only. -/
def letters : BytesN 32 := BytesN.zero 32

/-- An account whose key begins with a figure. -/
def figure : BytesN 32 := ⟨208 :: List.replicate 31 0, rfl⟩

def lettersText : String := "GAAAAAAAAAAAAAAAAAAAAAAAAAAAAAAAAAAAAAAAAAAAAAAAAAAAAWHF"

def figureText : String := "GDIAAAAAAAAAAAAAAAAAAAAAAAAAAAAAAAAAAAAAAAAAAAAAAAAAABCE"

def contractText : String := "CAAAAAAAAAAAAAAAAAAAAAAAAAAAAAAAAAAAAAAAAAAAAAAAAAAABSC4"

/-- The codec, at three texts. -/
def strkey : Strkey where
  decode
    | .accountID, addr =>
      if addr = lettersText then .ok letters
      else if addr = figureText then .ok figure
      else .error "invalid"
    | .contract, addr => if addr = contractText then .ok (BytesN.zero 32) else .error "invalid"
  decode_inj := by
    have hne : letters ≠ figure := by decide
    intro version addr addr' key h h'
    cases version with
    | accountID => grind
    | contract => grind

theorem parse_lettersText : strkey.parseScAddress lettersText = .ok (.account letters) := by decide

theorem parse_figureText : strkey.parseScAddress figureText = .ok (.account figure) := by decide

theorem parse_contractText :
    strkey.parseScAddress contractText = .ok (.contract (BytesN.zero 32)) := by decide

/-- Two accounts. -/
def accounts : PerAttribution := ⟨[(lettersText, 1), (figureText, 2)], by decide⟩

/-- An account and a contract. -/
def kinds : PerAttribution := ⟨[(contractText, 3), (figureText, 2)], by decide⟩

end Sample

/-- **When the attribution map is canonical.** The client returns the entries of a map, each once
and in the order the host wants, exactly where this holds of its keys: of every two accounts, and of
every two contracts, the first six bits in which their XDR differs are written in one run of the
base64 alphabet. -/
theorem scAttributionMap_canonical_iff (k : Strkey) (perAttribution : PerAttribution)
    (hvalid : k.Valid perAttribution) :
    (∃ entries, k.scAttributionMap perAttribution = .ok entries ∧
        k.Canonical perAttribution entries) ↔
      ∀ a b, k.IsKey perAttribution a → k.IsKey perAttribution b → a.isContract = b.isContract →
        Base64.SameRun a.scVal b.scVal := by
  rw [Strkey.canonical_iff_ordered hvalid]
  constructor
  · intro hordered a b ha hb hkind
    exact (Base64.encode_lt_iff (Address.length_scVal hkind)).1 (hordered a b ha hb).1
  · intro hruns a b ha hb
    by_cases hkind : a.isContract = b.isContract
    · exact ⟨(Base64.encode_lt_iff (Address.length_scVal hkind)).2 (hruns a b ha hb hkind),
        (Base64.encode_lt_iff (Address.length_scVal hkind.symm)).2 (hruns b a hb ha hkind.symm)⟩
    · exact Strkey.ordered_of_ne hkind

theorem scAttributionMap_canonical_iff_kinds :
    ∃ entries, Sample.strkey.scAttributionMap Sample.kinds = .ok entries ∧
      Sample.strkey.Canonical Sample.kinds entries := by
  refine (scAttributionMap_canonical_iff Sample.strkey Sample.kinds ?_).2 ?_
  · exact List.forall_mem_cons.2 ⟨⟨_, Sample.parse_contractText⟩,
      List.forall_mem_singleton.2 ⟨_, Sample.parse_figureText⟩⟩
  · have hkeys : ∀ a, Sample.strkey.IsKey Sample.kinds a →
        a = .contract (BytesN.zero 32) ∨ a = .account Sample.figure := by
      rintro a ⟨e, he, ha⟩
      rcases List.mem_cons.1 he with rfl | he
      · exact Or.inl (Except.ok.inj (ha.symm.trans Sample.parse_contractText))
      · obtain rfl := List.mem_singleton.1 he
        exact Or.inr (Except.ok.inj (ha.symm.trans Sample.parse_figureText))
    intro a b ha hb hkind
    rcases hkeys a ha with rfl | rfl
    · rcases hkeys b hb with rfl | rfl
      · decide
      · exact absurd hkind.symm Bool.false_ne_true
    · rcases hkeys b hb with rfl | rfl
      · exact absurd hkind Bool.false_ne_true
      · decide

/-- Two accounts that are returned in the wrong order. -/
theorem accounts_out_of_order :
    Sample.strkey.Valid Sample.accounts ∧
      ¬∃ entries, Sample.strkey.scAttributionMap Sample.accounts = .ok entries ∧
        Sample.strkey.Canonical Sample.accounts entries := by
  have hvalid : Sample.strkey.Valid Sample.accounts :=
    List.forall_mem_cons.2 ⟨⟨_, Sample.parse_lettersText⟩,
      List.forall_mem_singleton.2 ⟨_, Sample.parse_figureText⟩⟩
  refine ⟨hvalid, fun h ↦ ?_⟩
  have hordered := (Strkey.canonical_iff_ordered hvalid).1 h (.account Sample.letters)
    (.account Sample.figure) ⟨_, List.mem_cons_self, Sample.parse_lettersText⟩
    ⟨_, List.mem_cons_of_mem _ List.mem_cons_self, Sample.parse_figureText⟩
  -- the text with the figure comes first, the bytes of the letters do
  exact absurd (hordered.1.2 (by decide)) (by decide)

end Soroticket
