import Mathlib.Tactic.Ring
import Soroticket.Sdk.Scval

/-!
# The values of the client

The Go client hands the contract values of a few kinds (`SdkValue.encode`), and turns what it gets
back into native ones (`native`). **What is encoded comes back** (`native_encode`): over a value by
its structure, where the one kind of number that is split in two is put together again
(`i128ToBig_split`) and the text of an address is the only one of its key.

A map comes back under the texts of its keys. The client writes it in an order of its own, so what
comes back is a permutation of what was written (`perm_texts`), and as a map the same.
-/

namespace Soroticket

/-! ### Values -/

/-- `xdr.ScAddress`: an address of the two kinds that are supported, or of another. -/
inductive ScAddress where
  | address (a : Address)
  | other (type : String)
  deriving DecidableEq

/-- `xdr.ScVal`. The pointers to a vector and to a map may be nil. -/
inductive ScVal where
  | void
  | bool (b : Bool)
  | u32 (n : UInt32)
  | i32 (n : Int32)
  | u64 (n : UInt64)
  | i64 (n : Int64)
  | timepoint (n : UInt64)
  | duration (n : UInt64)
  | u128 (hi lo : UInt64)
  | i128 (hi : Int64) (lo : UInt64)
  | string (s : Bytes)
  | symbol (s : Bytes)
  | bytes (b : Bytes)
  | address (a : ScAddress)
  | vec (items : Option (List ScVal))
  | map (entries : Option (List (ScVal × ScVal)))
  | other (type : String)

/-- What `native` returns. A string is its bytes, and a map has the entries its loop has made. -/
inductive Native where
  | nil
  | bool (b : Bool)
  | uint32 (n : UInt32)
  | int32 (n : Int32)
  | uint64 (n : UInt64)
  | int64 (n : Int64)
  | bigInt (n : ℤ)
  | string (s : Bytes)
  | bytes (b : Bytes)
  | slice (items : List Native)
  | map (entries : List (Bytes × Native))

/-- The bytes of a text. -/
def goString (text : String) : Bytes := text.toUTF8.data.toList

theorem goString_inj {text text' : String} (h : goString text = goString text') : text = text' :=
  String.toByteArray_inj.1 (ByteArray.ext (Array.toList_inj.1 h))

/-- Assign to a key of a map. -/
def putKey {β : Type} (key : Bytes) (v : β) : List (Bytes × β) → List (Bytes × β)
  | [] => [(key, v)]
  | e :: es => if e.1 = key then (key, v) :: es else e :: putKey key v es

/-- The `strkey` codec, with its encoder. -/
structure StrkeyCodec extends Strkey where
  encode : VersionByte → BytesN 32 → String
  encode_decode : ∀ {version addr key}, decode version addr = .ok key → encode version key = addr

/-- `fmt.Sprint`, as it is used for the keys of a map. -/
structure Sprint where
  text : Native → Bytes
  text_string : ∀ s, text (.string s) = s

/-! ### Encoders -/

/-- `strVec`. -/
def strVec (codes : List Bytes) : ScVal := .vec (some (codes.map .string))

/-- `minI128`. -/
def minI128 : ℤ := -2 ^ 127

/-- `maxI128`. -/
def maxI128 : ℤ := 2 ^ 127 - 1

/-- `scI128`. -/
def scI128 : Option ℤ → Except String ScVal
  | none => .error "i128 value out of range"
  | some v =>
    if v < minI128 ∨ maxI128 < v then .error "i128 value out of range"
    else
      let n : ℕ := (v % 2 ^ 128).toNat
      let lo : UInt64 := .ofNat (n &&& (2 ^ 64 - 1))
      let hi : UInt64 := .ofNat (n >>> 64)
      .ok (.i128 hi.toInt64 lo)

/-- `scAddress`. -/
def Strkey.scAddress (k : Strkey) (addr : String) : Except String ScVal :=
  (k.parseScAddress addr).map fun a ↦ .address (.address a)

/-- `scOptAddress`. -/
def Strkey.scOptAddress (k : Strkey) : Option String → Except String ScVal
  | none => .ok .void
  | some addr => k.scAddress addr

/-- `scAttributionMap`: the entries, as a value. -/
def Strkey.attributionVal (k : Strkey) (perAttribution : PerAttribution) : Except String ScVal :=
  (k.scAttributionMap perAttribution).map fun entries ↦
    .map (some (entries.map fun e ↦ (.address (.address e.1), .u32 e.2)))

/-! ### Decoders -/

/-- `u128ToBig`. -/
def u128ToBig (hi lo : UInt64) : ℤ := hi.toNat * 2 ^ 64 + lo.toNat

/-- `i128ToBig`. -/
def i128ToBig (hi : Int64) (lo : UInt64) : ℤ := hi.toInt * 2 ^ 64 + lo.toNat

/-- `addrToString`. -/
def StrkeyCodec.addrToString (k : StrkeyCodec) : ScAddress → Except String String
  | .address (.account key) => .ok (k.encode .accountID key)
  | .address (.contract id) => .ok (k.encode .contract id)
  | .other type => .error ("unsupported address type " ++ type)

section

variable (k : StrkeyCodec) (sprint : Sprint)

mutual

/-- `native`. -/
def native : ScVal → Except String Native
  | .void => .ok .nil
  | .bool b => .ok (.bool b)
  | .u32 n => .ok (.uint32 n)
  | .i32 n => .ok (.int32 n)
  | .u64 n => .ok (.uint64 n)
  | .i64 n => .ok (.int64 n)
  | .timepoint n => .ok (.uint64 n)
  | .duration n => .ok (.uint64 n)
  | .u128 hi lo => .ok (.bigInt (u128ToBig hi lo))
  | .i128 hi lo => .ok (.bigInt (i128ToBig hi lo))
  | .string s => .ok (.string s)
  | .symbol s => .ok (.string s)
  | .bytes b => .ok (.bytes b)
  | .address a => (k.addrToString a).map fun text ↦ .string (goString text)
  | .vec none => .ok (.slice [])
  | .vec (some items) => (nativeItems items).map .slice
  | .map none => .ok (.map [])
  | .map (some entries) => (nativeEntries [] entries).map .map
  | .other type => .error ("unsupported scval type " ++ type)

/-- The loop over a vector. -/
def nativeItems : List ScVal → Except String (List Native)
  | [] => .ok []
  | e :: es => do
    let n ← native e
    return n :: (← nativeItems es)

/-- The loop over a map. -/
def nativeEntries (out : List (Bytes × Native)) :
    List (ScVal × ScVal) → Except String (List (Bytes × Native))
  | [] => .ok out
  | (key, v) :: es => do
    let key ← native key
    let v ← native v
    nativeEntries (putKey (sprint.text key) v out) es

end

end

/-- `attributionFromMap`. -/
def attributionFromMap : Native → List (Bytes × UInt32)
  | .map entries => entries.foldl (fun out e ↦
      match e.2 with
      | .uint32 n => putKey e.1 n out
      | .uint64 n => putKey e.1 n.toUInt32 out
      | _ => out) []
  | _ => []

/-! ### What is encoded -/

/-- The values that the client encodes. -/
inductive SdkValue where
  | u64 (n : UInt64)
  | u32 (n : UInt32)
  | bool (b : Bool)
  | string (s : Bytes)
  | bytes (b : Bytes)
  | address (addr : String)
  | optAddress (addr : Option String)
  | i128 (n : Option ℤ)
  | vec (items : List SdkValue)

namespace SdkValue

section

variable (k : Strkey)

mutual

/-- The encoders. -/
def encode : SdkValue → Except String ScVal
  | u64 n => .ok (.u64 n)
  | u32 n => .ok (.u32 n)
  | bool b => .ok (.bool b)
  | string s => .ok (.string s)
  | bytes b => .ok (.bytes b)
  | address addr => k.scAddress addr
  | optAddress addr => k.scOptAddress addr
  | i128 n => scI128 n
  | vec items => (encodeItems items).map fun vs ↦ .vec (some vs)

/-- The items of a vector. -/
def encodeItems : List SdkValue → Except String (List ScVal)
  | [] => .ok []
  | e :: es => do
    let v ← encode e
    return v :: (← encodeItems es)

end

end

mutual

/-- The native value that it is. -/
def toNative : SdkValue → Native
  | u64 n => .uint64 n
  | u32 n => .uint32 n
  | bool b => .bool b
  | string s => .string s
  | bytes b => .bytes b
  | address addr => .string (goString addr)
  | optAddress none => .nil
  | optAddress (some addr) => .string (goString addr)
  | i128 none => .nil
  | i128 (some n) => .bigInt n
  | vec items => .slice (toNatives items)

/-- Those of the items. -/
def toNatives : List SdkValue → List Native
  | [] => []
  | e :: es => e.toNative :: toNatives es

end

end SdkValue

/-! ### The split of an integer -/

/-- The parts of an integer: what is written, and what it is put together from. -/
theorem scI128_eq_ok {v : ℤ} {sv : ScVal} : scI128 (some v) = .ok sv ↔
    (minI128 ≤ v ∧ v ≤ maxI128) ∧ sv = .i128 (UInt64.ofNat ((v % 2 ^ 128).toNat >>> 64)).toInt64
      (UInt64.ofNat ((v % 2 ^ 128).toNat &&& (2 ^ 64 - 1))) := by
  rw [scI128]
  split
  · rename_i hout
    constructor
    · intro h
      cases h
    · rintro ⟨hin, -⟩
      omega
  · rename_i hin
    rw [Except.ok.injEq]
    constructor
    · rintro rfl
      exact ⟨by omega, rfl⟩
    · rintro ⟨-, rfl⟩
      rfl

theorem toNat_hi (n : ℕ) (h : n < 2 ^ 128) : (UInt64.ofNat (n >>> 64)).toNat = n / 2 ^ 64 := by
  rw [Nat.shiftRight_eq_div_pow]
  exact UInt64.toNat_ofNat_of_lt' (Nat.div_lt_of_lt_mul h)

theorem toNat_lo (n : ℕ) : (UInt64.ofNat (n &&& (2 ^ 64 - 1))).toNat = n % 2 ^ 64 := by
  rw [Nat.and_two_pow_sub_one_eq_mod]
  exact UInt64.toNat_ofNat_of_lt' (Nat.mod_lt _ (by decide))

/-- The signed reading of a word. -/
theorem toInt_toInt64 (n : UInt64) :
    n.toInt64.toInt = if n.toNat < 2 ^ 63 then (n.toNat : ℤ) else n.toNat - 2 ^ 64 := by
  show n.toBitVec.toInt = _
  rw [BitVec.toInt_eq_toNat_cond]
  show (if 2 * n.toNat < 2 ^ 64 then (n.toNat : ℤ) else n.toNat - (2 ^ 64 : ℕ)) = _
  split
  · rw [if_pos (by omega)]
  · rw [if_neg (by omega)]
    rfl

/-- **An integer is put together again.** -/
theorem i128ToBig_split {v : ℤ} (h : minI128 ≤ v ∧ v ≤ maxI128) :
    i128ToBig (UInt64.ofNat ((v % 2 ^ 128).toNat >>> 64)).toInt64
      (UInt64.ofNat ((v % 2 ^ 128).toNat &&& (2 ^ 64 - 1))) = v := by
  have hlt : (v % 2 ^ 128).toNat < 2 ^ 128 := by omega
  rw [i128ToBig, toInt_toInt64, toNat_hi _ hlt, toNat_lo]
  rw [minI128, maxI128] at h
  split
  · omega
  · omega

/-- The parts are those of its two's complement. -/
theorem append_split (v : ℤ) :
    (UInt64.ofNat ((v % 2 ^ 128).toNat >>> 64)).toInt64.toBitVec ++
      (UInt64.ofNat ((v % 2 ^ 128).toNat &&& (2 ^ 64 - 1))).toBitVec = BitVec.ofInt 128 v := by
  have hlt : (v % 2 ^ 128).toNat < 2 ^ 128 := by omega
  refine BitVec.eq_of_toNat_eq ?_
  rw [BitVec.toNat_append, BitVec.toNat_ofInt, UInt64.toBitVec_toInt64]
  show (UInt64.ofNat _).toNat <<< 64 ||| (UInt64.ofNat _).toNat = _
  rw [toNat_hi _ hlt, toNat_lo, ← Nat.shiftLeft_add_eq_or_of_lt (Nat.mod_lt _ (by decide)),
    Nat.shiftLeft_eq]
  exact Nat.div_add_mod' _ _

/-! ### What comes back -/

theorem Except.bind_eq_ok {ε α β : Type} {x : Except ε α} {f : α → Except ε β} {b : β} :
    (x >>= f) = .ok b ↔ ∃ a, x = .ok a ∧ f a = .ok b := by
  cases x with
  | error e => simp [bind, Except.bind]
  | ok a => simp [bind, Except.bind]

/-- The text of an address. -/
def StrkeyCodec.text (k : StrkeyCodec) : Address → String
  | .account key => k.encode .accountID key
  | .contract id => k.encode .contract id

section

variable {k : StrkeyCodec} {sprint : Sprint}

theorem native_address (a : Address) :
    native k sprint (.address (.address a)) = .ok (.string (goString (k.text a))) := by
  cases a with
  | account key => rfl
  | contract id => rfl

/-- What is parsed as an address is its text. -/
theorem text_of_parse {addr : String} {a : Address} (h : k.parseScAddress addr = .ok a) :
    k.text a = addr := by
  unfold Strkey.parseScAddress at h
  split at h
  · obtain ⟨id, hid, rfl⟩ := Except.map_eq_ok.1 h
    exact k.encode_decode hid
  · obtain ⟨key, hkey, rfl⟩ := Except.map_eq_ok.1 h
    exact k.encode_decode hkey

/-- An address comes back as its text. -/
theorem native_scAddress {addr : String} {sv : ScVal} (h : k.scAddress addr = .ok sv) :
    native k sprint sv = .ok (.string (goString addr)) := by
  obtain ⟨a, ha, rfl⟩ := Except.map_eq_ok.1 h
  rw [native_address, text_of_parse ha]

mutual

/-- **What is encoded comes back**, value by value. -/
theorem native_encode : ∀ (v : SdkValue) {sv : ScVal}, v.encode k.toStrkey = .ok sv →
    native k sprint sv = .ok v.toNative
  | .u64 n, _, h => by
    obtain rfl := Except.ok.inj h
    rfl
  | .u32 n, _, h => by
    obtain rfl := Except.ok.inj h
    rfl
  | .bool b, _, h => by
    obtain rfl := Except.ok.inj h
    rfl
  | .string s, _, h => by
    obtain rfl := Except.ok.inj h
    rfl
  | .bytes b, _, h => by
    obtain rfl := Except.ok.inj h
    rfl
  | .address addr, _, h => native_scAddress h
  | .optAddress none, _, h => by
    obtain rfl := Except.ok.inj h
    rfl
  | .optAddress (some addr), _, h => native_scAddress h
  | .i128 none, _, h => by cases h
  | .i128 (some n), _, h => by
    obtain ⟨hin, rfl⟩ := scI128_eq_ok.1 h
    exact congrArg (fun z ↦ Except.ok (Native.bigInt z)) (i128ToBig_split hin)
  | .vec items, _, h => by
    obtain ⟨vs, hvs, rfl⟩ := Except.map_eq_ok.1 h
    exact Except.map_eq_ok.2 ⟨_, nativeItems_encodeItems items hvs, rfl⟩

/-- And item by item. -/
theorem nativeItems_encodeItems : ∀ (items : List SdkValue) {vs : List ScVal},
    SdkValue.encodeItems k.toStrkey items = .ok vs →
      nativeItems k sprint vs = .ok (SdkValue.toNatives items)
  | [], _, h => by
    obtain rfl := Except.ok.inj h
    rfl
  | e :: es, _, h => by
    rw [SdkValue.encodeItems] at h
    obtain ⟨v, hv, h⟩ := Except.bind_eq_ok.1 h
    obtain ⟨vs, hvs, h⟩ := Except.bind_eq_ok.1 h
    obtain rfl := Except.ok.inj h
    rw [nativeItems, native_encode e hv, nativeItems_encodeItems es hvs]
    rfl

end

/-- `strVec` writes a vector of strings. -/
theorem encode_strings (k : Strkey) (codes : List Bytes) :
    (SdkValue.vec (codes.map .string)).encode k = .ok (strVec codes) := by
  refine Except.map_eq_ok.2 ⟨codes.map .string, ?_, rfl⟩
  induction codes with
  | nil => rfl
  | cons s codes ih =>
    rw [List.map_cons, SdkValue.encodeItems, ih]
    rfl

/-! ### Maps -/

section

variable {β : Type}

theorem putKey_of_notMem {key : Bytes} {out : List (Bytes × β)} (h : key ∉ out.map Prod.fst)
    (v : β) : putKey key v out = out ++ [(key, v)] := by
  induction out with
  | nil => rfl
  | cons e out ih =>
    rw [List.map_cons, List.mem_cons, not_or] at h
    rw [putKey, if_neg (Ne.symm h.1), ih h.2, List.cons_append]

/-- A loop that assigns to keys that differ leaves all it has assigned. -/
theorem foldl_putKey {es out : List (Bytes × β)} (h : ((out ++ es).map Prod.fst).Nodup) :
    es.foldl (fun out e ↦ putKey e.1 e.2 out) out = out ++ es := by
  induction es generalizing out with
  | nil => exact (List.append_nil out).symm
  | cons e es ih =>
    have hnew : e.1 ∉ out.map Prod.fst := by
      rw [List.map_append, List.nodup_append] at h
      exact fun hmem ↦ h.2.2 e.1 hmem e.1 (List.mem_map_of_mem List.mem_cons_self) rfl
    have hsplit : out ++ e :: es = out ++ [(e.1, e.2)] ++ es := by
      rw [List.append_assoc]
      rfl
    rw [hsplit] at h ⊢
    rw [List.foldl_cons, putKey_of_notMem hnew, ih h]

end

/-- The loop over a map from addresses to counts. -/
theorem nativeEntries_eq (es : List (Address × UInt32)) (out : List (Bytes × Native)) :
    nativeEntries k sprint out (es.map fun e ↦ (.address (.address e.1), .u32 e.2)) =
      .ok ((es.map fun e ↦ (goString (k.text e.1), Native.uint32 e.2)).foldl
        (fun out e ↦ putKey e.1 e.2 out) out) := by
  induction es generalizing out with
  | nil => rfl
  | cons e es ih =>
    rw [List.map_cons, nativeEntries, native_address]
    show nativeEntries k sprint (putKey (sprint.text (.string _)) (.uint32 e.2) out) _ = _
    rw [sprint.text_string, ih]
    rfl

/-- The texts of the keys that the client collects are those of the map. -/
theorem texts_of_pairs {entries : List (String × UInt32)} {pairs : List Kv}
    (h : entries.mapM k.kv = .ok pairs) : pairs.map (fun p ↦ (k.text p.key, p.val)) = entries := by
  induction entries generalizing pairs with
  | nil =>
    obtain rfl := Except.ok.inj h
    rfl
  | cons e entries ih =>
    rw [List.mapM_cons] at h
    obtain ⟨p, hp, h⟩ := Except.bind_eq_ok.1 h
    obtain ⟨rest, hrest, h⟩ := Except.bind_eq_ok.1 h
    obtain rfl := Except.ok.inj h
    obtain ⟨hparse, -, hval⟩ := Strkey.kv_eq_ok hp
    rw [List.map_cons, ih hrest, text_of_parse hparse, hval]

/-- **What the client writes of a map** is a permutation of it. -/
theorem perm_texts {m : PerAttribution} {es : List (Address × UInt32)}
    (h : k.scAttributionMap m = .ok es) :
    (es.map fun e ↦ (k.text e.1, e.2)).Perm m.entries := by
  obtain ⟨pairs, hpairs, hes⟩ := Except.bind_eq_ok.1 h
  obtain rfl := Except.ok.inj hes
  rw [List.map_map]
  exact ((List.mergeSort_perm pairs Kv.le).map _).trans (List.Perm.of_eq (texts_of_pairs hpairs))

/-- A map from addresses to counts comes back. -/
theorem attributionFromMap_native (sprint : Sprint) {m : PerAttribution}
    {es : List (Address × UInt32)} (h : k.scAttributionMap m = .ok es) :
    ∃ n, native k sprint (.map (some (es.map fun e ↦ (.address (.address e.1), .u32 e.2)))) =
        .ok n ∧
      (attributionFromMap n).Perm (m.entries.map fun e ↦ (goString e.1, e.2)) := by
  have hperm : (es.map fun e ↦ (goString (k.text e.1), e.2)).Perm
      (m.entries.map fun e ↦ (goString e.1, e.2)) := by
    have hmap := (perm_texts h).map fun e ↦ (goString e.1, e.2)
    rwa [List.map_map] at hmap
  have hnodup : ((es.map fun e ↦ (goString (k.text e.1), e.2)).map Prod.fst).Nodup := by
    rw [(hperm.map Prod.fst).nodup_iff, List.map_map]
    refine List.pairwise_map.2 ((List.pairwise_map.1 m.nodup).imp fun hne heq ↦ hne ?_)
    exact goString_inj heq
  rw [List.map_map] at hnodup
  refine ⟨.map (es.map fun e ↦ (goString (k.text e.1), Native.uint32 e.2)), ?_, ?_⟩
  · refine Except.map_eq_ok.2 ⟨_, nativeEntries_eq es [], congrArg _ ?_⟩
    refine foldl_putKey ?_
    rw [List.nil_append, List.map_map]
    exact hnodup
  · have hloop : attributionFromMap
        (.map (es.map fun e ↦ (goString (k.text e.1), Native.uint32 e.2))) =
          es.map fun e ↦ (goString (k.text e.1), e.2) := by
      rw [attributionFromMap, List.foldl_map, ← List.nil_append (es.map _), ← foldl_putKey,
        List.foldl_map]
      rw [List.nil_append, List.map_map]
      exact hnodup
    rw [hloop]
    exact hperm

end

/-- **Values survive the trip.** -/
theorem sdk_values_survive (k : StrkeyCodec) (sprint : Sprint) :
    (∀ (v : SdkValue) sv, v.encode k.toStrkey = .ok sv → native k sprint sv = .ok v.toNative) ∧
    (∀ v : ℤ, minI128 ≤ v → v ≤ maxI128 → ∃ hi lo, scI128 (some v) = .ok (.i128 hi lo) ∧
      hi.toBitVec ++ lo.toBitVec = BitVec.ofInt 128 v) ∧
    (∀ v : ℤ, ¬(minI128 ≤ v ∧ v ≤ maxI128) →
      scI128 (some v) = .error "i128 value out of range") ∧
    (∀ (v v' : ℤ) sv, scI128 (some v) = .ok sv → scI128 (some v') = .ok sv → v = v') ∧
    ∀ m : PerAttribution, k.Valid m → ∃ sv n, k.attributionVal m = .ok sv ∧
      native k sprint sv = .ok n ∧
        (attributionFromMap n).Perm (m.entries.map fun e ↦ (goString e.1, e.2)) := by
  refine ⟨fun v sv h ↦ native_encode v h, fun v hlow hhigh ↦ ?_, fun v hout ↦ ?_,
    fun v v' sv h h' ↦ ?_, fun m hvalid ↦ ?_⟩
  · exact ⟨_, _, scI128_eq_ok.2 ⟨⟨hlow, hhigh⟩, rfl⟩, append_split v⟩
  · rw [scI128]
    exact if_pos (by omega)
  · obtain ⟨hin, rfl⟩ := scI128_eq_ok.1 h
    obtain ⟨hin', heq⟩ := scI128_eq_ok.1 h'
    obtain ⟨hhi, hlo⟩ := ScVal.i128.inj heq
    rw [← i128ToBig_split hin, hhi, hlo, i128ToBig_split hin']
  · obtain ⟨pairs, hpairs, -, -⟩ := Strkey.exists_pairs m.nodup hvalid
    have hmap : k.scAttributionMap m =
        .ok ((pairs.mergeSort Kv.le).map fun p ↦ (p.key, p.val)) := by
      rw [Strkey.scAttributionMap, hpairs]
      rfl
    obtain ⟨n, hn, hperm⟩ := attributionFromMap_native sprint hmap
    exact ⟨_, n, Except.map_eq_ok.2 ⟨_, hmap, rfl⟩, hn, hperm⟩

namespace Sample

/-- The three texts, by their keys. -/
def encodeKey : VersionByte → BytesN 32 → String
  | .accountID, key => if key = letters then lettersText else figureText
  | .contract, _ => contractText

theorem encode_decode_strkey {version : VersionByte} {addr : String} {key : BytesN 32}
    (h : strkey.decode version addr = .ok key) : encodeKey version key = addr := by
  have hne : figure ≠ letters := by decide
  cases version with
  | accountID =>
    simp only [strkey] at h
    split at h
    · obtain rfl := Except.ok.inj h
      rw [encodeKey, if_pos rfl]
      exact (‹addr = lettersText›).symm
    · split at h
      · obtain rfl := Except.ok.inj h
        rw [encodeKey, if_neg hne]
        exact (‹addr = figureText›).symm
      · cases h
  | contract =>
    simp only [strkey] at h
    split at h
    · exact (‹addr = contractText›).symm
    · cases h

/-- The codec at the three texts, with its encoder. -/
def codec : StrkeyCodec where
  toStrkey := strkey
  encode := encodeKey
  encode_decode := encode_decode_strkey

/-- The text of a string, and no other. -/
def printed : Native → Bytes
  | .string s => s
  | _ => []

theorem printed_string (s : Bytes) : printed (.string s) = s := rfl

def sprint : Sprint := ⟨printed, printed_string⟩

/-- An amount below zero, an address and the lack of one. -/
def values : SdkValue :=
  .vec [.i128 (some (-1)), .optAddress (some contractText), .optAddress none]

/-- The same as the host has it. -/
def scValues : ScVal :=
  .vec (some [.i128 (-1) 0xffffffffffffffff,
    .address (.address (.contract (BytesN.zero 32))), .void])

theorem encode_values : values.encode strkey = .ok scValues := by
  have hamount : scI128 (some (-1)) = .ok (.i128 (-1) 0xffffffffffffffff) :=
    scI128_eq_ok.2 ⟨by decide, congrArg₂ ScVal.i128 (by decide +kernel) (by decide +kernel)⟩
  have haddr : strkey.scAddress contractText =
      .ok (.address (.address (.contract (BytesN.zero 32)))) := by
    rw [Strkey.scAddress, parse_contractText]
    rfl
  simp only [values, SdkValue.encode, SdkValue.encodeItems, Strkey.scOptAddress, hamount, haddr]
  rfl

end Sample

theorem sdk_values_survive_sample :
    native Sample.codec Sample.sprint Sample.scValues = .ok Sample.values.toNative ∧
      ∀ codes : List Bytes, native Sample.codec Sample.sprint (strVec codes) =
        .ok (SdkValue.vec (codes.map .string)).toNative :=
  have hsurvive := (sdk_values_survive Sample.codec Sample.sprint).1
  ⟨hsurvive Sample.values _ Sample.encode_values, fun codes ↦ hsurvive _ _ (encode_strings _ codes)⟩

end Soroticket
