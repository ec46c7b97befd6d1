import Soroticket.Cloud.Merkle

/-!
# What a committed root binds

A receipt's leaf is the hash of its payload, a canonical JSON object, and the root over the leaves
is committed on the ledger. Here the hash is `sha256`, a parameter of which nothing is assumed but
that it has no collision among the strings a statement speaks of: those hashed to build the tree
(`treeInputs`), and those hashed by whoever folds a proof (`HashTree.walkInputs`).

Leaves and inner nodes are hashed without a tag, so both results need the payloads to be of another
length than the 64 bytes of a pair of hashes, and every payload is longer
(`ReceiptPayload.length_marshal`).

The root is the digest of a tree, built by the very functions that build the hashes, with `node` in
the place of `merkleParent` (`digest_receiptTree`). Its leaves are the payloads in order, so the two
theorems about trees in `Machine.HashTree` are theorems about lists of payloads.
-/

namespace Soroticket

open HashTree

/-! ### Payloads -/

/-- The payload of a signed receipt. -/
structure ReceiptPayload where
  version : ℤ
  network : Bytes
  contractID : Bytes
  campaignID : UInt64
  code : Bytes
  count : ℤ
  customerCommitment : Bytes
  orderCommitment : Bytes
  evidenceType : Bytes
  contextHash : Bytes
  policyVersion : Bytes
  timestamp : ℤ
  nonce : Bytes
  signer : Bytes

/-- The bytes of a text in ASCII. -/
@[irreducible] def ascii (text : String) : Bytes := text.toList.map fun c ↦ c.toNat.toUInt8

theorem length_ascii (text : String) : (ascii text).length = text.length := by
  rw [ascii, List.length_map, String.length_toList]

/-- A member of the JSON object whose empty value is left out. -/
def omitEmpty (quote : Bytes → Bytes) (key : String) (value : Bytes) : Bytes :=
  if value = [] then [] else ascii key ++ quote value

/-- `json.Marshal` of a payload; `quote` renders a string, with its escapes. -/
def ReceiptPayload.marshal (quote : Bytes → Bytes) (p : ReceiptPayload) : Bytes :=
  ascii "\x7b\"version\":" ++ ascii (toString p.version) ++
  omitEmpty quote ",\"network\":" p.network ++
  omitEmpty quote ",\"contract_id\":" p.contractID ++
  ascii ",\"campaign_id\":" ++ ascii (toString p.campaignID.toNat) ++
  ascii ",\"code\":" ++ quote p.code ++
  ascii ",\"count\":" ++ ascii (toString p.count) ++
  omitEmpty quote ",\"customer_commitment\":" p.customerCommitment ++
  omitEmpty quote ",\"order_commitment\":" p.orderCommitment ++
  omitEmpty quote ",\"evidence_type\":" p.evidenceType ++
  omitEmpty quote ",\"context_hash\":" p.contextHash ++
  omitEmpty quote ",\"policy_version\":" p.policyVersion ++
  ascii ",\"timestamp\":" ++ ascii (toString p.timestamp) ++
  ascii ",\"nonce\":" ++ quote p.nonce ++
  ascii ",\"signer\":" ++ quote p.signer ++ ascii "\x7d"

/-- **A payload is longer than a pair of hashes**: the names of the members that are always there
take more than 64 bytes. -/
theorem ReceiptPayload.length_marshal (quote : Bytes → Bytes) (p : ReceiptPayload) :
    64 < (p.marshal quote).length := by
  unfold marshal
  simp only [List.length_append, length_ascii, show "\x7b\"version\":".length = 11 from rfl,
    show ",\"campaign_id\":".length = 15 from rfl, show ",\"code\":".length = 8 from rfl,
    show ",\"count\":".length = 9 from rfl, show ",\"timestamp\":".length = 13 from rfl,
    show ",\"nonce\":".length = 9 from rfl, show ",\"signer\":".length = 10 from rfl]
  omega

/-- What an organization signs its receipts with. -/
structure Signer where
  address : Bytes
  sign : Bytes → Option Bytes

/-- A signed receipt, with the leaf that stands for it in the tree. -/
structure SignedReceipt where
  payload : Bytes
  leaf : BytesN 32
  signature : Bytes
  signer : Bytes

/-- The metadata an integrator declares about an event. -/
structure ReceiptEvidence where
  type : Bytes
  contextHash : Bytes
  policyVersion : Bytes

/-- What does not change while the service runs: the deployment its receipts name, the encoders, the
hash, and the keyed hash that makes a reference opaque. -/
structure Deployment where
  cloudNetwork : Bytes
  currentContractID : Bytes
  quote : Bytes → Bytes
  base64 : Bytes → Bytes
  sha256 : Bytes → BytesN 32
  refMac : Bytes → BytesN 32

/-- `signReceipt`: the payload of an event, signed, and its leaf. The organization's signer and a
fresh nonce can be missing, and signing can fail. -/
def signReceipt (d : Deployment) (receiptSigner : Option Signer) (randHex : Option Bytes)
    (campaignID : UInt64) (code : Bytes) (count : ℤ) (customerCommitment orderCommitment : Bytes)
    (timestamp : ℤ) (evidence : ReceiptEvidence) : Option SignedReceipt := do
  let signer ← receiptSigner
  let nonce ← randHex
  let payload := ReceiptPayload.marshal d.quote
    { version := 2
      network := d.cloudNetwork
      contractID := d.currentContractID
      campaignID
      code
      count
      customerCommitment
      orderCommitment
      evidenceType := evidence.type
      contextHash := evidence.contextHash
      policyVersion := evidence.policyVersion
      timestamp
      nonce
      signer := signer.address }
  let sig ← signer.sign payload
  return ⟨payload, d.sha256 payload, d.base64 sig, signer.address⟩

/-- **What is signed is no pair of hashes**, and the leaf is its hash. -/
theorem signReceipt_spec {d : Deployment} {receiptSigner : Option Signer} {randHex : Option Bytes}
    {campaignID : UInt64} {code : Bytes} {count : ℤ} {customerCommitment orderCommitment : Bytes}
    {timestamp : ℤ} {evidence : ReceiptEvidence} {r : SignedReceipt}
    (h : signReceipt d receiptSigner randHex campaignID code count customerCommitment
      orderCommitment timestamp evidence = some r) :
    64 < r.payload.length ∧ r.leaf = d.sha256 r.payload := by
  obtain ⟨signer, -, h⟩ := Option.bind_eq_some_iff.1 h
  obtain ⟨nonce, -, h⟩ := Option.bind_eq_some_iff.1 h
  obtain ⟨sig, -, h⟩ := Option.bind_eq_some_iff.1 h
  obtain rfl := Option.some.inj h
  exact ⟨ReceiptPayload.length_marshal _ _, rfl⟩

/-! ### The tree of a list of payloads -/

section Hash

variable (sha256 : Bytes → BytesN 32)

/-- `merkleParent`: the hash of two hashes, concatenated. -/
def merkleParent (left right : BytesN 32) : BytesN 32 := sha256 (left.bytes ++ right.bytes)

/-- The committed root of a list of payloads. -/
def receiptRoot (payloads : List Bytes) : BytesN 32 :=
  merkleRoot (.zero 32) (merkleParent sha256) (payloads.map sha256)

/-- What `merkleParent` hashes to build the level above a level. -/
def pairInputs : List (BytesN 32) → List Bytes
  | left :: right :: rest => (left.bytes ++ right.bytes) :: pairInputs rest
  | _ => []

/-- Everything hashed to commit a list of payloads: the payloads, and the pairs of every level. -/
def treeInputs (payloads : List Bytes) : List Bytes :=
  payloads ++ (merkleLevels (merkleParent sha256) (payloads.map sha256)).flatMap pairInputs

/-- The tree under the root. -/
def receiptTree (payloads : List Bytes) : HashTree :=
  merkleRoot (.leaf []) .node (payloads.map .leaf)

end Hash

/-! ### The levels commute with any homomorphism -/

section Map

variable {α β : Type} {f : α → β} {pa : α → α → α} {pb : β → β → β}

theorem nextLevel_map (hf : ∀ a b, f (pa a b) = pb (f a) (f b)) :
    ∀ level : List α, nextLevel pb (level.map f) = (nextLevel pa level).map f
  | a :: b :: rest => by
    rw [List.map_cons, List.map_cons, nextLevel, nextLevel_map hf rest, nextLevel, List.map_cons,
      hf]
  | [_] => rfl
  | [] => rfl

/-- The root of the images is the image of the root. -/
theorem merkleRoot_map (hf : ∀ a b, f (pa a b) = pb (f a) (f b)) (za : α) (zb : β) (level : List α)
    (hne : level ≠ []) : merkleRoot zb pb (level.map f) = f (merkleRoot za pa level) := by
  induction level, hne using level_induction pa with
  | hroot root => rw [merkleRoot_singleton, List.map_singleton, merkleRoot_singleton]
  | hlevel level h ih =>
    rw [merkleRoot_nextLevel pa za h, ← ih, ← nextLevel_map hf,
      merkleRoot_nextLevel pb zb (by rwa [List.length_map])]

end Map

/-! ### The tree's leaves and inputs -/

section Tree

variable {sha256 : Bytes → BytesN 32}

/-- **The committed root is the digest of the tree.** -/
theorem digest_receiptTree {payloads : List Bytes} (hne : payloads ≠ []) :
    (receiptTree payloads).digest sha256 = receiptRoot sha256 payloads := by
  have hmap : merkleRoot (.zero 32) (merkleParent sha256)
      ((payloads.map HashTree.leaf).map (digest sha256)) = (receiptTree payloads).digest sha256 :=
    merkleRoot_map (fun _ _ ↦ rfl) _ _ _ (by simpa using hne)
  rw [← hmap, receiptRoot, List.map_map]
  rfl

theorem leaves_nextLevel : ∀ level : List HashTree,
    (nextLevel .node level).flatMap leaves = level.flatMap leaves
  | a :: b :: rest => by
    rw [nextLevel, List.flatMap_cons, leaves_nextLevel rest, List.flatMap_cons, List.flatMap_cons,
      leaves, List.append_assoc]
  | [_] => rfl
  | [] => rfl

/-- The leaves of the root are the leaves of the level, in order. -/
theorem leaves_merkleRoot (level : List HashTree) (hne : level ≠ []) :
    (merkleRoot (.leaf []) .node level).leaves = level.flatMap leaves := by
  induction level, hne using level_induction HashTree.node with
  | hroot root => rw [merkleRoot_singleton, List.flatMap_singleton]
  | hlevel level h ih => rw [merkleRoot_nextLevel _ _ h, ih, leaves_nextLevel]

/-- The leaves of the tree are the payloads, in order. -/
theorem leaves_receiptTree {payloads : List Bytes} (hne : payloads ≠ []) :
    (receiptTree payloads).leaves = payloads := by
  rw [receiptTree, leaves_merkleRoot _ (by simpa using hne)]
  induction payloads with
  | nil => rfl
  | cons p rest ih =>
    rcases rest with - | ⟨q, rest⟩
    · rfl
    · rw [List.map_cons, List.flatMap_cons, ih (List.cons_ne_nil q rest)]
      rfl

/-- What one level adds is what its pairs hash. -/
theorem inputs_nextLevel {x : Bytes} : ∀ level : List HashTree,
    x ∈ (nextLevel .node level).flatMap (inputs sha256) →
      x ∈ level.flatMap (inputs sha256) ∨ x ∈ pairInputs (level.map (digest sha256))
  | a :: b :: rest, hx => by
    rw [nextLevel, List.flatMap_cons, List.mem_append] at hx
    rw [List.flatMap_cons, List.flatMap_cons, List.mem_append, List.mem_append]
    rcases hx with hpair | hrest
    · rcases List.mem_cons.1 hpair with rfl | hchild
      · exact Or.inr List.mem_cons_self
      · rcases List.mem_append.1 hchild with ha | hb
        · exact Or.inl (Or.inl ha)
        · exact Or.inl (Or.inr (Or.inl hb))
    · rcases inputs_nextLevel rest hrest with hold | hnew
      · exact Or.inl (Or.inr (Or.inr hold))
      · exact Or.inr (List.mem_cons_of_mem _ hnew)
  | [_], hx => Or.inl hx
  | [], hx => Or.inl hx

/-- What the root hashes is hashed below the level, or by the levels from it on. -/
theorem inputs_merkleRoot {x : Bytes} (level : List HashTree) (hne : level ≠ []) :
    x ∈ (merkleRoot (.leaf []) .node level).inputs sha256 →
      x ∈ level.flatMap (inputs sha256) ∨
        x ∈ (levelsFrom (merkleParent sha256) (level.map (digest sha256))).flatMap pairInputs := by
  induction level, hne using level_induction HashTree.node with
  | hroot root =>
    intro hx
    rw [merkleRoot_singleton] at hx
    exact Or.inl (by simpa using hx)
  | hlevel level h ih =>
    intro hx
    have hmap : nextLevel (merkleParent sha256) (level.map (digest sha256)) =
        (nextLevel .node level).map (digest sha256) := nextLevel_map (fun a b ↦ rfl) level
    rw [merkleRoot_nextLevel _ _ h] at hx
    rw [levelsFrom_of_one_lt _ (by rwa [List.length_map]), List.flatMap_cons, List.mem_append, hmap]
    rcases ih hx with hbelow | habove
    · rcases inputs_nextLevel level hbelow with hold | hpair
      · exact Or.inl hold
      · exact Or.inr (Or.inl hpair)
    · exact Or.inr (Or.inr habove)

/-- Everything the tree hashes is hashed to commit the payloads. -/
theorem inputs_receiptTree {payloads : List Bytes} (hne : payloads ≠ []) {x : Bytes}
    (hx : x ∈ (receiptTree payloads).inputs sha256) : x ∈ treeInputs sha256 payloads := by
  have hne' : payloads.map HashTree.leaf ≠ [] := by simpa using hne
  have hne'' : payloads.map sha256 ≠ [] := by simpa using hne
  rw [treeInputs, List.mem_append, merkleLevels, if_neg hne'']
  rcases inputs_merkleRoot _ hne' hx with hleaf | hlevel
  · refine Or.inl ?_
    obtain ⟨t, ht, hx⟩ := List.mem_flatMap.1 hleaf
    obtain ⟨p, hp, rfl⟩ := List.mem_map.1 ht
    exact (List.mem_singleton.1 hx) ▸ hp
  · rw [List.map_map] at hlevel
    exact Or.inr hlevel

/-- Payloads that are no pairs make a tree of them. -/
theorem plain_receiptTree {payloads : List Bytes} (hne : payloads ≠ [])
    (hlen : ∀ p ∈ payloads, p.length ≠ 64) : (receiptTree payloads).Plain 32 := by
  rw [Plain, leaves_receiptTree hne]
  exact hlen

end Tree

/-! ### A tree of two payloads -/

namespace Sample

/-- The SHA-256 digest of the byte `a`. -/
def digestA : BytesN 32 :=
  ⟨[202, 151, 129, 18, 202, 27, 189, 202, 250, 194, 49, 179, 154, 35, 220, 77,
    167, 134, 239, 248, 20, 124, 78, 114, 185, 128, 119, 133, 175, 238, 72, 187], rfl⟩

/-- The SHA-256 digest of the byte `b`. -/
def digestB : BytesN 32 :=
  ⟨[62, 35, 232, 22, 0, 57, 89, 74, 51, 137, 79, 101, 100, 225, 177, 52,
    139, 189, 122, 0, 136, 212, 44, 74, 203, 115, 238, 174, 213, 156, 0, 157], rfl⟩

/-- The SHA-256 digest of the two digests, concatenated. -/
def digestPair : BytesN 32 :=
  ⟨[229, 160, 31, 238, 20, 224, 237, 92, 72, 113, 79, 34, 24, 15, 37, 173,
    131, 101, 181, 63, 151, 121, 247, 157, 196, 163, 215, 233, 57, 99, 249, 74], rfl⟩

/-- SHA-256 on the three strings hashed to commit the payloads `a` and `b`. -/
def sha256 (x : Bytes) : BytesN 32 :=
  if x = [97] then digestA
  else if x = [98] then digestB
  else if x = digestA.bytes ++ digestB.bytes then digestPair
  else .zero 32

/-- What is hashed to commit the two payloads. -/
theorem treeInputs_pair :
    treeInputs sha256 [[97], [98]] = [[97], [98], digestA.bytes ++ digestB.bytes] := by
  rw [treeInputs, merkleLevels, if_neg (by decide), levelsFrom_of_one_lt _ (by decide),
    levelsFrom_of_le_one _ (by decide)]
  decide

/-- The root over the two payloads. -/
theorem receiptRoot_pair : receiptRoot sha256 [[97], [98]] = digestPair := by
  rw [receiptRoot, merkleRoot_nextLevel _ _ (by decide)]
  show merkleRoot _ _ [_] = _
  rw [merkleRoot_singleton]
  decide

/-- No two of them collide. -/
theorem injOn_pair : Set.InjOn sha256 {x | x ∈ treeInputs sha256 [[97], [98]]} := by
  rw [treeInputs_pair]
  have hall : ∀ x ∈ [[97], [98], digestA.bytes ++ digestB.bytes],
      ∀ y ∈ [[97], [98], digestA.bytes ++ digestB.bytes], sha256 x = sha256 y → x = y := by decide
  exact fun x hx y hy heq ↦ hall x hx y hy heq

end Sample

section Results

variable {sha256 : Bytes → BytesN 32}

/-! ### Soundness -/

/-- A candidate that leads to the committed root is one of the payloads. -/
theorem mem_of_walk_eq_receiptRoot {payloads : List Bytes} (hne : payloads ≠ [])
    (hlen : ∀ p ∈ payloads, p.length ≠ 64) {candidate : Bytes} (hcand : candidate.length ≠ 64)
    (steps : List (MerkleStep (BytesN 32)))
    (hinj : Set.InjOn sha256 {x | x ∈ treeInputs sha256 payloads ∨ x = candidate ∨
      x ∈ walkInputs sha256 (sha256 candidate) steps})
    (hwalk : walk (merkleParent sha256) (sha256 candidate) steps = receiptRoot sha256 payloads) :
    candidate ∈ payloads := by
  rw [← leaves_receiptTree hne]
  refine mem_leaves_of_walk (H := sha256) hcand steps (hinj.mono ?_) (plain_receiptTree hne hlen) ?_
  · rintro x (hx | hx | hx)
    · exact Or.inr (Or.inl hx)
    · exact Or.inr (Or.inr hx)
    · exact Or.inl (inputs_receiptTree hne hx)
  · rw [digest_receiptTree hne, ← hwalk]
    rfl

/-- **Inclusion proofs are sound.** Where a list of steps, of any length and shape, leads from the
hash of a candidate to the committed root, the candidate is one of the payloads: for a hash with no
collision among the strings hashed to commit and to check, when neither a payload nor the candidate
is 64 bytes long. No receipt the service signs is. -/
theorem merkleProof_sound {payloads : List Bytes} (hne : payloads ≠ [])
    (hlen : ∀ p ∈ payloads, p.length ≠ 64) {candidate : Bytes} (hcand : candidate.length ≠ 64)
    (steps : List (MerkleStep (BytesN 32)))
    (hinj : Set.InjOn sha256 {x | x ∈ treeInputs sha256 payloads ∨ x = candidate ∨
      x ∈ walkInputs sha256 (sha256 candidate) steps})
    (hwalk : walk (merkleParent sha256) (sha256 candidate) steps = receiptRoot sha256 payloads) :
    candidate ∈ payloads ∧
    ∀ d signer nonce campaignID code count customerCommitment orderCommitment timestamp evidence r,
      signReceipt d signer nonce campaignID code count customerCommitment orderCommitment timestamp
        evidence = some r → r.payload.length ≠ 64 :=
  ⟨mem_of_walk_eq_receiptRoot hne hlen hcand steps hinj hwalk,
    fun _ _ _ _ _ _ _ _ _ _ _ hsign ↦ (signReceipt_spec hsign).1.ne'⟩

/-- The proof of the first of two payloads is the digest of the second, on the right. -/
theorem merkleProof_sound_pair :
    walk (merkleParent Sample.sha256) (Sample.sha256 [97]) [⟨.right, Sample.digestB⟩] =
        Sample.digestPair ∧
      [97] ∈ ([[97], [98]] : List Bytes) := by
  have hwalk : walk (merkleParent Sample.sha256) (Sample.sha256 [97]) [⟨.right, Sample.digestB⟩] =
      Sample.digestPair := by decide
  refine ⟨hwalk, (merkleProof_sound (by simp) (by decide) (by decide) [⟨.right, Sample.digestB⟩]
    (Sample.injOn_pair.mono ?_) (hwalk.trans Sample.receiptRoot_pair.symm)).1⟩
  rw [Sample.treeInputs_pair]
  rintro x (hx | rfl | hx)
  · exact hx
  · exact List.mem_cons_self
  · rw [show walkInputs Sample.sha256 (Sample.sha256 [97]) [⟨.right, Sample.digestB⟩] =
      [Sample.digestA.bytes ++ Sample.digestB.bytes] from by decide] at hx
    exact List.mem_cons_of_mem _ (List.mem_cons_of_mem _ hx)

/-! ### Binding -/

/-- **A committed root binds the payloads.** Two non-empty lists of payloads, of any lengths, with
the same root are the same list: for a hash with no collision among the strings hashed to commit
them, when no payload is 64 bytes long. -/
theorem receiptRoot_binding {payloads payloads' : List Bytes} (hne : payloads ≠ [])
    (hne' : payloads' ≠ []) (hlen : ∀ p ∈ payloads, p.length ≠ 64)
    (hlen' : ∀ p ∈ payloads', p.length ≠ 64)
    (hinj : Set.InjOn sha256
      {x | x ∈ treeInputs sha256 payloads ∨ x ∈ treeInputs sha256 payloads'})
    (hroot : receiptRoot sha256 payloads = receiptRoot sha256 payloads') :
    payloads = payloads' := by
  rw [← digest_receiptTree hne, ← digest_receiptTree hne'] at hroot
  have hsub : {x | x ∈ (receiptTree payloads).inputs sha256 ∨
      x ∈ (receiptTree payloads').inputs sha256} ⊆
        {x | x ∈ treeInputs sha256 payloads ∨ x ∈ treeInputs sha256 payloads'} :=
    fun x hx ↦ hx.imp (inputs_receiptTree hne) (inputs_receiptTree hne')
  have htree := eq_of_digest_eq (hinj.mono hsub) (plain_receiptTree hne hlen)
    (plain_receiptTree hne' hlen') hroot
  rw [← leaves_receiptTree hne, htree, leaves_receiptTree hne']

/-- Two payloads with the root of two payloads. -/
theorem receiptRoot_binding_pair :
    receiptRoot Sample.sha256 [[97], [98]] = Sample.digestPair ∧
      ([[97], [98]] : List Bytes) = [[97], [98]] := by
  refine ⟨Sample.receiptRoot_pair, receiptRoot_binding (by simp) (by simp) (by decide) (by decide)
    (Sample.injOn_pair.mono fun x hx ↦ hx.elim id id)
    (rfl : receiptRoot Sample.sha256 [[97], [98]] = receiptRoot Sample.sha256 [[97], [98]])⟩

end Results

end Soroticket
