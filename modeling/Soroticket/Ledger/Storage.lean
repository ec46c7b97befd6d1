import Mathlib.Logic.Function.Basic
import Soroticket.Ledger.Types
import Soroticket.Machine.Transaction

/-!
# The contract's storage and its host

`DataKey` is the contract's key type and `DataKey.Value` the type stored under each key. The stored
values are one finite-support map for each kind of key (`Storage`), read and written through the key
as the source does: `get`, `set` and `remove` by a `DataKey` unfold, by `rfl`, to the map of that
kind, so a proof about one operation works on plain functions and its frame is the record update.

`ContractState` adds what the host keeps beside the values: the ledger until which each entry lives
and the events published so far. A value never depends on either, and each of the lemmas below says
which of the three a host operation touches.

An invocation sees an `Env`: the ledger's timestamp and sequence number, the addresses whose
authorization it carries, and the contract's own address. `require_auth` traps for every other
address.
-/

namespace Soroticket

/-- The keys of persistent storage. -/
inductive DataKey where
  | campaign (id : UInt64)
  | token (id : UInt64)
  | codeIndex (campaignId : UInt64) (code : Bytes)
  | delegate (campaignId : UInt64) (who : Address)
  | ownerCount (owner : Address)
  | ownerCampaign (owner : Address) (slot : UInt64)
  | campaignOwnerSlot (campaignId : UInt64)
  | shared (campaignId : UInt64) (code : Bytes)
  | tally (campaignId : UInt64) (code : Bytes) (period : UInt64)
  | settled (campaignId : UInt64) (code : Bytes) (period : UInt64)
  deriving DecidableEq

/-- What is stored under a key. -/
abbrev DataKey.Value : DataKey → Type
  | campaign _ => Campaign
  | token _ => CouponToken
  | codeIndex _ _ => UInt64
  | delegate _ _ => Bool
  | ownerCount _ => UInt64
  | ownerCampaign _ _ => UInt64
  | campaignOwnerSlot _ => UInt64
  | shared _ _ => SharedCode
  | tally _ _ _ => TallyCommitment
  | settled _ _ _ => Bool

/-- The stored values: the two counters of the instance entry, and the persistent entries by kind
of key. -/
structure Storage where
  /-- `camp_ctr`, the number of campaigns created. -/
  campCtr : Option UInt64
  /-- `tok_ctr`, the number of coupons issued. -/
  tokCtr : Option UInt64
  campaign : UInt64 → Option Campaign
  token : UInt64 → Option CouponToken
  codeIndex : UInt64 × Bytes → Option UInt64
  delegate : UInt64 × Address → Option Bool
  ownerCount : Address → Option UInt64
  ownerCampaign : Address × UInt64 → Option UInt64
  campaignOwnerSlot : UInt64 → Option UInt64
  shared : UInt64 × Bytes → Option SharedCode
  tally : UInt64 × Bytes × UInt64 → Option TallyCommitment
  settled : UInt64 × Bytes × UInt64 → Option Bool

namespace Storage

/-- The storage of a contract just deployed. -/
def empty : Storage where
  campCtr := none
  tokCtr := none
  campaign := fun _ ↦ none
  token := fun _ ↦ none
  codeIndex := fun _ ↦ none
  delegate := fun _ ↦ none
  ownerCount := fun _ ↦ none
  ownerCampaign := fun _ ↦ none
  campaignOwnerSlot := fun _ ↦ none
  shared := fun _ ↦ none
  tally := fun _ ↦ none
  settled := fun _ ↦ none

/-- The value stored under a key. -/
def get (s : Storage) : (k : DataKey) → Option k.Value
  | .campaign id => s.campaign id
  | .token id => s.token id
  | .codeIndex c code => s.codeIndex (c, code)
  | .delegate c who => s.delegate (c, who)
  | .ownerCount owner => s.ownerCount owner
  | .ownerCampaign owner slot => s.ownerCampaign (owner, slot)
  | .campaignOwnerSlot c => s.campaignOwnerSlot c
  | .shared c code => s.shared (c, code)
  | .tally c code p => s.tally (c, code, p)
  | .settled c code p => s.settled (c, code, p)

/-- Put `v` under a key, or take the key away. -/
def write (s : Storage) : (k : DataKey) → Option k.Value → Storage
  | .campaign id, v => { s with campaign := Function.update s.campaign id v }
  | .token id, v => { s with token := Function.update s.token id v }
  | .codeIndex c code, v => { s with codeIndex := Function.update s.codeIndex (c, code) v }
  | .delegate c who, v => { s with delegate := Function.update s.delegate (c, who) v }
  | .ownerCount owner, v => { s with ownerCount := Function.update s.ownerCount owner v }
  | .ownerCampaign owner slot, v =>
    { s with ownerCampaign := Function.update s.ownerCampaign (owner, slot) v }
  | .campaignOwnerSlot c, v =>
    { s with campaignOwnerSlot := Function.update s.campaignOwnerSlot c v }
  | .shared c code, v => { s with shared := Function.update s.shared (c, code) v }
  | .tally c code p, v => { s with tally := Function.update s.tally (c, code, p) v }
  | .settled c code p, v => { s with settled := Function.update s.settled (c, code, p) v }

@[simp] theorem get_write_self (s : Storage) (k : DataKey) (v : Option k.Value) :
    (s.write k v).get k = v := by
  cases k <;> simp [write, get]

/-- A write touches its own key only. -/
@[simp] theorem get_write_of_ne (s : Storage) {k k' : DataKey} (h : k' ≠ k) (v : Option k.Value) :
    (s.write k v).get k' = s.get k' := by
  cases k <;> cases k' <;> simp_all [write, get]

/-- A key that differs after a write is the key written, or differed before. -/
theorem eq_or_ne_of_write {s s₀ : Storage} {k k' : DataKey} {v : Option k.Value}
    (h : (s.write k v).get k' ≠ s₀.get k') : k' = k ∨ s.get k' ≠ s₀.get k' := by
  rcases eq_or_ne k' k with hk | hk
  · exact Or.inl hk
  · rw [get_write_of_ne s hk] at h
    exact Or.inr h

end Storage

/-- What an invocation sees of the ledger it runs in. -/
structure Env where
  /-- Close time of the ledger, in unix seconds. -/
  timestamp : UInt64
  /-- Sequence number of the ledger. -/
  sequence : UInt32
  /-- The addresses that authorized this invocation. -/
  auths : List Address
  /-- The contract's own address. -/
  currentContract : Address
  /-- Lifetime, in ledgers, that the network gives a new persistent entry. -/
  minPersistentTtl : ℕ

/-- The contract's state: the stored values, their lifetimes, and the events published. -/
structure ContractState where
  /-- The stored values. -/
  storage : Storage
  /-- The ledger until which each persistent entry lives. -/
  liveUntil : DataKey → ℕ
  /-- The ledger until which the instance entry, with its two counters, lives. -/
  instanceLiveUntil : ℕ
  /-- The events published so far, oldest first. -/
  events : List Event

namespace ContractState

/-- The contract just deployed, its instance entry living until the given ledger. -/
def deployed (instanceLiveUntil : ℕ) : ContractState where
  storage := Storage.empty
  liveUntil := fun _ ↦ 0
  instanceLiveUntil := instanceLiveUntil
  events := []

/-- Read the value under a key. -/
def get (s : ContractState) (k : DataKey) : Option k.Value := s.storage.get k

/-- Whether there is an entry under a key. -/
def has (s : ContractState) (k : DataKey) : Bool := (s.get k).isSome

/-- Write the value under a key. A new entry starts with the network's lifetime for new entries. -/
def set (s : ContractState) (env : Env) (k : DataKey) (v : k.Value) : ContractState :=
  { s with
    storage := s.storage.write k (some v)
    liveUntil := fun k' ↦ if k' = k ∧ s.has k = false then
      env.sequence.toNat + env.minPersistentTtl else s.liveUntil k' }

/-- Remove the entry under a key. -/
def remove (s : ContractState) (k : DataKey) : ContractState :=
  { s with storage := s.storage.write k none }

/-- An entry's lifetime after an extension: at least `extend` ledgers when fewer than `threshold`
remained. -/
def extended (env : Env) (liveUntil threshold extend : ℕ) : ℕ :=
  if liveUntil < env.sequence.toNat + threshold then max liveUntil (env.sequence.toNat + extend)
  else liveUntil

/-- The state after the lifetime of one entry is extended. -/
def raiseTtl (s : ContractState) (env : Env) (k : DataKey) (threshold extend : ℕ) :
    ContractState :=
  { s with
    liveUntil := Function.update s.liveUntil k (extended env (s.liveUntil k) threshold extend) }

/-- Extend the lifetime of the entry under a key; the host traps when there is none. -/
def extendTtl (s : ContractState) (env : Env) (k : DataKey) (threshold extend : ℕ) :
    Outcome Error ContractState :=
  if s.has k then .ok (s.raiseTtl env k threshold extend) else .error .trap

/-- Extend the lifetime of the instance entry. -/
def extendInstanceTtl (s : ContractState) (env : Env) (threshold extend : ℕ) : ContractState :=
  { s with instanceLiveUntil := extended env s.instanceLiveUntil threshold extend }

/-- Publish an event. -/
def publish (s : ContractState) (e : Event) : ContractState :=
  { s with events := s.events ++ [e] }

/-! ### What each host operation touches -/

variable (s : ContractState) (env : Env) (k : DataKey)

@[simp] theorem storage_set (v : k.Value) :
    (s.set env k v).storage = s.storage.write k (some v) := rfl

@[simp] theorem storage_extendInstanceTtl (t e : ℕ) :
    (s.extendInstanceTtl env t e).storage = s.storage := rfl

@[simp] theorem storage_raiseTtl (t e : ℕ) : (s.raiseTtl env k t e).storage = s.storage := rfl

theorem liveUntil_raiseTtl (t e : ℕ) : (s.raiseTtl env k t e).liveUntil =
    Function.update s.liveUntil k (extended env (s.liveUntil k) t e) := rfl

theorem liveUntil_extendInstanceTtl (t e : ℕ) :
    (s.extendInstanceTtl env t e).liveUntil = s.liveUntil := rfl

theorem instanceLiveUntil_extendInstanceTtl (t e : ℕ) :
    (s.extendInstanceTtl env t e).instanceLiveUntil = extended env s.instanceLiveUntil t e := rfl

theorem get_def : s.get k = s.storage.get k := rfl

theorem has_def : s.has k = (s.storage.get k).isSome := rfl

@[simp] theorem has_set_self (v : k.Value) : (s.set env k v).has k = true := by
  rw [has_def, storage_set, Storage.get_write_self]
  rfl

variable {s env k}

/-- An extension succeeds exactly on an entry that exists. -/
@[simp] theorem extendTtl_eq_ok_iff {t e : ℕ} {s' : ContractState} :
    s.extendTtl env k t e = .ok s' ↔ s.has k = true ∧ s' = s.raiseTtl env k t e := by
  rw [extendTtl]
  split
  · next h => rw [Except.ok.injEq, and_iff_right h, eq_comm]
  · next h => simp [h]

/-- An extension traps exactly where there is no entry. -/
@[simp] theorem extendTtl_eq_trap_iff {t e : ℕ} :
    s.extendTtl env k t e = .error .trap ↔ s.has k = false := by
  rw [extendTtl]
  split <;> simp_all

end ContractState

/-- Trap unless `who` authorized the invocation. -/
def requireAuth (env : Env) (who : Address) : Outcome Error Unit :=
  if who ∈ env.auths then .ok () else .error .trap

@[simp] theorem requireAuth_eq_ok_iff {env : Env} {who : Address} {u : Unit} :
    requireAuth env who = .ok u ↔ who ∈ env.auths := by
  rw [requireAuth]
  split <;> simp_all

@[simp] theorem requireAuth_eq_trap_iff {env : Env} {who : Address} :
    requireAuth env who = .error .trap ↔ who ∉ env.auths := by
  rw [requireAuth]
  split <;> simp_all

end Soroticket
