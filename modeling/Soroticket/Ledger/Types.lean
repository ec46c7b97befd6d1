import Soroticket.Machine.Bytes
import Soroticket.Machine.Checked

/-!
# The coupon ledger's data

The records, events and errors of the `coupon-ledger` contract, with the field names of the source
in this development's case convention, and the constants its checks use.

Strings are byte strings, as the host's `String` is, and their length is counted in bytes. An
address is one of the two kinds a contract can be called with, an account or a contract. A host
`Map` is a finite list of entries with distinct keys (`AttributionMap`): the host iterates it in key
order, and no order is assumed here, so what is proved holds for every order of iteration.
-/

namespace Soroticket

/-! ### Constants -/

/-- Remaining lifetime, in ledgers, below which an entry is extended. -/
def ledgerBump : ℕ := 535680

/-- Remaining lifetime, in ledgers, to which an entry is extended. -/
def extendTo : ℕ := 2678400

/-- Most codes, delegates or periods in one call. -/
def maxBatch : ℕ := 100

/-- Longest coupon code, in bytes. -/
def maxCodeLen : ℕ := 64

/-- Longest campaign name, in bytes. -/
def maxNameLen : ℕ := 96

/-- Longest reward label, in bytes. -/
def maxDiscountTypeLen : ℕ := 32

/-! ### Records -/

/-- An address that can call, authorize, or be paid. -/
inductive Address where
  /-- An account, by its public key. -/
  | account (key : BytesN 32)
  /-- A contract, by its identifier. -/
  | contract (id : BytesN 32)
  deriving DecidableEq

/-- A campaign: a collection of unique coupon codes with shared terms, owned by `owner`. -/
structure Campaign where
  id : UInt64
  owner : Address
  name : Bytes
  discountType : Bytes
  discountValue : UInt64
  totalSupply : UInt32
  minted : UInt32
  burned : UInt32
  validUntil : UInt64
  deriving DecidableEq

/-- A single-use coupon. -/
structure CouponToken where
  tokenId : UInt64
  campaignId : UInt64
  code : Bytes
  isBurned : Bool
  mintedAt : UInt64
  redeemerRef : BytesN 32
  burnedAt : UInt64
  deriving DecidableEq

/-- What a successful redemption returns. -/
structure RedemptionReceipt where
  tokenId : UInt64
  code : Bytes
  campaignId : UInt64
  campaignName : Bytes
  discountType : Bytes
  discountValue : UInt64
  redeemerRef : BytesN 32
  burnedAt : UInt64
  ledgerSeq : UInt32
  deriving DecidableEq

/-- Campaign figures for dashboards. -/
structure CampaignStats where
  totalSupply : UInt32
  minted : UInt32
  burned : UInt32
  available : UInt32
  isExpired : Bool
  deriving DecidableEq

/-- A shared code with its immutable settlement terms. -/
structure SharedCode where
  campaignId : UInt64
  code : Bytes
  attributedTo : Option Address
  payoutToken : Option Address
  payoutRate : I128
  registeredAt : UInt64
  deriving DecidableEq

/-- A map from addresses to counts, in some order of iteration. -/
structure AttributionMap where
  /-- The entries, in the order they are iterated. -/
  entries : List (Address × UInt32)
  /-- No address occurs twice. -/
  nodup : (entries.map Prod.fst).Nodup
  deriving DecidableEq

/-- The commitment of one period of a shared code. -/
structure TallyCommitment where
  period : UInt64
  count : UInt32
  merkleRoot : BytesN 32
  perAttribution : AttributionMap
  deriving DecidableEq

/-- An amount owed to, or paid to, an address. -/
structure Payout where
  /-- The payee; `to` in the source. -/
  payee : Address
  amount : I128
  deriving DecidableEq

/-! ### Events and errors -/

/-- The events the contract publishes. -/
inductive Event where
  | campaignCreated (id : UInt64) (owner : Address) (name : Bytes) (totalSupply : UInt32)
  | couponIssued (tokenId campaignId : UInt64)
  | couponBurned (tokenId : UInt64) (ledgerSeq : UInt32)
  | delegateAdded (campaignId : UInt64) (delegate : Address)
  | delegateRemoved (campaignId : UInt64) (delegate : Address)
  | sharedRegistered (campaignId : UInt64) (attributedTo : Option Address)
  | tallyCommitted (campaignId period : UInt64) (count : UInt32)
  | tallySettled (campaignId period : UInt64) (token : Address) (payoutRate : I128)
  deriving DecidableEq

/-- The errors the contract returns. -/
inductive Error where
  | campaignNotFound
  | couponNotFound
  | alreadyRedeemed
  | campaignExpired
  | supplyExhausted
  | unauthorized
  | invalidCode
  | duplicateCode
  | invalidTerms
  | batchTooLarge
  | codeTooLong
  | sharedNotFound
  | alreadyRegistered
  | periodCommitted
  | tallyNotFound
  | alreadySettled
  | invalidTally
  | invalidSettlement
  | attributionMismatch
  deriving DecidableEq

end Soroticket
