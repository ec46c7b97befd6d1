import Mathlib.Data.Finite.Defs
import Mathlib.Data.Int.Order.Basic
import Mathlib.Data.UInt
import Mathlib.Tactic.Common

/-!
# Checked fixed-width arithmetic

The arithmetic of a contract host: unsigned words whose addition is *checked* (`none` on overflow)
or *saturating*, and signed 128-bit amounts. Each operation is specified through the exact integer
value, so a client never reasons about a modulus: success of a checked operation **is** the equation
on `toNat` or on `val` (`UInt32.checkedAdd_eq_some_iff` and its siblings), and the bound is implied
because the result is a word.

Nothing here depends on a contract. The words are Lean's own `UInt32` and `UInt64`; the signed
128-bit integer, which Lean does not have, is the subtype `I128`, so an out-of-range amount cannot
be built.
-/

namespace UInt32

/-- Addition that reports overflow. -/
def checkedAdd (a b : UInt32) : Option UInt32 :=
  if a.toNat + b.toNat < 2 ^ 32 then some (UInt32.ofNat (a.toNat + b.toNat)) else none

/-- Success is exactness: the bound is that the sum is a word at all. -/
theorem checkedAdd_eq_some_iff {a b c : UInt32} :
    a.checkedAdd b = some c ↔ c.toNat = a.toNat + b.toNat := by
  unfold checkedAdd
  split
  · next h =>
    rw [Option.some.injEq, ← UInt32.toNat_inj, UInt32.toNat_ofNat_of_lt' h, eq_comm]
  · next h =>
    have hc := c.toNat_lt
    simp only [reduceCtorEq, false_iff]
    omega

theorem checkedAdd_eq_none_iff {a b : UInt32} :
    a.checkedAdd b = none ↔ 2 ^ 32 ≤ a.toNat + b.toNat := by
  simp [checkedAdd]

/-- Subtraction stopping at zero. -/
def saturatingSub (a b : UInt32) : UInt32 :=
  UInt32.ofNat (a.toNat - b.toNat)

@[simp] theorem toNat_saturatingSub (a b : UInt32) :
    (a.saturatingSub b).toNat = a.toNat - b.toNat :=
  UInt32.toNat_ofNat_of_lt' (Nat.lt_of_le_of_lt (Nat.sub_le _ _) a.toNat_lt)

end UInt32

namespace UInt64

/-- Addition that reports overflow. -/
def checkedAdd (a b : UInt64) : Option UInt64 :=
  if a.toNat + b.toNat < 2 ^ 64 then some (UInt64.ofNat (a.toNat + b.toNat)) else none

theorem checkedAdd_eq_some_iff {a b c : UInt64} :
    a.checkedAdd b = some c ↔ c.toNat = a.toNat + b.toNat := by
  unfold checkedAdd
  split
  · next h =>
    rw [Option.some.injEq, ← UInt64.toNat_inj, UInt64.toNat_ofNat_of_lt' h, eq_comm]
  · next h =>
    have hc := c.toNat_lt
    simp only [reduceCtorEq, false_iff]
    omega

theorem checkedAdd_eq_none_iff {a b : UInt64} :
    a.checkedAdd b = none ↔ 2 ^ 64 ≤ a.toNat + b.toNat := by
  simp [checkedAdd]

/-- Addition stopping at the largest word. -/
def saturatingAdd (a b : UInt64) : UInt64 :=
  UInt64.ofNat (min (a.toNat + b.toNat) (2 ^ 64 - 1))

@[simp] theorem toNat_saturatingAdd (a b : UInt64) :
    (a.saturatingAdd b).toNat = min (a.toNat + b.toNat) (2 ^ 64 - 1) :=
  UInt64.toNat_ofNat_of_lt' (Nat.lt_of_le_of_lt (Nat.min_le_right _ _) (by decide))

end UInt64

/-- A signed 128-bit integer. -/
structure I128 where
  /-- The exact value. -/
  val : ℤ
  /-- It is at least the smallest 128-bit value. -/
  le_val : -2 ^ 127 ≤ val
  /-- It is at most the largest 128-bit value. -/
  val_lt : val < 2 ^ 127
  deriving DecidableEq

namespace I128

@[ext] theorem ext {a b : I128} (h : a.val = b.val) : a = b := by
  cases a; cases b; simpa using h

/-- The 128-bit integer of exactly this value, when there is one. -/
def ofInt? (z : ℤ) : Option I128 :=
  if h : -2 ^ 127 ≤ z ∧ z < 2 ^ 127 then some ⟨z, h.1, h.2⟩ else none

theorem ofInt?_eq_some_iff {z : ℤ} {x : I128} : ofInt? z = some x ↔ x.val = z := by
  unfold ofInt?
  split
  · next h =>
    rw [Option.some.injEq, I128.ext_iff, eq_comm]
  · next h =>
    have h₁ := x.le_val
    have h₂ := x.val_lt
    simp only [reduceCtorEq, false_iff]
    rintro rfl
    exact h ⟨h₁, h₂⟩

/-- The integer is a 128-bit value. -/
def Fits (z : ℤ) : Prop := -2 ^ 127 ≤ z ∧ z < 2 ^ 127

instance (z : ℤ) : Decidable (Fits z) := inferInstanceAs (Decidable (_ ∧ _))

theorem fits_val (x : I128) : Fits x.val := ⟨x.le_val, x.val_lt⟩

/-- An unsigned 32-bit word as an amount. -/
def ofUInt32 (n : UInt32) : I128 :=
  ⟨n.toNat, by omega, by have := n.toNat_lt; omega⟩

@[simp] theorem val_ofUInt32 (n : UInt32) : (ofUInt32 n).val = n.toNat := rfl

instance : Zero I128 := ⟨⟨0, by decide, by decide⟩⟩

@[simp] theorem val_zero : (0 : I128).val = 0 := rfl

instance : LT I128 := ⟨fun a b ↦ a.val < b.val⟩

instance : LE I128 := ⟨fun a b ↦ a.val ≤ b.val⟩

theorem lt_def {a b : I128} : a < b ↔ a.val < b.val := Iff.rfl

theorem le_def {a b : I128} : a ≤ b ↔ a.val ≤ b.val := Iff.rfl

instance (a b : I128) : Decidable (a < b) := inferInstanceAs (Decidable (a.val < b.val))

instance (a b : I128) : Decidable (a ≤ b) := inferInstanceAs (Decidable (a.val ≤ b.val))

/-- Multiplication that reports overflow. -/
def checkedMul (a b : I128) : Option I128 := ofInt? (a.val * b.val)

/-- Addition that reports overflow. -/
def checkedAdd (a b : I128) : Option I128 := ofInt? (a.val + b.val)

theorem checkedMul_eq_some_iff {a b c : I128} :
    a.checkedMul b = some c ↔ c.val = a.val * b.val :=
  ofInt?_eq_some_iff

theorem checkedAdd_eq_some_iff {a b c : I128} :
    a.checkedAdd b = some c ↔ c.val = a.val + b.val :=
  ofInt?_eq_some_iff

end I128
