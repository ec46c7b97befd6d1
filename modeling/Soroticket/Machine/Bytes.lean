import Mathlib.Data.List.Basic
import Mathlib.Tactic.Common

/-!
# Byte strings

Byte strings of any length, and byte strings whose length is part of the type. The second kind
carries its length as a field, so a hash or a key of the wrong size cannot be built and no client
checks a length twice.
-/

/-- A byte string. -/
abbrev Bytes := List UInt8

/-- A byte string of length `n`. -/
structure BytesN (n : ℕ) where
  /-- The bytes. -/
  bytes : Bytes
  /-- There are `n` of them. -/
  length_bytes : bytes.length = n
  deriving DecidableEq

namespace BytesN

variable {n : ℕ}

@[ext] theorem ext {a b : BytesN n} (h : a.bytes = b.bytes) : a = b := by
  cases a; cases b; simpa using h

/-- The string of `n` copies of one byte. -/
def replicate (n : ℕ) (b : UInt8) : BytesN n := ⟨List.replicate n b, List.length_replicate⟩

/-- The all-zero string. -/
def zero (n : ℕ) : BytesN n := replicate n 0

/-- The first `n` bytes of a string, padded with zeros. -/
def pad (n : ℕ) (b : Bytes) : BytesN n := ⟨(b ++ List.replicate n 0).take n, by simp⟩

/-- Two fixed-length strings, concatenated: the length is the sum, so the halves can be read
back. -/
theorem append_inj {m : ℕ} {a a' : BytesN n} {b b' : BytesN m}
    (h : a.bytes ++ b.bytes = a'.bytes ++ b'.bytes) : a = a' ∧ b = b' := by
  have hlen : a.bytes.length = a'.bytes.length := by rw [a.length_bytes, a'.length_bytes]
  obtain ⟨h₁, h₂⟩ := List.append_inj h hlen
  exact ⟨BytesN.ext h₁, BytesN.ext h₂⟩

end BytesN

/-! ### Hexadecimal -/

/-- The digit of a number below 16, in lower case. -/
def hexDigit (n : UInt8) : UInt8 := if n < 10 then 48 + n else 87 + n

/-- The number of a digit, of either case. -/
def hexValue (c : UInt8) : Option UInt8 :=
  if 48 ≤ c ∧ c ≤ 57 then some (c - 48)
  else if 97 ≤ c ∧ c ≤ 102 then some (c - 87)
  else if 65 ≤ c ∧ c ≤ 70 then some (c - 55)
  else none

/-- Two digits for each byte. -/
def hexEncode (b : Bytes) : Bytes := b.flatMap fun x ↦ [hexDigit (x / 16), hexDigit (x % 16)]

/-- The bytes of a string of digits, of even length. -/
def hexDecode : Bytes → Option Bytes
  | hi :: lo :: rest => do
    let h ← hexValue hi
    let l ← hexValue lo
    let b ← hexDecode rest
    return (16 * h + l) :: b
  | [_] => none
  | [] => some []

/-- One byte survives its two digits. -/
theorem hexValue_hexDigit (x : UInt8) :
    hexValue (hexDigit (x / 16)) = some (x / 16) ∧ hexValue (hexDigit (x % 16)) = some (x % 16) ∧
      16 * (x / 16) + x % 16 = x := by
  have hall : ∀ n : Fin 256, hexValue (hexDigit (UInt8.ofFin n / 16)) = some (UInt8.ofFin n / 16) ∧
      hexValue (hexDigit (UInt8.ofFin n % 16)) = some (UInt8.ofFin n % 16) ∧
      16 * (UInt8.ofFin n / 16) + UInt8.ofFin n % 16 = UInt8.ofFin n := by decide +kernel
  exact hall x.toFin

/-- **Hexadecimal is faithful.** -/
theorem hexDecode_hexEncode (b : Bytes) : hexDecode (hexEncode b) = some b := by
  induction b with
  | nil => rfl
  | cons x rest ih =>
    obtain ⟨hhi, hlo, hsum⟩ := hexValue_hexDigit x
    show hexDecode (hexDigit (x / 16) :: hexDigit (x % 16) :: hexEncode rest) = _
    rw [hexDecode, hhi, hlo, ih]
    show some ((16 * (x / 16) + x % 16) :: rest) = _
    rw [hsum]

theorem hexEncode_inj {b b' : Bytes} (h : hexEncode b = hexEncode b') : b = b' := by
  have hdecode : some b = some b' := by
    rw [← hexDecode_hexEncode b, h, hexDecode_hexEncode b']
  exact Option.some.inj hdecode

theorem length_hexEncode (b : Bytes) : (hexEncode b).length = 2 * b.length := by
  induction b with
  | nil => rfl
  | cons x rest ih =>
    show (hexEncode rest).length + 1 + 1 = _
    rw [ih, List.length_cons]
    omega
