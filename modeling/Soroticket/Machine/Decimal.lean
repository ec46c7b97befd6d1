import Mathlib.Algebra.Field.Rat
import Mathlib.Data.List.DropRight
import Mathlib.Data.List.Induction
import Mathlib.Tactic.FieldSimp
import Mathlib.Tactic.Ring

/-!
# Decimal numerals

Digits, a point, digits. A numeral that writes a number with a given number of places is one way to
write an integer, the number of units of the last place.

**A numeral has one canonical form**, found by taking zeros away at both ends, and it is the form
that the units are written in (`ofUnits_units`). What carries this is that a list of digits that
does not start with a zero is the one that its value is written with (`toDigits_value`).
-/

namespace Soroticket.Decimal

/-! ### Digits -/

/-- What digits stand for. -/
def value (ds : List Char) : ℕ := Nat.ofDigitChars 10 ds 0

/-- Without the zeros it starts with. -/
def strip (ds : List Char) : List Char := ds.dropWhile (· = '0')

variable {ds ds' : List Char} {c : Char}

theorem value_append (ds ds' : List Char) :
    value (ds ++ ds') = value ds * 10 ^ ds'.length + value ds' := by
  rw [value, Nat.ofDigitChars_append, Nat.ofDigitChars_eq_ofDigitChars_zero, Nat.mul_comm]
  rfl

@[simp] theorem value_replicate (n : ℕ) : value (List.replicate n '0') = 0 := by
  rw [value, Nat.ofDigitChars_replicate_zero, Nat.mul_zero]

@[simp] theorem value_toDigits (n : ℕ) : value (Nat.toDigits 10 n) = n :=
  Nat.ofDigitChars_ten_toDigits

theorem value_singleton (h : c.isDigit) : value [c] < 10 ∧ (value [c]).digitChar = c := by
  have hvalue : value [c] = c.toNat - 48 := by
    rw [value, Nat.ofDigitChars_cons, Nat.ofDigitChars_nil, Nat.mul_zero, Nat.zero_add]
    rfl
  have hbounds : 48 ≤ c.toNat ∧ c.toNat ≤ 57 := Char.isDigit_iff_toNat.1 h
  have hlt : value [c] < 10 := by omega
  refine ⟨hlt, Char.toNat_inj.1 ?_⟩
  have hchar : ∀ n < 10, n.digitChar.toNat = 48 + n := by decide
  rw [hchar _ hlt]
  omega

theorem value_lt (h : ∀ c ∈ ds, c.isDigit) : value ds < 10 ^ ds.length := by
  induction ds using List.reverseRecOn with
  | nil => decide
  | append_singleton ds c ih =>
    have hds := ih fun c' hc' ↦ h c' (List.mem_append_left _ hc')
    have hc := (value_singleton (h c (List.mem_append_right _ (List.mem_singleton_self c)))).1
    rw [value_append, List.length_append, Nat.pow_add, List.length_singleton, Nat.pow_one]
    omega

theorem digits_toDigits (n : ℕ) : ∀ c ∈ Nat.toDigits 10 n, c.isDigit :=
  fun _ ↦ Nat.isDigit_of_mem_toDigits (by decide) (by decide)

/-- **Digits that do not start with a zero** are what their value is written with. -/
theorem toDigits_value (h : ∀ c ∈ ds, c.isDigit) (hne : ds ≠ []) (hhead : ds.head? ≠ some '0') :
    Nat.toDigits 10 (value ds) = ds := by
  induction ds using List.reverseRecOn with
  | nil => exact absurd rfl hne
  | append_singleton ds c ih =>
    obtain ⟨hlt, hchar⟩ :=
      value_singleton (h c (List.mem_append_right _ (List.mem_singleton_self c)))
    rcases eq_or_ne ds [] with rfl | hds
    · rw [List.nil_append, Nat.toDigits_of_lt_base hlt, hchar]
    · rw [List.head?_append_of_ne_nil _ hds] at hhead
      have hbefore := ih (fun c' hc' ↦ h c' (List.mem_append_left _ hc')) hds hhead
      -- the digits before the last are not all zero, or they would be written with one zero
      have hpos : 0 < value ds := by
        refine Nat.pos_of_ne_zero fun hzero ↦ hhead ?_
        rw [← hbefore, hzero]
        rfl
      rw [value_append, List.length_singleton, Nat.pow_one, Nat.mul_comm,
        ← Nat.toDigits_append_toDigits (by decide) hpos hlt, hbefore, Nat.toDigits_of_lt_base hlt,
        hchar]

/-! ### Zeros in front -/

theorem replicate_strip (ds : List Char) :
    List.replicate (ds.length - (strip ds).length) '0' ++ strip ds = ds := by
  have hzeros : ds.takeWhile (· = '0') = List.replicate (ds.takeWhile (· = '0')).length '0' :=
    List.eq_replicate_length.2 fun c hc ↦
      of_decide_eq_true (List.mem_takeWhile_imp (p := fun c ↦ decide (c = '0')) hc)
  have hsplit : ds.takeWhile (· = '0') ++ strip ds = ds := List.takeWhile_append_dropWhile
  have hlength : ds.length - (strip ds).length = (ds.takeWhile (· = '0')).length := by
    have hsum := congrArg List.length hsplit
    rw [List.length_append] at hsum
    omega
  rw [hlength, ← hzeros, hsplit]

theorem value_strip (ds : List Char) : value (strip ds) = value ds := by
  conv_rhs => rw [← replicate_strip ds]
  rw [value_append, value_replicate, Nat.zero_mul, Nat.zero_add]

theorem head_strip (ds : List Char) : (strip ds).head? ≠ some '0' := by
  intro h
  have hfirst := List.head?_dropWhile_not (fun c : Char ↦ decide (c = '0')) ds
  rw [strip] at h
  rw [h] at hfirst
  exact absurd hfirst (by decide)

theorem digits_strip (h : ∀ c ∈ ds, c.isDigit) : ∀ c ∈ strip ds, c.isDigit :=
  fun c hc ↦ h c ((List.dropWhile_suffix _).subset hc)

/-- Without the zeros it starts with, unless there is nothing else. -/
def trimLeft (ds : List Char) : List Char := if strip ds = [] then ['0'] else strip ds

/-- What the value of digits is written with: the digits without superfluous zeros in front. -/
theorem toDigits_value_eq (h : ∀ c ∈ ds, c.isDigit) : Nat.toDigits 10 (value ds) = trimLeft ds := by
  rw [← value_strip, trimLeft]
  split
  · rename_i hnil
    rw [hnil]
    rfl
  · exact toDigits_value (digits_strip h) ‹_› (head_strip ds)

theorem trimLeft_ne_nil (ds : List Char) : trimLeft ds ≠ [] := by
  rw [trimLeft]
  split
  · exact List.cons_ne_nil _ _
  · exact ‹_›

theorem digits_trimLeft (h : ∀ c ∈ ds, c.isDigit) : ∀ c ∈ trimLeft ds, c.isDigit := by
  rw [trimLeft]
  split
  · exact List.forall_mem_singleton.2 rfl
  · exact digits_strip h

theorem head_trimLeft (h : (trimLeft ds).head? = some '0') : trimLeft ds = ['0'] := by
  rw [trimLeft] at h ⊢
  split
  · rfl
  · rename_i hne
    rw [if_neg hne] at h
    exact absurd h (head_strip ds)

/-- Without the zeros it ends with. -/
def trimRight (ds : List Char) : List Char := ds.rdropWhile (· = '0')

theorem digits_trimRight (h : ∀ c ∈ ds, c.isDigit) : ∀ c ∈ trimRight ds, c.isDigit :=
  fun c hc ↦ h c ((List.rdropWhile_prefix (· = '0') ds).subset hc)

/-- It is the same at the other end. -/
theorem trimRight_eq (ds : List Char) : trimRight ds = (strip ds.reverse).reverse := rfl

theorem getLast_trimRight (ds : List Char) : (trimRight ds).getLast? ≠ some '0' := by
  rw [trimRight_eq, List.getLast?_reverse]
  exact head_strip ds.reverse

theorem trimRight_append_replicate (ds : List Char) (n : ℕ) :
    trimRight (ds ++ List.replicate n '0') = trimRight ds := by
  have hzeros : ∀ c ∈ List.replicate n '0', decide (c = '0') = true :=
    fun c hc ↦ decide_eq_true (List.eq_of_mem_replicate hc)
  rw [trimRight_eq, trimRight_eq, List.reverse_append, List.reverse_replicate, strip,
    List.dropWhile_append_of_pos hzeros, strip]

theorem trimRight_append (ds : List Char) :
    trimRight ds ++ List.replicate (ds.length - (trimRight ds).length) '0' = ds := by
  have h := congrArg List.reverse (replicate_strip ds.reverse)
  rw [List.reverse_append, List.reverse_replicate, List.reverse_reverse, ← trimRight_eq,
    List.length_reverse] at h
  rwa [trimRight_eq, List.length_reverse, ← trimRight_eq]

/-- The digits of a number, with zeros in front up to a length. -/
def padded (places n : ℕ) : List Char :=
  List.replicate (places - (Nat.toDigits 10 n).length) '0' ++ Nat.toDigits 10 n

theorem digits_padded (places n : ℕ) : ∀ c ∈ padded places n, c.isDigit := by
  refine List.forall_mem_append.2 ⟨fun c hc ↦ ?_, digits_toDigits n⟩
  rw [List.eq_of_mem_replicate hc]
  rfl

theorem value_padded (places n : ℕ) : value (padded places n) = n := by
  rw [padded, value_append, value_replicate, Nat.zero_mul, Nat.zero_add, value_toDigits]

theorem length_padded {places n : ℕ} (hpos : 0 < places) (h : n < 10 ^ places) :
    (padded places n).length = places := by
  have hle := (Nat.length_toDigits_le_iff (by decide) hpos).2 h
  rw [padded, List.length_append, List.length_replicate]
  omega

/-- Digits are their value, with zeros in front up to their length. -/
theorem padded_value (h : ∀ c ∈ ds, c.isDigit) (hne : ds ≠ []) :
    padded ds.length (value ds) = ds := by
  rw [padded, toDigits_value_eq h, trimLeft]
  split
  · rename_i hnil
    have hpos := List.length_pos_iff.2 hne
    have hzeros := replicate_strip ds
    rw [hnil, List.append_nil, List.length_nil, Nat.sub_zero] at hzeros
    calc List.replicate (ds.length - 1) '0' ++ ['0']
        = List.replicate (ds.length - 1 + 1) '0' := List.replicate_succ'.symm
      _ = ds := by rw [Nat.sub_add_cancel hpos, hzeros]
  · exact replicate_strip ds

/-! ### Numerals -/

/-- A numeral: digits, and those after the point if there is one. There is a digit on both sides of
a point. -/
structure Numeral where
  whole : List Char
  fraction : List Char
  whole_ne : whole ≠ []
  whole_digits : ∀ c ∈ whole, c.isDigit
  fraction_digits : ∀ c ∈ fraction, c.isDigit

namespace Numeral

/-- The numeral as it is written. A fraction without digits is written without a point. -/
def text (d : Numeral) : List Char :=
  d.whole ++ if d.fraction = [] then [] else '.' :: d.fraction

/-- The number it denotes. -/
def number (d : Numeral) : ℚ := value d.whole + value d.fraction / 10 ^ d.fraction.length

/-- The number in units of its `places`-th place. -/
def units (places : ℕ) (d : Numeral) : ℕ :=
  value d.whole * 10 ^ places +
    value (d.fraction ++ List.replicate (places - d.fraction.length) '0')

/-- A numeral without superfluous zeros. -/
structure Canonical (d : Numeral) : Prop where
  whole : d.whole.head? = some '0' → d.whole = ['0']
  fraction : d.fraction.getLast? ≠ some '0'

/-- The canonical form. -/
def canonical (d : Numeral) : Numeral where
  whole := trimLeft d.whole
  fraction := trimRight d.fraction
  whole_ne := trimLeft_ne_nil d.whole
  whole_digits := digits_trimLeft d.whole_digits
  fraction_digits := digits_trimRight d.fraction_digits

/-- So many units of the `places`-th place, as a numeral. -/
def ofUnits (places n : ℕ) : Numeral where
  whole := Nat.toDigits 10 (n / 10 ^ places)
  fraction := trimRight (padded places (n % 10 ^ places))
  whole_ne := Nat.toDigits_ne_nil
  whole_digits := digits_toDigits _
  fraction_digits := digits_trimRight (digits_padded places _)

variable {d d' : Numeral} {places n : ℕ}

theorem ext (hwhole : d.whole = d'.whole) (hfraction : d.fraction = d'.fraction) : d = d' := by
  cases d
  cases d'
  simp_all

theorem canonical_canonical (d : Numeral) : d.canonical.Canonical where
  whole := head_trimLeft
  fraction := getLast_trimRight d.fraction

/-- Units and numbers are the same but for the scale. -/
theorem cast_units (h : d.fraction.length ≤ places) :
    (d.units places : ℚ) = d.number * 10 ^ places := by
  rw [units, number, value_append, value_replicate, Nat.add_zero, List.length_replicate]
  push_cast
  have hscale : (10 : ℚ) ^ places = 10 ^ (places - d.fraction.length) * 10 ^ d.fraction.length := by
    rw [← pow_add, Nat.sub_add_cancel h]
  rw [add_mul, hscale]
  field_simp

/-- **Numerals of the same units** are those that denote the same number. -/
theorem units_eq_iff (h : d.fraction.length ≤ places) (h' : d'.fraction.length ≤ places) :
    d.units places = d'.units places ↔ d.number = d'.number := by
  rw [← Nat.cast_inj (R := ℚ), cast_units h, cast_units h']
  exact mul_left_inj' (pow_ne_zero _ (by norm_num))

/-- **The units of a numeral** are written with its canonical form. -/
theorem ofUnits_units (hpos : 0 < places) (h : d.fraction.length ≤ places) :
    ofUnits places (d.units places) = d.canonical := by
  have hdigits : ∀ c ∈ d.fraction ++ List.replicate (places - d.fraction.length) '0',
      c.isDigit := by
    refine List.forall_mem_append.2 ⟨d.fraction_digits, fun c hc ↦ ?_⟩
    rw [List.eq_of_mem_replicate hc]
    rfl
  have hlength : (d.fraction ++ List.replicate (places - d.fraction.length) '0').length =
      places := by
    rw [List.length_append, List.length_replicate]
    omega
  have hlt := value_lt hdigits
  rw [hlength] at hlt
  obtain ⟨hquot, hrem⟩ : d.units places / 10 ^ places = value d.whole ∧
      d.units places % 10 ^ places =
        value (d.fraction ++ List.replicate (places - d.fraction.length) '0') := by
    refine (Nat.div_mod_unique (Nat.pow_pos (by decide))).2 ⟨?_, hlt⟩
    rw [units, Nat.add_comm, Nat.mul_comm]
  refine ext ?_ ?_
  · show Nat.toDigits 10 (d.units places / 10 ^ places) = trimLeft d.whole
    rw [hquot, toDigits_value_eq d.whole_digits]
  · have hne : d.fraction ++ List.replicate (places - d.fraction.length) '0' ≠ [] :=
      List.length_pos_iff.1 (hpos.trans_eq hlength.symm)
    have hpadded := padded_value hdigits hne
    rw [hlength] at hpadded
    show trimRight (padded places (d.units places % 10 ^ places)) = trimRight d.fraction
    rw [hrem, hpadded, trimRight_append_replicate]

theorem length_ofUnits (hpos : 0 < places) (n : ℕ) :
    (ofUnits places n).fraction.length ≤ places :=
  ((List.rdropWhile_prefix (· = '0') _).length_le).trans_eq
    (length_padded hpos (Nat.mod_lt n (Nat.pow_pos (by decide))))

/-- And back. -/
theorem units_ofUnits (hpos : 0 < places) (n : ℕ) : (ofUnits places n).units places = n := by
  have hlength := length_padded hpos (Nat.mod_lt n (Nat.pow_pos (n := places) (by decide)))
  have hfraction := trimRight_append (padded places (n % 10 ^ places))
  rw [hlength] at hfraction
  show value (Nat.toDigits 10 (n / 10 ^ places)) * 10 ^ places +
    value (trimRight (padded places (n % 10 ^ places)) ++ List.replicate (places -
      (trimRight (padded places (n % 10 ^ places))).length) '0') = n
  rw [hfraction, value_toDigits, value_padded]
  exact Nat.div_add_mod' n _

end Numeral

end Soroticket.Decimal
