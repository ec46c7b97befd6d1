import Soroticket.Machine.Decimal

/-!
# Token amounts

An amount is kept in base units, ten million to the unit of the token. The server writes it as a
decimal (`formatUnits`), and the console reads what is entered as one (`decimalToBaseUnits`). The
two are in different languages and share no code.

They meet in the numeral: what the console accepts is the text of one (`exec_eq_some_iff`), and what
the server writes is the text of the canonical one (`formatUnits_eq`).
-/

namespace Soroticket

open Decimal

/-! ### The server -/

/-- `formatUnits`. -/
def formatUnits (base : Option ℤ) : List Char :=
  match base with
  | none => ['0']
  | some base =>
    if base = 0 then ['0']
    else
      let whole := base.natAbs / 10000000
      let remainder := base.natAbs % 10000000
      let result := Nat.toDigits 10 whole
      let result :=
        if remainder ≠ 0 then
          let fraction := Nat.toDigits 10 remainder
          let fraction := List.replicate (7 - fraction.length) '0' ++ fraction
          let fraction := fraction.rdropWhile (· = '0')
          result ++ '.' :: fraction
        else result
      if base < 0 then '-' :: result else result

/-! ### The console -/

namespace Console

/-- What `trim` takes away: white space and the ends of lines. -/
def isSpace (c : Char) : Bool :=
  c.toNat ∈ [0x9, 0xA, 0xB, 0xC, 0xD, 0x20, 0xA0, 0x1680, 0x2000, 0x2001, 0x2002, 0x2003, 0x2004,
    0x2005, 0x2006, 0x2007, 0x2008, 0x2009, 0x200A, 0x2028, 0x2029, 0x202F, 0x205F, 0x3000, 0xFEFF]

/-- `String.prototype.trim`. -/
def trim (text : List Char) : List Char := (text.dropWhile isSpace).rdropWhile isSpace

/-- The groups of `/^(\d+)(?:\.(\d+))?$/`. The second may be undefined. -/
def exec (raw : List Char) : Option (List Char × Option (List Char)) :=
  let digits := raw.takeWhile Char.isDigit
  if digits = [] then none
  else
    match raw.dropWhile Char.isDigit with
    | [] => some (digits, none)
    | c :: rest =>
      if c = '.' ∧ rest ≠ [] ∧ rest.all Char.isDigit then some (digits, some rest) else none

/-- `padEnd`. -/
def padEnd (text : List Char) (length : ℕ) (c : Char) : List Char :=
  text ++ List.replicate (length - text.length) c

/-- `BigInt`, of digits. -/
def bigInt (digits : List Char) : ℕ := Decimal.value digits

/-- `decimalToBaseUnits`. An input that is null or undefined is empty. -/
def decimalToBaseUnits (input : Option (List Char)) (decimals : ℤ) : Except String (List Char) :=
  match exec (trim (input.getD [])) with
  | none => .error "Enter a non-negative decimal amount."
  | some (whole, fraction) =>
    if decimals < 0 ∨ 18 < decimals then .error "Enter a non-negative decimal amount."
    else
      let fraction := fraction.getD []
      if decimals < fraction.length then
        .error ("Amount supports at most " ++ toString decimals ++ " decimal places.")
      else
        let scale := 10 ^ decimals.toNat
        let padded := padEnd fraction decimals.toNat '0'
        let fractional := if padded = [] then ['0'] else padded
        .ok (Nat.toDigits 10 (bigInt whole * scale + bigInt fractional))

end Console

/-! ### What is written -/

/-- A remainder has a digit that is not zero. -/
theorem trimRight_padded_ne_nil {places n : ℕ} (h : n ≠ 0) : trimRight (padded places n) ≠ [] := by
  intro hnil
  have hzeros := trimRight_append (padded places n)
  rw [hnil, List.nil_append] at hzeros
  have hvalue := value_padded places n
  rw [← hzeros, value_replicate] at hvalue
  exact h hvalue.symm

/-- **What the server writes** is the canonical numeral of the units. -/
theorem formatUnits_eq (n : ℕ) : formatUnits (some n) = (Numeral.ofUnits 7 n).text := by
  rcases Nat.eq_zero_or_pos n with rfl | hpos
  · decide +kernel
  · have htext : (Numeral.ofUnits 7 n).text = Nat.toDigits 10 (n / 10000000) ++
        if trimRight (padded 7 (n % 10000000)) = [] then []
        else '.' :: trimRight (padded 7 (n % 10000000)) := rfl
    have hne : (n : ℤ) ≠ 0 := Int.natCast_ne_zero.2 (Nat.pos_iff_ne_zero.1 hpos)
    have hsign : ¬(n : ℤ) < 0 := Int.not_lt.2 (Int.natCast_nonneg n)
    simp only [formatUnits, if_neg hne, if_neg hsign, Int.natAbs_natCast]
    rw [htext]
    split
    · rename_i hrem
      rw [if_neg (trimRight_padded_ne_nil hrem)]
      rfl
    · rename_i hrem
      rw [not_not.1 hrem, if_pos (by decide +kernel), List.append_nil]

/-! ### What is accepted -/

namespace Console

variable {d : Numeral}

theorem takeWhile_text (d : Numeral) : d.text.takeWhile Char.isDigit = d.whole := by
  rw [Numeral.text, List.takeWhile_append_of_pos d.whole_digits]
  split
  · exact List.append_nil _
  · rw [List.takeWhile_cons_of_neg (by decide), List.append_nil]

theorem dropWhile_text (d : Numeral) : d.text.dropWhile Char.isDigit =
    if d.fraction = [] then [] else '.' :: d.fraction := by
  rw [Numeral.text, List.dropWhile_append_of_pos d.whole_digits]
  split
  · rfl
  · exact List.dropWhile_cons_of_neg (by decide)

/-- **What matches** is the text of a numeral. -/
theorem exec_text (d : Numeral) :
    exec d.text = some (d.whole, if d.fraction = [] then none else some d.fraction) := by
  rw [exec, takeWhile_text, dropWhile_text, if_neg d.whole_ne]
  by_cases hnil : d.fraction = []
  · rw [if_pos hnil, if_pos hnil]
  · rw [if_neg hnil, if_neg hnil]
    exact if_pos ⟨rfl, hnil, List.all_eq_true.2 d.fraction_digits⟩

/-- **And nothing else.** -/
theorem exists_text_of_exec {raw : List Char} {groups : List Char × Option (List Char)}
    (h : exec raw = some groups) : ∃ d : Numeral, raw = d.text := by
  have hsplit : raw.takeWhile Char.isDigit ++ raw.dropWhile Char.isDigit = raw :=
    List.takeWhile_append_dropWhile
  have hdigits : ∀ c ∈ raw.takeWhile Char.isDigit, c.isDigit := fun c hc ↦ List.mem_takeWhile_imp hc
  rw [exec] at h
  split at h
  · cases h
  · rename_i hne
    split at h
    · rename_i hrest
      refine ⟨⟨_, [], hne, hdigits, fun c hc ↦ absurd hc List.not_mem_nil⟩, ?_⟩
      rw [hrest, List.append_nil] at hsplit
      rw [Numeral.text, if_pos rfl, List.append_nil]
      exact hsplit.symm
    · rename_i c rest hrest
      split at h
      · rename_i hgroup
        obtain ⟨rfl, hrest_ne, hall⟩ := hgroup
        refine ⟨⟨_, rest, hne, hdigits, List.all_eq_true.1 hall⟩, ?_⟩
        rw [Numeral.text, if_neg hrest_ne, ← hrest, hsplit]
      · cases h

/-- The amount of a numeral, or what is wrong with it. -/
theorem decimalToBaseUnits_of_text {input : Option (List Char)}
    (h : trim (input.getD []) = d.text) :
    decimalToBaseUnits input 7 =
      if d.fraction.length ≤ 7 then .ok (Nat.toDigits 10 (d.units 7))
      else .error "Amount supports at most 7 decimal places." := by
  have hfraction : (if d.fraction = [] then none else some d.fraction).getD [] = d.fraction := by
    split
    · exact (‹d.fraction = []›).symm
    · rfl
  have hpadded : padEnd d.fraction 7 '0' ≠ [] := by
    intro hnil
    have hlength := congrArg List.length hnil
    rw [padEnd, List.length_append, List.length_replicate, List.length_nil] at hlength
    omega
  rw [decimalToBaseUnits, h, exec_text]
  simp only [hfraction, if_neg (show ¬((7 : ℤ) < 0 ∨ (18 : ℤ) < 7) by decide)]
  by_cases hle : d.fraction.length ≤ 7
  · rw [if_neg (show ¬(7 : ℤ) < d.fraction.length by omega), if_pos hle]
    show Except.ok (Nat.toDigits 10 (bigInt d.whole * 10 ^ 7 +
      bigInt (if padEnd d.fraction 7 '0' = [] then ['0'] else padEnd d.fraction 7 '0'))) = _
    rw [if_neg hpadded]
    rfl
  · rw [if_pos (show (7 : ℤ) < d.fraction.length by omega), if_neg hle]
    decide +kernel

/-- Nothing else has an amount. -/
theorem decimalToBaseUnits_of_not_text {input : Option (List Char)}
    (h : ∀ d : Numeral, trim (input.getD []) ≠ d.text) :
    decimalToBaseUnits input 7 = .error "Enter a non-negative decimal amount." := by
  rcases hexec : exec (trim (input.getD [])) with - | groups
  · rw [decimalToBaseUnits, hexec]
  · obtain ⟨d, htext⟩ := exists_text_of_exec hexec
    exact absurd htext (h d)

/-- Exactly the numerals with seven places at most have an amount, and their units are it. -/
theorem decimalToBaseUnits_eq_ok {input : Option (List Char)} {units : List Char} :
    decimalToBaseUnits input 7 = .ok units ↔
      ∃ d : Numeral, trim (input.getD []) = d.text ∧ d.fraction.length ≤ 7 ∧
        units = Nat.toDigits 10 (d.units 7) := by
  constructor
  · intro h
    by_cases htext : ∃ d : Numeral, trim (input.getD []) = d.text
    · obtain ⟨d, hd⟩ := htext
      rw [decimalToBaseUnits_of_text hd] at h
      split at h
      · exact ⟨d, hd, ‹_›, (Except.ok.inj h).symm⟩
      · cases h
    · rw [decimalToBaseUnits_of_not_text fun d hd ↦ htext ⟨d, hd⟩] at h
      cases h
  · rintro ⟨d, hd, hle, rfl⟩
    rw [decimalToBaseUnits_of_text hd, if_pos hle]

/-- A numeral is written with digits and a point. -/
theorem digit_or_point {c : Char} (h : c ∈ d.text) : c.isDigit ∨ c = '.' := by
  rw [Numeral.text] at h
  rcases List.mem_append.1 h with hwhole | hrest
  · exact Or.inl (d.whole_digits c hwhole)
  · split at hrest
    · exact absurd hrest List.not_mem_nil
    · exact (List.mem_cons.1 hrest).symm.imp_left (d.fraction_digits c)

theorem not_isSpace {c : Char} (h : c.isDigit ∨ c = '.') : ¬isSpace c = true := by
  rcases h with hdigit | rfl
  · have hbounds : 48 ≤ c.toNat ∧ c.toNat ≤ 57 := Char.isDigit_iff_toNat.1 hdigit
    rw [isSpace, decide_eq_true_iff]
    simp only [List.mem_cons, List.not_mem_nil, or_false]
    omega
  · decide

/-- There is nothing to trim in a numeral. -/
theorem trim_text (d : Numeral) : trim d.text = d.text := by
  have hstart : d.text.dropWhile isSpace = d.text :=
    List.dropWhile_eq_self_iff.2 fun _ ↦ not_isSpace (digit_or_point (List.get_mem _ _))
  rw [trim, hstart]
  exact List.rdropWhile_eq_self_iff.2 fun _ ↦ not_isSpace (digit_or_point (List.getLast_mem _))

/-- A text is that of one numeral only. -/
theorem text_inj {d d' : Numeral} (h : d.text = d'.text) : d = d' := by
  have hgroups := exec_text d
  rw [h, exec_text d', Option.some.injEq, Prod.mk.injEq] at hgroups
  obtain ⟨hwhole, hfraction⟩ := hgroups
  refine Numeral.ext hwhole.symm ?_
  split at hfraction <;> split at hfraction
  · exact (‹d.fraction = []›).trans (‹d'.fraction = []›).symm
  · cases hfraction
  · cases hfraction
  · exact (Option.some.inj hfraction).symm

theorem toDigits_inj {m n : ℕ} : Nat.toDigits 10 m = Nat.toDigits 10 n ↔ m = n := by
  constructor
  · intro h
    rw [← value_toDigits m, h, value_toDigits]
  · exact congrArg _

end Console

open Console

/-- **Token amounts survive display and entry.** What the server displays is read back as the same
units; what the console accepts is displayed in its canonical form; two inputs have the same units
exactly where they denote the same number. What has a sign, an exponent or anything else that is no
digit or point is rejected, and so are more than seven decimal places. -/
theorem token_amounts :
    (∀ n : ℕ, decimalToBaseUnits (some (formatUnits (some n))) 7 = .ok (Nat.toDigits 10 n)) ∧
    (∀ input units, decimalToBaseUnits input 7 = .ok units →
      ∃ (d : Numeral) (n : ℕ), trim (input.getD []) = d.text ∧ units = Nat.toDigits 10 n ∧
        formatUnits (some n) = d.canonical.text ∧ d.canonical.Canonical) ∧
    (∀ input input' units units' (d d' : Numeral), trim (input.getD []) = d.text →
      trim (input'.getD []) = d'.text → decimalToBaseUnits input 7 = .ok units →
        decimalToBaseUnits input' 7 = .ok units' → (units = units' ↔ d.number = d'.number)) ∧
    (∀ input, (∃ c ∈ trim (input.getD []), ¬c.isDigit ∧ c ≠ '.') →
      decimalToBaseUnits input 7 = .error "Enter a non-negative decimal amount.") ∧
    ∀ input (d : Numeral), trim (input.getD []) = d.text → 7 < d.fraction.length →
      decimalToBaseUnits input 7 = .error "Amount supports at most 7 decimal places." := by
  refine ⟨fun n ↦ ?_, fun input units h ↦ ?_, fun input input' units units' d d' hd hd' h h' ↦ ?_,
    fun input ⟨c, hc, hother⟩ ↦ ?_, fun input d hd hlong ↦ ?_⟩
  · refine decimalToBaseUnits_eq_ok.2 ⟨Numeral.ofUnits 7 n, ?_,
      Numeral.length_ofUnits (by decide) n, ?_⟩
    · rw [Option.getD_some, formatUnits_eq, trim_text]
    · rw [Numeral.units_ofUnits (by decide)]
  · obtain ⟨d, hd, hle, rfl⟩ := decimalToBaseUnits_eq_ok.1 h
    refine ⟨d, d.units 7, hd, rfl, ?_, d.canonical_canonical⟩
    rw [formatUnits_eq, Numeral.ofUnits_units (by decide) hle]
  · obtain ⟨e, he, hle, rfl⟩ := decimalToBaseUnits_eq_ok.1 h
    obtain ⟨e', he', hle', rfl⟩ := decimalToBaseUnits_eq_ok.1 h'
    obtain rfl := text_inj (hd.symm.trans he)
    obtain rfl := text_inj (hd'.symm.trans he')
    exact toDigits_inj.trans (Numeral.units_eq_iff hle hle')
  · refine decimalToBaseUnits_of_not_text fun d hd ↦ ?_
    rw [hd] at hc
    exact (digit_or_point hc).elim hother.1 hother.2
  · rw [decimalToBaseUnits_of_text hd, if_neg (Nat.not_le.2 hlong)]

/-- Seven and a half, with more zeros than it takes. -/
theorem token_amounts_padded :
    ∃ (d : Numeral) (n : ℕ), trim " 007.50 ".toList = d.text ∧
      "75000000".toList = Nat.toDigits 10 n ∧ formatUnits (some n) = d.canonical.text ∧
        d.canonical.Canonical :=
  token_amounts.2.1 (some " 007.50 ".toList) _ (by decide +kernel)

example : formatUnits (some 75000000) = "7.5".toList := by decide +kernel

end Soroticket
