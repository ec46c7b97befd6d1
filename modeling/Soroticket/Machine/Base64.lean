import Soroticket.Machine.Bytes
import Soroticket.Machine.Lexicographic

/-!
# Base64

The standard encoding with padding: four characters for every three bytes, and `=` where bytes are
missing at the end. The decoder passes over line breaks and does not ask what is in the bits that
stand for no byte, so many texts are read as one string; the text that was written is one of them.
-/

namespace Base64

/-- The character of a number below 64. -/
def digit (n : ℕ) : UInt8 :=
  if n < 26 then UInt8.ofNat (65 + n)
  else if n < 52 then UInt8.ofNat (71 + n)
  else if n < 62 then UInt8.ofNat (n - 4)
  else if n = 62 then 43
  else 47

/-- The number of a character. -/
def value (c : UInt8) : Option ℕ :=
  if 65 ≤ c ∧ c ≤ 90 then some (c.toNat - 65)
  else if 97 ≤ c ∧ c ≤ 122 then some (c.toNat - 71)
  else if 48 ≤ c ∧ c ≤ 57 then some (c.toNat + 4)
  else if c = 43 then some 62
  else if c = 47 then some 63
  else none

/-- The text of a byte string. -/
def encode : Bytes → Bytes
  | [] => []
  | [x] => [digit (x.toNat / 4), digit (x.toNat % 4 * 16), 61, 61]
  | [x, y] =>
    [digit (x.toNat / 4), digit (x.toNat % 4 * 16 + y.toNat / 16), digit (y.toNat % 16 * 4), 61]
  | x :: y :: z :: rest =>
    digit (x.toNat / 4) :: digit (x.toNat % 4 * 16 + y.toNat / 16) ::
      digit (y.toNat % 16 * 4 + z.toNat / 64) :: digit (z.toNat % 64) :: encode rest

/-- The first of the bytes behind four characters. -/
def first (a b : ℕ) : UInt8 := UInt8.ofNat (a * 4 + b / 16)

/-- The second of the bytes behind four characters. -/
def second (b c : ℕ) : UInt8 := UInt8.ofNat (b % 16 * 16 + c / 4)

/-- The third of the bytes behind four characters. -/
def third (c d : ℕ) : UInt8 := UInt8.ofNat (c % 4 * 64 + d)

/-- The bytes behind a text without line breaks. -/
def decodeQuads : Bytes → Option Bytes
  | [] => some []
  | [a, b, 61, 61] => do
    let a ← value a
    let b ← value b
    return [first a b]
  | [a, b, c, 61] => do
    let a ← value a
    let b ← value b
    let c ← value c
    return [first a b, second b c]
  | a :: b :: c :: d :: rest => do
    let a ← value a
    let b ← value b
    let c ← value c
    let d ← value d
    let bytes ← decodeQuads rest
    return first a b :: second b c :: third c d :: bytes
  | _ => none

/-- The bytes behind a text. -/
def decode (text : Bytes) : Option Bytes := decodeQuads (text.filter fun c ↦ c ≠ 10 ∧ c ≠ 13)

/-! ### What is written is read back -/

theorem value_digit : ∀ n < 64, value (digit n) = some n := by decide

theorem digit_ne : ∀ n < 64, digit n ≠ 61 ∧ digit n ≠ 10 ∧ digit n ≠ 13 := by decide

/-- What the characters of a byte string are: digits, and padding. -/
theorem mem_encode {c : UInt8} : ∀ b : Bytes, c ∈ encode b → c = 61 ∨ ∃ n < 64, c = digit n
  | [], h => absurd h List.not_mem_nil
  | [x], h => by
    have hx := x.toNat_lt
    simp only [encode, List.mem_cons, List.not_mem_nil, or_false] at h
    rcases h with rfl | rfl | rfl | rfl
    · exact Or.inr ⟨_, by omega, rfl⟩
    · exact Or.inr ⟨_, by omega, rfl⟩
    · exact Or.inl rfl
    · exact Or.inl rfl
  | [x, y], h => by
    have hx := x.toNat_lt
    have hy := y.toNat_lt
    simp only [encode, List.mem_cons, List.not_mem_nil, or_false] at h
    rcases h with rfl | rfl | rfl | rfl
    · exact Or.inr ⟨_, by omega, rfl⟩
    · exact Or.inr ⟨_, by omega, rfl⟩
    · exact Or.inr ⟨_, by omega, rfl⟩
    · exact Or.inl rfl
  | x :: y :: z :: rest, h => by
    have hx := x.toNat_lt
    have hy := y.toNat_lt
    have hz := z.toNat_lt
    simp only [encode, List.mem_cons] at h
    rcases h with rfl | rfl | rfl | rfl | h
    · exact Or.inr ⟨_, by omega, rfl⟩
    · exact Or.inr ⟨_, by omega, rfl⟩
    · exact Or.inr ⟨_, by omega, rfl⟩
    · exact Or.inr ⟨_, by omega, rfl⟩
    · exact mem_encode rest h

/-- The text has no line breaks. -/
theorem filter_encode (b : Bytes) : (encode b).filter (fun c ↦ c ≠ 10 ∧ c ≠ 13) = encode b := by
  refine List.filter_eq_self.2 fun c hc ↦ decide_eq_true ?_
  rcases mem_encode b hc with rfl | ⟨n, hn, rfl⟩
  · decide
  · exact (digit_ne n hn).2

theorem first_eq (x : UInt8) {n : ℕ} (h : n < 16) :
    first (x.toNat / 4) (x.toNat % 4 * 16 + n) = x := by
  rw [first, show x.toNat / 4 * 4 + (x.toNat % 4 * 16 + n) / 16 = x.toNat by omega,
    UInt8.ofNat_toNat]

theorem second_eq (x y : UInt8) {n : ℕ} (h : n < 4) :
    second (x.toNat % 4 * 16 + y.toNat / 16) (y.toNat % 16 * 4 + n) = y := by
  have hy := y.toNat_lt
  rw [second, show (x.toNat % 4 * 16 + y.toNat / 16) % 16 * 16 + (y.toNat % 16 * 4 + n) / 4 =
    y.toNat by omega, UInt8.ofNat_toNat]

theorem third_eq (y z : UInt8) :
    third (y.toNat % 16 * 4 + z.toNat / 64) (z.toNat % 64) = z := by
  have hz := z.toNat_lt
  rw [third, show (y.toNat % 16 * 4 + z.toNat / 64) % 4 * 64 + z.toNat % 64 = z.toNat by omega,
    UInt8.ofNat_toNat]

theorem decodeQuads_encode : ∀ b : Bytes, decodeQuads (encode b) = some b
  | [] => rfl
  | [x] => by
    have hx := x.toNat_lt
    have hfirst := first_eq x (n := 0) (by decide)
    rw [Nat.add_zero] at hfirst
    rw [encode, decodeQuads, value_digit _ (by omega), value_digit _ (by omega)]
    show some [first _ _] = _
    rw [hfirst]
  | [x, y] => by
    have hx := x.toNat_lt
    have hy := y.toNat_lt
    have hsecond := second_eq x y (n := 0) (by decide)
    rw [Nat.add_zero] at hsecond
    rw [encode, decodeQuads, value_digit _ (by omega), value_digit _ (by omega),
      value_digit _ (by omega)]
    · show some [first _ _, second _ _] = _
      rw [first_eq x (by omega), hsecond]
    · exact fun h ↦ absurd h (digit_ne _ (by omega)).1
  | x :: y :: z :: rest => by
    have hx := x.toNat_lt
    have hy := y.toNat_lt
    have hz := z.toNat_lt
    rw [encode, decodeQuads, value_digit _ (by omega), value_digit _ (by omega),
      value_digit _ (by omega), value_digit _ (by omega), decodeQuads_encode rest]
    · show some (first _ _ :: second _ _ :: third _ _ :: rest) = _
      rw [first_eq x (by omega), second_eq x y (by omega), third_eq]
    · exact fun h ↦ absurd h (digit_ne _ (by omega)).1
    · exact fun h ↦ absurd h (digit_ne _ (by omega)).1

/-- **Base64 is faithful.** -/
theorem decode_encode (b : Bytes) : decode (encode b) = some b := by
  rw [decode, filter_encode, decodeQuads_encode]

/-! ### The order of texts -/

/-- The six-bit groups of a byte string, the last filled up with zeros. -/
def sextets : Bytes → List ℕ
  | [] => []
  | [x] => [x.toNat / 4, x.toNat % 4 * 16]
  | [x, y] => [x.toNat / 4, x.toNat % 4 * 16 + y.toNat / 16, y.toNat % 16 * 4]
  | x :: y :: z :: rest =>
    x.toNat / 4 :: (x.toNat % 4 * 16 + y.toNat / 16) :: (y.toNat % 16 * 4 + z.toNat / 64) ::
      z.toNat % 64 :: sextets rest

/-- The padding of a byte string of length `n`. -/
def padding (n : ℕ) : Bytes := List.replicate ((3 - n % 3) % 3) 61

theorem encode_eq : ∀ b : Bytes, encode b = (sextets b).map digit ++ padding b.length
  | [] => rfl
  | [_] => rfl
  | [_, _] => rfl
  | x :: y :: z :: rest => by
    have hpad : padding (rest.length + 1 + 1 + 1) = padding rest.length := by
      rw [padding, padding, show (rest.length + 1 + 1 + 1) % 3 = rest.length % 3 by omega]
    rw [encode, sextets, encode_eq rest, List.length_cons, List.length_cons, List.length_cons, hpad]
    rfl

theorem sextets_lt {n : ℕ} : ∀ b : Bytes, n ∈ sextets b → n < 64
  | [], h => absurd h List.not_mem_nil
  | [x], h => by
    have hx := x.toNat_lt
    simp only [sextets, List.mem_cons, List.not_mem_nil, or_false] at h
    omega
  | [x, y], h => by
    have hx := x.toNat_lt
    have hy := y.toNat_lt
    simp only [sextets, List.mem_cons, List.not_mem_nil, or_false] at h
    omega
  | x :: y :: z :: rest, h => by
    have hx := x.toNat_lt
    have hy := y.toNat_lt
    have hz := z.toNat_lt
    simp only [sextets, List.mem_cons] at h
    rcases h with rfl | rfl | rfl | rfl | h
    · omega
    · omega
    · omega
    · omega
    · exact sextets_lt rest h

theorem length_sextets : ∀ {b b' : Bytes}, b.length = b'.length →
    (sextets b).length = (sextets b').length
  | [], b', h => by rw [List.length_eq_zero_iff.1 h.symm]
  | [_], [_], _ => rfl
  | [_, _], [_, _], _ => rfl
  | _ :: _ :: _ :: rest, _ :: _ :: _ :: rest', h => by
    have hrest : rest.length = rest'.length := by simpa using h
    simp only [sextets, List.length_cons, length_sextets hrest]

/-- Cutting bytes into groups of six bits keeps their order. -/
theorem sextets_lt_iff : ∀ {b b' : Bytes}, b.length = b'.length → (sextets b < sextets b' ↔ b < b')
  | [], b', h => by
    obtain rfl := List.length_eq_zero_iff.1 h.symm
    exact iff_of_false (List.not_lt_nil _) (List.not_lt_nil _)
  | [x], [x'], _ => by
    simp only [sextets, List.cons_lt_cons_iff, List.not_lt_nil, and_false, or_false,
      UInt8.lt_iff_toNat_lt]
    omega
  | [x, y], [x', y'], _ => by
    have hy := y.toNat_lt
    have hy' := y'.toNat_lt
    simp only [sextets, List.cons_lt_cons_iff, List.not_lt_nil, and_false, or_false,
      UInt8.lt_iff_toNat_lt, ← UInt8.toNat_inj]
    omega
  | x :: y :: z :: rest, x' :: y' :: z' :: rest', h => by
    have hrest : rest.length = rest'.length := by simpa using h
    have hy := y.toNat_lt
    have hy' := y'.toNat_lt
    have hz := z.toNat_lt
    have hz' := z'.toNat_lt
    simp only [sextets, List.cons_lt_cons_iff, UInt8.lt_iff_toNat_lt, ← UInt8.toNat_inj,
      sextets_lt_iff hrest]
    by_cases hlt : rest < rest'
    · simp only [hlt, and_true]
      omega
    · simp only [hlt, and_false, or_false]
      omega

/-- The run of the alphabet a group is written in: letters, figures, or signs. Within a run,
characters and numbers ascend together. -/
def run (n : ℕ) : ℕ := if n < 52 then 0 else if n < 62 then 1 else 2

theorem digit_inj : ∀ n < 64, ∀ m < 64, digit n = digit m → n = m := by decide +kernel

/-- Only within a run do characters ascend with their numbers. -/
theorem digit_lt_iff : ∀ n < 64, ∀ m < 64, n ≠ m →
    ((digit n < digit m ↔ n < m) ↔ run n = run m) := by decide +kernel

/-- Where two byte strings first differ, their groups of six bits are of one run. -/
def SameRun (b b' : Bytes) : Prop :=
  ∀ n m, firstDifference (sextets b) (sextets b') = some (n, m) → run n = run m

instance (b b' : Bytes) : Decidable (SameRun b b') :=
  match h : firstDifference (sextets b) (sextets b') with
  | none => isTrue fun n m hsome ↦ absurd (h.symm.trans hsome) (Option.some_ne_none _).symm
  | some (n, m) => decidable_of_iff (run n = run m)
      ⟨fun hrun n' m' hsome ↦ by
        obtain ⟨rfl, rfl⟩ := Prod.mk.inj (Option.some.inj (h.symm.trans hsome))
        exact hrun, fun hsame ↦ hsame n m h⟩

/-- The texts of two byte strings of one length differ first where their groups do. -/
theorem firstDifference_encode {b b' : Bytes} (h : b.length = b'.length) :
    firstDifference (encode b) (encode b') =
      (firstDifference (sextets b) (sextets b')).map (Prod.map digit digit) := by
  have hlen : ((sextets b).map digit).length = ((sextets b').map digit).length := by
    rw [List.length_map, List.length_map, length_sextets h]
  rw [encode_eq, encode_eq, h, firstDifference_append_right hlen]
  exact firstDifference_map fun n hn m hm ↦
    digit_inj n (sextets_lt b hn) m (sextets_lt b' hm)

/-- **The order of texts is the order of bytes within a run,** and nowhere else. -/
theorem encode_lt_iff {b b' : Bytes} (h : b.length = b'.length) :
    (encode b < encode b' ↔ b < b') ↔ SameRun b b' := by
  have hlen : (encode b).length = (encode b').length := by
    rw [encode_eq, encode_eq, List.length_append, List.length_append, List.length_map,
      List.length_map, length_sextets h, h]
  rw [← sextets_lt_iff h, lt_iff_firstDifference hlen, lt_iff_firstDifference (length_sextets h),
    firstDifference_encode h, SameRun]
  cases hfirst : firstDifference (sextets b) (sextets b') with
  | none =>
    refine iff_of_true (iff_of_false ?_ ?_) ?_
    · rintro ⟨x, y, hnone, -⟩
      exact absurd hnone (Option.some_ne_none _).symm
    · rintro ⟨x, y, hnone, -⟩
      exact absurd hnone (Option.some_ne_none _).symm
    · intro n m hnone
      exact absurd hnone (Option.some_ne_none _).symm
  | some p =>
    obtain ⟨n, m⟩ := p
    obtain ⟨hn, hm, hne⟩ := mem_of_firstDifference hfirst
    have hdigits := digit_lt_iff n (sextets_lt b hn) m (sextets_lt b' hm) hne
    simp only [Option.map_some, Prod.map_apply, Option.some.injEq, Prod.mk.injEq]
    constructor
    · intro hiff n' m' hnm
      obtain ⟨rfl, rfl⟩ := hnm
      refine hdigits.1 ⟨fun hlt ↦ ?_, fun hlt ↦ ?_⟩
      · obtain ⟨_, _, ⟨rfl, rfl⟩, hlt'⟩ := hiff.1 ⟨_, _, ⟨rfl, rfl⟩, hlt⟩
        exact hlt'
      · obtain ⟨_, _, ⟨rfl, rfl⟩, hlt'⟩ := hiff.2 ⟨_, _, ⟨rfl, rfl⟩, hlt⟩
        exact hlt'
    · intro hrun
      have hiff := hdigits.2 (hrun n m ⟨rfl, rfl⟩)
      constructor
      · rintro ⟨_, _, ⟨rfl, rfl⟩, hlt⟩
        exact ⟨n, m, ⟨rfl, rfl⟩, hiff.1 hlt⟩
      · rintro ⟨_, _, ⟨rfl, rfl⟩, hlt⟩
        exact ⟨_, _, ⟨rfl, rfl⟩, hiff.2 hlt⟩

theorem encode_inj {b b' : Bytes} (h : encode b = encode b') : b = b' := by
  have hdecode : some b = some b' := by rw [← decode_encode b, h, decode_encode b']
  exact Option.some.inj hdecode

end Base64
