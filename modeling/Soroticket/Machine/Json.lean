import Mathlib.Data.List.TakeWhile
import Soroticket.Machine.Bytes

/-!
# JSON texts

The reader of a standard library's JSON package: the text of a value is read into a `Value`, which
keeps numbers as they are written and members in their order, duplicates included. Bytes become
characters first, with a replacement character for each byte that is no part of one (`runes`).

A text that was written is read back. Texts that continue are stated with what follows them, so that
they compose: a string (`text_quote`), an integer (`number_integer`), and an object of such members
(`parse_object`).
-/

namespace Json

/-! ### Characters -/

/-- The characters of a byte string. -/
def runes : Bytes → List Char
  | [] => []
  | x :: rest =>
    match (x :: rest).toByteArray.utf8DecodeChar? 0 with
    | some c => c :: runes (rest.drop (c.utf8Size - 1))
    | none => '\uFFFD' :: runes rest
termination_by b => b.length
decreasing_by
  · rw [List.length_drop, List.length_cons]
    omega
  · exact Nat.lt_succ_self _

/-- A character of ASCII is one byte. -/
theorem utf8EncodeChar_of_lt {c : Char} (h : c.toNat < 128) :
    String.utf8EncodeChar c = [c.toNat.toUInt8] := by
  have hsize : c.utf8Size = 1 :=
    Char.utf8Size_eq_one_iff.2 (UInt32.le_iff_toNat_le.2 (Nat.le_of_lt_succ h))
  rw [String.utf8EncodeChar_eq_singleton hsize]
  rfl

theorem runes_utf8EncodeChar_append (c : Char) (rest : Bytes) :
    runes (String.utf8EncodeChar c ++ rest) = c :: runes rest := by
  have hlen := String.length_utf8EncodeChar c
  have hpos := c.utf8Size_pos
  rcases hc : String.utf8EncodeChar c with - | ⟨x, more⟩
  · rw [hc, List.length_nil] at hlen
    omega
  · have hdecode : (x :: (more ++ rest)).toByteArray.utf8DecodeChar? 0 = some c := by
      have h := @ByteArray.utf8DecodeChar?_utf8EncodeChar_append rest.toByteArray c
      rwa [hc, ← List.toByteArray_append] at h
    have hdrop : (more ++ rest).drop (c.utf8Size - 1) = rest := by
      rw [hc, List.length_cons] at hlen
      rw [← hlen, Nat.add_sub_cancel, List.drop_left]
    rw [List.cons_append, runes, hdecode]
    exact congrArg (c :: runes ·) hdrop

/-- Where two texts are one, their first characters are. -/
theorem eq_of_utf8EncodeChar_append {c c' : Char} {rest rest' : Bytes}
    (h : String.utf8EncodeChar c ++ rest = String.utf8EncodeChar c' ++ rest') : c = c' := by
  have hrunes := congrArg runes h
  rw [runes_utf8EncodeChar_append, runes_utf8EncodeChar_append] at hrunes
  exact (List.cons.inj hrunes).1

/-- **A text is its characters.** -/
theorem runes_append (cs : List Char) (rest : Bytes) :
    runes (cs.flatMap String.utf8EncodeChar ++ rest) = cs ++ runes rest := by
  induction cs with
  | nil => rfl
  | cons c cs ih => rw [List.flatMap_cons, List.append_assoc, runes_utf8EncodeChar_append, ih,
      List.cons_append]

/-! ### Reading -/

/-- A JSON value. -/
inductive Value where
  | null
  | bool (b : Bool)
  | number (text : List Char)
  | string (text : List Char)
  | array (elements : List Value)
  | object (members : List (List Char × Value))

/-- White space between tokens. -/
def isSpace (c : Char) : Bool := c = ' ' ∨ c = '\t' ∨ c = '\r' ∨ c = '\n'

/-- Skip white space. -/
def skip (cs : List Char) : List Char := cs.dropWhile isSpace

/-- What stands between the quotes of a string: characters, and escaped code units. -/
inductive Piece where
  | char (c : Char)
  | unit (u : ℕ)

/-- The number of a hexadecimal digit, of either case. -/
def hexValue (c : Char) : Option ℕ :=
  if '0' ≤ c ∧ c ≤ '9' then some (c.toNat - 48)
  else if 'a' ≤ c ∧ c ≤ 'f' then some (c.toNat - 87)
  else if 'A' ≤ c ∧ c ≤ 'F' then some (c.toNat - 55)
  else none

/-- The code unit of four digits. -/
def unit (a b c d : Char) : Option ℕ := do
  let a ← hexValue a
  let b ← hexValue b
  let c ← hexValue c
  let d ← hexValue d
  return 4096 * a + 256 * b + 16 * c + d

/-- The character a letter after a backslash stands for. -/
def escape (c : Char) : Option Char :=
  match c with
  | '"' => some '"'
  | '\\' => some '\\'
  | '/' => some '/'
  | 'b' => some '\x08'
  | 'f' => some '\x0c'
  | 'n' => some '\n'
  | 'r' => some '\r'
  | 't' => some '\t'
  | _ => none

/-- Put a piece before what was read. -/
def push (p : Piece) (q : List Piece × List Char) : List Piece × List Char := (p :: q.1, q.2)

/-- A string from behind its first quote to its last, and what follows. -/
def pieces : List Char → Option (List Piece × List Char)
  | '"' :: rest => some ([], rest)
  | '\\' :: 'u' :: a :: b :: c :: d :: rest =>
    (unit a b c d).bind fun u ↦ (pieces rest).map (push (.unit u))
  | '\\' :: c :: rest => (escape c).bind fun c ↦ (pieces rest).map (push (.char c))
  | c :: rest => if 32 ≤ c.toNat ∧ c ≠ '\\' then (pieces rest).map (push (.char c)) else none
  | [] => none

/-- The first half of a surrogate pair. -/
def isHigh (u : ℕ) : Bool := 0xd800 ≤ u ∧ u < 0xdc00

/-- The second half of a surrogate pair. -/
def isLow (u : ℕ) : Bool := 0xdc00 ≤ u ∧ u < 0xe000

/-- The character of a code unit that is paired with no other. -/
def single (u : ℕ) : Char := if isHigh u ∨ isLow u then '\uFFFD' else Char.ofNat u

/-- The characters of a string: two code units that form a pair are one. -/
def join : List Piece → List Char
  | [] => []
  | .char c :: rest => c :: join rest
  | .unit u :: .unit v :: rest =>
    if isHigh u ∧ isLow v then
      Char.ofNat (0x10000 + 0x400 * (u - 0xd800) + (v - 0xdc00)) :: join rest
    else single u :: join (.unit v :: rest)
  | .unit u :: rest => single u :: join rest

/-- The text of a string, from behind its first quote. -/
def text (cs : List Char) : Option (List Char × List Char) :=
  (pieces cs).map fun p ↦ (join p.1, p.2)

/-- Digits, one at least. -/
def digits (cs : List Char) : Option (List Char × List Char) :=
  match cs.takeWhile Char.isDigit with
  | [] => none
  | ds => some (ds, cs.dropWhile Char.isDigit)

/-- The digits before the point: a zero alone, or no leading zero. -/
def wholePart : List Char → Option (List Char × List Char)
  | '0' :: rest => some (['0'], rest)
  | cs => digits cs

/-- The point and the digits behind it, if there are any. -/
def fraction : List Char → Option (List Char × List Char)
  | '.' :: rest => (digits rest).map fun p ↦ ('.' :: p.1, p.2)
  | cs => some ([], cs)

/-- The sign of an exponent. -/
def sign : List Char → List Char × List Char
  | '+' :: rest => (['+'], rest)
  | '-' :: rest => (['-'], rest)
  | cs => ([], cs)

/-- The exponent, if there is one. -/
def exponent : List Char → Option (List Char × List Char)
  | [] => some ([], [])
  | c :: rest =>
    if c = 'e' ∨ c = 'E' then
      (digits (sign rest).2).map fun p ↦ (c :: (sign rest).1 ++ p.1, p.2)
    else some ([], c :: rest)

/-- A number without its sign. -/
def unsigned (cs : List Char) : Option (List Char × List Char) := do
  let (whole, cs) ← wholePart cs
  let (frac, cs) ← fraction cs
  let (exp, cs) ← exponent cs
  return (whole ++ frac ++ exp, cs)

/-- A number, as it is written. -/
def number : List Char → Option (Value × List Char)
  | '-' :: rest => (unsigned rest).map fun p ↦ (.number ('-' :: p.1), p.2)
  | cs => (unsigned cs).map fun p ↦ (.number p.1, p.2)

mutual

/-- A value, and what follows. `depth` is how deep it may still be nested. -/
def value : ℕ → ℕ → List Char → Option (Value × List Char)
  | 0, _, _ => none
  | fuel + 1, depth, cs =>
    match skip cs with
    | '"' :: rest => (text rest).map fun p ↦ (.string p.1, p.2)
    | '{' :: rest =>
      match depth with
      | 0 => none
      | depth + 1 =>
        match skip rest with
        | '}' :: rest => some (.object [], rest)
        | rest => (members fuel depth rest).map fun p ↦ (.object p.1, p.2)
    | '[' :: rest =>
      match depth with
      | 0 => none
      | depth + 1 =>
        match skip rest with
        | ']' :: rest => some (.array [], rest)
        | rest => (elements fuel depth rest).map fun p ↦ (.array p.1, p.2)
    | 't' :: 'r' :: 'u' :: 'e' :: rest => some (.bool true, rest)
    | 'f' :: 'a' :: 'l' :: 's' :: 'e' :: rest => some (.bool false, rest)
    | 'n' :: 'u' :: 'l' :: 'l' :: rest => some (.null, rest)
    | cs => number cs

/-- The members of an object to its end. -/
def members : ℕ → ℕ → List Char → Option (List (List Char × Value) × List Char)
  | 0, _, _ => none
  | fuel + 1, depth, cs =>
    match skip cs with
    | '"' :: rest => do
      let (key, rest) ← text rest
      match skip rest with
      | ':' :: rest =>
        let (v, rest) ← value fuel depth rest
        match skip rest with
        | ',' :: rest => (members fuel depth rest).map fun p ↦ ((key, v) :: p.1, p.2)
        | '}' :: rest => some ([(key, v)], rest)
        | _ => none
      | _ => none
    | _ => none

/-- The elements of an array to its end. -/
def elements : ℕ → ℕ → List Char → Option (List Value × List Char)
  | 0, _, _ => none
  | fuel + 1, depth, cs => do
    let (v, rest) ← value fuel depth cs
    match skip rest with
    | ',' :: rest => (elements fuel depth rest).map fun p ↦ (v :: p.1, p.2)
    | ']' :: rest => some ([v], rest)
    | _ => none

end

/-- How deep values may be nested. -/
def maxDepth : ℕ := 10000

/-- The value a text is, with white space around it. -/
def parse (cs : List Char) : Option Value :=
  match value (cs.length + 1) maxDepth cs with
  | some (v, rest) => if skip rest = [] then some v else none
  | none => none

/-- The number digits stand for. -/
def natural (ds : List Char) : Option ℕ :=
  if ds ≠ [] ∧ ds.all Char.isDigit then some (Nat.ofDigitChars 10 ds 0) else none

/-- The integer a number stands for, if it is written as one. -/
def integer? : List Char → Option ℤ
  | '-' :: ds => (natural ds).map fun n ↦ -n
  | ds => (natural ds).map fun n ↦ n

/-! ### Writing -/

/-- The four digits of a code unit. -/
def hex (n : ℕ) : List Char :=
  [(n / 4096 % 16).digitChar, (n / 256 % 16).digitChar, (n / 16 % 16).digitChar,
    (n % 16).digitChar]

/-- Whether a character is written as a code unit: the other control characters, those that mean
something to HTML, and the line separators. -/
def isUnit (c : Char) : Bool :=
  c.toNat < 32 ∨ c = '<' ∨ c = '>' ∨ c = '&' ∨ c = '\u2028' ∨ c = '\u2029'

/-- A character as it is written in a string. -/
def quoteChar (c : Char) : List Char :=
  if c = '"' then ['\\', '"']
  else if c = '\\' then ['\\', '\\']
  else if c = '\x08' then ['\\', 'b']
  else if c = '\x0c' then ['\\', 'f']
  else if c = '\n' then ['\\', 'n']
  else if c = '\r' then ['\\', 'r']
  else if c = '\t' then ['\\', 't']
  else if isUnit c then '\\' :: 'u' :: hex c.toNat
  else [c]

/-- A string. -/
def quote (cs : List Char) : List Char := '"' :: (cs.flatMap quoteChar ++ ['"'])

/-- An integer. -/
def integer (n : ℤ) : List Char := (toString n).toList

/-- A member, of the text of its value. -/
def member (key value : List Char) : List Char := quote key ++ ':' :: value

/-- An object of one member at least, each with the text of its value. -/
def object (m : List Char × List Char) (ms : List (List Char × List Char)) : List Char :=
  '{' :: (member m.1 m.2 ++ (ms.flatMap fun m ↦ ',' :: member m.1 m.2) ++ ['}'])

/-! ### Strings -/

theorem hexValue_digitChar : ∀ n < 16, hexValue n.digitChar = some n := by decide

theorem unit_hex {n : ℕ} (h : n < 65536) :
    unit (n / 4096 % 16).digitChar (n / 256 % 16).digitChar (n / 16 % 16).digitChar
      (n % 16).digitChar = some n := by
  have hmod : ∀ m, m % 16 < 16 := fun m ↦ Nat.mod_lt m (by decide)
  rw [unit, hexValue_digitChar _ (hmod _), hexValue_digitChar _ (hmod _),
    hexValue_digitChar _ (hmod _), hexValue_digitChar _ (hmod _)]
  show some (4096 * (n / 4096 % 16) + 256 * (n / 256 % 16) + 16 * (n / 16 % 16) + n % 16) = _
  congr 1
  omega

theorem pieces_escape {e c : Char} (h : escape e = some c) (rest : List Char) :
    pieces ('\\' :: e :: rest) = (pieces rest).map (push (.char c)) := by
  have hne : e ≠ 'u' := by
    rintro rfl
    exact absurd h.symm (Option.some_ne_none c)
  rw [pieces.eq_def]
  split <;> grind

theorem pieces_plain {c : Char} (hquote : c ≠ '"') (hslash : c ≠ '\\') (hlow : ¬c.toNat < 32)
    (rest : List Char) : pieces (c :: rest) = (pieces rest).map (push (.char c)) := by
  rw [pieces.eq_def]
  split <;> simp_all

theorem lt_of_isUnit {c : Char} (h : isUnit c) : c.toNat < 0xd800 := by
  rcases of_decide_eq_true h with hlow | rfl | rfl | rfl | rfl | rfl
  · omega
  all_goals decide

/-- What a character is written as is read as one piece. -/
theorem pieces_quoteChar (c : Char) : ∃ p, (p = .char c ∨ (p = .unit c.toNat ∧ isUnit c)) ∧
    ∀ rest, pieces (quoteChar c ++ rest) = (pieces rest).map (push p) := by
  unfold quoteChar
  split_ifs with h₁ h₂ h₃ h₄ h₅ h₆ h₇ h₈
  case pos => exact ⟨_, Or.inl rfl, pieces_escape (by rw [h₁]; rfl)⟩
  case pos => exact ⟨_, Or.inl rfl, pieces_escape (by rw [h₂]; rfl)⟩
  case pos => exact ⟨_, Or.inl rfl, pieces_escape (h₃ ▸ rfl)⟩
  case pos => exact ⟨_, Or.inl rfl, pieces_escape (h₄ ▸ rfl)⟩
  case pos => exact ⟨_, Or.inl rfl, pieces_escape (h₅ ▸ rfl)⟩
  case pos => exact ⟨_, Or.inl rfl, pieces_escape (h₆ ▸ rfl)⟩
  case pos => exact ⟨_, Or.inl rfl, pieces_escape (h₇ ▸ rfl)⟩
  case pos =>
    refine ⟨.unit c.toNat, Or.inr ⟨rfl, h₈⟩, fun rest ↦ ?_⟩
    show pieces ('\\' :: 'u' :: _ :: _ :: _ :: _ :: rest) = _
    rw [pieces, unit_hex ((lt_of_isUnit h₈).trans (by decide)), Option.bind_some]
  case neg =>
    refine ⟨.char c, Or.inl rfl, pieces_plain h₁ h₂ fun hlow ↦ h₈ ?_⟩
    exact decide_eq_true (Or.inl hlow)

/-- A piece a character was written as is that character. -/
theorem join_cons {c : Char} {p : Piece} (h : p = .char c ∨ (p = .unit c.toNat ∧ isUnit c))
    (ps : List Piece) : join (p :: ps) = c :: join ps := by
  rcases h with rfl | ⟨rfl, hunit⟩
  · rfl
  · have hlt := lt_of_isUnit hunit
    have hhigh : isHigh c.toNat = false := decide_eq_false (by omega)
    have hlow : isLow c.toNat = false := decide_eq_false (by omega)
    have hsingle : single c.toNat = c := by
      rw [single, hhigh, hlow, if_neg (by simp), Char.ofNat_toNat]
    rcases ps with - | ⟨- | v, ps⟩
    · exact congrArg (· :: join []) hsingle
    · exact congrArg (· :: join (_ :: ps)) hsingle
    · rw [join, hhigh, if_neg (by simp), hsingle]

/-- **A string is read back.** -/
theorem text_quote (cs rest : List Char) :
    text (cs.flatMap quoteChar ++ '"' :: rest) = some (cs, rest) := by
  suffices h : ∃ ps, pieces (cs.flatMap quoteChar ++ '"' :: rest) = some (ps, rest) ∧
      join ps = cs by
    obtain ⟨ps, hps, hjoin⟩ := h
    rw [text, hps, Option.map_some, hjoin]
  induction cs with
  | nil => exact ⟨[], by rw [List.flatMap_nil, List.nil_append, pieces], rfl⟩
  | cons c cs ih =>
    obtain ⟨ps, hps, hjoin⟩ := ih
    obtain ⟨p, hp, hread⟩ := pieces_quoteChar c
    refine ⟨p :: ps, ?_, ?_⟩
    · rw [List.flatMap_cons, List.append_assoc, hread, hps]
      rfl
    · rw [join_cons hp, hjoin]

/-! ### Integers -/

/-- What follows a value inside an object. -/
def Ends (rest : List Char) : Prop := ∃ c more, rest = c :: more ∧ (c = ',' ∨ c = '}')

theorem digits_append {ds rest : List Char} (hne : ds ≠ []) (hds : ∀ c ∈ ds, c.isDigit)
    (hrest : Ends rest) : digits (ds ++ rest) = some (ds, rest) := by
  obtain ⟨c, more, rfl, hc⟩ := hrest
  have hstop : c.isDigit = false := by rcases hc with rfl | rfl <;> rfl
  have htake : (ds ++ c :: more).takeWhile Char.isDigit = ds := by
    rw [List.takeWhile_append_of_pos hds, List.takeWhile_cons, hstop]
    exact List.append_nil ds
  have hdrop : (ds ++ c :: more).dropWhile Char.isDigit = c :: more := by
    rw [List.dropWhile_append_of_pos hds, List.dropWhile_cons, hstop]
    rfl
  rw [digits, htake, hdrop]
  rcases ds with - | ⟨d, ds⟩
  · exact absurd rfl hne
  · rfl

/-- The digits of a number start with no zero, but for zero itself. -/
theorem toDigits_cases (n : ℕ) : Nat.toDigits 10 n = ['0'] ∨
    ∃ c ds, Nat.toDigits 10 n = c :: ds ∧ c ≠ '0' := by
  induction n using Nat.strong_induction_on with
  | _ n ih =>
    rcases Nat.lt_or_ge n 10 with hlt | hge
    · rw [Nat.toDigits_of_lt_base hlt]
      rcases Nat.eq_zero_or_pos n with rfl | hpos
      · exact Or.inl rfl
      · refine Or.inr ⟨_, [], rfl, ?_⟩
        have hall : ∀ m < 10, 0 < m → m.digitChar ≠ '0' := by decide
        exact hall n hlt hpos
    · rw [Nat.toDigits_of_base_le (by decide) hge]
      rcases ih (n / 10) (by omega) with hzero | ⟨c, ds, hcons, hc⟩
      · have hdiv : 10 ≤ n → n / 10 ≠ 0 := by omega
        have h := Nat.ofDigitChars_ten_toDigits (n := n / 10)
        rw [hzero] at h
        exact absurd h.symm (hdiv hge)
      · exact Or.inr ⟨c, _, by rw [hcons, List.cons_append], hc⟩

theorem unsigned_toDigits (n : ℕ) {rest : List Char} (hrest : Ends rest) :
    unsigned (Nat.toDigits 10 n ++ rest) = some (Nat.toDigits 10 n, rest) := by
  have hwhole : wholePart (Nat.toDigits 10 n ++ rest) = some (Nat.toDigits 10 n, rest) := by
    have hdigits : digits (Nat.toDigits 10 n ++ rest) = some (Nat.toDigits 10 n, rest) :=
      digits_append Nat.toDigits_ne_nil
        (fun c hc ↦ Nat.isDigit_of_mem_toDigits (by decide) (by decide) hc) hrest
    rcases toDigits_cases n with hzero | ⟨c, ds, hcons, hc⟩
    · rw [hzero]
      rfl
    · rw [hcons] at hdigits ⊢
      rw [List.cons_append, wholePart, ← List.cons_append, hdigits]
      exact fun _ heq ↦ hc (List.cons.inj heq).1
  have hfrac : fraction rest = some ([], rest) := by
    obtain ⟨c, more, rfl, rfl | rfl⟩ := hrest <;> rfl
  have hexp : exponent rest = some ([], rest) := by
    obtain ⟨c, more, rfl, rfl | rfl⟩ := hrest <;> rfl
  rw [unsigned, hwhole]
  show (fraction rest).bind _ = _
  rw [hfrac]
  show (exponent rest).bind _ = _
  rw [hexp]
  show some (Nat.toDigits 10 n ++ [] ++ [], rest) = _
  rw [List.append_nil, List.append_nil]

/-- The first digit of a number is a digit. -/
theorem toDigits_eq_cons (n : ℕ) : ∃ c ds, Nat.toDigits 10 n = c :: ds ∧ c.isDigit := by
  rcases hds : Nat.toDigits 10 n with - | ⟨c, ds⟩
  · exact absurd hds Nat.toDigits_ne_nil
  · have hmem : c ∈ Nat.toDigits 10 n := hds ▸ List.mem_cons_self
    exact ⟨c, ds, rfl, Nat.isDigit_of_mem_toDigits (by decide) (by decide) hmem⟩

theorem integer_cases (n : ℤ) : (∃ m : ℕ, n = m ∧ integer n = Nat.toDigits 10 m) ∨
    ∃ m : ℕ, n = -m ∧ integer n = '-' :: Nat.toDigits 10 m := by
  rcases n with m | m
  · refine Or.inl ⟨m, rfl, ?_⟩
    show (Nat.repr m).toList = _
    rw [Nat.toList_repr]
  · refine Or.inr ⟨m + 1, rfl, ?_⟩
    show ("-" ++ Nat.repr (m + 1)).toList = _
    rw [String.toList_append, Nat.toList_repr]
    rfl

/-- **An integer is read back.** -/
theorem number_integer (n : ℤ) {rest : List Char} (hrest : Ends rest) :
    number (integer n ++ rest) = some (.number (integer n), rest) := by
  rcases integer_cases n with ⟨m, -, hm⟩ | ⟨m, -, hm⟩
  · have hunsigned := unsigned_toDigits m hrest
    obtain ⟨c, ds, hcons, hc⟩ := toDigits_eq_cons m
    rw [hcons] at hunsigned
    rw [hm, hcons, List.cons_append, number, ← List.cons_append, hunsigned]
    · rfl
    · intro more heq
      rw [(List.cons.inj heq).1] at hc
      exact absurd hc (by decide)
  · rw [hm, List.cons_append, number, unsigned_toDigits m hrest]
    rfl

theorem natural_toDigits (n : ℕ) : natural (Nat.toDigits 10 n) = some n := by
  have hall : (Nat.toDigits 10 n).all Char.isDigit = true :=
    List.all_eq_true.2 fun c hc ↦ Nat.isDigit_of_mem_toDigits (by decide) (by decide) hc
  rw [natural, if_pos ⟨Nat.toDigits_ne_nil, hall⟩, Nat.ofDigitChars_ten_toDigits]

/-- **An integer is what it was.** -/
theorem integer?_integer (n : ℤ) : integer? (integer n) = some n := by
  rcases integer_cases n with ⟨m, rfl, hm⟩ | ⟨m, rfl, hm⟩
  · obtain ⟨c, ds, hcons, hc⟩ := toDigits_eq_cons m
    have hnat := natural_toDigits m
    rw [hcons] at hnat
    rw [hm, hcons, integer?, hnat]
    · rfl
    · intro more heq
      rw [(List.cons.inj heq).1] at hc
      exact absurd hc (by decide)
  · rw [hm, integer?, natural_toDigits]
    rfl

/-! ### Objects -/

theorem skip_of_not_space {c : Char} (h : isSpace c = false) (cs : List Char) :
    skip (c :: cs) = c :: cs := by
  rw [skip, List.dropWhile_cons, h]
  rfl

/-- A text of a value is read as it, wherever a value may stand in an object. -/
def Reads (t : List Char) (v : Value) : Prop :=
  ∀ fuel depth rest, Ends rest → value (fuel + 1) depth (t ++ rest) = some (v, rest)

theorem reads_quote (cs : List Char) : Reads (quote cs) (.string cs) := by
  intro fuel depth rest _
  rw [quote, List.cons_append, List.append_assoc, value, skip_of_not_space rfl]
  show (text (cs.flatMap quoteChar ++ '"' :: rest)).map _ = _
  rw [text_quote]
  rfl

/-- What starts like a number is read as one. -/
theorem value_of_number {c : Char} (h : c = '-' ∨ c.isDigit) (fuel depth : ℕ) (cs : List Char) :
    value (fuel + 1) depth (c :: cs) = number (c :: cs) := by
  have hspace : isSpace c = false := by
    refine decide_eq_false ?_
    rintro (rfl | rfl | rfl | rfl) <;> exact absurd h (by decide)
  rw [value, skip_of_not_space hspace]
  split
  all_goals
    first
      | rfl
      | rename_i heq
        rw [(List.cons.inj heq).1] at h
        exact absurd h (by decide)

theorem reads_integer (n : ℤ) : Reads (integer n) (.number (integer n)) := by
  intro fuel depth rest hrest
  have hnumber := number_integer n hrest
  rcases integer_cases n with ⟨m, -, hm⟩ | ⟨m, -, hm⟩
  · obtain ⟨c, ds, hcons, hc⟩ := toDigits_eq_cons m
    rw [hm, hcons, List.cons_append] at hnumber
    rw [hm, hcons, List.cons_append, value_of_number (Or.inr hc), hnumber]
  · rw [hm, List.cons_append] at hnumber
    rw [hm, List.cons_append, value_of_number (Or.inl rfl), hnumber]

/-- A member with its text, and the value that is. -/
structure Member where
  key : List Char
  text : List Char
  value : Value
  reads : Reads text value

/-- The texts of members that follow others. -/
def more (ms : List Member) : List Char := ms.flatMap fun m ↦ ',' :: member m.key m.text

theorem ends_more (ms : List Member) (rest : List Char) : Ends (more ms ++ '}' :: rest) := by
  rcases ms with - | ⟨m, ms⟩
  · exact ⟨'}', rest, rfl, Or.inr rfl⟩
  · exact ⟨',', _, rfl, Or.inl rfl⟩

/-- One member is read, and then what follows it. -/
theorem members_member (m : Member) (fuel depth : ℕ) {tail : List Char} (htail : Ends tail) :
    members (fuel + 2) depth (member m.key m.text ++ tail) =
      match skip tail with
      | ',' :: rest =>
        (members (fuel + 1) depth rest).map fun p ↦ ((m.key, m.value) :: p.1, p.2)
      | '}' :: rest => some ([(m.key, m.value)], rest)
      | _ => none := by
  have htext : text (m.key.flatMap quoteChar ++ '"' :: ':' :: (m.text ++ tail)) =
      some (m.key, ':' :: (m.text ++ tail)) := text_quote m.key _
  have hvalue : value (fuel + 1) depth (m.text ++ tail) = some (m.value, tail) :=
    m.reads fuel depth tail htail
  have hcons : member m.key m.text ++ tail =
      '"' :: (m.key.flatMap quoteChar ++ '"' :: ':' :: (m.text ++ tail)) := by
    rw [member, quote]
    simp only [List.cons_append, List.append_assoc, List.nil_append]
  rw [hcons, members, skip_of_not_space rfl]
  show (text _).bind _ = _
  rw [htext, Option.bind_some]
  dsimp only
  rw [skip_of_not_space rfl]
  show (value (fuel + 1) depth _).bind _ = _
  rw [hvalue]
  rfl

/-- The members of an object are read back. -/
theorem members_more (depth : ℕ) (rest : List Char) (ms : List Member) :
    ∀ (m : Member) (fuel : ℕ), ms.length < fuel →
      members (fuel + 1) depth (member m.key m.text ++ (more ms ++ '}' :: rest)) =
        some ((m :: ms).map fun m ↦ (m.key, m.value), rest) := by
  induction ms with
  | nil =>
    intro m fuel hfuel
    obtain ⟨fuel, rfl⟩ := Nat.exists_eq_add_one.2 (Nat.zero_lt_of_lt hfuel)
    rw [members_member m fuel depth (ends_more [] rest)]
    rfl
  | cons m' ms ih =>
    intro m fuel hfuel
    obtain ⟨fuel, rfl⟩ := Nat.exists_eq_add_one.2 (Nat.zero_lt_of_lt hfuel)
    have hrest := ih m' fuel (Nat.lt_of_succ_lt_succ hfuel)
    rw [members_member m fuel depth (ends_more (m' :: ms) rest)]
    show (members (fuel + 1) depth (member m'.key m'.text ++ more ms ++ '}' :: rest)).map _ = _
    rw [List.append_assoc, hrest]
    rfl

theorem length_le_more (ms : List Member) : ms.length ≤ (more ms).length := by
  induction ms with
  | nil => exact Nat.le_refl 0
  | cons m ms ih =>
    show ms.length + 1 ≤ (',' :: member m.key m.text ++ more ms).length
    rw [List.length_append, List.length_cons]
    omega

/-- An object is its members, if the first of them is there. -/
theorem value_object {fuel depth : ℕ} {cs more rest : List Char} {ms : List (List Char × Value)}
    (hcs : cs = '"' :: more) (h : members fuel depth cs = some (ms, rest)) :
    value (fuel + 1) (depth + 1) ('{' :: cs) = some (.object ms, rest) := by
  subst hcs
  rw [value, skip_of_not_space rfl]
  show (members fuel depth ('"' :: more)).map
    (fun p : List (List Char × Value) × List Char ↦ (Value.object p.1, p.2)) = _
  rw [h]
  rfl

/-- **An object is read back.** -/
theorem parse_object (m : Member) (ms : List Member) :
    parse (object (m.key, m.text) (ms.map fun m ↦ (m.key, m.text))) =
      some (.object ((m :: ms).map fun m ↦ (m.key, m.value))) := by
  have hobject : object (m.key, m.text) (ms.map fun m ↦ (m.key, m.text)) =
      '{' :: (member m.key m.text ++ (more ms ++ ['}'])) := by
    rw [object, List.flatMap_map, List.append_assoc]
    rfl
  have hlen := length_le_more ms
  have hmembers : members ((member m.key m.text ++ (more ms ++ ['}'])).length + 1) 9999
      (member m.key m.text ++ (more ms ++ ['}'])) =
        some ((m :: ms).map fun m ↦ (m.key, m.value), []) := by
    refine members_more 9999 [] ms m _ ?_
    rw [List.length_append, List.length_append, List.length_singleton]
    omega
  have hvalue : value ((member m.key m.text ++ (more ms ++ ['}'])).length + 1 + 1) maxDepth
      ('{' :: (member m.key m.text ++ (more ms ++ ['}']))) =
        some (.object ((m :: ms).map fun m ↦ (m.key, m.value)), []) := value_object rfl hmembers
  rw [parse, hobject, List.length_cons, hvalue]
  rfl

end Json
