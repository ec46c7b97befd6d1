import Soroticket.Machine.Json

/-!
# Compacting a JSON text

The encoder of a standard library's JSON package does not write a text it is handed (a raw message)
as it is. It drops the white space between tokens, and it escapes what means something to HTML and
the line separators, as it does in the strings it writes itself (`compact`). A text that is no JSON
makes it fail; whoever hands one over has read it before.

`compact_eq_self_iff` says which texts are left as they are (`tight`), and `tight_object` that the
texts the encoder writes itself are among them. Both go through the text byte by byte, and what has
been passed over is remembered as a `Mode`.
-/

namespace Json

/-! ### The encoder -/

/-- Where a reader of a text stands: between tokens or in one that is no string, in a string, or
behind a backslash in one. -/
inductive Mode where
  | token
  | string
  | escaped
  deriving DecidableEq

/-- Where a reader stands after one more byte. -/
def Mode.next : Mode → UInt8 → Mode
  | .token, c => if c = 34 then .string else .token
  | .string, c => if c = 34 then .token else if c = 92 then .escaped else .string
  | .escaped, _ => .string

/-- White space. -/
def isBlank (c : UInt8) : Bool := c = 32 ∨ c = 9 ∨ c = 13 ∨ c = 10

/-- The bytes that mean something to HTML. -/
def isMarkup (c : UInt8) : Bool := c = 60 ∨ c = 62 ∨ c = 38

/-- A text that starts with one of the line separators `U+2028` and `U+2029`. -/
def isSeparator : Bytes → Bool
  | 226 :: 128 :: c :: _ => c = 168 ∨ c = 169
  | _ => false

/-- The escape of a byte. -/
def escapeByte (c : UInt8) : Bytes := [92, 117, 48, 48, hexDigit (c / 16), hexDigit (c % 16)]

/-- The escape of the line separator whose last byte is `c`. -/
def escapeSeparator (c : UInt8) : Bytes := [92, 117, 50, 48, 50, hexDigit (c % 16)]

/-- A text from some place of a longer one on, where the first `skipped` bytes have been written as
part of an escape. -/
def compactFrom : Mode → ℕ → Bytes → Bytes
  | _, _, [] => []
  | m, skipped + 1, c :: rest => compactFrom (m.next c) skipped rest
  | m, 0, c :: rest =>
    if m = .token ∧ isBlank c then compactFrom .token 0 rest
    else if isMarkup c then escapeByte c ++ compactFrom (m.next c) 0 rest
    else if isSeparator (c :: rest) then
      escapeSeparator (rest.getD 1 0) ++ compactFrom (m.next c) 2 rest
    else c :: compactFrom (m.next c) 0 rest

/-- A text as the encoder writes it. -/
def compact (b : Bytes) : Bytes := compactFrom .token 0 b

/-! ### Texts that are left as they are -/

/-- No white space stands between tokens, and nothing that is escaped stands anywhere. -/
def tight : Mode → Bytes → Bool
  | _, [] => true
  | m, c :: rest =>
    ¬(m = .token ∧ isBlank c) ∧ ¬isMarkup c ∧ ¬isSeparator (c :: rest) ∧ tight (m.next c) rest

theorem tight_cons {m : Mode} {c : UInt8} {rest : Bytes} : tight m (c :: rest) ↔
    ¬(m = .token ∧ isBlank c) ∧ ¬isMarkup c ∧ ¬isSeparator (c :: rest) ∧
      tight (m.next c) rest := by
  rw [tight, decide_eq_true_iff]

/-- What is written between tokens does not start with white space. -/
theorem isBlank_of_compactFrom_eq_cons {b : Bytes} :
    ∀ {c : UInt8} {rest : Bytes}, compactFrom .token 0 b = c :: rest → isBlank c = false := by
  induction b with
  | nil => exact fun h ↦ absurd h.symm (List.cons_ne_nil _ _)
  | cons x b ih =>
    intro c rest h
    rw [compactFrom] at h
    split_ifs at h with hblank hmarkup hsep
    · exact ih h
    · rw [← (List.cons.inj h).1]
      rfl
    · rw [← (List.cons.inj h).1]
      rfl
    · rw [← (List.cons.inj h).1]
      simpa using hblank

theorem compactFrom_of_tight {b : Bytes} :
    ∀ {m : Mode}, tight m b → compactFrom m 0 b = b := by
  induction b with
  | nil => exact fun _ ↦ rfl
  | cons c b ih =>
    intro m h
    obtain ⟨hblank, hmarkup, hsep, hrest⟩ := tight_cons.1 h
    rw [compactFrom, if_neg hblank, if_neg hmarkup, if_neg hsep, ih hrest]

theorem tight_of_compactFrom {b : Bytes} :
    ∀ {m : Mode}, compactFrom m 0 b = b → tight m b := by
  induction b with
  | nil => exact fun _ ↦ rfl
  | cons c b ih =>
    intro m h
    rw [compactFrom] at h
    split_ifs at h with hblank hmarkup hsep
    -- after white space, the text would have to start with white space
    · exact absurd (isBlank_of_compactFrom_eq_cons h) (by rw [hblank.2]; decide)
    · obtain rfl : 92 = c := (List.cons.inj h).1
      exact absurd hmarkup (by decide)
    · obtain rfl : 92 = c := (List.cons.inj h).1
      exact absurd hsep (by rw [isSeparator] <;> simp)
    · exact tight_cons.2 ⟨hblank, hmarkup, hsep, ih (List.cons.inj h).2⟩

/-- **A text is left as it is where it is tight, and nowhere else.** -/
theorem compact_eq_self_iff {b : Bytes} : compact b = b ↔ tight .token b :=
  ⟨tight_of_compactFrom, compactFrom_of_tight⟩

/-! ### Characters that are passed over -/

/-- Characters are passed over: whether a text that goes on with them is tight is whether the rest
of it is. -/
def Passes (m : Mode) (cs : List Char) (m' : Mode) : Prop :=
  ∀ rest, tight m (cs.flatMap String.utf8EncodeChar ++ rest) = tight m' rest

theorem Passes.nil (m : Mode) : Passes m [] m := fun _ ↦ rfl

theorem Passes.append {m m' m'' : Mode} {cs cs' : List Char} (h : Passes m cs m')
    (h' : Passes m' cs' m'') : Passes m (cs ++ cs') m'' := by
  intro rest
  rw [List.flatMap_append, List.append_assoc, h, h']

theorem Passes.cons {m k m' : Mode} {c : Char} {cs : List Char} (h : Passes m [c] k)
    (h' : Passes k cs m') : Passes m (c :: cs) m' :=
  h.append h'

/-- Characters one by one. -/
theorem Passes.flatMap {α : Type} {m : Mode} {f : α → List Char} {l : List α}
    (h : ∀ x ∈ l, Passes m (f x) m) : Passes m (l.flatMap f) m := by
  induction l with
  | nil => exact .nil m
  | cons x l ih =>
    rw [List.flatMap_cons]
    exact (h x List.mem_cons_self).append (ih fun y hy ↦ h y (List.mem_cons_of_mem x hy))

/-- A byte that no escape is for is passed over. -/
theorem tight_cons_eq {m : Mode} {c : UInt8} {rest : Bytes} (hblank : ¬(m = .token ∧ isBlank c))
    (hmarkup : isMarkup c = false) (hsep : isSeparator (c :: rest) = false) :
    tight m (c :: rest) = tight (m.next c) rest := by
  rw [tight, hmarkup, hsep]
  simp [hblank]

theorem isSeparator_of_ne {c : UInt8} (h : c ≠ 226) (rest : Bytes) :
    isSeparator (c :: rest) = false := by
  rw [isSeparator]
  rintro x more heq
  exact h (List.cons.inj heq).1

/-- A character of ASCII is passed over, unless it is escaped or white space between tokens. -/
theorem passes_ascii {m : Mode} {c : Char} (hlt : c.toNat < 128)
    (hblank : ¬(m = .token ∧ isBlank c.toNat.toUInt8))
    (hmarkup : isMarkup c.toNat.toUInt8 = false) : Passes m [c] (m.next c.toNat.toUInt8) := by
  intro rest
  have hne : c.toNat.toUInt8 ≠ 226 := by
    intro heq
    have hval := congrArg UInt8.toNat heq
    rw [Nat.toUInt8_eq, UInt8.toNat_ofNat', Nat.mod_eq_of_lt (hlt.trans (by decide))] at hval
    exact absurd (hval ▸ hlt) (by decide)
  rw [List.flatMap_singleton, utf8EncodeChar_of_lt hlt, List.singleton_append]
  exact tight_cons_eq hblank hmarkup (isSeparator_of_ne hne rest)

/-- The bytes a character goes on with are passed over. -/
theorem tight_continuation {more : Bytes} (h : ∀ y ∈ more, ¬y.IsUTF8FirstByte) (rest : Bytes) :
    tight .string (more ++ rest) = tight .string rest := by
  induction more with
  | nil => rfl
  | cons y more ih =>
    have hy := h y List.mem_cons_self
    have hne : ∀ x : UInt8, x.IsUTF8FirstByte → y ≠ x := fun x hx heq ↦ hy (heq ▸ hx)
    have hmarkup : isMarkup y = false := by
      simp [isMarkup, hne 60 (by decide), hne 62 (by decide), hne 38 (by decide)]
    have hnext : Mode.string.next y = .string := by
      rw [Mode.next, if_neg (hne 34 (by decide)), if_neg (hne 92 (by decide))]
    rw [List.cons_append, tight_cons_eq (by simp) hmarkup
      (isSeparator_of_ne (hne 226 (by decide)) _), hnext]
    exact ih fun z hz ↦ h z (List.mem_cons_of_mem y hz)

/-- A line separator is a character that is escaped. -/
theorem exists_of_isSeparator {b : Bytes} (h : isSeparator b) :
    ∃ c, isUnit c = true ∧ ∃ rest, b = String.utf8EncodeChar c ++ rest := by
  rw [isSeparator.eq_def] at h
  split at h
  case h_1 y rest =>
    rcases of_decide_eq_true h with rfl | rfl
    · exact ⟨'\u2028', rfl, rest, rfl⟩
    · exact ⟨'\u2029', rfl, rest, rfl⟩
  case h_2 => exact absurd h Bool.false_ne_true

/-- **In a string, a character that is written as it is is passed over.** -/
theorem passes_char {c : Char} (hquote : c ≠ '"') (hslash : c ≠ '\\') (hunit : isUnit c = false) :
    Passes .string [c] .string := by
  intro rest
  rw [List.flatMap_singleton]
  rcases hc : String.utf8EncodeChar c with - | ⟨x, more⟩
  · exact absurd hc String.utf8EncodeChar_ne_nil
  have hmore : ∀ y ∈ more, ¬y.IsUTF8FirstByte := by
    intro y hy
    obtain ⟨i, hi, rfl⟩ := List.getElem_of_mem hy
    have hlt : i + 1 < (String.utf8EncodeChar c).length := by
      rw [hc, List.length_cons]
      omega
    have hfirst : (String.utf8EncodeChar c)[i + 1].IsUTF8FirstByte ↔ i + 1 = 0 :=
      UInt8.isUTF8FirstByte_getElem_utf8EncodeChar
    simp only [hc, List.getElem_cons_succ] at hfirst
    exact fun h ↦ absurd (hfirst.1 h) (Nat.succ_ne_zero i)
  -- the first byte of another character is another one
  have hne : ∀ c' : Char, c ≠ c' → ∀ x', String.utf8EncodeChar c' = [x'] → x ≠ x' := by
    rintro c' hc' x' hx' rfl
    have heq : String.utf8EncodeChar c ++ [] = String.utf8EncodeChar c' ++ more := by
      rw [hc, hx', List.append_nil, List.singleton_append]
    exact hc' (eq_of_utf8EncodeChar_append heq)
  have hnot : ∀ c', isUnit c' = true → c ≠ c' := by
    rintro c' hc' rfl
    exact absurd (hunit.symm.trans hc') (by decide)
  have hmarkup : isMarkup x = false := by
    simp [isMarkup, hne '<' (hnot _ rfl) 60 rfl, hne '>' (hnot _ rfl) 62 rfl,
      hne '&' (hnot _ rfl) 38 rfl]
  have hsep : isSeparator (x :: (more ++ rest)) = false := by
    rw [Bool.eq_false_iff]
    intro h
    obtain ⟨c', hc', rest', heq⟩ := exists_of_isSeparator h
    have hsame : String.utf8EncodeChar c ++ rest = String.utf8EncodeChar c' ++ rest' := by
      rw [hc, List.cons_append, heq]
    exact hnot c' hc' (eq_of_utf8EncodeChar_append hsame)
  have hnext : Mode.string.next x = .string := by
    rw [Mode.next, if_neg (hne '"' hquote 34 rfl), if_neg (hne '\\' hslash 92 rfl)]
  rw [List.cons_append, tight_cons_eq (by simp) hmarkup hsep, hnext, tight_continuation hmore]

/-! ### Texts that are written -/

/-- Digits and signs are passed over. -/
theorem passes_integer (n : ℤ) : Passes .token (integer n) .token := by
  have hdigit : ∀ c : Char, c.isDigit → Passes .token [c] .token := by
    intro c hc
    rw [Char.isDigit, Bool.and_eq_true, decide_eq_true_iff, decide_eq_true_iff] at hc
    have hleast := UInt32.le_iff_toNat_le.1 hc.1
    have hmost := UInt32.le_iff_toNat_le.1 hc.2
    have hall : ∀ n < 58, 48 ≤ n → isBlank n.toUInt8 = false ∧ isMarkup n.toUInt8 = false ∧
        Mode.token.next n.toUInt8 = .token := by decide
    obtain ⟨hblank, hmarkup, hnext⟩ := hall c.toNat (Nat.lt_succ_of_le hmost) hleast
    have hpasses := passes_ascii (m := .token) (c := c)
      (Nat.lt_of_le_of_lt hmost (by decide)) (by rw [hblank]; simp) hmarkup
    rwa [hnext] at hpasses
  have hdigits : ∀ m, Passes .token (Nat.toDigits 10 m) .token := by
    intro m
    rw [← List.flatMap_singleton' (Nat.toDigits 10 m)]
    exact .flatMap fun c hc ↦ hdigit c (Nat.isDigit_of_mem_toDigits (by decide) (by decide) hc)
  rcases integer_cases n with ⟨m, -, hm⟩ | ⟨m, -, hm⟩
  · exact hm ▸ hdigits m
  · rw [hm]
    exact .cons (passes_ascii (by decide) (by decide) (by decide)) (hdigits m)

/-- The digits of an escape are passed over. -/
theorem passes_digitChar (n : ℕ) : Passes .string [(n % 16).digitChar] .string := by
  have hall : ∀ n < 16, n.digitChar.toNat < 128 ∧ isMarkup n.digitChar.toNat.toUInt8 = false ∧
      Mode.string.next n.digitChar.toNat.toUInt8 = .string := by decide
  obtain ⟨hlt, hmarkup, hnext⟩ := hall (n % 16) (Nat.mod_lt n (by decide))
  have hpasses := passes_ascii (m := .string) hlt (by simp) hmarkup
  rwa [hnext] at hpasses

/-- A backslash and a letter are passed over. -/
theorem passes_escape {c : Char} (hlt : c.toNat < 128)
    (hmarkup : isMarkup c.toNat.toUInt8 = false) : Passes .string ['\\', c] .string :=
  .cons (k := .escaped) (passes_ascii (by decide) (by simp) (by decide))
    (passes_ascii (m := .escaped) hlt (by simp) hmarkup)

theorem passes_quoteChar (c : Char) : Passes .string (quoteChar c) .string := by
  unfold quoteChar
  split_ifs with h₁ h₂ h₃ h₄ h₅ h₆ h₇ h₈
  iterate 7 · exact passes_escape (by decide) (by decide)
  · exact (passes_escape (c := 'u') (by decide) (by decide)).append
      (.cons (passes_digitChar _) (.cons (passes_digitChar _) (.cons (passes_digitChar _)
        (passes_digitChar _))))
  · exact passes_char h₁ h₂ (Bool.eq_false_iff.2 h₈)

/-- **A string that is written is passed over.** -/
theorem passes_quote (cs : List Char) : Passes .token (quote cs) .token :=
  .cons (k := .string) (passes_ascii (by decide) (by decide) (by decide))
    ((Passes.flatMap fun c _ ↦ passes_quoteChar c).append
      (passes_ascii (by decide) (by simp) (by decide)))

theorem passes_member (key : List Char) {value : List Char} (h : Passes .token value .token) :
    Passes .token (member key value) .token :=
  (passes_quote key).append (.cons (passes_ascii (by decide) (by decide) (by decide)) h)

/-- An object is passed over where the texts of its values are. -/
theorem passes_object {m : List Char × List Char} {ms : List (List Char × List Char)}
    (h : ∀ m' ∈ m :: ms, Passes .token m'.2 .token) : Passes .token (object m ms) .token := by
  refine .cons (k := .token) (passes_ascii (by decide) (by decide) (by decide)) ?_
  refine ((passes_member m.1 (h m List.mem_cons_self)).append (.flatMap fun m' hm' ↦ ?_)).append
    (passes_ascii (by decide) (by decide) (by decide))
  exact .cons (passes_ascii (by decide) (by decide) (by decide))
    (passes_member m'.1 (h m' (List.mem_cons_of_mem m hm')))

/-- **An object that is written is left as it is.** -/
theorem tight_object {m : List Char × List Char} {ms : List (List Char × List Char)}
    (h : ∀ m' ∈ m :: ms, Passes .token m'.2 .token) :
    tight .token ((object m ms).flatMap String.utf8EncodeChar) := by
  have hpasses := passes_object h []
  rwa [List.append_nil] at hpasses

end Json
