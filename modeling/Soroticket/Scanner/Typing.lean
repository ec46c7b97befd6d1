import Soroticket.Cloud.Separation
import Soroticket.Machine.Patterns

/-!
# Codes in messages

The scanner looks for a code in a message with two expressions. The first is that of a scan token,
between word boundaries; where there is one, the code is the token, and it is resolved as a token,
and once more as a code if no campaign knows the token. Where there is none, the code is the first
match of the second expression: at least three letters of `A` to `Z`, figures and hyphens, of which
the first is no hyphen, and at most 64.

Cloud takes any code of up to 64 bytes. So the scanner asks for a code that was sent exactly when it
is made of those letters, and no part of it between hyphens looks like a token (`code_typed_iff`).
-/

namespace Soroticket

/-! ### The expressions -/

/-- `[A-Z0-9]`. -/
def isCodeChar (c : Char) : Bool := c.isUpper || c.isDigit

/-- `[A-Z0-9-]`. -/
def isCodeRest (c : Char) : Bool := isCodeChar c || c = '-'

/-- `\w`. -/
def isWord (c : Char) : Bool := c.isUpper || c.isLower || c.isDigit || c = '_'

/-- `\b`, between two letters or at an end. -/
def atBoundary (prev next : Option Char) : Bool := prev.any isWord != next.any isWord

/-- The letters of a token after its first two. -/
def tokenBody (l : List Char) : List Char := (l.drop 2).take 14

/-- `scanTokenPattern`: `\bST[A-Z0-9]{14}\b`. -/
def scanTokenPattern : Pattern Char where
  run prev l :=
    if atBoundary prev l.head? ∧ l.take 2 = ['S', 'T'] ∧ (tokenBody l).length = 14 ∧
        (tokenBody l).all isCodeChar ∧ atBoundary (l.take 16).getLast? (l.drop 16).head? then
      some (l.take 16)
    else none
  begins prev l found h := by
    split at h
    · obtain rfl := Option.some.inj h
      exact List.take_prefix 16 l
    · cases h

/-- `codePattern`: `[A-Z0-9][A-Z0-9\-]{2,63}`, as long as possible. -/
def codePattern : Pattern Char where
  run _ l :=
    let tail := (l.tail.take 63).takeWhile isCodeRest
    if l.head?.any isCodeChar ∧ 2 ≤ tail.length then some (l.take (tail.length + 1)) else none
  begins prev l found h := by
    dsimp only at h
    split at h
    · obtain rfl := Option.some.inj h
      exact List.take_prefix _ l
    · cases h

/-- What `onText` finds in a message: a code, and whether it is a token. -/
def scanned (u : UpperCase) (body : String) : Option (String × Bool) :=
  let upper := (u.toUpper body).toList
  match scanTokenPattern.find none upper with
  | some token => some (String.ofList token, true)
  | none => (codePattern.find none upper).map fun code ↦ (String.ofList code, false)

/-- `resolve`: the query for a code, or for a token. -/
def resolveQuery (value : String) (asToken : Bool) : ResolveQuery :=
  if asToken then ⟨"", value⟩ else ⟨value, ""⟩

/-- The status of an answer. -/
def resolveStatus : Except Problem Resolution → ℕ
  | .ok _ => 200
  | .error problem => problem.status

/-- The queries of `onText` for a message, in order, given what Cloud answers. -/
def onTextQueries (u : UpperCase) (resolve : ResolveQuery → Except Problem Resolution)
    (body : String) : List ResolveQuery :=
  match scanned u body with
  | none => []
  | some (code, token) =>
    let first := resolveQuery code token
    if token ∧ resolveStatus (resolve first) = 404 then [first, resolveQuery code false]
    else [first]

/-! ### The letters of a code -/

theorem isCodeRest_bounds {c : Char} (h : isCodeRest c = true) :
    c.toNat = 45 ∨ 48 ≤ c.toNat ∧ c.toNat ≤ 57 ∨ 65 ≤ c.toNat ∧ c.toNat ≤ 90 := by
  rw [isCodeRest, isCodeChar, Bool.or_eq_true, Bool.or_eq_true, decide_eq_true_iff] at h
  delta Char.isUpper Char.isDigit at h
  simp only [Bool.and_eq_true, decide_eq_true_iff, ge_iff_le, UInt32.le_iff_toNat_le] at h
  rcases h with (⟨hlow, hhigh⟩ | ⟨hlow, hhigh⟩) | rfl
  · exact Or.inr (Or.inr ⟨hlow, hhigh⟩)
  · exact Or.inr (Or.inl ⟨hlow, hhigh⟩)
  · exact Or.inl rfl

/-- They are in upper case already. -/
theorem upper_of_isCodeRest (u : UpperCase) {c : Char} (h : isCodeRest c = true) :
    u.upper c = c := by
  have hbounds := isCodeRest_bounds h
  have hsmall : ¬(c.val ≥ 'a'.val ∧ c.val ≤ 'z'.val) := by
    rw [ge_iff_le, UInt32.le_iff_toNat_le, UInt32.le_iff_toNat_le]
    show ¬(97 ≤ c.toNat ∧ c.toNat ≤ 122)
    omega
  rw [u.upper_ascii c (by omega)]
  delta Char.toUpper
  exact dif_neg hsmall

theorem toUpper_of_isCodeRest (u : UpperCase) {text : String}
    (h : ∀ c ∈ text.toList, isCodeRest c = true) : u.toUpper text = text := by
  have hmap : text.toList.map u.upper = text.toList.map id :=
    List.map_congr_left fun c hc ↦ upper_of_isCodeRest u (h c hc)
  rw [UpperCase.toUpper, hmap, List.map_id, String.ofList_toList]

theorem isSpace_of_isCodeRest {c : Char} (h : isCodeRest c = true) : isSpace c = false := by
  have hbounds := isCodeRest_bounds h
  rw [isSpace, decide_eq_false_iff_not]
  simp only [List.mem_cons, List.not_mem_nil, or_false]
  omega

theorem isCodeRest_of_isCodeChar {c : Char} (h : isCodeChar c = true) : isCodeRest c = true := by
  rw [isCodeRest, h, Bool.true_or]

theorem isWord_of_isCodeChar {c : Char} (h : isCodeChar c = true) : isWord c = true := by
  rw [isCodeChar, Bool.or_eq_true] at h
  rw [isWord]
  rcases h with h | h <;> simp [h]

/-- Of the letters of a code, the hyphen alone is no word. -/
theorem isWord_eq_false_iff {c : Char} (h : isCodeRest c = true) : isWord c = false ↔ c = '-' := by
  constructor
  · intro hword
    rw [isCodeRest, Bool.or_eq_true, decide_eq_true_iff] at h
    rcases h with h | h
    · exact absurd ((isWord_of_isCodeChar h).symm.trans hword) Bool.true_eq_false.mp
    · exact h
  · rintro rfl
    decide

/-! ### What the expressions match -/

theorem getLast?_any_isWord {body : List Char} (hbody : ∀ c ∈ body, isCodeChar c = true) :
    ('S' :: 'T' :: body).getLast?.any isWord = true := by
  have hwords : ∀ c ∈ 'S' :: 'T' :: body, isWord c = true := by
    intro c hc
    rcases List.mem_cons.1 hc with rfl | hc
    · decide
    · rcases List.mem_cons.1 hc with rfl | hc
      · decide
      · exact isWord_of_isCodeChar (hbody c hc)
  obtain ⟨c, hlast⟩ : ∃ c, ('S' :: 'T' :: body).getLast? = some c :=
    ⟨_, List.getLast?_eq_some_getLast (List.cons_ne_nil _ _)⟩
  rw [hlast]
  exact hwords c (List.mem_of_getLast? hlast)

/-- A token is matched after and before what is no word. -/
theorem run_scanTokenPattern_iff {prev : Option Char} {l found : List Char} :
    scanTokenPattern.run prev l = some found ↔
      ∃ body after, l = 'S' :: 'T' :: body ++ after ∧ found = 'S' :: 'T' :: body ∧
        body.length = 14 ∧ (∀ c ∈ body, isCodeChar c = true) ∧ prev.any isWord = false ∧
        after.head?.any isWord = false := by
  simp only [scanTokenPattern]
  constructor
  · intro h
    split at h
    case isTrue hrun =>
      obtain ⟨hstart, hST, hlen, hbody, hend⟩ := hrun
      obtain ⟨rest, rfl⟩ : ∃ rest, l = 'S' :: 'T' :: rest :=
        ⟨l.drop 2, by rw [← List.take_append_drop 2 l, hST]; rfl⟩
      have hbody : ∀ c ∈ rest.take 14, isCodeChar c = true := List.all_eq_true.1 hbody
      rw [atBoundary, bne_iff_ne] at hstart hend
      have hlast : ('S' :: 'T' :: rest.take 14).getLast?.any isWord = true :=
        getLast?_any_isWord hbody
      refine ⟨rest.take 14, rest.drop 14, ?_, (Option.some.inj h).symm, hlen, hbody, ?_, ?_⟩
      · rw [List.cons_append, List.cons_append, List.take_append_drop]
      · have hword : isWord 'S' = true := by decide
        exact Bool.eq_false_iff.2 fun hprev ↦ hstart (hprev.trans hword.symm)
      · exact Bool.eq_false_iff.2 fun hafter ↦ hend (hlast.trans hafter.symm)
    case isFalse => cases h
  · rintro ⟨body, after, rfl, rfl, hlen, hbody, hprev, hafter⟩
    have htake : ('S' :: 'T' :: body ++ after).take 16 = 'S' :: 'T' :: body :=
      List.take_left' (by rw [List.length_cons, List.length_cons, hlen])
    have hdrop : ('S' :: 'T' :: body ++ after).drop 16 = after :=
      List.drop_left' (by rw [List.length_cons, List.length_cons, hlen])
    have hbody' : tokenBody ('S' :: 'T' :: body ++ after) = body := List.take_left' hlen
    have hstart : atBoundary prev ('S' :: 'T' :: body ++ after).head? = true := by
      rw [atBoundary, hprev]
      rfl
    have hend : atBoundary ('S' :: 'T' :: body).getLast? after.head? = true := by
      rw [atBoundary, getLast?_any_isWord hbody, hafter]
      rfl
    rw [htake, hdrop, hbody']
    exact if_pos ⟨hstart, rfl, hlen, List.all_eq_true.2 hbody, hend⟩

/-- What is found as a code is made of the letters of a code. -/
theorem run_codePattern {prev : Option Char} {l found : List Char}
    (h : codePattern.run prev l = some found) :
    found.head?.all isCodeChar = true ∧ (∀ c ∈ found, isCodeRest c = true) ∧ 3 ≤ found.length ∧
      found.length ≤ 64 := by
  simp only [codePattern] at h
  split at h
  case isTrue hrun =>
    obtain ⟨hhead, hlen⟩ := hrun
    cases l with
    | nil => cases hhead
    | cons c l =>
      have hhead : isCodeChar c = true := hhead
      obtain rfl : c :: l.take ((l.take 63).takeWhile isCodeRest).length = found :=
        Option.some.inj h
      have htail : l.take ((l.take 63).takeWhile isCodeRest).length =
          (l.take 63).takeWhile isCodeRest :=
        (List.prefix_iff_eq_take.1
          ((List.takeWhile_prefix isCodeRest).trans (List.take_prefix 63 l))).symm
      have hlen : 2 ≤ ((l.take 63).takeWhile isCodeRest).length := hlen
      have hmost := (List.takeWhile_prefix (l := l.take 63) isCodeRest).length_le
      rw [List.length_take] at hmost
      rw [htail]
      refine ⟨hhead, fun x hx ↦ ?_, Nat.succ_le_succ hlen, ?_⟩
      · rcases List.mem_cons.1 hx with rfl | hx
        · exact isCodeRest_of_isCodeChar hhead
        · exact List.mem_takeWhile_imp hx
      · rw [List.length_cons]
        omega
  case isFalse => cases h

/-- Such a text is matched as a whole. -/
theorem run_codePattern_self {prev : Option Char} {l : List Char}
    (hhead : l.head?.all isCodeChar = true) (hrest : ∀ c ∈ l, isCodeRest c = true)
    (hleast : 3 ≤ l.length) (hmost : l.length ≤ 64) : codePattern.run prev l = some l := by
  cases l with
  | nil => exact absurd hleast (by decide)
  | cons c l =>
    have htail : ((c :: l).tail.take 63).takeWhile isCodeRest = l := by
      rw [List.length_cons] at hmost
      rw [List.tail_cons, List.take_of_length_le (by omega), List.takeWhile_eq_self_iff]
      exact fun x hx ↦ hrest x (List.mem_cons_of_mem c hx)
    rw [List.length_cons] at hleast
    simp only [codePattern, htail]
    rw [if_pos ⟨hhead, by omega⟩, List.take_of_length_le (le_of_eq List.length_cons)]

/-! ### Codes that can be typed -/

/-- A code as Cloud takes it from a merchant. -/
abbrev AcceptedCode (u : UpperCase) :=
  {code : String // (∃ text, u.toUpper (trimSpace text) = code) ∧ code ≠ "" ∧
    code.utf8ByteSize ≤ ScanDatabase.maxCodeLen}

/-- A code that the scanner reads as it is: of letters, figures and hyphens, of which the first is
no hyphen, at least three and at most 64, and nothing between its hyphens looks like a token, unless
it is all of it. -/
structure Typable (code : String) : Prop where
  first : code.toList.head?.all isCodeChar = true
  chars : ∀ c ∈ code.toList, isCodeRest c = true
  least : 3 ≤ code.toList.length
  most : code.toList.length ≤ 64
  token : ∀ before body after, before ++ 'S' :: 'T' :: body ++ after = code.toList →
    body.length = 14 → (∀ c ∈ body, isCodeChar c = true) → before.getLast?.all (· = '-') = true →
      after.head?.all (· = '-') = true → before = [] ∧ after = []

section Typing

variable {u : UpperCase} {code : String}

/-- Next to the letters of a code, what is no word is a hyphen, or an end. -/
theorem any_isWord_eq_false_iff {c? : Option Char} (h : ∀ c ∈ c?, isCodeRest c = true) :
    c?.any isWord = false ↔ c?.all (· = '-') = true := by
  cases c? with
  | none => exact ⟨fun _ ↦ rfl, fun _ ↦ rfl⟩
  | some c =>
    show isWord c = false ↔ decide (c = '-') = true
    rw [isWord_eq_false_iff (h c rfl), decide_eq_true_iff]

/-- In the letters of a code a token stands between hyphens. -/
theorem token_part_iff {l : List Char} (hl : ∀ c ∈ l, isCodeRest c = true) {found : List Char} :
    (∃ before after, before ++ after = l ∧
        scanTokenPattern.run (before.getLast?.or none) after = some found) ↔
      ∃ before body after, before ++ 'S' :: 'T' :: body ++ after = l ∧ found = 'S' :: 'T' :: body ∧
        body.length = 14 ∧ (∀ c ∈ body, isCodeChar c = true) ∧
        before.getLast?.all (· = '-') = true ∧ after.head?.all (· = '-') = true := by
  have hbefore : ∀ before rest, before ++ rest = l → ∀ c ∈ before.getLast?, isCodeRest c = true :=
    fun before rest heq c hc ↦ hl c (heq ▸ List.mem_append_left _ (List.mem_of_getLast? hc))
  have hafter : ∀ rest after, rest ++ after = l → ∀ c ∈ after.head?, isCodeRest c = true :=
    fun rest after heq c hc ↦ hl c (heq ▸ List.mem_append_right _ (List.mem_of_head? hc))
  constructor
  · rintro ⟨before, rest, hparts, hrun⟩
    rw [Option.or_none] at hrun
    obtain ⟨body, after, rfl, rfl, hlen, hbody, hprev, hnext⟩ := run_scanTokenPattern_iff.1 hrun
    rw [← List.append_assoc] at hparts
    rw [any_isWord_eq_false_iff (hbefore before _ ((List.append_assoc ..).symm.trans hparts))]
      at hprev
    rw [any_isWord_eq_false_iff (hafter _ after hparts)] at hnext
    exact ⟨before, body, after, hparts, rfl, hlen, hbody, hprev, hnext⟩
  · rintro ⟨before, body, after, hparts, rfl, hlen, hbody, hprev, hnext⟩
    refine ⟨before, 'S' :: 'T' :: body ++ after, by rw [← List.append_assoc, hparts], ?_⟩
    rw [Option.or_none]
    rw [← any_isWord_eq_false_iff (hbefore before _ ((List.append_assoc ..).symm.trans hparts))]
      at hprev
    rw [← any_isWord_eq_false_iff (hafter _ after hparts)] at hnext
    exact run_scanTokenPattern_iff.2 ⟨body, after, rfl, rfl, hlen, hbody, hprev, hnext⟩

/-- What is found in a message is made of the letters of a code. -/
theorem chars_of_scanned {body : String} {token : Bool}
    (h : scanned u body = some (code, token)) : ∀ c ∈ code.toList, isCodeRest c = true := by
  simp only [scanned] at h
  split at h
  case h_1 found hfind =>
    obtain ⟨rfl, -⟩ := Prod.mk.inj (Option.some.inj h)
    obtain ⟨_, _, -, hrun⟩ := Pattern.exists_run_of_find hfind
    obtain ⟨body, -, -, rfl, -, hbody, -⟩ := run_scanTokenPattern_iff.1 hrun
    rw [String.toList_ofList]
    refine List.forall_mem_cons.2 ⟨by decide, List.forall_mem_cons.2 ⟨by decide, ?_⟩⟩
    exact fun c hc ↦ isCodeRest_of_isCodeChar (hbody c hc)
  case h_2 =>
    obtain ⟨found, hfind, heq⟩ := Option.map_eq_some_iff.1 h
    obtain ⟨rfl, -⟩ := Prod.mk.inj heq
    obtain ⟨_, _, -, hrun⟩ := Pattern.exists_run_of_find hfind
    rw [String.toList_ofList]
    exact (run_codePattern hrun).2.1

/-- **A code that is sent is found** exactly where it can be typed. -/
theorem exists_scanned_iff : (∃ token, scanned u code = some (code, token)) ↔ Typable code := by
  constructor
  · rintro ⟨token, h⟩
    have hchars := chars_of_scanned h
    simp only [scanned, toUpper_of_isCodeRest u hchars] at h
    split at h
    case h_1 found hfind =>
      obtain ⟨hfound, -⟩ := Prod.mk.inj (Option.some.inj h)
      obtain rfl : found = code.toList := by rw [← hfound, String.toList_ofList]
      obtain ⟨body, after, -, hall, hlen, hbody, -⟩ :=
        run_scanTokenPattern_iff.1 (Pattern.find_eq_self_iff.1 hfind)
      -- the token is the code, and there is no room for another
      have hsize : code.toList.length = 16 := by
        rw [hall, List.length_cons, List.length_cons, hlen]
      refine ⟨by rw [hall]; rfl, hchars, by omega, by omega,
        fun before body' after' hparts hlen' ↦ ?_⟩
      have hsum := congrArg List.length hparts
      simp only [List.length_append, List.length_cons] at hsum
      exact fun _ _ _ ↦ ⟨List.length_eq_zero_iff.1 (by omega), List.length_eq_zero_iff.1 (by omega)⟩
    case h_2 hnone =>
      obtain ⟨found, hfind, heq⟩ := Option.map_eq_some_iff.1 h
      obtain ⟨hfound, -⟩ := Prod.mk.inj heq
      obtain rfl : found = code.toList := by rw [← hfound, String.toList_ofList]
      obtain ⟨hfirst, -, hleast, hmost⟩ := run_codePattern (Pattern.find_eq_self_iff.1 hfind)
      refine ⟨hfirst, hchars, hleast, hmost,
        fun before body after hparts hlen hbody hprev hnext ↦ ?_⟩
      obtain ⟨before', after', hsplit, hrun⟩ := (token_part_iff hchars).2
        ⟨before, body, after, hparts, rfl, hlen, hbody, hprev, hnext⟩
      exact absurd (hrun.symm.trans (Pattern.find_eq_none_iff.1 hnone before' after' hsplit))
        (Option.some_ne_none _)
  · intro h
    simp only [scanned, toUpper_of_isCodeRest u h.chars]
    cases hfind : scanTokenPattern.find none code.toList with
    | some found =>
      obtain ⟨before, after, hsplit, hrun⟩ := Pattern.exists_run_of_find hfind
      obtain ⟨before, body, after, hparts, rfl, hlen, hbody, hprev, hnext⟩ :=
        (token_part_iff h.chars).1 ⟨before, after, hsplit, hrun⟩
      obtain ⟨rfl, rfl⟩ := h.token before body after hparts hlen hbody hprev hnext
      refine ⟨true, ?_⟩
      rw [List.nil_append, List.append_nil] at hparts
      show some (String.ofList ('S' :: 'T' :: body), true) = _
      rw [hparts, String.ofList_toList]
    | none =>
      have hall : codePattern.find none code.toList = some code.toList :=
        Pattern.find_eq_self_iff.2 (run_codePattern_self h.first h.chars h.least h.most)
      exact ⟨false, by rw [hall, Option.map_some, String.ofList_toList]⟩

/-- A code that can be typed comes through the webhook as it is. -/
theorem trimSpace_of_isCodeRest (h : ∀ c ∈ code.toList, isCodeRest c = true) :
    trimSpace code = code := by
  have htrim := trimSpace_of_no_space fun c hc ↦ isSpace_of_isCodeRest (h c hc)
  rwa [String.ofList_toList] at htrim

/-- A token that no campaign knows is answered with 404. -/
theorem handleResolveCode_of_dead {db : ScanDatabase} {a : AuthCtx} {now : ℤ} {body : String}
    (h : scanned u body = some (code, true)) (hdead : db.resolveScanToken a code = none) :
    db.handleResolveCode u a (resolveQuery code true) now = .error ⟨404, "unknown scan token"⟩ := by
  have hchars := chars_of_scanned h
  have hlen : code.toList.length = 16 := by
    simp only [scanned] at h
    split at h
    case h_1 found hfind =>
      obtain ⟨rfl, -⟩ := Prod.mk.inj (Option.some.inj h)
      obtain ⟨_, _, -, hrun⟩ := Pattern.exists_run_of_find hfind
      obtain ⟨body, -, -, rfl, hlen, -⟩ := run_scanTokenPattern_iff.1 hrun
      rw [String.toList_ofList, List.length_cons, List.length_cons, hlen]
    case h_2 =>
      obtain ⟨_, -, heq⟩ := Option.map_eq_some_iff.1 h
      exact absurd (Prod.mk.inj heq).2 Bool.false_ne_true
  have hsize : code.utf8ByteSize = 16 := by
    rw [← String.ofList_toList (s := code), utf8ByteSize_ofList fun c hc ↦ ?_, hlen]
    have hbounds := isCodeRest_bounds (hchars c hc)
    exact Char.utf8Size_eq_one_iff.2 (by rw [UInt32.le_iff_toNat_le]; show c.toNat ≤ 127; omega)
  have hne : code ≠ "" := by
    rintro rfl
    exact absurd hsize (by decide)
  have hshort : ¬ScanDatabase.maxCodeLen < code.utf8ByteSize := by
    rw [hsize]
    decide
  have htoken : u.toUpper (trimSpace (resolveQuery code true).token) = code := by
    show u.toUpper (trimSpace code) = code
    rw [trimSpace_of_isCodeRest hchars, toUpper_of_isCodeRest u hchars]
  rw [ScanDatabase.handleResolveCode, htoken]
  simp only [if_neg hne, rejectWhen, if_neg hshort, hdead]
  rfl

/-- The code is asked for where it is found: where it is a token, once no campaign knows that. -/
theorem mem_onTextQueries_iff {db : ScanDatabase} {a : AuthCtx} {now : ℤ} {body : String}
    (hcode : code ≠ "") (hdead : db.resolveScanToken a code = none) :
    ⟨code, ""⟩ ∈ onTextQueries u (fun q ↦ db.handleResolveCode u a q now) body ↔
      ∃ token, scanned u body = some (code, token) := by
  cases hscanned : scanned u body with
  | none =>
    simp only [onTextQueries, hscanned]
    exact ⟨fun h ↦ absurd h List.not_mem_nil, fun ⟨_, h⟩ ↦ absurd h.symm (Option.some_ne_none _)⟩
  | some found =>
    obtain ⟨code', token⟩ := found
    cases token with
    | false =>
      simp only [onTextQueries, hscanned, Bool.false_eq_true, false_and, if_false]
      rw [List.mem_singleton]
      constructor
      · intro h
        obtain ⟨rfl, -⟩ := ResolveQuery.mk.inj h
        exact ⟨false, rfl⟩
      · rintro ⟨_, h⟩
        obtain ⟨rfl, -⟩ := Prod.mk.inj (Option.some.inj h)
        rfl
    | true =>
      have hfirst : ⟨code, ""⟩ ≠ resolveQuery code' true :=
        fun h ↦ hcode (ResolveQuery.mk.inj h).1
      constructor
      · intro h
        simp only [onTextQueries, hscanned] at h
        split at h
        · rcases List.mem_cons.1 h with h | h
          · exact absurd h hfirst
          · obtain ⟨rfl, -⟩ := ResolveQuery.mk.inj (List.mem_singleton.1 h)
            exact ⟨true, rfl⟩
        · exact absurd (List.mem_singleton.1 h) hfirst
      · rintro ⟨_, h⟩
        obtain ⟨rfl, -⟩ := Prod.mk.inj (Option.some.inj h)
        simp only [onTextQueries, hscanned, handleResolveCode_of_dead hscanned hdead]
        exact List.mem_cons_of_mem _ (List.mem_singleton_self _)

end Typing

/-! ### The theorem -/

/-- **When a code can be typed.** The scanner, sent just a code that Cloud has accepted, asks Cloud
for that code, unless it is a live token, exactly where it can be typed, or is a live token. -/
theorem code_typed_iff (u : UpperCase) (db : ScanDatabase) (a : AuthCtx) (now : ℤ)
    (code : AcceptedCode u) :
    (db.resolveScanToken a code = none →
        ⟨code, ""⟩ ∈ onTextQueries u (fun q ↦ db.handleResolveCode u a q now) (trimSpace code)) ↔
      (db.resolveScanToken a code).isSome = true ∨ Typable code := by
  cases hlive : db.resolveScanToken a code with
  | some row => exact ⟨fun _ ↦ Or.inl rfl, fun _ h ↦ absurd h (Option.some_ne_none row)⟩
  | none =>
    rw [mem_onTextQueries_iff code.2.2.1 hlive]
    constructor
    · intro h
      obtain ⟨token, hscanned⟩ := h rfl
      have htrim := trimSpace_of_isCodeRest (chars_of_scanned hscanned)
      rw [htrim] at hscanned
      exact Or.inr (exists_scanned_iff.1 ⟨token, hscanned⟩)
    · rintro (h | h)
      · exact absurd h Bool.false_ne_true
      · rw [trimSpace_of_isCodeRest h.chars]
        exact fun _ ↦ exists_scanned_iff.2 h

namespace Typing.Sample

theorem campaign_key_nil : ∀ c ∈ ([] : List CampaignDetails), ∀ c' ∈ ([] : List CampaignDetails),
    c.id = c'.id → c = c' :=
  fun _ h ↦ absurd h List.not_mem_nil

theorem token_key_nil : ∀ r ∈ ([] : List ScanTokenRow), ∀ r' ∈ ([] : List ScanTokenRow),
    r.token = r'.token → r = r' :=
  fun _ h ↦ absurd h List.not_mem_nil

theorem token_account_nil : ∀ r ∈ ([] : List ScanTokenRow), ∀ c ∈ ([] : List CampaignDetails),
    c.id = r.campaignID → c.account = r.account :=
  fun _ h ↦ absurd h List.not_mem_nil

/-- Nothing but the codes themselves is stored. -/
def tables : ScanDatabase :=
  ⟨[], [], [], [], campaign_key_nil, token_key_nil, token_account_nil⟩

def upper : UpperCase := ScanDatabase.Sample.upper

/-- A code with a letter the scanner does not know. -/
def accented : AcceptedCode upper := ⟨"CAFÉ10", ⟨"CAFÉ10", by decide⟩, by decide, by decide⟩

/-- A code that begins as a token would. -/
def tokenLike : AcceptedCode upper :=
  ⟨"STAR2026SUMMER10-A", ⟨"STAR2026SUMMER10-A", by decide⟩, by decide, by decide⟩

end Typing.Sample

/-- The scanner asks for the beginning of a code only, or for its beginning as a token and as a
code. -/
theorem codes_not_typed :
    (onTextQueries Typing.Sample.upper (fun q ↦ Typing.Sample.tables.handleResolveCode
        Typing.Sample.upper ⟨1, .test⟩ q 0) (trimSpace Typing.Sample.accented) = [⟨"CAF", ""⟩] ∧
      onTextQueries Typing.Sample.upper (fun q ↦ Typing.Sample.tables.handleResolveCode
        Typing.Sample.upper ⟨1, .test⟩ q 0) (trimSpace Typing.Sample.tokenLike) =
          [⟨"", "STAR2026SUMMER10"⟩, ⟨"STAR2026SUMMER10", ""⟩]) ∧
    ¬∀ code : AcceptedCode Typing.Sample.upper,
      Typing.Sample.tables.resolveScanToken ⟨1, .test⟩ code = none →
        ⟨code, ""⟩ ∈ onTextQueries Typing.Sample.upper (fun q ↦
          Typing.Sample.tables.handleResolveCode Typing.Sample.upper ⟨1, .test⟩ q 0)
            (trimSpace code) := by
  have hqueries : onTextQueries Typing.Sample.upper (fun q ↦
      Typing.Sample.tables.handleResolveCode Typing.Sample.upper ⟨1, .test⟩ q 0)
        (trimSpace Typing.Sample.accented) = [⟨"CAF", ""⟩] := rfl
  refine ⟨⟨hqueries, rfl⟩, fun h ↦ ?_⟩
  have hmem := h Typing.Sample.accented rfl
  rw [hqueries, List.mem_singleton] at hmem
  exact absurd (ResolveQuery.mk.inj hmem).1 (by decide)

end Soroticket
