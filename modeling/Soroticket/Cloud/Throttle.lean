import Mathlib.Algebra.BigOperators.Intervals
import Soroticket.Cloud.Store
import Soroticket.Machine.Interleaving

/-!
# The login throttle

The server counts failed logins in a map, by address and by account, each in a window of fifteen
minutes from the first failure. `handleLogin` asks the map whether a login is still allowed,
compares the password, and counts a failure. The question and the count each hold the lock of the
map; the comparison between them does not. `signupAllowed` does better: it asks and counts in one.

So logins that have all been allowed may all fail, however many they are
(`six_guesses`). No more comparisons fail in a window than the limit exactly where every failure is
counted while its login would still be allowed (`login_throttle_iff`). One direction bounds the
failures since any reset by the counter, the other finds the failures a counter has counted.
-/

namespace Soroticket

open Interleaving Interleaving.Service

/-! ### The map -/

/-- A key of `loginAttempts`. An account is the hash of its address, trimmed and in lower case. -/
inductive AttemptKey where
  | ip (host : String)
  | account (hash : String)
  | signup (host : String)
  deriving DecidableEq

/-- `loginAttempt`: a count, and when its window is over, in nanoseconds. -/
structure LoginAttempt where
  count : ℕ
  reset : ℕ
  deriving DecidableEq

/-- `loginAttempts`. -/
abbrev LoginAttempts := AttemptKey → Option LoginAttempt

/-- What counts as too many, by key. -/
def AttemptKey.limit : AttemptKey → ℕ
  | ip _ => 20
  | account _ => 5
  | signup _ => 20

theorem AttemptKey.limit_pos (k : AttemptKey) : 0 < k.limit := by
  cases k with
  | ip => exact Nat.succ_pos 19
  | account => exact Nat.succ_pos 4
  | signup => exact Nat.succ_pos 19

/-- `time.Minute`. -/
def minute : ℕ := 60000000000

/-- The window of failed logins. -/
def loginWindow : ℕ := 15 * minute

/-- The window of signups. -/
def signupWindow : ℕ := 60 * minute

namespace LoginAttempts

/-- There is no window, or it is over. -/
def expired (m : LoginAttempts) (now : ℕ) (k : AttemptKey) : Bool := (m k).all (·.reset < now)

/-- The count of a key. -/
def count (m : LoginAttempts) (k : AttemptKey) : ℕ := (m k).elim 0 (·.count)

/-- There have been too many, in a window that is not over. -/
def blocked (m : LoginAttempts) (now : ℕ) (k : AttemptKey) : Bool :=
  !m.expired now k && k.limit ≤ m.count k

/-- Delete a window that is over. -/
def drop (m : LoginAttempts) (now : ℕ) (k : AttemptKey) : LoginAttempts :=
  if m.expired now k then Function.update m k none else m

/-- Count one more, in a new window if there is none. -/
def bump (m : LoginAttempts) (window now : ℕ) (k : AttemptKey) : LoginAttempts :=
  Function.update m k <| some <|
    if m.expired now k then ⟨1, now + window⟩
    else ⟨m.count k + 1, (m k).elim 0 (·.reset)⟩

end LoginAttempts

/-- A login: the address it comes from, and the account it names. -/
structure Login where
  host : String
  hash : String
  deriving DecidableEq

/-- The keys a login is counted under, in the order they are looked up. -/
def Login.keys (l : Login) : List AttemptKey := [.ip l.host, .account l.hash]

namespace LoginAttempts

/-- `loginAllowed`: the answer, and the map without the windows it found to be over. -/
def loginAllowed (m : LoginAttempts) (now : ℕ) (l : Login) : Bool × LoginAttempts :=
  if m.blocked now (.ip l.host) then (false, m)
  else
    let m := m.drop now (.ip l.host)
    if m.blocked now (.account l.hash) then (false, m) else (true, m.drop now (.account l.hash))

/-- `loginFailed`. -/
def loginFailed (m : LoginAttempts) (now : ℕ) (l : Login) : LoginAttempts :=
  l.keys.foldl (fun m k ↦ m.bump loginWindow now k) m

/-- `loginSucceeded`. -/
def loginSucceeded (m : LoginAttempts) (l : Login) : LoginAttempts :=
  Function.update m (.account l.hash) none

/-- `signupAllowed`. -/
def signupAllowed (m : LoginAttempts) (now : ℕ) (host : String) : Bool × LoginAttempts :=
  if m.blocked now (.signup host) then (false, m)
  else (true, m.bump signupWindow now (.signup host))

end LoginAttempts

/-! ### Requests -/

/-- Where a request is. -/
inductive LoginPlace where
  | login (l : Login)
  /-- The login is allowed, and its password is being compared. -/
  | comparing (l : Login)
  | signup (host : String)
  /-- The signup is allowed. -/
  | signingUp
  /-- The password was right. -/
  | signedIn
  | refused (problem : Problem)
  deriving DecidableEq

/-- What a step finds: the time, and whether the account is there and the password its own. -/
structure LoginChoice where
  now : ℕ
  valid : Bool

/-- One step of `handleLogin`, or the first of `handleSignup`. -/
def loginStep (ch : LoginChoice) : LoginPlace → LoginAttempts → Option (LoginPlace × LoginAttempts)
  | .login l, m =>
    match m.loginAllowed ch.now l with
    | (true, m) => some (.comparing l, m)
    | (false, m) => some (.refused ⟨429, "too many login attempts; try again later"⟩, m)
  | .comparing l, m =>
    if ch.valid then some (.signedIn, m.loginSucceeded l)
    else some (.refused ⟨401, "wrong email or password"⟩, m.loginFailed ch.now l)
  | .signup host, m =>
    match m.signupAllowed ch.now host with
    | (true, m) => some (.signingUp, m)
    | (false, m) => some (.refused ⟨429, "too many signup attempts; try again later"⟩, m)
  | .signingUp, _ => none
  | .signedIn, _ => none
  | .refused _, _ => none

/-- The service. Only requests touch the map. -/
def loginService : Service LoginAttempts LoginPlace LoginChoice Empty where
  advance := loginStep
  outside event _ := event.elim

/-- A request as it arrives. -/
inductive LoginRequest where
  | login (l : Login)
  | signup (host : String)

def LoginRequest.place : LoginRequest → LoginPlace
  | login l => .login l
  | signup host => .signup host

/-- Any number of requests, to a server that has just started. -/
def loginsArrive (requests : ℕ → LoginRequest) : Config LoginAttempts LoginPlace :=
  ⟨fun _ ↦ none, fun i ↦ (requests i).place⟩

/-! ### What a step does to a counter -/

namespace LoginAttempts

variable {m m' : LoginAttempts} {now : ℕ} {k k' : AttemptKey} {l : Login}

theorem drop_apply : m.drop now k' k = m k ∨ m.drop now k' k = none := by
  rw [drop]
  split
  · rcases eq_or_ne k k' with rfl | hne
    · exact Or.inr (Function.update_self ..)
    · exact Or.inl (Function.update_of_ne hne ..)
  · exact Or.inl rfl

/-- A counter depends on its own entry. -/
theorem bump_congr {window : ℕ} (h : m k = m' k) :
    m.bump window now k k = m'.bump window now k k := by
  rw [bump, bump, Function.update_self, Function.update_self, expired, expired, count, count, h]

theorem bump_of_ne {window : ℕ} (h : k ≠ k') : m.bump window now k' k = m k :=
  Function.update_of_ne h ..

theorem loginAllowed_apply (k : AttemptKey) :
    (m.loginAllowed now l).2 k = m k ∨ (m.loginAllowed now l).2 k = none := by
  rw [loginAllowed]
  split
  · exact Or.inl rfl
  · dsimp only
    split
    · exact drop_apply
    · show (m.drop now (.ip l.host)).drop now (.account l.hash) k = _ ∨
        (m.drop now (.ip l.host)).drop now (.account l.hash) k = none
      have hdrop : (m.drop now (.ip l.host)).drop now (.account l.hash) k =
          m.drop now (.ip l.host) k ∨
          (m.drop now (.ip l.host)).drop now (.account l.hash) k = none := drop_apply
      rcases hdrop with hsame | hnone
      · rw [hsame]
        exact drop_apply
      · exact Or.inr hnone

/-- A login is allowed where neither of its keys is blocked. -/
theorem loginAllowed_iff :
    (m.loginAllowed now l).1 = true ↔ ∀ k ∈ l.keys, m.blocked now k = false := by
  have hother : (m.drop now (.ip l.host)).blocked now (.account l.hash) =
      m.blocked now (.account l.hash) := by
    have hentry : m.drop now (.ip l.host) (.account l.hash) = m (.account l.hash) := by
      rw [drop]
      split
      · exact Function.update_of_ne (by simp) ..
      · rfl
    rw [blocked, blocked, expired, expired, count, count, hentry]
  rw [loginAllowed, Login.keys, List.forall_mem_cons, List.forall_mem_singleton]
  split
  case isTrue hip =>
    rw [hip]
    simp
  case isFalse hip =>
    dsimp only
    rw [hother]
    split
    case isTrue haccount =>
      rw [haccount]
      simp
    case isFalse haccount => simp [hip, haccount]

theorem loginFailed_of_mem (h : k ∈ l.keys) :
    m.loginFailed now l k = m.bump loginWindow now k k := by
  rw [loginFailed, Login.keys, List.foldl_cons, List.foldl_cons, List.foldl_nil]
  rcases List.mem_cons.1 h with rfl | h
  · exact bump_of_ne (by simp)
  · obtain rfl := List.mem_singleton.1 h
    exact bump_congr (bump_of_ne (by simp))

theorem loginFailed_of_notMem (h : k ∉ l.keys) : m.loginFailed now l k = m k := by
  rw [Login.keys, List.mem_cons, List.mem_singleton, not_or] at h
  rw [loginFailed, Login.keys, List.foldl_cons, List.foldl_cons, List.foldl_nil, bump_of_ne h.2,
    bump_of_ne h.1]

theorem loginSucceeded_apply (k : AttemptKey) :
    m.loginSucceeded l k = m k ∨ m.loginSucceeded l k = none := by
  rw [loginSucceeded]
  rcases eq_or_ne k (.account l.hash) with rfl | hne
  · exact Or.inr (Function.update_self ..)
  · exact Or.inl (Function.update_of_ne hne ..)

theorem signupAllowed_apply {host : String} (h : k ≠ .signup host) :
    (m.signupAllowed now host).2 k = m k := by
  rw [signupAllowed]
  split
  · rfl
  · exact bump_of_ne h

end LoginAttempts

/-! ### Runs -/

section Runs

variable (requests : ℕ → LoginRequest) (turns : List (Turn LoginChoice Empty))

/-- The server after the first turns. -/
def loginsAfter (n : ℕ) : Config LoginAttempts LoginPlace :=
  loginService.after (loginsArrive requests) turns n

/-- The map after the first turns. -/
def attemptsAfter (n : ℕ) : LoginAttempts := (loginsAfter requests turns n).shared

/-- The comparison of a turn: when, whose, and whether the password was right. -/
def comparison (n : ℕ) : Option (ℕ × Login × Bool) :=
  match turns[n]? with
  | some (.request i ch) =>
    match (loginsAfter requests turns n).requests i with
    | .comparing l => some (ch.now, l, ch.valid)
    | _ => none
  | _ => none

/-- A comparison fails that counts for a key. -/
def failsFor (k : AttemptKey) (n : ℕ) : Bool :=
  match comparison requests turns n with
  | some (_, l, false) => k ∈ l.keys
  | _ => false

/-- The comparisons that fail, from one turn to another. -/
def failures (k : AttemptKey) (m n : ℕ) : ℕ :=
  ∑ t ∈ Finset.Ico m n, if failsFor requests turns k t then 1 else 0

/-- The window of a key ends at a turn: its entry is deleted, or begun again. -/
def Resets (k : AttemptKey) (n : ℕ) : Prop :=
  ∃ a, attemptsAfter requests turns n k = some a ∧
    (attemptsAfter requests turns (n + 1) k).map (·.reset) ≠ some a.reset

/-- **The throttle**: between two resets of an address or an account no more comparisons fail than
its limit. -/
def Throttled : Prop :=
  ∀ k, (∀ host, k ≠ .signup host) → ∀ m n, m ≤ n →
    (∀ t, m < t → t < n → ¬Resets requests turns k t) →
      failures requests turns k m n ≤ k.limit

/-- Every failure is counted while its login would still be allowed. -/
def ChecksHold : Prop :=
  ∀ n now l, comparison requests turns n = some (now, l, false) →
    ((attemptsAfter requests turns n).loginAllowed now l).1 = true

variable {requests turns} {n : ℕ} {k : AttemptKey}

/-- The map after a turn of a request. -/
theorem attemptsAfter_request {i : ℕ} {ch : LoginChoice}
    (hturn : turns[n]? = some (.request i ch)) :
    attemptsAfter requests turns (n + 1) =
      (loginStep ch ((loginsAfter requests turns n).requests i)
        (attemptsAfter requests turns n)).elim (attemptsAfter requests turns n) (·.2) := by
  cases hstep : loginStep ch ((loginsAfter requests turns n).requests i)
      (attemptsAfter requests turns n) with
  | none =>
    have hadvance : loginService.advance ch ((loginsAfter requests turns n).requests i)
        (loginsAfter requests turns n).shared = none := hstep
    rw [attemptsAfter, loginsAfter, after_succ_of_some hturn, turn, ← loginsAfter, hadvance]
    rfl
  | some next =>
    have hadvance : loginService.advance ch ((loginsAfter requests turns n).requests i)
        (loginsAfter requests turns n).shared = some (next.1, next.2) := hstep
    rw [attemptsAfter, loginsAfter, after_succ_of_some hturn, ← loginsAfter,
      turn_of_advance hadvance, Option.elim_some]

/-- A turn counts a failure, or leaves a counter, or deletes it. -/
theorem attemptsAfter_succ (hk : ∀ host, k ≠ .signup host) (n : ℕ) :
    (∃ now l, comparison requests turns n = some (now, l, false) ∧ k ∈ l.keys ∧
        failsFor requests turns k n = true ∧ attemptsAfter requests turns (n + 1) k =
          (attemptsAfter requests turns n).bump loginWindow now k k) ∨
      failsFor requests turns k n = false ∧
        (attemptsAfter requests turns (n + 1) k = attemptsAfter requests turns n k ∨
          attemptsAfter requests turns (n + 1) k = none) := by
  cases hturn : turns[n]? with
  | none =>
    have hsame : attemptsAfter requests turns (n + 1) = attemptsAfter requests turns n := by
      rw [attemptsAfter, loginsAfter, after_succ_of_none hturn]
      rfl
    refine Or.inr ⟨?_, Or.inl (by rw [hsame])⟩
    simp only [failsFor, comparison, hturn]
  | some turn =>
    cases turn with
    | outside event => exact event.elim
    | request i ch =>
      rw [attemptsAfter_request hturn]
      cases hp : (loginsAfter requests turns n).requests i with
      | login l =>
        refine Or.inr ⟨by simp only [failsFor, comparison, hturn, hp], ?_⟩
        have happly : ((attemptsAfter requests turns n).loginAllowed ch.now l).2 k =
            attemptsAfter requests turns n k ∨
              ((attemptsAfter requests turns n).loginAllowed ch.now l).2 k = none :=
          LoginAttempts.loginAllowed_apply k
        rw [loginStep]
        split
        case h_1 m hallowed =>
          rw [hallowed] at happly
          exact happly
        case h_2 m hallowed =>
          rw [hallowed] at happly
          exact happly
      | comparing l =>
        rw [loginStep]
        cases hvalid : ch.valid with
        | true =>
          refine Or.inr ⟨by simp only [failsFor, comparison, hturn, hp, hvalid], ?_⟩
          rw [if_pos rfl, Option.elim_some]
          exact LoginAttempts.loginSucceeded_apply k
        | false =>
          have hcomparison : comparison requests turns n = some (ch.now, l, false) := by
            simp only [comparison, hturn, hp, hvalid]
          rw [if_neg Bool.false_ne_true, Option.elim_some]
          by_cases hmem : k ∈ l.keys
          · refine Or.inl ⟨ch.now, l, hcomparison, hmem, ?_, LoginAttempts.loginFailed_of_mem hmem⟩
            simpa only [failsFor, hcomparison] using decide_eq_true hmem
          · refine Or.inr ⟨?_, Or.inl (LoginAttempts.loginFailed_of_notMem hmem)⟩
            simpa only [failsFor, hcomparison] using decide_eq_false hmem
      | signup host =>
        refine Or.inr ⟨by simp only [failsFor, comparison, hturn, hp], Or.inl ?_⟩
        have happly : ((attemptsAfter requests turns n).signupAllowed ch.now host).2 k =
            attemptsAfter requests turns n k := LoginAttempts.signupAllowed_apply (hk host)
        rw [loginStep]
        split
        case h_1 m hallowed =>
          rw [hallowed] at happly
          exact happly
        case h_2 m hallowed =>
          rw [hallowed] at happly
          exact happly
      | signingUp => exact Or.inr ⟨by simp only [failsFor, comparison, hturn, hp], Or.inl rfl⟩
      | signedIn => exact Or.inr ⟨by simp only [failsFor, comparison, hturn, hp], Or.inl rfl⟩
      | refused => exact Or.inr ⟨by simp only [failsFor, comparison, hturn, hp], Or.inl rfl⟩

theorem failures_self (k : AttemptKey) (n : ℕ) : failures requests turns k n n = 0 := by
  rw [failures, Finset.Ico_self, Finset.sum_empty]

theorem failures_succ (k : AttemptKey) {m n : ℕ} (h : m ≤ n) :
    failures requests turns k m (n + 1) =
      failures requests turns k m n + if failsFor requests turns k n then 1 else 0 :=
  Finset.sum_Ico_succ_top h _

/-- A turn that ends the window of a key for a new one has found it to be over. -/
theorem resets_of_expired {now : ℕ} {a : LoginAttempt}
    (ha : attemptsAfter requests turns n k = some a)
    (hexpired : (attemptsAfter requests turns n).expired now k = true)
    (hbump : attemptsAfter requests turns (n + 1) k =
      (attemptsAfter requests turns n).bump loginWindow now k k) : Resets requests turns k n := by
  have hover : a.reset < now := by
    rw [LoginAttempts.expired, ha] at hexpired
    exact of_decide_eq_true hexpired
  refine ⟨a, ha, ?_⟩
  rw [hbump, LoginAttempts.bump, Function.update_self, if_pos hexpired, Option.map_some]
  intro hsame
  have hreset : now + loginWindow = a.reset := Option.some.inj hsame
  omega

/-- A turn that counts one more in a window leaves the window. -/
theorem not_resets_of_bump {now : ℕ}
    (hexpired : (attemptsAfter requests turns n).expired now k = false)
    (hbump : attemptsAfter requests turns (n + 1) k =
      (attemptsAfter requests turns n).bump loginWindow now k k) : ¬Resets requests turns k n := by
  rintro ⟨a, ha, hreset⟩
  rw [hbump, LoginAttempts.bump, Function.update_self, hexpired, if_neg Bool.false_ne_true,
    ha] at hreset
  exact hreset rfl

/-- **A counter counts at least the failures** since any reset. -/
theorem failures_le_count (hk : ∀ host, k ≠ .signup host) {m : ℕ} (hmn : m ≤ n)
    (hquiet : ∀ t, m < t → t < n → ¬Resets requests turns k t) :
    failures requests turns k m n ≤ (attemptsAfter requests turns n).count k := by
  induction n, hmn using Nat.le_induction with
  | base =>
    rw [failures_self]
    exact Nat.zero_le _
  | succ n hle ih =>
    have ih := ih fun t hmt htn ↦ hquiet t hmt (Nat.lt_succ_of_lt htn)
    -- the window is not over at the last turn, unless the count begins there
    have hkept : Resets requests turns k n → failures requests turns k m n = 0 := by
      intro hreset
      rcases hle.eq_or_lt with rfl | hlt
      · exact failures_self k m
      · exact absurd hreset (hquiet n hlt (Nat.lt_succ_self n))
    rw [failures_succ k hle]
    rcases attemptsAfter_succ hk n with ⟨now, l, -, -, hfails, hbump⟩ | ⟨hfails, hsame | hnone⟩
    · rw [hfails, if_pos rfl]
      cases hexpired : (attemptsAfter requests turns n).expired now k with
      | true =>
        have hzero : failures requests turns k m n = 0 := by
          cases ha : attemptsAfter requests turns n k with
          | none =>
            rw [LoginAttempts.count, ha] at ih
            exact Nat.le_zero.1 ih
          | some a => exact hkept (resets_of_expired ha hexpired hbump)
        rw [hzero, LoginAttempts.count, hbump, LoginAttempts.bump, Function.update_self,
          if_pos hexpired]
        exact le_rfl
      | false =>
        rw [LoginAttempts.count, hbump, LoginAttempts.bump, Function.update_self,
          hexpired, if_neg Bool.false_ne_true]
        exact Nat.succ_le_succ ih
    · rw [hfails, if_neg Bool.false_ne_true, Nat.add_zero, LoginAttempts.count, hsame]
      exact ih
    · rw [hfails, if_neg Bool.false_ne_true, Nat.add_zero]
      cases ha : attemptsAfter requests turns n k with
      | none =>
        rw [LoginAttempts.count, ha] at ih
        exact ih.trans (Nat.zero_le _)
      | some a =>
        have hreset : Resets requests turns k n := by
          refine ⟨a, ha, ?_⟩
          rw [hnone]
          exact (Option.some_ne_none _).symm
        rw [hkept hreset]
        exact Nat.zero_le _

/-- **And it counts no more,** since the turn its window began. -/
theorem exists_window (hk : ∀ host, k ≠ .signup host) {a : LoginAttempt}
    (h : attemptsAfter requests turns n k = some a) :
    ∃ m < n, (∀ t, m < t → t < n → ¬Resets requests turns k t) ∧
      a.count ≤ failures requests turns k m n := by
  induction n generalizing a with
  | zero => exact absurd h.symm (Option.some_ne_none a)
  | succ n ih =>
    rcases attemptsAfter_succ hk n with ⟨now, l, -, -, hfails, hbump⟩ | ⟨hfails, hsame | hnone⟩
    · cases hexpired : (attemptsAfter requests turns n).expired now k with
      | true =>
        refine ⟨n, Nat.lt_succ_self n, fun t hnt htn ↦ by omega, ?_⟩
        rw [hbump, LoginAttempts.bump, Function.update_self, if_pos hexpired] at h
        obtain rfl := Option.some.inj h
        rw [failures_succ k le_rfl, hfails, if_pos rfl]
        exact Nat.le_add_left _ _
      | false =>
        rw [hbump, LoginAttempts.bump, Function.update_self,
          hexpired, if_neg Bool.false_ne_true] at h
        obtain rfl := Option.some.inj h
        cases ha : attemptsAfter requests turns n k with
        | none =>
          rw [LoginAttempts.expired, ha] at hexpired
          exact absurd hexpired (by simp)
        | some b =>
          obtain ⟨m, hm, hquiet, hcount⟩ := ih ha
          refine ⟨m, Nat.lt_succ_of_lt hm, fun t hmt htn ↦ ?_, ?_⟩
          · rcases (Nat.lt_succ_iff.1 htn).eq_or_lt with rfl | htn
            · exact not_resets_of_bump hexpired hbump
            · exact hquiet t hmt htn
          · rw [failures_succ k hm.le, hfails, if_pos rfl, LoginAttempts.count, ha]
            exact Nat.succ_le_succ hcount
    · rw [hsame] at h
      obtain ⟨m, hm, hquiet, hcount⟩ := ih h
      refine ⟨m, Nat.lt_succ_of_lt hm, fun t hmt htn ↦ ?_, ?_⟩
      · rcases (Nat.lt_succ_iff.1 htn).eq_or_lt with rfl | htn
        · rintro ⟨b, hb, hreset⟩
          rw [hsame, hb] at hreset
          exact hreset rfl
        · exact hquiet t hmt htn
      · rw [failures_succ k hm.le, hfails, if_neg Bool.false_ne_true]
        exact hcount
    · rw [hnone] at h
      exact absurd h.symm (Option.some_ne_none a)

/-- Where every failure is counted while its login would still be allowed, no counter passes its
limit. -/
theorem ChecksHold.count_le (h : ChecksHold requests turns) (hk : ∀ host, k ≠ .signup host)
    (n : ℕ) :
    (attemptsAfter requests turns n).count k ≤ k.limit := by
  induction n with
  | zero => exact Nat.zero_le _
  | succ n ih =>
    rcases attemptsAfter_succ hk n with ⟨now, l, hcomparison, hmem, -, hbump⟩ | ⟨-, hsame | hnone⟩
    · have hopen := LoginAttempts.loginAllowed_iff.1 (h n now l hcomparison) k hmem
      rw [LoginAttempts.count, hbump, LoginAttempts.bump, Function.update_self, Option.elim_some]
      cases hexpired : (attemptsAfter requests turns n).expired now k with
      | true =>
        rw [if_pos rfl]
        exact k.limit_pos
      | false =>
        rw [LoginAttempts.blocked, hexpired, Bool.not_false, Bool.true_and] at hopen
        rw [if_neg Bool.false_ne_true]
        exact not_le.1 (of_decide_eq_false hopen)
    · rw [LoginAttempts.count, hsame]
      exact ih
    · rw [LoginAttempts.count, hnone]
      exact Nat.zero_le _

end Runs

namespace Sample

/-- Logins to one account. -/
def guesses (_ : ℕ) : LoginRequest := .login ⟨"203.0.113.7", "5e88"⟩

/-- Six are allowed, then six fail. -/
def guessing : List (Turn LoginChoice Empty) :=
  (List.range 6).map (fun i ↦ .request i ⟨1, false⟩) ++
    (List.range 6).map (fun i ↦ .request i ⟨2, false⟩)

end Sample

/-- **When the throttle holds.** In every run of every number of logins and signups, no more
comparisons fail between two resets of an address or an account than its limit, exactly where every
failure is counted while its login would still be allowed. -/
theorem login_throttle_iff (requests : ℕ → LoginRequest) (turns : List (Turn LoginChoice Empty)) :
    Throttled requests turns ↔ ChecksHold requests turns := by
  constructor
  · intro hthrottled n now l hcomparison
    refine LoginAttempts.loginAllowed_iff.2 fun k hmem ↦ ?_
    have hk : ∀ host, k ≠ .signup host := by
      rintro host rfl
      simp [Login.keys] at hmem
    by_contra hblocked
    rw [Bool.not_eq_false, LoginAttempts.blocked, Bool.and_eq_true, Bool.not_eq_true'] at hblocked
    obtain ⟨hexpired, hlimit⟩ := hblocked
    -- the window has as many failures as the limit already, and this is one more
    cases ha : attemptsAfter requests turns n k with
    | none =>
      rw [LoginAttempts.expired, ha] at hexpired
      exact absurd hexpired (by simp)
    | some a =>
      obtain ⟨m, hm, hquiet, hcount⟩ := exists_window hk ha
      have hfails : failsFor requests turns k n = true := by
        simpa only [failsFor, hcomparison] using decide_eq_true hmem
      rcases attemptsAfter_succ hk n with ⟨now', l', hcomparison', -, -, hbump⟩ | ⟨hnot, -⟩
      · obtain ⟨rfl, rfl, -⟩ := by
          simpa only [Prod.mk.injEq] using Option.some.inj (hcomparison.symm.trans hcomparison')
        have hbound := hthrottled k hk m (n + 1) (Nat.le_succ_of_le hm.le) fun t hmt htn ↦ by
          rcases (Nat.lt_succ_iff.1 htn).eq_or_lt with rfl | htn
          · exact not_resets_of_bump hexpired hbump
          · exact hquiet t hmt htn
        rw [failures_succ k hm.le, hfails, if_pos rfl] at hbound
        have hfull : k.limit ≤ a.count := by
          rw [LoginAttempts.count, ha] at hlimit
          exact of_decide_eq_true hlimit
        omega
      · exact absurd (hfails.symm.trans hnot) Bool.true_eq_false.mp
  · intro hchecks k hk m n hmn hquiet
    exact (failures_le_count hk hmn hquiet).trans (hchecks.count_le hk n)

/-- Six logins to an account that are allowed before any has failed all fail in one window. -/
theorem six_guesses :
    failures Sample.guesses Sample.guessing (.account "5e88") 0 12 = 6 ∧
      ¬Throttled Sample.guesses Sample.guessing := by
  have hsix : failures Sample.guesses Sample.guessing (.account "5e88") 0 12 = 6 := by decide
  refine ⟨hsix, fun hthrottled ↦ ?_⟩
  have hkept : ∀ t < 12,
      (attemptsAfter Sample.guesses Sample.guessing t (.account "5e88")).all fun a ↦
        (attemptsAfter Sample.guesses Sample.guessing (t + 1) (.account "5e88")).map (·.reset) =
          some a.reset := by decide
  have hquiet : ∀ t, 0 < t → t < 12 →
      ¬Resets Sample.guesses Sample.guessing (.account "5e88") t := by
    rintro t - ht ⟨a, ha, hreset⟩
    have hsame := hkept t ht
    rw [ha] at hsame
    exact hreset (of_decide_eq_true hsame)
  have hbound := hthrottled (.account "5e88") (by simp) 0 12 (Nat.zero_le _) hquiet
  rw [hsix] at hbound
  exact absurd hbound (by decide)

end Soroticket
