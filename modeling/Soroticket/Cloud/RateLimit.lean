import Mathlib.Algebra.Order.BigOperators.Group.List
import Mathlib.Data.List.AList
import Soroticket.Cloud.Throttle
import Soroticket.Machine.Windows

/-!
# The rate limiter

The server counts requests in windows of a minute, by API key or session and class of method, and by
address for the public audit. The windows stand in one map. A window that is over is replaced by the
next request of its key, and all that are over are deleted when the map has grown beyond ten
thousand keys.

A decision looks only at what is left of the window of its key (`Window.live`), and deletion leaves
that as it is (`lookup_evict`). So the map serves the requests of a key as a limiter that has no
other key would (`follows_after`), and the bounds are the bounds of that limiter.
-/

namespace Soroticket

/-! ### The map -/

/-- `rateWindow`. -/
abbrev RateWindow := Window

/-- `rateWindows`. -/
abbrev RateWindows := AList fun _ : String ↦ RateWindow

/-- `time.Second`. -/
def second : ℕ := 1000000000

/-- The headers of an answer. -/
structure RateHeaders where
  limit : ℤ
  remaining : ℤ
  /-- In seconds. -/
  reset : ℕ
  /-- Sent with an answer of status 429 only. -/
  retryAfter : Option ℤ
  deriving DecidableEq

/-- The headers that a request is answered with. The clock is read again for `Retry-After`. -/
def rateHeaders (limit : ℤ) (window : RateWindow) (allowed : Bool) (later : ℕ) : RateHeaders where
  limit := limit
  remaining := max (limit - window.count) 0
  reset := window.reset / second
  retryAfter := if allowed then none else some (max (((window.reset : ℤ) - later).tdiv second) 1)

/-- What a request is told: whether it is let through, and of which window. -/
structure RateAnswer where
  allowed : Bool
  window : RateWindow
  headers : RateHeaders
  deriving DecidableEq

namespace RateWindows

/-- Delete the windows that are over. -/
def evict (m : RateWindows) (now : ℕ) : RateWindows where
  entries := m.entries.filter fun e ↦ now < e.2.reset
  nodupKeys := m.nodupKeys.sublist List.filter_sublist

/-- `allowRateWindow`. -/
def allowRateWindow (m : RateWindows) (now later : ℕ) (windowKey : String) (limit : ℤ) :
    RateAnswer × RateWindows :=
  let window : RateWindow :=
    match m.lookup windowKey with
    | some window => if now < window.reset then window else ⟨0, now + minute⟩
    | none => ⟨0, now + minute⟩
  let allowed : Bool := window.count < limit
  let window := if allowed then ⟨window.count + 1, window.reset⟩ else window
  let m := m.insert windowKey window
  let m := if 10000 < m.entries.length then evict m now else m
  (⟨allowed, window, rateHeaders limit window allowed later⟩, m)

end RateWindows

/-! ### What is counted together -/

/-- Who makes a request: an API key, or the user of a session. -/
inductive Principal where
  | key (id : ℕ)
  | session (uid : ℕ)
  deriving DecidableEq

/-- What the window keys of a principal start with. -/
def Principal.name : Principal → String
  | key id => "key:" ++ toString id
  | session uid => "session:" ++ toString uid

/-- A request to the limiter: `allowRequest`, or that of `limitPublicAudit`. -/
inductive RateCall where
  | request (principal : Principal) (method : String)
  | audit (remoteIP : String)
  deriving DecidableEq

namespace RateCall

/-- A method that only reads. -/
def readOnly (method : String) : Bool := method = "GET" || method = "HEAD"

/-- The key of the window. -/
def windowKey : RateCall → String
  | request principal method => principal.name ++ if readOnly method then ":read" else ":write"
  | audit remoteIP => "audit:" ++ remoteIP

/-- How many are let through in a window. -/
def limit : RateCall → ℤ
  | request _ method => if readOnly method then 1200 else 300
  | audit _ => 30

/-- The limit of a key. -/
def keyLimit (windowKey : String) : ℤ :=
  if "audit:".toList <+: windowKey.toList then 30
  else if ":read".toList <:+ windowKey.toList then 1200 else 300

/-- No principal is taken for an address. -/
theorem not_prefix_audit (principal : Principal) (rest : String) :
    ¬"audit:".toList <+: (principal.name ++ rest).toList := by
  rw [String.toList_append]
  cases principal with
  | key id =>
    rw [Principal.name, String.toList_append]
    exact fun h ↦ absurd (List.cons_prefix_cons.1 h).1 (by decide)
  | session uid =>
    rw [Principal.name, String.toList_append]
    exact fun h ↦ absurd (List.cons_prefix_cons.1 h).1 (by decide)

/-- No write is taken for a read. -/
theorem not_read_suffix (name : String) : ¬":read".toList <:+ (name ++ ":write").toList := by
  rw [String.toList_append, ← List.reverse_prefix, List.reverse_append]
  exact fun h ↦ absurd (List.cons_prefix_cons.1 h).1 (by decide)

/-- **A key has one limit**, whoever makes the request. -/
theorem keyLimit_windowKey (c : RateCall) : keyLimit c.windowKey = c.limit := by
  cases c with
  | request principal method =>
    rw [windowKey, keyLimit, if_neg (not_prefix_audit principal _), limit]
    rcases readOnly method with - | -
    · exact if_neg (not_read_suffix principal.name)
    · refine if_pos ?_
      rw [String.toList_append]
      exact List.suffix_append _ _
  | audit remoteIP =>
    rw [windowKey, keyLimit, limit, String.toList_append]
    exact if_pos (List.prefix_append _ _)

end RateCall

/-! ### One request -/

namespace RateWindows

variable {m m' : RateWindows} {now later t : ℕ} {key key' : String} {limit : ℤ}

/-- Deletion leaves what is left of every window. -/
theorem lookup_evict (m : RateWindows) (now : ℕ) (key : String) :
    (evict m now).lookup key = Window.live now (m.lookup key) := by
  refine Option.ext fun w ↦ ?_
  rw [← Option.mem_def, ← Option.mem_def, AList.mem_lookup_iff, evict, List.mem_filter,
    ← AList.mem_lookup_iff, decide_eq_true_iff, Window.live, Option.mem_def, Option.mem_def,
    Option.filter_eq_some_iff, decide_eq_true_iff]

/-- The answer depends on the window that the request falls in. -/
theorem answer_eq (m : RateWindows) (now later : ℕ) (key : String) (limit : ℤ) :
    (allowRateWindow m now later key limit).1.window =
        (Window.current minute now (m.lookup key)).add limit ∧
      (allowRateWindow m now later key limit).1.allowed =
        (Window.current minute now (m.lookup key)).hasRoom limit := by
  unfold allowRateWindow
  rcases m.lookup key with - | w
  · exact ⟨rfl, rfl⟩
  · rcases Nat.lt_or_ge now w.reset with hlt | hge
    · simp only [Window.current, Window.live_some_of_lt hlt, if_pos hlt]
      exact ⟨rfl, rfl⟩
    · simp only [Window.current, Window.live_some_of_le hge, if_neg (Nat.not_lt.2 hge)]
      exact ⟨rfl, rfl⟩

/-- And on nothing else. -/
theorem answer_congr (heq : Window.live now (m.lookup key) = Window.live now (m'.lookup key)) :
    (allowRateWindow m now later key limit).1 = (allowRateWindow m' now later key limit).1 := by
  obtain ⟨hwindow, hallowed⟩ := answer_eq m now later key limit
  obtain ⟨hwindow', hallowed'⟩ := answer_eq m' now later key limit
  have hcurrent : Window.current minute now (m.lookup key) = _ := Window.current_congr heq
  rw [hcurrent, ← hwindow'] at hwindow
  rw [hcurrent, ← hallowed'] at hallowed
  calc (allowRateWindow m now later key limit).1
      = ⟨(allowRateWindow m now later key limit).1.allowed,
          (allowRateWindow m now later key limit).1.window,
          rateHeaders limit (allowRateWindow m now later key limit).1.window
            (allowRateWindow m now later key limit).1.allowed later⟩ := rfl
    _ = (allowRateWindow m' now later key limit).1 := by rw [hwindow, hallowed]; rfl

/-- The window of the answer is stored. -/
theorem windows_eq (m : RateWindows) (now later : ℕ) (key : String) (limit : ℤ) :
    (allowRateWindow m now later key limit).2 =
      if 10000 < (m.insert key (allowRateWindow m now later key limit).1.window).entries.length then
        evict (m.insert key (allowRateWindow m now later key limit).1.window) now
      else m.insert key (allowRateWindow m now later key limit).1.window := rfl

/-- What is left of the windows afterwards: that of the key is the one of the answer. -/
theorem live_lookup (h : now ≤ t) :
    Window.live t ((allowRateWindow m now later key limit).2.lookup key') =
      Window.live t (if key' = key then some (allowRateWindow m now later key limit).1.window
        else m.lookup key') := by
  have hinsert (w : RateWindow) :
      (m.insert key w).lookup key' = if key' = key then some w else m.lookup key' := by
    split
    · rename_i heq
      rw [heq, AList.lookup_insert]
    · rename_i hne
      rw [AList.lookup_insert_ne hne]
  rw [windows_eq]
  split
  · rw [lookup_evict, Window.live_live h, hinsert]
  · rw [hinsert]

end RateWindows

/-! ### Runs -/

/-- A request, and the two readings of the clock. -/
structure RateRequest where
  windowKey : String
  now : ℕ
  later : ℕ
  deriving DecidableEq

/-- The limiter, and what it has answered. -/
structure RateLimiter where
  log : List (RateRequest × RateAnswer)
  windows : RateWindows

namespace RateLimiter

open RateWindows

/-- The answer to a request. -/
def answer (limit : String → ℤ) (s : RateLimiter) (r : RateRequest) : RateAnswer :=
  (allowRateWindow s.windows r.now r.later r.windowKey (limit r.windowKey)).1

/-- Serve a request. -/
def serve (limit : String → ℤ) (s : RateLimiter) (r : RateRequest) : RateLimiter where
  log := s.log ++ [(r, s.answer limit r)]
  windows := (allowRateWindow s.windows r.now r.later r.windowKey (limit r.windowKey)).2

/-- Serve requests in order. -/
def after (limit : String → ℤ) (s : RateLimiter) (rs : List RateRequest) : RateLimiter :=
  rs.foldl (serve limit) s

/-- The limiter of a server that has just started. -/
def fresh : RateLimiter := ⟨[], ∅⟩

/-- How many requests of a key have been let through at certain times. -/
def passed (s : RateLimiter) (key : String) (p : ℕ → Bool) : ℕ :=
  s.log.countP fun e ↦ e.1.windowKey = key && (e.2.allowed && p e.1.now)

/-- The verdicts on the requests of a key. -/
def verdicts (s : RateLimiter) (key : String) : List Verdict :=
  (s.log.filter (·.1.windowKey = key)).map fun e ↦ ⟨e.1.now, e.2.window.reset, e.2.allowed⟩

/-- The times of the requests of a key. -/
def times (rs : List RateRequest) (key : String) : List ℕ :=
  (rs.filter (·.windowKey = key)).map (·.now)

variable {limit : String → ℤ} {s s' : RateLimiter} {rs : List RateRequest} {now : ℕ}

theorem passed_eq (s : RateLimiter) (key : String) (p : ℕ → Bool) :
    s.passed key p = Limiter.passed (s.verdicts key) (p ·.time) := by
  rw [verdicts, Limiter.passed, List.countP_map, List.countP_filter, passed]
  exact List.countP_congr fun e _ ↦ by rw [Function.comp_apply, Bool.and_comm]

theorem after_concat (limit : String → ℤ) (s : RateLimiter) (rs : List RateRequest)
    (r : RateRequest) : after limit s (rs ++ [r]) = (after limit s rs).serve limit r :=
  List.foldl_concat (serve limit) s r rs

theorem verdicts_serve_self (limit : String → ℤ) (s : RateLimiter) (r : RateRequest) :
    (s.serve limit r).verdicts r.windowKey = s.verdicts r.windowKey ++
      [⟨r.now, (s.answer limit r).window.reset, (s.answer limit r).allowed⟩] := by
  rw [verdicts, serve, List.filter_append, List.map_append, List.filter_singleton,
    decide_eq_true rfl]
  rfl

theorem verdicts_serve_of_ne (limit : String → ℤ) (s : RateLimiter) {r : RateRequest}
    {key : String} (h : r.windowKey ≠ key) : (s.serve limit r).verdicts key = s.verdicts key := by
  rw [verdicts, serve, List.filter_append, List.map_append, List.filter_singleton,
    decide_eq_false h]
  exact List.append_nil _

theorem times_concat_self (rs : List RateRequest) (r : RateRequest) :
    times (rs ++ [r]) r.windowKey = times rs r.windowKey ++ [r.now] := by
  rw [times, List.filter_append, List.map_append, List.filter_singleton, decide_eq_true rfl]
  rfl

theorem times_concat_of_ne (rs : List RateRequest) {r : RateRequest} {key : String}
    (h : r.windowKey ≠ key) : times (rs ++ [r]) key = times rs key := by
  rw [times, List.filter_append, List.map_append, List.filter_singleton, decide_eq_false h]
  exact List.append_nil _

/-- **The requests of a key** are served as by a limiter that has no other key. -/
theorem follows_after (limit : String → ℤ) (key : String)
    (hsorted : rs.Pairwise fun r r' ↦ r.now ≤ r'.now) (hnow : ∀ r ∈ rs, r.now ≤ now) :
    (after limit fresh rs).verdicts key =
        (Limiter.after minute (limit key) (times rs key)).verdicts ∧
      Window.live now ((after limit fresh rs).windows.lookup key) =
        Window.live now (Limiter.after minute (limit key) (times rs key)).window := by
  induction rs using List.reverseRecOn generalizing now with
  | nil => exact ⟨rfl, rfl⟩
  | append_singleton rs r ih =>
    obtain ⟨hrs, -, hlast⟩ := List.pairwise_append.1 hsorted
    have hr : r.now ≤ now := hnow r (List.mem_append_right _ (List.mem_singleton_self r))
    obtain ⟨hverdicts, hlive⟩ := ih hrs fun r' hr' ↦ hlast r' hr' r (List.mem_singleton_self r)
    rw [after_concat]
    by_cases hkey : r.windowKey = key
    · subst hkey
      obtain ⟨hwindow, hallowed⟩ := answer_eq (after limit fresh rs).windows r.now r.later
        r.windowKey (limit r.windowKey)
      have hcurrent : Window.current minute r.now _ = _ := Window.current_congr hlive
      rw [hcurrent] at hwindow hallowed
      rw [times_concat_self, Limiter.after_concat]
      refine ⟨?_, ?_⟩
      · rw [verdicts_serve_self, hverdicts, answer, hwindow, hallowed, Window.add_reset]
        rfl
      · rw [serve, live_lookup hr, if_pos rfl, hwindow]
        rfl
    · rw [times_concat_of_ne rs hkey, verdicts_serve_of_ne limit _ hkey]
      refine ⟨hverdicts, ?_⟩
      rw [serve, live_lookup hr, if_neg (Ne.symm hkey)]
      exact Window.live_congr hr hlive

/-- Limiters of whose windows the same is left give the same answers. -/
theorem log_after (hlog : s.log = s'.log)
    (hlive : ∀ key,
      Window.live now (s.windows.lookup key) = Window.live now (s'.windows.lookup key))
    (hsorted : rs.Pairwise fun r r' ↦ r.now ≤ r'.now) (hnow : ∀ r ∈ rs, now ≤ r.now) :
    (after limit s rs).log = (after limit s' rs).log := by
  induction rs generalizing s s' now with
  | nil => exact hlog
  | cons r rs ih =>
    obtain ⟨hfirst, hrest⟩ := List.pairwise_cons.1 hsorted
    have hr := hnow r List.mem_cons_self
    have hanswer : s.answer limit r = s'.answer limit r :=
      answer_congr (Window.live_congr hr (hlive r.windowKey))
    show (after limit (s.serve limit r) rs).log = (after limit (s'.serve limit r) rs).log
    refine ih ?_ (fun key ↦ ?_) hrest hfirst
    · rw [serve, serve, hlog, hanswer]
    · rw [serve, serve, live_lookup le_rfl, live_lookup le_rfl]
      split
      · exact congrArg (fun a : RateAnswer ↦ Window.live r.now (some a.window)) hanswer
      · exact Window.live_congr hr (hlive key)

/-- The requests of a key come in order where all do. -/
theorem times_sorted (hsorted : rs.Pairwise fun r r' ↦ r.now ≤ r'.now) (key : String) :
    (times rs key).Pairwise (· ≤ ·) :=
  List.pairwise_map.2 (hsorted.sublist List.filter_sublist)

/-- What a limiter keeps holds of the verdicts on the requests of a key. -/
theorem kept_after (limit : String → ℤ) (hsorted : rs.Pairwise fun r r' ↦ r.now ≤ r'.now)
    (key : String) (hnow : ∀ r ∈ rs, r.now ≤ now) :
    (Limiter.after minute (limit key) (times rs key)).Kept minute (limit key) now := by
  refine Limiter.kept_after (by decide) (limit key) (times_sorted hsorted key) fun t ht ↦ ?_
  obtain ⟨r, hr, rfl⟩ := List.mem_map.1 ht
  exact hnow r (List.mem_of_mem_filter hr)

end RateLimiter

/-- **The rate limiter is neither too lax nor too strict**: requests that come in order are let
through up to the limit of their key in each window, and up to twice that in any minute. One is
turned away only where the limit has been let through in the minute before it. And deleting the
windows that are over, at whatever time, changes no answer from then on. -/
theorem allowRateWindow_fair (limit : String → ℤ) {rs : List RateRequest}
    (hsorted : rs.Pairwise fun r r' ↦ r.now ≤ r'.now) :
    (∀ e ∈ (RateLimiter.fresh.after limit rs).log,
      (RateLimiter.fresh.after limit rs).passed e.1.windowKey
        (fun t ↦ e.2.window.reset ≤ t + minute ∧ t < e.2.window.reset) ≤
          (limit e.1.windowKey).toNat) ∧
    (∀ key t, (RateLimiter.fresh.after limit rs).passed key (fun t' ↦ t ≤ t' ∧ t' ≤ t + minute) ≤
      2 * (limit key).toNat) ∧
    (∀ r : RateRequest, (∀ r' ∈ rs, r'.now ≤ r.now) →
      ((RateLimiter.fresh.after limit rs).answer limit r).allowed = false →
        limit r.windowKey ≤
          (RateLimiter.fresh.after limit rs).passed r.windowKey (r.now < · + minute)) ∧
    ∀ (log : List (RateRequest × RateAnswer)) (windows : RateWindows) (now : ℕ),
      (∀ r ∈ rs, now ≤ r.now) →
        (RateLimiter.after limit ⟨log, windows.evict now⟩ rs).log =
          (RateLimiter.after limit ⟨log, windows⟩ rs).log := by
  have hnow : ∀ r ∈ rs, r.now ≤ (rs.map (·.now)).sum :=
    fun r hr ↦ List.le_sum_of_mem (List.mem_map_of_mem hr)
  refine ⟨fun e he ↦ ?_, fun key t ↦ ?_, fun r hr hdenied ↦ ?_, fun log windows start hstart ↦ ?_⟩
  · have hkept := RateLimiter.kept_after limit hsorted e.1.windowKey hnow
    rw [RateLimiter.passed_eq, (RateLimiter.follows_after limit e.1.windowKey hsorted hnow).1]
    have hmem : (⟨e.1.now, e.2.window.reset, e.2.allowed⟩ : Verdict) ∈
        (RateLimiter.fresh.after limit rs).verdicts e.1.windowKey :=
      List.mem_map_of_mem (List.mem_filter.2 ⟨he, decide_eq_true rfl⟩)
    rw [(RateLimiter.follows_after limit e.1.windowKey hsorted hnow).1] at hmem
    exact hkept.passed_window_le hmem
  · rw [RateLimiter.passed_eq, (RateLimiter.follows_after limit key hsorted hnow).1]
    exact (RateLimiter.kept_after limit hsorted key hnow).passed_interval_le t
  · obtain ⟨hverdicts, hlive⟩ := RateLimiter.follows_after limit r.windowKey hsorted hr
    rw [RateLimiter.passed_eq, hverdicts]
    refine (RateLimiter.kept_after limit hsorted r.windowKey hr).le_passed (by decide) ?_
    rw [RateLimiter.answer, (RateWindows.answer_eq _ _ _ _ _).2] at hdenied
    rw [← hdenied]
    exact congrArg (Window.hasRoom _) (Window.current_congr hlive).symm
  · refine RateLimiter.log_after rfl (fun key ↦ ?_) hsorted hstart
    rw [RateWindows.lookup_evict, Window.live_live le_rfl]

namespace RateLimiter.Sample

/-- The calls of a minute, at the times given in seconds: an address audits until it is turned
away, and a key reads and writes meanwhile. -/
def calls : List (RateCall × ℕ) :=
  (List.range 20).map (.audit "203.0.113.20", ·) ++
    [(.request (.key 7) "GET", 20), (.request (.key 7) "POST", 21)] ++
    (List.range' 22 11).map (.audit "203.0.113.20", ·) ++ [(.request (.session 7) "GET", 33)]

def requests : List RateRequest :=
  calls.map fun c ↦ ⟨c.1.windowKey, c.2 * second, c.2 * second⟩

theorem pairwise_requests : requests.Pairwise fun r r' ↦ r.now ≤ r'.now := by decide +kernel

/-- The thirty-first audit of the minute is the one turned away. -/
theorem allowed_requests : (fresh.after RateCall.keyLimit requests).log.map (·.2.allowed) =
    List.replicate 32 true ++ [false, true] := by decide +kernel

end RateLimiter.Sample

/-- The calls of a minute are let through up to the limit of each. -/
theorem allowRateWindow_fair_calls :
    (RateLimiter.fresh.after RateCall.keyLimit RateLimiter.Sample.requests).log.map
      (·.2.allowed) = List.replicate 32 true ++ [false, true] ∧
    ∀ (c : RateCall) (t : ℕ),
      (RateLimiter.fresh.after RateCall.keyLimit RateLimiter.Sample.requests).passed c.windowKey
        (fun t' ↦ t ≤ t' ∧ t' ≤ t + minute) ≤ 2 * c.limit.toNat := by
  refine ⟨RateLimiter.Sample.allowed_requests, fun c t ↦ ?_⟩
  rw [← c.keyLimit_windowKey]
  exact (allowRateWindow_fair RateCall.keyLimit RateLimiter.Sample.pairwise_requests).2.1 _ t

end Soroticket
