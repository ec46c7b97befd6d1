import Mathlib.Data.List.Induction
import Mathlib.Data.Option.Basic
import Mathlib.Tactic.Common

/-!
# Fallible invocations and their rollback

An invocation of a contract either returns a value, refuses with an error of the contract's own, or
traps. The last two are a `Fault`; an `Outcome` is the value or the fault. The few ways a body can
stop early are named (`rejectIf`, `okOr`, `orTrap`), and each has one inversion lemma, so a body
written with them is taken apart by a single `simp only` into the conditions under which it
succeeds.

A host commits the state an invocation returns and discards it on any fault. `commit` is that rule,
and `runAll` is the run of a list of transactions under it. An invariant of single successful
transactions is an invariant of every run (`runAll_induction`); no client repeats the induction.
-/

universe u v

/-- How an invocation fails: with an error value it returned, or with a trap of the host. -/
inductive Fault (ε : Type v) where
  /-- The invocation returned an error. -/
  | err (e : ε)
  /-- The invocation trapped: a missing authorization, an overflow, a failed foreign call. -/
  | trap
  deriving DecidableEq

/-- What an invocation gives: a value, or the fault that rolled it back. -/
abbrev Outcome (ε : Type v) (α : Type u) := Except (Fault ε) α

namespace Outcome

variable {ε : Type v} {α β σ : Type u}

/-! ### The early exits of a body -/

/-- Return the error `e` when `p` holds, and go on otherwise. -/
def rejectIf (p : Prop) [Decidable p] (e : ε) : Outcome ε Unit :=
  if p then .error (.err e) else .ok ()

/-- Go on with the value of an option, or return the error `e`. -/
def okOr (o : Option α) (e : ε) : Outcome ε α :=
  match o with
  | some a => .ok a
  | none => .error (.err e)

/-- Go on with the value of an option, or trap. -/
def orTrap (o : Option α) : Outcome ε α :=
  match o with
  | some a => .ok a
  | none => .error .trap

@[simp] theorem ok_bind (a : α) (f : α → Outcome ε β) : (Except.ok a >>= f) = f a := rfl

@[simp] theorem error_bind (e : Fault ε) (f : α → Outcome ε β) :
    ((Except.error e : Outcome ε α) >>= f) = .error e := rfl

@[simp] theorem pure_eq_ok (a : α) : (pure a : Outcome ε α) = .ok a := rfl

/-- A sequence succeeds exactly when both of its parts do. -/
theorem bind_eq_ok_iff {x : Outcome ε α} {f : α → Outcome ε β} {b : β} :
    (x >>= f) = .ok b ↔ ∃ a, x = .ok a ∧ f a = .ok b := by
  cases x <;> simp

@[simp] theorem rejectIf_eq_ok_iff {p : Prop} [Decidable p] {e : ε} {u : Unit} :
    rejectIf p e = .ok u ↔ ¬p := by
  unfold rejectIf
  split <;> simp_all

@[simp] theorem okOr_eq_ok_iff {o : Option α} {e : ε} {a : α} :
    okOr o e = .ok a ↔ o = some a := by
  cases o <;> simp [okOr]

@[simp] theorem orTrap_eq_ok_iff {o : Option α} {a : α} :
    (orTrap o : Outcome ε α) = .ok a ↔ o = some a := by
  cases o <;> simp [orTrap]

@[simp] theorem okOr_some (a : α) (e : ε) : okOr (some a) e = .ok a := rfl

/-- A sequence traps exactly when one of its parts does. -/
theorem bind_eq_trap_iff {x : Outcome ε α} {f : α → Outcome ε β} :
    (x >>= f) = .error .trap ↔ x = .error .trap ∨ ∃ a, x = .ok a ∧ f a = .error .trap := by
  cases x <;> simp

@[simp] theorem rejectIf_ne_trap {p : Prop} [Decidable p] {e : ε} :
    rejectIf p e ≠ .error .trap := by
  unfold rejectIf
  split <;> simp

@[simp] theorem okOr_ne_trap {o : Option α} {e : ε} : okOr o e ≠ .error .trap := by
  cases o <;> simp [okOr]

@[simp] theorem orTrap_eq_trap_iff {o : Option α} :
    (orTrap o : Outcome ε α) = .error .trap ↔ o = none := by
  cases o <;> simp [orTrap]

theorem rejectIf_pos {p : Prop} [Decidable p] (h : p) (e : ε) :
    rejectIf p e = .error (.err e) :=
  if_pos h

theorem rejectIf_neg {p : Prop} [Decidable p] (h : ¬p) (e : ε) : rejectIf p e = .ok () :=
  if_neg h

/-- What every round of a loop keeps, a loop that ends without a fault keeps. -/
theorem foldlM_induction {P : σ → Prop} {f : σ → α → Outcome ε σ}
    (hf : ∀ s a s', P s → f s a = .ok s' → P s') :
    ∀ {l : List α} {s s' : σ}, P s → l.foldlM f s = .ok s' → P s'
  | [], s, s', hs, h => by
    rw [List.foldlM_nil, pure_eq_ok, Except.ok.injEq] at h
    exact h ▸ hs
  | a :: l, s, s', hs, h => by
    rw [List.foldlM_cons, bind_eq_ok_iff] at h
    obtain ⟨s₁, h₁, h₂⟩ := h
    exact foldlM_induction hf (hf s a s₁ hs h₁) h₂

/-- A loop whose rounds all succeed, each moving along `R` and achieving its own `Q`, succeeds and
achieves them all, where nothing achieved is lost along `R`. -/
theorem exists_foldlM {R : σ → σ → Prop} {Q : α → σ → Prop} {f : σ → α → Outcome ε σ}
    (hrefl : ∀ s, R s s) (htrans : ∀ s₁ s₂ s₃, R s₁ s₂ → R s₂ s₃ → R s₁ s₃)
    (hkept : ∀ a s s', Q a s → R s s' → Q a s') {s₀ : σ} {l : List α}
    (hround : ∀ a ∈ l, ∀ s, R s₀ s → ∃ s', f s a = .ok s' ∧ R s s' ∧ Q a s') :
    ∃ s', l.foldlM f s₀ = .ok s' ∧ R s₀ s' ∧ ∀ a ∈ l, Q a s' := by
  induction l generalizing s₀ with
  | nil => exact ⟨s₀, rfl, hrefl s₀, fun a ha ↦ absurd ha List.not_mem_nil⟩
  | cons a l ih =>
    obtain ⟨s₁, h₁, hR₁, hQ⟩ := hround a List.mem_cons_self s₀ (hrefl s₀)
    have hrest : ∀ b ∈ l, ∀ s, R s₁ s → ∃ s', f s b = .ok s' ∧ R s s' ∧ Q b s' :=
      fun b hb s hs ↦ hround b (List.mem_cons_of_mem a hb) s (htrans _ _ _ hR₁ hs)
    obtain ⟨s', h', hR', hQ'⟩ := ih hrest
    refine ⟨s', ?_, htrans _ _ _ hR₁ hR', fun b hb ↦ ?_⟩
    · rw [List.foldlM_cons, h₁]
      exact h'
    · rcases List.mem_cons.1 hb with rfl | hb
      · exact hkept b s₁ s' hQ hR'
      · exact hQ' b hb

/-! ### Which errors a body returns -/

/-- The errors an invocation may return satisfy `P`. -/
def Raises (P : ε → Prop) (x : Outcome ε α) : Prop := ∀ e, x = .error (.err e) → P e

section Raises

variable {P : ε → Prop} {x : Outcome ε α} {f : α → Outcome ε β}

theorem raises_bind (hx : Raises P x) (hf : ∀ a, x = .ok a → Raises P (f a)) :
    Raises P (x >>= f) := by
  intro e he
  rcases hxa : x with fault | a
  · rw [hxa, error_bind] at he
    obtain rfl := Except.error.inj he
    exact hx e hxa
  · rw [hxa, ok_bind] at he
    exact hf a hxa e he

theorem raises_ok (a : α) : Raises P (.ok a) := fun _ he ↦ absurd he nofun

theorem raises_trap : Raises P (.error .trap : Outcome ε α) :=
  fun _ he ↦ absurd (Except.error.inj he) nofun

theorem raises_rejectIf {p : Prop} [Decidable p] {e : ε} (h : p → P e) :
    Raises P (rejectIf p e) := by
  intro e' he
  by_cases hp : p
  · rw [rejectIf_pos hp] at he
    obtain rfl := Fault.err.inj (Except.error.inj he)
    exact h hp
  · rw [rejectIf_neg hp] at he
    exact absurd he nofun

theorem raises_okOr {o : Option α} {e : ε} (h : o = none → P e) : Raises P (okOr o e) := by
  intro e' he
  rcases o with - | a
  · obtain rfl := Fault.err.inj (Except.error.inj he)
    exact h rfl
  · exact absurd he nofun

theorem raises_orTrap (o : Option α) : Raises P (orTrap o) := by
  intro e' he
  rcases o with - | a
  · exact absurd (Except.error.inj he) nofun
  · exact absurd he nofun

end Raises

/-! ### Commit and rollback -/

/-- The state a host keeps: the one a successful invocation leaves, and the old one after a
fault. -/
def commit (s : σ) : Outcome ε (α × σ) → σ
  | .ok (_, s') => s'
  | .error _ => s

@[simp] theorem commit_ok (s : σ) (r : α × σ) : commit s (.ok r : Outcome ε (α × σ)) = r.2 := rfl

@[simp] theorem commit_error (s : σ) (f : Fault ε) :
    commit s (.error f : Outcome ε (α × σ)) = s := rfl

end Outcome

/-! ### Runs of transactions -/

section Run

variable {ε : Type v} {α σ τ : Type u} (exec : τ → σ → Outcome ε (α × σ))

/-- One transaction: its invocation, committed or rolled back. -/
def applyTx (s : σ) (t : τ) : σ := Outcome.commit s (exec t s)

/-- The run of a list of transactions, first to last. -/
def runAll (s : σ) (ts : List τ) : σ := ts.foldl (applyTx exec) s

@[simp] theorem runAll_nil (s : σ) : runAll exec s [] = s := rfl

@[simp] theorem runAll_cons (s : σ) (t : τ) (ts : List τ) :
    runAll exec s (t :: ts) = runAll exec (applyTx exec s t) ts := rfl

theorem runAll_append (s : σ) (ts us : List τ) :
    runAll exec s (ts ++ us) = runAll exec (runAll exec s ts) us :=
  List.foldl_append

theorem runAll_concat (s : σ) (ts : List τ) (t : τ) :
    runAll exec s (ts ++ [t]) = applyTx exec (runAll exec s ts) t := by
  rw [runAll_append, runAll_cons, runAll_nil]

variable {exec}

theorem applyTx_of_ok {s s' : σ} {t : τ} {a : α} (h : exec t s = .ok (a, s')) :
    applyTx exec s t = s' := by
  rw [applyTx, h, Outcome.commit_ok]

theorem applyTx_of_error {s : σ} {t : τ} {f : Fault ε} (h : exec t s = .error f) :
    applyTx exec s t = s := by
  rw [applyTx, h, Outcome.commit_error]

variable (exec) in
/-- A transaction either commits what its invocation returned or changes nothing. -/
theorem applyTx_cases (s : σ) (t : τ) :
    (∃ a s', exec t s = .ok (a, s') ∧ applyTx exec s t = s') ∨
      ((∃ f, exec t s = .error f) ∧ applyTx exec s t = s) := by
  rcases h : exec t s with f | ⟨a, s'⟩
  · exact Or.inr ⟨⟨f, rfl⟩, applyTx_of_error h⟩
  · exact Or.inl ⟨a, s', rfl, applyTx_of_ok h⟩

variable (exec) in
/-- The run of a list of transactions that all succeed; it ends at the first fault. -/
def runStrict (s : σ) (ts : List τ) : Outcome ε σ :=
  ts.foldlM (fun s t ↦ (exec t s).map Prod.snd) s

/-- A run without faults is a run. -/
theorem runAll_of_runStrict {s s' : σ} {ts : List τ} (h : runStrict exec s ts = .ok s') :
    runAll exec s ts = s' := by
  induction ts generalizing s with
  | nil => exact Except.ok.inj h
  | cons t ts ih =>
    rw [runStrict, List.foldlM_cons, Outcome.bind_eq_ok_iff] at h
    obtain ⟨s₁, h₁, hrest⟩ := h
    rcases hexec : exec t s with f | ⟨a, s₂⟩
    · rw [hexec] at h₁
      cases h₁
    · rw [hexec] at h₁
      obtain rfl := Except.ok.inj h₁
      rw [runAll_cons, applyTx_of_ok hexec]
      exact ih hrest

/-- **The invariant rule.** What holds at the start and survives every successful transaction holds
after every run. The invariant may mention the transactions already run, which is how it speaks of
the last timestamp or of what was authorized before. -/
theorem runAll_induction {P : List τ → σ → Prop} {s₀ : σ} (hinit : P [] s₀)
    (hok : ∀ ts t a s', P ts (runAll exec s₀ ts) → exec t (runAll exec s₀ ts) = .ok (a, s') →
      P (ts ++ [t]) s')
    (herr : ∀ ts t f, P ts (runAll exec s₀ ts) → exec t (runAll exec s₀ ts) = .error f →
      P (ts ++ [t]) (runAll exec s₀ ts)) (ts : List τ) : P ts (runAll exec s₀ ts) := by
  induction ts using List.reverseRecOn with
  | nil => exact hinit
  | append_singleton ts t ih =>
    rw [runAll_concat]
    rcases applyTx_cases exec (runAll exec s₀ ts) t with ⟨a, s', h, happ⟩ | ⟨⟨f, h⟩, happ⟩
    · rw [happ]
      exact hok ts t a s' ih h
    · rw [happ]
      exact herr ts t f ih h

end Run
