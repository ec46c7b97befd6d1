import Mathlib.Data.List.Nodup
import Mathlib.Data.Set.Basic
import Mathlib.Logic.Relation
import Soroticket.Machine.Callout

/-!
# Re-entrant invocations and guards

A machine whose invocations suspend at foreign calls and whose foreign code may do anything before
it answers: invoke the machine again, to any depth, answer whatever it likes, or trap. A
configuration is the current state, the log of the invocations that have ended with a value, and
the stack of suspended invocations; each frame keeps the state and the log that its fault restores,
so a fault of one invocation discards everything nested in it.

The one theorem about such machines is the **checks-effects-interactions** rule. A `Guarded`
machine has a set of flags, one for each key, such that no segment clears a flag, and an invocation
on a key refuses when the flag is set and sets it before its first foreign call. Then no key
completes twice, whatever the foreign code does (`nodup_keys`), and a flag that is set with nothing
suspended stays set (`flag_persists`).

The invariant is a stack of copies of one statement: at the current state, and at the state each
frame would restore, the keys completed and the keys pending are distinct and all flagged. Popping a
frame either keeps the top copy, with the key moved from the stack to the log, or uncovers the copy
below.
-/

namespace Reentrancy

variable {σ ε Op Call Value κ : Type} {Ans : Op → Type}

/-- A suspended invocation: the foreign call it waits for, how it goes on, and what its fault
restores. -/
structure Frame (σ ε Op : Type) (Ans : Op → Type) (Call Value : Type) where
  /-- The invocation. -/
  call : Call
  /-- The state before it. -/
  saved : σ
  /-- The log before it. -/
  savedLog : List (Call × Value)
  /-- The foreign operation it waits for. -/
  op : Op
  /-- What it does with the answer, at the state found then. -/
  resume : Ans op → σ → Callout σ ε Op Ans Value

/-- A configuration of the machine. -/
structure Config (σ ε Op : Type) (Ans : Op → Type) (Call Value : Type) where
  /-- The current state. -/
  state : σ
  /-- The invocations that have ended with a value, oldest first. -/
  log : List (Call × Value)
  /-- The suspended invocations, innermost first. -/
  stack : List (Frame σ ε Op Ans Call Value)

/-- Let one segment of an invocation take effect: the invocation ends and is logged, faults and
restores what was saved, or suspends on top of `rest`. -/
def absorb (call : Call) (saved : σ) (savedLog log : List (Call × Value))
    (rest : List (Frame σ ε Op Ans Call Value)) :
    Callout σ ε Op Ans Value → Config σ ε Op Ans Call Value
  | .done (.ok (v, s)) => ⟨s, log ++ [(call, v)], rest⟩
  | .done (.error _) => ⟨saved, savedLog, rest⟩
  | .call op s k => ⟨s, log, ⟨call, saved, savedLog, op, k⟩ :: rest⟩

variable (exec : Call → σ → Callout σ ε Op Ans Value)

/-- One step of the machine. With an empty stack an `invoke` is a call from outside; with a frame
on top it is a call made by the foreign code that the frame waits for. -/
inductive Step : Config σ ε Op Ans Call Value → Config σ ε Op Ans Call Value → Prop
  /-- Someone invokes the machine. -/
  | invoke (call : Call) (s : σ) (log : List (Call × Value))
      (stack : List (Frame σ ε Op Ans Call Value)) :
      Step ⟨s, log, stack⟩ (absorb call s log log stack (exec call s))
  /-- The foreign code answers the innermost suspended invocation. -/
  | answer (s : σ) (log : List (Call × Value)) (f : Frame σ ε Op Ans Call Value)
      (rest : List (Frame σ ε Op Ans Call Value)) (a : Ans f.op) :
      Step ⟨s, log, f :: rest⟩ (absorb f.call f.saved f.savedLog log rest (f.resume a s))
  /-- The foreign code traps, and with it the innermost suspended invocation. -/
  | trap (s : σ) (log : List (Call × Value)) (f : Frame σ ε Op Ans Call Value)
      (rest : List (Frame σ ε Op Ans Call Value)) :
      Step ⟨s, log, f :: rest⟩ ⟨f.saved, f.savedLog, rest⟩

/-- The configurations the machine reaches. -/
def Reaches : Config σ ε Op Ans Call Value → Config σ ε Op Ans Call Value → Prop :=
  Relation.ReflTransGen (Step exec)

/-! ### Playing a schedule -/

/-- What is to happen next: an invocation, or what the foreign code does with the call it was
given. -/
inductive Move (Op : Type) (Ans : Op → Type) (Call : Type) where
  | invoke (call : Call)
  | answer (a : (op : Op) → Ans op)
  | trap

/-- The configuration after one move; with nothing suspended there is nothing to answer. -/
def Config.move (c : Config σ ε Op Ans Call Value) :
    Move Op Ans Call → Config σ ε Op Ans Call Value
  | .invoke call => absorb call c.state c.log c.log c.stack (exec call c.state)
  | .answer a =>
    match c.stack with
    | [] => c
    | f :: rest => absorb f.call f.saved f.savedLog c.log rest (f.resume (a f.op) c.state)
  | .trap =>
    match c.stack with
    | [] => c
    | f :: rest => ⟨f.saved, f.savedLog, rest⟩

/-- The configuration after a list of moves. -/
def Config.play (c : Config σ ε Op Ans Call Value) (moves : List (Move Op Ans Call)) :
    Config σ ε Op Ans Call Value :=
  moves.foldl (Config.move exec) c

/-- What is played is reached. -/
theorem reaches_play (moves : List (Move Op Ans Call)) :
    ∀ c : Config σ ε Op Ans Call Value, Reaches exec c (c.play exec moves) := by
  induction moves with
  | nil => exact fun c ↦ Relation.ReflTransGen.refl
  | cons m moves ih =>
    intro c
    refine Relation.ReflTransGen.trans ?_ (ih (c.move exec m))
    obtain ⟨s, log, stack⟩ := c
    rcases m with call | a | -
    · exact Relation.ReflTransGen.single (.invoke call s log stack)
    · rcases stack with - | ⟨f, rest⟩
      · exact Relation.ReflTransGen.refl
      · exact Relation.ReflTransGen.single (.answer s log f rest (a f.op))
    · rcases stack with - | ⟨f, rest⟩
      · exact Relation.ReflTransGen.refl
      · exact Relation.ReflTransGen.single (.trap s log f rest)

/-! ### Guards -/

/-- The checks-effects-interactions discipline: `flag s` is the set of keys marked in the state `s`,
and `key call` is the key an invocation claims, if it claims one. -/
structure Guarded (flag : σ → Set κ) (key : Call → Option κ) : Prop where
  /-- No segment clears a flag. -/
  keeps : ∀ call s, (exec call s).Keeps (fun s s' ↦ flag s ⊆ flag s') s
  /-- An invocation on a flagged key ends at once with a fault. -/
  refuses : ∀ call s k, key call = some k → k ∈ flag s → ∃ f, exec call s = .done (.error f)
  /-- An invocation that ends at once with a value has set its flag. -/
  marks_done : ∀ call s k v s', key call = some k → exec call s = .done (.ok (v, s')) → k ∈ flag s'
  /-- An invocation that suspends has set its flag before it does. -/
  marks_call : ∀ call s k op s' resume, key call = some k →
    exec call s = .call op s' resume → k ∈ flag s'

/-- The keys of logged invocations. -/
def logKeys (key : Call → Option κ) (log : List (Call × Value)) : List κ :=
  log.filterMap fun e ↦ key e.1

/-- The keys of suspended invocations. -/
def stackKeys (key : Call → Option κ) (stack : List (Frame σ ε Op Ans Call Value)) : List κ :=
  stack.filterMap fun f ↦ key f.call

@[simp] theorem logKeys_concat (key : Call → Option κ) (log : List (Call × Value)) (call : Call)
    (v : Value) : logKeys key (log ++ [(call, v)]) = logKeys key log ++ (key call).toList := by
  rcases h : key call <;> simp [logKeys, h]

@[simp] theorem stackKeys_cons (key : Call → Option κ) (f : Frame σ ε Op Ans Call Value)
    (rest : List (Frame σ ε Op Ans Call Value)) :
    stackKeys key (f :: rest) = (key f.call).toList ++ stackKeys key rest := by
  rcases h : key f.call <;> simp [stackKeys, h]

section Invariant

variable (flag : σ → Set κ) (key : Call → Option κ)

/-- The keys claimed so far are distinct and flagged. -/
def Claimed (s : σ) (log : List (Call × Value)) (stack : List (Frame σ ε Op Ans Call Value)) :
    Prop :=
  (logKeys key log ++ stackKeys key stack).Nodup ∧
    ∀ k ∈ logKeys key log ++ stackKeys key stack, k ∈ flag s

/-- `Claimed` at the current state and at every state a fault would uncover; and each suspended
invocation goes on without clearing a flag. -/
def Sound : σ → List (Call × Value) → List (Frame σ ε Op Ans Call Value) → Prop
  | s, log, [] => Claimed flag key s log ([] : List (Frame σ ε Op Ans Call Value))
  | s, log, f :: rest => Claimed flag key s log (f :: rest) ∧
      (∀ a s', (f.resume a s').Keeps (fun s s' ↦ flag s ⊆ flag s') s') ∧
      Sound f.saved f.savedLog rest

variable {flag key}

theorem Sound.claimed {s : σ} {log : List (Call × Value)}
    {stack : List (Frame σ ε Op Ans Call Value)} (h : Sound flag key s log stack) :
    Claimed flag key s log stack := by
  cases stack with
  | nil => exact h
  | cons f rest => exact h.1

/-- A state with more flags and the same claims is as sound: only the top copy of the statement
mentions the current state. -/
theorem Sound.mono {s s' : σ} {log : List (Call × Value)}
    {stack : List (Frame σ ε Op Ans Call Value)} (h : Sound flag key s log stack)
    (hsub : flag s ⊆ flag s') : Sound flag key s' log stack := by
  have hc : Claimed flag key s' log stack := ⟨h.claimed.1, fun k hk ↦ hsub (h.claimed.2 k hk)⟩
  cases stack with
  | nil => exact hc
  | cons f rest => exact ⟨hc, h.2⟩

/-- Logging an invocation whose key is fresh and flagged. -/
theorem Sound.concat {s : σ} {log : List (Call × Value)}
    {stack : List (Frame σ ε Op Ans Call Value)} {call : Call} {v : Value}
    (h : Sound flag key s log stack)
    (hkey : ∀ k, key call = some k → k ∈ flag s ∧ k ∉ logKeys key log ++ stackKeys key stack) :
    Sound flag key s (log ++ [(call, v)]) stack := by
  have hperm : (logKeys key (log ++ [(call, v)]) ++ stackKeys key stack).Perm
      ((key call).toList ++ (logKeys key log ++ stackKeys key stack)) := by
    rw [logKeys_concat, ← List.append_assoc]
    exact List.perm_append_comm.append_right _
  have hc : Claimed flag key s (log ++ [(call, v)]) stack := by
    rcases hk : key call with - | k
    · simpa [Claimed, hk] using h.claimed
    · rw [hk] at hperm
      have hfresh := hkey k hk
      refine ⟨hperm.nodup_iff.2 (List.nodup_cons.2 ⟨hfresh.2, h.claimed.1⟩), fun j hj ↦ ?_⟩
      rcases List.mem_cons.1 (hperm.mem_iff.1 hj) with rfl | hj
      · exact hfresh.1
      · exact h.claimed.2 j hj
  cases stack with
  | nil => exact hc
  | cons f rest => exact ⟨hc, h.2⟩

variable {exec}

/-- The invocation on top of a sound configuration claims a key nobody else claims. -/
theorem Guarded.fresh (hg : Guarded exec flag key) {s : σ} {log : List (Call × Value)}
    {stack : List (Frame σ ε Op Ans Call Value)} {call : Call} (h : Sound flag key s log stack)
    (hgo : ∀ f, exec call s ≠ .done (.error f)) {k : κ} (hk : key call = some k) :
    k ∉ logKeys key log ++ stackKeys key stack := by
  intro hmem
  obtain ⟨f, hf⟩ := hg.refuses call s k hk (h.claimed.2 k hmem)
  exact hgo f hf

/-- An `invoke` keeps the invariant. -/
theorem Guarded.sound_invoke (hg : Guarded exec flag key) {s : σ} {log : List (Call × Value)}
    {stack : List (Frame σ ε Op Ans Call Value)} (call : Call) (h : Sound flag key s log stack) :
    let c := absorb call s log log stack (exec call s)
    Sound flag key c.state c.log c.stack := by
  have hkeep := hg.keeps call s
  rcases hrun : exec call s with (f | ⟨v, s'⟩) | ⟨op, s', resume⟩
  · exact h
  · -- ends at once: its flag is set and its key was free
    rw [hrun] at hkeep
    have hgo : ∀ f, exec call s ≠ .done (.error f) := by simp [hrun]
    exact (h.mono hkeep).concat fun k hk ↦
      ⟨hg.marks_done call s k v s' hk hrun, hg.fresh h hgo hk⟩
  · -- suspends: the claim moves to the stack, over the configuration that a fault restores
    rw [hrun] at hkeep
    have hgo : ∀ f, exec call s ≠ .done (.error f) := by simp [hrun]
    refine ⟨?_, hkeep.2, h⟩
    have hperm : (logKeys key log ++ stackKeys key (⟨call, s, log, op, resume⟩ :: stack)).Perm
        ((key call).toList ++ (logKeys key log ++ stackKeys key stack)) := by
      rw [stackKeys_cons, ← List.append_assoc, ← List.append_assoc]
      exact List.perm_append_comm.append_right _
    rcases hk : key call with - | k
    · rw [hk] at hperm
      exact ⟨hperm.nodup_iff.2 h.claimed.1,
        fun j hj ↦ hkeep.1 (h.claimed.2 j (hperm.mem_iff.1 hj))⟩
    · rw [hk] at hperm
      refine ⟨hperm.nodup_iff.2 (List.nodup_cons.2 ⟨hg.fresh h hgo hk, h.claimed.1⟩),
        fun j hj ↦ ?_⟩
      rcases List.mem_cons.1 (hperm.mem_iff.1 hj) with rfl | hj
      · exact hg.marks_call call s j op s' resume hk hrun
      · exact hkeep.1 (h.claimed.2 j hj)

/-- An `answer` keeps the invariant: the key of the frame moves to the log, stays on the stack, or
is given up with everything nested in it. -/
theorem sound_answer {s : σ} {log : List (Call × Value)} {f : Frame σ ε Op Ans Call Value}
    {rest : List (Frame σ ε Op Ans Call Value)} (a : Ans f.op)
    (h : Sound flag key s log (f :: rest)) :
    let c := absorb f.call f.saved f.savedLog log rest (f.resume a s)
    Sound flag key c.state c.log c.stack := by
  obtain ⟨hc, hres, hbelow⟩ := h
  have hkeep := hres a s
  rcases hrun : f.resume a s with (e | ⟨v, s'⟩) | ⟨op, s', resume⟩
  · exact hbelow
  · rw [hrun] at hkeep
    have hperm : (logKeys key log ++ stackKeys key (f :: rest)).Perm
        (logKeys key (log ++ [(f.call, v)]) ++ stackKeys key rest) := by
      rw [stackKeys_cons, logKeys_concat, List.append_assoc]
    have hc' : Claimed flag key s' (log ++ [(f.call, v)]) rest :=
      ⟨hperm.nodup_iff.1 hc.1, fun j hj ↦ hkeep (hc.2 j (hperm.mem_iff.2 hj))⟩
    cases rest with
    | nil => exact hc'
    | cons g rest => exact ⟨hc', hbelow.2⟩
  · rw [hrun] at hkeep
    have hkeys : stackKeys key (⟨f.call, f.saved, f.savedLog, op, resume⟩ :: rest) =
        stackKeys key (f :: rest) := by
      rw [stackKeys_cons, stackKeys_cons]
    refine ⟨⟨?_, fun j hj ↦ hkeep.1 (hc.2 j ?_)⟩, hkeep.2, hbelow⟩
    · rw [hkeys]; exact hc.1
    · rwa [hkeys] at hj

theorem Guarded.sound_step (hg : Guarded exec flag key) {c c' : Config σ ε Op Ans Call Value}
    (hstep : Step exec c c') (h : Sound flag key c.state c.log c.stack) :
    Sound flag key c'.state c'.log c'.stack := by
  cases hstep with
  | invoke call s log stack => exact hg.sound_invoke call h
  | answer s log f rest a => exact sound_answer a h
  | trap s log f rest => exact h.2.2

theorem Guarded.sound_reaches (hg : Guarded exec flag key) {c c' : Config σ ε Op Ans Call Value}
    (hreach : Reaches exec c c') (h : Sound flag key c.state c.log c.stack) :
    Sound flag key c'.state c'.log c'.stack := by
  induction hreach with
  | refl => exact h
  | tail _ hstep ih => exact hg.sound_step hstep ih

/-! ### The rule -/

/-- The configuration with nothing logged and nothing suspended. -/
theorem sound_start (s : σ) : Sound flag key s [] ([] : List (Frame σ ε Op Ans Call Value)) := by
  simp [Sound, Claimed, logKeys, stackKeys]

/-- **No key completes twice**, whatever the foreign code does. -/
theorem Guarded.nodup_keys (hg : Guarded exec flag key) {s : σ}
    {c : Config σ ε Op Ans Call Value} (hreach : Reaches exec ⟨s, [], []⟩ c) :
    (logKeys key c.log).Nodup :=
  (List.nodup_append.1 (hg.sound_reaches hreach (sound_start s)).claimed.1).1

/-- A completed key is flagged. -/
theorem Guarded.flag_of_mem_log (hg : Guarded exec flag key) {s : σ}
    {c : Config σ ε Op Ans Call Value} (hreach : Reaches exec ⟨s, [], []⟩ c) {k : κ}
    (hk : k ∈ logKeys key c.log) : k ∈ flag c.state :=
  (hg.sound_reaches hreach (sound_start s)).claimed.2 k (List.mem_append_left _ hk)

/-- The flags `F` are set now and in every state a fault would uncover. -/
def Holding (flag : σ → Set κ) (F : Set κ) (c : Config σ ε Op Ans Call Value) : Prop :=
  F ⊆ flag c.state ∧ ∀ f ∈ c.stack, F ⊆ flag f.saved ∧
    ∀ a s', (f.resume a s').Keeps (fun s s' ↦ flag s ⊆ flag s') s'

/-- A segment that clears no flag keeps `Holding`. -/
theorem Holding.absorb {F : Set κ} {call : Call} {s saved : σ}
    {savedLog log : List (Call × Value)} {rest : List (Frame σ ε Op Ans Call Value)}
    {p : Callout σ ε Op Ans Value} (hs : F ⊆ flag s) (hsaved : F ⊆ flag saved)
    (hp : p.Keeps (fun s s' ↦ flag s ⊆ flag s') s)
    (hrest : ∀ f ∈ rest, F ⊆ flag f.saved ∧
      ∀ a s', (f.resume a s').Keeps (fun s s' ↦ flag s ⊆ flag s') s') :
    Holding flag F (absorb call saved savedLog log rest p) := by
  rcases p with (e | ⟨v, s'⟩) | ⟨op, s', resume⟩
  · exact ⟨hsaved, hrest⟩
  · exact ⟨hs.trans hp, hrest⟩
  · refine ⟨hs.trans hp.1, fun f hf ↦ ?_⟩
    rcases List.mem_cons.1 hf with rfl | hf
    · exact ⟨hsaved, hp.2⟩
    · exact hrest f hf

theorem Guarded.holding_step (hg : Guarded exec flag key) {F : Set κ}
    {c c' : Config σ ε Op Ans Call Value} (hstep : Step exec c c') (h : Holding flag F c) :
    Holding flag F c' := by
  cases hstep with
  | invoke call s log stack => exact Holding.absorb h.1 h.1 (hg.keeps call s) h.2
  | answer s log f rest a =>
    obtain ⟨hsaved, hres⟩ := h.2 f List.mem_cons_self
    exact Holding.absorb h.1 hsaved (hres a s) fun g hg' ↦ h.2 g (List.mem_cons_of_mem _ hg')
  | trap s log f rest =>
    exact ⟨(h.2 f List.mem_cons_self).1, fun g hg' ↦ h.2 g (List.mem_cons_of_mem _ hg')⟩

/-- **A flag set with nothing suspended stays set**, also while later invocations are suspended and
after their faults. -/
theorem Guarded.flag_persists (hg : Guarded exec flag key) {s : σ} {log : List (Call × Value)}
    {c : Config σ ε Op Ans Call Value} (hreach : Reaches exec ⟨s, log, []⟩ c) :
    flag s ⊆ flag c.state := by
  have hhold : Holding flag (flag s) c := by
    induction hreach with
    | refl => exact ⟨subset_rfl, by simp⟩
    | tail _ hstep ih => exact hg.holding_step hstep ih
  exact hhold.1

end Invariant

end Reentrancy
