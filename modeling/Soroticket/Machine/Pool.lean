import Mathlib.Data.DFinsupp.WellFounded
import Mathlib.Logic.Relation
import Mathlib.SetTheory.Ordinal.Rank

/-!
# Clients of one connection

Clients share a pool that has one connection. A client asks for it and waits until it is free, gives
it back, and in between goes on as the replies of its surroundings say; a client is the tree of what
it may do, one branch for each reply.

A client is disciplined if, whatever the replies, it never asks for the connection while it holds
it, gives back only what it holds, and ends with nothing held. `Keeps` says so with a postcondition,
and is proved of a client along its text (`keeps_bind`).

Disciplined clients complete, any number of them and in any schedule: the pool never stalls before
all are done (`Pool.progress`), and it makes no infinite run (`Pool.wellFounded_step`). A client
that asks for what it holds waits forever (`Pool.waits_forever`).
-/

namespace Pool

/-- What a client may do, with replies in `ρ`, and a result in `α`. -/
inductive Client (ρ α : Type) where
  /-- The client is done. -/
  | done (a : α)
  /-- The client waits for the connection, and takes it. -/
  | acquire (k : Client ρ α)
  /-- The client gives the connection back. -/
  | release (k : Client ρ α)
  /-- The client goes on as a reply says. -/
  | reply (k : ρ → Client ρ α)

namespace Client

variable {ρ α β : Type}

/-- One client, then another. -/
def bind : Client ρ α → (α → Client ρ β) → Client ρ β
  | done a, f => f a
  | acquire k, f => acquire (k.bind f)
  | release k, f => release (k.bind f)
  | reply k, f => reply fun r ↦ (k r).bind f

instance : Monad (Client ρ) where
  pure := done
  bind := bind

/-- With the connection held or not, the client never asks for it while it holds it, gives back only
what it holds, and ends in what `Q` says of its result and of the connection. -/
def Keeps : Client ρ α → Bool → (α → Bool → Prop) → Prop
  | done a, held, Q => Q a held
  | acquire k, held, Q => held = false ∧ k.Keeps true Q
  | release k, held, Q => held = true ∧ k.Keeps false Q
  | reply k, held, Q => ∀ r, (k r).Keeps held Q

/-- The client starts and ends without the connection, and keeps to the discipline in between. -/
def Disciplined (c : Client ρ α) : Prop := c.Keeps false fun _ held ↦ held = false

section Keeps

variable {held : Bool} {Q Q' : α → Bool → Prop}

@[simp] theorem keeps_pure {a : α} : Keeps (pure a : Client ρ α) held Q ↔ Q a held := Iff.rfl

@[simp] theorem keeps_acquire {k : Client ρ α} :
    Keeps (acquire k) held Q ↔ held = false ∧ k.Keeps true Q := Iff.rfl

@[simp] theorem keeps_release {k : Client ρ α} :
    Keeps (release k) held Q ↔ held = true ∧ k.Keeps false Q := Iff.rfl

@[simp] theorem keeps_reply {k : ρ → Client ρ α} :
    Keeps (reply k) held Q ↔ ∀ r, (k r).Keeps held Q := Iff.rfl

theorem Keeps.mono {c : Client ρ α} (hQ : ∀ a held, Q a held → Q' a held) :
    ∀ {held : Bool}, c.Keeps held Q → c.Keeps held Q' := by
  induction c with
  | done a => exact fun h ↦ hQ a _ h
  | acquire k ih => exact fun h ↦ ⟨h.1, ih h.2⟩
  | release k ih => exact fun h ↦ ⟨h.1, ih h.2⟩
  | reply k ih => exact fun h r ↦ ih r (h r)

/-- The rule of composition. -/
@[simp] theorem keeps_bind {c : Client ρ α} {f : α → Client ρ β} {Q : β → Bool → Prop} :
    ∀ {held : Bool}, Keeps (c >>= f) held Q ↔ c.Keeps held fun a held ↦ (f a).Keeps held Q := by
  induction c with
  | done a => exact Iff.rfl
  | acquire k ih => exact and_congr_right fun _ ↦ ih
  | release k ih => exact and_congr_right fun _ ↦ ih
  | reply k ih => exact forall_congr' fun r ↦ ih r

@[simp] theorem keeps_ite {p : Prop} [Decidable p] {c c' : Client ρ α} :
    Keeps (if p then c else c') held Q ↔ (p → c.Keeps held Q) ∧ (¬p → c'.Keeps held Q) := by
  split <;> simp_all

/-- A disciplined client, with others after it. -/
theorem Disciplined.bind {c : Client ρ α} {f : α → Client ρ β} (hc : c.Disciplined)
    (hf : ∀ a, (f a).Disciplined) : (c >>= f).Disciplined :=
  keeps_bind.2 (hc.mono fun a held hheld ↦ by
    rw [hheld]
    exact hf a)

end Keeps

/-- A client goes on as another in one step of its own. -/
inductive Next : Client ρ α → Client ρ α → Prop
  | acquire (k : Client ρ α) : Next (acquire k) k
  | release (k : Client ρ α) : Next (release k) k
  | reply (k : ρ → Client ρ α) (r : ρ) : Next (reply k) (k r)

/-- A client is a tree without infinite branches. -/
theorem wellFounded_next : WellFounded fun c' c : Client ρ α ↦ Next c c' := by
  refine ⟨fun c ↦ ?_⟩
  induction c with
  | done a => exact ⟨_, fun c h ↦ nomatch h⟩
  | acquire k ih => exact ⟨_, fun c h ↦ by cases h; exact ih⟩
  | release k ih => exact ⟨_, fun c h ↦ by cases h; exact ih⟩
  | reply k ih => exact ⟨_, fun c h ↦ by cases h; exact ih _⟩

end Client

open Client

variable {ι ρ α : Type} [DecidableEq ι]

/-- The clients of a pool, and the one that has the connection. -/
structure State (ι ρ α : Type) where
  holder : Option ι
  clients : ι → Client ρ α

/-- One client takes a step. It waits where it asks for a connection that is held. -/
inductive Step : State ι ρ α → State ι ρ α → Prop
  | acquire (clients : ι → Client ρ α) (i : ι) (k : Client ρ α) (h : clients i = .acquire k) :
      Step ⟨none, clients⟩ ⟨some i, Function.update clients i k⟩
  | release (clients : ι → Client ρ α) (i : ι) (k : Client ρ α) (h : clients i = .release k) :
      Step ⟨some i, clients⟩ ⟨none, Function.update clients i k⟩
  | reply (holder : Option ι) (clients : ι → Client ρ α) (i : ι) (k : ρ → Client ρ α) (r : ρ)
      (h : clients i = .reply k) : Step ⟨holder, clients⟩ ⟨holder, Function.update clients i (k r)⟩

/-- The states the pool reaches. -/
def Reaches : State ι ρ α → State ι ρ α → Prop := Relation.ReflTransGen Step

/-- All clients are done. -/
def Finished (s : State ι ρ α) : Prop := ∀ i, ∃ a, s.clients i = .done a

/-- Every client keeps to the discipline from where it is. -/
def Orderly (s : State ι ρ α) : Prop :=
  ∀ i, (s.clients i).Keeps (decide (s.holder = some i)) fun _ held ↦ held = false

theorem orderly_start {clients : ι → Client ρ α} (h : ∀ i, (clients i).Disciplined) :
    Orderly ⟨none, clients⟩ := h

/-- No step breaks the discipline. -/
theorem Orderly.step {s s' : State ι ρ α} (h : Orderly s) (hstep : Step s s') : Orderly s' := by
  intro j
  have hj := h j
  cases hstep with
  | acquire clients i k hi =>
    rcases eq_or_ne j i with rfl | hne
    · dsimp only at hj
      rw [hi, keeps_acquire] at hj
      simpa using hj.2
    · simpa [hne, hne.symm] using hj
  | release clients i k hi =>
    rcases eq_or_ne j i with rfl | hne
    · dsimp only at hj
      rw [hi, keeps_release] at hj
      simpa using hj.2
    · simpa [hne, hne.symm] using hj
  | reply holder clients i k r hi =>
    rcases eq_or_ne j i with rfl | hne
    · dsimp only at hj
      rw [hi, keeps_reply] at hj
      simpa using hj r
    · simpa [hne] using hj

theorem Orderly.reaches {s s' : State ι ρ α} (h : Orderly s) (hreach : Reaches s s') :
    Orderly s' := by
  induction hreach with
  | refl => exact h
  | tail _ hstep ih => exact ih.step hstep

/-- **An orderly pool does not stall.** The client that holds the connection can go on, and where
none holds it, every client that is not done can. -/
theorem Orderly.progress [Nonempty ρ] {s : State ι ρ α} (h : Orderly s) :
    Finished s ∨ ∃ s', Step s s' := by
  obtain ⟨r⟩ := ‹Nonempty ρ›
  obtain ⟨holder, clients⟩ := s
  by_cases hdone : Finished (⟨holder, clients⟩ : State ι ρ α)
  · exact Or.inl hdone
  right
  cases holder with
  | some i =>
    have hi := h i
    cases hc : clients i with
    | done a => simp [hc, Keeps] at hi
    | acquire k => simp [hc] at hi
    | release k => exact ⟨_, .release clients i k hc⟩
    | reply k => exact ⟨_, .reply _ clients i k r hc⟩
  | none =>
    obtain ⟨i, hi⟩ := not_forall.1 hdone
    have hkeeps := h i
    cases hc : clients i with
    | done a => exact absurd ⟨a, hc⟩ hi
    | acquire k => exact ⟨_, .acquire clients i k hc⟩
    | release k => simp [hc] at hkeeps
    | reply k => exact ⟨_, .reply none clients i k r hc⟩

/-- **Disciplined clients do not stall**, any number of them and in any schedule. -/
theorem progress [Nonempty ρ] {clients : ι → Client ρ α} (h : ∀ i, (clients i).Disciplined)
    {s : State ι ρ α} (hreach : Reaches ⟨none, clients⟩ s) : Finished s ∨ ∃ s', Step s s' :=
  ((orderly_start h).reaches hreach).progress

/-- A step moves one client along its tree. -/
theorem Step.next {s s' : State ι ρ α} (h : Step s s') :
    ∃ i k, Next (s.clients i) k ∧ s'.clients = Function.update s.clients i k := by
  cases h with
  | acquire clients i k hi =>
    refine ⟨i, k, ?_, rfl⟩
    rw [show State.clients _ i = Client.acquire k from hi]
    exact .acquire k
  | release clients i k hi =>
    refine ⟨i, k, ?_, rfl⟩
    rw [show State.clients _ i = Client.release k from hi]
    exact .release k
  | reply holder clients i k r hi =>
    refine ⟨i, k r, ?_, rfl⟩
    rw [show State.clients _ i = Client.reply k from hi]
    exact .reply k r

/-- **Every run ends**: there is no infinite one, since each step takes one of finitely many clients
down its tree. -/
theorem wellFounded_step [Finite ι] : WellFounded fun s' s : State ι ρ α ↦ Step s s' := by
  have hnext : IsWellFounded (Client ρ α) fun c' c ↦ Next c c' := ⟨wellFounded_next⟩
  have hwf : WellFounded fun f g : ι → Ordinal.{0} ↦ f < g := wellFounded_lt
  refine Subrelation.wf (r := InvImage _ fun (s : State ι ρ α) i ↦
    IsWellFounded.rank (fun c' c : Client ρ α ↦ Next c c') (s.clients i)) (fun {s' s} hstep ↦ ?_)
      (InvImage.wf _ hwf)
  obtain ⟨i, k, hmove, hclients⟩ := hstep.next
  have hlt := IsWellFounded.rank_lt_of_rel (r := fun c' c : Client ρ α ↦ Next c c') hmove
  refine Pi.lt_def.2 ⟨fun j ↦ ?_, i, ?_⟩ <;> dsimp only
  · rcases eq_or_ne j i with rfl | hne
    · rw [hclients, Function.update_self]
      exact hlt.le
    · rw [hclients, Function.update_of_ne hne]
  · rw [hclients, Function.update_self]
    exact hlt

/-- **Who asks for what it holds waits forever.** -/
theorem waits_forever {s s' : State ι ρ α} {i : ι} {k : Client ρ α} (hholder : s.holder = some i)
    (hi : s.clients i = .acquire k) (hreach : Reaches s s') :
    s'.holder = some i ∧ s'.clients i = .acquire k := by
  induction hreach with
  | refl => exact ⟨hholder, hi⟩
  | tail _ hstep ih =>
    obtain ⟨hh, hc⟩ := ih
    cases hstep with
    | acquire clients j k' hj => exact absurd hh.symm (Option.some_ne_none i)
    | release clients j k' hj =>
      obtain rfl := Option.some.inj hh
      exact absurd (hj.symm.trans hc) nofun
    | reply holder clients j k' r hj =>
      refine ⟨hh, ?_⟩
      have hne : i ≠ j := by
        rintro rfl
        exact absurd (hj.symm.trans hc) nofun
      rw [← hc]
      exact Function.update_of_ne hne _ _

/-! ### One client alone -/

/-- One step of a client that has the pool to itself and gets the same reply to everything. -/
def advance (r : ρ) : Bool × Client ρ α → Bool × Client ρ α
  | (false, .acquire k) => (true, k)
  | (true, .release k) => (false, k)
  | (held, .reply k) => (held, k r)
  | c => c

/-- A client asks for a connection. -/
def Client.asks : Client ρ α → Bool
  | .acquire _ => true
  | _ => false

theorem Client.asks_iff {c : Client ρ α} : c.asks = true ↔ ∃ k, c = .acquire k := by
  cases c <;> simp [Client.asks]

/-- The state of a pool with one client. -/
def alone (c : Bool × Client ρ α) : State Unit ρ α := ⟨if c.1 then some () else none, fun _ ↦ c.2⟩

theorem reaches_advance (r : ρ) (c : Bool × Client ρ α) :
    Reaches (alone c) (alone (advance r c)) := by
  have hupdate : ∀ k k' : Client ρ α, Function.update (fun _ : Unit ↦ k) () k' = fun _ ↦ k' :=
    fun k k' ↦ funext fun _ ↦ Function.update_self _ _ _
  obtain ⟨held, c⟩ := c
  cases c with
  | done a => cases held <;> exact .refl
  | acquire k =>
    cases held with
    | false =>
      have hstep := Step.acquire (fun _ : Unit ↦ Client.acquire k) () k rfl
      rw [hupdate] at hstep
      exact .single hstep
    | true => exact .refl
  | release k =>
    cases held with
    | false => exact .refl
    | true =>
      have hstep := Step.release (fun _ : Unit ↦ Client.release k) () k rfl
      rw [hupdate] at hstep
      exact .single hstep
  | reply k =>
    have hstep := fun holder ↦ Step.reply holder (fun _ : Unit ↦ Client.reply k) () k r rfl
    simp only [hupdate] at hstep
    cases held with
    | false => exact .single (hstep none)
    | true => exact .single (hstep (some ()))

theorem reaches_iterate (r : ρ) (c : Bool × Client ρ α) (n : ℕ) :
    Reaches (alone c) (alone ((advance r)^[n] c)) := by
  induction n with
  | zero => exact .refl
  | succ n ih =>
    rw [Function.iterate_succ_apply']
    exact ih.trans (reaches_advance r _)

end Pool
