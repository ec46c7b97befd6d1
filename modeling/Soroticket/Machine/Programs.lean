import Mathlib.Data.List.Basic
import Mathlib.Tactic.Common

/-!
# Programs that ask

A program runs by asking its surroundings. Each question is answered by a value of the question's
own type, and the program goes on as the answer says; so a program is the tree of what it may ask,
with a branch for every answer. A `Handler` is a program with variables of its own that may stop
early, and what it has deferred happens on every way out.

A `Law` keeps a record of what was asked and answered: what may be asked at a record, which answers
are possible there, and what they add to it. `Prog.Keeps` says that a program asks only what it may
and ends in its postcondition, whatever the possible answers. It is proved of a program along its
text (`Handler.keeps_bind`), and holds along every run of it (`Prog.Keeps.reaches`).
-/

namespace Programs

variable {E : Type} {R : E → Type} {α β σ ε G : Type}

/-! ### Programs -/

/-- What a program may ask, and how it goes on. -/
inductive Prog (R : E → Type) (α : Type) where
  /-- The program is done. -/
  | ret (a : α)
  /-- The program asks, and goes on with the answer. -/
  | ask (e : E) (k : R e → Prog R α)

namespace Prog

/-- One program, then another. -/
def bind : Prog R α → (α → Prog R β) → Prog R β
  | ret a, f => f a
  | ask e k, f => ask e fun r ↦ (k r).bind f

end Prog

/-- A question, with the answer it was given. -/
structure Exchange (R : E → Type) where
  question : E
  answer : R question

/-- A program goes on as another after these exchanges. -/
inductive Reaches : Prog R α → List (Exchange R) → Prog R α → Prop
  | refl (p : Prog R α) : Reaches p [] p
  | ask {e : E} {k : R e → Prog R α} {t : List (Exchange R)} {p : Prog R α} (r : R e)
      (h : Reaches (k r) t p) : Reaches (.ask e k) (⟨e, r⟩ :: t) p

/-- A run to the end of a program. -/
abbrev Runs (p : Prog R α) (t : List (Exchange R)) (a : α) : Prop := Reaches p t (.ret a)

theorem Reaches.of_eq {p q : Prog R α} {e : E} {r : R e} {k : R e → Prog R α}
    {t : List (Exchange R)} (hp : p = .ask e k) (h : Reaches (k r) t q) :
    Reaches p (⟨e, r⟩ :: t) q := hp ▸ .ask r h

/-! ### Laws -/

/-- How a record of questions and answers is kept. -/
structure Law (R : E → Type) (G : Type) where
  /-- What may be asked. -/
  may : G → E → Prop
  /-- Which answers are possible. -/
  possible : G → (e : E) → R e → Prop
  /-- What an answer adds. -/
  next : G → (e : E) → R e → G

namespace Law

variable (L : Law R G)

/-- The record after these exchanges. -/
def after (g : G) (t : List (Exchange R)) : G := t.foldl (fun g x ↦ L.next g x.question x.answer) g

/-- All answers are possible. -/
def Allows (L : Law R G) : G → List (Exchange R) → Prop
  | _, [] => True
  | g, x :: t => L.possible g x.question x.answer ∧ L.Allows (L.next g x.question x.answer) t

/-- A question that may be asked, and whose answer adds nothing. -/
def Silent (g : G) (e : E) : Prop := L.may g e ∧ ∀ r, L.next g e r = g

/-- Only what may be asked is asked. -/
def Obeys (L : Law R G) : G → List (Exchange R) → Prop
  | _, [] => True
  | g, x :: t => L.may g x.question ∧ L.Obeys (L.next g x.question x.answer) t

/-- A law under which every answer is possible. -/
theorem allows_of_possible (h : ∀ g e r, L.possible g e r) (g : G) (t : List (Exchange R)) :
    L.Allows g t := by
  induction t generalizing g with
  | nil => trivial
  | cons x t ih => exact ⟨h _ _ _, ih _⟩

theorem after_concat (g : G) (t : List (Exchange R)) (x : Exchange R) :
    L.after g (t ++ [x]) = L.next (L.after g t) x.question x.answer := by
  rw [after, List.foldl_append, List.foldl_cons, List.foldl_nil, after]

end Law

namespace Prog

variable {L : Law R G}

/-- The program asks only what it may, and ends in `Q` with its result and the record. -/
def Keeps (L : Law R G) : Prog R α → G → (α → G → Prop) → Prop
  | ret a, g, Q => Q a g
  | ask e k, g, Q => L.may g e ∧ ∀ r, L.possible g e r → (k r).Keeps L (L.next g e r) Q

theorem Keeps.mono {p : Prog R α} {Q Q' : α → G → Prop} (hQ : ∀ a g, Q a g → Q' a g) :
    ∀ {g : G}, p.Keeps L g Q → p.Keeps L g Q' := by
  induction p with
  | ret a => exact fun h ↦ hQ a _ h
  | ask e k ih => exact fun h ↦ ⟨h.1, fun r hr ↦ ih r (h.2 r hr)⟩

theorem keeps_bind {p : Prog R α} {f : α → Prog R β} {Q : β → G → Prop} :
    ∀ {g : G}, (p.bind f).Keeps L g Q ↔ p.Keeps L g fun a g ↦ (f a).Keeps L g Q := by
  induction p with
  | ret a => exact Iff.rfl
  | ask e k ih =>
    exact and_congr_right fun _ ↦ forall_congr' fun r ↦ imp_congr_right fun _ ↦ ih r

/-- **What is left of a program keeps what the program keeps.** -/
theorem Keeps.reaches {p p' : Prog R α} {t : List (Exchange R)} {Q : α → G → Prop}
    (hreach : Reaches p t p') : ∀ {g : G}, p.Keeps L g Q → L.Allows g t →
      p'.Keeps L (L.after g t) Q := by
  induction hreach with
  | refl p => exact fun h _ ↦ h
  | ask r _ ih => exact fun h hallows ↦ ih (h.2 r hallows.1) hallows.2

/-- **A run that is over ends in the postcondition.** -/
theorem Keeps.runs {p : Prog R α} {t : List (Exchange R)} {a : α} {g : G} {Q : α → G → Prop}
    (h : p.Keeps L g Q) (hrun : Runs p t a) (hallows : L.Allows g t) : Q a (L.after g t) :=
  h.reaches hrun hallows

/-- **A run asks only what it may.** -/
theorem Keeps.obeys {p p' : Prog R α} {t : List (Exchange R)} {Q : α → G → Prop}
    (hreach : Reaches p t p') : ∀ {g : G}, p.Keeps L g Q → L.Allows g t → L.Obeys g t := by
  induction hreach with
  | refl p => exact fun _ _ ↦ trivial
  | ask r _ ih => exact fun h hallows ↦ ⟨h.1, ih (h.2 r hallows.1) hallows.2⟩

/-- **What a run asks, it may ask.** -/
theorem Keeps.may {p p' : Prog R α} {t t' : List (Exchange R)} {x : Exchange R} {g : G}
    {Q : α → G → Prop} (h : p.Keeps L g Q) (hrun : Reaches p (t ++ x :: t') p')
    (hallows : L.Allows g t) : L.may (L.after g t) x.question := by
  induction t generalizing p g with
  | nil =>
    cases hrun with
    | ask r _ => exact h.1
  | cons y t ih =>
    cases hrun with
    | ask r hrest => exact ih (h.2 r hallows.1) hrest hallows.2

end Prog

/-! ### Handlers -/

/-- A program with variables of type `σ`, which may stop early with an `ε`. -/
def Handler (R : E → Type) (σ ε α : Type) : Type := σ → Prog R (Except ε α × σ)

namespace Handler

/-- One handler, then another, unless the first has stopped. -/
def bind (h : Handler R σ ε α) (f : α → Handler R σ ε β) : Handler R σ ε β := fun s ↦
  (h s).bind fun
    | (.ok a, s) => f a s
    | (.error x, s) => .ret (.error x, s)

instance : Monad (Handler R σ ε) where
  pure a s := .ret (.ok a, s)
  bind := bind

/-- Stop. -/
def stop (x : ε) : Handler R σ ε α := fun s ↦ .ret (.error x, s)

/-- Ask. -/
def ask (e : E) : Handler R σ ε (R e) := fun s ↦ .ask e fun r ↦ .ret (.ok r, s)

/-- Go on with a value, or stop. -/
def check (x : Except ε α) : Handler R σ ε α := fun s ↦ .ret (x, s)

/-- Stop where a condition holds. -/
def stopWhen (p : Prop) [Decidable p] (x : ε) : Handler R σ ε Unit :=
  check (if p then .error x else .ok ())

/-- Change the variables. -/
def modify (f : σ → σ) : Handler R σ ε Unit := fun s ↦ .ret (.ok (), f s)

/-- Run a program on the variables. -/
def run (p : σ → Prog R σ) : Handler R σ ε Unit := fun s ↦ (p s).bind fun s ↦ .ret (.ok (), s)

/-- A handler with something deferred, which happens whichever way it is left. -/
def deferring (final : σ → Prog R σ) (h : Handler R σ ε α) : Handler R σ ε α := fun s ↦
  (h s).bind fun (x, s) ↦ (final s).bind fun s ↦ .ret (x, s)

/-- `Q` where a handler goes on, and `X` where it stops. -/
def post (Q : α → σ → G → Prop) (X : ε → σ → G → Prop) (x : Except ε α × σ) (g : G) : Prop :=
  match x.1 with
  | .ok a => Q a x.2 g
  | .error y => X y x.2 g

/-- The handler asks only what it may, goes on in `Q`, and stops in `X`. -/
def Keeps (L : Law R G) (h : Handler R σ ε α) (s : σ) (g : G) (Q : α → σ → G → Prop)
    (X : ε → σ → G → Prop) : Prop :=
  (h s).Keeps L g (post Q X)

section Keeps

variable {L : Law R G} {s : σ} {g : G} {Q Q' : α → σ → G → Prop} {X X' : ε → σ → G → Prop}

theorem Keeps.mono {h : Handler R σ ε α} (hh : h.Keeps L s g Q X)
    (hQ : ∀ a s g, Q a s g → Q' a s g) (hX : ∀ x s g, X x s g → X' x s g) :
    h.Keeps L s g Q' X' :=
  Prog.Keeps.mono (fun x g hx ↦ by
    obtain ⟨x | a, s⟩ := x
    · exact hX x s g hx
    · exact hQ a s g hx) hh

@[simp] theorem keeps_pure {a : α} :
    Keeps L (pure a : Handler R σ ε α) s g Q X ↔ Q a s g := Iff.rfl

/-- The rule of composition. -/
@[simp] theorem keeps_bind {h : Handler R σ ε α} {f : α → Handler R σ ε β}
    {Q : β → σ → G → Prop} :
    Keeps L (h >>= f) s g Q X ↔ h.Keeps L s g (fun a s g ↦ (f a).Keeps L s g Q X) X := by
  refine Prog.keeps_bind.trans
    ⟨fun hk ↦ Prog.Keeps.mono ?_ hk, fun hk ↦ Prog.Keeps.mono ?_ hk⟩
  · rintro ⟨x | a, s⟩ g hx
    · exact hx
    · exact hx
  · rintro ⟨x | a, s⟩ g hx
    · exact hx
    · exact hx

@[simp] theorem keeps_stop {x : ε} : Keeps L (stop x : Handler R σ ε α) s g Q X ↔ X x s g := Iff.rfl

@[simp] theorem keeps_ask {e : E} {Q : R e → σ → G → Prop} :
    Keeps L (ask e : Handler R σ ε (R e)) s g Q X ↔
      L.may g e ∧ ∀ r, L.possible g e r → Q r s (L.next g e r) := Iff.rfl

@[simp] theorem keeps_check {x : Except ε α} :
    Keeps L (check x : Handler R σ ε α) s g Q X ↔
      (∀ a, x = .ok a → Q a s g) ∧ ∀ y, x = .error y → X y s g := by
  cases x with
  | error y =>
    refine ⟨fun h ↦ ⟨fun a ha ↦ ?_, fun z hz ↦ ?_⟩, fun h ↦ h.2 y rfl⟩
    · cases ha
    · cases hz
      exact h
  | ok a =>
    refine ⟨fun h ↦ ⟨fun b hb ↦ ?_, fun z hz ↦ ?_⟩, fun h ↦ h.1 a rfl⟩
    · cases hb
      exact h
    · cases hz

@[simp] theorem keeps_stopWhen {p : Prop} [Decidable p] {x : ε} {Q : Unit → σ → G → Prop} :
    Keeps L (stopWhen p x : Handler R σ ε Unit) s g Q X ↔ (p → X x s g) ∧ (¬p → Q () s g) := by
  by_cases hp : p
  · rw [stopWhen, if_pos hp]
    exact ⟨fun h ↦ ⟨fun _ ↦ h, fun hnot ↦ absurd hp hnot⟩, fun h ↦ h.1 hp⟩
  · rw [stopWhen, if_neg hp]
    exact ⟨fun h ↦ ⟨fun hp' ↦ absurd hp' hp, fun _ ↦ h⟩, fun h ↦ h.2 hp⟩

@[simp] theorem keeps_modify {f : σ → σ} {Q : Unit → σ → G → Prop} :
    Keeps L (modify f : Handler R σ ε Unit) s g Q X ↔ Q () (f s) g := Iff.rfl

@[simp] theorem keeps_run {p : σ → Prog R σ} {Q : Unit → σ → G → Prop} :
    Keeps L (run p : Handler R σ ε Unit) s g Q X ↔ (p s).Keeps L g (Q ()) := Prog.keeps_bind

@[simp] theorem keeps_deferring {final : σ → Prog R σ} {h : Handler R σ ε α} :
    Keeps L (deferring final h) s g Q X ↔
      h.Keeps L s g (fun a s g ↦ (final s).Keeps L g fun s g ↦ Q a s g)
        fun x s g ↦ (final s).Keeps L g fun s g ↦ X x s g := by
  have hfinal : ∀ (x : Except ε α × σ) (g : G),
      ((final x.2).bind fun s ↦ .ret (x.1, s)).Keeps L g (post Q X) ↔
      match x.1 with
      | .ok a => (final x.2).Keeps L g fun s g ↦ Q a s g
      | .error y => (final x.2).Keeps L g fun s g ↦ X y s g := by
    rintro ⟨x | a, s⟩ g
    · exact Prog.keeps_bind
    · exact Prog.keeps_bind
  refine Prog.keeps_bind.trans
    ⟨fun hk ↦ Prog.Keeps.mono ?_ hk, fun hk ↦ Prog.Keeps.mono ?_ hk⟩
  · exact fun x g ↦ (hfinal x g).1
  · exact fun x g ↦ (hfinal x g).2

/-- **A run of a handler asks only what it may.** -/
theorem Keeps.obeys {h : Handler R σ ε α} (hh : h.Keeps L s g Q X) {t : List (Exchange R)}
    {p : Prog R (Except ε α × σ)} (hrun : Reaches (h s) t p) (hallows : L.Allows g t) :
    L.Obeys g t := Prog.Keeps.obeys hrun hh hallows

/-- **What a run of a handler asks, it may ask.** -/
theorem Keeps.may {h : Handler R σ ε α} (hh : h.Keeps L s g Q X) {t : List (Exchange R)} {e : E}
    {r : R e} {p : Prog R (Except ε α × σ)} (hrun : Reaches (h s) (t ++ [⟨e, r⟩]) p)
    (hallows : L.Allows g t) : L.may (L.after g t) e := Prog.Keeps.may hh hrun hallows

/-- **A run of a handler that is over ends as it may.** -/
theorem Keeps.ends {h : Handler R σ ε α} (hh : h.Keeps L s g Q X) {t : List (Exchange R)}
    {x : Except ε α × σ} (hrun : Runs (h s) t x) (hallows : L.Allows g t) :
    post Q X x (L.after g t) := Prog.Keeps.runs hh hrun hallows

/-- A handler that keeps a law is a program that does. -/
theorem Keeps.start {h : Handler R σ ε α} (hh : h.Keeps L s g Q X) :
    (h s).Keeps L g (post Q X) := hh

end Keeps

-- from here on along the rules alone
attribute [irreducible] Handler.Keeps

end Handler

end Programs
