import Soroticket.Machine.Interleaving
import Soroticket.Machine.Programs

/-!
# Programs that ask one server

Any number of programs, in the sense of `Machine.Programs`, ask one server, whose state answers them
and changes as it does. A request is the rest of its program together with what it has said, and one
step of it is one question; so the questions of different requests come in any order, and this is a
`Service` in the sense of `Machine.Interleaving`.

What a law says of each program alone, it says of each request here, as long as the answers are
possible. So an invariant of the server and of the records of its requests is proved for one
question that may be asked (`serve_keeps`), and the programs' texts are read only once, for the law.
-/

namespace Programs

open Interleaving

variable {E : Type} {R : E → Type} {α G σ χ ω : Type}

/-- A request: the rest of its program, and what it has said. -/
structure Place (R : E → Type) (α : Type) where
  rest : Prog R α
  said : List (Exchange R)

/-- A request that has said nothing. -/
def Place.start (p : Prog R α) : Place R α := ⟨p, []⟩

/-- What a request that is over has returned. -/
def Place.returned (p : Place R α) : Option α :=
  match p.rest with
  | .ret a => some a
  | .ask .. => none

/-- A server that answers questions. A question that is not answered waits. -/
structure Server (R : E → Type) (σ χ ω : Type) where
  answer : χ → σ → (e : E) → Option (R e × σ)
  outside : ω → σ → σ

namespace Server

variable (V : Server R σ χ ω)

/-- One step of a request is one question. -/
def advance (ch : χ) (p : Place R α) (s : σ) : Option (Place R α × σ) :=
  match p.rest with
  | .ret _ => none
  | .ask e k => (V.answer ch s e).map fun (r, s') ↦ (⟨k r, p.said ++ [⟨e, r⟩]⟩, s')

/-- The service of all requests. -/
def service (α : Type) : Service σ (Place R α) χ ω := ⟨V.advance, V.outside⟩

variable {V}

theorem advance_eq_some {ch : χ} {p p' : Place R α} {s s' : σ}
    (h : V.advance ch p s = some (p', s')) : ∃ e k r, p.rest = .ask e k ∧
      V.answer ch s e = some (r, s') ∧ p' = ⟨k r, p.said ++ [⟨e, r⟩]⟩ := by
  rw [advance] at h
  split at h
  · exact absurd h.symm (Option.some_ne_none _)
  · rename_i e k hrest
    obtain ⟨⟨r, s₁⟩, hanswer, hp⟩ := Option.map_eq_some_iff.1 h
    obtain ⟨rfl, rfl⟩ := Prod.mk.inj hp
    exact ⟨e, k, r, hrest, hanswer, rfl⟩

/-- The records of all requests. -/
def records (L : Law R G) (g : G) (c : Config σ (Place R α)) (i : ℕ) : G :=
  L.after g (c.requests i).said

/-- One question of a request, which it may ask, and which is answered as is possible. -/
structure Asks (V : Server R σ χ ω) (L : Law R G) (g : G) (c : Config σ (Place R α)) (i : ℕ)
    (ch : χ) (e : E) (r : R e) (s' : σ) : Prop where
  rest : ∃ k, (c.requests i).rest = .ask e k
  may : L.may (records L g c i) e
  answer : V.answer ch c.shared e = some (r, s')

/-- Each request goes on as its program may, and ends in its own postcondition. -/
def Keeping (L : Law R G) (g : G) (Q : ℕ → α → G → Prop) (c : Config σ (Place R α)) : Prop :=
  ∀ i, (c.requests i).rest.Keeps L (records L g c i) (Q i)

section Invariants

variable {L : Law R G} {g : G} {Q : ℕ → α → G → Prop} {J : σ → (ℕ → G) → Prop}
  {K : Config σ (Place R α) → Turn χ ω → Prop} {init : Config σ (Place R α)}
  {turns : List (Turn χ ω)} {n : ℕ}

/-- **The invariant rule.** An invariant of the server and of the records of the requests holds from
some point of a schedule on that is kept to, if one question keeps it: a question that may be asked
has a possible answer, and leaves the invariant true with one more exchange in the record. -/
theorem serve_keeps_from {k : ℕ} (hstart : Keeping L g Q ((V.service α).after init turns k))
    (hinit : J ((V.service α).after init turns k).shared
      (records L g ((V.service α).after init turns k)))
    (hturns : ∀ n t, turns[n]? = some t → K ((V.service α).after init turns n) t)
    (hask : ∀ c i ch e r s', J c.shared (records L g c) → K c (.request i ch) →
      Asks V L g c i ch e r s' → L.possible (records L g c i) e r ∧
        J s' (Function.update (records L g c) i (L.next (records L g c i) e r)))
    (houtside : ∀ s gs event, J s gs → J (V.outside event s) gs) (hkn : k ≤ n) :
    Keeping L g Q ((V.service α).after init turns n) ∧
      J ((V.service α).after init turns n).shared
        (records L g ((V.service α).after init turns n)) := by
  refine Service.after_induction (P := fun c ↦ Keeping L g Q c ∧ J c.shared (records L g c))
    ⟨hstart, hinit⟩ hturns ?_ (fun c event h ↦ ⟨h.1, houtside _ _ event h.2⟩) hkn
  rintro c i ch p s' ⟨hkeeping, hinv⟩ hkept hstep
  obtain ⟨e, k, r, hrest, hanswer, rfl⟩ := advance_eq_some hstep
  have hkeeps := hkeeping i
  rw [hrest] at hkeeps
  obtain ⟨hpossible, hnext⟩ := hask c i ch e r s' hinv hkept ⟨⟨k, hrest⟩, hkeeps.1, hanswer⟩
  have hrecord : L.after g ((c.requests i).said ++ [⟨e, r⟩]) = L.next (records L g c i) e r :=
    L.after_concat g _ _
  have hrecords : records L g ⟨s', Function.update c.requests i ⟨k r, (c.requests i).said ++
      [⟨e, r⟩]⟩⟩ = Function.update (records L g c) i (L.next (records L g c i) e r) := by
    funext j
    rcases eq_or_ne j i with rfl | hne
    · rw [Function.update_self, records]
      dsimp only
      rw [Function.update_self, hrecord]
    · rw [Function.update_of_ne hne, records, records]
      dsimp only
      rw [Function.update_of_ne hne]
  refine ⟨fun j ↦ ?_, ?_⟩
  · rw [hrecords]
    dsimp only
    rcases eq_or_ne j i with rfl | hne
    · rw [Function.update_self, Function.update_self]
      exact hkeeps.2 r hpossible
    · rw [Function.update_of_ne hne, Function.update_of_ne hne]
      exact hkeeping j
  · rw [hrecords]
    exact hnext

/-- The invariant rule, for a whole schedule. -/
theorem serve_keeps (hstart : Keeping L g Q init) (hinit : J init.shared (records L g init))
    (hturns : ∀ n t, turns[n]? = some t → K ((V.service α).after init turns n) t)
    (hask : ∀ c i ch e r s', J c.shared (records L g c) → K c (.request i ch) →
      Asks V L g c i ch e r s' → L.possible (records L g c i) e r ∧
        J s' (Function.update (records L g c) i (L.next (records L g c i) e r)))
    (houtside : ∀ s gs event, J s gs → J (V.outside event s) gs) (n : ℕ) :
    Keeping L g Q ((V.service α).after init turns n) ∧
      J ((V.service α).after init turns n).shared
        (records L g ((V.service α).after init turns n)) :=
  serve_keeps_from (k := 0) hstart hinit hturns hask houtside n.zero_le

end Invariants

/-! ### Turns of one request -/

section Turns

variable {init : Config σ (Place R α)} {turns : List (Turn χ ω)} {n i : ℕ}

variable (V) in
/-- In one turn a request says nothing, or it asks one question, which is answered. -/
theorem said_succ (init : Config σ (Place R α)) (turns : List (Turn χ ω)) (n i : ℕ) :
    (((V.service α).after init turns (n + 1)).requests i).said =
        (((V.service α).after init turns n).requests i).said ∨
      ∃ ch e k r, (((V.service α).after init turns n).requests i).rest = .ask e k ∧
        V.answer ch ((V.service α).after init turns n).shared e =
          some (r, ((V.service α).after init turns (n + 1)).shared) ∧
        (((V.service α).after init turns (n + 1)).requests i).said =
          (((V.service α).after init turns n).requests i).said ++ [⟨e, r⟩] := by
  rcases ht : turns[n]? with - | t
  · rw [Service.after_succ_of_none ht]
    exact Or.inl rfl
  · rw [Service.after_succ_of_some ht]
    rcases (V.service α).turn_cases ((V.service α).after init turns n) t with
      hpass | ⟨j, ch, p, s, -, hstep, hturn⟩ | ⟨event, -, hturn⟩
    · rw [hpass]
      exact Or.inl rfl
    · rw [hturn]
      dsimp only
      rcases eq_or_ne i j with rfl | hne
      · rw [Function.update_self]
        obtain ⟨e, k, r, hrest, hanswer, rfl⟩ := advance_eq_some hstep
        exact Or.inr ⟨ch, e, k, r, hrest, hanswer, rfl⟩
      · rw [Function.update_of_ne hne]
        exact Or.inl rfl
    · rw [hturn]
      exact Or.inl rfl

/-- An exchange that was added in one turn was asked and answered in it. -/
theorem answer_of_said {x : Exchange R}
    (h : (((V.service α).after init turns (n + 1)).requests i).said =
      (((V.service α).after init turns n).requests i).said ++ [x]) :
    ∃ ch k, (((V.service α).after init turns n).requests i).rest = .ask x.question k ∧
      V.answer ch ((V.service α).after init turns n).shared x.question =
        some (x.answer, ((V.service α).after init turns (n + 1)).shared) := by
  rcases V.said_succ init turns n i with hsame | ⟨ch, e, k, r, hrest, hanswer, hsaid⟩
  · have hnil := hsame.symm.trans h
    exact absurd (List.self_eq_append_right.1 hnil) (List.cons_ne_nil _ _)
  · obtain rfl := List.singleton_inj.1 (List.append_cancel_left (h.symm.trans hsaid))
    exact ⟨ch, k, hrest, hanswer⟩

/-- What is so of what a request has said, and was not so at first, came with one exchange. -/
theorem exists_exchange {P : List (Exchange R) → Prop} (hinit : ¬P (init.requests i).said)
    (h : P (((V.service α).after init turns n).requests i).said) : ∃ k < n, ∃ x,
      (((V.service α).after init turns (k + 1)).requests i).said =
        (((V.service α).after init turns k).requests i).said ++ [x] ∧
      ¬P (((V.service α).after init turns k).requests i).said ∧
      P (((V.service α).after init turns (k + 1)).requests i).said := by
  induction n with
  | zero => exact absurd h hinit
  | succ n ih =>
    by_cases hP : P (((V.service α).after init turns n).requests i).said
    · obtain ⟨k, hk, hrest⟩ := ih hP
      exact ⟨k, Nat.lt_succ_of_lt hk, hrest⟩
    · rcases V.said_succ init turns n i with hsame | ⟨ch, e, k, r, -, -, hsaid⟩
      · exact absurd (hsame ▸ h) hP
      · exact ⟨n, Nat.lt_succ_self n, _, hsaid, hP, h⟩

end Turns

/-! ### One request alone -/

variable (V) in
/-- A program ends with a result while the server answers it, and nobody else. -/
inductive Serves : σ → Prog R α → σ → α → Prop
  | ret (s : σ) (a : α) : Serves s (.ret a) s a
  | ask {s s₁ s' : σ} {e : E} {k : R e → Prog R α} {r : R e} {a : α} (ch : χ)
      (hanswer : V.answer ch s e = some (r, s₁)) (h : Serves s₁ (k r) s' a) :
      Serves s (.ask e k) s' a

theorem Serves.bind {β : Type} {s s₁ s' : σ} {p : Prog R α} {f : α → Prog R β} {a : α} {b : β}
    (h : Serves V s p s₁ a) (hf : Serves V s₁ (f a) s' b) : Serves V s (p.bind f) s' b := by
  induction h with
  | ret s a => exact hf
  | ask ch hanswer _ ih => exact .ask ch hanswer (ih hf)

/-- **What a program does alone, a request does** while the others wait. -/
theorem Serves.exists_turns {s s' : σ} {p : Prog R α} {said : List (Exchange R)} {a : α}
    (h : Serves V s p s' a) (requests : ℕ → Place R α) (i : ℕ) (hi : requests i = ⟨p, said⟩) :
    ∃ turns said', (V.service α).serve ⟨s, requests⟩ turns =
      ⟨s', Function.update requests i ⟨.ret a, said'⟩⟩ := by
  induction h generalizing requests said with
  | ret s a =>
    refine ⟨[], said, ?_⟩
    rw [← hi, Function.update_eq_self]
    rfl
  | @ask s s₁ s' e k r a ch hanswer _ ih =>
    have hstep : (V.service α).turn ⟨s, requests⟩ (.request i ch) =
        ⟨s₁, Function.update requests i ⟨k r, said ++ [⟨e, r⟩]⟩⟩ := by
      refine Service.turn_of_advance ?_
      show V.advance ch (requests i) s = _
      rw [advance, hi]
      dsimp only
      rw [hanswer, Option.map_some]
    obtain ⟨turns, said', hturns⟩ := ih (Function.update requests i ⟨k r, said ++ [⟨e, r⟩]⟩)
      (Function.update_self ..)
    refine ⟨.request i ch :: turns, said', ?_⟩
    rw [Function.update_idem] at hturns
    rw [Service.serve, List.foldl_cons, hstep]
    exact hturns

section Alone

variable {β τ ε : Type} {s s₁ s' : σ} {m m₁ m' : τ}

variable (V) in
/-- A handler ends with a result while the server answers it, and nobody else. -/
abbrev Alone (s : σ) (h : Handler R τ ε α) (m : τ) (s' : σ) (x : Except ε α) (m' : τ) : Prop :=
  Serves V s (h m) s' (x, m')

theorem alone_pure (s : σ) (a : α) (m : τ) :
    Alone V s (pure a : Handler R τ ε α) m s (.ok a) m := .ret s _

theorem alone_stop (s : σ) (x : ε) (m : τ) :
    Alone V s (Handler.stop x : Handler R τ ε α) m s (.error x) m := .ret s _

theorem alone_check (s : σ) (x : Except ε α) (m : τ) :
    Alone V s (Handler.check x : Handler R τ ε α) m s x m := .ret s _

theorem alone_stopWhen {p : Prop} [Decidable p] (hp : ¬p) (s : σ) (x : ε) (m : τ) :
    Alone V s (Handler.stopWhen p x : Handler R τ ε Unit) m s (.ok ()) m := by
  rw [Handler.stopWhen, if_neg hp]
  exact alone_check s (.ok ()) m

theorem alone_ask {e : E} {r : R e} (ch : χ) (h : V.answer ch s e = some (r, s')) (m : τ) :
    Alone V s (Handler.ask e : Handler R τ ε (R e)) m s' (.ok r) m := .ask ch h (.ret _ _)

theorem Alone.bind {h : Handler R τ ε α} {f : α → Handler R τ ε β} {a : α} {x : Except ε β}
    (hh : Alone V s h m s₁ (.ok a) m₁) (hf : Alone V s₁ (f a) m₁ s' x m') :
    Alone V s (h >>= f) m s' x m' := Serves.bind hh hf

theorem Alone.bind_error {h : Handler R τ ε α} {f : α → Handler R τ ε β} {x : ε}
    (hh : Alone V s h m s' (.error x) m') : Alone V s (h >>= f) m s' (.error x) m' :=
  Serves.bind hh (.ret _ _)

theorem Alone.deferring {h : Handler R τ ε α} {final : τ → Prog R τ} {x : Except ε α}
    (hh : Alone V s h m s₁ x m₁) (hfinal : Serves V s₁ (final m₁) s' m') :
    Alone V s (Handler.deferring final h) m s' x m' :=
  Serves.bind hh (hfinal.bind (.ret _ _))

end Alone

end Server

end Programs
