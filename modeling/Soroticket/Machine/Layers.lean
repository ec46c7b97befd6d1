import Soroticket.Machine.Interleaving

/-!
# Services in layers

A server is built around a service: requests pass something in front of it before they reach it
(`Service.behind`), and the server stops now and then and starts again (`Service.restarting`). A
restart ends the requests in flight, wherever they are, and the shared state is what the restart
makes of it.

What the service itself goes through in such a server is a run of it, with restarts among the events
from outside (`Service.withRestart`): `Simulates` says so of one step, and `Simulates.serve` of
every schedule. So an invariant of the service is proved on the service alone. That a restart ends
requests is not needed for it: a request that has ended is one that takes no more turns.
-/

namespace Interleaving

variable {σ π χ ω σ' π' χ' ω' σ'' π'' χ'' ω'' τ φ α β : Type}

/-! ### Seeing one service through another -/

/-- A configuration, seen through what its state and its places stand for. -/
def Config.view (state : σ' → σ) (place : π' → π) (c : Config σ' π') : Config σ π where
  shared := state c.shared
  requests i := place (c.requests i)

theorem Config.view_update (state : σ' → σ) (place : π' → π) (s : σ') (requests : ℕ → π') (i : ℕ)
    (p : π') : Config.view state place ⟨s, Function.update requests i p⟩ =
      ⟨state s, Function.update (fun j ↦ place (requests j)) i (place p)⟩ :=
  congrArg (Config.mk (state s)) (Function.comp_update place requests i p)

/-- Every step of a service is a step of another, or none of it. -/
structure Simulates (T : Service σ' π' χ' ω') (S : Service σ π χ ω) (state : σ' → σ)
    (place : π' → π) : Prop where
  advance : ∀ {choice p s p' s'}, T.advance choice p s = some (p', s') →
    (place p' = place p ∧ state s' = state s) ∨
      ∃ choice', S.advance choice' (place p) (state s) = some (place p', state s')
  outside : ∀ event s, state (T.outside event s) = state s ∨
    ∃ event', state (T.outside event s) = S.outside event' (state s)

namespace Simulates

variable {T : Service σ' π' χ' ω'} {S : Service σ π χ ω} {state : σ' → σ} {place : π' → π}

/-- A turn is a turn of the service it is seen as, or none. -/
theorem turn (h : Simulates T S state place) (c : Config σ' π') (t : Turn χ' ω') :
    (T.turn c t).view state place = c.view state place ∨
      ∃ t', (T.turn c t).view state place = S.turn (c.view state place) t' := by
  rcases T.turn_cases c t with hpass | ⟨i, choice, p, s, -, hstep, hturn⟩ | ⟨event, -, hturn⟩
  · rw [hpass]
    exact Or.inl rfl
  · rw [hturn, Config.view_update]
    rcases h.advance hstep with ⟨hplace, hstate⟩ | ⟨choice', hstep'⟩
    · refine Or.inl ?_
      rw [hplace, hstate, Function.update_eq_self]
      rfl
    · exact Or.inr ⟨.request i choice', (Service.turn_of_advance (c := c.view state place)
        hstep').symm⟩
  · rw [hturn]
    rcases h.outside event c.shared with hstate | ⟨event', hstate⟩
    · exact Or.inl (congrArg (Config.mk · fun i ↦ place (c.requests i)) hstate)
    · exact Or.inr ⟨.outside event', congrArg (Config.mk · fun i ↦ place (c.requests i)) hstate⟩

/-- **Every run is a run of the service it is seen as.** -/
theorem serve (h : Simulates T S state place) (init : Config σ' π') (turns : List (Turn χ' ω')) :
    ∃ turns', (T.serve init turns).view state place = S.serve (init.view state place) turns' := by
  induction turns using List.reverseRecOn with
  | nil => exact ⟨[], rfl⟩
  | append_singleton turns t ih =>
    obtain ⟨turns', ih⟩ := ih
    rw [Service.serve_concat]
    rcases h.turn (T.serve init turns) t with hpass | ⟨t', hturn⟩
    · exact ⟨turns', hpass.trans ih⟩
    · refine ⟨turns' ++ [t'], ?_⟩
      rw [hturn, ih, Service.serve_concat]

theorem trans {R : Service σ'' π'' χ'' ω''} {state' : σ'' → σ'} {place' : π'' → π'}
    (h : Simulates R T state' place') (h' : Simulates T S state place) :
    Simulates R S (state ∘ state') (place ∘ place') where
  advance {choice p s p' s'} hstep := by
    rcases h.advance hstep with ⟨hplace, hstate⟩ | ⟨choice', hstep'⟩
    · exact Or.inl ⟨congrArg place hplace, congrArg state hstate⟩
    · exact h'.advance hstep'
  outside event s := by
    rcases h.outside event s with hstate | ⟨event', hstate⟩
    · exact Or.inl (congrArg state hstate)
    · show state (state' _) = _ ∨ ∃ event', state (state' _) = _
      rw [hstate]
      exact h'.outside event' (state' s)

end Simulates

/-! ### Restarts -/

/-- What happens to a server from outside. -/
inductive ServerEvent (ω : Type) where
  | outside (event : ω)
  | restart

/-- A request, and the life of the server it began in. -/
structure Visit (π : Type) where
  life : Option ℕ
  place : π

namespace Service

/-- A service with restarts among the events from outside. -/
def withRestart (S : Service σ π χ ω) (restart : σ → σ) : Service σ π χ (ServerEvent ω) where
  advance := S.advance
  outside
    | .outside event => S.outside event
    | .restart => restart

/-- A server that restarts. Its lives are counted, and a request advances only in the life it began
in. -/
def restarting (S : Service σ π χ ω) (restart : σ → σ) :
    Service (σ × ℕ) (Visit π) χ (ServerEvent ω) where
  advance choice v s :=
    if v.life.getD s.2 = s.2 then
      (S.advance choice v.place s.1).map fun r ↦ (⟨some s.2, r.1⟩, (r.2, s.2))
    else none
  outside
    | .outside event => fun s ↦ (S.outside event s.1, s.2)
    | .restart => fun s ↦ (restart s.1, s.2 + 1)

theorem restarting_simulates (S : Service σ π χ ω) (restart : σ → σ) :
    Simulates (S.restarting restart) (S.withRestart restart) Prod.fst Visit.place where
  advance {choice v s v' s'} h := by
    rw [restarting] at h
    dsimp only at h
    split at h
    · obtain ⟨r, hr, h⟩ := Option.map_eq_some_iff.1 h
      obtain ⟨rfl, rfl⟩ := Prod.mk.inj h
      exact Or.inr ⟨choice, hr⟩
    · exact absurd h nofun
  outside event s := Or.inr ⟨event, by cases event <;> rfl⟩

/-! ### A service behind another -/

/-- A service behind another one: a request advances in the service while the front lets it. -/
def behind (S : Service σ π χ ω) (F : Service τ φ α β) (opens : φ → Bool) :
    Service (τ × σ) (φ × π) (α ⊕ χ) (β ⊕ ω) where
  advance
    | .inl choice, p, s => (F.advance choice p.1 s.1).map fun r ↦ ((r.1, p.2), (r.2, s.2))
    | .inr choice, p, s =>
      if opens p.1 then (S.advance choice p.2 s.2).map fun r ↦ ((p.1, r.1), (s.1, r.2)) else none
  outside
    | .inl event, s => (F.outside event s.1, s.2)
    | .inr event, s => (s.1, S.outside event s.2)

theorem behind_simulates (S : Service σ π χ ω) (F : Service τ φ α β) (opens : φ → Bool) :
    Simulates (S.behind F opens) S Prod.snd Prod.snd where
  advance {choice p s p' s'} h := by
    cases choice with
    | inl choice =>
      obtain ⟨r, -, h⟩ := Option.map_eq_some_iff.1 h
      obtain ⟨rfl, rfl⟩ := Prod.mk.inj h
      exact Or.inl ⟨rfl, rfl⟩
    | inr choice =>
      rw [behind] at h
      dsimp only at h
      split at h
      · obtain ⟨r, hr, h⟩ := Option.map_eq_some_iff.1 h
        obtain ⟨rfl, rfl⟩ := Prod.mk.inj h
        exact Or.inr ⟨choice, hr⟩
      · exact absurd h nofun
  outside event s := by
    cases event with
    | inl event => exact Or.inl rfl
    | inr event => exact Or.inr ⟨event, rfl⟩

end Service

/-- Restarts are seen as restarts. -/
theorem Simulates.withRestart {T : Service σ' π' χ' ω'} {S : Service σ π χ ω} {state : σ' → σ}
    {place : π' → π} (h : Simulates T S state place) {restart : σ → σ} {restart' : σ' → σ'}
    (hrestart : ∀ s, state (restart' s) = restart (state s)) :
    Simulates (T.withRestart restart') (S.withRestart restart) state place where
  advance := h.advance
  outside event s := by
    cases event with
    | restart => exact Or.inr ⟨.restart, hrestart s⟩
    | outside event =>
      rcases h.outside event s with hstate | ⟨event', hstate⟩
      · exact Or.inl hstate
      · exact Or.inr ⟨.outside event', hstate⟩

end Interleaving
