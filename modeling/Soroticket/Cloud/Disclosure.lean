import Mathlib.Logic.Equiv.Defs
import Soroticket.Cloud.Secrets
import Soroticket.Machine.Lockstep

/-!
# Secrets shown once

A client that knows a secret may write it into any column it likes, and a text may hold a secret by
chance before it is drawn, so that no table holds a secret is not what the service can guarantee.
What it can guarantee compares two runs: the same requests, with other secrets drawn and shown in
the `Authorization` of the requests that show one. The tables are then the same all along, and so is
every response but the one to the request that has made the secret (`ShownOnce`).

`Vault.rename` keeps a renamed secret as the vault keeps the secret itself, so the second run is one
of the same service under another hash and another cipher key. Any bytes could have been drawn in
the place of others that are displayed alike (`redrawn_redraw`).

A handler leaves the same behind whatever it has drawn (`Handler.step_rename`), and answers with the
secret it has made. The keeper of responses writes that answer down. So the two runs agree as long
as no request with an `Idempotency-Key` makes a secret, and part where one does: its response is
kept in clear, and a retry is answered with it (`secret_replayed`).
-/

namespace Soroticket

open Interleaving Interleaving.Service

namespace Secrets

variable {ρ μ χ τ : Type}

/-! ### Other secrets in the place of these -/

variable (σ : Equiv.Perm String)

/-- What keeps other secrets the same way. -/
def Vault.rename (V : Vault) : Vault where
  hashKey key := V.hashKey (σ.symm key)
  sealBox nonce text := V.sealBox nonce (σ.symm text)
  unsealBox box := (V.unsealBox box).map σ

/-- Bytes drawn in the place of others: the secrets made of them take each other's places, and are
displayed alike. -/
structure Redrawn (random random' : Bytes) : Prop where
  length : random'.length = random.length
  key : ∀ env, fullKey env random' = σ (fullKey env random)
  keyPrefix : ∀ env, keyPrefix env (fullKey env random') = keyPrefix env (fullKey env random)
  secret : webhookSecret random' = σ (webhookSecret random)
  secretPrefix : secretPrefix (webhookSecret random') = secretPrefix (webhookSecret random)

/-- Whether the bytes of a secret are drawn. -/
def Choice.draws : Choice χ → Bool
  | .draw _ => true
  | _ => false

/-- What happens at a step, with other bytes drawn. -/
inductive Choice.Redrawn : Choice χ → Choice χ → Prop
  | same (ch : Choice χ) (h : ch.draws = false) : Redrawn ch ch
  | draw {random random' : Bytes} (h : Secrets.Redrawn σ random random') :
      Redrawn (.draw random) (.draw random')

/-- A request that asks for the same and shows the other key. -/
structure Call.Renamed (call call' : Call ρ) : Prop where
  ask : call'.ask = call.ask
  bearer : bearer call'.authorization = (bearer call.authorization).map σ

/-- The answer that shows the other secret. -/
def Answer.rename : Answer → Answer
  | reply r => .reply r
  | createdKey id full keyPrefix label env => .createdKey id (σ full) keyPrefix label env
  | createdWebhook id url events secret createdAt =>
    .createdWebhook id url events (σ secret) createdAt

/-- The handler that has drawn the other secret. -/
def Handler.rename : Handler μ → Handler μ
  | insertingKey label keyPrefix full => .insertingKey label keyPrefix (σ full)
  | loggingKey id label keyPrefix full => .loggingKey id label keyPrefix (σ full)
  | sealingSecret url events secret secretPrefix =>
    .sealingSecret url events (σ secret) secretPrefix
  | insertingWebhook url events secret secretPrefix sealed now =>
    .insertingWebhook url events (σ secret) secretPrefix sealed now
  | h => h

/-- The place of a request that has the other secret. -/
def Phase.rename : Phase μ → Phase μ
  | running a header keeper h made => .running a header keeper (h.rename σ) (made.map σ)
  | answered header answer => .answered header (answer.rename σ)
  | phase => phase

/-- The process that has the other secrets. -/
inductive Process.Renamed : Process ρ μ → Process ρ μ → Prop
  | request {call call' : Call ρ} (h : call.Renamed σ call') (phase : Phase μ) :
      Renamed (.request call phase) (.request call' (phase.rename σ))
  | round (r : Round) : Renamed (.round r) (.round r)

variable {σ}

/-! ### What is kept of a secret -/

variable {V : Vault} {P : Platform ρ μ χ τ} {a : AuthCtx} {ask : Ask ρ} {s s' : Tables τ}
  {ch ch' : Choice χ}

theorem newKey_rename (label keyPrefix full : String) :
    newKey (V.rename σ) a label keyPrefix (σ full) s = newKey V a label keyPrefix full s := by
  rw [newKey, newKey]
  show ApiKeyRow.mk _ _ _ _ (V.hashKey (σ.symm (σ full))) _ _ _ = _
  rw [Equiv.symm_apply_apply]

theorem sealBox_rename (nonce : Bytes) (secret : String) :
    (V.rename σ).sealBox nonce (σ secret) = V.sealBox nonce secret := by
  show V.sealBox nonce (σ.symm (σ secret)) = _
  rw [Equiv.symm_apply_apply]

theorem hashKey_rename (key : String) : (V.rename σ).hashKey (σ key) = V.hashKey key := by
  show V.hashKey (σ.symm (σ key)) = _
  rw [Equiv.symm_apply_apply]

/-- A problem is the same in both. -/
theorem orRefuse_rename {α : Type} (x : Except Problem α) {next : α → Handler μ}
    (h : ∀ x, (next x).rename σ = next x) :
    (orRefuse x next).map (·.rename σ) (·.rename σ) = orRefuse x next := by
  cases x with
  | error p => rfl
  | ok x =>
    show Sum.inl ((next x).rename σ) = _
    rw [h]
    rfl

/-- **A handler leaves the same behind, whatever has been drawn.** -/
theorem Handler.step_rename (h : Handler μ) (hch : ch.Redrawn σ ch') :
    (h.rename σ).step P (V.rename σ) a ask s ch' =
      (h.step P V a ask s ch).map (Prod.map (Sum.map (·.rename σ) (·.rename σ)) id) := by
  cases hch with
  | @draw random random' hb =>
    cases h with
    | drawingKey label =>
      show (if random'.length = 24 then _ else _) =
        Option.map _ (if random.length = 24 then _ else _)
      rw [hb.length]
      split
      · show some (Sum.inl (Handler.insertingKey label (keyPrefix a.env (fullKey a.env random'))
          (fullKey a.env random')), s) = _
        rw [hb.keyPrefix, hb.key]
        rfl
      · rfl
    | drawingSecret url events =>
      show (if random'.length = 32 then _ else _) =
        Option.map _ (if random.length = 32 then _ else _)
      rw [hb.length]
      split
      · show some (Sum.inl (Handler.sealingSecret url events (webhookSecret random')
          (secretPrefix (webhookSecret random'))), s) = _
        rw [hb.secretPrefix, hb.secret]
        rfl
      · rfl
    | _ => rfl
  | same ch hdraw =>
    cases h with
    | createKey =>
      cases ch with
      | go =>
        show some (orRefuse _ _, s) = some ((orRefuse _ _).map _ _, s)
        rw [orRefuse_rename _ fun _ ↦ rfl]
      | _ => rfl
    | insertingKey label keyPrefix full =>
      cases ch with
      | go =>
        show (if s.apiKeys.any (·.hash = (newKey (V.rename σ) a label keyPrefix (σ full) s).hash)
          then _ else some (_, { s with apiKeys := s.apiKeys ++
            [newKey (V.rename σ) a label keyPrefix (σ full) s] })) =
          Option.map _ (if s.apiKeys.any (·.hash = (newKey V a label keyPrefix full s).hash)
            then _ else _)
        rw [newKey_rename]
        split <;> rfl
      | _ => rfl
    | createWebhook =>
      cases ch with
      | go =>
        show (if _ then _ else _) = Option.map _ (if _ then _ else _)
        split <;> rfl
      | _ => rfl
    | readingWebhook =>
      cases ch with
      | go =>
        show some (orRefuse _ _, s) = some ((orRefuse _ _).map _ _, s)
        rw [orRefuse_rename _ fun _ ↦ rfl]
      | _ => rfl
    | resolvingWebhook url events =>
      cases ch with
      | go =>
        show some (orRefuse _ _, s) = some ((orRefuse _ _).map _ _, s)
        rw [orRefuse_rename _ fun _ ↦ rfl]
      | _ => rfl
    | sealingSecret url events secret secretPrefix =>
      cases ch with
      | nonce random =>
        show some (Sum.inl (Handler.insertingWebhook url events (σ secret) secretPrefix
          ((V.rename σ).sealBox random (σ secret)) s.idem.clock), s) = _
        rw [sealBox_rename]
        rfl
      | _ => rfl
    | other place =>
      cases ch with
      | other ch =>
        show (P.handle ch (some a) ask place s).map _ = Option.map _ (Option.map _ _)
        rw [Option.map_map]
        refine congrArg (Option.map · _) (funext fun x ↦ ?_)
        rcases x with ⟨place | r, s'⟩ <;> rfl
      | _ => rfl
    | drawingKey | drawingSecret =>
      cases ch with
      | draw random => exact Bool.noConfusion (show true = false from hdraw)
      | _ => rfl
    | loggingKey | insertingWebhook => cases ch <;> rfl

/-! ### What a handler does -/

namespace Handler

/-- The secret that a handler has drawn. -/
def secret : Handler μ → Option String
  | insertingKey _ _ full => some full
  | loggingKey _ _ _ full => some full
  | sealingSecret _ _ secret _ => some secret
  | insertingWebhook _ _ secret _ _ _ => some secret
  | _ => none

/-- A handler that is about to make its secret. -/
def Inserting : Handler μ → Prop
  | insertingKey _ _ _ => True
  | insertingWebhook _ _ _ _ _ _ => True
  | _ => False

/-- A handler that has made its secret. -/
def Logging : Handler μ → Prop
  | loggingKey _ _ _ _ => True
  | _ => False

/-- What a handler can do at a step. -/
inductive Does (ch : Choice χ) (h : Handler μ) : Outcome μ → Prop
  | goes {h' : Handler μ} (hsecret : h'.secret = none) (hlogging : ¬h'.Logging) :
      Does ch h (.inl h')
  | refuses {answer : Answer} (hmade : answer.made = none) : Does ch h (.inr answer)
  | draws {h' : Handler μ} {random : Bytes}
      (hsecret : (∃ env, h'.secret = some (fullKey env random)) ∨
        h'.secret = some (webhookSecret random)) (hlogging : ¬h'.Logging) : Does ch h (.inl h')
  | keeps {h' : Handler μ} (hsecret : h'.secret = h.secret) (hlogging : ¬h'.Logging) :
      Does ch h (.inl h')
  | makes {h' : Handler μ} (hgo : ch = .go) (hinserting : h.Inserting)
      (hsecret : h'.secret = h.secret) : Does ch h (.inl h')
  | shows {answer : Answer} (hplace : (ch = .go ∧ h.Inserting) ∨ h.Logging)
      (hmade : answer.made = h.secret) : Does ch h (.inr answer)

theorem does_of_orRefuse {α : Type} {x : Except Problem α} {next : α → Handler μ}
    {h : Handler μ} (hnext : ∀ x, (next x).secret = none ∧ ¬(next x).Logging) :
    Does ch h (orRefuse x next) := by
  cases x with
  | error p => exact .refuses rfl
  | ok x => exact .goes (hnext x).1 (hnext x).2

theorem step_does {h : Handler μ} {o : Outcome μ}
    (hstep : h.step P V a ask s ch = some (o, s')) : Does ch h o := by
  cases h with
  | createKey =>
    cases ch with
    | go =>
      obtain ⟨rfl, -⟩ := Prod.mk.inj (Option.some.inj hstep)
      exact does_of_orRefuse fun _ ↦ ⟨rfl, not_false⟩
    | _ => exact absurd hstep.symm (Option.some_ne_none _)
  | drawingKey label =>
    cases ch with
    | draw random =>
      change (if random.length = 24 then _ else none) = _ at hstep
      split at hstep
      · obtain ⟨rfl, -⟩ := Prod.mk.inj (Option.some.inj hstep)
        exact .draws (Or.inl ⟨a.env, rfl⟩) not_false
      · exact absurd hstep.symm (Option.some_ne_none _)
    | fail =>
      obtain ⟨rfl, -⟩ := Prod.mk.inj (Option.some.inj hstep)
      exact .refuses rfl
    | _ => exact absurd hstep.symm (Option.some_ne_none _)
  | insertingKey label keyPrefix full =>
    cases ch with
    | go =>
      change (if s.apiKeys.any _ then some _ else some _) = _ at hstep
      split at hstep
      · obtain ⟨rfl, -⟩ := Prod.mk.inj (Option.some.inj hstep)
        exact .refuses rfl
      · obtain ⟨rfl, -⟩ := Prod.mk.inj (Option.some.inj hstep)
        exact .makes rfl trivial rfl
    | fail =>
      obtain ⟨rfl, -⟩ := Prod.mk.inj (Option.some.inj hstep)
      exact .refuses rfl
    | _ => exact absurd hstep.symm (Option.some_ne_none _)
  | loggingKey id label keyPrefix full =>
    cases ch with
    | go | fail =>
      obtain ⟨rfl, -⟩ := Prod.mk.inj (Option.some.inj hstep)
      exact .shows (Or.inr trivial) rfl
    | _ => exact absurd hstep.symm (Option.some_ne_none _)
  | createWebhook =>
    cases ch with
    | go =>
      change (if _ then some _ else some _) = _ at hstep
      split at hstep
      · obtain ⟨rfl, -⟩ := Prod.mk.inj (Option.some.inj hstep)
        exact .refuses rfl
      · obtain ⟨rfl, -⟩ := Prod.mk.inj (Option.some.inj hstep)
        exact .goes rfl not_false
    | fail =>
      obtain ⟨rfl, -⟩ := Prod.mk.inj (Option.some.inj hstep)
      exact .refuses rfl
    | _ => exact absurd hstep.symm (Option.some_ne_none _)
  | readingWebhook =>
    cases ch with
    | go =>
      obtain ⟨rfl, -⟩ := Prod.mk.inj (Option.some.inj hstep)
      exact does_of_orRefuse fun _ ↦ ⟨rfl, not_false⟩
    | _ => exact absurd hstep.symm (Option.some_ne_none _)
  | resolvingWebhook url events =>
    cases ch with
    | go =>
      obtain ⟨rfl, -⟩ := Prod.mk.inj (Option.some.inj hstep)
      exact does_of_orRefuse fun _ ↦ ⟨rfl, not_false⟩
    | fail =>
      obtain ⟨rfl, -⟩ := Prod.mk.inj (Option.some.inj hstep)
      exact .refuses rfl
    | _ => exact absurd hstep.symm (Option.some_ne_none _)
  | drawingSecret url events =>
    cases ch with
    | draw random =>
      change (if random.length = 32 then _ else none) = _ at hstep
      split at hstep
      · obtain ⟨rfl, -⟩ := Prod.mk.inj (Option.some.inj hstep)
        exact .draws (Or.inr rfl) not_false
      · exact absurd hstep.symm (Option.some_ne_none _)
    | fail =>
      obtain ⟨rfl, -⟩ := Prod.mk.inj (Option.some.inj hstep)
      exact .refuses rfl
    | _ => exact absurd hstep.symm (Option.some_ne_none _)
  | sealingSecret url events secret secretPrefix =>
    cases ch with
    | nonce random =>
      obtain ⟨rfl, -⟩ := Prod.mk.inj (Option.some.inj hstep)
      exact .keeps rfl not_false
    | fail =>
      obtain ⟨rfl, -⟩ := Prod.mk.inj (Option.some.inj hstep)
      exact .refuses rfl
    | _ => exact absurd hstep.symm (Option.some_ne_none _)
  | insertingWebhook url events secret secretPrefix sealed now =>
    cases ch with
    | go =>
      obtain ⟨rfl, -⟩ := Prod.mk.inj (Option.some.inj hstep)
      exact .shows (Or.inl ⟨rfl, trivial⟩) rfl
    | fail =>
      obtain ⟨rfl, -⟩ := Prod.mk.inj (Option.some.inj hstep)
      exact .refuses rfl
    | _ => exact absurd hstep.symm (Option.some_ne_none _)
  | other place =>
    cases ch with
    | other ch =>
      change (P.handle ch (some a) ask place s).map _ = _ at hstep
      obtain ⟨⟨x, s₁⟩, -, hx⟩ := Option.map_eq_some_iff.1 hstep
      obtain ⟨rfl, -⟩ := Prod.mk.inj hx
      cases x with
      | inl place => exact .goes rfl not_false
      | inr r => exact .refuses rfl
    | _ => exact absurd hstep.symm (Option.some_ne_none _)

end Handler

/-! ### Secrets in a body -/

/-- A text that JSON writes as it is. -/
def Plain (text : String) : Prop := ∀ c ∈ text.toList, Json.quoteChar c = [c]

theorem quoteChar_hexDigit (n : UInt8) (hn : n < 16) :
    Json.quoteChar (Char.ofNat (hexDigit n).toNat) = [Char.ofNat (hexDigit n).toNat] := by
  have hall : ∀ n : Fin 256, n < 16 → Json.quoteChar (Char.ofNat (hexDigit (UInt8.ofFin n)).toNat) =
      [Char.ofNat (hexDigit (UInt8.ofFin n)).toNat] := by decide +kernel
  exact hall n.toFin hn

theorem plain_randHex (random : Bytes) : Plain (randHex random) := by
  intro c hc
  rw [randHex, String.toList_ofList] at hc
  obtain ⟨b, hb, rfl⟩ := List.mem_map.1 hc
  obtain ⟨x, -, hx⟩ := List.mem_flatMap.1 hb
  have hlt : x / 16 < 16 ∧ x % 16 < 16 := by
    rw [UInt8.lt_iff_toNat_lt, UInt8.lt_iff_toNat_lt, UInt8.toNat_div, UInt8.toNat_mod]
    have h := x.toNat_lt
    show x.toNat / 16 < 16 ∧ x.toNat % 16 < 16
    omega
  rcases List.mem_cons.1 hx with rfl | hx
  · exact quoteChar_hexDigit _ hlt.1
  · obtain rfl := List.mem_singleton.1 hx
    exact quoteChar_hexDigit _ hlt.2

theorem Plain.append {t t' : String} (h : Plain t) (h' : Plain t') : Plain (t ++ t') := by
  intro c hc
  rw [String.toList_append] at hc
  rcases List.mem_append.1 hc with hc | hc
  · exact h c hc
  · exact h' c hc

theorem plain_of_all {text : String}
    (h : text.toList.all (fun c ↦ Json.quoteChar c = [c]) = true) : Plain text :=
  fun c hc ↦ of_decide_eq_true (List.all_eq_true.1 h c hc)

theorem plain_fullKey (env : CloudEnv) (random : Bytes) : Plain (fullKey env random) := by
  refine Plain.append ?_ (plain_randHex random)
  cases env
  · exact plain_of_all (by decide)
  · exact plain_of_all (by decide)

theorem plain_webhookSecret (random : Bytes) : Plain (webhookSecret random) :=
  Plain.append (plain_of_all (by decide)) (plain_randHex random)

/-- A plain text is part of what it is written as. -/
theorem Plain.infix_quote {text : String} (h : Plain text) :
    text.toList <:+: Json.quote text.toList := by
  have hplain : text.toList.flatMap Json.quoteChar = text.toList := by
    rw [Plain] at h
    generalize text.toList = cs at h
    induction cs with
    | nil => rfl
    | cons c cs ih =>
      rw [List.flatMap_cons, h c List.mem_cons_self, ih fun x hx ↦ h x (List.mem_cons_of_mem c hx)]
      rfl
  rw [Json.quote, hplain]
  exact ⟨['"'], ['"'], rfl⟩

/-- A value is part of its object. -/
theorem infix_object {m x : List Char × List Char} {ms : List (List Char × List Char)}
    (hx : x ∈ ms) : x.2 <:+: Json.object m ms := by
  have hmember : x.2 <:+: ',' :: Json.member x.1 x.2 :=
    ⟨',' :: (Json.quote x.1 ++ [':']), [], by simp [Json.member]⟩
  have hmembers : ',' :: Json.member x.1 x.2 <:+: ms.flatMap fun m ↦ ',' :: Json.member m.1 m.2 :=
    List.infix_of_mem_flatten (List.mem_map.2 ⟨x, hx, rfl⟩)
  refine hmember.trans (hmembers.trans ?_)
  exact ⟨'{' :: Json.member m.1 m.2, ['}'], by simp [Json.object]⟩

theorem infix_encodeText {cs cs' : List Char} (h : cs <:+: cs') :
    encodeText cs <:+: encodeText cs' := by
  obtain ⟨before, after, rfl⟩ := h
  rw [encodeText_append, encodeText_append]
  exact ⟨_, _, rfl⟩

/-- **A response shows the secret it has been written from.** -/
theorem Answer.infix_written {answer : Answer} {secret : String}
    (hmade : answer.made = some secret) (hplain : Plain secret) :
    encodeText secret.toList <:+: answer.written.response.body := by
  cases answer with
  | reply r => exact absurd hmade.symm (Option.some_ne_none _)
  | createdKey id full keyPrefix label env =>
    obtain rfl := Option.some.inj hmade
    refine infix_encodeText (hplain.infix_quote.trans ?_)
    refine List.IsInfix.trans ?_ (List.prefix_append _ _).isInfix
    exact infix_object (x := ("key".toList, Json.quote full.toList))
      (List.mem_cons_of_mem _ List.mem_cons_self)
  | createdWebhook id url events secret createdAt =>
    obtain rfl := Option.some.inj hmade
    refine infix_encodeText (hplain.infix_quote.trans ?_)
    refine List.IsInfix.trans ?_ (List.prefix_append _ _).isInfix
    refine List.IsInfix.trans ?_ (infix_object (x := ("webhook".toList, _)) List.mem_cons_self)
    exact infix_object (x := ("secret".toList, Json.quote secret.toList)) (by simp)

/-- An answer that shows no secret is the same for all. -/
theorem Answer.rename_of_made {answer : Answer} (h : answer.made = none) :
    answer.rename σ = answer := by
  cases answer with
  | reply r => rfl
  | createdKey | createdWebhook => exact absurd h (Option.some_ne_none _)

/-- An answer depends on the secret it shows, and on no other. -/
theorem Answer.rename_of_fixed {answer : Answer} (h : ∀ secret ∈ answer.made, σ secret = secret) :
    answer.rename σ = answer := by
  cases answer with
  | reply r => rfl
  | createdKey id full keyPrefix label env =>
    show Answer.createdKey id (σ full) keyPrefix label env = _
    rw [h full rfl]
  | createdWebhook id url events secret createdAt =>
    show Answer.createdWebhook id url events (σ secret) createdAt = _
    rw [h secret rfl]

/-! ### Where a secret can be -/

variable {call call' : Call ρ} {phase phase' : Phase μ}

/-- A request that says nothing of an `Idempotency-Key`. -/
def Call.Keyless (call : Call ρ) : Prop := trimSpace call.ask.idempotencyKey = ""

/-- What holds of a request, where no request with a key makes a secret: only a request without a
key has one to show, and shows it itself. -/
def Phase.Sound (call : Call ρ) : Phase μ → Prop
  | running _ _ keeper h made =>
    (call.Keyless → keeper = .arriving ∨ keeper = .unkeyed) ∧ (h.Logging → call.Keyless) ∧
      (∀ secret ∈ h.secret, Plain secret) ∧ made = none
  | answered _ answer => ∀ secret ∈ answer.made, Plain secret
  | _ => True

/-- A request that is about to make its secret, and has an `Idempotency-Key`. -/
def Phase.Recorded (call : Call ρ) : Phase μ → Prop
  | running _ _ _ h _ => h.Inserting ∧ ¬call.Keyless
  | _ => False

theorem sound_enter (header : List (String × String)) :
    (call.ask.enter P a header : Phase μ).Sound call := by
  refine ⟨fun _ ↦ ?_, fun hlogging ↦ ?_, fun secret hsecret ↦ ?_, rfl⟩
  · split
    · exact Or.inl rfl
    · exact Or.inr rfl
  · cases hroute : call.ask.route <;> rw [hroute] at hlogging <;> exact hlogging.elim
  · cases hroute : call.ask.route <;> rw [hroute] at hsecret <;>
      exact absurd hsecret.symm (Option.some_ne_none _)

theorem Handler.Does.plain {h h' : Handler μ} (hdoes : h.Does ch (.inl h'))
    (hplain : ∀ secret ∈ h.secret, Plain secret) : ∀ secret ∈ h'.secret, Plain secret := by
  intro secret hsecret
  cases hdoes with
  | goes hnone => exact absurd (hsecret.symm.trans hnone) (Option.some_ne_none _)
  | @draws _ random hdrawn =>
    rcases hdrawn with ⟨env, hfull⟩ | hfull
    · obtain rfl := Option.some.inj (hsecret.symm.trans hfull)
      exact plain_fullKey env random
    · obtain rfl := Option.some.inj (hsecret.symm.trans hfull)
      exact plain_webhookSecret random
  | keeps hsame => exact hplain secret (hsame ▸ hsecret)
  | makes _ _ hsame => exact hplain secret (hsame ▸ hsecret)

/-- A handler that answers shows a secret it had drawn, if it shows one. -/
theorem Handler.Does.made {h : Handler μ} {answer : Answer} (hdoes : h.Does ch (.inr answer))
    {secret : String} (hmade : answer.made = some secret) :
    h.secret = some secret ∧ ((ch = .go ∧ h.Inserting) ∨ h.Logging) := by
  cases hdoes with
  | refuses hnone => exact absurd (hmade.symm.trans hnone) (Option.some_ne_none _)
  | shows hplace hsame => exact ⟨hsame.symm.trans hmade, hplace⟩

/-- A handler that has made its secret has just done so. -/
theorem Handler.Does.logging {h h' : Handler μ} (hdoes : h.Does ch (.inl h'))
    (hlogging : h'.Logging) : ch = .go ∧ h.Inserting := by
  cases hdoes with
  | goes _ hnot | draws _ hnot | keeps _ hnot => exact absurd hlogging hnot
  | makes hgo hinserting => exact ⟨hgo, hinserting⟩

/-- What the keeper of responses does, but for its handler. -/
theorem step_of_keep {header : List (String × String)} {keeper : Idempotency.Phase}
    {h : Handler μ} {made : Option String} (hunkeyed : keeper ≠ .unkeyed)
    (hexecuting : ∀ now rec, keeper ≠ .executing now rec) :
    (Phase.running a header keeper h made).step P V call s ch =
      (keep P a call.ask s ch keeper).map fun x ↦ (.running a header x.1 h made, x.2) := by
  cases keeper with
  | unkeyed => exact absurd rfl hunkeyed
  | executing now rec => exact absurd rfl (hexecuting now rec)
  | _ => rfl

/-- Without a key, no response is kept. -/
theorem keep_of_keyless {keeper' : Idempotency.Phase} (hkeyless : call.Keyless)
    (h : keep P a call.ask s ch .arriving = some (keeper', s')) : keeper' = .unkeyed := by
  have harrive (bodyRead : Bool) :
      Idempotency.arrive (call.ask.idemCall P a) bodyRead s.idem.clock = .unkeyed := by
    rw [Idempotency.arrive]
    exact if_pos hkeyless
  cases ch with
  | go => exact (congrArg Prod.fst (Option.some.inj h)).symm.trans (harrive true)
  | fail => exact (congrArg Prod.fst (Option.some.inj h)).symm.trans (harrive false)
  | _ => exact absurd h.symm (Option.some_ne_none _)

/-- The keeper of responses is anywhere but where its handler runs. -/
theorem keeper_cases (keeper : Idempotency.Phase) :
    keeper = .unkeyed ∨ (∃ now rec, keeper = .executing now rec) ∨
      (keeper ≠ .unkeyed ∧ ∀ now rec, keeper ≠ .executing now rec) := by
  cases keeper with
  | unkeyed => exact Or.inl rfl
  | executing now rec => exact Or.inr (Or.inl ⟨now, rec, rfl⟩)
  | _ => exact Or.inr (Or.inr ⟨Idempotency.Phase.noConfusion, fun _ _ ↦
      Idempotency.Phase.noConfusion⟩)

theorem sound_refuse (header : List (String × String)) (status : ℕ) (message : String) :
    (turnedAway header status message : Phase μ).Sound call :=
  fun _ h ↦ absurd h.symm (Option.some_ne_none _)

/-- Where a request that arrives can go. -/
theorem arriving_cases (hstep : Phase.arriving.step P V call s ch = some (phase', s')) :
    (∃ place, phase' = .unguarded place) ∨
      (∃ status message, phase' = turnedAway [] status message) ∨
      ∃ a keyID, phase' = .limiting a keyID := by
  simp only [Phase.step] at hstep
  split at hstep
  · exact Or.inl ⟨_, (congrArg Prod.fst (Option.some.inj hstep)).symm⟩
  · split at hstep
    · split at hstep
      · split at hstep
        · exact Or.inr (Or.inl ⟨_, _, (congrArg Prod.fst (Option.some.inj hstep)).symm⟩)
        · exact Or.inr (Or.inr ⟨_, _, (congrArg Prod.fst (Option.some.inj hstep)).symm⟩)
      · exact Or.inr (Or.inl ⟨_, _, (congrArg Prod.fst (Option.some.inj hstep)).symm⟩)
    · exact Or.inr (Or.inl ⟨_, _, (congrArg Prod.fst (Option.some.inj hstep)).symm⟩)
    · split at hstep
      · exact Or.inr (Or.inr ⟨_, _, (congrArg Prod.fst (Option.some.inj hstep)).symm⟩)
      · exact Or.inr (Or.inl ⟨_, _, (congrArg Prod.fst (Option.some.inj hstep)).symm⟩)
    · exact absurd hstep.symm (Option.some_ne_none _)

/-- A request whose handler runs under a key answers without a secret. -/
theorem made_of_keyed {header : List (String × String)} {keeper : Idempotency.Phase}
    {handler : Handler μ} {made : Option String} {answer : Answer} (hkeyed : ¬call.Keyless)
    (h : (Phase.running a header keeper handler made).Sound call)
    (hrecorded : ch = .go → ¬(Phase.running a header keeper handler made).Recorded call)
    (hstep : handler.step P V a call.ask s ch = some (.inr answer, s')) : answer.made = none := by
  by_contra hmade
  obtain ⟨secret, hmade⟩ := Option.ne_none_iff_exists'.1 hmade
  rcases ((Handler.step_does hstep).made hmade).2 with ⟨hgo, hinserting⟩ | hlogging
  · exact hrecorded hgo ⟨hinserting, hkeyed⟩
  · exact hkeyed (h.2.1 hlogging)

/-- A handler runs under a key only where the request has one. -/
theorem keyed_of_executing {header : List (String × String)} {now : ℤ}
    {rec : Idempotency.Recorder} {handler : Handler μ} {made : Option String}
    (h : (Phase.running a header (.executing now rec) handler made).Sound call) :
    ¬call.Keyless := fun hkeyless ↦ by
  rcases h.1 hkeyless with h | h
  · exact Idempotency.Phase.noConfusion h
  · exact Idempotency.Phase.noConfusion h

/-- **Secrets stay where they can be**, as long as no request with a key makes one. -/
theorem Phase.Sound.step (h : phase.Sound call) (hrecorded : ch = .go → ¬phase.Recorded call)
    (hstep : phase.step P V call s ch = some (phase', s')) : phase'.Sound call := by
  cases phase with
  | arriving =>
    rcases arriving_cases hstep with ⟨place, rfl⟩ | ⟨status, message, rfl⟩ | ⟨a, keyID, rfl⟩
    · trivial
    · exact sound_refuse [] status message
    · trivial
  | limiting a keyID =>
    cases ch with
    | limit allowed header =>
      cases allowed with
      | true =>
        obtain ⟨rfl, -⟩ := Prod.mk.inj (Option.some.inj hstep)
        cases keyID with
        | none => exact sound_enter header
        | some keyID => trivial
      | false =>
        obtain ⟨rfl, -⟩ := Prod.mk.inj (Option.some.inj hstep)
        exact sound_refuse header 429 "rate limit exceeded"
    | _ => exact absurd hstep.symm (Option.some_ne_none _)
  | touching a header keyID =>
    cases ch with
    | go | fail =>
      obtain ⟨rfl, -⟩ := Prod.mk.inj (Option.some.inj hstep)
      exact sound_enter header
    | _ => exact absurd hstep.symm (Option.some_ne_none _)
  | running a header keeper handler made =>
    have hsound := h
    obtain ⟨hkeeper, hlogging, hplain, rfl⟩ := h
    rcases keeper_cases keeper with rfl | ⟨now, rec, rfl⟩ | ⟨hunkeyed, hexecuting⟩
    · obtain ⟨⟨o, s₁⟩, hhandler, hx⟩ := Option.map_eq_some_iff.1 hstep
      have hdoes := Handler.step_does hhandler
      cases o with
      | inl handler' =>
        obtain ⟨rfl, -⟩ := Prod.mk.inj hx
        refine ⟨fun _ ↦ Or.inr rfl, fun hmade ↦ ?_, hdoes.plain hplain, rfl⟩
        obtain ⟨hgo, hinserting⟩ := hdoes.logging hmade
        by_contra hkeyless
        exact hrecorded hgo ⟨hinserting, hkeyless⟩
      | inr answer =>
        obtain ⟨rfl, -⟩ := Prod.mk.inj hx
        exact fun secret hmade ↦ hplain secret (hdoes.made hmade).1
    · have hkeyed := keyed_of_executing hsound
      obtain ⟨⟨o, s₁⟩, hhandler, hx⟩ := Option.map_eq_some_iff.1 hstep
      have hdoes := Handler.step_does hhandler
      cases o with
      | inl handler' =>
        obtain ⟨rfl, -⟩ := Prod.mk.inj hx
        refine ⟨fun hkeyless ↦ absurd hkeyless hkeyed, fun hmade ↦ ?_, hdoes.plain hplain, rfl⟩
        obtain ⟨hgo, hinserting⟩ := hdoes.logging hmade
        exact absurd ⟨hinserting, hkeyed⟩ (hrecorded hgo)
      | inr answer =>
        obtain ⟨rfl, -⟩ := Prod.mk.inj hx
        exact ⟨fun hkeyless ↦ absurd hkeyless hkeyed, hlogging, hplain,
          made_of_keyed hkeyed hsound hrecorded hhandler⟩
    · rw [step_of_keep hunkeyed hexecuting] at hstep
      obtain ⟨⟨keeper', s₁⟩, hkeep, hx⟩ := Option.map_eq_some_iff.1 hstep
      obtain ⟨rfl, -⟩ := Prod.mk.inj hx
      refine ⟨fun hkeyless ↦ Or.inr ?_, hlogging, hplain, rfl⟩
      obtain rfl := (hkeeper hkeyless).resolve_right hunkeyed
      exact keep_of_keyless hkeyless hkeep
  | unguarded place =>
    cases ch with
    | other ch =>
      obtain ⟨⟨o, s₁⟩, -, hx⟩ := Option.map_eq_some_iff.1 hstep
      cases o with
      | inl place =>
        obtain ⟨rfl, -⟩ := Prod.mk.inj hx
        trivial
      | inr r =>
        obtain ⟨rfl, -⟩ := Prod.mk.inj hx
        exact fun _ h ↦ absurd h.symm (Option.some_ne_none _)
    | _ => exact absurd hstep.symm (Option.some_ne_none _)
  | answered header answer => exact absurd hstep.symm (Option.some_ne_none _)

/-! ### One step of both runs -/

theorem enter_rename (header : List (String × String)) :
    (ask.enter P a header).rename σ = ask.enter P a header := by
  show Phase.running _ _ _ ((ask.route.start P).rename σ) _ = Phase.running _ _ _ _ _
  cases ask.route <;> rfl

/-- The keeper of responses draws nothing. -/
theorem keep_redrawn (hch : ch.Redrawn σ ch') (keeper : Idempotency.Phase) :
    keep P a ask s ch' keeper = keep P a ask s ch keeper := by
  cases hch with
  | same => rfl
  | draw => rfl

/-- A request arrives at the same place with either secret. -/
theorem arriving_rename (hcall : call.Renamed σ call') (hch : ch.Redrawn σ ch') :
    Phase.arriving.step P (V.rename σ) call' s ch' = Phase.arriving.step P V call s ch := by
  simp only [Phase.step]
  rw [hcall.ask, hcall.bearer]
  cases hch with
  | draw =>
    cases bearer call.authorization <;> rfl
  | same ch h =>
    cases bearer call.authorization with
    | none => cases ch <;> rfl
    | some key =>
      cases ch with
      | go =>
        dsimp only [Option.map_some]
        rw [hashKey_rename]
      | _ => rfl

/-- **A request leaves the same behind, whatever has been drawn**, as long as no request with a key
makes a secret. -/
theorem Phase.step_rename (hcall : call.Renamed σ call') (hch : ch.Redrawn σ ch')
    (h : phase.Sound call) (hrecorded : ch = .go → ¬phase.Recorded call) :
    (phase.rename σ).step P (V.rename σ) call' s ch' =
      (phase.step P V call s ch).map (Prod.map (·.rename σ) id) := by
  cases phase with
  | arriving =>
    show Phase.arriving.step P (V.rename σ) call' s ch' = _
    rw [arriving_rename hcall hch]
    rcases hstep : Phase.arriving.step P V call s ch with - | ⟨phase', s'⟩
    · rfl
    · show some (phase', s') = some (phase'.rename σ, s')
      rcases arriving_cases hstep with ⟨place, rfl⟩ | ⟨status, message, rfl⟩ | ⟨a, keyID, rfl⟩ <;>
        rfl
  | limiting a keyID =>
    cases hch with
    | draw => rfl
    | same ch =>
      cases ch with
      | limit allowed header =>
        cases allowed with
        | false => rfl
        | true =>
          show some (keyID.elim (call'.ask.enter P a header) (.touching a header), s) =
            some ((keyID.elim (call.ask.enter P a header) (.touching a header) : Phase μ).rename σ,
              s)
          rw [hcall.ask]
          cases keyID with
          | none =>
            show some (call.ask.enter P a header, s) =
              some ((call.ask.enter P a header).rename σ, s)
            rw [enter_rename]
          | some keyID => rfl
      | _ => rfl
  | touching a header keyID =>
    cases hch with
    | draw => rfl
    | same ch =>
      cases ch with
      | go =>
        show some (call'.ask.enter P a header, touch keyID s) =
          some ((call.ask.enter P a header).rename σ, touch keyID s)
        rw [hcall.ask, enter_rename]
      | fail =>
        show some (call'.ask.enter P a header, s) =
          some ((call.ask.enter P a header).rename σ, s)
        rw [hcall.ask, enter_rename]
      | _ => rfl
  | running a header keeper handler made =>
    have hsound := h
    obtain ⟨-, -, -, rfl⟩ := h
    have hask := hcall.ask
    rcases keeper_cases keeper with rfl | ⟨now, rec, rfl⟩ | ⟨hunkeyed, hexecuting⟩
    · show ((handler.rename σ).step P (V.rename σ) a call'.ask s ch').map _ = _
      rw [hask, Handler.step_rename handler hch, Option.map_map]
      show _ = Option.map _ ((handler.step P V a call.ask s ch).map _)
      rw [Option.map_map]
      refine congrArg (Option.map · _) (funext fun x ↦ ?_)
      rcases x with ⟨handler' | answer, s'⟩ <;> rfl
    · show ((handler.rename σ).step P (V.rename σ) a call'.ask s ch').map _ = _
      rw [hask, Handler.step_rename handler hch, Option.map_map]
      rcases hhandler : handler.step P V a call.ask s ch with - | ⟨handler' | answer, s'⟩
      · show none = Option.map _ (Option.map _ (handler.step P V a call.ask s ch))
        rw [hhandler]
        rfl
      · show _ = Option.map _ (Option.map _ (handler.step P V a call.ask s ch))
        rw [hhandler]
        rfl
      · have hmade := made_of_keyed (keyed_of_executing hsound) hsound hrecorded hhandler
        show some (Phase.running a (header ++ (answer.rename σ).written.header)
          (.storing now (answer.rename σ).written.response) (handler.rename σ)
            (answer.rename σ).made, s') =
          Option.map _ (Option.map _ (handler.step P V a call.ask s ch))
        rw [hhandler, Answer.rename_of_made hmade, hmade]
        show _ = some (Phase.running a _ _ _ (Option.map σ answer.made), s')
        rw [hmade]
        rfl
    · show (Phase.running a header keeper (handler.rename σ) none).step P (V.rename σ) call' s ch' =
        _
      rw [step_of_keep hunkeyed hexecuting, step_of_keep hunkeyed hexecuting, hask,
        keep_redrawn hch, Option.map_map]
      rfl
  | unguarded place =>
    cases hch with
    | draw => rfl
    | same ch =>
      cases ch with
      | other ch =>
        show (P.handle ch none call'.ask place s).map _ =
          Option.map _ ((P.handle ch none call.ask place s).map _)
        rw [hcall.ask, Option.map_map]
        refine congrArg (Option.map · _) (funext fun x ↦ ?_)
        rcases x with ⟨place | r, s'⟩ <;> rfl
      | _ => rfl
  | answered header answer => rfl

/-- A round of deliveries writes the same, whatever the boxes hold. -/
theorem Round.step_rename (r : Round) (hch : ch.Redrawn σ ch') :
    r.step (V.rename σ) s ch' = r.step V s ch := by
  cases r with
  | reading => cases hch <;> rfl
  | delivering due =>
    cases due with
    | nil => rfl
    | cons item due =>
      cases hch with
      | draw => rfl
      | same ch =>
        cases ch with
        | sent status error written =>
          obtain ⟨item, webhook⟩ := item
          simp only [Round.step]
          show some (Round.delivering due, if written then _ else s) = _
          have hbox : (V.rename σ).unsealBox webhook.secretEnc =
              (V.unsealBox webhook.secretEnc).map σ := rfl
          rw [hbox]
          cases V.unsealBox webhook.secretEnc <;> rfl
        | _ => rfl

/-! ### Runs -/

namespace Process

/-- A request that has not been looked at, or a round that has not begun. -/
def Starting : Process ρ μ → Prop
  | request _ phase => phase = .arriving
  | round r => r = .reading

def Sound : Process ρ μ → Prop
  | request call phase => phase.Sound call
  | round _ => True

/-- A request that is about to make its secret, and has an `Idempotency-Key`. -/
def Recorded : Process ρ μ → Prop
  | request call phase => phase.Recorded call
  | round _ => False

/-- A request that says nothing of an `Idempotency-Key`. -/
def Keyless : Process ρ μ → Prop
  | request call _ => call.Keyless
  | round _ => True

theorem Keyless.not_recorded {p : Process ρ μ} (h : p.Keyless) : ¬p.Recorded := by
  cases p with
  | request call phase =>
    cases phase with
    | running => exact fun hrecorded ↦ hrecorded.2 h
    | _ => exact not_false
  | round r => exact not_false

theorem Keyless.advance {p p' : Process ρ μ} (h : p.Keyless)
    (hstep : (service P V).advance ch p s = some (p', s')) : p'.Keyless := by
  cases p with
  | request call phase =>
    obtain ⟨⟨phase', s₁⟩, -, hx⟩ := Option.map_eq_some_iff.1 hstep
    obtain ⟨rfl, -⟩ := Prod.mk.inj hx
    exact h
  | round r =>
    obtain ⟨⟨r', s₁⟩, -, hx⟩ := Option.map_eq_some_iff.1 hstep
    obtain ⟨rfl, -⟩ := Prod.mk.inj hx
    trivial

theorem Starting.sound {p : Process ρ μ} (h : p.Starting) : p.Sound := by
  cases p with
  | request call phase =>
    obtain rfl : phase = .arriving := h
    trivial
  | round r => trivial

theorem Sound.advance {p p' : Process ρ μ} (h : p.Sound) (hrecorded : ch = .go → ¬p.Recorded)
    (hstep : (service P V).advance ch p s = some (p', s')) : p'.Sound := by
  cases p with
  | request call phase =>
    obtain ⟨⟨phase', s₁⟩, hphase, hx⟩ := Option.map_eq_some_iff.1 hstep
    obtain ⟨rfl, -⟩ := Prod.mk.inj hx
    exact Phase.Sound.step h hrecorded hphase
  | round r =>
    obtain ⟨⟨r', s₁⟩, -, hx⟩ := Option.map_eq_some_iff.1 hstep
    obtain ⟨rfl, -⟩ := Prod.mk.inj hx
    trivial

/-- **One step of both runs.** -/
theorem Renamed.agree {p p' : Process ρ μ} (h : p.Renamed σ p') (hch : ch.Redrawn σ ch')
    (hsound : p.Sound) (hrecorded : ch = .go → ¬p.Recorded) :
    Agree (Process.Renamed σ) ((service P V).advance ch p s)
      ((service P (V.rename σ)).advance ch' p' s) := by
  cases h with
  | @request call call' hcall phase =>
    show Agree _ _ (((phase.rename σ).step P (V.rename σ) call' s ch').map _)
    rw [Phase.step_rename hcall hch hsound hrecorded]
    show Agree _ ((phase.step P V call s ch).map _) _
    cases phase.step P V call s ch with
    | none => exact .none
    | some x => exact .some ⟨.request hcall x.1, rfl⟩
  | round r =>
    show Agree _ ((r.step V s ch).map _) ((r.step (V.rename σ) s ch').map _)
    rw [Round.step_rename r hch]
    cases r.step V s ch with
    | none => exact .none
    | some x => exact .some ⟨.round x.1, rfl⟩

/-- A request is answered alike, if its own secret is the same. -/
theorem Renamed.reply? {p p' : Process ρ μ} (h : p.Renamed σ p')
    (hfixed : ∀ secret ∈ p.made, σ secret = secret) : p'.reply? = p.reply? := by
  cases h with
  | request hcall phase =>
    cases phase with
    | answered header answer =>
      show some _ = some _
      rw [Answer.rename_of_fixed hfixed]
    | _ => rfl
  | round r => rfl

/-- A response shows the secret that its request has made. -/
theorem Sound.shows {p : Process ρ μ} (h : p.Sound) {secret : String} {r : Reply}
    (hmade : p.made = some secret) (hreply : p.reply? = some r) :
    encodeText secret.toList <:+: r.response.body := by
  cases p with
  | request call phase =>
    cases phase with
    | running a header keeper handler made =>
      obtain ⟨-, -, -, rfl⟩ := h
      exact absurd hmade.symm (Option.some_ne_none _)
    | answered header answer =>
      obtain rfl := Option.some.inj hreply
      exact Answer.infix_written hmade (h secret hmade)
    | _ => exact absurd hmade.symm (Option.some_ne_none _)
  | round => exact absurd hmade.symm (Option.some_ne_none _)

end Process

/-- Two runs that differ in the secrets drawn, and in the keys that requests show in their
`Authorization`. -/
structure Reruns (σ : Equiv.Perm String) (init : Config (Tables τ) (Process ρ μ))
    (turns : List (Turn (Choice χ) ℕ)) (init' : Config (Tables τ) (Process ρ μ))
    (turns' : List (Turn (Choice χ) ℕ)) : Prop where
  init : init.Paired (Process.Renamed σ) init'
  turns : List.Forall₂ (Turn.Paired (Choice.Redrawn σ)) turns turns'

/-- What it means that secrets are shown once. That nothing is kept of a secret in clear is a
statement about two runs: a client that knows a secret may write it anywhere, but what the service
itself makes of it is the same with any other secret in its place. -/
structure ShownOnce (P : Platform ρ μ χ τ) (V : Vault) (init : Config (Tables τ) (Process ρ μ))
    (turns : List (Turn (Choice χ) ℕ)) : Prop where
  /-- No table holds anything of a secret, but for what the vault makes of it and its first
  characters. -/
  kept : ∀ σ init' turns', Reruns σ init turns init' turns' → ∀ n,
    ((service P (V.rename σ)).after init' turns' n).shared =
      ((service P V).after init turns n).shared
  /-- No response shows anything of a secret that another request has made. -/
  others : ∀ σ init' turns', Reruns σ init turns init' turns' → ∀ n i,
    (∀ secret ∈ (((service P V).after init turns n).requests i).made, σ secret = secret) →
      (((service P (V.rename σ)).after init' turns' n).requests i).reply? =
        (((service P V).after init turns n).requests i).reply?
  /-- The response to the request that has made a secret shows it in full. -/
  shows : ∀ n i secret r, (((service P V).after init turns n).requests i).made = some secret →
    (((service P V).after init turns n).requests i).reply? = some r →
      encodeText secret.toList <:+: r.response.body

section Runs

variable {init init' : Config (Tables τ) (Process ρ μ)} {turns turns' : List (Turn (Choice χ) ℕ)}

theorem sound_after (hinit : ∀ i, (init.requests i).Starting)
    (hkeyless : ∀ n i, turns[n]? = some (.request i .go) →
      ¬(((service P V).after init turns n).requests i).Recorded) (n i : ℕ) :
    (((service P V).after init turns n).requests i).Sound := by
  refine after_induction (S := service P V) (k := 0)
    (P := fun c ↦ ∀ i, (c.requests i).Sound)
    (G := fun c t ↦ ∀ i, t = .request i .go → ¬(c.requests i).Recorded)
    (fun i ↦ (hinit i).sound) (fun n t ht i hi ↦ hkeyless n i (hi ▸ ht)) ?_
    (fun c event h ↦ h) (Nat.zero_le n) i
  intro c j ch p s hc hG hstep i
  dsimp only
  rcases eq_or_ne i j with rfl | hij
  · rw [Function.update_self]
    exact (hc i).advance (fun hgo ↦ hG i (hgo ▸ rfl)) hstep
  · rw [Function.update_of_ne hij]
    exact hc i

theorem keyless_after (hinit : ∀ i, (init.requests i).Keyless) (n i : ℕ) :
    (((service P V).after init turns n).requests i).Keyless := by
  refine serve_induction (S := service P V) (P := fun c ↦ ∀ i, (c.requests i).Keyless) hinit ?_
    (fun c event h ↦ h) _ i
  intro c j ch p s hc hstep i
  dsimp only
  rcases eq_or_ne i j with rfl | hij
  · rw [Function.update_self]
    exact (hc i).advance hstep
  · rw [Function.update_of_ne hij]
    exact hc i

/-- **Both runs**, as long as no request with a key makes a secret. -/
theorem Reruns.after (h : Reruns σ init turns init' turns')
    (hinit : ∀ i, (init.requests i).Starting)
    (hkeyless : ∀ n i, turns[n]? = some (.request i .go) →
      ¬(((service P V).after init turns n).requests i).Recorded) (n : ℕ) :
    ((service P V).after init turns n).Paired (Process.Renamed σ)
      ((service P (V.rename σ)).after init' turns' n) := by
  refine after_paired (G := fun c t ↦ (∀ i, t = .request i .go → ¬(c.requests i).Recorded) ∧
      ∀ i, (c.requests i).Sound) h.init h.turns ?_ ?_ ?_ n
  · exact fun n t ht ↦ ⟨fun i hi ↦ hkeyless n i (hi ▸ ht), sound_after hinit hkeyless n⟩
  · rfl
  · exact fun c i ch ch' p' hG hch hp ↦ hp.agree hch (hG.2 i) fun hgo ↦ hG.1 i (hgo ▸ rfl)

end Runs

/-! ### Any secret could have been another -/

theorem take_hexEncode (b : Bytes) (n : ℕ) :
    (hexEncode b).take (2 * n) = hexEncode (b.take n) := by
  induction b generalizing n with
  | nil => rw [List.take_nil, hexEncode, List.flatMap_nil, List.take_nil]
  | cons x rest ih =>
    cases n with
    | zero => rfl
    | succ n =>
      show (hexDigit (x / 16) :: hexDigit (x % 16) :: hexEncode rest).take (2 * n + 1 + 1) = _
      rw [List.take_succ_cons, List.take_succ_cons, ih]
      rfl

/-- The first characters are those of the first bytes. -/
theorem take_randHex {random random' : Bytes} {n : ℕ} (h : random'.take n = random.take n) :
    (randHex random').toList.take (2 * n) = (randHex random).toList.take (2 * n) := by
  rw [randHex, randHex, String.toList_ofList, String.toList_ofList, ← List.map_take,
    ← List.map_take, take_hexEncode, take_hexEncode, h]

/-- What is displayed are the start and the first characters. -/
theorem keyPrefix_fullKey (env : CloudEnv) {random random' : Bytes}
    (h : random'.take 4 = random.take 4) :
    keyPrefix env (fullKey env random') = keyPrefix env (fullKey env random) := by
  have h₂ : random'.take 2 = random.take 2 := by
    have htake := congrArg (List.take 2) h
    rwa [List.take_take, List.take_take] at htake
  rw [keyPrefix, keyPrefix, fullKey, fullKey, String.toList_append, String.toList_append,
    List.take_length_add_append, List.take_length_add_append, take_randHex (n := 2) h₂]

theorem secretPrefix_webhookSecret {random random' : Bytes} (h : random'.take 4 = random.take 4) :
    secretPrefix (webhookSecret random') = secretPrefix (webhookSecret random) := by
  have htake (b : Bytes) : (webhookSecret b).toList.take 14 =
      "whsec_".toList ++ (randHex b).toList.take 8 := by
    have hstart : "whsec_".toList.length + 8 = 14 := by decide
    rw [webhookSecret, String.toList_append, ← hstart, List.take_length_add_append]
  rw [secretPrefix, secretPrefix, htake, htake, take_randHex (n := 4) h]

/-- The secrets made of some bytes trade places with those made of others. -/
def redraw (random random' : Bytes) : Equiv.Perm String :=
  (Equiv.swap (webhookSecret random) (webhookSecret random')).trans
    ((Equiv.swap (fullKey .live random) (fullKey .live random')).trans
      (Equiv.swap (fullKey .test random) (fullKey .test random')))

theorem fullKey_ne (random random' : Bytes) : fullKey .test random ≠ fullKey .live random' := by
  intro h
  have hchar := congrArg (fun text : String ↦ text.toList[3]?) h
  simp only [fullKey, keyStart, String.toList_append] at hchar
  exact absurd (show some 't' = some 'm' from hchar) (by decide)

theorem fullKey_ne_webhookSecret (env : CloudEnv) (random random' : Bytes) :
    fullKey env random ≠ webhookSecret random' := by
  intro h
  have hchar := congrArg (fun text : String ↦ text.toList[0]?) h
  simp only [fullKey, keyStart, webhookSecret, String.toList_append] at hchar
  exact absurd (show some 's' = some 'w' from hchar) (by decide)

/-- **Any bytes could have been drawn** in the place of others that are displayed alike. -/
theorem redrawn_redraw {random random' : Bytes} (hlength : random'.length = random.length)
    (htake : random'.take 4 = random.take 4) : Redrawn (redraw random random') random random' := by
  have hkey := fullKey_ne_webhookSecret
  refine ⟨hlength, fun env ↦ ?_, fun env ↦ keyPrefix_fullKey env htake, ?_,
    secretPrefix_webhookSecret htake⟩
  · cases env with
    | test =>
      rw [redraw, Equiv.trans_apply, Equiv.trans_apply,
        Equiv.swap_apply_of_ne_of_ne (hkey _ _ _) (hkey _ _ _),
        Equiv.swap_apply_of_ne_of_ne (fullKey_ne _ _) (fullKey_ne _ _), Equiv.swap_apply_left]
    | live =>
      rw [redraw, Equiv.trans_apply, Equiv.trans_apply,
        Equiv.swap_apply_of_ne_of_ne (hkey _ _ _) (hkey _ _ _), Equiv.swap_apply_left,
        Equiv.swap_apply_of_ne_of_ne (fullKey_ne _ _).symm (fullKey_ne _ _).symm]
  · rw [redraw, Equiv.trans_apply, Equiv.trans_apply, Equiv.swap_apply_left,
      Equiv.swap_apply_of_ne_of_ne (hkey _ _ _).symm (hkey _ _ _).symm,
      Equiv.swap_apply_of_ne_of_ne (hkey _ _ _).symm (hkey _ _ _).symm]

namespace Sample

/-- The bytes of a key, and others that are displayed alike. -/
def random : Bytes := (List.range 24).map fun n ↦ (n + 1).toUInt8

def random' : Bytes := [1, 2, 3, 4] ++ (List.range 20).map fun n ↦ (n + 105).toUInt8

/-- A vault that knows the hash of the key. -/
def vault : Vault where
  hashKey key :=
    if key = fullKey .test random then
      "c9092d3453f2ee2dbad24d7f2aa0bb35ff0dbdcbf2de618a17a1cdc9d90a1d20"
    else ""
  sealBox nonce _ := nonce
  unsealBox _ := .error "sealed box too short"

/-- A service with the handlers that make secrets alone. -/
def platform : Platform Empty Empty Unit Unit where
  deployment := ⟨[], [], id, id, fun _ ↦ .zero 32, fun b ↦ .pad 32 b⟩
  session _ _ _ := .ok ⟨1, .test⟩
  readLabel _ := .ok "till"
  readWebhook _ := .error "invalid JSON body: EOF"
  validateWebhookURL url := .ok url
  quoted text := text
  guarded := Empty.elim
  endpoint := Empty.elim
  start := Empty.elim
  handle _ _ _ place _ := place.elim

theorem newline_method : Idempotency.newline ∉ ([80, 79, 83, 84] : Bytes) := by decide

theorem newline_requestURI :
    Idempotency.newline ∉ ([47, 118, 49, 47, 107, 101, 121, 115] : Bytes) := by decide

/-- A request for a key. -/
def post (idempotencyKey authorization : String) : Process Empty Empty :=
  .request ⟨⟨.createKey, ⟨_, _, [123, 125], newline_method, newline_requestURI⟩, [],
    idempotencyKey⟩, authorization⟩ .arriving

def start (idempotencyKey : String) : Config (Tables Unit) (Process Empty Empty) where
  shared := ⟨[], [], [], [], ⟨fun _ ↦ none, 0⟩, ()⟩
  requests _ := post idempotencyKey ""

def go (i : ℕ) : Turn (Choice Unit) ℕ := .request i .go

/-- A request is let in by the cookie of its session. -/
def enter (i : ℕ) : List (Turn (Choice Unit) ℕ) :=
  [.request i (.other ()), .request i (.limit true [])]

/-- A request is answered with a key of these bytes, and its retry replays the response. -/
def retry (random : Bytes) : List (Turn (Choice Unit) ℕ) :=
  enter 0 ++ [go 0, go 0, go 0, .request 0 (.draw random), go 0, go 0, go 0, go 0] ++
    enter 1 ++ [go 1, go 1, go 1]

theorem paired_go {σ : Equiv.Perm String} (i : ℕ) :
    (go i).Paired (Choice.Redrawn σ) (go i) :=
  .request i (.same .go rfl)

theorem paired_enter {σ : Equiv.Perm String} (i : ℕ) :
    List.Forall₂ (Turn.Paired (Choice.Redrawn σ)) (enter i) (enter i) :=
  .cons (.request i (.same _ rfl))
    (.cons (.request i (.same _ rfl)) .nil)

/-- The same requests, with other bytes drawn. -/
theorem reruns : Reruns (redraw random random') (start "order-1") (retry random)
    (start "order-1") (retry random') where
  init := ⟨rfl, fun _ ↦ .request ⟨rfl, rfl⟩ .arriving⟩
  turns := by
    have hdrawn : Redrawn (redraw random random') random random' :=
      redrawn_redraw (by decide +kernel) (by decide +kernel)
    refine List.rel_append (List.rel_append (List.rel_append (paired_enter 0) ?_)
      (paired_enter 1)) ?_
    · exact .cons (paired_go 0) (.cons (paired_go 0) (.cons (paired_go 0)
        (.cons (.request 0 (.draw hdrawn)) (.cons (paired_go 0) (.cons (paired_go 0)
          (.cons (paired_go 0) (.cons (paired_go 0) .nil)))))))
    · exact .cons (paired_go 1) (.cons (paired_go 1) (.cons (paired_go 1) .nil))

/-- The same without a key for the request: each makes a key of its own. -/
def plain (random : Bytes) : List (Turn (Choice Unit) ℕ) :=
  enter 0 ++ [go 0, go 0, .request 0 (.draw random), go 0, go 0]

end Sample

end Secrets

open Secrets

/-- **Secrets are shown once**, in every run in which no request with an `Idempotency-Key` makes
one. -/
theorem secrets_shown_once {ρ μ χ τ : Type} (P : Platform ρ μ χ τ) (V : Vault)
    {init : Config (Tables τ) (Process ρ μ)} {turns : List (Turn (Choice χ) ℕ)}
    (hinit : ∀ i, (init.requests i).Starting)
    (hkeyless : ∀ n i, turns[n]? = some (.request i .go) →
      ¬(((service P V).after init turns n).requests i).Recorded) :
    ShownOnce P V init turns where
  kept _ _ _ h n := (h.after hinit hkeyless n).shared
  others _ _ _ h n i hfixed := ((h.after hinit hkeyless n).request i).reply? hfixed
  shows n i _ _ hmade hreply := (Secrets.sound_after hinit hkeyless n i).shows hmade hreply

/-- A request without an `Idempotency-Key`, which is answered with a key. -/
theorem secrets_shown_once_sample :
    ShownOnce Sample.platform Sample.vault (Sample.start "") (Sample.plain Sample.random) ∧
      (((service Sample.platform Sample.vault).serve (Sample.start "")
        (Sample.plain Sample.random)).requests 0).made = some (fullKey .test Sample.random) := by
  have hkeyless (i : ℕ) : ((Sample.start "").requests i).Keyless :=
    show trimSpace "" = "" by decide +kernel
  exact ⟨secrets_shown_once Sample.platform Sample.vault (fun _ ↦ rfl)
    fun n i _ ↦ (keyless_after hkeyless n i).not_recorded, by decide +kernel⟩

/-- **A retry is answered with the key of another request**: the response that shows it is kept,
and replayed. The requests say nothing of the key. -/
theorem secret_replayed :
    let c := (service Sample.platform Sample.vault).serve (Sample.start "order-1")
      (Sample.retry Sample.random)
    let secret := encodeText (fullKey .test Sample.random).toList
    (∀ i, ((Sample.start "order-1").requests i).Starting) ∧
      (c.requests 0).made = some (fullKey .test Sample.random) ∧ (c.requests 1).made = none ∧
      (∃ row response, c.shared.idem.rows ⟨"order-1", ⟨1, .test⟩, "api_keys"⟩ = some row ∧
        row.response = some response ∧ secret <:+: response.body) ∧
      (∃ r, (c.requests 1).reply? = some r ∧ secret <:+: r.response.body) ∧
      ¬ShownOnce Sample.platform Sample.vault (Sample.start "order-1")
        (Sample.retry Sample.random) := by
  intro c secret
  have hmade : (c.requests 1).made = none := by decide +kernel
  have hrow : ((c.shared.idem.rows ⟨"order-1", ⟨1, .test⟩, "api_keys"⟩).bind (·.response)).map
      (fun response ↦ decide (secret <:+: response.body)) = some true := by decide +kernel
  have hreply : (c.requests 1).reply?.map (fun r ↦ decide (secret <:+: r.response.body)) =
      some true := by decide +kernel
  refine ⟨fun _ ↦ rfl, by decide +kernel, hmade, ?_, ?_, fun h ↦ ?_⟩
  · obtain ⟨response, hresponse, hinfix⟩ := Option.map_eq_some_iff.1 hrow
    obtain ⟨row, hrow, hresponse⟩ := Option.bind_eq_some_iff.1 hresponse
    exact ⟨row, response, hrow, hresponse, of_decide_eq_true hinfix⟩
  · obtain ⟨r, hr, hinfix⟩ := Option.map_eq_some_iff.1 hreply
    exact ⟨r, hr, of_decide_eq_true hinfix⟩
  · -- with other bytes drawn for the first request, the second is answered otherwise
    have hsame := h.others _ _ _ Sample.reruns 15 1 fun _ hsecret ↦
      absurd (hsecret.symm.trans hmade) (Option.some_ne_none _)
    revert hsame
    decide +kernel

end Soroticket
