import Mathlib.Data.List.Pairwise
import Soroticket.Cloud.Idempotency
import Soroticket.Cloud.References
import Soroticket.Machine.Layers

/-!
# No business reference is counted twice

The server as it runs: every request passes `idempotent`, under any key or none, before it reaches
its handler (`Idempotency.service`, in front of `service`), and the server restarts now and then,
which ends the requests in flight, frees the locks and runs the schema script.

The requests that are counted, in the order they are, account for everything in the tables
(`Journal`): the events and the punches are theirs, and the rows of `operation_dedup` are the rows
of their references, none of them twice. Every step keeps the journal, and so does a restart, whose
script finds all the orders of events entered already.

This rests on `operation_dedup` and its primary key, and on nothing else: neither on the locks, nor
on the check of a punch before it takes its lock, nor on the keys of `idempotent`, which only ever
keep a request from its handler.
-/

namespace Soroticket

open Interleaving Interleaving.Service

variable {d : Deployment} {reg : Registry d}

/-! ### The server -/

/-- A request that runs its handler. -/
def Idempotency.Request.runs (r : Request) : Bool :=
  match r.phase with
  | .unkeyed | .executing .. => true
  | _ => false

/-- A restart. The mutexes are fresh, and what is stored goes through the schema script. -/
def World.restart (reg : Registry d) (w : World) : World where
  db := w.db.openStore reg
  chain := w.chain
  locks _ := false

section Server

variable (reg : Registry d)

/-- The server. -/
def server : Service ((Idempotency.State × World) × ℕ) (Visit (Idempotency.Request × Place reg))
    (Idempotency.Choice ⊕ Choice) (ServerEvent (ℕ ⊕ Tx)) :=
  ((service reg).behind (Idempotency.service d) Idempotency.Request.runs).restarting
    fun s ↦ (s.1, s.2.restart reg)

variable {reg}

/-- Requests with their keys, before any has begun. -/
def opening (keys : Idempotency.State) (w : World) (calls : ℕ → Idempotency.IdemCall)
    (arrivals : ℕ → Place reg) :
    Config ((Idempotency.State × World) × ℕ) (Visit (Idempotency.Request × Place reg)) where
  shared := ((keys, w), 0)
  requests i := ⟨none, ⟨calls i, .arriving⟩, arrivals i⟩

/-- What the handlers of a server have come to. -/
def handlers (c : Config ((Idempotency.State × World) × ℕ)
    (Visit (Idempotency.Request × Place reg))) : Config World (Place reg) :=
  c.view (fun s ↦ s.1.2) fun v ↦ v.place.2

/-- The handlers of a server are a run of the service, with restarts. -/
theorem handlers_serve (keys : Idempotency.State) (w : World) (calls : ℕ → Idempotency.IdemCall)
    (arrivals : ℕ → Place reg)
    (turns : List (Turn (Idempotency.Choice ⊕ Choice) (ServerEvent (ℕ ⊕ Tx)))) :
    ∃ turns', handlers ((server reg).serve (opening keys w calls arrivals) turns) =
      ((service reg).withRestart (World.restart reg)).serve ⟨w, arrivals⟩ turns' := by
  have hfront : Simulates (((service reg).behind (Idempotency.service d)
      Idempotency.Request.runs).withRestart fun s ↦ (s.1, s.2.restart reg))
      ((service reg).withRestart (World.restart reg)) Prod.snd Prod.snd :=
    (behind_simulates ..).withRestart fun _ ↦ rfl
  exact ((restarting_simulates _ _).trans hfront).serve (opening keys w calls arrivals) turns

end Server

/-! ### The journal -/

namespace Place

variable {p : Place reg} {sc : CurrentCode reg} {text : ReferenceText}

/-- A request that refers to an order records an event with it. -/
theorem entry_of_business (h : p.business = some (.order sc text)) :
    p.entry = some (sc.row.id, some (BusinessReference.order sc text).reference) := by
  cases p with
  | recordEvents a campaignID code body =>
    obtain ⟨sc', hsc, h⟩ := Option.bind_eq_some_iff.1 h
    obtain ⟨text', htext, h⟩ := Option.bind_eq_some_iff.1 h
    obtain ⟨rfl, rfl⟩ := BusinessReference.order.inj (Option.some.inj h)
    rw [entry, hsc, htext]
    rfl
  | punch a id body =>
    obtain ⟨text', -, h⟩ := Option.map_eq_some_iff.1 h
    cases h
  | _ => exact absurd h.symm (Option.some_ne_none _)

/-- An event with an order is recorded by a request that refers to it. -/
theorem business_of_entry {sharedID : ℕ} {ref : Bytes} (h : p.entry = some (sharedID, some ref))
    (href : ref ≠ []) : ∃ sc text, p.business = some (.order sc text) ∧ sc.row.id = sharedID ∧
      (BusinessReference.order sc text).reference = ref := by
  cases p with
  | recordEvents a campaignID code body =>
    obtain ⟨sc, hsc, h⟩ := Option.map_eq_some_iff.1 h
    obtain ⟨hid, horder⟩ := Prod.mk.inj h
    cases htext : trimmed body.orderRef with
    | none =>
      rw [htext] at horder
      exact absurd (Option.some.inj horder).symm href
    | some text =>
      rw [htext] at horder
      refine ⟨sc, text, ?_, hid, Option.some.inj horder⟩
      rw [business, hsc, htext]
      rfl
  | punch a id body =>
    obtain ⟨x, -, h⟩ := Option.map_eq_some_iff.1 h
    exact absurd (Prod.mk.inj h).2.symm (Option.some_ne_none _)
  | _ => exact absurd h.symm (Option.some_ne_none _)

/-- The row of the reference of a request. -/
def dedupRow (p : Place reg) : Option DedupRow := p.business.map BusinessReference.row

/-- Requests with the row of an order record events with that order, and no others do. -/
theorem dedupRow_eq_iff : p.dedupRow = some (BusinessReference.order sc text).row ↔
    p.entry = some (sc.row.id, some (BusinessReference.order sc text).reference) := by
  constructor
  · intro h
    obtain ⟨b, hb, hrow⟩ := Option.map_eq_some_iff.1 h
    obtain ⟨-, hscope, href⟩ := DedupRow.mk.inj hrow
    cases b with
    | order sc' text' =>
      rw [entry_of_business hb, href, DedupScope.shared.inj hscope]
    | event => exact absurd hscope nofun
  · intro h
    obtain ⟨sc', text', hb, hid, href⟩ := business_of_entry h (BusinessReference.reference_ne_nil _)
    obtain rfl := CurrentCode.eq_of_id hid
    rw [dedupRow, hb, Option.map_some, BusinessReference.row, href]
    rfl

end Place

theorem filterMap_singleton {α β : Type} (f : α → Option β) (a : α) :
    [a].filterMap f = (f a).toList := by
  rw [List.filterMap_cons]
  cases f a <;> rfl

/-- What no two elements of a list are mapped to, only one is mapped to. -/
theorem eq_of_nodup_filterMap {α β : Type} {f : α → Option β} {l : List α}
    (h : (l.filterMap f).Nodup) {a a' : α} (ha : a ∈ l) (ha' : a' ∈ l) {b : β}
    (hb : f a = some b) (hb' : f a' = some b) : a = a' := by
  have hpairs := List.pairwise_filterMap.1 h
  have hsymm : Std.Symm fun x y ↦ ∀ b, f x = some b → ∀ b', f y = some b' → b ≠ b' :=
    ⟨fun _ _ hxy b hb b' hb' ↦ (hxy b' hb' b hb).symm⟩
  by_contra hne
  exact hpairs.forall ha ha' hne b hb b hb' rfl

/-- The requests counted so far account for what is in the tables. -/
structure Journal (arrivals : ℕ → Place reg) (log : List ℕ) (c : Config World (Place reg)) :
    Prop where
  leads : ∀ i, Leads (arrivals i) (c.requests i)
  nodup : log.Nodup
  done : ∀ i, i ∈ log ↔ (c.requests i).done = true
  events : c.shared.db.sharedEvents.references.map some = log.map fun i ↦ (arrivals i).entry
  dedup : c.shared.db.operationDedup = log.filterMap fun i ↦ (arrivals i).dedupRow
  once : c.shared.db.operationDedup.Nodup
  punches : c.shared.db.punches.map (·.programID) = log.filterMap fun i ↦ (arrivals i).card

namespace Journal

variable {arrivals : ℕ → Place reg} {log : List ℕ} {c : Config World (Place reg)} {i : ℕ}
  {ch : Choice} {p' : Place reg} {w : World}

/-- A step that enters nothing. -/
theorem keeps (hj : Journal arrivals log c)
    (h : advance reg ch (c.requests i) c.shared = some (p', w))
    (hdone : p'.done = (c.requests i).done) (hkeeps : Keeps c.shared.db w.db) :
    Journal arrivals log ⟨w, Function.update c.requests i p'⟩ where
  leads := leads_update hj.leads h
  nodup := hj.nodup
  done j := by
    rw [hj.done j]
    show _ ↔ (Function.update c.requests i p' j).done = true
    rcases eq_or_ne j i with rfl | hne
    · rw [Function.update_self, hdone]
    · rw [Function.update_of_ne hne]
  events := (congrArg _ hkeeps.events).trans hj.events
  dedup := hkeeps.dedup.trans hj.dedup
  once := by
    show w.db.operationDedup.Nodup
    rw [hkeeps.dedup]
    exact hj.once
  punches := hkeeps.punches.trans hj.punches

/-- **The step with which a request is counted.** -/
theorem commits (hj : Journal arrivals log c)
    (h : advance reg ch (c.requests i) c.shared = some (p', w))
    (hbefore : (c.requests i).done = false) (hafter : p'.done = true)
    (hcommits : Commits (arrivals i) c.shared.db w.db) :
    Journal arrivals (log ++ [i]) ⟨w, Function.update c.requests i p'⟩ where
  leads := leads_update hj.leads h
  nodup := by
    refine List.Nodup.append hj.nodup (List.nodup_singleton i) fun j hj' hi ↦ ?_
    rw [List.mem_singleton.1 hi, hj.done, hbefore] at hj'
    exact Bool.false_ne_true hj'
  done j := by
    rw [List.mem_append, List.mem_singleton, hj.done j]
    show _ ↔ (Function.update c.requests i p' j).done = true
    rcases eq_or_ne j i with rfl | hne
    · rw [Function.update_self]
      exact iff_of_true (Or.inr rfl) hafter
    · rw [Function.update_of_ne hne]
      exact or_iff_left hne
  events := by
    rw [hcommits.events, hj.events, List.map_append]
    rfl
  dedup := by
    rw [hcommits.dedup, hj.dedup, List.filterMap_append, filterMap_singleton]
    rfl
  once := by
    show w.db.operationDedup.Nodup
    rw [hcommits.dedup]
    refine List.Nodup.append hj.once ?_ fun row hrow hnew ↦ ?_
    · cases (arrivals i).business with
      | none => exact List.nodup_nil
      | some b => exact List.nodup_singleton _
    · obtain ⟨b, hb, rfl⟩ := Option.map_eq_some_iff.1 (Option.mem_toList.1 hnew)
      exact hcommits.fresh b hb hrow
  punches := by
    rw [hcommits.punches, hj.punches, List.filterMap_append, filterMap_singleton]

/-- The orders of events are entered. -/
theorem orders_entered (hj : Journal arrivals log c) (row : DedupRow)
    (hrow : row ∈ reg.orderRows c.shared.db.sharedEvents) : row ∈ c.shared.db.operationDedup := by
  obtain ⟨sc, hsc, camp, hcamp, ref, hcampaign, href, hmem, rfl⟩ := mem_orderRows hrow
  have hentry : some (sc.id, some ref) ∈ log.map fun i ↦ (arrivals i).entry := by
    rw [← hj.events]
    exact List.mem_map_of_mem hmem
  obtain ⟨i, hi, hentry⟩ := List.mem_map.1 hentry
  obtain ⟨sc', text, hb, hid, rfl⟩ := Place.business_of_entry hentry href
  -- the script joins the code and the campaign the event was recorded for
  obtain rfl : sc'.row = sc := reg.code_key _ sc'.row_mem _ hsc hid
  obtain rfl : sc'.campaign = camp :=
    reg.campaign_key _ sc'.campaign_mem _ hcamp (sc'.row_campaign.symm.trans hcampaign.symm)
  rw [hj.dedup]
  exact List.mem_filterMap.2 ⟨i, hi, congrArg (Option.map BusinessReference.row) hb⟩

theorem of_db (hj : Journal arrivals log c) (hdb : w.db = c.shared.db) :
    Journal arrivals log ⟨w, c.requests⟩ := by
  refine ⟨hj.leads, hj.nodup, hj.done, ?_, ?_, ?_, ?_⟩ <;> dsimp only <;> rw [hdb]
  · exact hj.events
  · exact hj.dedup
  · exact hj.once
  · exact hj.punches

/-- **A restart keeps the journal.** -/
theorem restart (hj : Journal arrivals log c) :
    Journal arrivals log ⟨c.shared.restart reg, c.requests⟩ :=
  hj.of_db (Database.openStore_eq hj.orders_entered)

/-! ### What the journal says -/

/-- Requests are counted once for a reference. -/
theorem eq_of_business (hj : Journal arrivals log c) {j : ℕ} {b : BusinessReference reg}
    (hi : (arrivals i).business = some b) (hj' : (arrivals j).business = some b)
    (hdone : (c.requests i).done = true) (hdone' : (c.requests j).done = true) : i = j := by
  have honce : (log.filterMap fun i ↦ (arrivals i).dedupRow).Nodup := hj.dedup ▸ hj.once
  exact eq_of_nodup_filterMap honce ((hj.done i).2 hdone) ((hj.done j).2 hdone')
    (congrArg (Option.map BusinessReference.row) hi)
    (congrArg (Option.map BusinessReference.row) hj')

/-- The events with an order are as many as the rows of the order. -/
theorem count_order (hj : Journal arrivals log c) (sc : CurrentCode reg) (text : ReferenceText) :
    c.shared.db.sharedEvents.references.count
        (sc.row.id, some (BusinessReference.order sc text).reference) =
      if (BusinessReference.order sc text).row ∈ c.shared.db.operationDedup then 1 else 0 := by
  rw [← hj.once.count, hj.dedup, List.count_filterMap,
    ← List.count_map_of_injective _ _ (Option.some_injective _), hj.events, List.count,
    List.countP_map]
  refine List.countP_congr fun i _ ↦ ?_
  rw [Function.comp_apply, beq_iff_eq, beq_iff_eq]
  exact Place.dedupRow_eq_iff.symm

/-- A reference has a row where a request was counted with it. -/
theorem row_mem_iff (hj : Journal arrivals log c) {M : Set Bytes} (hinj : Set.InjOn d.refMac M)
    (hM : ∀ i b, (arrivals i).business = some b → b.material ∈ M) {b : BusinessReference reg}
    (hb : b.material ∈ M) : b.row ∈ c.shared.db.operationDedup ↔
      ∃ i, (arrivals i).business = some b ∧ (c.requests i).done = true := by
  rw [hj.dedup, List.mem_filterMap]
  constructor
  · rintro ⟨i, hi, hrow⟩
    obtain ⟨b', hb', hrow⟩ := Option.map_eq_some_iff.1 hrow
    obtain rfl := BusinessReference.row_inj hinj (hM i b' hb') hb hrow
    exact ⟨i, hb', (hj.done i).1 hi⟩
  · rintro ⟨i, hb', hdone⟩
    exact ⟨i, (hj.done i).2 hdone, congrArg (Option.map BusinessReference.row) hb'⟩

/-- A request goes on where none was counted with its reference. -/
theorem lookup_eq_ok_iff (hj : Journal arrivals log c) {M : Set Bytes}
    (hinj : Set.InjOn d.refMac M) (hM : ∀ i b, (arrivals i).business = some b → b.material ∈ M)
    {b : BusinessReference reg} (hb : (arrivals i).business = some b)
    {result : Except Problem Unit} (h : (c.requests i).lookup c.shared.db = some result) :
    result = .ok () ↔
      ∀ j, (arrivals j).business = some b → (c.requests j).done = false := by
  have hrow := hj.row_mem_iff hinj hM (hM i b hb)
  rw [(hj.leads i).lookup_eq_ok_iff h]
  constructor
  · intro hnone j hj'
    rw [Bool.eq_false_iff]
    exact fun hdone ↦ hnone ⟨b, hb, hrow.2 ⟨j, hj', hdone⟩⟩
  · rintro hnone ⟨b', hb', hmem⟩
    obtain rfl := Option.some.inj (hb.symm.trans hb')
    obtain ⟨j, hj', hdone⟩ := hrow.1 hmem
    exact absurd ((hnone j hj').symm.trans hdone) Bool.false_ne_true

end Journal

/-! ### Runs -/

/-- A database in which nothing was recorded yet. -/
structure Database.Fresh (db : Database) : Prop where
  events : db.sharedEvents.rows = []
  dedup : db.operationDedup = []
  punches : db.punches = []

/-- **There is a journal after every schedule, whatever restarts.** -/
theorem exists_journal {arrivals : ℕ → Place reg} (harriving : ∀ i, (arrivals i).Arriving)
    {w : World} (hfresh : w.db.Fresh) (turns : List (Turn Choice (ServerEvent Tx))) :
    ∃ log, Journal arrivals log
      (((service reg).withRestart (World.restart reg)).serve ⟨w, arrivals⟩ turns) := by
  refine serve_induction (P := fun c ↦ ∃ log, Journal arrivals log c) ⟨[], ?_⟩ ?_ ?_ turns
  · refine ⟨fun i ↦ (harriving i).leads, List.nodup_nil, fun i ↦ ?_, ?_, hfresh.dedup, ?_, ?_⟩
    · rw [(harriving i).done]
      exact iff_of_false List.not_mem_nil Bool.false_ne_true
    · rw [EventTable.references, hfresh.events]
      rfl
    · rw [hfresh.dedup]
      exact List.nodup_nil
    · rw [hfresh.punches]
      rfl
  · rintro c i ch p' w' ⟨log, hj⟩ h
    rcases advance_commits (hj.leads i) h with ⟨hdone, hkeeps⟩ | ⟨hbefore, hafter, hcommits⟩
    · exact ⟨log, hj.keeps h hdone hkeeps⟩
    · exact ⟨log ++ [i], hj.commits h hbefore hafter hcommits⟩
  · rintro c event ⟨log, hj⟩
    cases event with
    | outside tx => exact ⟨log, hj.of_db (db_outside reg tx c.shared)⟩
    | restart => exact ⟨log, hj.restart⟩

/-- Every business reference is counted once. The hash has no collision on `M`. -/
structure CountedOnce (arrivals : ℕ → Place reg) (M : Set Bytes) (c : Config World (Place reg)) :
    Prop where
  /-- At most one request is counted for a reference. -/
  once : ∀ i j b, (arrivals i).business = some b → (arrivals j).business = some b →
    (c.requests i).done = true → (c.requests j).done = true → i = j
  /-- At most one event of a code has an order, and it has one where the order has a row. -/
  orders : ∀ (sc : CurrentCode reg) text, c.shared.db.sharedEvents.references.count
      (sc.row.id, some (BusinessReference.order sc text).reference) =
    if (BusinessReference.order sc text).row ∈ c.shared.db.operationDedup then 1 else 0
  /-- A reference has a row where a request was counted for it. -/
  rows : ∀ b : BusinessReference reg, b.material ∈ M → (b.row ∈ c.shared.db.operationDedup ↔
    ∃ i, (arrivals i).business = some b ∧ (c.requests i).done = true)
  /-- A request is refused for its reference only where another was counted for it. -/
  retry : ∀ i b result, (arrivals i).business = some b →
    (c.requests i).lookup c.shared.db = some result →
      (result = .ok () ↔ ∀ j, (arrivals j).business = some b → (c.requests j).done = false)
  /-- The events and the punches are those of the requests that were counted, one of each. -/
  tables : ∃ log : List ℕ, log.Nodup ∧ (∀ i, i ∈ log ↔ (c.requests i).done = true) ∧
    (c.shared.db.sharedEvents.references.map some = log.map fun i ↦ (arrivals i).entry) ∧
    c.shared.db.punches.map (·.programID) = log.filterMap fun i ↦ (arrivals i).card

/-- **No business reference is counted twice,** under any keys, in any order of the requests, and
with restarts anywhere. -/
theorem references_counted_once {arrivals : ℕ → Place reg}
    (harriving : ∀ i, (arrivals i).Arriving) {M : Set Bytes} (hinj : Set.InjOn d.refMac M)
    (hM : ∀ i b, (arrivals i).business = some b → b.material ∈ M) {w : World}
    (hfresh : w.db.Fresh) (keys : Idempotency.State) (calls : ℕ → Idempotency.IdemCall)
    (turns : List (Turn (Idempotency.Choice ⊕ Choice) (ServerEvent (ℕ ⊕ Tx)))) :
    CountedOnce arrivals M
      (handlers ((server reg).serve (opening keys w calls arrivals) turns)) := by
  obtain ⟨turns', hturns⟩ := handlers_serve keys w calls arrivals turns
  rw [hturns]
  obtain ⟨log, hj⟩ := exists_journal harriving hfresh turns'
  exact
    { once := fun _ _ _ hi hj' hdone hdone' ↦ hj.eq_of_business hi hj' hdone hdone'
      orders := hj.count_order
      rows := fun _ hb ↦ hj.row_mem_iff hinj hM hb
      retry := fun _ _ _ hb h ↦ hj.lookup_eq_ok_iff hinj hM hb h
      tables := ⟨log, hj.nodup, hj.done, hj.events, hj.punches⟩ }

namespace References.Sample

/-- A deployment that hashes a reference as its last bytes. -/
def deployment : Deployment where
  cloudNetwork := []
  currentContractID := [67]
  quote x := x
  base64 x := x
  sha256 _ := .zero 32
  refMac b := .pad 32 b.reverse

def account : AuthCtx := ⟨1, .test⟩

def registry : Registry deployment where
  accounts := []
  campaigns := [⟨1, account, 1, [67], 100, false⟩]
  sharedCodes := [⟨1, 1, [70], none⟩]
  programs := [⟨1, account, 2, 1, [70]⟩]
  campaign_key := by simp
  chain_key := by simp
  code_key := by simp
  code_name_key := by simp

def code : CurrentCode registry :=
  ⟨⟨1, 1, [70], none⟩, ⟨1, account, 1, [67], 100, false⟩, List.mem_cons_self, List.mem_cons_self,
    rfl, rfl⟩

/-- One order, recorded again and again, and one event, punched again and again. -/
def arrivals (i : ℕ) : Place registry :=
  if i % 2 = 0 then .recordEvents account 1 [70] ⟨none, "", " 42 ", "", "", ""⟩
  else .punch account 1 ⟨"alice", "visit", none⟩

def order : BusinessReference registry := .order code ⟨"42", by decide⟩

def visit : BusinessReference registry := .event account 1 ⟨"visit", by decide⟩

def world : World where
  db := .empty
  chain := runFrom 0 []
  locks _ := false

/-- The first request has a key, and the others have none. -/
def calls (i : ℕ) : Idempotency.IdemCall where
  idempotencyKey := if i = 0 then "order-42" else ""
  account := account
  endpoint := "events"
  target := ⟨[80, 85, 84], [47, 102], [], by decide, by decide⟩

def choice : Choice where
  env := ⟨20, some ⟨[71], fun _ ↦ some [1]⟩, some [2], .ok ()⟩
  stored := true
  read := 0
  ledger := Soroticket.Sample.envAt 20 Soroticket.Sample.owner
  lands := true
  genCode _ := none
  decoded := true
  txHash := []

/-- A request passes the front, or advances in its handler. -/
def front (i : ℕ) : Turn (Idempotency.Choice ⊕ Choice) (ServerEvent (ℕ ⊕ Tx)) :=
  .request i (.inl .go)

def back (i : ℕ) : Turn (Idempotency.Choice ⊕ Choice) (ServerEvent (ℕ ⊕ Tx)) :=
  .request i (.inr choice)

/-- The order is recorded, and refused after a restart. The visit is punched, and the punch is lost
in another restart before its transaction; it is punched again. -/
def turns : List (Turn (Idempotency.Choice ⊕ Choice) (ServerEvent (ℕ ⊕ Tx))) :=
  [front 0, front 0, back 0, back 0, .outside .restart, front 2, back 2, back 2, front 1] ++
    List.replicate 6 (back 1) ++ [.outside .restart, back 1, front 3] ++ List.replicate 8 (back 3)

theorem fresh : world.db.Fresh := ⟨rfl, rfl, rfl⟩

theorem arriving (i : ℕ) : (arrivals i).Arriving := by
  rw [arrivals]
  split <;> trivial

theorem business_arrivals (i : ℕ) (b : BusinessReference registry)
    (h : (arrivals i).business = some b) : b = order ∨ b = visit := by
  rw [arrivals] at h
  split at h
  · refine Or.inl (Option.some.inj (h.symm.trans ?_))
    rfl
  · refine Or.inr (Option.some.inj (h.symm.trans ?_))
    rfl

theorem injOn : Set.InjOn deployment.refMac {order.material, visit.material} := by
  have hne : deployment.refMac order.material ≠ deployment.refMac visit.material := by
    decide +kernel
  rintro x (rfl | rfl) y (rfl | rfl) hxy
  · rfl
  · exact absurd hxy hne
  · exact absurd hxy.symm hne
  · rfl

end References.Sample

theorem references_counted_once_restarts :
    CountedOnce References.Sample.arrivals
      {References.Sample.order.material, References.Sample.visit.material}
      (handlers ((server References.Sample.registry).serve
        (opening ⟨fun _ ↦ none, 0⟩ References.Sample.world References.Sample.calls
          References.Sample.arrivals) References.Sample.turns)) := by
  refine references_counted_once References.Sample.arriving References.Sample.injOn
    (fun i b hb ↦ ?_) References.Sample.fresh _ _ _
  rcases References.Sample.business_arrivals i b hb with rfl | rfl
  · exact Set.mem_insert _ _
  · exact Set.mem_insert_of_mem _ rfl

/-- Of two recordings of the order and two punches of the visit, one each is counted. -/
example :
    let db := (handlers ((server References.Sample.registry).serve
      (opening ⟨fun _ ↦ none, 0⟩ References.Sample.world References.Sample.calls
        References.Sample.arrivals) References.Sample.turns)).shared.db
    db.sharedEvents.references.count (1, some References.Sample.order.reference) = 1 ∧
      db.punches.length = 1 := by decide +kernel

end Soroticket
