import Soroticket.Ledger.Index
import Soroticket.Machine.Paging

/-!
# The campaigns of an owner

The storage of a contract cannot be iterated, so `create_campaign` keeps an index by hand: a counter
for each owner, an entry for each of the owner's slots, and for each campaign the slot it was filed
at. Two loops read it back, and skip a slot with no entry.

No slot is ever missing (`Listed`). What makes the loops exact is that the counter, the entries and
the slots of the campaigns are three descriptions of one list, which a creation extends at its end
and nothing else changes (`Effect.sameIndex_or_enlists`). A page is then a page of that list, and a
walk over pages is a reader of a growing list.
-/

namespace Soroticket

open Outcome Paging

/-! ### The index -/

/-- The owner of a campaign. -/
def Storage.ownerOf (s : Storage) (id : UInt64) : Option Address :=
  (s.campaign id).map Campaign.owner

/-- The index lists the campaigns of every owner. -/
structure Listed (s : Storage) : Prop where
  /-- An owner's slots are those below the owner's counter. -/
  slots : ∀ a i, (s.ownerCampaign (a, i)).isSome = true ↔
    i.toNat < ((s.ownerCount a).getD 0).toNat
  /-- A slot has the campaign of its owner that was filed there. -/
  owned : ∀ a i id, s.ownerCampaign (a, i) = some id ↔
    s.ownerOf id = some a ∧ s.campaignOwnerSlot id = some i
  /-- Every campaign was filed at a slot. -/
  placed : ∀ id, (s.ownerOf id).isSome = true → (s.campaignOwnerSlot id).isSome = true
  /-- Later slots have later campaigns. -/
  increasing : ∀ a i j id id', i < j → s.ownerCampaign (a, i) = some id →
    s.ownerCampaign (a, j) = some id' → id < id'

/-- The index, and the owners it lists the campaigns of, are the same. -/
structure SameIndex (s s' : Storage) : Prop where
  ownerOf : s'.ownerOf = s.ownerOf
  ownerCount : s'.ownerCount = s.ownerCount
  ownerCampaign : s'.ownerCampaign = s.ownerCampaign
  campaignOwnerSlot : s'.campaignOwnerSlot = s.campaignOwnerSlot

/-- The next campaign is filed at its owner's next slot. -/
structure Enlists (owner : Address) (id : UInt64) (s s' : Storage) : Prop where
  id_eq : id.toNat = (s.campCtr.getD 0).toNat + 1
  ownerOf : s'.ownerOf = Function.update s.ownerOf id (some owner)
  ownerCount : ∃ next : UInt64, next.toNat = ((s.ownerCount owner).getD 0).toNat + 1 ∧
    s'.ownerCount = Function.update s.ownerCount owner (some next)
  ownerCampaign : s'.ownerCampaign =
    Function.update s.ownerCampaign (owner, (s.ownerCount owner).getD 0) (some id)
  campaignOwnerSlot : s'.campaignOwnerSlot =
    Function.update s.campaignOwnerSlot id (some ((s.ownerCount owner).getD 0))

/-- A record put in the place of a campaign has the campaign's owner. -/
theorem map_owner_update {f : UInt64 → Option Campaign} {c : UInt64} {camp camp' : Campaign}
    (hcamp : f c = some camp) (howner : camp'.owner = camp.owner) (id : UInt64) :
    (Function.update f c (some camp') id).map Campaign.owner = (f id).map Campaign.owner := by
  rcases eq_or_ne id c with rfl | hne
  · rw [Function.update_self, hcamp, Option.map_some, Option.map_some, howner]
  · rw [Function.update_of_ne hne]

/-- **A success leaves the index alone or files a new campaign.** -/
theorem Effect.sameIndex_or_enlists {env : Env} {call : Call} {v : Value} {s s' : Storage}
    {evs : List Event} (h : Effect env call v s s' evs) :
    SameIndex s s' ∨ ∃ owner id, Enlists owner id s s' := by
  cases h with
  | @createCampaign owner name discountType discountValue totalSupply validUntil id next _ hauth
      hterms htime hid hcount =>
    refine Or.inr ⟨owner, id, hid, funext fun x ↦ ?_, ⟨next, hcount, rfl⟩, rfl, rfl⟩
    rcases eq_or_ne x id with rfl | hne
    · simp only [Storage.ownerOf, Function.update_self, Option.map_some, newCampaign]
    · simp only [Storage.ownerOf, Function.update_of_ne hne]
  | @issueUnique owner c codes ids _ s₁ camp n hauth hcamp howner htime hne hbatch hminted hsupply
      hmints =>
    rw [hmints.frame]
    exact Or.inl ⟨funext (map_owner_update hcamp rfl), rfl, rfl, rfl⟩
  | redeemUnique hauth hindex htok hunburned hcamp =>
    exact Or.inl ⟨funext (map_owner_update hcamp rfl), rfl, rfl, rfl⟩
  | unchanged | addDelegate | removeDelegate | registerShared | commitTally | settle =>
    exact Or.inl ⟨rfl, rfl, rfl, rfl⟩

/-! ### The index stays in order -/

theorem listed_empty : Listed Storage.empty := by
  refine ⟨fun a i ↦ ?_, fun a i id ↦ ?_, fun id h ↦ absurd h Bool.false_ne_true,
    fun a i j id id' _ h ↦ absurd h.symm (Option.some_ne_none id)⟩
  · show false = true ↔ i.toNat < 0
    simp only [Bool.false_eq_true, Nat.not_lt_zero]
  · show none = some id ↔ none = some a ∧ none = some i
    simp only [reduceCtorEq, false_and]

theorem SameIndex.listed {s s' : Storage} (h : SameIndex s s') (hl : Listed s) : Listed s' := by
  obtain ⟨h₁, h₂, h₃, h₄⟩ := h
  obtain ⟨l₁, l₂, l₃, l₄⟩ := hl
  refine ⟨?_, ?_, ?_, ?_⟩ <;> simpa only [h₁, h₂, h₃, h₄]

section Enlists

variable {s s' : Storage} {owner : Address} {id : UInt64}

/-- The number of the new campaign is above every number in the index. -/
theorem Enlists.lt (h : Enlists owner id s s') (hf : Filed s) {x : UInt64}
    (hx : (s.ownerOf x).isSome = true) : x < id := by
  rw [Storage.ownerOf, Option.isSome_map, hf.campaign_iff] at hx
  rw [UInt64.lt_iff_toNat_lt, h.id_eq]
  omega

theorem Enlists.slots (h : Enlists owner id s s') (hl : Listed s) (a : Address) (i : UInt64) :
    (s'.ownerCampaign (a, i)).isSome = true ↔ i.toNat < ((s'.ownerCount a).getD 0).toNat := by
  obtain ⟨next, hnext, hcount⟩ := h.ownerCount
  rw [h.ownerCampaign, hcount]
  rcases eq_or_ne a owner with rfl | ha
  · rw [Function.update_self, Option.getD_some, hnext]
    rcases eq_or_ne i ((s.ownerCount a).getD 0) with rfl | hi
    · rw [Function.update_self]
      exact iff_of_true rfl (Nat.lt_succ_self _)
    · have hne : i.toNat ≠ ((s.ownerCount a).getD 0).toNat := fun he ↦ hi (UInt64.toNat_inj.1 he)
      rw [Function.update_of_ne fun he ↦ hi (Prod.mk.inj he).2, hl.slots]
      omega
  · rw [Function.update_of_ne fun he ↦ ha (Prod.mk.inj he).1, Function.update_of_ne ha]
    exact hl.slots a i

/-- No campaign was filed at a slot its owner's counter had not reached. -/
theorem Listed.not_filed (hl : Listed s) (a : Address) (x : UInt64) :
    ¬(s.ownerOf x = some a ∧ s.campaignOwnerSlot x = some ((s.ownerCount a).getD 0)) := by
  intro hx
  have hslot := (hl.owned _ _ _).2 hx
  have hlt := (hl.slots a _).1 (by rw [hslot]; rfl)
  exact Nat.lt_irrefl _ hlt

theorem Enlists.owned (h : Enlists owner id s s') (hf : Filed s) (hl : Listed s) (a : Address)
    (i x : UInt64) : s'.ownerCampaign (a, i) = some x ↔
      s'.ownerOf x = some a ∧ s'.campaignOwnerSlot x = some i := by
  rw [h.ownerCampaign, h.ownerOf, h.campaignOwnerSlot]
  have hfresh : s.ownerOf id ≠ some a := fun hid ↦
    absurd (h.lt hf (x := id) (by rw [hid]; rfl)) (UInt64.lt_irrefl id)
  by_cases hslot : (a, i) = (owner, (s.ownerCount owner).getD 0)
  · obtain ⟨rfl, rfl⟩ := Prod.mk.inj hslot
    rw [Function.update_self]
    rcases eq_or_ne x id with rfl | hx
    · rw [Function.update_self, Function.update_self]
      exact iff_of_true rfl ⟨rfl, rfl⟩
    · rw [Function.update_of_ne hx, Function.update_of_ne hx]
      exact iff_of_false (fun he ↦ hx (Option.some.inj he).symm) (hl.not_filed a x)
  · rw [Function.update_of_ne hslot]
    rcases eq_or_ne x id with rfl | hx
    · rw [Function.update_self, Function.update_self]
      refine iff_of_false (fun he ↦ hfresh ((hl.owned a i x).1 he).1) ?_
      rintro ⟨ha, hi⟩
      exact hslot (Prod.ext (Option.some.inj ha).symm (Option.some.inj hi).symm)
    · rw [Function.update_of_ne hx, Function.update_of_ne hx]
      exact hl.owned a i x

/-- An entry of the index stays. -/
theorem Enlists.kept (h : Enlists owner id s s') (hl : Listed s) {a : Address} {i x : UInt64}
    (hx : s.ownerCampaign (a, i) = some x) : s'.ownerCampaign (a, i) = some x := by
  rw [h.ownerCampaign]
  refine update_of_free (Option.not_isSome_iff_eq_none.1 fun hslot ↦ ?_) hx
  exact Nat.lt_irrefl _ ((hl.slots owner _).1 hslot)

theorem Enlists.increasing (h : Enlists owner id s s') (hf : Filed s) (hl : Listed s) {a : Address}
    {i j x y : UInt64} (hij : i < j) (hx : s'.ownerCampaign (a, i) = some x)
    (hy : s'.ownerCampaign (a, j) = some y) : x < y := by
  rw [h.ownerCampaign] at hx hy
  rcases eq_or_eq_of_update hy with ⟨hslot, rfl⟩ | ⟨-, hold⟩
  · rcases eq_or_eq_of_update hx with ⟨hslot', rfl⟩ | ⟨-, hx⟩
    · exact absurd (Prod.mk.inj (hslot'.trans hslot.symm)).2 (UInt64.ne_of_lt hij)
    · exact h.lt hf (by rw [((hl.owned a i x).1 hx).1]; rfl)
  · rcases eq_or_eq_of_update hx with ⟨hslot, rfl⟩ | ⟨-, hx⟩
    · -- a slot past the counter has no entry
      obtain ⟨rfl, rfl⟩ := Prod.mk.inj hslot
      have hlt := (hl.slots a j).1 (by rw [hold]; rfl)
      exact absurd hlt (Nat.lt_asymm (UInt64.lt_iff_toNat_lt.1 hij))
    · exact hl.increasing a i j x y hij hx hold

/-- A new campaign is listed after those there were. -/
theorem Enlists.listed (h : Enlists owner id s s') (hf : Filed s) (hl : Listed s) : Listed s' := by
  refine ⟨h.slots hl, h.owned hf hl, fun x hx ↦ ?_, fun a i j x y ↦ h.increasing hf hl⟩
  rw [h.campaignOwnerSlot]
  rw [h.ownerOf] at hx
  rcases eq_or_ne x id with rfl | hne
  · rw [Function.update_self]
    rfl
  · rw [Function.update_of_ne hne] at hx ⊢
    exact hl.placed x hx

end Enlists

/-- Every success keeps the index in order, and every entry of it. -/
theorem Effect.listed {env : Env} {call : Call} {v : Value} {s s' : Storage} {evs : List Event}
    (h : Effect env call v s s' evs) (hf : Filed s) (hl : Listed s) : Listed s' ∧
      ∀ a i id, s.ownerCampaign (a, i) = some id → s'.ownerCampaign (a, i) = some id := by
  rcases h.sameIndex_or_enlists with hsame | ⟨owner, id, hnew⟩
  · refine ⟨hsame.listed hl, fun a i id hid ↦ ?_⟩
    rw [hsame.ownerCampaign]
    exact hid
  · exact ⟨hnew.listed hf hl, fun a i id hid ↦ hnew.kept hl hid⟩

/-- The accounts and the index of a reachable state are in order. -/
theorem Reachable.listed {s : ContractState} (h : Reachable s) : Listed s.storage := by
  have hboth : Accounted s.storage ∧ Listed s.storage := by
    refine h.induction (P := fun s ↦ Accounted s ∧ Listed s) ⟨accounted_empty, listed_empty⟩ ?_
    rintro env call v s s' evs ⟨ha, hl⟩ heff
    exact ⟨heff.accounted ha, (heff.listed ha.filed hl).1⟩
  exact hboth.2

/-! ### The list it describes -/

/-- The list of an owner: what is found at the slots below the counter. -/
def ownerList (owner : Address) (s : ContractState) : List UInt64 :=
  ownerSlots owner 0 ((s.storage.ownerCount owner).getD 0).toNat s

/-- `campaigns_of` returns the list. -/
theorem campaignsOf_eq (owner : Address) (s : ContractState) :
    campaignsOf owner s = .ok (ownerList owner s) :=
  ownerLoop_eq owner s _ 0 []

/-- Where no slot is missing, the loop collects the campaigns of the slots. -/
theorem ownerSlots_eq_map {s : ContractState} (hl : Listed s.storage) (a : Address)
    {slot stop : ℕ} (hstop : stop ≤ ((s.storage.ownerCount a).getD 0).toNat) :
    ownerSlots a slot stop s = (List.range' slot (stop - slot)).map fun i ↦
      (s.storage.ownerCampaign (a, .ofNat i)).getD 0 := by
  rw [ownerSlots, ← List.filterMap_eq_map']
  refine List.filterMap_congr fun i hi ↦ ?_
  have hlt : i < ((s.storage.ownerCount a).getD 0).toNat := by
    have hrange := List.mem_range'_1.1 hi
    omega
  have hsome : (s.storage.ownerCampaign (a, .ofNat i)).isSome = true := by
    rw [hl.slots, UInt64.toNat_ofNat_of_lt' (hlt.trans (UInt64.toNat_lt _))]
    exact hlt
  obtain ⟨id, hid⟩ := Option.isSome_iff_exists.1 hsome
  show s.storage.ownerCampaign (a, .ofNat i) = some _
  rw [hid, Option.getD_some]

section Lists

variable {s : ContractState}

theorem ownerList_eq_map (hl : Listed s.storage) (a : Address) :
    ownerList a s = (List.range ((s.storage.ownerCount a).getD 0).toNat).map fun i ↦
      (s.storage.ownerCampaign (a, .ofNat i)).getD 0 := by
  rw [List.range_eq_range']
  exact ownerSlots_eq_map hl a le_rfl

theorem length_ownerList (hl : Listed s.storage) (a : Address) :
    (ownerList a s).length = ((s.storage.ownerCount a).getD 0).toNat := by
  rw [ownerList_eq_map hl, List.length_map, List.length_range]

/-- The list has at each position the entry of that slot. -/
theorem getElem?_ownerList (hl : Listed s.storage) (a : Address) (i : UInt64) :
    (ownerList a s)[i.toNat]? = s.storage.ownerCampaign (a, i) := by
  rw [ownerList_eq_map hl, List.getElem?_map]
  by_cases hi : i.toNat < ((s.storage.ownerCount a).getD 0).toNat
  · obtain ⟨id, hid⟩ := Option.isSome_iff_exists.1 ((hl.slots a i).2 hi)
    rw [List.getElem?_range hi, Option.map_some, UInt64.ofNat_toNat, hid, Option.getD_some]
  · have hnone := Option.not_isSome_iff_eq_none.1 fun hsome ↦ hi ((hl.slots a i).1 hsome)
    rw [hnone, List.getElem?_eq_none (by rw [List.length_range]; exact Nat.le_of_not_lt hi)]
    rfl

/-- A position of the list is a slot. -/
theorem lt_of_lt_length_ownerList (hl : Listed s.storage) {a : Address} {k : ℕ}
    (hk : k < (ownerList a s).length) : ∃ i : UInt64, i.toNat = k := by
  rw [length_ownerList hl] at hk
  exact ⟨.ofNat k, UInt64.toNat_ofNat_of_lt' (hk.trans (UInt64.toNat_lt _))⟩

theorem mem_ownerList_iff (hl : Listed s.storage) {a : Address} {id : UInt64} :
    id ∈ ownerList a s ↔ s.storage.ownerOf id = some a := by
  rw [List.mem_iff_getElem?]
  constructor
  · rintro ⟨k, hk⟩
    obtain ⟨i, rfl⟩ := lt_of_lt_length_ownerList hl (List.getElem?_eq_some_iff.1 hk).1
    rw [getElem?_ownerList hl] at hk
    exact ((hl.owned a i id).1 hk).1
  · intro howner
    obtain ⟨i, hi⟩ := Option.isSome_iff_exists.1 (hl.placed id (by rw [howner]; rfl))
    exact ⟨i.toNat, (getElem?_ownerList hl a i).trans ((hl.owned a i id).2 ⟨howner, hi⟩)⟩

theorem pairwise_ownerList (hl : Listed s.storage) (a : Address) :
    (ownerList a s).Pairwise (· < ·) := by
  rw [List.pairwise_iff_getElem]
  intro k k' hk hk' hlt
  obtain ⟨i, rfl⟩ := lt_of_lt_length_ownerList hl hk
  obtain ⟨j, rfl⟩ := lt_of_lt_length_ownerList hl hk'
  refine hl.increasing a i j _ _ (UInt64.lt_iff_toNat_lt.2 hlt) ?_ ?_
  · rw [← getElem?_ownerList hl, List.getElem?_eq_getElem hk]
  · rw [← getElem?_ownerList hl, List.getElem?_eq_getElem hk']

/-- **A page of the index is a page of the list.** -/
theorem campaignsPage_eq (hl : Listed s.storage) (a : Address) (cursor : UInt64) {limit : UInt32}
    (hpos : 1 ≤ limit) (hle : limit ≤ 100) :
    campaignsPage a cursor limit s =
      .ok (page (ownerList a s) cursor.toNat limit.toNat) := by
  rw [UInt32.le_iff_toNat_le] at hpos hle
  have hlimit : ¬(limit = 0 ∨ maxBatch < limit.toNat) := by
    rintro (rfl | h)
    · exact absurd hpos (by decide)
    · exact absurd h (Nat.not_lt.2 hle)
  set count := (s.storage.ownerCount a).getD 0 with hcount
  -- the end of the page, as a number
  have hstop : (if cursor.saturatingAdd limit.toUInt64 < count
      then cursor.saturatingAdd limit.toUInt64 else count).toNat =
      min (cursor.toNat + limit.toNat) count.toNat := by
    have hsum : (cursor.saturatingAdd limit.toUInt64).toNat =
        min (cursor.toNat + limit.toNat) (2 ^ 64 - 1) := by
      rw [UInt64.toNat_saturatingAdd, UInt32.toNat_toUInt64]
    have hmax := count.toNat_lt
    split <;> rename_i h <;> rw [UInt64.lt_iff_toNat_lt, hsum] at h <;> omega
  have hpage : ownerSlots a cursor.toNat (min (cursor.toNat + limit.toNat) count.toNat) s =
      page (ownerList a s) cursor.toNat limit.toNat := by
    rw [ownerSlots_eq_map hl a (Nat.min_le_right _ _), ownerList_eq_map hl, page, ← List.map_drop,
      ← List.map_take, List.range_eq_range', List.drop_range', ← hcount]
    congr 1
    rcases Nat.le_total limit.toNat (count.toNat - cursor.toNat) with h | h
    · rw [List.take_range'_of_length_ge h]
      congr 1 <;> omega
    · rw [List.take_range'_of_length_le h]
      congr 1 <;> omega
  rw [campaignsPage, rejectIf_neg hlimit, ← hpage, ← hstop]
  exact ownerLoop_eq a s _ cursor []

end Lists

/-! ### Walks -/

/-- One page of a walk: its size, and what others do before the next. -/
structure Round where
  limit : UInt32
  between : List Tx

/-- What a client has seen that asks for page after page from `cursor` on, and whether it has met an
empty page, at which it stops. -/
def walk (owner : Address) (cursor : UInt64) (s : ContractState) :
    List Round → List UInt64 × Bool
  | [] => ([], false)
  | r :: rounds =>
    match campaignsPage owner cursor r.limit s with
    | .ok [] => ([], true)
    | .ok ids =>
      let rest := walk owner (cursor + .ofNat ids.length) (runAll Tx.exec s r.between) rounds
      (ids ++ rest.1, rest.2)
    | .error _ => ([], false)

/-- The lists as they are when the pages of a walk are asked for. -/
def snapshots (owner : Address) (s : ContractState) : List Round → List (List UInt64 × ℕ)
  | [] => []
  | r :: rounds =>
    (ownerList owner s, r.limit.toNat) :: snapshots owner (runAll Tx.exec s r.between) rounds

section Walk

variable {s : ContractState} {a : Address}

/-- What transactions leave of the index. -/
theorem runAll_listed (ha : Accounted s.storage) (hl : Listed s.storage) (txs : List Tx) :
    Accounted (runAll Tx.exec s txs).storage ∧ Listed (runAll Tx.exec s txs).storage ∧
      ∀ a i id, s.storage.ownerCampaign (a, i) = some id →
        (runAll Tx.exec s txs).storage.ownerCampaign (a, i) = some id := by
  refine runAll_induction (P := fun _ (s' : ContractState) ↦ Accounted s'.storage ∧
    Listed s'.storage ∧ ∀ a i id, s.storage.ownerCampaign (a, i) = some id →
      s'.storage.ownerCampaign (a, i) = some id) ⟨ha, hl, fun _ _ _ h ↦ h⟩ ?_ ?_ txs
  · rintro _ tx v s' ⟨ha, hl, hkept⟩ hexec
    obtain ⟨evs, heff, -⟩ := exec_effect hexec
    obtain ⟨hl', hkept'⟩ := heff.listed ha.filed hl
    exact ⟨heff.accounted ha, hl', fun a i id h ↦ hkept' a i id (hkept a i id h)⟩
  · exact fun _ _ _ h _ ↦ h

/-- The list of an owner grows at its end. -/
theorem ownerList_prefix {s' : ContractState} (hl : Listed s.storage) (hl' : Listed s'.storage)
    (hkept : ∀ a i id, s.storage.ownerCampaign (a, i) = some id →
      s'.storage.ownerCampaign (a, i) = some id) (a : Address) :
    ownerList a s <+: ownerList a s' := by
  rw [List.prefix_iff_getElem?]
  intro k hk
  obtain ⟨i, rfl⟩ := lt_of_lt_length_ownerList hl hk
  rw [getElem?_ownerList hl']
  refine hkept a i _ ?_
  rw [← getElem?_ownerList hl, List.getElem?_eq_getElem hk]

/-- A walk reads the list as it is at each page. -/
theorem walk_eq_visited (ha : Accounted s.storage) (hl : Listed s.storage) {rounds : List Round}
    (hlimits : ∀ r ∈ rounds, 1 ≤ r.limit ∧ r.limit ≤ 100) (cursor : UInt64) :
    walk a cursor s rounds = visited cursor.toNat (snapshots a s rounds) := by
  induction rounds generalizing s cursor with
  | nil => rfl
  | cons r rounds ih =>
    obtain ⟨hpos, hle⟩ := hlimits r List.mem_cons_self
    rw [walk, snapshots, campaignsPage_eq hl a cursor hpos hle]
    obtain ⟨ha', hl', -⟩ := runAll_listed ha hl r.between
    rcases hp : page (ownerList a s) cursor.toNat r.limit.toNat with - | ⟨id, ids⟩
    · rw [visited_cons_of_nil hp]
    · rw [visited_cons_of_ne_nil (by rw [hp]; exact List.cons_ne_nil id ids), hp]
      -- the page ends below the counter, so the cursor does not overflow
      have hlen := length_page (ownerList a s) cursor.toNat r.limit.toNat
      rw [hp, List.length_cons, length_ownerList hl] at hlen
      have hmax := ((s.storage.ownerCount a).getD 0).toNat_lt
      have hcursor : (cursor + .ofNat (id :: ids).length).toNat =
          cursor.toNat + (id :: ids).length := by
        rw [List.length_cons, UInt64.toNat_add,
          UInt64.toNat_ofNat_of_lt' (show ids.length + 1 < 2 ^ 64 by omega),
          Nat.mod_eq_of_lt (by omega)]
      have hrest := ih ha' hl' (fun r hr ↦ hlimits r (List.mem_cons_of_mem _ hr))
        (cursor + .ofNat (id :: ids).length)
      rw [hcursor] at hrest
      simp only [hrest]

/-- The lists of a walk all begin with the first, and the last begins with them all. -/
theorem snapshots_prefix (ha : Accounted s.storage) (hl : Listed s.storage) {rounds : List Round}
    (hlimits : ∀ r ∈ rounds, 1 ≤ r.limit ∧ r.limit ≤ 100) :
    ownerList a s <+: ownerList a (runAll Tx.exec s (rounds.flatMap Round.between)) ∧
      ∀ p ∈ snapshots a s rounds, ownerList a s <+: p.1 ∧
        p.1 <+: ownerList a (runAll Tx.exec s (rounds.flatMap Round.between)) ∧ 0 < p.2 := by
  induction rounds generalizing s with
  | nil => exact ⟨List.prefix_rfl, fun p hp ↦ absurd hp List.not_mem_nil⟩
  | cons r rounds ih =>
    obtain ⟨ha', hl', hkept⟩ := runAll_listed ha hl r.between
    have hfirst := ownerList_prefix hl hl' hkept a
    obtain ⟨hlast, hrest⟩ := ih ha' hl' fun r hr ↦ hlimits r (List.mem_cons_of_mem _ hr)
    rw [List.flatMap_cons, runAll_append]
    refine ⟨hfirst.trans hlast, fun p hp ↦ ?_⟩
    rcases List.mem_cons.1 hp with rfl | hp
    · have hpos := UInt32.le_iff_toNat_le.1 (hlimits r List.mem_cons_self).1
      exact ⟨List.prefix_rfl, hfirst.trans hlast, hpos⟩
    · obtain ⟨h₁, h₂, h₃⟩ := hrest p hp
      exact ⟨hfirst.trans h₁, h₂, h₃⟩

/-- **A walk sees every campaign that was there when it started, once and in order.** -/
theorem walk_visits (ha : Accounted s.storage) (hl : Listed s.storage) {rounds : List Round}
    (hlimits : ∀ r ∈ rounds, 1 ≤ r.limit ∧ r.limit ≤ 100) :
    (walk a 0 s rounds).1.Pairwise (· < ·) ∧
      ((walk a 0 s rounds).2 = true ∨ (ownerList a s).length ≤ rounds.length →
        ownerList a s <+: (walk a 0 s rounds).1) := by
  obtain ⟨hlast, hsnap⟩ := snapshots_prefix (a := a) ha hl hlimits
  obtain ⟨-, hl', -⟩ := runAll_listed ha hl (rounds.flatMap Round.between)
  have hlength : ∀ (s : ContractState) (rounds : List Round),
      (snapshots a s rounds).length = rounds.length := by
    intro s rounds
    induction rounds generalizing s with
    | nil => rfl
    | cons r rounds ih => rw [snapshots, List.length_cons, ih, List.length_cons]
  rw [walk_eq_visited ha hl hlimits]
  constructor
  · have hread := visited_prefix_drop (fun p hp ↦ (hsnap p hp).2.1) 0
    exact (pairwise_ownerList hl' a).sublist hread.sublist
  · intro hend
    have hread := drop_prefix_visited hlast hsnap 0
    rw [hlength, Nat.zero_add] at hread
    exact hread hend

end Walk

/-! ### The theorem -/

/-- **The owner index.** In a reachable state the campaigns of an owner are listed in increasing
order, as many as the owner's counter says, each at the slot it was filed at. A page of any size
allowed, from any cursor, is the stretch of the list from there on. A walk over pages, whatever
others do between them, sees campaigns in increasing order, and among them first all that were there
when it started, once it meets an empty page or has asked for as many pages as there were. -/
theorem owner_index {s : ContractState} (h : Reachable s) (a : Address) :
    ∃ ids, campaignsOf a s = .ok ids ∧ ids.Pairwise (· < ·) ∧
      (∀ id, id ∈ ids ↔ ∃ camp, getCampaign id s = .ok camp ∧ camp.owner = a) ∧
      ids.length = ((s.get (.ownerCount a)).getD (0 : UInt64)).toNat ∧
      (∀ id camp, getCampaign id s = .ok camp → camp.owner = a →
        ∃ slot, s.get (.campaignOwnerSlot id) = some slot ∧ ids[slot.toNat]? = some id) ∧
      (∀ (cursor : UInt64) (limit : UInt32), 1 ≤ limit → limit ≤ 100 →
        campaignsPage a cursor limit s = .ok ((ids.drop cursor.toNat).take limit.toNat)) ∧
      ∀ rounds : List Round, (∀ r ∈ rounds, 1 ≤ r.limit ∧ r.limit ≤ 100) →
        (walk a 0 s rounds).1.Pairwise (· < ·) ∧
          ((walk a 0 s rounds).2 = true ∨ ids.length ≤ rounds.length →
            ids <+: (walk a 0 s rounds).1) := by
  have ha := h.accounted
  have hl := h.listed
  have howner : ∀ id b, s.storage.ownerOf id = some b ↔
      ∃ camp, getCampaign id s = .ok camp ∧ camp.owner = b := by
    intro id b
    simp only [Storage.ownerOf, Option.map_eq_some_iff, getCampaign, okOr_eq_ok_iff]
    rfl
  refine ⟨ownerList a s, campaignsOf_eq a s, pairwise_ownerList hl a,
    fun id ↦ (mem_ownerList_iff hl).trans (howner id a), length_ownerList hl a,
    fun id camp hcamp hown ↦ ?_,
    fun cursor limit hpos hle ↦ campaignsPage_eq hl a cursor hpos hle,
    fun rounds hlimits ↦ walk_visits ha hl hlimits⟩
  have hid := (howner id a).2 ⟨camp, hcamp, hown⟩
  obtain ⟨i, hi⟩ := Option.isSome_iff_exists.1 (hl.placed id (by rw [hid]; rfl))
  exact ⟨i, hi, (getElem?_ownerList hl a i).trans ((hl.owned a i id).2 ⟨hid, hi⟩)⟩

/-- A walk of the owner of the sample, by pages of one; between the first two pages another campaign
is created. -/
def Sample.rounds : List Round :=
  [⟨1, [⟨envAt 20 owner, .createCampaign owner [79] [68] 1 3 100, replies⟩]⟩, ⟨1, []⟩, ⟨1, []⟩]

theorem Sample.walk_rounds :
    walk owner 0 (runFrom 0 (history.take 1)) rounds = ([1, 2], true) := by
  have h := reachable_take 1
  rw [walk_eq_visited h.accounted h.listed (by decide)]
  decide +kernel

/-- The walk sees the campaign it started with, and meets an empty page after the new one. -/
theorem owner_index_sample :
    walk Sample.owner 0 (runFrom 0 (Sample.history.take 1)) Sample.rounds = ([1, 2], true) ∧
      ∃ ids, campaignsOf Sample.owner (runFrom 0 (Sample.history.take 1)) = .ok ids ∧
        ids <+: (walk Sample.owner 0 (runFrom 0 (Sample.history.take 1)) Sample.rounds).1 := by
  obtain ⟨ids, hids, -, -, -, -, -, hwalk⟩ :=
    owner_index (Sample.reachable_take 1) Sample.owner
  refine ⟨Sample.walk_rounds, ids, hids, (hwalk Sample.rounds (by decide)).2 (Or.inl ?_)⟩
  rw [Sample.walk_rounds]

end Soroticket
