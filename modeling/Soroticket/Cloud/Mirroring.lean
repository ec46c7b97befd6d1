import Soroticket.Cloud.Counters

/-!
# What the tables lack of the chain

What the tables lack of the coupons of a campaign is what the holder of the client of its account
owes it (`Tracked`, `Bookkept`), and nobody owes anything who does not hold the client. A call of
the contract adds to a debt (`Tracked.issue`, `Tracked.burn`) or leaves the campaign as it is
(`Tracked.kept`), and a statement of the database pays some of it.
-/

namespace Soroticket

open Programs Interleaving

variable {d : Deployment} {reg : Registry d}

/-! ### What the tables lack -/

/-- The codes of a campaign in the table, and those that are owed to it. -/
def CodeWorld.known (w : CodeWorld) (c : CampaignRow) (o : Debt) : List Bytes :=
  (w.codes c.id).map (fun row ↦ utf8 row.code) ++ o.rows.map Prod.fst

/-- What the tables lack of the coupons of a campaign is what is owed to it. -/
structure Tracked (w : CodeWorld) (c : CampaignRow) (o : Debt) : Prop where
  figures : ∃ camp, w.chain.storage.campaign c.chainID = some camp ∧
    camp.minted.toNat = w.minted c.id + o.count ∧
    camp.minted.toNat = (w.known c o).length ∧
    camp.burned.toNat = w.burned c.id + o.burns ∧
    camp.burned.toNat = (w.codes c.id).countP (·.redeemed) + o.code.toList.length
  nodup : (w.known c o).Nodup
  complete : ∀ code t, w.chain.storage.codeIndex (c.chainID, code) = some t → code ∈ w.known c o
  row : ∀ row ∈ w.codes c.id, ∃ t, row.tokenID = some t ∧
    w.chain.storage.codeIndex (c.chainID, utf8 row.code) = some t ∧
    (row.redeemed = true → ∀ tok, w.chain.storage.token t = some tok → tok.isBurned = true)
  owed : ∀ x ∈ o.rows, w.chain.storage.codeIndex (c.chainID, x.1) = some x.2
  unmarked : ∀ code, o.code = some code →
    (∃ row ∈ w.codes c.id, utf8 row.code = code ∧ row.redeemed = false) ∧
      ∀ t tok, w.chain.storage.codeIndex (c.chainID, code) = some t →
        w.chain.storage.token t = some tok → tok.isBurned = true

/-- Two worlds that differ in the tables of one campaign alone. -/
structure SameElsewhere (id : ℕ) (w w' : CodeWorld) : Prop where
  codes : ∀ i ≠ id, w'.codes i = w.codes i
  minted : ∀ i ≠ id, w'.minted i = w.minted i
  burned : ∀ i ≠ id, w'.burned i = w.burned i
  chain : w'.chain = w.chain
  locked : w'.locked = w.locked

namespace SameElsewhere

variable {id : ℕ} {w w₁ w₂ : CodeWorld}

theorem refl (id : ℕ) (w : CodeWorld) : SameElsewhere id w w :=
  ⟨fun _ _ ↦ rfl, fun _ _ ↦ rfl, fun _ _ ↦ rfl, rfl, rfl⟩

theorem trans (h : SameElsewhere id w w₁) (h' : SameElsewhere id w₁ w₂) :
    SameElsewhere id w w₂ where
  codes i hi := (h'.codes i hi).trans (h.codes i hi)
  minted i hi := (h'.minted i hi).trans (h.minted i hi)
  burned i hi := (h'.burned i hi).trans (h.burned i hi)
  chain := h'.chain.trans h.chain
  locked := h'.locked.trans h.locked

theorem of_insert? {row : IssuedCode} {w' : CodeWorld} (h : w.insert? id row = some w') :
    SameElsewhere id w w' := by
  rw [CodeWorld.insert?] at h
  split at h
  · exact absurd h.symm (Option.some_ne_none w')
  · obtain rfl := Option.some.inj h
    exact { refl id w with codes := fun _ hi ↦ Function.update_of_ne hi _ _ }

theorem addMinted (w : CodeWorld) (id n : ℕ) : SameElsewhere id w (w.addMinted id n) :=
  { refl id w with minted := fun _ hi ↦ Function.update_of_ne hi _ _ }

theorem redeemCode (w : CodeWorld) (id : ℕ) (code : String) :
    SameElsewhere id w (w.redeemCode id code) :=
  { refl id w with codes := fun _ hi ↦ Function.update_of_ne hi _ _ }

theorem addBurned (w : CodeWorld) (id : ℕ) : SameElsewhere id w (w.addBurned id) :=
  { refl id w with burned := fun _ hi ↦ Function.update_of_ne hi _ _ }

end SameElsewhere

namespace Tracked

variable {w w' : CodeWorld} {c : CampaignRow} {o : Debt}

/-- What is tracked of a campaign are its rows, its counters and the contract. -/
theorem congr (h : Tracked w c o) (hcodes : w'.codes c.id = w.codes c.id)
    (hminted : w'.minted c.id = w.minted c.id) (hburned : w'.burned c.id = w.burned c.id)
    (hchain : w'.chain = w.chain) : Tracked w' c o := by
  have hknown : w'.known c o = w.known c o := by rw [CodeWorld.known, hcodes, CodeWorld.known]
  obtain ⟨hfigures, hnodup, hcomplete, hrow, howed, hunmarked⟩ := h
  rw [← hknown, ← hcodes, ← hminted, ← hburned, ← hchain] at hfigures
  rw [← hknown, ← hchain] at hcomplete
  rw [← hcodes, ← hchain] at hrow hunmarked
  exact ⟨hfigures, hknown ▸ hnodup, hcomplete, hrow, hchain ▸ howed, hunmarked⟩

/-- A campaign is tracked whatever is written in the tables of another. -/
theorem elsewhere (h : Tracked w c o) {id : ℕ} (hw : SameElsewhere id w w') (hid : c.id ≠ id) :
    Tracked w' c o :=
  h.congr (hw.codes _ hid) (hw.minted _ hid) (hw.burned _ hid) hw.chain

/-- A row that is owed is new to the table. -/
theorem insert (h : Tracked w c o) {row : IssuedCode} {t : UInt64} {rest : List (Bytes × UInt64)}
    (hrows : o.rows = (utf8 row.code, t) :: rest) (ht : row.tokenID = some t) :
    ∃ w', w.insert? c.id row = some w' ∧ Tracked w' c { o with rows := rest } := by
  have hnew : ∀ x ∈ w.codes c.id, x.code ≠ row.code := by
    intro x hx hcode
    have hdisjoint := List.nodup_append.1 h.nodup
    refine hdisjoint.2.2 _ (List.mem_map_of_mem hx) (utf8 row.code) ?_ (congrArg utf8 hcode)
    rw [hrows]
    exact List.mem_cons_self
  have hinsert : w.insert? c.id row = some { w with
      codes := Function.update w.codes c.id
        (w.codes c.id ++ [⟨row.code, row.tokenID, false⟩]) } := by
    rw [CodeWorld.insert?, if_neg]
    simpa using hnew
  refine ⟨_, hinsert, ?_⟩
  set w' : CodeWorld := { w with
    codes := Function.update w.codes c.id (w.codes c.id ++ [⟨row.code, row.tokenID, false⟩]) }
  have hcodes : w'.codes c.id = w.codes c.id ++ [⟨row.code, row.tokenID, false⟩] :=
    Function.update_self ..
  have hknown : w'.known c { o with rows := rest } = w.known c o := by
    rw [CodeWorld.known, hcodes, CodeWorld.known, hrows, List.map_append, List.append_assoc]
    rfl
  obtain ⟨⟨camp, hcamp, hminted, hlength, hburned, hredeemed⟩, hnodup, hcomplete, hrow, howed,
    hunmarked⟩ := h
  refine ⟨⟨camp, hcamp, hminted, hknown ▸ hlength, hburned, ?_⟩, hknown ▸ hnodup,
    hknown ▸ hcomplete, fun x hx ↦ ?_, fun x hx ↦ ?_, fun code hcode ↦ ?_⟩
  · rw [hcodes, List.countP_append]
    exact hredeemed
  · rw [hcodes, List.mem_append, List.mem_singleton] at hx
    rcases hx with hx | rfl
    · exact hrow x hx
    · exact ⟨t, ht, howed _ (hrows ▸ List.mem_cons_self), fun h ↦ absurd h Bool.false_ne_true⟩
  · exact howed x (hrows ▸ List.mem_cons_of_mem _ hx)
  · obtain ⟨⟨x, hx, hxcode⟩, hburnt⟩ := hunmarked code hcode
    exact ⟨⟨x, hcodes ▸ List.mem_append_left _ hx, hxcode⟩, hburnt⟩

theorem addMinted (h : Tracked w c o) :
    Tracked (w.addMinted c.id o.count) c { o with count := 0 } := by
  obtain ⟨⟨camp, hcamp, hminted, hlength, hburned, hredeemed⟩, hnodup, hcomplete, hrow, howed,
    hunmarked⟩ := h
  refine ⟨⟨camp, hcamp, ?_, hlength, hburned, hredeemed⟩, hnodup, hcomplete, hrow, howed, hunmarked⟩
  rw [hminted, CodeWorld.addMinted]
  dsimp only
  rw [Function.update_self, add_zero]

theorem addBurned (h : Tracked w c o) (hburns : o.burns = 1) :
    Tracked (w.addBurned c.id) c { o with burns := 0 } := by
  obtain ⟨⟨camp, hcamp, hminted, hlength, hburned, hredeemed⟩, hnodup, hcomplete, hrow, howed,
    hunmarked⟩ := h
  refine ⟨⟨camp, hcamp, hminted, hlength, ?_, hredeemed⟩, hnodup, hcomplete, hrow, howed, hunmarked⟩
  rw [hburned, hburns, CodeWorld.addBurned]
  dsimp only
  rw [Function.update_self, add_zero]

/-- One more row is redeemed. -/
theorem countP_redeemed {rows : List IndexedCode} {row : IndexedCode}
    (hnodup : (rows.map fun row ↦ utf8 row.code).Nodup) (hmem : row ∈ rows)
    (hfresh : row.redeemed = false) :
    (rows.map fun x ↦ if x.code = row.code then { x with redeemed := true } else x).countP
      (·.redeemed) = rows.countP (·.redeemed) + 1 := by
  induction rows with
  | nil => exact absurd hmem List.not_mem_nil
  | cons x rows ih =>
    obtain ⟨hx, hrows⟩ := List.nodup_cons.1 hnodup
    rw [List.map_cons]
    rcases List.mem_cons.1 hmem with rfl | hmem
    · have hsame : rows.map (fun x ↦ if x.code = row.code then { x with redeemed := true } else x) =
          rows := by
        refine (List.map_congr_left fun y hy ↦ if_neg fun hcode ↦ ?_).trans (List.map_id rows)
        exact hx (List.mem_map.2 ⟨y, hy, congrArg utf8 hcode⟩)
      rw [hsame, if_pos rfl, List.countP_cons_of_pos rfl,
        List.countP_cons_of_neg (by simp [hfresh])]
    · have hne : x.code ≠ row.code := fun hcode ↦
        hx (List.mem_map.2 ⟨row, hmem, congrArg utf8 hcode.symm⟩)
      rw [if_neg hne]
      rcases hredeemed : x.redeemed with - | -
      · rw [List.countP_cons_of_neg (by simp [hredeemed]), ih hrows hmem,
          List.countP_cons_of_neg (by simp [hredeemed])]
      · rw [List.countP_cons_of_pos hredeemed, ih hrows hmem, List.countP_cons_of_pos hredeemed]

/-- A code that was redeemed is marked. -/
theorem redeemCode (h : Tracked w c o) {code : String} (hcode : o.code = some (utf8 code)) :
    Tracked (w.redeemCode c.id code) c { o with code := none } := by
  obtain ⟨⟨camp, hcamp, hminted, hlength, hburned, hredeemed⟩, hnodup, hcomplete, hrow, howed,
    hunmarked⟩ := h
  obtain ⟨⟨row, hmem, hutf8, hfresh⟩, hburnt⟩ := hunmarked _ hcode
  obtain rfl : row.code = code := utf8_inj hutf8
  have hcodes : (w.redeemCode c.id row.code).codes c.id = (w.codes c.id).map fun x ↦
      if x.code = row.code then { x with redeemed := true } else x := Function.update_self ..
  have htext : ∀ x : IndexedCode,
      (if x.code = row.code then { x with redeemed := true } else x).code = x.code := by
    intro x
    split
    · rfl
    · rfl
  have hknown : (w.redeemCode c.id row.code).known c { o with code := none } = w.known c o := by
    rw [CodeWorld.known, hcodes, List.map_map, CodeWorld.known]
    congr 1
    exact List.map_congr_left fun x _ ↦ congrArg utf8 (htext x)
  refine ⟨⟨camp, hcamp, hminted, hknown ▸ hlength, hburned, ?_⟩, hknown ▸ hnodup,
    hknown ▸ hcomplete, fun x hx ↦ ?_, howed, fun _ h ↦ absurd h.symm (Option.some_ne_none _)⟩
  · rw [hcodes, countP_redeemed (List.nodup_append.1 hnodup).1 hmem hfresh, hredeemed, hcode]
    rfl
  · rw [hcodes] at hx
    obtain ⟨y, hy, rfl⟩ := List.mem_map.1 hx
    obtain ⟨t, ht, hindex, hmarked⟩ := hrow y hy
    rw [htext y]
    split
    · rename_i heq
      exact ⟨t, ht, hindex, fun _ tok htok ↦ hburnt t tok (heq ▸ hindex) htok⟩
    · exact ⟨t, ht, hindex, hmarked⟩

/-- The rewards of a punch are stored, and counted. -/
theorem storeRewards (h : Tracked w c o) {issued : List IssuedCode}
    (hcount : o.count = issued.length)
    (hrows : codeRows issued = o.rows.map fun x ↦ (x.1, some x.2)) :
    ∃ w', w.storeRewards c.id issued = some w' ∧ Tracked w' c { o with rows := [], count := 0 } ∧
      SameElsewhere c.id w w' := by
  have hinsert : ∃ w', issued.foldlM (fun w row ↦ CodeWorld.insert? w c.id row) w = some w' ∧
      Tracked w' c { o with rows := [] } ∧ SameElsewhere c.id w w' := by
    clear hcount
    induction issued generalizing w o with
    | nil =>
      have hnil : o.rows = [] := List.map_eq_nil_iff.1 hrows.symm
      exact ⟨w, rfl, by rwa [← hnil], .refl c.id w⟩
    | cons row issued ih =>
      rcases ho : o.rows with - | ⟨⟨code, t⟩, rest⟩
      · rw [ho] at hrows
        exact absurd hrows (List.cons_ne_nil _ _)
      · rw [ho, List.map_cons, codeRows, List.map_cons] at hrows
        obtain ⟨hhead, hrest⟩ := List.cons.inj hrows
        obtain ⟨rfl, hid⟩ := Prod.mk.inj hhead
        obtain ⟨w₁, hw₁, htracked⟩ := h.insert ho hid
        obtain ⟨w₂, hw₂, htracked₂, hsame⟩ := ih htracked hrest
        refine ⟨w₂, ?_, htracked₂, (SameElsewhere.of_insert? hw₁).trans hsame⟩
        rw [List.foldlM_cons, hw₁]
        exact hw₂
  obtain ⟨w', hw', htracked, hsame⟩ := hinsert
  refine ⟨w'.addMinted c.id issued.length, ?_, ?_, hsame.trans (.addMinted w' c.id _)⟩
  · rw [CodeWorld.storeRewards, hw']
    rfl
  · rw [← hcount]
    exact htracked.addMinted

/-! ### Calls -/

variable {s' : ContractState}

/-- A call that is not for the codes of a campaign leaves it tracked. -/
theorem kept (h : Tracked w c o) (hf : Filed w.chain.storage)
    (hkept : CouponsKept c.chainID w.chain.storage s'.storage) :
    Tracked { w with chain := s' } c o := by
  obtain ⟨⟨camp, hcamp, hfigures⟩, hnodup, hcomplete, hrow, howed, hunmarked⟩ := h
  -- a coupon of the campaign is what it was
  have htoken : ∀ {code t tok}, w.chain.storage.codeIndex (c.chainID, code) = some t →
      s'.storage.token t = some tok → w.chain.storage.token t = some tok := by
    intro code t tok hindex htok
    obtain ⟨old, hold, hc, -⟩ := hf.index_filed _ _ _ hindex
    rwa [hkept.token t old hold hc, ← hold] at htok
  refine ⟨⟨camp, hkept.campaign.trans hcamp, hfigures⟩, hnodup, fun code t ht ↦ ?_, fun x hx ↦ ?_,
    fun x hx ↦ (hkept.codeIndex _).trans (howed x hx), fun code hcode ↦ ?_⟩
  · exact hcomplete code t ((hkept.codeIndex code).symm.trans ht)
  · obtain ⟨t, ht, hindex, hmarked⟩ := hrow x hx
    exact ⟨t, ht, (hkept.codeIndex _).trans hindex, fun hredeemed tok htok ↦
      hmarked hredeemed tok (htoken hindex htok)⟩
  · refine (hunmarked code hcode).imp_right fun hburnt t tok hindex htok ↦ ?_
    have hold := (hkept.codeIndex code).symm.trans hindex
    exact hburnt t tok hold (htoken hold htok)

/-- A batch that is taken is owed. -/
theorem issue (h : Tracked w c o) (hf : Filed w.chain.storage) (hrows : o.rows = [])
    (hcode : o.code = none) {codes : List Bytes} {ids : List UInt64}
    (hissues : Issues c.chainID codes ids w.chain.storage s'.storage) :
    Tracked { w with chain := s' } c
      { o with rows := codes.zip ids, count := o.count + codes.length } := by
  obtain ⟨⟨camp, hcamp, hminted, hlength, hburned, hredeemed⟩, hnodup, hcomplete, hrow, howed,
    hunmarked⟩ := h
  obtain ⟨camp₀, camp', hcamp₀, hcamp', hminted', hburned'⟩ := hissues.campaign
  obtain rfl := Option.some.inj (hcamp₀.symm.trans hcamp)
  have hzip : (codes.zip ids).map Prod.fst = codes :=
    List.map_fst_zip (le_of_eq hissues.length.symm)
  have hknown : CodeWorld.known { w with chain := s' } c
      { o with rows := codes.zip ids, count := o.count + codes.length } = w.known c o ++ codes := by
    rw [CodeWorld.known, hzip, CodeWorld.known, hrows, List.map_nil, List.append_nil]
  -- a code that is known leads to its coupon, and those of the batch led nowhere
  have hold : ∀ code ∈ w.known c o, w.chain.storage.codeIndex (c.chainID, code) ≠ none := by
    intro code hcode
    rw [CodeWorld.known, hrows, List.map_nil, List.append_nil] at hcode
    obtain ⟨row, hmem, rfl⟩ := List.mem_map.1 hcode
    obtain ⟨t, -, hindex, -⟩ := hrow row hmem
    exact fun hnone ↦ absurd (hindex.symm.trans hnone) (Option.some_ne_none t)
  refine ⟨⟨camp', hcamp', ?_, ?_, ?_, ?_⟩, ?_, fun code t ht ↦ ?_, fun x hx ↦ ?_, hissues.index,
    fun code h ↦ absurd (h.symm.trans hcode) (Option.some_ne_none code)⟩
  · rw [hminted', hminted, add_assoc]
  · rw [hknown, List.length_append, hminted', hlength]
  · rw [hburned', hburned]
  · rw [hburned', hredeemed]
  · rw [hknown]
    refine List.nodup_append.2 ⟨hnodup, hissues.nodup, fun code hcode code' hcode' heq ↦ ?_⟩
    exact hold code hcode (heq ▸ hissues.free code' hcode')
  · rw [hknown, List.mem_append]
    exact (hissues.origin code t ht).imp_left (hcomplete code t)
  · obtain ⟨t, ht, hindex, hmarked⟩ := hrow x hx
    refine ⟨t, ht, hissues.kept _ t hindex, fun hredeemed tok htok ↦ ?_⟩
    obtain ⟨old, hold, -, -⟩ := hf.index_filed _ _ _ hindex
    obtain rfl := Option.some.inj ((hissues.token t old hold).symm.trans htok)
    exact hmarked hredeemed old hold

/-- A code that is burned is owed. -/
theorem burn (h : Tracked w c o) (hnone : o = Debt.none) {code : Bytes}
    (hburns : Burns c.chainID code w.chain.storage s'.storage) :
    Tracked { w with chain := s' } c { o with code := some code, burns := 1 } := by
  subst hnone
  obtain ⟨⟨camp, hcamp, hminted, hlength, hburned, hredeemed⟩, hnodup, hcomplete, hrow, howed,
    hunmarked⟩ := h
  obtain ⟨camp₀, camp', hcamp₀, hcamp', hminted', hburned'⟩ := hburns.campaign
  obtain rfl := Option.some.inj (hcamp₀.symm.trans hcamp)
  obtain ⟨t, tok, tok', hindex, htok, hunburned, htoken, hburned''⟩ := hburns.coupon
  -- a coupon is what it was, or burned
  have hcoupon : ∀ {u tok₁}, s'.storage.token u = some tok₁ →
      tok₁.isBurned = true ∨ w.chain.storage.token u = some tok₁ := by
    intro u tok₁ h
    rw [htoken] at h
    rcases eq_or_ne u t with rfl | hne
    · rw [Function.update_self] at h
      exact .inl (Option.some.inj h ▸ hburned'')
    · rw [Function.update_of_ne hne] at h
      exact .inr h
  refine ⟨⟨camp', hcamp', hminted'.symm ▸ hminted, hminted'.symm ▸ hlength, ?_, ?_⟩, hnodup,
    fun code t ht ↦ hcomplete code t (hburns.codeIndex ▸ ht), fun x hx ↦ ?_,
    fun x hx ↦ absurd hx List.not_mem_nil, fun code' hcode' ↦ ⟨?_, fun u tok₁ hu htok₁ ↦ ?_⟩⟩
  · rw [hburned', hburned]
    rfl
  · rw [hburned', hredeemed]
    rfl
  · obtain ⟨u, hu, huindex, hmarked⟩ := hrow x hx
    refine ⟨u, hu, hburns.codeIndex.symm ▸ huindex, fun hredeemed tok₁ htok₁ ↦ ?_⟩
    exact (hcoupon htok₁).elim id (hmarked hredeemed tok₁)
  · obtain rfl := Option.some.inj hcode'
    obtain ⟨row, hmem, hrowcode⟩ : ∃ row ∈ w.codes c.id, utf8 row.code = code := by
      have hmem := hcomplete code t hindex
      rw [CodeWorld.known, Debt.none, List.map_nil, List.append_nil] at hmem
      exact List.mem_map.1 hmem
    refine ⟨row, hmem, hrowcode, ?_⟩
    by_contra hmarked
    obtain ⟨u, -, huindex, hburnt⟩ := hrow row hmem
    rw [hrowcode] at huindex
    obtain rfl := Option.some.inj (huindex.symm.trans hindex)
    rw [hburnt (Bool.not_eq_false _ ▸ hmarked) tok htok] at hunburned
    exact Bool.false_ne_true hunburned.symm
  · obtain rfl := Option.some.inj hcode'
    obtain rfl : u = t := Option.some.inj ((hburns.codeIndex ▸ hu : _).symm.trans hindex)
    rw [htoken, Function.update_self] at htok₁
    exact Option.some.inj htok₁ ▸ hburned''

end Tracked

/-! ### Who owes what -/

/-- What a request owes a campaign. -/
def Owing.debtFor (g : Owing) (c : CampaignRow) : Debt :=
  if g.chainID = c.chainID then g.debt else Debt.none

/-- What is owed to a campaign: what the holder of its client owes it. -/
def owedTo (holder : AuthCtx → Option ℕ) (gs : ℕ → Owing) (c : CampaignRow) : Debt :=
  (holder c.account).elim Debt.none fun i ↦ (gs i).debtFor c

/-- The clients are held as the requests say, only who holds a client owes anything, and what the
tables lack of a campaign is what is owed to it. -/
structure Bookkept (reg : Registry d) (holder : AuthCtx → Option ℕ) (w : CodeWorld)
    (gs : ℕ → Owing) : Prop where
  accounted : Accounted w.chain.storage
  locked : ∀ a, w.locked a = (holder a).isSome
  holds : ∀ i a, (gs i).client = some a ↔ holder a = some i
  debtor : ∀ i, (gs i).debt ≠ Debt.none →
    ∃ c, Current reg c ∧ c.chainID = (gs i).chainID ∧ (gs i).client = some c.account
  tracked : ∀ c, Current reg c → Tracked w c (owedTo holder gs c)

theorem Owing.debtFor_none {g : Owing} (h : g.debt = Debt.none) (c : CampaignRow) :
    g.debtFor c = Debt.none := by
  rw [Owing.debtFor, h, ite_self]

theorem Current.eq_of_chainID {c c' : CampaignRow} (h : Current reg c) (h' : Current reg c')
    (heq : c.chainID = c'.chainID) : c = c' := reg.chain_key c h.1 c' h'.1 h.2 h'.2 heq

theorem Current.eq_of_id {c c' : CampaignRow} (h : Current reg c) (h' : Current reg c')
    (heq : c.id = c'.id) : c = c' := reg.campaign_key c h.1 c' h'.1 heq

namespace Bookkept

variable {holder : AuthCtx → Option ℕ} {w w' : CodeWorld} {gs : ℕ → Owing} {i : ℕ} {g' : Owing}

/-- **One request changes what it owes one campaign.** -/
theorem change (h : Bookkept reg holder w gs) {c : CampaignRow} (hc : Current reg c)
    (hclient : (gs i).client = some c.account)
    (hdebt : (gs i).chainID ≠ c.chainID → (gs i).debt = Debt.none)
    (haccounted : Accounted w'.chain.storage) (hlocked : w'.locked = w.locked)
    (hclient' : g'.client = (gs i).client) (hchain' : g'.chainID = c.chainID)
    (htracked : Tracked w c (gs i).debt → Tracked w' c g'.debt)
    (hothers : ∀ c', Current reg c' → c' ≠ c → ∀ o, Tracked w c' o → Tracked w' c' o) :
    Bookkept reg holder w' (Function.update gs i g') where
  accounted := haccounted
  locked a := hlocked ▸ h.locked a
  holds j a := by
    rcases eq_or_ne j i with rfl | hne
    · rw [Function.update_self, hclient']
      exact h.holds j a
    · rw [Function.update_of_ne hne]
      exact h.holds j a
  debtor j hj := by
    rcases eq_or_ne j i with rfl | hne
    · rw [Function.update_self]
      exact ⟨c, hc, hchain'.symm, hclient'.trans hclient⟩
    · rw [Function.update_of_ne hne] at hj ⊢
      exact h.debtor j hj
  tracked c' hc' := by
    have hbefore := h.tracked c' hc'
    rcases eq_or_ne c' c with rfl | hne
    · have hholder : holder c'.account = some i := (h.holds i _).1 hclient
      have howed : (gs i).debtFor c' = (gs i).debt := by
        rw [Owing.debtFor]
        split
        · rfl
        · rename_i hchain
          exact (hdebt hchain).symm
      rw [owedTo, hholder, Option.elim_some, howed] at hbefore
      rw [owedTo, hholder, Option.elim_some, Function.update_self, Owing.debtFor, if_pos hchain']
      exact htracked hbefore
    · have hchain : c.chainID ≠ c'.chainID := fun heq ↦ hne (hc'.eq_of_chainID hc heq.symm)
      have hsame : owedTo holder (Function.update gs i g') c' = owedTo holder gs c' := by
        rcases hholder : holder c'.account with - | j
        · rw [owedTo, owedTo, hholder]
          rfl
        · rw [owedTo, owedTo, hholder, Option.elim_some, Option.elim_some]
          rcases eq_or_ne j i with rfl | hji
          · rw [Function.update_self, Owing.debtFor, if_neg (hchain' ▸ hchain), Owing.debtFor]
            split
            · rename_i heq
              exact (hdebt fun h ↦ hchain (h.symm.trans heq)).symm
            · rfl
          · rw [Function.update_of_ne hji]
      rw [hsame]
      exact hothers c' hc' hne _ hbefore

/-- A request writes in the tables of the campaign it owes. -/
theorem write (h : Bookkept reg holder w gs) {id : ℕ} (howes : (gs i).Owes reg id)
    (hdebt : (gs i).debt ≠ Debt.none) (hw : SameElsewhere id w w')
    (hclient' : g'.client = (gs i).client) (hchain' : g'.chainID = (gs i).chainID)
    (htracked : ∀ c : CampaignRow, c.id = id → Tracked w c (gs i).debt → Tracked w' c g'.debt) :
    Bookkept reg holder w' (Function.update gs i g') := by
  obtain ⟨c, hc, hchain, hid⟩ := howes
  obtain ⟨c', hc', hchain₁, hclient⟩ := h.debtor i hdebt
  obtain rfl := hc'.eq_of_chainID hc (hchain₁.trans hchain.symm)
  refine h.change hc hclient (fun hne ↦ absurd hchain.symm hne) (hw.chain.symm ▸ h.accounted)
    hw.locked hclient' (hchain'.trans hchain.symm) (htracked c' hid) fun c₂ hc₂ hne o ho ↦ ?_
  exact ho.elsewhere hw fun heq ↦ hne (hc₂.eq_of_id hc (heq.trans hid.symm))

/-- A request takes a client that is free. -/
theorem take (h : Bookkept reg holder w gs) {a : AuthCtx} (hfree : w.locked a = false)
    (hnone : (gs i).client = none) :
    Bookkept reg (Function.update holder a (some i)) (w.setLocked a true)
      (Function.update gs i { gs i with client := some a }) := by
  have hholder : holder a = none := by
    rw [← Option.isNone_iff_eq_none, ← Option.not_isSome, ← h.locked a, hfree]
    rfl
  have hdebt : (gs i).debt = Debt.none := by
    by_contra hdebt
    obtain ⟨c, -, -, hclient⟩ := h.debtor i hdebt
    exact absurd (hclient.symm.trans hnone) (Option.some_ne_none _)
  have hi : ∀ b, holder b ≠ some i := fun b hb ↦
    absurd (((h.holds i b).2 hb).symm.trans hnone) (Option.some_ne_none b)
  refine ⟨h.accounted, fun b ↦ ?_, fun j b ↦ ?_, fun j hj ↦ ?_, fun c hc ↦ ?_⟩
  · rw [CodeWorld.setLocked]
    dsimp only
    rcases eq_or_ne b a with rfl | hb
    · rw [Function.update_self, Function.update_self, Option.isSome_some]
    · rw [Function.update_of_ne hb, Function.update_of_ne hb]
      exact h.locked b
  · rcases eq_or_ne j i with rfl | hj
    · rw [Function.update_self]
      rcases eq_or_ne b a with rfl | hb
      · rw [Function.update_self]
        exact iff_of_true rfl rfl
      · rw [Function.update_of_ne hb]
        exact iff_of_false (fun heq ↦ hb (Option.some.inj heq).symm) (hi b)
    · rw [Function.update_of_ne hj, h.holds j b]
      rcases eq_or_ne b a with rfl | hb
      · rw [Function.update_self, hholder]
        exact iff_of_false (Option.some_ne_none j).symm fun heq ↦ hj (Option.some.inj heq).symm
      · rw [Function.update_of_ne hb]
  · rcases eq_or_ne j i with rfl | hne
    · rw [Function.update_self] at hj
      exact absurd hdebt hj
    · rw [Function.update_of_ne hne] at hj ⊢
      exact h.debtor j hj
  · have hsame : owedTo (Function.update holder a (some i))
        (Function.update gs i { gs i with client := some a }) c = owedTo holder gs c := by
      rw [owedTo, owedTo]
      rcases eq_or_ne c.account a with ha | ha
      · rw [ha, Function.update_self, hholder, Option.elim_some, Option.elim_none,
          Function.update_self]
        exact Owing.debtFor_none hdebt c
      · rw [Function.update_of_ne ha]
        rcases hj : holder c.account with - | j
        · rfl
        · have hne : j ≠ i := fun heq ↦ hi c.account (heq ▸ hj)
          rw [Option.elim_some, Option.elim_some, Function.update_of_ne hne]
    rw [hsame]
    exact (h.tracked c hc).congr rfl rfl rfl rfl

/-- A request that owes nothing gives its client back. -/
theorem giveBack (h : Bookkept reg holder w gs) {a : AuthCtx} (hclient : (gs i).client = some a)
    (hdebt : (gs i).debt = Debt.none) :
    Bookkept reg (Function.update holder a none) (w.setLocked a false)
      (Function.update gs i { gs i with client := none }) := by
  have hholder : holder a = some i := (h.holds i a).1 hclient
  have hi : ∀ b, holder b = some i → b = a := fun b hb ↦
    Option.some.inj (((h.holds i b).2 hb).symm.trans hclient)
  refine ⟨h.accounted, fun b ↦ ?_, fun j b ↦ ?_, fun j hj ↦ ?_, fun c hc ↦ ?_⟩
  · rw [CodeWorld.setLocked]
    dsimp only
    rcases eq_or_ne b a with rfl | hb
    · rw [Function.update_self, Function.update_self]
      rfl
    · rw [Function.update_of_ne hb, Function.update_of_ne hb]
      exact h.locked b
  · rcases eq_or_ne j i with rfl | hj
    · rw [Function.update_self]
      refine iff_of_false (Option.some_ne_none b).symm fun heq ↦ ?_
      rcases eq_or_ne b a with rfl | hb
      · rw [Function.update_self] at heq
        exact absurd heq.symm (Option.some_ne_none j)
      · rw [Function.update_of_ne hb] at heq
        exact hb (hi b heq)
    · rw [Function.update_of_ne hj, h.holds j b]
      rcases eq_or_ne b a with rfl | hb
      · rw [Function.update_self, hholder]
        exact iff_of_false (fun heq ↦ hj (Option.some.inj heq).symm) (Option.some_ne_none j).symm
      · rw [Function.update_of_ne hb]
  · rcases eq_or_ne j i with rfl | hne
    · rw [Function.update_self] at hj
      exact absurd hdebt hj
    · rw [Function.update_of_ne hne] at hj ⊢
      exact h.debtor j hj
  · have hsame : owedTo (Function.update holder a none)
        (Function.update gs i { gs i with client := none }) c = owedTo holder gs c := by
      rw [owedTo, owedTo]
      rcases eq_or_ne c.account a with ha | ha
      · rw [ha, Function.update_self, hholder, Option.elim_some, Option.elim_none]
        exact (Owing.debtFor_none hdebt c).symm
      · rw [Function.update_of_ne ha]
        rcases hj : holder c.account with - | j
        · rfl
        · have hne : j ≠ i := fun heq ↦ ha (hi c.account (heq ▸ hj))
          rw [Option.elim_some, Option.elim_some, Function.update_of_ne hne]
    rw [hsame]
    exact (h.tracked c hc).congr rfl rfl rfl rfl

end Bookkept

end Soroticket
