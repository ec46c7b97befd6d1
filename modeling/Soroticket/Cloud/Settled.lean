import Soroticket.Cloud.Mirrored
import Soroticket.Cloud.Settling
import Soroticket.Cloud.Steps

/-!
# Truthful bookkeeping

What the table says of a period is so on the chain (`TruthfulRows`), and what a request has seen of
the chain stays so (`Dealing.Accurate`): a period is committed and settled once, so neither its
amount nor who has settled it changes. One question keeps both (`TruthfulRows.answered`), whoever
else acts in between, and no row loses the transaction or the amount it has (`PayWorld.Later`).
-/

namespace Soroticket

open Programs Interleaving

variable {d : Deployment} {reg : Registry d} {τ : Type} {T : Tokens τ}

/-! ### Later worlds -/

/-- What becomes of a row: it may be settled, and keeps the transaction and the amount it has. -/
structure SettlementRow.Later (row row' : SettlementRow) : Prop where
  tally : row'.toTallyRow = row.toTallyRow
  settled : row.settled = true → row'.settled = true
  settleTx : ∀ txHash, row.settleTx = some txHash → row'.settleTx = some txHash
  payoutAmount : ∀ amount, row.payoutAmount = some amount → row'.payoutAmount = some amount

theorem SettlementRow.Later.refl (row : SettlementRow) : row.Later row :=
  ⟨rfl, id, fun _ ↦ id, fun _ ↦ id⟩

theorem SettlementRow.Later.trans {row row' row'' : SettlementRow} (h : row.Later row')
    (h' : row'.Later row'') : row.Later row'' :=
  ⟨h'.tally.trans h.tally, h'.settled ∘ h.settled, fun _ ↦ h'.settleTx _ ∘ h.settleTx _,
    fun _ ↦ h'.payoutAmount _ ∘ h.payoutAmount _⟩

namespace PayWorld

/-- What becomes of the rows, the chain and the list of who has settled what. -/
structure Later (w w' : PayWorld τ) : Prop where
  chain : Soroticket.Later w.chain.storage w'.chain.storage
  settlers : w.settlers <+: w'.settlers
  row : ∀ (i : ℕ) (row : SettlementRow), w.tallies[i]? = some row →
    ∃ row', w'.tallies[i]? = some row' ∧ row.Later row'

theorem Later.refl (w : PayWorld τ) : w.Later w :=
  ⟨.refl _, List.prefix_rfl, fun _ row h ↦ ⟨row, h, .refl row⟩⟩

theorem Later.trans {w w₁ w₂ : PayWorld τ} (h : w.Later w₁) (h' : w₁.Later w₂) : w.Later w₂ where
  chain := h.chain.trans h'.chain
  settlers := h.settlers.trans h'.settlers
  row i row hrow := by
    obtain ⟨row₁, hrow₁, hlater⟩ := h.row i row hrow
    obtain ⟨row₂, hrow₂, hlater'⟩ := h'.row i row₁ hrow₁
    exact ⟨row₂, hrow₂, hlater.trans hlater'⟩

end PayWorld

/-! ### What is so -/

/-- What a row says of its period is so. -/
structure RowTruthful (w : PayWorld τ) (sc : CurrentCode reg) (row : SettlementRow) : Prop where
  tally : ∃ tally, w.chain.storage.tally (sc.period row.period) = some tally ∧
    (tally.count.toNat : ℤ) = row.count.toInt
  attributes : row.Attributes sc.row
  settled : row.settled = true → w.chain.storage.settled (sc.period row.period) ≠ none
  settleTx : ∀ txHash, row.settleTx = some txHash → row.settled = true ∧
    (sc.period row.period, some txHash) ∈ w.settlers
  together : row.payoutAmount.isSome = row.settleTx.isSome
  payoutAmount : ∀ amount, row.payoutAmount = some amount →
    OwedAt w.chain.storage (sc.period row.period) amount

/-- The table is truthful, and a period was settled by whom it is listed under. -/
structure TruthfulRows (reg : Registry d) (w : PayWorld τ) : Prop where
  accounted : Accounted w.chain.storage
  integrity : TallyIntegrity w.chain.storage
  row : ∀ row ∈ w.tallies, ∀ sc : CurrentCode reg, sc.row.id = row.sharedCodeID →
    RowTruthful w sc row
  once : (w.settlers.map Prod.fst).Nodup
  settled : ∀ k ∈ w.settlers.map Prod.fst, w.chain.storage.settled k ≠ none

/-- What a request has seen is so. -/
structure Dealing.Accurate (w : PayWorld τ) (g : Dealing) : Prop where
  token : ∀ c code token, g.token = some (c, code, token) →
    ∃ sc, w.chain.storage.shared (c, code) = some sc ∧ sc.payoutToken = some token
  amount : ∀ k total, g.amount = some (k, total) → OwedAt w.chain.storage k total
  own : ∀ k txHash total, g.own = some (k, txHash, total) → (k, some txHash) ∈ w.settlers ∧
    OwedAt w.chain.storage k total
  seen : ∀ k, g.seen = some k → w.chain.storage.settled k ≠ none
  committed : ∀ k count, g.committed = some (k, count) →
    ∃ tally, w.chain.storage.tally k = some tally ∧ tally.count = count

theorem Later.settled_ne_none {s s' : Storage} (h : Later s s') {k : PeriodKey}
    (hk : s.settled k ≠ none) : s'.settled k ≠ none := by
  obtain ⟨b, hb⟩ := Option.ne_none_iff_exists'.1 hk
  rw [h.settled k b hb]
  exact Option.some_ne_none b

/-- What is so stays so. -/
theorem RowTruthful.later {w w' : PayWorld τ} {sc : CurrentCode reg} {row : SettlementRow}
    (h : RowTruthful w sc row) (hchain : Later w.chain.storage w'.chain.storage)
    (hsettlers : w.settlers <+: w'.settlers) : RowTruthful w' sc row where
  tally := by
    obtain ⟨tally, htally, hcount⟩ := h.tally
    exact ⟨tally, hchain.tally _ _ htally, hcount⟩
  attributes := h.attributes
  settled hrow := hchain.settled_ne_none (h.settled hrow)
  settleTx txHash hrow := (h.settleTx txHash hrow).imp_right fun hmem ↦ hsettlers.subset hmem
  together := h.together
  payoutAmount amount hrow := (h.payoutAmount amount hrow).later hchain

theorem Dealing.Accurate.later {w w' : PayWorld τ} {g : Dealing} (h : g.Accurate w)
    (hw : w.Later w') : g.Accurate w' where
  token c code token hg := by
    obtain ⟨sc, hsc, htoken⟩ := h.token c code token hg
    exact ⟨sc, hw.chain.shared _ _ hsc, htoken⟩
  amount k total hg := (h.amount k total hg).later hw.chain
  own k txHash total hg := by
    obtain ⟨hmem, howed⟩ := h.own k txHash total hg
    exact ⟨hw.settlers.subset hmem, howed.later hw.chain⟩
  seen k hg := hw.chain.settled_ne_none (h.seen k hg)
  committed k count hg := by
    obtain ⟨tally, htally, hcount⟩ := h.committed k count hg
    exact ⟨tally, hw.chain.tally _ _ htally, hcount⟩

theorem Dealing.Accurate.start (w : PayWorld τ) : Dealing.start.Accurate w where
  token _ _ _ h := absurd h.symm (Option.some_ne_none _)
  amount _ _ h := absurd h.symm (Option.some_ne_none _)
  own _ _ _ h := absurd h.symm (Option.some_ne_none _)
  seen _ h := absurd h.symm (Option.some_ne_none _)
  committed _ _ h := absurd h.symm (Option.some_ne_none _)

/-! ### Transactions -/

theorem settleKey_eq_some {env : Env} {call : Call} {k : PeriodKey} :
    settleKey (env, call) = some k ↔ ∃ owner, call = .settle owner k.1 k.2.1 k.2.2 := by
  refine ⟨fun h ↦ ?_, ?_⟩
  · cases call with
    | settle owner c code period =>
      obtain rfl := Option.some.inj h
      exact ⟨owner, rfl⟩
    | _ => exact absurd h.symm (Option.some_ne_none k)
  · rintro ⟨owner, rfl⟩
    rfl

/-- A transaction is a call that the tokens answer. -/
theorem PayWorld.submit_eq_ok {w w' : PayWorld τ} {env : Env} {call : Call}
    {txHash : Option Bytes} {v : Value} (h : w.submit T env call txHash = .ok (v, w')) :
    ∃ chain books, (call.exec { env with currentContract := T.spender } w.chain).runWith T.handle
        w.books = .ok (v, chain, books) ∧
      w' = { w with
        chain
        books
        settlers := w.settlers ++ (settleKey (env, call)).toList.map (·, txHash) } := by
  rw [submit] at h
  rcases hrun : (call.exec { env with currentContract := T.spender } w.chain).runWith T.handle
    w.books with fault | ⟨v', chain, books⟩
  · rw [hrun] at h
    exact absurd h (by simp [Except.map])
  · rw [hrun] at h
    obtain ⟨rfl, rfl⟩ : v' = v ∧ _ = w' := by simpa [Except.map] using h
    exact ⟨chain, books, rfl, rfl⟩

theorem PayWorld.submit_eq_error {w : PayWorld τ} {env : Env} {call : Call}
    {txHash : Option Bytes} {fault : Fault Error} (h : w.submit T env call txHash = .error fault) :
    (call.exec { env with currentContract := T.spender } w.chain).runWith T.handle w.books =
      .error fault := by
  rw [submit] at h
  rcases hrun : (call.exec { env with currentContract := T.spender } w.chain).runWith T.handle
    w.books with fault' | r
  · rw [hrun] at h
    exact congrArg Except.error (Except.error.inj h)
  · rw [hrun] at h
    exact absurd h (by simp [Except.map])

theorem PayWorld.settlers_of_storeTally {w w' : PayWorld τ} {row : TallyRow}
    (h : w.storeTally? row = some w') : w'.settlers = w.settlers := by
  rw [storeTally?] at h
  split at h
  · exact absurd h.symm (Option.some_ne_none w')
  · obtain rfl := Option.some.inj h
    rfl

namespace TruthfulRows

variable {w w' : PayWorld τ}

/-- A transaction of the contract, whoever submits it. -/
theorem submit (h : TruthfulRows reg w) {env : Env} {call : Call} {txHash : Option Bytes}
    {v : Value}
    (hsubmit : w.submit T env call txHash = .ok (v, w')) :
    TruthfulRows reg w' ∧ w.Later w' ∧
      w'.settlers = w.settlers ++ (settleKey (env, call)).toList.map (·, txHash) ∧
      ∃ evs, Effect { env with currentContract := T.spender } call v w.chain.storage
        w'.chain.storage evs := by
  obtain ⟨chain, books, hrun, rfl⟩ := PayWorld.submit_eq_ok hsubmit
  obtain ⟨evs, heffect⟩ := runWith_effect hrun
  have hchain : Later w.chain.storage chain.storage := heffect.later h.accounted.filed
  have hlater : w.Later { w with
      chain
      books
      settlers := w.settlers ++ (settleKey (env, call)).toList.map (·, txHash) } :=
    ⟨hchain, List.prefix_append _ _, fun _ row h ↦ ⟨row, h, .refl row⟩⟩
  refine ⟨⟨heffect.accounted h.accounted, heffect.tallyIntegrity h.integrity, ?_, ?_, ?_⟩, hlater,
    rfl, evs, heffect⟩
  · exact fun row hrow sc hsc ↦ (h.row row hrow sc hsc).later hchain hlater.settlers
  · rcases hkey : settleKey (env, call) with - | k
    · simpa [hkey] using h.once
    · obtain ⟨owner, rfl⟩ := settleKey_eq_some.1 hkey
      obtain ⟨-, -, -, hopen, -⟩ := heffect.settles
      simp only [Option.toList_some, List.map_cons, List.map_nil, List.map_append]
      refine h.once.append (List.nodup_singleton k) ?_
      exact List.disjoint_singleton.2 fun hmem ↦ h.settled k hmem hopen
  · rcases hkey : settleKey (env, call) with - | k
    · simp only [Option.toList_none, List.map_nil, List.append_nil]
      exact fun k hk ↦ hchain.settled_ne_none (h.settled k hk)
    · obtain ⟨owner, rfl⟩ := settleKey_eq_some.1 hkey
      obtain ⟨-, -, -, -, hsettled⟩ := heffect.settles
      simp only [Option.toList_some, List.map_cons, List.map_nil, List.map_append,
        List.mem_append, List.mem_singleton]
      rintro k' (hk' | rfl)
      · exact hchain.settled_ne_none (h.settled k' hk')
      · rw [hsettled]
        exact Option.some_ne_none true

/-- A statement on the table whose rows are so. -/
theorem write (h : TruthfulRows reg w) {tallies : List SettlementRow}
    (hrow : ∀ row ∈ tallies, ∀ sc : CurrentCode reg, sc.row.id = row.sharedCodeID →
      RowTruthful w sc row) : TruthfulRows reg { w with tallies } :=
  { h with row := fun row hmem sc hsc ↦ (hrow row hmem sc hsc).later (.refl _) List.prefix_rfl }

/-- `UPDATE tallies` for a period of a code. -/
theorem update (h : TruthfulRows reg w) {sharedID : ℕ} {period : UInt64}
    {f : SettlementRow → SettlementRow}
    (hf : ∀ row ∈ w.tallies, row.sharedCodeID = sharedID → row.period = period →
      row.Later (f row))
    (hrow : ∀ row ∈ w.tallies, row.sharedCodeID = sharedID → row.period = period →
      ∀ sc : CurrentCode reg, sc.row.id = sharedID → RowTruthful w sc row →
        RowTruthful w sc (f row)) :
    TruthfulRows reg (w.updateTally sharedID period f) ∧
      w.Later (w.updateTally sharedID period f) := by
  refine ⟨h.write fun row hmem sc hsc ↦ ?_, .refl _, List.prefix_rfl, fun i row hi ↦ ?_⟩
  · obtain ⟨old, hold, rfl⟩ := List.mem_map.1 hmem
    split at hsc
    · rename_i hmatch
      have hid := (hf old hold hmatch.1 hmatch.2).tally
      have hsc' : sc.row.id = old.sharedCodeID := by rw [hsc, hid]
      rw [if_pos hmatch]
      exact hrow old hold hmatch.1 hmatch.2 sc (hsc'.trans hmatch.1) (h.row old hold sc hsc')
    · rename_i hmatch
      rw [if_neg hmatch]
      exact h.row old hold sc hsc
  · have hmap : (w.updateTally sharedID period f).tallies[i]? =
        some (if row.sharedCodeID = sharedID ∧ row.period = period then f row else row) := by
      rw [PayWorld.updateTally, List.getElem?_map, hi]
      rfl
    refine ⟨_, hmap, ?_⟩
    split
    · rename_i hmatch
      exact hf row (List.mem_of_getElem? hi) hmatch.1 hmatch.2
    · exact .refl row

/-- A period has one settler. -/
theorem settler_eq (h : TruthfulRows reg w) {k : PeriodKey} {x y : Option Bytes}
    (hx : (k, x) ∈ w.settlers) (hy : (k, y) ∈ w.settlers) : x = y :=
  congrArg Prod.snd (List.inj_on_of_nodup_map h.once hx hy rfl)

/-- A request records its own settlement. -/
theorem settleTally (h : TruthfulRows reg w) {sc : CurrentCode reg} {period : UInt64}
    {txHash : Bytes}
    {total : ℤ} (hmem : (sc.period period, some txHash) ∈ w.settlers)
    (howed : OwedAt w.chain.storage (sc.period period) total) :
    TruthfulRows reg (w.settleTally sc.row.id period txHash total) ∧
      w.Later (w.settleTally sc.row.id period txHash total) := by
  refine h.update (fun row hrow hid hperiod ↦ ?_) fun row hrow hid hperiod sc' hsc' htruth ↦ ?_
  · have htruth := h.row row hrow sc hid.symm
    subst hperiod
    refine ⟨rfl, fun _ ↦ rfl, fun txHash' hrow' ↦ ?_, fun amount hamount ↦ ?_⟩
    · exact h.settler_eq hmem (htruth.settleTx txHash' hrow').2
    · exact congrArg some (howed.eq (htruth.payoutAmount amount hamount))
  · obtain rfl := CurrentCode.eq_of_id hsc'
    subst hperiod
    exact
      { tally := htruth.tally
        attributes := htruth.attributes
        settled := fun _ ↦ h.settled _ (List.mem_map_of_mem hmem)
        settleTx := fun txHash' hrow' ↦ ⟨rfl, Option.some.inj hrow' ▸ hmem⟩
        together := rfl
        payoutAmount := fun amount hamount ↦ Option.some.inj hamount ▸ howed }

/-- A request records a settlement it has seen. -/
theorem reconcile (h : TruthfulRows reg w) {sc : CurrentCode reg} {period : UInt64}
    (hseen : w.chain.storage.settled (sc.period period) ≠ none) :
    TruthfulRows reg (w.reconcile sc.row.id period) ∧ w.Later (w.reconcile sc.row.id period) := by
  refine h.update (fun row _ _ _ ↦ ?_) fun row hrow hid hperiod sc' hsc' htruth ↦ ?_
  · split
    · exact .refl row
    · exact ⟨rfl, fun _ ↦ rfl, fun _ ↦ id, fun _ ↦ id⟩
  · obtain rfl := CurrentCode.eq_of_id hsc'
    split
    · exact htruth
    · exact
        { htruth with
          settled := fun _ ↦ hperiod ▸ hseen
          settleTx := fun txHash hrow' ↦ ⟨rfl, (htruth.settleTx txHash hrow').2⟩ }

/-- A request stores the tally the contract has taken. -/
theorem storeTally (h : TruthfulRows reg w) {row : TallyRow} (hstore : w.storeTally? row = some w')
    {sc : CurrentCode reg} (hsc : sc.row.id = row.sharedCodeID)
    (hattributes : row.Attributes sc.row)
    (htally : ∃ tally, w.chain.storage.tally (sc.period row.period) = some tally ∧
      (tally.count.toNat : ℤ) = row.count.toInt) :
    TruthfulRows reg w' ∧ w.Later w' := by
  rw [PayWorld.storeTally?] at hstore
  split at hstore
  · exact absurd hstore.symm (Option.some_ne_none w')
  · obtain rfl := Option.some.inj hstore
    refine ⟨h.write fun row' hmem sc' hsc' ↦ ?_, .refl _, List.prefix_rfl, fun i row' hi ↦ ?_⟩
    · rcases List.mem_append.1 hmem with hmem | hmem
      · exact h.row row' hmem sc' hsc'
      · obtain rfl := List.mem_singleton.1 hmem
        obtain rfl : sc' = sc := CurrentCode.eq_of_id (hsc'.trans hsc.symm)
        exact
          { tally := htally
            attributes := hattributes
            settled := fun h ↦ absurd h Bool.false_ne_true
            settleTx := fun _ h ↦ absurd h.symm (Option.some_ne_none _)
            together := rfl
            payoutAmount := fun _ h ↦ absurd h.symm (Option.some_ne_none _) }
    · exact ⟨row', (List.getElem?_append_left (List.getElem?_eq_some_iff.1 hi).1).trans hi,
        .refl row'⟩

end TruthfulRows

/-! ### One question -/

/-- The count of a batch that is gathered is its total. -/
theorem toNat_count_of_gatherBatch {env : Surroundings} {db : Database} {sharedID read : ℕ}
    {b : Batch} (hcounted : Counted db.sharedEvents.rows)
    (h : gatherBatch env db sharedID read = .ok b) : (b.count.toNat : ℤ) = b.total.toInt := by
  have hof := readBatch_spec (gatherBatch_eq_ok h).1
  have hmem : ∀ e ∈ db.selectRows sharedID read, e ∈ db.sharedEvents.rows := fun e he ↦
    List.mem_of_mem_filter (List.mem_of_mem_take (List.mem_of_mem_take he))
  have hrows : Counted (db.selectRows sharedID read) := fun e he ↦ hcounted e (hmem e he)
  have hlength : (db.selectRows sharedID read).length ≤ maxReceiptsPerTally :=
    (List.length_take_le' _ _).trans (List.length_take_le _ _)
  rw [hof.toNat_count hrows hlength, hof.total_eq hrows hlength]

/-- An answer that is possible, and after which the table is truthful and the request accurate. -/
structure TruthfulAnswer (w w' : PayWorld τ) (g : Dealing) (e : Ask reg) (r : e.Reply) : Prop where
  possible : (dealing reg).possible g e r
  truthful : TruthfulRows reg w'
  later : w.Later w'
  accurate : ((dealing reg).next g e r).Accurate w'
  claimed : ∀ k txHash, (k, some txHash) ∈ w'.settlers → (k, some txHash) ∈ w.settlers ∨
    ∃ total, ((dealing reg).next g e r).own = some (k, txHash, total)

namespace TruthfulRows

variable {w w' : PayWorld τ} {g : Dealing} {ch : PayChoice reg}

/-- An answer that changes nothing. -/
theorem silent (h : TruthfulRows reg w) (hg : g.Accurate w) {e : Ask reg} {r : e.Reply}
    (hpossible : (dealing reg).possible g e r) (hnext : (dealing reg).next g e r = g) :
    TruthfulAnswer w w g e r := ⟨hpossible, h, .refl w, hnext.symm ▸ hg, fun _ _ ↦ .inl⟩

theorem answered_clientFor (h : TruthfulRows reg w) (hg : g.Accurate w) {a : AuthCtx}
    {r : Except Response Address} (hanswer : w.answer T ch (.clientFor a) = some (r, w')) :
    TruthfulAnswer w w' g (.clientFor a : Ask reg) r := by
  rw [PayWorld.answer] at hanswer
  split at hanswer
  · obtain ⟨rfl, rfl⟩ := Prod.mk.inj (Option.some.inj hanswer)
    exact h.silent hg trivial rfl
  · split at hanswer
    · exact absurd hanswer.symm (Option.some_ne_none _)
    · obtain ⟨rfl, rfl⟩ := Prod.mk.inj (Option.some.inj hanswer)
      exact ⟨trivial, { h with row := fun row hrow sc hsc ↦ { h.row row hrow sc hsc with } },
        ⟨.refl _, List.prefix_rfl, fun _ row hi ↦ ⟨row, hi, .refl row⟩⟩, { hg with },
        fun _ _ ↦ .inl⟩

/-- A read finds what is so. -/
theorem answered_simulate (h : TruthfulRows reg w) (hg : g.Accurate w) {call : Call}
    {r : Except ChainError Value} (hanswer : w.answer T ch (.simulate call) = some (r, w')) :
    TruthfulAnswer w w' g (.simulate call : Ask reg) r := by
  have hrefused : ∀ e, TruthfulAnswer w w g (.simulate call : Ask reg) (.error e) := by
    intro e
    cases call with
    | _ => exact h.silent hg trivial rfl
  rw [PayWorld.answer] at hanswer
  split at hanswer
  · obtain ⟨rfl, rfl⟩ := Prod.mk.inj (Option.some.inj hanswer)
    exact hrefused _
  · split at hanswer
    · obtain ⟨rfl, rfl⟩ := Prod.mk.inj (Option.some.inj hanswer)
      exact hrefused _
    · rename_i v w₁ hsubmit
      obtain ⟨rfl, rfl⟩ := Prod.mk.inj (Option.some.inj hanswer)
      obtain ⟨chain, books, hrun, -⟩ := PayWorld.submit_eq_ok hsubmit
      cases call with
      | getShared c code =>
        obtain ⟨sc, rfl, hshared⟩ := shared_of_runWith hrun
        refine ⟨trivial, h, .refl w, { hg with token := fun c' code' token htoken ↦ ?_ },
          fun _ _ ↦ .inl⟩
        obtain ⟨token', htoken', heq⟩ := Option.map_eq_some_iff.1 htoken
        obtain ⟨rfl, rfl, rfl⟩ : c = c' ∧ code = code' ∧ token' = token := by simpa using heq
        exact ⟨sc, hshared, htoken'⟩
      | isSettled c code period =>
        cases v with
        | bool b =>
          rcases b with - | -
          · exact h.silent hg trivial rfl
          · refine ⟨trivial, h, .refl w, { hg with seen := fun k hk ↦ ?_ }, fun _ _ ↦ .inl⟩
            obtain rfl := Option.some.inj hk
            exact settled_of_runWith hrun
        | _ => exact h.silent hg trivial rfl
      | computePayouts c code period =>
        obtain ⟨ps, rfl, howed⟩ := owedAt_of_runWith hrun
        refine ⟨trivial, h, .refl w, { hg with amount := fun k total hk ↦ ?_ }, fun _ _ ↦ .inl⟩
        obtain ⟨rfl, rfl⟩ := Prod.mk.inj (Option.some.inj hk)
        exact howed
      | _ => exact h.silent hg trivial rfl

/-- A refusal changes nothing, and finds what is so. -/
theorem answered_refusal (h : TruthfulRows reg w) (hg : g.Accurate w) {call : Call} {env : Env}
    {txHash : Option Bytes} {fault : Fault Error}
    (hsubmit : w.submit T env call txHash = .error fault) :
    TruthfulAnswer w w g (.call call : Ask reg) (.error (chainError fault)) := by
  have hrun := PayWorld.submit_eq_error hsubmit
  cases call with
  | settle owner c code period =>
    rcases fault with e | -
    · cases e with
      | alreadySettled =>
        refine ⟨trivial, h, .refl w, { hg with seen := fun k hk ↦ ?_ }, fun _ _ ↦ .inl⟩
        obtain rfl := Option.some.inj hk
        exact settled_of_alreadySettled hrun
      | _ => exact h.silent hg trivial rfl
    · exact h.silent hg trivial rfl
  | _ => exact h.silent hg trivial rfl

/-- A transaction that is taken. -/
theorem answered_taken (h : TruthfulRows reg w) (hg : g.Accurate w) {call : Call} {env : Env}
    {txHash : Bytes} {v : Value} (hsubmit : w.submit T env call (some txHash) = .ok (v, w')) :
    TruthfulAnswer w w' g (.call call : Ask reg) (.ok (v, txHash)) := by
  obtain ⟨htruthful, hlater, hsettlers, evs, heffect⟩ := h.submit hsubmit
  have hg' := hg.later hlater
  refine ⟨?_, htruthful, hlater, ?_, fun k txHash' hmem ↦ ?_⟩
  · cases call with
    | _ => trivial
  · cases call with
    | settle owner c code period =>
      obtain ⟨out, rfl, howed, -⟩ := heffect.settles
      refine { hg' with own := fun k txHash' total hk ↦ ?_ }
      obtain ⟨rfl, hpaid⟩ := Prod.mk.inj (Option.some.inj hk)
      obtain ⟨rfl, rfl⟩ := Prod.mk.inj hpaid
      refine ⟨?_, howed.later hlater.chain⟩
      rw [hsettlers]
      exact List.mem_append_right _ List.mem_cons_self
    | commitTally owner c code period count root m =>
      refine { hg' with committed := fun k count' hk ↦ ?_ }
      obtain ⟨rfl, rfl⟩ := Prod.mk.inj (Option.some.inj hk)
      exact heffect.commits
    | _ => exact hg'
  · rw [hsettlers] at hmem
    refine (List.mem_append.1 hmem).imp_right fun hmem ↦ ?_
    obtain ⟨k', hk', heq⟩ := List.mem_map.1 hmem
    obtain ⟨rfl, rfl⟩ : k' = k ∧ txHash = txHash' := by simpa using heq
    obtain ⟨owner, rfl⟩ := settleKey_eq_some.1 (Option.mem_toList.1 hk')
    exact ⟨_, rfl⟩

theorem answered_call (h : TruthfulRows reg w) (hg : g.Accurate w) {call : Call}
    {r : Except ChainError (Value × Bytes)}
    (hanswer : w.answer T ch (.call call) = some (r, w')) :
    TruthfulAnswer w w' g (.call call : Ask reg) r := by
  rw [PayWorld.answer] at hanswer
  split at hanswer
  · obtain ⟨rfl, rfl⟩ := Prod.mk.inj (Option.some.inj hanswer)
    cases call with
    | _ => exact h.silent hg trivial rfl
  · split at hanswer
    · rename_i hsubmit
      obtain ⟨rfl, rfl⟩ := Prod.mk.inj (Option.some.inj hanswer)
      exact h.answered_refusal hg hsubmit
    · rename_i hsubmit
      obtain ⟨rfl, rfl⟩ := Prod.mk.inj (Option.some.inj hanswer)
      exact h.answered_taken hg hsubmit

/-- An approval changes the books of a token alone. -/
theorem answered_approve (h : TruthfulRows reg w) (hg : g.Accurate w) {token owner : Address}
    {amount : ℤ} {last : UInt32} {r : Except ChainError Bytes}
    (hanswer : w.answer T ch (.approveSettlement token owner amount last) = some (r, w')) :
    TruthfulAnswer w w' g (.approveSettlement token owner amount last : Ask reg) r := by
  rw [PayWorld.answer] at hanswer
  split at hanswer
  · obtain ⟨rfl, rfl⟩ := Prod.mk.inj (Option.some.inj hanswer)
    exact h.silent hg trivial rfl
  · split at hanswer
    · obtain ⟨rfl, rfl⟩ := Prod.mk.inj (Option.some.inj hanswer)
      exact h.silent hg trivial rfl
    · obtain ⟨rfl, rfl⟩ := Prod.mk.inj (Option.some.inj hanswer)
      exact ⟨trivial, { h with row := fun row hrow sc hsc ↦ { h.row row hrow sc hsc with } },
        ⟨.refl _, List.prefix_rfl, fun _ row hi ↦ ⟨row, hi, .refl row⟩⟩, { hg with },
        fun _ _ ↦ .inl⟩

/-- The count of a batch is its total. -/
theorem answered_gatherBatch (h : TruthfulRows reg w) (hg : g.Accurate w) {sc : CurrentCode reg}
    {r : Except Problem Batch} (hanswer : w.answer T ch (.gatherBatch sc) = some (r, w')) :
    TruthfulAnswer w w' g (.gatherBatch sc : Ask reg) r := by
  obtain ⟨rfl, rfl⟩ := Prod.mk.inj (Option.some.inj hanswer)
  rcases hbatch : gatherBatch ch.surroundings ch.db sc.row.id ch.read with p | b
  · exact h.silent hg trivial rfl
  · exact h.silent hg (toNat_count_of_gatherBatch ch.counted hbatch) rfl

theorem answered_storeTally (h : TruthfulRows reg w) (hg : g.Accurate w) {row : TallyRow}
    {eventIDs : List ℕ} {r : Except Problem Unit}
    (hmay : (dealing reg).may g (.storeTally row eventIDs))
    (hanswer : w.answer T ch (.storeTally row eventIDs) = some (r, w')) :
    TruthfulAnswer w w' g (.storeTally row eventIDs : Ask reg) r := by
  obtain ⟨sc, hsc, hattributes, count, hcount, hcommitted⟩ := hmay
  rw [PayWorld.answer] at hanswer
  split at hanswer
  · obtain ⟨rfl, rfl⟩ := Prod.mk.inj (Option.some.inj hanswer)
    exact h.silent hg trivial rfl
  · split at hanswer
    · obtain ⟨rfl, rfl⟩ := Prod.mk.inj (Option.some.inj hanswer)
      exact h.silent hg trivial rfl
    · rename_i hstore
      obtain ⟨rfl, rfl⟩ := Prod.mk.inj (Option.some.inj hanswer)
      obtain ⟨tally, htally, rfl⟩ := hg.committed _ _ hcommitted
      obtain ⟨htruthful, hlater⟩ := h.storeTally hstore hsc hattributes ⟨tally, htally, hcount⟩
      refine ⟨trivial, htruthful, hlater, hg.later hlater, fun k txHash hmem ↦ .inl ?_⟩
      rwa [PayWorld.settlers_of_storeTally hstore] at hmem

/-- **One question leaves the table truthful.** -/
theorem answered (h : TruthfulRows reg w) (hg : g.Accurate w) {e : Ask reg} {r : e.Reply}
    (hmay : (dealing reg).may g e) (hanswer : w.answer T ch e = some (r, w')) :
    TruthfulAnswer w w' g e r := by
  cases e with
  | clientFor a => exact h.answered_clientFor hg hanswer
  | release a =>
    obtain ⟨rfl, rfl⟩ := Prod.mk.inj (Option.some.inj hanswer)
    exact ⟨trivial, { h with row := fun row hrow sc hsc ↦ { h.row row hrow sc hsc with } },
      ⟨.refl _, List.prefix_rfl, fun _ row hi ↦ ⟨row, hi, .refl row⟩⟩, { hg with }, fun _ _ ↦ .inl⟩
  | reserveCharge c =>
    obtain ⟨rfl, rfl⟩ := Prod.mk.inj (Option.some.inj hanswer)
    refine ⟨trivial, h, .refl w, ?_, fun _ _ ↦ .inl⟩
    rcases ch.reply (.reserveCharge c) with p | -
    · exact hg
    · exact { hg with }
  | resolve c how =>
    obtain ⟨rfl, rfl⟩ := Prod.mk.inj (Option.some.inj hanswer)
    exact ⟨trivial, h, .refl w, { hg with }, fun _ _ ↦ .inl⟩
  | sharedByCampaignCode a campaignID code =>
    rw [PayWorld.answer] at hanswer
    split at hanswer
    · obtain ⟨rfl, rfl⟩ := Prod.mk.inj (Option.some.inj hanswer)
      exact h.silent hg trivial rfl
    · obtain ⟨rfl, rfl⟩ := Prod.mk.inj (Option.some.inj hanswer)
      rcases hfound : reg.sharedByCampaignCode a campaignID code with p | sc
      · exact h.silent hg trivial rfl
      · exact h.silent hg hfound rfl
  | simulate call => exact h.answered_simulate hg hanswer
  | call call => exact h.answered_call hg hanswer
  | approveSettlement token owner amount last => exact h.answered_approve hg hanswer
  | gatherBatch sc => exact h.answered_gatherBatch hg hanswer
  | storeTally row eventIDs => exact h.answered_storeTally hg hmay hanswer
  | settleTally sharedID period txHash total =>
    obtain ⟨rfl, rfl⟩ := Prod.mk.inj (Option.some.inj hanswer)
    obtain ⟨sc, rfl, hown⟩ := hmay
    obtain ⟨hmem, howed⟩ := hg.own _ _ _ hown
    split
    · obtain ⟨htruthful, hlater⟩ := h.settleTally hmem howed
      exact ⟨trivial, htruthful, hlater, hg.later hlater, fun _ _ ↦ .inl⟩
    · exact h.silent hg trivial rfl
  | reconcile sharedID period =>
    obtain ⟨rfl, rfl⟩ := Prod.mk.inj (Option.some.inj hanswer)
    obtain ⟨sc, rfl, hseen⟩ := hmay
    split
    · obtain ⟨htruthful, hlater⟩ := h.reconcile (hg.seen _ hseen)
      exact ⟨trivial, htruthful, hlater, hg.later hlater, fun _ _ ↦ .inl⟩
    · exact h.silent hg trivial rfl
  | _ =>
    obtain ⟨rfl, rfl⟩ := Prod.mk.inj (Option.some.inj hanswer)
    exact h.silent hg trivial rfl

/-- What others do leaves the table truthful. -/
theorem outside (h : TruthfulRows reg w) (event : PayEvent τ) :
    TruthfulRows reg ((payServer T reg).outside event w) ∧
      w.Later ((payServer T reg).outside event w) ∧
      ∀ k txHash, (k, some txHash) ∈ ((payServer T reg).outside event w).settlers →
        (k, some txHash) ∈ w.settlers := by
  rcases event with ⟨env, call⟩ | f
  · rw [payServer]
    dsimp only
    split
    · exact ⟨h, .refl w, fun _ _ ↦ id⟩
    · rename_i hsubmit
      obtain ⟨htruthful, hlater, hsettlers, -⟩ := h.submit hsubmit
      refine ⟨htruthful, hlater, fun k txHash hmem ↦ ?_⟩
      rw [hsettlers, List.mem_append] at hmem
      refine hmem.resolve_right fun hmem ↦ ?_
      obtain ⟨k', -, heq⟩ := List.mem_map.1 hmem
      exact absurd (Prod.mk.inj heq).2.symm (Option.some_ne_none _)
  · exact ⟨{ h with row := fun row hrow sc hsc ↦ { h.row row hrow sc hsc with } },
      ⟨.refl _, List.prefix_rfl, fun _ row hi ↦ ⟨row, hi, .refl row⟩⟩, fun _ _ ↦ id⟩

end TruthfulRows

/-! ### Requests -/

/-- A request that writes tallies. -/
inductive PayRequest where
  | commitTally (a : AuthCtx) (campaignID : ℕ) (pathCode : String) (period : UInt64)
  | settle (a : AuthCtx) (body : SettleBody)

/-- The handler of a request. -/
def PayRequest.handle (reg : Registry d) (cl : Platform) : PayRequest → Work reg Response
  | commitTally a campaignID pathCode period => handleCommitTally cl a campaignID pathCode period
  | settle a body => handleSettle cl a body

/-- The shared code a request to settle names. -/
def SettleBody.find (reg : Registry d) (cl : Platform) (a : AuthCtx) (body : SettleBody) :
    Except Problem (CurrentCode reg) :=
  reg.sharedByCampaignCode a body.campaignID (utf8 (cl.normalize body.code))

/-- How a request ends. -/
def PayRequest.Ends (reg : Registry d) (cl : Platform) :
    PayRequest → Except Response Response × Meter → Dealing → Prop
  | commitTally .., _, _ => True
  | settle a body, x, g => Concluded (body.find reg cl a) body.period x.1 g

theorem PayRequest.keeps (reg : Registry d) (cl : Platform) (request : PayRequest) :
    (request.handle reg cl ⟨none, 0⟩).Keeps (dealing reg) Dealing.start (request.Ends reg cl) := by
  cases request with
  | commitTally a campaignID pathCode period =>
    have hstored := stored_commitTally reg cl a campaignID pathCode period
    exact hstored.start.mono fun _ _ _ ↦ trivial
  | settle a body =>
    refine (concluded_settle reg cl a body rfl).start.mono fun x g hx ↦ ?_
    obtain ⟨x | x, m⟩ := x
    · exact hx
    · exact hx

/-- Where these requests arrive. -/
def arriveToPay (reg : Registry d) (cl : Platform) (requests : ℕ → PayRequest) (i : ℕ) :
    Programs.Place (@Ask.Reply d reg) (Except Response Response × Meter) :=
  .start ((requests i).handle reg cl ⟨none, 0⟩)

/-- What a request has seen, of what it has said. -/
def dealt (reg : Registry d) (said : List (Exchange (@Ask.Reply d reg))) : Dealing :=
  (dealing reg).after Dealing.start said

/-- The table is truthful, every request accurate, and what is listed as a transaction of Cloud is
one that the contract has taken from a request. -/
structure Kept (reg : Registry d) (w : PayWorld τ) (gs : ℕ → Dealing) : Prop where
  truthful : TruthfulRows reg w
  accurate : ∀ i, (gs i).Accurate w
  claimed : ∀ k txHash, (k, some txHash) ∈ w.settlers →
    ∃ i total, (gs i).own = some (k, txHash, total)

/-- A request keeps its settlement. -/
theorem own_next {g : Dealing} {e : Ask reg} {r : e.Reply} {x : PeriodKey × Bytes × ℤ}
    (hmay : (dealing reg).may g e) (h : g.own = some x) :
    ((dealing reg).next g e r).own = some x := by
  cases e with
  | call call =>
    cases call with
    | settle owner c code period => exact absurd (h.symm.trans hmay.1) (Option.some_ne_none x)
    | _ =>
      rcases r with e | v
      · exact h
      · exact h
  | simulate call =>
    rcases r with e | v
    · cases call with
      | _ => exact h
    · cases call with
      | isSettled c code period =>
        cases v with
        | bool b =>
          rcases b with - | -
          · exact h
          · exact h
        | _ => exact h
      | _ => exact h
  | reserveCharge c =>
    rcases r with p | -
    · exact h
    · exact h
  | approveSettlement token owner amount last =>
    rcases r with e | txHash
    · exact h
    · exact h
  | _ => exact h

section Runs

variable {cl : Platform} {requests : ℕ → PayRequest} {w : PayWorld τ}
  {turns : List (Turn (PayChoice reg) (PayEvent τ))}

/-- A service of requests that write tallies, when nothing is in the table. -/
structure Opening (w : PayWorld τ) : Prop where
  reachable : Reachable w.chain
  tallies : w.tallies = []
  settlers : w.settlers = []

theorem Opening.kept (h : Opening w) (reg : Registry d) : Kept reg w fun _ ↦ Dealing.start where
  truthful :=
    { accounted := h.reachable.accounted
      integrity := h.reachable.tallyIntegrity
      row := fun row hrow ↦ absurd (h.tallies ▸ hrow) List.not_mem_nil
      once := by
        rw [h.settlers]
        exact List.nodup_nil
      settled := fun k hk ↦ absurd (h.settlers ▸ hk) List.not_mem_nil }
  accurate _ := .start w
  claimed k txHash hmem := absurd (h.settlers ▸ hmem) List.not_mem_nil

/-- One question keeps everything, and no row loses what it has. -/
theorem Kept.answered {gs : ℕ → Dealing} (h : Kept reg w gs) {i : ℕ} {ch : PayChoice reg}
    {e : Ask reg} {r : e.Reply} {w' : PayWorld τ} (hmay : (dealing reg).may (gs i) e)
    (hanswer : w.answer T ch e = some (r, w')) :
    (dealing reg).possible (gs i) e r ∧ w.Later w' ∧
      Kept reg w' (Function.update gs i ((dealing reg).next (gs i) e r)) := by
  obtain ⟨hpossible, htruthful, hlater, haccurate, hclaimed⟩ :=
    h.truthful.answered (h.accurate i) hmay hanswer
  refine ⟨hpossible, hlater, htruthful, fun j ↦ ?_, fun k txHash hmem ↦ ?_⟩
  · rcases eq_or_ne j i with rfl | hne
    · rw [Function.update_self]
      exact haccurate
    · rw [Function.update_of_ne hne]
      exact (h.accurate j).later hlater
  · rcases hclaimed k txHash hmem with hold | ⟨total, hown⟩
    · obtain ⟨j, total, hown⟩ := h.claimed k txHash hold
      refine ⟨j, total, ?_⟩
      rcases eq_or_ne j i with rfl | hne
      · rw [Function.update_self]
        exact own_next hmay hown
      · rw [Function.update_of_ne hne]
        exact hown
    · exact ⟨i, total, by rw [Function.update_self]; exact hown⟩

/-- What others do keeps everything. -/
theorem Kept.outside {gs : ℕ → Dealing} (h : Kept reg w gs) (event : PayEvent τ) :
    Kept reg ((payServer T reg).outside event w) gs ∧
      w.Later ((payServer T reg).outside event w) := by
  obtain ⟨htruthful, hlater, hclaimed⟩ := h.truthful.outside (T := T) event
  exact ⟨⟨htruthful, fun i ↦ (h.accurate i).later hlater, fun k txHash hmem ↦
    h.claimed k txHash (hclaimed k txHash hmem)⟩, hlater⟩

variable (T reg cl requests turns) in
/-- What is kept, and what was there at some point. -/
theorem kept_after (hw : Opening w) {n k : ℕ} (hkn : k ≤ n) :
    let run := ((payServer T reg).service _).after ⟨w, arriveToPay reg cl requests⟩ turns
    Server.Keeping (dealing reg) Dealing.start (fun i ↦ (requests i).Ends reg cl) (run n) ∧
      Kept reg (run n).shared (Server.records (dealing reg) Dealing.start (run n)) ∧
      (run k).shared.Later (run n).shared := by
  intro run
  have hstart : ∀ n, Server.Keeping (dealing reg) Dealing.start
      (fun i ↦ (requests i).Ends reg cl) (run n) ∧
        Kept reg (run n).shared (Server.records (dealing reg) Dealing.start (run n)) := by
    refine Server.serve_keeps (J := Kept reg) (K := fun _ _ ↦ True) ?_ (hw.kept reg)
      (fun _ _ _ ↦ trivial) (fun c i ch e r w' hkept _ hasks ↦ ?_) fun w gs event hkept ↦ ?_
    · exact fun i ↦ (requests i).keeps reg cl
    · obtain ⟨hpossible, -, hkept'⟩ := hkept.answered hasks.may hasks.answer
      exact ⟨hpossible, hkept'⟩
    · exact (hkept.outside event).1
  refine Server.serve_keeps_from (J := fun w gs ↦ Kept reg w gs ∧ (run k).shared.Later w)
    (K := fun _ _ ↦ True) (hstart k).1 ⟨(hstart k).2, .refl _⟩ (fun _ _ _ ↦ trivial)
    (fun c i ch e r w' hkept _ hasks ↦ ?_) (fun w gs event hkept ↦ ?_) hkn
  · obtain ⟨hpossible, hlater, hkept'⟩ := hkept.1.answered hasks.may hasks.answer
    exact ⟨hpossible, hkept', hkept.2.trans hlater⟩
  · obtain ⟨hkept', hlater⟩ := hkept.1.outside event
    exact ⟨hkept', hkept.2.trans hlater⟩

/-- What a row says is booked on the chain: the period is settled; its transaction is one of Cloud,
and the one that has settled it; and its amount comes with the transaction, and is the count of the
tally times the rate of its code. -/
structure RowBooked (w : PayWorld τ) (sc : CurrentCode reg) (row : SettlementRow) : Prop where
  settled : row.settled = true → w.chain.storage.settled (sc.period row.period) ≠ none
  settleTx : ∀ txHash, row.settleTx = some txHash →
    (sc.period row.period, some txHash) ∈ w.settlers ∧
      ∀ settler, (sc.period row.period, settler) ∈ w.settlers → settler = some txHash
  payoutAmount : ∀ amount, row.payoutAmount = some amount → row.settleTx.isSome ∧
    ∃ rec, w.chain.storage.shared (sc.campaign.chainID, sc.row.code) = some rec ∧
      amount = row.count.toInt * rec.payoutRate.val

theorem TruthfulRows.booked (h : TruthfulRows reg w) {row : SettlementRow} (hrow : row ∈ w.tallies)
    {sc : CurrentCode reg} (hsc : sc.row.id = row.sharedCodeID) : RowBooked w sc row := by
  have htruth := h.row row hrow sc hsc
  refine ⟨htruth.settled, fun txHash htx ↦ ?_, fun amount hamount ↦ ?_⟩
  · have hmem := (htruth.settleTx txHash htx).2
    exact ⟨hmem, fun settler hsettler ↦ h.settler_eq hsettler hmem⟩
  · have htx : row.settleTx.isSome := by
      rw [← htruth.together, hamount]
      rfl
    obtain ⟨txHash, htxHash⟩ := Option.isSome_iff_exists.1 htx
    have hsettled := htruth.settled (htruth.settleTx txHash htxHash).1
    obtain ⟨rec, tally, hshared, htally, rfl⟩ :=
      (htruth.payoutAmount amount hamount).eq_count_mul h.integrity hsettled
    obtain ⟨tally', htally', hcount⟩ := htruth.tally
    obtain rfl := Option.some.inj (htally.symm.trans htally')
    exact ⟨htx, rec, hshared, by rw [hcount]⟩

/-- **Settlement bookkeeping is truthful**, in every run of requests that commit and settle with
whatever others do in between. What a row says is booked on the chain, and is never overwritten;
what has settled a period under a hash is a transaction the contract has taken from a request; and a
request that is over is answered with its own settlement, and keeps its charge, exactly where it has
one. -/
theorem settlement_truthful (T : Tokens τ) (reg : Registry d) (cl : Platform)
    (requests : ℕ → PayRequest) (w : PayWorld τ) (hw : Opening w)
    (turns : List (Turn (PayChoice reg) (PayEvent τ))) :
    let run := ((payServer T reg).service _).after ⟨w, arriveToPay reg cl requests⟩ turns
    (∀ n, ∀ row ∈ (run n).shared.tallies, ∀ sc : CurrentCode reg, sc.row.id = row.sharedCodeID →
      RowBooked (run n).shared sc row) ∧
    (∀ k n, k ≤ n → ∀ (i : ℕ) (row : SettlementRow), (run k).shared.tallies[i]? = some row →
      ∃ row', (run n).shared.tallies[i]? = some row' ∧ row.Later row') ∧
    (∀ n k txHash, (k, some txHash) ∈ (run n).shared.settlers →
      ∃ i total, (dealt reg ((run n).requests i).said).own = some (k, txHash, total)) ∧
    ∀ n i a body x m, requests i = .settle a body → ((run n).requests i).rest = .ret (x, m) →
      Concluded (body.find reg cl a) body.period x (dealt reg ((run n).requests i).said) ∧
      ∀ k txHash total, (dealt reg ((run n).requests i).said).own = some (k, txHash, total) →
        (k, some txHash) ∈ (run n).shared.settlers := by
  intro run
  have hkept : ∀ {k n : ℕ}, k ≤ n → _ := fun hkn ↦
    kept_after reg T cl requests turns hw hkn
  refine ⟨fun n row hrow sc hsc ↦ ?_, fun k n hkn i row hrow ↦ ?_, fun n ↦ ?_,
    fun n i a body x m hrequest hrest ↦ ?_⟩
  · exact (hkept le_rfl).2.1.truthful.booked hrow hsc
  · exact (hkept hkn).2.2.row i row hrow
  · exact (hkept le_rfl).2.1.claimed
  · obtain ⟨hkeeping, hbooks, -⟩ := hkept (le_refl n)
    have hends : (requests i).Ends reg cl (x, m) (dealt reg ((run n).requests i).said) := by
      have hkeeps := hkeeping i
      rw [hrest] at hkeeps
      exact hkeeps
    rw [hrequest] at hends
    exact ⟨hends, fun k txHash total hown ↦ ((hbooks.accurate i).own k txHash total hown).1⟩

end Runs

/-! ### Two weeks -/

namespace Paying

/-- A shared code with a target, and one that is only counted. -/
def code : SharedCodeRow := ⟨1, 1, Sample.sharedCode, some Sample.promoter⟩

def leaflet : SharedCodeRow := ⟨2, 1, ascii "LEAFLET", none⟩

def registry : Registry Acceptance.deployment where
  accounts := []
  campaigns := [Mirroring.campaign]
  sharedCodes := [code, leaflet]
  programs := []
  campaign_key := Mirroring.one_campaign
  chain_key := Mirroring.one_current
  code_key := by decide +kernel
  code_name_key := by decide +kernel

/-- An approval replaces the allowance. -/
def approve (_ owner spender : Address) (amount : ℤ) (_ : UInt32) (t : Sample.Books) :
    Option Sample.Books :=
  if h : amount.toNat < 2 ^ 127 then
    some { t with
      allowance := fun o s ↦ if o = owner ∧ s = spender then amount.toNat else t.allowance o s
      allowance_lt := fun o s ↦ by
        split
        · exact h
        · exact t.allowance_lt o s }
  else none

def tokens : Tokens Sample.Books :=
  ⟨(Sample.envAt 16 Sample.owner).currentContract, Sample.Books.handle, approve⟩

/-- The code is on the chain, and nothing is in the table. -/
def world : PayWorld Sample.Books :=
  ⟨[], runFrom 0 (Sample.history.take 5), Sample.books, fun _ ↦ false, []⟩

theorem opening : Opening world := ⟨Sample.reachable_take 5, rfl, rfl⟩

/-- A signed event of some stamps of a code. -/
def stamped (sharedID : ℕ) (count : Int64) : SharedEvent :=
  ⟨sharedID, sharedID, count, [], none, none, some ⟨[], ascii ("".pushn '0' 64), [], []⟩⟩

/-- Stamps of each code wait to be anchored. -/
def stamps : EventTable := ⟨[stamped 1 2, stamped 2 3], by decide⟩

theorem counted_stamps : Counted stamps.rows := by
  intro e he
  rcases List.mem_cons.1 he with rfl | he
  · decide
  · rw [List.mem_singleton.1 he]
    decide

/-- All goes well for a request. -/
def reply (txHash : Bytes) : (e : Ask registry) → e.Reply
  | .reserveCharge _ | .storeTally .. => .ok ()
  | .clientFor _ => .ok Sample.owner
  | .call _ => .ok (.unit, txHash)
  | .simulate _ => .ok .unit
  | .latestLedger => .ok 7
  | .approveSettlement .. => .ok txHash
  | .campaignByID .. => some ⟨Mirroring.campaign, "Launch"⟩
  | .insertShared .. => true
  | .sharedByCampaignCode a id code => registry.sharedByCampaignCode a id code
  | .unsignedReceipts _ => .ok 0
  | e => e.failing

def choice (txHash : Bytes) : PayChoice registry where
  reply := reply txHash
  env := Sample.envAt 16 Sample.owner
  surroundings := ⟨16, none, none, .ok ()⟩
  db := { Database.empty with sharedEvents := stamps }
  counted := counted_stamps
  read := 1
  writes := true

/-- A week of the code is committed and settled, and then the next one. -/
def requests : ℕ → PayRequest
  | 0 => .commitTally ⟨1, .live⟩ 1 "s" 202628
  | 1 => .settle ⟨1, .live⟩ ⟨1, "s", 202628⟩
  | 2 => .commitTally ⟨1, .live⟩ 1 "s" 202629
  | _ => .settle ⟨1, .live⟩ ⟨1, "s", 202629⟩

/-- A keeper settles the second week. -/
def keeper : PayEvent Sample.Books :=
  .submit (Sample.envAt 16 Sample.cashier) (.settle Sample.owner 1 Sample.sharedCode 202629)

/-- The keeper comes between the approval of the fourth request and its settlement. -/
def turns : List (Turn (PayChoice registry) (PayEvent Sample.Books)) :=
  List.replicate 9 (.request 0 (choice [65])) ++ List.replicate 12 (.request 1 (choice [66])) ++
    List.replicate 9 (.request 2 (choice [67])) ++ List.replicate 8 (.request 3 (choice [68])) ++
    [.outside keeper] ++ List.replicate 4 (.request 3 (choice [68]))

/-- Where the run is after some turns. -/
def now (n : ℕ) : Config (PayWorld Sample.Books)
    (Programs.Place (@Ask.Reply _ registry) (Except Response Response × Meter)) :=
  ((payServer tokens registry).service _).after
    ⟨world, arriveToPay registry Acceptance.platform requests⟩ turns n

/-- The settlement a request is answered with. -/
def settledBy (n i : ℕ) : Option (Option (Bytes × ℤ)) :=
  ((now n).requests i).returned.map fun x ↦ settledAnswer x.1

end Paying

/-- One week is settled by its request, and the other by a keeper. -/
theorem settlement_truthful_weeks :
    (Paying.now 43).shared.tallies.map (fun row ↦ (row.settled, row.settleTx, row.payoutAmount)) =
        [(true, some [66], some 10), (true, none, none)] ∧
      Paying.settledBy 43 1 = some (some ([66], 10)) ∧ Paying.settledBy 43 3 = some none ∧
      ∀ n, (∀ row ∈ (Paying.now n).shared.tallies, ∀ sc : CurrentCode Paying.registry,
        sc.row.id = row.sharedCodeID → RowBooked (Paying.now n).shared sc row) ∧
      ∀ i a body x m, Paying.requests i = .settle a body →
        ((Paying.now n).requests i).rest = .ret (x, m) →
          Concluded (body.find Paying.registry Acceptance.platform a) body.period x
            (dealt Paying.registry ((Paying.now n).requests i).said) := by
  obtain ⟨hbooked, -, -, hconcluded⟩ := settlement_truthful Paying.tokens Paying.registry
    Acceptance.platform Paying.requests Paying.world Paying.opening Paying.turns
  refine ⟨by decide +kernel, by decide +kernel, by decide +kernel, fun n ↦ ⟨hbooked n, ?_⟩⟩
  intro i a body x m hrequest hrest
  exact (hconcluded n i a body x m hrequest hrest).1

end Soroticket
