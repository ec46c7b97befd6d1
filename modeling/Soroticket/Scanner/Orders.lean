import Mathlib.Data.List.DropRight
import Soroticket.Cloud.Separation
import Soroticket.Scanner.Effects

/-!
# Orders of scans

The order of a scan is a text made of its code and its phone. It is hashed with the shared code, in
upper case, and cut at its ends, so scans of one shared code with the same order are of the same
phone (`Scan.customerRef_eq`). That is why Cloud's answer to an order it has counted is true of the
scan (`Posted.holds_of_order`): the event that was counted is of the same phone.
-/

namespace Soroticket

variable {d : Deployment} {u : UpperCase} {a : AuthCtx}

/-! ### The order of a scan -/

/-- Cutting from both ends, either end may be first. -/
theorem dropWhile_rdropWhile {α : Type} (p : α → Bool) (l : List α) :
    (l.rdropWhile p).dropWhile p = (l.dropWhile p).rdropWhile p := by
  induction l using List.reverseRecOn with
  | nil => rfl
  | append_singleton l x ih =>
    rw [List.rdropWhile_concat]
    split
    case isTrue hx =>
      rw [ih, List.dropWhile_append]
      split
      case isTrue hnil =>
        rw [List.isEmpty_iff.1 hnil, List.dropWhile_cons_of_pos hx]
        rfl
      case isFalse => exact (List.rdropWhile_concat_pos p _ x hx).symm
    case isFalse hx =>
      rw [List.dropWhile_append]
      split
      case isTrue hnil =>
        rw [List.dropWhile_cons_of_neg hx]
        exact (List.rdropWhile_concat_neg p [] x hx).symm
      case isFalse => exact (List.rdropWhile_concat_neg p _ x hx).symm

/-- Nothing is cut before an element that stays. -/
theorem rdropWhile_append_cons {α : Type} {p : α → Bool} {x : α} (hx : p x = false)
    (l l' : List α) : (l ++ x :: l').rdropWhile p = l ++ x :: l'.rdropWhile p := by
  induction l' using List.reverseRecOn with
  | nil => exact List.rdropWhile_concat_neg p l x (by rw [hx]; decide)
  | append_singleton l' y ih =>
    have hsplit : l ++ x :: (l' ++ [y]) = (l ++ x :: l') ++ [y] := by simp
    rw [hsplit, List.rdropWhile_concat, List.rdropWhile_concat]
    split
    · exact ih
    · exact hsplit.symm

theorem trimSpace_eq (text : String) :
    trimSpace text = String.ofList ((text.toList.rdropWhile isSpace).dropWhile isSpace) := by
  rw [dropWhile_rdropWhile]
  rfl

namespace Scan

variable (scan : Scan)

/-- The code of a scan, as Cloud asks for it. -/
def upperCode (u : UpperCase) : UpperCode u := ⟨u.toUpper scan.code, scan.code, rfl⟩

/-- What the order of a scan is trimmed to. -/
def orderChars : List Char :=
  ('s' :: 'c' :: 'a' :: 'n' :: '|' :: scan.code.toList) ++
    '|' :: scan.phone.toList.rdropWhile isSpace

/-- The order of a scan, as it is posted. -/
def orderText : String := "scan|" ++ scan.code ++ "|" ++ scan.phone

theorem trimSpace_orderText : trimSpace scan.orderText = String.ofList scan.orderChars := by
  have hchars : scan.orderText.toList =
      ('s' :: 'c' :: 'a' :: 'n' :: '|' :: scan.code.toList) ++ '|' :: scan.phone.toList := by
    simp [orderText]
  have hbar : isSpace '|' = false := by decide
  have hs : isSpace 's' = false := by decide
  rw [trimSpace_eq, hchars, rdropWhile_append_cons hbar, List.cons_append,
    List.dropWhile_cons_of_neg (by rw [hs]; decide)]
  rfl

theorem trimSpace_orderText_ne : trimSpace scan.orderText ≠ "" := by
  rw [trimSpace_orderText]
  intro h
  have hnil : scan.orderChars = [] := by
    rw [← String.toList_ofList (l := scan.orderChars), h]
    rfl
  cases hnil

/-- The order of a scan, of a campaign of the ledger. -/
def order (u : UpperCase) (a : AuthCtx) (chainID : UInt64) : OpaqueRef u where
  account := a
  subject := .tally chainID (scan.upperCode u)
  role := .business
  text := ⟨trimSpace scan.orderText, scan.trimSpace_orderText_ne⟩

/-- The phone of a scan, as Cloud keeps it. -/
def customerRef (d : Deployment) (u : UpperCase) (a : AuthCtx) (chainID : UInt64) : Bytes :=
  commitmentOf d a (.tally chainID (scan.upperCode u)) .customer scan.phone

/-- **Scans with the same order are of the same phone.** The codes are of one length, since they are
the same in upper case, so the texts of the orders are read in one way. -/
theorem customerRef_eq {scan scan' : Scan} {chainID chainID' : UInt64}
    (h : scan.order u a chainID = scan'.order u a chainID') :
    scan.customerRef d u a chainID = scan'.customerRef d u a chainID' := by
  have hsubject : RefSubject.tally chainID (scan.upperCode u) =
      .tally chainID' (scan'.upperCode u) := congrArg OpaqueRef.subject h
  have htext := congrArg (fun r : OpaqueRef u ↦ r.text.1) h
  dsimp only [order] at htext
  obtain ⟨rfl, hcode⟩ := RefSubject.tally.inj hsubject
  have hlen : scan.code.toList.length = scan'.code.toList.length := by
    have hupper : u.toUpper scan.code = u.toUpper scan'.code := congrArg Subtype.val hcode
    have hmap := congrArg String.toList hupper
    rw [UpperCase.toUpper, UpperCase.toUpper, String.toList_ofList, String.toList_ofList] at hmap
    simpa only [List.length_map] using congrArg List.length hmap
  have hchars : scan.orderChars = scan'.orderChars := by
    rw [scan.trimSpace_orderText, scan'.trimSpace_orderText] at htext
    have hchars := congrArg String.toList htext
    rwa [String.toList_ofList, String.toList_ofList] at hchars
  have hheads : ('s' :: 'c' :: 'a' :: 'n' :: '|' :: scan.code.toList).length =
      ('s' :: 'c' :: 'a' :: 'n' :: '|' :: scan'.code.toList).length := by
    simp only [List.length_cons, hlen]
  have hphone := (List.append_inj hchars hheads).2
  have htrim : trimSpace scan.phone = trimSpace scan'.phone := by
    rw [trimSpace_eq, trimSpace_eq, (List.cons.inj hphone).2]
  have htrimmed : trimmed scan.phone = trimmed scan'.phone := by
    rw [trimmed, trimmed]
    simp only [htrim]
  rw [customerRef, customerRef, hcode, commitmentOf, commitmentOf, htrimmed]

end Scan

/-! ### What Cloud holds -/

/-- A scan is of a shared code of a campaign of the account. -/
structure Scan.Of (scan : Scan) (u : UpperCase) (a : AuthCtx) (c : ScanCloud d)
    (row : SharedCodeRow) (x : CampaignRow) : Prop where
  row_mem : row ∈ c.reg.sharedCodes
  campaign_mem : x ∈ c.reg.campaigns
  account : x.account = a
  id : x.id = scan.campaignID
  campaignID : row.campaignID = scan.campaignID
  code : row.code = utf8 (u.toUpper scan.code)

/-- Cloud holds an event of the phone of a scan for its shared code. -/
def ScanCloud.Holds (c : ScanCloud d) (u : UpperCase) (a : AuthCtx) (scan : Scan) : Prop :=
  ∃ row x, scan.Of u a c row x ∧ ∃ e ∈ c.db.sharedEvents.rows,
    e.sharedCodeID = row.id ∧ e.customerRef = scan.customerRef d u a x.chainID

/-- An event is of the phone of a scan, for its shared code. -/
def NewEvent.OfScan (e : NewEvent) (u : UpperCase) (a : AuthCtx) (c : ScanCloud d) (scan : Scan) :
    Prop :=
  ∃ row x, scan.Of u a c row x ∧ e.sharedCodeID = row.id ∧
    e.customerRef = scan.customerRef d u a x.chainID

/-- An event is posted for a scan: it has the order of the scan besides. -/
def Posted (u : UpperCase) (a : AuthCtx) (M : Set Bytes) (c : ScanCloud d) (scan : Scan)
    (e : NewEvent) : Prop :=
  ∃ row x, scan.Of u a c row x ∧ e.sharedCodeID = row.id ∧
    e.customerRef = scan.customerRef d u a x.chainID ∧
    e.orderRef = some ((scan.order u a x.chainID).commitment d) ∧
    (scan.order u a x.chainID).material ∈ M

theorem Posted.ofScan {M : Set Bytes} {c : ScanCloud d} {scan : Scan} {e : NewEvent}
    (h : Posted u a M c scan e) : e.OfScan u a c scan :=
  let ⟨row, x, hof, hid, hcustomer, _⟩ := h
  ⟨row, x, hof, hid, hcustomer⟩

theorem Posted.hashed {M : Set Bytes} {c : ScanCloud d} {scan : Scan} {e : NewEvent}
    (h : Posted u a M c scan e) : ∃ m ∈ M, e.orderRef.getD [] = hexEncode (d.refMac m).bytes := by
  obtain ⟨row, x, -, -, -, href, hmem⟩ := h
  refine ⟨_, hmem, ?_⟩
  rw [href, Option.getD_some, OpaqueRef.commitment_eq]

/-- Nothing is lost from one state of Cloud to another. -/
structure ScanCloud.Later (c c' : ScanCloud d) : Prop where
  events : ∀ e ∈ c.db.sharedEvents.rows, e ∈ c'.db.sharedEvents.rows
  code : ∀ row ∈ c.reg.sharedCodes, row ∈ c'.reg.sharedCodes
  campaign : ∀ x ∈ c.reg.campaigns, ∃ x' ∈ c'.reg.campaigns, x'.id = x.id ∧
    x'.account = x.account ∧ x'.chainID = x.chainID

namespace ScanCloud.Later

variable {c c' : ScanCloud d}

theorem of_eq (h : c' = c) : c.Later c' := by
  rw [h]
  exact ⟨fun _ ↦ id, fun _ ↦ id, fun x hx ↦ ⟨x, hx, rfl, rfl, rfl⟩⟩

theorem trans {c'' : ScanCloud d} (h : c.Later c') (h' : c'.Later c'') : c.Later c'' where
  events e he := h'.events e (h.events e he)
  code row hrow := h'.code row (h.code row hrow)
  campaign x hx := by
    obtain ⟨x', hx', hid, haccount, hchain⟩ := h.campaign x hx
    obtain ⟨x'', hx'', hid', haccount', hchain'⟩ := h'.campaign x' hx'
    exact ⟨x'', hx'', hid'.trans hid, haccount'.trans haccount, hchain'.trans hchain⟩

theorem of_grows (h : c.Grows c') : c.Later c' :=
  ⟨fun e he ↦ by rwa [h.db], h.code, h.campaign⟩

theorem of_store {db : Database} {e : NewEvent} (h : c.db.storeEvent a e = .ok db) :
    c.Later { c with db } :=
  ⟨fun x hx ↦ by
    show x ∈ db.sharedEvents.rows
    rw [(storeEvent_ok h).1]
    exact List.mem_append_left _ hx, fun _ ↦ id, fun x hx ↦ ⟨x, hx, rfl, rfl, rfl⟩⟩

theorem of {scan : Scan} {row : SharedCodeRow} {x : CampaignRow} (h : c.Later c')
    (hof : scan.Of u a c row x) : ∃ x', scan.Of u a c' row x' ∧ x'.chainID = x.chainID := by
  obtain ⟨x', hx', hid, haccount, hchain⟩ := h.campaign x hof.campaign_mem
  exact ⟨x', ⟨h.code row hof.row_mem, hx', haccount.trans hof.account, hid.trans hof.id,
    hof.campaignID, hof.code⟩, hchain⟩

theorem holds {scan : Scan} (h : c.Later c') (hholds : c.Holds u a scan) : c'.Holds u a scan := by
  obtain ⟨row, x, hof, e, he, hid, hcustomer⟩ := hholds
  obtain ⟨x', hof', hchain⟩ := h.of hof
  exact ⟨row, x', hof', e, h.events e he, hid, hchain.symm ▸ hcustomer⟩

theorem posted {M : Set Bytes} {scan : Scan} {e : NewEvent} (h : c.Later c')
    (hposted : Posted u a M c scan e) : Posted u a M c' scan e := by
  obtain ⟨row, x, hof, hid, hrest⟩ := hposted
  obtain ⟨x', hof', hchain⟩ := h.of hof
  exact ⟨row, x', hof', hid, hchain.symm ▸ hrest⟩

end ScanCloud.Later

/-- The shared code and the campaign of a scan are its own. -/
theorem Scan.Of.unique {scan scan' : Scan} {c : ScanCloud d} {row row' : SharedCodeRow}
    {x x' : CampaignRow} (h : scan.Of u a c row x) (h' : scan'.Of u a c row' x')
    (hid : row.id = row'.id) : row = row' ∧ x = x' := by
  have hrow := c.reg.code_key row h.row_mem row' h'.row_mem hid
  refine ⟨hrow, c.reg.campaign_key x h.campaign_mem x' h'.campaign_mem ?_⟩
  rw [h.id, h'.id, ← h.campaignID, ← h'.campaignID, hrow]

theorem Scan.Of.unique_of_scan {scan : Scan} {c : ScanCloud d} {row row' : SharedCodeRow}
    {x x' : CampaignRow} (h : scan.Of u a c row x) (h' : scan.Of u a c row' x') :
    row = row' ∧ x = x' := by
  have hrow := c.reg.code_name_key row h.row_mem row' h'.row_mem
    (h.campaignID.trans h'.campaignID.symm) (h.code.trans h'.code.symm)
  exact h.unique h' (congrArg _ hrow)

/-- What is stored for a scan is held. -/
theorem Posted.holds {M : Set Bytes} {c : ScanCloud d} {scan : Scan} {e : NewEvent}
    {db : Database} (h : Posted u a M c scan e) (hstore : c.db.storeEvent a e = .ok db) :
    ({ c with db } : ScanCloud d).Holds u a scan := by
  obtain ⟨row, x, hof, hid, hcustomer, -⟩ := h
  obtain ⟨x', hof', hchain⟩ := (ScanCloud.Later.of_store hstore).of hof
  refine ⟨row, x', hof', e.row c.db.sharedEvents.nextID, ?_, hid, hchain.symm ▸ hcustomer⟩
  show _ ∈ db.sharedEvents.rows
  rw [(storeEvent_ok hstore).1]
  exact List.mem_append_right _ List.mem_cons_self

/-- **Events with the order of one shared code are of one phone.** -/
theorem Posted.holds_of_order (hu : u.NoSmall) {M : Set Bytes} (hinj : Set.InjOn d.refMac M)
    {c : ScanCloud d} {scan scan' : Scan} {e e' : NewEvent} (h : Posted u a M c scan e)
    (h' : Posted u a M c scan' e') (hid : e.sharedCodeID = e'.sharedCodeID)
    (horder : e.orderRef.getD [] = e'.orderRef.getD []) (hholds : c.Holds u a scan') :
    c.Holds u a scan := by
  obtain ⟨row, x, hof, hrow, -, href, hmem⟩ := h
  obtain ⟨row', x', hof', hrow', -, href', hmem'⟩ := h'
  obtain ⟨rfl, rfl⟩ := hof.unique hof' (hrow.symm.trans (hid.trans hrow'))
  have horder : (scan.order u a x.chainID).commitment d =
      (scan'.order u a x.chainID).commitment d := by
    simpa only [href, href', Option.getD_some] using horder
  have hphone := Scan.customerRef_eq (d := d) (OpaqueRef.commitment_inj hu hinj hmem hmem' horder)
  obtain ⟨row₁, x₁, hof₁, e₁, he₁, hid₁, hcustomer⟩ := hholds
  obtain ⟨rfl, rfl⟩ := hof₁.unique_of_scan hof'
  exact ⟨row₁, x₁, hof, e₁, he₁, hid₁, hcustomer.trans hphone.symm⟩

end Soroticket
