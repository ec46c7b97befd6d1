import Soroticket.Cloud.Asks
import Soroticket.Cloud.References
import Soroticket.Ledger.Refusals

/-!
# What Cloud accepts the contract accepts

The handlers that create campaigns and programs, register codes and issue codes check a request
before they call the contract, which checks the call again. A request that passes is called for with
well formed calls (`Call.WellFormed`), which the contract does not refuse for what they say.

Each of the validators leaves a job that is `Valid`, and a handler with such a job asks only for
calls that are `Prompt`: well formed, and for a campaign that is not over at the time the handler
read. One validator differs: `handleCreateProgram` puts in its default for a missing type before it
trims the type, so one of white space only is empty when the contract sees it (`Creation.Blank`).
-/

namespace Soroticket

open Programs Handler Paging Outcome

variable {d : Deployment} {reg : Registry d}

/-! ### Texts -/

theorem toUpper_ne_empty (u : UpperCase) {text : String} (h : text ≠ "") : u.toUpper text ≠ "" := by
  intro heq
  have hlist : text.toList.map u.upper = [] := by
    rw [UpperCase.toUpper] at heq
    simpa using congrArg String.toList heq
  exact h (by simpa using List.map_eq_nil_iff.1 hlist)

theorem toNat_toUInt64 {n : Int64} (h : 0 ≤ n) : (n.toUInt64.toNat : ℤ) = n.toInt := by
  have hpos : 0 ≤ n.toInt := Int64.le_iff_toInt_le.1 h
  rw [Int64.toNat_toUInt64_of_le h, Int64.toNatClampNeg, Int.toNat_of_nonneg hpos]

/-! ### Jobs -/

/-- A shared code that the contract has no objection to, with a rate the client can send. -/
structure SharedJob.Valid (j : SharedJob) : Prop where
  code : j.code ≠ ""
  codeLen : j.code.utf8ByteSize ≤ maxCodeLen
  attributed : j.payoutToken.isSome = true → j.attributedTo.isSome = true
  rate : if j.payoutToken.isSome then 0 < j.rate else j.rate = 0
  fits : j.rate < 2 ^ 127

/-- A campaign that the contract has no objection to, and that is not over at the time of a
clock. -/
structure CampaignJob.Valid (clock : Clock) (j : CampaignJob) : Prop where
  name : j.name ≠ ""
  nameLen : j.name.utf8ByteSize ≤ maxNameLen
  discountType : j.discountType ≠ ""
  discountTypeLen : j.discountType.utf8ByteSize ≤ maxDiscountTypeLen
  supply : 0 < j.totalSupply
  supplyMax : j.totalSupply ≤ 4294967295
  current : clock.now < j.validUntil
  shared : ∀ shared, j.shared = some shared → shared.Valid

section Validators

variable {cl : Platform}

theorem payoutTerms_eq_ok {payoutRate message : String} {token : Option Address} {rate : ℤ}
    (h : cl.payoutTerms payoutRate message = .ok (token, rate)) :
    (if token.isSome then 0 < rate else rate = 0) ∧ rate < 2 ^ 127 := by
  rw [Platform.payoutTerms] at h
  split at h
  · split at h
    · split at h
      · rename_i hrate
        obtain ⟨rfl, rfl⟩ := Prod.mk.inj (Except.ok.inj h)
        exact hrate
      · exact absurd h nofun
    · exact absurd h nofun
  · obtain ⟨rfl, rfl⟩ := Prod.mk.inj (Except.ok.inj h)
    exact ⟨rfl, by decide⟩

/-- Terms that pass are in order, whether or not an attribution is asked for. -/
theorem attribution_eq_ok {terms : SharedTerms} {required : Bool} {message : String}
    {attributedTo token : Option Address} {rate : ℤ}
    (h : cl.attribution terms required message = .ok (attributedTo, token, rate)) :
    (token.isSome = true → attributedTo.isSome = true) ∧
      (if token.isSome then 0 < rate else rate = 0) ∧ rate < 2 ^ 127 := by
  rw [Platform.attribution] at h
  split at h
  · obtain ⟨_, -, h⟩ := bind_eq_ok.1 h
    obtain ⟨rfl, rfl, rfl⟩ : none = attributedTo ∧ none = token ∧ 0 = rate := by
      simpa using Except.ok.inj h
    exact ⟨id, rfl, by decide⟩
  · obtain ⟨address, -, h⟩ := bind_eq_ok.1 h
    obtain ⟨⟨token', rate'⟩, hterms, h⟩ := bind_eq_ok.1 h
    obtain ⟨rfl, rfl, rfl⟩ : some address = attributedTo ∧ token' = token ∧ rate' = rate := by
      simpa using Except.ok.inj h
    exact ⟨fun _ ↦ rfl, payoutTerms_eq_ok hterms⟩

theorem sharedRequest_eq_ok {body : SharedTerms} {j : SharedJob}
    (h : cl.sharedRequest body = .ok j) : j.Valid := by
  obtain ⟨_, hcode, h⟩ := bind_eq_ok.1 h
  obtain ⟨_, hlen, h⟩ := bind_eq_ok.1 h
  obtain ⟨⟨attributedTo, token, rate⟩, hterms, h⟩ := bind_eq_ok.1 h
  obtain rfl := Except.ok.inj h
  obtain ⟨hattributed, hrate, hfits⟩ := attribution_eq_ok hterms
  exact ⟨rejectWhen_eq_ok.1 hcode, not_lt.1 (rejectWhen_eq_ok.1 hlen), hattributed, hrate, hfits⟩

theorem campaignShared_eq_ok {kind : String} {terms : SharedTerms} {j : SharedJob}
    (h : cl.campaignShared kind terms = .ok j) (hcode : trimSpace terms.code ≠ "") : j.Valid := by
  have hne : cl.normalize terms.code ≠ "" := toUpper_ne_empty cl.unicode hcode
  obtain ⟨_, hlen, h⟩ := bind_eq_ok.1 h
  split at h
  · obtain ⟨⟨attributedTo, token, rate⟩, hterms, h⟩ := bind_eq_ok.1 h
    obtain rfl := Except.ok.inj h
    obtain ⟨hattributed, hrate, hfits⟩ := attribution_eq_ok hterms
    exact ⟨hne, not_lt.1 (rejectWhen_eq_ok.1 hlen), hattributed, hrate, hfits⟩
  · obtain rfl := Except.ok.inj h
    exact ⟨hne, not_lt.1 (rejectWhen_eq_ok.1 hlen), id, rfl,
      show (0 : ℤ) < 2 ^ 127 by decide⟩

theorem requiredShared_eq_ok {kind : String} {shared : Option SharedTerms} {j : Option SharedJob}
    (h : cl.requiredShared kind shared = .ok j) : ∀ shared, j = some shared → shared.Valid := by
  rintro shared' rfl
  rw [Platform.requiredShared] at h
  split at h
  · obtain ⟨terms, hterms, h⟩ := bind_eq_ok.1 h
    obtain ⟨job, hjob, h⟩ := bind_eq_ok.1 h
    obtain rfl := Option.some.inj (Except.ok.inj h)
    obtain ⟨-, hcode⟩ := Option.filter_eq_some_iff.1 (orProblem_eq_ok.1 hterms)
    exact campaignShared_eq_ok hjob (of_decide_eq_true hcode)
  · exact absurd (Except.ok.inj h) nofun

theorem campaignRequest_eq_ok {first second : Clock} {body : CampaignBody} {j : CampaignJob}
    (h : cl.campaignRequest first second body = .ok j) : j.Valid second := by
  obtain ⟨_, -, h⟩ := bind_eq_ok.1 h
  obtain ⟨_, htexts, h⟩ := bind_eq_ok.1 h
  obtain ⟨_, -, h⟩ := bind_eq_ok.1 h
  obtain ⟨_, hcurrent, h⟩ := bind_eq_ok.1 h
  obtain ⟨_, hzero, h⟩ := bind_eq_ok.1 h
  obtain ⟨_, hsupply, h⟩ := bind_eq_ok.1 h
  obtain ⟨shared, hshared, h⟩ := bind_eq_ok.1 h
  obtain rfl := Except.ok.inj h
  obtain ⟨hname, hnameLen, htype, htypeLen⟩ : trimSpace body.name ≠ "" ∧
      ¬96 < (trimSpace body.name).utf8ByteSize ∧ trimSpace body.discountType ≠ "" ∧
      ¬32 < (trimSpace body.discountType).utf8ByteSize := by
    simpa only [not_or] using rejectWhen_eq_ok.1 htexts
  obtain ⟨hnonneg, hmax⟩ := not_or.1 (rejectWhen_eq_ok.1 hsupply)
  refine ⟨hname, not_lt.1 hnameLen, htype, not_lt.1 htypeLen, ?_, Int64.not_lt.1 hmax,
    Int64.not_le.1 (rejectWhen_eq_ok.1 hcurrent), requiredShared_eq_ok hshared⟩
  dsimp only
  split
  · decide
  · rename_i hne
    rw [if_neg hne] at hnonneg
    exact Int64.lt_of_le_of_ne (Int64.not_lt.1 hnonneg) (Ne.symm hne)

/-- A program whose type is not blank is what the contract has no objection to. -/
theorem programRequest_eq_ok {body : ProgramBody} {j : ProgramJob}
    (h : programRequest body = .ok j) :
    j.name ≠ "" ∧ j.name.utf8ByteSize ≤ maxNameLen ∧
      j.rewardDiscountType.utf8ByteSize ≤ maxDiscountTypeLen ∧
      (j.rewardDiscountType = "" ↔
        body.rewardDiscountType ≠ "" ∧ trimSpace body.rewardDiscountType = "") ∧
      0 < j.validYears := by
  obtain ⟨_, hname, h⟩ := bind_eq_ok.1 h
  obtain ⟨_, -, h⟩ := bind_eq_ok.1 h
  obtain ⟨_, htype, h⟩ := bind_eq_ok.1 h
  obtain ⟨_, -, h⟩ := bind_eq_ok.1 h
  obtain rfl := Except.ok.inj h
  obtain ⟨hname, hnameLen, -, -⟩ : trimSpace body.name ≠ "" ∧
      ¬96 < (trimSpace body.name).utf8ByteSize ∧ _ ∧ _ := by
    simpa only [not_or] using rejectWhen_eq_ok.1 hname
  refine ⟨hname, not_lt.1 hnameLen, not_lt.1 (rejectWhen_eq_ok.1 htype), ?_, ?_⟩
  · dsimp only
    split
    · rename_i hempty
      rw [hempty]
      exact ⟨fun h ↦ absurd h (by decide), fun h ↦ absurd rfl h.1⟩
    · rename_i hne
      exact ⟨fun h ↦ ⟨hne, h⟩, And.right⟩
  · dsimp only
    split
    · decide
    · rename_i hpos
      have hlt : (0 : ℤ) < body.validYears.toInt := Int64.lt_iff_toInt_lt.1 (Int64.not_le.1 hpos)
      omega

end Validators

/-! ### Codes to issue -/

section Codes

variable {cl : Platform}

theorem givenCodes_ne_empty {codes : List String} {code : String}
    (h : code ∈ cl.givenCodes codes) : code ≠ "" := by
  simpa using (List.mem_filter.1 h).2

theorem genCode_ne_empty {codePrefix : String} (letters : Letters generatedLen) :
    genCode codePrefix letters ≠ "" := by
  intro h
  have hlength := congrArg String.length h
  rw [genCode] at hlength
  split at hlength
  · simp [letters.2.1, generatedLen] at hlength
  · simp [letters.2.1, generatedLen] at hlength

theorem nodup_of_firstRepeated {seen codes : List String} (h : firstRepeated seen codes = none) :
    codes.Nodup ∧ ∀ code ∈ codes, code ∉ seen := by
  induction codes generalizing seen with
  | nil => exact ⟨List.nodup_nil, fun _ h ↦ absurd h List.not_mem_nil⟩
  | cons code codes ih =>
    rw [firstRepeated] at h
    split at h
    · exact absurd h nofun
    · rename_i hnew
      obtain ⟨hnodup, hfresh⟩ := ih h
      refine ⟨List.nodup_cons.2 ⟨fun hmem ↦ hfresh code hmem List.mem_cons_self, hnodup⟩, ?_⟩
      intro code' hmem hseen
      rcases List.mem_cons.1 hmem with rfl | hmem
      · exact hnew hseen
      · exact hfresh code' hmem (List.mem_cons_of_mem _ hseen)

theorem checkCodes_eq_ok {codes : List String} {u : Unit} (h : checkCodes codes = .ok u) :
    (∀ code ∈ codes, code.utf8ByteSize ≤ maxCodeLen) ∧ codes.Nodup := by
  obtain ⟨_, -, h⟩ := bind_eq_ok.1 h
  obtain ⟨_, -, h⟩ := bind_eq_ok.1 h
  split at h
  · exact absurd h nofun
  · rename_i hnone
    split at h
    · exact absurd h nofun
    · rename_i hrepeated
      refine ⟨fun code hmem ↦ ?_, (nodup_of_firstRepeated hrepeated).1⟩
      have hshort := List.find?_eq_none.1 hnone code hmem
      rw [decide_eq_true_eq] at hshort
      exact not_lt.1 hshort

/-- A batch of codes that the contract has no objection to. -/
def ValidBatch (batch : List String) : Prop :=
  batch ≠ [] ∧ batch.length ≤ maxBatch ∧
    (∀ code ∈ batch, code ≠ "" ∧ code.utf8ByteSize ≤ maxCodeLen) ∧ batch.Nodup

theorem validBatch_of_mem {codes batch : List String} (h : batch ∈ issueBatches codes)
    (hne : ∀ code ∈ codes, code ≠ "") (hlen : ∀ code ∈ codes, code.utf8ByteSize ≤ maxCodeLen)
    (hnodup : codes.Nodup) : ValidBatch batch := by
  obtain ⟨i, hi, rfl⟩ := List.mem_map.1 h
  have hsub : (page codes (i * maxBatch) maxBatch).Sublist codes :=
    (List.take_sublist _ _).trans (List.drop_sublist _ _)
  refine ⟨fun hnil ↦ ?_, ?_, fun code hcode ↦ ?_, hnodup.sublist hsub⟩
  · rw [page_eq_nil_iff (by decide)] at hnil
    have hi := List.mem_range.1 hi
    rw [show maxBatch = 100 from rfl] at hi hnil
    omega
  · rw [length_page]
    exact min_le_left _ _
  · have hmem := hsub.subset hcode
    exact ⟨hne code hmem, hlen code hmem⟩

theorem wellFormed_issueUnique {batch : List String} (h : ValidBatch batch) (signer : Address)
    (chainID : UInt64) : (Call.issueUnique signer chainID (batch.map utf8)).WellFormed := by
  obtain ⟨hne, hlen, hcodes, hnodup⟩ := h
  refine ⟨fun hnil ↦ hne (List.map_eq_nil_iff.1 hnil), by rwa [List.length_map], ?_,
    hnodup.map fun _ _ ↦ utf8_inj⟩
  intro code hmem
  obtain ⟨text, htext, rfl⟩ := List.mem_map.1 hmem
  exact ⟨utf8_ne_nil (hcodes text htext).1, (hcodes text htext).2⟩

end Codes

/-! ### Calls -/

/-- What a handler has heard: the last time it read, and the errors it was answered with by the
client of its account and the contract. -/
structure Heard where
  now : Option Clock
  failed : List ChainError

/-- A campaign is not over at the time that was read. -/
def Call.Timely (now : Option Clock) : Call → Prop
  | .createCampaign _ _ _ _ _ validUntil =>
    ∃ clock, now = some clock ∧ clock.now.toInt < validUntil.toNat
  | _ => True

/-- Calls are well formed, and campaigns are not over. -/
def acceptance (reg : Registry d) : Law (@Ask.Reply d reg) Heard where
  may heard
    | .call call => call.WellFormed ∧ call.Timely heard.now
    | _ => True
  possible _ _ _ := True
  next heard e r :=
    match e, r with
    | .now, clock => { heard with now := some clock }
    | .clientFor _, .error (.chainError e) => { heard with failed := heard.failed ++ [e] }
    | .call _, .error e => { heard with failed := heard.failed ++ [e] }
    | _, _ => heard

/-- An error of the chain that is the answer was heard. -/
def Heard.Explains (heard : Heard) : Response → Prop
  | .chainError e => e ∈ heard.failed
  | _ => True

/-- A handler that calls the contract only with what it accepts, and whose errors of the chain are
none of its own. -/
abbrev Prompt {α : Type} (h : Work reg α) (heard : Heard) (m : Meter) : Prop :=
  h.Keeps (acceptance reg) m heard (fun _ _ _ ↦ True) fun x _ heard ↦ heard.Explains x

section Handlers

variable {cl : Platform} {α β : Type} {heard : Heard} {m : Meter}

/-- Charges and their resolution call nothing. -/
theorem silent_resolve_acceptance (heard : Heard) (c : Charge) (how : Resolve) :
    (acceptance reg).Silent heard (.resolve c how) := ⟨trivial, fun _ ↦ rfl⟩

theorem explains_clientFor {a : AuthCtx} (x : Response) :
    ((acceptance reg).next heard (.clientFor a) (.error x)).Explains x := by
  cases x with
  | chainError e => exact List.mem_concat_self
  | _ => trivial

theorem prompt_withClient {a : AuthCtx} {h : Address → Work reg α}
    (hh : ∀ signer, Prompt (h signer) heard m) : Prompt (withClient a h) heard m := by
  refine keeps_withClient trivial (fun signer _ ↦ ?_) fun x _ ↦ explains_clientFor x
  exact (hh signer).mono (fun _ _ _ h ↦ ⟨trivial, fun _ _ ↦ h⟩)
    fun _ _ _ h ↦ ⟨trivial, fun _ _ ↦ h⟩

/-- A call whose error is the answer. -/
theorem prompt_callClient {c : Call} {f : Value × Bytes → Work reg β}
    {Q : β → Meter → Heard → Prop} (hc : c.WellFormed ∧ c.Timely heard.now)
    (hf : ∀ v, (f v).Keeps (acceptance reg) m heard Q fun x _ heard ↦ heard.Explains x) :
    (callClient c >>= f).Keeps (acceptance reg) m heard Q fun x _ heard ↦ heard.Explains x :=
  step_callClient hc (fun v _ ↦ hf v) fun _ _ ↦ List.mem_concat_self

theorem SharedJob.Valid.ofInt?_ne_none {j : SharedJob} (hj : j.Valid) :
    I128.ofInt? j.rate ≠ none := by
  have hterms := hj.rate
  have hfits := hj.fits
  have hnonneg : 0 ≤ j.rate := by
    split at hterms
    · exact hterms.le
    · exact hterms.ge
  rw [I128.ofInt?]
  split
  · exact Option.some_ne_none _
  · rename_i hrange
    exact absurd ⟨by omega, by omega⟩ hrange

theorem wellFormed_registerShared {j : SharedJob} (hj : j.Valid) {rate : I128}
    (hrate : rate.val = j.rate) (signer : Address) (chainID : UInt64) :
    (Call.registerShared signer chainID (utf8 j.code) j.attributedTo j.payoutToken
      rate).WellFormed := by
  refine ⟨utf8_ne_nil hj.code, hj.codeLen, hj.attributed, ?_⟩
  have hterms := hj.rate
  split
  · rename_i hsome
    rw [if_pos hsome] at hterms
    rw [I128.lt_def, hrate]
    exact hterms
  · rename_i hnone
    rw [if_neg hnone] at hterms
    exact I128.ext (hrate.trans hterms)

theorem prompt_registerSharedCode {signer : Address} {chainID : UInt64} {j : SharedJob}
    (hj : j.Valid) {f : Bytes → Work reg β} (hf : ∀ txHash, Prompt (f txHash) heard m) :
    Prompt (registerSharedCode signer chainID j >>= f) heard m := by
  refine keeps_bind.2 ?_
  rw [registerSharedCode]
  split
  · rename_i hnone
    exact absurd hnone (hj.ofInt?_ne_none)
  · rename_i rate hrate
    have hwell := wellFormed_registerShared hj (I128.ofInt?_eq_some_iff.1 hrate)
    refine prompt_callClient ⟨hwell signer chainID, trivial⟩ ?_
    rintro ⟨value, txHash⟩
    exact keeps_pure.2 (hf txHash)

theorem toUInt32_ne_zero {n : Int64} (hpos : 0 < n) (hmax : n ≤ 4294967295) :
    n.toUInt64.toUInt32 ≠ 0 := by
  intro hzero
  have hn := toNat_toUInt64 (Int64.le_of_lt hpos)
  have hpos := Int64.lt_iff_toInt_lt.1 hpos
  have hmax := Int64.le_iff_toInt_le.1 hmax
  have hmod := congrArg UInt32.toNat hzero
  rw [UInt64.toNat_toUInt32] at hmod
  have hbound : (4294967295 : Int64).toInt = 4294967295 := by decide
  have h0 : (0 : Int64).toInt = 0 := by decide
  have h0' : (0 : UInt32).toNat = 0 := rfl
  omega

/-- Everything a new campaign asks of the contract it accepts. -/
theorem prompt_createCampaign (a : AuthCtx) (body : CampaignBody) :
    Prompt (handleCreateCampaign cl a body : Work reg Response) heard m := by
  refine step_query trivial fun first _ ↦ ?_
  refine step_query trivial fun second _ ↦ ?_
  refine step_checked (fun job hjob ↦ ?_) fun _ _ ↦ trivial
  have hvalid := campaignRequest_eq_ok hjob
  refine step_reserveCharge_silent ⟨trivial, fun _ ↦ rfl⟩ (fun m ↦ ?_) fun _ ↦ trivial
  refine keeps_deferCommitUsed_silent silent_resolve_acceptance (prompt_withClient fun signer ↦ ?_)
  refine prompt_callClient ⟨⟨?_, ?_, ?_, ?_, ?_⟩, second, rfl, ?_⟩ fun v ↦ ?_
  · exact toUInt32_ne_zero hvalid.supply hvalid.supplyMax
  · exact utf8_ne_nil hvalid.name
  · exact hvalid.nameLen
  · exact utf8_ne_nil hvalid.discountType
  · exact hvalid.discountTypeLen
  · have hcurrent := Int64.lt_iff_toInt_lt.1 hvalid.current
    have hnow := Int64.le_iff_toInt_le.1 second.now_nonneg
    rw [toNat_toUInt64 (Int64.le_of_lt (Int64.lt_of_le_of_lt second.now_nonneg hvalid.current))]
    exact hcurrent
  refine step_setUsed (step_query trivial fun id _ ↦ ?_)
  refine step_orStop (fun id _ ↦ ?_) trivial
  rcases hshared : job.shared with - | shared
  · exact keeps_pure.2 trivial
  · refine prompt_registerSharedCode (hvalid.shared shared hshared) fun txHash ↦ ?_
    refine step_setUsed (step_query trivial fun (stored : Bool) _ ↦ ?_)
    exact step_problemWhen (fun _ ↦ keeps_pure.2 trivial) fun _ ↦ trivial

/-- So does a new program, unless its type is blank. -/
theorem prompt_createProgram (a : AuthCtx) {body : ProgramBody}
    (hblank : ∀ job, programRequest body = .ok job → job.rewardDiscountType ≠ "") :
    Prompt (handleCreateProgram a body : Work reg Response) heard m := by
  refine step_checked (fun job hjob ↦ ?_) fun _ _ ↦ trivial
  obtain ⟨hname, hnameLen, htypeLen, -, hyears⟩ := programRequest_eq_ok hjob
  refine step_reserveCharge_silent ⟨trivial, fun _ ↦ rfl⟩ (fun m ↦ ?_) fun _ ↦ trivial
  refine keeps_deferCommitUsed_silent silent_resolve_acceptance (prompt_withClient fun signer ↦ ?_)
  refine step_query trivial fun clock _ ↦ ?_
  refine prompt_callClient ⟨⟨by decide, ?_, hnameLen, ?_, htypeLen⟩, clock, rfl, ?_⟩ fun v ↦ ?_
  · exact utf8_ne_nil hname
  · exact utf8_ne_nil (hblank job hjob)
  · have hlater := clock.now_lt job.validYears hyears
    rw [toNat_toUInt64 (Int64.le_of_lt (Int64.lt_of_le_of_lt clock.now_nonneg hlater))]
    exact Int64.lt_iff_toInt_lt.1 hlater
  refine step_setUsed (prompt_registerSharedCode ?_ fun txHash ↦ ?_)
  · exact ⟨by decide, by decide, id, rfl, show (0 : ℤ) < 2 ^ 127 by decide⟩
  refine step_setUsed (step_query trivial fun row _ ↦ ?_)
  exact step_orStop (fun _ _ ↦ keeps_pure.2 trivial) trivial

theorem prompt_registerShared (a : AuthCtx) (id : ℕ) (body : SharedTerms) :
    Prompt (handleRegisterShared cl a id body : Work reg Response) heard m := by
  unfold handleRegisterShared
  refine step_writableCampaign ⟨trivial, fun _ ↦ rfl⟩ (fun c _ _ ↦ ?_) fun _ ↦ trivial
  refine step_checked (fun job hjob ↦ ?_) fun _ _ ↦ trivial
  refine step_reserveCharge_silent ⟨trivial, fun _ ↦ rfl⟩ (fun m ↦ ?_) fun _ ↦ trivial
  refine keeps_deferRefund_silent silent_resolve_acceptance (prompt_withClient fun signer ↦ ?_)
  refine prompt_registerSharedCode (sharedRequest_eq_ok hjob) fun txHash ↦ ?_
  refine step_resolveCharge_silent (silent_resolve_acceptance _ · _) fun m ↦ ?_
  refine step_query trivial fun (stored : Bool) _ ↦ ?_
  exact step_problemWhen (fun _ ↦ keeps_pure.2 trivial) fun _ ↦ trivial

/-- One valid batch after the other. -/
theorem prompt_issueCodes {signer : Address} {chainID : UInt64} {campaignID : ℕ}
    {batches : List (List String)} (hbatches : ∀ batch ∈ batches, ValidBatch batch)
    (issued : List IssuedCode) {f : List IssuedCode → Work reg β}
    (hf : ∀ issued, Prompt (f issued) heard m) :
    Prompt (issueCodes signer chainID campaignID batches issued >>= f) heard m := by
  refine keeps_bind.2 ?_
  induction batches generalizing issued with
  | nil => exact keeps_pure.2 (hf issued)
  | cons batch batches ih =>
    have hbatch := hbatches batch List.mem_cons_self
    refine step_query ⟨wellFormed_issueUnique hbatch signer chainID, trivial⟩ fun r _ ↦ ?_
    split
    · split
      · exact step_resolveCharge_silent (silent_resolve_acceptance _ · _)
          fun _ ↦ keeps_stop.2 trivial
      · exact keeps_stop.2 List.mem_concat_self
    · refine step_insertCodes (fun _ ↦ ⟨trivial, fun _ ↦ rfl⟩) ?_ _
      exact ih (fun batch h ↦ hbatches batch (List.mem_cons_of_mem _ h)) _

theorem prompt_issueRequest (a : AuthCtx) (id : ℕ) (body : IssueBody) :
    Prompt (handleIssueCodes cl a id body : Work reg Response) heard m := by
  unfold handleIssueCodes
  refine step_writableCampaign ⟨trivial, fun _ ↦ rfl⟩ (fun c _ _ ↦ ?_) fun _ ↦ trivial
  refine step_requestedCodes (fun _ ↦ ⟨trivial, fun _ ↦ rfl⟩) (fun codes hcodes ↦ ?_)
    fun _ ↦ trivial
  have hne : ∀ code ∈ codes, code ≠ "" := by
    intro code hmem
    rcases hcodes code hmem with hgiven | ⟨codePrefix, letters, rfl⟩
    · exact givenCodes_ne_empty hgiven
    · exact genCode_ne_empty letters
  refine step_checked (fun _ hcheck ↦ ?_) fun _ _ ↦ trivial
  obtain ⟨hlen, hnodup⟩ := checkCodes_eq_ok hcheck
  refine step_reserveCharge_silent ⟨trivial, fun _ ↦ rfl⟩ (fun m ↦ ?_) fun _ ↦ trivial
  refine keeps_deferRefund_silent silent_resolve_acceptance (prompt_withClient fun signer ↦ ?_)
  refine prompt_issueCodes (fun batch h ↦ validBatch_of_mem h hne hlen hnodup) [] fun issued ↦ ?_
  refine step_query trivial fun _ _ ↦ ?_
  exact step_resolveCharge_silent (silent_resolve_acceptance _ · _) fun _ ↦ keeps_pure.2 trivial

end Handlers

/-! ### Requests -/

/-- A request that creates, registers or issues. -/
inductive Creation where
  | campaign (body : CampaignBody)
  | program (body : ProgramBody)
  | shared (campaignID : ℕ) (body : SharedTerms)
  | codes (campaignID : ℕ) (body : IssueBody)

/-- The handler of a request. -/
def Creation.handle (reg : Registry d) (cl : Platform) (a : AuthCtx) :
    Creation → Work reg Response
  | campaign body => handleCreateCampaign cl a body
  | program body => handleCreateProgram a body
  | shared campaignID body => handleRegisterShared cl a campaignID body
  | codes campaignID body => handleIssueCodes cl a campaignID body

/-- A program that passes the checks with a type of white space only. -/
def Creation.Blank : Creation → Prop
  | program body => (programRequest body).isOk = true ∧ body.rewardDiscountType ≠ "" ∧
    trimSpace body.rewardDiscountType = ""
  | _ => False

/-- What a run has heard. -/
def heardIn (t : List (Exchange (@Ask.Reply d reg))) : Heard := (acceptance reg).after ⟨none, []⟩ t

/-- What Cloud accepts of a request the contract accepts: no run of its handler calls the contract
with what it refuses for what the call says, or for a campaign that was over when the handler read
the time; and an error of the chain that is the answer came from the client or the contract. -/
structure Accepted (reg : Registry d) (cl : Platform) (a : AuthCtx) (request : Creation) :
    Prop where
  call : ∀ t call r p, Reaches (request.handle reg cl a ⟨none, 0⟩) (t ++ [⟨.call call, r⟩]) p →
    call.Timely (heardIn t).now ∧
      ∀ env s replies, Raises (call.MayRaise env s) ((call.exec env s).runReplies replies)
  answer : ∀ t e m, Runs (request.handle reg cl a ⟨none, 0⟩) t (.error (.chainError e), m) →
    e ∈ (heardIn t).failed

theorem allows_acceptance (heard : Heard) (t : List (Exchange (@Ask.Reply d reg))) :
    (acceptance reg).Allows heard t := Law.allows_of_possible _ (fun _ _ _ ↦ trivial) heard t

theorem accepted_of_prompt {cl : Platform} {a : AuthCtx} {request : Creation}
    (h : Prompt (request.handle reg cl a) ⟨none, []⟩ ⟨none, 0⟩) : Accepted reg cl a request where
  call t call r p hreach := by
    obtain ⟨hwell, htimely⟩ := h.may hreach (allows_acceptance _ t)
    exact ⟨htimely, raises_of_wellFormed hwell⟩
  answer t e m hrun := h.ends hrun (allows_acceptance _ t)

theorem blank_of_ok {body : ProgramBody} {job : ProgramJob} (hjob : programRequest body = .ok job)
    (hempty : job.rewardDiscountType = "") : (Creation.program body).Blank := by
  obtain ⟨-, -, -, htype, -⟩ := programRequest_eq_ok hjob
  exact ⟨by rw [hjob]; rfl, htype.1 hempty⟩

/-- A request that is not a blank program is accepted. -/
theorem accepted_of_not_blank {cl : Platform} (a : AuthCtx) {request : Creation}
    (h : ¬request.Blank) : Accepted reg cl a request := by
  cases request with
  | campaign body => exact accepted_of_prompt (prompt_createCampaign a body)
  | program body =>
    refine accepted_of_prompt (prompt_createProgram a fun job hjob hempty ↦ ?_)
    exact h (blank_of_ok hjob hempty)
  | shared campaignID body => exact accepted_of_prompt (prompt_registerShared a campaignID body)
  | codes campaignID body => exact accepted_of_prompt (prompt_issueRequest a campaignID body)

/-! ### A blank program -/

/-- What a blank program is called for: a campaign without a type. -/
abbrev blankCall (job : ProgramJob) (signer : Address) (clock : Clock) : Call :=
  .createCampaign signer (utf8 job.name) (utf8 job.rewardDiscountType)
    job.rewardDiscountValue.toUInt64 10000 (clock.inYears job.validYears).toUInt64

/-- The charge of a program. -/
abbrev programCharge (a : AuthCtx) (job : ProgramJob) : Charge :=
  ⟨a, "create_campaign", job.name ++ " (loyalty)", mcrCreateCampaign + mcrRegisterShared⟩

/-- A run of `handleCreateProgram` up to its first call. -/
theorem reaches_createCampaign (reg : Registry d) (a : AuthCtx) {body : ProgramBody}
    {job : ProgramJob} (hjob : programRequest body = .ok job) (signer : Address) (clock : Clock)
    (r : Except ChainError (Value × Bytes)) :
    ∃ t p, Reaches (handleCreateProgram a body (⟨none, 0⟩ : Meter) : Prog (@Ask.Reply d reg) _)
      (t ++ [⟨.call (blankCall job signer clock), r⟩]) p := by
  have hgo : ∃ k, (handleCreateProgram a body (⟨none, 0⟩ : Meter) : Prog (@Ask.Reply d reg) _) =
      .ask (.reserveCharge (programCharge a job)) k ∧
      ∃ k₁, k (.ok ()) = .ask (.clientFor a) k₁ ∧
        ∃ k₂, k₁ (.ok signer) = .ask .now k₂ ∧
          ∃ k₃, k₂ clock = .ask (.call (blankCall job signer clock)) k₃ := by
    unfold handleCreateProgram
    rw [hjob]
    exact ⟨_, rfl, _, rfl, _, rfl, _, rfl⟩
  obtain ⟨k, hk, k₁, hk₁, k₂, hk₂, k₃, hk₃⟩ := hgo
  rw [hk]
  refine ⟨[⟨.reserveCharge (programCharge a job), Except.ok ()⟩,
    ⟨.clientFor a, Except.ok signer⟩, ⟨.now, clock⟩], k₃ r, ?_⟩
  show Reaches _ (⟨_, _⟩ :: ⟨_, _⟩ :: ⟨_, _⟩ :: ⟨_, _⟩ :: []) _
  refine .ask (k := k) (Except.ok ()) ?_
  rw [hk₁]
  refine .ask (k := k₁) (Except.ok signer) ?_
  rw [hk₂]
  refine .ask (k := k₂) clock ?_
  rw [hk₃]
  exact .ask (k := k₃) r (.refl _)

theorem lt_one_of_pos (n : ℕ) (_ : 0 < n) : (0 : Int64) < 1 := by decide

/-- A clock at the epoch. -/
def epoch : Clock where
  now := 0
  inYears _ := 1
  now_nonneg := Int64.le_refl 0
  now_lt := lt_one_of_pos

/-- A contract that has just been deployed, called by an owner. -/
abbrev ownerEnv (owner : Address) : Env := ⟨0, 0, [owner], owner, 0⟩

/-- **A blank program is not accepted**: its campaign is refused for its empty type. -/
theorem not_accepted_of_blank {cl : Platform} (a : AuthCtx) {request : Creation}
    (h : request.Blank) : ¬Accepted reg cl a request := by
  intro haccepted
  cases request with
  | program body =>
    obtain ⟨hok, hblank⟩ := h
    rcases hjob : programRequest body with problem | job
    · rw [hjob] at hok
      exact Bool.false_ne_true hok
    · obtain ⟨hname, hnameLen, -, htype, hyears⟩ := programRequest_eq_ok hjob
      have howner : Address := .account (.zero 32)
      obtain ⟨t, p, hreach⟩ :=
        reaches_createCampaign reg a hjob howner epoch (.error .other)
      obtain ⟨-, hraises⟩ := haccepted.call t _ _ p hreach
      have hexec : ((blankCall job howner epoch).exec (ownerEnv howner)
          (ContractState.deployed 0)).runReplies (fun _ _ ↦ none) =
            .error (.err .invalidTerms) := by
        show (direct Value.u64 (createCampaign _ _ _ _ _ _ _ _)).runReplies _ = _
        have hrefused : createCampaign (ownerEnv howner) howner (utf8 job.name)
            (utf8 job.rewardDiscountType) job.rewardDiscountValue.toUInt64 10000
            (epoch.inYears job.validYears).toUInt64 (ContractState.deployed 0) =
            .error (.err .invalidTerms) := by
          have hauth : requireAuth (ownerEnv howner) howner = .ok () :=
            requireAuth_eq_ok_iff.2 List.mem_cons_self
          rw [createCampaign, hauth, ok_bind, rejectIf_pos (Or.inr (Or.inr (Or.inr (Or.inl ?_))))]
          · rfl
          · rw [htype.2 hblank]
            rfl
        rw [direct, Callout.runReplies_done, hrefused]
        rfl
      rcases hraises _ _ _ _ hexec rfl with hover | hfull
      · exact absurd hover (show ¬(1 : UInt64) ≤ 0 by decide)
      · exact absurd hfull (show UInt64.checkedAdd 0 1 ≠ none by decide)
  | _ => exact h

/-- **What Cloud accepts the contract accepts**, but for a blank program. -/
theorem creation_accepted (reg : Registry d) (cl : Platform) (a : AuthCtx) (request : Creation) :
    Accepted reg cl a request ↔ ¬request.Blank :=
  ⟨fun haccepted hblank ↦ not_accepted_of_blank a hblank haccepted, accepted_of_not_blank a⟩

namespace Acceptance

def deployment : Deployment where
  cloudNetwork := []
  currentContractID := []
  quote x := x
  base64 x := x
  sha256 _ := .zero 32
  refMac _ := .zero 32

theorem no_rows {α : Type} {P : α → α → Prop} : ∀ x ∈ ([] : List α), ∀ y ∈ ([] : List α), P x y :=
  fun _ h ↦ absurd h List.not_mem_nil

def registry : Registry deployment := ⟨[], [], [], [], no_rows, no_rows, no_rows, no_rows⟩

theorem upper_ascii (c : Char) (_ : c.toNat < 128) : Char.toUpper c = c.toUpper := rfl

def platform : Platform where
  unicode := ⟨Char.toUpper, upper_ascii⟩
  validStellarAddress _ := none
  payoutToken := .account (.zero 32)

/-- A card for coffee, whose rewards have a type of one blank. -/
def card : ProgramBody := ⟨"Coffee card", 10, " ", 0, 2⟩

theorem isOk_card : (programRequest card).isOk = true := by decide +kernel

theorem blank_card : (Creation.program card).Blank := ⟨isOk_card, by decide, by decide +kernel⟩

end Acceptance

/-- A blank program passes the checks of Cloud, and is not accepted. -/
theorem blank_program_refused :
    (programRequest Acceptance.card).isOk = true ∧
      ¬Accepted Acceptance.registry Acceptance.platform ⟨1, .live⟩ (.program Acceptance.card) :=
  ⟨Acceptance.isOk_card, not_accepted_of_blank _ Acceptance.blank_card⟩

end Soroticket
