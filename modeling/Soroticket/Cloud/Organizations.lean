import Soroticket.Cloud.Credits
import Soroticket.Cloud.Handlers

/-!
# Organizations

A user who is signed in creates an organization. `handleCreateOrg` asks whether the user has one
already, reads the body, makes the keys, and then creates the organization in one transaction, with
its member, its keys and its opening grant. No lock is held from the question to the transaction,
and no table keeps a user from a second organization. So two requests of a user who ask before
either has created anything both create one (`two_organizations`).

A user has one organization, in every run, exactly where no question fails on a user who has one,
and nothing is created for the user of a request from its question to its transaction
(`one_organization_iff`). Either way what makes the second organization is a transaction that starts
from an old answer.
-/

namespace Soroticket

open Interleaving Interleaving.Service

/-! ### The tables -/

/-- A row of `orgs`. -/
structure OrgRow where
  id : ℕ
  name : String
  deriving DecidableEq

/-- A row of `org_members`. -/
structure MemberRow where
  orgID : ℕ
  userID : ℕ
  deriving DecidableEq

/-- A key pair, its seed sealed: `generatedAccount`. -/
structure GeneratedKey where
  publicKey : String
  secretEnc : Bytes
  deriving DecidableEq

/-- A row of `org_accounts` or of `org_receipt_keys`. -/
structure KeyRow where
  account : AuthCtx
  key : GeneratedKey
  deriving DecidableEq

/-- The tables `handleCreateOrg` writes. -/
structure OrgTables where
  orgs : List OrgRow
  members : List MemberRow
  accounts : List KeyRow
  receiptKeys : List KeyRow
  credits : CreditTables

/-- The keys of a new organization, in each environment. -/
structure NewKeys where
  account : CloudEnv → GeneratedKey
  receipt : CloudEnv → GeneratedKey

namespace OrgTables

/-- Nobody has created anything. -/
def empty : OrgTables := ⟨[], [], [], [], ⟨fun _ ↦ none, []⟩⟩

/-- The row id of the next organization: one more than the largest. -/
def nextID (t : OrgTables) : ℕ := (t.orgs.map (·.id)).foldr max 0 + 1

/-- The organizations of a user, in the order of the table. -/
def memberships (t : OrgTables) (uid : ℕ) : List ℕ :=
  (t.members.filter (·.userID = uid)).map (·.orgID)

/-- `orgOfUser`: one of them, whichever the database finds first. -/
def orgOfUser (t : OrgTables) (row uid : ℕ) : Option ℕ :=
  (t.memberships uid)[row % (t.memberships uid).length]?

/-- The environments, in the order their keys are made. -/
def envs : List CloudEnv := [.test, .live]

/-- The transaction of `handleCreateOrg`. -/
def create (t : OrgTables) (uid : ℕ) (name : String) (keys : NewKeys) (month : Month) :
    Option (ℕ × OrgTables) := do
  let credits ← t.credits.createOrg t.nextID month
  return (t.nextID, {
    orgs := t.orgs ++ [⟨t.nextID, name⟩]
    members := t.members ++ [⟨t.nextID, uid⟩]
    accounts := t.accounts ++ envs.map fun env ↦ ⟨⟨t.nextID, env⟩, keys.account env⟩
    receiptKeys := t.receiptKeys ++ envs.map fun env ↦ ⟨⟨t.nextID, env⟩, keys.receipt env⟩
    credits })

/-- The opening grants of a user's organizations. -/
def openingGrants (t : OrgTables) (uid : ℕ) : List LedgerRow :=
  (t.memberships uid).flatMap fun oid ↦
    (t.credits.entries oid).filter (·.detail = "opening grant")

end OrgTables

/-! ### Requests -/

/-- A request for an organization: where it comes from, whose session it has, and what `readBody`
makes of its body. -/
structure CreateOrgRequest where
  sameOrigin : Bool
  user : ℕ
  body : Except String String

/-- Where a request is. -/
inductive OrgPlace where
  | arrived (r : CreateOrgRequest)
  /-- The session is there; next is the question whether the user has an organization. -/
  | signedIn (r : CreateOrgRequest)
  /-- There was none. -/
  | checked (r : CreateOrgRequest)
  /-- The body has been read and the keys made; next is the transaction. -/
  | prepared (user : ℕ) (name : String) (keys : NewKeys)
  /-- Answered with 201. -/
  | created (user oid : ℕ) (name : String)
  | refused (problem : Problem)

/-- What a step finds: whether the session holds, whether the question goes through and which row it
finds, the keys that could be made, the month, and whether the transaction goes through. -/
structure OrgChoice where
  session : Bool
  asked : Bool
  row : ℕ
  keys : Option NewKeys
  month : Month
  commits : Bool

/-- The longest name of an organization, in bytes. -/
def maxOrgNameLen : ℕ := 96

/-- One step of `handleCreateOrg`. A question that fails finds no organization. -/
def createOrgStep (ch : OrgChoice) : OrgPlace → OrgTables → Option (OrgPlace × OrgTables)
  | .arrived r, t =>
    if !r.sameOrigin then some (.refused ⟨403, "cross-site request rejected"⟩, t)
    else if !ch.session then some (.refused ⟨401, "sign in required"⟩, t)
    else some (.signedIn r, t)
  | .signedIn r, t =>
    match if ch.asked then t.orgOfUser ch.row r.user else none with
    | some _ => some (.refused ⟨409, "you already have an organization"⟩, t)
    | none => some (.checked r, t)
  | .checked r, t =>
    match r.body with
    | .error problem => some (.refused ⟨400, problem⟩, t)
    | .ok name =>
      if trimSpace name = "" ∨ maxOrgNameLen < (utf8 (trimSpace name)).length then
        some (.refused ⟨400, "organization name must contain 1-96 bytes"⟩, t)
      else
        match ch.keys with
        | none => some (.refused ⟨500, "internal server error"⟩, t)
        | some keys => some (.prepared r.user (trimSpace name) keys, t)
  | .prepared user name keys, t =>
    match if ch.commits then t.create user name keys ch.month else none with
    | some (oid, t') => some (.created user oid name, t')
    | none => some (.refused ⟨500, "internal server error"⟩, t)
  | .created _ _ _, _ => none
  | .refused _, _ => none

/-- The service. Nothing else writes the members of an organization. -/
def orgService : Service OrgTables OrgPlace OrgChoice Empty where
  advance := createOrgStep
  outside event _ := event.elim

/-- Any number of requests, before anybody has an organization. -/
def createOrgs (requests : ℕ → CreateOrgRequest) : Config OrgTables OrgPlace :=
  ⟨OrgTables.empty, fun i ↦ .arrived (requests i)⟩

/-! ### What a step writes -/

namespace OrgTables

variable {t t' : OrgTables} {uid oid : ℕ} {name : String} {keys : NewKeys} {month : Month}

theorem orgOfUser_mem {row : ℕ} (h : t.orgOfUser row uid = some oid) : oid ∈ t.memberships uid :=
  List.mem_of_getElem? h

/-- The transaction opens the account of the next organization. -/
theorem create_eq_some (h : t.create uid name keys month = some (oid, t')) :
    oid = t.nextID ∧ t.credits.createOrg oid month = some t'.credits ∧
      t'.orgs = t.orgs ++ [⟨oid, name⟩] ∧ t'.members = t.members ++ [⟨oid, uid⟩] := by
  rw [create] at h
  cases hcredits : t.credits.createOrg t.nextID month with
  | none =>
    rw [hcredits] at h
    exact absurd h.symm (Option.some_ne_none _)
  | some credits =>
    rw [hcredits] at h
    obtain ⟨rfl, rfl⟩ := Prod.mk.inj (Option.some.inj h)
    exact ⟨rfl, hcredits, rfl, rfl⟩

/-- Its user is a member of it. -/
theorem memberships_create_self (h : t.create uid name keys month = some (oid, t')) :
    t'.memberships uid = t.memberships uid ++ [oid] := by
  rw [memberships, (create_eq_some h).2.2.2, List.filter_append, List.map_append, memberships,
    List.filter_cons_of_pos (by simp)]
  rfl

/-- And nobody else. -/
theorem memberships_create_of_ne {uid' : ℕ} (hne : uid' ≠ uid)
    (h : t.create uid name keys month = some (oid, t')) :
    t'.memberships uid' = t.memberships uid' := by
  rw [memberships, (create_eq_some h).2.2.2, List.filter_append,
    List.filter_cons_of_neg (by simp [hne.symm]), List.filter_nil, List.append_nil, memberships]

theorem lt_nextID {o : OrgRow} (ho : o ∈ t.orgs) : o.id < t.nextID := by
  have hle : ∀ l : List ℕ, ∀ x ∈ l, x ≤ l.foldr max 0 := by
    intro l
    induction l with
    | nil => exact fun x hx ↦ absurd hx List.not_mem_nil
    | cons a l ih =>
      intro x hx
      rcases List.mem_cons.1 hx with rfl | hx
      · exact le_max_left _ _
      · exact (ih x hx).trans (le_max_right _ _)
  exact Nat.lt_succ_of_le (hle _ _ (List.mem_map_of_mem ho))

/-- An organization has at most one row in the ledger, and only if it is there. -/
structure OpenedOnce (t : OrgTables) : Prop where
  entries (oid : ℕ) : (t.credits.entries oid).length ≤ 1
  ledger : ∀ row ∈ t.credits.ledger, row.orgID < t.nextID

theorem OpenedOnce.create (h : t.OpenedOnce)
    (hcreate : t.create uid name keys month = some (oid, t')) :
    t'.OpenedOnce := by
  obtain ⟨rfl, hcredits, horgs, -⟩ := create_eq_some hcreate
  have hposted : t'.credits = t.credits.openingGrant t.nextID month := by
    rw [CreditTables.createOrg] at hcredits
    split at hcredits
    · exact (Option.some.inj hcredits).symm
    · exact absurd hcredits.symm (Option.some_ne_none _)
  -- there was no row of the new organization
  have hnew : t.credits.entries t.nextID = [] := by
    refine List.filter_eq_nil_iff.2 fun row hrow horg ↦ ?_
    exact absurd (h.ledger row hrow) (not_lt.2 (of_decide_eq_true horg).ge)
  have hnext : t.nextID < t'.nextID := by
    refine lt_nextID (o := ⟨t.nextID, name⟩) ?_
    rw [horgs]
    exact List.mem_concat_self
  refine ⟨fun oid ↦ ?_, fun row hrow ↦ ?_⟩
  · rw [hposted, CreditTables.openingGrant]
    rcases eq_or_ne oid t.nextID with rfl | hne
    · rw [CreditTables.entries_post_self, hnew]
      exact le_rfl
    · rw [CreditTables.entries_post_of_ne hne]
      exact h.entries oid
  · rw [hposted, CreditTables.openingGrant, CreditTables.post] at hrow
    rcases List.mem_append.1 hrow with hold | hlast
    · exact (h.ledger row hold).trans hnext
    · rw [List.mem_singleton.1 hlast]
      exact hnext

/-- Then a user with at most one organization has at most one opening grant. -/
theorem OpenedOnce.length_openingGrants (h : t.OpenedOnce) (huid : (t.memberships uid).length ≤ 1) :
    (t.openingGrants uid).length ≤ 1 := by
  rw [openingGrants]
  match hmembers : t.memberships uid with
  | [] => exact Nat.zero_le _
  | [oid] =>
    rw [List.flatMap_singleton]
    exact (List.length_filter_le ..).trans (h.entries oid)
  | _ :: _ :: _ =>
    rw [hmembers] at huid
    simp at huid

end OrgTables

section Steps

variable {ch : OrgChoice} {p p' : OrgPlace} {t t' : OrgTables}

/-- A step writes nothing, or is the transaction of a request. -/
theorem createOrgStep_writes (h : createOrgStep ch p t = some (p', t')) :
    (t' = t ∧ ∀ user oid name, p' ≠ .created user oid name) ∨
      ∃ user name keys oid, p = .prepared user name keys ∧ p' = .created user oid name ∧
        t.create user name keys ch.month = some (oid, t') := by
  cases p with
  | arrived r =>
    refine Or.inl ?_
    rw [createOrgStep] at h
    split at h
    · obtain ⟨rfl, rfl⟩ := Prod.mk.inj (Option.some.inj h)
      exact ⟨rfl, by simp⟩
    · split at h
      · obtain ⟨rfl, rfl⟩ := Prod.mk.inj (Option.some.inj h)
        exact ⟨rfl, by simp⟩
      · obtain ⟨rfl, rfl⟩ := Prod.mk.inj (Option.some.inj h)
        exact ⟨rfl, by simp⟩
  | signedIn r =>
    refine Or.inl ?_
    rw [createOrgStep] at h
    split at h
    · obtain ⟨rfl, rfl⟩ := Prod.mk.inj (Option.some.inj h)
      exact ⟨rfl, by simp⟩
    · obtain ⟨rfl, rfl⟩ := Prod.mk.inj (Option.some.inj h)
      exact ⟨rfl, by simp⟩
  | checked r =>
    refine Or.inl ?_
    rw [createOrgStep] at h
    split at h
    · obtain ⟨rfl, rfl⟩ := Prod.mk.inj (Option.some.inj h)
      exact ⟨rfl, by simp⟩
    · split at h
      · obtain ⟨rfl, rfl⟩ := Prod.mk.inj (Option.some.inj h)
        exact ⟨rfl, by simp⟩
      · split at h
        · obtain ⟨rfl, rfl⟩ := Prod.mk.inj (Option.some.inj h)
          exact ⟨rfl, by simp⟩
        · obtain ⟨rfl, rfl⟩ := Prod.mk.inj (Option.some.inj h)
          exact ⟨rfl, by simp⟩
  | prepared user name keys =>
    rw [createOrgStep] at h
    split at h
    case h_1 oid t₁ hcreate =>
      obtain ⟨rfl, rfl⟩ := Prod.mk.inj (Option.some.inj h)
      exact Or.inr ⟨user, name, keys, oid, rfl, rfl, (Option.ite_none_right_eq_some.1 hcreate).2⟩
    case h_2 =>
      obtain ⟨rfl, rfl⟩ := Prod.mk.inj (Option.some.inj h)
      exact Or.inl ⟨rfl, by simp⟩
  | created user oid name => exact absurd h.symm (Option.some_ne_none _)
  | refused problem => exact absurd h.symm (Option.some_ne_none _)

/-- A request of a user has asked, and has not created anything yet. -/
def OrgPlace.Asked (user : ℕ) : OrgPlace → Prop
  | checked r => r.user = user
  | prepared user' _ _ => user' = user
  | _ => False

/-- It comes there by its question. -/
theorem createOrgStep_asks {user : ℕ} (h : createOrgStep ch p t = some (p', t'))
    (hout : ¬p.Asked user) (hin : p'.Asked user) :
    t' = t ∧ ∃ r, r.user = user ∧ p = .signedIn r ∧ p' = .checked r := by
  cases p with
  | arrived r =>
    rw [createOrgStep] at h
    split at h
    · obtain ⟨rfl, rfl⟩ := Prod.mk.inj (Option.some.inj h)
      exact hin.elim
    · split at h
      · obtain ⟨rfl, rfl⟩ := Prod.mk.inj (Option.some.inj h)
        exact hin.elim
      · obtain ⟨rfl, rfl⟩ := Prod.mk.inj (Option.some.inj h)
        exact hin.elim
  | signedIn r =>
    rw [createOrgStep] at h
    split at h
    · obtain ⟨rfl, rfl⟩ := Prod.mk.inj (Option.some.inj h)
      exact hin.elim
    · obtain ⟨rfl, rfl⟩ := Prod.mk.inj (Option.some.inj h)
      exact ⟨rfl, r, hin, rfl, rfl⟩
  | checked r =>
    rw [createOrgStep] at h
    split at h
    · obtain ⟨rfl, rfl⟩ := Prod.mk.inj (Option.some.inj h)
      exact hin.elim
    · split at h
      · obtain ⟨rfl, rfl⟩ := Prod.mk.inj (Option.some.inj h)
        exact hin.elim
      · split at h
        · obtain ⟨rfl, rfl⟩ := Prod.mk.inj (Option.some.inj h)
          exact hin.elim
        · obtain ⟨rfl, rfl⟩ := Prod.mk.inj (Option.some.inj h)
          exact absurd hin hout
  | prepared user' name keys =>
    rw [createOrgStep] at h
    split at h
    · obtain ⟨rfl, rfl⟩ := Prod.mk.inj (Option.some.inj h)
      exact hin.elim
    · obtain ⟨rfl, rfl⟩ := Prod.mk.inj (Option.some.inj h)
      exact hin.elim
  | created user' oid name => exact absurd h.symm (Option.some_ne_none _)
  | refused problem => exact absurd h.symm (Option.some_ne_none _)

end Steps

/-! ### Runs -/

section Runs

variable (requests : ℕ → CreateOrgRequest) (turns : List (Turn OrgChoice Empty))

/-- The service after the first turns. -/
def orgsAfter (n : ℕ) : Config OrgTables OrgPlace :=
  orgService.after (createOrgs requests) turns n

/-- A turn asks whether the user of a request has an organization, and finds none. -/
def FindsNone (n i user : ℕ) : Prop :=
  ∃ r, r.user = user ∧ (orgsAfter requests turns n).requests i = .signedIn r ∧
    (orgsAfter requests turns (n + 1)).requests i = .checked r

/-- A turn creates the organization of a request. -/
def Creates (n i user : ℕ) : Prop :=
  ∃ name keys oid, (orgsAfter requests turns n).requests i = .prepared user name keys ∧
    (orgsAfter requests turns (n + 1)).requests i = .created user oid name

/-- The organizations of a user after the first turns. -/
def membershipsAfter (n user : ℕ) : List ℕ := (orgsAfter requests turns n).shared.memberships user

/-- No transaction starts from an old answer: when a request asked, its user had no organization,
and none was created for its user since. -/
def FreshAnswers : Prop :=
  ∀ m n i user, m < n → FindsNone requests turns m i user → Creates requests turns n i user →
    membershipsAfter requests turns m user = [] ∧
      ∀ k j, m < k → k < n → ¬Creates requests turns k j user

/-- **One organization for a user**: at most one request is answered with one, the user is a member
of at most one, whichever is found is the same ever after, and it opens with at most one grant. -/
structure OneOrganization : Prop where
  created_once : ∀ n i j user oid oid' name name',
    (orgsAfter requests turns n).requests i = .created user oid name →
      (orgsAfter requests turns n).requests j = .created user oid' name' → i = j
  member : ∀ n user, (membershipsAfter requests turns n user).length ≤ 1
  stable : ∀ n n' user row row' oid oid', n ≤ n' →
    (orgsAfter requests turns n).shared.orgOfUser row user = some oid →
      (orgsAfter requests turns n').shared.orgOfUser row' user = some oid' → oid = oid'
  granted_once : ∀ n user, ((orgsAfter requests turns n).shared.openingGrants user).length ≤ 1

variable {requests turns} {n : ℕ}

/-- A turn leaves the organizations of a user, or creates one. -/
theorem membershipsAfter_succ (n user : ℕ) :
    membershipsAfter requests turns (n + 1) user = membershipsAfter requests turns n user ∨
      ∃ i oid, Creates requests turns n i user ∧ membershipsAfter requests turns (n + 1) user =
        membershipsAfter requests turns n user ++ [oid] := by
  rcases after_succ_cases (S := orgService) (createOrgs requests) turns n with
    hpass | ⟨i, ch, p, t, hstep, hturn⟩ | ⟨event, -⟩
  · refine Or.inl ?_
    rw [membershipsAfter, orgsAfter, hpass]
    rfl
  · have hmoved : (orgsAfter requests turns (n + 1)).requests i = p := by
      rw [orgsAfter, hturn]
      exact Function.update_self ..
    have hshared : (orgsAfter requests turns (n + 1)).shared = t := by rw [orgsAfter, hturn]
    rw [membershipsAfter, hshared]
    rcases createOrgStep_writes hstep with ⟨rfl, -⟩ | ⟨user', name, keys, oid, hp, rfl, hcreate⟩
    · exact Or.inl rfl
    · rcases eq_or_ne user user' with rfl | hne
      · exact Or.inr ⟨i, oid, ⟨name, keys, oid, hp, hmoved⟩,
          OrgTables.memberships_create_self hcreate⟩
      · exact Or.inl (OrgTables.memberships_create_of_ne hne hcreate)
  · exact event.elim

/-- A turn that creates one adds it. -/
theorem membershipsAfter_creates {i user : ℕ} (h : Creates requests turns n i user) :
    ∃ oid, membershipsAfter requests turns (n + 1) user =
      membershipsAfter requests turns n user ++ [oid] := by
  obtain ⟨name, keys, oid, hp, hp'⟩ := h
  obtain ⟨ch, hstep⟩ := advance_of_ne (S := orgService) hp hp' (by simp)
  have hstep : createOrgStep ch (.prepared user name keys) (orgsAfter requests turns n).shared =
      some (.created user oid name, (orgsAfter requests turns (n + 1)).shared) := hstep
  rcases createOrgStep_writes hstep with ⟨-, hnone⟩ | ⟨user', name', keys', oid', hq, hq', hcreate⟩
  · exact absurd rfl (hnone user oid name)
  · obtain ⟨rfl, rfl, rfl⟩ := OrgPlace.prepared.inj hq
    exact ⟨oid', OrgTables.memberships_create_self hcreate⟩

theorem membershipsAfter_grows {n' : ℕ} (user : ℕ) (h : n ≤ n') :
    membershipsAfter requests turns n user <+: membershipsAfter requests turns n' user := by
  induction n', h using Nat.le_induction with
  | base => exact List.prefix_rfl
  | succ n' _ ih =>
    rcases membershipsAfter_succ n' user with hsame | ⟨i, oid, -, hnew⟩
    · rwa [hsame]
    · rw [hnew]
      exact ih.trans (List.prefix_append _ _)

/-- Who has come to have an organization has created it. -/
theorem exists_creates {n' user : ℕ} (h : n ≤ n')
    (hnone : membershipsAfter requests turns n user = [])
    (hsome : membershipsAfter requests turns n' user ≠ []) :
    ∃ k j, n ≤ k ∧ k < n' ∧ Creates requests turns k j user := by
  induction n', h using Nat.le_induction with
  | base => exact absurd hnone hsome
  | succ n' hle ih =>
    by_cases hold : membershipsAfter requests turns n' user = []
    · rcases membershipsAfter_succ n' user with hsame | ⟨i, oid, hcreates, -⟩
      · rw [hsame] at hsome
        exact absurd hold hsome
      · exact ⟨n', i, hle, Nat.lt_succ_self n', hcreates⟩
    · obtain ⟨k, j, hk, hkn, hcreates⟩ := ih hold
      exact ⟨k, j, hk, Nat.lt_succ_of_lt hkn, hcreates⟩

/-- Who creates one has asked, and asking creates nothing. -/
theorem Creates.exists_asks {i user : ℕ} (h : Creates requests turns n i user) :
    ∃ m < n, FindsNone requests turns m i user ∧
      membershipsAfter requests turns (m + 1) user = membershipsAfter requests turns m user := by
  obtain ⟨name, keys, oid, hp, -⟩ := h
  have hin : OrgPlace.Asked user ((orgsAfter requests turns n).requests i) := by
    rw [hp]
    exact rfl
  have hinit : ¬OrgPlace.Asked user ((createOrgs requests).requests i) := fun h ↦ h.elim
  obtain ⟨m, hm, ch, hstep, hout, hin⟩ :=
    exists_step_into (S := orgService) (OrgPlace.Asked user) hinit hin
  obtain ⟨hsame, r, hr, hp, hp'⟩ := createOrgStep_asks hstep hout hin
  refine ⟨m, hm, ⟨r, hr, hp, hp'⟩, ?_⟩
  rw [membershipsAfter, orgsAfter, hsame]
  rfl

theorem openedOnce_after (n : ℕ) : (orgsAfter requests turns n).shared.OpenedOnce := by
  refine serve_induction (S := orgService) (P := fun c ↦ c.shared.OpenedOnce)
    ⟨fun _ ↦ Nat.zero_le _, fun row hrow ↦ absurd hrow List.not_mem_nil⟩
    (fun c i ch p t hc hstep ↦ ?_) (fun _ event _ ↦ event.elim) _
  rcases createOrgStep_writes hstep with ⟨rfl, -⟩ | ⟨user, name, keys, oid, -, -, hcreate⟩
  · exact hc
  · exact hc.create hcreate

/-- A transaction that starts from a good answer creates the user's first organization. -/
theorem FreshAnswers.member (h : FreshAnswers requests turns) (n user : ℕ) :
    (membershipsAfter requests turns n user).length ≤ 1 := by
  induction n with
  | zero => exact Nat.zero_le _
  | succ n ih =>
    rcases membershipsAfter_succ n user with hsame | ⟨i, oid, hcreates, hnew⟩
    · rwa [hsame]
    · obtain ⟨m, hm, hasks, hquiet⟩ := hcreates.exists_asks
      obtain ⟨hnone, halone⟩ := h m n i user hm hasks hcreates
      have hfirst : membershipsAfter requests turns n user = [] := by
        by_contra hsome
        obtain ⟨k, j, hk, hkn, hother⟩ := exists_creates hm (hquiet.trans hnone) hsome
        exact halone k j hk hkn hother
      rw [hnew, hfirst]
      exact le_rfl

/-- The turn that answered a request with an organization. -/
theorem exists_creates_of_created {i user oid : ℕ} {name : String}
    (h : (orgsAfter requests turns n).requests i = .created user oid name) :
    ∃ k < n, Creates requests turns k i user := by
  have hinit : (createOrgs requests).requests i ≠ .created user oid name := by
    simp [createOrgs]
  obtain ⟨k, hk, ch, hstep, -, hin⟩ :=
    exists_step_into (S := orgService) (· = .created user oid name) hinit h
  have hstep : createOrgStep ch ((orgsAfter requests turns k).requests i)
      (orgsAfter requests turns k).shared = some ((orgsAfter requests turns (k + 1)).requests i,
        (orgsAfter requests turns (k + 1)).shared) := hstep
  rcases createOrgStep_writes hstep with ⟨-, hnone⟩ | ⟨user', name', keys, oid', hp, hp', -⟩
  · exact absurd hin (hnone user oid name)
  · obtain ⟨rfl, rfl, rfl⟩ := OrgPlace.created.inj (hp'.symm.trans hin)
    exact ⟨k, hk, name', keys, oid', hp, hp'⟩

/-- Two turns that create an organization for a user are one, where no user has two. -/
theorem Creates.not_lt (hmember : ∀ n user, (membershipsAfter requests turns n user).length ≤ 1)
    {k i j user : ℕ} (h : Creates requests turns n i user) (h' : Creates requests turns k j user) :
    ¬n < k := by
  intro hlt
  obtain ⟨oid, hfirst⟩ := membershipsAfter_creates h
  obtain ⟨oid', hsecond⟩ := membershipsAfter_creates h'
  have hkept : membershipsAfter requests turns (n + 1) user <+:
      membershipsAfter requests turns k user := membershipsAfter_grows user hlt
  have hle := hkept.length_le
  have hlen := hmember (k + 1) user
  rw [hfirst, List.length_append, List.length_singleton] at hle
  rw [hsecond, List.length_append, List.length_singleton] at hlen
  omega

/-- All that is asked of a user's organization follows from there being at most one. -/
theorem OneOrganization.of_member
    (hmember : ∀ n user, (membershipsAfter requests turns n user).length ≤ 1) :
    OneOrganization requests turns where
  created_once n i j user oid oid' name name' hi hj := by
    obtain ⟨k, -, hk⟩ := exists_creates_of_created hi
    obtain ⟨l, -, hl⟩ := exists_creates_of_created hj
    obtain rfl : k = l :=
      le_antisymm (not_lt.1 (hl.not_lt hmember hk)) (not_lt.1 (hk.not_lt hmember hl))
    -- one turn moves one request
    obtain ⟨_, _, _, hpi, hpi'⟩ := hk
    obtain ⟨_, _, _, hpj, hpj'⟩ := hl
    have hmoved : (orgsAfter requests turns (k + 1)).requests i ≠
        (orgsAfter requests turns k).requests i := by
      rw [hpi, hpi']
      simp
    have hmoved' : (orgsAfter requests turns (k + 1)).requests j ≠
        (orgsAfter requests turns k).requests j := by
      rw [hpj, hpj']
      simp
    obtain ⟨ch, hturn⟩ := turn_of_ne hmoved
    obtain ⟨ch', hturn'⟩ := turn_of_ne hmoved'
    exact (Turn.request.inj (Option.some.inj (hturn.symm.trans hturn'))).1
  member := hmember
  stable n n' user row row' oid oid' hle hoid hoid' := by
    have hkept : membershipsAfter requests turns n user <+:
        membershipsAfter requests turns n' user := membershipsAfter_grows user hle
    have hmem := hkept.subset (OrgTables.orgOfUser_mem hoid)
    have hmem' := OrgTables.orgOfUser_mem hoid'
    have hlen := hmember n' user
    rw [membershipsAfter] at hmem hlen
    match hmembers : (orgsAfter requests turns n').shared.memberships user with
    | [] =>
      rw [hmembers] at hmem
      exact absurd hmem List.not_mem_nil
    | [only] =>
      rw [hmembers] at hmem hmem'
      rw [List.mem_singleton.1 hmem, List.mem_singleton.1 hmem']
    | _ :: _ :: _ =>
      rw [hmembers] at hlen
      simp at hlen
  granted_once n user := (openedOnce_after n).length_openingGrants (hmember n user)

end Runs

namespace Sample

/-- The keys of an organization. -/
def newKeys : NewKeys := ⟨fun _ ↦ ⟨"GA", []⟩, fun _ ↦ ⟨"GB", []⟩⟩

def orgChoice : OrgChoice := ⟨true, true, 0, some newKeys, (2026, 6), true⟩

/-- The first two requests are of one user. -/
def founders (i : ℕ) : CreateOrgRequest := ⟨true, i / 2, .ok "Café"⟩

/-- Both ask, then both create. -/
def founding : List (Turn OrgChoice Empty) :=
  [.request 0 orgChoice, .request 1 orgChoice, .request 0 orgChoice, .request 1 orgChoice,
    .request 0 orgChoice, .request 1 orgChoice, .request 0 orgChoice, .request 1 orgChoice]

end Sample

/-- **When a user has one organization.** In every run of every number of requests, every user has
at most one organization, and everything that follows from it, exactly where no transaction starts
from an old answer. -/
theorem one_organization_iff (requests : ℕ → CreateOrgRequest)
    (turns : List (Turn OrgChoice Empty)) :
    OneOrganization requests turns ↔ FreshAnswers requests turns := by
  constructor
  · intro hone m n i user hm _ hcreates
    -- an organization from before the transaction would be one too many after it
    have hnone : membershipsAfter requests turns n user = [] := by
      obtain ⟨oid, hnew⟩ := membershipsAfter_creates hcreates
      have hlen := hone.member (n + 1) user
      rw [hnew, List.length_append, List.length_singleton] at hlen
      exact List.length_eq_zero_iff.1 (by omega)
    have hbefore : ∀ k ≤ n, membershipsAfter requests turns k user = [] := by
      intro k hk
      have hkept : membershipsAfter requests turns k user <+:
          membershipsAfter requests turns n user := membershipsAfter_grows user hk
      rw [hnone] at hkept
      exact List.prefix_nil.1 hkept
    refine ⟨hbefore m hm.le, fun k j _ hk hother ↦ ?_⟩
    obtain ⟨oid, hnew⟩ := membershipsAfter_creates hother
    rw [hbefore (k + 1) hk] at hnew
    exact absurd hnew.symm (List.append_ne_nil_of_right_ne_nil _ (List.cons_ne_nil _ _))
  · exact fun hfresh ↦ .of_member hfresh.member

/-- Two requests of a user that ask before either creates anything are both answered with an
organization. -/
theorem two_organizations :
    (orgsAfter Sample.founders Sample.founding 8).requests 0 = .created 0 1 "Café" ∧
      (orgsAfter Sample.founders Sample.founding 8).requests 1 = .created 0 2 "Café" ∧
      membershipsAfter Sample.founders Sample.founding 8 0 = [1, 2] ∧
      ¬OneOrganization Sample.founders Sample.founding := by
  have hmembers : membershipsAfter Sample.founders Sample.founding 8 0 = [1, 2] := by decide +kernel
  refine ⟨rfl, rfl, hmembers, fun hone ↦ ?_⟩
  · have hlen := hone.member 8 0
    rw [hmembers] at hlen
    exact absurd hlen (by decide)

end Soroticket
