import Mathlib.Data.List.Nodup
import Soroticket.Cloud.Store

/-!
# Sessions

A session is a row of one table, found by the hash of the token in its cookie. `createSession`
inserts the row, deletes all sessions of the user but the five that expire last, and then deletes
all sessions that are over. The five are taken from a list that is ordered by the second a session
expires in, so which of those that expire in one second are taken is up to the database.

So the session that has just been made survives any order exactly where fewer than five sessions of
its user expire as late as it does (`createSession_iff`). The rest of what the cap is for holds of
every call.
-/

namespace Soroticket

namespace Sessions

/-! ### The table -/

/-- A row of `sessions`. Its token is the hash of the one in the cookie. -/
structure SessionRow where
  token : String
  userID : ℕ
  expiresAt : ℤ
  deriving DecidableEq

/-- The table. Its primary key is the token. -/
structure Table where
  rows : List SessionRow
  token_key : (rows.map (·.token)).Nodup

namespace Table

theorem nodup_concat (s : Table) {row : SessionRow} (h : row.token ∉ s.rows.map (·.token)) :
    ((s.rows ++ [row]).map (·.token)).Nodup := by
  rw [List.map_append, List.nodup_append]
  refine ⟨s.token_key, List.nodup_singleton _, ?_⟩
  rintro token htoken _ hrow rfl
  obtain rfl := List.mem_singleton.1 hrow
  exact h htoken

/-- Insert a row, unless its token is there. -/
def insert (s : Table) (row : SessionRow) : Option Table :=
  if h : row.token ∈ s.rows.map (·.token) then none else some ⟨s.rows ++ [row], s.nodup_concat h⟩

/-- Delete the rows that a condition does not hold of. -/
def keep (s : Table) (p : SessionRow → Bool) : Table where
  rows := s.rows.filter p
  token_key := s.token_key.sublist (List.filter_sublist.map _)

/-- The rows of a user, as the database may order them: `ORDER BY expires_at DESC`. -/
structure Ordered (s : Table) (userID : ℕ) (order : List SessionRow) : Prop where
  perm : order.Perm (s.rows.filter (·.userID = userID))
  sorted : order.Pairwise fun row row' ↦ row'.expiresAt ≤ row.expiresAt

/-- The cap: delete the sessions of a user but for the first five of an order. -/
def cap (s : Table) (userID : ℕ) (order : List SessionRow) : Table :=
  s.keep fun row ↦ ¬(row.userID = userID ∧ row.token ∉ (order.take 5).map (·.token))

/-- Delete the sessions that are over. -/
def cleanup (s : Table) (now : ℤ) : Table := s.keep fun row ↦ ¬row.expiresAt < now

end Table

/-- How long a session lasts, in seconds. -/
def lifetime : ℤ := 8 * 60 * 60

/-- The row of a new session. -/
def newSession (hashKey : String → String) (userID : ℕ) (tok : String) (now : ℤ) : SessionRow :=
  ⟨hashKey tok, userID, now + lifetime⟩

/-- `createSession`, up to its deletions: the clock is read once before the insertion, and once
more before the last deletion. -/
def createSession (hashKey : String → String) (s : Table) (userID : ℕ) (tok : String)
    (now later : ℤ) (order : List SessionRow) : Option Table :=
  (s.insert (newSession hashKey userID tok now)).map fun s ↦ (s.cap userID order).cleanup later

/-- `userFromSession`. -/
def userFromSession (hashKey : String → String) (s : Table) (cookie : String) (now : ℤ) :
    Option ℕ :=
  (s.rows.find? (·.token = hashKey cookie)).bind fun row ↦
    if row.expiresAt < now then none else some row.userID

/-- What the cap is for, in a call that has found these rows once it had inserted its own, deletes
in this order, and leaves these. -/
structure Survives (hashKey : String → String) (inserted after : Table) (userID : ℕ) (tok : String)
    (now later : ℤ) (order : List SessionRow) : Prop where
  /-- The new session is accepted as long as it lasts. -/
  accepted : ∀ t, later ≤ t → t ≤ now + lifetime →
    userFromSession hashKey after tok t = some userID
  atMostFive : (after.rows.filter (·.userID = userID)).length ≤ 5
  others : ∀ row ∈ inserted.rows, row.userID ≠ userID → ¬row.expiresAt < later → row ∈ after.rows
  latest : ∀ row ∈ inserted.rows, row ∉ (inserted.cap userID order).rows →
    ∀ row' ∈ (inserted.cap userID order).rows, row'.userID = userID →
      row.expiresAt ≤ row'.expiresAt

/-! ### What is kept -/

variable {s inserted : Table} {userID : ℕ} {order : List SessionRow} {row row' : SessionRow}
  {later now : ℤ}

theorem mem_cap : row ∈ (s.cap userID order).rows ↔
    row ∈ s.rows ∧ (row.userID = userID → row.token ∈ (order.take 5).map (·.token)) := by
  rw [Table.cap, Table.keep, List.mem_filter, decide_eq_true_iff, not_and, not_not]

theorem mem_cleanup : row ∈ (s.cleanup later).rows ↔ row ∈ s.rows ∧ later ≤ row.expiresAt := by
  rw [Table.cleanup, Table.keep, List.mem_filter, decide_eq_true_iff, Int.not_lt]

/-- The row of a token is the only one. -/
theorem eq_of_token (hrow : row ∈ s.rows) (hrow' : row' ∈ s.rows) (h : row.token = row'.token) :
    row = row' := List.inj_on_of_nodup_map s.token_key hrow hrow' h

theorem token_of_find {token : String} (h : s.rows.find? (·.token = token) = some row) :
    row ∈ s.rows ∧ row.token = token := by
  have hfound := List.find?_some h
  exact ⟨List.mem_of_find?_eq_some h, of_decide_eq_true hfound⟩

theorem find_token (h : row ∈ s.rows) : s.rows.find? (·.token = row.token) = some row := by
  rcases hfind : s.rows.find? (·.token = row.token) with - | row'
  · exact absurd (decide_eq_true rfl) (List.find?_eq_none.1 hfind row h)
  · obtain ⟨hrow', htoken⟩ := token_of_find hfind
    rw [hfind, eq_of_token hrow' h htoken]

theorem insert_eq_some (h : s.insert row = some inserted) :
    inserted.rows = s.rows ++ [row] ∧ row.token ∉ s.rows.map (·.token) := by
  rw [Table.insert] at h
  split at h
  · exact absurd h.symm (Option.some_ne_none _)
  · obtain rfl := Option.some.inj h
    exact ⟨rfl, ‹_›⟩

/-- A row of an order is one of its user. -/
theorem Table.Ordered.mem_iff (h : s.Ordered userID order) :
    row ∈ order ↔ row ∈ s.rows ∧ row.userID = userID := by
  rw [h.perm.mem_iff, List.mem_filter, decide_eq_true_iff]

/-- Of the sessions of a user, the cap keeps the first five of the order. -/
theorem Table.Ordered.mem_cap (h : s.Ordered userID order) (hrow : row ∈ s.rows)
    (huser : row.userID = userID) : row ∈ (s.cap userID order).rows ↔ row ∈ order.take 5 := by
  rw [Sessions.mem_cap]
  constructor
  · rintro ⟨-, htake⟩
    obtain ⟨row', hrow', htoken⟩ := List.mem_map.1 (htake huser)
    have hmem := (h.mem_iff.1 (List.mem_of_mem_take hrow')).1
    exact eq_of_token hmem hrow htoken ▸ hrow'
  · exact fun htake ↦ ⟨hrow, fun _ ↦ List.mem_map_of_mem htake⟩

/-- A user has five sessions at most. -/
theorem atMostFive (s : Table) (userID : ℕ) (order : List SessionRow) (later : ℤ) :
    (((s.cap userID order).cleanup later).rows.filter (·.userID = userID)).length ≤ 5 := by
  have hnodup : ((((s.cap userID order).cleanup later).rows.filter
      (·.userID = userID)).map (·.token)).Nodup :=
    ((s.cap userID order).cleanup later).token_key.sublist (List.filter_sublist.map _)
  have hsubset : ((((s.cap userID order).cleanup later).rows.filter
      (·.userID = userID)).map (·.token)) ⊆ (order.take 5).map (·.token) := by
    intro token htoken
    obtain ⟨row, hrow, rfl⟩ := List.mem_map.1 htoken
    obtain ⟨hrow, huser⟩ := List.mem_filter.1 hrow
    exact (mem_cap.1 (mem_cleanup.1 hrow).1).2 (of_decide_eq_true huser)
  have hle := (hnodup.subperm hsubset).length_le
  rw [List.length_map, List.length_map, List.length_take] at hle
  omega

/-- What is kept expires no sooner than what is not. -/
theorem Table.Ordered.latest (h : s.Ordered userID order) (hrow : row ∈ s.rows)
    (hdeleted : row ∉ (s.cap userID order).rows) (hrow' : row' ∈ (s.cap userID order).rows)
    (huser' : row'.userID = userID) : row.expiresAt ≤ row'.expiresAt := by
  have huser : row.userID = userID := by
    by_contra hother
    exact hdeleted (Sessions.mem_cap.2 ⟨hrow, fun heq ↦ absurd heq hother⟩)
  rw [h.mem_cap hrow huser] at hdeleted
  have hkept := (h.mem_cap (Sessions.mem_cap.1 hrow').1 huser').1 hrow'
  have hsorted := h.sorted
  have hmem := h.mem_iff.2 ⟨hrow, huser⟩
  rw [← List.take_append_drop 5 order] at hsorted hmem
  exact (List.pairwise_append.1 hsorted).2.2 row' hkept row
    ((List.mem_append.1 hmem).resolve_left hdeleted)

/-! ### The new session -/

variable {hashKey : String → String} {tok : String}

theorem newSession_mem
    (hinsert : s.insert (newSession hashKey userID tok now) = some inserted) :
    newSession hashKey userID tok now ∈ inserted.rows := by
  rw [(insert_eq_some hinsert).1]
  exact List.mem_append_right _ (List.mem_singleton_self _)

/-- A session is accepted while it lasts exactly where its row is there. -/
theorem accepted_iff {row : SessionRow} (hrow : row ∈ inserted.rows)
    (htoken : row.token = hashKey tok) (hlater : later ≤ row.expiresAt) :
    (∀ t, later ≤ t → t ≤ row.expiresAt →
        userFromSession hashKey ((inserted.cap row.userID order).cleanup later) tok t =
          some row.userID) ↔
      row ∈ (inserted.cap row.userID order).rows := by
  constructor
  · intro h
    have hfound := h later le_rfl hlater
    obtain ⟨row', hfind, -⟩ := Option.bind_eq_some_iff.1 hfound
    obtain ⟨hmem, htoken'⟩ := token_of_find hfind
    replace hmem := (mem_cleanup.1 hmem).1
    exact eq_of_token (mem_cap.1 hmem).1 hrow (htoken'.trans htoken.symm) ▸ hmem
  · intro hkept t ht ht'
    rw [userFromSession, ← htoken, find_token (mem_cleanup.2 ⟨hkept, hlater⟩)]
    exact if_neg (Int.not_lt.2 ht')

/-- The sessions of a user that expire as late as a new one. -/
def late (s : Table) (userID : ℕ) (expiresAt : ℤ) : List SessionRow :=
  s.rows.filter fun row ↦ row.userID = userID ∧ expiresAt ≤ row.expiresAt

/-- The rest of the sessions of a user. -/
def early (s : Table) (userID : ℕ) (expiresAt : ℤ) : List SessionRow :=
  s.rows.filter fun row ↦ row.userID = userID ∧ ¬expiresAt ≤ row.expiresAt

/-- A row that no order keeps outside the first five has fewer than five before it. -/
theorem mem_take_of_late (hrows : inserted.rows = s.rows ++ [row])
    (horder : inserted.Ordered row.userID order)
    (hlate : (late s row.userID row.expiresAt).length ≤ 4) : row ∈ order.take 5 := by
  by_contra hdropped
  have hmem : row ∈ order :=
    horder.mem_iff.2 ⟨hrows ▸ List.mem_append_right _ (List.mem_singleton_self _), rfl⟩
  have hsorted := horder.sorted
  rw [← List.take_append_drop 5 order] at hmem hsorted
  have hdrop := (List.mem_append.1 hmem).resolve_left hdropped
  have hlength : (order.take 5).length = 5 := by
    have hpos := List.length_pos_of_mem hdrop
    rw [List.length_drop] at hpos
    rw [List.length_take]
    omega
  -- the first five are five sessions that expire as late
  have hsubset : order.take 5 ⊆ late s row.userID row.expiresAt := by
    intro row' hrow'
    obtain ⟨hin, huser⟩ := horder.mem_iff.1 (List.mem_of_mem_take hrow')
    rw [hrows] at hin
    rcases List.mem_append.1 hin with hold | hnew
    · exact List.mem_filter.2 ⟨hold, decide_eq_true
        ⟨huser, (List.pairwise_append.1 hsorted).2.2 row' hrow' row hdrop⟩⟩
    · exact absurd (List.mem_singleton.1 hnew ▸ hrow') hdropped
  have hnodup : (order.take 5).Nodup := by
    refine (horder.perm.nodup_iff.2 ?_).sublist (List.take_sublist _ _)
    exact (List.Nodup.of_map _ inserted.token_key).filter _
  have hle := (hnodup.subperm hsubset).length_le
  omega

/-- Sessions in the order they expire in, the last first. -/
def latestFirst (rows : List SessionRow) : List SessionRow :=
  rows.mergeSort fun row row' ↦ row'.expiresAt ≤ row.expiresAt

theorem latestFirst_perm (rows : List SessionRow) : (latestFirst rows).Perm rows :=
  List.mergeSort_perm rows _

theorem pairwise_latestFirst (rows : List SessionRow) :
    (latestFirst rows).Pairwise fun row row' ↦ row'.expiresAt ≤ row.expiresAt := by
  have htrans : ∀ a b c : SessionRow, decide (b.expiresAt ≤ a.expiresAt) = true →
      decide (c.expiresAt ≤ b.expiresAt) = true → decide (c.expiresAt ≤ a.expiresAt) = true :=
    fun a b c hab hbc ↦ decide_eq_true ((of_decide_eq_true hbc).trans (of_decide_eq_true hab))
  have htotal : ∀ a b : SessionRow,
      (decide (b.expiresAt ≤ a.expiresAt) || decide (a.expiresAt ≤ b.expiresAt)) = true := by
    intro a b
    rw [Bool.or_eq_true]
    exact (le_total b.expiresAt a.expiresAt).imp decide_eq_true decide_eq_true
  exact (List.pairwise_mergeSort htrans htotal rows).imp of_decide_eq_true

/-- An order that puts a new session after all that expire as late. -/
theorem exists_order (hrow : row.token ∉ s.rows.map (·.token))
    (hrows : inserted.rows = s.rows ++ [row])
    (hlate : 4 < (late s row.userID row.expiresAt).length) :
    ∃ order, inserted.Ordered row.userID order ∧ row ∉ order.take 5 := by
  have hfirst : (latestFirst (late s row.userID row.expiresAt)).length =
      (late s row.userID row.expiresAt).length := (latestFirst_perm _).length_eq
  refine ⟨latestFirst (late s row.userID row.expiresAt) ++
    row :: latestFirst (early s row.userID row.expiresAt), ⟨?_, ?_⟩, ?_⟩
  · have huser : (s.rows ++ [row]).filter (·.userID = row.userID) =
        s.rows.filter (·.userID = row.userID) ++ [row] := by
      rw [List.filter_append, List.filter_singleton, decide_eq_true rfl]
      rfl
    have hsplit : (late s row.userID row.expiresAt ++ early s row.userID row.expiresAt).Perm
        (s.rows.filter (·.userID = row.userID)) := by
      have hperm := List.filter_append_perm (fun row' ↦ decide (row.expiresAt ≤ row'.expiresAt))
        (s.rows.filter (·.userID = row.userID))
      rw [List.filter_filter, List.filter_filter] at hperm
      refine List.Perm.trans (List.Perm.of_eq ?_) hperm
      refine congrArg₂ (· ++ ·) (List.filter_congr fun row' _ ↦ ?_)
        (List.filter_congr fun row' _ ↦ ?_)
      · rw [Bool.decide_and, Bool.and_comm]
      · rw [Bool.decide_and, Bool.and_comm, decide_not]
    rw [hrows, huser]
    refine ((latestFirst_perm _).append ((latestFirst_perm _).cons row)).trans ?_
    exact List.perm_middle.trans ((hsplit.cons row).trans (List.perm_append_singleton row _).symm)
  · refine List.pairwise_append.2 ⟨pairwise_latestFirst _,
      List.pairwise_cons.2 ⟨fun row' hrow' ↦ ?_, pairwise_latestFirst _⟩, fun row' hrow' ↦ ?_⟩
    · obtain ⟨-, hearly⟩ := List.mem_filter.1 ((latestFirst_perm _).mem_iff.1 hrow')
      exact le_of_not_ge (of_decide_eq_true hearly).2
    · obtain ⟨-, hlate'⟩ := List.mem_filter.1 ((latestFirst_perm _).mem_iff.1 hrow')
      refine List.forall_mem_cons.2 ⟨(of_decide_eq_true hlate').2, fun row'' hrow'' ↦ ?_⟩
      obtain ⟨-, hearly⟩ := List.mem_filter.1 ((latestFirst_perm _).mem_iff.1 hrow'')
      exact (le_of_not_ge (of_decide_eq_true hearly).2).trans (of_decide_eq_true hlate').2
  · rw [List.take_append_of_le_length (by omega)]
    intro hmem
    obtain ⟨hold, -⟩ := List.mem_filter.1
      ((latestFirst_perm _).mem_iff.1 (List.mem_of_mem_take hmem))
    exact hrow (List.mem_map_of_mem hold)

end Sessions

open Sessions

/-- **When a fresh session survives the cap**: in whatever order the database returns the sessions
that expire in one second, exactly where at most four others of the user expire as late. (The new
session is of no more use where the call takes longer than it lasts.) The rest of what the cap is
for holds of every call. -/
theorem createSession_iff (hashKey : String → String) {s inserted : Table} {userID : ℕ}
    {tok : String} {now : ℤ} (later : ℤ)
    (hinsert : s.insert (newSession hashKey userID tok now) = some inserted) :
    (∀ order after, inserted.Ordered userID order →
        createSession hashKey s userID tok now later order = some after →
          Survives hashKey inserted after userID tok now later order) ↔
      (late s userID (now + lifetime)).length ≤ 4 ∨ now + lifetime < later := by
  obtain ⟨hrows, hnew⟩ := insert_eq_some hinsert
  have hmem := newSession_mem hinsert
  have hcreated (order : List SessionRow) : createSession hashKey s userID tok now later order =
      some ((inserted.cap userID order).cleanup later) := by
    rw [createSession, hinsert]
    rfl
  constructor
  · intro h
    by_contra hcontra
    obtain ⟨hmany, hlater⟩ := not_or.1 hcontra
    obtain ⟨order, horder, hdropped⟩ := exists_order hnew hrows (Nat.lt_of_not_le hmany)
    have haccepted := (h order _ horder (hcreated order)).accepted
    have hkept := (accepted_iff hmem rfl (Int.not_lt.1 hlater)).1 haccepted
    exact hdropped ((horder.mem_cap hmem rfl).1 hkept)
  · intro hfew order after horder hafter
    obtain rfl := Option.some.inj ((hcreated order).symm.trans hafter)
    refine ⟨?_, atMostFive inserted userID order later, fun row hrow hother hlasts ↦ ?_,
      fun row hrow hdeleted row' hrow' huser' ↦ horder.latest hrow hdeleted hrow' huser'⟩
    · rcases hfew with hfew | hover
      · by_cases hlater : later ≤ now + lifetime
        · exact (accepted_iff hmem rfl hlater).2
            ((horder.mem_cap hmem rfl).2 (mem_take_of_late hrows horder hfew))
        · intro t ht ht'
          omega
      · intro t ht ht'
        omega
    · exact mem_cleanup.2 ⟨mem_cap.2 ⟨hrow, fun huser ↦ absurd huser hother⟩, Int.not_lt.1 hlasts⟩

namespace Sessions.Sample

/-- A hash without collisions. -/
def hashKey (tok : String) : String := "hash of " ++ tok

/-- The sessions of one user that five logins in one second have made. -/
def rows : List SessionRow :=
  [⟨"hash of a", 1, 28800⟩, ⟨"hash of b", 1, 28800⟩, ⟨"hash of c", 1, 28800⟩,
    ⟨"hash of d", 1, 28800⟩, ⟨"hash of e", 1, 28800⟩]

theorem token_key_rows : (rows.map (·.token)).Nodup := by decide +kernel

theorem token_key_nil : (([] : List SessionRow).map (·.token)).Nodup := List.nodup_nil

def table : Table := ⟨rows, token_key_rows⟩

def empty : Table := ⟨[], token_key_nil⟩

/-- Six sessions of one user, four of which expire as late as one that is made at the start, and one
of another. -/
def crowdedRows : List SessionRow :=
  [⟨"hash of a", 1, 28800⟩, ⟨"hash of b", 1, 28799⟩, ⟨"hash of c", 1, 28800⟩,
    ⟨"hash of d", 1, 30000⟩, ⟨"hash of e", 1, 100⟩, ⟨"hash of g", 2, 28800⟩,
    ⟨"hash of h", 1, 28800⟩]

theorem token_key_crowdedRows : (crowdedRows.map (·.token)).Nodup := by decide +kernel

def crowded : Table := ⟨crowdedRows, token_key_crowdedRows⟩

end Sessions.Sample

/-- A seventh session survives four others that expire as late, in whatever order they come. -/
theorem createSession_iff_crowded :
    (Sample.crowded.rows.filter (·.userID = 1)).length = 6 ∧
      (late Sample.crowded 1 (0 + lifetime)).length = 4 ∧
      ∃ inserted, Sample.crowded.insert (newSession Sample.hashKey 1 "f" 0) = some inserted ∧
        ∀ order after, inserted.Ordered 1 order →
          createSession Sample.hashKey Sample.crowded 1 "f" 0 2 order = some after →
            Survives Sample.hashKey inserted after 1 "f" 0 2 order :=
  ⟨by decide +kernel, by decide +kernel, _, rfl,
    (createSession_iff Sample.hashKey 2 rfl).2 (Or.inl (by decide +kernel))⟩

/-- **A sixth login in the same second** is answered with a cookie that is never accepted, where the
database returns the session last that was inserted last. -/
theorem sixth_login : ∃ inserted order after,
    Sample.table.insert (newSession Sample.hashKey 1 "f" 0) = some inserted ∧
      inserted.Ordered 1 order ∧
      createSession Sample.hashKey Sample.table 1 "f" 0 0 order = some after ∧
      (∀ t, userFromSession Sample.hashKey after "f" t = none) ∧
      ¬Survives Sample.hashKey inserted after 1 "f" 0 0 order := by
  have hlookup : ∀ t, userFromSession Sample.hashKey
      (((Sample.table.insert (newSession Sample.hashKey 1 "f" 0)).getD Sample.empty |>.cap 1
        (Sample.rows ++ [newSession Sample.hashKey 1 "f" 0])).cleanup 0) "f" t = none := by
    intro t
    have hfind : (((Sample.table.insert (newSession Sample.hashKey 1 "f" 0)).getD Sample.empty
        |>.cap 1 (Sample.rows ++ [newSession Sample.hashKey 1 "f" 0])).cleanup 0).rows.find?
          (·.token = Sample.hashKey "f") = none := by decide +kernel
    rw [userFromSession, hfind]
    rfl
  refine ⟨_, Sample.rows ++ [newSession Sample.hashKey 1 "f" 0], _, rfl, ⟨?_, ?_⟩, rfl, hlookup,
    fun h ↦ ?_⟩
  · exact List.Perm.of_eq (by decide +kernel)
  · decide +kernel
  · have haccepted := (hlookup 0).symm.trans (h.accepted 0 le_rfl (by decide))
    cases haccepted

end Soroticket
