import Soroticket.Machine.HashTree

/-!
# The Merkle tree over receipts

The tree the cloud service commits for a period: levels built by pairing neighbours, an odd last
node promoted unchanged, and inclusion proofs that skip a level exactly where the path's node was
promoted. The functions take the way of joining two hashes as a parameter, `merkleParent` in the
source, since what is true of levels and proofs is true of any.

Go's slices are lists. An index out of range panics in Go; here it is `none`, and completeness says
among other things that a proof for a leaf of the tree never meets one. A proof for an index outside
the leaves is `nil`, which as a list of steps is the empty one.
-/

namespace Soroticket

open HashTree

variable {α : Type}

/-- A step of an inclusion proof: `left` or `right`, and the sibling's hash. -/
abbrev MerkleStep (α : Type) := HashTree.Step α

/-! ### Levels -/

/-- The body of the loop of `merkleLevels`: the level above a level. -/
def nextLevel (merkleParent : α → α → α) : List α → List α
  | left :: right :: rest => merkleParent left right :: nextLevel merkleParent rest
  | [odd] => [odd]
  | [] => []

@[simp] theorem length_nextLevel (merkleParent : α → α → α) :
    ∀ level : List α, (nextLevel merkleParent level).length = (level.length + 1) / 2
  | _ :: _ :: rest => by
    rw [nextLevel, List.length_cons, length_nextLevel merkleParent rest, List.length_cons,
      List.length_cons]
    omega
  | [_] => by simp [nextLevel]
  | [] => by simp [nextLevel]

/-- The loop of `merkleLevels`, from the level it has reached. -/
def levelsFrom (merkleParent : α → α → α) (level : List α) : List (List α) :=
  if 1 < level.length then level :: levelsFrom merkleParent (nextLevel merkleParent level)
  else [level]
termination_by level.length
decreasing_by
  rw [length_nextLevel]
  omega

/-- `merkleLevels`: every level of the tree, the leaves first. -/
def merkleLevels (merkleParent : α → α → α) (leaves : List α) : List (List α) :=
  if leaves = [] then [] else levelsFrom merkleParent leaves

/-- `merkleRoot`: the first node of the last level, or the zero root when there is none. -/
def merkleRoot (zero : α) (merkleParent : α → α → α) (leaves : List α) : α :=
  match (merkleLevels merkleParent leaves).getLast? with
  | none => zero
  | some last => last.headD zero

/-! ### Proofs -/

/-- The sibling's step at one level of a proof, if the path's node has one. -/
def siblingStep (level : List α) (index : ℕ) : Option (List (MerkleStep α)) :=
  if index % 2 = 1 then level[index - 1]?.map fun h ↦ [⟨.left, h⟩]
  else if index + 1 < level.length then level[index + 1]?.map fun h ↦ [⟨.right, h⟩]
  else some []

/-- The loop of `merkleProofFromLevels`, over every level but the last. -/
def proofFrom : List (List α) → ℕ → Option (List (MerkleStep α))
  | level :: next :: rest, index => do
    let step ← siblingStep level index
    let above ← proofFrom (next :: rest) (index / 2)
    return step ++ above
  | _, _ => some []

/-- `merkleProofFromLevels`: the inclusion proof of one leaf, on levels already built. -/
def merkleProofFromLevels (levels : List (List α)) (index : ℤ) : Option (List (MerkleStep α)) :=
  match levels with
  | [] => some []
  | leaves :: _ =>
    if index < 0 ∨ (leaves.length : ℤ) ≤ index then some [] else proofFrom levels index.toNat

/-- `merkleProof`: the inclusion proof of one leaf. -/
def merkleProof (merkleParent : α → α → α) (leaves : List α) (index : ℤ) :
    Option (List (MerkleStep α)) :=
  merkleProofFromLevels (merkleLevels merkleParent leaves) index

/-! ### The shape of the levels -/

section Levels

variable (merkleParent : α → α → α)

theorem levelsFrom_of_one_lt {level : List α} (h : 1 < level.length) :
    levelsFrom merkleParent level =
      level :: levelsFrom merkleParent (nextLevel merkleParent level) := by
  rw [levelsFrom, if_pos h]

theorem levelsFrom_of_le_one {level : List α} (h : ¬1 < level.length) :
    levelsFrom merkleParent level = [level] := by
  rw [levelsFrom, if_neg h]

theorem ne_nil_of_one_lt {level : List α} (h : 1 < level.length) : level ≠ [] :=
  List.ne_nil_of_length_pos (by omega)

theorem nextLevel_ne_nil {level : List α} (h : 1 < level.length) :
    nextLevel merkleParent level ≠ [] := by
  refine List.ne_nil_of_length_pos ?_
  rw [length_nextLevel]
  omega

/-- Induction on a level that has a node: the root alone, or a level over the level above it. -/
theorem level_induction {P : ∀ level : List α, level ≠ [] → Prop}
    (hroot : ∀ root, P [root] (List.cons_ne_nil root []))
    (hlevel : ∀ level (h : 1 < level.length),
      P (nextLevel merkleParent level) (nextLevel_ne_nil merkleParent h) →
        P level (ne_nil_of_one_lt h)) (level : List α) (hne : level ≠ []) : P level hne := by
  induction hlen : level.length using Nat.strong_induction_on generalizing level with
  | _ len ih =>
    subst hlen
    rcases Nat.lt_or_ge 1 level.length with h | h
    · refine hlevel level h (ih _ ?_ _ _ rfl)
      rw [length_nextLevel]
      omega
    · have hpos := List.length_pos_iff.2 hne
      obtain ⟨root, rfl⟩ : ∃ root, level = [root] := List.length_eq_one_iff.1 (by omega)
      exact hroot root

/-- The levels are never empty, and start with the level they are built from. -/
theorem levelsFrom_eq_cons (level : List α) :
    ∃ rest, levelsFrom merkleParent level = level :: rest := by
  rcases Nat.lt_or_ge 1 level.length with h | h
  · exact ⟨_, levelsFrom_of_one_lt merkleParent h⟩
  · exact ⟨[], levelsFrom_of_le_one merkleParent (Nat.not_lt.2 h)⟩

/-- **The last level is the root alone.** -/
theorem getLast?_levelsFrom (level : List α) (hne : level ≠ []) :
    ∃ root, (levelsFrom merkleParent level).getLast? = some [root] := by
  induction level, hne using level_induction merkleParent with
  | hroot root =>
    rw [levelsFrom_of_le_one merkleParent (by simp)]
    exact ⟨root, rfl⟩
  | hlevel level h ih =>
    obtain ⟨root, hroot⟩ := ih
    obtain ⟨rest, hrest⟩ := levelsFrom_eq_cons merkleParent (nextLevel merkleParent level)
    refine ⟨root, ?_⟩
    rw [levelsFrom_of_one_lt merkleParent h, hrest, List.getLast?_cons_cons, ← hrest, hroot]

/-- The root of a tree of several leaves is the root of the level above them. -/
theorem merkleRoot_nextLevel (zero : α) {level : List α} (h : 1 < level.length) :
    merkleRoot zero merkleParent level =
      merkleRoot zero merkleParent (nextLevel merkleParent level) := by
  obtain ⟨rest, hrest⟩ := levelsFrom_eq_cons merkleParent (nextLevel merkleParent level)
  rw [merkleRoot, merkleRoot, merkleLevels, merkleLevels, if_neg (ne_nil_of_one_lt h),
    if_neg (nextLevel_ne_nil merkleParent h), levelsFrom_of_one_lt merkleParent h, hrest,
    List.getLast?_cons_cons]

theorem merkleRoot_singleton (zero a : α) : merkleRoot zero merkleParent [a] = a := by
  rw [merkleRoot, merkleLevels, if_neg (List.cons_ne_nil a []),
    levelsFrom_of_le_one merkleParent (by simp)]
  rfl

/-- The node `j` of the level above joins the nodes `2 j` and `2 j + 1`, or is the promoted node
`2 j`. -/
theorem getElem?_nextLevel : ∀ (level : List α) (j : ℕ),
    (nextLevel merkleParent level)[j]? =
      match level[2 * j]?, level[2 * j + 1]? with
      | some a, some b => some (merkleParent a b)
      | some a, none => some a
      | none, _ => none
  | a :: b :: rest, 0 => rfl
  | a :: b :: rest, j + 1 => by
    have h := getElem?_nextLevel rest j
    rw [nextLevel, List.getElem?_cons_succ, h]
    rfl
  | [a], 0 => rfl
  | [a], j + 1 => rfl
  | [], j => rfl

/-! ### Completeness -/

/-- One level of a proof: from the path's node, the step leads to the node above it. -/
theorem siblingStep_spec {level : List α} {i : ℕ} {leaf : α} (hleaf : level[i]? = some leaf) :
    ∃ step up, siblingStep level i = some step ∧
      (nextLevel merkleParent level)[i / 2]? = some up ∧ walk merkleParent leaf step = up := by
  have hi : i < level.length := (List.getElem?_eq_some_iff.1 hleaf).1
  rw [getElem?_nextLevel]
  rcases Nat.mod_two_eq_zero_or_one i with heven | hodd
  · have hdiv : 2 * (i / 2) = i := by omega
    rw [hdiv, hleaf, siblingStep, if_neg (by omega)]
    rcases Nat.lt_or_ge (i + 1) level.length with hsib | hlast
    · -- a right sibling
      rw [if_pos hsib, List.getElem?_eq_getElem hsib]
      exact ⟨_, _, rfl, rfl, rfl⟩
    · -- the unpaired last node: no step, and the node is promoted
      rw [if_neg (Nat.not_lt.2 hlast), List.getElem?_eq_none hlast]
      exact ⟨_, _, rfl, rfl, rfl⟩
  · -- a left sibling
    have hdiv : 2 * (i / 2) = i - 1 := by omega
    have hdiv' : 2 * (i / 2) + 1 = i := by omega
    have hsib : i - 1 < level.length := by omega
    rw [hdiv', hdiv, hleaf, siblingStep, if_pos hodd, List.getElem?_eq_getElem hsib]
    exact ⟨_, _, rfl, rfl, rfl⟩

/-- By induction on the level: its step leads to the level above, and there the rest of the proof
leads to the root. -/
theorem proofFrom_spec (zero : α) (level : List α) (hne : level ≠ []) :
    ∀ {i : ℕ} {leaf : α}, level[i]? = some leaf →
      ∃ steps, proofFrom (levelsFrom merkleParent level) i = some steps ∧
        walk merkleParent leaf steps = merkleRoot zero merkleParent level := by
  induction level, hne using level_induction merkleParent with
  | hroot root =>
    intro i leaf hleaf
    have hi : i < [root].length := (List.getElem?_eq_some_iff.1 hleaf).1
    obtain rfl : i = 0 := by simpa using hi
    obtain rfl : root = leaf := by simpa using hleaf
    rw [levelsFrom_of_le_one merkleParent (by simp), merkleRoot_singleton]
    exact ⟨[], rfl, rfl⟩
  | hlevel level h ih =>
    intro i leaf hleaf
    obtain ⟨step, up, hstep, hup, hwalk⟩ := siblingStep_spec merkleParent hleaf
    obtain ⟨above, habove, hroot⟩ := ih hup
    obtain ⟨rest, hrest⟩ := levelsFrom_eq_cons merkleParent (nextLevel merkleParent level)
    refine ⟨step ++ above, ?_, ?_⟩
    · rw [levelsFrom_of_one_lt merkleParent h, hrest, proofFrom, hstep, ← hrest, habove]
      rfl
    · rw [merkleRoot_nextLevel merkleParent zero h, ← hroot, ← hwalk]
      exact List.foldl_append

/-- The levels end in the root alone. -/
theorem getLast?_merkleLevels (zero : α) {leaves : List α} (hne : leaves ≠ []) :
    (merkleLevels merkleParent leaves).getLast? = some [merkleRoot zero merkleParent leaves] := by
  have hlevels : merkleLevels merkleParent leaves = levelsFrom merkleParent leaves := if_neg hne
  obtain ⟨root, hroot⟩ := getLast?_levelsFrom merkleParent leaves hne
  rw [merkleRoot, hlevels, hroot]
  rfl

/-- The proof of a leaf exists, and leads from the leaf to the root. -/
theorem exists_proof_of_lt (zero : α) {leaves : List α} {i : ℕ} (hi : i < leaves.length) :
    ∃ steps, merkleProofFromLevels (merkleLevels merkleParent leaves) i = some steps ∧
      walk merkleParent leaves[i] steps = merkleRoot zero merkleParent leaves := by
  have hne : leaves ≠ [] := List.ne_nil_of_length_pos (Nat.zero_lt_of_lt hi)
  have hlevels : merkleLevels merkleParent leaves = levelsFrom merkleParent leaves := if_neg hne
  obtain ⟨steps, hsteps, hwalk⟩ :=
    proofFrom_spec merkleParent zero leaves hne (List.getElem?_eq_getElem hi)
  obtain ⟨rest, hrest⟩ := levelsFrom_eq_cons merkleParent leaves
  refine ⟨steps, ?_, hwalk⟩
  rw [hlevels, hrest, merkleProofFromLevels, if_neg (by omega), ← hrest, Int.toNat_natCast, hsteps]

/-- On the levels of a tree no index leads out of a level. -/
theorem exists_merkleProofFromLevels (leaves : List α) (i : ℕ) :
    ∃ steps, merkleProofFromLevels (merkleLevels merkleParent leaves) i = some steps := by
  by_cases hi : i < leaves.length
  · obtain ⟨steps, hsteps, -⟩ := exists_proof_of_lt merkleParent leaves[i] hi
    exact ⟨steps, hsteps⟩
  · rcases eq_or_ne leaves [] with rfl | hne
    · exact ⟨[], rfl⟩
    · obtain ⟨rest, hrest⟩ := levelsFrom_eq_cons merkleParent leaves
      refine ⟨[], ?_⟩
      rw [merkleLevels, if_neg hne, hrest, merkleProofFromLevels, if_pos (by omega)]

/-- **Inclusion proofs are complete.** For every non-empty list of leaves and every way of joining
two hashes, the levels end in the root alone, and the proof of every leaf exists and leads from the
leaf to the root. -/
theorem merkleProof_complete (zero : α) {leaves : List α} (hne : leaves ≠ []) :
    (merkleLevels merkleParent leaves).getLast? = some [merkleRoot zero merkleParent leaves] ∧
    ∀ (i : ℕ) (hi : i < leaves.length), ∃ steps,
      merkleProof merkleParent leaves i = some steps ∧
      merkleProofFromLevels (merkleLevels merkleParent leaves) i = some steps ∧
      walk merkleParent leaves[i] steps = merkleRoot zero merkleParent leaves := by
  refine ⟨getLast?_merkleLevels merkleParent zero hne, fun i hi ↦ ?_⟩
  obtain ⟨steps, hsteps, hwalk⟩ := exists_proof_of_lt merkleParent zero hi
  exact ⟨steps, hsteps, hsteps, hwalk⟩

/-- Three leaves: the last one is promoted past the first level, and its proof has one step. -/
theorem merkleProof_complete_three : ∃ steps,
    merkleProof (fun a b ↦ 10 * a + b) [1, 2, 3] 2 = some steps ∧
      walk (fun a b ↦ 10 * a + b) 3 steps = merkleRoot 0 (fun a b ↦ 10 * a + b) [1, 2, 3] := by
  obtain ⟨-, hproof⟩ := merkleProof_complete (fun a b ↦ 10 * a + b) 0 (List.cons_ne_nil 1 [2, 3])
  obtain ⟨steps, hsteps, -, hwalk⟩ := hproof 2 (by decide)
  exact ⟨steps, hsteps, hwalk⟩

end Levels

end Soroticket
