import Mathlib.Data.List.Induction
import Mathlib.Data.Set.Function
import Soroticket.Machine.Bytes

/-!
# Hash trees without tags

A binary tree of byte strings, hashed from the leaves up: the digest of a leaf is the hash of its
string, and the digest of a node the hash of its children's digests, concatenated. Leaves and nodes
carry no tag, so a digest alone does not say which of the two it belongs to. What tells them apart
is the **length** of what was hashed: a node hashes `2 * n` bytes, and a `Plain` tree has no leaf of
that length.

Two theorems rest on this, for a hash with no collision among the strings actually hashed: the
digest determines the tree (`eq_of_digest_eq`), and a walk of any shape that ends in the tree's
digest started at one of its leaves (`mem_leaves_of_walk`). Neither assumes the hash injective,
which no hash is.
-/

/-- A binary tree with byte strings at its leaves. -/
inductive HashTree where
  | leaf (x : Bytes)
  | node (l r : HashTree)
  deriving DecidableEq

namespace HashTree

variable {n : ℕ}

/-- The strings at the leaves, left to right. -/
def leaves : HashTree → List Bytes
  | leaf x => [x]
  | node l r => l.leaves ++ r.leaves

/-- No leaf is as long as a pair of digests. -/
def Plain (n : ℕ) (t : HashTree) : Prop := ∀ x ∈ t.leaves, x.length ≠ 2 * n

theorem Plain.left {l r : HashTree} (h : (node l r).Plain n) : l.Plain n :=
  fun x hx ↦ h x (List.mem_append_left _ hx)

theorem Plain.right {l r : HashTree} (h : (node l r).Plain n) : r.Plain n :=
  fun x hx ↦ h x (List.mem_append_right _ hx)

theorem Plain.length_ne {x : Bytes} (h : (leaf x).Plain n) : x.length ≠ 2 * n :=
  h x (List.mem_singleton_self x)

/-! ### Digests -/

variable (H : Bytes → BytesN n)

/-- The digest of a tree. -/
def digest : HashTree → BytesN n
  | leaf x => H x
  | node l r => H (l.digest.bytes ++ r.digest.bytes)

/-- What is hashed for the root. -/
def preimage : HashTree → Bytes
  | leaf x => x
  | node l r => (l.digest H).bytes ++ (r.digest H).bytes

/-- Everything hashed for the digest of the tree. -/
def inputs : HashTree → List Bytes
  | leaf x => [x]
  | node l r => ((l.digest H).bytes ++ (r.digest H).bytes) :: (l.inputs ++ r.inputs)

theorem digest_eq (t : HashTree) : t.digest H = H (t.preimage H) := by
  cases t <;> rfl

theorem preimage_mem_inputs (t : HashTree) : t.preimage H ∈ t.inputs H := by
  cases t <;> exact List.mem_cons_self

/-- A pair of digests is as long as a pair of digests. -/
theorem length_pair (a b : BytesN n) : (a.bytes ++ b.bytes).length = 2 * n := by
  rw [List.length_append, a.length_bytes, b.length_bytes]
  omega

variable {H}

/-- **The digest determines the tree.** By induction on the first tree: equal digests have equal
preimages, and the length of the preimage says whether it is a leaf or a node. -/
theorem eq_of_digest_eq {t : HashTree} : ∀ {u : HashTree},
    Set.InjOn H {x | x ∈ t.inputs H ∨ x ∈ u.inputs H} → t.Plain n → u.Plain n →
      t.digest H = u.digest H → t = u := by
  induction t with
  | leaf x =>
    intro u hinj ht hu heq
    rw [digest_eq, digest_eq] at heq
    have hpre := hinj (Or.inl (preimage_mem_inputs H _)) (Or.inr (preimage_mem_inputs H u)) heq
    cases u with
    | leaf y => rw [show x = y from hpre]
    | node l r =>
      change x = (l.digest H).bytes ++ (r.digest H).bytes at hpre
      exact absurd (hpre ▸ length_pair _ _) ht.length_ne
  | node l r ihl ihr =>
    intro u hinj ht hu heq
    rw [digest_eq, digest_eq] at heq
    have hpre := hinj (Or.inl (preimage_mem_inputs H _)) (Or.inr (preimage_mem_inputs H u)) heq
    cases u with
    | leaf y =>
      change (l.digest H).bytes ++ (r.digest H).bytes = y at hpre
      exact absurd (hpre ▸ length_pair _ _) hu.length_ne
    | node l' r' =>
      obtain ⟨hl, hr⟩ := BytesN.append_inj hpre
      -- what is hashed below either child is hashed for the tree
      have hsubl : {x | x ∈ l.inputs H ∨ x ∈ l'.inputs H} ⊆
          {x | x ∈ (node l r).inputs H ∨ x ∈ (node l' r').inputs H} := fun x hx ↦
        hx.imp (fun h ↦ List.mem_cons_of_mem _ (List.mem_append_left _ h))
          (fun h ↦ List.mem_cons_of_mem _ (List.mem_append_left _ h))
      have hsubr : {x | x ∈ r.inputs H ∨ x ∈ r'.inputs H} ⊆
          {x | x ∈ (node l r).inputs H ∨ x ∈ (node l' r').inputs H} := fun x hx ↦
        hx.imp (fun h ↦ List.mem_cons_of_mem _ (List.mem_append_right _ h))
          (fun h ↦ List.mem_cons_of_mem _ (List.mem_append_right _ h))
      rw [ihl (hinj.mono hsubl) ht.left hu.left hl, ihr (hinj.mono hsubr) ht.right hu.right hr]

/-! ### Walks -/

/-- The side a sibling stands on. -/
inductive Side where
  | left
  | right
  deriving DecidableEq

/-- One step of a walk: a sibling, and the side it stands on. -/
structure Step (α : Type) where
  side : Side
  hash : α
  deriving DecidableEq

/-- One step up from `acc`, for any way of joining two digests. -/
def Step.up {α : Type} (parent : α → α → α) (acc : α) (st : Step α) : α :=
  match st.side with
  | .left => parent st.hash acc
  | .right => parent acc st.hash

/-- The walk of a list of steps. -/
def walk {α : Type} (parent : α → α → α) (acc : α) (steps : List (Step α)) : α :=
  steps.foldl (Step.up parent) acc

variable (H) in
/-- The digest of a pair. -/
def joined (a b : BytesN n) : BytesN n := H (a.bytes ++ b.bytes)

variable (H) in
/-- Everything hashed on a walk. -/
def walkInputs (acc : BytesN n) : List (Step (BytesN n)) → List Bytes
  | [] => []
  | st :: rest =>
    (match st.side with
      | .left => st.hash.bytes ++ acc.bytes
      | .right => acc.bytes ++ st.hash.bytes) :: walkInputs (st.up (joined H) acc) rest

/-- The last step of a walk hashes the pair of what was reached before it and the sibling. -/
theorem walk_concat (acc : BytesN n) (steps : List (Step (BytesN n))) (st : Step (BytesN n)) :
    ∃ a b : BytesN n, walk (joined H) acc (steps ++ [st]) = joined H a b ∧
      (a = walk (joined H) acc steps ∨ b = walk (joined H) acc steps) ∧
      a.bytes ++ b.bytes ∈ walkInputs H acc (steps ++ [st]) ∧
      ∀ x ∈ walkInputs H acc steps, x ∈ walkInputs H acc (steps ++ [st]) := by
  induction steps generalizing acc with
  | nil =>
    obtain ⟨side, hash⟩ := st
    have hnone : ∀ x ∈ walkInputs H acc [], x ∈ walkInputs H acc [⟨side, hash⟩] := by
      simp [walkInputs]
    cases side with
    | left => exact ⟨hash, acc, rfl, Or.inr rfl, List.mem_cons_self, hnone⟩
    | right => exact ⟨acc, hash, rfl, Or.inl rfl, List.mem_cons_self, hnone⟩
  | cons st' rest ih =>
    obtain ⟨a, b, hwalk, hreached, hin, hsub⟩ := ih (st'.up (joined H) acc)
    refine ⟨a, b, hwalk, hreached, List.mem_cons_of_mem _ hin, fun x hx ↦ ?_⟩
    rcases List.mem_cons.1 hx with rfl | hx
    · exact List.mem_cons_self
    · exact List.mem_cons_of_mem _ (hsub x hx)

/-- **A walk that ends in the tree's digest started at a leaf.** By induction on the steps from the
last one: its pair is the preimage of the tree, so the tree is a node, and the rest of the walk ends
in the digest of one of its children. A walk of no steps ends where it started, at a string that is
no pair. -/
theorem mem_leaves_of_walk {x : Bytes} (hx : x.length ≠ 2 * n) (steps : List (Step (BytesN n))) :
    ∀ {t : HashTree},
      Set.InjOn H {y | y = x ∨ y ∈ walkInputs H (H x) steps ∨ y ∈ t.inputs H} → t.Plain n →
        walk (joined H) (H x) steps = t.digest H → x ∈ t.leaves := by
  induction steps using List.reverseRecOn with
  | nil =>
    intro t hinj ht hwalk
    rw [digest_eq] at hwalk
    have hpre := hinj (Or.inl rfl) (Or.inr (Or.inr (preimage_mem_inputs H t))) hwalk
    cases t with
    | leaf y => exact List.mem_singleton.2 hpre
    | node l r => exact absurd (hpre ▸ length_pair _ _) hx
  | append_singleton steps st ih =>
    intro t hinj ht hwalk
    obtain ⟨a, b, hlast, hreached, hin, hsub⟩ := walk_concat (H := H) (H x) steps st
    rw [hlast, digest_eq] at hwalk
    have hpre := hinj (Or.inr (Or.inl hin)) (Or.inr (Or.inr (preimage_mem_inputs H t))) hwalk
    cases t with
    | leaf y =>
      change a.bytes ++ b.bytes = y at hpre
      exact absurd (hpre ▸ length_pair a b) ht.length_ne
    | node l r =>
      obtain ⟨rfl, rfl⟩ := BytesN.append_inj hpre
      have hmono : ∀ u : HashTree, (∀ y ∈ u.inputs H, y ∈ (node l r).inputs H) →
          Set.InjOn H {y | y = x ∨ y ∈ walkInputs H (H x) steps ∨ y ∈ u.inputs H} :=
        fun u hu ↦ hinj.mono fun y hy ↦ hy.imp_right fun h ↦ h.imp (hsub y) (hu y)
      rcases hreached with hl | hr
      · exact List.mem_append_left _ (ih
          (hmono l fun y hy ↦ List.mem_cons_of_mem _ (List.mem_append_left _ hy)) ht.left hl.symm)
      · exact List.mem_append_right _ (ih
          (hmono r fun y hy ↦ List.mem_cons_of_mem _ (List.mem_append_right _ hy)) ht.right hr.symm)

end HashTree
