import Mathlib.Algebra.BigOperators.Group.Finset.Basic
import Mathlib.Data.Set.Card

/-!
# Tables of records

A table is a map from keys to optional records, written one key at a time with `Function.update`.
What a table holds after a write is the new record or an old one (`eq_or_eq_of_update`), and a write
to a free key keeps everything that was there (`update_of_free`).

`recordCount f p` is the number of keys of the table `f` whose record satisfies `p`. A program that
keeps such a number in a counter of its own updates one record at a time, so two facts are enough to
follow it: writing a record that newly satisfies `p` adds one (`recordCount_update_of_new`), and
writing one that satisfies `p` exactly when the old one did adds nothing
(`recordCount_update_of_iff`). Grouping the records by a field splits the count into a sum
(`recordCount_eq_sum`). Counting needs finitely many keys, as machine words are.

Over any keys, `Collects f m` says that `m` is the multiset of the records of `f`; a table with a
record under infinitely many keys has none, and any other has one (`Collects.unique`). A record
under a new key adds itself (`Collects.insert`).
-/

variable {α β : Type*}

/-! ### Writes -/

section Writes

variable [DecidableEq α] {f : α → Option β} {a x : α} {b y : β}

/-- What a table holds after one write: the new record, or one that was there. -/
theorem eq_or_eq_of_update (h : Function.update f a (some b) x = some y) :
    x = a ∧ y = b ∨ x ≠ a ∧ f x = some y := by
  rcases eq_or_ne x a with rfl | hx
  · rw [Function.update_self, Option.some.injEq] at h
    exact Or.inl ⟨rfl, h.symm⟩
  · rw [Function.update_of_ne hx] at h
    exact Or.inr ⟨hx, h⟩

/-- Writing a free key keeps what the other keys hold. -/
theorem update_of_free (hfree : f a = none) (hx : f x = some y) :
    Function.update f a (some b) x = some y := by
  have hne : x ≠ a := by
    rintro rfl
    exact Option.some_ne_none y (hx.symm.trans hfree)
  rw [Function.update_of_ne hne, hx]

/-- A write takes nothing away. -/
theorem update_ne_none (hx : f x ≠ none) : Function.update f a (some b) x ≠ none := by
  rcases eq_or_ne x a with rfl | hne
  · rw [Function.update_self]
    exact Option.some_ne_none b
  · rw [Function.update_of_ne hne]
    exact hx

end Writes

/-! ### Counting -/

/-- The keys whose record satisfies `p`. -/
def keysWith (f : α → Option β) (p : β → Prop) : Set α := {a | ∃ b, f a = some b ∧ p b}

/-- The number of keys whose record satisfies `p`. -/
noncomputable def recordCount (f : α → Option β) (p : β → Prop) : ℕ := (keysWith f p).ncard

/-- A key without a record is counted under no predicate. -/
theorem notMem_keysWith_of_none {f : α → Option β} {a : α} (h : f a = none) (p : β → Prop) :
    a ∉ keysWith f p := by
  rintro ⟨b, hb, -⟩
  rw [h] at hb
  exact Option.some_ne_none b hb.symm

/-- A stored record is counted exactly when it satisfies the predicate. -/
theorem mem_keysWith_of_some {f : α → Option β} {p : β → Prop} {a : α} {b : β} (h : f a = some b) :
    a ∈ keysWith f p ↔ p b := by
  simp [keysWith, h]

theorem recordCount_eq_zero [Finite α] {f : α → Option β} {p : β → Prop}
    (h : ∀ a b, f a = some b → ¬p b) : recordCount f p = 0 := by
  rw [recordCount, Set.ncard_eq_zero, Set.eq_empty_iff_forall_notMem]
  rintro a ⟨b, hb, hp⟩
  exact h a b hb hp

/-- A stronger predicate counts fewer records. -/
theorem recordCount_mono [Finite α] {f : α → Option β} {p q : β → Prop} (h : ∀ b, p b → q b) :
    recordCount f p ≤ recordCount f q :=
  Set.ncard_le_ncard fun _ ⟨b, hb, hp⟩ ↦ ⟨b, hb, h b hp⟩

section Update

variable [DecidableEq α] {f : α → Option β} {p : β → Prop} {a : α} {b : β}

theorem mem_keysWith_update {x : α} :
    x ∈ keysWith (Function.update f a (some b)) p ↔ if x = a then p b else x ∈ keysWith f p := by
  rcases eq_or_ne x a with rfl | hx
  · simp [keysWith]
  · simp [keysWith, hx]

/-- Writing a record that newly satisfies `p`. -/
theorem recordCount_update_of_new [Finite α] (hnew : a ∉ keysWith f p) (hp : p b) :
    recordCount (Function.update f a (some b)) p = recordCount f p + 1 := by
  have hset : keysWith (Function.update f a (some b)) p = insert a (keysWith f p) := by
    ext x
    rw [mem_keysWith_update, Set.mem_insert_iff]
    rcases eq_or_ne x a with hx | hx <;> simp [hx, hp]
  rw [recordCount, hset, Set.ncard_insert_of_notMem hnew, recordCount]

/-- Writing a record that satisfies `p` exactly when the key was counted before. -/
theorem recordCount_update_of_iff (h : a ∈ keysWith f p ↔ p b) :
    recordCount (Function.update f a (some b)) p = recordCount f p := by
  have hset : keysWith (Function.update f a (some b)) p = keysWith f p := by
    ext x
    rw [mem_keysWith_update]
    rcases eq_or_ne x a with rfl | hx
    · rw [if_pos rfl, h]
    · rw [if_neg hx]
  rw [recordCount, hset, recordCount]

end Update

/-- Counting the records by the value of one field. -/
theorem recordCount_eq_sum {γ : Type*} [Finite α] [Fintype γ] [DecidableEq γ]
    (f : α → Option β) (g : β → γ) :
    recordCount f (fun _ ↦ True) = ∑ c, recordCount f fun b ↦ g b = c := by
  classical
  have := Fintype.ofFinite α
  -- the field of the record under a key; keys without a record are outside the counted set
  have hfiber : ∀ c : γ, recordCount f (fun b ↦ g b = c) =
      (Finset.univ.filter fun a ↦ ∃ b, f a = some b ∧ g b = c).card := by
    intro c
    rw [recordCount, Set.ncard_eq_toFinset_card', keysWith]
    congr 1
    ext a
    simp
  have hall : recordCount f (fun _ ↦ True) =
      (Finset.univ.biUnion fun c : γ ↦
        Finset.univ.filter fun a ↦ ∃ b, f a = some b ∧ g b = c).card := by
    rw [recordCount, Set.ncard_eq_toFinset_card', keysWith]
    congr 1
    ext a
    simp
  rw [hall, Finset.card_biUnion, Finset.sum_congr rfl fun c _ ↦ (hfiber c).symm]
  -- one record has one value of the field
  intro c _ c' _ hne
  refine Finset.disjoint_left.2 fun a ha ha' ↦ hne ?_
  simp only [Finset.mem_filter, Finset.mem_univ, true_and] at ha ha'
  obtain ⟨b, hb, rfl⟩ := ha
  obtain ⟨b', hb', rfl⟩ := ha'
  rw [Option.some.inj (hb.symm.trans hb')]

/-! ### Collecting -/

/-- The records of a table, each as often as it is stored. -/
def Collects (f : α → Option β) (m : Multiset β) : Prop :=
  ∃ keys : List α, keys.Nodup ∧ (∀ a, a ∈ keys ↔ (f a).isSome = true) ∧ m = ↑(keys.filterMap f)

theorem collects_empty : Collects (fun _ : α ↦ (none : Option β)) 0 :=
  ⟨[], List.nodup_nil, fun _ ↦ iff_of_false List.not_mem_nil Bool.false_ne_true, rfl⟩

/-- A table has one collection. -/
theorem Collects.unique {f : α → Option β} {m m' : Multiset β} (h : Collects f m)
    (h' : Collects f m') : m = m' := by
  obtain ⟨keys, hnodup, hkeys, rfl⟩ := h
  obtain ⟨keys', hnodup', hkeys', rfl⟩ := h'
  have hperm : keys.Perm keys' :=
    (List.perm_ext_iff_of_nodup hnodup hnodup').2 fun a ↦ (hkeys a).trans (hkeys' a).symm
  exact Multiset.coe_eq_coe.2 (hperm.filterMap f)

/-- A record under a new key. -/
theorem Collects.insert [DecidableEq α] {f : α → Option β} {m : Multiset β} (h : Collects f m)
    {a : α} (hfree : f a = none) (b : β) : Collects (Function.update f a (some b)) (b ::ₘ m) := by
  obtain ⟨keys, hnodup, hkeys, rfl⟩ := h
  have hnew : a ∉ keys := by
    rw [hkeys, hfree]
    exact Bool.false_ne_true
  refine ⟨a :: keys, List.nodup_cons.2 ⟨hnew, hnodup⟩, fun x ↦ ?_, ?_⟩
  · rcases eq_or_ne x a with rfl | hx
    · rw [Function.update_self]
      exact iff_of_true List.mem_cons_self rfl
    · rw [List.mem_cons, Function.update_of_ne hx, ← hkeys]
      exact or_iff_right hx
  · have hrest : keys.filterMap (Function.update f a (some b)) = keys.filterMap f :=
      List.filterMap_congr fun x hx ↦ Function.update_of_ne (ne_of_mem_of_not_mem hx hnew) _ _
    rw [List.filterMap_cons, Function.update_self, hrest]
    rfl
