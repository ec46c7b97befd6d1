import Mathlib.Data.List.Infix
import Mathlib.Tactic.Common

/-!
# Reading a list page by page

A reader asks for a list in pages, each from where the last one ended, and stops at an empty page.
Between two pages the list may grow at its end, and the reader may change the size of its pages.

What it has read is then a stretch of the list as it will be (`visited_prefix_drop`), and all that
was there when it began is in it, once it has stopped or has asked often enough
(`drop_prefix_visited`). Both rest on one fact: two stretches that meet are one
(`append_prefix_drop`).

A page may also say itself where the next one begins, and the last one that there is none. A reader
that follows what they say walks the list (`Walk`): it reads all of it, in order
(`Walk.flatMap_items`), and it comes to an end (`exists_walk`).
-/

namespace Paging

variable {α : Type*} {l L p q : List α} {c n : ℕ}

/-- The elements from position `c` on, at most `n` of them. -/
def page (l : List α) (c n : ℕ) : List α := (l.drop c).take n

theorem page_prefix_drop (l : List α) (c n : ℕ) : page l c n <+: l.drop c :=
  List.take_prefix n (l.drop c)

theorem length_page (l : List α) (c n : ℕ) : (page l c n).length = min n (l.length - c) := by
  rw [page, List.length_take, List.length_drop]

/-- A page is empty past the end of the list only. -/
theorem page_eq_nil_iff (hn : 0 < n) : page l c n = [] ↔ l.length ≤ c := by
  rw [← List.length_eq_zero_iff, length_page]
  omega

theorem prefix_drop (h : l <+: L) (c : ℕ) : l.drop c <+: L.drop c := by
  obtain ⟨t, rfl⟩ := h
  rw [List.drop_append]
  exact List.prefix_append _ _

/-- Two stretches that meet are one. -/
theorem append_prefix_drop (hp : p <+: L.drop c) (hq : q <+: L.drop (c + p.length)) :
    p ++ q <+: L.drop c := by
  obtain ⟨t, ht⟩ := hp
  have htail : L.drop (c + p.length) = t := by
    rw [← List.drop_drop, ← ht, List.drop_left]
  rw [htail] at hq
  rw [← ht]
  exact (List.prefix_append_right_inj p).2 hq

/-- What a reader has seen after some rounds, each with the list as it then is and the size of the
page asked for, and whether it has stopped. -/
def visited (c : ℕ) : List (List α × ℕ) → List α × Bool
  | [] => ([], false)
  | (l, n) :: rounds =>
    match page l c n with
    | [] => ([], true)
    | p =>
      let rest := visited (c + p.length) rounds
      (p ++ rest.1, rest.2)

theorem visited_cons_of_nil {rounds : List (List α × ℕ)} (h : page l c n = []) :
    visited c ((l, n) :: rounds) = ([], true) := by
  simp only [visited, h]

theorem visited_cons_of_ne_nil {rounds : List (List α × ℕ)} (h : page l c n ≠ []) :
    visited c ((l, n) :: rounds) =
      (page l c n ++ (visited (c + (page l c n).length) rounds).1,
        (visited (c + (page l c n).length) rounds).2) := by
  rcases hp : page l c n with - | ⟨a, p⟩
  · exact absurd hp h
  · simp only [visited, hp]

/-- **What is read is a stretch of the list as it will be.** By induction on the rounds, for every
place to begin. -/
theorem visited_prefix_drop {rounds : List (List α × ℕ)} (h : ∀ r ∈ rounds, r.1 <+: L) :
    ∀ c, (visited c rounds).1 <+: L.drop c := by
  induction rounds with
  | nil => exact fun c ↦ List.nil_prefix
  | cons r rounds ih =>
    obtain ⟨l, n⟩ := r
    have hl : l <+: L := h (l, n) List.mem_cons_self
    intro c
    by_cases hp : page l c n = []
    · rw [visited_cons_of_nil hp]
      exact List.nil_prefix
    · rw [visited_cons_of_ne_nil hp]
      exact append_prefix_drop ((page_prefix_drop l c n).trans (prefix_drop hl c))
        (ih (fun r hr ↦ h r (List.mem_cons_of_mem _ hr)) _)

/-- **All that was there at the beginning is read**, by a reader that has stopped, or has asked for
as many pages as there were elements. -/
theorem drop_prefix_visited {rounds : List (List α × ℕ)} (hl : l <+: L)
    (h : ∀ r ∈ rounds, l <+: r.1 ∧ r.1 <+: L ∧ 0 < r.2) :
    ∀ c, (visited c rounds).2 = true ∨ l.length ≤ c + rounds.length →
      l.drop c <+: (visited c rounds).1 := by
  induction rounds with
  | nil =>
    rintro c (hstop | hlen)
    · exact absurd hstop Bool.false_ne_true
    · rw [List.drop_eq_nil_of_le (show l.length ≤ c from hlen)]
      exact List.nil_prefix
  | cons r rounds ih =>
    obtain ⟨l', n⟩ := r
    obtain ⟨hl', hL, hn⟩ := h (l', n) List.mem_cons_self
    intro c hend
    by_cases hp : page l' c n = []
    · have hle : l.length ≤ c := hl'.length_le.trans ((page_eq_nil_iff hn).1 hp)
      rw [visited_cons_of_nil hp, List.drop_eq_nil_of_le hle]
    · rw [visited_cons_of_ne_nil hp] at hend ⊢
      have hpos : 0 < (page l' c n).length := List.length_pos_of_ne_nil hp
      have hrest : l.drop (c + (page l' c n).length) <+:
          (visited (c + (page l' c n).length) rounds).1 := by
        refine ih (fun r hr ↦ h r (List.mem_cons_of_mem _ hr)) _ (hend.imp_right fun hlen ↦ ?_)
        rw [List.length_cons] at hlen
        omega
      -- both are stretches of the list as it will be, from one position on
      have hread := append_prefix_drop ((page_prefix_drop l' c n).trans (prefix_drop hL c))
        (visited_prefix_drop (fun r hr ↦ (h r (List.mem_cons_of_mem _ hr)).2.1)
          (c + (page l' c n).length))
      refine List.prefix_of_prefix_length_le (prefix_drop hl c) hread ?_
      have hle := hrest.length_le
      rw [List.length_drop] at hle
      rw [List.length_drop, List.length_append]
      omega

/-! ### Pages that name the next one -/

section Walk

variable {P : Type*} {next : P → Option ℕ} {ask : ℕ → ℕ → P → Prop}

/-- A walk: each page is asked for where the one before says, until one names no next. In round `k`
and from position `c`, the pages a reader may be given are those with `ask k c`. -/
inductive Walk (next : P → Option ℕ) (ask : ℕ → ℕ → P → Prop) : ℕ → ℕ → List P → Prop
  | last {k c : ℕ} {p : P} (hask : ask k c p) (hnext : next p = none) : Walk next ask k c [p]
  | step {k c c' : ℕ} {p : P} {ps : List P} (hask : ask k c p) (hnext : next p = some c')
    (hrest : Walk next ask (k + 1) c' ps) : Walk next ask k c (p :: ps)

/-- Every page of a walk was asked for. -/
theorem Walk.asked {k c : ℕ} {ps : List P} (h : Walk next ask k c ps) :
    ∀ p ∈ ps, ∃ k c, ask k c p := by
  induction h with
  | @last k c p hp hnext =>
    intro q hq
    obtain rfl := List.mem_singleton.1 hq
    exact ⟨k, c, hp⟩
  | @step k c c' p ps hp hnext hrest ih =>
    intro q hq
    rcases List.mem_cons.1 hq with rfl | hq
    · exact ⟨k, c, hp⟩
    · exact ih q hq

/-- What stands in a page stands in the list, at the place the page begins and some more. -/
theorem getElem?_of_page {x : α} {i : ℕ} (h : (page l c n)[i]? = some x) :
    l[c + i]? = some x := by
  rw [page, List.getElem?_take] at h
  split at h
  · rwa [List.getElem?_drop] at h
  · exact absurd h.symm (Option.some_ne_none x)

theorem page_map {β : Type*} (f : α → β) (l : List α) (c n : ℕ) :
    page (l.map f) c n = (page l c n).map f := by
  rw [page, page, ← List.map_drop, ← List.map_take]

/-- Where the page after one ends begins, if anything is left. -/
def pageEnd (l : List α) (c : ℕ) (p : List α) : Option ℕ :=
  if c + p.length < l.length then some (c + p.length) else none

theorem page_append_drop (l : List α) (c n : ℕ) :
    page l c n ++ l.drop (c + (page l c n).length) = l.drop c := by
  obtain ⟨t, ht⟩ := page_prefix_drop l c n
  rw [← List.drop_drop, ← ht, List.drop_left]

/-- **A walk reads all of the list, in order**: its pages, put end to end, are what the list holds
from its first position on. -/
theorem Walk.flatMap_items {items : P → List α} {k c : ℕ} {ps : List P}
    (h : Walk next ask k c ps) (hask : ∀ k c p, ask k c p →
      ∃ n, items p = page l c n ∧ next p = pageEnd l c (items p)) :
    ps.flatMap items = l.drop c := by
  induction h with
  | @last k c p hp hnext =>
    obtain ⟨n, hitems, hend⟩ := hask k c p hp
    rw [List.flatMap_singleton, hitems]
    rw [hnext, hitems, pageEnd] at hend
    split at hend
    case isTrue => exact absurd hend.symm (Option.some_ne_none _)
    case isFalse hlen =>
      have hall := page_append_drop l c n
      rwa [List.drop_eq_nil_of_le (Nat.not_lt.1 hlen), List.append_nil] at hall
  | @step k c c' p ps hp hnext hrest ih =>
    obtain ⟨n, hitems, hend⟩ := hask k c p hp
    rw [hnext, hitems, pageEnd] at hend
    split at hend
    case isTrue =>
      rw [List.flatMap_cons, ih, hitems, Option.some.inj hend]
      exact page_append_drop l c n
    case isFalse => exact absurd hend (Option.some_ne_none _)

/-- **A walk comes to an end**, whatever the sizes of its pages: by induction on what is left. -/
theorem exists_walk {items : P → List α} (hask : ∀ k c, c ≤ l.length →
      ∃ p n, ask k c p ∧ 0 < n ∧ items p = page l c n ∧ next p = pageEnd l c (items p)) :
    ∀ k c, c ≤ l.length → ∃ ps, Walk next ask k c ps := by
  intro k c hc
  induction hleft : l.length - c using Nat.strong_induction_on generalizing k c with
  | _ left ih =>
    obtain ⟨p, n, hp, hn, hitems, hnext⟩ := hask k c hc
    rw [pageEnd] at hnext
    split at hnext
    case isFalse => exact ⟨[p], .last hp hnext⟩
    case isTrue hlen =>
      have hpos : 0 < (items p).length := by
        rw [hitems, length_page]
        omega
      obtain ⟨ps, hps⟩ := ih _ (by omega) (k + 1) (c + (items p).length) hlen.le rfl
      exact ⟨p :: ps, .step hp hnext hps⟩

end Walk

end Paging
