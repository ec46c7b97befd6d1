import Soroticket.Cloud.Handlers

/-!
# The periods of a week

The tallies of a shared code that are committed in one ISO week take up to a hundred periods: that
of the week, and those of its batches. A commit that names no period takes the next one, which is
one more than the last batch committed, whatever is free below it. So a week is open as long as its
last batch is not committed, and stays closed once it is (`findsSlot_iff`).

That the next period is one the service accepts rests on the calendar: a day lies in the year
`yearOfDay` finds for it (`yearOfDay_spec`), and no day is in a later week than the 28th of December
of its year (`isoWeek_le`).
-/

namespace Soroticket

/-! ### Weeks -/

/-- The first of January of a year, from its place in the periods of 400, 100 and 4 years. -/
theorem daysToYear_eq (q c b a : ℤ) (hc₀ : 0 ≤ c) (hc₃ : c ≤ 3) (hb₀ : 0 ≤ b) (hb₂₄ : b ≤ 24)
    (ha₀ : 0 ≤ a) (ha₃ : a ≤ 3) : daysToYear (400 * q + 100 * c + 4 * b + a + 1) =
      146097 * q + 36524 * c + 1461 * b + 365 * a - 719162 := by
  have h₄ : (400 * q + 100 * c + 4 * b + a) / 4 = 100 * q + 25 * c + b := by omega
  have h₁₀₀ : (400 * q + 100 * c + 4 * b + a) / 100 = 4 * q + c := by omega
  have h₄₀₀ : (400 * q + 100 * c + 4 * b + a) / 400 = q := by omega
  rw [daysToYear, Int.add_sub_cancel, h₄, h₁₀₀, h₄₀₀]
  omega

/-- **A day lies in its year.** -/
theorem yearOfDay_spec (day : ℤ) :
    daysToYear (yearOfDay day) ≤ day ∧ day < daysToYear (yearOfDay day + 1) := by
  -- the day, in periods of 400, 100, 4 years and one year, each as long as it can be
  obtain ⟨q, d₁, hq, hd₁, h₀, h₁⟩ : ∃ q d₁ : ℤ, (day + 719162) / 146097 = q ∧
      (day + 719162) % 146097 = d₁ ∧ 0 ≤ d₁ ∧ d₁ < 146097 :=
    ⟨_, _, rfl, rfl, by omega, by omega⟩
  obtain ⟨c, hc, hc₀, hc₃, hlow, hhigh⟩ : ∃ c : ℤ, min 3 (d₁ / 36524) = c ∧ 0 ≤ c ∧ c ≤ 3 ∧
      36524 * c ≤ d₁ ∧ (c < 3 → d₁ < 36524 * c + 36524) :=
    ⟨_, rfl, by omega, by omega, by omega, by omega⟩
  obtain ⟨b, r, hb, hr, hr₀, hr₁, hb₀, hb₂₄⟩ : ∃ b r : ℤ, (d₁ - 36524 * c) / 1461 = b ∧
      (d₁ - 36524 * c) % 1461 = r ∧ 0 ≤ r ∧ r < 1461 ∧ 0 ≤ b ∧ b ≤ 24 :=
    ⟨_, _, rfl, rfl, by omega, by omega, by omega, by omega⟩
  obtain ⟨a, ha, ha₀, ha₃, halow, hahigh⟩ : ∃ a : ℤ, min 3 (r / 365) = a ∧ 0 ≤ a ∧ a ≤ 3 ∧
      365 * a ≤ r ∧ (a < 3 → r < 365 * a + 365) :=
    ⟨_, rfl, by omega, by omega, by omega, by omega⟩
  have hyear : yearOfDay day = 400 * q + 100 * c + 4 * b + a + 1 := by
    simp only [yearOfDay]
    rw [hq, hd₁, hc, hb, hr, ha]
  have hday : day + 719162 = 146097 * q + 36524 * c + 1461 * b + r := by omega
  refine ⟨?_, ?_⟩
  · rw [hyear, daysToYear_eq q c b a hc₀ hc₃ hb₀ hb₂₄ ha₀ ha₃]
    omega
  · rcases Int.lt_or_eq_of_le ha₃ with ha' | rfl
    · rw [hyear, Int.add_assoc _ a 1,
        daysToYear_eq q c b (a + 1) hc₀ hc₃ hb₀ hb₂₄ (by omega) (by omega)]
      omega
    · rcases Int.lt_or_eq_of_le hb₂₄ with hb' | rfl
      · have hnext : 400 * q + 100 * c + 4 * b + 3 + 1 + 1 =
            400 * q + 100 * c + 4 * (b + 1) + 0 + 1 := by omega
        rw [hyear, hnext,
          daysToYear_eq q c (b + 1) 0 hc₀ hc₃ (by omega) (by omega) le_rfl (by omega)]
        omega
      · rcases Int.lt_or_eq_of_le hc₃ with hc' | rfl
        · have hnext : 400 * q + 100 * c + 4 * 24 + 3 + 1 + 1 =
              400 * q + 100 * (c + 1) + 4 * 0 + 0 + 1 := by omega
          rw [hyear, hnext,
            daysToYear_eq q (c + 1) 0 0 (by omega) (by omega) le_rfl (by omega) le_rfl (by omega)]
          omega
        · have hnext : 400 * q + 100 * 3 + 4 * 24 + 3 + 1 + 1 =
              400 * (q + 1) + 100 * 0 + 4 * 0 + 0 + 1 := by omega
          rw [hyear, hnext, daysToYear_eq (q + 1) 0 0 0 le_rfl (by omega) le_rfl (by omega) le_rfl
            (by omega)]
          omega

/-- A year has 365 days, or one more. -/
theorem length_year (year : ℤ) : daysToYear year + 365 ≤ daysToYear (year + 1) ∧
    daysToYear (year + 1) ≤ daysToYear year + 366 := by
  rw [daysToYear, daysToYear]
  omega

theorem daysToYear_mono {year year' : ℤ} (h : year ≤ year') :
    daysToYear year ≤ daysToYear year' := by
  rw [daysToYear, daysToYear]
  omega

theorem yearOfDay_unique {day year : ℤ} (hfirst : daysToYear year ≤ day)
    (hlast : day < daysToYear (year + 1)) : yearOfDay day = year := by
  obtain ⟨hfirst', hlast'⟩ := yearOfDay_spec day
  rcases Int.lt_trichotomy (yearOfDay day) year with hlt | heq | hlt
  · have hle := daysToYear_mono (Int.add_one_le_of_lt hlt)
    omega
  · exact heq
  · have hle := daysToYear_mono (Int.add_one_le_of_lt hlt)
    omega

/-- A week is one of its year, and no later than that of the 28th of December. -/
theorem isoWeek_spec (day : ℤ) : 1 ≤ (isoWeek day).2 ∧ (isoWeek day).2 ≤ 53 ∧
    (isoWeek day).2 ≤ (isoWeek (daysToYear ((isoWeek day).1 + 1) - 4)).2 := by
  obtain ⟨t, ht⟩ : ∃ t, day - (day + 3) % 7 + 3 = t := ⟨_, rfl⟩
  obtain ⟨hfirst, hlast⟩ := yearOfDay_spec t
  have hlength := length_year (yearOfDay t)
  have hweek : isoWeek day = (yearOfDay t, (t - daysToYear (yearOfDay t)) / 7 + 1) := by
    simp only [isoWeek]
    rw [ht]
  rw [hweek]
  generalize yearOfDay t = year at *
  -- the Thursday of the week of the 28th of December
  obtain ⟨u, hu⟩ : ∃ u, daysToYear (year + 1) - 4 - (daysToYear (year + 1) - 4 + 3) % 7 + 3 = u :=
    ⟨_, rfl⟩
  have hyear : yearOfDay u = year := yearOfDay_unique (by omega) (by omega)
  have hdecember : isoWeek (daysToYear (year + 1) - 4) =
      (year, (u - daysToYear year) / 7 + 1) := by
    simp only [isoWeek]
    rw [hu, hyear]
  rw [hdecember]
  dsimp only
  omega

/-! ### The slots of a week -/

/-- The periods of a week: its own, and those of its batches. -/
def weekSlots (base : UInt64) : List UInt64 :=
  base :: (List.range 99).map fun k ↦ base * 100 + UInt64.ofNat (k + 1)

/-- A week that is written in six digits. -/
structure FourDigit (now : ℤ) : Prop where
  first : 1000 ≤ (isoWeek (now / 86400)).1
  last : (isoWeek (now / 86400)).1 ≤ 9999

variable {now : ℤ}

/-- The year and the week of a period. -/
theorem FourDigit.toNat_isoWeekPeriod (h : FourDigit now) : ∃ y w : ℕ,
    (isoWeek (now / 86400)).1 = y ∧ (isoWeek (now / 86400)).2 = w ∧ 1000 ≤ y ∧ y ≤ 9999 ∧ 1 ≤ w ∧
      w ≤ 53 ∧ (isoWeekPeriod now).toNat = 100 * y + w := by
  obtain ⟨hfirst, hlast⟩ := h
  obtain ⟨hw, hw', -⟩ := isoWeek_spec (now / 86400)
  obtain ⟨y, hy⟩ := Int.eq_ofNat_of_zero_le (a := (isoWeek (now / 86400)).1) (by omega)
  obtain ⟨w, hw₀⟩ := Int.eq_ofNat_of_zero_le (a := (isoWeek (now / 86400)).2) (by omega)
  refine ⟨y, w, hy, hw₀, by omega, by omega, by omega, by omega, ?_⟩
  show (UInt64.ofInt ((isoWeek (now / 86400)).1 * 100 + (isoWeek (now / 86400)).2)).toNat = _
  rw [UInt64.ofInt, Int.emod_eq_of_lt (by omega) (by omega), UInt64.toNat_ofNat_of_lt']
  · omega
  · show _ < 2 ^ 64
    omega

/-- A batch of a week, as a number. -/
theorem FourDigit.toNat_batch (h : FourDigit now) {k : ℕ} (hk : k ≤ 100) :
    (isoWeekPeriod now * 100 + UInt64.ofNat k).toNat = 100 * (isoWeekPeriod now).toNat + k := by
  obtain ⟨y, w, -, -, -, hy, -, hw, hbase⟩ := h.toNat_isoWeekPeriod
  have hhundred : (100 : UInt64).toNat = 100 := rfl
  have hk' : (UInt64.ofNat k).toNat = k := UInt64.toNat_ofNat_of_lt' (show k < 2 ^ 64 by omega)
  rw [UInt64.toNat_add, UInt64.toNat_mul, hhundred, hk']
  omega

/-- The slots of a week, as numbers. -/
theorem FourDigit.mem_weekSlots (h : FourDigit now) {p : UInt64} :
    p ∈ weekSlots (isoWeekPeriod now) ↔ p = isoWeekPeriod now ∨
      ∃ k, 1 ≤ k ∧ k ≤ 99 ∧ p.toNat = 100 * (isoWeekPeriod now).toNat + k := by
  rw [weekSlots, List.mem_cons, List.mem_map]
  refine or_congr_right ⟨?_, ?_⟩
  · rintro ⟨k, hk, rfl⟩
    have hk := List.mem_range.1 hk
    exact ⟨k + 1, by omega, by omega, h.toNat_batch (by omega)⟩
  · rintro ⟨k, hk, hk', hp⟩
    refine ⟨k - 1, List.mem_range.2 (by omega), UInt64.toNat_inj.1 ?_⟩
    rw [Nat.sub_add_cancel hk, h.toNat_batch (by omega), hp]

/-- The service accepts the periods of every week since 1970. -/
theorem FourDigit.valid_iff (h : FourDigit now) {p : UInt64}
    (hbase : (if 10000000 ≤ p then p / 100 else p) = isoWeekPeriod now)
    (hbatch : ¬(10000000 ≤ p ∧ p % 100 = 0)) :
    validCloudPeriod p = true ↔ 1970 ≤ (isoWeek (now / 86400)).1 := by
  obtain ⟨y, w, hyear, hweek, hy, hy', hw, hw', hnat⟩ := h.toNat_isoWeekPeriod
  have hlast := (isoWeek_spec (now / 86400)).2.2
  have hhundred : (100 : UInt64).toNat = 100 := rfl
  have hyear' : (isoWeekPeriod now / 100).toNat = y := by
    rw [UInt64.toNat_div, hnat, hhundred]
    omega
  have hweek' : (isoWeekPeriod now % 100).toNat = w := by
    rw [UInt64.toNat_mod, hnat, hhundred]
    omega
  rw [hyear, hweek] at hlast
  have hfirst : (1970 : UInt64).toNat = 1970 := rfl
  have hend : (9999 : UInt64).toNat = 9999 := rfl
  have hone : (1 : UInt64).toNat = 1 := rfl
  have hmost : (53 : UInt64).toNat = 53 := rfl
  rw [validCloudPeriod, decide_eq_true_iff]
  simp only [hbase]
  rw [UInt64.le_iff_toNat_le (a := 1970), UInt64.le_iff_toNat_le (b := 9999),
    UInt64.le_iff_toNat_le (a := 1), UInt64.le_iff_toNat_le (b := 53), hyear', hweek', hfirst, hend,
    hone, hmost, hyear]
  constructor
  · rintro ⟨-, hlow, -⟩
    exact_mod_cast hlow
  · intro hlow
    exact ⟨hbatch, by omega, hy', hw, hw', hlast⟩

theorem FourDigit.valid_slot (h : FourDigit now) {p : UInt64}
    (hp : p ∈ weekSlots (isoWeekPeriod now)) :
    validCloudPeriod p = true ↔ 1970 ≤ (isoWeek (now / 86400)).1 := by
  obtain ⟨y, w, -, -, hy, hy', hw, hw', hnat⟩ := h.toNat_isoWeekPeriod
  have hbound : (10000000 : UInt64).toNat = 10000000 := rfl
  have hhundred : (100 : UInt64).toNat = 100 := rfl
  rcases h.mem_weekSlots.1 hp with rfl | ⟨k, hk, hk', hbatch⟩
  · have hlt : ¬(10000000 : UInt64) ≤ isoWeekPeriod now := by
      rw [UInt64.le_iff_toNat_le, hnat, hbound]
      omega
    exact h.valid_iff (if_neg hlt) fun hbig ↦ hlt hbig.1
  · have hle : (10000000 : UInt64) ≤ p := by
      rw [UInt64.le_iff_toNat_le, hbatch, hnat, hbound]
      omega
    refine h.valid_iff ?_ fun hzero ↦ ?_
    · rw [if_pos hle, ← UInt64.toNat_inj, UInt64.toNat_div, hbatch, hhundred]
      omega
    · have hzero := congrArg UInt64.toNat hzero.2
      rw [UInt64.toNat_mod, hbatch, hhundred] at hzero
      have hnil : (0 : UInt64).toNat = 0 := rfl
      omega

/-! ### The next period -/

namespace Database

variable (db : Database) (sharedID : ℕ)

/-- A period that is committed for a shared code. -/
def Committed (p : UInt64) : Prop := ∃ t ∈ db.tallies, t.sharedCodeID = sharedID ∧ t.period = p

/-- `nextCommitPeriod`, on the tables as they are. -/
def nextCommitPeriod (now : ℤ) : Except Problem UInt64 :=
  Soroticket.nextCommitPeriod (isoWeekPeriod now)
    (db.tallies.any fun t ↦ t.sharedCodeID = sharedID ∧ t.period = isoWeekPeriod now)
    (db.maxBatch sharedID (isoWeekPeriod now))

/-- What the next period of a week is for: while one is free it is a free one that the service
accepts, and a week is refused only where none is. -/
structure FindsSlot (now : ℤ) : Prop where
  finds : (∃ p ∈ weekSlots (isoWeekPeriod now), ¬db.Committed sharedID p) →
    ∃ p, db.nextCommitPeriod sharedID now = .ok p ∧ p ∈ weekSlots (isoWeekPeriod now) ∧
      ¬db.Committed sharedID p ∧ validCloudPeriod p = true
  refuses : ∀ problem, db.nextCommitPeriod sharedID now = .error problem →
    ∀ p ∈ weekSlots (isoWeekPeriod now), db.Committed sharedID p

variable {db sharedID}

theorem any_iff (p : UInt64) :
    (db.tallies.any fun t ↦ t.sharedCodeID = sharedID ∧ t.period = p) = true ↔
      db.Committed sharedID p := by
  rw [List.any_eq_true]
  exact exists_congr fun t ↦ and_congr_right fun _ ↦ decide_eq_true_iff

theorem lawfulOrderMax_uint64 : Std.LawfulOrderMax UInt64 := by
  have hmax (a b : UInt64) : max a b = if a ≤ b then b else a := rfl
  refine .of_max_le_iff (fun a b c ↦ ?_) fun a b ↦ ?_
  · rw [hmax]
    split
    · exact ⟨fun h ↦ ⟨UInt64.le_trans ‹_› h, h⟩, fun h ↦ h.2⟩
    · exact ⟨fun h ↦ ⟨h, UInt64.le_trans (UInt64.le_of_lt (UInt64.not_le.1 ‹_›)) h⟩, fun h ↦ h.1⟩
  · rw [hmax]
    split
    · exact Or.inr rfl
    · exact Or.inl rfl

/-- The largest batch of a week that is committed. -/
theorem maxBatch_cases (db : Database) (sharedID : ℕ) (h : FourDigit now) :
    (db.maxBatch sharedID (isoWeekPeriod now) = none ∧ ∀ p k, 1 ≤ k → k ≤ 99 →
        p.toNat = 100 * (isoWeekPeriod now).toNat + k → ¬db.Committed sharedID p) ∨
      ∃ m p, db.maxBatch sharedID (isoWeekPeriod now) = some m ∧ 1 ≤ m.toNat ∧ m.toNat ≤ 99 ∧
        p.toNat = 100 * (isoWeekPeriod now).toNat + m.toNat ∧ db.Committed sharedID p ∧
          ∀ p k, k ≤ 99 → p.toNat = 100 * (isoWeekPeriod now).toNat + k →
            db.Committed sharedID p → k ≤ m.toNat := by
  obtain ⟨y, w, -, -, -, hy, -, hw, hnat⟩ := h.toNat_isoWeekPeriod
  have hhundred : (100 : UInt64).toNat = 100 := rfl
  have hlow : (isoWeekPeriod now * 100 + 1).toNat = 100 * (isoWeekPeriod now).toNat + 1 :=
    h.toNat_batch (k := 1) (by decide)
  have hhigh : (isoWeekPeriod now * 100 + 99).toNat = 100 * (isoWeekPeriod now).toNat + 99 :=
    h.toNat_batch (k := 99) (by decide)
  -- the batches of the week that are committed
  have hmem (p : UInt64) (k : ℕ) (hk : 1 ≤ k) (hk' : k ≤ 99)
      (hp : p.toNat = 100 * (isoWeekPeriod now).toNat + k) (hcommitted : db.Committed sharedID p) :
      p % 100 ∈ (db.tallies.filter fun t ↦ t.sharedCodeID = sharedID ∧
        isoWeekPeriod now * 100 + 1 ≤ t.period ∧ t.period ≤ isoWeekPeriod now * 100 + 99).map
          fun t ↦ t.period % 100 := by
    obtain ⟨t, ht, hid, rfl⟩ := hcommitted
    refine List.mem_map.2 ⟨t, List.mem_filter.2 ⟨ht, decide_eq_true ⟨hid, ?_, ?_⟩⟩, rfl⟩
    · rw [UInt64.le_iff_toNat_le, hlow, hp]
      omega
    · rw [UInt64.le_iff_toNat_le, hhigh, hp]
      omega
  have hmod {p : UInt64} {k : ℕ} (hk : k ≤ 99)
      (hp : p.toNat = 100 * (isoWeekPeriod now).toNat + k) : (p % 100).toNat = k := by
    rw [UInt64.toNat_mod, hp, hhundred]
    omega
  rcases hmax : db.maxBatch sharedID (isoWeekPeriod now) with - | m
  · refine Or.inl ⟨rfl, fun p k hk hk' hp hcommitted ↦ ?_⟩
    rw [maxBatch, List.max?_eq_none_iff] at hmax
    exact List.ne_nil_of_mem (hmem p k hk hk' hp hcommitted) hmax
  · have hmaximum := lawfulOrderMax_uint64
    rw [maxBatch, List.max?_eq_some_iff] at hmax
    obtain ⟨hin, hle⟩ := hmax
    obtain ⟨t, ht, rfl⟩ := List.mem_map.1 hin
    obtain ⟨ht, hfilter⟩ := List.mem_filter.1 ht
    obtain ⟨hid, hl, hh⟩ := of_decide_eq_true hfilter
    rw [UInt64.le_iff_toNat_le, hlow] at hl
    rw [UInt64.le_iff_toNat_le, hhigh] at hh
    have hm := hmod (p := t.period) (k := t.period.toNat - 100 * (isoWeekPeriod now).toNat)
      (by omega) (by omega)
    refine Or.inr ⟨t.period % 100, t.period, rfl, by omega, by omega, by omega, ⟨t, ht, hid, rfl⟩,
      fun p k hk' hp hcommitted ↦ ?_⟩
    rcases Nat.eq_zero_or_pos k with rfl | hk
    · exact Nat.zero_le _
    · have hle' := hle _ (hmem p k hk hk' hp hcommitted)
      rwa [UInt64.le_iff_toNat_le, hmod hk' hp] at hle'

/-- **When a week is open.** -/
theorem findsSlot_iff (h : FourDigit now) : db.FindsSlot sharedID now ↔
    (∀ p ∈ weekSlots (isoWeekPeriod now), db.Committed sharedID p) ∨
      (1970 ≤ (isoWeek (now / 86400)).1 ∧
        ¬db.Committed sharedID (isoWeekPeriod now * 100 + 99)) := by
  have hslot (k : ℕ) (hk : 1 ≤ k) (hk' : k ≤ 99) :
      isoWeekPeriod now * 100 + UInt64.ofNat k ∈ weekSlots (isoWeekPeriod now) :=
    h.mem_weekSlots.2 (Or.inr ⟨k, hk, hk', h.toNat_batch (by omega)⟩)
  -- a free slot is what the claim asks for, once the week is one the service accepts
  have hfound {p : UInt64} (hnext : db.nextCommitPeriod sharedID now = .ok p)
      (hp : p ∈ weekSlots (isoWeekPeriod now)) (hfree : ¬db.Committed sharedID p)
      (hlast : ¬db.Committed sharedID (isoWeekPeriod now * 100 + 99)) :
      db.FindsSlot sharedID now ↔
        (∀ p ∈ weekSlots (isoWeekPeriod now), db.Committed sharedID p) ∨
          (1970 ≤ (isoWeek (now / 86400)).1 ∧
            ¬db.Committed sharedID (isoWeekPeriod now * 100 + 99)) := by
    constructor
    · intro hfinds
      obtain ⟨p', hnext', -, -, hvalid⟩ := hfinds.finds ⟨p, hp, hfree⟩
      obtain rfl := Except.ok.inj (hnext.symm.trans hnext')
      exact Or.inr ⟨(h.valid_slot hp).1 hvalid, hlast⟩
    · rintro (hall | ⟨hyear, -⟩)
      · exact absurd (hall p hp) hfree
      · exact ⟨fun _ ↦ ⟨p, hnext, hp, hfree, (h.valid_slot hp).2 hyear⟩,
          fun problem herror ↦ by
            rw [hnext] at herror
            cases herror⟩
  rcases maxBatch_cases db sharedID h with
    ⟨hmax, hnone⟩ | ⟨m, p, hmax, hm, hm', hp, hcommitted, hmost⟩
  · have hlast : ¬db.Committed sharedID (isoWeekPeriod now * 100 + 99) :=
      hnone _ 99 (by decide) le_rfl (h.toNat_batch (k := 99) (by decide))
    by_cases hbase : db.Committed sharedID (isoWeekPeriod now)
    · refine hfound (p := isoWeekPeriod now * 100 + 1) ?_ (hslot 1 le_rfl (by decide))
        (hnone _ 1 le_rfl (by decide) (h.toNat_batch (k := 1) (by decide))) hlast
      rw [nextCommitPeriod, hmax, (any_iff _).2 hbase]
      rfl
    · refine hfound (p := isoWeekPeriod now) ?_ List.mem_cons_self hbase hlast
      rw [nextCommitPeriod, hmax, Bool.eq_false_iff.2 (mt (any_iff _).1 hbase)]
      rfl
  · have hnext : db.nextCommitPeriod sharedID now =
        if 99 ≤ m then
          .error ⟨409, "this shared code already has 100 tally batches for the current ISO week"⟩
        else .ok (isoWeekPeriod now * 100 + (m + 1)) := by
      rw [nextCommitPeriod, hmax]
      rfl
    have hbound : (99 : UInt64).toNat = 99 := rfl
    rcases Nat.lt_or_eq_of_le hm' with hlt | heq
    · have hsucc : isoWeekPeriod now * 100 + (m + 1) =
          isoWeekPeriod now * 100 + UInt64.ofNat (m.toNat + 1) := by
        rw [UInt64.ofNat_add, UInt64.ofNat_toNat]
        rfl
      have hnot : ¬99 ≤ m := by
        rw [UInt64.le_iff_toNat_le, hbound]
        omega
      rw [if_neg hnot, hsucc] at hnext
      refine hfound hnext (hslot _ (by omega) (by omega)) (fun hfree ↦ ?_) (fun hlast ↦ ?_)
      · have hle := hmost _ (m.toNat + 1) (by omega) (h.toNat_batch (by omega)) hfree
        omega
      · have hle := hmost _ 99 le_rfl (h.toNat_batch (k := 99) (by decide)) hlast
        omega
    · -- the last batch is committed, and the week is refused
      have hlast : db.Committed sharedID (isoWeekPeriod now * 100 + 99) := by
        have hp' : p = isoWeekPeriod now * 100 + 99 := by
          rw [← UInt64.toNat_inj, hp, heq]
          exact (h.toNat_batch (k := 99) (by decide)).symm
        exact hp' ▸ hcommitted
      have hge : 99 ≤ m := by
        rw [UInt64.le_iff_toNat_le, hbound]
        omega
      rw [if_pos hge] at hnext
      constructor
      · exact fun hfinds ↦ Or.inl (hfinds.refuses _ hnext)
      · rintro (hall | ⟨-, hfree⟩)
        · exact ⟨fun ⟨p, hp, hfree⟩ ↦ absurd (hall p hp) hfree, fun _ _ ↦ hall⟩
        · exact absurd hlast hfree

end Database

namespace Sample

/-- The 12th of July of 2026. -/
def inJuly : ℤ := 20646 * 86400

/-- An organization has committed the last batch of that week by its name. -/
def explicit : Database :=
  { Database.empty with tallies := [⟨1, 20262899, 1, 1, [], []⟩] }

/-- A week of which the period and three batches are committed, with gaps between them; beside it,
batches of another code and of another week. -/
def gaps : Database :=
  { Database.empty with
    tallies := [⟨1, 202628, 1, 1, [], []⟩, ⟨1, 20262807, 1, 1, [], []⟩, ⟨1, 20262801, 1, 1, [], []⟩,
      ⟨2, 20262899, 1, 1, [], []⟩, ⟨1, 20262703, 1, 1, [], []⟩, ⟨1, 20262803, 1, 1, [], []⟩] }

end Sample

/-- The next period is behind the last batch, whatever is free below it. -/
theorem findsSlot_gaps : Sample.gaps.FindsSlot 1 Sample.inJuly ∧
    Sample.gaps.maxBatch 1 (isoWeekPeriod Sample.inJuly) = some 7 ∧
    Sample.gaps.nextCommitPeriod 1 Sample.inJuly = .ok 20262808 := by
  have hlast : ¬Sample.gaps.Committed 1 (isoWeekPeriod Sample.inJuly * 100 + 99) := by
    rw [Database.Committed]
    decide +kernel
  refine ⟨?_, by decide +kernel, rfl⟩
  exact (Database.findsSlot_iff ⟨by decide +kernel, by decide +kernel⟩).2
    (Or.inr ⟨by decide +kernel, hlast⟩)

/-- **One explicit commit closes a week**: the service accepts its period, and refuses all others
that name none, though 99 slots are free. -/
theorem week_closed :
    FourDigit Sample.inJuly ∧ validCloudPeriod 20262899 = true ∧
      (∀ p ∈ weekSlots (isoWeekPeriod Sample.inJuly),
        Sample.explicit.Committed 1 p → p = 20262899) ∧
      Sample.explicit.nextCommitPeriod 1 Sample.inJuly =
        .error ⟨409, "this shared code already has 100 tally batches for the current ISO week"⟩ ∧
      ¬Sample.explicit.FindsSlot 1 Sample.inJuly := by
  have hrefused : Sample.explicit.nextCommitPeriod 1 Sample.inJuly =
      .error ⟨409, "this shared code already has 100 tally batches for the current ISO week"⟩ := by
    rfl
  have honly (p : UInt64) (h : Sample.explicit.Committed 1 p) : p = 20262899 := by
    obtain ⟨t, ht, -, rfl⟩ := h
    rw [List.mem_singleton.1 ht]
  refine ⟨⟨by decide +kernel, by decide +kernel⟩, by decide +kernel, fun p _ ↦ honly p, hrefused,
    fun h ↦ ?_⟩
  have hbase := h.refuses _ hrefused (isoWeekPeriod Sample.inJuly) List.mem_cons_self
  exact absurd (honly _ hbase) (by decide +kernel)

end Soroticket
