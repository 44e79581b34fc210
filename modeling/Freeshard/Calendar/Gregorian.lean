import Mathlib.Order.Basic
import Mathlib.Order.Nat
import Mathlib.Tactic.Common

/-! # The Gregorian calendar

Dates of the proleptic Gregorian calendar from year 1 on, their ordinals, and points in time to the microsecond. Months
are counted through, so that month `k` is month `k % 12 + 1` of year `k / 12`. -/

namespace Calendar
set_option autoImplicit false

/-! ## Dates -/

def isLeap (year : ℕ) : Bool := year % 4 = 0 ∧ (year % 100 ≠ 0 ∨ year % 400 = 0)

def daysInMonth (year month : ℕ) : ℕ :=
  if month = 2 then (if isLeap year then 29 else 28)
  else if month = 4 ∨ month = 6 ∨ month = 9 ∨ month = 11 then 30
  else 31

structure Date where
  year : ℕ
  month : ℕ
  day : ℕ
  one_le_year : 1 ≤ year
  one_le_month : 1 ≤ month
  month_le : month ≤ 12
  one_le_day : 1 ≤ day
  day_le : day ≤ daysInMonth year month
  deriving DecidableEq, Repr

theorem one_le_daysInMonth (year month : ℕ) : 1 ≤ daysInMonth year month := by
  unfold daysInMonth
  split_ifs <;> omega

namespace Date

/-- The first day of the month. -/
def firstOfMonth (d : Date) : Date :=
  { d with day := 1, one_le_day := le_rfl, day_le := one_le_daysInMonth d.year d.month }

/-- The day before; the first day of year 1 has none. -/
def yesterday (d : Date) : Option Date :=
  if hday : 1 < d.day then
    some { d with
      day := d.day - 1
      one_le_day := by omega
      day_le := by have := d.day_le; omega }
  else if hmonth : 1 < d.month then
    some { d with
      month := d.month - 1
      day := daysInMonth d.year (d.month - 1)
      one_le_month := by omega
      month_le := by have := d.month_le; omega
      one_le_day := one_le_daysInMonth d.year (d.month - 1)
      day_le := le_rfl }
  else if hyear : 1 < d.year then
    some
      { year := d.year - 1
        month := 12
        day := 31
        one_le_year := by omega
        one_le_month := by omega
        month_le := le_rfl
        one_le_day := by omega
        day_le := le_rfl }
  else none

end Date

/-! ## Ordinals -/

def daysBeforeYear (year : ℕ) : ℕ := (year - 1) * 365 + (year - 1) / 4 - (year - 1) / 100 + (year - 1) / 400

/-- The days of the year before this month. -/
def daysBeforeMonth (year : ℕ) : ℕ → ℕ
  | 0 => 0
  | 1 => 0
  | month + 2 => daysBeforeMonth year (month + 1) + daysInMonth year (month + 1)

/-- The number of the day, counted from the first day of year 1. -/
def Date.ordinal (d : Date) : ℕ := daysBeforeYear d.year + daysBeforeMonth d.year d.month + d.day

theorem daysBeforeMonth_succ (year : ℕ) {month : ℕ} (h : 1 ≤ month) :
    daysBeforeMonth year (month + 1) = daysBeforeMonth year month + daysInMonth year month := by
  obtain ⟨month, rfl⟩ := Nat.exists_eq_add_of_le' h
  rfl

/-- A year has 365 or 366 days. -/
theorem daysBeforeMonth_thirteen (year : ℕ) : daysBeforeMonth year 13 = if isLeap year then 366 else 365 := by
  have h : daysBeforeMonth year 13 = 31 + daysInMonth year 2 + 306 := by
    simp [daysBeforeMonth, daysInMonth]
  rw [h, daysInMonth, if_pos rfl]
  split_ifs <;> rfl

/-- One more year contains one more multiple of `n` or none. -/
theorem succ_div_eq (year : ℕ) {n : ℕ} (hn : n = 4 ∨ n = 100 ∨ n = 400) :
    (year + 1) / n = year / n + if (year + 1) % n = 0 then 1 else 0 := by
  obtain rfl | rfl | rfl := hn <;> split_ifs <;> omega

theorem daysBeforeYear_succ {year : ℕ} (h : 1 ≤ year) :
    daysBeforeYear (year + 1) = daysBeforeYear year + daysBeforeMonth year 13 := by
  obtain ⟨year, rfl⟩ := Nat.exists_eq_add_of_le' h
  have hle : year / 100 ≤ year / 4 := by omega
  have h100 : (year + 1) % 100 = 0 → (year + 1) % 4 = 0 := by omega
  have h400 : (year + 1) % 400 = 0 → (year + 1) % 100 = 0 := by omega
  rw [daysBeforeMonth_thirteen]
  unfold daysBeforeYear isLeap
  rw [Nat.add_sub_cancel, Nat.add_sub_cancel, succ_div_eq year (.inl rfl), succ_div_eq year (.inr (.inl rfl)),
    succ_div_eq year (.inr (.inr rfl))]
  simp only [decide_eq_true_eq]
  generalize year / 4 = a at *
  generalize year / 100 = b at *
  generalize year / 400 = c at *
  by_cases h₄ : (year + 1) % 4 = 0
  · by_cases h₁ : (year + 1) % 100 = 0
    · by_cases h₀ : (year + 1) % 400 = 0
      · simp only [h₄, h₁, h₀, if_true, ne_eq, not_true_eq_false, false_or, and_self]
        omega
      · simp only [h₄, h₁, h₀, if_true, if_false, ne_eq, not_true_eq_false, or_self, and_false]
        omega
    · have h₀ : ¬ (year + 1) % 400 = 0 := fun h => h₁ (h400 h)
      simp only [h₄, h₁, h₀, if_true, if_false, ne_eq, not_false_eq_true, true_or, and_self]
      omega
  · have h₁ : ¬ (year + 1) % 100 = 0 := fun h => h₄ (h100 h)
    have h₀ : ¬ (year + 1) % 400 = 0 := fun h => h₁ (h400 h)
    simp only [h₄, h₁, h₀, if_false, false_and]
    omega

/-! ## Months -/

def Date.monthIndex (d : Date) : ℕ := 12 * d.year + (d.month - 1)

/-- The number of days before month `k`. -/
def daysBefore (k : ℕ) : ℕ := daysBeforeYear (k / 12) + daysBeforeMonth (k / 12) (k % 12 + 1)

theorem daysBefore_succ {k : ℕ} (h : 12 ≤ k) :
    daysBefore (k + 1) = daysBefore k + daysInMonth (k / 12) (k % 12 + 1) := by
  unfold daysBefore
  by_cases hlast : k % 12 = 11
  · have hyear : (k + 1) / 12 = k / 12 + 1 := by omega
    have hmonth : (k + 1) % 12 = 0 := by omega
    have hdays := @daysBeforeMonth_succ (k / 12) 12 (by omega)
    rw [hyear, hmonth, hlast, daysBeforeYear_succ (by omega), hdays]
    change daysBeforeYear (k / 12) + (daysBeforeMonth (k / 12) 12 + daysInMonth (k / 12) 12) + 0 = _
    rw [Nat.add_zero, Nat.add_assoc]
  · have hyear : (k + 1) / 12 = k / 12 := by omega
    have hmonth : (k + 1) % 12 = k % 12 + 1 := by omega
    rw [hyear, hmonth, daysBeforeMonth_succ (k / 12) (by omega), Nat.add_assoc]

theorem daysBefore_mono {k k' : ℕ} (h : 12 ≤ k) (hle : k ≤ k') : daysBefore k ≤ daysBefore k' := by
  obtain ⟨months, rfl⟩ := Nat.exists_eq_add_of_le hle
  induction months with
  | zero => exact le_rfl
  | succ months ih =>
    have hsucc := daysBefore_succ (k := k + months) (by omega)
    have hle := ih (by omega)
    rw [← Nat.add_assoc]
    omega

namespace Date
variable (d : Date)

theorem le_monthIndex : 12 ≤ d.monthIndex := by
  have := d.one_le_year
  unfold monthIndex
  omega

theorem monthIndex_div : d.monthIndex / 12 = d.year := by
  have := d.month_le
  have := d.one_le_month
  unfold monthIndex
  omega

theorem monthIndex_mod : d.monthIndex % 12 + 1 = d.month := by
  have := d.month_le
  have := d.one_le_month
  unfold monthIndex
  omega

/-- A month has one first day. -/
theorem firstOfMonth_eq {d d' : Date} (h : d.monthIndex = d'.monthIndex) : d.firstOfMonth = d'.firstOfMonth := by
  have hyear : d.year = d'.year := by rw [← d.monthIndex_div, h, d'.monthIndex_div]
  have hmonth : d.month = d'.month := by rw [← d.monthIndex_mod, h, d'.monthIndex_mod]
  obtain ⟨year, month, day⟩ := d
  obtain ⟨year', month', day'⟩ := d'
  cases hyear
  cases hmonth
  rfl

theorem ordinal_eq : d.ordinal = daysBefore d.monthIndex + d.day := by
  unfold ordinal daysBefore
  rw [d.monthIndex_div, d.monthIndex_mod]

theorem ordinal_le : d.ordinal ≤ daysBefore (d.monthIndex + 1) := by
  rw [daysBefore_succ d.le_monthIndex, d.monthIndex_div, d.monthIndex_mod, ordinal_eq]
  have := d.day_le
  omega

/-- A date belongs to the month between whose ends its ordinal lies. -/
theorem ordinal_mem_iff {k : ℕ} (hk : 12 ≤ k) :
    daysBefore k < d.ordinal ∧ d.ordinal ≤ daysBefore (k + 1) ↔ d.monthIndex = k := by
  have hlower := d.one_le_day
  have heq := d.ordinal_eq
  have hupper := d.ordinal_le
  constructor
  · rintro ⟨hlt, hle⟩
    by_contra hne
    obtain hbefore | hafter := Nat.lt_or_gt_of_ne hne
    · have hmono : daysBefore (d.monthIndex + 1) ≤ daysBefore k :=
        daysBefore_mono (Nat.le_succ_of_le d.le_monthIndex) hbefore
      omega
    · have hmono : daysBefore (k + 1) ≤ daysBefore d.monthIndex := daysBefore_mono (Nat.le_succ_of_le hk) hafter
      omega
  · rintro rfl
    omega

theorem ordinal_firstOfMonth : d.firstOfMonth.ordinal = daysBefore d.monthIndex + 1 := ordinal_eq d.firstOfMonth

variable {d}

/-- The day before has the ordinal before. -/
theorem ordinal_yesterday {d' : Date} (h : d.yesterday = some d') : d'.ordinal + 1 = d.ordinal := by
  have hday := d.one_le_day
  unfold yesterday at h
  split_ifs at h with hlater hmonth hyear
  · obtain rfl := Option.some.inj h
    unfold ordinal
    dsimp only
    omega
  · obtain rfl := Option.some.inj h
    have hsucc := @daysBeforeMonth_succ d.year (d.month - 1) (by omega)
    rw [Nat.sub_add_cancel (by omega)] at hsucc
    unfold ordinal
    dsimp only
    omega
  · obtain rfl := Option.some.inj h
    have hsucc := @daysBeforeYear_succ (d.year - 1) (by omega)
    rw [Nat.sub_add_cancel (by omega)] at hsucc
    have hdays : daysBeforeMonth (d.year - 1) 13 = daysBeforeMonth (d.year - 1) 12 + 31 :=
      daysBeforeMonth_succ (d.year - 1) (by decide)
    have hfirst : daysBeforeMonth d.year d.month = 0 := by
      have hone : d.month = 1 := by
        have := d.one_le_month
        omega
      rw [hone]
      rfl
    unfold ordinal
    dsimp only
    omega

theorem exists_yesterday (h : 2 ≤ d.year) : ∃ d', d.yesterday = some d' := by
  unfold yesterday
  split_ifs with hday hmonth hyear
  · exact ⟨_, rfl⟩
  · exact ⟨_, rfl⟩
  · exact ⟨_, rfl⟩
  · exact absurd h hyear

/-- The day before the first of a month is in the month before. -/
theorem monthIndex_yesterday {d' : Date} (h : d.firstOfMonth.yesterday = some d') :
    d'.monthIndex + 1 = d.monthIndex := by
  have hordinal := ordinal_yesterday h
  rw [ordinal_firstOfMonth] at hordinal
  have hlower := d'.ordinal_eq
  have hday := d'.one_le_day
  have hupper := d'.ordinal_le
  by_contra hne
  obtain hbefore | hafter := Nat.lt_or_gt_of_ne hne
  · have hsucc := daysBefore_succ (k := d'.monthIndex + 1) (Nat.le_succ_of_le d'.le_monthIndex)
    have hmono : daysBefore (d'.monthIndex + 1 + 1) ≤ daysBefore d.monthIndex :=
      daysBefore_mono (Nat.le_succ_of_le (Nat.le_succ_of_le d'.le_monthIndex)) hbefore
    have hpos := one_le_daysInMonth ((d'.monthIndex + 1) / 12) ((d'.monthIndex + 1) % 12 + 1)
    omega
  · have hmono := daysBefore_mono d.le_monthIndex (Nat.le_of_lt_succ hafter)
    omega

end Date

/-! ## Points in time -/

/-- The microseconds of a day. -/
def dayLength : ℕ := 86400000000

structure DateTime where
  date : Date
  time : ℕ
  time_lt : time < dayLength
  deriving DecidableEq, Repr

/-- The first moment of a day. -/
def Date.midnight (d : Date) : DateTime := ⟨d, 0, by decide⟩

/-- The microseconds up to then, by which points in time are ordered. -/
def DateTime.instant (t : DateTime) : ℕ := t.date.ordinal * dayLength + t.time

theorem DateTime.midnight_le_iff (d : Date) (t : DateTime) :
    d.midnight.instant ≤ t.instant ↔ d.ordinal ≤ t.date.ordinal := by
  have := t.time_lt
  unfold Date.midnight instant dayLength at *
  dsimp only
  omega

/-- Between the midnights of the firsts of two consecutive months lies the first of them. -/
theorem DateTime.mem_month_iff {start stop : Date} (h : stop.monthIndex = start.monthIndex + 1) (t : DateTime) :
    start.firstOfMonth.midnight.instant ≤ t.instant ∧ t.instant < stop.firstOfMonth.midnight.instant ↔
      t.date.monthIndex = start.monthIndex := by
  rw [← Nat.not_le, midnight_le_iff, midnight_le_iff, Date.ordinal_firstOfMonth, Date.ordinal_firstOfMonth, h,
    ← t.date.ordinal_mem_iff start.le_monthIndex]
  omega

end Calendar
