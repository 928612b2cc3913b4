import Mathlib.Data.Nat.Find
import Mathlib.Order.Monotone.Basic
import Mathlib.Order.Interval.Set.Basic

/-!
This module contains the calendar: the days of the years and months, which are numbered from the first of January
of the year 0 on, and the date of a day.
-/

namespace Calendar

section Steps

variable {f : Nat → Nat} {bound n k : Nat}

/--
The last step up to `bound` that begins at `n` or before it.
-/
def locate (f : Nat → Nat) (bound n : Nat) : Nat :=
  Nat.findGreatest (fun k => f k ≤ n) bound

theorem locate_eq_iff (hzero : f 0 = 0) (hmono : StrictMono f) (hbound : n < f (bound + 1))
    : locate f bound n = k ↔ f k ≤ n ∧ n < f (k + 1) := by
  have hle : f (locate f bound n) ≤ n :=
    Nat.findGreatest_spec (P := fun k => f k ≤ n) (Nat.zero_le bound) (by simp only [hzero]; exact Nat.zero_le n)
  have hlt : n < f (locate f bound n + 1) := by
    by_contra hnot
    have hsmall : locate f bound n + 1 ≤ bound := by
      by_contra hlarge
      have hmore := hmono.monotone (by omega : bound + 1 ≤ locate f bound n + 1)
      omega
    exact Nat.findGreatest_is_greatest (P := fun k => f k ≤ n) (Nat.lt_succ_self _) hsmall
      (Nat.not_lt.mp hnot)
  constructor
  . rintro rfl
    exact ⟨hle, hlt⟩
  . rintro ⟨hk, hk'⟩
    have h₁ := hmono.lt_iff_lt.mp (Nat.lt_of_le_of_lt hle hk')
    have h₂ := hmono.lt_iff_lt.mp (Nat.lt_of_le_of_lt hk hlt)
    omega

end Steps

def leap (y : Nat) : Bool :=
  y % 4 = 0 && (y % 100 ≠ 0 || y % 400 = 0)

def daysInYear (y : Nat) : Nat :=
  if leap y then 366 else 365

def daysInMonth (m y : Nat) : Nat :=
  match m with
  | 2 => if leap y then 29 else 28
  | 4 | 6 | 9 | 11 => 30
  | _ => 31

/--
The days before the year `y`.
-/
def beforeYear (y : Nat) : Nat :=
  365 * y + (y + 3) / 4 - (y + 99) / 100 + (y + 399) / 400

/--
The days of `y` before its month number `k`, where January has the number 0.
-/
def beforeMonth (y : Nat) : Nat → Nat
  | 0 => 0
  | k + 1 => beforeMonth y k + daysInMonth (k + 1) y

theorem multiples_succ {k : Nat} (hk : 0 < k) (y : Nat)
    : (y + 1 + (k - 1)) / k = (y + (k - 1)) / k + if y % k = 0 then 1 else 0 := by
  have hsame : y + 1 + (k - 1) = y + (k - 1) + 1 := by omega
  rw [hsame, Nat.succ_div]
  congr 1
  have hdvd : k ∣ y + (k - 1) + 1 ↔ y % k = 0 := by
    rw [← hsame, Nat.add_assoc, Nat.add_sub_cancel' hk, Nat.dvd_add_self_right, Nat.dvd_iff_mod_eq_zero]
  simp only [hdvd]

theorem beforeYear_succ (y : Nat) : beforeYear (y + 1) = beforeYear y + daysInYear y := by
  have hfour : (y + 1 + 3) / 4 = (y + 3) / 4 + _ := multiples_succ (by decide : 0 < 4) y
  have hcentury : (y + 1 + 99) / 100 = (y + 99) / 100 + _ := multiples_succ (by decide : 0 < 100) y
  have hcycle : (y + 1 + 399) / 400 = (y + 399) / 400 + _ := multiples_succ (by decide : 0 < 400) y
  have hless : (y + 99) / 100 ≤ 365 * y + (y + 3) / 4 := by omega
  have hnested : (y % 400 = 0 → y % 100 = 0) ∧ (y % 100 = 0 → y % 4 = 0) := by omega
  unfold beforeYear daysInYear leap
  rw [hfour, hcentury, hcycle]
  generalize (y + 3) / 4 = a, (y + 99) / 100 = b, (y + 399) / 400 = c at hless ⊢
  by_cases h4 : y % 4 = 0
  . by_cases h100 : y % 100 = 0
    . by_cases h400 : y % 400 = 0
      . simp [h4, h100, h400]
        omega
      . simp [h4, h100, h400]
        omega
    . simp [h4, h100, mt hnested.1 h100]
      omega
  . simp [h4, mt hnested.2 h4, mt hnested.1 (mt hnested.2 h4)]
    omega

theorem daysInYear_pos (y : Nat) : 0 < daysInYear y := by
  unfold daysInYear
  split <;> omega

theorem daysInMonth_pos (m y : Nat) : 0 < daysInMonth m y := by
  unfold daysInMonth
  split
  . split <;> omega
  all_goals omega

theorem strictMono_beforeYear : StrictMono beforeYear := by
  apply strictMono_nat_of_lt_succ
  intro y
  rw [beforeYear_succ]
  exact Nat.lt_add_of_pos_right (daysInYear_pos y)

theorem strictMono_beforeMonth (y : Nat) : StrictMono (beforeMonth y) := by
  apply strictMono_nat_of_lt_succ
  intro k
  exact Nat.lt_add_of_pos_right (daysInMonth_pos (k + 1) y)

theorem beforeMonth_twelve (y : Nat) : beforeMonth y 12 = daysInYear y := by
  cases h : leap y <;> simp [beforeMonth, daysInMonth, daysInYear, h]

theorem le_beforeYear (y : Nat) : 365 * y ≤ beforeYear y := by
  unfold beforeYear
  omega

structure Date where
  year : Nat
  month : Nat
  day : Nat
  deriving DecidableEq

structure Date.Valid (d : Date) : Prop where
  month : 1 ≤ d.month ∧ d.month ≤ 12
  day : 1 ≤ d.day ∧ d.day ≤ daysInMonth d.month d.year

def Date.number (d : Date) : Nat :=
  beforeYear d.year + beforeMonth d.year (d.month - 1) + (d.day - 1)

/--
The date that has `n` days before it.
-/
def date (n : Nat) : Date :=
  let y := locate beforeYear (n / 365) n
  let m := locate (beforeMonth y) 11 (n - beforeYear y)
  { year := y, month := m + 1, day := n - beforeYear y - beforeMonth y m + 1 }

theorem date_year (n : Nat) : beforeYear (date n).year ≤ n ∧ n < beforeYear ((date n).year + 1) := by
  have hbound : n < beforeYear (n / 365 + 1) := by
    have := le_beforeYear (n / 365 + 1)
    omega
  exact (locate_eq_iff rfl strictMono_beforeYear hbound).mp rfl

theorem date_month (n : Nat)
    : beforeMonth (date n).year ((date n).month - 1) ≤ n - beforeYear (date n).year
      ∧ n - beforeYear (date n).year < beforeMonth (date n).year (date n).month
      ∧ (date n).month ≤ 12 := by
  obtain ⟨hyear, hyear'⟩ := date_year n
  rw [beforeYear_succ] at hyear'
  have hbound : n - beforeYear (date n).year < beforeMonth (date n).year (11 + 1) := by
    rw [beforeMonth_twelve]
    omega
  have hmonth := (locate_eq_iff rfl (strictMono_beforeMonth (date n).year) hbound).mp rfl
  have hle : (date n).month - 1 ≤ 11 :=
    Nat.findGreatest_le (P := fun k => beforeMonth (date n).year k ≤ n - beforeYear (date n).year) 11
  exact ⟨hmonth.1, hmonth.2, by omega⟩

theorem date_valid (n : Nat) : (date n).Valid := by
  obtain ⟨hlow, hhigh, hle⟩ := date_month n
  have hpos : 1 ≤ (date n).month := Nat.succ_pos _
  have hday : (date n).day = n - beforeYear (date n).year - beforeMonth (date n).year ((date n).month - 1) + 1 := rfl
  have hnext : beforeMonth (date n).year ((date n).month - 1 + 1)
      = beforeMonth (date n).year ((date n).month - 1) + daysInMonth ((date n).month - 1 + 1) (date n).year := rfl
  rw [Nat.sub_add_cancel hpos] at hnext
  constructor
  . exact ⟨hpos, hle⟩
  . omega

theorem number_date (n : Nat) : (date n).number = n := by
  obtain ⟨hyear, _⟩ := date_year n
  obtain ⟨hmonth, _⟩ := date_month n
  have hday : (date n).day = n - beforeYear (date n).year - beforeMonth (date n).year ((date n).month - 1) + 1 := rfl
  unfold Date.number
  omega

section Order

variable {d d' : Date}

theorem Date.Valid.day_lt (hd : d.Valid)
    : beforeMonth d.year (d.month - 1) + (d.day - 1) < beforeMonth d.year d.month := by
  obtain ⟨⟨hmonth, _⟩, hday, hlast⟩ := hd
  have hnext : beforeMonth d.year (d.month - 1 + 1)
      = beforeMonth d.year (d.month - 1) + daysInMonth (d.month - 1 + 1) d.year := rfl
  rw [Nat.sub_add_cancel hmonth] at hnext
  omega

theorem Date.Valid.number_lt (hd : d.Valid) : d.number < beforeYear (d.year + 1) := by
  have hlast := (strictMono_beforeMonth d.year).monotone hd.month.2
  rw [beforeMonth_twelve] at hlast
  have hday := hd.day_lt
  rw [beforeYear_succ]
  unfold Date.number
  omega

theorem number_lt_number (hd : d.Valid)
    (h : d.year < d'.year ∨ d.year = d'.year ∧ (d.month < d'.month ∨ d.month = d'.month ∧ d.day < d'.day))
    : d.number < d'.number := by
  obtain hyear | ⟨hyear, hmonth | ⟨hmonth, hday⟩⟩ := h
  . have hmono := strictMono_beforeYear.monotone (by omega : d.year + 1 ≤ d'.year)
    have hlt := hd.number_lt
    unfold Date.number at hlt ⊢
    omega
  . have hmono := (strictMono_beforeMonth d.year).monotone (by omega : d.month ≤ d'.month - 1)
    have hlt := hd.day_lt
    unfold Date.number
    rw [← hyear]
    omega
  . have hfirst := hd.day
    unfold Date.number
    rw [← hyear, ← hmonth]
    omega

end Order

end Calendar
