import BenchPlatform.Api.Store.Postgres
import BenchPlatform.Engine.Stamps
import BenchPlatform.Wire.Literal
import BenchPlatform.Wire.Patterns

/-!
This module proves that the API reads the stamps of the engine as the instants at which they were taken, and that
they are in order as far as the clock is.
-/

namespace Api
namespace Model

open Digits

def Time.date (t : Time) : Calendar.Date where
  year := t.year
  month := t.month
  day := t.day

def Time.seconds (t : Time) : Nat :=
  (t.hour * 60 + t.minute) * 60 + t.second

def Time.instant (t : Time) : Nat :=
  (t.date.number * 86400 + t.seconds) * 10 ^ 9 + t.nanosecond

structure Time.Proper (t : Time) : Prop where
  date : t.date.Valid
  hour : t.hour < 24
  minute : t.minute < 60
  second : t.second < 60
  nanosecond : t.nanosecond < 10 ^ 9

section

variable {t u : Time}

theorem daysIn_eq (m y : Nat) : daysIn m y = Calendar.daysInMonth m y := by
  unfold daysIn Calendar.daysInMonth Calendar.leap
  split <;> simp

theorem outOfRange_eq_none (h : t.Proper) : outOfRange t = none := by
  obtain ⟨⟨hmonth, hday⟩, hhour, hminute, hsecond, _⟩ := h
  dsimp only [Time.date] at hmonth hday
  unfold outOfRange
  rw [if_neg (by omega), if_neg (by omega), if_neg (by omega), if_neg (by omega), daysIn_eq, if_neg (by omega)]

theorem Time.before_iff
    : t.Before u ↔ t.year < u.year ∨ t.year = u.year ∧ (t.month < u.month ∨ t.month = u.month ∧ (t.day < u.day
      ∨ t.day = u.day ∧ (t.hour < u.hour ∨ t.hour = u.hour ∧ (t.minute < u.minute
        ∨ t.minute = u.minute ∧ (t.second < u.second ∨ t.second = u.second ∧ t.nanosecond < u.nanosecond))))) := by
  unfold Time.Before Time.toList
  simp only [List.cons_lt_cons_iff, List.lt_irrefl, and_false, or_false]

theorem instant_lt (ht : t.Proper) (h : t.Before u) : t.instant < u.instant := by
  obtain ⟨hdate, hhour, hminute, hsecond, hnanosecond⟩ := ht
  rw [Time.before_iff] at h
  have hsplit : (t.year < u.year ∨ t.year = u.year ∧ (t.month < u.month ∨ t.month = u.month ∧ t.day < u.day))
      ∨ (t.year = u.year ∧ t.month = u.month ∧ t.day = u.day ∧ (t.seconds < u.seconds
        ∨ t.seconds = u.seconds ∧ t.nanosecond < u.nanosecond)) := by
    unfold Time.seconds
    omega
  have hbound : t.seconds < 86400 := by
    unfold Time.seconds
    omega
  clear h
  unfold Time.instant
  obtain hday | ⟨hyear, hmonth, hday, htime⟩ := hsplit
  . have hnumber : t.date.number < u.date.number := Calendar.number_lt_number hdate hday
    omega
  . have hnumber : t.date.number = u.date.number := by
      unfold Time.date
      rw [hyear, hmonth, hday]
    omega

theorem before_iff_instant (ht : t.Proper) (hu : u.Proper) : t.Before u ↔ t.instant < u.instant := by
  constructor
  . exact instant_lt ht
  . intro hlt
    by_contra hnot
    have hrest : u.Before t ∨ t = u := by
      rw [Time.before_iff] at hnot ⊢
      cases t
      cases u
      simp only [Time.mk.injEq] at hnot ⊢
      omega
    obtain hafter | rfl := hrest
    . have := instant_lt hu hafter
      omega
    . exact lt_irrefl _ hlt

end

section

variable {w n : Nat} {cs rest : List Char}

theorem isDigit_fixed : ∀ c ∈ (fixed 10 w n).map Nat.digitChar, c.isDigit = true ∧ isDigit c = true := by
  have hall : ∀ d, d < 10 → (Nat.digitChar d).isDigit = true ∧ isDigit (Nat.digitChar d) = true := by decide
  intro c hc
  obtain ⟨d, hd, rfl⟩ := List.mem_map.mp hc
  exact hall d (lt_of_mem_fixed (by decide) hd)

theorem ofDigitChars_fixed (h : n < 10 ^ w) : Nat.ofDigitChars 10 ((fixed 10 w n).map Nat.digitChar) 0 = n := by
  have hvalue : ∀ (ds : List Nat) (acc : Nat), (∀ d ∈ ds, d < 10) →
      Nat.ofDigitChars 10 (ds.map Nat.digitChar) acc = ds.foldl (fun n d => n * 10 + d) acc := by
    intro ds
    induction ds with
    | nil => exact fun acc _ => Nat.ofDigitChars_nil
    | cons d ds ih =>
      intro acc hlt
      rw [List.forall_mem_cons] at hlt
      have hd : (Nat.digitChar d).toNat - '0'.toNat = d := by
        rw [Nat.toNat_digitChar_of_lt_ten hlt.1]
        exact Nat.add_sub_cancel_left 48 d
      rw [List.map_cons, Nat.ofDigitChars_cons, hd, ih _ hlt.2, List.foldl_cons, Nat.mul_comm]
  rw [hvalue _ _ fun d hd => lt_of_mem_fixed (by decide) hd]
  exact value_fixed_of_lt h

theorem takeDigits_fixed (h : n < 10 ^ w) (hrest : NoDigit rest)
    : takeDigits ((fixed 10 w n).map Nat.digitChar ++ rest) 0 0 = (n, w, rest) := by
  rw [takeDigits_append fun c hc => (isDigit_fixed c hc).1, takeDigits_stop hrest, ofDigitChars_fixed h,
    List.length_map, length_fixed, Nat.zero_add]

theorem numberAt_fixed {start : Nat} (h : n < 10 ^ w)
    (hcs : (cs.drop start).take w = (fixed 10 w n).map Nat.digitChar)
    : numberAt cs start w = n := by
  have hnil : NoDigit [] := fun c hc => by cases hc
  have hread := takeDigits_fixed h hnil
  rw [List.append_nil] at hread
  unfold numberAt
  rw [hcs, hread]

end

def Time.text (t : Time) : List Char :=
  padded 10 4 t.year ++ '-' :: (padded 10 2 t.month ++ '-' :: (padded 10 2 t.day
    ++ 'T' :: (padded 10 2 t.hour ++ ':' :: (padded 10 2 t.minute
      ++ ':' :: (padded 10 2 t.second ++ '.' :: (padded 10 6 (t.nanosecond / 1000) ++ ['Z']))))))

section

variable {t : Time}

theorem Time.Proper.day_le (ht : t.Proper) : t.day ≤ 31 := by
  refine ht.date.day.2.trans ?_
  unfold Calendar.daysInMonth
  split
  . split <;> decide
  all_goals decide

theorem text_eq (ht : t.Proper) (hyear : t.year < 10000)
    : t.text = (fixed 10 4 t.year).map Nat.digitChar ++ '-' :: ((fixed 10 2 t.month).map Nat.digitChar
      ++ '-' :: ((fixed 10 2 t.day).map Nat.digitChar ++ 'T' :: ((fixed 10 2 t.hour).map Nat.digitChar
        ++ ':' :: ((fixed 10 2 t.minute).map Nat.digitChar ++ ':' :: ((fixed 10 2 t.second).map Nat.digitChar
          ++ '.' :: ((fixed 10 6 (t.nanosecond / 1000)).map Nat.digitChar ++ ['Z'])))))) := by
  have hmonth : t.month ≤ 12 := ht.date.month.2
  have hday := ht.day_le
  obtain ⟨_, hhour, hminute, hsecond, hnanosecond⟩ := ht
  unfold Time.text
  rw [padded_eq (by decide) (by omega), padded_eq (by decide) (by omega), padded_eq (by decide) (by omega),
    padded_eq (by decide) (by omega), padded_eq (by decide) (by omega), padded_eq (by decide) (by omega),
    padded_eq (by decide) (by omega)]

theorem timestampRe_text (ht : t.Proper) (hyear : t.year < 10000) : timestampRe (String.ofList t.text) = true := by
  have hdigits : ∀ {w n : Nat}, matchClasses (.replicate w isDigit) ((fixed 10 w n).map Nat.digitChar) = true := by
    intro w n
    refine matchClasses_replicate.mpr ⟨by rw [List.length_map, length_fixed], ?_⟩
    exact fun c hc => (isDigit_fixed c hc).2
  have hafter : ∀ {x : Char} {classes : List (Char → Bool)} {cs : List Char}, matchClasses classes cs = true →
      matchClasses ((· == x) :: classes) (x :: cs) = true :=
    fun h => matchClasses_cons.mpr ⟨_, _, rfl, beq_self_eq_true _, h⟩
  have htake : t.text.take 19 = (fixed 10 4 t.year).map Nat.digitChar ++ '-' :: (fixed 10 2 t.month).map Nat.digitChar
      ++ '-' :: (fixed 10 2 t.day).map Nat.digitChar ++ 'T' :: (fixed 10 2 t.hour).map Nat.digitChar
      ++ ':' :: (fixed 10 2 t.minute).map Nat.digitChar ++ ':' :: (fixed 10 2 t.second).map Nat.digitChar := by
    rw [text_eq ht hyear]
    rfl
  have hdrop : t.text.drop 19 = '.' :: ((fixed 10 6 (t.nanosecond / 1000)).map Nat.digitChar ++ ['Z']) := by
    rw [text_eq ht hyear]
    rfl
  unfold timestampRe
  rw [String.toList_ofList]
  dsimp only
  rw [htake, hdrop, Bool.and_eq_true]
  constructor
  . refine matchClasses_append.mpr ⟨_, _, rfl, matchClasses_append.mpr ⟨_, _, rfl, matchClasses_append.mpr ⟨_, _, rfl,
      matchClasses_append.mpr ⟨_, _, rfl, matchClasses_append.mpr ⟨_, _, rfl, hdigits, hafter hdigits⟩,
        hafter hdigits⟩, hafter hdigits⟩, hafter hdigits⟩, hafter hdigits⟩
  . have hall : ∀ c ∈ (fixed 10 6 (t.nanosecond / 1000)).map Nat.digitChar, isDigit c = true :=
      fun c hc => (isDigit_fixed c hc).2
    rw [fractionRe, List.takeWhile_append_of_pos hall, List.dropWhile_append_of_pos hall]
    rfl

theorem ParseTimestamp_text (ht : t.Proper) (hyear : t.year < 10000)
    : ParseTimestamp (String.ofList t.text) = .ok (Store.timestamptz t) := by
  have hmonth : t.month ≤ 12 := ht.date.month.2
  have hday := ht.day_le
  obtain ⟨hdate, hhour, hminute, hsecond, hnanosecond⟩ := ht
  have htext := text_eq ⟨hdate, hhour, hminute, hsecond, hnanosecond⟩ hyear
  have hyear' : numberAt t.text 0 4 = t.year := numberAt_fixed (by omega) (by rw [htext]; rfl)
  have hmonth' : numberAt t.text 5 2 = t.month := numberAt_fixed (by omega) (by rw [htext]; rfl)
  have hday' : numberAt t.text 8 2 = t.day := numberAt_fixed (by omega) (by rw [htext]; rfl)
  have hhour' : numberAt t.text 11 2 = t.hour := numberAt_fixed (by omega) (by rw [htext]; rfl)
  have hminute' : numberAt t.text 14 2 = t.minute := numberAt_fixed (by omega) (by rw [htext]; rfl)
  have hsecond' : numberAt t.text 17 2 = t.second := numberAt_fixed (by omega) (by rw [htext]; rfl)
  have hfraction : fraction (t.text.drop 19) = t.nanosecond / 1000 * 1000 := by
    have hdrop : t.text.drop 19 = '.' :: ((fixed 10 6 (t.nanosecond / 1000)).map Nat.digitChar ++ ['Z']) := by
      rw [htext]
      rfl
    have hstop : NoDigit ['Z'] := by
      intro c hc
      cases hc
      decide
    rw [hdrop, fraction, takeDigits_fixed (by omega) hstop]
    rfl
  have hproper : (Store.timestamptz t).Proper := by
    refine ⟨hdate, hhour, hminute, hsecond, ?_⟩
    exact (Nat.div_mul_le_self _ _).trans_lt hnanosecond
  unfold ParseTimestamp
  rw [if_neg (not_not.mpr (timestampRe_text ⟨hdate, hhour, hminute, hsecond, hnanosecond⟩ hyear)),
    String.toList_ofList]
  dsimp only
  rw [hyear', hmonth', hday', hhour', hminute', hsecond', hfraction]
  have hrange : outOfRange ⟨t.year, t.month, t.day, t.hour, t.minute, t.second, t.nanosecond / 1000 * 1000⟩ = none :=
    outOfRange_eq_none hproper
  rw [hrange]
  rfl

end

end Model
end Api

namespace Bench

open Api Model

def stamp_time (now : Int) : Time :=
  let us := (now / 1000 + kEpochDay * kDayUs).toNat
  let d := Calendar.date (us / kDayUs)
  let rest := us % kDayUs
  { year := d.year
    month := d.month
    day := d.day
    hour := rest / (60 * 60 * 10 ^ 6)
    minute := rest / (60 * 10 ^ 6) % 60
    second := rest / 10 ^ 6 % 60
    nanosecond := rest % 10 ^ 6 * 1000 }

/--
What the clock of the system can say: nanoseconds in 64 bits.
-/
def InClock (now : Int) : Prop :=
  -2 ^ 63 ≤ now ∧ now < 2 ^ 63

instance (now : Int) : Decidable (InClock now) :=
  inferInstanceAs (Decidable (_ ∧ _))

section

variable {now : Int}

theorem utc_now_rfc3339_eq : utc_now_rfc3339 now = String.ofList (stamp_time now).text := by
  unfold utc_now_rfc3339 stamp_time Time.text
  dsimp only
  rw [Nat.mul_div_cancel _ (by decide : 0 < 1000)]
  simp

theorem stamp_time_proper : (stamp_time now).Proper := by
  constructor
  . exact Calendar.date_valid _
  all_goals
    unfold stamp_time kDayUs
    dsimp only
    omega

theorem stamp_time_year (h : InClock now) : (stamp_time now).year < 10000 := by
  obtain ⟨hlow, hhigh⟩ := h
  have hyear := (Calendar.date_year ((now / 1000 + kEpochDay * kDayUs).toNat / kDayUs)).1
  have hle := Calendar.le_beforeYear (stamp_time now).year
  have hday : (now / 1000 + kEpochDay * kDayUs).toNat / kDayUs < 3650000 := by
    unfold kEpochDay kDayUs
    omega
  change Calendar.beforeYear (stamp_time now).year ≤ _ at hyear
  omega

theorem stamp_time_seconds
    : (stamp_time now).seconds = (now / 1000 + kEpochDay * kDayUs).toNat % kDayUs / 10 ^ 6 := by
  unfold stamp_time Time.seconds
  dsimp only
  generalize (now / 1000 + kEpochDay * kDayUs).toNat % kDayUs = rest
  omega

theorem stamp_time_instant (h : InClock now)
    : ((stamp_time now).instant : Int) = now / 1000 * 1000 + kEpochDay * kDayUs * 1000 := by
  obtain ⟨hlow, hhigh⟩ := h
  have hdate : (stamp_time now).date.number = (now / 1000 + kEpochDay * kDayUs).toNat / kDayUs :=
    Calendar.number_date _
  have hnanosecond : (stamp_time now).nanosecond
      = (now / 1000 + kEpochDay * kDayUs).toNat % kDayUs % 10 ^ 6 * 1000 := rfl
  have hus : ((now / 1000 + kEpochDay * kDayUs).toNat : Int) = now / 1000 + kEpochDay * kDayUs := by
    apply Int.toNat_of_nonneg
    unfold kEpochDay kDayUs
    omega
  unfold Time.instant
  rw [hdate, stamp_time_seconds, hnanosecond]
  generalize (now / 1000 + kEpochDay * kDayUs).toNat = us at hus
  have hsame : (us / kDayUs * 86400 + us % kDayUs / 10 ^ 6) * 10 ^ 9 + us % kDayUs % 10 ^ 6 * 1000 = us * 1000 := by
    unfold kDayUs
    omega
  rw [hsame, Nat.cast_mul, hus, Int.add_mul]
  rfl

theorem timestamptz_stamp (now : Int) : Store.timestamptz (stamp_time now) = stamp_time now := by
  unfold Store.timestamptz stamp_time
  dsimp only
  rw [Nat.mul_div_cancel _ (by decide : 0 < 1000)]

theorem ParseTimestamp_stamp (h : InClock now) : ParseTimestamp (utc_now_rfc3339 now) = .ok (stamp_time now) := by
  rw [utc_now_rfc3339_eq, ParseTimestamp_text stamp_time_proper (stamp_time_year h), timestamptz_stamp]

theorem timestampRe_stamp (h : InClock now) : timestampRe (utc_now_rfc3339 now) = true := by
  rw [utc_now_rfc3339_eq]
  exact timestampRe_text stamp_time_proper (stamp_time_year h)

theorem stamp_before_iff {now' : Int} (h : InClock now) (h' : InClock now')
    : (stamp_time now).Before (stamp_time now') ↔ now / 1000 < now' / 1000 := by
  rw [before_iff_instant stamp_time_proper stamp_time_proper, ← Int.ofNat_lt, stamp_time_instant h,
    stamp_time_instant h']
  omega

end

/--
The API takes every stamp for the microsecond in which it was taken, which the database keeps as it is; and of two
stamps it takes the one for the earlier that was taken in an earlier microsecond.
-/
theorem stamps_read_back (now now' : Int) (h : InClock now) (h' : InClock now')
    : ∃ t t', ParseTimestamp (utc_now_rfc3339 now) = .ok t ∧ ParseTimestamp (utc_now_rfc3339 now') = .ok t'
      ∧ Store.timestamptz t = t ∧ (t.instant : Int) = now / 1000 * 1000 + kEpochDay * kDayUs * 1000
      ∧ (t.Before t' ↔ now / 1000 < now' / 1000) :=
  ⟨stamp_time now, stamp_time now', ParseTimestamp_stamp h, ParseTimestamp_stamp h', timestamptz_stamp now,
    stamp_time_instant h, stamp_before_iff h h'⟩

theorem stamps_read_back_second
    : ∃ t t', ParseTimestamp (utc_now_rfc3339 0) = .ok t ∧ ParseTimestamp (utc_now_rfc3339 1500) = .ok t'
      ∧ t.Before t' := by
  obtain ⟨t, t', ht, ht', _, _, hbefore⟩ := stamps_read_back 0 1500 (by decide) (by decide)
  exact ⟨t, t', ht, ht', hbefore.mpr (by decide)⟩

end Bench
