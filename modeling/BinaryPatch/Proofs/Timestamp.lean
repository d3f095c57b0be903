/-
# Times read back from their text

The calendar comes first. A day of an era of 400 years is split into cycles of a century, four years
and a year (`Cycles`), a day of a year that starts in March into a month and a day, and what
`dateOfDays` computes by divisions is read off these parts (`dateOfDays_spec`). Then every part of a
written time is read back: digits up to their width, the year up to the separator behind it, the
fraction as nanoseconds. The main statement is `parse?_format`, for every time in a year that has
dates, leap seconds among them.
-/

import BinaryPatch.Timestamp
import Mathlib.Algebra.Ring.Int.Defs
import Mathlib.Data.List.TakeDrop
import Mathlib.Tactic.IntervalCases

namespace BinaryPatch
namespace Timestamp

/-! ## The calendar -/

/-- A day of an era, by its cycles: a century, four years of it, a year of these, and a day of the
year. Only a leap year has a day 365. -/
structure Cycles (n c q s d : Nat) : Prop where
  sum : n = 36524 * c + 1461 * q + 365 * s + d
  century : c ≤ 3
  four : q ≤ 24
  year : s ≤ 3
  day : d ≤ 364 ∨ d = 365 ∧ s = 3 ∧ (q < 24 ∨ c = 3)

theorem exists_cycles {n : Nat} (hn : n < 146097) : ∃ c q s d, Cycles n c q s d := by
  obtain ⟨c, hc⟩ : ∃ c, c = min (n / 36524) 3 := ⟨_, rfl⟩
  obtain ⟨r, hr⟩ : ∃ r, r = n - 36524 * c := ⟨_, rfl⟩
  have hcentury : n = 36524 * c + r ∧ c ≤ 3 ∧ (r < 36524 ∨ r = 36524 ∧ c = 3) := by omega
  obtain ⟨q, hq⟩ : ∃ q, q = r / 1461 := ⟨_, rfl⟩
  obtain ⟨r', hr'⟩ : ∃ r', r' = r % 1461 := ⟨_, rfl⟩
  have hfour : r = 1461 * q + r' ∧ q ≤ 24 ∧ r' ≤ 1460 ∧ (q = 24 → r' = 1460 → c = 3) := by omega
  clear hc hr hq hr'
  refine ⟨c, q, min (r' / 365) 3, r' - 365 * min (r' / 365) 3, ?_, ?_, ?_, ?_, ?_⟩ <;> omega

namespace Cycles

variable {n c q s d : Nat}

theorem year_lt (h : Cycles n c q s d) : 100 * c + 4 * q + s < 400 := by
  obtain ⟨-, hc, hq, hs, -⟩ := h
  omega

theorem day_le (h : Cycles n c q s d) : d ≤ 365 := by
  have := h.day
  omega

theorem lt (h : Cycles n c q s d) : n < 146097 := by
  obtain ⟨hn, hc, hq, hs, hd⟩ := h
  omega

/-- The days before the year. -/
theorem yearStart (h : Cycles n c q s d) :
    365 * (100 * c + 4 * q + s) + (100 * c + 4 * q + s) / 4 - (100 * c + 4 * q + s) / 100 + d =
      n := by
  obtain ⟨hn, hc, hq, hs, -⟩ := h
  have hyears : (100 * c + 4 * q + s) / 4 = 25 * c + q ∧ (100 * c + 4 * q + s) / 100 = c := by omega
  omega

/-- The year, which the leap days before it do not move. -/
theorem yearOfEra (h : Cycles n c q s d) :
    (n - n / 1460 + n / 36524 - n / 146096) / 365 = 100 * c + 4 * q + s := by
  obtain ⟨hn, hc, hq, hs, hd⟩ := h
  have hfour : n / 1460 = 25 * c + q + (24 * c + q + 365 * s + d) / 1460 := by omega
  have hcentury : n / 36524 - n / 146096 = c ∧ n / 146096 ≤ n / 36524 := by
    rcases (by omega : n < 36524 * (c + 1) ∨ n = 146096 ∧ c = 3) with h | ⟨rfl, rfl⟩
    · have hfirst : n / 36524 = c := by omega
      have hnone : n / 146096 = 0 := by omega
      omega
    · omega
  have hlast : (24 * c + q + 365 * s + d) / 1460 ≤ d := by omega
  omega

/-- A year with a day 365 ends in a leap year. -/
theorem isLeap (h : Cycles n c q s 365) (era : Int) :
    isLeap (era * 400 + (100 * c + 4 * q + s : Nat) + 1) = true := by
  obtain ⟨-, hc, hq, hs, hd⟩ := h
  generalize hyear : era * 400 + (100 * c + 4 * q + s : Nat) + 1 = year
  have hleap : year % 4 = 0 ∧ (year % 100 ≠ 0 ∨ year % 400 = 0) := by omega
  change (year % 4 == 0 && (year % 100 != 0 || year % 400 == 0)) = true
  simpa using hleap

end Cycles

/-- The date of a day of a year that starts in March. -/
def dateInYear (year : Int) (day : Nat) : Date :=
  let month := (5 * day + 2) / 153
  if month < 10 then ⟨year, month + 3, day - (153 * month + 2) / 5 + 1⟩
  else ⟨year + 1, month - 9, day - (153 * month + 2) / 5 + 1⟩

theorem dateOfDays_eq (era : Int) {n c q s d : Nat} (h : Cycles n c q s d) :
    dateOfDays (era * 146097 + n - 719468) =
      dateInYear (era * 400 + (100 * c + 4 * q + s : Nat)) d := by
  have hlt := h.lt
  have hle := h.day_le
  have hera : (era * 146097 + n - 719468 + 719468).fdiv 146097 = era := by
    rw [Int.fdiv_eq_ediv_of_nonneg _ (by decide)]
    omega
  have hday : (era * 146097 + n - 719468 + 719468 - era * 146097).toNat = n := by omega
  have hrest : n - (365 * (100 * c + 4 * q + s) + (100 * c + 4 * q + s) / 4 -
      (100 * c + 4 * q + s) / 100) = d := by
    have := h.yearStart
    omega
  unfold dateOfDays dateInYear
  dsimp only
  rw [hera, hday, h.yearOfEra, hrest]
  by_cases hm : (5 * d + 2) / 153 < 10
  · rw [if_pos hm, if_pos hm, if_neg (by omega), Int.add_zero]
  · rw [if_neg hm, if_neg hm, if_pos (by omega)]

/-- January and February belong to the year that started in the March before. -/
theorem daysFromDate_dateInYear (era : Int) {y d : Nat} (hy : y < 400) (hd : d ≤ 365) :
    daysFromDate (dateInYear (era * 400 + y) d).year (dateInYear (era * 400 + y) d).month
      (dateInYear (era * 400 + y) d).day =
        era * 146097 + (365 * y + y / 4 - y / 100 + d : Nat) - 719468 := by
  have hera : (era * 400 + (y : Int)).fdiv 400 = era := by
    rw [Int.fdiv_eq_ediv_of_nonneg _ (by decide)]
    omega
  have hyear : (era * 400 + (y : Int) - era * 400).toNat = y := by omega
  unfold dateInYear
  dsimp only
  by_cases hm : (5 * d + 2) / 153 < 10
  · have hmonth : ((5 * d + 2) / 153 + 3 + 9) % 12 = (5 * d + 2) / 153 := by omega
    unfold daysFromDate
    rw [if_pos hm]
    dsimp only
    rw [if_neg (by omega), hera, hyear, hmonth]
    congr 3
    omega
  · have hmonth : ((5 * d + 2) / 153 - 9 + 9) % 12 = (5 * d + 2) / 153 := by omega
    unfold daysFromDate
    rw [if_neg hm]
    dsimp only
    rw [if_pos (by omega), add_sub_cancel_right, hera, hyear, hmonth]
    congr 3
    omega

/-- The calendar has the date. -/
structure Date.InCalendar (date : Date) : Prop where
  month : 1 ≤ date.month ∧ date.month ≤ 12
  day : 1 ≤ date.day ∧ date.day ≤ daysInMonth date.year date.month

theorem daysInMonth_le (year : Int) (month : Nat) : daysInMonth year month ≤ 31 := by
  unfold daysInMonth
  split
  · split <;> decide
  all_goals decide

theorem inCalendar_dateInYear (year : Int) {d : Nat}
    (hd : d ≤ 364 ∨ d = 365 ∧ isLeap (year + 1) = true) : (dateInYear year d).InCalendar := by
  obtain ⟨m, hm⟩ : ∃ m, m = (5 * d + 2) / 153 := ⟨_, rfl⟩
  unfold dateInYear
  dsimp only
  rw [← hm]
  split
  · refine ⟨by dsimp only; omega, by dsimp only; omega, ?_⟩
    dsimp only
    interval_cases m <;> simp only [daysInMonth] <;> omega
  · refine ⟨by dsimp only; omega, by dsimp only; omega, ?_⟩
    dsimp only
    obtain rfl | rfl : m = 10 ∨ m = 11 := by omega
    · simp only [daysInMonth]
      omega
    · simp only [daysInMonth]
      rcases hd with hd | ⟨rfl, hleap⟩
      · split <;> omega
      · rw [if_pos hleap]

/-- **The date of a day is in the calendar, and it is that many days away.** -/
theorem dateOfDays_spec (days : Int) :
    (dateOfDays days).InCalendar ∧
      daysFromDate (dateOfDays days).year (dateOfDays days).month (dateOfDays days).day = days := by
  obtain ⟨era, n, rfl, hn⟩ : ∃ (era : Int) (n : Nat), days = era * 146097 + n - 719468 ∧
      n < 146097 := ⟨(days + 719468) / 146097, ((days + 719468) % 146097).toNat, by omega, by omega⟩
  obtain ⟨c, q, s, d, h⟩ := exists_cycles hn
  rw [dateOfDays_eq era h, daysFromDate_dateInYear era h.year_lt h.day_le, h.yearStart]
  refine ⟨inCalendar_dateInYear _ (h.day.imp_right fun ⟨hd, _⟩ => ⟨hd, ?_⟩), rfl⟩
  subst hd
  exact h.isLeap era

/-! ## Numbers -/

theorem value_eq (ds : List Char) : value ds = Nat.ofDigitChars 10 ds 0 := by
  unfold value Nat.ofDigitChars
  simp only [Nat.mul_comm]

/-- The characters of a number with at least `width` digits. -/
theorem toList_digits (width n : Nat) :
    (digits width n).toList =
      List.replicate (width - (Nat.toDigits 10 n).length) '0' ++ Nat.toDigits 10 n := by
  have hn : (toString n).toList = Nat.toDigits 10 n := Nat.toList_repr
  unfold digits Text.padLeft
  rw [String.toList_append, String.toList_ofList, hn, ← String.length_toList, hn]

theorem isDigit_of_mem_digits {width n : Nat} {c : Char} (h : c ∈ (digits width n).toList) :
    c.isDigit = true := by
  rw [toList_digits, List.mem_append] at h
  rcases h with h | h
  · rw [List.eq_of_mem_replicate h]
    rfl
  · exact Nat.isDigit_of_mem_toDigits (by decide) (by decide) h

theorem value_digits (width n : Nat) : value (digits width n).toList = n := by
  rw [value_eq, toList_digits, Nat.ofDigitChars_append, Nat.ofDigitChars_replicate_zero,
    Nat.mul_zero]
  exact Nat.ofDigitChars_toDigits (by decide) (by decide)

theorem length_digits {width n : Nat} (hwidth : 0 < width) (hn : n < 10 ^ width) :
    (digits width n).toList.length = width := by
  have hle := (Nat.length_toDigits_le_iff (b := 10) (by decide) hwidth).2 hn
  rw [toList_digits, List.length_append, List.length_replicate]
  omega

theorem digits_ne_nil (width n : Nat) : (digits width n).toList ≠ [] := by
  rw [toList_digits]
  exact List.append_ne_nil_of_right_ne_nil _ Nat.toDigits_ne_nil

theorem exists_digits_eq_cons (width n : Nat) :
    ∃ c ds, (digits width n).toList = c :: ds ∧ c.isDigit = true := by
  obtain ⟨c, ds, hds⟩ := List.exists_cons_of_ne_nil (digits_ne_nil width n)
  exact ⟨c, ds, hds, isDigit_of_mem_digits (hds ▸ List.mem_cons_self)⟩

/-- Digits are read up to the limit, or up to what is no digit. -/
theorem readNumber_append {most : Nat} {ds rest : List Char} (hds : ∀ c ∈ ds, c.isDigit = true)
    (hne : ds ≠ []) (hle : ds.length ≤ most)
    (hrest : ds.length = most ∨ ∀ c ∈ rest.head?, c.isDigit = false) :
    readNumber most (ds ++ rest) = some (value ds, rest) := by
  have htake : ((ds ++ rest).take most).takeWhile Char.isDigit = ds := by
    rw [List.take_append, List.take_of_length_le hle, List.takeWhile_append_of_pos hds]
    rcases hrest with rfl | hrest
    · simp
    · cases rest with
      | nil => simp
      | cons c rest =>
        have hc : ¬ c.isDigit = true := by simpa using hrest c rfl
        cases most - ds.length with
        | zero => simp
        | succ k => rw [List.take_succ_cons, List.takeWhile_cons_of_neg hc, List.append_nil]
  unfold readNumber
  dsimp only
  rw [htake, List.drop_left, if_neg (by simpa using hne)]

theorem readNumber_digits {width n : Nat} (hwidth : 0 < width) (hn : n < 10 ^ width)
    (rest : List Char) : readNumber width ((digits width n).toList ++ rest) = some (n, rest) := by
  have hlen := length_digits hwidth hn
  rw [readNumber_append (fun _ hc => isDigit_of_mem_digits hc) (digits_ne_nil width n) hlen.le
    (.inl hlen), value_digits]

/-! ## Fields -/

theorem trimStart_of_not_blank {c : Char} (hc : Text.isBlank c = false) (rest : List Char) :
    Text.trimStart (c :: rest) = c :: rest :=
  List.dropWhile_cons_of_neg (by simpa using hc)

theorem isBlank_of_isDigit {c : Char} (hc : c.isDigit = true) : Text.isBlank c = false := by
  have hall : ∀ n < 58, 48 ≤ n → Text.isBlank (Char.ofNat n) = false := by decide
  obtain ⟨hzero, hnine⟩ := Char.isDigit_iff_toNat.1 hc
  rw [← Char.ofNat_toNat c]
  exact hall c.toNat (Nat.lt_succ_of_le hnine) hzero

theorem trimStart_digits (width n : Nat) (rest : List Char) :
    Text.trimStart ((digits width n).toList ++ rest) = (digits width n).toList ++ rest := by
  obtain ⟨c, ds, hds, hc⟩ := exists_digits_eq_cons width n
  rw [hds, List.cons_append, trimStart_of_not_blank (isBlank_of_isDigit hc)]

theorem readField_digits {least most n : Nat} (hleast : least ≤ n) (hmost : n ≤ most)
    (hlimit : most < 100) (rest : List Char) :
    readField least most ((digits 2 n).toList ++ rest) = some (n, rest) := by
  unfold readField
  rw [trimStart_digits, readNumber_digits (by decide) (by omega)]
  simp only [Option.bind_eq_bind, Option.bind_some]
  exact if_pos ⟨hleast, hmost⟩

theorem readMark_cons {mark : Char} (h : Text.isBlank mark = false) (rest : List Char) :
    readMark mark (mark :: rest) = some rest := by
  unfold readMark
  rw [trimStart_of_not_blank h]
  exact if_pos rfl

theorem readYear_minus (s : List Char) :
    readYear ('-' :: s) = (readNumber s.length s).map fun (n, rest) => (-(n : Int), rest) := rfl

theorem readYear_plus (s : List Char) :
    readYear ('+' :: s) = (readNumber s.length s).map fun (n, rest) => ((n : Int), rest) := rfl

theorem readYear_digits (width n : Nat) (rest : List Char) :
    readYear ((digits width n).toList ++ rest) =
      (readNumber 4 ((digits width n).toList ++ rest)).map fun (n, rest) => ((n : Int), rest) := by
  obtain ⟨c, ds, hds, hc⟩ := exists_digits_eq_cons width n
  unfold readYear
  rw [trimStart_digits, hds, List.cons_append]
  split
  · rename_i heq
    rw [(List.cons.inj heq).1] at hc
    exact absurd hc (by decide)
  · rename_i heq
    rw [(List.cons.inj heq).1] at hc
    exact absurd hc (by decide)
  · rfl

/-- A year is read up to the separator behind it. -/
theorem readYear_yearText (year : Int) (rest : List Char) :
    readYear ((yearText year).toList ++ '-' :: rest) = some (year, '-' :: rest) := by
  have hstop : ∀ c ∈ ('-' :: rest).head?, c.isDigit = false := fun c hc => by
    rw [← Option.some.inj hc]
    rfl
  have hlong : ∀ n : Nat, readNumber ((digits 4 n).toList ++ '-' :: rest).length
      ((digits 4 n).toList ++ '-' :: rest) = some (n, '-' :: rest) := fun n => by
    rw [readNumber_append (fun _ hc => isDigit_of_mem_digits hc) (digits_ne_nil 4 n)
      (by rw [List.length_append]; omega) (.inr hstop), value_digits]
  have hminus : "-".toList = ['-'] := rfl
  have hplus : "+".toList = ['+'] := rfl
  unfold yearText
  by_cases hshort : 0 ≤ year ∧ year ≤ 9999
  · rw [if_pos hshort, readYear_digits, readNumber_digits (by decide) (by omega), Option.map_some]
    dsimp only
    rw [Int.toNat_of_nonneg hshort.1]
  · rw [if_neg hshort, String.toList_append]
    by_cases hneg : year < 0
    · rw [if_pos hneg, hminus, List.cons_append, List.nil_append, List.cons_append, readYear_minus,
        hlong, Option.map_some]
      dsimp only
      congr 2
      omega
    · rw [if_neg hneg, hplus, List.cons_append, List.nil_append, List.cons_append, readYear_plus,
        hlong, Option.map_some]
      dsimp only
      congr 2
      omega

theorem readFraction_point (s : List Char) :
    readFraction ('.' :: s) =
      if (s.takeWhile Char.isDigit).isEmpty then none
      else
        some (value ((s.takeWhile Char.isDigit).take 9 ++
            List.replicate (9 - ((s.takeWhile Char.isDigit).take 9).length) '0'),
          s.drop (s.takeWhile Char.isDigit).length) := rfl

/-- Digits behind a point are so many parts of a second. -/
theorem readFraction_digits {width n : Nat} (hpos : 0 < width) (hle : width ≤ 9)
    (hn : n < 10 ^ width) (rest : List Char) :
    readFraction ('.' :: ((digits width n).toList ++ 'Z' :: rest)) =
      some (n * 10 ^ (9 - width), 'Z' :: rest) := by
  have hz : ¬ 'Z'.isDigit = true := by decide
  have htake : ((digits width n).toList ++ 'Z' :: rest).takeWhile Char.isDigit =
      (digits width n).toList := by
    rw [List.takeWhile_append_of_pos fun c hc => isDigit_of_mem_digits hc,
      List.takeWhile_cons_of_neg hz, List.append_nil]
  have hlen := length_digits hpos hn
  have hvalue : value ((digits width n).toList ++ List.replicate (9 - width) '0') =
      n * 10 ^ (9 - width) := by
    rw [value_eq, Nat.ofDigitChars_append, ← value_eq, value_digits,
      Nat.ofDigitChars_replicate_zero, Nat.mul_comm]
  rw [readFraction_point, htake, if_neg (by simpa using digits_ne_nil width n),
    List.take_of_length_le (by omega), List.drop_left, hlen, hvalue]

theorem readFraction_fractionText (t : Timestamp) (rest : List Char) :
    readFraction (t.fractionText.toList ++ 'Z' :: rest) =
      some (t.nanos % 1000000000, 'Z' :: rest) := by
  have hlt : t.nanos % 1000000000 < 1000000000 := Nat.mod_lt _ (by decide)
  have hpoint : ∀ text : String, ("." ++ text).toList = '.' :: text.toList := fun text => by
    rw [String.toList_append]
    rfl
  unfold fractionText
  dsimp only
  generalize t.nanos % 1000000000 = n at hlt ⊢
  split_ifs with h₁ h₂ h₃
  · rw [h₁]
    rfl
  · rw [hpoint, List.cons_append, readFraction_digits (by decide) (by decide) (by omega)]
    congr 2
    omega
  · rw [hpoint, List.cons_append, readFraction_digits (by decide) (by decide) (by omega)]
    congr 2
    omega
  · rw [hpoint, List.cons_append, readFraction_digits (by decide) (by decide) (by omega)]
    congr 2
    omega

/-! ## Points in time -/

/-- The point lies in a year that has dates, and its fraction is less than a second. In the last
second of a minute, which a leap second may follow, it is less than two. -/
structure Known (t : Timestamp) : Prop where
  year : knownYear t.date.year = true
  nanos : t.nanos < 1000000000 ∨ t.nanos < 2000000000 ∧ t.secondOfDay % 60 = 59

theorem toList_format (t : Timestamp) :
    t.format.toList = (yearText t.date.year).toList ++ '-' ::
      ((digits 2 t.date.month).toList ++ '-' :: ((digits 2 t.date.day).toList ++ 'T' ::
        ((digits 2 (t.secondOfDay / 3600)).toList ++ ':' ::
          ((digits 2 (t.secondOfDay / 60 % 60)).toList ++ ':' ::
            ((digits 2 (t.secondOfDay % 60 + t.nanos / 1000000000)).toList ++
              (t.fractionText.toList ++ ['Z'])))))) := by
  simp [format, dateText, timeText, String.toList_append]

/-- **A written point in time is read as itself.** -/
theorem parse?_format {t : Timestamp} (h : t.Known) : parse? t.format = some t := by
  obtain ⟨⟨⟨hmonth, hmonth'⟩, hday, hday'⟩, hdays⟩ : t.date.InCalendar ∧
      daysFromDate t.date.year t.date.month t.date.day = t.seconds.fdiv 86400 := dateOfDays_spec _
  have hlast : daysInMonth t.date.year t.date.month ≤ 31 := daysInMonth_le ..
  have hsecond : t.secondOfDay < 86400 ∧
      t.seconds.fdiv 86400 * 86400 + t.secondOfDay = t.seconds := by
    unfold secondOfDay
    rw [Int.fdiv_eq_ediv_of_nonneg _ (by decide), Int.fmod_eq_emod_of_nonneg _ (by decide)]
    omega
  have hleap : t.secondOfDay % 60 + t.nanos / 1000000000 ≤ 60 := by
    rcases h.nanos with hn | ⟨hn, hs⟩ <;> omega
  -- what is put together from the fields
  have hseconds : daysFromDate t.date.year t.date.month t.date.day * 86400 +
      (t.secondOfDay / 3600 : Nat) * 3600 + (t.secondOfDay / 60 % 60 : Nat) * 60 +
        (min (t.secondOfDay % 60 + t.nanos / 1000000000) 59 : Nat) - 0 = t.seconds := by
    have hmin : min (t.secondOfDay % 60 + t.nanos / 1000000000) 59 = t.secondOfDay % 60 := by
      rcases h.nanos with hn | ⟨hn, hs⟩ <;> omega
    rw [hdays, hmin]
    omega
  have hnanos : (if t.secondOfDay % 60 + t.nanos / 1000000000 = 60 then
      t.nanos % 1000000000 + 1000000000 else t.nanos % 1000000000) = t.nanos := by
    rcases h.nanos with hn | ⟨hn, hs⟩
    · rw [if_neg (by omega), Nat.mod_eq_of_lt hn]
    · split <;> omega
  unfold parse?
  rw [toList_format]
  refine Option.bind_eq_some_iff.2 ⟨_, readYear_yearText _ _, ?_⟩
  refine Option.bind_eq_some_iff.2 ⟨_, readMark_cons rfl _, ?_⟩
  refine Option.bind_eq_some_iff.2 ⟨_, readField_digits hmonth hmonth' (by decide) _, ?_⟩
  refine Option.bind_eq_some_iff.2 ⟨_, readMark_cons rfl _, ?_⟩
  refine Option.bind_eq_some_iff.2 ⟨_, readField_digits hday (hday'.trans hlast) (by decide) _, ?_⟩
  refine Option.bind_eq_some_iff.2 ⟨_, rfl, ?_⟩
  refine Option.bind_eq_some_iff.2
    ⟨_, readField_digits (Nat.zero_le _) (by omega) (by decide) _, ?_⟩
  refine Option.bind_eq_some_iff.2 ⟨_, readMark_cons rfl _, ?_⟩
  refine Option.bind_eq_some_iff.2
    ⟨_, readField_digits (Nat.zero_le _) (by omega) (by decide) _, ?_⟩
  refine Option.bind_eq_some_iff.2 ⟨_, readMark_cons rfl _, ?_⟩
  refine Option.bind_eq_some_iff.2 ⟨_, readField_digits (Nat.zero_le _) hleap (by decide) _, ?_⟩
  refine Option.bind_eq_some_iff.2 ⟨_, readFraction_fractionText t _, ?_⟩
  refine Option.bind_eq_some_iff.2 ⟨(0, []), rfl, ?_⟩
  dsimp only
  rw [if_neg, hseconds, hnanos, if_pos h.year]
  rw [h.year]
  simpa [Text.trimStart] using hday'

/-- A leap second is written as second 60 of its minute. -/
example : format ⟨1483228799, 1000000000⟩ = "2016-12-31T23:59:60Z" ∧
    parse? "2016-12-31T23:59:60Z" = some ⟨1483228799, 1000000000⟩ := by
  decide +kernel

end Timestamp
end BinaryPatch
