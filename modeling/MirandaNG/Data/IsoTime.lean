import Mathlib.Tactic
import Mathlib.Data.List.TakeWhile
import MirandaNG.Data.Decimal

/-!
This module contains the Gregorian calendar: the date of a day, counted from the first of January 1970,
and the day of a date. The years start in March here, so that the leap day is the last one.

It also contains times as they are printed in the ISO form, as they are scanned, and that the one is
the inverse of the other.
-/

namespace Calendar

structure Date where
  year : Nat
  month : Nat
  day : Nat
deriving DecidableEq

def yearOf (r : Nat) : Nat × Nat :=
  let centuries := min 3 (r / 36524)
  let r := r - centuries * 36524
  let fours := r / 1461
  let r := r % 1461
  let years := min 3 (r / 365)
  (100 * centuries + 4 * fours + years, r - years * 365)

def daysBefore (year : Nat) : Nat := 365 * year + year / 4 - year / 100

def monthStart (month : Nat) : Nat := (153 * month + 2) / 5

def ofDays (days : Nat) : Date :=
  let z := days + 719468
  let (year, day) := yearOf (z % 146097)
  let month := (5 * day + 2) / 153
  { year := 400 * (z / 146097) + year + if month < 10 then 0 else 1
    month := if month < 10 then month + 3 else month - 9
    day := day - monthStart month + 1 }

def toDays (date : Date) : Int :=
  let year := if date.month ≤ 2 then date.year - 1 else date.year
  let month := (date.month + 9) % 12
  146097 * (year / 400 : Nat) + (daysBefore (year % 400) + monthStart month : Nat) + date.day - 1 - 719468

theorem min_three {r length : Nat} (hlength : 0 < length) (h : r ≤ 4 * length)
    : min 3 (r / length) * length ≤ r ∧ r - min 3 (r / length) * length ≤ length
        ∧ (min 3 (r / length) < 3 → r - min 3 (r / length) * length < length) := by
  have hdiv := Nat.div_add_mod r length
  have hmod := Nat.mod_lt r hlength
  by_cases hthree : r / length < 3
  . rw [Nat.min_eq_right (by omega), Nat.mul_comm]
    omega
  . rw [Nat.min_eq_left (by omega)]
    have hle : 3 * length ≤ r := by
      rw [Nat.mul_comm]
      exact (Nat.mul_le_mul_left length (by omega)).trans (Nat.mul_div_le r length)
    omega

theorem yearOf_spec {r : Nat} (h : r < 146097)
    : (yearOf r).1 < 400 ∧ (yearOf r).2 < 366 ∧ daysBefore (yearOf r).1 + (yearOf r).2 = r := by
  unfold yearOf daysBefore
  simp only []
  have hcenturies : min 3 (r / 36524) ≤ 3 := Nat.min_le_left ..
  obtain ⟨hcentury, hrest, _⟩ := @min_three r 36524 (by decide) (by omega)
  generalize min 3 (r / 36524) = c at *
  generalize hr' : r - c * 36524 = r' at *
  have hfour : 1461 * (r' / 1461) + r' % 1461 = r' := Nat.div_add_mod r' 1461
  have hlast : r' % 1461 < 1461 := Nat.mod_lt _ (by decide)
  generalize r' / 1461 = f at *
  generalize r' % 1461 = r'' at *
  have hyears : min 3 (r'' / 365) ≤ 3 := Nat.min_le_left ..
  obtain ⟨hyear, hday, _⟩ := @min_three r'' 365 (by decide) (by omega)
  generalize min 3 (r'' / 365) = y at *
  have hfours : f ≤ 24 := by omega
  have hquarter : (100 * c + 4 * f + y) / 4 = 25 * c + f := by omega
  have hhundred : (100 * c + 4 * f + y) / 100 = c := by omega
  rw [hquarter, hhundred]
  omega

theorem month_spec {day : Nat} (h : day < 366)
    : (5 * day + 2) / 153 < 12 ∧ monthStart ((5 * day + 2) / 153) ≤ day
        ∧ day - monthStart ((5 * day + 2) / 153) < 31 := by
  unfold monthStart
  omega

theorem ofDays_bounds (days : Nat)
    : 1 ≤ (ofDays days).month ∧ (ofDays days).month ≤ 12 ∧ 1 ≤ (ofDays days).day
        ∧ (ofDays days).day ≤ 31 := by
  obtain ⟨_, hday, _⟩ := @yearOf_spec ((days + 719468) % 146097) (Nat.mod_lt _ (by decide))
  obtain ⟨hmonth, hstart, hlast⟩ := month_spec hday
  unfold ofDays
  simp only []
  generalize yearOf ((days + 719468) % 146097) = found at *
  generalize (5 * found.2 + 2) / 153 = month at *
  split <;> omega

theorem ofDays_year (days : Nat) (h : days < 49711) : 1970 ≤ (ofDays days).year ∧ (ofDays days).year ≤ 2106 := by
  obtain ⟨hyear, hday, hsum⟩ := @yearOf_spec ((days + 719468) % 146097) (Nat.mod_lt _ (by decide))
  have hcycle : 146097 * ((days + 719468) / 146097) + (days + 719468) % 146097 = days + 719468 :=
    Nat.div_add_mod (days + 719468) 146097
  unfold ofDays
  simp only []
  unfold daysBefore at hsum
  generalize yearOf ((days + 719468) % 146097) = found at *
  have hera : (days + 719468) / 146097 = 4 ∨ (days + 719468) / 146097 = 5 := by omega
  rcases hera with hera | hera
  . rw [hera] at hcycle ⊢
    split <;> omega
  . rw [hera] at hcycle ⊢
    split <;> omega

theorem toDays_ofDays (days : Nat) : toDays (ofDays days) = days := by
  obtain ⟨hyear, hday, hsum⟩ := @yearOf_spec ((days + 719468) % 146097) (Nat.mod_lt _ (by decide))
  obtain ⟨hmonth, hstart, hlast⟩ := month_spec hday
  unfold toDays ofDays
  simp only []
  generalize yearOf ((days + 719468) % 146097) = found at *
  generalize hgen : (5 * found.2 + 2) / 153 = month at *
  by_cases hm : month < 10
  . have hcalendar : ¬month + 3 ≤ 2 := by omega
    have hback : (month + 3 + 9) % 12 = month := by omega
    have hyears : (400 * ((days + 719468) / 146097) + found.1 + 0) / 400 = (days + 719468) / 146097 := by omega
    have hcycle : (400 * ((days + 719468) / 146097) + found.1 + 0) % 400 = found.1 := by omega
    simp only [hm, if_true, hcalendar, if_false, hback, hyears, hcycle]
    omega
  . have hcalendar : month - 9 ≤ 2 := by omega
    have hback : (month - 9 + 9) % 12 = month := by omega
    have hyears : (400 * ((days + 719468) / 146097) + found.1 + 1 - 1) / 400 = (days + 719468) / 146097 := by
      omega
    have hcycle : (400 * ((days + 719468) / 146097) + found.1 + 1 - 1) % 400 = found.1 := by omega
    simp only [hm, if_false, hcalendar, if_true, hback, hyears, hcycle]
    omega

example : ofDays 0 = ⟨1970, 1, 1⟩ := by decide

example : ofDays 19782 = ⟨2024, 2, 29⟩ := by decide

end Calendar

namespace IsoTime

open Decimal

structure SYSTEMTIME where
  wYear : Nat
  wMonth : Nat
  wDay : Nat
  wHour : Nat
  wMinute : Nat
  wSecond : Nat

def TimeZone_GetSystemTime (ts : UInt32) : SYSTEMTIME :=
  let date := Calendar.ofDays (ts.toNat / 86400)
  let second := ts.toNat % 86400
  { wYear := date.year
    wMonth := date.month
    wDay := date.day
    wHour := second / 3600
    wMinute := second / 60 % 60
    wSecond := second % 60 }

def printTwo (n : Nat) : List UInt8 := if n < 10 then 0x30 :: print n else print n

def FormatTime (st : SYSTEMTIME) : List UInt8 :=
  print st.wYear ++ 0x2D :: (printTwo st.wMonth ++ 0x2D :: (printTwo st.wDay ++ 0x54 ::
    (printTwo st.wHour ++ 0x3A :: (printTwo st.wMinute ++ 0x3A :: (printTwo st.wSecond ++ [0x5A])))))

def TimeZone_PrintTimeStamp (ts : UInt32) : List UInt8 := FormatTime (TimeZone_GetSystemTime ts)

structure Tm where
  tm_year : Int
  tm_mon : Int
  tm_mday : Int
  tm_hour : Int
  tm_min : Int
  tm_sec : Int

-- `%4d` and `%2d`: the sign counts for the width, the white space does not.
def scanInt (width : Nat) (s : List UInt8) : Option (Int × List UInt8) :=
  match s.dropWhile isSpace with
  | 0x2D :: s =>
    let digits := (s.take (width - 1)).takeWhile isDigit
    if digits = [] then none else some (-(value digits : Int), s.drop digits.length)
  | 0x2B :: s =>
    let digits := (s.take (width - 1)).takeWhile isDigit
    if digits = [] then none else some ((value digits : Int), s.drop digits.length)
  | s =>
    let digits := (s.take width).takeWhile isDigit
    if digits = [] then none else some ((value digits : Int), s.drop digits.length)

def scanLiteral (c : UInt8) : List UInt8 → Option (List UInt8)
  | [] => none
  | c' :: s => if c' = c then some s else none

def scanChar : List UInt8 → Option (List UInt8)
  | [] => none
  | _ :: s => some s

-- `%4d-%2d-%2dT%2d:%2d:%2dZ` with six results; the last letter does not count.
def scanIsoTime (s : List UInt8) : Option Tm := do
  let (year, s) ← scanInt 4 s
  let (mon, s) ← scanInt 2 (← scanLiteral 0x2D s)
  let (mday, s) ← scanInt 2 (← scanLiteral 0x2D s)
  let (hour, s) ← scanInt 2 (← scanLiteral 0x54 s)
  let (min, s) ← scanInt 2 (← scanLiteral 0x3A s)
  let (sec, _) ← scanInt 2 (← scanLiteral 0x3A s)
  return ⟨year, mon, mday, hour, min, sec⟩

def scanLocalTime (s : List UInt8) : Option Tm := do
  let (year, s) ← scanInt 4 s
  let (mon, s) ← scanInt 2 (← scanChar s)
  let (mday, s) ← scanInt 2 (← scanChar s)
  let (hour, s) ← scanInt 2 s
  let (min, s) ← scanInt 2 (← scanLiteral 0x3A s)
  let (sec, _) ← scanInt 2 (← scanLiteral 0x3A s)
  return ⟨year, mon, mday, hour, min, sec⟩

-- Months are carried over into years, days and times into each other; a time before 1970 or behind the
-- year 3000 is an error.
def _mkgmtime (tm : Tm) : Int :=
  let year := tm.tm_year + tm.tm_mon / 12
  if year < 69 ∨ 1101 < year then -1
  else
    let first := Calendar.toDays ⟨(year + 1900).toNat, (tm.tm_mon % 12 + 1).toNat, 1⟩
    let time := (((first + tm.tm_mday - 1) * 24 + tm.tm_hour) * 60 + tm.tm_min) * 60 + tm.tm_sec
    if time < 0 ∨ 32535215999 < time then -1 else time

theorem print_length {n : Nat} (h : 1000 ≤ n) (h' : n < 10000) : (print n).length = 4 := by
  rw [print_of_le (by omega), print_of_le (by omega), print_of_le (by omega), print_of_lt (by omega)]
  rfl

theorem printTwo_spec {n : Nat} (h : n < 100)
    : (printTwo n).length = 2 ∧ (∀ c ∈ printTwo n, isDigit c = true) ∧ value (printTwo n) = n := by
  unfold printTwo
  split
  . next hlt =>
    refine ⟨by rw [print_of_lt hlt]; rfl, ?_, ?_⟩
    . intro c hc
      rw [List.mem_cons] at hc
      cases hc with
      | inl hc =>
        rw [hc]
        rfl
      | inr hc => exact print_isDigit n c hc
    . -- the zero in front does not count
      exact value_print n
  . next hle =>
    refine ⟨?_, print_isDigit n, value_print n⟩
    rw [print_of_le (by omega), print_of_lt (by omega)]
    rfl

theorem isSpace_of_isDigit {c : UInt8} (h : isDigit c = true) : isSpace c = false := by
  unfold isDigit at h
  unfold isSpace
  simp only [Bool.and_eq_true, decide_eq_true_eq, UInt8.le_iff_toNat_le, Bool.or_eq_false_iff,
    Bool.and_eq_false_iff, decide_eq_false_iff_not] at h ⊢
  constructor
  . intro hc
    rw [hc] at h
    exact absurd h.1 (by decide)
  . right
    intro hle
    exact absurd (h.1.trans hle) (by decide)

theorem scanInt_digits {digits : List UInt8} {width : Nat} (hne : digits ≠ [])
    (h : ∀ c ∈ digits, isDigit c = true) (hlength : digits.length = width) (s : List UInt8)
    : scanInt width (digits ++ s) = some ((value digits : Int), s) := by
  have hall : ((digits ++ s).take width).takeWhile isDigit = digits := by
    rw [← hlength, List.take_left, List.takeWhile_eq_self_iff]
    exact h
  match digits, hne with
  | c :: digits, _ =>
    have hc := h c List.mem_cons_self
    have hspace : (c :: digits ++ s).dropWhile isSpace = c :: digits ++ s := by
      rw [List.cons_append, List.dropWhile_cons, isSpace_of_isDigit hc]
      rfl
    unfold scanInt
    rw [hspace]
    split
    . next heq =>
      rw [List.cons_append, List.cons_eq_cons] at heq
      rw [heq.1] at hc
      exact absurd hc (by decide)
    . next heq =>
      rw [List.cons_append, List.cons_eq_cons] at heq
      rw [heq.1] at hc
      exact absurd hc (by decide)
    . simp only []
      rw [hall, if_neg (List.cons_ne_nil c digits), List.drop_left]

theorem scanInt_print {n : Nat} (h : 1000 ≤ n) (h' : n < 10000) (s : List UInt8)
    : scanInt 4 (print n ++ s) = some ((n : Int), s) := by
  rw [scanInt_digits (print_ne_nil n) (print_isDigit n) (print_length h h'), value_print]

theorem scanInt_printTwo {n : Nat} (h : n < 100) (s : List UInt8)
    : scanInt 2 (printTwo n ++ s) = some ((n : Int), s) := by
  obtain ⟨hlength, hdigits, hvalue⟩ := printTwo_spec h
  have hne : printTwo n ≠ [] := by
    intro hnil
    rw [hnil] at hlength
    exact absurd hlength (by decide)
  rw [scanInt_digits hne hdigits hlength, hvalue]

theorem scanLiteral_cons (c : UInt8) (s : List UInt8) : scanLiteral c (c :: s) = some s := by
  unfold scanLiteral
  exact if_pos rfl

theorem scanIsoTime_FormatTime {st : SYSTEMTIME} (hyear : 1000 ≤ st.wYear ∧ st.wYear < 10000)
    (hmonth : st.wMonth < 100) (hday : st.wDay < 100) (hhour : st.wHour < 100) (hminute : st.wMinute < 100)
    (hsecond : st.wSecond < 100)
    : scanIsoTime (FormatTime st)
        =
      some ⟨st.wYear, st.wMonth, st.wDay, st.wHour, st.wMinute, st.wSecond⟩ := by
  unfold scanIsoTime FormatTime
  rw [scanInt_print hyear.1 hyear.2]
  simp only [Option.bind_eq_bind, Option.bind_some, scanLiteral_cons, scanInt_printTwo hmonth,
    scanInt_printTwo hday, scanInt_printTwo hhour, scanInt_printTwo hminute, scanInt_printTwo hsecond]
  rfl

theorem mkgmtime_date {year month : Nat} (hyear : 1970 ≤ year) (hyear' : year ≤ 3000) (hmonth : 1 ≤ month)
    (hmonth' : month ≤ 12) (day hour min sec : Nat)
    : _mkgmtime ⟨(year : Int) - 1900, (month : Int) - 1, day, hour, min, sec⟩
        =
      let time := ((Calendar.toDays ⟨year, month, day⟩ * 24 + hour) * 60 + min) * 60 + sec
      if time < 0 ∨ 32535215999 < time then -1 else time := by
  have hcarry : ((month : Int) - 1) / 12 = 0 := by omega
  have hkeep : ((month : Int) - 1) % 12 = (month : Int) - 1 := by omega
  have htoNat : ((year : Int) - 1900 + 0 + 1900).toNat = year := by omega
  have hmonths : ((month : Int) - 1 + 1).toNat = month := by omega
  have hfirst : Calendar.toDays ⟨year, month, 1⟩ + (day : Int) - 1 = Calendar.toDays ⟨year, month, day⟩ := by
    unfold Calendar.toDays
    simp only []
    omega
  unfold _mkgmtime
  simp only [hcarry, hkeep, htoNat, hmonths]
  rw [if_neg (by omega), hfirst]

theorem mkgmtime_printed (ts : UInt32)
    : (scanIsoTime (TimeZone_PrintTimeStamp ts)).map
          (fun st => _mkgmtime { st with tm_mon := st.tm_mon - 1, tm_year := st.tm_year - 1900 })
        =
      some (ts.toNat : Int) := by
  have hts : ts.toNat < 4294967296 := ts.toNat_lt
  have hdays : ts.toNat / 86400 < 49711 := by omega
  have hsum : 86400 * (ts.toNat / 86400) + ts.toNat % 86400 = ts.toNat := Nat.div_add_mod ts.toNat 86400
  have hyear := Calendar.ofDays_year _ hdays
  obtain ⟨hmonth, hmonth', hday, hday'⟩ := Calendar.ofDays_bounds (ts.toNat / 86400)
  have hback := Calendar.toDays_ofDays (ts.toNat / 86400)
  have htime : ts.toNat % 86400 < 86400 := Nat.mod_lt _ (by decide)
  unfold TimeZone_PrintTimeStamp TimeZone_GetSystemTime
  simp only []
  generalize ts.toNat / 86400 = days at *
  generalize ts.toNat % 86400 = second at *
  generalize Calendar.ofDays days = date at *
  rw [scanIsoTime_FormatTime ⟨by simp only []; omega, by simp only []; omega⟩ (by simp only []; omega)
    (by simp only []; omega) (by simp only []; omega) (by simp only []; omega) (by simp only []; omega)]
  simp only [Option.map_some, Option.some.injEq]
  rw [mkgmtime_date (by omega) (by omega) hmonth hmonth', hback]
  rw [if_neg]
  . omega
  . omega

end IsoTime
