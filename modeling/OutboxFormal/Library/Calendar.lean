import Mathlib.Algebra.Order.Ring.Int
import Mathlib.Data.List.DropRight

/-!
# Calendar dates and decimal numerals

Days are counted from the first of March of a year divisible by 400, so that the
leap day is the last of its year and every step of the conversion is a division.
A date determines its day. Decimal numerals determine their number, also behind
zeros in front and, at a fixed width, without the zeros at the end.
-/

namespace OutboxFormal.Library

variable {first second number : Nat}

/-! ## Dates -/

namespace Calendar

/-- Whole centuries before the day, and the day within its century. -/
def century (days : Nat) : Nat := (4 * days + 3) / 146097
def centuryDay (days : Nat) : Nat := (4 * days + 3) % 146097 / 4

/-- Whole years of the century before the day, and the day within its year. -/
def centuryYear (days : Nat) : Nat := (4 * centuryDay days + 3) / 1461
def yearDay (days : Nat) : Nat := (4 * centuryDay days + 3) % 1461 / 4

/-- The month of a day of the year, from 3 for March to 14 for February, and the
day of that month from 0. -/
def marchMonth (yearDay : Nat) : Nat := (5 * yearDay + 461) / 153
def monthDay (yearDay : Nat) : Nat := (5 * yearDay + 461) % 153 / 5

def year (days : Nat) : Nat :=
  100 * century days + centuryYear days + if 12 < marchMonth (yearDay days) then 1 else 0

def month (days : Nat) : Nat :=
  if 12 < marchMonth (yearDay days) then marchMonth (yearDay days) - 12
  else marchMonth (yearDay days)

def day (days : Nat) : Nat := monthDay (yearDay days) + 1

theorem yearDay_lt (days : Nat) : yearDay days < 366 := by
  unfold yearDay
  omega

theorem centuryYear_lt (days : Nat) : centuryYear days < 100 := by
  unfold centuryYear centuryDay
  omega

theorem month_lt (days : Nat) : month days < 100 := by
  have bound := yearDay_lt days
  unfold month marchMonth
  split <;> omega

theorem day_lt (days : Nat) : day days < 100 := by
  unfold day monthDay
  omega

/-- Month and day determine the day of the year. -/
theorem yearDay_inj (months : marchMonth first = marchMonth second)
    (days : monthDay first = monthDay second) : first = second := by
  unfold marchMonth at months
  unfold monthDay at days
  omega

/-- Century, year and day of the year determine the day. -/
theorem days_inj (centuries : century first = century second)
    (years : centuryYear first = centuryYear second) (days : yearDay first = yearDay second) :
    first = second := by
  have within : centuryDay first = centuryDay second := by
    unfold centuryYear at years
    unfold yearDay at days
    omega
  unfold century at centuries
  unfold centuryDay at within
  omega

/-- The months of a year are numbered apart. -/
theorem marchMonth_inj (firstMonth : marchMonth first < 15) (secondMonth : marchMonth second < 15)
    (low : 3 ≤ marchMonth first) (low' : 3 ≤ marchMonth second)
    (same : (if 12 < marchMonth first then marchMonth first - 12 else marchMonth first) =
      if 12 < marchMonth second then marchMonth second - 12 else marchMonth second) :
    marchMonth first = marchMonth second := by
  split at same <;> split at same <;> omega

theorem marchMonth_range {yearDay : Nat} (bound : yearDay < 366) :
    3 ≤ marchMonth yearDay ∧ marchMonth yearDay < 15 := by
  unfold marchMonth
  omega

/-- A date determines its day. -/
theorem date_inj (years : year first = year second) (months : month first = month second)
    (days : day first = day second) : first = second := by
  obtain ⟨low, high⟩ := marchMonth_range (yearDay_lt first)
  obtain ⟨low', high'⟩ := marchMonth_range (yearDay_lt second)
  have sameMonth := marchMonth_inj high high' low low' months
  have sameDay : yearDay first = yearDay second :=
    yearDay_inj sameMonth (Nat.succ.inj days)
  have bound := centuryYear_lt first
  have bound' := centuryYear_lt second
  unfold year at years
  rw [sameMonth] at years
  apply days_inj _ _ sameDay
  · omega
  · omega

end Calendar

/-! ## Numerals -/

namespace Numeral

/-- The decimal digits of a number in ASCII. -/
def decimal (number : Nat) : List UInt8 :=
  (Nat.toDigits 10 number).map fun digit => UInt8.ofNat digit.toNat

/-- The number that digits denote. -/
def value (digits : List UInt8) : Nat :=
  digits.foldl (fun value digit => 10 * value + (digit.toNat - 48)) 0

theorem value_append_singleton (digits : List UInt8) (digit : UInt8) :
    value (digits ++ [digit]) = 10 * value digits + (digit.toNat - 48) := by
  rw [value, List.foldl_append]
  rfl

/-- Zeros in front change nothing. -/
theorem value_zeros (count : Nat) (digits : List UInt8) :
    value (List.replicate count 48 ++ digits) = value digits := by
  induction count with
  | zero => rfl
  | succ count ih => exact ih

/-- The last digit comes off the end. -/
theorem decimal_eq (number : Nat) :
    decimal number = (if number < 10 then [] else decimal (number / 10)) ++
      [UInt8.ofNat (48 + number % 10)] := by
  have digit : ∀ number < 10,
      UInt8.ofNat (Nat.digitChar number).toNat = UInt8.ofNat (48 + number) := by decide
  unfold decimal
  rw [Nat.toDigits_eq_if (by decide)]
  split
  · rename_i small
    rw [Nat.mod_eq_of_lt small, List.map_singleton, digit number small]
    rfl
  · rw [List.map_append, List.map_singleton, digit _ (Nat.mod_lt _ (by decide))]

/-- A numeral can be read back. -/
theorem value_decimal (number : Nat) : value (decimal number) = number := by
  induction number using Nat.strong_induction_on with
  | _ number ih =>
    have digit : (UInt8.ofNat (48 + number % 10)).toNat = 48 + number % 10 := by
      rw [UInt8.toNat_ofNat']
      omega
    rw [decimal_eq, value_append_singleton, digit]
    split
    · rw [show value [] = 0 from rfl]
      omega
    · rw [ih (number / 10) (by omega)]
      omega

theorem decimal_inj (same : decimal first = decimal second) :
    first = second := by
  rw [← value_decimal first, same, value_decimal]

/-- A numeral consists of digits. -/
theorem digit_of_mem_decimal {byte : UInt8} (member : byte ∈ decimal number) :
    48 ≤ byte.toNat ∧ byte.toNat ≤ 57 := by
  induction number using Nat.strong_induction_on with
  | _ number ih =>
    rw [decimal_eq] at member
    rcases List.mem_append.mp member with front | last
    · split at front
      · cases front
      · exact ih (number / 10) (by omega) front
    · rw [List.mem_singleton.mp last, UInt8.toNat_ofNat']
      omega

/-- At least `width` digits. -/
def padded (width number : Nat) : List UInt8 :=
  List.replicate (width - (decimal number).length) 48 ++ decimal number

theorem padded_inj {width first second : Nat} (same : padded width first = padded width second) :
    first = second := by
  have values := congrArg value same
  rwa [padded, padded, value_zeros, value_zeros, value_decimal, value_decimal] at values

theorem digit_of_mem_padded {width : Nat} {byte : UInt8} (member : byte ∈ padded width number) :
    48 ≤ byte.toNat ∧ byte.toNat ≤ 57 := by
  rcases List.mem_append.mp member with zero | digit
  · rw [(List.mem_replicate.mp zero).2]
    decide
  · exact digit_of_mem_decimal digit

theorem length_padded {width : Nat} (positive : 0 < width) (fits : number < 10 ^ width) :
    (padded width number).length = width := by
  have short : (decimal number).length ≤ width := by
    rw [decimal, List.length_map]
    exact (Nat.length_toDigits_le_iff (by decide) positive).mpr fits
  rw [padded, List.length_append, List.length_replicate]
  omega

/-- Zeros at the end of equally long texts may be dropped. -/
theorem rdropWhile_inj {α : Type} {zero : α → Bool} {mark : α}
    (only : ∀ value, zero value = true → value = mark) {first second : List α}
    (lengths : first.length = second.length)
    (same : first.rdropWhile zero = second.rdropWhile zero) : first = second := by
  have split : ∀ text : List α, text = text.rdropWhile zero ++
      List.replicate (text.length - (text.rdropWhile zero).length) mark := by
    intro text
    induction text using List.reverseRecOn with
    | nil => rfl
    | append_singleton front last ih =>
      by_cases zeros : zero last = true
      · rw [List.rdropWhile_concat_pos zero front last zeros, only last zeros]
        have shorter : (front.rdropWhile zero).length ≤ front.length :=
          (List.rdropWhile_prefix zero front).length_le
        rw [List.length_append, List.length_singleton, Nat.sub_add_comm shorter,
          List.replicate_succ', ← List.append_assoc, ← ih]
      · rw [List.rdropWhile_concat_neg zero front last zeros, Nat.sub_self]
        exact (List.append_nil _).symm
  rw [split first, split second, same, lengths]

end Numeral

end OutboxFormal.Library
