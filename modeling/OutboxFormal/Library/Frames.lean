import Mathlib.Data.Nat.Digits.Defs
import Mathlib.Data.Nat.Digits.Lemmas

/-!
# Self-delimiting frames

A simple binary format: every byte of a string is announced by a one and a zero
ends the string, so a sequence of strings can be read back without knowing their
lengths. Numbers are strings of base-256 digits.
-/

namespace OutboxFormal.Library.Frames

def frame : List UInt8 → List UInt8
  | [] => [0]
  | byte :: rest => 1 :: byte :: frame rest

/-- The first string of a text and what follows it. -/
def unframe : List UInt8 → Option (List UInt8 × List UInt8)
  | 0 :: rest => some ([], rest)
  | 1 :: byte :: rest => (unframe rest).map fun found => (byte :: found.1, found.2)
  | _ => none

theorem unframe_frame (value rest : List UInt8) :
    unframe (frame value ++ rest) = some (value, rest) := by
  induction value with
  | nil => rfl
  | cons byte others ih =>
    change (unframe (frame others ++ rest)).map _ = _
    rw [ih]
    rfl

def frames : List (List UInt8) → List UInt8
  | [] => []
  | value :: rest => frame value ++ frames rest

/-- Read at most so many strings. -/
def unframes : Nat → List UInt8 → Option (List (List UInt8))
  | _, [] => some []
  | 0, _ :: _ => none
  | count + 1, byte :: text =>
    match unframe (byte :: text) with
    | none => none
    | some (value, rest) => (unframes count rest).map (value :: ·)

theorem unframes_frames {count : Nat} {values : List (List UInt8)}
    (enough : values.length ≤ count) : unframes count (frames values) = some values := by
  induction values generalizing count with
  | nil => cases count <;> rfl
  | cons value rest ih =>
    cases count with
    | zero => exact absurd enough (Nat.not_succ_le_zero _)
    | succ count =>
      have first := unframe_frame value (frames rest)
      have later := ih (Nat.le_of_succ_le_succ enough)
      rw [frames]
      cases text : frame value ++ frames rest with
      | nil =>
        rw [text] at first
        cases first
      | cons byte tail =>
        rw [text] at first
        simp only [unframes, first, later, Option.map_some]

theorem length_le_frames (values : List (List UInt8)) :
    values.length ≤ (frames values).length := by
  induction values with
  | nil => exact Nat.le_refl 0
  | cons value rest ih =>
    have nonempty : 1 ≤ (frame value).length := by cases value <;> simp [frame]
    rw [frames, List.length_append, List.length_cons]
    omega

/-- Read all strings of a text. -/
def readAll (text : List UInt8) : Option (List (List UInt8)) := unframes text.length text

theorem readAll_frames (values : List (List UInt8)) : readAll (frames values) = some values :=
  unframes_frames (length_le_frames values)

/-! ## Numbers -/

def ofNat (number : Nat) : List UInt8 := (Nat.digits 256 number).map UInt8.ofNat

def toNat (digits : List UInt8) : Nat := Nat.ofDigits 256 (digits.map UInt8.toNat)

theorem toNat_ofNat (number : Nat) : toNat (ofNat number) = number := by
  have same : (ofNat number).map UInt8.toNat = Nat.digits 256 number := by
    rw [ofNat, List.map_map]
    refine (List.map_congr_left fun digit member => ?_).trans (List.map_id _)
    have small : digit < 256 := Nat.digits_lt_base (by decide) member
    change (UInt8.ofNat digit).toNat = digit
    rw [UInt8.toNat_ofNat']
    exact Nat.mod_eq_of_lt small
  rw [toNat, same, Nat.ofDigits_digits]

def ofInt : Int → List UInt8
  | .ofNat number => 0 :: ofNat number
  | .negSucc number => 1 :: ofNat number

def toInt : List UInt8 → Int
  | 1 :: digits => .negSucc (toNat digits)
  | _ :: digits => .ofNat (toNat digits)
  | [] => 0

theorem toInt_ofInt (number : Int) : toInt (ofInt number) = number := by
  cases number with
  | ofNat number => exact congrArg Int.ofNat (toNat_ofNat number)
  | negSucc number => exact congrArg Int.negSucc (toNat_ofNat number)

end OutboxFormal.Library.Frames
