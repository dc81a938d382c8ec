import Mathlib.Algebra.Order.Ring.Int
import Mathlib.Data.List.Basic

/-!
# UTF-8 validity and codecs

A string is a list of bytes. `toValid` copies the well-formed encodings of a
string and puts the replacement character in place of every byte that starts
none, as text encoders do. A codec turns the encodable values of a type into
strings and back, up to what encoding changes.
-/

namespace OutboxFormal.Library

variable {value rest : List UInt8} {lead : UInt8} {count : Nat}

namespace Utf8

def within (low high byte : UInt8) : Bool := low ≤ byte && byte ≤ high

/-- A continuation byte. -/
def continues (byte : UInt8) : Bool := within 0x80 0xBF byte

/-- How many bytes follow a lead byte. -/
def width (lead : UInt8) : Option Nat :=
  if lead < 0x80 then some 0
  else if within 0xC2 0xDF lead then some 1
  else if within 0xE0 0xEF lead then some 2
  else if within 0xF0 0xF4 lead then some 3
  else none

/-- The second bytes a lead byte admits: no overlong form, no surrogate, nothing
past the last code point. -/
def admits (lead second : UInt8) : Bool :=
  if lead = 0xE0 then within 0xA0 0xBF second
  else if lead = 0xED then within 0x80 0x9F second
  else if lead = 0xF0 then within 0x90 0xBF second
  else if lead = 0xF4 then within 0x80 0x8F second
  else continues second

/-- The bytes complete the encoding that the lead byte starts. -/
def completes (lead : UInt8) : List UInt8 → Bool
  | [] => true
  | second :: more => admits lead second && more.all continues

/-- How many bytes follow the lead byte in the encoding at the front, if there is
one. -/
def following (lead : UInt8) (rest : List UInt8) : Option Nat :=
  match width lead with
  | none => none
  | some count =>
    if count ≤ rest.length ∧ completes lead (rest.take count) = true then some count else none

/-- U+FFFD. -/
def replacement : List UInt8 := [0xEF, 0xBF, 0xBD]

/-- `copied` bytes of the current encoding are still to be copied. -/
def toValidFrom : Nat → List UInt8 → List UInt8
  | _, [] => []
  | copied + 1, byte :: rest => byte :: toValidFrom copied rest
  | 0, byte :: rest =>
    match following byte rest with
    | some count => byte :: toValidFrom count rest
    | none => replacement ++ toValidFrom 0 rest

/-- The string with every ill-formed byte replaced. -/
def toValid (value : List UInt8) : List UInt8 := toValidFrom 0 value

def validFrom : Nat → List UInt8 → Bool
  | _, [] => true
  | copied + 1, _ :: rest => validFrom copied rest
  | 0, byte :: rest =>
    match following byte rest with
    | some count => validFrom count rest
    | none => false

/-- The string is well formed. -/
def valid (value : List UInt8) : Bool := validFrom 0 value

theorem length_le_toValidFrom (copied : Nat) (value : List UInt8) :
    value.length ≤ (toValidFrom copied value).length := by
  induction value generalizing copied with
  | nil => exact Nat.zero_le _
  | cons byte rest ih =>
    cases copied with
    | succ copied => exact Nat.succ_le_succ (ih copied)
    | zero =>
      unfold toValidFrom
      split
      · exact Nat.succ_le_succ (ih _)
      · have shorter := ih 0
        simp only [List.length_cons, List.length_append, replacement]
        omega

/-- Only well-formed strings stay as they are: a replacement makes the string
longer. -/
theorem toValidFrom_eq_self_iff {copied : Nat} :
    toValidFrom copied value = value ↔ validFrom copied value = true := by
  induction value generalizing copied with
  | nil => simp [toValidFrom, validFrom]
  | cons byte rest ih =>
    cases copied with
    | succ copied => simp [toValidFrom, validFrom, ih]
    | zero =>
      cases front : following byte rest with
      | some count => simp [toValidFrom, validFrom, front, ih]
      | none =>
        simp only [toValidFrom, validFrom, front, Bool.false_eq_true, iff_false]
        intro same
        have lengths := congrArg List.length same
        have shorter := length_le_toValidFrom 0 rest
        simp only [List.length_append, List.length_cons, replacement] at lengths
        omega

theorem toValid_eq_self_iff : toValid value = value ↔ valid value = true :=
  toValidFrom_eq_self_iff

theorem following_plain {byte : UInt8} (plain : byte < 0x80) (rest : List UInt8) :
    following byte rest = some 0 := by
  simp [following, width, plain, completes]

/-- A string of plain bytes is well formed. -/
theorem valid_of_plain (plain : ∀ byte ∈ value, byte < 0x80) :
    valid value = true := by
  induction value with
  | nil => rfl
  | cons byte rest ih =>
    have front := following_plain (plain byte List.mem_cons_self) rest
    simp only [valid, validFrom, front]
    exact ih fun other member => plain other (List.mem_cons_of_mem byte member)

/-! ### The output is well formed -/

/-- Only the following bytes matter. -/
theorem following_congr {other : List UInt8} (front : following lead rest = some count)
    (long : count ≤ other.length) (same : other.take count = rest.take count) :
    following lead other = some count := by
  unfold following at front ⊢
  split at front
  · cases front
  · rename_i expected found
    split at front
    · rename_i complete
      cases front
      rw [if_pos ⟨long, same ▸ complete.2⟩]
    · cases front

theorem take_toValidFrom (count : Nat) (value : List UInt8) :
    (toValidFrom count value).take count = value.take count := by
  induction count generalizing value with
  | zero => rfl
  | succ count ih =>
    cases value with
    | nil => rfl
    | cons byte rest => exact congrArg (byte :: ·) (ih rest)

theorem valid_replacement (rest : List UInt8) :
    validFrom 0 (replacement ++ rest) = validFrom 0 rest := by
  have front : following 0xEF (0xBF :: 0xBD :: rest) = some 2 := by
    have complete : completes 0xEF [0xBF, 0xBD] = true := by decide
    have wide : width 0xEF = some 2 := by decide
    simp [following, wide, complete]
  change validFrom 0 (0xEF :: 0xBF :: 0xBD :: rest) = _
  simp only [validFrom, front]

theorem valid_toValidFrom (copied : Nat) (value : List UInt8) :
    validFrom copied (toValidFrom copied value) = true := by
  induction value generalizing copied with
  | nil => cases copied <;> rfl
  | cons byte rest ih =>
    cases copied with
    | succ copied => exact ih copied
    | zero =>
      unfold toValidFrom
      split
      · rename_i count front
        have long : count ≤ (toValidFrom count rest).length := by
          refine Nat.le_trans ?_ (length_le_toValidFrom count rest)
          unfold following at front
          split at front
          · cases front
          · split at front
            · rename_i complete
              cases front
              exact complete.1
            · cases front
        have again := following_congr front long (take_toValidFrom count rest)
        simp only [validFrom, again]
        exact ih count
      · rw [valid_replacement]
        exact ih 0

theorem valid_toValid (value : List UInt8) : valid (toValid value) = true :=
  valid_toValidFrom 0 value

/-! ### Code points -/

/-- The code point of an encoding: the low bits of the lead byte, then six bits of
each byte after it. -/
def codePoint (lead : UInt8) (more : List UInt8) : Nat :=
  more.foldl (fun value byte => value * 64 + byte.toNat % 64)
    (lead.toNat % 2 ^ (if more = [] then 8 else 6 - more.length))

def runesFrom : Nat → List UInt8 → List Nat
  | _, [] => []
  | skipped + 1, _ :: rest => runesFrom skipped rest
  | 0, byte :: rest =>
    match following byte rest with
    | some count => codePoint byte (rest.take count) :: runesFrom count rest
    | none => 0xFFFD :: runesFrom 0 rest

/-- The code points of a string in order; an ill-formed byte counts as U+FFFD. -/
def runes (value : List UInt8) : List Nat := runesFrom 0 value

/-- A plain string is its code points. -/
theorem runes_of_plain (plain : ∀ byte ∈ value, byte < 0x80) :
    runes value = value.map UInt8.toNat := by
  induction value with
  | nil => rfl
  | cons byte rest ih =>
    have later := ih fun other member => plain other (List.mem_cons_of_mem byte member)
    have front := following_plain (plain byte List.mem_cons_self) rest
    have single : codePoint byte [] = byte.toNat := Nat.mod_eq_of_lt byte.toNat_lt
    simp only [runes, runesFrom, front, List.take_zero, single, List.map_cons]
    exact congrArg (byte.toNat :: ·) later

theorem within_iff {low high byte : UInt8} :
    within low high byte = true ↔ low.toNat ≤ byte.toNat ∧ byte.toNat ≤ high.toNat := by
  simp only [within, Bool.and_eq_true, decide_eq_true_eq, UInt8.le_iff_toNat_le]

/-- The bounds of the second byte exclude the overlong forms. -/
theorem admits_cases {second : UInt8} (admitted : admits lead second = true) :
    (lead.toNat = 0xE0 → 0xA0 ≤ second.toNat ∧ second.toNat ≤ 0xBF) ∧
    (lead.toNat = 0xF0 → 0x90 ≤ second.toNat ∧ second.toNat ≤ 0xBF) := by
  constructor
  · intro same
    have same : lead = 0xE0 := UInt8.toNat_inj.mp same
    rw [same] at admitted
    exact within_iff.mp admitted
  · intro same
    have same : lead = 0xF0 := UInt8.toNat_inj.mp same
    rw [same] at admitted
    exact within_iff.mp admitted

/-- Encodings of each length, from their shortest code point on. -/
theorem plain_of_width (wide : width lead = some count) (long : count ≤ rest.length)
    (complete : completes lead (rest.take count) = true)
    (plain : codePoint lead (rest.take count) < 0x80) : count = 0 ∧ lead < 0x80 := by
  unfold width at wide
  split at wide
  · rename_i small
    cases wide
    exact ⟨rfl, small⟩
  · exfalso
    split at wide
    · rename_i two
      cases wide
      obtain _ | ⟨second, rest⟩ := rest
      · exact absurd long (by simp)
      · have bounds := within_iff.mp two
        change lead.toNat % 32 * 64 + second.toNat % 64 < 128 at plain
        change 0xC2 ≤ lead.toNat ∧ lead.toNat ≤ 0xDF at bounds
        omega
    · split at wide
      · rename_i three
        cases wide
        obtain _ | ⟨second, _ | ⟨third, rest⟩⟩ := rest
        · exact absurd long (by simp)
        · exact absurd long (by simp)
        · have bounds := within_iff.mp three
          have second := (admits_cases (Bool.and_eq_true_iff.mp complete).1).1
          change (lead.toNat % 16 * 64 + _ % 64) * 64 + third.toNat % 64 < 128 at plain
          change 0xE0 ≤ lead.toNat ∧ lead.toNat ≤ 0xEF at bounds
          omega
      · split at wide
        · rename_i four
          cases wide
          obtain _ | ⟨second, _ | ⟨third, _ | ⟨fourth, rest⟩⟩⟩ := rest
          · exact absurd long (by simp)
          · exact absurd long (by simp)
          · exact absurd long (by simp)
          · have bounds := within_iff.mp four
            have second := (admits_cases (Bool.and_eq_true_iff.mp complete).1).2
            change ((lead.toNat % 8 * 64 + _ % 64) * 64 + third.toNat % 64) * 64 +
              fourth.toNat % 64 < 128 at plain
            change 0xF0 ≤ lead.toNat ∧ lead.toNat ≤ 0xF4 at bounds
            omega
        · cases wide

/-- No longer encoding spells a plain character. -/
theorem plain_of_codePoint (front : following lead rest = some count)
    (plain : codePoint lead (rest.take count) < 0x80) : count = 0 ∧ lead < 0x80 := by
  unfold following at front
  split at front
  · cases front
  · rename_i expected wide
    split at front
    · rename_i complete
      cases front
      obtain ⟨long, complete⟩ := complete
      exact plain_of_width wide long complete plain
    · cases front

/-- A string whose code points are plain is plain. -/
theorem plain_of_runes (plain : ∀ rune ∈ runes value, rune < 0x80) :
    ∀ byte ∈ value, byte < 0x80 := by
  induction value with
  | nil => exact nofun
  | cons byte rest ih =>
    unfold runes runesFrom at plain
    cases front : following byte rest with
    | none =>
      rw [front] at plain
      exact absurd (plain 0xFFFD List.mem_cons_self) (by decide)
    | some count =>
      rw [front] at plain
      obtain ⟨rfl, lead⟩ := plain_of_codePoint front (plain _ List.mem_cons_self)
      intro other member
      rcases List.mem_cons.mp member with rfl | later
      · exact lead
      · exact ih (fun rune present => plain rune (List.mem_cons_of_mem _ present)) other later

end Utf8

/-! ## Codecs -/

/-- A partial encoding of the values of `α`; decoding an encoded value yields its
image. -/
structure Codec (α : Type) (encodable : α → Prop) (image : α → α) where
  encode : α → Option (List UInt8)
  decode : List UInt8 → Option α
  encodes : ∀ value, (encode value).isSome ↔ encodable value
  decodes : ∀ {value text}, encode value = some text → decode text = some (image value)

theorem Codec.exists_encode {α : Type} {encodable : α → Prop} {image : α → α}
    (codec : Codec α encodable image) {value : α} (possible : encodable value) :
    ∃ text, codec.encode value = some text :=
  Option.isSome_iff_exists.mp ((codec.encodes value).mpr possible)

theorem Codec.encodable_of_encode {α : Type} {encodable : α → Prop} {image : α → α}
    (codec : Codec α encodable image) {value : α} {text : List UInt8}
    (encoded : codec.encode value = some text) : encodable value :=
  (codec.encodes value).mp (Option.isSome_iff_exists.mpr ⟨text, encoded⟩)

end OutboxFormal.Library
