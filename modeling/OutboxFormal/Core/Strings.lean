import OutboxFormal.Core.Types
import OutboxFormal.Library.Words

/-!
# Functions of the package strings

`TrimSpace`, `Trim` of one character and `Index`, on the bytes of a string. White
space is what `unicode.IsSpace` accepts; an ill-formed byte is none of it.
-/

namespace OutboxFormal

open Library

/-- The encodings of the characters `unicode.IsSpace` accepts. -/
def spaces : List Bytes :=
  [[0x09], [0x0A], [0x0B], [0x0C], [0x0D], [0x20], [0xC2, 0x85], [0xC2, 0xA0],
    [0xE1, 0x9A, 0x80], [0xE2, 0x80, 0x80], [0xE2, 0x80, 0x81], [0xE2, 0x80, 0x82],
    [0xE2, 0x80, 0x83], [0xE2, 0x80, 0x84], [0xE2, 0x80, 0x85], [0xE2, 0x80, 0x86],
    [0xE2, 0x80, 0x87], [0xE2, 0x80, 0x88], [0xE2, 0x80, 0x89], [0xE2, 0x80, 0x8A],
    [0xE2, 0x80, 0xA8], [0xE2, 0x80, 0xA9], [0xE2, 0x80, 0xAF], [0xE2, 0x81, 0x9F],
    [0xE3, 0x80, 0x80]]

/-- `strings.TrimSpace`. -/
def trimSpace (text : Bytes) : Bytes := Words.trim spaces text

/-- `strings.Trim` of one ASCII character. -/
def trimByte (cut : UInt8) (text : Bytes) : Bytes :=
  (((text.dropWhile (· == cut)).reverse).dropWhile (· == cut)).reverse

/-- `strings.Index`. -/
def index (needle : Bytes) : Bytes → Option Nat
  | [] => if needle.isPrefixOf [] then some 0 else none
  | byte :: rest =>
    if needle.isPrefixOf (byte :: rest) then some 0 else (index needle rest).map (· + 1)

/-- The text without its white space. -/
def visible (text : Bytes) : Bytes := Words.remove spaces text

/-! ## White space -/

theorem code_spaces : Words.Code spaces where
  nonempty := by decide
  apart := by decide +kernel
  leads := by decide +kernel

theorem solid_of_ascii {byte : UInt8} (low : 0x20 < byte) (high : byte < 0x80) :
    Words.Solid spaces byte := by
  have plain : ∀ word ∈ spaces, ∀ other ∈ word, other ≤ 0x20 ∨ 0x80 ≤ other := by decide +kernel
  intro word member inside
  rcases plain word member byte inside with small | large
  · exact absurd small (UInt8.not_le.mpr low)
  · exact absurd large (UInt8.not_le.mpr high)

/-- No white space begins or ends with printable ASCII. -/
theorem trimSpace_eq_self {first last : UInt8} {text : Bytes}
    (solidFirst : Words.Solid spaces first) (solidLast : Words.Solid spaces last)
    (begins : text.head? = some first) (ends : text.getLast? = some last) :
    trimSpace text = text := by
  apply Words.trim_eq_self
  · obtain ⟨rest, rfl⟩ : ∃ rest, text = first :: rest := by
      cases text with
      | nil => cases begins
      | cons byte rest => exact ⟨rest, by rw [Option.some.inj begins]⟩
    exact Words.not_prefix_solid solidFirst code_spaces.nonempty
  · rintro word member ⟨front, rfl⟩
    cases word using List.reverseRecOn with
    | nil => exact code_spaces.nonempty member
    | append_singleton others byte =>
      rw [← List.append_assoc, List.getLast?_concat] at ends
      have inside : last ∈ others ++ [byte] := by
        rw [← Option.some.inj ends]
        exact List.mem_append_right _ List.mem_cons_self
      exact solidLast _ member inside

theorem visible_trimSpace (text : Bytes) : visible (trimSpace text) = visible text :=
  Words.remove_trim code_spaces text

theorem separate_lineFeed (rest : Bytes) : Words.Separate spaces (0x0A :: rest) := by
  have inner : ∀ word ∈ spaces, ∀ byte ∈ word.tail, some (0x0A : UInt8) ≠ some byte := by
    decide +kernel
  exact inner

theorem visible_lineFeed (front rest : Bytes) :
    visible (front ++ 0x0A :: rest) = visible front ++ visible rest := by
  have gone : visible (0x0A :: rest) = visible rest :=
    Words.remove_word code_spaces (by decide : [0x0A] ∈ spaces) rest
  rw [← gone]
  exact Words.remove_append (separate_lineFeed rest)

end OutboxFormal
