import Mathlib.Data.List.Infix

/-!
# Trimming words

Text that is trimmed of white space is trimmed of words, since a character may
take several letters. Words that are no prefix of each other are dropped from the
front in the only way there is; if the first letter of a word occurs nowhere else
in a word, the same holds from the end, and a text falls apart between any letter
and such a first letter.
-/

namespace OutboxFormal.Library.Words

variable {α : Type}

/-! ## Codes -/

/-- No word is a prefix of another one. -/
def Apart (words : List (List α)) : Prop :=
  ∀ first ∈ words, ∀ second ∈ words, first <+: second → first = second

/-- Words that are apart and not empty, and whose first letters occur nowhere else. -/
structure Code (words : List (List α)) : Prop where
  nonempty : [] ∉ words
  apart : Apart words
  leads : ∀ first ∈ words, ∀ second ∈ words, ∀ letter ∈ second.tail, first.head? ≠ some letter

/-- A letter of no word. -/
def Solid (words : List (List α)) (letter : α) : Prop := ∀ word ∈ words, letter ∉ word

/-- The words read backwards. -/
theorem Code.apart_reverse {words : List (List α)} (code : Code words) :
    Apart (words.map List.reverse) := by
  intro first member second member' front
  obtain ⟨word, hword, rfl⟩ := List.mem_map.mp member
  obtain ⟨other, hother, rfl⟩ := List.mem_map.mp member'
  obtain ⟨before, same⟩ : word <:+ other := List.reverse_prefix.mp front
  cases before with
  | nil => rw [← same, List.nil_append]
  | cons letter rest =>
    cases word with
    | nil => exact absurd hword code.nonempty
    | cons first tail =>
      have inner : first ∈ other.tail := by
        rw [← same, List.cons_append, List.tail_cons]
        exact List.mem_append_right _ List.mem_cons_self
      exact absurd rfl (code.leads _ hword _ hother first inner)

theorem Solid.reverse {words : List (List α)} {letter : α} (solid : Solid words letter) :
    Solid (words.map List.reverse) letter := by
  intro word member inside
  obtain ⟨other, hother, rfl⟩ := List.mem_map.mp member
  exact solid other hother (List.mem_reverse.mp inside)

theorem not_prefix_solid {words : List (List α)} {letter : α} (solid : Solid words letter)
    (nonempty : [] ∉ words) {rest : List α} : ∀ word ∈ words, ¬ word <+: letter :: rest := by
  rintro word member ⟨more, same⟩
  cases word with
  | nil => exact nonempty member
  | cons first others =>
    obtain ⟨rfl, -⟩ := List.cons.inj same
    exact solid _ member List.mem_cons_self

theorem length_le_flatten {texts : List (List α)} (nonempty : [] ∉ texts) :
    texts.length ≤ texts.flatten.length := by
  induction texts with
  | nil => exact Nat.le_refl 0
  | cons text rest ih =>
    have first : 0 < text.length := List.length_pos_iff.mpr fun empty =>
      nonempty (empty ▸ List.mem_cons_self)
    have others := ih fun member => nonempty (List.mem_cons_of_mem _ member)
    rw [List.length_cons, List.flatten_cons, List.length_append]
    omega

/-- No word begins in the first part and ends in the second. -/
def Separate (words : List (List α)) (rest : List α) : Prop :=
  ∀ word ∈ words, ∀ letter ∈ word.tail, rest.head? ≠ some letter

/-- Words begin where no other word is left. -/
theorem Code.separate {words : List (List α)} (code : Code words) {back : List (List α)}
    (members : ∀ word ∈ back, word ∈ words) (rest : List α) (behind : Separate words rest) :
    Separate words (back.flatten ++ rest) := by
  cases back with
  | nil => exact behind
  | cons word others =>
    intro other member letter inside begins
    cases word with
    | nil => exact code.nonempty (members [] List.mem_cons_self)
    | cons first tail =>
      exact code.leads _ (members _ List.mem_cons_self) other member letter inside begins

/-! ## Trimming and removing -/

variable [DecidableEq α]

instance (words : List (List α)) : Decidable (Apart words) :=
  inferInstanceAs (Decidable (∀ first ∈ words, ∀ second ∈ words, first <+: second → first = second))

/-- Drop leading words; every round drops one. -/
def dropWords (words : List (List α)) : Nat → List α → List α
  | 0, text => text
  | rounds + 1, text =>
    match words.find? fun word => word.isPrefixOf text with
    | some word => dropWords words rounds (text.drop word.length)
    | none => text

/-- Drop the words at both ends. -/
def trim (words : List (List α)) (text : List α) : List α :=
  let left := dropWords words text.length text
  (dropWords (words.map List.reverse) left.length left.reverse).reverse

/-- Leave out all words; `skipped` letters of the current one are still to be left
out. -/
def removeFrom (words : List (List α)) : Nat → List α → List α
  | _, [] => []
  | skipped + 1, _ :: rest => removeFrom words skipped rest
  | 0, letter :: rest =>
    match words.find? fun word => word.isPrefixOf (letter :: rest) with
    | some word => removeFrom words (word.length - 1) rest
    | none => letter :: removeFrom words 0 rest

/-- The text without its words. -/
def remove (words : List (List α)) (text : List α) : List α := removeFrom words 0 text

/-! ## Dropping words -/

section Dropping

variable {words : List (List α)}

/-- The word at the front is the one that is found. -/
theorem find?_leading (apart : Apart words) {word : List α} (member : word ∈ words)
    (rest : List α) :
    words.find? (fun other => other.isPrefixOf (word ++ rest)) = some word := by
  cases found : words.find? (fun other => other.isPrefixOf (word ++ rest)) with
  | none =>
    have absent := List.find?_eq_none.mp found word member
    exact absurd (List.isPrefixOf_iff_prefix.mpr (List.prefix_append word rest)) absent
  | some other =>
    have matched := List.find?_some found
    have front : other <+: word ++ rest := List.isPrefixOf_iff_prefix.mp matched
    have here := List.mem_of_find?_eq_some found
    rcases List.prefix_or_prefix_of_prefix front (List.prefix_append word rest) with
      shorter | longer
    · rw [apart other here word member shorter]
    · rw [apart word member other here longer]

theorem find?_eq_none {text : List α} (stopped : ∀ word ∈ words, ¬ word <+: text) :
    words.find? (fun word => word.isPrefixOf text) = none := by
  rw [List.find?_eq_none]
  intro word member front
  exact stopped word member (List.isPrefixOf_iff_prefix.mp front)

theorem dropWords_unstarted {text : List α} (stopped : ∀ word ∈ words, ¬ word <+: text)
    (rounds : Nat) : dropWords words rounds text = text := by
  cases rounds with
  | zero => rfl
  | succ rounds => rw [dropWords, find?_eq_none stopped]

/-- Words at the front are dropped one by one. -/
theorem dropWords_flatten (apart : Apart words) {front : List (List α)}
    (members : ∀ word ∈ front, word ∈ words) (rounds : Nat) (rest : List α) :
    dropWords words (rounds + front.length) (front.flatten ++ rest) =
      dropWords words rounds rest := by
  induction front with
  | nil => rfl
  | cons word others ih =>
    rw [List.length_cons, ← Nat.add_assoc, List.flatten_cons, List.append_assoc, dropWords,
      find?_leading apart (members word List.mem_cons_self)]
    dsimp only
    rw [List.drop_left]
    exact ih fun other member => members other (List.mem_cons_of_mem _ member)

/-- What is dropped are words, and enough rounds leave none at the front. -/
theorem dropWords_spec (nonempty : [] ∉ words) (rounds : Nat) (text : List α) :
    (∃ front : List (List α), (∀ word ∈ front, word ∈ words) ∧
      text = front.flatten ++ dropWords words rounds text) ∧
    (text.length ≤ rounds → ∀ word ∈ words, ¬ word <+: dropWords words rounds text) := by
  induction rounds generalizing text with
  | zero =>
    refine ⟨⟨[], nofun, rfl⟩, fun short word member front => ?_⟩
    rw [List.length_eq_zero_iff.mp (Nat.le_zero.mp short)] at front
    exact nonempty (List.prefix_nil.mp front ▸ member)
  | succ rounds ih =>
    unfold dropWords
    cases found : words.find? (fun word => word.isPrefixOf text) with
    | none =>
      refine ⟨⟨[], nofun, rfl⟩, fun _ word member front => ?_⟩
      have absent := List.find?_eq_none.mp found word member
      exact absent (List.isPrefixOf_iff_prefix.mpr front)
    | some word =>
      have member := List.mem_of_find?_eq_some found
      have matched := List.find?_some found
      obtain ⟨rest, same⟩ : word <+: text := List.isPrefixOf_iff_prefix.mp matched
      obtain ⟨⟨front, members, split⟩, stops⟩ := ih (text.drop word.length)
      have behind : text.drop word.length = rest := by rw [← same, List.drop_left]
      refine ⟨⟨word :: front, ?_, ?_⟩, fun short => stops ?_⟩
      · intro other present
        rcases List.mem_cons.mp present with rfl | present
        · exact member
        · exact members other present
      · rw [List.flatten_cons, List.append_assoc, ← split, behind]
        exact same.symm
      · have long : 0 < word.length := List.length_pos_iff.mpr fun empty =>
          nonempty (empty ▸ member)
        rw [List.length_drop]
        omega

/-- No word goes past a solid letter. -/
theorem dropWords_solid {letter : α} (solid : Solid words letter) (nonempty : [] ∉ words)
    (rounds : Nat) (front rest : List α) :
    ∃ kept, dropWords words rounds (front ++ letter :: rest) = kept ++ letter :: rest := by
  obtain ⟨⟨dropped, members, same⟩, -⟩ :=
    dropWords_spec nonempty rounds (front ++ letter :: rest)
  have absent : letter ∉ dropped.flatten := by
    intro present
    obtain ⟨word, member, inside⟩ := List.mem_flatten.mp present
    exact solid word (members word member) inside
  obtain ⟨more, split, stays⟩ | ⟨more, -, stays⟩ := List.append_eq_append_iff.mp same
  · cases more with
    | nil => exact ⟨[], stays.symm⟩
    | cons first others =>
      obtain ⟨rfl, -⟩ := List.cons.inj stays
      rw [split] at absent
      exact absurd (List.mem_append_right _ List.mem_cons_self) absent
  · exact ⟨more, stays⟩

/-- A text with no word at either end stays as it is. -/
theorem trim_eq_self {text : List α} (front : ∀ word ∈ words, ¬ word <+: text)
    (back : ∀ word ∈ words, ¬ word <:+ text) : trim words text = text := by
  have reversed : ∀ word ∈ words.map List.reverse, ¬ word <+: text.reverse := by
    intro word member starts
    obtain ⟨other, present, rfl⟩ := List.mem_map.mp member
    exact back other present (List.reverse_prefix.mp starts)
  unfold trim
  dsimp only
  rw [dropWords_unstarted front, dropWords_unstarted reversed, List.reverse_reverse]

/-- What is trimmed are words. -/
theorem trim_spec (nonempty : [] ∉ words) (text : List α) :
    ∃ front back : List (List α), (∀ word ∈ front, word ∈ words) ∧ (∀ word ∈ back, word ∈ words) ∧
      text = front.flatten ++ trim words text ++ back.flatten := by
  have nonempty' : [] ∉ words.map List.reverse := by
    intro member
    obtain ⟨word, present, empty⟩ := List.mem_map.mp member
    exact nonempty (List.reverse_eq_nil_iff.mp empty ▸ present)
  obtain ⟨⟨front, members, left⟩, -⟩ := dropWords_spec nonempty text.length text
  obtain ⟨⟨back, members', right⟩, -⟩ := dropWords_spec nonempty'
    (dropWords words text.length text).length (dropWords words text.length text).reverse
  refine ⟨front, (back.map List.reverse).reverse, members, ?_, ?_⟩
  · intro word member
    obtain ⟨other, present, rfl⟩ := List.mem_map.mp (List.mem_reverse.mp member)
    obtain ⟨original, here, rfl⟩ := List.mem_map.mp (members' other present)
    rwa [List.reverse_reverse]
  · have right := congrArg List.reverse right
    rw [List.reverse_reverse, List.reverse_append, List.reverse_flatten] at right
    rw [List.append_assoc, trim, ← right]
    exact left

/-- Words behind a solid letter are trimmed, and nothing else at the end. -/
theorem trim_solid (code : Code words) {letter : α} (solid : Solid words letter)
    (front : List α) {back : List (List α)} (members : ∀ word ∈ back, word ∈ words) :
    ∃ kept, trim words (front ++ letter :: back.flatten) = kept ++ [letter] := by
  obtain ⟨kept, left⟩ := dropWords_solid solid code.nonempty
    (front ++ letter :: back.flatten).length front back.flatten
  refine ⟨kept, ?_⟩
  have nonempty : [] ∉ words.map List.reverse := by
    intro member
    obtain ⟨word, present, empty⟩ := List.mem_map.mp member
    exact code.nonempty (List.reverse_eq_nil_iff.mp empty ▸ present)
  have members' : ∀ word ∈ (back.map List.reverse).reverse, word ∈ words.map List.reverse := by
    intro word member
    obtain ⟨other, present, rfl⟩ := List.mem_map.mp (List.mem_reverse.mp member)
    exact List.mem_map_of_mem (members other present)
  have enough : (back.map List.reverse).reverse.length ≤
      (kept ++ letter :: back.flatten).length := by
    have few := length_le_flatten fun member => code.nonempty (members [] member)
    simp only [List.length_reverse, List.length_map, List.length_append, List.length_cons]
    omega
  have behind : (kept ++ letter :: back.flatten).reverse =
      (back.map List.reverse).reverse.flatten ++ letter :: kept.reverse := by
    simp [List.reverse_flatten]
  unfold trim
  dsimp only
  rw [left, behind, ← Nat.sub_add_cancel enough,
    dropWords_flatten code.apart_reverse members',
    dropWords_unstarted (not_prefix_solid solid.reverse nonempty), List.reverse_cons,
    List.reverse_reverse]

end Dropping

/-! ## Removing words -/

section Removing

variable {words : List (List α)}

/-- Letters that are still to be left out. -/
theorem removeFrom_append (front rest : List α) :
    removeFrom words front.length (front ++ rest) = removeFrom words 0 rest := by
  induction front with
  | nil => rfl
  | cons letter others ih => exact ih

/-- A word at the front is left out. -/
theorem remove_word (code : Code words) {word : List α} (member : word ∈ words)
    (rest : List α) : remove words (word ++ rest) = remove words rest := by
  cases word with
  | nil => exact absurd member code.nonempty
  | cons letter others =>
    have found := find?_leading code.apart member rest
    rw [List.cons_append] at found
    rw [remove, List.cons_append, removeFrom, found]
    exact removeFrom_append others rest

theorem remove_flatten (code : Code words) {front : List (List α)}
    (members : ∀ word ∈ front, word ∈ words) (rest : List α) :
    remove words (front.flatten ++ rest) = remove words rest := by
  induction front with
  | nil => rfl
  | cons word others ih =>
    rw [List.flatten_cons, List.append_assoc,
      remove_word code (members word List.mem_cons_self)]
    exact ih fun other member => members other (List.mem_cons_of_mem _ member)

/-- A text falls apart before a letter that is not inside a word. -/
theorem removeFrom_separate {rest : List α} (separate : Separate words rest)
    (skipped : Nat) (front : List α) (within : skipped ≤ front.length) :
    removeFrom words skipped (front ++ rest) =
      removeFrom words skipped front ++ remove words rest := by
  induction front generalizing skipped with
  | nil =>
    obtain rfl : skipped = 0 := Nat.le_zero.mp within
    rfl
  | cons letter others ih =>
    cases skipped with
    | succ skipped => exact ih skipped (Nat.le_of_succ_le_succ within)
    | zero =>
      -- A longer match would have a letter of the rest inside a word.
      have same : ∀ word ∈ words, word.isPrefixOf (letter :: others ++ rest) =
          word.isPrefixOf (letter :: others) := by
        intro word member
        rw [Bool.eq_iff_iff, List.isPrefixOf_iff_prefix, List.isPrefixOf_iff_prefix]
        constructor
        · intro front
          rcases List.prefix_or_prefix_of_prefix front
            (List.prefix_append (letter :: others) rest) with within | ⟨more, rfl⟩
          · exact within
          · cases more with
            | nil => rw [List.append_nil]
            | cons first tail =>
              obtain ⟨behind, here⟩ := (List.prefix_append_right_inj _).mp front
              have inside : first ∈ (letter :: others ++ first :: tail).tail :=
                List.mem_append_right _ List.mem_cons_self
              exact absurd (by rw [← here]; rfl) (separate _ member first inside)
        · exact fun front => front.trans (List.prefix_append _ _)
      have found : words.find? (fun word => word.isPrefixOf (letter :: others ++ rest)) =
          words.find? (fun word => word.isPrefixOf (letter :: others)) := by
        rw [← List.head?_filter, ← List.head?_filter, List.filter_congr same]
      rw [List.cons_append] at found
      rw [List.cons_append, removeFrom, removeFrom, found]
      cases matched : words.find? (fun word => word.isPrefixOf (letter :: others)) with
      | none => exact congrArg (letter :: ·) (ih 0 (Nat.zero_le _))
      | some word =>
        have front := List.find?_some matched
        have short := (List.isPrefixOf_iff_prefix.mp front).length_le
        apply ih
        rw [List.length_cons] at short
        omega

theorem remove_append {front rest : List α} (separate : Separate words rest) :
    remove words (front ++ rest) = remove words front ++ remove words rest :=
  removeFrom_separate separate 0 front (Nat.zero_le _)

/-- Trimming takes away words only. -/
theorem remove_trim (code : Code words) (text : List α) :
    remove words (trim words text) = remove words text := by
  obtain ⟨front, back, members, members', split⟩ := trim_spec code.nonempty text
  have separate : Separate words back.flatten := by
    rw [← List.append_nil back.flatten]
    exact code.separate members' [] fun _ _ _ _ => nofun
  have none : remove words back.flatten = [] := by
    have gone := remove_flatten code members' []
    rw [List.append_nil] at gone
    exact gone
  calc remove words (trim words text)
      = remove words (trim words text) ++ remove words back.flatten := by
        rw [none, List.append_nil]
    _ = remove words (trim words text ++ back.flatten) := (remove_append separate).symm
    _ = remove words (front.flatten ++ (trim words text ++ back.flatten)) :=
        (remove_flatten code members _).symm
    _ = remove words text := by rw [← List.append_assoc, ← split]

end Removing

end OutboxFormal.Library.Words
