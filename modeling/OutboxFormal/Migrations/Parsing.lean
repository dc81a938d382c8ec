import OutboxFormal.Migrations.Files

/-!
# Parsing of migration text

The markers are searched for independently, so the first DOWN marker may stand
before the first UP marker; exactly then the UP section is a slice with its end
before its start. Splitting a section into statements loses and repeats nothing
but white space, whatever the lines are.
-/

namespace OutboxFormal.Migrations

open Library

/-! ## Markers -/

theorem prefix_of_index {needle text : Bytes} {position : Nat}
    (found : index needle text = some position) : needle <+: text.drop position := by
  induction text generalizing position with
  | nil =>
    unfold index at found
    split at found
    · rename_i empty
      cases found
      exact List.isPrefixOf_iff_prefix.mp empty
    · cases found
  | cons byte rest ih =>
    unfold index at found
    split at found
    · rename_i front
      cases found
      exact List.isPrefixOf_iff_prefix.mp front
    · obtain ⟨later, located, rfl⟩ := Option.map_eq_some_iff.mp found
      exact ih located

theorem not_prefix_inside {offset : Nat} (inside : offset < upMarker.length) (rest : Bytes) :
    ¬ downMarker <+: (upMarker ++ rest).drop offset := by
  have short : offset < 10 := inside
  intro front
  have first : ((upMarker ++ rest).drop offset)[0]? = some 0x2D ∧
      ((upMarker ++ rest).drop offset)[1]? = some 0x2D ∧
      ((upMarker ++ rest).drop offset)[8]? = some 0x44 := by
    obtain ⟨more, same⟩ := front
    rw [← same]
    exact ⟨rfl, rfl, rfl⟩
  obtain ⟨zeroth, second, eighth⟩ := first
  rw [List.getElem?_drop] at zeroth second eighth
  rw [List.getElem?_append_left (by simpa using inside)] at zeroth
  have marker : ∀ offset < 10, upMarker[offset + 0]? = some 0x2D → offset = 0 ∨ offset = 1 := by
    decide +kernel
  rcases marker offset short zeroth with rfl | rfl
  · rw [List.getElem?_append_left (by decide)] at eighth
    exact absurd eighth (by decide)
  · rw [List.getElem?_append_left (by decide)] at second
    exact absurd second (by decide)

/-- The first DOWN marker stands before the first UP marker. -/
def Misplaced (content : Bytes) : Prop :=
  ∃ upIdx downIdx, index upMarker content = some upIdx ∧
    index downMarker content = some downIdx ∧ downIdx < upIdx

/-- A slice ends before it starts exactly if the markers are misplaced. -/
theorem parseMigration_panics_iff (name : Bytes) (version : Int) (content : Bytes) :
    parseMigration name version content = .error slicePanic ↔ Misplaced content := by
  have refuses : ∀ up down, parseMigration.accept name version up down ≠ .error slicePanic := by
    intro up down
    unfold parseMigration.accept
    split
    · decide
    · exact nofun
  constructor
  · intro panics
    unfold parseMigration at panics
    cases up : index upMarker content with
    | none =>
      rw [up] at panics
      exact absurd (Except.error.inj panics) (by decide)
    | some upIdx =>
      cases down : index downMarker content with
      | none =>
        rw [up, down] at panics
        exact absurd panics (refuses _ _)
      | some downIdx =>
        rw [up, down] at panics
        dsimp only at panics
        split at panics
        · rename_i early
          refine ⟨upIdx, downIdx, up, down, ?_⟩
          by_contra late
          obtain ⟨offset, rfl⟩ := Nat.exists_eq_add_of_le (Nat.not_lt.mp late)
          obtain ⟨rest, behind⟩ := prefix_of_index up
          have front := prefix_of_index down
          rw [← List.drop_drop, ← behind] at front
          exact not_prefix_inside (by omega) rest front
        · exact absurd panics (refuses _ _)
  · rintro ⟨upIdx, downIdx, up, down, early⟩
    simp only [parseMigration, up, down]
    rw [if_pos (by omega)]

/-! ## Statements -/

theorem visible_dropCR (line : Bytes) : visible (dropCR line) = visible line := by
  unfold dropCR
  split
  · rename_i last
    obtain ⟨front, rfl⟩ : ∃ front, line = front ++ [0x0D] := by
      cases line using List.reverseRecOn with
      | nil => cases last
      | append_singleton front byte =>
        rw [List.getLast?_concat] at last
        exact ⟨front, by rw [Option.some.inj last]⟩
    have separate : Words.Separate spaces ([0x0D] : Bytes) := by
      have inner : ∀ word ∈ spaces, ∀ byte ∈ word.tail, some (0x0D : UInt8) ≠ some byte := by
        decide +kernel
      exact inner
    have gone : visible [0x0D] = [] := by decide
    rw [List.dropLast_concat]
    unfold visible at gone ⊢
    rw [Words.remove_append separate, gone, List.append_nil]
  · rfl

theorem visible_intercalate (lines : List Bytes) :
    visible ([0x0A].intercalate lines) = (lines.map visible).flatten := by
  induction lines with
  | nil => rfl
  | cons line rest ih =>
    cases rest with
    | nil => simp [List.intercalate]
    | cons second others =>
      rw [List.intercalate_cons_cons, List.append_assoc, List.singleton_append,
        visible_lineFeed, ih]
      rfl

theorem visible_scanLines (sql : Bytes) :
    ((scanLines sql).map visible).flatten = visible sql := by
  have lines : ((sql.splitOn 0x0A).map visible).flatten = visible sql := by
    rw [← visible_intercalate, List.intercalate_splitOn]
  unfold scanLines
  dsimp only
  split
  · rename_i last
    cases split : sql.splitOn 0x0A using List.reverseRecOn with
    | nil =>
      rw [split] at last
      cases last
    | append_singleton front line =>
      rw [split, List.getLast?_concat] at last
      rw [split, Option.some.inj last] at lines
      rw [List.dropLast_concat, ← lines, List.map_append, List.flatten_append]
      exact (List.append_nil _).symm
  · exact lines

/-- The text of lines, each with its line feed. -/
def terminated (lines : List Bytes) : Bytes := (lines.map (· ++ [0x0A])).flatten

theorem terminated_concat (block : List Bytes) (line : Bytes) :
    terminated (block ++ [line]) = terminated block ++ line ++ [0x0A] := by
  simp [terminated]

theorem visible_terminated (lines : List Bytes) :
    visible (terminated lines) = (lines.map visible).flatten := by
  induction lines with
  | nil => rfl
  | cons line rest ih =>
    have split : terminated (line :: rest) = line ++ 0x0A :: terminated rest := by
      simp [terminated]
    rw [split, visible_lineFeed, ih]
    rfl

theorem semicolon_last {line : Bytes} (ends : (trimSpace line).getLast? = some 0x3B)
    (front : Bytes) : (trimSpace (front ++ line ++ [0x0A])).getLast? = some 0x3B := by
  obtain ⟨before, after, beforeSpaces, afterSpaces, same⟩ :=
    Words.trim_spec code_spaces.nonempty line
  change line = before.flatten ++ trimSpace line ++ after.flatten at same
  obtain ⟨body, last⟩ := List.getLast?_eq_some_iff.mp ends
  have shape : front ++ line ++ [0x0A] =
      (front ++ before.flatten ++ body) ++ 0x3B :: (after ++ [[0x0A]]).flatten := by
    rw [same, last]
    simp
  have blank : ∀ word ∈ after ++ [[0x0A]], word ∈ spaces := by
    intro word member
    rcases List.mem_append.mp member with inside | feed
    · exact afterSpaces word inside
    · rw [List.mem_singleton.mp feed]
      decide
  have solid : Words.Solid spaces 0x3B := solid_of_ascii (by decide) (by decide)
  obtain ⟨kept, trimmed⟩ :=
    Words.trim_solid code_spaces solid (front ++ before.flatten ++ body) blank
  rw [shape]
  unfold trimSpace
  rw [trimmed, List.getLast?_concat]

/-- A statement that was ended by a semicolon: it is the trimmed text of consecutive
lines, and the last of them ends with the semicolon. -/
def Ended (lines : List Bytes) (statement : Bytes) : Prop :=
  ∃ earlier block line later, lines = earlier ++ (block ++ line :: later) ∧
    statement = trimSpace (terminated (block ++ [line])) ∧
    (trimSpace line).getLast? = some 0x3B ∧ statement.getLast? = some 0x3B

theorem Ended.append {lines : List Bytes} {statement : Bytes} (ended : Ended lines statement)
    (front : List Bytes) : Ended (front ++ lines) statement := by
  obtain ⟨earlier, block, line, later, rfl, rest⟩ := ended
  exact ⟨front ++ earlier, block, line, later, by rw [List.append_assoc], rest⟩

/-- The statements of lines hold every visible byte of them once, in order. -/
structure Lossless (lines : List Bytes) (statements : List Bytes) : Prop where
  nonempty : ∀ statement ∈ statements, statement ≠ []
  visible : (statements.map visible).flatten = (lines.map visible).flatten
  ended : ∀ statement ∈ statements.dropLast, Ended lines statement

theorem Lossless.cons {block rest : List Bytes} {line : Bytes} {statements : List Bytes}
    (ends : (trimSpace line).getLast? = some 0x3B) (lossless : Lossless rest statements) :
    Lossless (block ++ line :: rest)
      (trimSpace (terminated (block ++ [line])) :: statements) := by
  have last : (trimSpace (terminated (block ++ [line]))).getLast? = some 0x3B := by
    rw [terminated_concat]
    exact semicolon_last ends _
  constructor
  · intro statement member
    rcases List.mem_cons.mp member with rfl | later
    · intro empty
      rw [empty] at last
      cases last
    · exact lossless.nonempty statement later
  · rw [List.map_cons, List.flatten_cons, lossless.visible, visible_trimSpace, visible_terminated]
    simp
  · intro statement member
    cases statements with
    | nil => cases member
    | cons second others =>
      rw [List.dropLast_cons_of_ne_nil (List.cons_ne_nil _ _)] at member
      rcases List.mem_cons.mp member with rfl | later
      · exact ⟨[], block, line, rest, rfl, rfl, ends, last⟩
      · have ended := (lossless.ended statement later).append (block ++ [line])
        rwa [List.append_assoc] at ended

theorem lossless_collectStatements (block lines : List Bytes) :
    Lossless (block ++ lines) (collectStatements (terminated block) lines) := by
  induction lines generalizing block with
  | nil =>
    have kept : visible (trimSpace (terminated block)) = (block.map visible).flatten := by
      rw [visible_trimSpace, visible_terminated]
    unfold collectStatements
    split
    · rename_i empty
      rw [empty] at kept
      constructor
      · exact nofun
      · rw [List.append_nil, ← kept]
        rfl
      · exact nofun
    · rename_i nonempty
      constructor
      · intro statement member
        rwa [List.mem_singleton.mp member]
      · rw [List.append_nil, ← kept]
        exact List.append_nil _
      · exact nofun
  | cons line rest ih =>
    unfold collectStatements
    dsimp only
    rw [← terminated_concat]
    split
    · rename_i ends
      have filled : trimSpace (terminated (block ++ [line])) ≠ [] := by
        have last := semicolon_last ends (terminated block)
        rw [← terminated_concat] at last
        intro empty
        rw [empty] at last
        cases last
      rw [if_neg filled]
      exact Lossless.cons ends (ih [])
    · have longer := ih (block ++ [line])
      rwa [List.append_assoc] at longer

/-! ## Migration text -/

/-- Parsing a file runs a slice out of bounds exactly if its first DOWN marker stands
before its first UP marker. A section with lines within the scanner's limit is split
into statements that hold each of its visible bytes once and in order; every
statement but the last ends with a semicolon that ends a line. -/
theorem migration_text_parsed (name : Bytes) (version : Int) (content sql : Bytes) :
    (parseMigration name version content = .error slicePanic ↔ Misplaced content) ∧
    ((∀ line ∈ scanLines sql, line.length < maxScanTokenSize) →
      ∃ statements, splitStatements sql = .ok statements ∧
        (∀ statement ∈ statements, statement ≠ []) ∧
        (statements.map visible).flatten = visible sql ∧
        ∀ statement ∈ statements.dropLast, Ended ((scanLines sql).map dropCR) statement) := by
  refine ⟨parseMigration_panics_iff name version content, fun within => ?_⟩
  have short : ¬ (scanLines sql).any fun line => maxScanTokenSize ≤ line.length := by
    intro long
    obtain ⟨line, member, large⟩ := List.any_eq_true.mp long
    exact absurd (of_decide_eq_true large) (Nat.not_le.mpr (within line member))
  have lossless := lossless_collectStatements [] ((scanLines sql).map dropCR)
  refine ⟨_, if_neg short, lossless.nonempty, ?_, lossless.ended⟩
  calc ((collectStatements [] ((scanLines sql).map dropCR)).map visible).flatten
      = (((scanLines sql).map dropCR).map visible).flatten := lossless.visible
    _ = ((scanLines sql).map visible).flatten := by
        rw [List.map_map]
        congr 1
        exact List.map_congr_left fun line _ => visible_dropCR line
    _ = visible sql := visible_scanLines sql

namespace Sample

def misplaced : Bytes := bytes "-- pico.DOWN\nDROP TABLE t;\n-- pico.UP\nCREATE TABLE t;\n"

def unended : Bytes := bytes "CREATE TABLE t (\n  id INTEGER);\r\n\nDROP TABLE t"

end Sample

/-- A file whose sections stand in the other order panics. -/
theorem misplaced_markers_panic :
    parseMigration (bytes "1_t.sql") 1 Sample.misplaced = .error slicePanic := by
  decide +kernel

/-- A misplaced file, and a section whose last statement has no semicolon. -/
theorem migration_text_two_statements :
    Misplaced Sample.misplaced ∧
    ∃ statements, splitStatements Sample.unended = .ok statements ∧
      (statements.map visible).flatten = visible Sample.unended := by
  obtain ⟨markers, split⟩ :=
    migration_text_parsed (bytes "1_t.sql") 1 Sample.misplaced Sample.unended
  have within : ∀ line ∈ scanLines Sample.unended, line.length < maxScanTokenSize := by
    decide +kernel
  obtain ⟨statements, done, _, lossless, _⟩ := split within
  exact ⟨markers.mp (by decide +kernel), statements, done, lossless⟩

end OutboxFormal.Migrations
