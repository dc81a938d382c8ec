import OutboxFormal.Core.Strings
import OutboxFormal.Library.Utf8

/-!
# Quoted table names

`ValidateAndQuoteTableName` of the three backends that quote table names
themselves. SQLite and MySQL admit a schema in front of the table and differ in
the quote and the limit; Picodata takes a single identifier. `%q` of a name is
printed between plain quotes.
-/

namespace OutboxFormal.Storage

open Library

variable {limit : Nat} {quote : UInt8} {name : Bytes}

variable {backend : String} {trimmed out : Bytes} {byte : UInt8} {parts : List Bytes}

/-! ## Validation -/

def startsName (rune : Nat) : Bool :=
  (decide (0x61 ≤ rune) && decide (rune ≤ 0x7A)) ||
    (decide (0x41 ≤ rune) && decide (rune ≤ 0x5A)) || rune == 0x5F

/-- A character a name may go on with. -/
def continuesName (rune : Nat) : Bool :=
  (decide (0x61 ≤ rune) && decide (rune ≤ 0x7A)) ||
    (decide (0x41 ≤ rune) && decide (rune ≤ 0x5A)) ||
    (decide (0x30 ≤ rune) && decide (rune ≤ 0x39)) || rune == 0x5F

/-- The loop over the characters of a name; `index` counts the earlier ones. -/
def checkRunes (backend : String) (trimmed : Bytes) :
    Nat → List Nat → Except OutboxError Unit
  | _, [] => .ok ()
  | 0, rune :: rest =>
    if !startsName rune then
      .error (.text (backend ++ ": invalid table name \"" ++ printed trimmed ++
        "\": must start with a letter or underscore"))
    else checkRunes backend trimmed 1 rest
  | index + 1, rune :: rest =>
    if !continuesName rune then
      .error (.text (backend ++ ": invalid table name \"" ++ printed trimmed ++
        "\": contains invalid character " ++ String.singleton (Char.ofNat rune)))
    else checkRunes backend trimmed (index + 2) rest

def quoted (quote : UInt8) (name : Bytes) : Bytes := quote :: (name ++ [quote])

/-- The parts of a name with a dot between them. -/
def dotted (parts : List Bytes) : Bytes := [0x2E].intercalate parts

def quotePart (backend : String) (quote : UInt8) (limit : Nat) (trimmed part : Bytes) :
    Except OutboxError Bytes :=
  let p := trimByte quote (trimSpace part)
  if p = [] then
    .error (.text (backend ++ ": invalid table name \"" ++ printed trimmed ++ "\": empty part"))
  else if limit < p.length then
    .error (.text (backend ++ ": table identifier part \"" ++ printed p ++
      s!"\" exceeds {limit} characters"))
  else (checkRunes backend trimmed 0 (Utf8.runes p)).map fun _ => quoted quote p

def quoteParts (backend : String) (quote : UInt8) (limit : Nat) (trimmed : Bytes) :
    List Bytes → Except OutboxError (List Bytes)
  | [] => .ok []
  | part :: rest =>
    match quotePart backend quote limit trimmed part with
    | .error error => .error error
    | .ok quotedPart =>
      (quoteParts backend quote limit trimmed rest).map (quotedPart :: ·)

/-- A table name with an optional schema. -/
def quoteQualified (backend : String) (quote : UInt8) (limit : Nat) (name : Bytes) :
    Except OutboxError Bytes :=
  let trimmed := trimSpace name
  if trimmed = [] then .error (.text (backend ++ ": table name is empty"))
  else
    let parts := trimmed.splitOn 0x2E
    if 2 < parts.length then
      .error (.text (backend ++ ": invalid table name \"" ++ printed trimmed ++
        "\": too many schema parts"))
    else (quoteParts backend quote limit trimmed parts).map dotted

namespace Sqlite

def validateAndQuoteTableName (name : Bytes) : Except OutboxError Bytes :=
  quoteQualified "sqlite" 0x22 1000 name

end Sqlite

namespace Mysql

def validateAndQuoteTableName (name : Bytes) : Except OutboxError Bytes :=
  quoteQualified "mysql" 0x60 64 name

end Mysql

namespace Picodata

def validateAndQuoteTableName (name : Bytes) : Except OutboxError Bytes :=
  let trimmed := trimSpace name
  if trimmed = [] then .error (.text "picodata: table name is empty")
  else
    let p := trimByte 0x22 trimmed
    if p = [] then
      .error (.text ("picodata: invalid table name \"" ++ printed trimmed ++
        "\": empty identifier"))
    else if 64 < p.length then
      .error (.text ("picodata: table identifier \"" ++ printed p ++
        "\" exceeds 64 characters"))
    else (checkRunes "picodata" trimmed 0 (Utf8.runes p)).map fun _ => quoted 0x22 p

end Picodata

/-! ## Names -/

/-- A name of the grammar `[A-Za-z_][A-Za-z0-9_]*` within a limit. -/
structure Identifier (limit : Nat) (name : Bytes) : Prop where
  nonempty : name ≠ []
  short : name.length ≤ limit
  starts : ∀ byte ∈ name.head?, startsName byte.toNat = true
  continues : ∀ byte ∈ name.tail, continuesName byte.toNat = true

theorem continuesName_of_starts {rune : Nat} (starts : startsName rune = true) :
    continuesName rune = true := by
  simp only [startsName, continuesName, Bool.or_eq_true, Bool.and_eq_true, decide_eq_true_eq,
    beq_iff_eq] at starts ⊢
  omega

/-- Names hold plain printable characters other than quotes and dots. -/
theorem continuesName_bounds {rune : Nat} (continues : continuesName rune = true) :
    0x20 < rune ∧ rune < 0x80 ∧ rune ≠ 0x22 ∧ rune ≠ 0x2E ∧ rune ≠ 0x60 := by
  simp only [continuesName, Bool.or_eq_true, Bool.and_eq_true, decide_eq_true_eq,
    beq_iff_eq] at continues
  omega

theorem Identifier.all (identifier : Identifier limit name) (member : byte ∈ name) :
    continuesName byte.toNat = true := by
  cases name with
  | nil => cases member
  | cons first rest =>
    rcases List.mem_cons.mp member with rfl | later
    · exact continuesName_of_starts (identifier.starts byte rfl)
    · exact identifier.continues byte later

/-- The loop accepts exactly the characters of the grammar. -/
theorem checkRunes_later (backend : String) (trimmed : Bytes) (index : Nat) (runes : List Nat) :
    checkRunes backend trimmed (index + 1) runes = .ok () ↔
      ∀ rune ∈ runes, continuesName rune = true := by
  induction runes generalizing index with
  | nil => simp [checkRunes]
  | cons rune rest ih =>
    unfold checkRunes
    cases continues : continuesName rune with
    | false => simp [continues]
    | true => simpa [continues] using ih (index + 1)

theorem checkRunes_first (backend : String) (trimmed : Bytes) (runes : List Nat) :
    checkRunes backend trimmed 0 runes = .ok () ↔
      (∀ rune ∈ runes.head?, startsName rune = true) ∧
        ∀ rune ∈ runes.tail, continuesName rune = true := by
  cases runes with
  | nil => simp [checkRunes]
  | cons rune rest =>
    unfold checkRunes
    cases starts : startsName rune with
    | false => simp [starts]
    | true => simpa [starts] using checkRunes_later backend trimmed 0 rest

/-- Ill-formed bytes and longer encodings are outside of the grammar, so the
characters of an accepted name are its bytes. -/
theorem checkRunes_eq_ok_iff (backend : String) (trimmed name : Bytes) :
    checkRunes backend trimmed 0 (Utf8.runes name) = .ok () ↔
      (∀ byte ∈ name.head?, startsName byte.toNat = true) ∧
        ∀ byte ∈ name.tail, continuesName byte.toNat = true := by
  have spelled : (∀ byte ∈ name, byte < 0x80) →
      (checkRunes backend trimmed 0 (Utf8.runes name) = .ok () ↔
        (∀ byte ∈ name.head?, startsName byte.toNat = true) ∧
          ∀ byte ∈ name.tail, continuesName byte.toNat = true) := by
    intro plain
    rw [Utf8.runes_of_plain plain, checkRunes_first]
    cases name with
    | nil => simp
    | cons first rest => simp
  constructor
  · intro accepted
    obtain ⟨starts, continues⟩ := (checkRunes_first backend trimmed _).mp accepted
    have plain : ∀ rune ∈ Utf8.runes name, rune < 0x80 := by
      intro rune member
      cases runes : Utf8.runes name with
      | nil =>
        rw [runes] at member
        cases member
      | cons first rest =>
        rw [runes] at starts continues member
        rcases List.mem_cons.mp member with rfl | later
        · exact (continuesName_bounds (continuesName_of_starts (starts rune rfl))).2.1
        · exact (continuesName_bounds (continues rune later)).2.1
    exact (spelled (Utf8.plain_of_runes plain)).mp accepted
  · rintro ⟨starts, continues⟩
    refine (spelled fun byte member => ?_).mpr ⟨starts, continues⟩
    cases name with
    | nil => cases member
    | cons first rest =>
      rw [UInt8.lt_iff_toNat_lt]
      rcases List.mem_cons.mp member with rfl | later
      · exact (continuesName_bounds (continuesName_of_starts (starts byte rfl))).2.1
      · exact (continuesName_bounds (continues byte later)).2.1

theorem checks_eq_ok_iff {empty long : OutboxError} :
    (if name = [] then .error empty
      else if limit < name.length then .error long
      else (checkRunes backend trimmed 0 (Utf8.runes name)).map fun _ => quoted quote name) =
        (.ok out : Except OutboxError Bytes) ↔
      Identifier limit name ∧ out = quoted quote name := by
  constructor
  · intro accepted
    split at accepted
    · cases accepted
    · rename_i nonempty
      split at accepted
      · cases accepted
      · rename_i short
        cases checked : checkRunes backend trimmed 0 (Utf8.runes name) with
        | error error =>
          rw [checked] at accepted
          cases accepted
        | ok done =>
          rw [checked] at accepted
          obtain ⟨starts, continues⟩ := (checkRunes_eq_ok_iff backend trimmed name).mp checked
          exact ⟨⟨nonempty, Nat.not_lt.mp short, starts, continues⟩,
            (Except.ok.inj accepted).symm⟩
  · rintro ⟨identifier, rfl⟩
    have checked := (checkRunes_eq_ok_iff backend trimmed name).mpr
      ⟨identifier.starts, identifier.continues⟩
    rw [if_neg identifier.nonempty, if_neg (Nat.not_lt.mpr identifier.short), checked]
    rfl

/-! ## Spellings -/

/-- A name, plain or between quotes. -/
def Spells (quote : UInt8) (limit : Nat) (form name : Bytes) : Prop :=
  Identifier limit name ∧ (form = name ∨ form = quoted quote name)

/-- The two quotes of the backends. -/
def Quote (quote : UInt8) : Prop := quote = 0x22 ∨ quote = 0x60

section Spellings

variable {form : Bytes}

theorem Spells.bounds (isQuote : Quote quote) (spells : Spells quote limit form name)
    (member : byte ∈ form) : 0x20 < byte ∧ byte < 0x80 ∧ byte ≠ 0x2E := by
  have inside : ∀ byte ∈ name, 0x20 < byte ∧ byte < 0x80 ∧ byte ≠ 0x2E := by
    intro byte present
    obtain ⟨low, high, _, noDot, _⟩ := continuesName_bounds (spells.1.all present)
    rw [UInt8.lt_iff_toNat_lt, UInt8.lt_iff_toNat_lt]
    exact ⟨low, high, fun dot => noDot (congrArg UInt8.toNat dot)⟩
  have outside : 0x20 < quote ∧ quote < 0x80 ∧ quote ≠ 0x2E := by
    rcases isQuote with rfl | rfl
    · decide
    · decide
  rcases spells.2 with rfl | rfl
  · exact inside byte member
  · rcases List.mem_cons.mp member with rfl | later
    · exact outside
    · rcases List.mem_append.mp later with present | last
      · exact inside byte present
      · rw [List.mem_singleton.mp last]
        exact outside

theorem Spells.nonempty (spells : Spells quote limit form name) : form ≠ [] := by
  rcases spells.2 with rfl | rfl
  · exact spells.1.nonempty
  · exact List.cons_ne_nil _ _

theorem trimSpace_of_printable {text : Bytes} (printable : ∀ byte ∈ text, 0x20 < byte ∧ byte < 0x80)
    (nonempty : text ≠ []) : trimSpace text = text := by
  have solid : ∀ byte ∈ text, Words.Solid spaces byte :=
    fun byte member => solid_of_ascii (printable byte member).1 (printable byte member).2
  exact trimSpace_eq_self (solid _ (List.head_mem nonempty)) (solid _ (List.getLast_mem nonempty))
    (List.head?_eq_some_head nonempty) (List.getLast?_eq_some_getLast nonempty)

/-- Quotes around a name without quotes are trimmed, and nothing of it. -/
theorem trimByte_spells (isQuote : Quote quote) (spells : Spells quote limit form name) :
    trimByte quote form = name := by
  have apart : ∀ byte ∈ name, (byte == quote) = false := by
    intro byte member
    obtain ⟨_, _, noDouble, _, noBack⟩ := continuesName_bounds (spells.1.all member)
    rw [beq_eq_false_iff_ne]
    rcases isQuote with rfl | rfl
    · exact fun same => noDouble (congrArg UInt8.toNat same)
    · exact fun same => noBack (congrArg UInt8.toNat same)
  have stops : ∀ {text rest : Bytes}, text ≠ [] → (∀ byte ∈ text, (byte == quote) = false) →
      (text ++ rest).dropWhile (· == quote) = text ++ rest := by
    intro text rest nonempty other
    cases text with
    | nil => exact absurd rfl nonempty
    | cons first others =>
      rw [List.cons_append, List.dropWhile_cons, other first List.mem_cons_self]
      rfl
  have back : (name.reverse ++ []).dropWhile (· == quote) = name.reverse ++ [] :=
    stops (by simpa using spells.1.nonempty)
      fun byte member => apart byte (List.mem_reverse.mp member)
  rw [List.append_nil] at back
  unfold trimByte
  rcases spells.2 with rfl | rfl
  · have front := @stops form [] spells.1.nonempty apart
    rw [List.append_nil] at front
    rw [front, back, List.reverse_reverse]
  · unfold quoted
    have dropped : ((quote :: (name ++ [quote])).dropWhile (· == quote)) = name ++ [quote] := by
      rw [List.dropWhile_cons, beq_self_eq_true]
      exact stops spells.1.nonempty apart
    rw [dropped, List.reverse_append, List.reverse_singleton, List.singleton_append,
      List.dropWhile_cons, beq_self_eq_true]
    simp only [if_true]
    rw [back, List.reverse_reverse]

theorem Spells.trimSpace (isQuote : Quote quote) (spells : Spells quote limit form name) :
    OutboxFormal.trimSpace form = form :=
  trimSpace_of_printable
    (fun _ member => ⟨(spells.bounds isQuote member).1, (spells.bounds isQuote member).2.1⟩)
    spells.nonempty

end Spellings

/-! ## Validation accepts spellings -/

/-- The output is quoted names, validation of it changes nothing, and plain names are
accepted as they are. -/
structure Quotes (validate : Bytes → Except OutboxError Bytes) (quote : UInt8) (limit most : Nat) :
    Prop where
  sound : ∀ {name out}, validate name = .ok out →
    ∃ parts : List Bytes, parts ≠ [] ∧ parts.length ≤ most ∧
      (∀ part ∈ parts, Identifier limit part) ∧
      out = dotted (parts.map (quoted quote))
  stable : ∀ {name out}, validate name = .ok out → validate out = .ok out
  complete : ∀ parts : List Bytes, parts ≠ [] → parts.length ≤ most →
    (∀ part ∈ parts, Identifier limit part) →
      validate (dotted parts) = .ok (dotted (parts.map (quoted quote)))

/-- It is enough that exactly names are returned and every spelling is accepted. -/
theorem Quotes.of_spells {validate : Bytes → Except OutboxError Bytes} {most : Nat}
    (sound : ∀ {name out}, validate name = .ok out →
      ∃ parts : List Bytes, parts ≠ [] ∧ parts.length ≤ most ∧
        (∀ part ∈ parts, Identifier limit part) ∧
        out = dotted (parts.map (quoted quote)))
    (accepts : ∀ forms names : List Bytes, names ≠ [] → names.length ≤ most →
      List.Forall₂ (Spells quote limit) forms names →
        validate (dotted forms) = .ok (dotted (names.map (quoted quote)))) :
    Quotes validate quote limit most where
  sound := sound
  stable := by
    intro name out accepted
    obtain ⟨parts, nonempty, few, identifiers, rfl⟩ := sound accepted
    refine accepts _ parts nonempty few ?_
    rw [List.forall₂_map_left_iff, List.forall₂_same]
    exact fun part member => ⟨identifiers part member, .inr rfl⟩
  complete := by
    intro parts nonempty few identifiers
    refine accepts parts parts nonempty few ?_
    rw [List.forall₂_same]
    exact fun part member => ⟨identifiers part member, .inl rfl⟩

theorem quotePart_eq_ok_iff {part : Bytes} :
    quotePart backend quote limit trimmed part = .ok out ↔
      Identifier limit (trimByte quote (trimSpace part)) ∧
        out = quoted quote (trimByte quote (trimSpace part)) :=
  checks_eq_ok_iff

theorem quoteParts_sound {outs : List Bytes}
    (accepted : quoteParts backend quote limit trimmed parts = .ok outs) :
    ∃ names : List Bytes, names.length = parts.length ∧ (∀ name ∈ names, Identifier limit name) ∧
      outs = names.map (quoted quote) := by
  induction parts generalizing outs with
  | nil =>
    cases accepted
    exact ⟨[], rfl, nofun, rfl⟩
  | cons part rest ih =>
    unfold quoteParts at accepted
    cases first : quotePart backend quote limit trimmed part with
    | error error =>
      rw [first] at accepted
      cases accepted
    | ok out =>
      rw [first] at accepted
      cases others : quoteParts backend quote limit trimmed rest with
      | error error =>
        rw [others] at accepted
        cases accepted
      | ok later =>
        rw [others] at accepted
        cases accepted
        obtain ⟨identifier, rfl⟩ := quotePart_eq_ok_iff.mp first
        obtain ⟨names, same, identifiers, rfl⟩ := ih others
        refine ⟨_ :: names, congrArg (· + 1) same, ?_, rfl⟩
        intro name member
        rcases List.mem_cons.mp member with rfl | present
        · exact identifier
        · exact identifiers name present

theorem quotePart_spells (backend : String) (trimmed : Bytes) (isQuote : Quote quote) {form : Bytes}
    (spells : Spells quote limit form name) :
    quotePart backend quote limit trimmed form = .ok (quoted quote name) := by
  apply quotePart_eq_ok_iff.mpr
  rw [spells.trimSpace isQuote, trimByte_spells isQuote spells]
  exact ⟨spells.1, rfl⟩

theorem quoteParts_spells (isQuote : Quote quote) {forms names : List Bytes}
    (spells : List.Forall₂ (Spells quote limit) forms names) :
    quoteParts backend quote limit trimmed forms = .ok (names.map (quoted quote)) := by
  induction spells with
  | nil => rfl
  | cons first _ ih =>
    have accepted := quotePart_spells backend trimmed isQuote first
    unfold quoteParts
    rw [accepted, ih]
    rfl

theorem dotted_singleton (part : Bytes) : dotted [part] = part :=
  List.intercalate_singleton

theorem mem_dotted (member : byte ∈ dotted parts) :
    byte = 0x2E ∨ ∃ part ∈ parts, byte ∈ part := by
  induction parts with
  | nil => cases member
  | cons part rest ih =>
    cases rest with
    | nil =>
      rw [dotted_singleton] at member
      exact .inr ⟨part, List.mem_cons_self, member⟩
    | cons second others =>
      rw [dotted, List.intercalate_cons_cons] at member
      rcases List.mem_append.mp member with front | later
      · rcases List.mem_append.mp front with inside | dot
        · exact .inr ⟨part, List.mem_cons_self, inside⟩
        · exact .inl (List.mem_singleton.mp dot)
      · rcases ih later with dot | ⟨other, present, inside⟩
        · exact .inl dot
        · exact .inr ⟨other, List.mem_cons_of_mem part present, inside⟩

theorem dotted_ne_nil (nonempty : parts ≠ []) (filled : ∀ part ∈ parts, part ≠ []) :
    dotted parts ≠ [] := by
  cases parts with
  | nil => exact absurd rfl nonempty
  | cons part rest =>
    have front := filled part List.mem_cons_self
    cases rest with
    | nil => rwa [dotted_singleton]
    | cons second others =>
      rw [dotted, List.intercalate_cons_cons]
      simp [front]

theorem quotes_quoteQualified (backend : String) (isQuote : Quote quote) (limit : Nat) :
    Quotes (quoteQualified backend quote limit) quote limit 2 := by
  apply Quotes.of_spells
  · intro name out accepted
    unfold quoteQualified at accepted
    dsimp only at accepted
    split at accepted
    · cases accepted
    · split at accepted
      · cases accepted
      · rename_i few
        cases quotes : quoteParts backend quote limit (trimSpace name)
            ((trimSpace name).splitOn 0x2E) with
        | error error =>
          rw [quotes] at accepted
          cases accepted
        | ok outs =>
          rw [quotes] at accepted
          cases accepted
          obtain ⟨names, same, identifiers, rfl⟩ := quoteParts_sound quotes
          refine ⟨names, ?_, same ▸ Nat.not_lt.mp few, identifiers, rfl⟩
          intro empty
          rw [empty] at same
          exact List.splitOn_ne_nil _ _ (List.length_eq_zero_iff.mp same.symm)
  · intro forms names nonempty few spells
    have filled : forms ≠ [] := by
      rintro rfl
      cases spells
      exact nonempty rfl
    have each : ∀ form ∈ forms, ∃ name, Spells quote limit form name := by
      intro form member
      obtain ⟨index, bound, rfl⟩ := List.getElem_of_mem member
      exact ⟨_, spells.get bound (spells.length_eq ▸ bound)⟩
    have printable : ∀ byte ∈ dotted forms, 0x20 < byte ∧ byte < 0x80 := by
      intro byte member
      rcases mem_dotted member with rfl | ⟨form, present, inside⟩
      · decide
      · obtain ⟨name, spelled⟩ := each form present
        exact ⟨(spelled.bounds isQuote inside).1, (spelled.bounds isQuote inside).2.1⟩
    have noDot : ∀ form ∈ forms, (0x2E : UInt8) ∉ form := by
      intro form present inside
      obtain ⟨name, spelled⟩ := each form present
      exact (spelled.bounds isQuote inside).2.2 rfl
    have filledText : dotted forms ≠ [] := dotted_ne_nil filled fun form present =>
      (each form present).elim fun _ spelled => spelled.nonempty
    unfold quoteQualified
    dsimp only
    rw [trimSpace_of_printable printable filledText, if_neg filledText]
    have parts : (dotted forms).splitOn 0x2E = forms := List.splitOn_intercalate 0x2E noDot filled
    rw [parts, if_neg (by rw [spells.length_eq]; exact Nat.not_lt.mpr few),
      quoteParts_spells isQuote spells]
    rfl

theorem picodata_eq_ok_iff :
    Picodata.validateAndQuoteTableName name = .ok out ↔
      Identifier 64 (trimByte 0x22 (trimSpace name)) ∧
        out = quoted 0x22 (trimByte 0x22 (trimSpace name)) := by
  unfold Picodata.validateAndQuoteTableName
  dsimp only
  split
  · rename_i empty
    constructor
    · exact nofun
    · rintro ⟨identifier, _⟩
      rw [empty] at identifier
      exact absurd rfl identifier.nonempty
  · exact checks_eq_ok_iff

theorem quotes_picodata : Quotes Picodata.validateAndQuoteTableName 0x22 64 1 := by
  apply Quotes.of_spells
  · intro name out accepted
    obtain ⟨identifier, rfl⟩ := picodata_eq_ok_iff.mp accepted
    exact ⟨[_], List.cons_ne_nil _ _, Nat.le_refl 1,
      fun part member => List.mem_singleton.mp member ▸ identifier, (dotted_singleton _).symm⟩
  · intro forms names nonempty few spells
    cases spells with
    | nil => exact absurd rfl nonempty
    | cons first rest =>
      cases rest with
      | cons _ _ => simp at few
      | nil =>
        have isQuote : Quote 0x22 := .inl rfl
        rw [List.map_singleton, dotted_singleton, dotted_singleton]
        apply picodata_eq_ok_iff.mpr
        rw [first.trimSpace isQuote, trimByte_spells isQuote first]
        exact ⟨first.1, rfl⟩

/-- Every accepted table name comes out as quoted identifiers, which validation then
leaves as they are; every plain identifier within the limit is accepted. -/
theorem table_names_quoted :
    Quotes Sqlite.validateAndQuoteTableName 0x22 1000 2 ∧
    Quotes Mysql.validateAndQuoteTableName 0x60 64 2 ∧
    Quotes Picodata.validateAndQuoteTableName 0x22 64 1 :=
  ⟨quotes_quoteQualified "sqlite" (.inl rfl) 1000, quotes_quoteQualified "mysql" (.inr rfl) 64,
    quotes_picodata⟩

example : Mysql.validateAndQuoteTableName (bytes " `mydb`.jobs ") =
    .ok (bytes "`mydb`.`jobs`") := by
  decide +kernel

end OutboxFormal.Storage
