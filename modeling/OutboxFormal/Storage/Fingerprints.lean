import OutboxFormal.Library.Calendar
import OutboxFormal.Library.Delimited
import OutboxFormal.Storage.Registry

/-!
# The text under a fingerprint

A fingerprint hashes four fields behind their lengths, so that a name or payload
cannot run into the next field. The last one is the availability in UTC as
`time.RFC3339Nano` prints it: years beyond four digits, no zeros at the end of
the fraction, and dates before the absolute epoch wrapped around. It still
determines the instant.
-/

namespace OutboxFormal.Storage

open Library Numeral

/-! ## Times -/

/-- `time.Time`: the seconds since January 1 of year 1, the nanoseconds of the
second, and the seconds its location is east of UTC. -/
structure Time where
  sec : Int64
  nsec : Fin 1000000000
  offset : Int
  deriving DecidableEq

namespace Time

/-- The instant, in nanoseconds since the zero time. -/
def instant (t : Time) : Int := t.sec.toInt * second + t.nsec

/-- `t.UTC()`. -/
def utc (t : Time) : Time := { t with offset := 0 }

/-- The years before year 0 at which absolute days start, on March 1. -/
def absoluteYears : Int := 292277022400

/-- `(absoluteYears*365.2425 + marchThruDecember) * secondsPerDay`. -/
def internalToAbsolute : Int := 9223371966606163200

/-- The absolute seconds in the location of the time, a `uint64`. -/
def absSeconds (t : Time) : Nat :=
  ((t.sec.toInt + t.offset + internalToAbsolute) % 2 ^ 64).toNat

/-- `appendInt`. -/
def appendInt (x : Int) (width : Nat) : Bytes :=
  (if x < 0 then [0x2D] else []) ++ padded width x.natAbs

/-- `appendNano`: the zeros at the end are dropped with the point. -/
def appendNano (nanoseconds : Nat) : Bytes :=
  if nanoseconds = 0 then [] else 0x2E :: (padded 9 nanoseconds).rdropWhile (· == 48)

def appendZone (offset : Int) : Bytes :=
  if offset = 0 then [0x5A]
  else
    let zone := offset.tdiv 60
    (if zone < 0 then [0x2D] else [0x2B]) ++ appendInt (zone.natAbs / 60) 2 ++ [0x3A] ++
      appendInt (zone.natAbs % 60) 2

def appendDate (days : Nat) : Bytes :=
  appendInt (Calendar.year days - absoluteYears) 4 ++ [0x2D] ++
    appendInt (Calendar.month days) 2 ++ [0x2D] ++ appendInt (Calendar.day days) 2

/-- The time of day. -/
def appendClock (seconds : Nat) : Bytes :=
  appendInt (seconds / 3600 : Nat) 2 ++ [0x3A] ++ appendInt (seconds % 3600 / 60 : Nat) 2 ++
    [0x3A] ++ appendInt (seconds % 60 : Nat) 2

/-- `t.Format(time.RFC3339Nano)`. -/
def formatRFC3339Nano (t : Time) : Bytes :=
  appendDate (t.absSeconds / 86400) ++ [0x54] ++ appendClock (t.absSeconds % 86400) ++
    appendNano t.nsec ++ appendZone t.offset

/-! ## Fields of the format -/

theorem appendInt_nat (number width : Nat) : appendInt number width = padded width number := by
  rw [appendInt, if_neg (by omega), Int.natAbs_natCast]
  rfl

theorem length_field {number : Nat} (small : number < 100) : (appendInt number 2).length = 2 := by
  rw [appendInt_nat]
  exact length_padded (by decide) small

theorem field_inj {first second : Nat} (small : first < 100) (small' : second < 100)
    {rest rest' : Bytes} (same : appendInt first 2 ++ rest = appendInt second 2 ++ rest') :
    first = second ∧ rest = rest' := by
  obtain ⟨fields, rests⟩ :=
    List.append_inj same ((length_field small).trans (length_field small').symm)
  rw [appendInt_nat, appendInt_nat] at fields
  exact ⟨padded_inj fields, rests⟩

/-- A sign is no digit, so signed numbers determine their value as well. -/
theorem appendInt_inj {first second : Int} {width : Nat}
    (same : appendInt first width = appendInt second width) : first = second := by
  have unsigned : ∀ {number rest}, padded width number ≠ 0x2D :: rest := by
    intro number rest equal
    have digit : (0x2D : UInt8) ∈ padded width number := equal ▸ List.mem_cons_self
    exact absurd (digit_of_mem_padded digit).1 (by decide)
  unfold appendInt at same
  split at same
  · split at same
    · have numbers := padded_inj (List.append_cancel_left same)
      omega
    · exact absurd same.symm unsigned
  · split at same
    · exact absurd same unsigned
    · have numbers := padded_inj (List.append_cancel_left same)
      omega

theorem digit_or_sign {x : Int} {width : Nat} {byte : UInt8} (member : byte ∈ appendInt x width) :
    byte.toNat ≤ 57 := by
  rcases List.mem_append.mp member with sign | digit
  · split at sign
    · rw [List.mem_singleton.mp sign]
      decide
    · cases sign
  · exact (digit_of_mem_padded digit).2

theorem appendNano_inj {first second : Nat} (bounded : first < 10 ^ 9) (bounded' : second < 10 ^ 9)
    (same : appendNano first = appendNano second) : first = second := by
  unfold appendNano at same
  split at same
  · split at same
    · omega
    · cases same
  · split at same
    · cases same
    · apply @padded_inj 9
      apply rdropWhile_inj (fun byte zero => eq_of_beq zero) _ (List.cons.inj same).2
      rw [length_padded (by decide) bounded, length_padded (by decide) bounded']

theorem appendDate_inj {first second : Nat} (same : appendDate first = appendDate second) :
    first = second := by
  simp only [appendDate, List.append_assoc] at same
  have fields : ∀ days, ([0x2D] ++ (appendInt (Calendar.month days) 2 ++
      ([0x2D] ++ appendInt (Calendar.day days) 2))).length = 6 := by
    intro days
    simp only [List.length_append, length_field (Calendar.month_lt days),
      length_field (Calendar.day_lt days), List.length_singleton]
  obtain ⟨years, rest⟩ := List.append_inj' same ((fields first).trans (fields second).symm)
  obtain ⟨months, rest⟩ := field_inj (Calendar.month_lt first) (Calendar.month_lt second)
    (List.append_cancel_left rest)
  obtain ⟨days, -⟩ := @field_inj _ _ (Calendar.day_lt first) (Calendar.day_lt second) [] []
    (congrArg (· ++ []) (List.append_cancel_left rest))
  apply Calendar.date_inj _ months days
  have years := appendInt_inj years
  omega

theorem length_clock {seconds : Nat} (within : seconds < 86400) :
    (appendClock seconds).length = 8 := by
  simp only [appendClock, List.length_append, List.length_singleton,
    length_field (show seconds / 3600 < 100 by omega),
    length_field (show seconds % 3600 / 60 < 100 by omega),
    length_field (show seconds % 60 < 100 by omega)]

theorem appendClock_inj {first second : Nat} (within : first < 86400) (within' : second < 86400)
    (same : appendClock first = appendClock second) : first = second := by
  simp only [appendClock, List.append_assoc] at same
  obtain ⟨hours, rest⟩ := field_inj (by omega) (by omega) same
  obtain ⟨minutes, rest⟩ := field_inj (by omega) (by omega) (List.append_cancel_left rest)
  obtain ⟨seconds, -⟩ := @field_inj (first % 60) (second % 60) (by omega) (by omega) [] []
    (congrArg (· ++ []) (List.append_cancel_left rest))
  omega

theorem not_mem_date (days : Nat) : 0x54 ∉ appendDate days := by
  intro member
  have low : (0x54 : UInt8).toNat ≤ 57 := by
    simp only [appendDate, List.mem_append] at member
    rcases member with (((year | dash) | month) | dash) | day
    · exact digit_or_sign year
    · cases List.mem_singleton.mp dash
    · exact digit_or_sign month
    · cases List.mem_singleton.mp dash
    · exact digit_or_sign day
  exact absurd low (by decide)

/-- Absolute seconds determine the seconds, also where they wrapped around. -/
theorem absSeconds_inj {first second : Time}
    (same : first.utc.absSeconds = second.utc.absSeconds) : first.sec = second.sec := by
  have low := first.sec.le_toInt
  have high := first.sec.toInt_lt
  have low' := second.sec.le_toInt
  have high' := second.sec.toInt_lt
  simp only [absSeconds, utc, internalToAbsolute] at same
  apply Int64.toInt_inj.mp
  omega

theorem formatRFC3339Nano_inj {first second : Time}
    (same : first.utc.formatRFC3339Nano = second.utc.formatRFC3339Nano) :
    first.sec = second.sec ∧ first.nsec = second.nsec := by
  simp only [formatRFC3339Nano, List.append_assoc] at same
  obtain ⟨dates, rest⟩ := delimited_inj (not_mem_date _) (not_mem_date _) same
  have behind : appendClock (first.utc.absSeconds % 86400) ++
      (appendNano first.nsec ++ appendZone 0) =
      appendClock (second.utc.absSeconds % 86400) ++ (appendNano second.nsec ++ appendZone 0) :=
    rest
  have within : ∀ t : Time, t.absSeconds % 86400 < 86400 := fun t => Nat.mod_lt _ (by decide)
  obtain ⟨clocks, rest⟩ := List.append_inj behind
    ((length_clock (within _)).trans (length_clock (within _)).symm)
  have days := appendDate_inj dates
  have seconds := appendClock_inj (within _) (within _) clocks
  constructor
  · apply absSeconds_inj
    rw [← Nat.div_add_mod first.utc.absSeconds 86400, days, seconds, Nat.div_add_mod]
  · have fractions := List.append_cancel_right rest
    exact Fin.ext (appendNano_inj first.nsec.isLt second.nsec.isLt fractions)

example : (⟨63087424496, 700000000, 0⟩ : Time).formatRFC3339Nano =
    bytes "2000-02-29T12:34:56.7Z" := by decide +kernel

theorem instant_inj {first second : Time} :
    first.instant = second.instant ↔ first.sec = second.sec ∧ first.nsec = second.nsec := by
  constructor
  · intro same
    have bound := first.nsec.isLt
    have bound' := second.nsec.isLt
    simp only [instant, OutboxFormal.second] at same
    constructor
    · apply Int64.toInt_inj.mp
      omega
    · apply Fin.ext
      omega
  · rintro ⟨seconds, nanoseconds⟩
    rw [instant, instant, seconds, nanoseconds]

end Time

/-! ## Canonical text -/

theorem utf8EncodeChar_of_isDigit {digit : Char} (plain : digit.isDigit = true) :
    String.utf8EncodeChar digit = [UInt8.ofNat digit.toNat] := by
  simp only [Char.isDigit, Bool.and_eq_true, decide_eq_true_eq] at plain
  have low : digit.val.toNat ≤ 57 := UInt32.le_iff_toNat_le.mp plain.2
  unfold String.utf8EncodeChar
  dsimp only
  rw [if_pos (by omega)]
  rfl

/-- `strconv.Itoa` of a number. -/
theorem bytes_toString (number : Nat) : bytes (toString number) = decimal number := by
  have digits : ∀ digit ∈ Nat.toDigits 10 number, digit.isDigit = true :=
    fun digit member => Nat.isDigit_of_mem_toDigits (by decide) (by decide) member
  unfold bytes decimal
  rw [Nat.toString_eq_ofList_toDigits, String.toList_ofList]
  generalize Nat.toDigits 10 number = text at digits ⊢
  induction text with
  | nil => rfl
  | cons digit rest ih =>
    have plain := digits digit List.mem_cons_self
    rw [List.flatMap_cons, List.map_cons, utf8EncodeChar_of_isDigit plain,
      ih fun other member => digits other (List.mem_cons_of_mem _ member)]
    rfl

/-- `strconv.FormatInt` of a version. -/
theorem bytes_toString_int (version : Int) :
    bytes (toString version) = Time.appendInt version 0 := by
  rw [Int.toString_eq_repr, Int.repr_eq_if, Time.appendInt, padded, Nat.zero_sub]
  split
  · rename_i nonneg
    rw [if_neg (by omega), show version.natAbs = version.toNat by omega]
    exact bytes_toString _
  · rename_i negative
    rw [if_pos (by omega), show version.natAbs = (-version).toNat by omega]
    have digits := bytes_toString (-version).toNat
    unfold bytes at digits ⊢
    rw [String.toList_append, List.flatMap_append]
    exact congrArg (List.flatMap String.utf8EncodeChar "-".toList ++ ·) digits

theorem lengthPrefixed_eq (part : Bytes) : lengthPrefixed part = announced decimal 0x3A part := by
  unfold lengthPrefixed announced
  rw [bytes_toString, List.append_assoc]
  rfl

theorem lengthPrefixed_inj {first second rest rest' : Bytes}
    (same : lengthPrefixed first ++ rest = lengthPrefixed second ++ rest') :
    first = second ∧ rest = rest' := by
  rw [lengthPrefixed_eq, lengthPrefixed_eq] at same
  apply announced_inj (fun _ _ => decimal_inj) _ same
  intro length colon
  exact absurd (digit_of_mem_decimal colon).2 (by decide)

/-- The string every backend hashes. -/
def canonicalJob (name version payload available : Bytes) : Bytes :=
  lengthPrefixed name ++ lengthPrefixed version ++ lengthPrefixed payload ++
    lengthPrefixed available

def Pgsql.canonical (name : Bytes) (schemaVersion : Int) (payload : Bytes)
    (availableAt : Time) : Bytes :=
  canonicalJob name (bytes (toString schemaVersion)) payload availableAt.utc.formatRFC3339Nano

def Sqlite.canonical (name : Bytes) (schemaVersion : Int) (payload : Bytes)
    (availableAt : Time) : Bytes :=
  canonicalJob name (bytes (toString schemaVersion)) payload availableAt.utc.formatRFC3339Nano

def Mysql.canonical (name : Bytes) (schemaVersion : Int) (payload : Bytes)
    (availableAt : Time) : Bytes :=
  canonicalJob name (bytes (toString schemaVersion)) payload availableAt.utc.formatRFC3339Nano

/-- The time of an instant, in UTC. -/
def Time.ofInstant (instant : Int) : Time :=
  ⟨Int64.ofInt (instant / second), ⟨(instant % second).toNat, by unfold second; omega⟩, 0⟩

/-- The functions of the standard library behind a fingerprint; `sha256Hex` is any
function of the text. -/
def goDigest (sha256Hex : Bytes → Bytes) : Digest :=
  ⟨fun instant => (Time.ofInstant instant).formatRFC3339Nano, sha256Hex⟩

theorem Time.ofInstant_instant (t : Time) : Time.ofInstant t.instant = t.utc := by
  have bound := t.nsec.isLt
  have quotient : t.instant / OutboxFormal.second = t.sec.toInt := by
    unfold instant OutboxFormal.second
    omega
  have remainder : (t.instant % OutboxFormal.second).toNat = t.nsec := by
    unfold instant OutboxFormal.second
    omega
  unfold ofInstant utc
  simp only [quotient, remainder, Int64.ofInt_toInt]

/-- The canonical text determines the content and the instant, and nothing else of
the availability; all backends hash the same text. -/
theorem fingerprint_input_unambiguous (name name' : Bytes) (schemaVersion schemaVersion' : Int)
    (payload payload' : Bytes) (availableAt availableAt' : Time) :
    (Pgsql.canonical name schemaVersion payload availableAt =
        Pgsql.canonical name' schemaVersion' payload' availableAt' ↔
      name = name' ∧ schemaVersion = schemaVersion' ∧ payload = payload' ∧
        availableAt.instant = availableAt'.instant) ∧
    Sqlite.canonical name schemaVersion payload availableAt =
      Pgsql.canonical name schemaVersion payload availableAt ∧
    Mysql.canonical name schemaVersion payload availableAt =
      Pgsql.canonical name schemaVersion payload availableAt ∧
    ∀ sha256Hex, jobFingerprint (goDigest sha256Hex)
        ⟨name, schemaVersion, payload, availableAt.instant⟩ =
      sha256Hex (Pgsql.canonical name schemaVersion payload availableAt) := by
  refine ⟨⟨?_, ?_⟩, rfl, rfl, ?_⟩
  · intro same
    simp only [Pgsql.canonical, canonicalJob, List.append_assoc] at same
    obtain ⟨names, rest⟩ := lengthPrefixed_inj same
    obtain ⟨versions, rest⟩ := lengthPrefixed_inj rest
    obtain ⟨payloads, rest⟩ := lengthPrefixed_inj rest
    obtain ⟨times, -⟩ := @lengthPrefixed_inj _ _ [] [] (congrArg (· ++ []) rest)
    rw [bytes_toString_int, bytes_toString_int] at versions
    exact ⟨names, Time.appendInt_inj versions, payloads,
      Time.instant_inj.mpr (Time.formatRFC3339Nano_inj times)⟩
  · rintro ⟨rfl, rfl, rfl, instants⟩
    obtain ⟨seconds, nanoseconds⟩ := Time.instant_inj.mp instants
    have times : availableAt.utc = availableAt'.utc := by
      unfold Time.utc
      rw [seconds, nanoseconds]
    unfold Pgsql.canonical
    rw [times]
  · intro sha256Hex
    unfold jobFingerprint goDigest
    simp only [Time.ofInstant_instant]
    rfl

end OutboxFormal.Storage
