import Mathlib.Data.List.Sort
import OutboxFormal.Core.Strings

/-!
# Migration files

How the Picodata migrator reads a directory: the version in front of the file
name, the sections behind the two markers, and the statements of a section. A
statement ends with a line that ends with a semicolon.
-/

namespace OutboxFormal.Migrations

open Library

/-! ## Text -/

/-- `bufio.ScanLines` before the carriage returns are dropped: text after the
last line feed is a line only if there is some. -/
def scanLines (text : Bytes) : List Bytes :=
  let lines := text.splitOn 0x0A
  if lines.getLast? = some [] then lines.dropLast else lines

def dropCR (line : Bytes) : Bytes :=
  if line.getLast? = some 0x0D then line.dropLast else line

/-- `bufio.MaxScanTokenSize`. -/
def maxScanTokenSize : Nat := 64 * 1024

/-- The statements of scanned lines; `builder` holds the lines of the current one. -/
def collectStatements (builder : Bytes) : List Bytes → List Bytes
  | [] => if trimSpace builder = [] then [] else [trimSpace builder]
  | line :: rest =>
    let builder := builder ++ line ++ [0x0A]
    if (trimSpace line).getLast? = some 0x3B then
      if trimSpace builder = [] then collectStatements [] rest
      else trimSpace builder :: collectStatements [] rest
    else collectStatements builder rest

def splitStatements (sql : Bytes) : Except OutboxError (List Bytes) :=
  if (scanLines sql).any fun line => maxScanTokenSize ≤ line.length then
    .error (.leaf (.external "bufio.Scanner: token too long"))
  else .ok (collectStatements [] ((scanLines sql).map dropCR))

/-! ## Files -/

structure MigrationFile where
  name : Bytes
  version : Int
  up : Bytes
  down : Bytes
  deriving DecidableEq

def upMarker : Bytes := bytes "-- pico.UP"
def downMarker : Bytes := bytes "-- pico.DOWN"

def digits : Int → Bytes → Option Int
  | value, [] => some value
  | value, byte :: rest =>
    if 0x30 ≤ byte ∧ byte ≤ 0x39 then digits (10 * value + (byte.toNat - 0x30)) rest else none

/-- `strconv.ParseInt(text, 10, 64)`: a sign and at least one digit. -/
def parseInt (text : Bytes) : Option Int :=
  let value := match text with
    | 0x2D :: byte :: rest => (digits 0 (byte :: rest)).map Neg.neg
    | 0x2B :: byte :: rest => digits 0 (byte :: rest)
    | byte :: rest => digits 0 (byte :: rest)
    | [] => none
  value.filter fun value => decide (-2 ^ 63 ≤ value ∧ value < 2 ^ 63)

/-- The version in front of the first underscore; the suffix is `.sql`. -/
def parseMigrationVersion (name : Bytes) : Except OutboxError Int :=
  let filename := name.take (name.length - 4)
  match parseInt (filename.takeWhile (· ≠ 0x5F)) with
  | some version => .ok version
  | none =>
    .error (errorContext ("parse version from " ++ printed name)
      (.leaf (.external "strconv.ParseInt")))

/-- The panic of a slice expression whose bounds are out of range; no check of the
source returns it. -/
def slicePanic : OutboxError := .text "slice bounds out of range"

/-- The sections of a file. A DOWN marker before the end of the UP marker is a
slice out of bounds, which panics. -/
def parseMigration (name : Bytes) (version : Int) (content : Bytes) :
    Except OutboxError MigrationFile :=
  match index upMarker content with
  | none => .error (.text "missing '-- pico.UP' marker")
  | some upIdx =>
    let start := upIdx + upMarker.length
    match index downMarker content with
    | none => accept (trimSpace (content.drop start)) []
    | some downIdx =>
      if downIdx < start then .error slicePanic
      else accept (trimSpace ((content.take downIdx).drop start))
        (trimSpace (content.drop (downIdx + downMarker.length)))
where
  accept (upSQL downSQL : Bytes) : Except OutboxError MigrationFile :=
    if upSQL = [] then .error (.text "empty up migration section")
    else .ok ⟨name, version, upSQL, downSQL⟩

structure DirEntry where
  name : Bytes
  isDir : Bool
  content : Bytes

/-- The order of the migrations: by version, then by name. -/
def FileOrder (first second : MigrationFile) : Prop :=
  first.version < second.version ∨
    first.version = second.version ∧ first.name ≤ second.name

instance : DecidableRel FileOrder := fun _ _ => inferInstanceAs (Decidable (_ ∨ _))

/-- One file; `replaceTables` are the replacements of table names. -/
def readFile (replaceTables : Bytes → Bytes) (entry : DirEntry) :
    Except OutboxError MigrationFile :=
  match parseMigrationVersion entry.name with
  | .error error => .error (errorContext ("parse migration name " ++ printed entry.name) error)
  | .ok version =>
    match parseMigration entry.name version (replaceTables entry.content) with
    | .error error => .error (errorContext ("parse migration " ++ printed entry.name) error)
    | .ok migration => .ok migration

/-- The files of a directory in the order of its entries. -/
def readFiles (replaceTables : Bytes → Bytes) :
    List DirEntry → Except OutboxError (List MigrationFile)
  | [] => .ok []
  | entry :: rest =>
    if entry.isDir ∨ ¬ (bytes ".sql").isSuffixOf entry.name then readFiles replaceTables rest
    else
      match readFile replaceTables entry with
      | .error error => .error error
      | .ok migration => (readFiles replaceTables rest).map (migration :: ·)

def readMigrationsFromFS (replaceTables : Bytes → Bytes) (entries : List DirEntry) :
    Except OutboxError (List MigrationFile) :=
  (readFiles replaceTables entries).map fun migrations => migrations.insertionSort FileOrder

end OutboxFormal.Migrations
