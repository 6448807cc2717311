import Canon.File.Statistics
import Canon.Host
import Canon.Identifier.Statistics
import Canon.Text.Layout
import Canon.Text.Lossy
import Canon.Text.Words

/-!
A survey of source files: every file is looked up in the catalogue, and the words of each are entered into the
table of identifiers once, by whatever path it is reached first.
-/
namespace Canon
open Canon.File

structure Tally where
  words : Nat := 0
  keywords : Nat := 0
  extensions : Nat := 0
  deriving DecidableEq, Repr

def Tally.add (tally : Tally) (record : Identifier.Record) : Tally :=
  let keyword := record.token != .identifier
  ⟨tally.words + 1, tally.keywords + keyword.toNat, tally.extensions + (keyword && record.has .extension).toNat⟩

def Tally.enter (state : Tally × Identifier.Table) (word : String) : Tally × Identifier.Table :=
  match state with
  | (tally, table) =>
    let (id, table) := table.get word
    -- the record is there, since it has just been got
    match table.records.get? id with
    | some record => (tally.add record, table)
    | none => (tally, table)

def Tally.ofWords (table : Identifier.Table) (words : List String) : Tally × Identifier.Table :=
  words.foldl Tally.enter ({}, table)

structure Report where
  file : FileId
  uid : UInt32
  /-- The size of the file when it was looked up first. -/
  size : UInt64
  tally : Tally
  deriving DecidableEq

inductive Outcome where
  | surveyed (report : Report)
  /-- It has been surveyed before; the first path by which it was found is given. -/
  | duplicate (file : FileId) (first : String)
  deriving DecidableEq

inductive SurveyError where
  | noSuchFile (path : String)
  | unreadable (path : String) (cause : ReadError)
  deriving DecidableEq

namespace SurveyError

def message : SurveyError → String
  | .noSuchFile path => s!"{path}: no such file"
  | .unreadable path _ => s!"{path}: could not read file"

def chain : SurveyError → List String
  | .unreadable path cause => [(unreadable path cause).message, cause.message]
  | error => [error.message]

end SurveyError

structure Survey where
  dialect : Dialect
  catalogue : Catalogue
  identifiers : Identifier.Table
  surveyed : Overlay FileId Bool

namespace Survey

def start (dialect : Dialect) : Survey :=
  ⟨dialect, .empty, .ofDialect dialect, .constant false⟩

/-- The first path by which a file was found. A file that has been found has one, so the text is never the empty one
that stands here for a fault. -/
def firstPath (survey : Survey) (file : FileId) : String := ((survey.catalogue.fileName file).toOption).getD ""

def record (survey : Survey) (file : FileId) (entry : FileRecord) (bytes : List UInt8) : Outcome × Survey :=
  match survey with
  | ⟨dialect, catalogue, identifiers, surveyed⟩ =>
    let words := Text.words dialect.dollarWords (Text.decodeLossy bytes)
    let (tally, identifiers) := Tally.ofWords identifiers words
    (.surveyed ⟨file, entry.uid, entry.size, tally⟩, ⟨dialect, catalogue, identifiers, surveyed.set file true⟩)

def addFile {m : Type → Type} [Monad m] (host : Host m) (path : String) (survey : Survey) :
    m (Except SurveyError Outcome × Survey) := do
  let (found, catalogue) ← survey.catalogue.file host.stat path
  let survey := { survey with catalogue }
  -- a file that is found has a record: no file is missing for want of one
  match found.bind fun file => (catalogue.files.get? file).map (file, ·) with
  | none => return (.error (.noSuchFile path), survey)
  | some (file, entry) =>
    if survey.surveyed.get file then return (.ok (.duplicate file (survey.firstPath file)), survey)
    else
      match ← host.read path with
      | .error cause => return (.error (.unreadable path cause), survey)
      | .ok bytes =>
        let (outcome, survey) := survey.record file entry bytes
        return (.ok outcome, survey)

/-- The name to show for a file: the main file name, if there is one, for the file found first, and for the
others the first path by which they were found. -/
def displayName (survey : Survey) (file : FileId) : Except Fault String := do
  let entry ← survey.catalogue.files.get file
  match survey.dialect.mainFileName with
  | some name => if entry.uid = 0 then return name else survey.catalogue.resolveName entry.name
  | none => survey.catalogue.resolveName entry.name

def spellingWidth : Nat := 24

def dumpLine (spelling : String) (token : Token) (extension : Bool) : String :=
  Text.padRight spellingWidth spelling ++ " " ++ token.render ++ (if extension then " [extension]" else "") ++ "\n"

def dumpEntries (table : Identifier.Table) : List (String × Token × Bool) :=
  table.spellings.filterMap fun (spelling, id) =>
    (table.records.get? id).map fun record => (spelling, record.token, record.has .extension)

def dump (survey : Survey) : String :=
  String.join ((dumpEntries survey.identifiers).map fun (spelling, token, extension) =>
    dumpLine spelling token extension)

def statistics (survey : Survey) : String :=
  survey.catalogue.statistics.render ++ survey.identifiers.statistics.render

end Survey
end Canon
