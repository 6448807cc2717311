import Canon.File.Path
import Canon.File.Stat
import Canon.Lexicon.Basic
import Canon.Overlay
import Canon.Registry

/-!
The catalogue of directories and files. It remembers for every literal path what the first look-up found,
failures included, and has one record for each identity, however many paths lead to it.
-/
namespace Canon.File

inductive Resolution (κ : Type) where
  | unknown
  /-- It leads nowhere, or to something of another kind. -/
  | missing
  | found (id : κ)
  deriving DecidableEq

structure DirectoryRecord where
  /-- The first path by which the directory was found. -/
  name : Symbol
  deriving DecidableEq

structure FileRecord where
  /-- The first path by which the file was found. -/
  name : Symbol
  size : UInt64
  modified : Int
  directory : DirectoryId
  /-- Counts files in the order in which they were found. -/
  uid : UInt32
  identity : Identity
  mode : UInt32
  deriving DecidableEq

def FileRecord.compare (left right : FileRecord) : Ordering := left.identity.compare right.identity

structure Counters where
  directoryLookups : UInt32 := 0
  directoryMisses : UInt32 := 0
  fileLookups : UInt32 := 0
  fileMisses : UInt32 := 0
  deriving DecidableEq, Repr

structure Catalogue where
  names : Lexicon
  directoryPaths : Overlay Symbol (Resolution DirectoryId)
  filePaths : Overlay Symbol (Resolution FileId)
  directoryIds : Std.HashMap Identity DirectoryId
  fileIds : Std.HashMap Identity FileId
  directories : Registry DirectoryId DirectoryRecord
  files : Registry FileId FileRecord
  nextUid : UInt32
  counters : Counters

namespace Catalogue

def empty : Catalogue :=
  ⟨.empty, .constant .unknown, .constant .unknown, ∅, ∅, .empty, .empty, 0, {}⟩

instance : EmptyCollection Catalogue := ⟨empty⟩
instance : Inhabited Catalogue := ⟨empty⟩

section Steps

def internPath (catalogue : Catalogue) (path : String) : Symbol × Catalogue :=
  let (name, names) := catalogue.names.intern path
  (name, { catalogue with names })

def beginDirectory (catalogue : Catalogue) (path : String) : Symbol × Catalogue :=
  let counters := catalogue.counters
  internPath { catalogue with
    counters := { counters with directoryLookups := counters.directoryLookups + 1 } } path

/-- Counts a path that is new to directory look-ups. Until more is known it leads nowhere. -/
def missDirectory (catalogue : Catalogue) (name : Symbol) : Catalogue :=
  let counters := catalogue.counters
  { catalogue with
    counters := { counters with directoryMisses := counters.directoryMisses + 1 }
    directoryPaths := catalogue.directoryPaths.set name .missing }

def settleDirectory (catalogue : Catalogue) (name : Symbol) (stat : Stat) : DirectoryId × Catalogue :=
  match catalogue.directoryIds[stat.identity]? with
  | some id => (id, { catalogue with directoryPaths := catalogue.directoryPaths.set name (.found id) })
  | none =>
    let (id, directories) := catalogue.directories.enter ⟨name⟩
    (id, { catalogue with
      directories
      directoryIds := catalogue.directoryIds.insert stat.identity id
      directoryPaths := catalogue.directoryPaths.set name (.found id) })

def beginFile (catalogue : Catalogue) (path : String) : Symbol × Catalogue :=
  let counters := catalogue.counters
  internPath { catalogue with counters := { counters with fileLookups := counters.fileLookups + 1 } } path

def missFile (catalogue : Catalogue) (name : Symbol) : Catalogue :=
  let counters := catalogue.counters
  { catalogue with
    counters := { counters with fileMisses := counters.fileMisses + 1 }
    filePaths := catalogue.filePaths.set name .missing }

def settleFile (catalogue : Catalogue) (name : Symbol) (directory : DirectoryId) (stat : Stat) :
    FileId × Catalogue :=
  match catalogue.fileIds[stat.identity]? with
  | some id => (id, { catalogue with filePaths := catalogue.filePaths.set name (.found id) })
  | none =>
    let (id, files) := catalogue.files.enter
      ⟨name, stat.size, stat.modified, directory, catalogue.nextUid, stat.identity, stat.mode⟩
    (id, { catalogue with
      files
      nextUid := catalogue.nextUid + 1
      fileIds := catalogue.fileIds.insert stat.identity id
      filePaths := catalogue.filePaths.set name (.found id) })

end Steps

section Lookups
variable {m : Type → Type} [Monad m]

/-- Looks up the directory at a path. The file system is asked only about paths it was not asked about before, and
is told that a directory is sought. -/
def directoryBy (ask : Sought → String → m (Except StatError Stat)) (path : String) (catalogue : Catalogue) :
    m (Option DirectoryId × Catalogue) := do
  let (name, catalogue) := catalogue.beginDirectory path
  match catalogue.directoryPaths.get name with
  | .found id => return (some id, catalogue)
  | .missing => return (none, catalogue)
  | .unknown =>
    let catalogue := catalogue.missDirectory name
    match Sought.directory.usable? (← ask .directory path) with
    | none => return (none, catalogue)
    | some answer =>
      let (id, catalogue) := catalogue.settleDirectory name answer
      return (some id, catalogue)

/-- Looks up the file at a path. Its directory is looked up first, and the file system is asked about the file
only if there is one. -/
def fileBy (ask : Sought → String → m (Except StatError Stat)) (path : String) (catalogue : Catalogue) :
    m (Option FileId × Catalogue) := do
  let (name, catalogue) := catalogue.beginFile path
  match catalogue.filePaths.get name with
  | .found id => return (some id, catalogue)
  | .missing => return (none, catalogue)
  | .unknown =>
    let catalogue := catalogue.missFile name
    match parent? path with
    | none => return (none, catalogue)
    | some parent =>
      match ← catalogue.directoryBy ask parent with
      | (none, catalogue) => return (none, catalogue)
      | (some directory, catalogue) =>
        match Sought.file.usable? (← ask .file path) with
        | none => return (none, catalogue)
        | some answer =>
          let (id, catalogue) := catalogue.settleFile name directory answer
          return (some id, catalogue)

def directory (stat : String → m (Except StatError Stat)) (path : String) (catalogue : Catalogue) :
    m (Option DirectoryId × Catalogue) :=
  catalogue.directoryBy (fun _ => stat) path

def file (stat : String → m (Except StatError Stat)) (path : String) (catalogue : Catalogue) :
    m (Option FileId × Catalogue) :=
  catalogue.fileBy (fun _ => stat) path

end Lookups

def resolveName (catalogue : Catalogue) (name : Symbol) : Except Fault String := catalogue.names.get name

def directoryName (catalogue : Catalogue) (id : DirectoryId) : Except Fault String := do
  catalogue.resolveName (← catalogue.directories.get id).name

def fileName (catalogue : Catalogue) (id : FileId) : Except Fault String := do
  catalogue.resolveName (← catalogue.files.get id).name

def sorted (catalogue : Catalogue) : List FileRecord :=
  catalogue.files.values.mergeSort fun left right => (left.compare right).isLE

end Catalogue
end Canon.File
