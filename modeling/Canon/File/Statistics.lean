import Canon.File.Catalogue

/-!
Statistics about a catalogue.
-/
namespace Canon.File

structure Statistics where
  directories : Nat
  files : Nat
  counters : Counters
  deriving DecidableEq, Repr

def Catalogue.statistics (catalogue : Catalogue) : Statistics :=
  ⟨catalogue.directories.size, catalogue.files.size, catalogue.counters⟩

def Statistics.render (statistics : Statistics) : String :=
  let counters := statistics.counters
  s!"\n*** File Manager Stats:\n{statistics.files} files found, {statistics.directories} dirs found.\n" ++
    s!"{counters.directoryLookups} dir lookups, {counters.directoryMisses} dir cache misses.\n" ++
    s!"{counters.fileLookups} file lookups, {counters.fileMisses} file cache misses.\n"

end Canon.File
