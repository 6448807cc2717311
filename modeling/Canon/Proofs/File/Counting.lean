import Mathlib.Data.List.Induction
import Canon.File.Statistics
import Canon.Proofs.File.Naming
import Canon.Proofs.File.Permanence
import Canon.Proofs.Lexicon.Appearance

/-!
What a catalogue asks and counts. A path is asked about where it is met first, as that of a directory or as that of a
file, and the counters can be read off the requests: they do not depend on what the file system answers.
-/
namespace Canon.File
variable {ω : Type}

namespace Request

def filePath? : Request → Option String
  | .directory _ => none
  | .file path => some path

def directoryPath? : Request → Option String
  | .directory path => some path
  | .file _ => none

def directories : Request → List String
  | .directory path => [path]
  | .file path => (parent? path).toList

end Request

def filePaths (requests : List Request) : List String := requests.filterMap Request.filePath?

def directoryPaths (requests : List Request) : List String := requests.filterMap Request.directoryPath?

/-- All paths that some requests look up as those of directories, if only to find a file. -/
def soughtDirectories (requests : List Request) : List String := requests.flatMap Request.directories

def namesFile (path : String) : Bool := path.toList.getLast? != some separator

def askedPaths (sought : Sought) (log : List Probe) : List String := (log.filter (·.sought = sought)).map Probe.path

def parentFound (log : List Probe) (path : String) : Bool :=
  (parent? path).any fun parent => (findings .directory log).any (·.path = parent)

theorem mem_askedPaths {sought : Sought} {log : List Probe} {path : String} :
    path ∈ askedPaths sought log ↔ ∃ probe ∈ log, probe.sought = sought ∧ probe.path = path := by
  simp only [askedPaths, List.mem_map, List.mem_filter, decide_eq_true_eq, and_assoc]

theorem askedPaths_same (log : List Probe) (sought : Sought) (path : String) (answer : Except StatError Stat) :
    askedPaths sought (log ++ [⟨sought, path, answer⟩]) = askedPaths sought log ++ [path] := by
  simp [askedPaths]

theorem askedPaths_other (log : List Probe) {sought : Sought} {probe : Probe} (other : probe.sought ≠ sought) :
    askedPaths sought (log ++ [probe]) = askedPaths sought log := by
  simp [askedPaths, other]

section Requests
variable {requests : List Request} {path parent : String}

theorem mem_filePaths : path ∈ filePaths requests ↔ .file path ∈ requests := by
  rw [filePaths, List.mem_filterMap]
  constructor
  · intro given
    obtain ⟨request, member, same⟩ := given
    cases request with
    | directory other => cases same
    | file other =>
      cases same
      exact member
  · intro member
    exact ⟨_, member, rfl⟩

theorem mem_soughtDirectories_of_file (asked : path ∈ filePaths requests) (above : parent? path = some parent) :
    parent ∈ soughtDirectories requests := by
  refine List.mem_flatMap.mpr ⟨.file path, mem_filePaths.mp asked, ?_⟩
  rw [Request.directories, above]
  exact List.mem_singleton.mpr rfl

theorem namesFile_eq (path : String) : namesFile path = (parent? path).isSome := by
  rw [Bool.eq_iff_iff, namesFile, bne_iff_ne, Ne, ← parent?_eq_none_iff, ← Ne, Option.ne_none_iff_isSome]

end Requests

def Counters.missing (counters : Counters) : Request → Counters
  | .directory _ => { counters with directoryMisses := counters.directoryMisses + 1 }
  | .file _ => { counters with fileMisses := counters.fileMisses + 1 }

def chargeDirectory (path : String) (known : Bool) (counters : Counters) : Counters :=
  if known then counters.counting (.directory path)
  else (counters.counting (.directory path)).missing (.directory path)

def tally (requests : List Request) : Counters where
  directoryLookups :=
    .ofNat ((directoryPaths requests).length + ((filePaths requests).eraseDups.filter namesFile).length)
  directoryMisses := .ofNat (soughtDirectories requests).eraseDups.length
  fileLookups := .ofNat (filePaths requests).length
  fileMisses := .ofNat (filePaths requests).eraseDups.length

/-- What is asked and counted for a directory look-up: nothing is asked if something is known about the path. -/
inductive ChargesDirectory (path : String) (memory : Resolution DirectoryId) (log : List Probe) (counters : Counters) :
    List Probe → Counters → Prop where
  | remembered (known : memory ≠ .unknown) :
    ChargesDirectory path memory log counters log (counters.counting (.directory path))
  | asked (unknown : memory = .unknown) (reply : Except StatError Stat) :
    ChargesDirectory path memory log counters (log ++ [⟨.directory, path, reply⟩])
      ((counters.counting (.directory path)).missing (.directory path))

/-- What is asked and counted for a file look-up. The directory is looked up only if nothing is known about the path,
and the file system is asked about the path only if there is a directory. -/
inductive ChargesFile (path : String) (before after : Catalogue) (log : List Probe) : List Probe → Prop where
  | remembered (known : before.fileAt path ≠ .unknown)
    (counters : after.counters = before.counters.counting (.file path)) : ChargesFile path before after log log
  | bare (unknown : before.fileAt path = .unknown) (above : parent? path = none)
    (counters : after.counters = (before.counters.counting (.file path)).missing (.file path)) :
    ChargesFile path before after log log
  | astray {parent : String} {later : List Probe} (unknown : before.fileAt path = .unknown)
    (above : parent? path = some parent)
    (nested : ChargesDirectory parent (before.directoryAt parent) log
      ((before.counters.counting (.file path)).missing (.file path)) later after.counters)
    (missing : after.directoryAt parent = .missing) : ChargesFile path before after log later
  | asked {parent : String} {directory : DirectoryId} {middle : List Probe} (unknown : before.fileAt path = .unknown)
    (above : parent? path = some parent)
    (nested : ChargesDirectory parent (before.directoryAt parent) log
      ((before.counters.counting (.file path)).missing (.file path)) middle after.counters)
    (found : after.directoryAt parent = .found directory) (reply : Except StatError Stat) :
    ChargesFile path before after log (middle ++ [⟨.file, path, reply⟩])

namespace Catalogue
variable {catalogue after : Catalogue} {watched later : Watched ω} {path : String}

theorem directoryBy_charges (named : catalogue.Named) (room : catalogue.names.size < 4294967295)
    (system : FileSystem ω) {answer : Option DirectoryId}
    (outcome : (catalogue.directoryBy (Watched.ask system) path).run watched = ((answer, after), later)) :
    ChargesDirectory path (catalogue.directoryAt path) watched.log catalogue.counters later.log after.counters := by
  rcases beginning : catalogue.beginDirectory path with ⟨name, begun⟩
  have interned := beginDirectory_spec named room beginning
  have begins : begun.counters = catalogue.counters.counting (.directory path) := by
    cases beginning
    rfl
  have missed : (begun.missDirectory name).counters =
      (catalogue.counters.counting (.directory path)).missing (.directory path) := by
    rw [← begins]
    rfl
  obtain ⟨id, known, equal⟩ | ⟨known, equal⟩ | ⟨unknown, reply, world, -, -, equal⟩ |
    ⟨unknown, reply, world, stat, id, settled, -, -, settling, equal⟩ :=
    directoryBy_cases system path catalogue watched beginning
  · cases equal.symm.trans outcome
    rw [begins]
    exact .remembered (by rw [← interned.directoryAt_eq, known]; exact nofun)
  · cases equal.symm.trans outcome
    rw [begins]
    exact .remembered (by rw [← interned.directoryAt_eq, known]; exact nofun)
  · cases equal.symm.trans outcome
    rw [missed]
    exact .asked (interned.directoryAt_eq.symm.trans unknown) reply
  · cases equal.symm.trans outcome
    have counters := settleDirectory_counters (begun.missDirectory name) name stat
    rw [settling] at counters
    rw [counters, missed]
    exact .asked (interned.directoryAt_eq.symm.trans unknown) reply

theorem settleFile_directoryAt (catalogue : Catalogue) (name : Symbol) (directory : DirectoryId) (stat : Stat) :
    (catalogue.settleFile name directory stat).2.directoryAt = catalogue.directoryAt := by
  rcases settleFile_cases catalogue name directory stat with ⟨id, -, equal⟩ | ⟨-, equal⟩
  · rw [equal]
    rfl
  · rw [equal]
    rfl

theorem Recounts.directoryBy_charges (recounts : catalogue.Recounts watched.log)
    (room : catalogue.names.size < 4294967295) (few : watched.log.length < 4294967295) (system : FileSystem ω) {answer : Option DirectoryId}
    (outcome : (catalogue.directoryBy (Watched.ask system) path).run watched = ((answer, after), later)) :
    ChargesDirectory path (catalogue.directoryAt path) watched.log catalogue.counters later.log after.counters ∧
      after.directoryAt path = .ofAnswer answer :=
  ⟨Catalogue.directoryBy_charges recounts.named room system outcome,
    (recounts.directoryBy room few system outcome).2.answered⟩

theorem Recounts.fileBy_charges (recounts : catalogue.Recounts watched.log)
    (room : catalogue.names.size + 1 < 4294967295) (few : watched.log.length + 1 < 4294967295) (system : FileSystem ω)
    {answer : Option FileId}
    (outcome : (catalogue.fileBy (Watched.ask system) path).run watched = ((answer, after), later)) :
    ChargesFile path catalogue after watched.log later.log := by
  rcases beginning : catalogue.beginFile path with ⟨name, begun⟩
  have interned := beginFile_spec recounts.named (by omega) beginning
  have size := interned.size_names_le
  have begins : begun.counters = catalogue.counters.counting (.file path) := by
    cases beginning
    rfl
  have missed : (begun.missFile name).counters = (catalogue.counters.counting (.file path)).missing (.file path) := by
    rw [← begins]
    rfl
  have small : (begun.missFile name).names.size < 4294967295 := show begun.names.size < 4294967295 by omega
  have memory : (begun.missFile name).directoryAt = catalogue.directoryAt := interned.directoryAt
  obtain ⟨id, known, equal⟩ | ⟨known, equal⟩ | ⟨unknown, above, equal⟩ | ⟨unknown, parent, rest⟩ |
    ⟨unknown, parent, rest⟩ | ⟨unknown, parent, rest⟩ := fileBy_cases system path catalogue watched beginning
  · cases equal.symm.trans outcome
    exact .remembered (by rw [← interned.fileAt_eq, known]; exact nofun) begins
  · cases equal.symm.trans outcome
    exact .remembered (by rw [← interned.fileAt_eq, known]; exact nofun) begins
  all_goals
    have blank : catalogue.fileAt path = .unknown := interned.fileAt_eq.symm.trans unknown
    have noted := (recounts.interned interned).miss interned.symbol (interned.fileAt ▸ blank)
  · cases equal.symm.trans outcome
    exact .bare blank above missed
  · obtain ⟨within, middle, above, nested, equal⟩ := rest
    cases equal.symm.trans outcome
    obtain ⟨charges, missing⟩ := noted.directoryBy_charges small (by omega) system nested
    rw [memory, missed] at charges
    exact .astray blank above charges missing
  · obtain ⟨directory, within, middle, reply, world, above, nested, -, -, equal⟩ := rest
    cases equal.symm.trans outcome
    obtain ⟨charges, found⟩ := noted.directoryBy_charges small (by omega) system nested
    rw [memory, missed] at charges
    exact .asked blank above charges found reply
  · obtain ⟨directory, within, middle, reply, world, stat, id, settled, above, nested, -, -, settling, equal⟩ := rest
    cases equal.symm.trans outcome
    obtain ⟨charges, found⟩ := noted.directoryBy_charges small (by omega) system nested
    rw [memory, missed] at charges
    have counters := settleFile_counters within name directory stat
    have directories := settleFile_directoryAt within name directory stat
    rw [settling] at counters directories
    rw [← counters] at charges
    exact .asked blank above charges (directories ▸ found) reply

end Catalogue

section Tally
variable {requests : List Request} {path parent : String}

theorem filePaths_concat (requests : List Request) (request : Request) :
    filePaths (requests ++ [request]) = filePaths requests ++ request.filePath?.toList := by
  cases request with
  | directory path => exact List.filterMap_append
  | file path => exact List.filterMap_append

theorem directoryPaths_concat (requests : List Request) (request : Request) :
    directoryPaths (requests ++ [request]) = directoryPaths requests ++ request.directoryPath?.toList := by
  cases request with
  | directory path => exact List.filterMap_append
  | file path => exact List.filterMap_append

theorem soughtDirectories_concat (requests : List Request) (request : Request) :
    soughtDirectories (requests ++ [request]) = soughtDirectories requests ++ request.directories := by
  rw [soughtDirectories, List.flatMap_append, List.flatMap_singleton]
  rfl

theorem ofNat_length_eraseDups_concat (list : List String) (last : String) :
    UInt32.ofNat (list ++ [last]).eraseDups.length =
      if last ∈ list then UInt32.ofNat list.eraseDups.length else UInt32.ofNat list.eraseDups.length + 1 := by
  by_cases old : last ∈ list
  · rw [if_pos old, eraseDups_concat_of_mem old]
  · rw [if_neg old, eraseDups_concat_of_not_mem old, List.length_append, UInt32.ofNat_add]
    rfl

theorem length_filePaths_file (requests : List Request) (path : String) :
    (filePaths (requests ++ [.file path])).length = (filePaths requests).length + 1 := by
  rw [filePaths_concat]
  exact List.length_append

theorem filePaths_directory (requests : List Request) (path : String) :
    filePaths (requests ++ [.directory path]) = filePaths requests := by
  rw [filePaths_concat]
  exact List.append_nil _

theorem directoryPaths_file (requests : List Request) (path : String) :
    directoryPaths (requests ++ [.file path]) = directoryPaths requests := by
  rw [directoryPaths_concat]
  exact List.append_nil _

theorem eraseDups_soughtDirectories_file (old : path ∈ filePaths requests) :
    (soughtDirectories (requests ++ [.file path])).eraseDups = (soughtDirectories requests).eraseDups := by
  rw [soughtDirectories_concat, Request.directories]
  cases above : parent? path with
  | none => rw [Option.toList_none, List.append_nil]
  | some parent => exact eraseDups_concat_of_mem (mem_soughtDirectories_of_file old above)

theorem tally_remembered_file (old : path ∈ filePaths requests) :
    tally (requests ++ [.file path]) = (tally requests).counting (.file path) := by
  have paths : (filePaths (requests ++ [.file path])).eraseDups = (filePaths requests).eraseDups := by
    rw [filePaths_concat]
    exact eraseDups_concat_of_mem old
  simp only [tally, Counters.counting, paths, eraseDups_soughtDirectories_file old, length_filePaths_file,
    directoryPaths_file, UInt32.ofNat_add]
  rfl

theorem tally_new_file (new : path ∉ filePaths requests) :
    tally (requests ++ [.file path]) = match parent? path with
      | none => ((tally requests).counting (.file path)).missing (.file path)
      | some parent => chargeDirectory parent (parent ∈ soughtDirectories requests)
          (((tally requests).counting (.file path)).missing (.file path)) := by
  have paths : (filePaths (requests ++ [.file path])).eraseDups = (filePaths requests).eraseDups ++ [path] := by
    rw [filePaths_concat]
    exact eraseDups_concat_of_not_mem new
  have sought := soughtDirectories_concat requests (.file path)
  rw [Request.directories] at sought
  cases above : parent? path with
  | none =>
    have named : [path].filter namesFile = [] := by simp [namesFile_eq, above]
    rw [above, Option.toList_none, List.append_nil] at sought
    simp [tally, Counters.counting, Counters.missing, paths, sought, named, length_filePaths_file, directoryPaths_file]
  | some parent =>
    have named : [path].filter namesFile = [path] := by simp [namesFile_eq, above]
    rw [above, Option.toList_some] at sought
    simp only [tally, paths, sought, named, length_filePaths_file, directoryPaths_file, List.filter_append,
      List.length_append, List.length_singleton, UInt32.ofNat_add, ofNat_length_eraseDups_concat]
    by_cases old : parent ∈ soughtDirectories requests
    · simp [chargeDirectory, Counters.counting, Counters.missing, old, UInt32.add_assoc]
    · simp [chargeDirectory, Counters.counting, Counters.missing, old, UInt32.add_assoc]

theorem tally_directory (requests : List Request) (path : String) :
    tally (requests ++ [.directory path]) =
      chargeDirectory path (path ∈ soughtDirectories requests) (tally requests) := by
  have sought : soughtDirectories (requests ++ [.directory path]) = soughtDirectories requests ++ [path] :=
    soughtDirectories_concat requests _
  have length : (directoryPaths (requests ++ [.directory path])).length = (directoryPaths requests).length + 1 := by
    rw [directoryPaths_concat]
    exact List.length_append
  simp only [tally, filePaths_directory, sought, length, Nat.add_right_comm _ 1, UInt32.ofNat_add,
    ofNat_length_eraseDups_concat]
  by_cases old : path ∈ soughtDirectories requests
  · simp [chargeDirectory, Counters.counting, old]
  · simp [chargeDirectory, Counters.counting, Counters.missing, old]

end Tally

theorem ChargesDirectory.follows {path : String} {memory : Resolution DirectoryId} {log later : List Probe}
    {counters after : Counters} {paths : List String}
    (charges : ChargesDirectory path memory log counters later after) (known : memory ≠ .unknown ↔ path ∈ paths)
    (asked : askedPaths .directory log = paths.eraseDups) :
    askedPaths .directory later = (paths ++ [path]).eraseDups ∧ askedPaths .file later = askedPaths .file log ∧
      after = chargeDirectory path (path ∈ paths) counters := by
  cases charges with
  | remembered remembers =>
    have old := known.mp remembers
    refine ⟨by rw [asked, eraseDups_concat_of_mem old], rfl, ?_⟩
    simp [chargeDirectory, old]
  | asked unknown reply =>
    have new : path ∉ paths := fun old => known.mpr old unknown
    refine ⟨?_, askedPaths_other log Sought.noConfusion, ?_⟩
    · rw [askedPaths_same, asked, eraseDups_concat_of_not_mem new]
    · simp [chargeDirectory, new]

def Resolution.isFound {κ : Type} : Resolution κ → Bool
  | .found _ => true
  | _ => false

def Catalogue.findsParent (catalogue : Catalogue) (path : String) : Bool :=
  (parent? path).any fun parent => (catalogue.directoryAt parent).isFound

namespace Visit
variable {visit : Visit ω} {requests : List Request} {path : String}

structure Charged (visit : Visit ω) (requests : List Request) : Prop where
  directories : askedPaths .directory visit.log = (soughtDirectories requests).eraseDups
  files : askedPaths .file visit.log = (filePaths requests).eraseDups.filter visit.catalogue.findsParent
  counters : visit.catalogue.counters = tally requests

namespace Charged

theorem directory_known (charged : visit.Charged requests) (consistent : visit.Consistent) :
    visit.catalogue.directoryAt path ≠ .unknown ↔ path ∈ soughtDirectories requests := by
  have recounts := consistent.recounts.directories
  rw [← List.mem_eraseDups, ← charged.directories, mem_askedPaths]
  constructor
  · exact recounts.probed path
  · intro given
    obtain ⟨probe, member, kind, rfl⟩ := given
    exact recounts.indexes.asked probe member kind

theorem filter_findsParent (charged : visit.Charged requests) (consistent : visit.Consistent) {after : Visit ω}
    (continues : visit.Continues after) :
    (filePaths requests).eraseDups.filter after.catalogue.findsParent =
      (filePaths requests).eraseDups.filter visit.catalogue.findsParent := by
  refine List.filter_congr fun path member => ?_
  rw [Catalogue.findsParent, Catalogue.findsParent]
  cases above : parent? path with
  | none => rfl
  | some parent =>
    have sought := mem_soughtDirectories_of_file (List.mem_eraseDups.mp member) above
    have known := (charged.directory_known consistent).mpr sought
    rw [Option.any_some, Option.any_some, continues.remembers.directories parent known]

theorem serve_directory (charged : visit.Charged requests) (consistent : visit.Consistent)
    (few : visit.calls.length + 1 < 2147483648) (system : FileSystem ω) (path : String) :
    (visit.serve system (.directory path)).Charged (requests ++ [.directory path]) := by
  obtain ⟨-, continues, -⟩ := consistent.serve few system (.directory path)
  have names := consistent.names
  rcases outcome : (visit.catalogue.directoryBy (Watched.ask system) path).run visit.watched with
    ⟨⟨answer, after⟩, later⟩
  have charges := Catalogue.directoryBy_charges consistent.recounts.named (by omega) system outcome
  obtain ⟨directories, files, counters⟩ :=
    charges.follows (charged.directory_known consistent) charged.directories
  have served : visit.serve system (.directory path) = ⟨after, later, visit.calls ++ [.directory path answer]⟩ := by
    simp only [Visit.serve, outcome]
  constructor
  · rw [served, soughtDirectories_concat]
    exact directories
  · rw [filePaths_directory, charged.filter_findsParent consistent continues, ← charged.files, served]
    exact files
  · rw [served, tally_directory, ← charged.counters]
    exact counters

section File
variable {after : Visit ω} (charged : visit.Charged requests)
  (kept : (filePaths requests).eraseDups.filter after.catalogue.findsParent =
    (filePaths requests).eraseDups.filter visit.catalogue.findsParent)
include charged kept

theorem again (old : path ∈ filePaths requests) (log : after.log = visit.log)
    (counters : after.catalogue.counters = visit.catalogue.counters.counting (.file path)) :
    after.Charged (requests ++ [.file path]) := by
  constructor
  · rw [log, eraseDups_soughtDirectories_file old]
    exact charged.directories
  · have paths : filePaths (requests ++ [.file path]) = filePaths requests ++ [path] :=
      filePaths_concat requests (.file path)
    rw [log, paths, eraseDups_concat_of_mem old, kept]
    exact charged.files
  · rw [tally_remembered_file old, ← charged.counters]
    exact counters

theorem filter_new (new : path ∉ filePaths requests) :
    (filePaths (requests ++ [.file path])).eraseDups.filter after.catalogue.findsParent =
      askedPaths .file visit.log ++ if after.catalogue.findsParent path then [path] else [] := by
  have paths : filePaths (requests ++ [.file path]) = filePaths requests ++ [path] :=
    filePaths_concat requests (.file path)
  rw [paths, eraseDups_concat_of_not_mem new, List.filter_append, kept, ← charged.files, List.filter_singleton,
    Bool.cond_eq_ite]

theorem bare (new : path ∉ filePaths requests) (above : parent? path = none) (log : after.log = visit.log)
    (counters : after.catalogue.counters = (visit.catalogue.counters.counting (.file path)).missing (.file path)) :
    after.Charged (requests ++ [.file path]) := by
  have sought := soughtDirectories_concat requests (.file path)
  rw [Request.directories, above, Option.toList_none, List.append_nil] at sought
  constructor
  · rw [log, sought]
    exact charged.directories
  · have nowhere : after.catalogue.findsParent path = false := by rw [Catalogue.findsParent, above, Option.any_none]
    rw [charged.filter_new kept new, nowhere, log]
    exact (List.append_nil _).symm
  · rw [tally_new_file new, above, ← charged.counters]
    exact counters

variable (consistent : visit.Consistent) {parent : String} (new : path ∉ filePaths requests)
  (above : parent? path = some parent) {middle : List Probe}
  (nested : ChargesDirectory parent (visit.catalogue.directoryAt parent) visit.log
    ((visit.catalogue.counters.counting (.file path)).missing (.file path)) middle after.catalogue.counters)
include consistent new above nested

theorem behind_directory (files : askedPaths .file after.log =
      askedPaths .file middle ++ if after.catalogue.findsParent path then [path] else [])
    (directories : askedPaths .directory after.log = askedPaths .directory middle) :
    after.Charged (requests ++ [.file path]) := by
  obtain ⟨found, others, counters⟩ := nested.follows (charged.directory_known consistent) charged.directories
  have sought := soughtDirectories_concat requests (.file path)
  rw [Request.directories, above, Option.toList_some] at sought
  constructor
  · rw [sought, directories]
    exact found
  · rw [charged.filter_new kept new, files, others]
  · rw [tally_new_file new, above, ← charged.counters]
    exact counters

theorem astray (missing : after.catalogue.directoryAt parent = .missing) (log : after.log = middle) :
    after.Charged (requests ++ [.file path]) := by
  have nowhere : after.catalogue.findsParent path = false := by
    rw [Catalogue.findsParent, above, Option.any_some, missing]
    rfl
  apply charged.behind_directory kept consistent new above nested
  · rw [nowhere, log]
    exact (List.append_nil _).symm
  · rw [log]

theorem asked {directory : DirectoryId} (found : after.catalogue.directoryAt parent = .found directory)
    {reply : Except StatError Stat} (log : after.log = middle ++ [⟨.file, path, reply⟩]) :
    after.Charged (requests ++ [.file path]) := by
  have finds : after.catalogue.findsParent path = true := by
    rw [Catalogue.findsParent, above, Option.any_some, found]
    rfl
  apply charged.behind_directory kept consistent new above nested
  · rw [finds, log, askedPaths_same]
    rfl
  · rw [log]
    exact askedPaths_other middle Sought.noConfusion

end File

theorem serve_file (charged : visit.Charged requests) (consistent : visit.Consistent)
    (few : visit.calls.length + 1 < 2147483648) (system : FileSystem ω) (path : String)
    (known : visit.catalogue.fileAt path ≠ .unknown ↔ path ∈ filePaths requests) :
    (visit.serve system (.file path)).Charged (requests ++ [.file path]) := by
  obtain ⟨-, continues, -⟩ := consistent.serve few system (.file path)
  have names := consistent.names
  have short : visit.watched.log.length ≤ 2 * visit.calls.length := consistent.log
  rcases outcome : (visit.catalogue.fileBy (Watched.ask system) path).run visit.watched with
    ⟨⟨answer, after⟩, ⟨world, log⟩⟩
  have charges : ChargesFile path visit.catalogue after visit.watched.log log :=
    Catalogue.Recounts.fileBy_charges consistent.recounts (by omega) (by omega) system outcome
  have served : visit.serve system (.file path) = ⟨after, ⟨world, log⟩, visit.calls ++ [.file path answer]⟩ := by
    simp only [Visit.serve, outcome]
  have kept := charged.filter_findsParent consistent continues
  have new (unknown : visit.catalogue.fileAt path = .unknown) : path ∉ filePaths requests :=
    fun old => known.mpr old unknown
  rw [served] at kept ⊢
  cases charges with
  | remembered remembers counters => exact charged.again kept (known.mp remembers) rfl counters
  | bare unknown above counters => exact charged.bare kept (new unknown) above rfl counters
  | astray unknown above nested missing => exact charged.astray kept consistent (new unknown) above nested missing rfl
  | asked unknown above nested found reply => exact charged.asked kept consistent (new unknown) above nested found rfl

end Charged

theorem known_file_iff (system : FileSystem ω) (world : ω) {requests : List Request}
    (few : requests.length < 2147483648) (path : String) :
    (run system world requests).catalogue.fileAt path ≠ .unknown ↔ path ∈ filePaths requests := by
  rw [mem_filePaths]
  constructor
  · exact requested_of_known system world requests few
  · intro asked
    obtain ⟨consistent, answered⟩ := consistent_run system world requests few
    obtain ⟨answer, called⟩ := exists_file_call answered asked
    have known : (run system world requests).catalogue.fileAt path = .ofAnswer answer := consistent.stands _ called
    exact known ▸ Resolution.ofAnswer_ne_unknown answer

theorem charged_run (system : FileSystem ω) (world : ω) (requests : List Request)
    (few : requests.length < 2147483648) : (run system world requests).Charged requests := by
  induction requests using List.reverseRecOn with
  | nil => exact ⟨rfl, rfl, rfl⟩
  | append_singleton earlier request ih =>
    rw [List.length_append, List.length_singleton] at few
    obtain ⟨consistent, answered⟩ := consistent_run system world earlier (by omega)
    have count : (run system world earlier).calls.length = earlier.length := by
      rw [← List.length_map, answered]
    rw [run_append, serveAll_cons, serveAll_nil]
    cases request with
    | directory path => exact (ih (by omega)).serve_directory consistent (by omega) system path
    | file path =>
      exact (ih (by omega)).serve_file consistent (by omega) system path (known_file_iff system world (by omega) path)

end Visit
end Canon.File
