import Canon.Proofs.File.Index
import Canon.Proofs.File.Resolution
import Canon.Proofs.File.Watch

/-!
A catalogue recounts the questions that were asked on its behalf: its memories, indices and records are those that
the log of questions gives. Every look-up keeps this, from any state and for any answers.
-/
namespace Canon.File
variable {ω : Type}

def Resolution.ofAnswer {κ : Type} : Option κ → Resolution κ
  | some id => .found id
  | none => .missing

theorem Resolution.ofAnswer_ne_unknown {κ : Type} (answer : Option κ) : Resolution.ofAnswer answer ≠ .unknown := by
  cases answer <;> simp [Resolution.ofAnswer]

namespace Catalogue

/-- A record that holds what was found when its file was discovered, as the file with some number. -/
structure Describes (catalogue : Catalogue) (number : Nat) (discovery : Finding) (record : FileRecord) : Prop where
  name : catalogue.names.find? discovery.path = some record.name
  size : record.size = discovery.stat.size
  modified : record.modified = discovery.stat.modified
  directory : ∃ parent, parent? discovery.path = some parent ∧ catalogue.directoryAt parent = .found record.directory
  uid : record.uid.toNat = number
  identity : record.identity = discovery.stat.identity
  mode : record.mode = discovery.stat.mode

structure RecountsDirectories (catalogue : Catalogue) (log : List Probe) : Prop where
  indexes : Indexes .directory log catalogue.directoryAt catalogue.directoryIds
  probed : ∀ path, catalogue.directoryAt path ≠ .unknown → ∃ probe ∈ log, probe.sought = .directory ∧ probe.path = path
  count : catalogue.directories.size = (discoveries .directory log).length
  records : ∀ (i : Nat) (discovery : Finding), (discoveries .directory log)[i]? = some discovery →
    ∃ record : DirectoryRecord, catalogue.directories.records[i]? = some record ∧
      catalogue.names.find? discovery.path = some record.name

structure RecountsFiles (catalogue : Catalogue) (log : List Probe) : Prop where
  indexes : Indexes .file log catalogue.fileAt catalogue.fileIds
  count : catalogue.files.size = (discoveries .file log).length
  nextUid : catalogue.nextUid.toNat = (discoveries .file log).length
  records : ∀ (i : Nat) (discovery : Finding), (discoveries .file log)[i]? = some discovery →
    ∃ record : FileRecord, catalogue.files.records[i]? = some record ∧ catalogue.Describes i discovery record
  parents : ∀ finding ∈ findings .file log, ∃ parent directory, parent? finding.path = some parent ∧
    catalogue.directoryAt parent = .found directory

/-- A catalogue that is what a log of questions makes of it. -/
structure Recounts (catalogue : Catalogue) (log : List Probe) : Prop where
  named : catalogue.Named
  directories : catalogue.RecountsDirectories log
  files : catalogue.RecountsFiles log

/-- What is known of directories stays known, and symbols are kept. -/
structure Remembers (before after : Catalogue) : Prop where
  names : ∀ path name, before.names.find? path = some name → after.names.find? path = some name
  directories : ∀ path, before.directoryAt path ≠ .unknown → after.directoryAt path = before.directoryAt path

theorem Remembers.refl (catalogue : Catalogue) : catalogue.Remembers catalogue := ⟨fun _ _ => id, fun _ _ => rfl⟩

theorem Remembers.trans {first second third : Catalogue} (early : first.Remembers second)
    (late : second.Remembers third) : first.Remembers third where
  names path name found := late.names path name (early.names path name found)
  directories path known := by
    have same := early.directories path known
    rw [late.directories path (same ▸ known), same]

theorem Remembers.found {before after : Catalogue} (remembers : before.Remembers after) {path : String}
    {id : DirectoryId} (found : before.directoryAt path = .found id) : after.directoryAt path = .found id := by
  rw [remembers.directories path (by simp [found]), found]

theorem Remembers.of_same {before after : Catalogue} (names : after.names = before.names)
    (directoryAt : after.directoryAt = before.directoryAt) : before.Remembers after :=
  ⟨fun _ _ found => names ▸ found, fun _ _ => by rw [directoryAt]⟩

theorem Remembers.of_noted {before after : Catalogue} {path : String} {value : Resolution DirectoryId}
    (blank : before.directoryAt path = .unknown) (names : after.names = before.names)
    (noted : ∀ other, after.directoryAt other = if other = path then value else before.directoryAt other) :
    before.Remembers after where
  names _ _ found := names ▸ found
  directories other known := by
    rw [noted, if_neg]
    intro same
    subst same
    exact known blank

theorem Describes.remembered {before after : Catalogue} (remembers : before.Remembers after) {number : Nat}
    {discovery : Finding} {record : FileRecord} (describes : before.Describes number discovery record) :
    after.Describes number discovery record where
  name := remembers.names _ _ describes.name
  size := describes.size
  modified := describes.modified
  directory := by
    obtain ⟨parent, above, found⟩ := describes.directory
    exact ⟨parent, above, remembers.found found⟩
  uid := describes.uid
  identity := describes.identity
  mode := describes.mode

theorem recounts_empty : empty.Recounts [] where
  named := named_empty
  directories :=
    { indexes := Indexes.start _ _ directoryAt_empty
      probed := fun path known => absurd (directoryAt_empty path) known
      count := rfl
      records := by simp [discoveries, findings] }
  files :=
    { indexes := Indexes.start _ _ fileAt_empty
      count := rfl
      nextUid := rfl
      records := by simp [discoveries, findings]
      parents := by simp [findings] }

theorem RecountsFiles.described {before after : Catalogue} {log : List Probe} (recounts : before.RecountsFiles log)
    (remembers : before.Remembers after) (i : Nat) (discovery : Finding)
    (read : (discoveries .file log)[i]? = some discovery) :
    ∃ record, before.files.records[i]? = some record ∧ after.Describes i discovery record := by
  obtain ⟨record, entered, describes⟩ := recounts.records i discovery read
  exact ⟨record, entered, describes.remembered remembers⟩

theorem RecountsFiles.directory_probe {before after : Catalogue} {log : List Probe}
    (recounts : before.RecountsFiles log) (remembers : before.Remembers after) (at_ : after.fileAt = before.fileAt)
    (ids : after.fileIds = before.fileIds)
    (files : after.files = before.files) (uid : after.nextUid = before.nextUid) {probe : Probe}
    (directory : probe.sought = .directory) : after.RecountsFiles (log ++ [probe]) := by
  have other : probe.sought ≠ .file := by rw [directory]; exact Sought.noConfusion
  have nothing : probe.finding? .file = none := Probe.finding?_other other
  constructor
  · rw [at_, ids]
    exact recounts.indexes.other_probe other
  · rw [files, discoveries_concat_none nothing]
    exact recounts.count
  · rw [uid, discoveries_concat_none nothing]
    exact recounts.nextUid
  · rw [files, discoveries_concat_none nothing]
    exact recounts.described remembers
  · intro finding member
    rw [findings_concat_none nothing] at member
    obtain ⟨parent, directory, above, found⟩ := recounts.parents finding member
    exact ⟨parent, directory, above, remembers.found found⟩

theorem records_push {α : Type} {records : Array α} {found : List Finding} {fits : Nat → Finding → α → Prop}
    (count : records.size = found.length)
    (old : ∀ (i : Nat) (finding : Finding), found[i]? = some finding →
      ∃ record, records[i]? = some record ∧ fits i finding record)
    {last : Finding} {record : α} (new : fits found.length last record) (i : Nat) (finding : Finding)
    (read : (found ++ [last])[i]? = some finding) :
    ∃ entered, (records.push record)[i]? = some entered ∧ fits i finding entered := by
  by_cases early : i < found.length
  · rw [List.getElem?_append_left early] at read
    obtain ⟨entered, here, right⟩ := old i finding read
    exact ⟨entered, by rw [Array.getElem?_push_lt (by omega), ← here, Array.getElem?_eq_getElem], right⟩
  · have bound := (List.getElem?_eq_some_iff.mp read).choose
    rw [List.length_append, List.length_singleton] at bound
    have same : i = found.length := by omega
    subst same
    rw [List.getElem?_concat_length, Option.some.injEq] at read
    subst read
    exact ⟨record, by rw [← count, Array.getElem?_push_size], new⟩

namespace RecountsDirectories
variable {catalogue : Catalogue} {log : List Probe} {path : String} {name : Symbol} {answer : Except StatError Stat}

theorem refuse (recounts : catalogue.RecountsDirectories log) (named : catalogue.Named)
    (symbol : catalogue.names.find? path = some name) (unknown : catalogue.directoryAt path = .unknown)
    (useless : Sought.directory.usable? answer = none) :
    (catalogue.missDirectory name).RecountsDirectories (log ++ [⟨.directory, path, answer⟩]) := by
  obtain ⟨-, noted⟩ := missDirectory_spec named symbol
  have nothing : Probe.finding? .directory ⟨.directory, path, answer⟩ = none := by
    rw [Probe.finding?_same, useless]
    rfl
  constructor
  · exact (recounts.indexes.miss unknown noted).refuse useless (by rw [noted, if_pos rfl])
      (recounts.indexes.not_asked unknown)
  · intro other known
    by_cases same : other = path
    · exact ⟨_, List.mem_append_right _ (List.mem_singleton.mpr rfl), rfl, same.symm⟩
    · rw [noted, if_neg same] at known
      obtain ⟨probe, member, rest⟩ := recounts.probed other known
      exact ⟨probe, List.mem_append_left _ member, rest⟩
  · rw [discoveries_concat_none nothing]
    exact recounts.count
  · rw [discoveries_concat_none nothing]
    exact recounts.records

theorem settle (recounts : catalogue.RecountsDirectories log) (few : log.length < 4294967295) (named : catalogue.Named)
    (symbol : catalogue.names.find? path = some name) (unknown : catalogue.directoryAt path = .unknown) {stat : Stat}
    (usable : Sought.directory.usable? answer = some stat) {id : DirectoryId} {settled : Catalogue}
    (outcome : (catalogue.missDirectory name).settleDirectory name stat = (id, settled)) :
    settled.RecountsDirectories (log ++ [⟨.directory, path, answer⟩]) ∧ settled.Named ∧
      (∀ other, settled.directoryAt other = if other = path then .found id else catalogue.directoryAt other) ∧
      settled.names = catalogue.names ∧ settled.fileAt = catalogue.fileAt ∧ settled.fileIds = catalogue.fileIds ∧
      settled.files = catalogue.files ∧ settled.nextUid = catalogue.nextUid ∧
      catalogue.directories.values <+: settled.directories.values := by
  obtain ⟨missed, missing⟩ := missDirectory_spec named symbol
  have new := recounts.indexes.not_asked unknown
  have finding : Probe.finding? .directory ⟨.directory, path, answer⟩ = some ⟨path, stat⟩ := by
    rw [Probe.finding?_same, usable]
    rfl
  have noted (value : Resolution DirectoryId) (other : String) :
      resolution catalogue.names ((catalogue.missDirectory name).directoryPaths.set name value) other =
        if other = path then value else catalogue.directoryAt other := by
    refine (resolution_set missed.faithful symbol value other).trans ?_
    by_cases same : other = path
    · rw [if_pos same, if_pos same]
    · rw [if_neg same, if_neg same]
      exact (missing other).trans (if_neg same)
  have vacant (value : Resolution DirectoryId) :
      Vacant catalogue.names ((catalogue.missDirectory name).directoryPaths.set name value) :=
    missed.directories.set (missed.faithful.index_lt_size symbol) value
  have asked : ∀ other, (if other = path then Resolution.found id else catalogue.directoryAt other) ≠ .unknown →
      ∃ probe ∈ log ++ [⟨.directory, path, answer⟩], probe.sought = .directory ∧ probe.path = other := by
    intro other known
    by_cases same : other = path
    · exact ⟨_, List.mem_append_right _ (List.mem_singleton.mpr rfl), rfl, same.symm⟩
    · rw [if_neg same] at known
      obtain ⟨probe, member, rest⟩ := recounts.probed other known
      exact ⟨probe, List.mem_append_left _ member, rest⟩
  rcases settleDirectory_cases (catalogue.missDirectory name) name stat with ⟨old, known, equal⟩ | ⟨absent, equal⟩
  · rw [equal, Prod.mk.injEq] at outcome
    obtain ⟨rfl, rfl⟩ := outcome
    obtain ⟨unchanged, indexes⟩ := recounts.indexes.rediscover (by omega) usable known new (noted (.found old))
    refine ⟨⟨indexes, ?_, ?_, ?_⟩, ⟨named.faithful, vacant _, named.files⟩, noted _, rfl, rfl, rfl, rfl, rfl,
      List.prefix_refl _⟩
    · intro other known
      exact asked other (noted _ other ▸ known)
    · rw [unchanged]
      exact recounts.count
    · rw [unchanged]
      exact recounts.records
  · have count : (catalogue.missDirectory name).directories.size = (discoveries .directory log).length := recounts.count
    rw [equal, count, Prod.mk.injEq] at outcome
    obtain ⟨rfl, rfl⟩ := outcome
    obtain ⟨grown, indexes⟩ := recounts.indexes.discover few usable absent new (noted (.found _))
    refine ⟨⟨indexes, ?_, ?_, ?_⟩, ⟨named.faithful, vacant _, named.files⟩, noted _, rfl, rfl, rfl, rfl, rfl, ?_⟩
    · intro other known
      exact asked other (noted _ other ▸ known)
    · rw [grown, List.length_append, ← recounts.count]
      exact Array.size_push _
    · intro i discovery read
      rw [grown] at read
      exact records_push count recounts.records symbol i discovery read
    · exact ⟨[⟨name⟩], Array.toList_push.symm⟩

end RecountsDirectories

structure LooksUpDirectory (path : String) (before after : Catalogue) (log later : List Probe)
    (answer : Option DirectoryId) : Prop where
  names : after.names = (before.names.intern path).2
  answered : after.directoryAt path = .ofAnswer answer
  kept : ∀ other, before.directoryAt other ≠ .unknown → after.directoryAt other = before.directoryAt other
  fileAt : after.fileAt = before.fileAt
  fileIds : after.fileIds = before.fileIds
  files : after.files = before.files
  nextUid : after.nextUid = before.nextUid
  directories : before.directories.values <+: after.directories.values
  asked : later = log ∨ ∃ reply, later = log ++ [⟨.directory, path, reply⟩]

namespace LooksUpDirectory
variable {path : String} {before after : Catalogue} {log later : List Probe} {answer : Option DirectoryId}

theorem remembers (looked : LooksUpDirectory path before after log later answer) : before.Remembers after where
  names other name found := by
    rw [looked.names]
    exact Lexicon.find?_intern_of_find? found path
  directories := looked.kept

theorem log_prefix (looked : LooksUpDirectory path before after log later answer) : log <+: later := by
  rcases looked.asked with same | ⟨reply, more⟩
  · exact same ▸ List.prefix_refl log
  · rw [more]
    exact List.prefix_append log _

theorem length_log_le (looked : LooksUpDirectory path before after log later answer) :
    later.length ≤ log.length + 1 := by
  rcases looked.asked with same | ⟨reply, more⟩
  · exact same ▸ Nat.le_succ _
  · exact more ▸ Nat.le_of_eq List.length_append

theorem size_names_le (looked : LooksUpDirectory path before after log later answer) :
    after.names.size ≤ before.names.size + 1 := by
  rw [looked.names]
  exact Lexicon.size_intern_le _ _

theorem not_asked (looked : LooksUpDirectory path before after log later answer) {file : String}
    (new : ∀ probe ∈ log, probe.sought = .file → probe.path ≠ file) :
    ∀ probe ∈ later, probe.sought = .file → probe.path ≠ file := by
  intro probe member kind
  rcases looked.asked with same | ⟨reply, more⟩
  · exact new probe (same ▸ member) kind
  · rw [more] at member
    rcases List.mem_append.mp member with old | last
    · exact new probe old kind
    · rw [List.mem_singleton.mp last] at kind
      cases kind

end LooksUpDirectory

theorem Interned.remembers {path : String} {name : Symbol} {catalogue begun : Catalogue}
    (interned : Interned path name catalogue begun) : catalogue.Remembers begun where
  names other symbol found := by
    rw [interned.names]
    exact Lexicon.find?_intern_of_find? found path
  directories other _ := by rw [interned.directoryAt]

theorem Interned.size_names_le {path : String} {name : Symbol} {catalogue begun : Catalogue}
    (interned : Interned path name catalogue begun) : begun.names.size ≤ catalogue.names.size + 1 := by
  rw [interned.names]
  exact Lexicon.size_intern_le _ _

theorem Recounts.interned {catalogue begun : Catalogue} {log : List Probe} (recounts : catalogue.Recounts log)
    {path : String} {name : Symbol} (interned : Interned path name catalogue begun) : begun.Recounts log := by
  obtain ⟨-, ⟨indexes, probed, count, records⟩, files⟩ := recounts
  refine ⟨interned.named, ⟨?_, ?_, ?_, ?_⟩, ⟨?_, ?_, ?_, ?_, ?_⟩⟩
  · rw [interned.directoryAt, interned.directoryIds]
    exact indexes
  · rw [interned.directoryAt]
    exact probed
  · rw [interned.directories]
    exact count
  · intro i discovery read
    obtain ⟨record, entered, symbol⟩ := records i discovery read
    exact ⟨record, interned.directories ▸ entered, interned.remembers.names _ _ symbol⟩
  · rw [interned.fileAt, interned.fileIds]
    exact files.indexes
  · rw [interned.files]
    exact files.count
  · rw [interned.nextUid]
    exact files.nextUid
  · rw [interned.files]
    exact files.described interned.remembers
  · rw [interned.directoryAt]
    exact files.parents

theorem LooksUpDirectory.of_memory {path : String} {name : Symbol} {before begun : Catalogue}
    (interned : Interned path name before begun) (log : List Probe) {answer : Option DirectoryId}
    (known : begun.directoryPaths.get name = .ofAnswer answer) :
    LooksUpDirectory path before begun log log answer where
  names := interned.names
  answered := by rw [interned.directoryAt, ← interned.directoryAt_eq, known]
  kept _ _ := by rw [interned.directoryAt]
  fileAt := interned.fileAt
  fileIds := interned.fileIds
  files := interned.files
  nextUid := interned.nextUid
  directories := interned.directories.symm ▸ List.prefix_refl _
  asked := .inl rfl

theorem LooksUpDirectory.of_noted {path : String} {name : Symbol} {before begun after : Catalogue}
    (interned : Interned path name before begun) (blank : begun.directoryAt path = .unknown) (log : List Probe)
    (reply : Except StatError Stat) {answer : Option DirectoryId} (names : after.names = begun.names)
    (noted : ∀ other, after.directoryAt other = if other = path then .ofAnswer answer else begun.directoryAt other)
    (fileAt : after.fileAt = begun.fileAt) (fileIds : after.fileIds = begun.fileIds)
    (files : after.files = begun.files) (nextUid : after.nextUid = begun.nextUid)
    (directories : begun.directories.values <+: after.directories.values) :
    LooksUpDirectory path before after log (log ++ [⟨.directory, path, reply⟩]) answer where
  names := names.trans interned.names
  answered := by rw [noted, if_pos rfl]
  kept other known := by
    rw [← interned.directoryAt] at known ⊢
    exact (Remembers.of_noted blank names noted).directories other known
  fileAt := fileAt.trans interned.fileAt
  fileIds := fileIds.trans interned.fileIds
  files := files.trans interned.files
  nextUid := nextUid.trans interned.nextUid
  directories := by
    rw [← interned.directories]
    exact directories
  asked := .inr ⟨reply, rfl⟩

theorem Recounts.directoryBy {catalogue after : Catalogue} {watched later : Watched ω} {path : String}
    {answer : Option DirectoryId} (recounts : catalogue.Recounts watched.log)
    (room : catalogue.names.size < 4294967295) (few : watched.log.length < 4294967295) (system : FileSystem ω)
    (outcome : (catalogue.directoryBy (Watched.ask system) path).run watched = ((answer, after), later)) :
    after.Recounts later.log ∧ LooksUpDirectory path catalogue after watched.log later.log answer := by
  rcases beginning : catalogue.beginDirectory path with ⟨name, begun⟩
  have interned := beginDirectory_spec recounts.named room beginning
  obtain ⟨named, directories, files⟩ := recounts.interned interned
  obtain ⟨id, known, equal⟩ | ⟨known, equal⟩ | ⟨unknown, reply, world, asked, useless, equal⟩ |
    ⟨unknown, reply, world, stat, id, settled, asked, usable, settling, equal⟩ :=
    directoryBy_cases system path catalogue watched beginning
  · cases equal.symm.trans outcome
    exact ⟨⟨named, directories, files⟩, .of_memory interned _ known⟩
  · cases equal.symm.trans outcome
    exact ⟨⟨named, directories, files⟩, .of_memory interned _ known⟩
  · cases equal.symm.trans outcome
    have blank : begun.directoryAt path = .unknown := (resolution_of_find? interned.symbol).trans unknown
    obtain ⟨missed, noted⟩ := missDirectory_spec interned.named interned.symbol
    have step : LooksUpDirectory path catalogue (begun.missDirectory name) watched.log _ none :=
      .of_noted interned blank _ reply rfl noted rfl rfl rfl rfl (List.prefix_refl _)
    have remembers : begun.Remembers (begun.missDirectory name) := .of_noted blank rfl noted
    refine ⟨⟨missed, directories.refuse named interned.symbol blank useless, ?_⟩, step⟩
    exact files.directory_probe remembers rfl rfl rfl rfl
      (show (Probe.mk .directory path reply).sought = .directory from rfl)
  · cases equal.symm.trans outcome
    have blank : begun.directoryAt path = .unknown := (resolution_of_find? interned.symbol).trans unknown
    obtain ⟨settledDirectories, settledNamed, noted, names, fileAt, fileIds, fileRecords, nextUid, grown⟩ :=
      directories.settle few named interned.symbol blank usable settling
    have step : LooksUpDirectory path catalogue after watched.log _ (some id) :=
      .of_noted interned blank _ reply names noted fileAt fileIds fileRecords nextUid grown
    refine ⟨⟨settledNamed, settledDirectories, ?_⟩, step⟩
    exact files.directory_probe (.of_noted blank names noted) fileAt fileIds fileRecords nextUid
      (show (Probe.mk .directory path reply).sought = .directory from rfl)

theorem RecountsDirectories.file_probe {before after : Catalogue} {log : List Probe}
    (recounts : before.RecountsDirectories log) (names : after.names = before.names)
    (directoryAt : after.directoryAt = before.directoryAt) (ids : after.directoryIds = before.directoryIds)
    (directories : after.directories = before.directories) {probe : Probe} (file : probe.sought = .file) :
    after.RecountsDirectories (log ++ [probe]) := by
  have other : probe.sought ≠ .directory := by rw [file]; exact Sought.noConfusion
  have nothing : probe.finding? .directory = none := Probe.finding?_other other
  constructor
  · rw [directoryAt, ids]
    exact recounts.indexes.other_probe other
  · intro path known
    obtain ⟨earlier, member, rest⟩ := recounts.probed path (directoryAt ▸ known)
    exact ⟨earlier, List.mem_append_left _ member, rest⟩
  · rw [directories, discoveries_concat_none nothing]
    exact recounts.count
  · rw [directories, names, discoveries_concat_none nothing]
    exact recounts.records

namespace RecountsFiles
variable {catalogue : Catalogue} {log : List Probe} {path : String} {name : Symbol} {answer : Except StatError Stat}

theorem miss (recounts : catalogue.RecountsFiles log) (named : catalogue.Named)
    (symbol : catalogue.names.find? path = some name) (unknown : catalogue.fileAt path = .unknown) :
    (catalogue.missFile name).RecountsFiles log where
  indexes := recounts.indexes.miss unknown (missFile_spec named symbol).2
  count := recounts.count
  nextUid := recounts.nextUid
  records := recounts.described (.of_same rfl rfl)
  parents := recounts.parents

theorem refuse (recounts : catalogue.RecountsFiles log) (missing : catalogue.fileAt path = .missing)
    (new : ∀ probe ∈ log, probe.sought = .file → probe.path ≠ path) (useless : Sought.file.usable? answer = none) :
    catalogue.RecountsFiles (log ++ [⟨.file, path, answer⟩]) := by
  have nothing : Probe.finding? .file ⟨.file, path, answer⟩ = none := by
    rw [Probe.finding?_same, useless]
    rfl
  constructor
  · exact recounts.indexes.refuse useless missing new
  · rw [discoveries_concat_none nothing]
    exact recounts.count
  · rw [discoveries_concat_none nothing]
    exact recounts.nextUid
  · rw [discoveries_concat_none nothing]
    exact recounts.records
  · rw [findings_concat_none nothing]
    exact recounts.parents

theorem settle (recounts : catalogue.RecountsFiles log) (few : log.length < 4294967295) (named : catalogue.Named)
    (symbol : catalogue.names.find? path = some name)
    (new : ∀ probe ∈ log, probe.sought = .file → probe.path ≠ path) {stat : Stat}
    (usable : Sought.file.usable? answer = some stat) {parent : String} {directory : DirectoryId}
    (above : parent? path = some parent) (found : catalogue.directoryAt parent = .found directory) {id : FileId}
    {settled : Catalogue} (outcome : catalogue.settleFile name directory stat = (id, settled)) :
    settled.RecountsFiles (log ++ [⟨.file, path, answer⟩]) ∧ settled.Named ∧
      (∀ other, settled.fileAt other = if other = path then .found id else catalogue.fileAt other) ∧
      settled.names = catalogue.names ∧ settled.directoryAt = catalogue.directoryAt ∧
      settled.directoryIds = catalogue.directoryIds ∧ settled.directories = catalogue.directories ∧
      catalogue.files.values <+: settled.files.values := by
  have finding : Probe.finding? .file ⟨.file, path, answer⟩ = some ⟨path, stat⟩ := by
    rw [Probe.finding?_same, usable]
    rfl
  have noted (value : Resolution FileId) (other : String) :
      resolution catalogue.names (catalogue.filePaths.set name value) other =
        if other = path then value else catalogue.fileAt other :=
    resolution_set named.faithful symbol value other
  have vacant (value : Resolution FileId) : Vacant catalogue.names (catalogue.filePaths.set name value) :=
    named.files.set (named.faithful.index_lt_size symbol) value
  have parents : ∀ earlier ∈ findings .file (log ++ [⟨.file, path, answer⟩]), ∃ parent directory,
      parent? earlier.path = some parent ∧ catalogue.directoryAt parent = .found directory := by
    intro earlier member
    rw [findings_concat_some finding] at member
    rcases List.mem_append.mp member with old | last
    · exact recounts.parents earlier old
    · rw [List.mem_singleton.mp last]
      exact ⟨parent, directory, above, found⟩
  rcases settleFile_cases catalogue name directory stat with ⟨old, known, equal⟩ | ⟨absent, equal⟩
  · rw [equal, Prod.mk.injEq] at outcome
    obtain ⟨rfl, rfl⟩ := outcome
    obtain ⟨unchanged, indexes⟩ := recounts.indexes.rediscover (by omega) usable known new (noted (.found old))
    refine ⟨⟨indexes, ?_, ?_, ?_, parents⟩, ⟨named.faithful, named.directories, vacant _⟩, noted _, rfl, rfl, rfl, rfl,
      List.prefix_refl _⟩
    · rw [unchanged]
      exact recounts.count
    · rw [unchanged]
      exact recounts.nextUid
    · rw [unchanged]
      exact recounts.described (.of_same rfl rfl)
  · rw [equal, recounts.count, Prod.mk.injEq] at outcome
    obtain ⟨rfl, rfl⟩ := outcome
    obtain ⟨grown, indexes⟩ := recounts.indexes.discover few usable absent new (noted (.found _))
    have short := length_discoveries_le .file log
    refine ⟨⟨indexes, ?_, ?_, ?_, parents⟩, ⟨named.faithful, named.directories, vacant _⟩, noted _, rfl, rfl, rfl, rfl,
      ⟨_, Array.toList_push.symm⟩⟩
    · rw [grown, List.length_append, ← recounts.count]
      exact Array.size_push _
    · rw [grown, List.length_append, ← recounts.nextUid, UInt32.toNat_add]
      have small : catalogue.nextUid.toNat < 4294967295 := by
        have uid := recounts.nextUid
        omega
      exact Nat.mod_eq_of_lt (by simpa using Nat.add_lt_add_right small 1)
    · intro i discovery read
      rw [grown] at read
      have described : catalogue.Describes (discoveries .file log).length ⟨path, stat⟩
          ⟨name, stat.size, stat.modified, directory, catalogue.nextUid, stat.identity, stat.mode⟩ :=
        ⟨symbol, rfl, rfl, ⟨parent, above, found⟩, recounts.nextUid, rfl, rfl⟩
      obtain ⟨record, entered, describes⟩ := records_push recounts.count recounts.records described i discovery read
      refine ⟨record, entered, describes.remembered (.of_same ?_ ?_)⟩
      · rfl
      · rfl

end RecountsFiles

structure LooksUpFile (path : String) (before after : Catalogue) (log later : List Probe)
    (answer : Option FileId) : Prop where
  remembers : before.Remembers after
  names : after.names.size ≤ before.names.size + 2
  answered : after.fileAt path = .ofAnswer answer
  kept : before.fileAt path ≠ .unknown → after.fileAt path = before.fileAt path
  others : ∀ other ≠ path, after.fileAt other = before.fileAt other
  directories : before.directories.values <+: after.directories.values
  files : before.files.values <+: after.files.values
  asked : log <+: later
  length : later.length ≤ log.length + 2
  /-- A path of which nothing was known is asked about, unless there is no directory to look into. -/
  reason : before.fileAt path = .unknown → parent? path = none ∨
    (∃ parent, parent? path = some parent ∧ after.directoryAt parent = .missing) ∨
    ∃ probe ∈ later, probe.sought = .file ∧ probe.path = path

theorem noted_missing {catalogue : Catalogue} {path : String} (missing : catalogue.fileAt path = .missing)
    (other : String) : catalogue.fileAt other = if other = path then .ofAnswer none else catalogue.fileAt other := by
  by_cases same : other = path
  · rw [if_pos same, same, missing]
    rfl
  · rw [if_neg same]

namespace LooksUpFile
variable {path parent : String} {name : Symbol} {before begun within after : Catalogue} {log middle : List Probe}

theorem of_memory (interned : Interned path name before begun) (log : List Probe) {answer : Option FileId}
    (known : begun.filePaths.get name = .ofAnswer answer) : LooksUpFile path before begun log log answer where
  remembers := interned.remembers
  names := Nat.le_succ_of_le interned.size_names_le
  answered := by rw [interned.fileAt, ← interned.fileAt_eq, known]
  kept _ := by rw [interned.fileAt]
  others _ _ := by rw [interned.fileAt]
  directories := interned.directories.symm ▸ List.prefix_refl _
  files := interned.files.symm ▸ List.prefix_refl _
  asked := List.prefix_refl log
  length := Nat.le_add_right _ _
  reason unknown := by
    rw [interned.fileAt_eq, unknown] at known
    exact absurd known.symm (Resolution.ofAnswer_ne_unknown answer)

theorem of_bare (interned : Interned path name before begun) (blank : begun.fileAt path = .unknown) (log : List Probe)
    (above : parent? path = none) : LooksUpFile path before (begun.missFile name) log log none where
  remembers := interned.remembers.trans (.of_same rfl rfl)
  names := Nat.le_succ_of_le interned.size_names_le
  answered := by rw [(missFile_spec interned.named interned.symbol).2, if_pos rfl]; rfl
  kept known := absurd (interned.fileAt ▸ blank) known
  others other different := by
    rw [(missFile_spec interned.named interned.symbol).2, if_neg different, interned.fileAt]
  directories := by
    rw [← interned.directories]
    exact List.prefix_refl _
  files := by
    rw [← interned.files]
    exact List.prefix_refl _
  asked := List.prefix_refl log
  length := Nat.le_add_right _ _
  reason _ := .inl above

theorem of_nested (interned : Interned path name before begun) (blank : begun.fileAt path = .unknown)
    {found : Option DirectoryId} {answer : Option FileId} {later : List Probe}
    (looked : LooksUpDirectory parent (begun.missFile name) within log middle found)
    (names : after.names = within.names) (directoryAt : after.directoryAt = within.directoryAt)
    (directories : after.directories = within.directories) (files : within.files.values <+: after.files.values)
    (noted : ∀ other, after.fileAt other = if other = path then .ofAnswer answer else within.fileAt other)
    (asked : middle <+: later) (length : later.length ≤ middle.length + 1)
    (reason : within.directoryAt parent = .missing ∨ ∃ probe ∈ later, probe.sought = .file ∧ probe.path = path)
    (above : parent? path = some parent) : LooksUpFile path before after log later answer where
  remembers := by
    have missed : begun.Remembers (begun.missFile name) := .of_same rfl rfl
    exact ((interned.remembers.trans missed).trans looked.remembers).trans (.of_same names directoryAt)
  names := by
    have first := interned.size_names_le
    have second : within.names.size ≤ begun.names.size + 1 := looked.size_names_le
    rw [names]
    omega
  answered := by rw [noted, if_pos rfl]
  kept known := absurd (interned.fileAt ▸ blank) known
  others other different := by
    rw [noted, if_neg different, looked.fileAt, (missFile_spec interned.named interned.symbol).2, if_neg different,
      interned.fileAt]
  directories := by
    rw [directories, ← interned.directories]
    exact looked.directories
  files := by
    rw [← interned.files]
    have same : within.files = begun.files := looked.files
    rw [← same]
    exact files
  asked := looked.log_prefix.trans asked
  length := by
    have first := looked.length_log_le
    omega
  reason _ := by
    rcases reason with missing | probed
    · exact .inr (.inl ⟨parent, above, by rw [directoryAt, missing]⟩)
    · exact .inr (.inr probed)

theorem fileAt_eq {later : List Probe} {answer : Option FileId} (looked : LooksUpFile path before after log later answer)
    (other : String) (known : before.fileAt other ≠ .unknown) : after.fileAt other = before.fileAt other := by
  by_cases same : other = path
  · subst other
    exact looked.kept known
  · exact looked.others other same

end LooksUpFile

theorem Recounts.miss {catalogue : Catalogue} {log : List Probe} {path : String} {name : Symbol}
    (recounts : catalogue.Recounts log) (symbol : catalogue.names.find? path = some name)
    (unknown : catalogue.fileAt path = .unknown) : (catalogue.missFile name).Recounts log where
  named := (missFile_spec recounts.named symbol).1
  directories := by
    obtain ⟨indexes, probed, count, records⟩ := recounts.directories
    exact ⟨indexes, probed, count, records⟩
  files := recounts.files.miss recounts.named symbol unknown

theorem Recounts.fileBy {catalogue after : Catalogue} {watched later : Watched ω} {path : String}
    {answer : Option FileId} (recounts : catalogue.Recounts watched.log)
    (room : catalogue.names.size + 1 < 4294967295) (few : watched.log.length + 1 < 4294967295) (system : FileSystem ω)
    (outcome : (catalogue.fileBy (Watched.ask system) path).run watched = ((answer, after), later)) :
    after.Recounts later.log ∧ LooksUpFile path catalogue after watched.log later.log answer := by
  rcases beginning : catalogue.beginFile path with ⟨name, begun⟩
  have interned := beginFile_spec recounts.named (by omega) beginning
  have begunRecounts := recounts.interned interned
  have size := interned.size_names_le
  obtain ⟨id, known, equal⟩ | ⟨known, equal⟩ | ⟨unknown, above, equal⟩ | ⟨unknown, parent, rest⟩ |
    ⟨unknown, parent, rest⟩ | ⟨unknown, parent, rest⟩ := fileBy_cases system path catalogue watched beginning
  · cases equal.symm.trans outcome
    exact ⟨begunRecounts, .of_memory interned _ known⟩
  · cases equal.symm.trans outcome
    exact ⟨begunRecounts, .of_memory interned _ known⟩
  -- The path counts as missing while its directory is looked up. The directory look-up asks about no file, so the
  -- mark is still there when the file system is asked about the path itself.
  all_goals
    have blank : begun.fileAt path = .unknown := (resolution_of_find? interned.symbol).trans unknown
    have missed := begunRecounts.miss interned.symbol blank
    have missing : (begun.missFile name).fileAt path = .missing := by
      rw [(missFile_spec interned.named interned.symbol).2, if_pos rfl]
    have new := begunRecounts.files.indexes.not_asked blank
  · cases equal.symm.trans outcome
    exact ⟨missed, .of_bare interned blank _ above⟩
  · obtain ⟨within, middle, above, nested, equal⟩ := rest
    cases equal.symm.trans outcome
    obtain ⟨kept, looked⟩ := missed.directoryBy (show begun.names.size < 4294967295 by omega) (by omega) system nested
    refine ⟨kept, .of_nested interned blank looked rfl rfl rfl (List.prefix_refl _) ?_ (List.prefix_refl _)
      (Nat.le_succ _) (.inl looked.answered) above⟩
    exact noted_missing (looked.fileAt ▸ missing)
  · obtain ⟨directory, within, middle, reply, world, above, nested, asked, useless, equal⟩ := rest
    cases equal.symm.trans outcome
    obtain ⟨kept, looked⟩ := missed.directoryBy (show begun.names.size < 4294967295 by omega) (by omega) system nested
    have still : after.fileAt path = .missing := looked.fileAt ▸ missing
    refine ⟨⟨kept.named, ?_, ?_⟩, .of_nested interned blank looked rfl rfl rfl (List.prefix_refl _)
      (noted_missing still) (List.prefix_append _ _) (by simp)
      (.inr ⟨_, List.mem_append_right _ (List.mem_singleton.mpr rfl), rfl, rfl⟩) above⟩
    · exact kept.directories.file_probe rfl rfl rfl rfl rfl
    · exact kept.files.refuse still (looked.not_asked new) useless
  · obtain ⟨directory, within, middle, reply, world, stat, id, settled, above, nested, asked, usable, settling,
      equal⟩ := rest
    cases equal.symm.trans outcome
    obtain ⟨kept, looked⟩ := missed.directoryBy (show begun.names.size < 4294967295 by omega) (by omega) system nested
    have length := looked.length_log_le
    have symbol := looked.remembers.names path name interned.symbol
    obtain ⟨files, named, noted, names, directoryAt, directoryIds, directories, grown⟩ := kept.files.settle (by omega)
      kept.named symbol (looked.not_asked new) usable above looked.answered settling
    refine ⟨⟨named, ?_, files⟩, .of_nested interned blank looked names directoryAt directories grown noted
      (List.prefix_append _ _) (by simp) (.inr ⟨_, List.mem_append_right _ (List.mem_singleton.mpr rfl), rfl, rfl⟩)
      above⟩
    exact kept.directories.file_probe names directoryAt directoryIds directories rfl

end Catalogue
end Canon.File
