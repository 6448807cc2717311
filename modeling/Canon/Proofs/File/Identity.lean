import Canon.Proofs.File.Stateless

/-!
Handles stand for identities. Whatever a file system answers and however it changes, two paths have the same handle
exactly if the questions that resolved them met the same identity, and every handle has the record that was made at
the first meeting.
-/
namespace Canon.File
variable {ω : Type}

theorem Identity.compare_eq_iff {left right : Identity} : left.compare right = .eq ↔ left = right := by
  rcases left with ⟨device, inode⟩
  rcases right with ⟨otherDevice, otherInode⟩
  simp [Identity.compare, Ordering.then_eq_eq, UInt64.toNat_inj]

/-- A path was resolved by one question only, and its handle is the number of the identity that was met. -/
structure Resolves {kind : Handle.Kind} (sought : Sought) (log : List Probe) (path : String) (id : Handle kind)
    (finding : Finding) : Prop where
  once : (findings sought log).filter (·.path = path) = [finding]
  number : (discoveries sought log)[id.index]?.map Finding.identity = some finding.identity

theorem filter_path_eq {found : List Finding} (distinct : (found.map Finding.path).Nodup) {finding : Finding}
    (member : finding ∈ found) : found.filter (·.path = finding.path) = [finding] := by
  induction found with
  | nil => cases member
  | cons head rest ih =>
    rw [List.map_cons, List.nodup_cons] at distinct
    obtain ⟨new, distinct⟩ := distinct
    rcases List.mem_cons.mp member with rfl | later
    · rw [List.filter_cons_of_pos (by simp), List.filter_eq_nil_iff.mpr]
      intro other among same
      exact new (of_decide_eq_true same ▸ List.mem_map_of_mem among)
    · rw [List.filter_cons_of_neg, ih distinct later]
      intro same
      exact new (of_decide_eq_true same ▸ List.mem_map_of_mem later)

theorem number_lt {sought : Sought} {log : List Probe} (few : log.length < 4294967296) {number : Nat}
    {discovery : Finding} (read : (discoveries sought log)[number]? = some discovery) : number < 4294967296 := by
  have inside := (List.getElem?_eq_some_iff.mp read).choose
  have short := length_discoveries_le sought log
  omega

theorem paths_sublist (sought : Sought) (log : List Probe) :
    ((findings sought log).map Finding.path).Sublist ((log.filter (·.sought = sought)).map Probe.path) := by
  induction log with
  | nil => exact List.Sublist.refl _
  | cons probe rest ih =>
    cases found : probe.finding? sought with
    | some finding =>
      obtain ⟨kind, path, -⟩ := Probe.finding?_eq_some found
      rw [findings, List.filterMap_cons_some found, List.filter_cons_of_pos (by simp [kind]), List.map_cons,
        List.map_cons, path]
      exact ih.cons_cons _
    | none =>
      rw [findings, List.filterMap_cons_none found]
      exact ih.trans (((List.sublist_cons_self probe rest).filter _).map _)

namespace Indexes
variable {kind : Handle.Kind} {sought : Sought} {log : List Probe} {known : String → Resolution (Handle kind)}
  {ids : Std.HashMap Identity (Handle kind)} {path other : String} {id number : Handle kind}

theorem resolves (indexes : Indexes sought log known ids) (found : known path = .found id) :
    ∃ finding, Resolves sought log path id finding := by
  obtain ⟨finding, member, rfl, numbered⟩ := (indexes.found path id).mp found
  have distinct := indexes.once.sublist (paths_sublist sought log)
  exact ⟨finding, filter_path_eq distinct member, (indexes.numbered _ _).mp numbered⟩

end Indexes

theorem Resolves.handle_eq_iff {kind : Handle.Kind} {sought : Sought} {log : List Probe} {path other : String}
    {id number : Handle kind} {first second : Finding} (one : Resolves sought log path id first)
    (two : Resolves sought log other number second) : id = number ↔ first.identity = second.identity := by
  constructor
  · intro same
    subst same
    exact Option.some.inj (one.number.symm.trans two.number)
  · intro same
    obtain ⟨left, read, met⟩ := Option.map_eq_some_iff.mp one.number
    obtain ⟨right, seen, faced⟩ := Option.map_eq_some_iff.mp two.number
    have identity : left.identity = right.identity := by
      calc
        left.identity = first.identity := met
        _ = second.identity := same
        _ = right.identity := faced.symm
    exact Handle.ext_index (discovery_number_unique read seen identity)

/-- The records of a catalogue are the discoveries of a log in order, each with what was found at its discovery. -/
structure Enrols (catalogue : Catalogue) (log : List Probe) : Prop where
  directoryCount : catalogue.directories.size = (discoveries .directory log).length
  fileCount : catalogue.files.size = (discoveries .file log).length
  nextUid : catalogue.nextUid.toNat = catalogue.files.size
  directory : ∀ (number : Nat) (discovery : Finding), (discoveries .directory log)[number]? = some discovery →
    ∃ id : DirectoryId, id.index = number ∧ catalogue.directoryName id = .ok discovery.path
  file : ∀ (number : Nat) (discovery : Finding), (discoveries .file log)[number]? = some discovery →
    ∃ (id : FileId) (record : FileRecord), id.index = number ∧ catalogue.files.get id = .ok record ∧
      catalogue.fileName id = .ok discovery.path ∧ record.size = discovery.stat.size ∧
      record.modified = discovery.stat.modified ∧ record.identity = discovery.identity ∧
      record.mode = discovery.stat.mode ∧ record.uid.toNat = number ∧
      ∃ parent within, parent? discovery.path = some parent ∧ Resolves .directory log parent record.directory within

namespace Catalogue
variable {catalogue : Catalogue} {log : List Probe}

theorem Named.resolveName_eq (named : catalogue.Named) {path : String} {name : Symbol}
    (symbol : catalogue.names.find? path = some name) : catalogue.resolveName name = .ok path := by
  rw [resolveName, Lexicon.get, (named.faithful.find?_iff path name).mp symbol]

theorem Recounts.enrols (recounts : catalogue.Recounts log) (few : log.length < 4294967296) :
    Enrols catalogue log where
  directoryCount := recounts.directories.count
  fileCount := recounts.files.count
  nextUid := recounts.files.nextUid.trans recounts.files.count.symm
  directory number discovery read := by
    obtain ⟨record, entered, symbol⟩ := recounts.directories.records number discovery read
    have index : (Handle.atIndex number : DirectoryId).index = number := Handle.index_atIndex (number_lt few read)
    have got : catalogue.directories.get (.atIndex number) = .ok record := by
      rw [Registry.get_eq_ok_iff, ← entered]
      exact congrArg _ index
    refine ⟨.atIndex number, index, ?_⟩
    rw [directoryName, got]
    exact recounts.named.resolveName_eq symbol
  file number discovery read := by
    obtain ⟨record, entered, describes⟩ := recounts.files.records number discovery read
    have index : (Handle.atIndex number : FileId).index = number := Handle.index_atIndex (number_lt few read)
    have got : catalogue.files.get (.atIndex number) = .ok record := by
      rw [Registry.get_eq_ok_iff, ← entered]
      exact congrArg _ index
    obtain ⟨parent, above, found⟩ := describes.directory
    obtain ⟨within, resolves⟩ := recounts.directories.indexes.resolves found
    refine ⟨.atIndex number, record, index, got, ?_, describes.size, describes.modified, describes.identity,
      describes.mode, describes.uid, parent, within, above, resolves⟩
    rw [fileName, got]
    exact recounts.named.resolveName_eq describes.name

theorem Recounts.identity_of_get (recounts : catalogue.Recounts log) {id : FileId} {record : FileRecord}
    (got : catalogue.files.get id = .ok record) :
    (discoveries .file log)[id.index]?.map Finding.identity = some record.identity := by
  have entered : catalogue.files.records[id.index]? = some record := Registry.get_eq_ok_iff.mp got
  have bound : id.index < (discoveries .file log).length := by
    rw [← recounts.files.count]
    exact (Array.getElem?_eq_some_iff.mp entered).choose
  obtain ⟨other, also, describes⟩ := recounts.files.records id.index _ (List.getElem?_eq_getElem bound)
  rw [entered, Option.some.injEq] at also
  subst other
  rw [List.getElem?_eq_getElem bound, Option.map_some, describes.identity]
  rfl

theorem Recounts.identity_eq_iff (recounts : catalogue.Recounts log) {left right : FileId}
    {first second : FileRecord} (one : catalogue.files.get left = .ok first)
    (two : catalogue.files.get right = .ok second) : first.identity = second.identity ↔ left = right := by
  have met := recounts.identity_of_get one
  have faced := recounts.identity_of_get two
  constructor
  · intro same
    obtain ⟨discovery, read, here⟩ := Option.map_eq_some_iff.mp met
    obtain ⟨other, seen, there⟩ := Option.map_eq_some_iff.mp faced
    have identity : discovery.identity = other.identity := by
      calc
        discovery.identity = first.identity := here
        _ = second.identity := same
        _ = other.identity := there.symm
    exact Handle.ext_index (discovery_number_unique read seen identity)
  · intro same
    subst same
    exact Option.some.inj (met.symm.trans faced)

end Catalogue

/-- In every run, whatever the file system answers and however it changes, the handles of two paths are equal exactly
if the questions that resolved the paths met the same identity. The files are recorded in the order of discovery, and
no record is ever changed. -/
theorem handles_stand_for_identities (system : FileSystem ω) (world : ω) (requests : List Request)
    (few : requests.length < 2147483648) :
    let visit := Visit.run system world requests
    (Catalogue.empty.serveAll system requests).run world =
      ((visit.calls, visit.catalogue), visit.watched.world) ∧
    visit.calls.map Call.request = requests ∧
    (∀ path other left right, .directory path (some left) ∈ visit.calls → .directory other (some right) ∈ visit.calls →
      ∃ first second, Resolves .directory visit.log path left first ∧ Resolves .directory visit.log other right second ∧
        (left = right ↔ first.identity = second.identity)) ∧
    (∀ path other left right, .file path (some left) ∈ visit.calls → .file other (some right) ∈ visit.calls →
      ∃ first second, Resolves .file visit.log path left first ∧ Resolves .file visit.log other right second ∧
        (left = right ↔ first.identity = second.identity)) ∧
    Enrols visit.catalogue visit.log ∧
    (∀ earlier later, requests = earlier ++ later →
      (Visit.run system world earlier).Continues visit) ∧
    ∀ left right first second, visit.catalogue.files.get left = .ok first →
      visit.catalogue.files.get right = .ok second →
      (first.compare second = .eq ↔ left = right) ∧ (first.identity = second.identity ↔ left = right) := by
  intro visit
  obtain ⟨consistent, answered⟩ := Visit.consistent_run system world requests few
  have short := Visit.length_log_lt consistent answered few
  refine ⟨Visit.run_unwatched system world requests, answered, ?_, ?_, consistent.recounts.enrols short, ?_, ?_⟩
  · intro path other left right called also
    obtain ⟨first, one⟩ := consistent.recounts.directories.indexes.resolves (consistent.stands _ called)
    obtain ⟨second, two⟩ := consistent.recounts.directories.indexes.resolves (consistent.stands _ also)
    exact ⟨first, second, one, two, one.handle_eq_iff two⟩
  · intro path other left right called also
    obtain ⟨first, one⟩ := consistent.recounts.files.indexes.resolves (consistent.stands _ called)
    obtain ⟨second, two⟩ := consistent.recounts.files.indexes.resolves (consistent.stands _ also)
    exact ⟨first, second, one, two, one.handle_eq_iff two⟩
  · intro earlier later same
    subst same
    exact Visit.continues_run system world earlier later few
  · intro left right first second one two
    have same := consistent.recounts.identity_eq_iff one two
    exact ⟨Identity.compare_eq_iff.trans same, same⟩

theorem two_names_one_identity :
    let visit := Visit.run (fixed oneFile) () [.file "a", .file "b"]
    ∃ id first second, .file "a" (some id) ∈ visit.calls ∧ .file "b" (some id) ∈ visit.calls ∧
      Resolves .file visit.log "a" id first ∧ Resolves .file visit.log "b" id second ∧
      first.identity = second.identity := by
  intro visit
  have few : [Request.file "a", .file "b"].length < 2147483648 := by decide
  obtain ⟨-, answered, -, files, -⟩ := handles_stand_for_identities (fixed oneFile) () [.file "a", .file "b"] few
  obtain ⟨consistent, asked⟩ := Visit.consistent_run (fixed oneFile) () [.file "a", .file "b"] few
  have short := Visit.length_log_lt consistent asked few
  have truthful := Visit.truthful_run oneFile [.file "a", .file "b"]
  have found (path : String) (asked : .file path ∈ [Request.file "a", .file "b"])
      (leads : fileOf? oneFile path = some ⟨false, ⟨1, 2⟩, 0, 0, 0⟩) : ∃ id, .file path (some id) ∈ visit.calls := by
    obtain ⟨answer, called⟩ := exists_file_call answered asked
    have numbered := consistent.file_numbered short truthful called
    rw [leads] at numbered
    cases numbered with
    | @some id _ _ => exact ⟨id, called⟩
  have met (path : String) {id : FileId} {finding : Finding} (resolves : Resolves .file visit.log path id finding)
      (leads : fileOf? oneFile path = some ⟨false, ⟨1, 2⟩, 0, 0, 0⟩) : finding.identity = ⟨1, 2⟩ := by
    have member : finding ∈ (findings .file visit.log).filter (·.path = path) := by rw [resolves.once]; simp
    obtain ⟨among, same⟩ := List.mem_filter.mp member
    have usable := truthful.usable among
    rw [of_decide_eq_true same, (fileOf?_eq_some.mp leads).2, Option.some.injEq] at usable
    rw [Finding.identity, ← usable]
  have one : fileOf? oneFile "a" = some ⟨false, ⟨1, 2⟩, 0, 0, 0⟩ := by decide
  have two : fileOf? oneFile "b" = some ⟨false, ⟨1, 2⟩, 0, 0, 0⟩ := by decide
  obtain ⟨left, called⟩ := found "a" (by decide) one
  obtain ⟨right, also⟩ := found "b" (by decide) two
  obtain ⟨first, second, resolves, likewise, same⟩ := files "a" "b" left right called also
  have identity : first.identity = second.identity := (met "a" resolves one).trans (met "b" likewise two).symm
  obtain rfl := same.mpr identity
  exact ⟨left, first, second, called, also, resolves, likewise, identity⟩

end Canon.File
