import Canon.Proofs.File.Naming
import Canon.Proofs.File.Permanence

/-!
The names of records. A record keeps the first path that led to it, and that path leads to it for good: whatever the
file system says by now, looking it up again asks nothing and answers with the record.
-/
namespace Canon.File
variable {ω : Type}

theorem Indexes.found_discovery {kind : Handle.Kind} {sought : Sought} {log : List Probe}
    {known : String → Resolution (Handle kind)} {ids : Std.HashMap Identity (Handle kind)} {id : Handle kind}
    {discovery : Finding} (indexes : Indexes sought log known ids)
    (read : (discoveries sought log)[id.index]? = some discovery) : known discovery.path = .found id := by
  refine (indexes.found discovery.path id).mpr ⟨discovery, ?_, rfl, ?_⟩
  · exact mem_findings_of_discovery (List.mem_of_getElem? read)
  · rw [indexes.numbered, read]
    rfl

namespace Catalogue
variable {catalogue : Catalogue} {log : List Probe}

theorem directoryName_eq_ok {id : DirectoryId} {path : String} :
    catalogue.directoryName id = .ok path ↔
      ∃ record, catalogue.directories.get? id = some record ∧ catalogue.names.get? record.name = some path := by
  unfold directoryName
  cases entered : catalogue.directories.get id with
  | error fault =>
    constructor
    · intro named
      cases named
    · intro given
      obtain ⟨record, found, -⟩ := given
      cases (Registry.get_eq_ok_iff.mpr found).symm.trans entered
  | ok record =>
    show catalogue.names.get record.name = .ok path ↔ _
    rw [Lexicon.get_eq_ok_iff, Registry.get_eq_ok_iff.mp entered]
    simp

theorem Recounts.exists_directoryName (recounts : catalogue.Recounts log) {id : DirectoryId}
    {record : DirectoryRecord} (entered : catalogue.directories.get? id = some record) :
    ∃ path, catalogue.directoryName id = .ok path ∧ catalogue.directoryAt path = .found id := by
  have bound : id.index < (discoveries .directory log).length := by
    rw [← recounts.directories.count]
    exact (Array.getElem?_eq_some_iff.mp entered).choose
  have read := List.getElem?_eq_getElem bound
  obtain ⟨other, also, symbol⟩ := recounts.directories.records id.index _ read
  obtain rfl := Option.some.inj (also.symm.trans entered)
  refine ⟨_, directoryName_eq_ok.mpr ⟨other, entered, ?_⟩, recounts.directories.indexes.found_discovery read⟩
  exact (recounts.named.faithful.find?_iff _ other.name).mp symbol

theorem Recounts.exists_fileName (recounts : catalogue.Recounts log) {id : FileId} {record : FileRecord}
    (entered : catalogue.files.get? id = some record) :
    ∃ path parent, catalogue.fileName id = .ok path ∧ catalogue.fileAt path = .found id ∧
      parent? path = some parent ∧ catalogue.directoryAt parent = .found record.directory := by
  have bound : id.index < (discoveries .file log).length := by
    rw [← recounts.files.count]
    exact (Array.getElem?_eq_some_iff.mp entered).choose
  have read := List.getElem?_eq_getElem bound
  obtain ⟨other, also, describes⟩ := recounts.files.records id.index _ read
  obtain rfl := Option.some.inj (also.symm.trans entered)
  obtain ⟨parent, above, found⟩ := describes.directory
  refine ⟨_, parent, fileName_eq_ok.mpr ⟨other, entered, ?_⟩, recounts.files.indexes.found_discovery read, above, found⟩
  exact (recounts.named.faithful.find?_iff _ other.name).mp describes.name

theorem Recounts.directoryName_inj (recounts : catalogue.Recounts log) {left right : DirectoryId} {path : String}
    (one : catalogue.directoryName left = .ok path) (two : catalogue.directoryName right = .ok path) :
    left = right := by
  have leads {id : DirectoryId} (named : catalogue.directoryName id = .ok path) :
      catalogue.directoryAt path = .found id := by
    obtain ⟨record, entered, -⟩ := directoryName_eq_ok.mp named
    obtain ⟨other, also, found⟩ := recounts.exists_directoryName entered
    exact Except.ok.inj (also.symm.trans named) ▸ found
  exact Resolution.found.inj ((leads one).symm.trans (leads two))

theorem Recounts.fileName_inj (recounts : catalogue.Recounts log) {left right : FileId} {path : String}
    (one : catalogue.fileName left = .ok path) (two : catalogue.fileName right = .ok path) : left = right := by
  have leads {id : FileId} (named : catalogue.fileName id = .ok path) : catalogue.fileAt path = .found id := by
    obtain ⟨record, entered, -⟩ := fileName_eq_ok.mp named
    obtain ⟨other, -, also, found, -⟩ := recounts.exists_fileName entered
    exact Except.ok.inj (also.symm.trans named) ▸ found
  exact Resolution.found.inj ((leads one).symm.trans (leads two))

end Catalogue

/-- In every state that look-ups lead to, whatever the file system has answered and whatever it would answer now: the
name of a file is answered with the file, the directory part of that name with the directory of its record, and the
name of a directory with the directory. Nothing is asked for that, and nothing changes but a counter. No two files
share a name, and no two directories do. -/
theorem names_lead_to_their_records (system : FileSystem ω) (world : ω) (requests : List Request)
    (few : requests.length < 2147483648) :
    let visit := Visit.run system world requests
    (Catalogue.empty.serveAll system requests).run world =
      ((visit.calls, visit.catalogue), visit.watched.world) ∧
    (∀ id record, visit.catalogue.files.get id = .ok record → ∃ path parent,
      visit.catalogue.fileName id = .ok path ∧ parent? path = some parent ∧ ∀ changed : FileSystem ω,
        visit.serve changed (.file path) =
          ⟨visit.catalogue.counting (.file path), visit.watched, visit.calls ++ [.file path (some id)]⟩ ∧
        visit.serve changed (.directory parent) = ⟨visit.catalogue.counting (.directory parent), visit.watched,
          visit.calls ++ [.directory parent (some record.directory)]⟩) ∧
    (∀ id record, visit.catalogue.directories.get id = .ok record → ∃ path,
      visit.catalogue.directoryName id = .ok path ∧ ∀ changed : FileSystem ω,
        visit.serve changed (.directory path) =
          ⟨visit.catalogue.counting (.directory path), visit.watched, visit.calls ++ [.directory path (some id)]⟩) ∧
    (∀ left right path, visit.catalogue.fileName left = .ok path → visit.catalogue.fileName right = .ok path →
      left = right) ∧
    ∀ left right path, visit.catalogue.directoryName left = .ok path →
      visit.catalogue.directoryName right = .ok path → left = right := by
  intro visit
  obtain ⟨⟨recounts, -⟩, -⟩ := Visit.consistent_run system world requests few
  refine ⟨Visit.run_unwatched system world requests, ?_, ?_, fun _ _ _ => recounts.fileName_inj,
    fun _ _ _ => recounts.directoryName_inj⟩
  · intro id record got
    obtain ⟨path, parent, named, found, above, within⟩ := recounts.exists_fileName (Registry.get_eq_ok_iff.mp got)
    refine ⟨path, parent, named, above, fun changed => ⟨?_, ?_⟩⟩
    · have known : (Call.file path (some id)).Stands visit.catalogue := found
      exact Visit.serve_known known changed
    · have known : (Call.directory parent (some record.directory)).Stands visit.catalogue := within
      exact Visit.serve_known known changed
  · intro id record got
    obtain ⟨path, named, found⟩ := recounts.exists_directoryName (Registry.get_eq_ok_iff.mp got)
    have known : (Call.directory path (some id)).Stands visit.catalogue := found
    exact ⟨path, named, fun changed => Visit.serve_known known changed⟩

/-- A file that was found before everything vanished is found by its name again, and so is the directory it lay in. -/
theorem vanished_names_are_remembered :
    (Visit.run vanishing 0 [.file "b", .file "c"]).catalogue.fileName ⟨0⟩ = .ok "b" ∧
    ((Visit.run vanishing 0 [.file "b", .file "c"]).serve vanishing (.file "b")).calls =
      (Visit.run vanishing 0 [.file "b", .file "c"]).calls ++ [.file "b" (some ⟨0⟩)] ∧
    ((Visit.run vanishing 0 [.file "b", .file "c"]).serve vanishing (.directory ".")).calls =
      (Visit.run vanishing 0 [.file "b", .file "c"]).calls ++ [.directory "." (some ⟨0⟩)] := by
  have named : (Visit.run vanishing 0 [.file "b", .file "c"]).catalogue.fileName ⟨0⟩ = .ok "b" := by cbv
  have within : ((Visit.run vanishing 0 [.file "b", .file "c"]).catalogue.files.get? ⟨0⟩).map FileRecord.directory =
      some ⟨0⟩ := by cbv
  obtain ⟨record, entered, -⟩ := Catalogue.fileName_eq_ok.mp named
  rw [entered, Option.map_some, Option.some.injEq] at within
  obtain ⟨-, files, -⟩ := names_lead_to_their_records vanishing 0 [.file "b", .file "c"] (by decide)
  obtain ⟨path, parent, called, above, again⟩ := files ⟨0⟩ record (Registry.get_eq_ok_iff.mpr entered)
  obtain rfl := Except.ok.inj (named.symm.trans called)
  have dot : parent? "b" = some "." := by decide
  obtain rfl := Option.some.inj (dot.symm.trans above)
  obtain ⟨file, directory⟩ := again vanishing
  rw [within] at directory
  exact ⟨named, congrArg Visit.calls file, congrArg Visit.calls directory⟩

end Canon.File
