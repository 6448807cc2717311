import Canon.Proofs.File.Counting

/-!
Accounts of a run: how often a catalogue was asked, how often it did not know, and how often it asked. In a file system
that does not change, requests made in another order give the same statistics.
-/
namespace Canon.File
variable {ω : Type}

section Totals
variable {requests others : List Request}

theorem length_paths (requests : List Request) :
    (directoryPaths requests).length + (filePaths requests).length = requests.length := by
  induction requests with
  | nil => rfl
  | cons request rest ih =>
    rw [List.length_cons, ← ih]
    cases request with
    | directory path => exact Nat.add_right_comm _ 1 _
    | file path => rfl

theorem length_soughtDirectories_le (requests : List Request) :
    (soughtDirectories requests).length ≤ requests.length := by
  induction requests with
  | nil => exact Nat.le_refl 0
  | cons request rest ih =>
    have one : request.directories.length ≤ 1 := by
      cases request with
      | directory path => exact Nat.le_refl 1
      | file path => exact Option.length_toList_le
    have more : soughtDirectories (request :: rest) = request.directories ++ soughtDirectories rest :=
      List.flatMap_cons
    rw [more, List.length_append, List.length_cons]
    omega

theorem length_log (log : List Probe) :
    log.length = (askedPaths .directory log).length + (askedPaths .file log).length := by
  induction log using List.reverseRecOn with
  | nil => rfl
  | append_singleton earlier probe ih =>
    obtain ⟨sought, path, answer⟩ := probe
    rw [List.length_append, ih]
    cases sought with
    | directory =>
      rw [askedPaths_same, askedPaths_other earlier Sought.noConfusion, List.length_append]
      exact Nat.add_right_comm _ _ 1
    | file =>
      rw [askedPaths_same, askedPaths_other earlier Sought.noConfusion, List.length_append]
      rfl

theorem tally_perm (perm : requests.Perm others) : tally requests = tally others := by
  have directories : (directoryPaths requests).Perm (directoryPaths others) := perm.filterMap _
  have files : (filePaths requests).Perm (filePaths others) := perm.filterMap _
  have sought : (soughtDirectories requests).Perm (soughtDirectories others) := perm.flatMap_right _
  rw [tally, tally, directories.length_eq, files.length_eq, (eraseDups_perm files).length_eq,
    (eraseDups_perm sought).length_eq, ((eraseDups_perm files).filter _).length_eq]

end Totals

/-- Counters that agree with what was requested, and questions that agree with the counters. -/
structure Accounts (counters : Counters) (log : List Probe) (requests : List Request) : Prop where
  fileLookups : counters.fileLookups.toNat = (filePaths requests).length
  fileMisses : counters.fileMisses.toNat = (filePaths requests).eraseDups.length
  directoryLookups : counters.directoryLookups.toNat =
    (directoryPaths requests).length + ((filePaths requests).eraseDups.filter namesFile).length
  directoryMisses : counters.directoryMisses.toNat = (soughtDirectories requests).eraseDups.length
  questions : log.length =
    counters.directoryMisses.toNat + ((filePaths requests).eraseDups.filter (parentFound log)).length
  /-- Paths are asked about in the order in which they are met first. -/
  directoryQuestions : askedPaths .directory log = (soughtDirectories requests).eraseDups
  fileQuestions : askedPaths .file log = (filePaths requests).eraseDups.filter (parentFound log)

theorem Catalogue.Recounts.findsParent_eq {catalogue : Catalogue} {log : List Probe} (recounts : catalogue.Recounts log)
    (few : log.length < 4294967296) (path : String) : catalogue.findsParent path = parentFound log path := by
  rw [Catalogue.findsParent, parentFound]
  cases parent? path with
  | none => rfl
  | some parent =>
    have indexes := recounts.directories.indexes
    rw [Option.any_some, Option.any_some, Bool.eq_iff_iff, List.any_eq_true]
    constructor
    · intro found
      cases known : catalogue.directoryAt parent with
      | unknown =>
        rw [known] at found
        cases found
      | missing =>
        rw [known] at found
        cases found
      | found id =>
        obtain ⟨finding, member, same, -⟩ := (indexes.found parent id).mp known
        exact ⟨finding, member, decide_eq_true same⟩
    · intro given
      obtain ⟨finding, member, same⟩ := given
      obtain ⟨id, numbered⟩ := indexes.exists_id few member
      rw [(indexes.found parent id).mpr ⟨finding, member, of_decide_eq_true same, numbered⟩]
      rfl

theorem Visit.Charged.accounts {visit : Visit ω} {requests : List Request} (charged : visit.Charged requests)
    (consistent : visit.Consistent) (short : visit.log.length < 4294967296) (few : requests.length < 2147483648) :
    Accounts visit.catalogue.counters visit.log requests := by
  have paths := length_paths requests
  have files := length_eraseDups_le (filePaths requests)
  have named := List.length_filter_le namesFile (filePaths requests).eraseDups
  have sought := length_eraseDups_le (soughtDirectories requests)
  have soughtFew := length_soughtDirectories_le requests
  -- No counter has wrapped around: each of them counts at most one for every request.
  have exact (number : Nat) (small : number < 4294967296) : (UInt32.ofNat number).toNat = number :=
    UInt32.toNat_ofNat_of_lt' small
  have parents : visit.catalogue.findsParent = parentFound visit.log := by
    funext path
    exact consistent.recounts.findsParent_eq short path
  have fileQuestions := charged.files
  rw [parents] at fileQuestions
  have directoryMisses :
      visit.catalogue.counters.directoryMisses.toNat = (soughtDirectories requests).eraseDups.length := by
    rw [charged.counters]
    exact exact _ (by omega)
  constructor
  · rw [charged.counters]
    exact exact _ (by omega)
  · rw [charged.counters]
    exact exact _ (by omega)
  · rw [charged.counters]
    exact exact _ (by omega)
  · exact directoryMisses
  · rw [length_log, charged.directories, directoryMisses, fileQuestions]
  · exact charged.directories
  · exact fileQuestions

section Unchanging
variable {stat : String → Except StatError Stat} {sought : Sought} {log again : List Probe}
  {requests others : List Request}

theorem length_discoveries (sought : Sought) (log : List Probe) :
    (discoveries sought log).length = ((findings sought log).map Finding.identity).eraseDups.length := by
  rw [← List.length_map Finding.identity]
  refine ((List.perm_ext_iff_of_nodup (nodup_discoveries sought log) (nodup_eraseDups _)).mpr ?_).length_eq
  intro identity
  rw [List.mem_eraseDups, List.mem_map, List.mem_map]
  constructor
  · intro given
    obtain ⟨discovery, discovered, same⟩ := given
    exact ⟨discovery, mem_findings_of_discovery discovered, same⟩
  · intro given
    obtain ⟨finding, found, rfl⟩ := given
    obtain ⟨number, discovery, read, same⟩ := exists_discovery found
    exact ⟨discovery, List.mem_of_getElem? read, same⟩

theorem Truthful.findings_eq (truthful : Truthful stat log) (sought : Sought) :
    findings sought log =
      (askedPaths sought log).filterMap fun path => (sought.usable? (stat path)).map (Finding.mk path) := by
  rw [askedPaths, List.filterMap_map, List.filterMap_filter, findings]
  refine List.filterMap_congr fun probe member => ?_
  rw [Probe.finding?, truthful probe member]
  simp only [decide_eq_true_eq, Function.comp_apply]

theorem length_discoveries_eq (truthful : Truthful stat log) (truthfulToo : Truthful stat again)
    (perm : (askedPaths sought log).Perm (askedPaths sought again)) :
    (discoveries sought log).length = (discoveries sought again).length := by
  rw [length_discoveries, length_discoveries, truthful.findings_eq, truthfulToo.findings_eq]
  exact (eraseDups_perm ((perm.filterMap _).map _)).length_eq

theorem Visit.Charged.findsParent_eq {visit : Visit Unit} (charged : visit.Charged requests)
    (consistent : visit.Consistent) (short : visit.log.length < 4294967296) (truthful : Truthful stat visit.log)
    {path : String} (asked : path ∈ filePaths requests) :
    visit.catalogue.findsParent path = ((parent? path).bind (directoryOf? stat)).isSome := by
  rw [Catalogue.findsParent]
  cases above : parent? path with
  | none => rfl
  | some parent =>
    have directories := consistent.recounts.directories
    have known := (charged.directory_known consistent).mpr (mem_soughtDirectories_of_file asked above)
    rw [Option.any_some, Option.bind_some]
    cases memory : visit.catalogue.directoryAt parent with
    | unknown => exact absurd memory known
    | missing =>
      obtain ⟨probe, member, kind, rfl⟩ := directories.probed parent known
      have nowhere : directoryOf? stat probe.path = none :=
        directories.indexes.leads_nowhere short truthful member kind memory
      rw [nowhere]
      rfl
    | found id =>
      obtain ⟨found, leads, -⟩ := directories.indexes.leads_of_found truthful memory
      rw [directoryOf?, leads]
      rfl

theorem statistics_eq_of_perm (stat : String → Except StatError Stat) (perm : requests.Perm others)
    (few : requests.length < 2147483648) :
    (Visit.run (fixed stat) () requests).catalogue.statistics =
      (Visit.run (fixed stat) () others).catalogue.statistics := by
  have fewToo : others.length < 2147483648 := perm.length_eq ▸ few
  obtain ⟨consistent, asked⟩ := Visit.consistent_run (fixed stat) () requests few
  obtain ⟨consistentToo, askedToo⟩ := Visit.consistent_run (fixed stat) () others fewToo
  have short := Visit.length_log_lt consistent asked few
  have shortToo := Visit.length_log_lt consistentToo askedToo fewToo
  have truthful := Visit.truthful_run stat requests
  have truthfulToo := Visit.truthful_run stat others
  have charged := Visit.charged_run (fixed stat) () requests few
  have chargedToo := Visit.charged_run (fixed stat) () others fewToo
  have directories : (askedPaths .directory (Visit.run (fixed stat) () requests).log).Perm
      (askedPaths .directory (Visit.run (fixed stat) () others).log) := by
    rw [charged.directories, chargedToo.directories]
    exact eraseDups_perm (perm.flatMap_right _)
  have files : (askedPaths .file (Visit.run (fixed stat) () requests).log).Perm
      (askedPaths .file (Visit.run (fixed stat) () others).log) := by
    have parents : (filePaths requests).eraseDups.filter (Visit.run (fixed stat) () requests).catalogue.findsParent =
        (filePaths requests).eraseDups.filter (Visit.run (fixed stat) () others).catalogue.findsParent := by
      refine List.filter_congr fun path member => ?_
      have requested := List.mem_eraseDups.mp member
      have requestedToo : path ∈ filePaths others := (perm.filterMap _).mem_iff.mp requested
      rw [charged.findsParent_eq consistent short truthful requested,
        chargedToo.findsParent_eq consistentToo shortToo truthfulToo requestedToo]
    rw [charged.files, chargedToo.files, parents]
    exact (eraseDups_perm (perm.filterMap _)).filter _
  rw [Catalogue.statistics, Catalogue.statistics, charged.counters, chargedToo.counters, tally_perm perm,
    consistent.recounts.directories.count, consistentToo.recounts.directories.count,
    consistent.recounts.files.count, consistentToo.recounts.files.count]
  exact congrArg₂ (Statistics.mk · · (tally others)) (length_discoveries_eq truthful truthfulToo directories)
    (length_discoveries_eq truthful truthfulToo files)

end Unchanging

def statisticsOver (stat : String → Except StatError Stat) (requests : List Request) : Statistics :=
  ((Catalogue.empty.serveAll (fixed stat) requests).run ()).1.2.statistics

/-- In every run, whatever the file system answers and however it changes, the counters and the number of questions are
those that the distinct paths requested call for. In a file system that does not change, the statistics are those of the
same requests in any other order. -/
theorem counters_follow_requests (system : FileSystem ω) (world : ω) (requests : List Request)
    (few : requests.length < 2147483648) :
    let visit := Visit.run system world requests
    (Catalogue.empty.serveAll system requests).run world =
      ((visit.calls, visit.catalogue), visit.watched.world) ∧
    Accounts visit.catalogue.statistics.counters visit.log requests ∧
    ∀ stat others, requests.Perm others → statisticsOver stat requests = statisticsOver stat others := by
  intro visit
  obtain ⟨consistent, answered⟩ := Visit.consistent_run system world requests few
  have short := Visit.length_log_lt consistent answered few
  have charged := Visit.charged_run system world requests few
  refine ⟨Visit.run_unwatched system world requests, charged.accounts consistent short few, ?_⟩
  intro stat others perm
  rw [statisticsOver, statisticsOver, Visit.run_unwatched, Visit.run_unwatched]
  exact statistics_eq_of_perm stat perm few

/-- The current directory is looked up for the sake of a file, and again for its own. -/
theorem directory_is_missed_once :
    let requests := [Request.file "a", .file "a", .directory ".", .file "b/"]
    let counters := (Visit.run (fixed oneFile) () requests).catalogue.statistics.counters
    requests.length < 2147483648 ∧ counters.fileLookups.toNat = 3 ∧ counters.fileMisses.toNat = 2 ∧
      counters.directoryLookups.toNat = 2 ∧ counters.directoryMisses.toNat = 1 ∧
      statisticsOver oneFile requests = statisticsOver oneFile requests.reverse := by
  intro requests counters
  have few : requests.length < 2147483648 := by decide
  obtain ⟨-, accounts, reordered⟩ := counters_follow_requests (fixed oneFile) () requests few
  exact ⟨few, accounts.fileLookups, accounts.fileMisses.trans (by decide), accounts.directoryLookups.trans (by decide),
    accounts.directoryMisses.trans (by decide), reordered oneFile _ (List.reverse_perm requests).symm⟩

end Canon.File
