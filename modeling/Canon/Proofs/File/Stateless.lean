import Canon.Proofs.File.Run

/-!
Look-ups in a file system that does not change. What a path leads to can be said without a catalogue, and the
answers of a run are the same up to a numbering of identities.
-/
namespace Canon.File

def fixed (stat : String → Except StatError Stat) : FileSystem Unit := fun path world => (stat path, world)

def directoryOf? (stat : String → Except StatError Stat) (path : String) : Option Stat :=
  Sought.directory.usable? (stat path)

def fileOf? (stat : String → Except StatError Stat) (path : String) : Option Stat :=
  match (parent? path).bind (directoryOf? stat) with
  | some _ => Sought.file.usable? (stat path)
  | none => none

theorem Sought.usable?_eq_some {sought : Sought} {answer : Except StatError Stat} {found : Stat} :
    sought.usable? answer = some found ↔ answer = .ok found ∧ sought.accepts found = true := by
  cases answer with
  | error _ => simp [Sought.usable?]
  | ok stat =>
    by_cases accepted : sought.accepts stat = true
    · simp only [Sought.usable?, accepted, if_true, Option.some.injEq, Except.ok.injEq]
      exact ⟨fun same => ⟨same, same ▸ accepted⟩, And.left⟩
    · simp only [Sought.usable?, accepted, Bool.false_eq_true, if_false, reduceCtorEq, Except.ok.injEq, false_iff]
      intro given
      rcases given with ⟨rfl, same⟩
      exact accepted same

theorem directoryOf?_eq_some {stat : String → Except StatError Stat} {path : String} {found : Stat} :
    directoryOf? stat path = some found ↔ stat path = .ok found ∧ found.isDirectory = true :=
  Sought.usable?_eq_some

theorem fileOf?_eq_some {stat : String → Except StatError Stat} {path : String} {found : Stat} :
    fileOf? stat path = some found ↔
      (∃ parent directory, parent? path = some parent ∧ directoryOf? stat parent = some directory) ∧
        Sought.file.usable? (stat path) = some found := by
  unfold fileOf?
  cases above : parent? path with
  | none => simp
  | some parent =>
    cases within : directoryOf? stat parent with
    | none => simp [within]
    | some directory => simp [within]

theorem parent?_eq_none_iff {path : String} : parent? path = none ↔ path.toList.getLast? = some separator := by
  rw [parent?, Option.map_eq_none_iff, ← List.head?_reverse, parentChars?]
  cases path.toList.reverse with
  | nil => simp
  | cons last before =>
    by_cases ends : last = separator
    · simp [ends]
    · have leaf : ((last :: before).takeWhile (· != separator)).isEmpty = false := by simp [ends]
      simp only [leaf, Bool.false_eq_true, if_false, List.head?_cons, Option.some.injEq, ends, iff_false]
      split
      · simp
      · split
        · simp
        · simp

/-- All questions in a log were answered by one function. -/
def Truthful (stat : String → Except StatError Stat) (log : List Probe) : Prop :=
  ∀ probe ∈ log, probe.answer = stat probe.path

theorem Truthful.concat {stat : String → Except StatError Stat} {log : List Probe} (truthful : Truthful stat log)
    (sought : Sought) {path : String} {answer : Except StatError Stat} (asked : stat path = answer) :
    Truthful stat (log ++ [⟨sought, path, answer⟩]) := by
  intro probe member
  rcases List.mem_append.mp member with old | last
  · exact truthful probe old
  · rw [List.mem_singleton.mp last]
    exact asked.symm

theorem Truthful.usable {stat : String → Except StatError Stat} {sought : Sought} {log : List Probe}
    (truthful : Truthful stat log) {finding : Finding} (found : finding ∈ findings sought log) :
    sought.usable? (stat finding.path) = some finding.stat := by
  obtain ⟨probe, member, made⟩ := mem_findings.mp found
  obtain ⟨-, path, usable⟩ := Probe.finding?_eq_some made
  rw [← path, ← truthful probe member]
  exact usable

def Numbers {kind : Handle.Kind} (ids : Std.HashMap Identity (Handle kind)) (id : Handle kind) (found : Stat) : Prop :=
  ids[found.identity]? = some id

namespace Indexes
variable {kind : Handle.Kind} {sought : Sought} {log : List Probe} {known : String → Resolution (Handle kind)}
  {ids : Std.HashMap Identity (Handle kind)} {stat : String → Except StatError Stat} {path : String}

theorem leads_of_found (indexes : Indexes sought log known ids) (truthful : Truthful stat log) {id : Handle kind}
    (found : known path = .found id) : ∃ leads, sought.usable? (stat path) = some leads ∧ Numbers ids id leads := by
  obtain ⟨finding, member, rfl, numbered⟩ := (indexes.found path id).mp found
  exact ⟨finding.stat, truthful.usable member, numbered⟩

theorem leads_nowhere (indexes : Indexes sought log known ids) (few : log.length < 4294967296)
    (truthful : Truthful stat log) {probe : Probe} (asked : probe ∈ log) (same : probe.sought = sought)
    (missing : known probe.path = .missing) : sought.usable? (stat probe.path) = none := by
  cases leads : sought.usable? (stat probe.path) with
  | none => rfl
  | some found =>
    have member : ⟨probe.path, found⟩ ∈ findings sought log := by
      refine mem_findings.mpr ⟨probe, asked, ?_⟩
      rw [Probe.finding?, if_pos same, truthful probe asked, leads, Option.map_some]
    obtain ⟨id, numbered⟩ := indexes.exists_id few member
    rw [(indexes.found probe.path id).mpr ⟨_, member, rfl, numbered⟩] at missing
    cases missing

end Indexes

namespace Visit
variable {stat : String → Except StatError Stat} {visit : Visit Unit}

theorem truthful_run (stat : String → Except StatError Stat) (requests : List Request) :
    Truthful stat (run (fixed stat) () requests).log := by
  have asks (watched : Watched Unit) (sought : Sought) (path : String) (truthful : Truthful stat watched.log) :
      Truthful stat ((Watched.ask (fixed stat) sought path).run watched).2.log := truthful.concat sought rfl
  exact @run_keeps _ _ (fun watched => Truthful stat watched.log) asks () nofun requests

theorem Consistent.directory_numbered (consistent : visit.Consistent) (few : visit.log.length < 4294967296)
    (truthful : Truthful stat visit.log) {path : String} {answer : Option DirectoryId}
    (called : .directory path answer ∈ visit.calls) :
    Option.Rel (Numbers visit.catalogue.directoryIds) answer (directoryOf? stat path) := by
  have known : visit.catalogue.directoryAt path = .ofAnswer answer := consistent.stands _ called
  have indexes := consistent.recounts.directories.indexes
  cases answer with
  | some id =>
    obtain ⟨found, leads, numbered⟩ := indexes.leads_of_found truthful known
    rw [directoryOf?, leads]
    exact .some numbered
  | none =>
    have asked : visit.catalogue.directoryAt path ≠ .unknown := known ▸ Resolution.ofAnswer_ne_unknown none
    obtain ⟨probe, member, kind, rfl⟩ := consistent.recounts.directories.probed path asked
    rw [directoryOf?, indexes.leads_nowhere few truthful member kind known]
    exact .none

/-- A file look-up answers what a look-up without a memory would find, by the number of its identity. -/
theorem Consistent.file_numbered (consistent : visit.Consistent) (few : visit.log.length < 4294967296)
    (truthful : Truthful stat visit.log) {path : String} {answer : Option FileId}
    (called : .file path answer ∈ visit.calls) :
    Option.Rel (Numbers visit.catalogue.fileIds) answer (fileOf? stat path) := by
  have known : visit.catalogue.fileAt path = .ofAnswer answer := consistent.stands _ called
  have directories := consistent.recounts.directories
  have indexes := consistent.recounts.files.indexes
  cases answer with
  | some id =>
    obtain ⟨finding, member, rfl, numbered⟩ := (indexes.found path id).mp known
    obtain ⟨parent, directory, above, within⟩ := consistent.recounts.files.parents finding member
    obtain ⟨found, leads, -⟩ := directories.indexes.leads_of_found truthful within
    have file : fileOf? stat finding.path = some finding.stat :=
      fileOf?_eq_some.mpr ⟨⟨parent, found, above, leads⟩, truthful.usable member⟩
    rw [file]
    exact .some numbered
  | none =>
    cases file : fileOf? stat path with
    | none => exact .none
    | some found =>
      obtain ⟨⟨parent, directory, above, within⟩, usable⟩ := fileOf?_eq_some.mp file
      have asked : visit.catalogue.fileAt path ≠ .unknown := known ▸ Resolution.ofAnswer_ne_unknown none
      rcases consistent.reasoned path asked with bare | ⟨other, same, missing⟩ | ⟨probe, member, kind, rfl⟩
      · rw [bare] at above
        cases above
      · rw [above, Option.some.injEq] at same
        subst other
        obtain ⟨probe, member, kind, rfl⟩ := directories.probed parent (by simp [missing])
        have nowhere := directories.indexes.leads_nowhere few truthful member kind missing
        exact absurd (nowhere.symm.trans within) (Option.some_ne_none directory).symm
      · have nowhere := indexes.leads_nowhere few truthful member kind known
        exact absurd (nowhere.symm.trans usable) (Option.some_ne_none found).symm

end Visit

section
variable {kind : Handle.Kind} {sought : Sought} {log again : List Probe}
  {known : String → Resolution (Handle kind)} {ids later : Std.HashMap Identity (Handle kind)}

theorem Indexes.identity_eq (indexes : Indexes sought log known ids) {left right : Identity} {id : Handle kind}
    (first : ids[left]? = some id) (second : ids[right]? = some id) : left = right := by
  rw [indexes.numbered] at first second
  exact Option.some.inj (first.symm.trans second)

theorem Numbers.answer_iff {answer : Option (Handle kind)} {leads : Option Stat}
    (numbered : Option.Rel (Numbers ids) answer leads) {id : Handle kind} :
    answer = some id ↔ ∃ found, leads = some found ∧ Numbers ids id found := by
  cases numbered with
  | none => simp
  | @some first found here =>
    rw [Option.some.injEq]
    constructor
    · intro same
      subst same
      exact ⟨found, rfl, here⟩
    · intro given
      rcases given with ⟨other, same, there⟩
      rw [← Option.some.inj same] at there
      exact Option.some.inj (here.symm.trans there)

/-- Two runs that answer alike: what has the same handle in one has the same handle in the other, namely what has the
same identity, and the answers of one are those of the other with other names for the handles. -/
structure Alike (leads : String → Option Stat) (answered repeated : String → Option (Handle kind) → Prop) : Prop where
  identity : ∀ path other left right, answered path left → answered other right →
    ((∃ id, left = some id ∧ right = some id) ↔
      ∃ found place, leads path = some found ∧ leads other = some place ∧ found.identity = place.identity)
  equal : ∀ path other left right first second, answered path left → answered other right → repeated path first →
    repeated other second → ((∃ id, left = some id ∧ right = some id) ↔ ∃ id, first = some id ∧ second = some id)
  renamed : ∃ rename : Handle kind → Handle kind,
    (∀ path answer other, answered path answer → repeated path other → other = answer.map rename) ∧
    ∀ path other left right first second, answered path (some left) → answered other (some right) →
      repeated path first → repeated other second → rename left = rename right → left = right

theorem Indexes.equal_iff (indexes : Indexes sought log known ids) {left right : Option (Handle kind)}
    {here there : Option Stat} (first : Option.Rel (Numbers ids) left here)
    (second : Option.Rel (Numbers ids) right there) :
    (∃ id, left = some id ∧ right = some id) ↔
      ∃ found place, here = some found ∧ there = some place ∧ found.identity = place.identity := by
  constructor
  · intro given
    rcases given with ⟨id, one, two⟩
    obtain ⟨found, reached, numbered⟩ := (Numbers.answer_iff first).mp one
    obtain ⟨place, arrived, also⟩ := (Numbers.answer_iff second).mp two
    exact ⟨found, place, reached, arrived, indexes.identity_eq numbered also⟩
  · intro given
    rcases given with ⟨found, place, rfl, arrived, same⟩
    cases first with
    | @some id _ numbered =>
      have also : Numbers ids id place := by
        rw [Numbers, ← same]
        exact numbered
      exact ⟨id, rfl, (Numbers.answer_iff second).mpr ⟨place, arrived, also⟩⟩

def translate (sought : Sought) (log : List Probe) (later : Std.HashMap Identity (Handle kind)) (id : Handle kind) :
    Handle kind :=
  ((discoveries sought log)[id.index]?.bind fun discovery => later[discovery.identity]?).getD id

theorem Indexes.translate_eq (indexes : Indexes sought log known ids) {found : Stat} {id other : Handle kind}
    (first : Numbers ids id found) (second : Numbers later other found) : translate sought log later id = other := by
  obtain ⟨discovery, read, same⟩ := Option.map_eq_some_iff.mp ((indexes.numbered _ _).mp first)
  rw [translate, read, Option.bind_some, same, second, Option.getD_some]

theorem Indexes.alike (indexes : Indexes sought log known ids) {after : String → Resolution (Handle kind)}
    (others : Indexes sought again after later) {leads : String → Option Stat}
    {answered repeated : String → Option (Handle kind) → Prop}
    (numbered : ∀ path answer, answered path answer → Option.Rel (Numbers ids) answer (leads path))
    (renumbered : ∀ path answer, repeated path answer → Option.Rel (Numbers later) answer (leads path)) :
    Alike leads answered repeated where
  identity path other left right called also :=
    indexes.equal_iff (numbered path left called) (numbered other right also)
  equal path other left right first second called also twice again := by
    rw [indexes.equal_iff (numbered path left called) (numbered other right also),
      others.equal_iff (renumbered path first twice) (renumbered other second again)]
  renamed := by
    have moved : ∀ path answer other, answered path answer → repeated path other →
        other = answer.map (translate sought log later) := by
      intro path answer other called twice
      have first := numbered path answer called
      have second := renumbered path other twice
      generalize leads path = found at first second
      cases first with
      | none =>
        cases second
        rfl
      | some here =>
        cases second with
        | some there => rw [Option.map_some, indexes.translate_eq here there]
    refine ⟨translate sought log later, moved, ?_⟩
    intro path other left right first second called also twice again same
    obtain rfl := moved path _ _ called twice
    obtain rfl := moved other _ _ also again
    have equal := (others.equal_iff (renumbered path _ twice) (renumbered other _ again)).mp
      ⟨translate sought log later left, rfl, by rw [Option.map_some, same]⟩
    obtain ⟨id, first, second⟩ := (indexes.equal_iff (numbered path _ called) (numbered other _ also)).mpr equal
    exact Option.some.inj (first.trans second.symm)

end

/-- What a run over an unchanging file system answers, said without a catalogue. -/
structure Stateless (stat : String → Except StatError Stat) (calls : List Call) : Prop where
  directory : ∀ path answer, .directory path answer ∈ calls →
    (answer.isSome ↔ ∃ found, stat path = .ok found ∧ found.isDirectory = true)
  file : ∀ path answer, .file path answer ∈ calls →
    (answer.isSome ↔ path.toList.getLast? ≠ some separator ∧
      (∃ parent within, parent? path = some parent ∧ stat parent = .ok within ∧ within.isDirectory = true) ∧
      ∃ found, stat path = .ok found ∧ found.isDirectory = false)

theorem isSome_of_rel {kind : Handle.Kind} {ids : Std.HashMap Identity (Handle kind)} {answer : Option (Handle kind)}
    {leads : Option Stat} (numbered : Option.Rel (Numbers ids) answer leads) :
    answer.isSome ↔ ∃ found, leads = some found := by
  cases numbered with
  | some _ => simp
  | none => simp

theorem Visit.Consistent.stateless {stat : String → Except StatError Stat} {visit : Visit Unit}
    (consistent : visit.Consistent) (few : visit.log.length < 4294967296) (truthful : Truthful stat visit.log) :
    Stateless stat visit.calls where
  directory path answer called := by
    rw [isSome_of_rel (consistent.directory_numbered few truthful called)]
    simp only [directoryOf?_eq_some]
  file path answer called := by
    rw [isSome_of_rel (consistent.file_numbered few truthful called)]
    constructor
    · intro given
      rcases given with ⟨found, leads⟩
      obtain ⟨⟨parent, within, above, directory⟩, usable⟩ := fileOf?_eq_some.mp leads
      refine ⟨?_, ⟨parent, within, above, directoryOf?_eq_some.mp directory⟩, found, ?_⟩
      · intro ends
        rw [parent?_eq_none_iff.mpr ends] at above
        cases above
      · simpa [Sought.accepts] using Sought.usable?_eq_some.mp usable
    · intro given
      rcases given with ⟨-, ⟨parent, within, above, directory⟩, found, leads, kind⟩
      exact ⟨found, fileOf?_eq_some.mpr ⟨⟨parent, within, above, directoryOf?_eq_some.mpr directory⟩,
        Sought.usable?_eq_some.mpr ⟨leads, by simp [Sought.accepts, kind]⟩⟩⟩

def callsOver (stat : String → Except StatError Stat) (requests : List Request) : List Call :=
  ((Catalogue.empty.serveAll (fixed stat) requests).run ()).1.1

theorem callsOver_eq (stat : String → Except StatError Stat) (requests : List Request) :
    callsOver stat requests = (Visit.run (fixed stat) () requests).calls := by
  rw [callsOver, Visit.run_unwatched]

/-- The answers of every run over an unchanging file system are those of look-ups that remember nothing, up to the
names of handles. Two runs, whatever they ask and in whatever order, differ in these names only. -/
theorem answers_forget_order (stat : String → Except StatError Stat) (requests others : List Request)
    (few : requests.length < 2147483648) (fewToo : others.length < 2147483648) :
    let calls := callsOver stat requests
    let repeated := callsOver stat others
    calls.map Call.request = requests ∧ repeated.map Call.request = others ∧ Stateless stat calls ∧
      Alike (directoryOf? stat) (fun path answer => .directory path answer ∈ calls)
        (fun path answer => .directory path answer ∈ repeated) ∧
      Alike (fileOf? stat) (fun path answer => .file path answer ∈ calls)
        (fun path answer => .file path answer ∈ repeated) := by
  obtain ⟨consistent, asked⟩ := Visit.consistent_run (fixed stat) () requests few
  obtain ⟨consistentToo, askedToo⟩ := Visit.consistent_run (fixed stat) () others fewToo
  have short := Visit.length_log_lt consistent asked few
  have shortToo := Visit.length_log_lt consistentToo askedToo fewToo
  have truthful := Visit.truthful_run stat requests
  have truthfulToo := Visit.truthful_run stat others
  simp only [callsOver_eq]
  refine ⟨asked, askedToo, consistent.stateless short truthful, ?_, ?_⟩
  · exact consistent.recounts.directories.indexes.alike consistentToo.recounts.directories.indexes
      (fun path answer => consistent.directory_numbered short truthful)
      (fun path answer => consistentToo.directory_numbered shortToo truthfulToo)
  · exact consistent.recounts.files.indexes.alike consistentToo.recounts.files.indexes
      (fun path answer => consistent.file_numbered short truthful)
      (fun path answer => consistentToo.file_numbered shortToo truthfulToo)

/-- A current directory in which every name leads to one file. -/
def oneFile (path : String) : Except StatError Stat :=
  if path = "." then .ok ⟨true, ⟨1, 1⟩, 0, 0, 0⟩ else .ok ⟨false, ⟨1, 2⟩, 0, 0, 0⟩

theorem two_names_one_handle :
    (callsOver oneFile [.file "a", .file "b"]).map Call.request = [.file "a", .file "b"] ∧
      ∀ left right, .file "a" left ∈ callsOver oneFile [.file "a", .file "b"] →
        .file "b" right ∈ callsOver oneFile [.file "a", .file "b"] → ∃ id, left = some id ∧ right = some id := by
  obtain ⟨asked, -, -, -, files⟩ :=
    answers_forget_order oneFile [.file "a", .file "b"] [.file "b", .file "a"] (by decide) (by decide)
  refine ⟨asked, fun left right first second => ?_⟩
  have one : fileOf? oneFile "a" = some ⟨false, ⟨1, 2⟩, 0, 0, 0⟩ := by decide
  have two : fileOf? oneFile "b" = some ⟨false, ⟨1, 2⟩, 0, 0, 0⟩ := by decide
  exact (files.identity "a" "b" left right first second).mpr ⟨_, _, one, two, rfl⟩

end Canon.File
