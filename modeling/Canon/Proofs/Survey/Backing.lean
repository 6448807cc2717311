import Canon.Proofs.File.Canonical
import Canon.Proofs.Survey.Tour

/-!
What a survey remembers of the paths that were added. Whatever the host does between two additions, the catalogue of a
survey is one that look-ups lead to: the answer to every addition fits what is remembered of its path, and a file is
named by the path of the first addition that leads to it.
-/
namespace Canon
open Canon.File
variable {ω : Type}

namespace File

theorem Catalogue.Recounts.exists_record {catalogue : Catalogue} {log : List Probe} (recounts : catalogue.Recounts log)
    {path : String} {file : FileId} (found : catalogue.fileAt path = .found file) :
    ∃ record, catalogue.files.get? file = some record ∧ record.uid.toNat = file.index := by
  obtain ⟨finding, -, -, number⟩ := (recounts.files.indexes.found path file).mp found
  obtain ⟨discovery, read, -⟩ := Option.map_eq_some_iff.mp ((recounts.files.indexes.numbered _ file).mp number)
  obtain ⟨record, entered, describes⟩ := recounts.files.records file.index discovery read
  exact ⟨record, entered, describes.uid⟩

/-- A look-up takes a visit further, in whatever world the file system is by then. -/
theorem Visit.Consistent.look {visit : Visit ω} (consistent : visit.Consistent)
    (few : visit.calls.length + 1 < 2147483648) (system : FileSystem ω) {path : String} {world later : ω}
    {found : Option FileId} {catalogue : Catalogue}
    (looked : (visit.catalogue.file (m := StateM ω) system path).run world = ((found, catalogue), later)) :
    ∃ next : Visit ω, next.Consistent ∧ visit.Continues next ∧ next.catalogue = catalogue ∧
      next.calls = visit.calls ++ [.file path found] ∧ ∀ other, catalogue.fileAt other ≠ .unknown →
        visit.catalogue.fileAt other ≠ .unknown ∨ other = path := by
  let here : Visit ω := ⟨visit.catalogue, ⟨world, visit.log⟩, visit.calls⟩
  have stays : here.Consistent :=
    ⟨consistent.recounts, consistent.stands, consistent.reasoned, consistent.names, consistent.log⟩
  have plain := visit.catalogue.file_watched system path ⟨world, visit.log⟩
  rcases outcome : (visit.catalogue.fileBy (Watched.ask system) path).run ⟨world, visit.log⟩ with
    ⟨⟨answer, after⟩, watched⟩
  rw [outcome] at plain
  cases plain.symm.trans looked
  have served : here.serve system (.file path) = ⟨catalogue, watched, visit.calls ++ [.file path found]⟩ := by
    simp only [Visit.serve, here, outcome]
  obtain ⟨next, ⟨log, remembers, fileAt, directories, files⟩, -⟩ := stays.serve few system (.file path)
  rw [served] at next log remembers fileAt directories files
  refine ⟨_, next, ⟨log, remembers, fileAt, directories, files⟩, rfl, rfl, fun other known => ?_⟩
  have still : (here.serve system (.file path)).catalogue.fileAt other ≠ .unknown := by
    rw [served]
    exact known
  rcases stays.requested few system (.file path) still with old | same
  · exact .inl old
  · cases same
    exact .inr rfl

end File

inductive Addition.Fits (addition : Addition) (catalogue : Catalogue) : Prop where
  | missing (vain : addition.answer = .error (.noSuchFile addition.path))
    (nowhere : catalogue.fileAt addition.path = .missing) : addition.Fits catalogue
  | found {file} (leads : catalogue.fileAt addition.path = .found file)
    (some : addition.answer ≠ .error (.noSuchFile addition.path))
    (reported : ∀ report, addition.answer = .ok (.surveyed report) → report.file = file) : addition.Fits catalogue

theorem Addition.Fits.known {addition : Addition} {catalogue : Catalogue} (fits : addition.Fits catalogue) :
    catalogue.fileAt addition.path ≠ .unknown := by
  cases fits with
  | missing _ nowhere =>
    rw [nowhere]
    exact nofun
  | found leads =>
    rw [leads]
    exact nofun

theorem Addition.Fits.later {addition : Addition} {before after : Visit ω} (fits : addition.Fits before.catalogue)
    (continues : before.Continues after) : addition.Fits after.catalogue := by
  have kept := continues.fileAt addition.path fits.known
  cases fits with
  | missing vain nowhere => exact .missing vain (kept.trans nowhere)
  | found leads some reported => exact .found (kept.trans leads) some reported

theorem Survey.Adds.fits {host : Host (StateM ω)} {path : String} {survey after : Survey} {world later middle : ω}
    {answer : Except SurveyError Outcome} {readings : List FileReading} {found : Option FileId} {log : List Probe}
    (adds : Adds host path survey world answer after later readings) (recounts : after.catalogue.Recounts log)
    (looked : (survey.catalogue.file host.stat path).run world = ((found, after.catalogue), middle))
    (known : after.catalogue.fileAt path = .ofAnswer found) :
    Addition.Fits ⟨path, answer, readings⟩ after.catalogue := by
  cases adds with
  | missing looks nothing =>
    cases looks.symm.trans looked
    cases found with
    | none => exact .missing rfl known
    | some file =>
      obtain ⟨record, entered, -⟩ := recounts.exists_record known
      cases (nothing file rfl).symm.trans entered
  | duplicate looks =>
    cases looks.symm.trans looked
    exact .found known nofun nofun
  | unreadable looks =>
    cases looks.symm.trans looked
    exact .found known nofun nofun
  | surveyed looks =>
    cases looks.symm.trans looked
    refine .found known nofun fun report same => ?_
    cases same
    rfl

namespace Tour
variable {host : Host (StateM ω)} {dialect : Dialect} {world : ω} {paths : List String} {file : FileId}

structure Backed (tour : Tour ω) (visit : Visit ω) : Prop where
  consistent : visit.Consistent
  catalogue : visit.catalogue = tour.survey.catalogue
  count : visit.calls.length = tour.additions.length
  fits : ∀ addition ∈ tour.additions, addition.Fits visit.catalogue
  known : ∀ path, visit.catalogue.fileAt path ≠ .unknown → ∃ addition ∈ tour.additions, addition.path = path

theorem backed_start (dialect : Dialect) (world : ω) : (start dialect world).Backed (.start world) where
  consistent := Visit.consistent_start world
  catalogue := rfl
  count := rfl
  fits _ member := absurd member List.not_mem_nil
  known path known := absurd (Catalogue.fileAt_empty path) known

theorem Backed.add {tour : Tour ω} {visit : Visit ω} (backed : tour.Backed visit)
    (few : tour.additions.length + 1 < 2147483648) (host : Host (StateM ω)) (path : String) :
    ∃ next, (tour.add host path).Backed next ∧ visit.Continues next := by
  obtain ⟨consistent, catalogue, count, fits, known⟩ := backed
  obtain ⟨answer, after, later, readings, -, added, adds⟩ := tour.add_adds host path
  obtain ⟨found, middle, looked⟩ := adds.looks
  have looks := looked
  rw [← catalogue] at looks
  obtain ⟨next, consistently, continues, same, calls, requested⟩ := consistent.look (by omega) host.stat looks
  have stands : Call.Stands next.catalogue (.file path found) := consistently.stands _ (by rw [calls]; simp)
  rw [added]
  refine ⟨next, ⟨consistently, same, ?_, fun addition member => ?_, fun other among => ?_⟩, continues⟩
  · simp [calls, count]
  · rcases List.mem_append.mp member with old | last
    · exact (fits addition old).later continues
    · rw [List.mem_singleton.mp last, same]
      exact adds.fits (same ▸ consistently.recounts) looked (same ▸ stands)
  · rcases requested other (same ▸ among) with old | rfl
    · obtain ⟨addition, member, here⟩ := known other old
      exact ⟨addition, List.mem_append_left _ member, here⟩
    · exact ⟨_, List.mem_append_right _ (List.mem_singleton.mpr rfl), rfl⟩

theorem Backed.addAll {tour : Tour ω} {visit : Visit ω} (backed : tour.Backed visit) (host : Host (StateM ω))
    (paths : List String) (few : tour.additions.length + paths.length < 2147483648) :
    ∃ next, (paths.foldl (Tour.add host) tour).Backed next ∧ visit.Continues next := by
  induction paths generalizing tour visit with
  | nil => exact ⟨visit, backed, .refl visit⟩
  | cons path rest ih =>
    rw [List.length_cons] at few
    obtain ⟨next, further, continues⟩ := backed.add (by omega) host path
    have count : (tour.add host path).additions.length = tour.additions.length + 1 := by
      obtain ⟨answer, after, later, readings, -, added, -⟩ := tour.add_adds host path
      rw [added]
      exact List.length_append
    obtain ⟨last, whole, further⟩ := ih further (by omega)
    exact ⟨last, whole, continues.trans further⟩

theorem backed_run (host : Host (StateM ω)) (dialect : Dialect) (world : ω) (few : paths.length < 2147483648) :
    ∃ visit, (run host dialect world paths).Backed visit := by
  obtain ⟨visit, backed, -⟩ := (backed_start dialect world).addAll host paths (by simpa [start] using few)
  exact ⟨visit, backed⟩

theorem backed_split (few : paths.length < 2147483648) {before behind : List Addition} {addition : Addition}
    (split : (run host dialect world paths).additions = before ++ addition :: behind) :
    ∃ (early : Tour ω) (first last : Visit ω), early.additions = before ++ [addition] ∧ early.Backed first ∧
      (run host dialect world paths).Backed last ∧ first.Continues last := by
  obtain ⟨-, survey, later, middle, -⟩ := run_split split
  have whole := paths_run host dialect world paths
  rw [split, List.append_cons, List.map_append] at whole
  rw [← whole, List.length_append] at few
  obtain ⟨first, early⟩ := backed_run host dialect world (Nat.lt_of_add_right_lt few)
  have count := congrArg List.length (paths_run host dialect world ((before ++ [addition]).map Addition.path))
  rw [List.length_map] at count
  obtain ⟨last, late, continues⟩ := early.addAll host (behind.map Addition.path) (by omega)
  refine ⟨_, first, last, congrArg additions middle, early, ?_, continues⟩
  rw [← whole, run, List.foldl_append]
  exact late

theorem fits_run (few : paths.length < 2147483648) {addition : Addition}
    (member : addition ∈ (run host dialect world paths).additions) :
    addition.Fits (run host dialect world paths).survey.catalogue := by
  obtain ⟨visit, backed⟩ := backed_run host dialect world few
  exact backed.catalogue ▸ backed.fits addition member

theorem surveyed_leads (few : paths.length < 2147483648) {addition : Addition} {report : Report}
    (member : addition ∈ (run host dialect world paths).additions)
    (answered : addition.answer = .ok (.surveyed report)) :
    (run host dialect world paths).survey.catalogue.fileAt addition.path = .found report.file := by
  cases fits_run few member with
  | missing vain => cases vain.symm.trans answered
  | found leads _ reported => rw [leads, reported report answered]

/-- A file that is found has a record and a name, so an addition never misses either. -/
theorem Backed.found {tour : Tour ω} {visit : Visit ω} (backed : tour.Backed visit)
    (few : tour.additions.length + 1 < 2147483648) (system : FileSystem ω) {path : String} {moment later : ω}
    {catalogue : Catalogue}
    (looked : (tour.survey.catalogue.file (m := StateM ω) system path).run moment = ((some file, catalogue), later)) :
    (∃ record, catalogue.files.get? file = some record) ∧
      catalogue.fileName file = .ok (Survey.firstPath { tour.survey with catalogue } file) := by
  rw [← backed.catalogue] at looked
  have count : visit.calls.length + 1 < 2147483648 := backed.count ▸ few
  obtain ⟨next, consistent, -, rfl, calls, -⟩ := backed.consistent.look count system looked
  have stands : Call.Stands next.catalogue (.file path (some file)) := consistent.stands _ (by rw [calls]; simp)
  obtain ⟨record, entered, -⟩ := consistent.recounts.exists_record stands
  obtain ⟨name, -, named, -⟩ := consistent.recounts.exists_fileName entered
  refine ⟨⟨record, entered⟩, ?_⟩
  rw [Survey.firstPath, named]
  rfl

theorem found_run (few : paths.length + 1 < 2147483648) (system : FileSystem ω) {path : String} {moment later : ω}
    {catalogue : Catalogue}
    (looked : ((run host dialect world paths).survey.catalogue.file (m := StateM ω) system path).run moment =
      ((some file, catalogue), later)) :
    (∃ record, catalogue.files.get? file = some record) ∧ catalogue.fileName file =
      .ok (Survey.firstPath { (run host dialect world paths).survey with catalogue } file) := by
  obtain ⟨visit, backed⟩ := backed_run host dialect world (Nat.lt_of_succ_lt few)
  have count : (run host dialect world paths).additions.length = paths.length := by
    have names := congrArg List.length (paths_run host dialect world paths)
    rwa [List.length_map] at names
  exact backed.found (count ▸ few) system looked

theorem fileName_run (few : paths.length < 2147483648) {before behind : List Addition} {origin : Addition}
    (split : (run host dialect world paths).additions = before ++ origin :: behind)
    (leads : (run host dialect world paths).survey.catalogue.fileAt origin.path = .found file)
    (new : ∀ other ∈ before, (run host dialect world paths).survey.catalogue.fileAt other.path ≠ .found file) :
    (run host dialect world paths).survey.catalogue.fileName file = .ok origin.path := by
  obtain ⟨tour, first, last, additions, early, late, continues⟩ := backed_split few split
  rw [← late.catalogue] at leads new ⊢
  have fits (addition : Addition) (member : addition ∈ before ++ [origin]) : addition.Fits first.catalogue :=
    early.fits addition (additions ▸ member)
  have origin_fits := fits origin (List.mem_append_right _ (List.mem_singleton.mpr rfl))
  rw [continues.fileAt _ origin_fits.known] at leads
  -- When it is reached first, the file has a name already, and no other path known by then leads to it.
  obtain ⟨record, entered, -⟩ := early.consistent.recounts.exists_record leads
  obtain ⟨path, -, named, found, -⟩ := early.consistent.recounts.exists_fileName entered
  obtain ⟨addition, member, rfl⟩ := early.known path (by simp [found])
  rw [additions] at member
  rcases List.mem_append.mp member with old | same
  · rw [← continues.fileAt _ (fits addition member).known] at found
    exact absurd found (new addition old)
  · rw [← List.mem_singleton.mp same]
    exact continues.fileName early.consistent late.consistent named

theorem first_found (few : paths.length < 2147483648) {earlier behind : List Addition} {first : Addition}
    (split : (run host dialect world paths).additions = earlier ++ first :: behind)
    (vain : ∀ addition ∈ earlier, addition.answer = .error (.noSuchFile addition.path))
    (leads : (run host dialect world paths).survey.catalogue.fileAt first.path = .found file) : file.index = 0 := by
  obtain ⟨tour, early, late, additions, here, there, continues⟩ := backed_split few split
  have fits (addition : Addition) (member : addition ∈ earlier ++ [first]) : addition.Fits early.catalogue :=
    here.fits addition (additions ▸ member)
  have first_fits := fits first (List.mem_append_right _ (List.mem_singleton.mpr rfl))
  rw [← there.catalogue, continues.fileAt _ first_fits.known] at leads
  obtain ⟨record, entered, -⟩ := here.consistent.recounts.exists_record leads
  -- There is a file with the number zero by then, and its name can only be the path of this addition.
  have inside : 0 < early.catalogue.files.size :=
    Nat.lt_of_le_of_lt (Nat.zero_le _) (Array.getElem?_eq_some_iff.mp entered).choose
  have zero : early.catalogue.files.get? (⟨0⟩ : FileId) = some _ := Array.getElem?_eq_getElem inside
  obtain ⟨path, -, -, found, -⟩ := here.consistent.recounts.exists_fileName zero
  obtain ⟨addition, member, rfl⟩ := here.known path (by simp [found])
  rw [additions] at member
  rcases List.mem_append.mp member with old | same
  · cases fits addition member with
    | missing _ nowhere => cases found.symm.trans nowhere
    | found _ some => exact absurd (vain addition old) some
  · rw [List.mem_singleton.mp same, leads] at found
    cases found
    rfl

end Tour
end Canon
