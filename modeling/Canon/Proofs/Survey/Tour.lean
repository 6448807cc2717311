import Mathlib.Data.List.Induction
import Canon.Survey

/-!
Surveys of many files over surroundings that may change at any time. The host is observed: everything that is read is
written down with its path. Observing changes nothing about the answers.
-/
namespace Canon
open Canon.File
variable {ω : Type}

structure FileReading where
  path : String
  answer : Except ReadError (List UInt8)

structure Observed (ω : Type) where
  world : ω
  readings : List FileReading

def Host.observed (host : Host (StateM ω)) : Host (StateM (Observed ω)) where
  stat path := fun ⟨world, readings⟩ =>
    let (answer, world) := (host.stat path).run world
    (answer, ⟨world, readings⟩)
  read path := fun ⟨world, readings⟩ =>
    let (answer, world) := (host.read path).run world
    (answer, ⟨world, readings ++ [⟨path, answer⟩]⟩)
  clock := fun ⟨world, readings⟩ =>
    let (answer, world) := host.clock.run world
    (answer, ⟨world, readings⟩)

structure Addition where
  path : String
  answer : Except SurveyError Outcome
  readings : List FileReading

structure Tour (ω : Type) where
  survey : Survey
  world : ω
  additions : List Addition

namespace Survey

def addFiles {m : Type → Type} [Monad m] (host : Host m) :
    List String → Survey → m (List (Except SurveyError Outcome) × Survey)
  | [], survey => return ([], survey)
  | path :: rest, survey => do
    let (answer, survey) ← survey.addFile host path
    let (answers, survey) ← addFiles host rest survey
    return (answer :: answers, survey)

end Survey

namespace Tour

def start (dialect : Dialect) (world : ω) : Tour ω := ⟨.start dialect, world, []⟩

def add (host : Host (StateM ω)) (tour : Tour ω) (path : String) : Tour ω :=
  let ((answer, survey), observed) := (tour.survey.addFile host.observed path).run ⟨tour.world, []⟩
  ⟨survey, observed.world, tour.additions ++ [⟨path, answer, observed.readings⟩]⟩

def run (host : Host (StateM ω)) (dialect : Dialect) (world : ω) (paths : List String) : Tour ω :=
  paths.foldl (add host) (start dialect world)

theorem run_concat (host : Host (StateM ω)) (dialect : Dialect) (world : ω) (paths : List String) (path : String) :
    run host dialect world (paths ++ [path]) = (run host dialect world paths).add host path := by
  simp [run]

end Tour

namespace File.Catalogue

theorem directory_observed (host : Host (StateM ω)) (path : String) (catalogue : Catalogue) (observed : Observed ω) :
    (catalogue.directory host.observed.stat path).run observed =
      (((catalogue.directory host.stat path).run observed.world).1,
        ⟨((catalogue.directory host.stat path).run observed.world).2, observed.readings⟩) := by
  unfold directory directoryBy
  rcases catalogue.beginDirectory path with ⟨name, begun⟩
  cases known : begun.directoryPaths.get name with
  | found id => simp only [known]; rfl
  | missing => simp only [known]; rfl
  | unknown =>
    rcases asked : (host.stat path).run observed.world with ⟨answer, world⟩
    have plain : (host.stat path).run observed.world = pure (answer, world) := asked
    have noted : (host.observed.stat path).run observed = pure (answer, ⟨world, observed.readings⟩) := by
      simp only [Host.observed, StateT.run] at asked ⊢
      rw [asked]
      rfl
    simp only [known, StateT.run_bind, plain, noted, pure_bind]
    cases Sought.directory.usable? answer with
    | none => rfl
    | some stat => rfl

theorem file_observed (host : Host (StateM ω)) (path : String) (catalogue : Catalogue) (observed : Observed ω) :
    (catalogue.file host.observed.stat path).run observed =
      (((catalogue.file host.stat path).run observed.world).1,
        ⟨((catalogue.file host.stat path).run observed.world).2, observed.readings⟩) := by
  unfold file fileBy
  rcases catalogue.beginFile path with ⟨name, begun⟩
  cases known : begun.filePaths.get name with
  | found id => simp only [known]; rfl
  | missing => simp only [known]; rfl
  | unknown =>
    cases above : parent? path with
    | none => simp only [known]; rfl
    | some parent =>
      have nested := directory_observed host parent (begun.missFile name) observed
      unfold directory at nested
      rcases outcome : ((begun.missFile name).directoryBy (fun _ => host.stat) parent).run observed.world with
        ⟨⟨found, within⟩, world⟩
      rw [outcome] at nested
      have plain : ((begun.missFile name).directoryBy (fun _ => host.stat) parent).run observed.world =
          pure ((found, within), world) := outcome
      have noted : ((begun.missFile name).directoryBy (fun _ => host.observed.stat) parent).run observed =
          pure ((found, within), ⟨world, observed.readings⟩) := nested
      simp only [known, StateT.run_bind, plain, noted, pure_bind]
      cases found with
      | none => rfl
      | some directory =>
        rcases asked : (host.stat path).run world with ⟨answer, after⟩
        have asks : (host.stat path).run world = pure (answer, after) := asked
        have notes : (host.observed.stat path).run ⟨world, observed.readings⟩ =
            pure (answer, ⟨after, observed.readings⟩) := by
          simp only [Host.observed, StateT.run] at asked ⊢
          rw [asked]
          rfl
        simp only [StateT.run_bind, asks, notes, pure_bind]
        cases Sought.file.usable? answer with
        | none => rfl
        | some stat => rfl

end File.Catalogue

namespace Survey

variable {host : Host (StateM ω)}

/-- How the addition of a path ends: there is no file, the file has been surveyed before, it cannot be read, or it is
surveyed. -/
inductive Adds (host : Host (StateM ω)) (path : String) (survey : Survey) (world : ω) :
    Except SurveyError Outcome → Survey → ω → List FileReading → Prop where
  | missing {found catalogue later}
    (looked : (survey.catalogue.file host.stat path).run world = ((found, catalogue), later))
    (nothing : ∀ file, found = some file → catalogue.files.get? file = none) :
    Adds host path survey world (.error (.noSuchFile path)) { survey with catalogue } later []
  | duplicate {file entry catalogue later}
    (looked : (survey.catalogue.file host.stat path).run world = ((some file, catalogue), later))
    (entered : catalogue.files.get? file = some entry) (known : survey.surveyed.get file = true) :
    Adds host path survey world (.ok (.duplicate file (firstPath { survey with catalogue } file)))
      { survey with catalogue } later []
  | unreadable {file entry catalogue later cause last}
    (looked : (survey.catalogue.file host.stat path).run world = ((some file, catalogue), later))
    (entered : catalogue.files.get? file = some entry) (new : survey.surveyed.get file = false)
    (read : (host.read path).run later = (.error cause, last)) :
    Adds host path survey world (.error (.unreadable path cause)) { survey with catalogue } last [⟨path, .error cause⟩]
  | surveyed {file entry catalogue later bytes last}
    (looked : (survey.catalogue.file host.stat path).run world = ((some file, catalogue), later))
    (entered : catalogue.files.get? file = some entry) (new : survey.surveyed.get file = false)
    (read : (host.read path).run later = (.ok bytes, last)) :
    Adds host path survey world (.ok (record { survey with catalogue } file entry bytes).1)
      (record { survey with catalogue } file entry bytes).2 last [⟨path, .ok bytes⟩]

theorem run_looked {path : String} {survey : Survey} {world later : ω} {found : Option FileId} {catalogue : Catalogue}
    (looked : (survey.catalogue.file host.stat path).run world = ((found, catalogue), later)) :
    (survey.catalogue.file host.stat path).run world = pure ((found, catalogue), later) ∧
      (survey.catalogue.file host.observed.stat path).run ⟨world, []⟩ = pure ((found, catalogue), ⟨later, []⟩) := by
  refine ⟨looked, ?_⟩
  rw [Catalogue.file_observed, looked]
  rfl

theorem run_read {path : String} {world later : ω} {answer : Except ReadError (List UInt8)}
    (read : (host.read path).run world = (answer, later)) : (host.read path).run world = pure (answer, later) ∧
      (host.observed.read path).run ⟨world, []⟩ = pure (answer, ⟨later, [⟨path, answer⟩]⟩) := by
  refine ⟨read, ?_⟩
  simp only [Host.observed, StateT.run] at read ⊢
  rw [read]
  rfl

theorem Adds.run {path : String} {survey after : Survey} {world later : ω} {answer : Except SurveyError Outcome}
    {readings : List FileReading} (adds : Adds host path survey world answer after later readings) :
    (survey.addFile host path).run world = ((answer, after), later) ∧
      (survey.addFile host.observed path).run ⟨world, []⟩ = ((answer, after), ⟨later, readings⟩) := by
  unfold addFile
  cases adds with
  | @missing found _ _ looked nothing =>
    obtain ⟨plain, noted⟩ := run_looked looked
    simp only [StateT.run_bind, plain, noted, pure_bind]
    cases found with
    | none => exact ⟨rfl, rfl⟩
    | some file =>
      simp only [Option.bind_some, nothing file rfl, Option.map_none]
      exact ⟨rfl, rfl⟩
  | duplicate looked entered known =>
    obtain ⟨plain, noted⟩ := run_looked looked
    simp only [StateT.run_bind, plain, noted, pure_bind, Option.bind_some, entered, Option.map_some]
    rw [if_pos known, if_pos known]
    exact ⟨rfl, rfl⟩
  | unreadable looked entered new read =>
    obtain ⟨plain, noted⟩ := run_looked looked
    obtain ⟨reads, notes⟩ := run_read read
    simp only [StateT.run_bind, plain, noted, pure_bind, Option.bind_some, entered, Option.map_some]
    rw [if_neg (by simp [new]), if_neg (by simp [new])]
    simp only [StateT.run_bind, reads, notes, pure_bind]
    exact ⟨rfl, rfl⟩
  | surveyed looked entered new read =>
    obtain ⟨plain, noted⟩ := run_looked looked
    obtain ⟨reads, notes⟩ := run_read read
    simp only [StateT.run_bind, plain, noted, pure_bind, Option.bind_some, entered, Option.map_some]
    rw [if_neg (by simp [new]), if_neg (by simp [new])]
    simp only [StateT.run_bind, reads, notes, pure_bind]
    exact ⟨rfl, rfl⟩

theorem Adds.dialect_eq {path : String} {survey after : Survey} {world later : ω} {answer : Except SurveyError Outcome}
    {readings : List FileReading} (adds : Adds host path survey world answer after later readings) :
    after.dialect = survey.dialect := by
  cases adds with
  | missing => rfl
  | duplicate => rfl
  | unreadable => rfl
  | surveyed => rfl

theorem Adds.looks {path : String} {survey after : Survey} {world later : ω} {answer : Except SurveyError Outcome}
    {readings : List FileReading} (adds : Adds host path survey world answer after later readings) :
    ∃ found middle, (survey.catalogue.file host.stat path).run world = ((found, after.catalogue), middle) := by
  cases adds with
  | missing looked => exact ⟨_, _, looked⟩
  | duplicate looked => exact ⟨_, _, looked⟩
  | unreadable looked => exact ⟨_, _, looked⟩
  | surveyed looked => exact ⟨_, _, looked⟩

theorem addFile_adds (host : Host (StateM ω)) (path : String) (survey : Survey) (world : ω) :
    ∃ answer after later readings, (survey.addFile host path).run world = ((answer, after), later) ∧
      (survey.addFile host.observed path).run ⟨world, []⟩ = ((answer, after), ⟨later, readings⟩) ∧
      Adds host path survey world answer after later readings := by
  suffices ends : ∃ answer after later readings, Adds host path survey world answer after later readings by
    obtain ⟨answer, after, later, readings, adds⟩ := ends
    exact ⟨answer, after, later, readings, adds.run.1, adds.run.2, adds⟩
  rcases looked : (survey.catalogue.file host.stat path).run world with ⟨⟨found, catalogue⟩, later⟩
  cases found with
  | none => exact ⟨_, _, _, _, .missing looked nofun⟩
  | some file =>
    cases entered : catalogue.files.get? file with
    | none =>
      refine ⟨_, _, _, _, .missing looked fun other same => ?_⟩
      rw [← Option.some.inj same, entered]
    | some entry =>
      cases known : survey.surveyed.get file with
      | true => exact ⟨_, _, _, _, .duplicate looked entered known⟩
      | false =>
        rcases read : (host.read path).run later with ⟨answer, last⟩
        cases answer with
        | error cause => exact ⟨_, _, _, _, .unreadable looked entered known read⟩
        | ok bytes => exact ⟨_, _, _, _, .surveyed looked entered known read⟩

end Survey

namespace Tour

variable {host : Host (StateM ω)} {dialect : Dialect} {world : ω} {paths : List String}

theorem add_of_adds {tour : Tour ω} {path : String} {answer : Except SurveyError Outcome} {after : Survey} {later : ω}
    {readings : List FileReading} (adds : Survey.Adds host path tour.survey tour.world answer after later readings) :
    tour.add host path = ⟨after, later, tour.additions ++ [⟨path, answer, readings⟩]⟩ := by
  rw [add, adds.run.2]

theorem add_adds (host : Host (StateM ω)) (tour : Tour ω) (path : String) :
    ∃ answer after later readings, (tour.survey.addFile host path).run tour.world = ((answer, after), later) ∧
      tour.add host path = ⟨after, later, tour.additions ++ [⟨path, answer, readings⟩]⟩ ∧
      Survey.Adds host path tour.survey tour.world answer after later readings := by
  obtain ⟨answer, after, later, readings, plain, -, adds⟩ := Survey.addFile_adds host path tour.survey tour.world
  exact ⟨answer, after, later, readings, plain, add_of_adds adds, adds⟩

theorem paths_run (host : Host (StateM ω)) (dialect : Dialect) (world : ω) (paths : List String) :
    (run host dialect world paths).additions.map Addition.path = paths := by
  induction paths using List.reverseRecOn with
  | nil => rfl
  | append_singleton earlier path ih =>
    obtain ⟨answer, after, later, readings, -, added, -⟩ := (run host dialect world earlier).add_adds host path
    rw [run_concat, added, List.map_append, ih, List.map_singleton]

theorem dialect_run (host : Host (StateM ω)) (dialect : Dialect) (world : ω) (paths : List String) :
    (run host dialect world paths).survey.dialect = dialect := by
  induction paths using List.reverseRecOn with
  | nil => rfl
  | append_singleton earlier path ih =>
    obtain ⟨answer, after, later, readings, -, added, adds⟩ := (run host dialect world earlier).add_adds host path
    rw [run_concat, added]
    exact adds.dialect_eq.trans ih

theorem run_split {before behind : List Addition} {addition : Addition}
    (split : (run host dialect world paths).additions = before ++ addition :: behind) :
    (run host dialect world (before.map Addition.path)).additions = before ∧ ∃ survey later,
      run host dialect world ((before ++ [addition]).map Addition.path) = ⟨survey, later, before ++ [addition]⟩ ∧
      Survey.Adds host addition.path (run host dialect world (before.map Addition.path)).survey
        (run host dialect world (before.map Addition.path)).world addition.answer survey later addition.readings := by
  induction paths using List.reverseRecOn generalizing behind with
  | nil =>
    have none : [] = before ++ addition :: behind := split
    simp at none
  | append_singleton earlier path ih =>
    obtain ⟨answer, after, later, readings, -, added, adds⟩ := (run host dialect world earlier).add_adds host path
    rw [run_concat, added] at split
    have split : (run host dialect world earlier).additions ++ [⟨path, answer, readings⟩] =
      before ++ addition :: behind := split
    cases behind using List.reverseRecOn with
    | nil =>
      obtain ⟨rfl, same⟩ := List.append_inj' split rfl
      obtain rfl := List.singleton_inj.mp same
      rw [List.map_append, paths_run, List.map_singleton, run_concat, added]
      exact ⟨rfl, after, later, rfl, adds⟩
    | append_singleton front last =>
      rw [← List.cons_append, ← List.append_assoc] at split
      exact ih (List.append_inj' split rfl).1

theorem addAll_unobserved (host : Host (StateM ω)) (paths : List String) (tour : Tour ω) :
    ∃ answers, (Survey.addFiles host paths tour.survey).run tour.world =
        ((answers, (paths.foldl (add host) tour).survey), (paths.foldl (add host) tour).world) ∧
      (paths.foldl (add host) tour).additions.map Addition.answer = tour.additions.map Addition.answer ++ answers := by
  induction paths generalizing tour with
  | nil => exact ⟨[], rfl, (List.append_nil _).symm⟩
  | cons path rest ih =>
    obtain ⟨answer, after, later, readings, plain, added, -⟩ := tour.add_adds host path
    obtain ⟨answers, others, all⟩ := ih (tour.add host path)
    rw [added] at others all
    have first : (tour.survey.addFile host path).run tour.world = pure ((answer, after), later) := plain
    have second : (Survey.addFiles host rest after).run later = pure _ := others
    rw [List.foldl_cons, added]
    refine ⟨answer :: answers, ?_, ?_⟩
    · simp only [Survey.addFiles, StateT.run_bind, first, second, pure_bind]
      rfl
    · rw [all, List.map_append, List.map_singleton, List.append_assoc, List.singleton_append]

theorem run_unobserved (host : Host (StateM ω)) (dialect : Dialect) (world : ω) (paths : List String) :
    (Survey.addFiles host paths (.start dialect)).run world =
      (((run host dialect world paths).additions.map Addition.answer, (run host dialect world paths).survey),
        (run host dialect world paths).world) := by
  obtain ⟨answers, plain, all⟩ := addAll_unobserved host paths (start dialect world)
  have same : (run host dialect world paths).additions.map Addition.answer = answers := all
  rw [same]
  exact plain

end Tour
end Canon
