import Canon.Proofs.Run.Transcript

/-!
What a run depends on. Over an unchanging host the answers of a survey depend on the files alone; and whatever the host
does, the name of the main file decides nothing but what is written in its place.
-/
namespace Canon
open Canon.File
variable {ω α β : Type} {host : Host (StateM ω)} {stat : String → Except StatError Stat}
  {read : String → Except ReadError (List UInt8)}

namespace Survey

theorem addFile_unchanging (unchanging : host.Unchanging stat read) (path : String) (survey : Survey) (world : ω) :
    ((survey.addFile host path).run world).1 = ((survey.addFile (.fixed stat read) path).run ()).1 := by
  obtain ⟨answer, after, later, readings, plain, -, adds⟩ := addFile_adds host path survey world
  have finds {found : Option FileId} {catalogue : Catalogue} {middle : ω}
      (looked : (survey.catalogue.file host.stat path).run world = ((found, catalogue), middle)) :
      (survey.catalogue.file (Host.fixed stat read).stat path).run () = ((found, catalogue), ()) := by
    have same := survey.catalogue.file_unchanging unchanging.stat path world
    rw [looked] at same
    exact Prod.ext same.symm rfl
  have reads {result : Except ReadError (List UInt8)} {middle last : ω}
      (outcome : (host.read path).run middle = (result, last)) :
      ((Host.fixed stat read).read path).run () = (result, ()) := by
    have same := unchanging.read path middle
    rw [outcome] at same
    exact Prod.ext same.symm rfl
  rw [plain]
  cases adds with
  | missing looked nothing => rw [(Adds.missing (finds looked) nothing).run.1]
  | duplicate looked entered known => rw [(Adds.duplicate (finds looked) entered known).run.1]
  | unreadable looked entered new refused => rw [(Adds.unreadable (finds looked) entered new (reads refused)).run.1]
  | surveyed looked entered new granted => rw [(Adds.surveyed (finds looked) entered new (reads granted)).run.1]

theorem addFiles_cons (path : String) (rest : List String) (survey : Survey) (world : ω) :
    (addFiles host (path :: rest) survey).run world =
      let added := (survey.addFile host path).run world
      let others := (addFiles host rest added.1.2).run added.2
      ((added.1.1 :: others.1.1, others.1.2), others.2) := rfl

theorem addFiles_unchanging (unchanging : host.Unchanging stat read) (paths : List String) (survey : Survey)
    (world : ω) : ((addFiles host paths survey).run world).1 =
      ((addFiles (.fixed stat read) paths survey).run ()).1 := by
  induction paths generalizing survey world with
  | nil => rfl
  | cons path rest ih =>
    have same := addFile_unchanging unchanging path survey world
    rw [addFiles_cons, addFiles_cons]
    dsimp only
    rw [ih, same]

def renamed (name : Option String) (survey : Survey) : Survey :=
  { survey with dialect := { survey.dialect with mainFileName := name } }

theorem addFile_renamed (host : Host (StateM ω)) (name : Option String) (path : String) (survey : Survey) (world : ω) :
    ((survey.renamed name).addFile host path).run world =
      (Prod.map id (renamed name) ((survey.addFile host path).run world).1,
        ((survey.addFile host path).run world).2) := by
  obtain ⟨answer, after, later, readings, plain, -, adds⟩ := addFile_adds host path survey world
  have likewise : Adds host path (survey.renamed name) world answer (after.renamed name) later readings := by
    cases adds with
    | missing looked nothing => exact .missing looked nothing
    | duplicate looked entered known => exact .duplicate looked entered known
    | unreadable looked entered new refused => exact .unreadable looked entered new refused
    | surveyed looked entered new granted => exact .surveyed looked entered new granted
  rw [plain, likewise.run.1]
  rfl

theorem addFiles_renamed (host : Host (StateM ω)) (name : Option String) (paths : List String) (survey : Survey)
    (world : ω) : (addFiles host paths (survey.renamed name)).run world =
      (Prod.map id (renamed name) ((addFiles host paths survey).run world).1,
        ((addFiles host paths survey).run world).2) := by
  induction paths generalizing survey world with
  | nil => rfl
  | cons path rest ih =>
    rw [addFiles_cons, addFiles_cons, addFile_renamed]
    dsimp only [Prod.map]
    rw [ih]
    rfl

end Survey

theorem Stopwatch.time_map (clock : StateM ω Nat) (label : String) (action : StateM ω α) {other : StateM ω α}
    (change : α → α)
    (same : ∀ world, other.run world = (change (action.run world).1, (action.run world).2)) (stopwatch : Stopwatch)
    (world : ω) : (stopwatch.time clock label other).run world =
      ((change ((stopwatch.time clock label action).run world).1.1,
        ((stopwatch.time clock label action).run world).1.2), ((stopwatch.time clock label action).run world).2) := by
  obtain rfl : other = fun world => (change (action.run world).1, (action.run world).2) := funext same
  rcases stopwatch with ⟨stages⟩
  cases stages with
  | none => rfl
  | some stages => rfl

namespace Run

structure Renames (name : Option String) (before after : Progress) : Prop where
  survey : after.survey = before.survey.renamed name
  stopwatch : after.stopwatch = before.stopwatch

structure Alongside (name : Option String) (one two : (Option Failure × Progress) × ω) : Prop where
  failure : two.1.1 = one.1.1
  progress : Renames name one.1.2 two.1.2
  world : two.2 = one.2

theorem step_renamed (host : Host (StateM ω)) {name : Option String} {progress other : Progress}
    (renames : Renames name progress other) (argument : Argument) (world : ω) :
    Alongside name ((step host argument progress).run world) ((step host argument other).run world) := by
  cases argument with
  | raw bytes => exact ⟨rfl, renames, rfl⟩
  | text path =>
    have times := Stopwatch.time_map host.clock ("Survey " ++ path) (progress.survey.addFile host path)
      (Prod.map id (Survey.renamed name)) (progress.survey.addFile_renamed host name path) progress.stopwatch world
    rw [← renames.survey, ← renames.stopwatch] at times
    rcases timed : (other.stopwatch.time host.clock ("Survey " ++ path) (progress.survey.addFile host path)).run world
      with ⟨⟨⟨answer, survey⟩, stopwatch⟩, later⟩
    rw [timed] at times
    rw [renames.stopwatch] at timed
    rw [step_eq timed, step_eq times]
    cases answer with
    | error error => exact ⟨rfl, ⟨rfl, rfl⟩, rfl⟩
    | ok outcome => exact ⟨rfl, ⟨rfl, rfl⟩, rfl⟩

theorem steps_renamed (host : Host (StateM ω)) {name : Option String} (arguments : List Argument)
    {progress other : Progress} (renames : Renames name progress other) (world : ω) :
    Alongside name ((steps host arguments progress).run world) ((steps host arguments other).run world) := by
  induction arguments generalizing progress other world with
  | nil => exact ⟨rfl, renames, rfl⟩
  | cons argument rest ih =>
    have alongside : Alongside name ((step host argument progress).run world) _ :=
      step_renamed host renames argument world
    rw [steps_cons, steps_cons]
    generalize (step host argument progress).run world = one at alongside
    generalize (step host argument other).run world = two at alongside
    obtain ⟨⟨failure, after⟩, later⟩ := one
    obtain ⟨⟨outcome, behind⟩, last⟩ := two
    obtain ⟨rfl, still, rfl⟩ := alongside
    cases outcome with
    | some failure => exact ⟨rfl, still, rfl⟩
    | none => exact ih still last

end Run

theorem Survey.start_renamed (dialect : Dialect) (name : Option String) :
    Survey.start { dialect with mainFileName := name } = (Survey.start dialect).renamed name := by
  have keywords : ({ dialect with mainFileName := name } : Dialect).keywords = dialect.keywords := rfl
  unfold Survey.start Survey.renamed Identifier.Table.ofDialect Identifier.Table.addKeywords
  rw [keywords]

namespace Run

theorem carryOut_eq {settings : Settings} {begun after : Progress} {world moment later : ω} {failure : Option Failure}
    (begins : (begin host settings).run world = (begun, moment))
    (ran : (steps host settings.paths begun).run moment = ((failure, after), later)) :
    (carryOut host settings).run world = (finish settings failure after, later) := by
  have plain : (begin host settings).run world = pure (begun, moment) := begins
  have steps_plain : (steps host settings.paths begun).run moment = pure ((failure, after), later) := ran
  unfold carryOut
  simp only [StateT.run_bind, plain, steps_plain, pure_bind]
  rfl

theorem begin_run (settings : Settings) (world : ω) : (begin host settings).run world =
    let started := ((Stopwatch.start settings.profile).time host.clock "Keyword registration"
      (pure (Survey.start settings.dialect))).run world
    (⟨started.1.1, started.1.2, #[]⟩, started.2) := rfl

theorem begin_renamed (settings : Settings) (name : Option String) (world : ω) :
    Renames name ((begin host settings).run world).1 ((begin host { settings with mainFileName := name }).run world).1 ∧
      ((begin host { settings with mainFileName := name }).run world).2 = ((begin host settings).run world).2 := by
  have starts (world : ω) :
      (pure (Survey.start { settings with mainFileName := name }.dialect) : StateM ω Survey).run world =
        ((Survey.start settings.dialect).renamed name, world) :=
    congrArg (·, world) (Survey.start_renamed settings.dialect name)
  have times := Stopwatch.time_map host.clock "Keyword registration" (pure (Survey.start settings.dialect))
    (Survey.renamed name) starts (Stopwatch.start settings.profile) world
  rw [begin_run, begin_run, times]
  exact ⟨⟨rfl, rfl⟩, rfl⟩

/-- The name of the main file decides nothing about a run but its lines. -/
theorem carryOut_renamed (host : Host (StateM ω)) (settings : Settings) (name : Option String) (world : ω) :
    let run := (carryOut host settings).run world
    let other := (carryOut host { settings with mainFileName := name }).run world
    other.2 = run.2 ∧ other.1.exitCode = run.1.exitCode ∧ other.1.errors = run.1.errors := by
  obtain ⟨renames, same⟩ := begin_renamed settings name world
  rcases begins : (begin host settings).run world with ⟨begun, moment⟩
  rcases likewise : (begin host { settings with mainFileName := name }).run world with ⟨other, instant⟩
  rw [begins, likewise] at renames same
  obtain rfl : instant = moment := same
  have alongside := steps_renamed host settings.paths renames instant
  rcases ran : (steps host settings.paths begun).run instant with ⟨⟨failure, after⟩, later⟩
  rcases also : (steps host settings.paths other).run instant with ⟨⟨outcome, behind⟩, last⟩
  rw [ran, also] at alongside
  obtain ⟨failures, ⟨survey, stopwatch⟩, worlds⟩ := alongside
  dsimp only at failures survey stopwatch worlds
  subst failures worlds
  dsimp only
  rw [carryOut_eq begins ran, carryOut_eq likewise also]
  unfold finish
  rw [stopwatch, survey]
  cases outcome with
  | some failure => exact ⟨rfl, rfl, rfl⟩
  | none => exact ⟨rfl, rfl, rfl⟩

/-- Saying more decides nothing about a run but what is logged. -/
theorem carryOut_verbose (host : Host (StateM ω)) (settings : Settings) (verbose : Bool) (world : ω) :
    (carryOut host { settings with verbose }).run world =
      ({ ((carryOut host settings).run world).1 with logging := some { settings with verbose }.logLevel },
        ((carryOut host settings).run world).2) := by
  rcases begins : (begin host settings).run world with ⟨begun, moment⟩
  rcases ran : (steps host settings.paths begun).run moment with ⟨⟨failure, after⟩, later⟩
  have likewise : (begin host { settings with verbose }).run world = (begun, moment) := begins
  have also : (steps host { settings with verbose }.paths begun).run moment = ((failure, after), later) := ran
  rw [carryOut_eq begins ran, carryOut_eq likewise also]
  cases failure with
  | some failure => rfl
  | none => rfl

theorem carryOut_append_of_failed {settings : Settings} {begun after : Progress} {world moment later : ω}
    {failure : Failure} {arguments : List Argument} (more : List Argument)
    (begins : (begin host settings).run world = (begun, moment))
    (failed : (steps host arguments begun).run moment = ((some failure, after), later)) :
    (carryOut host { settings with paths := arguments ++ more }).run world =
      (finish settings (some failure) after, later) := by
  have likewise : (begin host { settings with paths := arguments ++ more }).run world = (begun, moment) := begins
  exact carryOut_eq likewise (steps_append_of_failed arguments more begun moment failed)

end Run
end Canon
