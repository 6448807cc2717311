import Canon.Proofs.Run.Surroundings
import Canon.Proofs.Survey.Duplicates

/-!
A whole run over files that do not change. It writes a line for each of the leading paths that can be added, and nothing
more if there is a path behind them.
-/
namespace Canon
open Canon.File
variable {ω : Type} {host : Host (StateM ω)} {stat : String → Except StatError Stat}
  {read : String → Except ReadError (List UInt8)} {dialect : Dialect} {entries : List Entry}

namespace Run

theorem length_leading (unchanging : host.Unchanging stat read) (paths : List String) {survey : Survey}
    (tracks : Tracks stat dialect entries survey) (few : entries.length + paths.length < 2147483648)
    (room : ((account stat read dialect.dollarWords entries paths).1.flatMap Entry.words).eraseDups.length < 2147483648)
    (world : ω) : (account stat read dialect.dollarWords entries paths).1.length =
      entries.length + (((Survey.addFiles host paths survey).run world).1.1.takeWhile Except.isOk).length := by
  induction paths generalizing entries survey world with
  | nil => rfl
  | cons path rest ih =>
    have short : entries.length + 1 < 2147483648 := by
      rw [List.length_cons] at few
      omega
    obtain ⟨answer, after, later, added, kept⟩ :=
      tracks.add unchanging path short (fun entry said => few_words_next room said) world
    rw [Survey.addFiles_cons, added]
    dsimp only
    cases said : nextEntry stat read dialect.dollarWords entries path with
    | error error =>
      rw [said] at kept
      cases kept
      rw [account_cons_error said]
      rfl
    | ok entry =>
      rw [said] at kept
      obtain ⟨outcome, rfl, -, tracks⟩ := kept
      rw [account_cons_ok said] at room ⊢
      have fewer : (entries ++ [entry]).length + rest.length < 2147483648 := by
        rw [List.length_append, List.length_singleton]
        rw [List.length_cons] at few
        omega
      rw [ih tracks fewer room later, List.length_append, List.length_singleton, List.takeWhile_cons_of_pos rfl,
        List.length_cons]
      omega

theorem step_survey (unchanging : host.Unchanging stat read) {path : String} {progress after : Progress}
    {world later : ω} (stepped : (step host (.text path) progress).run world = ((none, after), later)) :
    after.survey = ((progress.survey.addFile (.fixed stat read) path).run ()).1.2 := by
  obtain ⟨moment, stopped, last, timed, -⟩ := progress.stopwatch.time_run host.clock ("Survey " ++ path)
    (progress.survey.addFile host path) world
  rw [progress.survey.addFile_unchanging unchanging path moment] at timed
  generalize ((progress.survey.addFile (.fixed stat read) path).run ()).1 = added at timed ⊢
  obtain ⟨answer, survey⟩ := added
  rw [step_eq timed] at stepped
  cases answer with
  | error error => cases stepped
  | ok outcome =>
    cases stepped
    rfl

theorem steps_survey (unchanging : host.Unchanging stat read) (paths : List String) {progress after : Progress}
    {world later : ω} (ran : (steps host (paths.map .text) progress).run world = ((none, after), later)) :
    after.survey = ((Survey.addFiles (.fixed stat read) paths progress.survey).run ()).1.2 := by
  induction paths generalizing progress world with
  | nil =>
    cases ran
    rfl
  | cons path rest ih =>
    rw [List.map_cons, steps_cons] at ran
    rcases stepped : (step host (.text path) progress).run world with ⟨⟨failure, between⟩, moment⟩
    rw [stepped] at ran
    cases failure with
    | some failure => cases ran
    | none =>
      have survey := step_survey unchanging stepped
      rw [ih ran, survey]
      rfl

theorem begin_tells (host : Host (StateM ω)) (settings : Settings) (world : ω) :
    ∃ begun moment, (begin host settings).run world = (begun, moment) ∧ begun.survey = .start settings.dialect ∧
      begun.lines = #[] ∧
      begun.stopwatch.labels = if settings.profile then some ["Keyword registration"] else none := by
  obtain ⟨moment, stopped, after, timed, labels⟩ := (Stopwatch.start settings.profile).time_run host.clock
    "Keyword registration" (pure (Survey.start settings.dialect)) world
  rw [begin_run, timed]
  refine ⟨_, _, rfl, rfl, rfl, labels.trans ?_⟩
  cases settings.profile with
  | true => rfl
  | false => rfl

/-- What a run leaves behind: the lines of its entries, a dump and statistics of its survey if it has not failed and
they are asked for, a report with a line for each of its stages if they are timed, and why it has failed. The lines about
logged events, which go to the same stream as the last three, are left aside; only what is logged is told. -/
structure Tells (settings : Settings) (entries : List Entry) (survey : Survey) (visited : List String)
    (failure : Option Failure) (transcript : Transcript) : Prop where
  output : transcript.output = String.join (entries.map (Entry.line settings.dialect)) ++
    if failure.isNone && settings.dumpIdentifiers then survey.dump else ""
  exitCode : transcript.exitCode = if failure.isNone then 0 else 1
  errors : ∃ report,
    Stopwatch.Reports ("Keyword registration" :: visited.map ("Survey " ++ ·)) settings.profile report ∧
    transcript.errors = (if failure.isNone && settings.printStatistics then survey.statistics else "") ++ report ++
      (failure.map Failure.render).getD ""
  logging : transcript.logging = some settings.logLevel

theorem carryOut_tells (unchanging : host.Unchanging stat read) (settings : Settings) {paths : List String}
    (given : settings.paths = paths.map .text) (few : paths.length < 2147483648) {failure : Option Failure}
    (accounted : account stat read settings.dialect.dollarWords [] paths = (entries, failure))
    (room : (entries.flatMap Entry.words).eraseDups.length < 2147483648) (world : ω) :
    Tells settings entries ((Survey.addFiles host paths (.start settings.dialect)).run world).1.2
      (paths.take (entries.length + 1)) failure ((carryOut host settings).run world).1 := by
  obtain ⟨begun, moment, begins, start, empty, labels⟩ := begin_tells host settings world
  have tracks : Tracks stat settings.dialect [] begun.survey := start ▸ .start stat settings.dialect
  have short : ([] : List Entry).length + paths.length < 2147483648 := by
    rw [List.length_nil, Nat.zero_add]
    exact few
  obtain ⟨after, later, ran, more, whole, lines, timed⟩ :=
    steps_tell unchanging paths tracks short (by rw [accounted]; exact room) moment
  rw [accounted, List.nil_append] at whole
  obtain rfl : entries = more := whole
  have survey : failure = none →
      after.survey = ((Survey.addFiles host paths (.start settings.dialect)).run world).1.2 := by
    intro good
    rw [accounted, good] at ran
    rw [steps_survey unchanging paths ran, start, Survey.addFiles_unchanging unchanging]
  rw [empty] at lines
  rw [labels] at timed
  rw [accounted, ← given] at ran
  rw [carryOut_eq begins ran]
  have report : Stopwatch.Reports ("Keyword registration" :: (paths.take (entries.length + 1)).map ("Survey " ++ ·))
      settings.profile after.stopwatch.report := by
    refine Stopwatch.reports (timed.trans ?_)
    cases settings.profile with
    | true => rfl
    | false => rfl
  have written : String.join after.lines.toList = String.join (entries.map (Entry.line settings.dialect)) :=
    congrArg String.join lines
  cases failure with
  | some failure =>
    refine ⟨?_, rfl, ⟨after.stopwatch.report, report, ?_⟩, rfl⟩
    · show String.join after.lines.toList = _ ++ ""
      rw [written, String.append_empty]
    · show after.stopwatch.report ++ failure.render = "" ++ after.stopwatch.report ++ failure.render
      rw [String.empty_append]
  | none =>
    have same := survey rfl
    refine ⟨?_, rfl, ⟨after.stopwatch.report, report, ?_⟩, rfl⟩
    · rw [← written, ← same]
      rfl
    · rw [← same]
      exact String.append_empty.symm

/-- A run that comes to a path that cannot be added does not depend on the paths behind it. -/
theorem carryOut_stops (unchanging : host.Unchanging stat read) (settings : Settings) {leading : List String}
    {bad : String} {error : SurveyError} (few : (leading ++ [bad]).length < 2147483648)
    (good : account stat read settings.dialect.dollarWords [] leading = (entries, none))
    (room : (entries.flatMap Entry.words).eraseDups.length < 2147483648)
    (refused : nextEntry stat read settings.dialect.dollarWords entries bad = .error error) (world : ω) :
    ∃ result, ∀ more, (carryOut host { settings with paths := (leading ++ [bad] ++ more).map .text }).run world =
      result := by
  obtain ⟨begun, moment, begins, start, -⟩ := begin_tells host settings world
  have tracks : Tracks stat settings.dialect [] begun.survey := start ▸ .start stat settings.dialect
  have short : ([] : List Entry).length + (leading ++ [bad]).length < 2147483648 := by
    rw [List.length_nil, Nat.zero_add]
    exact few
  have failed : account stat read settings.dialect.dollarWords [] (leading ++ [bad]) =
      (entries, some (.survey bad error)) := by
    rw [account_append leading [bad] good, account_cons_error refused]
  obtain ⟨after, later, ran, -⟩ :=
    steps_tell unchanging (leading ++ [bad]) tracks short (by rw [failed]; exact room) moment
  rw [failed] at ran
  refine ⟨(finish settings (some (.survey bad error)) after, later), fun more => ?_⟩
  rw [List.map_append]
  exact carryOut_append_of_failed (more.map .text) begins ran

theorem output_of_good (unchanging : host.Unchanging stat read) (settings : Settings) {leading : List String}
    (few : leading.length < 2147483648)
    (good : account stat read settings.dialect.dollarWords [] leading = (entries, none))
    (room : (entries.flatMap Entry.words).eraseDups.length < 2147483648) (world : ω) :
    ((carryOut host { settings with paths := leading.map .text, dumpIdentifiers := false }).run world).1.output =
      String.join (entries.map (Entry.line settings.dialect)) := by
  rw [(carryOut_tells unchanging { settings with paths := leading.map .text, dumpIdentifiers := false } rfl few good room
    world).output, Bool.and_false]
  exact String.append_empty

/-- If there is a path that cannot be added, a run does not depend on the paths behind it, and writes what a run over
the paths before it writes without a dump. -/
theorem carryOut_early (unchanging : host.Unchanging stat read) (settings : Settings) {paths : List String}
    (given : settings.paths = paths.map .text) (few : paths.length < 2147483648) {failure : Option Failure}
    (accounted : account stat read settings.dialect.dollarWords [] paths = (entries, failure))
    (room : (entries.flatMap Entry.words).eraseDups.length < 2147483648) (early : entries.length < paths.length)
    (world : ω) :
    (∀ more, (carryOut host { settings with
      paths := (paths.take (entries.length + 1) ++ more).map .text }).run world = (carryOut host settings).run world) ∧
    ((carryOut host settings).run world).1.output = ((carryOut host { settings with
      paths := (paths.take entries.length).map .text, dumpIdentifiers := false }).run world).1.output := by
  obtain ⟨-, alone, ⟨all, -⟩ | ⟨bad, error, next, refused, rfl⟩⟩ := account_leading accounted
  · exact absurd all (Nat.ne_of_lt early)
  have reached : paths.take (entries.length + 1) = paths.take entries.length ++ [bad] := by
    rw [List.take_add_one, next]
    rfl
  have length : (paths.take entries.length).length = entries.length := List.length_take_of_le (Nat.le_of_lt early)
  have fewer : (paths.take entries.length ++ [bad]).length < 2147483648 := by
    rw [List.length_append, length]
    exact Nat.lt_of_le_of_lt early few
  constructor
  · obtain ⟨result, stops⟩ := carryOut_stops unchanging settings fewer alone room refused world
    have here := stops (paths.drop (entries.length + 1))
    rw [← reached, List.take_append_drop, ← given] at here
    intro more
    rw [reached]
    exact (stops more).trans here.symm
  · have told := (carryOut_tells unchanging settings given few accounted room world).output
    have shorter : (paths.take entries.length).length < 2147483648 := by omega
    rw [told, output_of_good unchanging settings shorter alone room world]
    exact String.append_empty

theorem line_renamed (dialect : Dialect) (name : Option String) (entry : Entry) :
    entry.line { dialect with mainFileName := name } = entry.line dialect ∨
      ∃ path identity size words details, entry = .opens path identity 0 size words ∧
        entry.line dialect = Entry.shownName dialect.mainFileName 0 path ++ details ∧
        entry.line { dialect with mainFileName := name } = Entry.shownName name 0 path ++ details := by
  cases entry with
  | repeats path identity first => exact .inl rfl
  | opens path identity uid size words =>
    cases uid with
    | zero => exact .inr ⟨path, identity, size, words, Entry.details dialect 0 size words, rfl, rfl, rfl⟩
    | succ uid =>
      left
      have shown (other : Option String) : Entry.shownName other (uid + 1) path = path := by
        cases other with
        | none => rfl
        | some other =>
          unfold Entry.shownName
          exact if_neg uid.succ_ne_zero
      show Entry.shownName name (uid + 1) path ++ _ = Entry.shownName dialect.mainFileName (uid + 1) path ++ _
      rw [shown, shown]
      rfl

theorem dump_renamed (host : Host (StateM ω)) (dialect : Dialect) (name : Option String) (paths : List String)
    (world : ω) :
    ((Survey.addFiles host paths (.start { dialect with mainFileName := name })).run world).1.2.dump =
      ((Survey.addFiles host paths (.start dialect)).run world).1.2.dump := by
  rw [Survey.start_renamed, Survey.addFiles_renamed]
  rfl

/-- Whatever paths are given, over files that do not change, and whatever the clock shows. A run tells of the leading
paths that can be added: there is a line for each of them, and the file system is asked about no path behind the next
one. If there is a next one the run fails, there is neither dump nor statistics, and what is written to the standard
output is what a run over the leading paths alone writes without a dump. The files that the leading paths lead to are
numbered in the order in which they are reached; each of them has one line with its number, and every other line repeats
the path of that line. The name of the main file changes nothing but that name on the line of the first file. Timing the
stages changes neither the standard output nor the exit code; the report lists a stage for the keywords and one for each
path up to the one that fails. -/
theorem runs_tell_of_leading_paths (host : Host (StateM ω)) (stat : String → Except StatError Stat)
    (read : String → Except ReadError (List UInt8)) (unchanging : host.Unchanging stat read) (settings : Settings)
    (paths : List String) (given : settings.paths = paths.map .text) (few : paths.length < 2147483648)
    (room : ((account stat read settings.dialect.dollarWords [] paths).1.flatMap Entry.words).eraseDups.length <
      2147483648) (world : ω) :
    let entries := (account stat read settings.dialect.dollarWords [] paths).1
    let failure := (account stat read settings.dialect.dollarWords [] paths).2
    let added := ((Survey.addFiles host paths (.start settings.dialect)).run world).1
    let k := (added.1.takeWhile Except.isOk).length
    let run := fun settings : Settings => (carryOut host settings).run world
    Tells settings entries added.2 (paths.take (k + 1)) failure (run settings).1 ∧
    entries.map Entry.path = paths.take k ∧
    (k = paths.length ∧ failure = none ∨ ∃ bad error, paths[k]? = some bad ∧
      nextEntry stat read settings.dialect.dollarWords entries bad = .error error ∧
      failure = some (.survey bad error)) ∧
    Orderly stat entries ∧
    (k < paths.length →
      (∀ more, run { settings with paths := (paths.take (k + 1) ++ more).map .text } = run settings) ∧
      (run settings).1.output =
        (run { settings with paths := (paths.take k).map .text, dumpIdentifiers := false }).1.output) ∧
    (∀ name, let renamed := { settings with mainFileName := name }
      (run renamed).2 = (run settings).2 ∧ (run renamed).1.exitCode = (run settings).1.exitCode ∧
      (run renamed).1.errors = (run settings).1.errors ∧ ∃ rest,
        (run settings).1.output = String.join (entries.map (Entry.line settings.dialect)) ++ rest ∧
        (run renamed).1.output = String.join (entries.map (Entry.line renamed.dialect)) ++ rest ∧
        ∀ entry ∈ entries, entry.line renamed.dialect = entry.line settings.dialect ∨
          ∃ path identity size words details, entry = .opens path identity 0 size words ∧
            entry.line settings.dialect = Entry.shownName settings.mainFileName 0 path ++ details ∧
            entry.line renamed.dialect = Entry.shownName name 0 path ++ details) ∧
    ∀ profile, (run { settings with profile }).1.output = (run settings).1.output ∧
      (run { settings with profile }).1.exitCode = (run settings).1.exitCode := by
  intro entries failure added k run
  have count : entries.length = k := by
    have leading := length_leading unchanging paths (.start stat settings.dialect)
      (by rw [List.length_nil, Nat.zero_add]; exact few) room world
    rw [List.length_nil, Nat.zero_add] at leading
    exact leading
  have accounted : account stat read settings.dialect.dollarWords [] paths = (entries, failure) := rfl
  obtain ⟨names, -, ending⟩ := account_leading accounted
  rw [← count]
  -- neither the name of the main file nor timing decides what is entered
  have tells_all (other : Settings) (dialect : other.dialect.dollarWords = settings.dialect.dollarWords)
      (also : other.paths = settings.paths) :
      Tells other entries ((Survey.addFiles host paths (.start other.dialect)).run world).1.2
        (paths.take (entries.length + 1)) failure (run other).1 := by
    exact carryOut_tells unchanging other (also.trans given) few (by rw [dialect]) room world
  have tells := tells_all settings rfl rfl
  refine ⟨tells, names, ending, (Orderly.nil stat).account paths, fun early => ?_, fun name => ?_, fun profile => ?_⟩
  · exact carryOut_early unchanging settings given few accounted room early world
  · obtain ⟨worlds, exits, errors⟩ := carryOut_renamed host settings name world
    have second := (tells_all { settings with mainFileName := name } rfl rfl).output
    have dumps : ((Survey.addFiles host paths
        (.start { settings with mainFileName := name }.dialect)).run world).1.2.dump = added.2.dump :=
      dump_renamed host settings.dialect name paths world
    rw [dumps] at second
    exact ⟨worlds, exits, errors, _, tells.output, second, fun entry _ => line_renamed settings.dialect name entry⟩
  · have second := tells_all { settings with profile } rfl rfl
    exact ⟨second.output.trans tells.output.symm, second.exitCode.trans tells.exitCode.symm⟩

/-- Files that do not change, on a machine where time goes by while they are looked at. -/
def ticking : Host (StateM Nat) where
  stat path := fun moment => (aliased path, moment + 1)
  read path := fun moment => (guarded path, moment + 1)
  clock := fun moment => (moment, moment)

/-- A run over two names of one file, a file that may not be read, and something else. -/
def lockedOut : Settings :=
  { paths := ["a", "b", "locked", "c"].map .text, dumpIdentifiers := true, profile := true }

theorem locked_file_ends_the_run : ∃ stages lines,
    Stopwatch.Lists ["Keyword registration", "Survey a", "Survey b", "Survey locked"] stages lines ∧
    ((carryOut ticking lockedOut).run 0).1 =
      ⟨1, "a: uid 0, 0 bytes, 1 words, 0 keywords (0 extensions)\nb: same file as a\n",
        String.join (lines.map (· ++ "\n")) ++
          (Failure.survey "locked" (.unreadable "locked" .permissionDenied)).render, some .warning⟩ := by
  have accounted : account aliased guarded lockedOut.dialect.dollarWords [] ["a", "b", "locked", "c"] =
      ([.opens "a" ⟨1, 2⟩ 0 0 ["x"], .repeats "b" ⟨1, 2⟩ "a"],
        some (.survey "locked" (.unreadable "locked" .permissionDenied))) := by
    cbv
  have lines : String.join ([Entry.opens "a" ⟨1, 2⟩ 0 0 ["x"], .repeats "b" ⟨1, 2⟩ "a"].map
      (Entry.line lockedOut.dialect)) =
      "a: uid 0, 0 bytes, 1 words, 0 keywords (0 extensions)\nb: same file as a\n" := by
    cbv
  have few_words : ((account aliased guarded lockedOut.dialect.dollarWords [] ["a", "b", "locked", "c"]).1.flatMap
      Entry.words).eraseDups.length < 2147483648 := by
    rw [accounted]
    decide
  obtain ⟨tells, names, -⟩ := runs_tell_of_leading_paths ticking aliased guarded ⟨fun _ _ => rfl, fun _ _ => rfl⟩
    lockedOut ["a", "b", "locked", "c"] rfl (by decide) few_words 0
  rw [accounted] at tells names
  have count := congrArg List.length names
  generalize (((Survey.addFiles ticking ["a", "b", "locked", "c"] (.start lockedOut.dialect)).run 0).1.1.takeWhile
    Except.isOk).length = k at tells count
  obtain rfl : k = 2 := by
    simp only [List.length_map, List.length_take, List.length_cons, List.length_nil] at count
    omega
  obtain ⟨output, exitCode, ⟨report, reported, errors⟩, logging⟩ := tells
  dsimp only at output exitCode errors logging
  generalize ((carryOut ticking lockedOut).run 0).1 = transcript at output exitCode errors logging ⊢
  obtain ⟨code, written, told, level⟩ := transcript
  obtain rfl : code = 1 := exitCode
  obtain rfl : written = _ ++ "" := output
  obtain rfl : told = "" ++ _ ++ _ := errors
  obtain rfl : level = some .warning := logging
  rw [String.append_empty, lines, String.empty_append]
  -- stages are timed here
  have timed : Stopwatch.Reports ["Keyword registration", "Survey a", "Survey b", "Survey locked"] true report := reported
  cases timed with
  | on lists => exact ⟨_, _, lists, rfl⟩

end Run
end Canon
