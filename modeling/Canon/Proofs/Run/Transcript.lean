import Canon.Proofs.Run.Adding
import Canon.Proofs.Timing.Report

/-!
What a run writes. Step by step it writes the line of the next entry, until there is none; the step that fails is timed
like the others, and nothing happens behind it.
-/
namespace Canon
open Canon.File
variable {ω α : Type}

namespace Stopwatch

/-- Timing an action runs it once, perhaps at another moment, and records a stage if the stopwatch is on. -/
theorem time_run (clock : StateM ω Nat) (label : String) (action : StateM ω α) (stopwatch : Stopwatch) (world : ω) :
    ∃ moment stopped after, (stopwatch.time clock label action).run world =
        (((action.run moment).1, stopped), after) ∧
      stopped.labels = stopwatch.labels.map (· ++ [label]) := by
  rcases stopwatch with ⟨stages⟩
  cases stages with
  | none => exact ⟨world, ⟨none⟩, _, rfl, rfl⟩
  | some stages =>
    refine ⟨(clock.run world).2, _, _, rfl, ?_⟩
    simp only [labels, Option.map_some, Array.toList_push, List.map_append, List.map_singleton]

end Stopwatch

namespace Run
variable {host : Host (StateM ω)} {stat : String → Except StatError Stat}
  {read : String → Except ReadError (List UInt8)} {dialect : Dialect} {entries : List Entry}

theorem step_eq {path : String} {progress : Progress} {answer : Except SurveyError Outcome} {survey : Survey}
    {stopwatch : Stopwatch} {world later : ω}
    (timed : (progress.stopwatch.time host.clock ("Survey " ++ path) (progress.survey.addFile host path)).run world =
      (((answer, survey), stopwatch), later)) :
    (step host (.text path) progress).run world = (match answer with
      | .error error => (some (.survey path error), { progress with survey, stopwatch })
      | .ok outcome => (none, ⟨survey, stopwatch, progress.lines.push (outcomeLine survey path outcome)⟩), later) := by
  have plain : (progress.stopwatch.time host.clock ("Survey " ++ path) (progress.survey.addFile host path)).run world =
      pure (((answer, survey), stopwatch), later) := timed
  unfold step
  simp only [StateT.run_bind, plain, pure_bind]
  cases answer with
  | error error => rfl
  | ok outcome => rfl

def Goes (stat : String → Except StatError Stat) (dialect : Dialect) (entries : List Entry) (path : String)
    (progress after : Progress) (failure : Option Failure) : Except SurveyError Entry → Prop
  | .error error => failure = some (.survey path error) ∧ after.lines = progress.lines
  | .ok entry => failure = none ∧ after.lines = progress.lines.push (entry.line dialect) ∧
      Tracks stat dialect (entries ++ [entry]) after.survey

theorem step_goes {progress : Progress} (tracks : Tracks stat dialect entries progress.survey)
    (unchanging : host.Unchanging stat read) (path : String) (few : entries.length + 1 < 2147483648)
    (room : ∀ entry, nextEntry stat read dialect.dollarWords entries path = .ok entry →
      ((entries ++ [entry]).flatMap Entry.words).eraseDups.length < 2147483648) (world : ω) :
    ∃ failure after later, (step host (.text path) progress).run world = ((failure, after), later) ∧
      after.stopwatch.labels = progress.stopwatch.labels.map (· ++ ["Survey " ++ path]) ∧
      Goes stat dialect entries path progress after failure (nextEntry stat read dialect.dollarWords entries path) := by
  obtain ⟨moment, stopped, after, timed, labels⟩ := progress.stopwatch.time_run host.clock ("Survey " ++ path)
    (progress.survey.addFile host path) world
  obtain ⟨answer, survey, later, added, kept⟩ := tracks.add unchanging path few room moment
  rw [added] at timed
  rw [step_eq timed]
  cases next : nextEntry stat read dialect.dollarWords entries path with
  | error error =>
    rw [next] at kept
    cases kept
    exact ⟨_, _, _, rfl, labels, rfl, rfl⟩
  | ok entry =>
    rw [next] at kept
    obtain ⟨outcome, rfl, line, tracks⟩ := kept
    exact ⟨_, _, _, rfl, labels, rfl, congrArg progress.lines.push line, tracks⟩

theorem steps_cons (argument : Argument) (rest : List Argument) (progress : Progress) (world : ω) :
    (steps host (argument :: rest) progress).run world =
      match (step host argument progress).run world with
      | ((some failure, after), later) => ((some failure, after), later)
      | ((none, after), later) => (steps host rest after).run later := by
  rcases stepped : (step host argument progress).run world with ⟨⟨failure, after⟩, later⟩
  have plain : (step host argument progress).run world = pure ((failure, after), later) := stepped
  rw [steps]
  simp only [StateT.run_bind, plain, pure_bind]
  cases failure with
  | some failure => rfl
  | none => rfl

theorem steps_append_of_failed (arguments more : List Argument) (progress : Progress) (world : ω) {failure : Failure}
    {after : Progress} {later : ω}
    (failed : (steps host arguments progress).run world = ((some failure, after), later)) :
    (steps host (arguments ++ more) progress).run world = ((some failure, after), later) := by
  induction arguments generalizing progress world with
  | nil => cases failed
  | cons argument rest ih =>
    rw [List.cons_append, steps_cons]
    rw [steps_cons] at failed
    rcases stepped : (step host argument progress).run world with ⟨⟨outcome, between⟩, moment⟩
    rw [stepped] at failed
    cases outcome with
    | some other => exact failed
    | none => exact ih between moment failed

/-- The steps of a run write the lines of the entries, and time one stage for each path that is looked at. -/
theorem steps_tell (unchanging : host.Unchanging stat read) (paths : List String) {progress : Progress}
    (tracks : Tracks stat dialect entries progress.survey) (few : entries.length + paths.length < 2147483648)
    (room : ((account stat read dialect.dollarWords entries paths).1.flatMap Entry.words).eraseDups.length <
      2147483648) (world : ω) :
    ∃ after later, (steps host (paths.map .text) progress).run world =
        (((account stat read dialect.dollarWords entries paths).2, after), later) ∧
      ∃ more, (account stat read dialect.dollarWords entries paths).1 = entries ++ more ∧
        after.lines.toList = progress.lines.toList ++ more.map (Entry.line dialect) ∧
        after.stopwatch.labels =
          progress.stopwatch.labels.map (· ++ (paths.take (more.length + 1)).map ("Survey " ++ ·)) := by
  induction paths generalizing entries progress world with
  | nil =>
    refine ⟨progress, world, rfl, [], (List.append_nil _).symm, (List.append_nil _).symm, ?_⟩
    simp
  | cons path rest ih =>
    have short : entries.length + 1 < 2147483648 := by
      rw [List.length_cons] at few
      omega
    obtain ⟨failure, after, later, stepped, labels, goes⟩ :=
      step_goes tracks unchanging path short (fun entry said => few_words_next room said) world
    rw [List.map_cons, steps_cons, stepped]
    cases said : nextEntry stat read dialect.dollarWords entries path with
    | error error =>
      rw [said] at goes
      obtain ⟨rfl, lines⟩ := goes
      rw [account_cons_error said]
      refine ⟨after, later, rfl, [], (List.append_nil _).symm, ?_, ?_⟩
      · rw [lines]
        exact (List.append_nil _).symm
      · exact labels
    | ok entry =>
      rw [said] at goes
      obtain ⟨rfl, lines, tracks⟩ := goes
      rw [account_cons_ok said] at room ⊢
      have fewer : (entries ++ [entry]).length + rest.length < 2147483648 := by
        rw [List.length_append, List.length_singleton]
        rw [List.length_cons] at few
        omega
      obtain ⟨last, moment, ran, more, whole, told, timed⟩ := ih tracks fewer room later
      refine ⟨last, moment, ran, entry :: more, ?_, ?_, ?_⟩
      · rw [whole, List.append_assoc, List.singleton_append]
      · rw [told, lines, Array.toList_push, List.append_assoc]
        rfl
      · rw [timed, labels, Option.map_map]
        refine congrArg (Option.map · _) (funext fun earlier => ?_)
        rw [Function.comp_apply, List.append_assoc, List.length_cons, List.take_succ_cons, List.map_cons]
        rfl

end Run
end Canon
