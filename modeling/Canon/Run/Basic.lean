import Canon.CommandLine.Reading
import Canon.Run.Failure
import Canon.Timing.Stopwatch

/-!
A run of the program: the files of the command line are surveyed in order until one cannot be. What it writes is
a value, so that the same run can be made in any surroundings.
-/
namespace Canon

/-- What a run leaves behind. Lines about logged events also go where the errors go, in front of them all; they are left
aside here. -/
structure Transcript where
  exitCode : UInt8
  output : String
  errors : String
  /-- Events of this weight or more are logged, unless the environment says otherwise. Without it there are no events. -/
  logging : Option Level
  deriving DecidableEq

structure Progress where
  survey : Survey
  stopwatch : Stopwatch
  lines : Array String

namespace Run

def outcomeLine (survey : Survey) (path : String) : Outcome → String
  | .surveyed report =>
    let name := (survey.displayName report.file).toOption.getD ""
    let tally := report.tally
    s!"{name}: uid {report.uid}, {report.size} bytes, {tally.words} words, {tally.keywords} keywords " ++
      s!"({tally.extensions} extensions)\n"
  | .duplicate _ first => s!"{path}: same file as {first}\n"

section Steps
variable {m : Type → Type} [Monad m] (host : Host m)

def step (argument : Argument) (progress : Progress) : m (Option Failure × Progress) := do
  match argument with
  | .raw _ => return (some (.notText argument), progress)
  | .text path =>
    let ((result, survey), stopwatch) ←
      progress.stopwatch.time host.clock ("Survey " ++ path) (progress.survey.addFile host path)
    match result with
    | .error error => return (some (.survey path error), { progress with survey, stopwatch })
    | .ok outcome => return (none, ⟨survey, stopwatch, progress.lines.push (outcomeLine survey path outcome)⟩)

/-- Adds the files of arguments until one cannot be added. -/
def steps : List Argument → Progress → m (Option Failure × Progress)
  | [], progress => return (none, progress)
  | argument :: rest, progress => do
    match ← step host argument progress with
    | (some failure, progress) => return (some failure, progress)
    | (none, progress) => steps rest progress

def begin (settings : Settings) : m Progress := do
  let (survey, stopwatch) ← (Stopwatch.start settings.profile).time host.clock "Keyword registration"
    (do return Survey.start settings.dialect)
  return ⟨survey, stopwatch, #[]⟩

end Steps

/-- What has been written when a run ends. Dump and statistics are left out if it has failed. -/
def finish (settings : Settings) (failure : Option Failure) (progress : Progress) : Transcript :=
  let lines := String.join progress.lines.toList
  let report := progress.stopwatch.report
  match failure with
  | some failure => ⟨1, lines, report ++ failure.render, some settings.logLevel⟩
  | none =>
    ⟨0, lines ++ (if settings.dumpIdentifiers then progress.survey.dump else ""),
      (if settings.printStatistics then progress.survey.statistics else "") ++ report, some settings.logLevel⟩

def carryOut {m : Type → Type} [Monad m] (host : Host m) (settings : Settings) : m Transcript := do
  let (failure, progress) ← steps host settings.paths (← begin host settings)
  return finish settings failure progress

end Run

def usage : String :=
  "Usage: canon [OPTIONS] <PATHS>...\n\nOptions:\n" ++
    "      --std <STANDARD>         The language standard that decides which words are keywords [default: gnu99]\n" ++
    "      --fms-extensions         Enable the Microsoft extension keywords\n" ++
    "      --fbool                  Enable the keywords bool, true and false\n" ++
    "      --main-file-name <NAME>  The name to show for the main file instead of its path\n" ++
    "      --print-stats            Print statistics about files and identifiers\n" ++
    "      --dump-identifiers       Print every identifier and what it is\n" ++
    "      --profile                Time each stage and print a report\n" ++
    "      --verbose                Say more about what is done\n" ++
    "  -h, --help                   Print help\n" ++
    "  -V, --version                Print version\n"

def version : String := "canon 0.1.0\n"

def Refusal.message : Refusal → String
  | .valueNotAllowed => "a value is not one of those allowed"
  | .valueMissing => "a value is missing"
  | .valueNotText => "a value is not valid UTF-8"
  | .unknownSwitch => "an argument is not known"
  | .valueUnexpected => "a value stands with a switch that takes none"
  | .givenTwice => "an argument is given twice"
  | .noFiles => "no files are given"
  | .help => "help is asked for"
  | .version => "the version is asked for"

def Refusal.transcript : Refusal → Transcript
  | .help => ⟨0, usage, "", none⟩
  | .version => ⟨0, Canon.version, "", none⟩
  | refusal => ⟨2, "", "error: " ++ refusal.message ++ "\n\n" ++ usage, none⟩

def Run.ofArguments {m : Type → Type} [Monad m] (host : Host m) (arguments : List Argument) : m Transcript :=
  match Settings.ofArguments arguments with
  | .error refusal => return refusal.transcript
  | .ok settings => Run.carryOut host settings

end Canon
