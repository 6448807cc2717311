import Canon.CommandLine.Argument
import Canon.Dialect.Basic

/-!
What a command line asks for.
-/
namespace Canon

structure Settings where
  paths : List Argument := []
  standard : Standard := .preferred
  microsoft : Bool := false
  boolean : Bool := false
  mainFileName : Option String := none
  printStatistics : Bool := false
  dumpIdentifiers : Bool := false
  profile : Bool := false
  verbose : Bool := false
  deriving DecidableEq

def Settings.dialect (settings : Settings) : Dialect :=
  { Dialect.ofStandard settings.standard with
    microsoft := settings.microsoft
    boolean := settings.boolean
    mainFileName := settings.mainFileName }

inductive Level where
  | warning
  | detail
  deriving DecidableEq, Repr

def Settings.logLevel (settings : Settings) : Level := if settings.verbose then .detail else .warning

inductive Flag where
  | microsoft
  | boolean
  | printStatistics
  | dumpIdentifiers
  | profile
  | verbose
  deriving DecidableEq, Repr

inductive Valued where
  | standard
  | mainFileName
  deriving DecidableEq, Repr

inductive Switch where
  | flag (flag : Flag)
  | valued (valued : Valued)
  | help
  | version
  deriving DecidableEq, Repr

namespace Switch

/-- The names of the switches, without the dashes. Names are not abbreviated. -/
def named : List (String × Switch) := [
  ("std", .valued .standard),
  ("fms-extensions", .flag .microsoft),
  ("fbool", .flag .boolean),
  ("main-file-name", .valued .mainFileName),
  ("print-stats", .flag .printStatistics),
  ("dump-identifiers", .flag .dumpIdentifiers),
  ("profile", .flag .profile),
  ("verbose", .flag .verbose),
  ("help", .help),
  ("version", .version)]

def ofName? (name : String) : Option Switch := (named.find? (·.1 == name)).map (·.2)

def ofLetter? : Char → Option Switch
  | 'h' => some .help
  | 'V' => some .version
  | _ => none

end Switch

def Settings.has (settings : Settings) : Flag → Bool
  | .microsoft => settings.microsoft
  | .boolean => settings.boolean
  | .printStatistics => settings.printStatistics
  | .dumpIdentifiers => settings.dumpIdentifiers
  | .profile => settings.profile
  | .verbose => settings.verbose

def Settings.raise (settings : Settings) : Flag → Settings
  | .microsoft => { settings with microsoft := true }
  | .boolean => { settings with boolean := true }
  | .printStatistics => { settings with printStatistics := true }
  | .dumpIdentifiers => { settings with dumpIdentifiers := true }
  | .profile => { settings with profile := true }
  | .verbose => { settings with verbose := true }

end Canon
