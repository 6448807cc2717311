import Canon.CommandLine.Settings

/-!
Reading a command line. Arguments are read from left to right and the first problem ends the reading. A value
is looked at only when it is settled: when the next switch is recognised, when a file name follows the value of
a switch, or at the end.
-/
namespace Canon

inductive Refusal where
  | valueNotAllowed
  /-- A value is missing, or a file name is empty. -/
  | valueMissing
  | valueNotText
  | unknownSwitch
  | valueUnexpected
  | givenTwice
  | noFiles
  | help
  | version
  deriving DecidableEq, Repr

inductive Unsettled where
  | nothing
  | files (names : List Argument)
  | value (valued : Valued) (argument : Option Argument)

structure Reading where
  settings : Settings := {}
  given : List Valued := []
  unsettled : Unsettled := .nothing
  /-- Only file names can follow. -/
  escaped : Bool := false

namespace Reading

def textOf : Argument → Except Refusal String
  | .text value => .ok value
  | .raw _ => .error .valueNotText

def assign (reading : Reading) (valued : Valued) (argument : Argument) : Except Refusal Reading := do
  if reading.given.contains valued then throw .givenTwice
  let value ← textOf argument
  let settings ← match valued with
    | .standard =>
      match Standard.ofString value with
      | .ok standard => pure { reading.settings with standard := standard }
      | .error _ => throw .valueNotAllowed
    | .mainFileName => pure { reading.settings with mainFileName := some value }
  return { reading with settings := settings, given := valued :: reading.given }

def settle (reading : Reading) : Except Refusal Reading := do
  let settled := { reading with unsettled := .nothing }
  match reading.unsettled with
  | .nothing => return settled
  | .files names =>
    if names.contains (.text "") then throw .valueMissing
    return { settled with settings := { settled.settings with paths := settled.settings.paths ++ names } }
  | .value _ none => throw .valueMissing
  | .value valued (some argument) => settled.assign valued argument

/-- Reads a file name. Only names that follow a value settle it. -/
def readFile (reading : Reading) (argument : Argument) : Except Refusal Reading := do
  match reading.unsettled with
  | .files names => return { reading with unsettled := .files (names ++ [argument]) }
  | _ => return { ← reading.settle with unsettled := .files [argument] }

def readSwitch (reading : Reading) (switch : Switch) (value : Option Argument) : Except Refusal Reading := do
  match switch, value with
  | .valued valued, some argument => (← reading.settle).assign valued argument
  | .valued valued, none => return { ← reading.settle with unsettled := .value valued none }
  | _, some _ => throw .valueUnexpected
  | .help, none => let _ ← reading.settle; throw .help
  | .version, none => let _ ← reading.settle; throw .version
  | .flag flag, none =>
    let settled ← reading.settle
    if settled.settings.has flag then throw .givenTwice
    return { settled with settings := settled.settings.raise flag }

def read (reading : Reading) (argument : Argument) : Except Refusal Reading :=
  if reading.escaped then reading.readFile argument
  else match argument.shape with
    | .escape => .ok { reading with escaped := true }
    | .long name value =>
      match Switch.ofName? name with
      | some switch => reading.readSwitch switch value
      | none => .error .unknownSwitch
    | .short letter =>
      match Switch.ofLetter? letter with
      | some switch => reading.readSwitch switch none
      | none => .error .unknownSwitch
    | .plain =>
      match reading.unsettled with
      | .value valued none => .ok { reading with unsettled := .value valued (some argument) }
      | _ => reading.readFile argument

/-- What has been read when the arguments end. There must be a file. -/
def finish (reading : Reading) : Except Refusal Settings := do
  let settled ← reading.settle
  if settled.settings.paths.isEmpty then throw .noFiles
  return settled.settings

end Reading

def Settings.ofArguments (arguments : List Argument) : Except Refusal Settings := do
  (← arguments.foldlM Reading.read {}).finish

end Canon
