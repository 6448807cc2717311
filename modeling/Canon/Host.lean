import Canon.File.Stat

/-!
What a survey needs from its surroundings: a file system and a clock.
-/
namespace Canon
open Canon.File

inductive ReadError where
  | unreachable (error : StatError)
  /-- It can be looked at, but its mode does not let it be read. -/
  | permissionDenied
  | isDirectory
  /-- It can be looked at but not opened. -/
  | noDevice
  | other (message : String)
  deriving DecidableEq, Repr

def ReadError.message : ReadError → String
  | .unreachable error => error.message
  | .permissionDenied => StatError.permissionDenied.message
  | .isDirectory => "Is a directory (os error 21)"
  | .noDevice => "No such device or address (os error 6)"
  | .other message => message

structure Host (m : Type → Type) where
  stat : String → m (Except StatError Stat)
  read : String → m (Except ReadError (List UInt8))
  clock : m Nat

end Canon
