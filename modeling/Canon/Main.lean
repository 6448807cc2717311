import Canon.Run.Basic

/-!
The command line. Files are told apart by their paths with all links resolved.
-/
namespace Canon
open Canon.File

abbrev OnDisk := StateT (Array String) IO

def numberOf (path : String) : OnDisk Nat := modifyGet fun paths =>
  match paths.idxOf? path with
  | some number => (number, paths)
  | none => (paths.size, paths.push path)

def statOnDisk (path : String) : OnDisk (Except StatError Stat) := do
  try
    let resolved ← IO.FS.realPath path
    let metadata ← resolved.metadata
    let number ← numberOf resolved.toString
    return .ok ⟨metadata.type == .dir, ⟨0, UInt64.ofNat number⟩, metadata.byteSize, metadata.modified.sec, 0⟩
  catch _ => return .error .notFound

def readFromDisk (path : String) : OnDisk (Except ReadError (List UInt8)) := do
  try
    return .ok (← IO.FS.readBinFile path).toList
  catch error => return .error (.other (toString error))

def machine : Host OnDisk := ⟨statOnDisk, readFromDisk, IO.monoNanosNow⟩

end Canon

def main (arguments : List String) : IO UInt32 := do
  let (transcript, _) ← (Canon.Run.ofArguments Canon.machine (arguments.map .text)).run #[]
  (← IO.getStdout).putStr transcript.output
  (← IO.getStderr).putStr transcript.errors
  return transcript.exitCode.toUInt32
