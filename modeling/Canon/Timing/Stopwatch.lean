import Canon.Text.Double
import Canon.Text.Layout

/-!
How long the stages of a run took, and the report about them. A stopwatch that is off records nothing and
reports nothing; what it times runs all the same.
-/
namespace Canon

structure Stage where
  label : String
  nanoseconds : Nat

/-- The stages timed so far, or nothing if the stopwatch is off. -/
structure Stopwatch where
  stages : Option (Array Stage)

namespace Stopwatch

def start (on : Bool) : Stopwatch := ⟨if on then some #[] else none⟩

def time {m : Type → Type} [Monad m] {α : Type} (clock : m Nat) (label : String) (action : m α)
    (stopwatch : Stopwatch) : m (α × Stopwatch) := do
  match stopwatch.stages with
  | none => return (← action, stopwatch)
  | some stages =>
    let before ← clock
    let result ← action
    let after ← clock
    return (result, ⟨some (stages.push ⟨label, after - before⟩)⟩)

def totalLabel : String := "Total"

/-- Labels are filled up, in characters, to the length in bytes of the longest one. -/
def labelWidth (stages : List Stage) : Nat :=
  (stages.map (·.label.utf8ByteSize)).foldl max totalLabel.utf8ByteSize

def seconds (nanoseconds : Nat) : Double :=
  (nanoseconds / 1000000000 : Nat) + (nanoseconds % 1000000000 : Nat) / 1000000000

def milliseconds (nanoseconds : Nat) : String :=
  Text.padLeft 10 (((nanoseconds / 1000 : Nat) / 1000 : Double).render 4) ++ "ms"

def percentage (part whole : Nat) : Double := if whole = 0 then 0 else seconds part / seconds whole * 100

def share (part whole : Nat) : String := Text.padLeft 5 ((percentage part whole).render 1) ++ "%"

def line (width total : Nat) (stage : Stage) : String :=
  Text.padRight width stage.label ++ " : " ++ milliseconds stage.nanoseconds ++
    " (" ++ share stage.nanoseconds total ++ ")"

/-- A line for each stage and one for their total, between rules. -/
def reportOn (stages : List Stage) : String :=
  let width := labelWidth stages
  let rule := String.ofList (List.replicate (width + 28) '-')
  let total := (stages.map (·.nanoseconds)).foldr (· + ·) 0
  let totalLine := Text.padRight width totalLabel ++ " : " ++ milliseconds total ++ " (100.0%)"
  String.join (([rule, "Profiler Report", rule] ++ stages.map (line width total) ++ [rule, totalLine, rule]).map
    (· ++ "\n"))

def report (stopwatch : Stopwatch) : String :=
  match stopwatch.stages with
  | none => ""
  | some stages => reportOn stages.toList

end Stopwatch
end Canon
