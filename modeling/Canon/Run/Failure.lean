import Canon.CommandLine.Argument
import Canon.Survey

/-!
Why a run fails, and how that is put into words.
-/
namespace Canon

inductive Failure where
  | notText (path : Argument)
  | survey (path : String) (error : SurveyError)

namespace Failure

def chain : Failure → List String
  | .notText path => [s!"{path.render}: path is not valid UTF-8"]
  | .survey path error => s!"failed to survey {path}" :: error.chain

/-- A text whose first line follows a head and whose other lines are indented. -/
def indented (head indent text : String) : String := head ++ String.intercalate ("\n" ++ indent) (Text.lines text)

/-- Causes are numbered if there is more than one. -/
def renderCauses : List String → List String
  | [cause] => [indented "    " "    " cause]
  | causes => causes.zipIdx.map fun (cause, number) =>
    indented (Text.padLeft 5 (toString number) ++ ": ") "       " cause

def renderChain : List String → String
  | [] => ""
  | [message] => message
  | message :: causes => message ++ "\n\nCaused by:\n" ++ Text.unlines (renderCauses causes)

def render (failure : Failure) : String := "error: " ++ renderChain failure.chain ++ "\n"

end Failure
end Canon
