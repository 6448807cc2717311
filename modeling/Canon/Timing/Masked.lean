import Canon.Text.Layout

/-!
Reports with their timings masked. What a clock shows differs from run to run; two reports on the same tasks are
compared by what is left of their lines, the labels.
-/
namespace Canon.Timing

def afterFirst? (mark : List Char) : List Char → Option (List Char)
  | [] => if mark.isEmpty then some [] else none
  | char :: rest =>
    if mark.isPrefixOf (char :: rest) then some ((char :: rest).drop mark.length) else afterFirst? mark rest

def beforeLast? (mark text : List Char) : Option (List Char) :=
  (afterFirst? mark.reverse text.reverse).map List.reverse

/-- A line with a timing is cut at the separator in front of the timing. -/
def maskLine (line : String) : String :=
  if "%)".toList.isSuffixOf line.toList then
    match (beforeLast? "ms (".toList line.toList).bind (beforeLast? " : ".toList) with
    | some label => String.ofList label ++ " : TIME"
    | none => line
  else line

def mask (text : String) : String := Text.unlines ((Text.lines text).map maskLine)

end Canon.Timing
