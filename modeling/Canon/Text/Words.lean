/-!
The words of a C source text. The scanner reads one character at a time and is always in one `Mode`; comments,
quoted literals and numbers hold no words.
-/
namespace Canon.Text

def isLetter (char : Char) : Bool := ('a' ≤ char && char ≤ 'z') || ('A' ≤ char && char ≤ 'Z')

def isDigit (char : Char) : Bool := '0' ≤ char && char ≤ '9'

/-- Characters that may begin a word; the dollar sign is one of them if it counts as a letter. -/
def beginsWord (dollar : Bool) (char : Char) : Bool := isLetter char || char == '_' || (dollar && char == '$')

def continuesWord (dollar : Bool) (char : Char) : Bool :=
  isLetter char || isDigit char || char == '_' || (dollar && char == '$')

def continuesNumber (char : Char) : Bool := isLetter char || isDigit char || char == '_' || char == '.'

inductive Mode where
  | outside
  /-- A word, with the characters read so far in reverse. -/
  | word (read : List Char)
  | number
  /-- A slash that may open a comment. -/
  | slash
  | quoted (quote : Char)
  /-- A quoted literal, right behind a backslash. -/
  | escaped (quote : Char)
  | lineComment
  /-- A block comment; `star` tells whether a star was read last. -/
  | blockComment (star : Bool)
  deriving DecidableEq, Repr

namespace Mode

def opening (dollar : Bool) (char : Char) : Mode :=
  if beginsWord dollar char then .word [char]
  else if isDigit char then .number
  else if char == '\x22' || char == '\x27' then .quoted char
  else if char == '/' then .slash
  else .outside

/-- The word that is complete if the text goes on with something that does not continue it. -/
def pending : Mode → List String
  | .word read => [String.ofList read.reverse]
  | _ => []

def read (dollar : Bool) (mode : Mode) (char : Char) : List String × Mode :=
  match mode with
  | .outside => ([], opening dollar char)
  | .word chars =>
    if continuesWord dollar char then ([], .word (char :: chars)) else (mode.pending, opening dollar char)
  | .number => ([], if continuesNumber char then .number else opening dollar char)
  | .slash =>
    ([], if char == '/' then .lineComment else if char == '*' then .blockComment false else opening dollar char)
  | .quoted quote =>
    ([], if char == '\\' then .escaped quote
      else if char == '\n' || char == quote then .outside else .quoted quote)
  | .escaped quote => ([], .quoted quote)
  | .lineComment => ([], if char == '\n' then .outside else .lineComment)
  | .blockComment star => ([], if star && char == '/' then .outside else .blockComment (char == '*'))

end Mode

structure Scan where
  words : Array String
  mode : Mode

namespace Scan

def start : Scan := ⟨#[], .outside⟩

def step (dollar : Bool) (scan : Scan) (char : Char) : Scan :=
  match scan with
  | ⟨words, mode⟩ =>
    let (ended, mode) := mode.read dollar char
    ⟨words.appendList ended, mode⟩

def finish (scan : Scan) : List String := scan.words.toList ++ scan.mode.pending

def ofChars (dollar : Bool) (text : List Char) : Scan := text.foldl (step dollar) start

end Scan

def words (dollar : Bool) (text : List Char) : List String := (Scan.ofChars dollar text).finish

end Canon.Text
