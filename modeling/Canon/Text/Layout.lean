/-!
Columns of text.
-/
namespace Canon.Text

/-- Fills a text up with blanks on the right to a width in characters. A longer text is not cut. -/
def padRight (width : Nat) (text : String) : String := text ++ String.ofList (List.replicate (width - text.length) ' ')

def padLeft (width : Nat) (text : String) : String := String.ofList (List.replicate (width - text.length) ' ') ++ text

/-- The lines of a text, broken at each newline. A text that ends in a newline has an empty last line. -/
def lines (text : String) : List String := text.splitOn "\n"

def unlines (lines : List String) : String := String.intercalate "\n" lines

end Canon.Text
