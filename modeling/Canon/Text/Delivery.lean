import Canon.Text.Lossy

/-!
Writers that are full at some point. A run hands over its output as one text; this says how much of the text such a
writer takes. No result about runs is about it, since a run does not look at what became of its output.
-/
namespace Canon.Text

def encode (text : List Char) : List UInt8 := text.flatMap String.utf8EncodeChar

/-- What reaches a writer that takes only so many bytes, and whether that is all. A writer without a limit takes
everything. -/
def deliver (limit : Option Nat) (text : String) : Bool × String :=
  match limit with
  | none => (true, text)
  | some limit =>
    if (encode text.toList).length ≤ limit then (true, text)
    else (false, String.ofList (decodeLossy ((encode text.toList).take limit)))

end Canon.Text
