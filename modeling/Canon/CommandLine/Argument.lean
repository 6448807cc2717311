import Canon.Text.Lossy

/-!
Arguments of a command line, and the shapes by which they are told apart.
-/
namespace Canon

/-- An argument is text, or bytes that are no well-formed UTF-8. -/
inductive Argument where
  | text (value : String)
  | raw (bytes : List UInt8)
  deriving DecidableEq

namespace Argument

def ofBytes (bytes : List UInt8) : Argument :=
  match String.fromUTF8? (ByteArray.mk bytes.toArray) with
  | some value => .text value
  | none => .raw bytes

def chars : Argument → List Char
  | .text value => value.toList
  | .raw bytes => Text.decodeLossy bytes

def render (argument : Argument) : String := String.ofList argument.chars

def afterEquals : Argument → Argument
  | .text value => .text (String.ofList ((value.toList.dropWhile (· != '=')).drop 1))
  | .raw bytes => .raw ((bytes.dropWhile (· != 61)).drop 1)

inductive Shape where
  | escape
  | long (name : String) (value : Option Argument)
  | short (letter : Char)
  | plain

def shape (argument : Argument) : Shape :=
  match argument.chars with
  | ['-', '-'] => .escape
  | '-' :: '-' :: rest =>
    .long (String.ofList (rest.takeWhile (· != '='))) (if rest.contains '=' then some argument.afterEquals else none)
  | '-' :: letter :: _ => .short letter
  | _ => .plain

end Argument
end Canon
