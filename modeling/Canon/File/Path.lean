/-!
Paths are taken literally: they are split at slashes and never normalised.
-/
namespace Canon.File

def separator : Char := '/'

/-- The directory part of the path of a file. A bare name lies in the current directory and a name under the
root lies in the root. A path that ends in a separator names no file. A run of separators counts as one. -/
def parentChars? (path : List Char) : Option (List Char) :=
  let leaf := path.reverse.takeWhile (· != separator)
  match path.reverse.dropWhile (· != separator) with
  | [] => some ['.']
  | before =>
    if leaf.isEmpty then none
    else match before.dropWhile (· == separator) with
      | [] => some [separator]
      | directory => some directory.reverse

def parent? (path : String) : Option String := (parentChars? path.toList).map String.ofList

end Canon.File
