/-!
The names of preprocessing directives, as they stand behind the number sign.
-/
namespace Canon

inductive Directive where
  | if_ | ifdef | ifndef | elif | else_ | endif | defined | include | define | undef | line | error | pragma
  | import_ | includeNext | warning | ident | sccs | assert | unassert
  deriving DecidableEq, Repr

namespace Directive

def entry : Directive → String × String
  | .if_ => ("If", "if")
  | .ifdef => ("Ifdef", "ifdef")
  | .ifndef => ("Ifndef", "ifndef")
  | .elif => ("Elif", "elif")
  | .else_ => ("Else", "else")
  | .endif => ("Endif", "endif")
  | .defined => ("Defined", "defined")
  | .include => ("Include", "include")
  | .define => ("Define", "define")
  | .undef => ("Undef", "undef")
  | .line => ("Line", "line")
  | .error => ("Error", "error")
  | .pragma => ("Pragma", "pragma")
  | .import_ => ("Import", "import")
  | .includeNext => ("IncludeNext", "include_next")
  | .warning => ("Warning", "warning")
  | .ident => ("Ident", "ident")
  | .sccs => ("Sccs", "sccs")
  | .assert => ("Assert", "assert")
  | .unassert => ("Unassert", "unassert")

def name (directive : Directive) : String := directive.entry.1

def spelling (directive : Directive) : String := directive.entry.2

def all : List Directive :=
  [.if_, .ifdef, .ifndef, .elif, .else_, .endif, .defined, .include, .define, .undef, .line, .error, .pragma,
    .import_, .includeNext, .warning, .ident, .sccs, .assert, .unassert]

def ofSpelling? (spelling : String) : Option Directive := all.find? (·.spelling == spelling)

def nameOfSpelling (spelling : String) : String := ((ofSpelling? spelling).map name).getD "NotKeyword"

end Directive
end Canon
