import Canon.Dialect.Standard

/-!
A dialect of C: the switches that say what is accepted and what is predefined. Identifiers depend on the
keyword switches and the scanner on the dollar sign; the others are carried for later phases.
-/
namespace Canon

inductive Visibility where
  | default_
  | protected_
  | hidden
  deriving DecidableEq, Repr

namespace Visibility

def name : Visibility → String
  | .default_ => "Default"
  | .protected_ => "Protected"
  | .hidden => "Hidden"

def all : List Visibility := [.default_, .protected_, .hidden]

def ofName? (name : String) : Option Visibility := all.find? (·.name == name)

end Visibility

structure Dialect where
  trigraphs : Bool := false
  lineComments : Bool := false
  boolean : Bool := false
  /-- The dollar sign counts as a letter. -/
  dollarWords : Bool := false
  assembler : Bool := false
  gnu : Bool := false
  implicitInt : Bool := false
  digraphs : Bool := false
  hexFloats : Bool := false
  c99 : Bool := false
  microsoft : Bool := false
  noBuiltins : Bool := false
  emitAll : Bool := false
  optimize : Bool := false
  optimizeSize : Bool := false
  static : Bool := false
  gnuInline : Bool := false
  noInline : Bool := false
  instantiationDepth : UInt32 := 99
  visibility : Visibility := .default_
  /-- A name to show for the main file. It plays no part in finding files. -/
  mainFileName : Option String := none
  deriving DecidableEq

namespace Dialect

/-- The dialect of a standard. All but C89 and C94 have line comments. -/
def ofStandard (standard : Standard) : Dialect :=
  match standard with
  | .c89 => { dollarWords := true, implicitInt := true, trigraphs := true }
  | .c94 => { dollarWords := true, implicitInt := true, trigraphs := true, digraphs := true }
  | .gnu89 => { dollarWords := true, lineComments := true, implicitInt := true, gnu := true, gnuInline := true }
  | .c99 =>
    { dollarWords := true, lineComments := true, c99 := true, digraphs := true, hexFloats := true,
      trigraphs := true }
  | .gnu99 =>
    { dollarWords := true, lineComments := true, c99 := true, digraphs := true, hexFloats := true, gnu := true }

end Dialect
end Canon
