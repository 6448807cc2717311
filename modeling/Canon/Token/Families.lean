/-!
Families of dialects, to which keywords belong. A set of families is a word with one bit for each.
-/
namespace Canon

structure Families where
  bits : UInt8
  deriving DecidableEq, Repr

namespace Families

def none : Families := ⟨0⟩

def all : Families := ⟨1⟩

def c99 : Families := ⟨2⟩

def gnu : Families := ⟨4⟩

def microsoft : Families := ⟨8⟩

def boolean : Families := ⟨16⟩

instance : Union Families where
  union left right := ⟨left.bits ||| right.bits⟩

/-- Whether one set holds all of another, which must not be empty. -/
def contains (families part : Families) : Bool := families.bits &&& part.bits == part.bits && part.bits != 0

def named : List (String × Families) :=
  [("ALL", all), ("C99", c99), ("GNU", gnu), ("MS", microsoft), ("BOOL", boolean)]

/-- The family with a name; `NONE` names the empty set. -/
def ofName? (name : String) : Option Families :=
  if name = "NONE" then some none else (named.find? (·.1 == name)).map (·.2)

def names (families : Families) : List String := (named.filter fun entry => families.contains entry.2).map (·.1)

def render (families : Families) : String := s!"KeywordFlags({families.bits.toNat})"

end Families
end Canon
