import Canon.Dialect.Basic
import Canon.Token.Keyword

/-!
Which keywords a dialect has. A keyword that only an extension provides stays marked as such.
-/
namespace Canon

inductive Availability where
  | absent
  | standard
  | extension
  deriving DecidableEq, Repr

namespace Families

/-- What a dialect makes of a keyword of some families. Where several apply the standard ones win over the
extensions, and these over the boolean keywords. -/
def availability (families : Families) (dialect : Dialect) : Availability :=
  if families.contains .all then .standard
  else if dialect.c99 && families.contains .c99 then .standard
  else if dialect.gnu && families.contains .gnu then .extension
  else if dialect.microsoft && families.contains .microsoft then .extension
  else if dialect.boolean && families.contains .boolean then .standard
  else .absent

end Families

structure ActiveKeyword where
  spelling : String
  keyword : Keyword
  extension : Bool
  deriving DecidableEq, Repr

namespace KeywordSpelling

def active? (entry : KeywordSpelling) (dialect : Dialect) : Option ActiveKeyword :=
  match entry.families.availability dialect with
  | .absent => none
  | .standard => some ⟨entry.spelling, entry.keyword, false⟩
  | .extension => some ⟨entry.spelling, entry.keyword, true⟩

end KeywordSpelling

def Dialect.keywords (dialect : Dialect) : List ActiveKeyword :=
  KeywordSpelling.all.filterMap (·.active? dialect)

end Canon
