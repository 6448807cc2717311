import Canon.Identifier.Table
import Canon.Text.Double

/-!
Statistics about a table of identifiers.
-/
namespace Canon.Identifier

structure Statistics where
  records : Nat
  spellings : Nat
  totalLength : Nat
  longest : Nat
  /-- The number of bytes in all interned spellings. -/
  storedBytes : Nat
  deriving DecidableEq, Repr

def Table.statistics (table : Table) : Statistics :=
  let lengths := table.spellings.map (·.1.utf8ByteSize)
  ⟨table.size, lengths.length, lengths.foldr (· + ·) 0, lengths.foldl max 0, table.lexicon.storedBytes⟩

def Statistics.average (statistics : Statistics) : Double :=
  if 0 < statistics.spellings then statistics.totalLength / statistics.spellings else 0

def Statistics.render (statistics : Statistics) : String :=
  s!"\n*** Identifier Table Stats:\n# Identifiers:   {statistics.records}\n# Spellings:     {statistics.spellings}\n" ++
    "Ave identifier length: " ++ statistics.average.render 2 ++
    s!"\nMax identifier length: {statistics.longest}\nSpelling storage: {statistics.storedBytes} bytes\n"

end Canon.Identifier
