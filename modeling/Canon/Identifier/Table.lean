import Canon.Dialect.Availability
import Canon.Identifier.Record
import Canon.Lexicon.Basic
import Canon.Overlay
import Canon.Registry
import Canon.Token.Directive

/-!
The table of identifiers: one record for each spelling. A spelling is interned before it is bound, and a record
knows the symbol of the spelling it was allocated for.
-/
namespace Canon.Identifier

structure Table where
  lexicon : Lexicon
  bindings : Overlay Symbol (Option IdentifierId)
  records : Registry IdentifierId Record

namespace Table

def empty : Table := ⟨.empty, .constant none, .empty⟩

instance : EmptyCollection Table := ⟨empty⟩
instance : Inhabited Table := ⟨empty⟩

def size (table : Table) : Nat := table.records.size

def intern (spelling : String) (table : Table) : Symbol × Table :=
  match table with
  | ⟨lexicon, bindings, records⟩ =>
    let (symbol, lexicon) := lexicon.intern spelling
    (symbol, ⟨lexicon, bindings, records⟩)

def bound? (table : Table) (symbol : Symbol) : Option IdentifierId := table.bindings.get symbol

def bind (symbol : Symbol) (id : IdentifierId) (table : Table) : Table :=
  match table with
  | ⟨lexicon, bindings, records⟩ => ⟨lexicon, bindings.set symbol (some id), records⟩

def allocate (symbol : Symbol) (table : Table) : IdentifierId × Table :=
  match table with
  | ⟨lexicon, bindings, records⟩ =>
    let (id, records) := records.enter (.fresh symbol)
    (id, ⟨lexicon, bindings.set symbol (some id), records⟩)

def find? (table : Table) (spelling : String) : Option IdentifierId :=
  (table.lexicon.find? spelling).bind table.bound?

def get (spelling : String) (table : Table) : IdentifierId × Table :=
  let (symbol, table) := table.intern spelling
  match table.bound? symbol with
  | some id => (id, table)
  | none => table.allocate symbol

/-- Gives a spelling a new record. A spelling that has one is refused by checks; without them it is bound to
the new one from then on. -/
def create (checks : Checks) (spelling : String) (table : Table) : Except Fault IdentifierId × Table :=
  let (symbol, table) := table.intern spelling
  if checks = .enabled ∧ (table.bound? symbol).isSome then (.error (.alreadyBound spelling), table)
  else
    let (id, table) := table.allocate symbol
    (.ok id, table)

def info (table : Table) (id : IdentifierId) : Except Fault Record := table.records.get id

/-- Changes the record of a handle; a handle that names no record changes nothing. -/
def modify (id : IdentifierId) (change : Record → Record) (table : Table) : Table :=
  match table with
  | ⟨lexicon, bindings, records⟩ => ⟨lexicon, bindings, records.modify id change⟩

def update (checks : Checks) (id : IdentifierId) (setter : Setter) (table : Table) : Except Fault Table := do
  let changed ← setter.apply checks (← table.info id)
  return table.modify id fun _ => changed

def name (table : Table) (id : IdentifierId) : Except Fault String := do
  table.lexicon.get (← table.info id).entry

def toList (table : Table) : List (IdentifierId × Record) := table.records.toList

def spellings (table : Table) : List (String × IdentifierId) :=
  table.lexicon.toList.filterMap fun (symbol, spelling) => (table.bound? symbol).map (spelling, ·)

def addKeywords (dialect : Dialect) (table : Table) : Table :=
  dialect.keywords.foldl
    (fun table active =>
      let (id, table) := table.get active.spelling
      table.modify id (·.classify active.keyword active.extension))
    table

def ofDialect (dialect : Dialect) : Table := empty.addKeywords dialect

end Table
end Canon.Identifier
