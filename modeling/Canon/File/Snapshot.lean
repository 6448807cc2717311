import Canon.File.Stat
import Std.Data.HashMap

/-!
A file system given by a list of answers, one for each literal path. It keeps a record of what it is asked.
-/
namespace Canon.File

structure Snapshot where
  answers : Std.HashMap String (Except StatError Stat)
  asked : Array String

namespace Snapshot

def empty : Snapshot := ⟨∅, #[]⟩

def put (snapshot : Snapshot) (path : String) (answer : Except StatError Stat) : Snapshot :=
  { snapshot with answers := snapshot.answers.insert path answer }

def remove (snapshot : Snapshot) (path : String) : Snapshot :=
  { snapshot with answers := snapshot.answers.erase path }

/-- The answer for a path. A path without one leads nowhere. -/
def answer (snapshot : Snapshot) (path : String) : Except StatError Stat :=
  snapshot.answers[path]?.getD (.error .notFound)

def stat (path : String) : StateM Snapshot (Except StatError Stat) :=
  modifyGet fun snapshot => (snapshot.answer path, { snapshot with asked := snapshot.asked.push path })

end Snapshot
end Canon.File
