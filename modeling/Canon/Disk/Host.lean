import Canon.Disk.Tree
import Canon.Host

/-!
A file tree as the surroundings of a survey. The files belong to whoever makes the survey, who has no privilege
to read what their modes forbid. The clock stands still.
-/
namespace Canon.Disk
open Canon.File

namespace Tree

def ownerReads : UInt32 := 0o400

/-- The bytes of the file at the end of a path. Only the owner's bit of its mode counts: the bits for the group and
for others do not apply to the owner. -/
def read (tree : Tree) (path : String) : Except ReadError (List UInt8) :=
  match tree.resolve path with
  | .error error => .error (.unreachable error)
  | .ok number =>
    match tree.nodes[number]? with
    | some (.regular bytes mode _) => if mode &&& ownerReads = 0 then .error .permissionDenied else .ok bytes
    | some (.directory ..) => .error .isDirectory
    | some .socket => .error .noDevice
    | _ => .error (.unreachable .notFound)

def host {m : Type → Type} [Monad m] (tree : Tree) : Host m where
  stat path := return tree.stat path
  read path := return tree.read path
  clock := return 0

end Tree
end Canon.Disk
