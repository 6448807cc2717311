import Canon.Disk.Tree

/-!
Making a file tree, entry by entry. Every tree is a host on which a survey can be run; the trees that are looked at
in practice are made here. What cannot be made is left out.
-/
namespace Canon.Disk

inductive Entry where
  | regular (bytes : List UInt8) (mode : UInt32) (modified : Int)
  | directory
  | link (target : String)
  | alias (existing : String)
  | socket

namespace Tree

/-- Gives a node a name in a directory, in place of what had the name. -/
def name (tree : Tree) (directory : Nat) (name : String) (number : Nat) : Tree :=
  ⟨tree.nodes.modify directory fun node =>
    match node with
    | .directory parent entries => .directory parent ((name, number) :: entries.filter (·.1 != name))
    | other => other⟩

def add (tree : Tree) (directory : Nat) (name : String) (node : Node) : Nat × Tree :=
  let number := tree.nodes.size
  (number, Tree.name ⟨tree.nodes.push node⟩ directory name number)

def ensure (tree : Tree) (directory : Nat) : List String → Option (Nat × Tree)
  | [] => some (directory, tree)
  | component :: rest =>
    match tree.walk true linkLimit directory [component] with
    | .ok (.node next) => tree.ensure next rest
    | .ok (.vacant place vacancy) =>
      let (next, tree) := tree.add place vacancy (.directory place [])
      tree.ensure next rest
    | .error _ => none

/-- Writes a regular file. One that exists keeps its identity, a link is followed, and a socket gives way. -/
def write (tree : Tree) (directory : Nat) (leaf : String) (file : Node) : Tree :=
  match tree.walk true linkLimit directory [leaf] with
  | .ok (.vacant place vacancy) => (tree.add place vacancy file).2
  | .ok (.node number) =>
    match tree.nodes[number]? with
    | some (.regular ..) => ⟨tree.nodes.setIfInBounds number file⟩
    | some .socket => (tree.add directory leaf file).2
    | _ => tree
  | .error _ => tree

def addVacant (tree : Tree) (directory : Nat) (leaf : String) (node : Node) : Tree :=
  match tree.walk false linkLimit directory [leaf] with
  | .ok (.vacant place vacancy) => (tree.add place vacancy node).2
  | _ => tree

def place (tree : Tree) (directory : Nat) (leaf : String) : Entry → Tree
  | .regular bytes mode modified => tree.write directory leaf (.regular bytes mode modified)
  | .directory => ((tree.ensure directory [leaf]).map (·.2)).getD tree
  | .link target => tree.addVacant directory leaf (.link target)
  | .socket => tree.addVacant directory leaf .socket
  | .alias existing =>
    match tree.find false existing, tree.walk false linkLimit directory [leaf] with
    | .ok (.node number), .ok (.vacant place vacancy) => tree.name place vacancy number
    | _, _ => tree

def create (tree : Tree) (path : String) (entry : Entry) : Tree :=
  let names := components path
  match tree.ensure (origin path current) names.dropLast, names.getLast? with
  | some (directory, tree), some leaf => tree.place directory leaf entry
  | _, _ => tree

end Tree
end Canon.Disk
