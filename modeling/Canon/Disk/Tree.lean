import Canon.File.Stat

/-!
A file tree held in memory. Nodes are numbered in the order of their creation. Node zero is the root; the current
directory lies two levels below it, and no names lead there.
-/
namespace Canon.Disk
open Canon.File

inductive Node where
  | directory (parent : Nat) (entries : List (String × Nat))
  | regular (bytes : List UInt8) (mode : UInt32) (modified : Int)
  | link (target : String)
  /-- Something that can be looked at but not opened. -/
  | socket

structure Tree where
  nodes : Array Node

namespace Tree

def root : Nat := 0

def current : Nat := 2

def empty : Tree := ⟨#[.directory root [], .directory root [], .directory 1 []]⟩

instance : EmptyCollection Tree := ⟨empty⟩
instance : Inhabited Tree := ⟨empty⟩

/-- The parts of a path between its slashes, the empty ones included. -/
def components (path : String) : List String := path.splitOn "/"

def origin (path : String) (directory : Nat) : Nat := if path.startsWith "/" then root else directory

def linkLimit : Nat := 40

def nameLimit : Nat := 255

def pathLimit : Nat := 4095

/-- Where a path leads: to a node, or to a name that a directory does not have yet. -/
inductive Landing where
  | node (number : Nat)
  | vacant (directory : Nat) (name : String)

/-- Follows components from a node. Every component needs a directory to be looked up in, the empty one and the
dots too, and two dots lead to the parent of the directory reached by following links. The last component is
followed only if it is asked for. -/
def walk (tree : Tree) (followLast : Bool) (links node : Nat) (path : List String) : Except StatError Landing :=
  match path with
  | [] => .ok (.node node)
  | name :: rest =>
    match tree.nodes[node]? with
    | some (.directory parent entries) =>
      if name = "" ∨ name = "." then tree.walk followLast links node rest
      else if name = ".." then tree.walk followLast links parent rest
      else if nameLimit < name.utf8ByteSize then .error .nameTooLong
      else match entries.lookup name with
        | none => if rest.isEmpty then .ok (.vacant node name) else .error .notFound
        | some next =>
          match tree.nodes[next]? with
          | some (.link target) =>
            if rest.isEmpty && !followLast then .ok (.node next)
            else match links with
              | 0 => .error .loop
              | links + 1 => tree.walk followLast links (origin target node) (components target ++ rest)
          | _ => tree.walk followLast links next rest
    | _ => .error .notADirectory
termination_by (links, path.length)

def find (tree : Tree) (followLast : Bool) (path : String) : Except StatError Landing :=
  if path.contains '\x00' then .error .invalidInput
  else if path.isEmpty then .error .notFound
  else if pathLimit < path.utf8ByteSize then .error .nameTooLong
  else tree.walk followLast linkLimit (origin path current) (components path)

def resolve (tree : Tree) (path : String) : Except StatError Nat := do
  match ← tree.find true path with
  | .node number => return number
  | .vacant .. => throw .notFound

def kindBits : Node → UInt32
  | .directory .. => 0o040000
  | .regular .. => 0o100000
  | .link _ => 0o120000
  | .socket => 0o140000

def describe (number : Nat) (node : Node) : Stat :=
  let identity := ⟨1, UInt64.ofNat (number + 1)⟩
  match node with
  | .regular bytes mode modified =>
    ⟨false, identity, UInt64.ofNat bytes.length, modified, kindBits node ||| mode⟩
  | .directory .. => ⟨true, identity, 0, 0, kindBits node ||| 0o755⟩
  | _ => ⟨false, identity, 0, 0, kindBits node ||| 0o777⟩

def stat (tree : Tree) (path : String) : Except StatError Stat := do
  let number ← tree.resolve path
  match tree.nodes[number]? with
  | some node => return describe number node
  | none => throw .notFound

end Tree
end Canon.Disk
