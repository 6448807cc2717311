/-!
The bytes of all spellings, laid end to end in buffers that never move. A full buffer is retired and a larger
one takes its place, so a slice stays valid for good. What an allocator grants for a request is a parameter:
it may be more than was asked.
-/
namespace Canon

/-- A growable byte buffer. `moves` counts how often growth has moved it. -/
structure Buffer where
  capacity : Nat
  bytes : ByteArray
  moves : Nat

/-- A part of one buffer. Retired buffers come first, in the order of their retirement. -/
structure Slice where
  buffer : Nat
  offset : Nat
  length : Nat
  deriving DecidableEq, Repr

namespace Buffer

def withCapacity (capacity : Nat) : Buffer := ⟨capacity, .empty, 0⟩

def fits (buffer : Buffer) (length : Nat) : Bool := decide (buffer.bytes.size + length ≤ buffer.capacity)

/-- Appends bytes. A buffer that cannot hold them moves to a place that can. -/
def append (buffer : Buffer) (bytes : ByteArray) : Buffer :=
  if buffer.fits bytes.size then
    match buffer with
    | ⟨capacity, written, moves⟩ => ⟨capacity, written ++ bytes, moves⟩
  else
    match buffer with
    | ⟨_, written, moves⟩ => ⟨written.size + bytes.size, written ++ bytes, moves + 1⟩

end Buffer

structure Storage where
  retired : Array Buffer
  current : Buffer
  slices : Array Slice

namespace Storage

def withCapacity (grant : Nat → Nat) (capacity : Nat) : Storage :=
  ⟨#[], .withCapacity (grant capacity), #[]⟩

def powerFrom (number : Nat) : Nat := if number ≤ 1 then 1 else Nat.pow 2 ((number - 1).log2 + 1)

/-- The capacity asked for when a buffer of the first capacity has no room for a text of the second size. -/
def successorCapacity (capacity size : Nat) : Nat := powerFrom (max capacity size + 1)

def makeRoom (grant : Nat → Nat) (storage : Storage) (size : Nat) : Storage :=
  if storage.current.fits size then storage
  else match storage with
    | ⟨retired, current, slices⟩ =>
      ⟨retired.push current, .withCapacity (grant (successorCapacity current.capacity size)), slices⟩

def write (storage : Storage) (bytes : ByteArray) : Storage :=
  match storage with
  | ⟨retired, current, slices⟩ =>
    let slice := ⟨retired.size, current.bytes.size, bytes.size⟩
    ⟨retired, current.append bytes, slices.push slice⟩

def store (grant : Nat → Nat) (storage : Storage) (text : String) : Storage :=
  let bytes := text.toUTF8
  (storage.makeRoom grant bytes.size).write bytes

def buffers (storage : Storage) : List Buffer := storage.retired.toList ++ [storage.current]

def read? (storage : Storage) (slice : Slice) : Option ByteArray :=
  storage.buffers[slice.buffer]?.bind fun buffer =>
    if slice.offset + slice.length ≤ buffer.bytes.size then
      some (buffer.bytes.extract slice.offset (slice.offset + slice.length))
    else none

def size (storage : Storage) : Nat := (storage.buffers.map (·.bytes.size)).foldr (· + ·) 0

end Storage
end Canon
