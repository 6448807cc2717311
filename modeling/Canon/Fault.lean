/-!
Broken preconditions. A `Fault` says which one was broken and `Fault.message` words it; `Checks` says
whether the cheap ones are looked for at all.
-/
namespace Canon

inductive Checks where
  | enabled
  | disabled
  deriving DecidableEq, Repr

/-- A broken precondition. Work stops at the first one. -/
inductive Fault where
  /-- A handle or symbol was used with a store that never issued it. -/
  | outOfBounds (size index : Nat)
  /-- A dense index has no handle, because the greatest 32-bit number is reserved. -/
  | indexTooLarge
  | reservedNumber
  /-- The number after an index does not fit into a machine word. -/
  | symbolOverflow
  | alreadyBound (spelling : String)
  | builtinTooLarge (id : Nat)
  /-- More room was asked for in one piece than any piece of memory has. -/
  | capacityOverflow
  /-- Sources consulted other sources more levels deep than the caller allowed. -/
  | consultationTooDeep
  deriving DecidableEq, Repr

def Fault.message : Fault → String
  | .outOfBounds size index => s!"index out of bounds: the len is {size} but the index is {index}"
  | .indexTooLarge => "assertion failed: index < (u32::MAX as usize)"
  | .reservedNumber => "assertion failed: x < u32::MAX"
  | .symbolOverflow => "attempt to add with overflow"
  | .alreadyBound spelling => s!"IdentifierInfo for `{spelling}` already exists"
  | .builtinTooLarge id => s!"builtin id {id} out of range"
  | .capacityOverflow => "capacity overflow"
  | .consultationTooDeep => "sources consulted one another too deeply"

end Canon
