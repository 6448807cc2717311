import Canon.Lexicon.Symbol
import Canon.Token.Kind

/-!
What is known about an identifier. A record packs its fields into one word: eight bits for the token, ten for
the builtin number and one for each mark; the last bit says whether any mark is set.
-/
namespace Canon.Identifier

inductive Mark where
  | defined
  /-- The keyword is available only as an extension. -/
  | extension
  | poisoned
  deriving DecidableEq, Repr

def Mark.mask : Mark → BitVec 32
  | .defined => 0x40000
  | .extension => 0x80000
  | .poisoned => 0x100000

structure Record where
  bits : BitVec 32
  /-- Data of a later phase, which is kept and never looked at. -/
  frontEnd : Option FrontEndId
  entry : Symbol
  deriving DecidableEq

namespace Record

def tokenMask : BitVec 32 := 0xFF

def builtinMask : BitVec 32 := 0x3FF00

def attentionMask : BitVec 32 := 0x200000

def builtinLimit : Nat := 1024

def fresh (entry : Symbol) : Record := ⟨BitVec.ofNat 32 Token.identifier.number, none, entry⟩

/-- The token that the identifier is read as. A number that no token has counts as a plain identifier. -/
def token (record : Record) : Token :=
  (Token.ofNumber? (record.bits &&& tokenMask).toNat).getD .identifier

def setToken (token : Token) (record : Record) : Record :=
  { record with bits := (record.bits &&& ~~~tokenMask) ||| BitVec.ofNat 32 token.number }

/-- Zero for no builtin, one for a builtin of another target, and more for the builtins themselves. -/
def builtin (record : Record) : Nat := ((record.bits &&& builtinMask) >>> 8).toNat

/-- Only the low bits of a builtin number are stored; checks refuse a number that has others. -/
def setBuiltin (checks : Checks) (id : UInt32) (record : Record) : Except Fault Record :=
  if checks = .enabled ∧ builtinLimit ≤ id.toNat then .error (.builtinTooLarge id.toNat)
  else .ok { record with bits := (record.bits &&& ~~~builtinMask) ||| ((id.toBitVec <<< 8) &&& builtinMask) }

def flag (record : Record) (mask : BitVec 32) : Bool := record.bits &&& mask != 0

def has (record : Record) (mark : Mark) : Bool := record.flag mark.mask

def needsAttention (record : Record) : Bool := record.flag attentionMask

def setFlag (mask : BitVec 32) (value : Bool) (record : Record) : Record :=
  { record with bits := if value then record.bits ||| mask else record.bits &&& ~~~mask }

def refreshAttention (record : Record) : Record :=
  record.setFlag attentionMask (record.has .poisoned || record.has .defined || record.has .extension)

/-- Notes or withdraws a mark. What is so already stays as it is. -/
def setMark (mark : Mark) (value : Bool) (record : Record) : Record :=
  if record.has mark = value then record else (record.setFlag mark.mask value).refreshAttention

def setFrontEnd (data : Option FrontEndId) (record : Record) : Record := { record with frontEnd := data }

def classify (keyword : Keyword) (extension : Bool) (record : Record) : Record :=
  (record.setToken (.keyword keyword)).setMark .extension extension

def render (record : Record) : String :=
  let data := match record.frontEnd with
    | some handle => "Some(" ++ handle.render ++ ")"
    | none => "None"
  "IdentifierInfo \x7b entry: " ++ record.entry.render ++ ", token_id: " ++ record.token.name ++
    ", builtin_id: " ++ toString record.builtin ++ ", has_macro: " ++ toString (record.has .defined) ++
    ", is_extension: " ++ toString (record.has .extension) ++ ", is_poisoned: " ++
    toString (record.has .poisoned) ++ ", needs_handle_identifier: " ++ toString record.needsAttention ++
    ", fe_token_info: " ++ data ++ " \x7d"

end Record

inductive Setter where
  | token (token : Token)
  | builtin (id : UInt32)
  | mark (mark : Mark) (value : Bool)
  | frontEnd (data : Option FrontEndId)
  deriving DecidableEq

def Setter.apply (checks : Checks) (setter : Setter) (record : Record) : Except Fault Record :=
  match setter with
  | .token kind => .ok (record.setToken kind)
  | .builtin id => record.setBuiltin checks id
  | .mark noted value => .ok (record.setMark noted value)
  | .frontEnd data => .ok (record.setFrontEnd data)

end Canon.Identifier
