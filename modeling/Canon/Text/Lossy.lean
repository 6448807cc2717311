/-!
Text from bytes that may not be well-formed UTF-8. Each maximal ill-formed sequence becomes one replacement
character: the sequence ends in front of the first byte that cannot continue any well-formed character.
-/
namespace Canon.Text

def replacement : Char := '\uFFFD'

inductive Progress where
  | between
  /-- The bits read so far, how many bytes are missing, and the range of the next one. -/
  | inside (bits missing low high : Nat)
  deriving DecidableEq, Repr

namespace Progress

/-- Begins a character: one that is a byte long is complete, and some bytes begin none. -/
def opening (byte : Nat) : List Char × Progress :=
  if byte < 0x80 then ([Char.ofNat byte], .between)
  else if 0xC2 ≤ byte ∧ byte ≤ 0xDF then ([], .inside (byte - 0xC0) 1 0x80 0xBF)
  else if byte = 0xE0 then ([], .inside 0 2 0xA0 0xBF)
  else if byte = 0xED then ([], .inside 0xD 2 0x80 0x9F)
  else if 0xE1 ≤ byte ∧ byte ≤ 0xEF then ([], .inside (byte - 0xE0) 2 0x80 0xBF)
  else if byte = 0xF0 then ([], .inside 0 3 0x90 0xBF)
  else if byte = 0xF4 then ([], .inside 4 3 0x80 0x8F)
  else if 0xF1 ≤ byte ∧ byte ≤ 0xF3 then ([], .inside (byte - 0xF0) 3 0x80 0xBF)
  else ([replacement], .between)

/-- Reads a byte. One that cannot continue a character cuts it off and begins another. -/
def read (progress : Progress) (byte : Nat) : List Char × Progress :=
  match progress with
  | .between => opening byte
  | .inside bits missing low high =>
    if low ≤ byte ∧ byte ≤ high then
      let bits := bits * 64 + (byte - 0x80)
      if missing ≤ 1 then ([Char.ofNat bits], .between) else ([], .inside bits (missing - 1) 0x80 0xBF)
    else
      let (chars, progress) := opening byte
      (replacement :: chars, progress)

def pending : Progress → List Char
  | .between => []
  | .inside .. => [replacement]

end Progress

structure Decoding where
  text : Array Char
  progress : Progress

namespace Decoding

def start : Decoding := ⟨#[], .between⟩

def step (decoding : Decoding) (byte : UInt8) : Decoding :=
  match decoding with
  | ⟨text, progress⟩ =>
    let (chars, progress) := progress.read byte.toNat
    ⟨text.appendList chars, progress⟩

def finish (decoding : Decoding) : List Char := decoding.text.toList ++ decoding.progress.pending

end Decoding

def decodeLossy (bytes : List UInt8) : List Char := (bytes.foldl Decoding.step .start).finish

end Canon.Text
