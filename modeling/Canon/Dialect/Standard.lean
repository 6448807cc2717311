/-!
The named standards of C, under the names by which they are asked for.
-/
namespace Canon

inductive Standard where
  | c89
  | c94
  | gnu89
  | c99
  | gnu99
  deriving DecidableEq, Repr

structure UnknownStandard where
  name : String
  deriving DecidableEq, Repr

def UnknownStandard.message (unknown : UnknownStandard) : String :=
  s!"unknown language standard `{unknown.name}` (expected one of: c89, c94, gnu89, c99, gnu99)"

namespace Standard

def preferred : Standard := .gnu99

def name : Standard → String
  | .c89 => "C89"
  | .c94 => "C94"
  | .gnu89 => "Gnu89"
  | .c99 => "C99"
  | .gnu99 => "Gnu99"

def render : Standard → String
  | .c89 => "c89"
  | .c94 => "c94"
  | .gnu89 => "gnu89"
  | .c99 => "c99"
  | .gnu99 => "gnu99"

/-- Reads a name. A standard answers to its own name, and some also to another year or to the number of the
document that defines them. -/
def ofString (name : String) : Except UnknownStandard Standard :=
  match name with
  | "c89" | "c90" | "iso9899:1990" => .ok .c89
  | "c94" | "iso9899:199409" => .ok .c94
  | "gnu89" | "gnu90" => .ok .gnu89
  | "c99" | "iso9899:1999" => .ok .c99
  | "gnu99" => .ok .gnu99
  | _ => .error ⟨name⟩

theorem ofString_render (standard : Standard) : ofString standard.render = .ok standard := by
  cases standard <;> rfl

end Standard
end Canon
