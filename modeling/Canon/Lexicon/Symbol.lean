import Canon.Handle

/-!
A symbol names one spelling of a lexicon. It is stored as a 32-bit number other than zero, which is one more than its
index; where there is no such number, the greatest one is stored.
-/
namespace Canon

abbrev NonZero := { number : UInt32 // number ≠ 0 }

namespace NonZero

def ofNumber? (number : UInt32) : Option NonZero := if nonzero : number ≠ 0 then some ⟨number, nonzero⟩ else none

def greatest : NonZero := ⟨4294967295, by decide⟩

end NonZero

structure Symbol where
  number : NonZero
  deriving DecidableEq, Hashable, Repr

namespace Symbol

def narrow? (number : Nat) : Option UInt32 := if number < UInt32.size then some (UInt32.ofNat number) else none

/-- The symbol in which a number is stored, unless the number is zero or too great. -/
def ofNumber (number : Nat) : Symbol := ⟨(NonZero.ofNumber? ((narrow? number).getD 4294967295)).getD .greatest⟩

def atIndex (index : Nat) : Symbol := ofNumber (index + 1)

def index (symbol : Symbol) : Fin 4294967295 :=
  ⟨symbol.number.val.toNat - 1, by
    have bound := symbol.number.val.toNat_lt
    omega⟩

/-- The index is that of a machine word, to which one is added. That must not overflow, which only checks enforce:
without them the greatest word has the successor zero. -/
def ofWord (checks : Checks) (index : Nat) : Except Fault Symbol :=
  let successor := UInt64.ofNat index + 1
  if checks = .enabled ∧ successor = 0 then .error .symbolOverflow else .ok (ofNumber successor.toNat)

def compare (left right : Symbol) : Ordering := Ord.compare left.number.val right.number.val

def render (symbol : Symbol) : String := s!"Symbol({symbol.number.val})"

instance : Inhabited Symbol := ⟨atIndex 0⟩

section Encoding

theorem toNat_ne_zero (number : NonZero) : number.val.toNat ≠ 0 := by
  intro zero
  exact number.property (UInt32.toNat_inj.mp zero)

theorem index_val (symbol : Symbol) : symbol.index.val = symbol.number.val.toNat - 1 := rfl

theorem toNat_number (symbol : Symbol) : symbol.number.val.toNat = symbol.index.val + 1 := by
  have positive := toNat_ne_zero symbol.number
  rw [index_val]
  omega

theorem ext_index {left right : Symbol} (same : left.index.val = right.index.val) : left = right := by
  have numbers : left.number.val.toNat = right.number.val.toNat := by rw [toNat_number, toNat_number, same]
  cases left
  cases right
  exact congrArg Symbol.mk (Subtype.ext (UInt32.toNat_inj.mp numbers))

/-- Only zero and numbers of more than 32 bits are not stored as they are. -/
theorem toNat_ofNumber (number : Nat) : (ofNumber number).number.val.toNat =
    if 0 < number ∧ number < UInt32.size then number else 4294967295 := by
  by_cases small : number < UInt32.size
  · have same : (UInt32.ofNat number).toNat = number := UInt32.toNat_ofNat_of_lt small
    by_cases zero : UInt32.ofNat number = 0
    · have gone : number = 0 := by
        rw [← same, zero]
        rfl
      simp [ofNumber, narrow?, NonZero.ofNumber?, gone, NonZero.greatest]
    · have positive : 0 < number := by
        apply Nat.pos_of_ne_zero
        rintro rfl
        exact zero rfl
      simp [ofNumber, narrow?, NonZero.ofNumber?, small, zero, positive, same]
  · simp [ofNumber, narrow?, NonZero.ofNumber?, small]

/-- Indices that are too great to have a symbol of their own share the last one. -/
@[simp] theorem index_atIndex (index : Nat) : (atIndex index).index.val = min index 4294967294 := by
  rw [index_val, atIndex, toNat_ofNumber]
  simp only [UInt32.size]
  split <;> omega

theorem ofWord_of_lt (checks : Checks) {index : Nat} (below : index + 1 < UInt64.size) :
    ofWord checks index = .ok (atIndex index) := by
  have successor : (UInt64.ofNat index + 1).toNat = index + 1 := by
    rw [UInt64.toNat_add, UInt64.toNat_ofNat]
    simp only [UInt64.size] at below
    show (index % 18446744073709551616 + 1) % 18446744073709551616 = index + 1
    omega
  have positive : UInt64.ofNat index + 1 ≠ 0 := by
    intro zero
    rw [zero] at successor
    cases successor
  have fits : ¬(checks = .enabled ∧ UInt64.ofNat index + 1 = 0) := fun overflow => positive overflow.2
  calc ofWord checks index
      = .ok (ofNumber (UInt64.ofNat index + 1).toNat) := if_neg fits
    _ = .ok (atIndex index) := by rw [successor, atIndex]

end Encoding

instance : Indexed Symbol where
  index symbol := symbol.index.val
  atIndex := atIndex
  atIndex_index symbol := by
    apply ext_index
    have bound := symbol.index.isLt
    rw [index_atIndex]
    omega

end Symbol
end Canon
