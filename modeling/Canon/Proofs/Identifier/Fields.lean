import Canon.Proofs.Identifier.Steps

/-!
The packed fields of a record. Every setter replaces the bits of one mask and leaves the others, and every field is
read off the bits of one mask, so a field tells what was written to it last, whatever was written to the others.
-/
namespace Canon.Identifier

def overwrite (mask value bits : BitVec 32) : BitVec 32 := (bits &&& ~~~mask) ||| (value &&& mask)

theorem overwrite_and_self (mask value bits : BitVec 32) : overwrite mask value bits &&& mask = value &&& mask := by
  ext i
  simp only [overwrite, BitVec.getElem_and, BitVec.getElem_or, BitVec.getElem_not]
  cases bits[i] <;> cases value[i] <;> cases mask[i] <;> rfl

theorem overwrite_and_other {mask other : BitVec 32} (apart : mask &&& other = 0) (value bits : BitVec 32) :
    overwrite mask value bits &&& other = bits &&& other := by
  ext i inside
  have single : (mask[i] && other[i]) = false := by
    rw [← BitVec.getElem_and, apart]
    exact BitVec.getElem_zero inside
  simp only [overwrite, BitVec.getElem_and, BitVec.getElem_or, BitVec.getElem_not]
  revert single
  cases bits[i] <;> cases value[i] <;> cases mask[i] <;> cases other[i] <;> decide

namespace Record

theorem number_and_tokenMask (token : Token) :
    BitVec.ofNat 32 token.number &&& tokenMask = BitVec.ofNat 32 token.number := by
  have small := token.number_lt
  apply BitVec.eq_of_toNat_eq
  rw [BitVec.toNat_and, BitVec.toNat_ofNat, Nat.mod_eq_of_lt (by omega)]
  change token.number &&& 2 ^ 8 - 1 = token.number
  rw [Nat.and_two_pow_sub_one_eq_mod]
  exact Nat.mod_eq_of_lt small

theorem setToken_bits (token : Token) (record : Record) :
    (record.setToken token).bits = overwrite tokenMask (BitVec.ofNat 32 token.number) record.bits := by
  rw [overwrite, number_and_tokenMask]
  rfl

theorem setBuiltin_bits {checks : Checks} {id : UInt32} {record changed : Record}
    (set : record.setBuiltin checks id = .ok changed) :
    changed.bits = overwrite builtinMask (id.toBitVec <<< 8) record.bits := by
  unfold setBuiltin at set
  split at set
  · cases set
  · exact Except.ok.inj set ▸ rfl

theorem setFlag_bits (mask : BitVec 32) (value : Bool) (record : Record) :
    (record.setFlag mask value).bits = overwrite mask (if value then mask else 0) record.bits := by
  unfold setFlag overwrite
  cases value with
  | false => simp
  | true =>
    ext i
    simp only [if_true, BitVec.getElem_and, BitVec.getElem_or, BitVec.getElem_not]
    cases record.bits[i] <;> cases mask[i] <;> rfl

def Agree (mask : BitVec 32) (left right : Record) : Prop := left.bits &&& mask = right.bits &&& mask

theorem Agree.trans {mask : BitVec 32} {first second third : Record} (early : Agree mask first second)
    (late : Agree mask second third) : Agree mask first third :=
  Eq.trans early late

section
variable {left right record : Record}

theorem Agree.token (agree : Agree tokenMask left right) : left.token = right.token := by
  unfold Record.token
  rw [agree]

theorem Agree.builtin (agree : Agree builtinMask left right) : left.builtin = right.builtin := by
  unfold Record.builtin
  rw [agree]

theorem Agree.has {mark : Mark} (agree : Agree mark.mask left right) : left.has mark = right.has mark := by
  unfold Record.has flag
  rw [agree]

theorem agree_setToken {mask : BitVec 32} (apart : tokenMask &&& mask = 0) (token : Token) :
    Agree mask (record.setToken token) record := by
  unfold Agree
  rw [setToken_bits, overwrite_and_other apart]

theorem agree_setBuiltin {mask : BitVec 32} (apart : builtinMask &&& mask = 0) {checks : Checks} {id : UInt32}
    (set : left.setBuiltin checks id = .ok right) : Agree mask right left := by
  unfold Agree
  rw [setBuiltin_bits set, overwrite_and_other apart]

theorem agree_setFlag {flagMask mask : BitVec 32} (apart : flagMask &&& mask = 0) (value : Bool) :
    Agree mask (record.setFlag flagMask value) record := by
  unfold Agree
  rw [setFlag_bits, overwrite_and_other apart]

theorem agree_setMark {mark : Mark} {mask : BitVec 32} (apart : mark.mask &&& mask = 0)
    (unattended : attentionMask &&& mask = 0) (value : Bool) : Agree mask (record.setMark mark value) record := by
  unfold setMark
  split
  · rfl
  · exact (agree_setFlag unattended _).trans (agree_setFlag apart value)

end

variable (record : Record)

@[simp] theorem token_setToken (token : Token) : (record.setToken token).token = token := by
  have read : ((record.setToken token).bits &&& tokenMask).toNat = token.number := by
    have small := token.number_lt
    rw [setToken_bits, overwrite_and_self, number_and_tokenMask, BitVec.toNat_ofNat]
    exact Nat.mod_eq_of_lt (by omega)
  unfold Record.token
  rw [read, Token.ofNumber?_number]
  rfl

@[simp] theorem builtin_setToken (token : Token) : (record.setToken token).builtin = record.builtin :=
  (agree_setToken (by decide) token).builtin

@[simp] theorem has_setToken (mark : Mark) (token : Token) : (record.setToken token).has mark = record.has mark :=
  (agree_setToken (by cases mark <;> decide) token).has

theorem token_setBuiltin {checks : Checks} {id : UInt32} {changed : Record}
    (set : record.setBuiltin checks id = .ok changed) : changed.token = record.token :=
  (agree_setBuiltin (by decide) set).token

theorem has_setBuiltin {checks : Checks} {id : UInt32} {changed : Record}
    (set : record.setBuiltin checks id = .ok changed) (mark : Mark) : changed.has mark = record.has mark :=
  (agree_setBuiltin (by cases mark <;> decide) set).has

theorem has_setFlag (mark : Mark) (value : Bool) : (record.setFlag mark.mask value).has mark = value := by
  unfold has flag
  rw [setFlag_bits, overwrite_and_self]
  cases mark <;> cases value <;> decide

@[simp] theorem token_setMark (mark : Mark) (value : Bool) : (record.setMark mark value).token = record.token :=
  (agree_setMark (by cases mark <;> decide) (by decide) value).token

@[simp] theorem builtin_setMark (mark : Mark) (value : Bool) : (record.setMark mark value).builtin = record.builtin :=
  (agree_setMark (by cases mark <;> decide) (by decide) value).builtin

@[simp] theorem has_setMark_self (mark : Mark) (value : Bool) : (record.setMark mark value).has mark = value := by
  by_cases same : record.has mark = value
  · rw [setMark, if_pos same, same]
  · rw [setMark, if_neg same]
    calc
      _ = (record.setFlag mark.mask value).has mark := (agree_setFlag (by cases mark <;> decide) _).has
      _ = value := record.has_setFlag mark value

theorem has_setMark_other {mark other : Mark} (different : mark ≠ other) (value : Bool) :
    (record.setMark mark value).has other = record.has other := by
  have apart : mark.mask &&& other.mask = 0 := by
    revert different
    cases mark <;> cases other <;> decide
  exact (agree_setMark apart (by cases other <;> decide) value).has

@[simp] theorem frontEnd_setMark (mark : Mark) (value : Bool) :
    (record.setMark mark value).frontEnd = record.frontEnd := by
  unfold setMark
  split <;> rfl

@[simp] theorem token_fresh (symbol : Symbol) : (fresh symbol).token = .identifier := by cbv

@[simp] theorem has_fresh (symbol : Symbol) (mark : Mark) : (fresh symbol).has mark = false := by
  cases mark <;> cbv

end Record
end Canon.Identifier
