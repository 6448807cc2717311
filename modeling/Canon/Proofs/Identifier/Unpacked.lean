import Mathlib.Data.List.Induction
import Canon.Proofs.Identifier.Fields

/-!
Records unpacked. What a packed record tells is what a record tells whose fields lie side by side: each field has the
value that was written to it last, whatever was written to the others and in whatever order. Nothing else is in the
packed word, so records that tell the same are the same.
-/
namespace Canon.Identifier

@[ext] structure Fields where
  token : Token
  builtin : Nat
  mark : Mark → Bool
  frontEnd : Option FrontEndId

def Record.fields (record : Record) : Fields := ⟨record.token, record.builtin, record.has, record.frontEnd⟩

def Fields.marked (fields : Fields) : Bool := fields.mark .poisoned || fields.mark .defined || fields.mark .extension

namespace Setter

/-- Writes to one of the fields. Of a builtin number only the low bits are kept. -/
def write (setter : Setter) (fields : Fields) : Fields :=
  match setter with
  | .token kind => { fields with token := kind }
  | .builtin id => { fields with builtin := id.toNat % Record.builtinLimit }
  | .mark noted value => { fields with mark := fun mark => if mark = noted then value else fields.mark mark }
  | .frontEnd data => { fields with frontEnd := data }

def accepted (checks : Checks) : Setter → Bool
  | .builtin id => checks = .disabled ∨ id.toNat < Record.builtinLimit
  | _ => true

def token? : Setter → Option Token
  | .token kind => some kind
  | _ => none

def builtin? : Setter → Option Nat
  | .builtin id => some (id.toNat % Record.builtinLimit)
  | _ => none

def mark? (mark : Mark) : Setter → Option Bool
  | .mark noted value => if mark = noted then some value else none
  | _ => none

def frontEnd? : Setter → Option (Option FrontEndId)
  | .frontEnd data => some data
  | _ => none

end Setter

def lastWritten {α : Type} (field : Setter → Option α) (setters : List Setter) (before : α) : α :=
  (setters.filterMap field).getLast?.getD before

theorem lastWritten_concat {α : Type} (field : Setter → Option α) (setters : List Setter) (setter : Setter)
    (before : α) : lastWritten field (setters ++ [setter]) before =
      (field setter).getD (lastWritten field setters before) := by
  unfold lastWritten
  cases written : field setter with
  | none => simp [written]
  | some value => simp [written]

def Fields.written (setters : List Setter) : Fields where
  token := lastWritten Setter.token? setters .identifier
  builtin := lastWritten Setter.builtin? setters 0
  mark mark := lastWritten (Setter.mark? mark) setters false
  frontEnd := lastWritten Setter.frontEnd? setters none

theorem Fields.written_concat (setters : List Setter) (setter : Setter) :
    written (setters ++ [setter]) = setter.write (written setters) := by
  simp only [written, lastWritten_concat]
  cases setter with
  | token kind => rfl
  | builtin id => rfl
  | frontEnd data => rfl
  | mark noted value =>
    ext mark
    · rfl
    · rfl
    · show (if mark = noted then some value else none).getD _ = if mark = noted then value else _
      by_cases same : mark = noted
      · rw [if_pos same, if_pos same, Option.getD_some]
      · rw [if_neg same, if_neg same, Option.getD_none]
    · rfl

namespace Record

def attempt (checks : Checks) (record : Record) (setter : Setter) : Record :=
  match setter.apply checks record with
  | .ok changed => changed
  | .error _ => record

def attemptAll (checks : Checks) (record : Record) (setters : List Setter) : Record :=
  setters.foldl (attempt checks) record

section Words

theorem toNat_shiftRight_builtin (id : BitVec 32) :
    (((id <<< 8) &&& builtinMask) >>> 8).toNat = id.toNat % builtinLimit := by
  rw [BitVec.toNat_ushiftRight, BitVec.toNat_and, Nat.shiftRight_and_distrib]
  show ((id <<< 8).toNat >>> 8) &&& 2 ^ 10 - 1 = id.toNat % 1024
  rw [Nat.and_two_pow_sub_one_eq_mod, BitVec.toNat_shiftLeft, Nat.shiftLeft_eq, Nat.shiftRight_eq_div_pow]
  omega

theorem agree_builtinMask {left right : Record} (same : left.builtin = right.builtin) :
    Agree builtinMask left right := by
  have restore (bits : BitVec 32) : (bits &&& builtinMask) >>> 8 <<< 8 = bits &&& builtinMask := by
    rw [BitVec.shiftLeft_ushiftRight, BitVec.and_assoc]
    rfl
  have shifted : (left.bits &&& builtinMask) >>> 8 = (right.bits &&& builtinMask) >>> 8 := BitVec.eq_of_toNat_eq same
  rw [Agree, ← restore left.bits, shifted, restore]

theorem and_twoPow_eq (bits : BitVec 32) (i : Nat) :
    bits &&& BitVec.twoPow 32 i = if bits &&& BitVec.twoPow 32 i != 0 then BitVec.twoPow 32 i else 0 := by
  rw [BitVec.and_twoPow]
  cases bits.getLsbD i with
  | true => simp
  | false => simp

theorem agree_of_flag {left right : Record} (i : Nat)
    (same : left.flag (BitVec.twoPow 32 i) = right.flag (BitVec.twoPow 32 i)) :
    Agree (BitVec.twoPow 32 i) left right := by
  rw [Agree, and_twoPow_eq left.bits, and_twoPow_eq right.bits]
  exact congrArg (fun set : Bool => if set then BitVec.twoPow 32 i else 0) same

theorem Agree.or {left right : Record} {mask other : BitVec 32} (one : Agree mask left right)
    (two : Agree other left right) : Agree (mask ||| other) left right := by
  unfold Agree at *
  rw [BitVec.and_or_distrib_left, BitVec.and_or_distrib_left, one, two]

end Words

/-- The bits of which nothing is made. -/
def spareMask : BitVec 32 := 0xFFC00000

/-- A record whose word holds its fields, the attention that its marks call for, and nothing else. -/
structure Packed (record : Record) : Prop where
  token : record.bits &&& tokenMask = BitVec.ofNat 32 record.token.number
  attention : record.needsAttention = record.fields.marked
  spare : record.bits &&& spareMask = 0

theorem Agree.needsAttention {left right : Record} (agree : Agree attentionMask left right) :
    left.needsAttention = right.needsAttention := by
  unfold Record.needsAttention flag
  rw [agree]

section
variable {checks : Checks} {id : UInt32} {record changed : Record}

theorem builtin_setBuiltin (set : record.setBuiltin checks id = .ok changed) :
    changed.builtin = id.toNat % builtinLimit := by
  unfold builtin
  rw [setBuiltin_bits set, overwrite_and_self]
  exact toNat_shiftRight_builtin id.toBitVec

theorem frontEnd_setBuiltin (set : record.setBuiltin checks id = .ok changed) :
    changed.frontEnd = record.frontEnd := by
  unfold setBuiltin at set
  split at set
  · cases set
  · exact Except.ok.inj set ▸ rfl

theorem marks_setToken (token : Token) (record : Record) : (record.setToken token).has = record.has := by
  funext mark
  exact has_setToken record mark token

theorem marks_setBuiltin (set : record.setBuiltin checks id = .ok changed) : changed.has = record.has := by
  funext mark
  exact has_setBuiltin record set mark

theorem marks_setMark (noted : Mark) (value : Bool) (record : Record) :
    (record.setMark noted value).has = fun mark => if mark = noted then value else record.has mark := by
  funext mark
  by_cases same : mark = noted
  · rw [if_pos same, same, has_setMark_self]
  · rw [if_neg same, has_setMark_other _ (Ne.symm same)]

/-- A setter that is not refused writes to its own field and leaves the others and the entry. -/
theorem fields_apply {setter : Setter} (applied : setter.apply checks record = .ok changed) :
    changed.fields = setter.write record.fields ∧ changed.entry = record.entry := by
  refine ⟨?_, Setter.apply_entry applied⟩
  cases setter with
  | token kind =>
    cases applied
    rw [fields, token_setToken, builtin_setToken, marks_setToken]
    rfl
  | builtin id =>
    rw [fields, token_setBuiltin record applied, builtin_setBuiltin applied, marks_setBuiltin applied,
      frontEnd_setBuiltin applied]
    rfl
  | mark noted value =>
    cases applied
    rw [fields, token_setMark, builtin_setMark, marks_setMark, frontEnd_setMark]
    rfl
  | frontEnd data =>
    cases applied
    rfl

end

namespace Packed
variable {record : Record}

theorem fresh (entry : Symbol) : (fresh entry).Packed := ⟨by cbv, by cbv, by cbv⟩

theorem keep {changed : Record} (packed : record.Packed)
    (token : changed.bits &&& tokenMask = BitVec.ofNat 32 changed.token.number)
    (attention : Agree attentionMask changed record) (marks : changed.has = record.has)
    (spare : Agree spareMask changed record) : changed.Packed where
  token := token
  attention := by
    rw [attention.needsAttention, packed.attention]
    unfold fields
    rw [marks]
    rfl
  spare := Eq.trans spare packed.spare

theorem setToken (packed : record.Packed) (token : Token) : (record.setToken token).Packed := by
  apply packed.keep
  · rw [token_setToken, setToken_bits, overwrite_and_self, number_and_tokenMask]
  · exact agree_setToken (by decide) token
  · exact marks_setToken token record
  · exact agree_setToken (by decide) token

theorem setBuiltin {checks : Checks} {id : UInt32} {changed : Record} (packed : record.Packed)
    (set : record.setBuiltin checks id = .ok changed) : changed.Packed := by
  apply packed.keep
  · rw [token_setBuiltin record set, ← packed.token]
    exact agree_setBuiltin (by decide) set
  · exact agree_setBuiltin (by decide) set
  · exact marks_setBuiltin set
  · exact agree_setBuiltin (by decide) set

theorem needsAttention_refreshAttention (record : Record) :
    record.refreshAttention.needsAttention = record.fields.marked := by
  have written (value : Bool) : (record.setFlag attentionMask value).needsAttention = value := by
    unfold needsAttention flag
    rw [setFlag_bits, overwrite_and_self]
    cases value <;> decide
  exact written _

theorem setMark (packed : record.Packed) (mark : Mark) (value : Bool) : (record.setMark mark value).Packed where
  token := by
    rw [token_setMark, ← packed.token]
    exact agree_setMark (by cases mark <;> decide) (by decide) value
  attention := by
    by_cases same : record.has mark = value
    · rw [Record.setMark, if_pos same]
      exact packed.attention
    -- The attention bit is written from the marks as they are after the change, and writing it changes none of them.
    · have refreshed : record.setMark mark value = (record.setFlag mark.mask value).refreshAttention := if_neg same
      have marks : (record.setMark mark value).has = (record.setFlag mark.mask value).has := by
        funext other
        rw [refreshed]
        exact (agree_setFlag (by cases other <;> decide) _).has
      rw [refreshed, needsAttention_refreshAttention, Fields.marked, fields, ← marks, ← refreshed]
      rfl
  spare := by
    have kept : Agree spareMask (record.setMark mark value) record :=
      agree_setMark (by cases mark <;> decide) (by decide) value
    exact Eq.trans kept packed.spare

theorem apply {checks : Checks} {setter : Setter} {changed : Record} (packed : record.Packed)
    (applied : setter.apply checks record = .ok changed) : changed.Packed := by
  cases setter with
  | token kind =>
    cases applied
    exact packed.setToken kind
  | builtin id => exact packed.setBuiltin applied
  | mark noted value =>
    cases applied
    exact packed.setMark noted value
  | frontEnd data =>
    cases applied
    exact ⟨packed.token, packed.attention, packed.spare⟩

/-- Packed records that tell the same have the same word: every bit belongs to something that is told. -/
theorem bits_eq {left right : Record} (packed : left.Packed) (packedToo : right.Packed)
    (same : left.fields = right.fields) : left.bits = right.bits := by
  have token : Agree tokenMask left right := by
    have tokens : left.token = right.token := congrArg Fields.token same
    rw [Agree, packed.token, packedToo.token, tokens]
  have builtin : Agree builtinMask left right := agree_builtinMask (congrArg Fields.builtin same)
  have mark (mark : Mark) : left.has mark = right.has mark := congrFun (congrArg Fields.mark same) mark
  have defined : Agree (BitVec.twoPow 32 18) left right := agree_of_flag 18 (mark .defined)
  have extension : Agree (BitVec.twoPow 32 19) left right := agree_of_flag 19 (mark .extension)
  have poisoned : Agree (BitVec.twoPow 32 20) left right := agree_of_flag 20 (mark .poisoned)
  have attention : Agree (BitVec.twoPow 32 21) left right := by
    refine agree_of_flag 21 ?_
    show left.needsAttention = right.needsAttention
    rw [packed.attention, packedToo.attention, same]
  have spare : Agree spareMask left right := packed.spare.trans packedToo.spare.symm
  -- Together the masks cover the word, which is seen by computing them.
  have whole : Agree (BitVec.allOnes 32) left right :=
    (((((token.or builtin).or defined).or extension).or poisoned).or attention).or spare
  rw [Agree, BitVec.and_allOnes, BitVec.and_allOnes] at whole
  exact whole

theorem eq_iff {left right : Record} (packed : left.Packed) (packedToo : right.Packed)
    (entry : left.entry = right.entry) : left = right ↔ left.fields = right.fields := by
  constructor
  · intro same
    rw [same]
  · intro same
    have bits := packed.bits_eq packedToo same
    have frontEnd : left.frontEnd = right.frontEnd := congrArg Fields.frontEnd same
    cases left
    cases right
    cases bits
    cases frontEnd
    cases entry
    rfl

end Packed
theorem attempt_cases (checks : Checks) (record : Record) (setter : Setter) :
    (setter.accepted checks = true ∧ setter.apply checks record = .ok (record.attempt checks setter)) ∨
    (setter.accepted checks = false ∧ record.attempt checks setter = record) := by
  unfold attempt
  cases setter with
  | token kind => exact .inl ⟨rfl, rfl⟩
  | mark noted value => exact .inl ⟨rfl, rfl⟩
  | frontEnd data => exact .inl ⟨rfl, rfl⟩
  | builtin id =>
    by_cases refused : checks = .enabled ∧ builtinLimit ≤ id.toNat
    · right
      have large : ¬(checks = .disabled ∨ id.toNat < builtinLimit) := by
        rw [refused.1]
        simpa using refused.2
      refine ⟨decide_eq_false large, ?_⟩
      rw [Setter.apply, Record.setBuiltin, if_pos refused]
    · left
      have small : checks = .disabled ∨ id.toNat < builtinLimit := by
        cases checks with
        | disabled => exact .inl rfl
        | enabled => exact .inr (Nat.lt_of_not_le fun large => refused ⟨rfl, large⟩)
      refine ⟨decide_eq_true small, ?_⟩
      rw [Setter.apply, Record.setBuiltin, if_neg refused]

structure Holds (record : Record) (entry : Symbol) (setters : List Setter) : Prop where
  fields : record.fields = .written setters
  entry : record.entry = entry
  packed : record.Packed

theorem holds_fresh (entry : Symbol) : (fresh entry).Holds entry [] where
  fields := by
    have builtin : (fresh entry).builtin = 0 := by cbv
    have marks : (fresh entry).has = fun _ => false := by
      funext mark
      exact has_fresh entry mark
    rw [Record.fields, token_fresh, builtin, marks]
    rfl
  entry := rfl
  packed := .fresh entry

theorem Holds.apply {checks : Checks} {record changed : Record} {entry : Symbol} {setters : List Setter}
    {setter : Setter} (holds : record.Holds entry setters) (applied : setter.apply checks record = .ok changed) :
    changed.Holds entry (setters ++ [setter]) := by
  obtain ⟨written, kept⟩ := fields_apply applied
  refine ⟨?_, kept.trans holds.entry, holds.packed.apply applied⟩
  rw [written, holds.fields, Fields.written_concat]

theorem holds_attemptAll (checks : Checks) (entry : Symbol) (setters : List Setter) :
    ((fresh entry).attemptAll checks setters).Holds entry (setters.filter (·.accepted checks)) := by
  induction setters using List.reverseRecOn with
  | nil => exact holds_fresh entry
  | append_singleton earlier setter ih =>
    have next : (fresh entry).attemptAll checks (earlier ++ [setter]) =
        ((fresh entry).attemptAll checks earlier).attempt checks setter := by
      rw [attemptAll, List.foldl_append]
      rfl
    rw [next, List.filter_append]
    rcases attempt_cases checks ((fresh entry).attemptAll checks earlier) setter with
      ⟨accepted, applied⟩ | ⟨refused, same⟩
    · rw [List.filter_cons_of_pos accepted]
      exact ih.apply applied
    · rw [same, List.filter_cons_of_neg (by simp [refused]), List.filter_nil, List.append_nil]
      exact ih

end Record

variable {S σ : Type}

/-- Changing the record of a handle. If the setter is refused, nothing happens at all. -/
theorem Work.update_on {checks : Checks} {id : IdentifierId} {session : Session S σ} {record : Record}
    (found : session.table.info id = .ok record) (setter : Setter) :
    (Work.update checks id setter).on session = match setter.apply checks record with
      | .ok changed => (.ok (), { session with table := session.table.modify id fun _ => changed })
      | .error fault => (.error fault, session) := by
  unfold update
  rw [on_bind, look_on]
  dsimp only
  rw [found]
  dsimp only
  cases setter.apply checks record with
  | ok changed => rfl
  | error fault => rfl

namespace Session

def updateAll (checks : Checks) (id : IdentifierId) (session : Session S σ) (setters : List Setter) : Session S σ :=
  setters.foldl (fun session setter => ((Work.update checks id setter).on session).2) session

theorem info_updateAll {checks : Checks} {id : IdentifierId} {session : Session S σ} {record : Record}
    (found : session.table.info id = .ok record) (setters : List Setter) :
    (session.updateAll checks id setters).table.info id = .ok (record.attemptAll checks setters) := by
  induction setters generalizing session record with
  | nil => exact found
  | cons setter setters ih =>
    refine ih ?_
    show ((Work.update checks id setter).on session).2.table.info id = .ok (record.attempt checks setter)
    rw [Work.update_on found, Record.attempt]
    cases setter.apply checks record with
    | error fault => exact found
    | ok changed =>
      have entered := Registry.get_eq_ok_iff.mp found
      refine Registry.get_eq_ok_iff.mpr ?_
      show (session.table.records.modify id fun _ => changed).get? id = some changed
      rw [Registry.get?_modify, if_pos rfl, entered, Option.map_some]

end Session

/-- What every getter of a record tells after some setters. -/
structure Record.Tells (record : Record) (setters : List Setter) : Prop where
  token : record.token = lastWritten Setter.token? setters .identifier
  builtin : record.builtin = lastWritten Setter.builtin? setters 0
  mark : ∀ mark, record.has mark = lastWritten (Setter.mark? mark) setters false
  frontEnd : record.frontEnd = lastWritten Setter.frontEnd? setters none
  needsAttention : record.needsAttention = (record.has .poisoned || record.has .defined || record.has .extension)
  /-- The number of the token is always that of a token. -/
  number : Token.ofNumber? (record.bits &&& Record.tokenMask).toNat = some record.token

theorem Record.Holds.tells {record : Record} {entry : Symbol} {setters : List Setter}
    (holds : record.Holds entry setters) : record.Tells setters where
  token := congrArg Fields.token holds.fields
  builtin := congrArg Fields.builtin holds.fields
  mark := congrFun (congrArg Fields.mark holds.fields)
  frontEnd := congrArg Fields.frontEnd holds.fields
  needsAttention := holds.packed.attention
  number := by
    have small := record.token.number_lt
    rw [holds.packed.token, BitVec.toNat_ofNat, Nat.mod_eq_of_lt (by omega)]
    exact Token.ofNumber?_number record.token

/-- Whatever setters are applied to a new record, each getter tells what was written last to its own field, and records
of one entry are the same if their fields are. Only a builtin number can be too large: checks refuse it and leave
everything as it was, and without them its low bits are kept. -/
theorem records_tell_what_was_written (checks : Checks) (entry : Symbol) (setters : List Setter) :
    let record := (Record.fresh entry).attemptAll checks setters
    record.Tells (setters.filter (·.accepted checks)) ∧ record.entry = entry ∧
    (∀ (setter : Setter) (changed : Record), setter.apply checks record = .ok changed →
      changed.fields = setter.write record.fields ∧ changed.entry = record.entry) ∧
    (∀ otherChecks others, let other := (Record.fresh entry).attemptAll otherChecks others
      (record = other ↔ record.fields = other.fields)) ∧
    (∀ id : UInt32, ∃ changed, record.setBuiltin .disabled id = .ok changed ∧
      changed.fields = { record.fields with builtin := id.toNat % 1024 } ∧ changed.entry = record.entry ∧
      changed.needsAttention = record.needsAttention) ∧
    ∀ (session : Session S σ) (handle : IdentifierId), session.table.info handle = .ok (.fresh entry) →
      let after := session.updateAll checks handle setters
      after.table.info handle = .ok record ∧
      ∀ id : UInt32, 1024 ≤ id.toNat →
        (Work.update .enabled handle (.builtin id)).on after = (.error (.builtinTooLarge id.toNat), after) := by
  intro record
  have holds : record.Holds entry _ := Record.holds_attemptAll checks entry setters
  refine ⟨holds.tells, holds.entry, fun setter changed => Record.fields_apply, ?_, ?_, ?_⟩
  · intro otherChecks others other
    have also : other.Holds entry _ := Record.holds_attemptAll otherChecks entry others
    exact holds.packed.eq_iff also.packed (holds.entry.trans also.entry.symm)
  · intro id
    have free : ¬(Checks.disabled = .enabled ∧ Record.builtinLimit ≤ id.toNat) := by simp
    obtain ⟨changed, set⟩ : ∃ changed, record.setBuiltin .disabled id = .ok changed := ⟨_, if_neg free⟩
    have applied : (Setter.builtin id).apply .disabled record = .ok changed := set
    obtain ⟨written, kept⟩ := Record.fields_apply applied
    exact ⟨changed, set, written, kept, (Record.agree_setBuiltin (by decide) set).needsAttention⟩
  · intro session handle found after
    have entered : after.table.info handle = .ok record := Session.info_updateAll found setters
    refine ⟨entered, fun id large => ?_⟩
    have refused : record.setBuiltin .enabled id = .error (.builtinTooLarge id.toNat) := if_pos ⟨rfl, large⟩
    rw [Work.update_on entered, Setter.apply, refused]

/-- The greatest builtin number and the one after it. -/
theorem greatest_builtin_is_kept :
    let fresh := Record.fresh (.atIndex 0)
    let session : Session Unit Unit := { Session.start () with table := { Table.empty with records := ⟨#[fresh]⟩ } }
    let after := session.updateAll .enabled ⟨0⟩ [.builtin 1023, .mark .poisoned true, .builtin 1024]
    session.table.info ⟨0⟩ = .ok fresh ∧
      (∃ record, after.table.info ⟨0⟩ = .ok record ∧ record.builtin = 1023 ∧ record.needsAttention = true) ∧
      (Work.update .enabled ⟨0⟩ (.builtin 1024)).on after = (.error (.builtinTooLarge 1024), after) := by
  intro fresh session after
  have found : session.table.info ⟨0⟩ = .ok fresh := rfl
  obtain ⟨tells, -, -, -, -, updated⟩ := records_tell_what_was_written (S := Unit) (σ := Unit) .enabled (.atIndex 0)
    [.builtin 1023, .mark .poisoned true, .builtin 1024]
  obtain ⟨entered, refused⟩ := updated session ⟨0⟩ found
  have poisoned := tells.mark .poisoned
  refine ⟨found, ⟨_, entered, tells.builtin, ?_⟩, refused 1024 (by decide)⟩
  rw [tells.needsAttention, poisoned]
  rfl

end Canon.Identifier
