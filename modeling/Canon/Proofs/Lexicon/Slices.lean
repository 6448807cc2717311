import Mathlib.Data.List.Induction
import Canon.Proofs.Lexicon.Appearance

/-!
Slices stay valid. A text is written only into a buffer that has room for it, so no buffer is ever moved, no byte is
written twice, and a slice that has been handed out reads the same for good, even if its buffer has been retired. All
this holds for every allocator that grants what it is asked for, or more.
-/
namespace Canon

/-- What an allocator grants for each number of bytes that it may be asked for: never less. -/
structure Allocator where
  grant : Nat → Nat
  enough : ∀ size, size ≤ grant size

def Allocator.exact : Allocator := ⟨id, Nat.le_refl⟩

namespace Buffer

/-- A buffer in which every byte was written where there was room for it. -/
structure Settled (buffer : Buffer) : Prop where
  moves : buffer.moves = 0
  within : buffer.bytes.size ≤ buffer.capacity

/-- A buffer behind whose bytes more have been written. -/
structure Grows (before after : Buffer) : Prop where
  capacity : after.capacity = before.capacity
  bytes : ∃ more, after.bytes = before.bytes ++ more

theorem Grows.refl (buffer : Buffer) : buffer.Grows buffer := ⟨rfl, .empty, ByteArray.append_empty.symm⟩

theorem Grows.trans {first second third : Buffer} (early : first.Grows second) (late : second.Grows third) :
    first.Grows third := by
  obtain ⟨some, written⟩ := early.bytes
  obtain ⟨more, after⟩ := late.bytes
  refine ⟨late.capacity.trans early.capacity, some ++ more, ?_⟩
  rw [after, written, ByteArray.append_assoc]

variable {buffer : Buffer} {bytes : ByteArray}

theorem append_of_fits (fits : buffer.fits bytes.size = true) :
    buffer.append bytes = ⟨buffer.capacity, buffer.bytes ++ bytes, buffer.moves⟩ := by
  rw [append, if_pos fits]

theorem grows_append (fits : buffer.fits bytes.size = true) : buffer.Grows (buffer.append bytes) := by
  rw [append_of_fits fits]
  exact ⟨rfl, bytes, rfl⟩

theorem Settled.append (settled : buffer.Settled) (fits : buffer.fits bytes.size = true) :
    (buffer.append bytes).Settled := by
  rw [append_of_fits fits]
  refine ⟨settled.moves, ?_⟩
  show (buffer.bytes ++ bytes).size ≤ buffer.capacity
  rw [ByteArray.size_append]
  exact of_decide_eq_true fits

theorem settled_withCapacity (capacity : Nat) : (withCapacity capacity).Settled := ⟨rfl, Nat.zero_le capacity⟩

theorem Grows.extract {before after : Buffer} (grows : before.Grows after) {start stop : Nat}
    (inside : stop ≤ before.bytes.size) : after.bytes.extract start stop = before.bytes.extract start stop := by
  obtain ⟨more, written⟩ := grows.bytes
  have nothing : more.extract (start - before.bytes.size) (stop - before.bytes.size) = .empty := by
    rw [ByteArray.extract_eq_empty_iff]
    omega
  rw [written, ByteArray.extract_append, nothing, ByteArray.append_empty]

theorem Grows.size_le {before after : Buffer} (grows : before.Grows after) : before.bytes.size ≤ after.bytes.size := by
  obtain ⟨more, written⟩ := grows.bytes
  rw [written, ByteArray.size_append]
  exact Nat.le_add_right _ _

end Buffer

/-- Two slices that share no byte. -/
def Slice.Apart (left right : Slice) : Prop :=
  left.buffer ≠ right.buffer ∨ left.offset + left.length ≤ right.offset ∨ right.offset + right.length ≤ left.offset

namespace Storage

theorem le_powerFrom (number : Nat) : number ≤ powerFrom number := by
  unfold powerFrom
  split
  · assumption
  · have below : number - 1 < 2 ^ ((number - 1).log2 + 1) := Nat.lt_log2_self
    show number ≤ 2 ^ ((number - 1).log2 + 1)
    omega

theorem powerFrom_le {number exponent : Nat} (below : number ≤ Nat.pow 2 exponent) :
    powerFrom number ≤ Nat.pow 2 exponent := by
  have positive : 1 ≤ Nat.pow 2 exponent := Nat.one_le_two_pow
  unfold powerFrom
  split
  · exact positive
  · have digits : (number - 1).log2 < exponent := by
      rw [Nat.log2_lt (by omega)]
      show number - 1 < Nat.pow 2 exponent
      omega
    exact Nat.pow_le_pow_right (by decide) digits

theorem lt_successorCapacity (capacity size : Nat) : capacity < successorCapacity capacity size :=
  Nat.lt_of_lt_of_le (Nat.lt_succ_of_le (Nat.le_max_left capacity size)) (le_powerFrom _)

theorem le_successorCapacity (capacity size : Nat) : size ≤ successorCapacity capacity size :=
  Nat.le_trans (Nat.le_succ_of_le (Nat.le_max_right capacity size)) (le_powerFrom _)

theorem successorCapacity_lt {capacity size : Nat} (possible : capacity ≤ Memory.pieceLimit)
    (short : size ≤ Memory.pieceLimit) : successorCapacity capacity size < UInt64.size := by
  have limit : max capacity size + 1 ≤ Nat.pow 2 63 := by
    simp only [Memory.pieceLimit] at possible short
    show max capacity size + 1 ≤ 9223372036854775808
    omega
  calc
    powerFrom (max capacity size + 1) ≤ 9223372036854775808 := powerFrom_le limit
    _ < 18446744073709551616 := by decide

section
variable (storage : Storage)

theorem buffers_getElem?_current : storage.buffers[storage.retired.size]? = some storage.current := by
  rw [buffers, List.getElem?_append_right (Nat.le_of_eq Array.length_toList), Array.length_toList, Nat.sub_self]
  rfl

theorem buffers_getElem?_of_lt {i : Nat} (old : i < storage.retired.size) :
    storage.buffers[i]? = storage.retired.toList[i]? := by
  rw [buffers, List.getElem?_append_left (by rw [Array.length_toList]; exact old)]

theorem length_buffers : storage.buffers.length = storage.retired.size + 1 := by
  rw [buffers, List.length_append, Array.length_toList, List.length_singleton]

end

/-- What later writing leaves as it was: slices, retired buffers, and bytes in all buffers. -/
structure Keeps (before after : Storage) : Prop where
  slices : before.slices.toList <+: after.slices.toList
  retired : before.retired.toList <+: after.retired.toList
  buffers : ∀ (i : Nat) (buffer : Buffer), before.buffers[i]? = some buffer →
    ∃ grown, after.buffers[i]? = some grown ∧ buffer.Grows grown

theorem Keeps.refl (storage : Storage) : storage.Keeps storage :=
  ⟨List.prefix_refl _, List.prefix_refl _, fun _ buffer here => ⟨buffer, here, .refl buffer⟩⟩

theorem Keeps.trans {first second third : Storage} (early : first.Keeps second) (late : second.Keeps third) :
    first.Keeps third where
  slices := early.slices.trans late.slices
  retired := early.retired.trans late.retired
  buffers i buffer here := by
    obtain ⟨grown, there, more⟩ := early.buffers i buffer here
    obtain ⟨last, final, rest⟩ := late.buffers i grown there
    exact ⟨last, final, more.trans rest⟩

theorem read?_eq_some {storage : Storage} {slice : Slice} {bytes : ByteArray} :
    storage.read? slice = some bytes ↔ ∃ buffer, storage.buffers[slice.buffer]? = some buffer ∧
      slice.offset + slice.length ≤ buffer.bytes.size ∧
      buffer.bytes.extract slice.offset (slice.offset + slice.length) = bytes := by
  rw [read?, Option.bind_eq_some_iff]
  simp only [Option.ite_none_right_eq_some, Option.some.injEq]

theorem Keeps.read? {before after : Storage} (keeps : before.Keeps after) {slice : Slice} {bytes : ByteArray}
    (read : before.read? slice = some bytes) : after.read? slice = some bytes := by
  obtain ⟨buffer, here, inside, same⟩ := read?_eq_some.mp read
  obtain ⟨grown, there, grows⟩ := keeps.buffers slice.buffer buffer here
  exact read?_eq_some.mpr ⟨grown, there, Nat.le_trans inside grows.size_le, (grows.extract inside).trans same⟩

/-- A buffer that had no room was retired, and a larger one was asked for, of which there is as much as the machine can
count. -/
structure Retires (allocator : Allocator) (size : Nat) (before after : Storage) : Prop where
  retired : after.retired = before.retired.push before.current
  full : before.current.capacity < before.current.bytes.size + size
  granted : after.current.capacity = allocator.grant (successorCapacity before.current.capacity size)
  larger : before.current.capacity < successorCapacity before.current.capacity size
  enough : size ≤ successorCapacity before.current.capacity size
  countable : before.current.capacity ≤ Memory.pieceLimit → size ≤ Memory.pieceLimit →
    successorCapacity before.current.capacity size < UInt64.size

section
variable (allocator : Allocator) (storage : Storage) (size : Nat)

theorem makeRoom_cases :
    (storage.current.fits size = true ∧ storage.makeRoom allocator.grant size = storage) ∨
    (storage.current.fits size = false ∧ storage.makeRoom allocator.grant size =
      ⟨storage.retired.push storage.current,
        .withCapacity (allocator.grant (successorCapacity storage.current.capacity size)), storage.slices⟩) := by
  unfold makeRoom
  cases fits : storage.current.fits size with
  | true => exact .inl ⟨rfl, rfl⟩
  | false => exact .inr ⟨rfl, rfl⟩

theorem fits_makeRoom : (storage.makeRoom allocator.grant size).current.fits size = true := by
  rcases storage.makeRoom_cases allocator size with ⟨fits, same⟩ | ⟨-, retired⟩
  · rw [same, fits]
  · have granted := Nat.le_trans (le_successorCapacity storage.current.capacity size) (allocator.enough _)
    rw [retired]
    exact decide_eq_true (by rw [Buffer.withCapacity, ByteArray.size_empty, Nat.zero_add]; exact granted)

theorem keeps_makeRoom : storage.Keeps (storage.makeRoom allocator.grant size) := by
  rcases storage.makeRoom_cases allocator size with ⟨-, same⟩ | ⟨-, retired⟩
  · rw [same]
    exact .refl storage
  · rw [retired]
    refine ⟨List.prefix_refl _, ?_, fun i buffer here => ⟨buffer, ?_, .refl buffer⟩⟩
    · rw [Array.toList_push]
      exact List.prefix_append _ _
    · have inside := (List.getElem?_eq_some_iff.mp here).choose
      rw [buffers, Array.toList_push]
      exact (List.getElem?_append_left inside).trans here

theorem settled_makeRoom (settled : ∀ buffer ∈ storage.buffers, buffer.Settled) :
    ∀ buffer ∈ (storage.makeRoom allocator.grant size).buffers, buffer.Settled := by
  rcases storage.makeRoom_cases allocator size with ⟨-, same⟩ | ⟨-, retired⟩
  · rw [same]
    exact settled
  · intro buffer member
    rw [retired, buffers, Array.toList_push] at member
    rcases List.mem_append.mp member with old | new
    · exact settled buffer old
    · rw [List.mem_singleton.mp new]
      exact Buffer.settled_withCapacity _

variable {storage} {bytes : ByteArray}

theorem keeps_write (fits : storage.current.fits bytes.size = true) : storage.Keeps (storage.write bytes) := by
  refine ⟨?_, List.prefix_refl _, fun i buffer here => ?_⟩
  · show storage.slices.toList <+: (storage.slices.push _).toList
    rw [Array.toList_push]
    exact List.prefix_append _ _
  -- Only the buffer in use is written to, and it is the last one.
  · by_cases old : i < storage.retired.size
    · rw [buffers_getElem?_of_lt storage old] at here
      exact ⟨buffer, (buffers_getElem?_of_lt (storage.write bytes) old).trans here, .refl buffer⟩
    · have inside := (List.getElem?_eq_some_iff.mp here).choose
      rw [length_buffers] at inside
      obtain rfl : i = storage.retired.size := by omega
      rw [buffers_getElem?_current, Option.some.injEq] at here
      subst here
      exact ⟨_, buffers_getElem?_current (storage.write bytes), Buffer.grows_append fits⟩

theorem settled_write (settled : ∀ buffer ∈ storage.buffers, buffer.Settled)
    (fits : storage.current.fits bytes.size = true) : ∀ buffer ∈ (storage.write bytes).buffers, buffer.Settled := by
  intro buffer member
  rcases List.mem_append.mp member with old | new
  · exact settled buffer (List.mem_append_left _ old)
  · rw [List.mem_singleton.mp new]
    exact (settled _ (List.mem_append_right _ (List.mem_singleton.mpr rfl))).append fits

def nextSlice (storage : Storage) (size : Nat) : Slice := ⟨storage.retired.size, storage.current.bytes.size, size⟩

theorem slices_write (storage : Storage) (bytes : ByteArray) :
    (storage.write bytes).slices.toList = storage.slices.toList ++ [storage.nextSlice bytes.size] :=
  Array.toList_push

theorem read?_write (fits : storage.current.fits bytes.size = true) :
    (storage.write bytes).read? (storage.nextSlice bytes.size) = some bytes := by
  refine read?_eq_some.mpr ⟨_, buffers_getElem?_current (storage.write bytes), ?_, ?_⟩
  · show storage.current.bytes.size + bytes.size ≤ (storage.current.append bytes).bytes.size
    rw [Buffer.append_of_fits fits]
    exact Nat.le_of_eq ByteArray.size_append.symm
  · show (storage.current.append bytes).bytes.extract storage.current.bytes.size
      (storage.current.bytes.size + bytes.size) = bytes
    rw [Buffer.append_of_fits fits]
    exact ByteArray.extract_append_eq_right rfl rfl

theorem apart_nextSlice {slice : Slice} {read : ByteArray} (before : storage.read? slice = some read) (size : Nat) :
    slice.Apart (storage.nextSlice size) := by
  obtain ⟨buffer, here, inside, -⟩ := read?_eq_some.mp before
  by_cases same : slice.buffer = storage.retired.size
  · right; left
    rw [same, buffers_getElem?_current, Option.some.injEq] at here
    subst here
    exact inside
  · exact .inl same

end

/-- Storage of some texts, each of which can be read from a slice of its own. -/
structure Holds (storage : Storage) (texts : List String) : Prop where
  settled : ∀ buffer ∈ storage.buffers, buffer.Settled
  slices : storage.slices.toList.map storage.read? = texts.map fun text => some text.toUTF8
  apart : storage.slices.toList.Pairwise Slice.Apart

theorem holds_withCapacity (grant : Nat → Nat) (capacity : Nat) : (withCapacity grant capacity).Holds [] where
  settled buffer member := by
    rw [List.mem_singleton.mp member]
    exact Buffer.settled_withCapacity _
  slices := rfl
  apart := .nil

variable {storage : Storage} {texts : List String}

theorem Holds.exists_read (holds : storage.Holds texts) {slice : Slice} (member : slice ∈ storage.slices.toList) :
    ∃ bytes, storage.read? slice = some bytes := by
  have among : storage.read? slice ∈ storage.slices.toList.map storage.read? := List.mem_map_of_mem member
  rw [holds.slices] at among
  obtain ⟨text, -, same⟩ := List.mem_map.mp among
  exact ⟨text.toUTF8, same.symm⟩

theorem Holds.write (holds : storage.Holds texts) {text : String}
    (fits : storage.current.fits text.toUTF8.size = true) : (storage.write text.toUTF8).Holds (texts ++ [text]) where
  settled := settled_write holds.settled fits
  slices := by
    have kept : storage.slices.toList.map (storage.write text.toUTF8).read? =
        storage.slices.toList.map storage.read? := by
      refine List.map_congr_left fun slice member => ?_
      obtain ⟨bytes, read⟩ := holds.exists_read member
      rw [read, (keeps_write fits).read? read]
    rw [slices_write, List.map_append, List.map_append, kept, holds.slices, List.map_singleton, read?_write fits,
      List.map_singleton]
  apart := by
    rw [slices_write, List.pairwise_append]
    refine ⟨holds.apart, List.pairwise_singleton _ _, fun slice member next single => ?_⟩
    obtain ⟨bytes, read⟩ := holds.exists_read member
    rw [List.mem_singleton.mp single]
    exact apart_nextSlice read _

theorem Holds.makeRoom (holds : storage.Holds texts) (allocator : Allocator) (size : Nat) :
    (storage.makeRoom allocator.grant size).Holds texts := by
  have keeps := storage.keeps_makeRoom allocator size
  have slices : (storage.makeRoom allocator.grant size).slices = storage.slices := by
    rcases storage.makeRoom_cases allocator size with ⟨-, same⟩ | ⟨-, retired⟩
    · rw [same]
    · rw [retired]
  refine ⟨storage.settled_makeRoom allocator size holds.settled, ?_, slices ▸ holds.apart⟩
  rw [slices, ← holds.slices]
  refine List.map_congr_left fun slice member => ?_
  obtain ⟨bytes, read⟩ := holds.exists_read member
  rw [read, keeps.read? read]

theorem Holds.store (holds : storage.Holds texts) (allocator : Allocator) (text : String) :
    (storage.store allocator.grant text).Holds (texts ++ [text]) :=
  (holds.makeRoom allocator _).write (fits_makeRoom allocator storage _)

theorem keeps_store (storage : Storage) (allocator : Allocator) (text : String) :
    storage.Keeps (storage.store allocator.grant text) :=
  (storage.keeps_makeRoom allocator _).trans (keeps_write (fits_makeRoom allocator storage _))

theorem retires_store (storage : Storage) (allocator : Allocator) (text : String) :
    (storage.store allocator.grant text).retired = storage.retired ∨
      Retires allocator text.utf8ByteSize storage (storage.store allocator.grant text) := by
  have roomy := fits_makeRoom allocator storage text.utf8ByteSize
  have capacity : (storage.store allocator.grant text).current.capacity =
      (storage.makeRoom allocator.grant text.utf8ByteSize).current.capacity :=
    (Buffer.grows_append roomy).capacity
  have written : (storage.store allocator.grant text).retired =
      (storage.makeRoom allocator.grant text.utf8ByteSize).retired := rfl
  rcases storage.makeRoom_cases allocator text.utf8ByteSize with ⟨-, same⟩ | ⟨full, retired⟩
  · left
    rw [written, same]
  · right
    rw [retired] at capacity written
    exact
      { retired := written
        full := Nat.lt_of_not_le (of_decide_eq_false full)
        granted := capacity
        larger := lt_successorCapacity _ _
        enough := le_successorCapacity _ _
        countable := successorCapacity_lt }

end Storage

namespace Lexicon

def internBy (allocator : Allocator) (lexicon : Lexicon) (spelling : String) : Symbol × Lexicon :=
  match lexicon.find? spelling with
  | some symbol => (symbol, lexicon)
  | none =>
    let (symbol, added) := lexicon.add spelling
    (symbol, { added with storage := lexicon.storage.store allocator.grant spelling })

theorem internBy_exact (lexicon : Lexicon) (spelling : String) :
    lexicon.internBy .exact spelling = lexicon.intern spelling := by
  unfold internBy intern
  cases lexicon.find? spelling with
  | some symbol => rfl
  | none => rfl

/-- A lexicon after some spellings were interned. The allocator may grant something else each time that it is asked, so
every spelling comes with what would be granted meanwhile. -/
def stocked (first : Allocator) (capacity : Nat) (entries : List (Allocator × String)) : Lexicon :=
  entries.foldl (fun lexicon entry => (lexicon.internBy entry.1 entry.2).2)
    ⟨#[], ∅, .withCapacity first.grant capacity⟩

theorem stocked_append (first : Allocator) (capacity : Nat) (entries later : List (Allocator × String)) :
    stocked first capacity (entries ++ later) =
      later.foldl (fun lexicon entry => (lexicon.internBy entry.1 entry.2).2) (stocked first capacity entries) :=
  List.foldl_append

theorem stocked_exact (capacity : Nat) (spellings : List String) :
    stocked .exact capacity (spellings.map (.exact, ·)) =
      spellings.foldl (fun lexicon spelling => (lexicon.intern spelling).2) (.withCapacity capacity) := by
  rw [stocked, List.foldl_map]
  simp only [internBy_exact]
  rfl

/-- A lexicon whose storage holds its spellings, which are those that have appeared. -/
structure Stocks (lexicon : Lexicon) (appeared : List String) : Prop where
  listed : lexicon.Listed
  order : lexicon.spellings.toList = appeared.eraseDups
  holds : lexicon.storage.Holds lexicon.spellings.toList

variable {lexicon : Lexicon} {appeared : List String}

theorem internBy_cases (allocator : Allocator) (lexicon : Lexicon) (spelling : String) :
    (lexicon.internBy allocator spelling).2 = lexicon ∨
    ((lexicon.internBy allocator spelling).2.spellings = lexicon.spellings.push spelling ∧
      (lexicon.internBy allocator spelling).2.storage = lexicon.storage.store allocator.grant spelling) := by
  unfold internBy
  cases lexicon.find? spelling with
  | some symbol => exact .inl rfl
  | none => exact .inr ⟨rfl, rfl⟩

theorem numbering_internBy (allocator : Allocator) (lexicon : Lexicon) (spelling : String) :
    (lexicon.internBy allocator spelling).2.spellings = (lexicon.intern spelling).2.spellings ∧
      (lexicon.internBy allocator spelling).2.symbols = (lexicon.intern spelling).2.symbols := by
  unfold internBy intern
  cases lexicon.find? spelling with
  | some symbol => exact ⟨rfl, rfl⟩
  | none => exact ⟨rfl, rfl⟩

theorem Stocks.internBy (stocks : lexicon.Stocks appeared) (allocator : Allocator) (spelling : String) :
    (lexicon.internBy allocator spelling).2.Stocks (appeared ++ [spelling]) := by
  obtain ⟨spellings, symbols⟩ := lexicon.numbering_internBy allocator spelling
  refine ⟨?_, ?_, ?_⟩
  · intro other
    rw [spellings, find?, symbols]
    exact stocks.listed.intern spelling other
  · rw [spellings]
    exact stocks.listed.spellings_intern stocks.order spelling
  · rcases lexicon.internBy_cases allocator spelling with same | ⟨pushed, stored⟩
    · rw [same]
      exact stocks.holds
    · rw [pushed, stored, Array.toList_push]
      exact stocks.holds.store allocator spelling

theorem stocks_stocked (first : Allocator) (capacity : Nat) (entries : List (Allocator × String)) :
    (stocked first capacity entries).Stocks (entries.map Prod.snd) := by
  induction entries using List.reverseRecOn with
  | nil =>
    refine ⟨fun spelling => ?_, rfl, Storage.holds_withCapacity first.grant capacity⟩
    simp [stocked, find?]
  | append_singleton earlier entry ih =>
    rw [stocked_append, List.map_append]
    exact ih.internBy entry.1 entry.2

theorem keeps_internBy (lexicon : Lexicon) (allocator : Allocator) (spelling : String) :
    lexicon.storage.Keeps (lexicon.internBy allocator spelling).2.storage := by
  rcases lexicon.internBy_cases allocator spelling with same | ⟨-, stored⟩
  · rw [same]
    exact .refl lexicon.storage
  · rw [stored]
    exact lexicon.storage.keeps_store allocator spelling

theorem keeps_foldl_internBy (lexicon : Lexicon) (entries : List (Allocator × String)) :
    lexicon.storage.Keeps
      (entries.foldl (fun lexicon entry => (lexicon.internBy entry.1 entry.2).2) lexicon).storage := by
  induction entries generalizing lexicon with
  | nil => exact .refl lexicon.storage
  | cons entry entries ih => exact (lexicon.keeps_internBy entry.1 entry.2).trans (ih _)

/-- However many spellings are interned, and whatever the allocator grants beyond what it is asked for: no buffer is ever
moved, every slice reads the spelling that it was handed out for, no two of them overlap, and later spellings leave all
bytes, slices and retired buffers as they are. A buffer is retired only for a larger one with room for the spelling. -/
theorem slices_stay_valid (first : Allocator) (capacity : Nat) (entries later : List (Allocator × String)) :
    let before := stocked first capacity entries
    let after := stocked first capacity (entries ++ later)
    after.storage.Holds ((entries ++ later).map Prod.snd).eraseDups ∧
    before.storage.Keeps after.storage ∧
    (∀ allocator spelling, let next := (before.internBy allocator spelling).2
      next.storage.retired = before.storage.retired ∨
        Storage.Retires allocator spelling.utf8ByteSize before.storage next.storage) ∧
    ∀ spellings : List String, stocked .exact capacity (spellings.map (.exact, ·)) =
      spellings.foldl (fun lexicon spelling => (lexicon.intern spelling).2) (.withCapacity capacity) := by
  intro before after
  have stocks := stocks_stocked first capacity (entries ++ later)
  refine ⟨stocks.order ▸ stocks.holds, ?_, ?_, stocked_exact capacity⟩
  · show before.storage.Keeps (stocked first capacity (entries ++ later)).storage
    rw [stocked_append]
    exact keeps_foldl_internBy before later
  · intro allocator spelling next
    rcases before.internBy_cases allocator spelling with same | ⟨-, stored⟩
    · left
      show (before.internBy allocator spelling).2.storage.retired = _
      rw [same]
    · show (before.internBy allocator spelling).2.storage.retired = _ ∨
        Storage.Retires _ _ _ (before.internBy allocator spelling).2.storage
      rw [stored]
      exact before.storage.retires_store allocator spelling

/-- A first buffer of no bytes is retired for the first spelling that has any. -/
theorem nothing_fits_into_no_bytes :
    let before := stocked .exact 0 [(.exact, "")]
    let after := stocked .exact 0 [(.exact, ""), (.exact, "int")]
    after.storage.Holds ["", "int"] ∧ Storage.Retires .exact 3 before.storage after.storage := by
  intro before after
  have valid := slices_stay_valid .exact 0 [(.exact, "")] [(.exact, "int")]
  have unknown : before.find? "int" = none := by simp [before, stocked, internBy, add, find?]
  have first : before.storage = (Storage.withCapacity id 0).store id "" := by
    simp [before, stocked, internBy, add, find?]
    rfl
  have second : (before.internBy .exact "int").2.storage = before.storage.store id "int" := by
    rw [internBy, unknown]
    rfl
  refine ⟨valid.1, (valid.2.2.1 .exact "int").resolve_left fun same => ?_⟩
  rw [second, first] at same
  exact absurd (congrArg Array.size same) (by decide)

end Lexicon
end Canon
