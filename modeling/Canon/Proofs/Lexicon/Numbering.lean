import Mathlib.Data.List.Induction
import Canon.Proofs.Lexicon.Slices
import Canon.Proofs.Lexicon.Stored

/-!
Spellings are numbered for good. Whatever is asked of a lexicon, and in whatever order, every answer follows from the
distinct spellings that were interned before: each has its place among them as its number, and keeps it.
-/
namespace Canon.Lexicon

inductive Request where
  | intern (spelling : String)
  | find (spelling : String)
  | get (symbol : Symbol)
  | lookup (symbol : Symbol)

inductive Call where
  | intern (spelling : String) (answer : Symbol)
  | find (spelling : String) (answer : Option Symbol)
  | get (symbol : Symbol) (answer : Option String)
  | lookup (symbol : Symbol) (answer : Except Fault String)

def Call.request : Call → Request
  | .intern spelling _ => .intern spelling
  | .find spelling _ => .find spelling
  | .get symbol _ => .get symbol
  | .lookup symbol _ => .lookup symbol

def Request.spelling? : Request → Option String
  | .intern spelling => some spelling
  | _ => none

def interned (requests : List Request) : List String := requests.filterMap Request.spelling?

theorem interned_concat (requests : List Request) (request : Request) :
    interned (requests ++ [request]) = interned requests ++ request.spelling?.toList := by
  cases request with
  | intern spelling => exact List.filterMap_append
  | find spelling => exact List.filterMap_append
  | get symbol => exact List.filterMap_append
  | lookup symbol => exact List.filterMap_append

structure Visit where
  lexicon : Lexicon
  calls : List Call

namespace Visit

def serve (visit : Visit) : Request → Visit
  | .intern spelling =>
    let (symbol, lexicon) := visit.lexicon.intern spelling
    ⟨lexicon, visit.calls ++ [.intern spelling symbol]⟩
  | .find spelling => ⟨visit.lexicon, visit.calls ++ [.find spelling (visit.lexicon.find? spelling)]⟩
  | .get symbol => ⟨visit.lexicon, visit.calls ++ [.get symbol (visit.lexicon.get? symbol)]⟩
  | .lookup symbol => ⟨visit.lexicon, visit.calls ++ [.lookup symbol (visit.lexicon.get symbol)]⟩

def run (capacity : Nat) (requests : List Request) : Visit := requests.foldl serve ⟨.withCapacity capacity, []⟩

theorem run_append (capacity : Nat) (earlier later : List Request) :
    run capacity (earlier ++ later) = later.foldl serve (run capacity earlier) :=
  List.foldl_append

theorem run_concat (capacity : Nat) (earlier : List Request) (request : Request) :
    run capacity (earlier ++ [request]) = (run capacity earlier).serve request :=
  run_append capacity earlier [request]

theorem serve_calls (visit : Visit) (request : Request) :
    ∃ call : Call, call.request = request ∧ (visit.serve request).calls = visit.calls ++ [call] := by
  cases request with
  | intern spelling => exact ⟨_, rfl, rfl⟩
  | find spelling => exact ⟨_, rfl, rfl⟩
  | get symbol => exact ⟨_, rfl, rfl⟩
  | lookup symbol => exact ⟨_, rfl, rfl⟩

theorem prefix_foldl_serve (visit : Visit) (requests : List Request) :
    visit.calls <+: (requests.foldl serve visit).calls := by
  induction requests generalizing visit with
  | nil => exact List.prefix_refl _
  | cons request requests ih =>
    obtain ⟨call, -, more⟩ := visit.serve_calls request
    have first : visit.calls <+: (visit.serve request).calls := more ▸ List.prefix_append _ _
    exact first.trans (ih (visit.serve request))

end Visit

/-- A lexicon of some distinct spellings, each with its place among them as its number. -/
structure Numbers (lexicon : Lexicon) (distinct : List String) : Prop where
  find : ∀ spelling symbol, lexicon.find? spelling = some symbol ↔ distinct[symbol.index.val]? = some spelling
  get : ∀ symbol, lexicon.get? symbol = distinct[symbol.index.val]?
  lookup : ∀ symbol, lexicon.get symbol = match distinct[symbol.index.val]? with
    | some spelling => .ok spelling
    | none => .error (.outOfBounds distinct.length symbol.index.val)
  spelled : lexicon.toList.map Prod.snd = distinct
  numbered : lexicon.toList.map (fun entry => entry.1.index.val) = List.range distinct.length
  bytes : lexicon.storedBytes = totalLength distinct

def Call.Follows (before : List String) : Call → Prop
  | .intern spelling answer => (before ++ [spelling]).eraseDups[answer.index.val]? = some spelling
  | .find spelling answer => ∀ symbol, answer = some symbol ↔ before.eraseDups[symbol.index.val]? = some spelling
  | .get symbol answer => answer = before.eraseDups[symbol.index.val]?
  | .lookup symbol answer => answer = match before.eraseDups[symbol.index.val]? with
    | some spelling => .ok spelling
    | none => .error (.outOfBounds before.eraseDups.length symbol.index.val)

section
variable {lexicon : Lexicon} {distinct : List String}

theorem Faithful.numbered (faithful : lexicon.Faithful) :
    lexicon.toList.map (fun entry => entry.1.index.val) = List.range lexicon.size := by
  have small : lexicon.size ≤ 4294967295 := faithful.size_le
  have places : lexicon.spellings.toList.zipIdx.map Prod.snd = List.range lexicon.size := by
    rw [List.zipIdx_map_snd, Array.length_toList, List.range_eq_range']
    rfl
  calc
    _ = lexicon.spellings.toList.zipIdx.map fun entry => (Symbol.atIndex entry.2).index.val := by
      rw [toList, List.map_map]
      rfl
    _ = lexicon.spellings.toList.zipIdx.map Prod.snd := by
      refine List.map_congr_left fun entry member => ?_
      have inside : entry.2 ∈ List.range lexicon.size := places ▸ List.mem_map_of_mem member
      exact Symbol.index_atIndex_of_lt (Nat.lt_of_lt_of_le (List.mem_range.mp inside) small)
    _ = List.range lexicon.size := places

theorem Faithful.numbers (faithful : lexicon.Faithful) (order : lexicon.spellings.toList = distinct)
    (stores : lexicon.Stores) : lexicon.Numbers distinct := by
  have get (symbol : Symbol) : lexicon.get? symbol = distinct[symbol.index.val]? := by
    rw [get?, ← Array.getElem?_toList, order]
  have size : lexicon.size = distinct.length := by
    rw [← order, Array.length_toList]
    rfl
  constructor
  · intro spelling symbol
    rw [faithful.find?_iff, get]
  · exact get
  · intro symbol
    have read := get symbol
    cases found : distinct[symbol.index.val]? with
    | some spelling => exact get_eq_ok_iff.mpr (read.trans found)
    | none =>
      rw [found] at read
      simp only [Lexicon.get, read, size]
  · rw [map_snd_toList, order]
  · rw [faithful.numbered, size]
  · rw [← order]
    exact stores

end

namespace Visit
variable {visit : Visit} {requests : List Request}

structure Sound (visit : Visit) (requests : List Request) : Prop where
  answered : visit.calls.map Call.request = requests
  faithful : visit.lexicon.Faithful
  order : visit.lexicon.spellings.toList = (interned requests).eraseDups
  stores : visit.lexicon.Stores
  issued : ∀ spelling symbol, .intern spelling symbol ∈ visit.calls ↔ visit.lexicon.find? spelling = some symbol

theorem sound_start (capacity : Nat) : (run capacity []).Sound [] where
  answered := rfl
  faithful := faithful_withCapacity capacity
  order := rfl
  stores := stores_withCapacity capacity
  issued spelling symbol := by
    have unknown : (withCapacity capacity).find? spelling = none := by simp [withCapacity, find?]
    show Call.intern spelling symbol ∈ [] ↔ (withCapacity capacity).find? spelling = some symbol
    rw [unknown]
    simp

namespace Sound

theorem numbers (sound : visit.Sound requests) : visit.lexicon.Numbers (interned requests).eraseDups :=
  sound.faithful.numbers sound.order sound.stores

theorem mem_interned (sound : visit.Sound requests) {spelling : String} :
    spelling ∈ interned requests ↔ (visit.lexicon.find? spelling).isSome := by
  rw [← sound.faithful.mem_spellings, sound.order, List.mem_eraseDups]

theorem asking (sound : visit.Sound requests) {call : Call} (nothing : call.request.spelling? = none) :
    Sound ⟨visit.lexicon, visit.calls ++ [call]⟩ (requests ++ [call.request]) where
  answered := by rw [List.map_append, sound.answered, List.map_singleton]
  faithful := sound.faithful
  order := by rw [interned_concat, nothing, Option.toList_none, List.append_nil, sound.order]
  stores := sound.stores
  issued spelling symbol := by
    have different : Call.intern spelling symbol ≠ call := by
      intro same
      rw [← same] at nothing
      cases nothing
    rw [← sound.issued, List.mem_append, List.mem_singleton]
    simp [different]

theorem interning (sound : visit.Sound requests) {spelling : String}
    (room : visit.lexicon.size < 4294967295 ∨ (visit.lexicon.find? spelling).isSome) :
    Sound (visit.serve (.intern spelling)) (requests ++ [.intern spelling]) where
  answered := by
    show (visit.calls ++ [Call.intern spelling _]).map Call.request = _
    rw [List.map_append, sound.answered, List.map_singleton]
    rfl
  faithful := by
    rcases room with small | known
    · exact sound.faithful.intern small spelling
    · obtain ⟨symbol, found⟩ := Option.isSome_iff_exists.mp known
      show (visit.lexicon.intern spelling).2.Faithful
      rw [intern_of_find? found]
      exact sound.faithful
  order := by
    rw [interned_concat]
    exact sound.faithful.spellings_intern sound.order spelling
  stores := sound.stores.intern spelling
  issued other symbol := by
    show Call.intern other symbol ∈ visit.calls ++ [.intern spelling (visit.lexicon.intern spelling).1] ↔
      (visit.lexicon.intern spelling).2.find? other = some symbol
    rw [List.mem_append, List.mem_singleton, sound.issued]
    by_cases same : spelling = other
    · subst other
      rw [find?_intern_self, Call.intern.injEq, Option.some.injEq]
      constructor
      · intro given
        rcases given with old | ⟨-, last⟩
        · rw [intern_of_find? old]
        · exact last.symm
      · intro last
        exact .inr ⟨rfl, last.symm⟩
    · rw [find?_intern_other _ same]
      simp [Ne.symm same]

theorem serve (sound : visit.Sound requests) (request : Request)
    (few : (interned (requests ++ [request])).eraseDups.length ≤ 4294967295) :
    (visit.serve request).Sound (requests ++ [request]) := by
  cases request with
  | find spelling => exact sound.asking rfl
  | get symbol => exact sound.asking rfl
  | lookup symbol => exact sound.asking rfl
  | intern spelling =>
    -- A new spelling finds room because it is one more of the distinct ones, of which there are not too many.
    apply sound.interning
    cases known : visit.lexicon.find? spelling with
    | some symbol => exact .inr rfl
    | none =>
      left
      have grown := sound.faithful.spellings_intern sound.order spelling
      have added : (visit.lexicon.intern spelling).2.size = visit.lexicon.size + 1 := by
        rw [intern, known]
        exact size_add _ _
      have count : (interned (requests ++ [.intern spelling])).eraseDups.length = visit.lexicon.size + 1 := by
        rw [interned_concat, ← added, size, ← Array.length_toList]
        exact (congrArg List.length grown).symm
      omega

theorem follows (sound : visit.Sound requests) {request : Request}
    (next : (visit.serve request).Sound (requests ++ [request])) :
    ∃ call : Call, call.request = request ∧ (visit.serve request).calls = visit.calls ++ [call] ∧
      call.Follows (interned requests) ∧
      ((∀ spelling, request = .intern spelling → spelling ∈ interned requests) →
        (visit.serve request).lexicon = visit.lexicon) := by
  have numbers := sound.numbers
  cases request with
  | intern spelling =>
    refine ⟨_, rfl, rfl, ?_, ?_⟩
    · have last := (next.issued spelling (visit.lexicon.intern spelling).1).mp
        (List.mem_append_right _ (List.mem_singleton.mpr rfl))
      have place := (next.numbers.find spelling _).mp last
      rw [interned_concat] at place
      exact place
    · intro known
      obtain ⟨symbol, found⟩ := Option.isSome_iff_exists.mp (sound.mem_interned.mp (known spelling rfl))
      show (visit.lexicon.intern spelling).2 = visit.lexicon
      rw [intern_of_find? found]
  | find spelling => exact ⟨_, rfl, rfl, numbers.find spelling, fun _ => rfl⟩
  | get symbol => exact ⟨_, rfl, rfl, numbers.get symbol, fun _ => rfl⟩
  | lookup symbol => exact ⟨_, rfl, rfl, numbers.lookup symbol, fun _ => rfl⟩

end Sound

theorem sound_run (capacity : Nat) (requests : List Request)
    (few : (interned requests).eraseDups.length ≤ 4294967295) : (run capacity requests).Sound requests := by
  induction requests using List.reverseRecOn with
  | nil => exact sound_start capacity
  | append_singleton earlier request ih =>
    have fewer : (interned earlier).eraseDups.length ≤ (interned (earlier ++ [request])).eraseDups.length := by
      rw [interned_concat]
      exact length_eraseDups_le_append _ _
    rw [run_concat]
    exact (ih (Nat.le_trans fewer few)).serve request few

end Visit

section Allocators

/-- Lexicons that differ at most in how their buffers are laid out. -/
structure Alike (left right : Lexicon) : Prop where
  spellings : left.spellings = right.spellings
  symbols : left.symbols = right.symbols

theorem Alike.intern {left right : Lexicon} (alike : Alike left right) (spelling : String) :
    Alike (left.intern spelling).2 (right.intern spelling).2 := by
  obtain ⟨spellings, symbols, storage⟩ := left
  obtain ⟨others, numbers, place⟩ := right
  obtain ⟨rfl, rfl⟩ := alike
  have known : find? ⟨spellings, symbols, storage⟩ spelling = find? ⟨spellings, symbols, place⟩ spelling := rfl
  unfold Lexicon.intern
  rw [known]
  cases find? ⟨spellings, symbols, place⟩ spelling with
  | some symbol => exact ⟨rfl, rfl⟩
  | none => exact ⟨rfl, rfl⟩

theorem Alike.internBy {left right : Lexicon} (alike : Alike left right) (allocator : Allocator) (spelling : String) :
    Alike (left.internBy allocator spelling).2 (right.intern spelling).2 := by
  obtain ⟨spellings, symbols⟩ := left.numbering_internBy allocator spelling
  have likewise := alike.intern spelling
  exact ⟨spellings.trans likewise.spellings, symbols.trans likewise.symbols⟩

theorem Alike.foldl {left right : Lexicon} (alike : Alike left right) (entries : List (Allocator × String)) :
    Alike (entries.foldl (fun lexicon entry => (lexicon.internBy entry.1 entry.2).2) left)
      ((entries.map Prod.snd).foldl (fun lexicon spelling => (lexicon.intern spelling).2) right) := by
  induction entries generalizing left right with
  | nil => exact alike
  | cons entry entries ih => exact ih (alike.internBy entry.1 entry.2)

theorem Stores.internBy {lexicon : Lexicon} (stores : lexicon.Stores) (allocator : Allocator) (spelling : String) :
    (lexicon.internBy allocator spelling).2.Stores := by
  rcases lexicon.internBy_cases allocator spelling with same | ⟨pushed, stored⟩
  · rw [same]
    exact stores
  · have bytes : lexicon.storage.size = totalLength lexicon.spellings.toList := stores
    rw [Stores, storedBytes, pushed, stored, Storage.size_store, bytes, Array.toList_push, totalLength_append]
    rfl

theorem stores_stocked (first : Allocator) (capacity : Nat) (entries : List (Allocator × String)) :
    (stocked first capacity entries).Stores := by
  induction entries using List.reverseRecOn with
  | nil => rfl
  | append_singleton earlier entry ih =>
    rw [stocked_append]
    exact ih.internBy entry.1 entry.2

theorem Visit.lexicon_foldl_serve (visit : Visit) (requests : List Request) :
    (requests.foldl serve visit).lexicon =
      (interned requests).foldl (fun lexicon spelling => (lexicon.intern spelling).2) visit.lexicon := by
  induction requests generalizing visit with
  | nil => rfl
  | cons request requests ih =>
    rw [List.foldl_cons, ih]
    cases request with
    | intern spelling => rfl
    | find spelling => rfl
    | get symbol => rfl
    | lookup symbol => rfl

theorem alike_stocked (first : Allocator) (capacity : Nat) {entries : List (Allocator × String)}
    {requests : List Request} (same : entries.map Prod.snd = interned requests) :
    Alike (stocked first capacity entries) (Visit.run capacity requests).lexicon := by
  have start : Alike ⟨#[], ∅, .withCapacity first.grant capacity⟩ (withCapacity capacity) := ⟨rfl, rfl⟩
  rw [Visit.run, Visit.lexicon_foldl_serve, ← same]
  exact start.foldl entries

end Allocators

/-- As long as there is a symbol for each of the distinct spellings, a lexicon of any capacity numbers them in the order
of their first appearance, and every answer that it ever gives follows from that. What allocators grant beyond what they
are asked for changes neither the numbers nor the bytes stored. Symbols run out exactly where the greatest number
does. -/
theorem spellings_are_numbered_for_good (capacity : Nat) (requests : List Request)
    (few : (interned requests).eraseDups.length ≤ 4294967295) :
    let visit := Visit.run capacity requests
    visit.calls.map Call.request = requests ∧
    visit.lexicon.Numbers (interned requests).eraseDups ∧
    (∀ earlier request later, requests = earlier ++ request :: later →
      let before := Visit.run capacity earlier
      let after := Visit.run capacity (earlier ++ [request])
      ∃ call : Call, call.request = request ∧ after.calls = before.calls ++ [call] ∧ after.calls <+: visit.calls ∧
        call.Follows (interned earlier) ∧
        ((∀ spelling, request = .intern spelling → spelling ∈ interned earlier) →
          after.lexicon = before.lexicon)) ∧
    (∀ left right first second, .intern left first ∈ visit.calls → .intern right second ∈ visit.calls →
      (first = second ↔ left.toUTF8 = right.toUTF8)) ∧
    (∀ spelling symbol, visit.lexicon.find? spelling = some symbol ↔ .intern spelling symbol ∈ visit.calls) ∧
    (∀ spelling symbol, .intern spelling symbol ∈ visit.calls → visit.lexicon.get? symbol = some spelling ∧
      visit.lexicon.get symbol = .ok spelling ∧ visit.lexicon.intern spelling = (symbol, visit.lexicon)) ∧
    (∀ first entries, entries.map Prod.snd = interned requests →
      Alike (stocked first capacity entries) visit.lexicon ∧
      (stocked first capacity entries).storedBytes = totalLength (interned requests).eraseDups) ∧
    ∀ checks index, index + 1 < UInt64.size →
      Symbol.ofWord checks index = .ok (.atIndex index) ∧ (Symbol.atIndex index).index.val = min index 4294967294 := by
  intro visit
  have sound : visit.Sound requests := Visit.sound_run capacity requests few
  refine ⟨sound.answered, sound.numbers, ?_, ?_, fun spelling symbol => (sound.issued spelling symbol).symm, ?_, ?_, ?_⟩
  · intro earlier request later same before after
    subst same
    have split : earlier ++ request :: later = (earlier ++ [request]) ++ later := List.append_cons ..
    have fewer (part rest : List Request) (whole : earlier ++ request :: later = part ++ rest) :
        (interned part).eraseDups.length ≤ 4294967295 := by
      rw [whole, interned, List.filterMap_append] at few
      exact Nat.le_trans (length_eraseDups_le_append _ _) few
    have first : before.Sound earlier := Visit.sound_run capacity earlier (fewer earlier _ rfl)
    have next : after.Sound (earlier ++ [request]) := Visit.sound_run capacity _ (fewer _ later split)
    have served : after = before.serve request := Visit.run_concat capacity earlier request
    rw [served] at next
    obtain ⟨call, asked, made, follows, unchanged⟩ := first.follows next
    rw [← served] at made unchanged
    have grown : visit = later.foldl Visit.serve after := by
      rw [← Visit.run_append, ← split]
    exact ⟨call, asked, made, grown ▸ after.prefix_foldl_serve later, follows, unchanged⟩
  · intro left right first second called also
    have one := (sound.issued left first).mp called
    have two := (sound.issued right second).mp also
    constructor
    · intro same
      subst same
      exact congrArg String.toUTF8 (sound.faithful.eq_of_find? one two)
    · intro same
      obtain rfl := String.toByteArray_inj.mp same
      exact Option.some.inj (one.symm.trans two)
  · intro spelling symbol called
    have found := (sound.issued spelling symbol).mp called
    have read := (sound.faithful.find?_iff spelling symbol).mp found
    exact ⟨read, get_eq_ok_iff.mpr read, intern_of_find? found⟩
  · intro first entries same
    have alike := alike_stocked first capacity same
    refine ⟨alike, ?_⟩
    rw [stores_stocked, alike.spellings, sound.order]
  · intro checks index below
    exact ⟨Symbol.ofWord_of_lt checks below, Symbol.index_atIndex index⟩

/-- A spelling of no bytes, in a lexicon whose first buffer has none. -/
theorem empty_spelling_is_numbered :
    let requests := [.intern "", .intern "int", .find "x", .intern "int", .lookup (.atIndex 1)]
    (interned requests).eraseDups.length ≤ 4294967295 ∧ (Visit.run 0 requests).lexicon.Numbers ["", "int"] := by
  intro requests
  have distinct : (interned requests).eraseDups = ["", "int"] := by decide
  have few : (interned requests).eraseDups.length ≤ 4294967295 := by
    rw [distinct]
    decide
  exact ⟨few, distinct ▸ (spellings_are_numbered_for_good 0 requests few).2.1⟩

end Canon.Lexicon
