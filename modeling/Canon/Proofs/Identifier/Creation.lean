import Mathlib
import Canon.Proofs.Identifier.Laws

/-!
Creating records. With checks a spelling that is bound is refused and nothing happens; otherwise the spelling is bound to
a new plain record, whatever it was bound to before, and nothing else changes.
-/
namespace Canon.Identifier
variable {S σ : Type}

namespace Table
variable {before after : Table} {spelling : String} {id : IdentifierId}

/-- A table with one record more: a plain one under the next handle, to which the given spelling is bound. -/
structure Creates (spelling : String) (id : IdentifierId) (before after : Table) : Prop where
  next : id.index = before.size
  size : after.size = before.size + 1
  record : ∃ symbol, after.lexicon.find? spelling = some symbol ∧ after.info id = .ok (.fresh symbol)
  name : after.name id = .ok spelling
  found : after.find? spelling = some id
  /-- A spelling that has a symbol keeps it, and no other spelling gets one. -/
  symbols : ∀ other, other ≠ spelling ∨ (before.lexicon.find? other).isSome →
    after.lexicon.find? other = before.lexicon.find? other
  others : ∀ other, other ≠ spelling → after.find? other = before.find? other
  records : ∀ old record, before.info old = .ok record → after.info old = .ok record

theorem Orderly.creates (orderly : before.Orderly) (records : before.size < 4294967295)
    (symbols : before.lexicon.size < 4294967295) (spelling : String) :
    Creates spelling ((before.intern spelling).2.allocate (before.intern spelling).1).1 before
      ((before.intern spelling).2.allocate (before.intern spelling).1).2 := by
  have interned := before.symbol_intern spelling
  have faithful : (before.intern spelling).2.lexicon.Faithful := orderly.faithful.intern symbols spelling
  have index : (Handle.atIndex before.size : IdentifierId).index = before.size := Handle.index_atIndex (by omega)
  have entered : ((before.intern spelling).2.allocate (before.intern spelling).1).2.records.get?
      (.atIndex before.size) = some (.fresh (before.intern spelling).1) := by
    rw [Canonical.get?_allocate]
    exact if_pos index
  refine ⟨index, Registry.size_enter before.records _, ?_, ?_, find?_allocate_self interned, ?_, ?_, ?_⟩
  · exact ⟨_, interned, Registry.get_eq_ok_iff.mpr entered⟩
  · exact name_eq_ok.mpr ⟨_, entered, (faithful.find?_iff spelling _).mp interned⟩
  · intro other known
    show (before.lexicon.intern spelling).2.find? other = _
    by_cases same : other = spelling
    · obtain ⟨symbol, found⟩ := Option.isSome_iff_exists.mp (known.resolve_left (not_not_intro same))
      rw [found]
      exact Lexicon.find?_intern_of_find? found spelling
    · exact Lexicon.find?_intern_other _ (Ne.symm same)
  · intro other different
    have symbol : (before.lexicon.intern spelling).2.find? other = before.lexicon.find? other :=
      Lexicon.find?_intern_other _ (Ne.symm different)
    show ((before.lexicon.intern spelling).2.find? other).bind _ = (before.lexicon.find? other).bind _
    rw [symbol]
    cases known : before.lexicon.find? other with
    | none => rfl
    | some name =>
      rw [Option.bind_some, Option.bind_some, Canonical.bound?_allocate, if_neg]
      · rfl
      -- Two spellings of a faithful lexicon do not share a symbol.
      · rintro rfl
        exact different (faithful.eq_of_find? (symbol.trans known) interned)
  · intro old record found
    have inside : old.index < before.size := (Array.getElem?_eq_some_iff.mp (Registry.get_eq_ok_iff.mp found)).choose
    refine Registry.get_eq_ok_iff.mpr ?_
    rw [Canonical.get?_allocate, if_neg (Nat.ne_of_lt inside : old.index ≠ (before.intern spelling).2.size)]
    exact Registry.get_eq_ok_iff.mp found

end Table

namespace Work

theorem get_on_known {checks : Checks} (behaviour : S → String → Script S σ) (depth : Nat) {spelling : String}
    {session : Session S σ} {id : IdentifierId} (found : session.table.find? spelling = some id) :
    (get checks behaviour depth spelling).on session = (.ok id, session) := by
  obtain ⟨symbol, interned, bound⟩ := Table.find?_eq_some.mp found
  have looked (consult : String → List (Attached S) → Work S σ (Option IdentifierId)) :
      (getBy consult spelling).on session = (.ok id, session) := by
    unfold getBy
    rw [on_bind, onTable_on, Table.intern_of_find? interned]
    dsimp only
    rw [on_bind, look_on]
    dsimp only
    rw [bound]
    rfl
  cases depth with
  | zero => exact looked _
  | succ depth => exact looked _

end Work

/-- In every session that programs lead to, as long as there are handles and symbols left: with checks a spelling that is
bound is refused, and the session stays as it was. Otherwise the spelling gets a new record and the rest of the table
stays as it was; nobody is asked, the chain stays, and the record is what the spelling is looked up as. -/
theorem creations_bind_fresh_records {checks : Checks} {before : Session S σ} (reachable : before.Reachable checks)
    (records : before.table.size < 4294967294) (symbols : before.table.lexicon.size < 4294967294) (spelling : String) :
    (checks = .enabled ∧ (before.table.find? spelling).isSome →
      (Work.create checks spelling).on before = (.error (.alreadyBound spelling), before)) ∧
    (¬(checks = .enabled ∧ (before.table.find? spelling).isSome) →
      ∃ id table, (Work.create checks spelling).on before = (.ok id, { before with table }) ∧
        Table.Creates spelling id before.table table ∧
        ∀ (behaviour : S → String → Script S σ) (depth : Nat),
          (Work.get checks behaviour depth spelling).on { before with table } = (.ok id, { before with table })) := by
  have orderly := reachable.orderly (by omega)
  have looked := orderly.bound?_intern (by omega) spelling
  rw [Work.create_on, Table.create]
  dsimp only
  rw [looked]
  constructor
  · intro refused
    obtain ⟨id, found⟩ := Option.isSome_iff_exists.mp refused.2
    obtain ⟨symbol, interned, -⟩ := Table.find?_eq_some.mp found
    rw [if_pos refused, Table.intern_of_find? interned]
  · intro accepted
    rw [if_neg accepted]
    have creates := orderly.creates (by omega) (by omega) spelling
    exact ⟨_, _, rfl, creates, fun behaviour depth => Work.get_on_known behaviour depth creates.found⟩

def lookedUp (checks : Checks) : Session Unit Unit :=
  ((Work.perform checks (Work.get checks (fun _ _ => .answer none) 0) (.get "a" fun id => .answer (some id))).on
    (.start ())).2

theorem bound_spelling_is_refused_or_bound_anew : (lookedUp .enabled).table.find? "a" = some ⟨0⟩ ∧
    (Work.create .enabled "a").on (lookedUp .enabled) = (.error (.alreadyBound "a"), lookedUp .enabled) ∧
    (lookedUp .disabled).table.find? "a" = some ⟨0⟩ ∧
    ∃ id table, (Work.create .disabled "a").on (lookedUp .disabled) = (.ok id, { lookedUp .disabled with table }) ∧
      id.index = 1 ∧ table.find? "a" = some id ∧ table.info ⟨0⟩ = (lookedUp .disabled).table.info ⟨0⟩ := by
  have reachable (checks : Checks) : (lookedUp checks).Reachable checks := .run (.start ()) _ 0 _
  have found : (lookedUp .enabled).table.find? "a" = some ⟨0⟩ := by cbv
  have also : (lookedUp .disabled).table.find? "a" = some ⟨0⟩ := by cbv
  obtain ⟨refused, -⟩ := creations_bind_fresh_records (reachable .enabled) (by cbv) (by cbv) "a"
  obtain ⟨-, accepted⟩ := creations_bind_fresh_records (reachable .disabled) (by cbv) (by cbv) "a"
  obtain ⟨id, table, created, creates, -⟩ := accepted (by simp)
  refine ⟨found, refused ⟨rfl, Option.isSome_of_mem found⟩, also, id, table, created, ?_, creates.found, ?_⟩
  · rw [creates.next]
    cbv
  · have read : (lookedUp .disabled).table.info ⟨0⟩ = .ok (.fresh (.atIndex 0)) := by cbv
    rw [creates.records ⟨0⟩ _ read, read]

end Canon.Identifier
