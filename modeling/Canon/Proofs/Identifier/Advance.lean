import Mathlib.Logic.Relation
import Canon.Proofs.Identifier.Canonical
import Canon.Proofs.Identifier.Recording

/-!
How a recorded run advances. As long as the sources answer with records of the spelling they were asked about, and
symbols are left, every stretch of a run keeps the table canonical and adds bindings only.
-/
namespace Canon.Identifier
variable {S σ : Type}

def Deed.passed : Deed → List String
  | .got spelling _ => [spelling]
  | .created spelling _ => [spelling]
  | .registered dialect => dialect.keywords.map ActiveKeyword.spelling
  | _ => []

def passed (history : List Moment) : List String := history.flatMap (·.deed.passed)

def Deed.yields? : Deed → Option (String × IdentifierId)
  | .got spelling id => some (spelling, id)
  | .created spelling id => some (spelling, id)
  | _ => none

/-- What a deed has passed is bound, and what it has yielded is the record of its spelling. -/
structure Deed.Holds (table : Table) (deed : Deed) : Prop where
  passed : ∀ spelling ∈ deed.passed, (table.find? spelling).isSome
  yields : ∀ spelling id, deed.yields? = some (spelling, id) → table.find? spelling = some id

theorem Deed.Holds.of_found {table : Table} {deed : Deed} {spelling : String} {id : IdentifierId}
    (passed : deed.passed = [spelling]) (yields : deed.yields? = some (spelling, id))
    (found : table.find? spelling = some id) : deed.Holds table where
  passed other member := by
    rw [passed, List.mem_singleton] at member
    rw [member, found]
    rfl
  yields other number same := by
    rw [yields, Option.some.injEq, Prod.mk.injEq] at same
    obtain ⟨rfl, rfl⟩ := same
    exact found

theorem Deed.Holds.of_silent {deed : Deed} (passed : deed.passed = []) (yields : deed.yields? = none)
    (table : Table) : deed.Holds table where
  passed spelling member := by
    rw [passed] at member
    cases member
  yields spelling id same := by
    rw [yields] at same
    cases same

/-- The sources answer with nothing, or with a record that is spelled as they were asked. -/
def Honest (history : List Moment) : Prop :=
  ∀ moment ∈ history, ∀ spelling id, moment.asked = some spelling → moment.deed = .answered (some id) →
    moment.table.name id = .ok spelling

/-- Moments between two tables: each table extends the ones before it, is canonical and bears the deed out. -/
structure Chronicle (before : Table) (later : List Moment) (after : Table) : Prop where
  whole : before.Extends after
  past : ∀ moment ∈ later, before.Extends moment.table
  future : ∀ moment ∈ later, moment.table.Extends after
  ordered : later.Pairwise fun first second => first.table.Extends second.table
  canonical : ∀ moment ∈ later, moment.table.Canonical
  holds : ∀ moment ∈ later, moment.deed.Holds moment.table

namespace Chronicle
variable {before middle after : Table} {early late : List Moment}

theorem nil (extended : before.Extends after) : Chronicle before [] after :=
  ⟨extended, by simp, by simp, List.Pairwise.nil, by simp, by simp⟩

theorem append (first : Chronicle before early middle) (second : Chronicle middle late after) :
    Chronicle before (early ++ late) after where
  whole := first.whole.trans second.whole
  past moment member := by
    rcases List.mem_append.mp member with old | new
    · exact first.past moment old
    · exact first.whole.trans (second.past moment new)
  future moment member := by
    rcases List.mem_append.mp member with old | new
    · exact (first.future moment old).trans second.whole
    · exact second.future moment new
  ordered := by
    refine List.pairwise_append.mpr ⟨first.ordered, second.ordered, ?_⟩
    intro left old right new
    exact (first.future left old).trans (second.past right new)
  canonical moment member := by
    rcases List.mem_append.mp member with old | new
    · exact first.canonical moment old
    · exact second.canonical moment new
  holds moment member := by
    rcases List.mem_append.mp member with old | new
    · exact first.holds moment old
    · exact second.holds moment new

theorem single (asked : Option String) (deed : Deed) (canonical : before.Canonical) (holds : deed.Holds before) :
    Chronicle before [⟨asked, deed, before⟩] before where
  whole := .refl before
  past moment member := by
    rw [List.mem_singleton.mp member]
    exact .refl before
  future moment member := by
    rw [List.mem_singleton.mp member]
    exact .refl before
  ordered := List.pairwise_singleton _ _
  canonical moment member := by
    rw [List.mem_singleton.mp member]
    exact canonical
  holds moment member := by
    rw [List.mem_singleton.mp member]
    exact holds

end Chronicle

/-- The sources have been honest so far, and there are symbols left. -/
structure Fair (session : Session S (σ × List Moment)) : Prop where
  honest : Honest session.history
  room : session.table.lexicon.size < 4294967295

/-- From a canonical table on, a stretch of a fair run leads to a canonical table that has in addition the bindings
of the given names, and of what the moments of the stretch have passed. -/
structure Binds (names : List String) (before after : Session S (σ × List Moment)) : Prop where
  canonical : after.table.Canonical
  told : ∃ later, after.history = before.history ++ later ∧ (∀ moment ∈ later, moment.asked ≠ none) ∧
    Chronicle before.table later after.table ∧ ∀ spelling, (after.table.find? spelling).isSome ↔
      (before.table.find? spelling).isSome ∨ spelling ∈ names ∨ spelling ∈ passed later

structure Advances (names : List String) (before after : Session S (σ × List Moment)) : Prop where
  written : before.history <+: after.history
  grown : before.table.lexicon.size ≤ after.table.lexicon.size
  symbols : ∀ spelling symbol, before.table.lexicon.find? spelling = some symbol →
    after.table.lexicon.find? spelling = some symbol
  binds : Fair after → before.table.Canonical → Binds names before after

theorem passed_append (early late : List Moment) : passed (early ++ late) = passed early ++ passed late :=
  List.flatMap_append

namespace Advances
variable {names more : List String} {before middle after : Session S (σ × List Moment)} {spelling : String}
  {symbol : Symbol} {id : IdentifierId}

theorem fair (advances : Advances names before after) (fair : Fair after) : Fair before where
  honest moment member := fair.honest moment (advances.written.subset member)
  room := Nat.lt_of_le_of_lt advances.grown fair.room

theorem trans (first : Advances names before middle) (second : Advances more middle after) :
    Advances (names ++ more) before after where
  written := first.written.trans second.written
  grown := Nat.le_trans first.grown second.grown
  symbols spelling symbol known := second.symbols spelling symbol (first.symbols spelling symbol known)
  binds fair canonical := by
    obtain ⟨between, early, told, nested, one, added⟩ := first.binds (second.fair fair) canonical
    obtain ⟨last, late, again, also, two, bound⟩ := second.binds fair between
    refine ⟨last, early ++ late, by rw [again, told, List.append_assoc], ?_, one.append two, ?_⟩
    · intro moment member
      rcases List.mem_append.mp member with old | new
      · exact nested moment old
      · exact also moment new
    · intro spelling
      rw [bound, added, passed_append, List.mem_append, List.mem_append]
      tauto

theorem of_table (history : after.history = before.history)
    (grown : before.table.lexicon.size ≤ after.table.lexicon.size)
    (symbols : ∀ spelling symbol, before.table.lexicon.find? spelling = some symbol →
      after.table.lexicon.find? spelling = some symbol)
    (binds : Fair after → before.table.Canonical → after.table.Canonical ∧ before.table.Extends after.table ∧
      ∀ spelling, (after.table.find? spelling).isSome ↔ (before.table.find? spelling).isSome ∨ spelling ∈ names) :
    Advances names before after where
  written := history.symm ▸ List.prefix_refl _
  grown := grown
  symbols := symbols
  binds fair canonical := by
    obtain ⟨last, extended, bound⟩ := binds fair canonical
    refine ⟨last, [], by rw [history, List.append_nil], by simp, .nil extended, ?_⟩
    intro spelling
    rw [bound]
    simp [passed]

theorem of_same (table : after.table = before.table) (history : after.history = before.history) :
    Advances [] before after := by
  refine of_table history (Nat.le_of_eq (by rw [table])) (fun _ _ known => table ▸ known) fun _ canonical => ?_
  rw [table]
  exact ⟨canonical, .refl _, by simp⟩

theorem add (advances : Advances [] before after)
    (known : Fair after → before.table.Canonical → (after.table.find? spelling).isSome) :
    Advances [spelling] before after where
  written := advances.written
  grown := advances.grown
  symbols := advances.symbols
  binds fair canonical := by
    obtain ⟨last, later, told, nested, chronicle, bound⟩ := advances.binds fair canonical
    refine ⟨last, later, told, nested, chronicle, fun other => ?_⟩
    rw [bound]
    constructor
    · tauto
    · intro given
      rcases given with old | name | passed
      · exact .inl old
      · rw [← bound, List.mem_singleton.mp name]
        exact known fair canonical
      · exact .inr (.inr passed)

theorem bound (advances : Advances names before after) (fair : Fair after) (canonical : before.table.Canonical) :
    ∀ spelling ∈ names, (after.table.find? spelling).isSome := by
  obtain ⟨-, later, -, -, -, bound⟩ := advances.binds fair canonical
  exact fun spelling member => (bound spelling).mpr (.inr (.inl member))

theorem canonical (advances : Advances names before after) (fair : Fair after) (canonical : before.table.Canonical) :
    after.table.Canonical := (advances.binds fair canonical).canonical

theorem noted {deed : Deed} {source : String} (advances : Advances deed.passed before after)
    (holds : Fair after → before.table.Canonical → deed.Holds after.table) :
    Advances [] before (after.noted (some source) deed) where
  written := advances.written.trans (List.prefix_append _ _)
  grown := advances.grown
  symbols := advances.symbols
  binds fair canonical := by
    have before : Fair after :=
      ⟨fun moment member => fair.honest moment (List.mem_append_left _ member), fair.room⟩
    obtain ⟨last, later, told, nested, chronicle, bound⟩ := advances.binds before canonical
    refine ⟨last, later ++ [⟨some source, deed, after.table⟩], ?_, ?_, ?_, ?_⟩
    · rw [← List.append_assoc, ← told]
      rfl
    · intro moment member
      rcases List.mem_append.mp member with old | new
      · exact nested moment old
      · rw [List.mem_singleton.mp new]
        exact Option.some_ne_none source
    · exact chronicle.append (.single _ deed last (holds before canonical))
    · intro spelling
      rw [passed_append, List.mem_append]
      have same : passed [⟨some source, deed, after.table⟩] = deed.passed := by simp [passed]
      rw [same]
      refine (bound spelling).trans ?_
      simp only [List.not_mem_nil, false_or]
      tauto

end Advances

/-- A move of a recorded script: it changes only what is not recorded, or it does one deed. -/
inductive Move (asked : Option String) : Session S (σ × List Moment) → Session S (σ × List Moment) → Prop where
  | quiet {before after} (table : after.table = before.table) (history : after.history = before.history) :
    Move asked before after
  | deed {before after} (deed : Deed) (advances : Advances deed.passed before after)
    (holds : Fair after → before.table.Canonical → deed.Holds after.table) :
    Move asked before (after.noted asked deed)

theorem advances_of_moves {source : String} {before after : Session S (σ × List Moment)}
    (moves : Relation.ReflTransGen (Move (some source)) before after) : Advances [] before after := by
  induction moves with
  | refl => exact .of_same rfl rfl
  | tail _ step ih =>
    cases step with
    | quiet table history => exact ih.trans (.of_same table history)
    | deed deed advances holds => exact ih.trans (advances.noted holds)

end Canon.Identifier
