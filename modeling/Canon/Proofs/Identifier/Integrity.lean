import Mathlib.Data.List.Chain
import Canon.Proofs.Identifier.Distinct
import Canon.Proofs.Identifier.Getting

/-!
The integrity of runs, whatever sources answer. As long as symbols are left, tables stay distinct, a look-up leaves
no other spelling unbound than it has found unbound, and a binding changes only to what a source has just answered.
-/
namespace Canon.Identifier
variable {S σ : Type}

def Moment.answer? (moment : Moment) : Option (String × IdentifierId) :=
  match moment.asked, moment.deed with
  | some spelling, .answered (some id) => some (spelling, id)
  | _, _ => none

/-- Bindings are kept, but a spelling that has been answered may be bound to the answer. -/
def Table.Leads (answer : Option (String × IdentifierId)) (before after : Table) : Prop :=
  ∀ spelling id, before.find? spelling = some id →
    after.find? spelling = some id ∨ ∃ other, answer = some (spelling, other) ∧ after.find? spelling = some other

namespace Table.Leads
variable {answer : Option (String × IdentifierId)} {before middle after : Table}

theorem refl (answer : Option (String × IdentifierId)) (table : Table) : table.Leads answer table :=
  fun _ _ found => .inl found

theorem extend (leads : before.Leads answer middle) (extended : middle.Extends after) : before.Leads answer after := by
  intro spelling id found
  rcases leads spelling id found with kept | ⟨other, same, bound⟩
  · exact .inl (extended.find? kept)
  · exact .inr ⟨other, same, extended.find? bound⟩

theorem bind {spelling : String} {symbol : Symbol} {id : IdentifierId} (leads : before.Leads answer middle)
    (distinct : middle.Distinct) (interned : middle.lexicon.find? spelling = some symbol)
    (answered : answer = some (spelling, id)) : before.Leads answer (middle.bind symbol id) := by
  intro other number found
  rw [distinct.find?_bind interned id other]
  by_cases same : other = spelling
  · rw [if_pos same, same]
    exact .inr ⟨id, answered, rfl⟩
  · rw [if_neg same]
    exact leads other number found

theorem isSome {spelling : String} (leads : before.Leads answer after) (bound : (before.find? spelling).isSome) :
    (after.find? spelling).isSome := by
  obtain ⟨id, found⟩ := Option.isSome_iff_exists.mp bound
  rcases leads spelling id found with kept | ⟨other, -, rebound⟩
  · rw [kept]
    rfl
  · rw [rebound]
    rfl

end Table.Leads

/-- The table of a moment is distinct and bears the deed out; between the operations of the run itself nothing is
pending. -/
structure Moment.Sound (moment : Moment) : Prop where
  distinct : moment.table.Distinct
  yields : ∀ spelling id, moment.deed.yields? = some (spelling, id) → moment.table.find? spelling = some id
  settled : moment.asked = none → ∀ spelling, ¬moment.table.Pending spelling

structure Sound (session : Session S (σ × List Moment)) : Prop where
  distinct : session.table.Distinct
  moments : ∀ moment ∈ session.history, moment.Sound
  linked : session.history.IsChain fun first second => first.table.Leads first.answer? second.table
  latest : ∀ moment ∈ session.history.getLast?, moment.table.Leads moment.answer? session.table

/-- A stretch of a run keeps a session sound as long as symbols are left, and leaves nothing pending but what was
pending before and the spellings given. -/
structure Keeps (pending : List String) (before after : Session S (σ × List Moment)) : Prop where
  grown : before.table.lexicon.size ≤ after.table.lexicon.size
  symbols : ∀ spelling symbol, before.table.lexicon.find? spelling = some symbol →
    after.table.lexicon.find? spelling = some symbol
  sound : after.table.lexicon.size < 4294967295 → Sound before → Sound after
  rest : after.table.lexicon.size < 4294967295 → Sound before → ∀ spelling, after.table.Pending spelling →
    before.table.Pending spelling ∨ spelling ∈ pending

namespace Keeps
variable {pending more : List String} {before middle after : Session S (σ × List Moment)} {spelling : String}
  {symbol : Symbol} {id : IdentifierId}

theorem trans (first : Keeps pending before middle) (second : Keeps more middle after) :
    Keeps (pending ++ more) before after where
  grown := Nat.le_trans first.grown second.grown
  symbols spelling symbol known := second.symbols spelling symbol (first.symbols spelling symbol known)
  sound room sound := second.sound room (first.sound (Nat.lt_of_le_of_lt second.grown room) sound)
  rest room sound spelling left := by
    have earlier : middle.table.lexicon.size < 4294967295 := Nat.lt_of_le_of_lt second.grown room
    rcases second.rest room (first.sound earlier sound) spelling left with still | new
    · rcases first.rest earlier sound spelling still with old | given
      · exact .inl old
      · exact .inr (List.mem_append_left _ given)
    · exact .inr (List.mem_append_right _ new)

theorem of_extends (history : after.history = before.history)
    (grown : before.table.lexicon.size ≤ after.table.lexicon.size) (extended : before.table.Extends after.table)
    (distinct : after.table.lexicon.size < 4294967295 → before.table.Distinct → after.table.Distinct)
    (rest : ∀ spelling, after.table.Pending spelling → before.table.Pending spelling ∨ spelling ∈ pending) :
    Keeps pending before after where
  grown := grown
  symbols := extended.symbols
  sound room sound := by
    refine ⟨distinct room sound.distinct, ?_, ?_, ?_⟩
    · rw [history]
      exact sound.moments
    · rw [history]
      exact sound.linked
    · rw [history]
      intro moment last
      exact (sound.latest moment last).extend extended
  rest _ _ := rest

theorem of_same (table : after.table = before.table) (history : after.history = before.history) :
    Keeps [] before after := by
  apply of_extends history
  · exact Nat.le_of_eq (by rw [table])
  · rw [table]
    exact .refl before.table
  · intro _ distinct
    rw [table]
    exact distinct
  · intro spelling left
    rw [table] at left
    exact .inl left

theorem intern (session : Session S (σ × List Moment)) (spelling : String) :
    Keeps [spelling] session { session with table := (session.table.intern spelling).2 } := by
  have grown := Lexicon.size_le_intern session.table.lexicon spelling
  refine of_extends rfl grown (Table.extends_intern session.table spelling) ?_ ?_
  · intro room distinct
    exact distinct.intern (Nat.lt_of_le_of_lt grown room) spelling
  · intro other left
    rcases Table.pending_of_intern left with old | same
    · exact .inl old
    · exact .inr (List.mem_singleton.mpr same)

theorem allocate (session : Session S (σ × List Moment))
    (interned : session.table.lexicon.find? spelling = some symbol) (unbound : session.table.bound? symbol = none) :
    Keeps [] session { session with table := (session.table.allocate symbol).2 } := by
  refine of_extends rfl (Nat.le_refl _) (Table.Canonical.extends_allocate unbound) ?_ ?_
  · intro _ distinct
    exact distinct.allocate interned unbound
  · intro other left
    exact .inl ((Table.Grows.allocate session.table symbol).pending rfl left)

theorem modify (session : Session S (σ × List Moment)) (id : IdentifierId) {change : Record → Record}
    (kept : ∀ record, session.table.records.get? id = some record → (change record).entry = record.entry) :
    Keeps [] session { session with table := session.table.modify id change } := by
  refine of_extends rfl (Nat.le_refl _) ⟨fun _ _ known => known, fun _ _ bound => bound⟩ ?_ ?_
  · intro _ distinct
    exact distinct.modify kept
  · intro other left
    exact .inl left

theorem bind (session : Session S (σ × List Moment))
    (interned : session.table.lexicon.find? spelling = some symbol)
    (answered : ∃ moment ∈ session.history.getLast?, moment.answer? = some (spelling, id)) :
    Keeps [] session { session with table := session.table.bind symbol id } where
  grown := Nat.le_refl _
  symbols _ _ known := known
  sound _ sound := by
    refine ⟨sound.distinct.bind interned id, sound.moments, sound.linked, ?_⟩
    intro moment last
    obtain ⟨other, also, answer⟩ := answered
    obtain rfl := Option.mem_unique last also
    exact (sound.latest moment last).bind sound.distinct interned answer
  rest _ _ other left := .inl ((Table.Grows.bind session.table symbol id).pending rfl left)

theorem settle (keeps : Keeps [spelling] before after)
    (found : after.table.lexicon.size < 4294967295 → Sound before → after.table.find? spelling = some id) :
    Keeps [] before after where
  grown := keeps.grown
  symbols := keeps.symbols
  sound := keeps.sound
  rest room sound other left := by
    rcases keeps.rest room sound other left with old | given
    · exact .inl old
    · rw [List.mem_singleton.mp given] at left
      exact absurd left (Table.not_pending_of_find? (found room sound))

theorem noted {asked : Option String} {deed : Deed} (keeps : Keeps [] before after)
    (yields : after.table.lexicon.size < 4294967295 → Sound before → ∀ spelling id,
      deed.yields? = some (spelling, id) → after.table.find? spelling = some id)
    (settled : asked = none → ∀ spelling, ¬before.table.Pending spelling) :
    Keeps [] before (after.noted asked deed) where
  grown := keeps.grown
  symbols := keeps.symbols
  sound room sound := by
    have kept := keeps.sound room sound
    have new : Moment.Sound ⟨asked, deed, after.table⟩ := by
      refine ⟨kept.distinct, yields room sound, fun outer spelling left => ?_⟩
      rcases keeps.rest room sound spelling left with old | none
      · exact settled outer spelling old
      · cases none
    refine ⟨kept.distinct, ?_, ?_, ?_⟩
    · intro moment member
      rcases List.mem_append.mp member with old | last
      · exact kept.moments moment old
      · rw [List.mem_singleton.mp last]
        exact new
    · refine List.isChain_append.mpr ⟨kept.linked, List.isChain_singleton _, ?_⟩
      intro moment last next first
      obtain rfl : _ = next := Option.some.inj first
      exact kept.latest moment last
    · intro moment last
      have same : (after.noted asked deed).history.getLast? = some ⟨asked, deed, after.table⟩ :=
        List.getLast?_concat
      rw [same, Option.mem_some_iff] at last
      rw [← last]
      exact .refl _ _
  rest := keeps.rest

end Keeps

/-- Getting a record keeps sessions sound, and the record is bound to the spelling then. -/
def Fetches (getting : String → Work S (σ × List Moment) IdentifierId) : Prop :=
  ∀ spelling before id after, (getting spelling).on before = (.ok id, after) → Keeps [] before after ∧
    (after.table.lexicon.size < 4294967295 → Sound before → after.table.find? spelling = some id)

namespace Work
variable {before after : Session S (σ × List Moment)} {spelling : String} {id : IdentifierId}
  {getting : String → Work S (σ × List Moment) IdentifierId}

theorem create_keeps (outcome : (create .enabled spelling).on before = (.ok id, after)) :
    Keeps [] before after ∧ after.table.find? spelling = some id := by
  have interned := before.table.symbol_intern spelling
  obtain ⟨unbound, rfl, rfl⟩ := create_eq_ok outcome
  have found := Table.find?_allocate_self interned
  have allocated := Keeps.allocate { before with table := (before.table.intern spelling).2 } interned unbound
  exact ⟨((Keeps.intern before spelling).trans allocated).settle fun _ _ => found, found⟩

theorem update_keeps {setter : Setter} (outcome : (update .enabled id setter).on before = (.ok (), after)) :
    Keeps [] before after := by
  obtain ⟨change, kept, rfl⟩ := update_eq_ok outcome
  exact Keeps.modify before id kept

theorem registerKeyword_keeps (fetches : Fetches getting) {active : ActiveKeyword}
    (outcome : (registerKeyword getting active).on before = (.ok (), after)) : Keeps [] before after := by
  obtain ⟨id, middle, got, change, kept, rfl⟩ := registerKeyword_eq_ok outcome
  exact (fetches _ _ _ _ got).1.trans (.modify middle id kept)

theorem registerKeywords_keeps (fetches : Fetches getting) {dialect : Dialect}
    (outcome : (registerKeywords getting dialect).on before = (.ok (), after)) : Keeps [] before after := by
  unfold registerKeywords at outcome
  generalize dialect.keywords = keywords at outcome
  induction keywords generalizing before with
  | nil =>
    cases outcome
    exact .of_same rfl rfl
  | cons active rest ih =>
    obtain ⟨⟨⟩, middle, first, outcome⟩ := bind_eq_ok outcome
    exact (registerKeyword_keeps fetches first).trans (ih outcome)

theorem does_keeps (fetches : Fetches getting) {deed : Deed} (does : Deed.Does .enabled getting deed before after) :
    Keeps [] before after ∧ (after.table.lexicon.size < 4294967295 → Sound before → ∀ spelling id,
      deed.yields? = some (spelling, id) → after.table.find? spelling = some id) := by
  cases does with
  | looked => exact ⟨.of_same rfl rfl, fun _ _ _ _ none => by cases none⟩
  | got outcome =>
    obtain ⟨keeps, found⟩ := fetches _ _ _ _ outcome
    refine ⟨keeps, fun room sound spelling id same => ?_⟩
    cases same
    exact found room sound
  | created outcome =>
    obtain ⟨keeps, found⟩ := create_keeps outcome
    refine ⟨keeps, fun _ _ spelling id same => ?_⟩
    cases same
    exact found
  | updated outcome => exact ⟨update_keeps outcome, fun _ _ _ _ none => by cases none⟩
  | registered outcome => exact ⟨registerKeywords_keeps fetches outcome, fun _ _ _ _ none => by cases none⟩
  | rewired table history => exact ⟨.of_same table history, fun _ _ _ _ none => by cases none⟩

theorem beats_keep (fetches : Fetches getting) {asked : Option String}
    (settled : asked = none → ∀ spelling, ¬before.table.Pending spelling)
    (beats : Relation.ReflTransGen (Beat .enabled getting asked) before after) : Keeps [] before after := by
  induction beats with
  | refl => exact .of_same rfl rfl
  | tail _ beat ih =>
    cases beat with
    | quiet table history => exact ih.trans (.of_same table history)
    | deed does =>
      obtain ⟨keeps, yields⟩ := does_keeps fetches does
      refine (ih.trans keeps).noted ?_ settled
      intro room sound
      exact yields room (ih.sound (Nat.lt_of_le_of_lt keeps.grown room) sound)

theorem perform_keeps (fetches : Fetches getting) {asked : Option String} {script : Script S σ}
    {answer : Option IdentifierId} (settled : asked = none → ∀ spelling, ¬before.table.Pending spelling)
    (outcome : (perform .enabled getting (script.recorded asked)).on before = (.ok answer, after)) :
    Keeps [] before after ∧ after.history.getLast? = some ⟨asked, .answered answer, after.table⟩ := by
  obtain ⟨middle, beats, rfl⟩ := perform_beats asked script outcome
  refine ⟨(beats_keep fetches settled beats).noted (fun _ _ _ _ none => by cases none) settled, ?_⟩
  exact List.getLast?_concat

theorem consult_keeps (fetches : Fetches getting) (behaviour : S → String → Script S σ) (chain : List (Attached S))
    {found : Option IdentifierId}
    (outcome : (consult .enabled (recordedSources behaviour) getting spelling chain).on before = (.ok found, after)) :
    Keeps [] before after ∧
      ∀ id, found = some id → ∃ moment ∈ after.history.getLast?, moment.answer? = some (spelling, id) := by
  induction chain generalizing before with
  | nil =>
    cases outcome
    exact ⟨.of_same rfl rfl, fun _ none => by cases none⟩
  | cons source rest ih =>
    obtain ⟨⟨⟩, begun, asked, outcome⟩ := bind_eq_ok outcome
    have started : Keeps [] before begun := by
      cases asked
      exact .of_same rfl rfl
    obtain ⟨answer, middle, performed, outcome⟩ := bind_eq_ok outcome
    obtain ⟨performs, last⟩ := perform_keeps fetches (fun outer => by cases outer) performed
    cases answer with
    | some id =>
      cases outcome
      refine ⟨started.trans performs, fun number same => ?_⟩
      cases same
      exact ⟨_, last, rfl⟩
    | none =>
      obtain ⟨keeps, found⟩ := ih outcome
      exact ⟨(started.trans performs).trans keeps, found⟩

theorem getBy_fetches {consult : String → List (Attached S) → Work S (σ × List Moment) (Option IdentifierId)}
    (consults : ∀ spelling chain before found after, (consult spelling chain).on before = (.ok found, after) →
      Keeps [] before after ∧
        ∀ id, found = some id → ∃ moment ∈ after.history.getLast?, moment.answer? = some (spelling, id)) :
    Fetches (getBy consult) := by
  intro spelling before id after outcome
  have interns := Keeps.intern before spelling
  have interned := before.table.symbol_intern spelling
  have through {later : Session S (σ × List Moment)} {found : Option IdentifierId}
      (consulted : (consult spelling before.chain).on
        { before with table := (before.table.intern spelling).2, chain := [] } = (.ok found, later)) :
      Keeps [spelling] before { later with chain := before.chain ++ later.chain } ∧
        later.table.lexicon.find? spelling = some (before.table.intern spelling).1 := by
    have detached : Keeps [] { before with table := (before.table.intern spelling).2 }
        { before with table := (before.table.intern spelling).2, chain := [] } := .of_same rfl rfl
    have asks := (consults _ _ _ _ _ consulted).1
    have reattached : Keeps [] later { later with chain := before.chain ++ later.chain } := .of_same rfl rfl
    exact ⟨((interns.trans detached).trans asks).trans reattached, asks.symbols _ _ interned⟩
  cases getBy_ending outcome with
  | known bound =>
    have found := Table.find?_eq_some.mpr ⟨_, interned, bound⟩
    exact ⟨interns.settle fun _ _ => found, fun _ _ => found⟩
  | alone unbound chain =>
    have found := Table.find?_allocate_self interned
    exact ⟨(interns.trans (.allocate _ interned unbound)).settle fun _ _ => found, fun _ _ => found⟩
  | @answered _ later unbound consulted =>
    obtain ⟨keeps, known⟩ := through consulted
    have noted := (consults _ _ _ _ _ consulted).2 id rfl
    have binds := Keeps.bind { later with chain := before.chain ++ later.chain } known noted
    have found (room : later.table.lexicon.size < 4294967295) (sound : Sound before) :
        (later.table.bind (before.table.intern spelling).1 id).find? spelling = some id := by
      rw [(keeps.sound room sound).distinct.find?_bind known id, if_pos rfl]
    exact ⟨(keeps.trans binds).settle found, found⟩
  | kept unbound consulted bound =>
    obtain ⟨keeps, known⟩ := through consulted
    have found := Table.find?_eq_some.mpr ⟨_, known, bound⟩
    exact ⟨keeps.settle fun _ _ => found, fun _ _ => found⟩
  | missed unbound consulted still =>
    obtain ⟨keeps, known⟩ := through consulted
    have found := Table.find?_allocate_self known
    exact ⟨(keeps.trans (.allocate _ known still)).settle fun _ _ => found, fun _ _ => found⟩

/-- Whatever sources do, and whatever they answer, getting a record keeps sessions sound. -/
theorem get_fetches (behaviour : S → String → Script S σ) (depth : Nat) :
    Fetches (get .enabled (recordedSources behaviour) depth) := by
  -- A source gets records at a smaller depth, and at depth zero no source can be asked.
  induction depth with
  | zero =>
    refine getBy_fetches fun spelling chain before found after outcome => ?_
    cases outcome
  | succ depth ih =>
    exact getBy_fetches fun spelling chain before found after outcome => consult_keeps ih behaviour chain outcome

end Work
end Canon.Identifier
