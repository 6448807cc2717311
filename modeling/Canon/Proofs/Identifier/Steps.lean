import Mathlib.Logic.Relation
import Canon.Proofs.Identifier.Recording

/-!
Runs taken apart. A recorded script goes from deed to deed, and a look-up ends in one of a few ways: what holds of
every deed and of every ending holds of every run. No change of a record touches its entry.
-/
namespace Canon.Identifier
variable {S σ : Type}

theorem Record.setMark_entry (mark : Mark) (value : Bool) (record : Record) :
    (record.setMark mark value).entry = record.entry := by
  unfold setMark
  split <;> rfl

theorem Record.setBuiltin_entry {checks : Checks} {id : UInt32} {record changed : Record}
    (set : record.setBuiltin checks id = .ok changed) : changed.entry = record.entry := by
  unfold setBuiltin at set
  split at set
  · cases set
  · exact Except.ok.inj set ▸ rfl

theorem Setter.apply_entry {checks : Checks} {setter : Setter} {record changed : Record}
    (applied : setter.apply checks record = .ok changed) : changed.entry = record.entry := by
  cases setter with
  | token kind => exact Except.ok.inj applied ▸ rfl
  | builtin id => exact Record.setBuiltin_entry applied
  | mark noted value => exact Except.ok.inj applied ▸ Record.setMark_entry noted value record
  | frontEnd data => exact Except.ok.inj applied ▸ rfl

theorem Record.classify_entry (keyword : Keyword) (extension : Bool) (record : Record) :
    (record.classify keyword extension).entry = record.entry :=
  Record.setMark_entry .extension extension _

namespace Work

theorem create_on (checks : Checks) (spelling : String) (session : Session S σ) : (create checks spelling).on session =
    ((session.table.create checks spelling).1, { session with table := (session.table.create checks spelling).2 }) := by
  unfold create
  rw [on_bind, onTable_on]
  dsimp only
  cases (session.table.create checks spelling).1 with
  | ok id => rfl
  | error fault => rfl

section
variable {checks : Checks} {getting : String → Work S σ IdentifierId} {before after : Session S σ} {id : IdentifierId}

theorem create_eq_ok {spelling : String} (outcome : (create .enabled spelling).on before = (.ok id, after)) :
    (before.table.intern spelling).2.bound? (before.table.intern spelling).1 = none ∧
      id = ((before.table.intern spelling).2.allocate (before.table.intern spelling).1).1 ∧
      after = { before with
        table := ((before.table.intern spelling).2.allocate (before.table.intern spelling).1).2 } := by
  rw [create_on] at outcome
  unfold Table.create at outcome
  dsimp only at outcome
  cases bound : (before.table.intern spelling).2.bound? (before.table.intern spelling).1 with
  | some number =>
    rw [bound, if_pos ⟨rfl, rfl⟩] at outcome
    cases outcome
  | none =>
    rw [bound, if_neg (by simp)] at outcome
    cases outcome
    exact ⟨rfl, rfl, rfl⟩

theorem update_applies {setter : Setter} (outcome : (update checks id setter).on before = (.ok (), after)) :
    ∃ record changed, before.table.info id = .ok record ∧ setter.apply checks record = .ok changed ∧
      after = { before with table := before.table.modify id fun _ => changed } := by
  obtain ⟨result, middle, looked, outcome⟩ := bind_eq_ok outcome
  cases looked
  dsimp only at outcome
  cases found : before.table.info id with
  | error fault =>
    rw [found] at outcome
    cases outcome
  | ok record =>
    rw [found] at outcome
    dsimp only at outcome
    cases applied : setter.apply checks record with
    | error fault =>
      rw [applied] at outcome
      cases outcome
    | ok changed =>
      rw [applied] at outcome
      cases outcome
      exact ⟨record, changed, rfl, applied, rfl⟩

theorem update_eq_ok {setter : Setter} (outcome : (update checks id setter).on before = (.ok (), after)) :
    ∃ change : Record → Record,
      (∀ record, before.table.records.get? id = some record → (change record).entry = record.entry) ∧
      after = { before with table := before.table.modify id change } := by
  obtain ⟨record, changed, found, applied, same⟩ := update_applies outcome
  refine ⟨fun _ => changed, fun other entered => ?_, same⟩
  rw [Registry.get_eq_ok_iff.mp found, Option.some.injEq] at entered
  exact entered ▸ Setter.apply_entry applied

theorem registerKeyword_classifies {active : ActiveKeyword}
    (outcome : (registerKeyword getting active).on before = (.ok (), after)) :
    ∃ id middle record, (getting active.spelling).on before = (.ok id, middle) ∧ middle.table.info id = .ok record ∧
      after = { middle with table := middle.table.modify id (·.classify active.keyword active.extension) } := by
  obtain ⟨id, middle, got, outcome⟩ := bind_eq_ok outcome
  obtain ⟨result, later, looked, outcome⟩ := bind_eq_ok outcome
  cases looked
  dsimp only at outcome
  cases found : middle.table.info id with
  | error fault =>
    rw [found] at outcome
    cases outcome
  | ok record =>
    rw [found] at outcome
    cases outcome
    exact ⟨id, middle, record, got, found, rfl⟩

theorem registerKeyword_on {active : ActiveKeyword} {record : Record}
    (got : (getting active.spelling).on before = (.ok id, after)) (entered : after.table.records.get? id = some record) :
    (registerKeyword getting active).on before =
      (.ok (), { after with table := after.table.modify id (·.classify active.keyword active.extension) }) := by
  unfold registerKeyword
  rw [on_bind, got]
  dsimp only
  rw [on_bind, look_on, Table.info, Registry.get_eq_ok_iff.mpr entered]
  rfl

theorem registerKeyword_eq_ok {active : ActiveKeyword}
    (outcome : (registerKeyword getting active).on before = (.ok (), after)) :
    ∃ id middle, (getting active.spelling).on before = (.ok id, middle) ∧ ∃ change : Record → Record,
      (∀ record, middle.table.records.get? id = some record → (change record).entry = record.entry) ∧
      after = { middle with table := middle.table.modify id change } := by
  obtain ⟨id, middle, -, got, -, rfl⟩ := registerKeyword_classifies outcome
  exact ⟨id, middle, got, _, fun record _ => Record.classify_entry active.keyword active.extension record, rfl⟩

end

end Work

inductive Deed.Does (checks : Checks) (getting : String → Work S (σ × List Moment) IdentifierId) :
    Deed → Session S (σ × List Moment) → Session S (σ × List Moment) → Prop where
  | looked (session) : Does checks getting .looked session session
  | got {spelling before id after} (outcome : (getting spelling).on before = (.ok id, after)) :
    Does checks getting (.got spelling id) before after
  | created {spelling before id after} (outcome : (Work.create checks spelling).on before = (.ok id, after)) :
    Does checks getting (.created spelling id) before after
  | updated {id setter before after} (outcome : (Work.update checks id setter).on before = (.ok (), after)) :
    Does checks getting (.updated id setter) before after
  | registered {dialect before after}
    (outcome : (Work.registerKeywords getting dialect).on before = (.ok (), after)) :
    Does checks getting (.registered dialect) before after
  | rewired {before after} (table : after.table = before.table) (history : after.history = before.history) :
    Does checks getting .rewired before after

/-- A step of a recorded script: it changes only what is not recorded, or it does one deed and notes it. -/
inductive Beat (checks : Checks) (getting : String → Work S (σ × List Moment) IdentifierId) (asked : Option String) :
    Session S (σ × List Moment) → Session S (σ × List Moment) → Prop where
  | quiet {before after} (table : after.table = before.table) (history : after.history = before.history) :
    Beat checks getting asked before after
  | deed {before after deed} (does : Deed.Does checks getting deed before after) :
    Beat checks getting asked before (after.noted asked deed)

namespace Work
variable {checks : Checks} {getting : String → Work S (σ × List Moment) IdentifierId}
  {before after : Session S (σ × List Moment)}

theorem perform_beats (asked : Option String) (script : Script S σ) {answer : Option IdentifierId}
    (outcome : (perform checks getting (script.recorded asked)).on before = (.ok answer, after)) :
    ∃ middle, Relation.ReflTransGen (Beat checks getting asked) before middle ∧
      after = middle.noted asked (.answered answer) := by
  induction script generalizing before with
  | answer id =>
    cases outcome
    exact ⟨before, .refl, rfl⟩
  | fail fault => cases outcome
  | observe next ih =>
    obtain ⟨table, middle, looked, outcome⟩ := bind_eq_ok outcome
    cases looked
    obtain ⟨last, beats, same⟩ := ih before.table outcome
    exact ⟨last, .head (.deed (.looked before)) beats, same⟩
  | get spelling next ih =>
    obtain ⟨id, middle, got, outcome⟩ := bind_eq_ok outcome
    obtain ⟨last, beats, same⟩ := ih id outcome
    exact ⟨last, .head (.deed (.got got)) beats, same⟩
  | create spelling next ih =>
    obtain ⟨id, middle, created, outcome⟩ := bind_eq_ok outcome
    obtain ⟨last, beats, same⟩ := ih id outcome
    exact ⟨last, .head (.deed (.created created)) beats, same⟩
  | update id setter next ih =>
    obtain ⟨⟨⟩, middle, updated, outcome⟩ := bind_eq_ok outcome
    obtain ⟨last, beats, same⟩ := ih outcome
    exact ⟨last, .head (.deed (.updated updated)) beats, same⟩
  | addKeywords dialect next ih =>
    obtain ⟨⟨⟩, middle, registered, outcome⟩ := bind_eq_ok outcome
    obtain ⟨last, beats, same⟩ := ih outcome
    exact ⟨last, .head (.deed (.registered registered)) beats, same⟩
  | attach source next ih =>
    obtain ⟨⟨⟩, middle, attached, outcome⟩ := bind_eq_ok outcome
    have rewires : Deed.Does checks getting .rewired before middle := by
      cases attached
      exact .rewired rfl rfl
    obtain ⟨last, beats, same⟩ := ih outcome
    exact ⟨last, .head (.deed rewires) beats, same⟩
  | replace source next ih =>
    obtain ⟨⟨⟩, middle, replaced, outcome⟩ := bind_eq_ok outcome
    have rewires : Deed.Does checks getting .rewired before middle := by
      cases replaced
      exact .rewired rfl rfl
    obtain ⟨last, beats, same⟩ := ih outcome
    exact ⟨last, .head (.deed rewires) beats, same⟩
  | clear next ih =>
    obtain ⟨⟨⟩, middle, cleared, outcome⟩ := bind_eq_ok outcome
    have rewires : Deed.Does checks getting .rewired before middle := by
      cases cleared
      exact .rewired rfl rfl
    obtain ⟨last, beats, same⟩ := ih outcome
    exact ⟨last, .head (.deed rewires) beats, same⟩
  | retrieve next ih => exact ih before.memory.1 outcome
  | remember memory next ih =>
    have quiet : Beat checks getting asked before { before with memory := (memory, before.memory.2) } := .quiet rfl rfl
    have rest : (perform checks getting (next.recorded asked)).on
        { before with memory := (memory, before.memory.2) } = (.ok answer, after) := outcome
    obtain ⟨last, beats, same⟩ := ih rest
    exact ⟨last, .head quiet beats, same⟩

end Work

inductive Ending (consult : List (Attached S) → Work S σ (Option IdentifierId)) (symbol : Symbol)
    (begun : Session S σ) : Except Fault IdentifierId → Session S σ → Prop where
  | known {id} (bound : begun.table.bound? symbol = some id) : Ending consult symbol begun (.ok id) begun
  | alone (unbound : begun.table.bound? symbol = none) (chain : begun.chain = []) :
    Ending consult symbol begun (.ok (begun.table.allocate symbol).1)
      { begun with table := (begun.table.allocate symbol).2 }
  /-- A source has broken down; the chain is lost. -/
  | failed {fault later} (unbound : begun.table.bound? symbol = none)
    (consulted : (consult begun.chain).on { begun with chain := [] } = (.error fault, later)) :
    Ending consult symbol begun (.error fault) later
  | answered {id later} (unbound : begun.table.bound? symbol = none)
    (consulted : (consult begun.chain).on { begun with chain := [] } = (.ok (some id), later)) :
    Ending consult symbol begun (.ok id)
      { later with chain := begun.chain ++ later.chain, table := later.table.bind symbol id }
  /-- A source has bound the symbol without answering. -/
  | kept {id later} (unbound : begun.table.bound? symbol = none)
    (consulted : (consult begun.chain).on { begun with chain := [] } = (.ok none, later))
    (bound : later.table.bound? symbol = some id) :
    Ending consult symbol begun (.ok id) { later with chain := begun.chain ++ later.chain }
  | missed {later} (unbound : begun.table.bound? symbol = none)
    (consulted : (consult begun.chain).on { begun with chain := [] } = (.ok none, later))
    (still : later.table.bound? symbol = none) :
    Ending consult symbol begun (.ok (later.table.allocate symbol).1)
      { later with chain := begun.chain ++ later.chain, table := (later.table.allocate symbol).2 }

namespace Work

theorem resolveByChain_ending {consult : List (Attached S) → Work S σ (Option IdentifierId)} {symbol : Symbol}
    {begun after : Session S σ} {result : Except Fault IdentifierId} (unbound : begun.table.bound? symbol = none)
    (outcome : (resolveByChain consult symbol).on begun = (result, after)) :
    Ending consult symbol begun result after := by
  unfold resolveByChain at outcome
  rw [on_bind, detachChain_on] at outcome
  dsimp only at outcome
  rw [on_bind] at outcome
  rcases consulted : (consult begun.chain).on { begun with chain := [] } with ⟨found, later⟩
  rw [consulted] at outcome
  cases found with
  | error fault =>
    cases outcome
    exact .failed unbound consulted
  | ok answer =>
    dsimp only at outcome
    rw [on_bind, reattachChain_on] at outcome
    dsimp only at outcome
    cases answer with
    | some id =>
      cases outcome
      exact .answered unbound consulted
    | none =>
      dsimp only at outcome
      rw [on_bind, look_on] at outcome
      dsimp only at outcome
      cases bound : later.table.bound? symbol with
      | some id =>
        rw [bound] at outcome
        cases outcome
        exact .kept unbound consulted bound
      | none =>
        rw [bound] at outcome
        cases outcome
        exact .missed unbound consulted bound

theorem getBy_ending {consult : String → List (Attached S) → Work S σ (Option IdentifierId)} {spelling : String}
    {before after : Session S σ} {result : Except Fault IdentifierId}
    (outcome : (getBy consult spelling).on before = (result, after)) :
    Ending (consult spelling) (before.table.intern spelling).1
      { before with table := (before.table.intern spelling).2 } result after := by
  unfold getBy at outcome
  rw [on_bind, onTable_on] at outcome
  dsimp only at outcome
  rw [on_bind, look_on] at outcome
  dsimp only at outcome
  cases bound : (before.table.intern spelling).2.bound? (before.table.intern spelling).1 with
  | some id =>
    rw [bound] at outcome
    cases outcome
    exact .known bound
  | none =>
    rw [bound] at outcome
    dsimp only at outcome
    rw [resolve_on] at outcome
    by_cases alone : before.chain.isEmpty = true
    · rw [if_pos alone] at outcome
      cases outcome
      exact .alone bound (List.isEmpty_iff.mp alone)
    · rw [if_neg alone] at outcome
      exact resolveByChain_ending bound outcome

end Work
end Canon.Identifier
