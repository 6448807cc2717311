import Canon.Proofs.Identifier.Asking
import Canon.Proofs.Identifier.Unpacked

/-!
Laws of a run. A law relates an earlier table to a later one, and every operation on a table keeps it. Whatever sources do
when they are asked, at whatever depth, and wherever a run breaks down, the law holds then between the tables before and
after. Two laws: tables stay orderly and their records packed as long as there are symbols, and with checks no spelling
is ever bound to another record than before.
-/
namespace Canon.Identifier
variable {S σ α β : Type}

/-- A relation between tables that every operation keeps, whatever happens while sources are asked. -/
structure Table.Law (checks : Checks) (related : Table → Table → Prop) : Prop where
  refl : ∀ table, related table table
  trans : ∀ {first second third}, related first second → related second third → related first third
  grows : ∀ {before after}, related before after → before.Grows after
  intern : ∀ table spelling, related table (table.intern spelling).2
  modify : ∀ {table : Table} {id : IdentifierId} {change : Record → Record},
    (∀ record, table.records.get? id = some record → record.Packed → (change record).Packed) →
    related table (table.modify id change)
  /-- Checks let a record be allocated only for a symbol that is not bound. -/
  allocate : ∀ {table : Table} {spelling symbol}, table.lexicon.find? spelling = some symbol →
    (checks = .enabled → table.bound? symbol = none) → related table (table.allocate symbol).2
  /-- An answer is bound to a symbol that was not bound when the first source was asked. -/
  bind : ∀ {begun later : Table} {spelling symbol} (id : IdentifierId), begun.lexicon.find? spelling = some symbol →
    begun.bound? symbol = none → related begun later → related begun (later.bind symbol id)

def Work.Upholds (related : Table → Table → Prop) (work : Work S σ α) : Prop :=
  ∀ session, related session.table (work.on session).2.table

theorem Record.Packed.classify {record : Record} (packed : record.Packed) (keyword : Keyword) (extension : Bool) :
    (record.classify keyword extension).Packed :=
  (packed.setToken (.keyword keyword)).setMark .extension extension

namespace Table.Law
variable {checks : Checks} {related : Table → Table → Prop}

theorem create (law : Law checks related) (table : Table) (spelling : String) :
    related table (table.create checks spelling).2 := by
  unfold Table.create
  dsimp only
  split
  · exact law.intern table spelling
  · next free =>
    refine law.trans (law.intern table spelling) (law.allocate (table.symbol_intern spelling) fun enabled => ?_)
    exact Option.not_isSome_iff_eq_none.mp fun bound => free ⟨enabled, bound⟩

end Table.Law

namespace Work
variable {checks : Checks} {related : Table → Table → Prop} {getting : String → Work S σ IdentifierId}

section
variable (law : Table.Law checks related)
include law

theorem Upholds.bind {first : Work S σ α} {rest : α → Work S σ β} (begins : first.Upholds related)
    (continues : ∀ result, (rest result).Upholds related) : (first >>= rest).Upholds related := by
  intro session
  have begun := begins session
  rw [on_bind]
  rcases run : first.on session with ⟨outcome, later⟩
  rw [run] at begun
  cases outcome with
  | ok result => exact law.trans begun (continues result later)
  | error fault => exact begun

theorem Upholds.of_same {work : Work S σ α} (same : ∀ session, (work.on session).2.table = session.table) :
    work.Upholds related := by
  intro session
  rw [same]
  exact law.refl session.table

theorem Upholds.create (spelling : String) : (create checks spelling : Work S σ IdentifierId).Upholds related := by
  intro session
  rw [create_on]
  exact law.create session.table spelling

theorem Upholds.update (id : IdentifierId) (setter : Setter) : (update checks id setter : Work S σ Unit).Upholds related := by
  intro session
  cases found : session.table.info id with
  | error fault =>
    unfold Work.update
    rw [on_bind, look_on]
    dsimp only
    rw [found]
    exact law.refl session.table
  | ok record =>
    rw [update_on found]
    cases applied : setter.apply checks record with
    | error fault => exact law.refl session.table
    | ok changed =>
      refine law.modify fun old entered packed => ?_
      rw [Registry.get_eq_ok_iff.mp found, Option.some.injEq] at entered
      exact (entered ▸ packed).apply applied

theorem Upholds.registerKeyword (gets : ∀ spelling, (getting spelling).Upholds related) (active : ActiveKeyword) :
    (registerKeyword getting active).Upholds related := by
  refine Upholds.bind law (gets active.spelling) fun id =>
    Upholds.bind law (Upholds.of_same law fun _ => rfl) fun result => ?_
  cases result with
  | error fault => exact .of_same law fun _ => rfl
  | ok _ => exact fun session => law.modify fun record _ packed => packed.classify active.keyword active.extension

theorem Upholds.registerKeywords (gets : ∀ spelling, (getting spelling).Upholds related) (dialect : Dialect) :
    (registerKeywords getting dialect).Upholds related := by
  unfold Work.registerKeywords
  induction dialect.keywords with
  | nil => exact .of_same law fun _ => rfl
  | cons active rest ih => exact Upholds.bind law (Upholds.registerKeyword law gets active) fun _ => ih

theorem Upholds.perform (gets : ∀ spelling, (getting spelling).Upholds related) (script : Script S σ) :
    (perform checks getting script).Upholds related := by
  have quiet {work : Work S σ Unit} (same : ∀ session, (work.on session).2.table = session.table)
      {rest : Work S σ (Option IdentifierId)} (goes : rest.Upholds related) : (work >>= fun _ => rest).Upholds related :=
    Upholds.bind law (Upholds.of_same law same) fun _ => goes
  induction script with
  | answer id => exact .of_same law fun _ => rfl
  | fail fault => exact .of_same law fun _ => rfl
  | observe next ih => exact fun session => ih session.table session
  | get spelling next ih => exact Upholds.bind law (gets spelling) ih
  | create spelling next ih => exact Upholds.bind law (Upholds.create law spelling) ih
  | update id setter next ih => exact Upholds.bind law (Upholds.update law id setter) fun _ => ih
  | addKeywords dialect next ih => exact Upholds.bind law (Upholds.registerKeywords law gets dialect) fun _ => ih
  | attach source next ih => exact quiet (fun _ => rfl) ih
  | replace source next ih => exact quiet (fun _ => rfl) ih
  | clear next ih => exact quiet (fun _ => rfl) ih
  | retrieve next ih => exact fun session => ih session.memory session
  | remember memory next ih => exact fun session => ih { session with memory }

theorem Upholds.consult (gets : ∀ spelling, (getting spelling).Upholds related) (behaviour : S → String → Script S σ)
    (spelling : String) (chain : List (Attached S)) : (consult checks behaviour getting spelling chain).Upholds related := by
  induction chain with
  | nil => exact .of_same law fun _ => rfl
  | cons source rest ih =>
    refine Upholds.bind law (Upholds.of_same law fun _ => rfl) fun _ =>
      Upholds.bind law (Upholds.perform law gets _) fun answer => ?_
    cases answer with
    | some id => exact .of_same law fun _ => rfl
    | none => exact ih

theorem Upholds.getBy {consult : String → List (Attached S) → Work S σ (Option IdentifierId)} {spelling : String}
    (consults : ∀ chain, (consult spelling chain).Upholds related) : (getBy consult spelling).Upholds related := by
  intro before
  have interns := law.intern before.table spelling
  have interned := before.table.symbol_intern spelling
  have asks {result : Except Fault (Option IdentifierId)} {later : Session S σ}
      (consulted : (consult spelling before.chain).on
        { before with table := (before.table.intern spelling).2, chain := [] } = (result, later)) :
      related (before.table.intern spelling).2 later.table := by
    have obeys := consults before.chain { before with table := (before.table.intern spelling).2, chain := [] }
    rw [consulted] at obeys
    exact obeys
  rcases outcome : (Work.getBy consult spelling).on before with ⟨result, after⟩
  cases getBy_ending outcome with
  | known bound => exact interns
  | alone unbound chain => exact law.trans interns (law.allocate interned fun _ => unbound)
  | failed unbound consulted => exact law.trans interns (asks consulted)
  | @answered id later unbound consulted => exact law.trans interns (law.bind id interned unbound (asks consulted))
  | @kept id later unbound consulted bound =>
    have worked : related _ later.table := asks consulted
    exact law.trans interns worked
  | missed unbound consulted still =>
    have known := (law.grows (asks consulted)).symbols spelling _ interned
    exact law.trans interns (law.trans (asks consulted) (law.allocate known fun _ => still))

theorem Upholds.get (behaviour : S → String → Script S σ) (depth : Nat) (spelling : String) :
    (get checks behaviour depth spelling).Upholds related := by
  -- A source looks up at a smaller depth, and at depth zero no source can be asked.
  induction depth generalizing spelling with
  | zero => exact Upholds.getBy law fun _ => .of_same law fun _ => rfl
  | succ depth ih => exact Upholds.getBy law (Upholds.consult law ih behaviour spelling)

end
end Work

/-! ### Sessions that runs lead to -/

/-- What programs make of a new session, one after another and each with sources of its own. A program may break down
at any point, and what it has done then stays done. -/
inductive Session.Reachable (checks : Checks) : Session S σ → Prop where
  | start (memory : σ) : Reachable checks (.start memory)
  | run {before : Session S σ} (reachable : Reachable checks before) (behaviour : S → String → Script S σ) (depth : Nat)
    (program : Script S σ) :
    Reachable checks ((Work.perform checks (Work.get checks behaviour depth) program).on before).2

theorem Table.Law.of_reachable {checks : Checks} {related : Table → Table → Prop} (law : Law checks related)
    {session : Session S σ} (reachable : session.Reachable checks) : related .empty session.table := by
  induction reachable with
  | start memory => exact law.refl .empty
  | run _ behaviour depth program ih =>
    exact law.trans ih (Work.Upholds.perform law (Work.Upholds.get law behaviour depth) program _)

namespace Table
variable {before middle after table : Table} {symbol : Symbol} {id : IdentifierId}

/-- A table whose lexicon is faithful, and in which nothing is bound but symbols of the lexicon. -/
structure Orderly (table : Table) : Prop where
  faithful : table.lexicon.Faithful
  issued : ∀ symbol, (table.bound? symbol).isSome → symbol.index.val < table.lexicon.size

theorem orderly_empty : empty.Orderly where
  faithful := Lexicon.faithful_empty
  issued symbol bound := by
    rw [bound?, empty, Overlay.get_constant] at bound
    cases bound

theorem Orderly.intern (orderly : table.Orderly) {spelling : String}
    (room : (table.intern spelling).2.lexicon.size ≤ 4294967295) : (table.intern spelling).2.Orderly where
  faithful := by
    rcases table.lexicon.intern_cases spelling with ⟨symbol, -, same⟩ | ⟨-, added⟩
    · show (table.lexicon.intern spelling).2.Faithful
      rw [same]
      exact orderly.faithful
    · have size : (table.intern spelling).2.lexicon.size = table.lexicon.size + 1 := by
        show (table.lexicon.intern spelling).2.size = _
        rw [added, Lexicon.size_add]
      exact orderly.faithful.intern (by omega) spelling
  issued symbol bound := Nat.lt_of_lt_of_le (orderly.issued symbol bound) (Lexicon.size_le_intern _ _)

theorem Orderly.bound?_intern (orderly : table.Orderly) (room : table.lexicon.size < 4294967295) (spelling : String) :
    (table.intern spelling).2.bound? (table.intern spelling).1 = table.find? spelling := by
  show table.bound? (table.lexicon.intern spelling).1 = (table.lexicon.find? spelling).bind table.bound?
  cases known : table.lexicon.find? spelling with
  | some symbol => rw [Lexicon.intern_of_find? known, Option.bind_some]
  | none =>
    have index := Lexicon.index_intern_of_find?_none room known
    rw [Option.bind_none, ← Option.not_isSome_iff_eq_none]
    intro bound
    have issued := orderly.issued _ bound
    omega

structure Develops (before after : Table) : Prop where
  grows : before.Grows after
  size : before.lexicon.size ≤ after.lexicon.size
  orderly : after.lexicon.size ≤ 4294967295 → before.Orderly → after.Orderly
  packed : (∀ id record, before.records.get? id = some record → record.Packed) →
    ∀ id record, after.records.get? id = some record → record.Packed

theorem Develops.trans (first : before.Develops middle) (second : middle.Develops after) : before.Develops after where
  grows := first.grows.trans second.grows
  size := Nat.le_trans first.size second.size
  orderly room orderly := second.orderly room (first.orderly (Nat.le_trans second.size room) orderly)
  packed packed := second.packed (first.packed packed)

theorem Develops.intern (table : Table) (spelling : String) : table.Develops (table.intern spelling).2 where
  grows := .intern table spelling
  size := Lexicon.size_le_intern table.lexicon spelling
  orderly room orderly := orderly.intern room
  packed packed := packed

theorem Develops.modify {change : Record → Record}
    (keeps : ∀ record, table.records.get? id = some record → record.Packed → (change record).Packed) :
    table.Develops (table.modify id change) where
  grows := .modify table id change
  size := Nat.le_refl _
  orderly _ orderly := ⟨orderly.faithful, orderly.issued⟩
  packed packed other record entered := by
    change (table.records.modify id change).get? other = some record at entered
    rw [Registry.get?_modify] at entered
    by_cases same : Indexed.index id = Indexed.index other
    · obtain rfl := Overlay.index_injective same
      rw [if_pos rfl] at entered
      obtain ⟨old, found, rfl⟩ := Option.map_eq_some_iff.mp entered
      exact keeps old found (packed id old found)
    · rw [if_neg same] at entered
      exact packed other record entered

theorem Develops.allocate {spelling : String} (interned : table.lexicon.find? spelling = some symbol) :
    table.Develops (table.allocate symbol).2 where
  grows := .allocate table symbol
  size := Nat.le_refl _
  orderly _ orderly := by
    refine ⟨orderly.faithful, fun other bound => ?_⟩
    rw [Canonical.bound?_allocate] at bound
    by_cases same : other = symbol
    · rw [same]
      exact orderly.faithful.index_lt_size interned
    · rw [if_neg same] at bound
      exact orderly.issued other bound
  packed packed other record entered := by
    rw [Canonical.get?_allocate] at entered
    split at entered
    · cases entered
      exact .fresh symbol
    · exact packed other record entered

theorem Develops.bind {spelling : String} (interned : before.lexicon.find? spelling = some symbol)
    (develops : before.Develops after) (id : IdentifierId) : before.Develops (after.bind symbol id) where
  grows := develops.grows.trans (.bind after symbol id)
  size := develops.size
  orderly room orderly := by
    have developed := develops.orderly room orderly
    refine ⟨developed.faithful, fun other bound => ?_⟩
    rw [bound?_bind] at bound
    by_cases same : other = symbol
    · rw [same]
      exact developed.faithful.index_lt_size (develops.grows.symbols spelling symbol interned)
    · rw [if_neg same] at bound
      exact developed.issued other bound
  packed := develops.packed

theorem law_develops (checks : Checks) : Law checks Develops where
  refl table := ⟨.refl table, Nat.le_refl _, fun _ orderly => orderly, fun packed => packed⟩
  trans := .trans
  grows develops := develops.grows
  intern := .intern
  modify := .modify
  allocate interned _ := .allocate interned
  bind id interned _ develops := develops.bind interned id

/-- With checks no operation binds a spelling anew. -/
theorem law_extends : Law .enabled Extends where
  refl := .refl
  trans := .trans
  grows extends_ := ⟨extends_.symbols, fun symbol bound => by
    obtain ⟨id, bound⟩ := Option.isSome_iff_exists.mp bound
    rw [extends_.bound symbol id bound]
    rfl⟩
  intern := extends_intern
  modify _ := ⟨fun _ _ known => known, fun _ _ bound => bound⟩
  allocate _ free := Canonical.extends_allocate (free rfl)
  bind id interned unbound extends_ := by
    refine ⟨extends_.symbols, fun other number bound => ?_⟩
    rw [bound?_bind, if_neg, extends_.bound other number bound]
    rintro rfl
    rw [unbound] at bound
    cases bound

end Table

namespace Session.Reachable
variable {checks : Checks} {session : Session S σ}

theorem orderly (reachable : session.Reachable checks) (room : session.table.lexicon.size ≤ 4294967295) :
    session.table.Orderly :=
  ((Table.law_develops checks).of_reachable reachable).orderly room Table.orderly_empty

theorem packed (reachable : session.Reachable checks) {id : IdentifierId} {record : Record}
    (entered : session.table.records.get? id = some record) : record.Packed :=
  ((Table.law_develops checks).of_reachable reachable).packed (fun _ _ none => by cases none) id record entered

end Session.Reachable
end Canon.Identifier
