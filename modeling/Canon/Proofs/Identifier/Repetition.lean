import Canon.Proofs.Identifier.Classification
import Canon.Proofs.Identifier.Creation
import Canon.Proofs.Identifier.Rewiring

/-!
Registering keywords twice. Sources may bind several keywords to one record, bind keywords whose turn is still to come and
fill in records that they make. As long as they leave the records alone that there are when they are asked, the last
keyword of every record has the last word on it, and registering the same keywords again changes nothing at all.
-/
namespace Canon.Identifier
variable {S σ : Type}

/-! ### What is asked of sources while keywords are registered -/

structure Errand where
  asked : Table
  answered : Table

/-- Every record stays exactly as it is. -/
def Table.Preserves (before after : Table) : Prop :=
  ∀ id record, before.records.get? id = some record → after.records.get? id = some record

/-- A source that changes no record that there has been when it was asked. -/
def Errand.Spares (errand : Errand) : Prop := errand.asked.Preserves errand.answered

section
variable (checks : Checks) (behaviour : S → String → Script S σ)

def errands (getting : String → Work S σ IdentifierId) (spelling : String) :
    List (Attached S) → Session S σ → List Errand
  | [], _ => []
  | source :: rest, session =>
    let begun : Session S σ := { session with asked := session.asked.push (source, spelling) }
    match (Work.perform checks getting (behaviour source.source spelling)).on begun with
    | (.ok none, later) => ⟨session.table, later.table⟩ :: errands getting spelling rest later
    | (_, later) => [⟨session.table, later.table⟩]

/-- The errands of a look-up, which asks nobody if its spelling is bound. What those sources ask of others meanwhile is
part of their own errands. -/
def errandsOf : Nat → String → Session S σ → List Errand
  | 0, _, _ => []
  | depth + 1, spelling, session =>
    match (session.table.intern spelling).2.find? spelling with
    | some _ => []
    | none => errands checks behaviour (Work.get checks behaviour depth) spelling session.chain
        { session with table := (session.table.intern spelling).2, chain := [] }

def keywordErrands (depth : Nat) : List ActiveKeyword → Session S σ → List Errand
  | [], _ => []
  | active :: rest, session => errandsOf checks behaviour depth active.spelling session ++
      (Work.registerKeyword (Work.get checks behaviour depth) active).following (fun _ => keywordErrands depth rest)
        session

end

theorem errandsOf_unbound (checks : Checks) (behaviour : S → String → Script S σ) (depth : Nat) {spelling : String}
    {session : Session S σ} (unbound : (session.table.intern spelling).2.find? spelling = none) :
    errandsOf checks behaviour (depth + 1) spelling session =
      errands checks behaviour (Work.get checks behaviour depth) spelling session.chain
        { session with table := (session.table.intern spelling).2, chain := [] } := by
  show (match (session.table.intern spelling).2.find? spelling with | some _ => [] | none => _) = _
  rw [unbound]

namespace Table
variable {table before middle after : Table} {spelling : String} {symbol : Symbol} {id : IdentifierId}

theorem Preserves.refl (table : Table) : table.Preserves table := fun _ _ entered => entered

theorem Preserves.trans (first : before.Preserves middle) (second : middle.Preserves after) : before.Preserves after :=
  fun id record entered => second id record (first id record entered)

theorem Preserves.allocate (table : Table) (symbol : Symbol) : table.Preserves (table.allocate symbol).2 := by
  intro id record entered
  have inside : id.index < table.size := (Array.getElem?_eq_some_iff.mp entered).choose
  rw [Canonical.get?_allocate, if_neg (Nat.ne_of_lt inside), entered]

end Table

namespace Work
variable {checks : Checks} {behaviour : S → String → Script S σ} {depth : Nat}
  {getting : String → Work S σ IdentifierId} {spelling : String} {before after : Session S σ} {id : IdentifierId}

theorem consult_preserves {chain : List (Attached S)} {found : Option IdentifierId}
    (outcome : (consult checks behaviour getting spelling chain).on before = (.ok found, after))
    (spared : ∀ errand ∈ errands checks behaviour getting spelling chain before, errand.Spares) :
    before.table.Preserves after.table := by
  induction chain generalizing before with
  | nil =>
    cases outcome
    exact .refl _
  | cons source rest ih =>
    rw [consult_on] at outcome
    unfold errands at spared
    dsimp only at spared
    rcases run : (perform checks getting (behaviour source.source spelling)).on
      { before with asked := before.asked.push (source, spelling) } with ⟨answer, later⟩
    rw [run] at outcome spared
    cases answer with
    | error fault => cases outcome
    | ok answer =>
      cases answer with
      | some id =>
        cases outcome
        exact spared ⟨before.table, after.table⟩ List.mem_cons_self
      | none =>
        have first : before.table.Preserves later.table := spared ⟨before.table, later.table⟩ List.mem_cons_self
        exact first.trans (ih outcome fun errand member => spared errand (List.mem_cons_of_mem _ member))

theorem get_preserves (outcome : (get checks behaviour depth spelling).on before = (.ok id, after))
    (spared : ∀ errand ∈ errandsOf checks behaviour depth spelling before, errand.Spares) :
    before.table.Preserves after.table := by
  cases depth with
  | zero =>
    cases getBy_ending outcome with
    | known bound => exact .refl _
    | alone unbound chain => exact .allocate (before.table.intern spelling).2 _
    | answered unbound consulted => cases consulted
    | kept unbound consulted bound => cases consulted
    | missed unbound consulted still => cases consulted
  | succ depth =>
    have asks {found : Option IdentifierId} {later : Session S σ}
        (unbound : (before.table.intern spelling).2.bound? (before.table.intern spelling).1 = none)
        (consulted : (consult checks behaviour (get checks behaviour depth) spelling before.chain).on
          { before with table := (before.table.intern spelling).2, chain := [] } = (.ok found, later)) :
        before.table.Preserves later.table := by
      have free : (before.table.intern spelling).2.find? spelling = none := by
        rw [Table.find?_intern_self, unbound]
      rw [errandsOf_unbound checks behaviour depth free] at spared
      let detached : Session S σ := { before with table := (before.table.intern spelling).2, chain := [] }
      have kept : detached.table.Preserves later.table := consult_preserves consulted spared
      exact kept
    cases getBy_ending outcome with
    | known bound => exact .refl _
    | alone unbound chain => exact .allocate (before.table.intern spelling).2 _
    | @answered _ later unbound consulted =>
      have kept : before.table.Preserves later.table := asks unbound consulted
      exact kept
    | @kept _ later unbound consulted bound =>
      have kept : before.table.Preserves later.table := asks unbound consulted
      exact kept
    | @missed later unbound consulted still => exact (asks unbound consulted).trans (.allocate later.table _)

theorem getBy_finds {consult : String → List (Attached S) → Work S σ (Option IdentifierId)}
    (grows : ∀ chain, (consult spelling chain).Upholds Table.Grows)
    (outcome : (getBy consult spelling).on before = (.ok id, after)) : after.table.find? spelling = some id := by
  have interned := before.table.symbol_intern spelling
  have still {found : Except Fault (Option IdentifierId)} {later : Session S σ}
      (consulted : (consult spelling before.chain).on
        { before with table := (before.table.intern spelling).2, chain := [] } = (found, later)) :
      later.table.lexicon.find? spelling = some (before.table.intern spelling).1 := by
    have grown := grows before.chain { before with table := (before.table.intern spelling).2, chain := [] }
    rw [consulted] at grown
    exact grown.symbols spelling _ interned
  cases getBy_ending outcome with
  | known bound => exact Table.find?_eq_some.mpr ⟨_, interned, bound⟩
  | alone unbound chain => exact Table.find?_allocate_self interned
  | @answered _ later unbound consulted =>
    have known : later.table.lexicon.find? spelling = _ := still consulted
    refine Table.find?_eq_some.mpr ⟨_, known, ?_⟩
    rw [Table.bound?_bind, if_pos rfl]
  | @kept _ later unbound consulted bound =>
    have known : later.table.lexicon.find? spelling = _ := still consulted
    exact Table.find?_eq_some.mpr ⟨_, known, bound⟩
  | missed unbound consulted free => exact Table.find?_allocate_self (still consulted)

theorem get_finds (outcome : (get checks behaviour depth spelling).on before = (.ok id, after)) :
    after.table.find? spelling = some id := by
  have develops := Table.law_develops checks
  cases depth with
  | zero =>
    unfold get at outcome
    refine getBy_finds (fun _ => ?_) outcome
    exact fun session => .refl session.table
  | succ depth =>
    refine getBy_finds (fun chain session => ?_) outcome
    exact (Upholds.consult develops (Upholds.get develops behaviour depth) behaviour spelling chain session).grows

end Work

/-! ### The last word on a record -/

theorem Record.Resembles.symm {left right : Record} (resembles : left.Resembles right) : right.Resembles left where
  builtin := resembles.builtin.symm
  defined := resembles.defined.symm
  poisoned := resembles.poisoned.symm
  frontEnd := resembles.frontEnd.symm
  entry := resembles.entry.symm

theorem Record.Packed.eq_of_resembles {left right : Record} (packed : left.Packed) (packedToo : right.Packed)
    (resembles : left.Resembles right) (standing : left.standing = right.standing) : left = right := by
  refine (packed.eq_iff packedToo resembles.entry).mpr (Fields.ext ?_ resembles.builtin ?_ resembles.frontEnd)
  · exact congrArg Prod.fst standing
  · funext mark
    cases mark with
    | defined => exact resembles.defined
    | extension => exact congrArg Prod.snd standing
    | poisoned => exact resembles.poisoned

/-- Of two keywords that classify a record the second one has the last word. -/
theorem Record.Packed.classify_classify {record : Record} (packed : record.Packed) (first second : Keyword)
    (early late : Bool) : (record.classify first early).classify second late = record.classify second late := by
  refine ((packed.classify first early).classify second late).eq_of_resembles (packed.classify second late) ?_ ?_
  · exact ((Record.classify_resembles second late _).trans (record.classify_resembles first early)).trans
      (record.classify_resembles second late).symm
  · rw [Record.standing_classify, Record.standing_classify]

namespace Table
variable {table whole : Table} {done rest : List ActiveKeyword} {active : ActiveKeyword} {id : IdentifierId}

def claimants (table : Table) (index : Nat) (keywords : List ActiveKeyword) : List ActiveKeyword :=
  keywords.filter fun active => (table.find? active.spelling).map Handle.index = some index

/-- Keywords are bound to records, each of which is as the last of its keywords has classified it. -/
structure Settled (table : Table) (keywords : List ActiveKeyword) : Prop where
  bound : ∀ active ∈ keywords, ∃ id record,
    table.find? active.spelling = some id ∧ table.records.get? id = some record
  last : ∀ index active, (table.claimants index keywords).getLast? = some active → ∃ record : Record, record.Packed ∧
    table.records.records[index]? = some (record.classify active.keyword active.extension)

theorem settled_nil (table : Table) : table.Settled [] where
  bound active member := by cases member
  last index active last := by cases last

theorem claimants_modify (table : Table) (id : IdentifierId) (change : Record → Record) (index : Nat)
    (keywords : List ActiveKeyword) :
    (table.modify id change).claimants index keywords = table.claimants index keywords := rfl

theorem getElem?_modify (table : Table) (id : IdentifierId) (change : Record → Record) (index : Nat) :
    (table.modify id change).records.records[index]? =
      if id.index = index then table.records.records[index]?.map change else table.records.records[index]? :=
  Array.getElem?_modify

theorem exists_modify {record : Record} (entered : table.records.get? id = some record) (other : IdentifierId)
    (change : Record → Record) : ∃ new, (table.modify other change).records.get? id = some new := by
  change ∃ new, (table.records.modify other change).get? id = some new
  rw [Registry.get?_modify, entered]
  split
  · exact ⟨_, rfl⟩
  · exact ⟨_, rfl⟩

theorem Settled.of_extends {before after : Table} (settled : before.Settled done) (extends_ : before.Extends after)
    (preserves : before.Preserves after) : after.Settled done where
  bound active member := by
    obtain ⟨id, record, found, entered⟩ := settled.bound active member
    exact ⟨id, record, extends_.find? found, preserves id record entered⟩
  last index active last := by
    have same : after.claimants index done = before.claimants index done := by
      refine List.filter_congr fun other member => ?_
      obtain ⟨id, record, found, entered⟩ := settled.bound other member
      rw [found, extends_.find? found]
    rw [same] at last
    obtain ⟨record, packed, entered⟩ := settled.last index active last
    obtain ⟨member, bound⟩ := List.mem_filter.mp (List.mem_of_getLast? last)
    obtain ⟨id, found, rfl⟩ := Option.map_eq_some_iff.mp (of_decide_eq_true bound)
    exact ⟨record, packed, preserves id _ entered⟩

theorem Settled.concat (settled : table.Settled done) (packed : ∀ id record, table.records.get? id = some record →
    record.Packed) {record : Record} (found : table.find? active.spelling = some id)
    (entered : table.records.get? id = some record) :
    (table.modify id (·.classify active.keyword active.extension)).Settled (done ++ [active]) where
  bound other member := by
    rcases List.mem_append.mp member with old | new
    · obtain ⟨number, former, bound, read⟩ := settled.bound other old
      obtain ⟨new, still⟩ := exists_modify read id (·.classify active.keyword active.extension)
      exact ⟨number, new, bound, still⟩
    · obtain ⟨last, still⟩ := exists_modify entered id (·.classify active.keyword active.extension)
      rw [List.mem_singleton.mp new]
      exact ⟨id, last, found, still⟩
  last index other last := by
    rw [claimants_modify, claimants, List.filter_append, List.filter_singleton, found, Option.map_some] at last
    rw [getElem?_modify]
    by_cases here : id.index = index
    · rw [here, decide_eq_true rfl] at last
      have same : active = other := by
        simpa using last
      subst same here
      have read : table.records.records[id.index]? = some record := entered
      rw [if_pos rfl, read]
      exact ⟨record, packed id record entered, rfl⟩
    · rw [decide_eq_false (fun same => here (Option.some.inj same))] at last
      rw [if_neg here]
      simp only [cond_false, List.append_nil] at last
      exact settled.last index other last

/-- A table on which some keywords remain to be registered until it is the whole one: what the last keyword of each
record makes of the record is what the whole table has. -/
structure Nears (rest : List ActiveKeyword) (whole table : Table) : Prop where
  lexicon : table.lexicon = whole.lexicon
  bindings : table.bindings = whole.bindings
  free : ∀ index, (whole.claimants index rest).getLast? = none →
    table.records.records[index]? = whole.records.records[index]?
  claimed : ∀ index active, (whole.claimants index rest).getLast? = some active → ∃ record : Record, record.Packed ∧
    table.records.records[index]? = some record ∧
    whole.records.records[index]? = some (record.classify active.keyword active.extension)

theorem Nears.eq (nears : Nears [] whole table) : table = whole := by
  have records : table.records.records = whole.records.records := Array.ext_getElem? fun index => nears.free index rfl
  cases table
  cases whole
  cases nears.lexicon
  cases nears.bindings
  congr
  exact congrArg Registry.mk records

theorem Nears.step (nears : Nears (active :: rest) whole table) (found : whole.find? active.spelling = some id) :
    Nears rest whole (table.modify id (·.classify active.keyword active.extension)) := by
  have claims (index : Nat) : whole.claimants index (active :: rest) =
      if id.index = index then active :: whole.claimants index rest else whole.claimants index rest := by
    rw [claimants, List.filter_cons, found, Option.map_some]
    simp only [Option.some.injEq, decide_eq_true_eq]
    rfl
  refine ⟨nears.lexicon, nears.bindings, fun index none => ?_, fun index other last => ?_⟩
  · rw [getElem?_modify]
    by_cases here : id.index = index
    · have turn : (whole.claimants index (active :: rest)).getLast? = some active := by
        rw [claims, if_pos here, List.getLast?_cons, none]
        rfl
      obtain ⟨record, -, entered, same⟩ := nears.claimed index active turn
      rw [if_pos here, entered, same, Option.map_some]
    · rw [if_neg here]
      apply nears.free
      rw [claims, if_neg here, none]
  · rw [getElem?_modify]
    by_cases here : id.index = index
    · have turn : (whole.claimants index (active :: rest)).getLast? = some other := by
        rw [claims, if_pos here, List.getLast?_cons, last]
        rfl
      obtain ⟨record, packed, entered, same⟩ := nears.claimed index other turn
      refine ⟨record.classify active.keyword active.extension, packed.classify _ _, ?_, ?_⟩
      · rw [if_pos here, entered, Option.map_some]
      · rw [same, packed.classify_classify]
    · rw [if_neg here]
      apply nears.claimed
      rw [claims, if_neg here, last]

theorem register_of_find? (found : table.find? active.spelling = some id) :
    table.register active = table.modify id (·.classify active.keyword active.extension) := by
  rw [register, get_of_find? found]

theorem Nears.foldl_register (nears : Nears rest whole table)
    (bound : ∀ active ∈ rest, ∃ id, whole.find? active.spelling = some id) : rest.foldl register table = whole := by
  induction rest generalizing table with
  | nil => exact nears.eq
  | cons active rest ih =>
    obtain ⟨id, found⟩ := bound active List.mem_cons_self
    have here : table.find? active.spelling = some id := by
      rw [← found, find?, find?, nears.lexicon]
      exact congrArg _ (funext fun symbol => congrArg (·.get symbol) nears.bindings)
    rw [List.foldl_cons, register_of_find? here]
    exact ih (nears.step found) fun other member => bound other (List.mem_cons_of_mem active member)

theorem Settled.foldl_register (settled : table.Settled rest) : rest.foldl register table = table := by
  refine Nears.foldl_register ⟨rfl, rfl, fun _ _ => rfl, fun index active last => ?_⟩ fun active member => ?_
  · obtain ⟨record, packed, entered⟩ := settled.last index active last
    exact ⟨_, packed.classify _ _, entered, by rw [packed.classify_classify, entered]⟩
  · obtain ⟨id, -, found, -⟩ := settled.bound active member
    exact ⟨id, found⟩

end Table

/-! ### The two passes -/

namespace Work
variable {behaviour : S → String → Script S σ} {depth : Nat} {before after : Session S σ} {done rest : List ActiveKeyword}

/-- The first pass: the keywords done so far stay settled while sources are asked about the next one. -/
theorem forM_registerKeyword_settles
    (outcome : (rest.forM (registerKeyword (get .enabled behaviour depth))).on before = (.ok (), after))
    (spared : ∀ errand ∈ keywordErrands .enabled behaviour depth rest before, errand.Spares)
    (packed : ∀ id record, before.table.records.get? id = some record → record.Packed)
    (settled : before.table.Settled done) : after.table.Settled (done ++ rest) := by
  induction rest generalizing before done with
  | nil =>
    cases outcome
    rw [List.append_nil]
    exact settled
  | cons active rest ih =>
    obtain ⟨⟨⟩, later, registered, outcome⟩ := bind_eq_ok outcome
    obtain ⟨id, middle, record, got, read, rfl⟩ := registerKeyword_classifies registered
    unfold keywordErrands following at spared
    rw [registered] at spared
    have found := get_finds got
    have entered := Registry.get_eq_ok_iff.mp read
    have preserves := get_preserves got fun errand member => spared errand (List.mem_append_left _ member)
    have extends_ := Upholds.get Table.law_extends behaviour depth active.spelling before
    have develops := Upholds.get (Table.law_develops .enabled) behaviour depth active.spelling before
    rw [got] at extends_ develops
    have still := develops.packed packed
    have begun := (settled.of_extends extends_ preserves).concat still found entered
    have classifies : middle.table.Develops
        (middle.table.modify id (·.classify active.keyword active.extension)) :=
      .modify fun record _ packed => packed.classify active.keyword active.extension
    rw [List.append_cons]
    exact ih outcome (fun errand member => spared errand (List.mem_append_right _ member)) (classifies.packed still)
      begun

/-- The second pass asks nobody: every keyword is bound. -/
theorem forM_registerKeyword_bound (behaviour : S → String → Script S σ) (depth : Nat) {session : Session S σ}
    (bound : ∀ active ∈ rest, ∃ id record,
      session.table.find? active.spelling = some id ∧ session.table.records.get? id = some record) :
    (rest.forM (registerKeyword (get .enabled behaviour depth))).on session =
      (.ok (), { session with table := rest.foldl Table.register session.table }) := by
  induction rest generalizing session with
  | nil => rfl
  | cons active rest ih =>
    obtain ⟨id, record, found, entered⟩ := bound active List.mem_cons_self
    have registered : (registerKeyword (get .enabled behaviour depth) active).on session =
        (.ok (), { session with table := session.table.register active }) := by
      rw [registerKeyword_on (get_on_known behaviour depth found) entered, Table.register_of_find? found]
    change (registerKeyword _ active >>= fun _ => rest.forM _).on session = _
    rw [on_bind, registered, List.foldl_cons]
    refine @ih { session with table := session.table.register active } fun other member => ?_
    obtain ⟨number, old, known, read⟩ := bound other (List.mem_cons_of_mem active member)
    rw [Table.register_of_find? found]
    obtain ⟨new, still⟩ := Table.exists_modify read id (·.classify active.keyword active.extension)
    exact ⟨number, new, known, still⟩

end Work

/-- In every session that programs lead to with checks, whatever the sources: if registering the keywords of a dialect
succeeds and every source that it asks leaves the records alone that there are then, registering them again succeeds and
changes nothing. No source is asked, nothing is bound, interned or allocated, and every record stays as it is. -/
theorem registering_again_changes_nothing {behaviour : S → String → Script S σ} {depth : Nat} {dialect : Dialect}
    {before after : Session S σ} (reachable : before.Reachable .enabled)
    (outcome : (Work.addKeywords .enabled behaviour depth dialect).on before = (.ok (), after))
    (spared : ∀ errand ∈ keywordErrands .enabled behaviour depth dialect.keywords before, errand.Spares)
    (again : S → String → Script S σ) (levels : Nat) :
    (Work.addKeywords .enabled again levels dialect).on after = (.ok (), after) := by
  have settled : after.table.Settled dialect.keywords :=
    Work.forM_registerKeyword_settles outcome spared (fun _ _ => reachable.packed) (Table.settled_nil before.table)
  show (dialect.keywords.forM (Work.registerKeyword (Work.get .enabled again levels))).on after = (.ok (), after)
  rw [Work.forM_registerKeyword_bound again levels settled.bound, settled.foldl_register]

/-- A source that answers with one and the same record, whatever it is asked about. -/
def lumping : Unit → String → Script Unit Unit := fun _ _ => .observe fun table => .answer (table.find? "number")

def numbered : Session Unit Unit :=
  ((Work.perform .enabled (Work.get .enabled lumping 1)
    (.create "number" fun id => .update id (.mark .poisoned true) (.attach () (.answer none)))).on (.start ())).2

/-- Sessions with that source, in which nothing is bound but to the one record. -/
structure Lumped (session : Session Unit Unit) : Prop where
  chain : session.chain = [⟨0, ()⟩]
  number : session.table.find? "number" = some ⟨0⟩
  record : ∃ record, session.table.records.get? ⟨0⟩ = some record
  all : ∀ symbol id, session.table.bound? symbol = some id → id = ⟨0⟩

namespace Lumped
variable {session : Session Unit Unit}

theorem perform_lumping (source : Unit) (spelling : String) (session : Session Unit Unit) :
    (Work.perform .enabled (Work.get .enabled lumping 0) (lumping source spelling)).on session =
      (.ok (session.table.find? "number"), session) := rfl

theorem numbered_lumped : Lumped numbered where
  chain := by cbv
  number := by cbv
  record := ⟨(Record.fresh (.atIndex 0)).setMark .poisoned true, by cbv⟩
  all symbol id bound := by
    have bindings : numbered.table.bindings = (Overlay.constant none).set (.atIndex 0) (some ⟨0⟩) := by cbv
    rw [Table.bound?, bindings] at bound
    by_cases same : symbol = .atIndex 0
    · rw [same, Overlay.set, Overlay.get_modify_same] at bound
      exact (Option.some.inj bound).symm
    · rw [Overlay.set, Overlay.get_modify_other _ _ (Ne.symm same), Overlay.get_constant] at bound
      cases bound

theorem get (lumped : Lumped session) (spelling : String) : ∃ after,
    (Work.get .enabled lumping 1 spelling).on session = (.ok ⟨0⟩, after) ∧ Lumped after ∧
      ∀ errand ∈ errandsOf .enabled lumping 1 spelling session, errand.Spares := by
  have number : (session.table.intern spelling).2.find? "number" = some ⟨0⟩ :=
    (Table.extends_intern session.table spelling).find? lumped.number
  have asks : (Work.consult .enabled lumping (Work.get .enabled lumping 0) spelling session.chain).on
      { session with table := (session.table.intern spelling).2, chain := [] } = (.ok (some ⟨0⟩), { session with
        table := (session.table.intern spelling).2, chain := [],
        asked := session.asked.push (⟨0, ()⟩, spelling) }) := by
    rw [lumped.chain, Work.consult_on, perform_lumping, number]
  have spared : ∀ errand ∈ errandsOf .enabled lumping 1 spelling session, errand.Spares := by
    intro errand member
    cases found : (session.table.intern spelling).2.find? spelling with
    | some id =>
      rw [errandsOf, found] at member
      cases member
    | none =>
      rw [errandsOf_unbound .enabled lumping 0 found, lumped.chain, errands, perform_lumping, number] at member
      rw [List.mem_singleton.mp member]
      exact Table.Preserves.refl _
  rcases outcome : (Work.get .enabled lumping 1 spelling).on session with ⟨result, after⟩
  cases Work.getBy_ending outcome with
  | known bound =>
    obtain rfl := lumped.all _ _ bound
    exact ⟨_, rfl, ⟨lumped.chain, number, lumped.record, lumped.all⟩, spared⟩
  | alone unbound chain =>
    rw [lumped.chain] at chain
    cases chain
  | failed unbound failed => cases asks.symm.trans failed
  | answered unbound answered =>
    cases asks.symm.trans answered
    refine ⟨_, rfl, ⟨?_, ?_, lumped.record, fun symbol id bound => ?_⟩, spared⟩
    · rw [lumped.chain]
      rfl
    · obtain ⟨symbol, interned, bound⟩ := Table.find?_eq_some.mp number
      refine Table.find?_eq_some.mpr ⟨symbol, interned, ?_⟩
      rw [Table.bound?_bind, bound, ite_self]
    · rw [Table.bound?_bind] at bound
      split at bound
      · exact (Option.some.inj bound).symm
      · exact lumped.all symbol id bound
  | kept unbound silent bound => cases asks.symm.trans silent
  | missed unbound silent free => cases asks.symm.trans silent

theorem registerKeyword (lumped : Lumped session) (active : ActiveKeyword) : ∃ after,
    (Work.registerKeyword (Work.get .enabled lumping 1) active).on session = (.ok (), after) ∧ Lumped after ∧
      ∀ errand ∈ errandsOf .enabled lumping 1 active.spelling session, errand.Spares := by
  obtain ⟨middle, got, still, spared⟩ := lumped.get active.spelling
  obtain ⟨record, entered⟩ := still.record
  refine ⟨_, Work.registerKeyword_on got entered, ?_, spared⟩
  exact ⟨still.chain, still.number, Table.exists_modify entered ⟨0⟩ _, still.all⟩

theorem registerKeywords (lumped : Lumped session) (keywords : List ActiveKeyword) : ∃ after,
    (keywords.forM (Work.registerKeyword (Work.get .enabled lumping 1))).on session = (.ok (), after) ∧ Lumped after ∧
      ∀ errand ∈ keywordErrands .enabled lumping 1 keywords session, errand.Spares := by
  induction keywords generalizing session with
  | nil => exact ⟨session, rfl, lumped, fun errand none => by cases none⟩
  | cons active rest ih =>
    obtain ⟨middle, registered, still, spared⟩ := lumped.registerKeyword active
    obtain ⟨after, ran, last, spares⟩ := ih still
    refine ⟨after, ?_, last, fun errand member => ?_⟩
    · change (Work.registerKeyword _ active >>= fun _ => rest.forM _).on session = _
      rw [Work.on_bind, registered]
      exact ran
    · rw [keywordErrands, Work.following, registered] at member
      exact (List.mem_append.mp member).elim (spared errand) (spares errand)

end Lumped

theorem lumped_keywords_stay_lumped : ∃ after,
    (Work.addKeywords .enabled lumping 1 (.ofStandard .gnu99)).on numbered = (.ok (), after) ∧
      (∀ active ∈ (Dialect.ofStandard .gnu99).keywords, after.table.find? active.spelling = some ⟨0⟩) ∧
      (Work.addKeywords .enabled lumping 1 (.ofStandard .gnu99)).on after = (.ok (), after) := by
  obtain ⟨after, ran, lumped, spared⟩ := Lumped.numbered_lumped.registerKeywords (Dialect.ofStandard .gnu99).keywords
  have reachable : numbered.Reachable .enabled := .run (.start ()) lumping 1 _
  have settled := Work.forM_registerKeyword_settles ran spared (fun _ _ => reachable.packed) (Table.settled_nil _)
  refine ⟨after, ran, fun active member => ?_, registering_again_changes_nothing reachable ran spared lumping 1⟩
  obtain ⟨id, -, found, -⟩ := settled.bound active member
  obtain ⟨symbol, -, bound⟩ := Table.find?_eq_some.mp found
  rw [found, lumped.all symbol id bound]

end Canon.Identifier
