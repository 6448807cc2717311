import Mathlib
import Canon.Proofs.Identifier.Asking

/-!
The protocol of look-ups. A look-up asks the sources of its chain in order, about its spelling only, and stops at the
first that answers with a record; nobody who looks up meanwhile reaches them. In a run no source is asked twice about
one spelling.
-/
namespace Canon.Identifier
variable {S σ : Type}

structure Question (S : Type) where
  source : Attached S
  /-- Who has been asked about what until the source answered, sources by their serial numbers. -/
  meanwhile : List (Nat × String)
  answer : Except Fault (Option IdentifierId)

def Question.log (spelling : String) (question : Question S) : List (Nat × String) :=
  (question.source.serial, spelling) :: question.meanwhile

/-- The questions that sources are asked one after another, with their answers. -/
def questions (checks : Checks) (behaviour : S → String → Script S σ) (getting : String → Work S σ IdentifierId)
    (spelling : String) : List (Attached S) → Session S σ → List (Question S)
  | [], _ => []
  | source :: rest, session =>
    let begun : Session S σ := { session with asked := session.asked.push (source, spelling) }
    match (Work.perform checks getting (behaviour source.source spelling)).on begun with
    | (.ok none, later) =>
      ⟨source, later.log.drop begun.log.length, .ok none⟩ :: questions checks behaviour getting spelling rest later
    | (answer, later) => [⟨source, later.log.drop begun.log.length, answer⟩]

def questionsOf (checks : Checks) (behaviour : S → String → Script S σ) :
    Nat → String → Session S σ → List (Question S)
  | 0, _, _ => []
  | depth + 1, spelling, session =>
    match (session.table.intern spelling).2.find? spelling with
    | some _ => []
    | none => questions checks behaviour (Work.get checks behaviour depth) spelling session.chain
        { session with table := (session.table.intern spelling).2, chain := [] }

theorem questionsOf_unbound (checks : Checks) (behaviour : S → String → Script S σ) (depth : Nat) {spelling : String}
    {session : Session S σ} (unbound : (session.table.intern spelling).2.find? spelling = none) :
    questionsOf checks behaviour (depth + 1) spelling session =
      questions checks behaviour (Work.get checks behaviour depth) spelling session.chain
        { session with table := (session.table.intern spelling).2, chain := [] } := by
  show (match (session.table.intern spelling).2.find? spelling with | some _ => [] | none => _) = _
  rw [unbound]

theorem questionsOf_eq_nil (checks : Checks) (behaviour : S → String → Script S σ) (depth : Nat) {spelling : String}
    {session : Session S σ}
    (needless : ((session.table.intern spelling).2.find? spelling).isSome ∨ session.chain = []) :
    questionsOf checks behaviour depth spelling session = [] := by
  cases depth with
  | zero => rfl
  | succ depth =>
    cases found : (session.table.intern spelling).2.find? spelling with
    | some id =>
      show (match (session.table.intern spelling).2.find? spelling with | some _ => [] | none => _) = []
      rw [found]
    | none =>
      rw [found] at needless
      rw [questionsOf_unbound checks behaviour depth found, needless.resolve_left Bool.false_ne_true, questions]

structure Consulted (spelling : String) (chain : List (Attached S)) (before : Session S σ)
    (questions : List (Question S)) (found : Except Fault (Option IdentifierId)) (after : Session S σ) : Prop where
  log : after.log = before.log ++ questions.flatMap (·.log spelling)
  order : questions.map Question.source <+: chain
  stops : ∀ question ∈ questions.dropLast, question.answer = .ok none
  answer : ∀ question ∈ questions, question.answer ≠ .ok none → found = question.answer
  silent : (∀ question ∈ questions, question.answer = .ok none) →
    found = .ok none ∧ questions.map Question.source = chain
  newer : ∀ question ∈ questions, ∀ entry ∈ question.meanwhile,
    entry.1 ∈ before.serials ∨ before.nextSerial ≤ entry.1

section
variable {spelling : String} {source : Attached S} {rest : List (Attached S)} {before begun later after : Session S σ}

theorem Consulted.nil : Consulted spelling [] before [] (.ok none) before where
  log := (List.append_nil _).symm
  order := List.prefix_refl _
  stops question member := by cases member
  answer question member := by cases member
  silent _ := ⟨rfl, rfl⟩
  newer question member := by cases member

theorem log_of_follows (asked : begun.log = before.log ++ [(source.serial, spelling)])
    (follows : Follows [] begun later) (answer : Except Fault (Option IdentifierId)) :
    later.log = before.log ++ Question.log spelling ⟨source, later.log.drop begun.log.length, answer⟩ := by
  obtain ⟨entries, told, -⟩ := follows.told
  unfold Question.log
  rw [told, List.drop_left, asked, List.append_assoc]
  rfl

theorem newer_of_follows (follows : Follows [] begun later) :
    ∀ entry ∈ later.log.drop begun.log.length, entry.1 ∈ begun.serials ∨ begun.nextSerial ≤ entry.1 := by
  obtain ⟨entries, told, asks⟩ := follows.told
  rw [told, List.drop_left]
  intro entry member
  rcases asks.asked entry member with none | ⟨chained, -⟩ | newer
  · cases none
  · exact .inl chained
  · exact .inr newer

theorem Consulted.last (asked : begun.log = before.log ++ [(source.serial, spelling)])
    (serials : begun.serials = before.serials) (serial : begun.nextSerial = before.nextSerial)
    (follows : Follows [] begun later) {answer : Except Fault (Option IdentifierId)} (loud : answer ≠ .ok none) :
    Consulted spelling (source :: rest) before [⟨source, later.log.drop begun.log.length, answer⟩] answer later where
  log := by
    rw [List.flatMap_singleton]
    exact log_of_follows asked follows answer
  order := List.cons_prefix_cons.mpr ⟨rfl, List.nil_prefix⟩
  stops question member := by cases member
  answer question member _ := by rw [List.mem_singleton.mp member]
  silent quiet := absurd (quiet _ (List.mem_singleton.mpr rfl)) loud
  newer question member entry among := by
    rw [List.mem_singleton.mp member] at among
    rw [← serials, ← serial]
    exact newer_of_follows follows entry among

theorem Consulted.cons (asked : begun.log = before.log ++ [(source.serial, spelling)])
    (serials : begun.serials = before.serials) (serial : begun.nextSerial = before.nextSerial)
    (follows : Follows [] begun later) {others : List (Question S)} {found : Except Fault (Option IdentifierId)}
    (consulted : Consulted spelling rest later others found after) :
    Consulted spelling (source :: rest) before (⟨source, later.log.drop begun.log.length, .ok none⟩ :: others)
      found after where
  log := by
    rw [consulted.log, List.flatMap_cons, ← List.append_assoc, ← log_of_follows asked follows (.ok none)]
  order := List.cons_prefix_cons.mpr ⟨rfl, consulted.order⟩
  stops question member := by
    cases others with
    | nil => cases member
    | cons next more =>
      rw [List.dropLast_cons_cons] at member
      rcases List.mem_cons.mp member with rfl | after
      · rfl
      · exact consulted.stops question after
  answer question member loud := by
    rcases List.mem_cons.mp member with rfl | after
    · exact absurd rfl loud
    · exact consulted.answer question after loud
  silent quiet := by
    obtain ⟨nothing, all⟩ := consulted.silent fun question member => quiet question (List.mem_cons_of_mem _ member)
    exact ⟨nothing, congrArg (source :: ·) all⟩
  newer question member entry among := by
    rcases List.mem_cons.mp member with rfl | after
    · rw [← serials, ← serial]
      exact newer_of_follows follows entry among
    · rw [← serials, ← serial]
      rcases consulted.newer question after entry among with chained | newer
      · exact follows.chain entry.1 chained
      · exact .inr (Nat.le_trans follows.serial newer)

end

namespace Work
variable {getting : String → Work S σ IdentifierId}

theorem consult_consulted (checks : Checks) (steady : ∀ spelling, (getting spelling).Steady) (behaviour : S → String → Script S σ)
    (spelling : String) (chain : List (Attached S)) {before : Session S σ} (ordered : before.Ordered) :
    Consulted spelling chain before (questions checks behaviour getting spelling chain before)
      ((consult checks behaviour getting spelling chain).on before).1
      ((consult checks behaviour getting spelling chain).on before).2 := by
  induction chain generalizing before with
  | nil => exact .nil
  | cons source rest ih =>
    have asked := Follows.log_push before source spelling
    have follows := Steady.perform checks steady (behaviour source.source spelling)
      { before with asked := before.asked.push (source, spelling) } ⟨ordered.ascending, ordered.issued⟩
    rw [consult_on]
    unfold questions
    dsimp only
    rcases run : (perform checks getting (behaviour source.source spelling)).on
      { before with asked := before.asked.push (source, spelling) } with ⟨outcome, later⟩
    rw [run] at follows
    cases outcome with
    | error fault => exact .last asked rfl rfl follows (by simp)
    | ok answer =>
      cases answer with
      | some id => exact .last asked rfl rfl follows (by simp)
      | none => exact .cons asked rfl rfl follows (ih follows.ordered)

end Work

/-- The rules of a look-up. Its questions, and those that are asked while its sources answer them, are all that is
asked. They are about its spelling, go along the chain, to nobody twice, and end with the first record, which is what the
look-up yields. A bound spelling is not asked about. No source of the chain is asked by anybody else meanwhile. -/
structure Protocol (spelling : String) (before : Session S σ) (questions : List (Question S))
    (outcome : Except Fault IdentifierId) (after : Session S σ) : Prop where
  log : after.log = before.log ++ questions.flatMap (·.log spelling)
  order : questions.map Question.source <+: before.chain
  once : (questions.map (·.source.serial)).Nodup
  stops : ∀ question ∈ questions.dropLast, question.answer = .ok none
  needed : (before.table.find? spelling).isSome → questions = []
  apart : ∀ question ∈ questions, ∀ entry ∈ question.meanwhile, entry.1 ∉ before.serials
  yields : ∀ question ∈ questions, ∀ id, question.answer = .ok (some id) → outcome = .ok id
  breaks : ∀ question ∈ questions, ∀ fault, question.answer = .error fault → outcome = .error fault
  /-- A look-up that succeeds without an answer has asked everybody. -/
  silent : ∀ id, outcome = .ok id → (before.table.intern spelling).2.find? spelling = none →
    (∀ question ∈ questions, question.answer = .ok none) → questions.map Question.source = before.chain

namespace Protocol
variable {spelling : String} {before after later : Session S σ} {outcome : Except Fault IdentifierId}

theorem unasked (log : after.log = before.log)
    (silent : ∀ id, outcome = .ok id → (before.table.intern spelling).2.find? spelling = none → before.chain = []) :
    Protocol spelling before [] outcome after where
  log := by rw [log, List.flatMap_nil, List.append_nil]
  order := List.nil_prefix
  once := List.nodup_nil
  stops question member := by cases member
  needed _ := rfl
  apart question member := by cases member
  yields question member := by cases member
  breaks question member := by cases member
  silent id yielded unbound _ := (silent id yielded unbound).symm

theorem of_consulted (ordered : before.Ordered) {table : Table} {questions : List (Question S)}
    {found : Except Fault (Option IdentifierId)} (unbound : before.table.find? spelling = none)
    (consulted : Consulted spelling before.chain { before with table, chain := [] } questions found later)
    (log : after.log = later.log) (agrees : found = .ok none ∨ found = outcome.map some) :
    Protocol spelling before questions outcome after where
  log := log.trans consulted.log
  order := consulted.order
  once := by
    have serials : questions.map (·.source.serial) = (questions.map Question.source).map Attached.serial := by
      rw [List.map_map]
      rfl
    rw [serials]
    have distinct : before.serials.Nodup := ordered.ascending.imp Nat.ne_of_lt
    exact distinct.sublist (consulted.order.sublist.map Attached.serial)
  stops := consulted.stops
  needed bound := by
    rw [unbound] at bound
    cases bound
  apart question member entry among chained := by
    rcases consulted.newer question member entry among with none | newer
    · cases none
    · exact absurd (ordered.issued entry.1 chained) (Nat.not_lt.mpr newer)
  yields question member id answered := by
    have same := (consulted.answer question member (by rw [answered]; simp)).trans answered
    rw [same] at agrees
    cases outcome with
    | ok number =>
      cases agrees.resolve_left (by simp)
      rfl
    | error fault => cases agrees.resolve_left (by simp)
  breaks question member fault answered := by
    have same := (consulted.answer question member (by rw [answered]; simp)).trans answered
    rw [same] at agrees
    cases outcome with
    | ok number => cases agrees.resolve_left (by simp)
    | error other =>
      cases agrees.resolve_left (by simp)
      rfl
  silent _ _ _ quiet := (consulted.silent quiet).2

end Protocol

namespace Work

section
variable {checks : Checks} {behaviour : S → String → Script S σ} {depth : Nat} {spelling : String}
  {before after : Session S σ} {result : Except Fault IdentifierId}

theorem get_zero_protocol (outcome : (get checks behaviour 0 spelling).on before = (result, after)) :
    Protocol spelling before [] result after := by
  have finds := before.table.find?_intern_self spelling
  cases getBy_ending outcome with
  | known bound => exact .unasked rfl fun _ _ unbound => by rw [finds, bound] at unbound; cases unbound
  | alone unbound chain => exact .unasked rfl fun _ _ _ => chain
  | failed unbound consulted =>
    cases consulted
    exact .unasked rfl fun _ failed => by cases failed
  | answered unbound consulted => cases consulted
  | kept unbound consulted => cases consulted
  | missed unbound consulted => cases consulted

theorem questionsOf_consulted {found : Except Fault (Option IdentifierId)} {later : Session S σ}
    (unbound : (before.table.intern spelling).2.bound? (before.table.intern spelling).1 = none)
    (consulted : (consult checks behaviour (get checks behaviour depth) spelling before.chain).on
      { before with table := (before.table.intern spelling).2, chain := [] } = (found, later)) :
    Consulted spelling before.chain { before with table := (before.table.intern spelling).2, chain := [] }
      (questionsOf checks behaviour (depth + 1) spelling before) found later := by
  have detached : ({ before with table := (before.table.intern spelling).2, chain := [] } : Session S σ).Ordered :=
    ⟨List.Pairwise.nil, fun _ none => by cases none⟩
  have asks := consult_consulted checks (get_steady checks behaviour depth) behaviour spelling before.chain detached
  rw [consulted] at asks
  rw [questionsOf_unbound checks behaviour depth ((before.table.find?_intern_self spelling).trans unbound)]
  exact asks

theorem get_succ_protocol (ordered : before.Ordered)
    (outcome : (get checks behaviour (depth + 1) spelling).on before = (result, after)) :
    Protocol spelling before (questionsOf checks behaviour (depth + 1) spelling before) result after := by
  cases getBy_ending outcome with
  | known bound =>
    have found := (before.table.find?_intern_self spelling).trans bound
    rw [questionsOf_eq_nil checks behaviour (depth + 1) (.inl (Option.isSome_of_mem found))]
    exact .unasked rfl fun _ _ unbound => by rw [found] at unbound; cases unbound
  | alone unbound chain =>
    have nobody : before.chain = [] := chain
    rw [questionsOf_eq_nil checks behaviour (depth + 1) (.inr nobody)]
    exact .unasked rfl fun _ _ _ => nobody
  | failed unbound consulted =>
    have asks := questionsOf_consulted unbound consulted
    exact .of_consulted ordered (Table.find?_eq_none_of_intern unbound) asks rfl (.inr rfl)
  | answered unbound consulted =>
    have asks := questionsOf_consulted unbound consulted
    exact .of_consulted ordered (Table.find?_eq_none_of_intern unbound) asks rfl (.inr rfl)
  | kept unbound consulted bound =>
    have asks := questionsOf_consulted unbound consulted
    exact .of_consulted ordered (Table.find?_eq_none_of_intern unbound) asks rfl (.inl rfl)
  | missed unbound consulted still =>
    have asks := questionsOf_consulted unbound consulted
    exact .of_consulted ordered (Table.find?_eq_none_of_intern unbound) asks rfl (.inl rfl)

end

theorem get_protocol (checks : Checks) (behaviour : S → String → Script S σ) (depth : Nat) (spelling : String)
    {before : Session S σ} (ordered : before.Ordered) :
    Protocol spelling before (questionsOf checks behaviour depth spelling before)
      ((get checks behaviour depth spelling).on before).1 ((get checks behaviour depth spelling).on before).2 := by
  rcases outcome : (get checks behaviour depth spelling).on before with ⟨result, after⟩
  cases depth with
  | zero => exact get_zero_protocol outcome
  | succ depth => exact get_succ_protocol ordered outcome

end Work

/-- From every session whose chain is in order, with or without checks and whatever the sources do: every look-up obeys
the rules, and whatever a program does, and however it ends, the chain stays in order and no source is asked twice about
one spelling. -/
theorem sources_are_asked_once (checks : Checks) (behaviour : S → String → Script S σ) (depth : Nat)
    (before : Session S σ) (ordered : before.Ordered) :
    (∀ spelling, Protocol spelling before (questionsOf checks behaviour depth spelling before)
      ((Work.get checks behaviour depth spelling).on before).1
      ((Work.get checks behaviour depth spelling).on before).2) ∧
    ∀ program, ((Work.perform checks (Work.get checks behaviour depth) program).on before).2.Ordered ∧
      ∃ later, ((Work.perform checks (Work.get checks behaviour depth) program).on before).2.log =
        before.log ++ later ∧ later.Nodup := by
  constructor
  · intro spelling
    exact Work.get_protocol checks behaviour depth spelling ordered
  · intro program
    have follows := Work.Steady.perform checks (Work.get_steady checks behaviour depth) program before ordered
    obtain ⟨later, told, asks⟩ := follows.told
    exact ⟨follows.ordered, later, told, asks.once⟩

/-- A source that brings in a second one and looks something up, and one that knows nothing. -/
def curious : Bool → String → Script Bool Unit
  | true, _ => .attach false (.get "b" fun _ => .answer none)
  | false, _ => .answer none

def withBoth : Session Bool Unit := ⟨.empty, [⟨0, true⟩, ⟨1, false⟩], (), 2, #[]⟩

/-- Gets two records while the first source is in the chain. -/
def inquiry : Script Bool Unit := .attach true (.get "a" fun _ => .get "b" fun id => .answer (some id))

theorem curious_source_is_asked_once : withBoth.Ordered ∧
    (questionsOf .enabled curious 2 "a" withBoth).map (·.log "a") = [[(0, "a"), (2, "b")], [(1, "a")]] ∧
    Protocol "a" withBoth (questionsOf .enabled curious 2 "a" withBoth)
      ((Work.get .enabled curious 2 "a").on withBoth).1 ((Work.get .enabled curious 2 "a").on withBoth).2 ∧
    ((Work.perform .disabled (Work.get .disabled curious 2) inquiry).on (.start ())).2.log = [(0, "a"), (1, "b")] ∧
    ∃ later, ((Work.perform .disabled (Work.get .disabled curious 2) inquiry).on (.start ())).2.log =
      Session.log (.start () : Session Bool Unit) ++ later ∧ later.Nodup := by
  have ordered : withBoth.Ordered := ⟨by decide, by decide⟩
  have protocol := (sources_are_asked_once .enabled curious 2 withBoth ordered).1 "a"
  have whole := (sources_are_asked_once .disabled curious 2 (.start ()) (Session.ordered_start ())).2 inquiry
  exact ⟨ordered, by cbv, protocol, by cbv, whole.2⟩

end Canon.Identifier
