import Canon.Proofs.Identifier.Growth
import Canon.Proofs.Identifier.Steps

/-!
Who is asked about what. Sources are told apart by their serial numbers, which only grow along a chain. While sources
are asked the chain is off the session, so whoever is asked meanwhile has been attached meanwhile; and once the chain is
back, the spelling it was asked about is bound. Hence no source is asked twice about one spelling, whatever happens.
-/
namespace Canon.Identifier
variable {S σ α β : Type}

namespace Session

def serials (session : Session S σ) : List Nat := session.chain.map Attached.serial

def log (session : Session S σ) : List (Nat × String) :=
  session.asked.toList.map fun (source, spelling) => (source.serial, spelling)

/-- Serial numbers grow along the chain, and the next one is greater still. -/
structure Ordered (session : Session S σ) : Prop where
  ascending : session.serials.Pairwise (· < ·)
  issued : ∀ serial ∈ session.serials, serial < session.nextSerial

theorem ordered_start (memory : σ) : (start memory : Session S σ).Ordered where
  ascending := List.Pairwise.nil
  issued serial member := by cases member

theorem Ordered.append {before after : Session S σ} {new : List Nat} (ordered : before.Ordered)
    (serials : after.serials = before.serials ++ new) (ascending : new.Pairwise (· < ·))
    (newer : ∀ serial ∈ new, before.nextSerial ≤ serial ∧ serial < after.nextSerial)
    (grown : before.nextSerial ≤ after.nextSerial) : after.Ordered where
  ascending := by
    rw [serials]
    refine List.pairwise_append.mpr ⟨ordered.ascending, ascending, ?_⟩
    intro old member serial also
    exact Nat.lt_of_lt_of_le (ordered.issued old member) (newer serial also).1
  issued serial member := by
    rw [serials] at member
    rcases List.mem_append.mp member with old | also
    · exact Nat.lt_of_lt_of_le (ordered.issued serial old) grown
    · exact (newer serial also).2

end Session

/-- What has been asked between two sessions. Nothing is asked twice. Apart from the given questions, sources of the
chain are asked only about spellings that were unbound, and all others are newer. Whatever a source of the chain has
been asked about is bound by now. -/
structure Asks (given : List (Nat × String)) (before : Session S σ) (later : List (Nat × String))
    (after : Session S σ) : Prop where
  once : later.Nodup
  issued : ∀ entry ∈ later, entry.1 < after.nextSerial
  asked : ∀ entry ∈ later, entry ∈ given ∨
    (entry.1 ∈ before.serials ∧ before.table.find? entry.2 = none) ∨ before.nextSerial ≤ entry.1
  settled : ∀ entry ∈ later, entry.1 ∈ after.serials → (after.table.find? entry.2).isSome

namespace Asks
variable {given more early late : List (Nat × String)} {before middle after : Session S σ}

theorem nil (before after : Session S σ) : Asks [] before [] after where
  once := List.nodup_nil
  issued entry member := by cases member
  asked entry member := by cases member
  settled entry member := by cases member

/-- What has been asked is not asked again: a source that is still in the chain is not asked about what is bound, and
one that has been asked is not new. -/
theorem not_again (one : Asks given before early middle) (two : Asks more middle late after)
    (apart : ∀ entry ∈ more, entry ∉ given ∧ entry.1 ∉ before.serials ∧ entry.1 < before.nextSerial) :
    ∀ entry ∈ early, entry ∉ late := by
  intro entry old new
  have issued := one.issued entry old
  rcases two.asked entry new with gave | ⟨chained, free⟩ | newer
  · obtain ⟨other, absent, below⟩ := apart entry gave
    rcases one.asked entry old with also | ⟨chained, -⟩ | newer
    · exact other also
    · exact absent chained
    · omega
  · have bound := one.settled entry old chained
    rw [free] at bound
    cases bound
  · omega

end Asks

/-- How a stretch of a run goes on from a session whose chain is in order. -/
structure Follows (given : List (Nat × String)) (before after : Session S σ) : Prop where
  serial : before.nextSerial ≤ after.nextSerial
  table : before.table.Grows after.table
  chain : ∀ serial ∈ after.serials, serial ∈ before.serials ∨ before.nextSerial ≤ serial
  ordered : after.Ordered
  told : ∃ later, after.log = before.log ++ later ∧ Asks given before later after

namespace Follows
variable {given more : List (Nat × String)} {before middle after : Session S σ}

theorem of_quiet (ordered : before.Ordered) (serial : after.nextSerial = before.nextSerial)
    (log : after.log = before.log) (chain : after.serials.Sublist before.serials)
    (table : before.table.Grows after.table) : Follows [] before after where
  serial := Nat.le_of_eq serial.symm
  table := table
  chain number member := .inl (chain.subset member)
  ordered := by
    refine ⟨ordered.ascending.sublist chain, fun number member => ?_⟩
    rw [serial]
    exact ordered.issued number (chain.subset member)
  told := ⟨[], by rw [log, List.append_nil], .nil before after⟩

theorem refl (ordered : before.Ordered) : Follows [] before before :=
  of_quiet ordered rfl rfl (List.Sublist.refl _) (.refl _)

theorem asks_append (first : Follows given before middle) (second : Follows more middle after)
    {early late : List (Nat × String)} (one : Asks given before early middle) (two : Asks more middle late after)
    (apart : ∀ entry ∈ more, entry ∉ given ∧ entry.1 ∉ before.serials ∧ entry.1 < before.nextSerial) :
    Asks (given ++ more) before (early ++ late) after where
  once := List.nodup_append'.mpr ⟨one.once, two.once, one.not_again two apart⟩
  issued entry member := by
    rcases List.mem_append.mp member with old | new
    · exact Nat.lt_of_lt_of_le (one.issued entry old) second.serial
    · exact two.issued entry new
  asked entry member := by
    rcases List.mem_append.mp member with old | new
    · rcases one.asked entry old with gave | rest
      · exact .inl (List.mem_append_left _ gave)
      · exact .inr rest
    · rcases two.asked entry new with gave | ⟨chained, free⟩ | newer
      · exact .inl (List.mem_append_right _ gave)
      · rcases first.chain entry.1 chained with still | newer
        · exact .inr (.inl ⟨still, first.table.find?_eq_none free⟩)
        · exact .inr (.inr newer)
      · exact .inr (.inr (Nat.le_trans first.serial newer))
  settled entry member chained := by
    rcases List.mem_append.mp member with old | new
    · rcases second.chain entry.1 chained with still | newer
      · exact second.table.isSome_find? (one.settled entry old still)
      · exact absurd (one.issued entry old) (Nat.not_lt.mpr newer)
    · exact two.settled entry new chained

theorem trans (first : Follows given before middle) (second : Follows more middle after)
    (apart : ∀ entry ∈ more, entry ∉ given ∧ entry.1 ∉ before.serials ∧ entry.1 < before.nextSerial) :
    Follows (given ++ more) before after where
  serial := Nat.le_trans first.serial second.serial
  table := first.table.trans second.table
  chain number member := by
    rcases second.chain number member with old | new
    · exact first.chain number old
    · exact .inr (Nat.le_trans first.serial new)
  ordered := second.ordered
  told := by
    obtain ⟨early, told, one⟩ := first.told
    obtain ⟨late, again, two⟩ := second.told
    exact ⟨early ++ late, by rw [again, told, List.append_assoc], first.asks_append second one two apart⟩

theorem extend (first : Follows given before middle) (second : Follows [] middle after) : Follows given before after := by
  have whole := first.trans second (by simp)
  rw [List.append_nil] at whole
  exact whole

theorem weaken (follows : Follows given before after) (among : given ⊆ more) : Follows more before after where
  serial := follows.serial
  table := follows.table
  chain := follows.chain
  ordered := follows.ordered
  told := by
    obtain ⟨later, told, asks⟩ := follows.told
    refine ⟨later, told, asks.once, asks.issued, ?_, asks.settled⟩
    intro entry member
    rcases asks.asked entry member with gave | rest
    · exact .inl (among gave)
    · exact .inr rest

theorem attach (ordered : before.Ordered) (source : S) : Follows [] before { before with
    chain := before.chain ++ [⟨before.nextSerial, source⟩], nextSerial := before.nextSerial + 1 } where
  serial := Nat.le_succ _
  table := .refl _
  chain number member := by
    change number ∈ (before.chain ++ [(⟨before.nextSerial, source⟩ : Attached S)]).map Attached.serial at member
    rw [List.map_append] at member
    rcases List.mem_append.mp member with old | new
    · exact .inl old
    · exact .inr (Nat.le_of_eq (List.mem_singleton.mp new).symm)
  ordered := by
    refine ordered.append List.map_append (List.pairwise_singleton _ before.nextSerial) ?_ (Nat.le_succ _)
    intro serial new
    rw [List.mem_singleton.mp new]
    exact ⟨Nat.le_refl _, Nat.lt_succ_self _⟩
  told := ⟨[], (List.append_nil _).symm, .nil _ _⟩

theorem log_push (session : Session S σ) (source : Attached S) (spelling : String) :
    Session.log { session with asked := session.asked.push (source, spelling) } =
      session.log ++ [(source.serial, spelling)] := by
  unfold Session.log
  rw [Array.toList_push, List.map_append]
  rfl

theorem note (ordered : before.Ordered) {source : Attached S} (spelling : String)
    (issued : source.serial < before.nextSerial) (off : source.serial ∉ before.serials) :
    Follows [(source.serial, spelling)] before
      { before with asked := before.asked.push (source, spelling) } where
  serial := Nat.le_refl _
  table := .refl _
  chain number member := .inl member
  ordered := ⟨ordered.ascending, ordered.issued⟩
  told := by
    refine ⟨[(source.serial, spelling)], log_push before source spelling, List.nodup_singleton _, ?_, ?_, ?_⟩
    · intro entry member
      rw [List.mem_singleton.mp member]
      exact issued
    · intro entry member
      exact .inl member
    · intro entry member chained
      rw [List.mem_singleton.mp member] at chained
      exact absurd chained off

end Follows

def questionsTo (chain : List (Attached S)) (spelling : String) : List (Nat × String) :=
  chain.map fun source => (source.serial, spelling)

section
variable {before later after : Session S σ} {spelling : String} {table : Table}

theorem newer_of_detached
    (follows : Follows (questionsTo before.chain spelling) { before with table, chain := [] } later) :
    ∀ serial ∈ later.serials, before.nextSerial ≤ serial := by
  intro serial member
  rcases follows.chain serial member with none | newer
  · cases none
  · exact newer

/-- Whoever is asked while the chain is off the session is a source of the chain, which is asked about the spelling
only, or newer than the chain. -/
theorem asked_of_detached {entries : List (Nat × String)}
    (asks : Asks (questionsTo before.chain spelling) { before with table, chain := [] } entries later) :
    ∀ entry ∈ entries, (entry.1 ∈ before.serials ∧ entry.2 = spelling) ∨ before.nextSerial ≤ entry.1 := by
  intro entry member
  rcases asks.asked entry member with gave | ⟨none, -⟩ | newer
  · obtain ⟨source, chained, rfl⟩ := List.mem_map.mp gave
    exact .inl ⟨List.mem_map_of_mem chained, rfl⟩
  · cases none
  · exact .inr newer

theorem Follows.of_detached (grows : before.table.Grows table) (unbound : before.table.find? spelling = none)
    (follows : Follows (questionsTo before.chain spelling) { before with table, chain := [] } later) :
    Follows [] before later where
  serial := follows.serial
  table := grows.trans follows.table
  chain serial member := .inr (newer_of_detached follows serial member)
  ordered := follows.ordered
  told := by
    obtain ⟨entries, told, asks⟩ := follows.told
    refine ⟨entries, told, asks.once, asks.issued, ?_, asks.settled⟩
    intro entry member
    rcases asked_of_detached asks entry member with ⟨chained, same⟩ | newer
    · exact .inr (.inl ⟨chained, same ▸ unbound⟩)
    · exact .inr (.inr newer)

/-- The chain comes back in front of what has been attached meanwhile, and the spelling is bound then. -/
theorem Follows.reattach (ordered : before.Ordered) (grows : before.table.Grows table)
    (unbound : before.table.find? spelling = none)
    (follows : Follows (questionsTo before.chain spelling) { before with table, chain := [] } later)
    (grown : later.table.Grows after.table) (bound : (after.table.find? spelling).isSome)
    (chain : after.chain = before.chain ++ later.chain) (serial : after.nextSerial = later.nextSerial)
    (asked : after.asked = later.asked) : Follows [] before after := by
  have serials : after.serials = before.serials ++ later.serials := by
    rw [Session.serials, chain, List.map_append]
    rfl
  have newer := newer_of_detached follows
  constructor
  · rw [serial]
    exact follows.serial
  · exact (grows.trans follows.table).trans grown
  · intro number member
    rw [serials] at member
    rcases List.mem_append.mp member with old | new
    · exact .inl old
    · exact .inr (newer number new)
  · apply ordered.append serials follows.ordered.ascending
    · intro number member
      rw [serial]
      exact ⟨newer number member, follows.ordered.issued number member⟩
    · rw [serial]
      exact follows.serial
  · obtain ⟨entries, told, asks⟩ := follows.told
    have log : after.log = before.log ++ entries := by
      rw [Session.log, asked]
      exact told
    refine ⟨entries, log, asks.once, ?_, ?_, ?_⟩
    · rw [serial]
      exact asks.issued
    · intro entry member
      rcases asked_of_detached asks entry member with ⟨chained, same⟩ | newer
      · exact .inr (.inl ⟨chained, same ▸ unbound⟩)
      · exact .inr (.inr newer)
    · intro entry member chained
      rw [serials] at chained
      rcases List.mem_append.mp chained with old | new
      · rcases asked_of_detached asks entry member with ⟨-, same⟩ | newer
        · rw [same]
          exact bound
        · exact absurd (ordered.issued entry.1 old) (Nat.not_lt.mpr newer)
      · exact grown.isSome_find? (asks.settled entry member new)

end

def Work.Steady (work : Work S σ α) : Prop := ∀ session, session.Ordered → Follows [] session (work.on session).2

namespace Work
variable {checks : Checks} {getting : String → Work S σ IdentifierId}

theorem Steady.bind {first : Work S σ α} {rest : α → Work S σ β} (steady : first.Steady)
    (continues : ∀ result, (rest result).Steady) : (first >>= rest).Steady := by
  intro session ordered
  have begins := steady session ordered
  rw [on_bind]
  rcases run : first.on session with ⟨outcome, later⟩
  rw [run] at begins
  cases outcome with
  | ok result => exact begins.extend (continues result later begins.ordered)
  | error fault => exact begins

theorem Steady.pure (result : α) : (Pure.pure result : Work S σ α).Steady := fun _ ordered => .refl ordered

theorem Steady.throw (fault : Fault) : (throw fault : Work S σ α).Steady := fun _ ordered => .refl ordered

theorem Steady.look (view : Table → α) : (look view : Work S σ α).Steady := fun _ ordered => .refl ordered

theorem Steady.onTable {change : Table → α × Table} (grows : ∀ table : Table, table.Grows (change table).2) :
    (onTable change : Work S σ α).Steady := by
  intro session ordered
  exact .of_quiet ordered rfl rfl (List.Sublist.refl _) (grows session.table)

theorem Steady.attach (source : S) : (attach source : Work S σ Unit).Steady :=
  fun _ ordered => Follows.attach ordered source

theorem Steady.clear : (clear : Work S σ Unit).Steady :=
  fun _ ordered => .of_quiet ordered rfl rfl (List.nil_sublist _) (.refl _)

theorem Steady.replace (source : S) : (replace source : Work S σ Unit).Steady :=
  Steady.clear.bind fun _ => .attach source

theorem Steady.create (spelling : String) : (create checks spelling : Work S σ IdentifierId).Steady := by
  refine (Steady.onTable fun table => .create table checks spelling).bind fun result => ?_
  cases result with
  | ok id => exact .pure id
  | error fault => exact .throw fault

theorem Steady.update (id : IdentifierId) (setter : Setter) : (update checks id setter : Work S σ Unit).Steady := by
  refine (Steady.look _).bind fun result => ?_
  cases result with
  | error fault => exact .throw fault
  | ok record =>
    dsimp only
    cases setter.apply checks record with
    | error fault => exact .throw fault
    | ok changed => exact .onTable fun table => .modify table id _

theorem Steady.registerKeyword (steady : ∀ spelling, (getting spelling).Steady) (active : ActiveKeyword) :
    (registerKeyword getting active).Steady := by
  refine (steady active.spelling).bind fun id => (Steady.look _).bind fun result => ?_
  cases result with
  | error fault => exact .throw fault
  | ok _ => exact .onTable fun table => .modify table id _

theorem Steady.registerKeywords (steady : ∀ spelling, (getting spelling).Steady) (dialect : Dialect) :
    (registerKeywords getting dialect).Steady := by
  unfold Work.registerKeywords
  induction dialect.keywords with
  | nil => exact .pure ()
  | cons active rest ih => exact (Steady.registerKeyword steady active).bind fun _ => ih

theorem Steady.perform (checks : Checks) (steady : ∀ spelling, (getting spelling).Steady) (script : Script S σ) :
    (perform checks getting script).Steady := by
  induction script with
  | answer id => exact .pure id
  | fail fault => exact .throw fault
  | observe next ih => exact (Steady.look id).bind ih
  | get spelling next ih => exact (steady spelling).bind ih
  | create spelling next ih => exact (Steady.create spelling).bind ih
  | update id setter next ih => exact (Steady.update id setter).bind fun _ => ih
  | addKeywords dialect next ih => exact (Steady.registerKeywords steady dialect).bind fun _ => ih
  | attach source next ih => exact (Steady.attach source).bind fun _ => ih
  | replace source next ih => exact (Steady.replace source).bind fun _ => ih
  | clear next ih => exact Steady.clear.bind fun _ => ih
  | retrieve next ih => exact fun session => ih session.memory session
  | remember memory next ih =>
    intro session ordered
    have quiet : Follows [] session { session with memory } :=
      .of_quiet ordered rfl rfl (List.Sublist.refl _) (.refl _)
    exact quiet.extend (ih { session with memory } quiet.ordered)

theorem consult_on (checks : Checks) (behaviour : S → String → Script S σ) (getting : String → Work S σ IdentifierId)
    (spelling : String) (source : Attached S) (rest : List (Attached S)) (session : Session S σ) :
    (consult checks behaviour getting spelling (source :: rest)).on session =
      match (perform checks getting (behaviour source.source spelling)).on
          { session with asked := session.asked.push (source, spelling) } with
      | (.error fault, later) => (.error fault, later)
      | (.ok (some id), later) => (.ok (some id), later)
      | (.ok none, later) => (consult checks behaviour getting spelling rest).on later := by
  unfold consult
  rw [on_bind, note_on]
  dsimp only
  rw [on_bind]
  rcases (perform checks getting (behaviour source.source spelling)).on
    { session with asked := session.asked.push (source, spelling) } with ⟨outcome, later⟩
  cases outcome with
  | error fault => rfl
  | ok answer =>
    cases answer with
    | some id => rfl
    | none =>
      dsimp only
      cases rest with
      | nil => rfl
      | cons next rest => rfl

theorem consult_follows (checks : Checks) (steady : ∀ spelling, (getting spelling).Steady) (behaviour : S → String → Script S σ)
    (spelling : String) {chain : List (Attached S)} {before : Session S σ} (ordered : before.Ordered)
    (ascending : (chain.map Attached.serial).Pairwise (· < ·))
    (off : ∀ source ∈ chain, source.serial < before.nextSerial ∧ source.serial ∉ before.serials) :
    Follows (questionsTo chain spelling) before ((consult checks behaviour getting spelling chain).on before).2 := by
  induction chain generalizing before with
  | nil => exact .refl ordered
  | cons source rest ih =>
    obtain ⟨issued, absent⟩ := off source List.mem_cons_self
    obtain ⟨above, ascending⟩ := List.pairwise_cons.mp ascending
    have asks := Follows.note ordered spelling issued absent
    have works := Steady.perform checks steady (behaviour source.source spelling) _ asks.ordered
    have begins := asks.extend works
    have among : [(source.serial, spelling)] ⊆ questionsTo (source :: rest) spelling :=
      List.cons_subset_cons _ (List.nil_subset _)
    rw [consult_on]
    rcases run : (perform checks getting (behaviour source.source spelling)).on
      { before with asked := before.asked.push (source, spelling) } with ⟨outcome, later⟩
    rw [run] at begins
    cases outcome with
    | error fault => exact begins.weaken among
    | ok answer =>
      cases answer with
      | some id => exact begins.weaken among
      | none =>
        have remain : ∀ other ∈ rest, other.serial < later.nextSerial ∧ other.serial ∉ later.serials := by
          intro other member
          obtain ⟨below, absent⟩ := off other (List.mem_cons_of_mem source member)
          refine ⟨Nat.lt_of_lt_of_le below begins.serial, fun chained => ?_⟩
          rcases begins.chain other.serial chained with old | newer
          · exact absent old
          · exact absurd below (Nat.not_lt.mpr newer)
        refine begins.trans (ih begins.ordered ascending remain) ?_
        intro entry member
        obtain ⟨other, listed, rfl⟩ := List.mem_map.mp member
        obtain ⟨below, absent⟩ := off other (List.mem_cons_of_mem source listed)
        refine ⟨fun same => ?_, absent, below⟩
        have serial : other.serial = source.serial := congrArg Prod.fst (List.mem_singleton.mp same)
        have greater := above other.serial (List.mem_map_of_mem listed)
        omega

theorem getBy_steady {consult : String → List (Attached S) → Work S σ (Option IdentifierId)} {spelling : String}
    (consults : ∀ (chain : List (Attached S)) (before : Session S σ), before.Ordered →
      (chain.map Attached.serial).Pairwise (· < ·) →
      (∀ source ∈ chain, source.serial < before.nextSerial ∧ source.serial ∉ before.serials) →
      Follows (questionsTo chain spelling) before ((consult spelling chain).on before).2) :
    (getBy consult spelling).Steady := by
  intro before ordered
  have interns := Table.Grows.intern before.table spelling
  have asks {result : Except Fault (Option IdentifierId)} {later : Session S σ}
      (consulted : (consult spelling before.chain).on
        { before with table := (before.table.intern spelling).2, chain := [] } = (result, later)) :
      Follows (questionsTo before.chain spelling)
        { before with table := (before.table.intern spelling).2, chain := [] } later := by
    have off : ∀ source ∈ before.chain, source.serial < before.nextSerial ∧ source.serial ∉ ([] : List Nat) :=
      fun source member => ⟨ordered.issued source.serial (List.mem_map_of_mem member), List.not_mem_nil⟩
    have follows := consults before.chain { before with table := (before.table.intern spelling).2, chain := [] }
      ⟨List.Pairwise.nil, fun _ none => by cases none⟩ ordered.ascending off
    rw [consulted] at follows
    exact follows
  have finds {table : Table} (grown : (before.table.intern spelling).2.Grows table)
      (bound : (table.bound? (before.table.intern spelling).1).isSome) : (table.find? spelling).isSome := by
    rw [Table.find?, grown.symbols spelling _ (before.table.symbol_intern spelling)]
    exact bound
  rcases outcome : (getBy consult spelling).on before with ⟨result, after⟩
  cases getBy_ending outcome with
  | known bound => exact .of_quiet ordered rfl rfl (List.Sublist.refl _) interns
  | alone unbound chain => exact .of_quiet ordered rfl rfl (List.Sublist.refl _) (interns.trans (.allocate _ _))
  | failed unbound consulted =>
    exact .of_detached interns (Table.find?_eq_none_of_intern unbound) (asks consulted)
  | @answered id later unbound consulted =>
    have binds := Table.Grows.bind later.table (before.table.intern spelling).1 id
    refine (asks consulted).reattach ordered interns (Table.find?_eq_none_of_intern unbound) binds ?_ rfl rfl rfl
    apply finds ((asks consulted).table.trans binds)
    rw [Table.bound?_bind, if_pos rfl]
    rfl
  | @kept id later unbound consulted bound =>
    refine (asks consulted).reattach ordered interns (Table.find?_eq_none_of_intern unbound) (.refl _) ?_ rfl rfl rfl
    exact finds (asks consulted).table (Option.isSome_of_mem bound)
  | @missed later unbound consulted still =>
    have allocates := Table.Grows.allocate later.table (before.table.intern spelling).1
    refine (asks consulted).reattach ordered interns (Table.find?_eq_none_of_intern unbound) allocates ?_ rfl rfl rfl
    apply finds ((asks consulted).table.trans allocates)
    rw [Table.Canonical.bound?_allocate, if_pos rfl]
    rfl

theorem get_steady (checks : Checks) (behaviour : S → String → Script S σ) (depth : Nat) (spelling : String) :
    (get checks behaviour depth spelling).Steady := by
  -- A source looks up at a smaller depth, and at depth zero no source can be asked.
  induction depth generalizing spelling with
  | zero =>
    refine getBy_steady fun chain before ordered _ _ => ?_
    exact (Follows.refl ordered).weaken (List.nil_subset _)
  | succ depth ih =>
    exact getBy_steady fun chain before ordered ascending off =>
      consult_follows checks ih behaviour spelling ordered ascending off

end Work
end Canon.Identifier
