import Canon.Proofs.Identifier.Protocol

/-!
What becomes of the chain while it is asked. It is off the session then, so whatever a source does to the chain it does
to what has been attached since; afterwards the chain comes back in front of that. So the sources that are attached
meanwhile follow the chain in order, and no source leaves it: to replace or empty the chain meanwhile is to replace or
empty what follows it.
-/
namespace Canon.Identifier
variable {S σ α β : Type}

inductive Change (S : Type) where
  | attach (source : Attached S)
  | replace (source : Attached S)
  | clear
  /-- A look-up, with what its sources do to the chain meanwhile. -/
  | lookUp (changes : List (Change S))

mutual

def Change.pushed : Change S → List (Attached S)
  | .attach source => [source]
  | .replace source => [source]
  | .clear => []
  | .lookUp changes => pushedBy changes

/-- The sources that are attached by changes, at any depth, in order. -/
def pushedBy : List (Change S) → List (Attached S)
  | [] => []
  | change :: rest => change.pushed ++ pushedBy rest

end

mutual

/-- The chain after a change. The changes of a look-up begin with an empty chain, which follows the chain later. -/
def Change.apply : Change S → List (Attached S) → List (Attached S)
  | .attach source, chain => chain ++ [source]
  | .replace source, _ => [source]
  | .clear, _ => []
  | .lookUp changes, chain => chain ++ rewire changes []

def rewire : List (Change S) → List (Attached S) → List (Attached S)
  | [], chain => chain
  | change :: rest, chain => rewire rest (change.apply chain)

end

mutual

def Change.Additive : Change S → Prop
  | .attach _ => True
  | .replace _ => False
  | .clear => False
  | .lookUp changes => AllAdditive changes

def AllAdditive : List (Change S) → Prop
  | [] => True
  | change :: rest => change.Additive ∧ AllAdditive rest

end

theorem pushedBy_append (early late : List (Change S)) :
    pushedBy (early ++ late) = pushedBy early ++ pushedBy late := by
  induction early with
  | nil => rfl
  | cons change rest ih =>
    show change.pushed ++ pushedBy (rest ++ late) = (change.pushed ++ pushedBy rest) ++ pushedBy late
    rw [ih, List.append_assoc]

theorem rewire_append (early late : List (Change S)) (chain : List (Attached S)) :
    rewire (early ++ late) chain = rewire late (rewire early chain) := by
  induction early generalizing chain with
  | nil => rfl
  | cons change rest ih => exact ih (change.apply chain)

theorem allAdditive_append {early late : List (Change S)} (one : AllAdditive early) (two : AllAdditive late) :
    AllAdditive (early ++ late) := by
  induction early with
  | nil => exact two
  | cons change rest ih => exact ⟨one.1, ih one.2⟩

mutual

theorem Change.apply_of_additive (change : Change S) (additive : change.Additive) (chain : List (Attached S)) :
    change.apply chain = chain ++ change.pushed := by
  cases change with
  | attach source => rfl
  | replace source => exact additive.elim
  | clear => exact additive.elim
  | lookUp changes =>
    show chain ++ rewire changes [] = chain ++ pushedBy changes
    rw [rewire_of_additive changes additive []]
    rfl

theorem rewire_of_additive (changes : List (Change S)) (additive : AllAdditive changes) (chain : List (Attached S)) :
    rewire changes chain = chain ++ pushedBy changes := by
  cases changes with
  | nil => exact (List.append_nil chain).symm
  | cons change rest =>
    show rewire rest (change.apply chain) = chain ++ (change.pushed ++ pushedBy rest)
    rw [rewire_of_additive rest additive.2, change.apply_of_additive additive.1, List.append_assoc]

end

/-! ### The changes of a run -/

def Work.following (work : Work S σ α) (rest : α → Session S σ → List β) (session : Session S σ) : List β :=
  match work.on session with
  | (.ok result, later) => rest result later
  | (.error _, _) => []

section
variable (checks : Checks) (behaviour : S → String → Script S σ) (getting : String → Work S σ IdentifierId)
  (within : String → Session S σ → List (Change S))

def keywordChanges : List ActiveKeyword → Session S σ → List (Change S)
  | [], _ => []
  | active :: rest, session => .lookUp (within active.spelling session) ::
      (Work.registerKeyword getting active).following (fun _ => keywordChanges rest) session

def Script.changes : Script S σ → Session S σ → List (Change S)
  | .answer _, _ => []
  | .fail _, _ => []
  | .observe next, session => (next session.table).changes session
  | .get spelling next, session => .lookUp (within spelling session) ::
      (getting spelling).following (fun id => (next id).changes) session
  | .create spelling next, session => (Work.create checks spelling).following (fun id => (next id).changes) session
  | .update id setter next, session => (Work.update checks id setter).following (fun _ => next.changes) session
  | .addKeywords dialect next, session => keywordChanges getting within dialect.keywords session ++
      (Work.registerKeywords getting dialect).following (fun _ => next.changes) session
  | .attach source next, session => .attach ⟨session.nextSerial, source⟩ ::
      (Work.attach source).following (fun _ => next.changes) session
  | .replace source next, session => .replace ⟨session.nextSerial, source⟩ ::
      (Work.replace source).following (fun _ => next.changes) session
  | .clear next, session => .clear :: Work.clear.following (fun _ => next.changes) session
  | .retrieve next, session => (next session.memory).changes session
  | .remember memory next, session => next.changes { session with memory }

def consultChanges (spelling : String) : List (Attached S) → Session S σ → List (Change S)
  | [], _ => []
  | source :: rest, session =>
    let begun : Session S σ := { session with asked := session.asked.push (source, spelling) }
    (behaviour source.source spelling).changes checks getting within begun ++
      (Work.perform checks getting (behaviour source.source spelling)).following
        (fun
          | some _ => fun _ => []
          | none => consultChanges spelling rest)
        begun

end

/-- What the sources do to the chain during a look-up. Nobody does anything if its spelling is bound. -/
def changesOf (checks : Checks) (behaviour : S → String → Script S σ) : Nat → String → Session S σ → List (Change S)
  | 0, _, _ => []
  | depth + 1, spelling, session =>
    match (session.table.intern spelling).2.find? spelling with
    | some _ => []
    | none => consultChanges checks behaviour (Work.get checks behaviour depth) (changesOf checks behaviour depth)
        spelling session.chain { session with table := (session.table.intern spelling).2, chain := [] }

/-- How changes lead from one session to another. Every source that is attached takes the next serial number. -/
structure Rewired (changes : List (Change S)) (before after : Session S σ) : Prop where
  chain : after.chain = rewire changes before.chain
  serials : (pushedBy changes).map Attached.serial = List.range' before.nextSerial (pushedBy changes).length
  issued : after.nextSerial = before.nextSerial + (pushedBy changes).length

namespace Rewired
variable {changes early late : List (Change S)} {before middle later after : Session S σ}

theorem of_quiet (chain : after.chain = before.chain) (serial : after.nextSerial = before.nextSerial) :
    Rewired [] before after where
  chain := chain
  serials := rfl
  issued := serial

theorem trans (first : Rewired early before middle) (second : Rewired late middle after) :
    Rewired (early ++ late) before after where
  chain := by rw [rewire_append, ← first.chain, second.chain]
  serials := by
    rw [pushedBy_append, List.map_append, first.serials, second.serials, first.issued, List.length_append,
      List.range'_append_1]
  issued := by rw [second.issued, first.issued, pushedBy_append, List.length_append, Nat.add_assoc]

theorem attach (before : Session S σ) (source : S) : Rewired [.attach ⟨before.nextSerial, source⟩] before { before with
    chain := before.chain ++ [⟨before.nextSerial, source⟩], nextSerial := before.nextSerial + 1 } where
  chain := rfl
  serials := rfl
  issued := rfl

theorem replace (before : Session S σ) (source : S) : Rewired [.replace ⟨before.nextSerial, source⟩] before
    { before with chain := [⟨before.nextSerial, source⟩], nextSerial := before.nextSerial + 1 } where
  chain := rfl
  serials := rfl
  issued := rfl

theorem clear (before : Session S σ) : Rewired [.clear] before { before with chain := [] } where
  chain := rfl
  serials := rfl
  issued := rfl

theorem idle (chain : after.chain = before.chain) (serial : after.nextSerial = before.nextSerial) :
    Rewired [.lookUp []] before after where
  chain := by
    rw [chain]
    exact (List.append_nil _).symm
  serials := rfl
  issued := serial

theorem lookUp {table : Table} (rewired : Rewired changes { before with table, chain := [] } later)
    (chain : after.chain = before.chain ++ later.chain) (serial : after.nextSerial = later.nextSerial) :
    Rewired [.lookUp changes] before after := by
  have pushed : pushedBy [.lookUp changes] = pushedBy changes := List.append_nil _
  refine ⟨?_, ?_, ?_⟩
  · rw [chain, rewired.chain]
    rfl
  · rw [pushed]
    exact rewired.serials
  · rw [pushed, serial]
    exact rewired.issued

end Rewired

def Work.Makes (work : Work S σ α) (changes : Session S σ → List (Change S)) : Prop :=
  ∀ before result after, work.on before = (.ok result, after) → Rewired (changes before) before after

namespace Work
variable {checks : Checks} {behaviour : S → String → Script S σ} {getting : String → Work S σ IdentifierId}
  {within : String → Session S σ → List (Change S)}

theorem Makes.bind {first : Work S σ α} {rest : α → Work S σ β} {early : Session S σ → List (Change S)}
    {late : α → Session S σ → List (Change S)} (begins : first.Makes early)
    (continues : ∀ result, (rest result).Makes (late result)) :
    (first >>= rest).Makes fun session => early session ++ first.following late session := by
  intro before result after outcome
  obtain ⟨middle, later, run, outcome⟩ := bind_eq_ok outcome
  have follows : first.following late before = late middle later := by
    unfold following
    rw [run]
  show Rewired (early before ++ first.following late before) before after
  rw [follows]
  exact (begins before middle later run).trans (continues middle later result after outcome)

theorem Makes.pure (result : α) : (Pure.pure result : Work S σ α).Makes fun _ => [] := by
  intro before value after outcome
  cases outcome
  exact .of_quiet rfl rfl

theorem Makes.look (view : Table → α) : (look view : Work S σ α).Makes fun _ => [] := by
  intro before result after outcome
  cases outcome
  exact .of_quiet rfl rfl

theorem Makes.onTable (change : Table → α × Table) : (onTable change : Work S σ α).Makes fun _ => [] := by
  intro before result after outcome
  cases outcome
  exact .of_quiet rfl rfl

theorem Makes.attach (source : S) :
    (attach source : Work S σ Unit).Makes fun session => [.attach ⟨session.nextSerial, source⟩] := by
  intro before result after outcome
  cases outcome
  exact .attach before source

theorem Makes.replace (source : S) :
    (replace source : Work S σ Unit).Makes fun session => [.replace ⟨session.nextSerial, source⟩] := by
  intro before result after outcome
  cases outcome
  exact .replace before source

theorem Makes.clear : (clear : Work S σ Unit).Makes fun _ => [.clear] := by
  intro before result after outcome
  cases outcome
  exact .clear before

theorem Makes.create (spelling : String) : (create checks spelling : Work S σ IdentifierId).Makes fun _ => [] := by
  intro before result after outcome
  rw [create_on] at outcome
  obtain ⟨-, rfl⟩ := Prod.mk.inj outcome
  exact .of_quiet rfl rfl

theorem Makes.update (id : IdentifierId) (setter : Setter) :
    (update checks id setter : Work S σ Unit).Makes fun _ => [] := by
  intro before result after outcome
  obtain ⟨record, changed, -, -, rfl⟩ := update_applies outcome
  exact .of_quiet rfl rfl

theorem Makes.registerKeyword
    (makes : ∀ spelling, (getting spelling).Makes fun session => [.lookUp (within spelling session)])
    (active : ActiveKeyword) :
    (registerKeyword getting active).Makes fun session => [.lookUp (within active.spelling session)] := by
  intro before result after outcome
  obtain ⟨id, middle, got, change, -, rfl⟩ := registerKeyword_eq_ok outcome
  have rewired := makes active.spelling before id middle got
  exact ⟨rewired.chain, rewired.serials, rewired.issued⟩

theorem Makes.registerKeywords
    (makes : ∀ spelling, (getting spelling).Makes fun session => [.lookUp (within spelling session)])
    (dialect : Dialect) :
    (registerKeywords getting dialect).Makes (keywordChanges getting within dialect.keywords) := by
  unfold Work.registerKeywords
  induction dialect.keywords with
  | nil => exact .pure ()
  | cons active rest ih => exact (Makes.registerKeyword makes active).bind fun _ => ih

theorem Makes.perform (makes : ∀ spelling, (getting spelling).Makes fun session => [.lookUp (within spelling session)])
    (script : Script S σ) : (perform checks getting script).Makes (script.changes checks getting within) := by
  induction script with
  | answer id => exact .pure id
  | fail fault =>
    intro before result after outcome
    cases outcome
  | observe next ih =>
    intro before result after outcome
    exact ih before.table before result after outcome
  | get spelling next ih => exact (makes spelling).bind ih
  | create spelling next ih => exact (Makes.create spelling).bind ih
  | update id setter next ih => exact (Makes.update id setter).bind fun _ => ih
  | addKeywords dialect next ih => exact (Makes.registerKeywords makes dialect).bind fun _ => ih
  | attach source next ih => exact (Makes.attach source).bind fun _ => ih
  | replace source next ih => exact (Makes.replace source).bind fun _ => ih
  | clear next ih => exact Makes.clear.bind fun _ => ih
  | retrieve next ih =>
    intro before result after outcome
    exact ih before.memory before result after outcome
  | remember memory next ih =>
    intro before result after outcome
    have rewired := ih { before with memory } result after outcome
    exact ⟨rewired.chain, rewired.serials, rewired.issued⟩

theorem Makes.consult (makes : ∀ spelling, (getting spelling).Makes fun session => [.lookUp (within spelling session)])
    (spelling : String) (chain : List (Attached S)) : (consult checks behaviour getting spelling chain).Makes
      (consultChanges checks behaviour getting within spelling chain) := by
  induction chain with
  | nil => exact .pure none
  | cons source rest ih =>
    intro before result after outcome
    have performs : (Work.perform checks getting (behaviour source.source spelling)).Makes
        ((behaviour source.source spelling).changes checks getting within) := .perform makes _
    have continues (answer : Option IdentifierId) :
        Work.Makes (match answer with
          | some id => Pure.pure (some id)
          | none => Work.consult checks behaviour getting spelling rest)
        (match answer with
          | some _ => fun _ => []
          | none => consultChanges checks behaviour getting within spelling rest) := by
      cases answer with
      | some id => exact .pure (some id)
      | none => exact ih
    have rewired := performs.bind continues { before with asked := before.asked.push (source, spelling) } result after outcome
    exact ⟨rewired.chain, rewired.serials, rewired.issued⟩

theorem Makes.get_zero (spelling : String) :
    (get checks behaviour 0 spelling).Makes fun _ => [.lookUp []] := by
  intro before id after outcome
  cases getBy_ending outcome with
  | known bound => exact .idle rfl rfl
  | alone unbound chain => exact .idle rfl rfl
  | answered unbound consulted => cases consulted
  | kept unbound consulted => cases consulted
  | missed unbound consulted => cases consulted

theorem Makes.get_succ {depth : Nat} (makes : ∀ spelling, (get checks behaviour depth spelling).Makes
      fun session => [.lookUp (changesOf checks behaviour depth spelling session)]) (spelling : String) :
    (get checks behaviour (depth + 1) spelling).Makes
      fun session => [.lookUp (changesOf checks behaviour (depth + 1) spelling session)] := by
  intro before id after outcome
  have finds := before.table.find?_intern_self spelling
  have consults {later : Session S σ} {answer : Option IdentifierId}
      (consulted : (Work.consult checks behaviour (get checks behaviour depth) spelling before.chain).on
        { before with table := (before.table.intern spelling).2, chain := [] } = (.ok answer, later)) :=
    Makes.consult makes spelling before.chain _ answer later consulted
  show Rewired [.lookUp (match (before.table.intern spelling).2.find? spelling with | some _ => [] | none => _)] _ _
  cases getBy_ending outcome with
  | known bound =>
    rw [finds, bound]
    exact .idle rfl rfl
  | alone unbound chain =>
    have nobody : before.chain = [] := chain
    rw [finds, unbound, nobody]
    exact .idle nobody.symm rfl
  | answered unbound consulted =>
    rw [finds, unbound]
    exact (consults consulted).lookUp rfl rfl
  | kept unbound consulted bound =>
    rw [finds, unbound]
    exact (consults consulted).lookUp rfl rfl
  | missed unbound consulted still =>
    rw [finds, unbound]
    exact (consults consulted).lookUp rfl rfl

theorem Makes.get (checks : Checks) (behaviour : S → String → Script S σ) (depth : Nat) (spelling : String) :
    (get checks behaviour depth spelling).Makes
      fun session => [.lookUp (changesOf checks behaviour depth spelling session)] := by
  induction depth generalizing spelling with
  | zero => exact .get_zero spelling
  | succ depth ih => exact .get_succ ih spelling

end Work

/-! ### Sources that take nobody off the chain -/

/-- Whether a script takes no source off the chain, whatever it is told. -/
def Script.Additive : Script S σ → Prop
  | .answer _ => True
  | .fail _ => True
  | .observe next => ∀ table, (next table).Additive
  | .get _ next => ∀ id, (next id).Additive
  | .create _ next => ∀ id, (next id).Additive
  | .update _ _ next => next.Additive
  | .addKeywords _ next => next.Additive
  | .attach _ next => next.Additive
  | .replace _ _ => False
  | .clear _ => False
  | .retrieve next => ∀ memory, (next memory).Additive
  | .remember _ next => next.Additive

theorem allAdditive_following (work : Work S σ α) {rest : α → Session S σ → List (Change S)}
    (additive : ∀ result later, AllAdditive (rest result later)) (session : Session S σ) :
    AllAdditive (work.following rest session) := by
  unfold Work.following
  split
  · exact additive _ _
  · trivial

section
variable {checks : Checks} {behaviour : S → String → Script S σ} {getting : String → Work S σ IdentifierId}
  {within : String → Session S σ → List (Change S)}

theorem keywordChanges_additive (inner : ∀ spelling session, AllAdditive (within spelling session))
    (keywords : List ActiveKeyword) (session : Session S σ) :
    AllAdditive (keywordChanges getting within keywords session) := by
  induction keywords generalizing session with
  | nil => trivial
  | cons active rest ih => exact ⟨inner active.spelling session, allAdditive_following _ (fun _ => ih) session⟩

theorem Script.changes_additive (inner : ∀ spelling session, AllAdditive (within spelling session))
    (script : Script S σ) (additive : script.Additive) (session : Session S σ) :
    AllAdditive (script.changes checks getting within session) := by
  induction script generalizing session with
  | answer id => trivial
  | fail fault => trivial
  | observe next ih => exact ih session.table (additive session.table) session
  | get spelling next ih =>
    exact ⟨inner spelling session, allAdditive_following _ (fun id => ih id (additive id)) session⟩
  | create spelling next ih => exact allAdditive_following _ (fun id => ih id (additive id)) session
  | update id setter next ih => exact allAdditive_following _ (fun _ => ih additive) session
  | addKeywords dialect next ih =>
    exact allAdditive_append (keywordChanges_additive inner dialect.keywords session)
      (allAdditive_following _ (fun _ => ih additive) session)
  | attach source next ih => exact ⟨trivial, allAdditive_following _ (fun _ => ih additive) session⟩
  | replace source next ih => exact additive.elim
  | clear next ih => exact additive.elim
  | retrieve next ih => exact ih session.memory (additive session.memory) session
  | remember memory next ih => exact ih additive { session with memory }

theorem consultChanges_additive (inner : ∀ spelling session, AllAdditive (within spelling session))
    (additive : ∀ source spelling, (behaviour source spelling).Additive) (spelling : String)
    (chain : List (Attached S)) (session : Session S σ) :
    AllAdditive (consultChanges checks behaviour getting within spelling chain session) := by
  induction chain generalizing session with
  | nil => trivial
  | cons source rest ih =>
    refine allAdditive_append ((behaviour source.source spelling).changes_additive inner (additive _ _) _) ?_
    refine allAdditive_following _ (fun answer => ?_) _
    cases answer with
    | some id => exact fun _ => trivial
    | none => exact ih

end

theorem changesOf_additive (checks : Checks) {behaviour : S → String → Script S σ}
    (additive : ∀ source spelling, (behaviour source spelling).Additive) (depth : Nat) (spelling : String)
    (session : Session S σ) : AllAdditive (changesOf checks behaviour depth spelling session) := by
  induction depth generalizing spelling session with
  | zero => trivial
  | succ depth ih =>
    unfold changesOf
    split
    · trivial
    · exact consultChanges_additive ih additive spelling session.chain _

theorem changesOf_bound (checks : Checks) (behaviour : S → String → Script S σ) (depth : Nat) {spelling : String}
    {session : Session S σ} (bound : (session.table.find? spelling).isSome) :
    changesOf checks behaviour depth spelling session = [] := by
  have still := (Table.Grows.intern session.table spelling).isSome_find? bound
  cases depth with
  | zero => rfl
  | succ depth =>
    unfold changesOf
    split
    · rfl
    · next unbound =>
      rw [unbound] at still
      cases still

namespace Work
variable {checks : Checks} {behaviour : S → String → Script S σ} {depth : Nat} {spelling : String}
  {before after : Session S σ} {id : IdentifierId}

theorem get_chain (outcome : (get checks behaviour depth spelling).on before = (.ok id, after)) :
    after.chain = before.chain ++ rewire (changesOf checks behaviour depth spelling before) [] :=
  (Makes.get checks behaviour depth spelling before id after outcome).chain

end Work

/-- From every session whose chain is in order, with sources that look up and attach others as they like and take
nobody off the chain: after a look-up the chain is what it was, followed by the sources that were attached meanwhile,
each of them once and in the order of their serial numbers. If the spelling is bound the chain stays as it is. The
look-up itself asks nobody who was attached meanwhile. -/
theorem attached_sources_follow_the_chain (checks : Checks) (behaviour : S → String → Script S σ)
    (additive : ∀ source spelling, (behaviour source spelling).Additive) (depth : Nat) (spelling : String)
    (before : Session S σ) (ordered : before.Ordered) {id : IdentifierId} {after : Session S σ}
    (outcome : (Work.get checks behaviour depth spelling).on before = (.ok id, after)) :
    let attached := pushedBy (changesOf checks behaviour depth spelling before)
    after.chain = before.chain ++ attached ∧
    attached.map Attached.serial = List.range' before.nextSerial (after.nextSerial - before.nextSerial) ∧
    after.Ordered ∧
    ((before.table.find? spelling).isSome → after.chain = before.chain ∧ attached = []) ∧
    (questionsOf checks behaviour depth spelling before).map Question.source <+: before.chain ∧
    ∀ question ∈ questionsOf checks behaviour depth spelling before, question.source ∉ attached := by
  intro attached
  have rewired := Work.Makes.get checks behaviour depth spelling before id after outcome
  have pushed : pushedBy [.lookUp (changesOf checks behaviour depth spelling before)] = attached := List.append_nil _
  have serials := rewired.serials
  have issued := rewired.issued
  rw [pushed] at serials issued
  have chain : after.chain = before.chain ++ attached := by
    rw [Work.get_chain outcome, rewire_of_additive _ (changesOf_additive checks additive depth spelling before)]
    rfl
  have follows := Work.get_steady checks behaviour depth spelling before ordered
  rw [outcome] at follows
  have asks := (Work.get_protocol checks behaviour depth spelling ordered).order
  refine ⟨chain, ?_, follows.ordered, fun bound => ?_, asks, fun question asked new => ?_⟩
  · rw [issued, Nat.add_sub_cancel_left]
    exact serials
  · have none : attached = [] := congrArg pushedBy (changesOf_bound checks behaviour depth bound)
    rw [chain, none]
    exact ⟨List.append_nil _, rfl⟩
  · have old := ordered.issued _ (List.mem_map_of_mem (asks.subset (List.mem_map_of_mem asked)))
    have numbered : question.source.serial ∈ attached.map Attached.serial := List.mem_map_of_mem new
    rw [serials, List.mem_range'_1] at numbered
    exact Nat.not_lt.mpr numbered.1 old

/-- Sources that attach others and look up in between. -/
def recruiting : Nat → String → Script Nat Unit
  | 0, _ => .attach 1 (.get "b" fun _ => .attach 2 (.answer none))
  | 1, _ => .attach 3 (.get "c" fun _ => .answer none)
  | _, _ => .answer none

def withRecruiter : Session Nat Unit := ⟨.empty, [⟨0, 0⟩, ⟨1, 4⟩], (), 2, #[]⟩

/-- The source that is attached first attaches one itself before the second one is attached. -/
theorem recruits_stand_in_the_order_of_their_arrival :
    ((Work.get .enabled recruiting 3 "a").on withRecruiter).2.chain = withRecruiter.chain ++ [⟨2, 1⟩, ⟨3, 3⟩, ⟨4, 2⟩] ∧
    ∀ question ∈ questionsOf .enabled recruiting 3 "a" withRecruiter,
      question.source ∉ ([⟨2, 1⟩, ⟨3, 3⟩, ⟨4, 2⟩] : List (Attached Nat)) := by
  have additive : ∀ source spelling, (recruiting source spelling).Additive := by
    intro source spelling
    match source with
    | 0 => exact fun _ => trivial
    | 1 => exact fun _ => trivial
    | _ + 2 => trivial
  have ordered : withRecruiter.Ordered := ⟨by decide, by decide⟩
  have found : ((Work.get .enabled recruiting 3 "a").on withRecruiter).1 = .ok ⟨2⟩ := by cbv
  have attached : pushedBy (changesOf .enabled recruiting 3 "a" withRecruiter) = [⟨2, 1⟩, ⟨3, 3⟩, ⟨4, 2⟩] := by cbv
  obtain ⟨chain, -, -, -, -, apart⟩ := attached_sources_follow_the_chain .enabled recruiting additive 3 "a"
    withRecruiter ordered (Prod.ext found rfl)
  rw [attached] at chain apart
  exact ⟨chain, apart⟩

/-- Whatever the sources do: a look-up spares the chain it asks, and what they do to the chain meanwhile befalls only
what follows it. A source that makes another one the whole chain makes it the first one behind the chain, and a source
that empties the chain leaves behind it what is attached later. The same change between two look-ups befalls the whole
chain. -/
theorem changes_amid_a_look_up_spare_the_chain (checks : Checks) (behaviour : S → String → Script S σ) (depth : Nat)
    (before : Session S σ) :
    (∀ spelling id after, (Work.get checks behaviour depth spelling).on before = (.ok id, after) →
      after.chain = before.chain ++ rewire (changesOf checks behaviour depth spelling before) [] ∧
      (∀ early source late, changesOf checks behaviour depth spelling before = early ++ .replace source :: late →
        AllAdditive late → after.chain = before.chain ++ source :: pushedBy late) ∧
      ∀ early late, changesOf checks behaviour depth spelling before = early ++ .clear :: late →
        AllAdditive late → after.chain = before.chain ++ pushedBy late) ∧
    ∀ program answer after,
      (Work.perform checks (Work.get checks behaviour depth) program).on before = (.ok answer, after) →
      after.chain = rewire (program.changes checks (Work.get checks behaviour depth)
        (changesOf checks behaviour depth) before) before.chain := by
  constructor
  · intro spelling id after outcome
    have chain := Work.get_chain outcome
    refine ⟨chain, fun early source late changes additive => ?_, fun early late changes additive => ?_⟩
    · rw [chain, changes, rewire_append]
      show before.chain ++ rewire late [source] = _
      rw [rewire_of_additive late additive]
      rfl
    · rw [chain, changes, rewire_append]
      show before.chain ++ rewire late [] = _
      rw [rewire_of_additive late additive]
      rfl
  · intro program answer after outcome
    exact (Work.Makes.perform (Work.Makes.get checks behaviour depth) program before answer after outcome).chain

/-- A source that empties the chain, one that makes another the whole chain, and ones that know nothing. -/
def resetting : Nat → String → Script Nat Unit
  | 0, _ => .clear (.answer none)
  | 1, _ => .replace 2 (.answer none)
  | _, _ => .answer none

def withOne (source : Nat) : Session Nat Unit := ⟨.empty, [⟨0, source⟩], (), 1, #[]⟩

theorem replacement_stands_behind_the_chain :
    ((Work.get .enabled resetting 1 "x").on (withOne 1)).2.chain = [⟨0, 1⟩, ⟨1, 2⟩] ∧
    ((Work.get .enabled resetting 1 "x").on (withOne 0)).2.chain = [⟨0, 0⟩] := by
  have replaces : changesOf .enabled resetting 1 "x" (withOne 1) = [.replace ⟨1, 2⟩] := by cbv
  have clears : changesOf .enabled resetting 1 "x" (withOne 0) = [.clear] := by cbv
  have one : ((Work.get .enabled resetting 1 "x").on (withOne 1)).1 = .ok ⟨0⟩ := by cbv
  have two : ((Work.get .enabled resetting 1 "x").on (withOne 0)).1 = .ok ⟨0⟩ := by cbv
  obtain ⟨-, replaced, -⟩ :=
    (changes_amid_a_look_up_spare_the_chain .enabled resetting 1 (withOne 1)).1 "x" ⟨0⟩ _ (Prod.ext one rfl)
  obtain ⟨-, -, cleared⟩ :=
    (changes_amid_a_look_up_spare_the_chain .enabled resetting 1 (withOne 0)).1 "x" ⟨0⟩ _ (Prod.ext two rfl)
  exact ⟨replaced [] ⟨1, 2⟩ [] replaces trivial, cleared [] [] clears trivial⟩

/-- A source that empties the chain while it is asked is still in it afterwards, and is asked about the next spelling.
If it empties the chain between two look-ups, nobody is asked any more. -/
theorem cleared_chain_comes_back :
    ((Work.get .enabled resetting 1 "x").on (withOne 0)).2.chain = (withOne 0).chain ∧
    ((Work.perform .enabled (Work.get .enabled resetting 1) (.get "x" fun _ => .get "y" fun id => .answer (some id))).on
      (withOne 0)).2.log = [(0, "x"), (0, "y")] ∧
    ((Work.perform .enabled (Work.get .enabled resetting 1)
      (.get "x" fun _ => .clear (.get "y" fun id => .answer (some id)))).on (withOne 0)).2.log = [(0, "x")] := by
  refine ⟨?_, ?_, ?_⟩
  · cbv
  · cbv
  · cbv

end Canon.Identifier
