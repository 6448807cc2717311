import Canon.Identifier.Session

/-!
Runs that are written down. A recorded script notes after each of its steps what was done and how the table looked
then; it uses nothing but the steps that every script has. Forgetting the notes gives the run of the plain script.
-/
namespace Canon.Identifier
variable {S σ τ α β : Type}

inductive Deed where
  | answered (id : Option IdentifierId)
  | looked
  | got (spelling : String) (id : IdentifierId)
  | created (spelling : String) (id : IdentifierId)
  | updated (id : IdentifierId) (setter : Setter)
  | registered (dialect : Dialect)
  | rewired

structure Moment where
  /-- What a source is being asked about, if the step is one of a source. -/
  asked : Option String
  deed : Deed
  table : Table

namespace Script

def noting (asked : Option String) (deed : Deed) (next : Script S (σ × List Moment)) : Script S (σ × List Moment) :=
  .observe fun table => .retrieve fun (memory, history) => .remember (memory, history ++ [⟨asked, deed, table⟩]) next

def recorded (asked : Option String) : Script S σ → Script S (σ × List Moment)
  | .answer id => noting asked (.answered id) (.answer id)
  | .fail fault => .fail fault
  | .observe next => .observe fun table => noting asked .looked ((next table).recorded asked)
  | .get spelling next => .get spelling fun id => noting asked (.got spelling id) ((next id).recorded asked)
  | .create spelling next => .create spelling fun id => noting asked (.created spelling id) ((next id).recorded asked)
  | .update id setter next => .update id setter (noting asked (.updated id setter) (next.recorded asked))
  | .addKeywords dialect next => .addKeywords dialect (noting asked (.registered dialect) (next.recorded asked))
  | .attach source next => .attach source (noting asked .rewired (next.recorded asked))
  | .replace source next => .replace source (noting asked .rewired (next.recorded asked))
  | .clear next => .clear (noting asked .rewired (next.recorded asked))
  | .retrieve next => .retrieve fun (memory, _) => (next memory).recorded asked
  | .remember memory next => .retrieve fun (_, history) => .remember (memory, history) (next.recorded asked)

end Script

def recordedSources (behaviour : S → String → Script S σ) (source : S) (spelling : String) :
    Script S (σ × List Moment) :=
  (behaviour source spelling).recorded (some spelling)

namespace Session

def history (session : Session S (σ × List Moment)) : List Moment := session.memory.2

def forget (session : Session S (σ × List Moment)) : Session S σ :=
  ⟨session.table, session.chain, session.memory.1, session.nextSerial, session.asked⟩

def noted (asked : Option String) (deed : Deed) (session : Session S (σ × List Moment)) :
    Session S (σ × List Moment) :=
  { session with memory := (session.memory.1, session.memory.2 ++ [⟨asked, deed, session.table⟩]) }

end Session

namespace Work

theorem on_bind (first : Work S σ α) (rest : α → Work S σ β) (session : Session S σ) :
    (first >>= rest).on session = match first.on session with
      | (.ok result, later) => (rest result).on later
      | (.error fault, later) => (.error fault, later) := by
  change (ExceptT.run (first >>= rest)).run session = _
  rw [ExceptT.run_bind, StateT.run_bind]
  rcases run : first.on session with ⟨outcome, later⟩
  have same : (ExceptT.run first).run session = pure (outcome, later) := run
  rw [same, pure_bind]
  cases outcome with
  | ok result => rfl
  | error fault => rfl

theorem pure_on (result : α) (session : Session S σ) :
    (pure result : Work S σ α).on session = (.ok result, session) := rfl

theorem onTable_on (change : Table → α × Table) (session : Session S σ) : (onTable change).on session =
    (.ok (change session.table).1, { session with table := (change session.table).2 }) := rfl

theorem look_on (view : Table → α) (session : Session S σ) :
    (look view).on session = (.ok (view session.table), session) := rfl

theorem attach_on (source : S) (session : Session S σ) : (attach source).on session =
    (.ok (), { session with
      chain := session.chain ++ [⟨session.nextSerial, source⟩], nextSerial := session.nextSerial + 1 }) := rfl

theorem note_on (source : Attached S) (spelling : String) (session : Session S σ) : (note source spelling).on session =
    (.ok (), { session with asked := session.asked.push (source, spelling) }) := rfl

theorem detachChain_on (session : Session S σ) :
    detachChain.on session = (.ok session.chain, { session with chain := [] }) := rfl

theorem reattachChain_on (chain : List (Attached S)) (session : Session S σ) :
    (reattachChain chain).on session = (.ok (), { session with chain := chain ++ session.chain }) := rfl

theorem bind_eq_ok {first : Work S σ α} {rest : α → Work S σ β} {session after : Session S σ} {result : β}
    (outcome : (first >>= rest).on session = (.ok result, after)) :
    ∃ middle later, first.on session = (.ok middle, later) ∧ (rest middle).on later = (.ok result, after) := by
  rw [on_bind] at outcome
  rcases run : first.on session with ⟨value, later⟩
  rw [run] at outcome
  cases value with
  | ok middle => exact ⟨middle, later, rfl, outcome⟩
  | error fault => cases outcome

theorem resolve_on (consult : List (Attached S) → Work S σ (Option IdentifierId)) (symbol : Symbol)
    (session : Session S σ) : (resolve consult symbol).on session =
      if session.chain.isEmpty = true then (onTable (·.allocate symbol)).on session
      else (resolveByChain consult symbol).on session := by
  unfold resolve
  rw [on_bind]
  change Work.on (if session.chain.isEmpty = true then _ else _) session = _
  split <;> rfl

def Forgets (noted : Work S (σ × List Moment) α) (plain : Work S σ α) : Prop :=
  ∀ session, plain.on session.forget = ((noted.on session).1, (noted.on session).2.forget)

theorem Forgets.bind {noted : Work S (σ × List Moment) α} {plain : Work S σ α} (first : Forgets noted plain)
    {notedRest : α → Work S (σ × List Moment) β} {plainRest : α → Work S σ β}
    (rest : ∀ result, Forgets (notedRest result) (plainRest result)) :
    Forgets (noted >>= notedRest) (plain >>= plainRest) := by
  intro session
  rw [on_bind, on_bind, first session]
  rcases noted.on session with ⟨outcome, later⟩
  cases outcome with
  | ok result => exact rest result later
  | error fault => rfl

theorem Forgets.pure (result : α) : Forgets (Pure.pure result : Work S (σ × List Moment) α) (Pure.pure result) :=
  fun _ => rfl

theorem perform_noting (checks : Checks) (get : String → Work S (σ × List Moment) IdentifierId) (asked : Option String)
    (deed : Deed) (next : Script S (σ × List Moment)) (session : Session S (σ × List Moment)) :
    (perform checks get (.noting asked deed next)).on session =
      (perform checks get next).on (session.noted asked deed) := rfl

section
variable {checks : Checks} {getting : String → Work S (σ × List Moment) IdentifierId}
  {plain : String → Work S σ IdentifierId}

theorem Forgets.noting {asked : Option String} {deed : Deed} {next : Script S (σ × List Moment)}
    {work : Work S σ (Option IdentifierId)} (forgets : Forgets (perform checks getting next) work) :
    Forgets (perform checks getting (.noting asked deed next)) work := by
  intro session
  rw [perform_noting, ← forgets (session.noted asked deed)]
  rfl

theorem Forgets.attach (source : S) : Forgets (S := S) (attach source) (attach source : Work S σ Unit) := fun _ => rfl

theorem Forgets.clear : Forgets (S := S) clear (clear : Work S σ Unit) := fun _ => rfl

theorem Forgets.replace (source : S) : Forgets (S := S) (replace source) (replace source : Work S σ Unit) := fun _ => rfl

theorem Forgets.onTable (change : Table → α × Table) :
    Forgets (S := S) (onTable change) (onTable change : Work S σ α) := fun _ => rfl

theorem Forgets.look (view : Table → α) : Forgets (S := S) (look view) (look view : Work S σ α) := fun _ => rfl

theorem Forgets.throw (fault : Fault) : Forgets (S := S) (throw fault) (throw fault : Work S σ α) := fun _ => rfl

theorem Forgets.create (spelling : String) :
    Forgets (S := S) (create checks spelling) (create checks spelling : Work S σ IdentifierId) := by
  refine (Forgets.onTable _).bind fun result => ?_
  cases result with
  | ok id => exact .pure id
  | error fault => exact .throw fault

theorem Forgets.update (id : IdentifierId) (setter : Setter) :
    Forgets (S := S) (update checks id setter) (update checks id setter : Work S σ Unit) := by
  refine (Forgets.look _).bind fun result => ?_
  cases result with
  | error fault => exact .throw fault
  | ok record =>
    dsimp only
    cases setter.apply checks record with
    | error fault => exact .throw fault
    | ok changed => exact .onTable _

theorem Forgets.registerKeyword (forgets : ∀ spelling, Forgets (getting spelling) (plain spelling))
    (active : ActiveKeyword) : Forgets (registerKeyword getting active) (registerKeyword plain active) := by
  refine (forgets active.spelling).bind fun id => (Forgets.look _).bind fun result => ?_
  cases result with
  | error fault => exact .throw fault
  | ok _ => exact .onTable _

theorem Forgets.registerKeywords (forgets : ∀ spelling, Forgets (getting spelling) (plain spelling))
    (dialect : Dialect) :
    Forgets (registerKeywords getting dialect) (registerKeywords plain dialect) := by
  unfold Work.registerKeywords
  induction dialect.keywords with
  | nil => exact .pure ()
  | cons active rest ih => exact (Forgets.registerKeyword forgets active).bind fun _ => ih

theorem Forgets.perform (forgets : ∀ spelling, Forgets (getting spelling) (plain spelling)) (asked : Option String)
    (script : Script S σ) : Forgets (perform checks getting (script.recorded asked)) (perform checks plain script) := by
  induction script with
  | answer id =>
    have same : Forgets (Work.perform checks getting (.answer id)) (Work.perform checks plain (.answer id)) := .pure id
    exact same.noting
  | fail fault => exact .throw fault
  | observe next ih => exact (Forgets.look id).bind fun table => (ih table).noting
  | get spelling next ih => exact (forgets spelling).bind fun id => (ih id).noting
  | create spelling next ih => exact (Forgets.create spelling).bind fun id => (ih id).noting
  | update id setter next ih => exact (Forgets.update id setter).bind fun _ => ih.noting
  | addKeywords dialect next ih => exact (Forgets.registerKeywords forgets dialect).bind fun _ => ih.noting
  | attach source next ih => exact (Forgets.attach source).bind fun _ => ih.noting
  | replace source next ih => exact (Forgets.replace source).bind fun _ => ih.noting
  | clear next ih => exact Forgets.clear.bind fun _ => ih.noting
  | retrieve next ih => exact fun session => ih session.memory.1 session
  | remember memory next ih => exact fun session => ih { session with memory := (memory, session.memory.2) }

theorem Forgets.consult {behaviour : S → String → Script S σ}
    (forgets : ∀ spelling, Forgets (getting spelling) (plain spelling)) (spelling : String) (chain : List (Attached S)) :
    Forgets (consult checks (recordedSources behaviour) getting spelling chain)
      (consult checks behaviour plain spelling chain) := by
  induction chain with
  | nil => exact .pure none
  | cons source rest ih =>
    refine Forgets.bind (fun _ => rfl) fun _ => (Forgets.perform forgets (some spelling) _).bind fun answer => ?_
    cases answer with
    | some id => exact .pure (some id)
    | none => exact ih

theorem Forgets.resolveByChain {recorded : List (Attached S) → Work S (σ × List Moment) (Option IdentifierId)}
    {unrecorded : List (Attached S) → Work S σ (Option IdentifierId)}
    (forgets : ∀ chain, Forgets (recorded chain) (unrecorded chain)) (symbol : Symbol) :
    Forgets (resolveByChain recorded symbol) (resolveByChain unrecorded symbol) := by
  have detached : Forgets (S := S) detachChain (detachChain : Work S σ (List (Attached S))) := fun _ => rfl
  refine detached.bind fun chain => (forgets chain).bind fun found => Forgets.bind (fun _ => rfl) fun _ => ?_
  cases found with
  | some id => exact (Forgets.onTable _).bind fun _ => .pure id
  | none =>
    refine (Forgets.look _).bind fun bound => ?_
    cases bound with
    | some id => exact .pure id
    | none => exact .onTable _

theorem Forgets.resolve {recorded : List (Attached S) → Work S (σ × List Moment) (Option IdentifierId)}
    {unrecorded : List (Attached S) → Work S σ (Option IdentifierId)}
    (forgets : ∀ chain, Forgets (recorded chain) (unrecorded chain)) (symbol : Symbol) :
    Forgets (resolve recorded symbol) (resolve unrecorded symbol) := by
  intro session
  rw [resolve_on, resolve_on]
  by_cases alone : session.chain.isEmpty = true
  · rw [if_pos alone, if_pos (show session.forget.chain.isEmpty = true from alone)]
    rfl
  · rw [if_neg alone, if_neg (show ¬session.forget.chain.isEmpty = true from alone)]
    exact Forgets.resolveByChain forgets symbol session

theorem Forgets.getBy {recorded : String → List (Attached S) → Work S (σ × List Moment) (Option IdentifierId)}
    {unrecorded : String → List (Attached S) → Work S σ (Option IdentifierId)}
    (forgets : ∀ spelling chain, Forgets (recorded spelling chain) (unrecorded spelling chain)) (spelling : String) :
    Forgets (getBy recorded spelling) (getBy unrecorded spelling) := by
  refine (Forgets.onTable _).bind fun symbol => (Forgets.look _).bind fun bound => ?_
  cases bound with
  | some id => exact .pure id
  | none => exact Forgets.resolve (forgets spelling) symbol

theorem Forgets.get (behaviour : S → String → Script S σ) (depth : Nat) (spelling : String) :
    Forgets (get checks (recordedSources behaviour) depth spelling) (get checks behaviour depth spelling) := by
  induction depth generalizing spelling with
  | zero => exact Forgets.getBy (fun _ _ => .throw _) spelling
  | succ depth ih => exact Forgets.getBy (Forgets.consult ih) spelling

end

end Work
end Canon.Identifier
