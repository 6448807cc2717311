import Canon.Identifier.Source

/-!
A table of identifiers with a chain of sources. A spelling that is not bound is asked of the sources in order.
Meanwhile the chain is detached, so whatever a source looks up does not reach it again; what a source attaches
meanwhile ends up behind it.
-/
namespace Canon.Identifier

structure Session (S σ : Type) where
  table : Table
  chain : List (Attached S)
  memory : σ
  nextSerial : Nat
  asked : Array (Attached S × String)

namespace Session
variable {S σ α : Type}

def start (memory : σ) : Session S σ := ⟨.empty, [], memory, 0, #[]⟩

end Session

/-- Work on a session. What was done before a fault stays done. -/
abbrev Work (S σ : Type) := ExceptT Fault (StateM (Session S σ))

namespace Work
variable {S σ α : Type}

def on (work : Work S σ α) (session : Session S σ) : Except Fault α × Session S σ := work.run session

def onTable (change : Table → α × Table) : Work S σ α :=
  modifyGet fun ⟨table, chain, memory, nextSerial, asked⟩ =>
    let (result, table) := change table
    (result, ⟨table, chain, memory, nextSerial, asked⟩)

def look (view : Table → α) : Work S σ α := do return view (← get).table

def attach (source : S) : Work S σ Unit :=
  modify fun ⟨table, chain, memory, nextSerial, asked⟩ =>
    ⟨table, chain ++ [⟨nextSerial, source⟩], memory, nextSerial + 1, asked⟩

def clear : Work S σ Unit := modify fun session => { session with chain := [] }

def replace (source : S) : Work S σ Unit := do
  clear
  attach source

def create (checks : Checks) (spelling : String) : Work S σ IdentifierId := do
  match ← onTable (·.create checks spelling) with
  | .ok id => return id
  | .error fault => throw fault

def update (checks : Checks) (id : IdentifierId) (setter : Setter) : Work S σ Unit := do
  match ← look (·.info id) with
  | .error fault => throw fault
  | .ok record =>
    match setter.apply checks record with
    | .error fault => throw fault
    | .ok changed => onTable fun table => ((), table.modify id fun _ => changed)

def registerKeyword (get : String → Work S σ IdentifierId) (active : ActiveKeyword) : Work S σ Unit := do
  let id ← get active.spelling
  match ← look (·.info id) with
  | .error fault => throw fault
  | .ok _ => onTable fun table => ((), table.modify id (·.classify active.keyword active.extension))

def registerKeywords (get : String → Work S σ IdentifierId) (dialect : Dialect) : Work S σ Unit :=
  dialect.keywords.forM (registerKeyword get)

def perform (checks : Checks) (get : String → Work S σ IdentifierId) :
    Script S σ → Work S σ (Option IdentifierId)
  | .answer id => return id
  | .fail fault => throw fault
  | .observe next => do perform checks get (next (← look id))
  | .get spelling next => do perform checks get (next (← get spelling))
  | .create spelling next => do perform checks get (next (← create checks spelling))
  | .update id setter next => do update checks id setter; perform checks get next
  | .addKeywords dialect next => do registerKeywords get dialect; perform checks get next
  | .attach source next => do attach source; perform checks get next
  | .replace source next => do replace source; perform checks get next
  | .clear next => do clear; perform checks get next
  | .retrieve next => do perform checks get (next (← getThe (Session S σ)).memory)
  | .remember memory next => do
    modify fun session => { session with memory }
    perform checks get next

def note (source : Attached S) (spelling : String) : Work S σ Unit :=
  modify fun ⟨table, chain, memory, nextSerial, asked⟩ =>
    ⟨table, chain, memory, nextSerial, asked.push (source, spelling)⟩

def consult (checks : Checks) (behaviour : S → String → Script S σ) (get : String → Work S σ IdentifierId)
    (spelling : String) : List (Attached S) → Work S σ (Option IdentifierId)
  | [] => return none
  | source :: rest => do
    note source spelling
    match ← perform checks get (behaviour source.source spelling) with
    | some id => return some id
    | none => consult checks behaviour get spelling rest

def detachChain : Work S σ (List (Attached S)) :=
  modifyGet fun session => (session.chain, { session with chain := [] })

/-- Puts a chain back, in front of what has been attached since it was taken off. -/
def reattachChain (chain : List (Attached S)) : Work S σ Unit :=
  modify fun session => { session with chain := chain ++ session.chain }

/-- The record of a spelling that the sources are asked about. A record that a source answers with is bound even
if the spelling has been bound meanwhile; one that a source has bound without answering with it is kept. -/
def resolveByChain (consult : List (Attached S) → Work S σ (Option IdentifierId)) (symbol : Symbol) :
    Work S σ IdentifierId := do
  let chain ← detachChain
  let found ← consult chain
  reattachChain chain
  match found with
  | some id =>
    onTable fun table => ((), table.bind symbol id)
    return id
  | none =>
    match ← look (·.bound? symbol) with
    | some id => return id
    | none => onTable (·.allocate symbol)

def resolve (consult : List (Attached S) → Work S σ (Option IdentifierId)) (symbol : Symbol) :
    Work S σ IdentifierId := do
  if (← getThe (Session S σ)).chain.isEmpty then onTable (·.allocate symbol)
  else resolveByChain consult symbol

def getBy (consult : String → List (Attached S) → Work S σ (Option IdentifierId)) (spelling : String) :
    Work S σ IdentifierId := do
  let symbol ← onTable (·.intern spelling)
  match ← look (·.bound? symbol) with
  | some id => return id
  | none => resolve (consult spelling) symbol

def get (checks : Checks) (behaviour : S → String → Script S σ) : Nat → String → Work S σ IdentifierId
  | 0 => getBy fun _ _ => throw .consultationTooDeep
  | depth + 1 => getBy (Work.consult checks behaviour (get checks behaviour depth))

def addKeywords (checks : Checks) (behaviour : S → String → Script S σ) (depth : Nat) (dialect : Dialect) :
    Work S σ Unit :=
  registerKeywords (get checks behaviour depth) dialect

end Work
end Canon.Identifier
