import Canon.Identifier.Table

/-!
Sources of identifiers outside the table. A source that is asked about a spelling works on the table and then
answers with a record or with nothing; a `Script` is what it does, step by step.
-/
namespace Canon.Identifier

/-- What a source does when it is asked. `S` is the type of sources and `σ` what they remember together. -/
inductive Script (S σ : Type) where
  | answer (id : Option IdentifierId)
  | fail (fault : Fault)
  | observe (next : Table → Script S σ)
  | get (spelling : String) (next : IdentifierId → Script S σ)
  | create (spelling : String) (next : IdentifierId → Script S σ)
  | update (id : IdentifierId) (setter : Setter) (next : Script S σ)
  | addKeywords (dialect : Dialect) (next : Script S σ)
  | attach (source : S) (next : Script S σ)
  | replace (source : S) (next : Script S σ)
  | clear (next : Script S σ)
  | retrieve (next : σ → Script S σ)
  | remember (memory : σ) (next : Script S σ)

/-- A source in a chain. The serial number tells apart sources that are attached more than once. -/
structure Attached (S : Type) where
  serial : Nat
  source : S
  deriving DecidableEq

end Canon.Identifier
