import Canon.Identifier.Session

/-!
Sources that are prepared in advance: a list of actions, carried out for the spellings the source knows.
-/
namespace Canon.Identifier

/-- A step of a prepared source. Most steps yield a record, which the later ones refer to; where a spelling is
left out the one asked for is meant. -/
inductive Step (S : Type) where
  | create (spelling : Option String)
  | get (spelling : Option String)
  | find (spelling : Option String)
  /-- Refers to a record by its number, whether there is one or not. -/
  | refer (number : UInt32)
  /-- Notes a mark about the record, or gives up if there is none. -/
  | note (mark : Mark)
  | attach (source : S)
  | replace (source : S)
  | clear
  | answer

/-- A source with a name. It knows the spellings listed, or all if there is no list. -/
inductive Prepared where
  | mk (name : String) (known : Option (List String)) (steps : List (Step Prepared))

namespace Prepared

instance : Inhabited Prepared := ⟨.mk "" none []⟩

def name : Prepared → String
  | ⟨name, _, _⟩ => name

def knows : Prepared → String → Bool
  | ⟨_, known, _⟩, spelling => known.all (·.contains spelling)

def steps : Prepared → List (Step Prepared)
  | ⟨_, _, steps⟩ => steps

def follow (checks : Checks) (asked : String) : List (Step Prepared) → Option IdentifierId → Script Prepared Unit
  | [], _ => .answer none
  | step :: rest, record =>
    match step with
    | .create spelling => .create (spelling.getD asked) fun id => follow checks asked rest (some id)
    | .get spelling => .get (spelling.getD asked) fun id => follow checks asked rest (some id)
    | .find spelling => .observe fun table => follow checks asked rest (table.find? (spelling.getD asked))
    | .refer number =>
      match Handle.ofNumber checks number with
      | .ok id => follow checks asked rest (some id)
      | .error fault => .fail fault
    | .note mark =>
      match record with
      | some id => .update id (.mark mark true) (follow checks asked rest record)
      | none => .answer none
    | .attach source => .attach source (follow checks asked rest record)
    | .replace source => .replace source (follow checks asked rest record)
    | .clear => .clear (follow checks asked rest record)
    | .answer => .answer record

def behaviour (checks : Checks) (source : Prepared) (spelling : String) : Script Prepared Unit :=
  if source.knows spelling then follow checks spelling source.steps none else .answer none

mutual

/-- How many levels deep a source can ask others: those it attaches, and those that they attach. -/
def depth : Prepared → Nat
  | ⟨_, _, steps⟩ => depthOfSteps steps + 1

def depthOfSteps : List (Step Prepared) → Nat
  | [] => 0
  | step :: rest => max (depthOfStep step) (depthOfSteps rest)

def depthOfStep : Step Prepared → Nat
  | .attach source => depth source
  | .replace source => depth source
  | _ => 0

end

end Prepared

abbrev PreparedSession := Session Prepared Unit

namespace PreparedSession

def allowance (session : PreparedSession) : Nat :=
  (session.chain.map fun attached => attached.source.depth).foldl max 0

def get (checks : Checks) (spelling : String) (session : PreparedSession) :
    Except Fault IdentifierId × PreparedSession :=
  (Work.get checks (Prepared.behaviour checks) session.allowance spelling).on session

def addKeywords (checks : Checks) (dialect : Dialect) (session : PreparedSession) :
    Except Fault Unit × PreparedSession :=
  (Work.addKeywords checks (Prepared.behaviour checks) session.allowance dialect).on session

def takeAsked (session : PreparedSession) : List (String × String) × PreparedSession :=
  (session.asked.toList.map fun (attached, spelling) => (attached.source.name, spelling), { session with asked := #[] })

end PreparedSession
end Canon.Identifier
