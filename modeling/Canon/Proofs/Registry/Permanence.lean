import Canon.Proofs.Keys
import Canon.Registry
import Mathlib.Data.List.Induction

/-!
Handles are dense and permanent. Whatever is entered, read and changed and in whatever order, records are numbered in
the order in which they were entered, and a record is changed through its own handle only. A handle that was not issued
names nothing, and whatever is tried through it changes nothing.
-/
namespace Canon.Registry

inductive Request (κ α : Type) where
  | enter (record : α)
  | get? (key : κ)
  /-- The key must name a record. -/
  | get (key : κ)
  | modify (key : κ) (change : α → α)
  /-- The key must name a record. -/
  | update (key : κ) (change : α → α)

/-- A request with its answer. A change answers with the record that it found. -/
inductive Call (κ α : Type) where
  | enter (record : α) (answer : κ)
  | get? (key : κ) (answer : Option α)
  | get (key : κ) (answer : Except Fault α)
  | modify (key : κ) (change : α → α) (answer : Option α)
  | update (key : κ) (change : α → α) (answer : Except Fault α)

def Call.request {κ α : Type} : Call κ α → Request κ α
  | .enter record _ => .enter record
  | .get? key _ => .get? key
  | .get key _ => .get key
  | .modify key change _ => .modify key change
  | .update key change _ => .update key change

namespace Request
variable {κ α : Type}

def record? : Request κ α → Option α
  | .enter record => some record
  | .get? _ | .get _ | .modify _ _ | .update _ _ => none

def key? : Request κ α → Option κ
  | .enter _ => none
  | .get? key | .get key | .modify key _ | .update key _ => some key

def change? [DecidableEq κ] (key : κ) : Request κ α → Option (α → α)
  | .modify other change | .update other change => if other = key then some change else none
  | .enter _ | .get? _ | .get _ => none

end Request

section
variable {κ α : Type}

def entered (requests : List (Request κ α)) : List α := requests.filterMap Request.record?

def changed [DecidableEq κ] (key : κ) (requests : List (Request κ α)) (record : α) : α :=
  (requests.filterMap (Request.change? key)).foldl (fun record change => change record) record

theorem entered_concat (requests : List (Request κ α)) (request : Request κ α) :
    entered (requests ++ [request]) = entered requests ++ request.record?.toList := by
  cases request with
  | enter record => exact List.filterMap_append
  | get? key => exact List.filterMap_append
  | get key => exact List.filterMap_append
  | modify key change => exact List.filterMap_append
  | update key change => exact List.filterMap_append

theorem changed_cons [DecidableEq κ] (key : κ) (request : Request κ α) (requests : List (Request κ α)) (record : α) :
    changed key (request :: requests) record = changed key requests ((request.change? key).elim record (· record)) := by
  unfold changed
  cases change : request.change? key with
  | none => simp [change]
  | some change => simp [change]

end

structure Visit (κ α : Type) where
  registry : Registry κ α
  calls : List (Call κ α)

section
variable {κ α : Type} [Indexed κ]

/-- A call that was answered as it should be, going by the records there were. -/
def Call.Follows (registry : Registry κ α) : Call κ α → Prop
  | .enter _ answer => answer = registry.nextKey
  | .get? key answer | .modify key _ answer => answer = registry.get? key
  | .get key answer | .update key _ answer =>
    answer = (registry.get? key).elim (.error (.outOfBounds registry.size (Indexed.index key))) .ok

namespace Visit

/-- Serves one request. A request that faults leaves the registry to the next one. -/
def serve (visit : Visit κ α) : Request κ α → Visit κ α
  | .enter record =>
    let (key, registry) := visit.registry.enter record
    ⟨registry, visit.calls ++ [.enter record key]⟩
  | .get? key => ⟨visit.registry, visit.calls ++ [.get? key (visit.registry.get? key)]⟩
  | .get key => ⟨visit.registry, visit.calls ++ [.get key (visit.registry.get key)]⟩
  | .modify key change =>
    ⟨visit.registry.modify key change, visit.calls ++ [.modify key change (visit.registry.get? key)]⟩
  | .update key change =>
    match visit.registry.update key change with
    | .ok registry => ⟨registry, visit.calls ++ [.update key change (visit.registry.get key)]⟩
    | .error fault => ⟨visit.registry, visit.calls ++ [.update key change (.error fault)]⟩

def run (requests : List (Request κ α)) : Visit κ α := requests.foldl serve ⟨.empty, []⟩

theorem run_concat (earlier : List (Request κ α)) (request : Request κ α) :
    run (earlier ++ [request]) = (run earlier).serve request :=
  List.foldl_append

end Visit

section Changes
variable {registry : Registry κ α} {key : κ}

theorem get?_eq_none_iff : registry.get? key = none ↔ registry.size ≤ Indexed.index key :=
  Array.getElem?_eq_none_iff

theorem index_lt_of_get? {record : α} (entered : registry.get? key = some record) :
    Indexed.index key < registry.size :=
  (Array.getElem?_eq_some_iff.mp entered).choose

theorem get_eq (registry : Registry κ α) (key : κ) :
    registry.get key = (registry.get? key).elim (.error (.outOfBounds registry.size (Indexed.index key))) .ok := by
  unfold get
  cases registry.get? key <;> rfl

theorem modify_unknown (unknown : registry.get? key = none) (change : α → α) :
    registry.modify key change = registry := by
  have same : registry.records.modify (Indexed.index key) change = registry.records := by
    apply Array.ext_getElem?
    intro position
    rw [Array.getElem?_modify]
    split_ifs with here
    · have missing : registry.records[position]? = none := here ▸ unknown
      rw [missing, Option.map_none]
    · rfl
  exact congrArg Registry.mk same

theorem update_eq (registry : Registry κ α) (key : κ) (change : α → α) :
    registry.update key change = (registry.get key).map fun _ => registry.modify key change := by
  unfold update get
  cases registry.get? key <;> rfl

theorem get?_modify_of_get? [DecidableEq κ] {other : κ} {record : α} (entered : registry.get? other = some record)
    (change : α → α) :
    (registry.modify key change).get? other =
      some ((if key = other then some change else none).elim record (· record)) := by
  rw [get?_modify, entered]
  by_cases same : key = other
  · simp [same]
  · have apart : Indexed.index key ≠ Indexed.index other := by
      intro place
      apply same
      rw [← Indexed.atIndex_index key, place, Indexed.atIndex_index]
    simp [same, apart]

theorem modify_idle [DecidableEq κ] {other : κ} {change : α → α} (here : some key = some other)
    (idle : registry.get? other = none ∨ (if key = other then some change else none) = none) :
    registry.modify key change = registry := by
  obtain rfl := Option.some.inj here
  rcases idle with unknown | still
  · exact modify_unknown unknown change
  · simp at still

end Changes

namespace Visit
variable {before visit after : Visit κ α}

theorem serve_update (visit : Visit κ α) (key : κ) (change : α → α) :
    visit.serve (.update key change) =
      ⟨visit.registry.modify key change, visit.calls ++ [.update key change (visit.registry.get key)]⟩ := by
  cases found : visit.registry.get? key with
  | some record => simp [serve, update_eq, get_eq, found, Except.map]
  | none => simp [serve, update_eq, get_eq, found, Except.map, modify_unknown found]

variable [DecidableEq κ]

/-- What a call does: it enters at most one record, and changes at most that of its own key. -/
structure Serves (before : Visit κ α) (call : Call κ α) (after : Visit κ α) : Prop where
  calls : after.calls = before.calls ++ [call]
  follows : call.Follows before.registry
  size : after.registry.size = before.registry.size + call.request.record?.toList.length
  get? : ∀ {key record}, before.registry.get? key = some record →
    after.registry.get? key = some ((call.request.change? key).elim record (· record))
  kept : ∀ {key}, call.request.key? = some key → before.registry.get? key = none ∨ call.request.change? key = none →
    after.registry = before.registry

theorem exists_serves (visit : Visit κ α) (request : Request κ α) :
    ∃ call : Call κ α, call.request = request ∧ visit.Serves call (visit.serve request) := by
  cases request with
  | enter record =>
    refine ⟨.enter record visit.registry.nextKey, rfl, ?_⟩
    have older {key : κ} {old : α} (entered : visit.registry.get? key = some old) :
        (visit.registry.enter record).2.get? key = some old := by
      rw [get?_enter, if_neg (Nat.ne_of_lt (index_lt_of_get? entered)), entered]
    exact { calls := rfl, follows := rfl, size := size_enter .., get? := older, kept := nofun }
  | get? key =>
    refine ⟨.get? key (visit.registry.get? key), rfl, ?_⟩
    exact { calls := rfl, follows := rfl, size := rfl, get? := id, kept := fun _ _ => rfl }
  | get key =>
    refine ⟨.get key (visit.registry.get key), rfl, ?_⟩
    exact { calls := rfl, follows := get_eq .., size := rfl, get? := id, kept := fun _ _ => rfl }
  | modify key change =>
    refine ⟨.modify key change (visit.registry.get? key), rfl, ?_⟩
    exact {
      calls := rfl
      follows := rfl
      size := size_modify ..
      get? := fun entered => get?_modify_of_get? entered change
      kept := modify_idle }
  | update key change =>
    refine ⟨.update key change (visit.registry.get key), rfl, ?_⟩
    rw [serve_update]
    exact {
      calls := rfl
      follows := get_eq ..
      size := size_modify ..
      get? := fun entered => get?_modify_of_get? entered change
      kept := modify_idle }

theorem size_run (requests : List (Request κ α)) : (run requests).registry.size = (entered requests).length := by
  induction requests using List.reverseRecOn with
  | nil => rfl
  | append_singleton earlier request ih =>
    obtain ⟨call, rfl, serves⟩ := (run earlier).exists_serves request
    rw [run_concat, serves.size, ih, entered_concat, List.length_append]

theorem requests_run (requests : List (Request κ α)) : (run requests).calls.map Call.request = requests := by
  induction requests using List.reverseRecOn with
  | nil => rfl
  | append_singleton earlier request ih =>
    obtain ⟨call, rfl, serves⟩ := (run earlier).exists_serves request
    rw [run_concat, serves.calls, List.map_append, ih]
    rfl

/-- What becomes of a record follows from the requests that go through its own key. -/
theorem get?_foldl_serve {key : κ} {record : α} (found : visit.registry.get? key = some record)
    (later : List (Request κ α)) :
    (later.foldl serve visit).registry.get? key = some (changed key later record) := by
  induction later generalizing visit record with
  | nil => exact found
  | cons request later ih =>
    obtain ⟨call, rfl, serves⟩ := visit.exists_serves request
    rw [List.foldl_cons, ih (serves.get? found), changed_cons]

end Visit

end

section Handles
variable {kind : Handle.Kind} {α : Type} {registry : Registry (Handle kind) α}

theorem index_nextKey (room : registry.size < 4294967296) : registry.nextKey.index = registry.size :=
  Handle.index_atIndex room

theorem ofIndex_of_lt {position : Nat} (room : position < 4294967295) (checks : Checks) :
    Handle.ofIndex checks position = .ok (Handle.atIndex position : Handle kind) := by
  have unreserved : ¬(checks = .enabled ∧ Handle.reserved ≤ position) := by
    rintro ⟨-, reserved⟩
    exact Nat.not_le_of_lt room reserved
  exact if_neg unreserved

theorem Visit.get?_run {earlier : List (Request (Handle kind) α)} (room : (run earlier).registry.size < 4294967296)
    (record : α) (later : List (Request (Handle kind) α)) :
    (run (earlier ++ .enter record :: later)).registry.get? (run earlier).registry.nextKey =
      some (changed (run earlier).registry.nextKey later record) := by
  have entered : ((run earlier).serve (.enter record)).registry.get? (run earlier).registry.nextKey = some record := by
    show ((run earlier).registry.enter record).2.get? _ = some record
    rw [get?_enter]
    exact if_pos (index_nextKey room)
  have grown : run (earlier ++ .enter record :: later) = later.foldl serve ((run earlier).serve (.enter record)) :=
    List.foldl_append
  rw [grown]
  exact get?_foldl_serve entered later

end Handles

/-- A registry in any use that has not run out of handles. The handle of a record is the number of the records before
it, the one that was announced, and behind it the record is found as the changes made through this handle have left it.
A handle that was not issued yet names nothing: only what must be answered faults, and nothing changes. Listed are all
records, once each and in order, with their handles, of which there is one for every record whether checks are enabled
or not. -/
theorem handles_are_dense_and_permanent {kind : Handle.Kind} {α : Type} (requests : List (Request (Handle kind) α))
    (few : (entered requests).length ≤ 4294967295) :
    let visit := Visit.run requests
    let registry := visit.registry
    visit.calls.map Call.request = requests ∧
    registry.size = (entered requests).length ∧
    (∀ checks, ∀ position < registry.size,
      Handle.ofIndex checks position = .ok (Handle.atIndex position : Handle kind)) ∧
    (∀ earlier record later, requests = earlier ++ .enter record :: later →
      let before := Visit.run earlier
      let handle := before.registry.nextKey
      handle.index = (entered earlier).length ∧
      (Visit.run (earlier ++ [.enter record])).calls = before.calls ++ [.enter record handle] ∧
      registry.get? handle = some (changed handle later record)) ∧
    (∀ handle, registry.get? handle = none ↔ registry.size ≤ handle.index) ∧
    (∀ request, ∃ call : Call (Handle kind) α, call.request = request ∧ call.Follows registry ∧
      (visit.serve request).calls = visit.calls ++ [call] ∧
      ∀ handle, request.key? = some handle → registry.get? handle = none ∨ request.change? handle = none →
        (visit.serve request).registry = registry) ∧
    registry.toList.map (fun entry => entry.1.index) = List.range registry.size ∧
    (∀ handle record, (handle, record) ∈ registry.toList ↔ registry.get? handle = some record) ∧
    registry.toList.map Prod.snd = registry.values := by
  intro visit registry
  have size : registry.size = (entered requests).length := Visit.size_run requests
  have total : registry.records.toList.length = registry.size := Array.length_toList
  have keyed : ∀ position < registry.records.toList.length,
      Indexed.index (Indexed.atIndex position : Handle kind) = position := by
    intro position inside
    exact Handle.index_atIndex (by omega)
  refine ⟨Visit.requests_run requests, size, ?_, ?_, fun _ => get?_eq_none_iff, ?_, ?_, ?_, Indexed.map_snd_numbered _⟩
  · intro checks position inside
    exact ofIndex_of_lt (by omega) checks
  · rintro earlier record later rfl before handle
    have issued : before.registry.size = (entered earlier).length := Visit.size_run earlier
    have room : before.registry.size < 4294967296 := by
      have split : entered (earlier ++ .enter record :: later) = entered earlier ++ record :: entered later :=
        List.filterMap_append
      rw [split, List.length_append, List.length_cons] at few
      omega
    refine ⟨(index_nextKey room).trans issued, ?_, Visit.get?_run room record later⟩
    rw [Visit.run_concat]
    rfl
  · intro request
    obtain ⟨call, rfl, serves⟩ := visit.exists_serves request
    exact ⟨call, rfl, serves.follows, serves.calls, fun _ => serves.kept⟩
  · exact (Indexed.map_index_numbered keyed).trans (congrArg List.range total)
  · intro handle record
    rw [get?, ← Array.getElem?_toList]
    exact Indexed.mem_numbered_iff keyed handle record

/-- A record changed twice, by a handle that was tried before it was issued. -/
theorem early_changes_are_lost :
    let early : List (Request Key Nat) := [.modify ⟨0⟩ (· + 7)]
    let later : List (Request Key Nat) := [.update ⟨0⟩ (· + 41), .enter 5, .modify ⟨1⟩ (· + 1), .modify ⟨0⟩ (· * 2)]
    (entered (early ++ .enter 1 :: later)).length ≤ 4294967295 ∧
      (Visit.run early).registry.nextKey = ⟨0⟩ ∧
      (Visit.run (early ++ .enter 1 :: later)).registry.get? ⟨0⟩ = some 84 := by
  intro early later
  have few : (entered (early ++ .enter 1 :: later)).length ≤ 4294967295 := by decide
  have first : (Visit.run early).registry.nextKey = ⟨0⟩ := by decide
  obtain ⟨-, -, -, permanent, -⟩ := handles_are_dense_and_permanent (early ++ .enter 1 :: later) few
  obtain ⟨-, -, found⟩ := permanent early 1 later rfl
  rw [first] at found
  exact ⟨few, first, found⟩

end Canon.Registry
