import Canon.Overlay
import Canon.Proofs.Keys
import Mathlib.Data.List.Induction

/-!
An overlay is a total map. Whatever is read and written and in whatever order, a key has the value that was stored for
it last, or else the default; how many slots there are shows only in how many entries are listed. An overlay and its
clones are maps of their own.
-/
namespace Canon.Overlay

/-- What may be asked of an overlay. All but reading goes through the slot of a key. -/
inductive Request (κ α : Type) where
  | get (key : κ)
  | set (key : κ) (value : α)
  | modify (key : κ) (change : α → α)
  | touch (key : κ)

inductive Call (κ α : Type) where
  | get (key : κ) (answer : α)
  | set (key : κ) (value : α)
  | modify (key : κ) (change : α → α) (found left : α)
  | touch (key : κ) (answer : α)

structure Visit (κ α : Type) where
  overlay : Overlay κ α
  calls : List (Call κ α)

/-- What may be asked where there are several overlays, numbered in the order in which they came about. -/
inductive Command (κ α : Type) where
  | ask (number : Nat) (request : Request κ α)
  /-- Makes a new overlay that is as another is now. -/
  | clone (number : Nat)

variable {κ α : Type}

section Calls

def Call.request : Call κ α → Request κ α
  | .get key _ => .get key
  | .set key value => .set key value
  | .modify key change _ _ => .modify key change
  | .touch key _ => .touch key

def Call.slot? : Call κ α → Option κ
  | .get _ _ => none
  | .set key _ | .modify key _ _ _ | .touch key _ => some key

def used (calls : List (Call κ α)) : List κ := calls.filterMap Call.slot?

theorem used_concat (calls : List (Call κ α)) (call : Call κ α) :
    used (calls ++ [call]) = used calls ++ call.slot?.toList := by
  cases call with
  | get key answer => exact List.filterMap_append
  | set key value => exact List.filterMap_append
  | modify key change found left => exact List.filterMap_append
  | touch key answer => exact List.filterMap_append

variable [DecidableEq κ]

def Call.stored? (key : κ) : Call κ α → Option α
  | .set other value => if other = key then some value else none
  | .modify other _ _ left => if other = key then some left else none
  | .get _ _ | .touch _ _ => none

/-- The value that was stored for a key last, or else the default. -/
def lastStored (default : α) (calls : List (Call κ α)) (key : κ) : α :=
  (calls.filterMap (Call.stored? key)).getLast?.getD default

theorem lastStored_concat (default : α) (calls : List (Call κ α)) (call : Call κ α) (key : κ) :
    lastStored default (calls ++ [call]) key = (call.stored? key).getD (lastStored default calls key) := by
  unfold lastStored
  cases stored : call.stored? key with
  | none => simp [stored]
  | some value => simp [stored]

/-- A call that read, found and left what it should where keys have some values. -/
def Call.Follows (value : κ → α) : Call κ α → Prop
  | .get key answer => answer = value key
  | .set _ _ => True
  | .modify key change found left => found = value key ∧ left = change found
  | .touch key answer => answer = value key

/-- Calls each of which followed from what the calls before it had stored. -/
inductive Told (default : α) : List (Call κ α) → Prop where
  | nil : Told default []
  | concat {calls : List (Call κ α)} {call : Call κ α} (told : Told default calls)
      (follows : call.Follows (lastStored default calls)) : Told default (calls ++ [call])

end Calls

section Commands

def Command.request? (number : Nat) : Command κ α → Option (Request κ α)
  | .ask other request => if other = number then some request else none
  | .clone _ => none

def asked (number : Nat) (commands : List (Command κ α)) : List (Request κ α) :=
  commands.filterMap (Command.request? number)

theorem asked_cons_ask (number other : Nat) (request : Request κ α) (commands : List (Command κ α)) :
    asked number (.ask other request :: commands) =
      if other = number then request :: asked number commands else asked number commands := by
  unfold asked
  by_cases same : other = number
  · simp [Command.request?, same]
  · simp [Command.request?, same]

end Commands

variable [Indexed κ]

def Visit.serve (visit : Visit κ α) : Request κ α → Visit κ α
  | .get key => ⟨visit.overlay, visit.calls ++ [.get key (visit.overlay.get key)]⟩
  | .set key value => ⟨visit.overlay.set key value, visit.calls ++ [.set key value]⟩
  | .modify key change =>
    let changed := visit.overlay.modify key change
    ⟨changed, visit.calls ++ [.modify key change (visit.overlay.get key) (changed.get key)]⟩
  | .touch key =>
    let touched := visit.overlay.touch key
    ⟨touched, visit.calls ++ [.touch key (touched.get key)]⟩

def obey (visits : List (Visit κ α)) : Command κ α → List (Visit κ α)
  | .ask number request => visits.modify number (·.serve request)
  | .clone number => visits ++ visits[number]?.toList

/-- Obeys commands where at first there is one overlay, which is everywhere the default. -/
def obeyAll (default : α) (commands : List (Command κ α)) : List (Visit κ α) :=
  commands.foldl obey [⟨.constant default, []⟩]

section Values

theorem get_modify [DecidableEq κ] (overlay : Overlay κ α) (key other : κ) (change : α → α) :
    (overlay.modify key change).get other = if key = other then change (overlay.get other) else overlay.get other := by
  split_ifs with same
  · rw [same, get_modify_same]
  · exact get_modify_other overlay change same

@[simp] theorem get_touch (overlay : Overlay κ α) (key other : κ) : (overlay.touch key).get other = overlay.get other :=
  get_reach overlay _ other

@[simp] theorem extent_touch (overlay : Overlay κ α) (key : κ) :
    (overlay.touch key).extent = max overlay.extent (Indexed.index key + 1) :=
  extent_reach overlay _

theorem listed [Indexed.Gapless κ] {overlay : Overlay κ α}
    (reach : overlay.extent = 0 ∨ ∃ key : κ, overlay.extent = Indexed.index key + 1) :
    overlay.toList.map (fun entry => Indexed.index entry.1) = List.range overlay.extent ∧
      ∀ entry ∈ overlay.toList, entry.2 = overlay.get entry.1 := by
  have size : overlay.slots.toList.length = overlay.extent := Array.length_toList
  have keyed : ∀ position < overlay.slots.toList.length, Indexed.index (Indexed.atIndex position : κ) = position := by
    intro position inside
    rcases reach with none | ⟨key, upTo⟩
    · omega
    · exact Indexed.Gapless.index_atIndex key (by omega)
  constructor
  · exact (Indexed.map_index_numbered keyed).trans (congrArg List.range size)
  · rintro ⟨key, value⟩ member
    have found := (Indexed.mem_numbered_iff keyed key value).mp member
    rw [Array.getElem?_toList] at found
    rw [get, Array.getD_eq_getD_getElem?, found, Option.getD_some]

end Values

namespace Visit
variable {default : α} {before visit after : Visit κ α} [DecidableEq κ]

/-- What a call does: it stores at most one value, and materialises slots as far as it goes through one. -/
structure Serves (before : Visit κ α) (call : Call κ α) (after : Visit κ α) : Prop where
  calls : after.calls = before.calls ++ [call]
  follows : call.Follows before.overlay.get
  get : ∀ key, after.overlay.get key = (call.stored? key).getD (before.overlay.get key)
  extent : after.overlay.extent = max before.overlay.extent (call.slot?.elim 0 (Indexed.index · + 1))
  kept : call.slot? = none → after.overlay = before.overlay

theorem exists_serves (visit : Visit κ α) (request : Request κ α) :
    ∃ call : Call κ α, call.request = request ∧ visit.Serves call (visit.serve request) := by
  cases request with
  | get key =>
    refine ⟨.get key (visit.overlay.get key), rfl, ?_⟩
    exact { calls := rfl, follows := rfl, get := fun _ => rfl, extent := (Nat.max_zero _).symm, kept := fun _ => rfl }
  | set key value =>
    refine ⟨.set key value, rfl, ?_⟩
    have written (other : κ) : (visit.overlay.modify key fun _ => value).get other =
        (if key = other then some value else none).getD (visit.overlay.get other) := by
      rw [get_modify]
      split_ifs <;> rfl
    exact { calls := rfl, follows := trivial, get := written, extent := extent_modify .., kept := nofun }
  | modify key change =>
    refine ⟨.modify key change (visit.overlay.get key) ((visit.overlay.modify key change).get key), rfl, ?_⟩
    have written (other : κ) : (visit.overlay.modify key change).get other =
        (if key = other then some ((visit.overlay.modify key change).get key) else none).getD
          (visit.overlay.get other) := by
      rw [get_modify, get_modify_same]
      split_ifs with same
      · rw [same]
        rfl
      · rfl
    exact {
      calls := rfl
      follows := ⟨rfl, get_modify_same ..⟩
      get := written
      extent := extent_modify ..
      kept := nofun }
  | touch key =>
    refine ⟨.touch key ((visit.overlay.touch key).get key), rfl, ?_⟩
    exact { calls := rfl, follows := get_touch .., get := get_touch _ _, extent := extent_touch .., kept := nofun }

/-- A visit whose overlay is the total map that its calls have made. -/
structure Sound (default : α) (visit : Visit κ α) : Prop where
  told : Told default visit.calls
  get : ∀ key, visit.overlay.get key = lastStored default visit.calls key
  /-- There are slots up to the greatest key whose slot was used. -/
  below : ∀ key ∈ used visit.calls, Indexed.index key < visit.overlay.extent
  greatest : visit.overlay.extent = 0 ∨ ∃ key ∈ used visit.calls, visit.overlay.extent = Indexed.index key + 1

theorem sound_start (default : α) : Sound default (⟨.constant default, []⟩ : Visit κ α) where
  told := .nil
  get key := get_constant default key
  below := nofun
  greatest := .inl rfl

theorem Sound.follows {call : Call κ α} (sound : before.Sound default) (serves : before.Serves call after) :
    call.Follows (lastStored default before.calls) := by
  have values : before.overlay.get = lastStored default before.calls := funext sound.get
  exact values ▸ serves.follows

theorem Sound.next {call : Call κ α} (sound : before.Sound default) (serves : before.Serves call after) :
    after.Sound default where
  told := serves.calls ▸ sound.told.concat (sound.follows serves)
  get key := by rw [serves.get, serves.calls, lastStored_concat, sound.get]
  below key member := by
    rw [serves.calls, used_concat, List.mem_append] at member
    rw [serves.extent]
    rcases member with old | new
    · exact Nat.lt_of_lt_of_le (sound.below key old) (Nat.le_max_left ..)
    · have through : call.slot? = some key := Option.mem_toList.mp new
      rw [through, Option.elim_some]
      omega
  greatest := by
    rw [serves.extent, serves.calls, used_concat]
    cases slot : call.slot? with
    | none => simpa using sound.greatest
    | some key =>
      right
      by_cases further : before.overlay.extent ≤ Indexed.index key + 1
      · exact ⟨key, by simp, Nat.max_eq_right further⟩
      · rcases sound.greatest with none | ⟨other, member, same⟩
        · omega
        · refine ⟨other, List.mem_append_left _ member, ?_⟩
          rw [Option.elim_some, ← same]
          omega

theorem Sound.serve (sound : visit.Sound default) (request : Request κ α) : (visit.serve request).Sound default := by
  obtain ⟨call, -, serves⟩ := visit.exists_serves request
  exact sound.next serves

theorem Sound.obey {visits : List (Visit κ α)} (sound : ∀ visit ∈ visits, visit.Sound default) (command : Command κ α) :
    ∀ visit ∈ obey visits command, visit.Sound default := by
  intro visit member
  cases command with
  | ask number request =>
    obtain ⟨place, found⟩ := List.mem_iff_getElem?.mp member
    rw [Overlay.obey, List.getElem?_modify] at found
    obtain ⟨old, here, rfl⟩ := Option.map_eq_some_iff.mp found
    have before := sound old (List.mem_of_getElem? here)
    split_ifs
    · exact before.serve request
    · exact before
  | clone number =>
    rcases List.mem_append.mp member with old | new
    · exact sound visit old
    · exact sound visit (List.mem_of_getElem? (Option.mem_toList.mp new))

theorem sound_obeyAll (default : α) (commands : List (Command κ α)) :
    ∀ visit ∈ obeyAll default commands, visit.Sound default := by
  induction commands using List.reverseRecOn with
  | nil =>
    intro visit member
    rw [List.mem_singleton.mp member]
    exact sound_start default
  | append_singleton earlier command ih =>
    rw [obeyAll, List.foldl_append]
    exact Sound.obey ih command

theorem extent_le_foldl_serve (visit : Visit κ α) (requests : List (Request κ α)) :
    visit.overlay.extent ≤ (requests.foldl serve visit).overlay.extent := by
  induction requests generalizing visit with
  | nil => exact Nat.le_refl _
  | cons request requests ih =>
    obtain ⟨call, -, serves⟩ := visit.exists_serves request
    have first : visit.overlay.extent ≤ (visit.serve request).overlay.extent := by
      rw [serves.extent]
      exact Nat.le_max_left ..
    exact Nat.le_trans first (ih (visit.serve request))

end Visit

/-- What becomes of an overlay among others follows from what is asked of it, whatever is asked of the others. -/
theorem getElem?_foldl_obey {visits : List (Visit κ α)} {number : Nat} {visit : Visit κ α}
    (here : visits[number]? = some visit) (commands : List (Command κ α)) :
    (commands.foldl obey visits)[number]? = some ((asked number commands).foldl Visit.serve visit) := by
  induction commands generalizing visits visit with
  | nil => exact here
  | cons command commands ih =>
    cases command with
    | ask other request =>
      have next : (obey visits (.ask other request))[number]? =
          some (if other = number then visit.serve request else visit) := by
        rw [obey, List.getElem?_modify, here]
        rfl
      rw [List.foldl_cons, ih next, asked_cons_ask]
      split_ifs <;> rfl
    | clone other =>
      have inside : number < visits.length := (List.getElem?_eq_some_iff.mp here).choose
      have next : (obey visits (.clone other))[number]? = some visit := by
        rw [obey, List.getElem?_append_left inside, here]
      exact ih next

/-- Overlays with their clones, after any commands. Each is the total map that its calls have made: a key has the value
that was stored for it last, or else the default. There are slots up to the greatest key whose slot was used, and those
are listed in order with the values of their keys. Reading changes nothing, and no slot is ever given up. What becomes
of an overlay follows from what is asked of it, whatever is asked of its clones. -/
theorem overlays_are_total_maps [DecidableEq κ] [Indexed.Gapless κ] (default : α) (commands : List (Command κ α)) :
    let visits := obeyAll default commands
    (∀ visit ∈ visits, visit.Sound default ∧
      visit.overlay.toList.map (fun entry => Indexed.index entry.1) = List.range visit.overlay.extent ∧
      (∀ entry ∈ visit.overlay.toList, entry.2 = visit.overlay.get entry.1) ∧
      ∀ request, ∃ call : Call κ α, call.request = request ∧ call.Follows (lastStored default visit.calls) ∧
        (visit.serve request).calls = visit.calls ++ [call] ∧
        (call.slot? = none → (visit.serve request).overlay = visit.overlay)) ∧
    (∀ earlier later, commands = earlier ++ later → ∀ number visit, (obeyAll default earlier)[number]? = some visit →
      let after := (asked number later).foldl Visit.serve visit
      visits[number]? = some after ∧ visit.overlay.extent ≤ after.overlay.extent) ∧
    ∀ number visit, visits[number]? = some visit →
      obeyAll default (commands ++ [.clone number]) = visits ++ [visit] := by
  intro visits
  refine ⟨?_, ?_, ?_⟩
  · intro visit member
    have sound := Visit.sound_obeyAll default commands visit member
    obtain ⟨keys, values⟩ := listed (sound.greatest.imp_right fun ⟨key, _, upTo⟩ => ⟨key, upTo⟩)
    refine ⟨sound, keys, values, fun request => ?_⟩
    obtain ⟨call, same, serves⟩ := visit.exists_serves request
    exact ⟨call, same, sound.follows serves, serves.calls, serves.kept⟩
  · rintro earlier later rfl number visit here
    refine ⟨?_, visit.extent_le_foldl_serve _⟩
    show (List.foldl obey _ (earlier ++ later))[number]? = _
    rw [List.foldl_append]
    exact getElem?_foldl_obey here later
  · intro number visit here
    rw [obeyAll, List.foldl_append]
    show visits ++ visits[number]?.toList = _
    rw [here]
    rfl

/-- A clone is changed and grows, which the original does not show. -/
theorem clone_keeps_to_itself :
    Indexed.Gapless Key ∧
    ∃ original clone : Visit Key Nat,
      obeyAll 5 [.ask 0 (.set ⟨2⟩ 7), .clone 0, .ask 1 (.modify ⟨2⟩ (· + 1)), .ask 1 (.touch ⟨4⟩)] = [original, clone] ∧
      original.overlay.get ⟨2⟩ = 7 ∧ original.overlay.get ⟨4⟩ = 5 ∧ original.overlay.extent = 3 ∧
      clone.overlay.get ⟨2⟩ = 8 ∧ clone.overlay.get ⟨4⟩ = 5 ∧ clone.overlay.extent = 5 := by
  refine ⟨inferInstance, _, _, rfl, ?_⟩
  obtain ⟨maps, -⟩ := overlays_are_total_maps 5
    [.ask 0 (.set (⟨2⟩ : Key) 7), .clone 0, .ask 1 (.modify ⟨2⟩ (· + 1)), .ask 1 (.touch ⟨4⟩)]
  obtain ⟨original, -⟩ := maps _ (List.mem_cons_self ..)
  obtain ⟨clone, -⟩ := maps _ (List.mem_cons_of_mem _ (List.mem_singleton_self _))
  exact ⟨original.get ⟨2⟩, original.get ⟨4⟩, by decide, clone.get ⟨2⟩, clone.get ⟨4⟩, by decide⟩

end Canon.Overlay
