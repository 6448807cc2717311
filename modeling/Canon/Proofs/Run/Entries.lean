import Canon.Proofs.File.Arrival
import Canon.Proofs.Survey.Tally
import Canon.Run.Basic

/-!
What a run says about paths, said without a survey. While the file system does not change, the entry about a path
depends on what the path leads to and on the entries before: the first path that leads to a file opens it, and the later
ones repeat it. Entries end with the first path about which nothing can be said.
-/
namespace Canon.Run
open Canon.File

inductive Entry where
  /-- The path leads to a file that no earlier one leads to. -/
  | opens (path : String) (identity : Identity) (uid : Nat) (size : UInt64) (words : List String)
  /-- The path leads where an earlier one does, the first of which is given. -/
  | repeats (path : String) (identity : Identity) (first : String)
  deriving DecidableEq

namespace Entry

def path : Entry → String
  | .opens path _ _ _ _ => path
  | .repeats path _ _ => path

def identity : Entry → Identity
  | .opens _ identity _ _ _ => identity
  | .repeats _ identity _ => identity

def words : Entry → List String
  | .opens _ _ _ _ words => words
  | .repeats _ _ _ => []

def opened? : Entry → Option (Identity × Nat)
  | .opens _ identity uid _ _ => some (identity, uid)
  | .repeats _ _ _ => none

/-- The name under which a file is shown: that of the main file for the first one, if there is such a name. -/
def shownName (mainFileName : Option String) (uid : Nat) (path : String) : String :=
  match mainFileName with
  | some name => if uid = 0 then name else path
  | none => path

def details (dialect : Dialect) (uid : Nat) (size : UInt64) (words : List String) : String :=
  let tally := Tally.ofDialect dialect words
  s!": uid {uid}, {size} bytes, {tally.words} words, {tally.keywords} keywords " ++
    s!"({tally.extensions} extensions)\n"

def line (dialect : Dialect) : Entry → String
  | .opens path _ uid size words => shownName dialect.mainFileName uid path ++ details dialect uid size words
  | .repeats path _ first => s!"{path}: same file as {first}\n"

end Entry

section
variable (stat : String → Except StatError Stat) (read : String → Except ReadError (List UInt8)) (dollar : Bool)

def nextEntry (entries : List Entry) (path : String) : Except SurveyError Entry :=
  match fileOf? stat path with
  | none => .error (.noSuchFile path)
  | some found =>
    match entries.find? (·.identity = found.identity) with
    | some first => .ok (.repeats path found.identity first.path)
    | none =>
      match read path with
      | .error cause => .error (.unreadable path cause)
      | .ok bytes => .ok (.opens path found.identity (entries.filterMap Entry.opened?).length found.size
          (Text.words dollar (Text.decodeLossy bytes)))

def account (entries : List Entry) : List String → List Entry × Option Failure
  | [] => (entries, none)
  | path :: rest =>
    match nextEntry stat read dollar entries path with
    | .error error => (entries, some (.survey path error))
    | .ok entry => account (entries ++ [entry]) rest

end

variable {stat : String → Except StatError Stat} {read : String → Except ReadError (List UInt8)} {dollar : Bool}
  {entries : List Entry} {path : String}

inductive Warrants (stat : String → Except StatError Stat) (read : String → Except ReadError (List UInt8))
    (dollar : Bool) (entries : List Entry) (path : String) : Except SurveyError Entry → Prop where
  | missing (nowhere : fileOf? stat path = none) : Warrants stat read dollar entries path (.error (.noSuchFile path))
  | repeats {found first} (leads : fileOf? stat path = some found)
    (known : entries.find? (·.identity = found.identity) = some first) :
    Warrants stat read dollar entries path (.ok (.repeats path found.identity first.path))
  | unreadable {found cause} (leads : fileOf? stat path = some found)
    (new : entries.find? (·.identity = found.identity) = none) (refused : read path = .error cause) :
    Warrants stat read dollar entries path (.error (.unreadable path cause))
  | opens {found bytes} (leads : fileOf? stat path = some found)
    (new : entries.find? (·.identity = found.identity) = none) (granted : read path = .ok bytes) :
    Warrants stat read dollar entries path (.ok (.opens path found.identity (entries.filterMap Entry.opened?).length
      found.size (Text.words dollar (Text.decodeLossy bytes))))

theorem warrants_nextEntry (stat : String → Except StatError Stat) (read : String → Except ReadError (List UInt8))
    (dollar : Bool) (entries : List Entry) (path : String) :
    Warrants stat read dollar entries path (nextEntry stat read dollar entries path) := by
  unfold nextEntry
  split
  · next nowhere => exact .missing nowhere
  · next found leads =>
    split
    · next first known => exact .repeats leads known
    · next new =>
      split
      · next cause refused => exact .unreadable leads new refused
      · next bytes granted => exact .opens leads new granted

theorem Warrants.eq_nextEntry {result : Except SurveyError Entry}
    (warrants : Warrants stat read dollar entries path result) :
    nextEntry stat read dollar entries path = result := by
  unfold nextEntry
  cases warrants with
  | missing nowhere => rw [nowhere]
  | repeats leads known => simp only [leads, known]
  | unreadable leads new refused => simp only [leads, new, refused]
  | opens leads new granted => simp only [leads, new, granted]

theorem path_of_nextEntry {entry : Entry} (said : nextEntry stat read dollar entries path = .ok entry) :
    entry.path = path := by
  have warrants := warrants_nextEntry stat read dollar entries path
  rw [said] at warrants
  cases warrants <;> rfl

theorem account_cons_ok {entry : Entry} (said : nextEntry stat read dollar entries path = .ok entry)
    (rest : List String) :
    account stat read dollar entries (path :: rest) = account stat read dollar (entries ++ [entry]) rest := by
  rw [account, said]

theorem account_cons_error {error : SurveyError} (said : nextEntry stat read dollar entries path = .error error)
    (rest : List String) :
    account stat read dollar entries (path :: rest) = (entries, some (.survey path error)) := by
  rw [account, said]

theorem account_append {more : List Entry} (leading rest : List String)
    (good : account stat read dollar entries leading = (more, none)) :
    account stat read dollar entries (leading ++ rest) = account stat read dollar more rest := by
  induction leading generalizing entries with
  | nil =>
    cases good
    rfl
  | cons path leading ih =>
    rw [List.cons_append]
    cases said : nextEntry stat read dollar entries path with
    | error error =>
      rw [account_cons_error said] at good
      cases good
    | ok entry =>
      rw [account_cons_ok said] at good ⊢
      exact ih good

/-- There is one entry for each of the leading paths, and a failure says why there is none for the path behind them. -/
theorem account_spec (stat : String → Except StatError Stat) (read : String → Except ReadError (List UInt8))
    (dollar : Bool) (entries : List Entry) (paths : List String) :
    ∃ more, (account stat read dollar entries paths).1 = entries ++ more ∧
      account stat read dollar entries (more.map Entry.path) = (entries ++ more, none) ∧
      (((account stat read dollar entries paths).2 = none ∧ paths = more.map Entry.path) ∨
      ∃ bad rest error, paths = more.map Entry.path ++ bad :: rest ∧
        nextEntry stat read dollar (entries ++ more) bad = .error error ∧
        (account stat read dollar entries paths).2 = some (.survey bad error)) := by
  induction paths generalizing entries with
  | nil =>
    have none := (List.append_nil entries).symm
    exact ⟨[], none, congrArg (·, Option.none) none, .inl ⟨rfl, rfl⟩⟩
  | cons path rest ih =>
    cases said : nextEntry stat read dollar entries path with
    | error error =>
      rw [account_cons_error said]
      have none := (List.append_nil entries).symm
      exact ⟨[], none, congrArg (·, Option.none) none, .inr ⟨path, rest, error, rfl, none ▸ said, rfl⟩⟩
    | ok entry =>
      obtain ⟨more, whole, leading, ending⟩ := ih (entries ++ [entry])
      rw [account_cons_ok said]
      rw [List.append_assoc, List.singleton_append] at whole leading
      refine ⟨entry :: more, whole, ?_⟩
      rw [List.map_cons, path_of_nextEntry said, account_cons_ok said]
      refine ⟨leading, ?_⟩
      rcases ending with ⟨good, all⟩ | ⟨bad, others, error, split, refused, failed⟩
      · exact .inl ⟨good, congrArg (path :: ·) all⟩
      · rw [List.append_assoc, List.singleton_append] at refused
        exact .inr ⟨bad, others, error, congrArg (path :: ·) split, refused, failed⟩

theorem account_leading {failure : Option Failure} {paths : List String}
    (accounted : account stat read dollar [] paths = (entries, failure)) :
    entries.map Entry.path = paths.take entries.length ∧
    account stat read dollar [] (paths.take entries.length) = (entries, none) ∧
    (entries.length = paths.length ∧ failure = none ∨ ∃ bad error, paths[entries.length]? = some bad ∧
      nextEntry stat read dollar entries bad = .error error ∧ failure = some (.survey bad error)) := by
  obtain ⟨more, whole, leading, ending⟩ := account_spec stat read dollar [] paths
  rw [accounted, List.nil_append] at whole ending
  rw [List.nil_append] at leading
  obtain rfl : entries = more := whole
  have count : (entries.map Entry.path).length = entries.length := List.length_map _
  rcases ending with ⟨good, rfl⟩ | ⟨bad, rest, error, rfl, refused, failed⟩
  · rw [List.take_of_length_le (Nat.le_of_eq count)]
    exact ⟨rfl, leading, .inl ⟨count.symm, good⟩⟩
  · rw [List.take_left' count]
    refine ⟨rfl, leading, .inr ⟨bad, error, ?_, refused, failed⟩⟩
    rw [List.getElem?_append_right (Nat.le_of_eq count), count, Nat.sub_self]
    rfl

theorem prefix_account (stat : String → Except StatError Stat) (read : String → Except ReadError (List UInt8))
    (dollar : Bool) (entries : List Entry) (paths : List String) :
    entries <+: (account stat read dollar entries paths).1 := by
  obtain ⟨more, whole, -, -⟩ := account_spec stat read dollar entries paths
  exact ⟨more, whole.symm⟩

theorem few_words_next {limit : Nat} {rest : List String}
    (few : ((account stat read dollar entries (path :: rest)).1.flatMap Entry.words).eraseDups.length < limit)
    {entry : Entry} (said : nextEntry stat read dollar entries path = .ok entry) :
    ((entries ++ [entry]).flatMap Entry.words).eraseDups.length < limit := by
  rw [account_cons_ok said] at few
  obtain ⟨more, whole⟩ := prefix_account stat read dollar (entries ++ [entry]) rest
  rw [← whole, List.flatMap_append] at few
  exact Nat.lt_of_le_of_lt (length_eraseDups_le_append _ _) few

/-- Entries about paths that lead to the files they say. Files are opened in the order in which they are reached, each
once, and are numbered in that order; a path that repeats gives the path that has opened the file. -/
structure Orderly (stat : String → Except StatError Stat) (entries : List Entry) : Prop where
  reaches : ∀ entry ∈ entries, Reaches stat entry.path entry.identity
  opened : entries.filterMap Entry.opened? = (identities stat (entries.map Entry.path)).zipIdx
  opening : ∀ identity first, entries.find? (·.identity = identity) = some first →
    ∃ uid size words, first = .opens first.path identity uid size words
  repeated : ∀ path identity first, .repeats path identity first ∈ entries →
    ∃ uid size words, .opens first identity uid size words ∈ entries

theorem found_identity {identity : Identity} {first : Entry}
    (known : entries.find? (·.identity = identity) = some first) : first ∈ entries ∧ first.identity = identity :=
  ⟨List.mem_of_find?_eq_some known, by simpa using List.find?_some known⟩

namespace Orderly

theorem nil (stat : String → Except StatError Stat) : Orderly stat [] where
  reaches entry member := by cases member
  opened := rfl
  opening identity first found := by cases found
  repeated path identity first member := by cases member

theorem not_reached (orderly : Orderly stat entries) {identity : Identity}
    (new : entries.find? (·.identity = identity) = none) :
    ∀ other ∈ entries.map Entry.path, ¬Reaches stat other identity := by
  intro other member arrives
  obtain ⟨entry, among, rfl⟩ := List.mem_map.mp member
  have same := Option.some.inj ((orderly.reaches entry among).symm.trans arrives)
  exact List.find?_eq_none.mp new entry among (decide_eq_true same)

theorem length_opened (orderly : Orderly stat entries) :
    (entries.filterMap Entry.opened?).length = (identities stat (entries.map Entry.path)).length := by
  rw [orderly.opened, List.length_zipIdx]

theorem concat_repeats (orderly : Orderly stat entries) {found : Stat} {first : Entry}
    (leads : fileOf? stat path = some found) (known : entries.find? (·.identity = found.identity) = some first) :
    Orderly stat (entries ++ [.repeats path found.identity first.path]) := by
  obtain ⟨member, same⟩ := found_identity known
  have before := orderly.reaches first member
  rw [same] at before
  refine ⟨?_, ?_, ?_, ?_⟩
  · intro entry among
    rcases List.mem_append.mp among with old | last
    · exact orderly.reaches entry old
    · rw [List.mem_singleton.mp last]
      exact .of_leads leads
  · have kept := identities_concat_known (List.mem_map_of_mem member) before (.of_leads leads)
    rw [List.filterMap_append, orderly.opened, List.map_append, List.map_singleton]
    show _ ++ [] = (identities stat (_ ++ [path])).zipIdx
    rw [kept, List.append_nil]
  · intro identity other met
    rw [List.find?_append] at met
    cases earlier : entries.find? (·.identity = identity) with
    | some entry =>
      rw [earlier, Option.some_or, Option.some.injEq] at met
      exact met ▸ orderly.opening identity entry earlier
    | none =>
      rw [earlier, Option.none_or] at met
      obtain ⟨last, rfl⟩ := found_identity met
      rw [List.mem_singleton.mp last] at earlier
      cases earlier.symm.trans known
  · intro other identity origin among
    rcases List.mem_append.mp among with old | last
    · obtain ⟨uid, size, words, opens⟩ := orderly.repeated other identity origin old
      exact ⟨uid, size, words, List.mem_append_left _ opens⟩
    · cases List.mem_singleton.mp last
      obtain ⟨uid, size, words, opens⟩ := orderly.opening found.identity first known
      exact ⟨uid, size, words, List.mem_append_left _ (opens ▸ member)⟩

theorem concat_opens (orderly : Orderly stat entries) {found : Stat} (leads : fileOf? stat path = some found)
    (new : entries.find? (·.identity = found.identity) = none) (words : List String) :
    Orderly stat (entries ++
      [.opens path found.identity (entries.filterMap Entry.opened?).length found.size words]) := by
  refine ⟨?_, ?_, ?_, ?_⟩
  · intro entry among
    rcases List.mem_append.mp among with old | last
    · exact orderly.reaches entry old
    · rw [List.mem_singleton.mp last]
      exact .of_leads leads
  · have further := identities_concat_new (orderly.not_reached new) (.of_leads leads)
    rw [List.filterMap_append, orderly.length_opened, orderly.opened, List.map_append, List.map_singleton]
    show _ ++ [(found.identity, _)] = (identities stat (_ ++ [path])).zipIdx
    rw [further, List.zipIdx_append, List.zipIdx_singleton, Nat.zero_add]
  · intro identity other met
    rw [List.find?_append] at met
    cases earlier : entries.find? (·.identity = identity) with
    | some entry =>
      rw [earlier, Option.some_or, Option.some.injEq] at met
      exact met ▸ orderly.opening identity entry earlier
    | none =>
      rw [earlier, Option.none_or] at met
      obtain ⟨last, rfl⟩ := found_identity met
      rw [List.mem_singleton.mp last]
      exact ⟨_, _, _, rfl⟩
  · intro other identity origin among
    rcases List.mem_append.mp among with old | last
    · obtain ⟨uid, size, words, opens⟩ := orderly.repeated other identity origin old
      exact ⟨uid, size, words, List.mem_append_left _ opens⟩
    · cases List.mem_singleton.mp last

theorem concat (orderly : Orderly stat entries) {entry : Entry}
    (said : nextEntry stat read dollar entries path = .ok entry) : Orderly stat (entries ++ [entry]) := by
  have warrants := warrants_nextEntry stat read dollar entries path
  rw [said] at warrants
  cases warrants with
  | repeats leads known => exact orderly.concat_repeats leads known
  | opens leads new granted => exact orderly.concat_opens leads new _

theorem account (orderly : Orderly stat entries) (paths : List String) :
    Orderly stat (account stat read dollar entries paths).1 := by
  induction paths generalizing entries with
  | nil => exact orderly
  | cons path rest ih =>
    cases said : nextEntry stat read dollar entries path with
    | error error =>
      rw [account_cons_error said]
      exact orderly
    | ok entry =>
      rw [account_cons_ok said]
      exact ih (orderly.concat said)

end Orderly
end Canon.Run
