import Canon.Handle
import Canon.File.Catalogue
import Canon.Proofs.File.Discovery
import Std.Data.HashMap.Lemmas

/-!
How a path memory and an identity index of one kind follow from the questions asked. A path is remembered as found
exactly if a question about it found something, and identities are numbered in the order of their discovery.
-/
namespace Canon

namespace File
variable {kind : Handle.Kind}

/-- A memory of paths and an index of identities that say what a log of questions says. -/
structure Indexes (sought : Sought) (log : List Probe) (known : String → Resolution (Handle kind))
    (ids : Std.HashMap Identity (Handle kind)) : Prop where
  asked : ∀ probe ∈ log, probe.sought = sought → known probe.path ≠ .unknown
  once : ((log.filter (·.sought = sought)).map Probe.path).Nodup
  numbered : ∀ identity id, ids[identity]? = some id ↔
    (discoveries sought log)[id.index]?.map Finding.identity = some identity
  found : ∀ path id, known path = .found id ↔
    ∃ finding ∈ findings sought log, finding.path = path ∧ ids[finding.identity]? = some id

namespace Indexes
variable {sought : Sought} {log : List Probe} {known after : String → Resolution (Handle kind)}
  {ids : Std.HashMap Identity (Handle kind)} {path : String}

theorem start (sought : Sought) (known : String → Resolution (Handle kind)) (blank : ∀ path, known path = .unknown) :
    Indexes sought [] known ∅ where
  asked := by simp
  once := by simp
  numbered identity id := by simp [discoveries, findings]
  found path id := by simp [findings, blank]

theorem other_probe (indexes : Indexes sought log known ids) {probe : Probe} (other : probe.sought ≠ sought) :
    Indexes sought (log ++ [probe]) known ids where
  asked := by
    intro earlier member kind
    rcases List.mem_append.mp member with old | last
    · exact indexes.asked earlier old kind
    · rw [List.mem_singleton.mp last] at kind
      exact absurd kind other
  once := by
    rw [List.filter_append]
    simpa [other] using indexes.once
  numbered := by
    rw [discoveries_concat_none (Probe.finding?_other other)]
    exact indexes.numbered
  found := by
    rw [findings_concat_none (Probe.finding?_other other)]
    exact indexes.found

theorem not_asked (indexes : Indexes sought log known ids) (unknown : known path = .unknown) :
    ∀ probe ∈ log, probe.sought = sought → probe.path ≠ path := by
  intro probe member kind same
  exact indexes.asked probe member kind (same ▸ unknown)

theorem not_found (new : ∀ probe ∈ log, probe.sought = sought → probe.path ≠ path) :
    ∀ finding ∈ findings sought log, finding.path ≠ path := by
  intro finding member
  obtain ⟨probe, logged, found⟩ := mem_findings.mp member
  obtain ⟨kind, same, -⟩ := Probe.finding?_eq_some found
  exact same ▸ new probe logged kind

theorem miss (indexes : Indexes sought log known ids) (unknown : known path = .unknown)
    (noted : ∀ other, after other = if other = path then .missing else known other) :
    Indexes sought log after ids where
  asked := by
    intro probe member kind
    rw [noted, if_neg (indexes.not_asked unknown probe member kind)]
    exact indexes.asked probe member kind
  once := indexes.once
  numbered := indexes.numbered
  found := by
    intro other id
    rw [noted]
    by_cases same : other = path
    · rw [if_pos same]
      constructor
      · intro absurdity
        cases absurdity
      · intro given
        rcases given with ⟨finding, member, here, -⟩
        exact absurd (here.trans same) (not_found (indexes.not_asked unknown) finding member)
    · rw [if_neg same]
      exact indexes.found other id

theorem once_concat (indexes : Indexes sought log known ids) (answer : Except StatError Stat)
    (new : ∀ probe ∈ log, probe.sought = sought → probe.path ≠ path) :
    (((log ++ [Probe.mk sought path answer]).filter (·.sought = sought)).map Probe.path).Nodup := by
  rw [List.filter_append, List.map_append, List.nodup_append]
  refine ⟨indexes.once, by simp, ?_⟩
  intro old member last single same
  obtain ⟨probe, filtered, rfl⟩ := List.mem_map.mp member
  obtain ⟨logged, kind⟩ := List.mem_filter.mp filtered
  simp only [decide_true, List.filter_cons_of_pos, List.filter_nil, List.map_cons, List.map_nil,
    List.mem_singleton] at single
  exact new probe logged (of_decide_eq_true kind) (same.trans single)

theorem asked_concat (indexes : Indexes sought log known ids) (answer : Except StatError Stat)
    (here : after path ≠ .unknown) (elsewhere : ∀ other ≠ path, after other = known other) :
    ∀ probe ∈ log ++ [⟨sought, path, answer⟩], probe.sought = sought → after probe.path ≠ .unknown := by
  intro probe member kind
  by_cases same : probe.path = path
  · rw [same]
    exact here
  · rw [elsewhere _ same]
    rcases List.mem_append.mp member with old | last
    · exact indexes.asked probe old kind
    · exact absurd (congrArg Probe.path (List.mem_singleton.mp last)) same

theorem refuse (indexes : Indexes sought log known ids) {answer : Except StatError Stat}
    (useless : sought.usable? answer = none) (missing : known path = .missing)
    (new : ∀ probe ∈ log, probe.sought = sought → probe.path ≠ path) :
    Indexes sought (log ++ [⟨sought, path, answer⟩]) known ids := by
  have nothing : Probe.finding? sought ⟨sought, path, answer⟩ = none := by
    rw [Probe.finding?_same, useless]
    rfl
  constructor
  · exact indexes.asked_concat answer (by simp [missing]) (fun _ _ => rfl)
  · exact indexes.once_concat answer new
  · rw [discoveries_concat_none nothing]
    exact indexes.numbered
  · rw [findings_concat_none nothing]
    exact indexes.found

theorem exists_id (indexes : Indexes sought log known ids) (few : log.length < 4294967296) {finding : Finding}
    (found : finding ∈ findings sought log) : ∃ id, ids[finding.identity]? = some id := by
  obtain ⟨i, discovery, read, same⟩ := exists_discovery found
  have bound : i < 4294967296 := by
    have inside := (List.getElem?_eq_some_iff.mp read).choose
    have short := length_discoveries_le sought log
    omega
  refine ⟨Handle.atIndex i, ?_⟩
  rw [indexes.numbered, Handle.index_atIndex bound, read, Option.map_some, same]

theorem mem_identities_iff (indexes : Indexes sought log known ids) (few : log.length < 4294967296)
    (identity : Identity) :
    identity ∈ (discoveries sought log).map Finding.identity ↔ ids[identity]? ≠ none := by
  constructor
  · intro member
    obtain ⟨discovery, discovered, rfl⟩ := List.mem_map.mp member
    obtain ⟨id, numbered⟩ := indexes.exists_id few (mem_findings_of_discovery discovered)
    rw [numbered]
    exact Option.some_ne_none id
  · intro present
    obtain ⟨id, numbered⟩ := Option.ne_none_iff_exists'.mp present
    obtain ⟨discovery, read, same⟩ := Option.map_eq_some_iff.mp ((indexes.numbered identity id).mp numbered)
    exact List.mem_map.mpr ⟨discovery, List.mem_of_getElem? read, same⟩

theorem found_concat (indexes : Indexes sought log known ids) {later : Std.HashMap Identity (Handle kind)}
    {answer : Except StatError Stat} {stat : Stat} {id : Handle kind} (usable : sought.usable? answer = some stat)
    (new : ∀ probe ∈ log, probe.sought = sought → probe.path ≠ path)
    (kept : ∀ finding ∈ findings sought log, later[finding.identity]? = ids[finding.identity]?)
    (entered : later[stat.identity]? = some id)
    (noted : ∀ other, after other = if other = path then .found id else known other) (other : String)
    (number : Handle kind) :
    after other = .found number ↔ ∃ finding ∈ findings sought (log ++ [⟨sought, path, answer⟩]),
      finding.path = other ∧ later[finding.identity]? = some number := by
  have finding : Probe.finding? sought ⟨sought, path, answer⟩ = some ⟨path, stat⟩ := by
    rw [Probe.finding?_same, usable]
    rfl
  rw [noted, findings_concat_some finding]
  by_cases same : other = path
  · subst other
    rw [if_pos rfl, Resolution.found.injEq]
    constructor
    · intro same
      subst same
      exact ⟨⟨path, stat⟩, by simp, rfl, entered⟩
    · intro given
      rcases given with ⟨other, member, here, numbered⟩
      rcases List.mem_append.mp member with early | last
      · exact absurd here (not_found new other early)
      · rw [List.mem_singleton.mp last] at numbered
        exact Option.some.inj (entered.symm.trans numbered)
  · rw [if_neg same, indexes.found]
    constructor
    · intro given
      rcases given with ⟨other, member, here, numbered⟩
      exact ⟨other, List.mem_append_left _ member, here, (kept other member).trans numbered⟩
    · intro given
      rcases given with ⟨other, member, here, numbered⟩
      rcases List.mem_append.mp member with early | last
      · exact ⟨other, early, here, (kept other early).symm.trans numbered⟩
      · rw [List.mem_singleton.mp last] at here
        exact absurd here.symm same

theorem asked_noted (indexes : Indexes sought log known ids) (answer : Except StatError Stat) {id : Handle kind}
    (noted : ∀ other, after other = if other = path then .found id else known other) :
    ∀ probe ∈ log ++ [⟨sought, path, answer⟩], probe.sought = sought → after probe.path ≠ .unknown := by
  apply indexes.asked_concat answer
  · simp [noted]
  · intro other different
    rw [noted, if_neg different]

theorem rediscover (indexes : Indexes sought log known ids) (few : log.length < 4294967296)
    {answer : Except StatError Stat} {stat : Stat} {id : Handle kind} (usable : sought.usable? answer = some stat)
    (old : ids[stat.identity]? = some id) (new : ∀ probe ∈ log, probe.sought = sought → probe.path ≠ path)
    (noted : ∀ other, after other = if other = path then .found id else known other) :
    discoveries sought (log ++ [⟨sought, path, answer⟩]) = discoveries sought log ∧
      Indexes sought (log ++ [⟨sought, path, answer⟩]) after ids := by
  have finding : Probe.finding? sought ⟨sought, path, answer⟩ = some ⟨path, stat⟩ := by
    rw [Probe.finding?_same, usable]
    rfl
  have discovered : (Finding.mk path stat).identity ∈ (discoveries sought log).map Finding.identity := by
    rw [indexes.mem_identities_iff few]
    exact fun absent => Option.some_ne_none id (old.symm.trans absent)
  have unchanged : discoveries sought (log ++ [⟨sought, path, answer⟩]) = discoveries sought log := by
    rw [discoveries_concat_some finding, discover_known discovered]
  refine ⟨unchanged, indexes.asked_noted answer noted, indexes.once_concat answer new, ?_,
    indexes.found_concat usable new (fun _ _ => rfl) old noted⟩
  rw [unchanged]
  exact indexes.numbered

theorem index_lt (indexes : Indexes sought log known ids) {identity : Identity} {id : Handle kind}
    (numbered : ids[identity]? = some id) : id.index < (discoveries sought log).length := by
  obtain ⟨discovery, read, -⟩ := Option.map_eq_some_iff.mp ((indexes.numbered identity id).mp numbered)
  exact (List.getElem?_eq_some_iff.mp read).choose

theorem numbered_concat (indexes : Indexes sought log known ids) (few : log.length < 4294967296) {stat : Stat}
    (path : String) (absent : ids[stat.identity]? = none) (identity : Identity) (id : Handle kind) :
    (ids.insert stat.identity (.atIndex (discoveries sought log).length))[identity]? = some id ↔
      (discoveries sought log ++ [⟨path, stat⟩])[id.index]?.map Finding.identity = some identity := by
  have next : (Handle.atIndex (discoveries sought log).length : Handle kind).index = (discoveries sought log).length :=
    Handle.index_atIndex (by have short := length_discoveries_le sought log; omega)
  have early (before : id.index < (discoveries sought log).length) :
      (discoveries sought log ++ [⟨path, stat⟩])[id.index]?.map Finding.identity = some identity ↔
        ids[identity]? = some id := by
    rw [List.getElem?_append_left before, ← indexes.numbered]
  have last (here : id.index = (discoveries sought log).length) :
      (discoveries sought log ++ [⟨path, stat⟩])[id.index]?.map Finding.identity = some stat.identity := by
    rw [here, List.getElem?_concat_length, Option.map_some]
    rfl
  have beyond (behind : (discoveries sought log).length < id.index) :
      (discoveries sought log ++ [⟨path, stat⟩])[id.index]? = none :=
    List.getElem?_eq_none (by simp only [List.length_append, List.length_singleton]; omega)
  by_cases same : stat.identity = identity
  · subst identity
    rw [Std.HashMap.getElem?_insert_self, Option.some.injEq]
    constructor
    · intro same
      subst same
      exact last next
    · intro read
      rcases Nat.lt_trichotomy id.index (discoveries sought log).length with before | here | behind
      · rw [early before, absent] at read
        cases read
      · exact Handle.ext_index (next.trans here.symm)
      · rw [beyond behind] at read
        cases read
  · rw [Std.HashMap.getElem?_insert, if_neg (by simpa using same)]
    rcases Nat.lt_trichotomy id.index (discoveries sought log).length with before | here | behind
    · exact (early before).symm
    · refine iff_of_false ?_ ?_
      · intro numbered
        have inside := indexes.index_lt numbered
        omega
      · rw [last here, Option.some.injEq]
        exact same
    · refine iff_of_false ?_ ?_
      · intro numbered
        have inside := indexes.index_lt numbered
        omega
      · rw [beyond behind]
        exact Option.some_ne_none _ ∘ Eq.symm

theorem discover (indexes : Indexes sought log known ids) (few : log.length < 4294967295)
    {answer : Except StatError Stat} {stat : Stat} (usable : sought.usable? answer = some stat)
    (absent : ids[stat.identity]? = none) (new : ∀ probe ∈ log, probe.sought = sought → probe.path ≠ path)
    (noted : ∀ other, after other =
      if other = path then .found (.atIndex (discoveries sought log).length) else known other) :
    discoveries sought (log ++ [⟨sought, path, answer⟩]) = discoveries sought log ++ [⟨path, stat⟩] ∧
      Indexes sought (log ++ [⟨sought, path, answer⟩]) after
        (ids.insert stat.identity (.atIndex (discoveries sought log).length)) := by
  have finding : Probe.finding? sought ⟨sought, path, answer⟩ = some ⟨path, stat⟩ := by
    rw [Probe.finding?_same, usable]
    rfl
  have undiscovered : (Finding.mk path stat).identity ∉ (discoveries sought log).map Finding.identity := by
    rw [indexes.mem_identities_iff (by omega)]
    exact not_not_intro absent
  have grown : discoveries sought (log ++ [⟨sought, path, answer⟩]) = discoveries sought log ++ [⟨path, stat⟩] := by
    rw [discoveries_concat_some finding, discover_new undiscovered]
  have kept : ∀ earlier ∈ findings sought log,
      (ids.insert stat.identity (.atIndex (discoveries sought log).length))[earlier.identity]? =
        ids[earlier.identity]? := by
    intro earlier member
    obtain ⟨id, numbered⟩ := indexes.exists_id (by omega) member
    have different : stat.identity ≠ earlier.identity := by
      intro same
      rw [← same, absent] at numbered
      cases numbered
    rw [Std.HashMap.getElem?_insert, if_neg (by simpa using different)]
  refine ⟨grown, indexes.asked_noted answer noted, indexes.once_concat answer new, ?_,
    indexes.found_concat usable new kept (by simp) noted⟩
  rw [grown]
  exact indexes.numbered_concat (by omega) path absent

end Indexes
end File
end Canon
