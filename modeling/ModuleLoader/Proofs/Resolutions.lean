import Mathlib.Logic.Function.Iterate
import Mathlib.Logic.Relation
import ModuleLoader.Proofs.Forwardings
/-!
What the search for an export comes to. Carried out with a list of chores in place of the recursion it
comes to an end; an origin that it finds lies at the end of a path from one name to the next; where it
finds nothing, no path leads to an origin or to an exported import; and where no path comes back to
itself, it finds what a plain recursion finds, which remembers nothing.
-/

namespace ModuleLoader
set_option autoImplicit false

namespace Batch

variable {batch : Batch}

/-- A name of a record leads on to a name of another one: by its explicit export, or else through a
star, unless the name is reserved. -/
inductive Follows (batch : Batch) : Ref .record × String → Ref .record × String → Prop where
  | forward {record target : Ref .record} {name remote : String} {unit : LinkUnit} :
      batch.unitOf record = some unit →
        unit.exportStep name = .ok (some (.forward target remote)) →
          Follows batch (record, name) (target, remote)
  | require {record target : Ref .record} {name remote source : String} {unit : LinkUnit} :
      batch.unitOf record = some unit →
        unit.exportStep name = .ok (some (.require target remote source)) →
          Follows batch (record, name) (target, remote)
  | star {record target : Ref .record} {name : String} {unit : LinkUnit}
      {targets : List (Ref .record)} : batch.unitOf record = some unit →
        unit.exportStep name = .ok none → name ≠ unit.defaultExport →
          unit.starRecords = .ok targets → target ∈ targets →
            Follows batch (record, name) (target, name)

/-- The names that are looked at next are those that a name leads on to. -/
theorem follows_of_onward {record : Ref .record} {name : String} {unit : LinkUnit}
    (hunit : batch.unitOf record = some unit) {quest : Quest} (hposes : Poses unit name quest)
    {next : Ref .record × String} (hnext : next ∈ quest.onward name) :
    batch.Follows (record, name) next := by
  cases hposes with
  | failed | found | reserved | starless => cases hnext
  | forward hstep =>
    cases List.mem_singleton.1 hnext
    exact .forward hunit hstep
  | require hstep =>
    cases List.mem_singleton.1 hnext
    exact .require hunit hstep
  | stars hstep hname htargets =>
    obtain ⟨target, hmem, rfl⟩ := List.mem_map.1 hnext
    exact .star hunit hstep hname htargets (List.mem_reverse.1 hmem)

/-- A name of a record has its origin right there: a slot of a record outside the batch, or what the
explicit export of a record of the batch says. -/
inductive Holds (batch : Batch) : Ref .record × String → Origin → Prop where
  | outside {record : Ref .record} {name : String} {exports : Table (Ref .slot)}
      {slot : Ref .slot} : batch.unitOf record = none → batch.outside record = .ok exports →
        exports.get? name = some slot → Holds batch (record, name) (.slot slot)
  | found {record : Ref .record} {name : String} {unit : LinkUnit} {origin : Origin} :
      batch.unitOf record = some unit → unit.exportStep name = .ok (some (.found origin)) →
        Holds batch (record, name) origin

/-- The explicit export of a name of a record is an import of the record. -/
def Reexports (batch : Batch) (pair : Ref .record × String) : Prop :=
  ∃ unit target remote source, batch.unitOf pair.1 = some unit ∧
    unit.exportStep pair.2 = .ok (some (.require target remote source))

/-- There is a path from one name of a record to another one. -/
abbrev Path (batch : Batch) : Ref .record × String → Ref .record × String → Prop :=
  Relation.ReflTransGen batch.Follows

/-- No path from the pair comes to a pair that leads back to itself. -/
def Acyclic (batch : Batch) (pair : Ref .record × String) : Prop :=
  ∀ reached, batch.Path pair reached → ¬ Relation.TransGen batch.Follows reached reached

theorem Acyclic.next {pair next : Ref .record × String} (h : batch.Acyclic pair)
    (hnext : batch.Follows pair next) : batch.Acyclic next :=
  fun reached hpath => h reached (.head hnext hpath)

/-- What a name leads to lies at the end of a path. -/
theorem Leads.path {record : Ref .record} {name : String} {origin : Origin}
    (h : batch.Leads record name origin) :
    ∃ reached, batch.Path (record, name) reached ∧ batch.Holds reached origin := by
  induction h with
  | outside hunit hexports hslot => exact ⟨_, .refl, .outside hunit hexports hslot⟩
  | found hunit hstep => exact ⟨_, .refl, .found hunit hstep⟩
  | forward hunit hstep _ ih =>
    obtain ⟨reached, hpath, hholds⟩ := ih
    exact ⟨reached, .head (.forward hunit hstep) hpath, hholds⟩
  | require hunit hstep _ ih =>
    obtain ⟨reached, hpath, hholds⟩ := ih
    exact ⟨reached, .head (.require hunit hstep) hpath, hholds⟩
  | star hunit hstep hname htargets hmem _ ih =>
    obtain ⟨reached, hpath, hholds⟩ := ih
    exact ⟨reached, .head (.star hunit hstep hname htargets hmem) hpath, hholds⟩

/-- A pair of a dead set leads on inside the set. -/
theorem Dead.next {pairs : Ref .record × String → Prop} (hdead : batch.Dead pairs)
    {pair next : Ref .record × String} (hpair : pairs pair) (hnext : batch.Follows pair next) :
    pairs next := by
  cases hnext with
  | forward hunit hstep =>
    rcases (hdead _ _ hpair).of_some hunit with ⟨_, _, hstep', hmem⟩ | ⟨hstep', -⟩
    · rw [hstep] at hstep'
      cases hstep'
      exact hmem
    · rw [hstep] at hstep'
      cases hstep'
  | require hunit hstep =>
    rcases (hdead _ _ hpair).of_some hunit with ⟨_, _, hstep', -⟩ | ⟨hstep', -⟩ <;>
      rw [hstep] at hstep' <;> cases hstep'
  | star hunit hstep hname htargets hmem =>
    rcases (hdead _ _ hpair).of_some hunit with ⟨_, _, hstep', -⟩ | ⟨-, hrest⟩
    · rw [hstep] at hstep'
      cases hstep'
    · obtain ⟨_, htargets', hpairs⟩ := hrest.resolve_left hname
      rw [htargets] at htargets'
      cases htargets'
      exact hpairs _ hmem

theorem Dead.path {pairs : Ref .record × String → Prop} (hdead : batch.Dead pairs)
    {pair reached : Ref .record × String} (hpair : pairs pair) (hpath : batch.Path pair reached) :
    pairs reached := by
  induction hpath with
  | refl => exact hpair
  | tail _ hnext ih => exact hdead.next ih hnext

/-- No pair of a dead set has an origin, and none is an exported import. -/
theorem Dead.empty {pairs : Ref .record × String → Prop} (hdead : batch.Dead pairs)
    {pair : Ref .record × String} (hpair : pairs pair) :
    (∀ origin, ¬ batch.Holds pair origin) ∧ ¬ batch.Reexports pair := by
  have hend := hdead pair.1 pair.2 hpair
  constructor
  · intro origin hholds
    cases hholds with
    | outside hunit hexports hslot =>
      obtain ⟨exports, hexports', hnone⟩ := hend.of_none hunit
      rw [hexports] at hexports'
      cases hexports'
      rw [hslot] at hnone
      cases hnone
    | found hunit hstep =>
      rcases hend.of_some hunit with ⟨_, _, hstep', -⟩ | ⟨hstep', -⟩ <;>
        rw [hstep] at hstep' <;> cases hstep'
  · rintro ⟨unit, target, remote, source, hunit, hstep⟩
    rcases hend.of_some hunit with ⟨_, _, hstep', -⟩ | ⟨hstep', -⟩ <;>
      rw [hstep] at hstep' <;> cases hstep'

/-- A dead end in a dead set is lost. -/
theorem DeadEnd.lost {record : Ref .record} {name : String}
    (h : batch.DeadEnd batch.Lost record name) : batch.Lost (record, name) := by
  refine ⟨fun pair => batch.Lost pair ∨ pair = (record, name), fun other own hpair => ?_, .inr rfl⟩
  rcases hpair with hlost | heq
  · exact (dead_lost other own hlost).mono fun _ => .inl
  · cases heq
    exact h.mono fun _ => .inl

/-! A search that works off a list of chores. -/

/-- Something that a search has still to do. -/
inductive Chore where
  | look (record : Ref .record) (name : String)
  /-- Fails for want of what the chores before it were to find. -/
  | fail (failure : Failure)

/-- How far a search has come. -/
inductive Searching where
  | busy (visited : Visited) (chores : List Chore)
  | over (answer : Except Failure (Option Origin))

/-- Does the first chore of a search. -/
def Searching.next (batch : Batch) : Searching → Searching
  | .over answer => .over answer
  | .busy _ [] => .over (.ok none)
  | .busy _ (.fail failure :: _) => .over (.error failure)
  | .busy visited (.look record name :: rest) =>
    match batch.unitOf record with
    | none =>
      match batch.outside record with
      | .error failure => .over (.error failure)
      | .ok exports =>
        match exports.get? name with
        | some slot => .over (.ok (some (.slot slot)))
        | none => .busy visited rest
    | some unit =>
      if visited.contains (record, name) then .busy visited rest
      else
        let visited := (record, name) :: visited
        match unit.exportStep name with
        | .error failure => .over (.error failure)
        | .ok (some (.found origin)) => .over (.ok (some origin))
        | .ok (some (.forward target remote)) => .busy visited (.look target remote :: rest)
        | .ok (some (.require target remote source)) =>
          .busy visited (.look target remote ::
            .fail (.link unit.key (.missingExport source remote)) :: rest)
        | .ok none =>
          if name = unit.defaultExport then .busy visited rest
          else
            match unit.starRecords with
            | .error failure => .over (.error failure)
            | .ok targets => .busy visited (targets.reverse.map (.look · name) ++ rest)

/-- A search with chores comes to another state. -/
abbrev Searching.Comes (batch : Batch) : Searching → Searching → Prop :=
  Relation.ReflTransGen fun state other => state.next batch = other

/-- How a search goes on with other chores after it found something or nothing. -/
def Searching.goOn (found : Found) (rest : List Chore) : Searching :=
  match found with
  | (visited, .ok none) => .busy visited rest
  | (_, answer) => .over answer

theorem Searching.goOn_nothing {found : Found} (h : found.2 = .ok none) (rest : List Chore) :
    Searching.goOn found rest = .busy found.1 rest := by
  obtain ⟨visited, result⟩ := found
  cases h
  rfl

theorem Searching.goOn_over {found : Found} (h : found.2 ≠ .ok none) (rest others : List Chore) :
    Searching.goOn found rest = Searching.goOn found others := by
  rcases found with ⟨visited, failure | (_ | origin)⟩
  · rfl
  · exact absurd rfl h
  · rfl

/-- The chores of what is left to do for a name. -/
def Searching.takeUp (visited : Visited) (name : String) (rest : List Chore) : Quest → Searching
  | .answer result => .goOn (visited, result) rest
  | .follow target remote missing =>
    .busy visited (.look target remote :: (missing.toList.map .fail ++ rest))
  | .spread targets => .busy visited (targets.map (.look · name) ++ rest)

section

variable {record : Ref .record} {name : String} {unit : LinkUnit} {visited : Visited} (rest : List Chore)

theorem Searching.next_outside (hunit : batch.unitOf record = none) :
    Searching.next batch (.busy visited (.look record name :: rest)) =
      .goOn (visited, (batch.outside record).map fun exports => (exports.get? name).map .slot) rest := by
  rw [Searching.next, hunit]
  cases batch.outside record with
  | error failure => rfl
  | ok exports =>
    dsimp only [Except.map]
    cases exports.get? name <;> rfl

theorem Searching.next_seen (hunit : batch.unitOf record = some unit) (hseen : (record, name) ∈ visited) :
    Searching.next batch (.busy visited (.look record name :: rest)) = .busy visited rest := by
  rw [Searching.next, hunit]
  exact if_pos (List.contains_iff_mem.2 hseen)

theorem Searching.next_new (hunit : batch.unitOf record = some unit) (hnew : (record, name) ∉ visited)
    {quest : Quest} (hposes : Poses unit name quest) :
    Searching.next batch (.busy visited (.look record name :: rest)) =
      .takeUp ((record, name) :: visited) name rest quest := by
  rw [Searching.next, hunit]
  refine (if_neg fun hmem => hnew (List.contains_iff_mem.1 hmem)).trans ?_
  cases hposes with
  | failed hstep | found hstep | forward hstep | require hstep => rw [hstep]; rfl
  | reserved hstep hname =>
    rw [hstep]
    exact if_pos hname
  | starless hstep hname htargets | stars hstep hname htargets =>
    rw [hstep]
    refine (if_neg hname).trans ?_
    rw [htargets]
    rfl

/-- A chore that fails does so where an origin must not be missing. -/
theorem Searching.comes_demand (missing : Option Failure) (found : Found) : Searching.Comes batch
    (.goOn found (missing.toList.map .fail ++ rest)) (.goOn (found.1, demand missing found.2) rest) := by
  rcases found with ⟨after, failure | (_ | origin)⟩
  · exact .refl
  · cases missing with
    | none => exact .refl
    | some failure => exact .single rfl
  · exact .refl

end

theorem Searching.iterate_of_comes {state other : Searching} (h : Comes batch state other) :
    ∃ steps, (Searching.next batch)^[steps] state = other := by
  induction h with
  | refl => exact ⟨0, rfl⟩
  | tail _ hnext ih =>
    obtain ⟨steps, rfl⟩ := ih
    exact ⟨steps + 1, (Function.iterate_succ_apply' _ _ _).trans hnext⟩

/-- Chores that look for a name on several records do as the searches of these records do. -/
theorem firstFound_comes {search : Visited → Ref .record → Found} {name : String} {limit : Nat}
    {met : List (Ref .record × String)}
    (hgrows : ∀ visited record pair, pair ∈ visited → pair ∈ (search visited record).1)
    (hsearch : ∀ visited record rest, unmet met visited < limit → Searching.Comes batch
      (.busy visited (.look record name :: rest)) (Searching.goOn (search visited record) rest)) :
    ∀ {records : List (Ref .record)} {visited : Visited} (rest : List Chore),
      unmet met visited < limit → Searching.Comes batch
        (.busy visited (records.map (.look · name) ++ rest))
          (Searching.goOn (firstFound search visited records) rest)
  | [], _, _, _ => .refl
  | record :: others, visited, rest, hlimit => by
    have hfirst := hsearch visited record (others.map (.look · name) ++ rest) hlimit
    have hgrown := hgrows visited record
    by_cases hnone : (search visited record).2 = .ok none
    · rw [firstFound_none hnone]
      rw [Searching.goOn_nothing hnone] at hfirst
      exact hfirst.trans (firstFound_comes hgrows hsearch rest
        (Nat.lt_of_le_of_lt (unmet_le hgrown) hlimit))
    · rw [firstFound_stop hnone]
      rwa [Searching.goOn_over hnone _ rest] at hfirst

/-- A chore that looks for a name does as the search for the name does, which has enough steps. -/
theorem search_comes (hproper : batch.Proper) (start : String) :
    ∀ (fuel : Nat) (visited : Visited) (record : Ref .record) (name : String) (rest : List Chore),
      name ∈ batch.namesMet start → unmet (batch.pairsMet start) visited < fuel →
        Searching.Comes batch (.busy visited (.look record name :: rest))
          (Searching.goOn (batch.search fuel visited record name) rest)
  | 0, _, _, _, _, _, hfuel => absurd hfuel (Nat.not_lt_zero _)
  | fuel + 1, visited, record, name, rest, hname, hfuel => by
    refine .head rfl ?_
    cases hunit : batch.unitOf record with
    | none => rw [search_outside hunit, Searching.next_outside rest hunit]
    | some unit =>
      by_cases hseen : (record, name) ∈ visited
      · rw [search_seen hunit hseen, Searching.next_seen rest hunit hseen]
        exact .refl
      obtain ⟨quest, hposes⟩ := exists_poses unit name
      rw [search_new hunit hseen hposes, Searching.next_new rest hunit hseen hposes]
      have hrest := unmet_next hproper hunit hname hseen hfuel
      cases quest with
      | answer result => exact .refl
      | follow target remote missing =>
        exact (search_comes hproper start fuel _ target remote _
          (namesMet_of_onward hproper hunit hposes hname (List.mem_singleton_self _)) hrest).trans
            (Searching.comes_demand rest missing _)
      | spread targets =>
        exact firstFound_comes (fun before target pair => mem_search fuel target name)
          (fun before target more => search_comes hproper start fuel before target name more hname)
          rest hrest

/-- A search with a list of chores ends with the answer. -/
theorem originOf_ends (hproper : batch.Proper) (record : Ref .record) (name : String) :
    ∃ steps, (Searching.next batch)^[steps] (.busy [] [.look record name]) =
      .over (batch.originOf record name) := by
  refine Searching.iterate_of_comes ((search_comes hproper name (batch.bound + 1) [] record name []
    List.mem_cons_self (Nat.lt_succ_of_lt (unmet_lt_bound batch name []))).trans ?_)
  unfold originOf
  cases batch.search (batch.bound + 1) [] record name with
  | mk visited result =>
    rcases result with failure | (_ | origin)
    · exact .refl
    · exact .single rfl
    · exact .refl

/-! A recursion that does not remember what it has looked at. -/

/-- The first answer that is not empty. -/
def firstAnswer (answer : Ref .record → Except Failure (Option Origin)) :
    List (Ref .record) → Except Failure (Option Origin)
  | [] => .ok none
  | record :: rest =>
    match answer record with
    | .ok none => firstAnswer answer rest
    | found => found

/-- The origin of a name of a record: that of its explicit export, or else the first that one of the
stars finds, from the last declared to the first. It looks at most `depth` names deep. -/
def plainOrigin (batch : Batch) : Nat → Ref .record → String → Except Failure (Option Origin)
  | 0, _, _ => .ok none
  | depth + 1, record, name =>
    match batch.unitOf record with
    | none => (batch.outside record).map fun exports => (exports.get? name).map .slot
    | some unit =>
      match unit.exportStep name with
      | .error failure => .error failure
      | .ok (some (.found origin)) => .ok (some origin)
      | .ok (some (.forward target remote)) => batch.plainOrigin depth target remote
      | .ok (some (.require target remote source)) =>
        match batch.plainOrigin depth target remote with
        | .ok none => .error (.link unit.key (.missingExport source remote))
        | found => found
      | .ok none =>
        if name = unit.defaultExport then .ok none
        else
          match unit.starRecords with
          | .error failure => .error failure
          | .ok targets => firstAnswer (batch.plainOrigin depth · name) targets.reverse

/-- What a plain recursion makes of what is left to do for a name. -/
def Quest.plain (answer : Ref .record → String → Except Failure (Option Origin)) (name : String) :
    Quest → Except Failure (Option Origin)
  | .answer result => result
  | .follow target remote missing => demand missing (answer target remote)
  | .spread targets => firstAnswer (answer · name) targets

theorem Quest.plain_follow_nothing {answer : Ref .record → String → Except Failure (Option Origin)}
    {target : Ref .record} {remote name : String} {missing : Option Failure} :
    (Quest.follow target remote missing).plain answer name = .ok none ↔
      missing = none ∧ answer target remote = .ok none :=
  demand_eq_nothing

theorem plainOrigin_outside {record : Ref .record} (hunit : batch.unitOf record = none) (depth : Nat)
    (name : String) : batch.plainOrigin (depth + 1) record name =
      (batch.outside record).map fun exports => (exports.get? name).map .slot := by
  rw [plainOrigin, hunit]

theorem plainOrigin_poses {record : Ref .record} {name : String} {unit : LinkUnit}
    (hunit : batch.unitOf record = some unit) {quest : Quest} (hposes : Poses unit name quest)
    (depth : Nat) : batch.plainOrigin (depth + 1) record name =
      quest.plain (batch.plainOrigin depth) name := by
  rw [plainOrigin, hunit]
  dsimp only
  cases hposes with
  | failed hstep | found hstep => rw [hstep]; rfl
  | forward hstep =>
    rw [hstep]
    exact (demand_none _).symm
  | @require target remote source hstep =>
    rw [hstep]
    dsimp only [Quest.plain]
    rcases batch.plainOrigin depth target remote with failure | (_ | origin) <;> rfl
  | reserved hstep hname =>
    rw [hstep]
    exact if_pos hname
  | starless hstep hname htargets | stars hstep hname htargets =>
    rw [hstep]
    refine (if_neg hname).trans ?_
    rw [htargets]
    rfl

theorem firstAnswer_none {answer : Ref .record → Except Failure (Option Origin)} :
    ∀ {records : List (Ref .record)}, (∀ record ∈ records, answer record = .ok none) →
      firstAnswer answer records = .ok none
  | [], _ => rfl
  | record :: rest, h => by
    rw [firstAnswer, h record List.mem_cons_self]
    exact firstAnswer_none fun other hmem => h other (List.mem_cons_of_mem _ hmem)

theorem firstAnswer_past {answer : Ref .record → Except Failure (Option Origin)} {record : Ref .record}
    (h : answer record = .ok none) (rest : List (Ref .record)) :
    firstAnswer answer (record :: rest) = firstAnswer answer rest := by
  rw [firstAnswer, h]

theorem firstAnswer_stop {answer : Ref .record → Except Failure (Option Origin)} {record : Ref .record}
    (h : answer record ≠ .ok none) (rest : List (Ref .record)) :
    firstAnswer answer (record :: rest) = answer record := by
  rw [firstAnswer]
  rcases hanswer : answer record with failure | (_ | origin)
  · rfl
  · exact absurd hanswer h
  · rfl

/-- A plain recursion finds nothing in a dead set. -/
theorem Lost.plainOrigin : ∀ (depth : Nat) {record : Ref .record} {name : String},
    batch.Lost (record, name) → batch.plainOrigin depth record name = .ok none
  | 0, _, _, _ => rfl
  | depth + 1, record, name, h => by
    have hend := dead_lost record name h
    cases hunit : batch.unitOf record with
    | none =>
      obtain ⟨exports, hexports, hnone⟩ := hend.of_none hunit
      rw [plainOrigin_outside hunit, hexports, Except.map, hnone]
      rfl
    | some unit =>
      rcases hend.of_some hunit with ⟨target, remote, hstep, hlost⟩ | ⟨hstep, hrest⟩
      · rw [plainOrigin_poses hunit (.forward hstep), Quest.plain, demand_none]
        exact Lost.plainOrigin depth hlost
      · by_cases hname : name = unit.defaultExport
        · exact plainOrigin_poses hunit (.reserved hstep hname) depth
        · obtain ⟨targets, htargets, hlost⟩ := hrest.resolve_left hname
          rw [plainOrigin_poses hunit (.stars hstep hname htargets)]
          exact firstAnswer_none fun target hmem =>
            Lost.plainOrigin depth (hlost target (List.mem_reverse.1 hmem))

/-- A name for which nothing is left to do but to look at lost names is lost, if nothing is found. -/
theorem lost_of_onward {record : Ref .record} {name : String} {unit : LinkUnit}
    (hunit : batch.unitOf record = some unit) {quest : Quest} (hposes : Poses unit name quest)
    {answer : Ref .record → String → Except Failure (Option Origin)}
    (hnone : quest.plain answer name = .ok none)
    (hlost : ∀ next ∈ quest.onward name, batch.Lost next) : batch.Lost (record, name) := by
  cases hposes with
  | failed | found | starless => cases hnone
  | forward hstep => exact DeadEnd.lost (.forward hunit hstep (hlost _ (List.mem_singleton_self _)))
  | require => cases (Quest.plain_follow_nothing.1 hnone).1
  | reserved hstep hname => exact DeadEnd.lost (.reserved hunit hstep hname)
  | stars hstep _ htargets =>
    exact DeadEnd.lost (.stars hunit hstep htargets fun target hmem =>
      hlost _ (List.mem_map_of_mem (List.mem_reverse.2 hmem)))

/-- A search found what a plain recursion finds. If that is nothing, it has looked at lost pairs only,
besides those that were looked at before. -/
structure Plainly (batch : Batch) (visited : Visited) (found : Found)
    (answer : Except Failure (Option Origin)) : Prop where
  same : found.2 = answer
  lost : answer = .ok none → ∀ pair ∈ found.1, pair ∈ visited ∨ batch.Lost pair

/-- Searches that find on each record what a plain recursion finds do so on several. -/
theorem firstFound_plainly {search : Visited → Ref .record → Found}
    {answer : Ref .record → Except Failure (Option Origin)} {limit : Nat}
    {met : List (Ref .record × String)} (name : String) (allowed : Visited → Prop)
    (hallowed : ∀ visited visited' : Visited, allowed visited →
      (∀ pair ∈ visited', pair ∈ visited ∨ batch.Lost pair) → allowed visited')
    (hgrows : ∀ visited record pair, pair ∈ visited → pair ∈ (search visited record).1) :
    ∀ {records : List (Ref .record)} {visited : Visited},
      (∀ record ∈ records, ∀ visited, unmet met visited < limit → allowed visited →
        batch.Plainly visited (search visited record) (answer record) ∧
          (answer record = .ok none → batch.Lost (record, name))) →
        unmet met visited < limit → allowed visited →
          batch.Plainly visited (firstFound search visited records) (firstAnswer answer records) ∧
            (firstAnswer answer records = .ok none → ∀ record ∈ records, batch.Lost (record, name))
  | [], _, _, _, _ => ⟨⟨rfl, fun _ _ hmem => .inl hmem⟩, fun _ _ hmem => by cases hmem⟩
  | record :: rest, visited, hsearch, hlimit, hvisited => by
    obtain ⟨⟨hsame, hlost⟩, hself⟩ := hsearch record List.mem_cons_self visited hlimit hvisited
    by_cases hnone : answer record = .ok none
    · have hafter := hlost hnone
      obtain ⟨⟨hsame', hothers⟩, hrest⟩ := firstFound_plainly name allowed hallowed hgrows
        (fun other hmem => hsearch other (List.mem_cons_of_mem _ hmem))
        (Nat.lt_of_le_of_lt (unmet_le (hgrows visited record)) hlimit)
        (hallowed visited _ hvisited hafter)
      rw [firstFound_none (hsame.trans hnone), firstAnswer_past hnone]
      refine ⟨⟨hsame', fun hnone' pair hmem => ?_⟩, fun hnone' other hmem => ?_⟩
      · exact (hothers hnone' pair hmem).elim (hafter pair) .inr
      · rcases List.mem_cons.1 hmem with rfl | hmem
        · exact hself hnone
        · exact hrest hnone' other hmem
    · rw [firstFound_stop fun hfound => hnone (hsame.symm.trans hfound), firstAnswer_stop hnone]
      exact ⟨⟨hsame, fun hnone' => absurd hnone' hnone⟩, fun hnone' => absurd hnone' hnone⟩

theorem Plainly.pursue {search : Visited → Ref .record → String → Found}
    {answer : Ref .record → String → Except Failure (Option Origin)} {limit : Nat}
    {met : List (Ref .record × String)} (allowed : Visited → Prop)
    (hallowed : ∀ visited visited' : Visited, allowed visited →
      (∀ pair ∈ visited', pair ∈ visited ∨ batch.Lost pair) → allowed visited')
    (hgrows : ∀ {visited pair} record name, pair ∈ visited → pair ∈ (search visited record name).1)
    {visited : Visited} {quest : Quest} {name : String}
    (hsearch : ∀ next ∈ quest.onward name, ∀ visited, unmet met visited < limit → allowed visited →
      batch.Plainly visited (search visited next.1 next.2) (answer next.1 next.2) ∧
        (answer next.1 next.2 = .ok none → batch.Lost next))
    (hlimit : unmet met visited < limit) (hvisited : allowed visited) :
    batch.Plainly visited (quest.pursue search visited name) (quest.plain answer name) ∧
      (quest.plain answer name = .ok none → ∀ next ∈ quest.onward name, batch.Lost next) := by
  cases quest with
  | answer result => exact ⟨⟨rfl, fun _ _ hmem => .inl hmem⟩, fun _ _ hnext => nomatch hnext⟩
  | follow target remote missing =>
    obtain ⟨⟨hsame, hlost⟩, hself⟩ :=
      hsearch _ (List.mem_singleton_self _) visited hlimit hvisited
    refine ⟨⟨congrArg (demand missing) hsame,
      fun hnone => hlost (Quest.plain_follow_nothing.1 hnone).2⟩, fun hnone next hnext => ?_⟩
    cases List.mem_singleton.1 hnext
    exact hself (Quest.plain_follow_nothing.1 hnone).2
  | spread targets =>
    obtain ⟨hplainly, hlost⟩ := firstFound_plainly name allowed hallowed
      (fun before target pair => hgrows target name)
      (fun target hmem => hsearch _ (List.mem_map_of_mem hmem)) hlimit hvisited
    refine ⟨hplainly, fun hnone next hnext => ?_⟩
    obtain ⟨target, hmem, rfl⟩ := List.mem_map.1 hnext
    exact hlost hnone target hmem

/-- Where no path comes back to itself, a search finds what a plain recursion finds. The pairs that were
looked at before are lost, or lie on no path from here. -/
theorem search_plainly (hproper : batch.Proper) (start : String) :
    ∀ (fuel : Nat) {visited : Visited} {record : Ref .record} {name : String},
      name ∈ batch.namesMet start → unmet (batch.pairsMet start) visited < fuel →
        batch.Acyclic (record, name) →
          (∀ pair ∈ visited, batch.Lost pair ∨ ¬ batch.Path (record, name) pair) →
            batch.Plainly visited (batch.search fuel visited record name)
              (batch.plainOrigin fuel record name) ∧
              (batch.plainOrigin fuel record name = .ok none → batch.Lost (record, name))
  | 0, _, _, _, _, hfuel, _, _ => absurd hfuel (Nat.not_lt_zero _)
  | fuel + 1, visited, record, name, hname, hfuel, hacyclic, hvisited => by
    cases hunit : batch.unitOf record with
    | none =>
      rw [search_outside hunit, plainOrigin_outside hunit]
      refine ⟨⟨rfl, fun _ _ hmem => .inl hmem⟩, fun hnone => ?_⟩
      obtain ⟨exports, hexports, hnone⟩ := LinkUnit.map_ok hnone
      exact DeadEnd.lost (.outside hunit hexports (Option.map_eq_none_iff.1 hnone))
    | some unit =>
      by_cases hseen : (record, name) ∈ visited
      · have hlost := (hvisited _ hseen).resolve_right fun hpath => hpath .refl
        obtain ⟨hnone, hpairs⟩ := dead_lost.search (fuel + 1) hlost
        exact ⟨⟨hnone.trans (hlost.plainOrigin _).symm, fun _ => hpairs⟩, fun _ => hlost⟩
      obtain ⟨quest, hposes⟩ := exists_poses unit name
      -- What was looked at before is on no path from the next pair, nor is this pair itself.
      have hnext : ∀ next ∈ quest.onward name, ∀ pair ∈ (record, name) :: visited,
          batch.Lost pair ∨ ¬ batch.Path next pair := by
        intro next hnext pair hmem
        have hfollows := follows_of_onward hunit hposes hnext
        rcases List.mem_cons.1 hmem with rfl | hmem
        · exact .inr fun hpath => hacyclic _ .refl (.head' hfollows hpath)
        · exact (hvisited pair hmem).imp_right fun hnot hpath => hnot (.head hfollows hpath)
      obtain ⟨⟨hsame, hafter⟩, honward⟩ := Plainly.pursue
        (fun visited => ∀ next ∈ quest.onward name, ∀ pair ∈ visited,
          batch.Lost pair ∨ ¬ batch.Path next pair)
        (fun before after hbefore hsub next hmem pair hpair =>
          (hsub pair hpair).elim (hbefore next hmem pair) .inl)
        (mem_search fuel)
        (fun next hmem before hlimit hbefore => search_plainly hproper start fuel
          (namesMet_of_onward hproper hunit hposes hname hmem) hlimit
          (hacyclic.next (follows_of_onward hunit hposes hmem)) (hbefore next hmem))
        (unmet_next hproper hunit hname hseen hfuel) hnext
      rw [search_new hunit hseen hposes, plainOrigin_poses hunit hposes]
      have hlost (hnone : quest.plain (batch.plainOrigin fuel) name = .ok none) :
          batch.Lost (record, name) := lost_of_onward hunit hposes hnone (honward hnone)
      refine ⟨⟨hsame, fun hnone pair hmem => ?_⟩, hlost⟩
      rcases hafter hnone pair hmem with hmem | hpair
      · rcases List.mem_cons.1 hmem with rfl | hmem
        · exact .inr (hlost hnone)
        · exact .inl hmem
      · exact .inr hpair

/-- What the search for a name of a record comes to. -/
structure Resolves (batch : Batch) (record : Ref .record) (name : String) : Prop where
  /-- The search that works off chores comes to an end, with the answer. -/
  ends : ∃ steps, (Searching.next batch)^[steps] (.busy [] [.look record name]) =
    .over (batch.originOf record name)
  found : ∀ origin, batch.originOf record name = .ok (some origin) →
    ∃ reached, batch.Path (record, name) reached ∧ batch.Holds reached origin
  empty : batch.originOf record name = .ok none → ∀ reached, batch.Path (record, name) reached →
    (∀ origin, ¬ batch.Holds reached origin) ∧ ¬ batch.Reexports reached
  /-- Where no path comes back to itself, the plain recursion gives the answer, however deep it may go. -/
  plain : batch.Acyclic (record, name) → ∀ depth, batch.bound < depth →
    batch.plainOrigin depth record name = batch.originOf record name

/-- Whatever a batch declares, the search for a name of a record ends; it finds an origin only at the end
of a path, and nothing only if no path leads to an origin or to an exported import; and where no path
comes back to itself it finds what the plain recursion finds. -/
theorem originOf_resolves {host : Host} {refs : List (Ref .record)}
    (hexist : ∀ ref ∈ refs, (host.records.get? ref).isSome) (record : Ref .record) (name : String) :
    (ofRecords host refs).Resolves record name where
  ends := originOf_ends (ofRecords_proper hexist) record name
  found origin h := (leads_of_originOf h).path
  empty h reached hpath :=
    dead_lost.empty (dead_lost.path (lost_of_originOf (ofRecords_proper hexist) h) hpath)
  plain hacyclic depth hdepth := by
    have hlimit := unmet_lt_bound (ofRecords host refs) name []
    obtain ⟨⟨hsame, -⟩, -⟩ := search_plainly (ofRecords_proper hexist) name depth
      List.mem_cons_self (Nat.lt_trans hlimit hdepth) hacyclic fun _ hmem => nomatch hmem
    rw [← hsame, originOf, search_enough (ofRecords_proper hexist) name depth
      ((ofRecords host refs).bound + 1) [] record name List.mem_cons_self
      (Nat.lt_trans hlimit hdepth) (Nat.lt_succ_of_lt hlimit)]

/-- In the ring `one` gets its name from `right` by way of its last star, which comes back to it. -/
theorem originOf_one_in_ring :
    (∀ ref ∈ (List.range 5).map Ref.mk, (starRing.records.get? ref).isSome) ∧
      (ofRecords starRing ((List.range 5).map Ref.mk)).Resolves ⟨3⟩ "x" ∧
        ((ofRecords starRing ((List.range 5).map Ref.mk)).originOf ⟨3⟩ "x").toOption =
          some (some (.localName ⟨2⟩ "x")) :=
  have hexist : ∀ ref ∈ (List.range 5).map Ref.mk, (starRing.records.get? ref).isSome := by
    decide +kernel
  ⟨hexist, originOf_resolves hexist ⟨3⟩ "x", by decide +kernel⟩

end Batch

end ModuleLoader
