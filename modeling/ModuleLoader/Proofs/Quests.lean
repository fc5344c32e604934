import ModuleLoader.Linkage.Wiring
/-!
One step of the search for an export. What is to be done with a name of a record that was not looked at depends
on the bindings of the record alone: the answer is there, or it lies behind one name of another record, or it is
for the stars to forward. The search goes on from there; what a recursion over the search shows, it shows for
each of the three.
-/

namespace ModuleLoader
set_option autoImplicit false

namespace Batch

variable {batch : Batch}

/-- What is left to do to find the origin of a name of a record. -/
inductive Quest where
  /-- Nothing, as the answer is known. -/
  | answer (result : Except Failure (Option Origin))
  /-- To look at one name of another record, and to fail if nothing is there that must be there. -/
  | follow (target : Ref .record) (remote : String) (missing : Option Failure)
  /-- To look at the same name of other records, until one of them has it. -/
  | spread (targets : List (Ref .record))

/-- To find nothing is a failure where it must not be missing. -/
def demand (missing : Option Failure) : Except Failure (Option Origin) → Except Failure (Option Origin)
  | .ok none =>
    match missing with
    | none => .ok none
    | some failure => .error failure
  | result => result

@[simp]
theorem demand_none (result : Except Failure (Option Origin)) : demand none result = result := by
  rcases result with failure | (_ | origin) <;> rfl

theorem demand_eq_found {missing : Option Failure} {result : Except Failure (Option Origin)}
    {origin : Origin} : demand missing result = .ok (some origin) ↔ result = .ok (some origin) := by
  rcases result with failure | (_ | found) <;> cases missing <;> simp [demand]

theorem demand_eq_nothing {missing : Option Failure} {result : Except Failure (Option Origin)} :
    demand missing result = .ok none ↔ missing = none ∧ result = .ok none := by
  rcases result with failure | (_ | found) <;> cases missing <;> simp [demand]

theorem demand_eq_failed {missing : Option Failure} {result : Except Failure (Option Origin)}
    {failure : Failure} : demand missing result = .error failure ↔
      result = .error failure ∨ missing = some failure ∧ result = .ok none := by
  rcases result with failure' | (_ | found) <;> cases missing <;> simp [demand]

/-- A record where nothing is found is gone past. -/
theorem firstFound_none {search : Visited → Ref .record → Found} {visited : Visited} {record : Ref .record}
    (h : (search visited record).2 = .ok none) (rest : List (Ref .record)) :
    firstFound search visited (record :: rest) = firstFound search (search visited record).1 rest := by
  rw [firstFound]
  generalize search visited record = found at h ⊢
  obtain ⟨after, result⟩ := found
  cases h
  rfl

/-- The first record where something is found, or which fails, is the last one. -/
theorem firstFound_stop {search : Visited → Ref .record → Found} {visited : Visited} {record : Ref .record}
    (h : (search visited record).2 ≠ .ok none) (rest : List (Ref .record)) :
    firstFound search visited (record :: rest) = search visited record := by
  rw [firstFound]
  generalize search visited record = found at h ⊢
  rcases found with ⟨after, failure | (_ | origin)⟩
  · rfl
  · exact absurd rfl h
  · rfl

/-- Does what is left to do by searching on. -/
def Quest.pursue (search : Visited → Ref .record → String → Found) (visited : Visited) (name : String) :
    Quest → Found
  | .answer result => (visited, result)
  | .follow target remote missing =>
    ((search visited target remote).1, demand missing (search visited target remote).2)
  | .spread targets => firstFound (fun visited target => search visited target name) visited targets

/-- The names that are looked at next. -/
def Quest.onward (name : String) : Quest → List (Ref .record × String)
  | .answer _ => []
  | .follow target remote _ => [(target, remote)]
  | .spread targets => targets.map (·, name)

section

variable {search : Visited → Ref .record → String → Found} {visited : Visited} {name remote : String}
  {target : Ref .record} {missing : Option Failure}

theorem Quest.pursue_follow_found {origin : Origin} :
    ((Quest.follow target remote missing).pursue search visited name).2 = .ok (some origin) ↔
      (search visited target remote).2 = .ok (some origin) :=
  demand_eq_found

theorem Quest.pursue_follow_nothing :
    ((Quest.follow target remote missing).pursue search visited name).2 = .ok none ↔
      missing = none ∧ (search visited target remote).2 = .ok none :=
  demand_eq_nothing

theorem Quest.pursue_follow_failed {failure : Failure} :
    ((Quest.follow target remote missing).pursue search visited name).2 = .error failure ↔
      (search visited target remote).2 = .error failure ∨
        missing = some failure ∧ (search visited target remote).2 = .ok none :=
  demand_eq_failed

end

/-- What is left to do for a name of a record by its bindings. -/
inductive Poses (unit : LinkUnit) (name : String) : Quest → Prop where
  | failed {failure : Failure} : unit.exportStep name = .error failure →
      Poses unit name (.answer (.error failure))
  | found {origin : Origin} : unit.exportStep name = .ok (some (.found origin)) →
      Poses unit name (.answer (.ok (some origin)))
  | forward {target : Ref .record} {remote : String} :
      unit.exportStep name = .ok (some (.forward target remote)) →
        Poses unit name (.follow target remote none)
  | require {target : Ref .record} {remote source : String} :
      unit.exportStep name = .ok (some (.require target remote source)) →
        Poses unit name (.follow target remote (some (.link unit.key (.missingExport source remote))))
  | reserved : unit.exportStep name = .ok none → name = unit.defaultExport →
      Poses unit name (.answer (.ok none))
  | starless {failure : Failure} : unit.exportStep name = .ok none → name ≠ unit.defaultExport →
      unit.starRecords = .error failure → Poses unit name (.answer (.error failure))
  | stars {targets : List (Ref .record)} : unit.exportStep name = .ok none →
      name ≠ unit.defaultExport → unit.starRecords = .ok targets →
        Poses unit name (.spread targets.reverse)

theorem exists_poses (unit : LinkUnit) (name : String) : ∃ quest, Poses unit name quest := by
  rcases hstep : unit.exportStep name with
    failure | (_ | (origin | ⟨target, remote⟩ | ⟨target, remote, source⟩))
  · exact ⟨_, .failed hstep⟩
  · by_cases hname : name = unit.defaultExport
    · exact ⟨_, .reserved hstep hname⟩
    · cases htargets : unit.starRecords with
      | error failure => exact ⟨_, .starless hstep hname htargets⟩
      | ok targets => exact ⟨_, .stars hstep hname htargets⟩
  · exact ⟨_, .found hstep⟩
  · exact ⟨_, .forward hstep⟩
  · exact ⟨_, .require hstep⟩

variable {record : Ref .record} {unit : LinkUnit} {visited : Visited} {name : String}

theorem search_outside (hunit : batch.unitOf record = none) (fuel : Nat) :
    batch.search (fuel + 1) visited record name =
      (visited, (batch.outside record).map fun exports => (exports.get? name).map .slot) := by
  unfold search
  rw [hunit]
  cases batch.outside record <;> rfl

theorem search_seen (hunit : batch.unitOf record = some unit) (hseen : (record, name) ∈ visited)
    (fuel : Nat) : batch.search (fuel + 1) visited record name = (visited, .ok none) := by
  unfold search
  rw [hunit]
  exact if_pos (List.contains_iff_mem.2 hseen)

/-- A search that looks at a name for the first time does what is left to do for it. -/
theorem search_new (hunit : batch.unitOf record = some unit) (hnew : (record, name) ∉ visited)
    {quest : Quest} (hposes : Poses unit name quest) (fuel : Nat) :
    batch.search (fuel + 1) visited record name =
      quest.pursue (batch.search fuel) ((record, name) :: visited) name := by
  unfold search
  rw [hunit]
  refine (if_neg fun hmem => hnew (List.contains_iff_mem.1 hmem)).trans ?_
  cases hposes with
  | failed hstep => rw [hstep]; rfl
  | found hstep => rw [hstep]; rfl
  | forward hstep =>
    rw [hstep]
    simp only [Quest.pursue, demand_none]
  | @require target remote source hstep =>
    rw [hstep]
    dsimp only [Quest.pursue]
    generalize batch.search fuel ((record, name) :: visited) target remote = found
    rcases found with ⟨after, failure | (_ | origin)⟩ <;> rfl
  | reserved hstep hname =>
    rw [hstep]
    exact if_pos hname
  | starless hstep hname htargets =>
    rw [hstep]
    refine (if_neg hname).trans ?_
    rw [htargets]
    rfl
  | stars hstep hname htargets =>
    rw [hstep]
    refine (if_neg hname).trans ?_
    rw [htargets]
    rfl

/-- A search for a name of a record outside the batch looks only at what the record exports. -/
theorem originOf_outside (hunit : batch.unitOf record = none) (name : String) :
    batch.originOf record name =
      (batch.outside record).map fun exports => (exports.get? name).map .slot :=
  congrArg Prod.snd (search_outside hunit batch.bound)

/-- The search for a name of a record of the batch begins with what is left to do for it. -/
theorem originOf_poses (hunit : batch.unitOf record = some unit) {quest : Quest}
    (hposes : Poses unit name quest) : batch.originOf record name =
      (quest.pursue (batch.search batch.bound) [(record, name)] name).2 :=
  congrArg Prod.snd (search_new hunit List.not_mem_nil hposes batch.bound)

end Batch

end ModuleLoader
