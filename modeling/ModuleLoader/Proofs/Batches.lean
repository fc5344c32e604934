import ModuleLoader.Linkage.Linking
import ModuleLoader.Proofs.Wirings
/-!
The batch of some records has their units, its requests lead where the memo says, and a failure that
has spread has reached every record that depends on a failed one.
-/

namespace ModuleLoader
set_option autoImplicit false

namespace LinkUnit

/-- Each record of a list comes from one of its specifiers. -/
theorem mem_targets {unit : LinkUnit} : ∀ {specifiers : List String} {targets : List (Ref .record)},
    unit.targets specifiers = .ok targets → ∀ target ∈ targets,
      ∃ specifier ∈ specifiers, unit.target specifier = .ok target
  | [], targets, h, target, hmem => by
    cases h
    cases hmem
  | specifier :: rest, targets, h, target, hmem => by
    unfold LinkUnit.targets at h
    split at h
    · cases h
    · rename_i record hrecord
      split at h
      · cases h
      · rename_i records hrecords
        cases h
        rcases List.mem_cons.1 hmem with rfl | hmem
        · exact ⟨specifier, List.mem_cons_self, hrecord⟩
        · obtain ⟨found, hfound, htarget⟩ := mem_targets hrecords target hmem
          exact ⟨found, List.mem_cons_of_mem _ hfound, htarget⟩

end LinkUnit

namespace Batch

variable {host : Host} {refs : List (Ref .record)}

theorem target_describe {ref target : Ref .record} {specifier : String} :
    (describe host ref).target specifier = .ok target ↔
      host.target? ref specifier = some target := by
  unfold LinkUnit.target describe Host.target? Record.keyOf?
  dsimp only
  rw [List.find?_map]
  simp only [Function.comp_def]
  cases (host.record ref).requests.find? fun request => decide (request.1 = specifier) with
  | none => simp
  | some request =>
    simp only [Option.map_some, Option.bind_some]
    cases host.lookup? ⟨(host.record ref).home, request.2⟩ with
    | none => simp
    | some found => simp

/-- A request of a record is met by a record of the memo. -/
theorem request_of_target {unit : LinkUnit} {specifier : String} {target : Ref .record}
    (h : unit.target specifier = .ok target) :
    ∃ request ∈ unit.requests, request.target = some target := by
  unfold LinkUnit.target at h
  split at h
  · cases h
  · rename_i request hrequest
    split at h
    · rename_i found hfound
      cases h
      exact ⟨request, List.mem_of_find?_eq_some hrequest, hfound⟩
    · cases h

theorem records_ofRecords (host : Host) (refs : List (Ref .record)) :
    (Batch.ofRecords host refs).units.map LinkUnit.record = refs := by
  change (refs.map (Batch.describe host)).map LinkUnit.record = refs
  rw [List.map_map]
  exact List.map_id refs

/-- The batch has the unit of each of its records and no other. -/
theorem unitOf_ofRecords (hrefs : ∀ ref ∈ refs, (host.records.get? ref).isSome)
    (ref : Ref .record) :
    (ofRecords host refs).unitOf ref = if ref ∈ refs then some (describe host ref) else none := by
  let place (places : Array (Option LinkUnit)) (unit : LinkUnit) : Array (Option LinkUnit) :=
    places.setIfInBounds unit.record.index (some unit)
  have hplace : ∀ (refs : List (Ref .record)) (places : Array (Option LinkUnit)),
      (∀ ref ∈ refs, ref.index < places.size) →
        ((((refs.map (describe host)).foldl place places)[ref.index]?).getD none) =
          if ref ∈ refs then some (describe host ref) else (places[ref.index]?).getD none := by
    intro refs
    induction refs with
    | nil => simp
    | cons first rest ih =>
      intro places hsize
      have hfirst := hsize first List.mem_cons_self
      have hrest : ∀ ref ∈ rest, ref.index < (place places (describe host first)).size := by
        intro other hmem
        simpa [place] using hsize other (List.mem_cons_of_mem _ hmem)
      rw [List.map_cons, List.foldl_cons, ih _ hrest]
      by_cases hmem : ref ∈ rest
      · rw [if_pos hmem, if_pos (List.mem_cons_of_mem _ hmem)]
      · rw [if_neg hmem]
        by_cases hsame : ref = first
        · subst hsame
          simp [place, describe, hfirst]
        · have hindex : first.index ≠ ref.index := by
            intro heq
            obtain ⟨index⟩ := ref
            obtain ⟨index'⟩ := first
            exact hsame (congrArg Ref.mk heq.symm)
          rw [if_neg (by simp [hsame, hmem])]
          simp [place, describe, hindex]
  have hall := hplace refs (Array.replicate host.records.size none) fun other hmem => by
    have hsome := hrefs other hmem
    unfold Arena.get? at hsome
    rw [Option.isSome_iff_exists] at hsome
    obtain ⟨record, hrecord⟩ := hsome
    obtain ⟨hlt, -⟩ := Array.getElem?_eq_some_iff.1 hrecord
    simpa [Arena.size] using hlt
  refine hall.trans ?_
  split
  · rfl
  · rw [Array.getElem?_replicate]
    split <;> rfl

theorem ofRecords_proper (hrefs : ∀ ref ∈ refs, (host.records.get? ref).isSome) :
    (ofRecords host refs).Proper where
  unit record unit h := by
    rw [unitOf_ofRecords hrefs] at h
    split at h
    · rename_i hmem
      cases h
      exact ⟨List.mem_map_of_mem hmem, rfl⟩
    · cases h
  unitOf unit hmem := by
    obtain ⟨ref, href, rfl⟩ := List.mem_map.1 hmem
    rw [unitOf_ofRecords hrefs]
    exact if_pos href

/-- A record has a failure. -/
def Fails (failed : List (Ref .record × Failure)) (record : Ref .record) : Prop :=
  ∃ failure, (record, failure) ∈ failed

theorem failureAmong_isSome {failed : List (Ref .record × Failure)} {record : Ref .record} :
    (failureAmong failed record).isSome ↔ Fails failed record := by
  unfold failureAmong Fails
  rw [Option.isSome_map, List.find?_isSome]
  constructor
  · rintro ⟨⟨found, failure⟩, hmem, hfound⟩
    obtain rfl : found = record := by simpa using hfound
    exact ⟨failure, hmem⟩
  · rintro ⟨failure, hmem⟩
    exact ⟨(record, failure), hmem, by simp⟩

theorem failureAmong_eq_none {failed : List (Ref .record × Failure)} {record : Ref .record} :
    failureAmong failed record = none ↔ ¬ Fails failed record := by
  rw [← failureAmong_isSome, Option.not_isSome_iff_eq_none]

variable {batch : Batch}

theorem mem_dependentsOf {record dependent : Ref .record} :
    dependent ∈ batch.dependentsOf record ↔ ∃ unit ∈ batch.units, unit.record = dependent ∧
      ∃ request ∈ unit.requests, request.target = some record := by
  unfold dependentsOf
  simp only [List.mem_map, List.mem_filter, List.any_eq_true, decide_eq_true_eq]
  exact ⟨fun ⟨unit, ⟨hmem, hany⟩, heq⟩ => ⟨unit, hmem, heq, hany⟩,
    fun ⟨unit, hmem, heq, hany⟩ => ⟨unit, ⟨hmem, hany⟩, heq⟩⟩

/-- The records that get the failure of another one next. -/
def freshOf (batch : Batch) (failed : List (Ref .record × Failure)) (record : Ref .record) :
    List (Ref .record) :=
  (batch.dependentsOf record).filter fun dependent => (failureAmong failed dependent).isNone

theorem mem_freshOf {failed : List (Ref .record × Failure)} {record dependent : Ref .record} :
    dependent ∈ batch.freshOf failed record ↔
      dependent ∈ batch.dependentsOf record ∧ ¬ Fails failed dependent := by
  unfold freshOf
  rw [List.mem_filter, Option.isNone_iff_eq_none, failureAmong_eq_none]

theorem fails_append {fresh : List (Ref .record)} {failed : List (Ref .record × Failure)}
    {failure : Failure} {record : Ref .record} :
    Fails (fresh.map (·, failure) ++ failed) record ↔ record ∈ fresh ∨ Fails failed record := by
  unfold Fails
  simp only [List.mem_append, List.mem_map, Prod.mk.injEq]
  constructor
  · rintro ⟨found, ⟨other, hother, rfl, -⟩ | hfound⟩
    · exact .inl hother
    · exact .inr ⟨found, hfound⟩
  · rintro (hrecord | ⟨found, hfound⟩)
    · exact ⟨failure, .inl ⟨record, hrecord, rfl, rfl⟩⟩
    · exact ⟨found, .inr hfound⟩

/-- How many records of the batch have no failure. -/
def sound (batch : Batch) (failed : List (Ref .record × Failure)) : Nat :=
  batch.units.countP fun unit => (failureAmong failed unit.record).isNone

/-- Records that get a failure are sound no more. -/
theorem sound_freshOf (batch : Batch) (failed : List (Ref .record × Failure)) (record : Ref .record)
    (failure : Failure) : (batch.freshOf failed record).length +
      batch.sound ((batch.freshOf failed record).map (·, failure) ++ failed) ≤
        batch.sound failed := by
  have hcount (units : List LinkUnit) {p q r : LinkUnit → Bool}
      (hp : ∀ unit ∈ units, p unit → r unit) (hq : ∀ unit ∈ units, q unit → r unit)
      (hboth : ∀ unit ∈ units, p unit → ¬ q unit) :
      units.countP p + units.countP q ≤ units.countP r := by
    induction units with
    | nil => exact Nat.le_refl 0
    | cons first rest ih =>
      have hrest := ih (fun unit hmem => hp unit (List.mem_cons_of_mem _ hmem))
        (fun unit hmem => hq unit (List.mem_cons_of_mem _ hmem))
        fun unit hmem => hboth unit (List.mem_cons_of_mem _ hmem)
      have hp := hp first List.mem_cons_self
      have hq := hq first List.mem_cons_self
      have hboth := hboth first List.mem_cons_self
      have hfirst : (if p first then 1 else 0) + (if q first then 1 else 0) ≤
          if r first then 1 else 0 := by
        revert hp hq hboth
        cases p first <;> cases q first <;> cases r first <;> simp
      simp only [List.countP_cons]
      omega
  have hlength : (batch.freshOf failed record).length = batch.units.countP fun unit =>
      (failureAmong failed unit.record).isNone &&
        unit.requests.any fun request => request.target = some record := by
    unfold freshOf dependentsOf
    rw [List.filter_map, List.length_map, List.filter_filter, List.countP_eq_length_filter]
    rfl
  rw [hlength]
  unfold sound
  refine hcount batch.units (fun unit _ h => ?_) (fun unit _ h => ?_) (fun unit hmem h h' => ?_)
  · exact (Bool.and_eq_true_iff.1 h).1
  · rw [Option.isNone_iff_eq_none, failureAmong_eq_none] at h ⊢
    exact fun hfails => h (fails_append.2 (.inr hfails))
  · obtain ⟨hsound, hany⟩ := Bool.and_eq_true_iff.1 h
    rw [Option.isNone_iff_eq_none, failureAmong_eq_none] at hsound h'
    refine h' (fails_append.2 (.inl (mem_freshOf.2 ⟨mem_dependentsOf.2 ⟨unit, hmem, rfl, ?_⟩,
      hsound⟩)))
    simpa using hany

/-- Every record that depends on a failed one has a failure, but for those still to be looked at. -/
def Spread (batch : Batch) (todo : List (Ref .record)) (failed : List (Ref .record × Failure)) :
    Prop :=
  ∀ record dependent, Fails failed record → dependent ∈ batch.dependentsOf record →
    record ∈ todo ∨ Fails failed dependent

theorem spread_spreads : ∀ (fuel : Nat) {todo : List (Ref .record)}
    {failed : List (Ref .record × Failure)}, batch.Spread todo failed →
      todo.length + batch.sound failed < fuel →
        batch.Spread [] (batch.spread fuel todo failed) ∧
          ∀ record, Fails failed record → Fails (batch.spread fuel todo failed) record
  | 0, _, _, _, hfuel => absurd hfuel (Nat.not_lt_zero _)
  | _ + 1, [], _, hspread, _ => ⟨hspread, fun _ h => h⟩
  | fuel + 1, record :: rest, failed, hspread, hfuel => by
    rw [List.length_cons] at hfuel
    unfold spread
    split
    · rename_i hnone
      refine spread_spreads fuel (fun other dependent hother hdependent => ?_) (by omega)
      rcases hspread other dependent hother hdependent with hmem | hfails
      · rcases List.mem_cons.1 hmem with rfl | hmem
        · exact absurd hother (failureAmong_eq_none.1 hnone)
        · exact .inl hmem
      · exact .inr hfails
    · rename_i failure _
      have hless := batch.sound_freshOf failed record failure
      have hnext : batch.Spread (batch.freshOf failed record ++ rest)
          ((batch.freshOf failed record).map (·, failure) ++ failed) := by
        intro other dependent hother hdependent
        rcases fails_append.1 hother with hfresh | hother
        · exact .inl (List.mem_append_left _ hfresh)
        · rcases hspread other dependent hother hdependent with hmem | hfails
          · rcases List.mem_cons.1 hmem with rfl | hmem
            · by_cases hfails : Fails failed dependent
              · exact .inr (fails_append.2 (.inr hfails))
              · exact .inr (fails_append.2 (.inl (mem_freshOf.2 ⟨hdependent, hfails⟩)))
            · exact .inl (List.mem_append_right _ hmem)
          · exact .inr (fails_append.2 (.inr hfails))
      obtain ⟨hclosed, hkept⟩ := spread_spreads fuel hnext (by
        rw [List.length_append]
        omega)
      exact ⟨hclosed, fun other hother => hkept other (fails_append.2 (.inr hother))⟩

theorem failures_error (unit : LinkUnit) (failure : Failure)
    (rest : List (LinkUnit × Except Failure Wiring)) :
    failures ((unit, .error failure) :: rest) = (unit.record, failure) :: failures rest :=
  rfl

theorem failures_ok (unit : LinkUnit) (wiring : Wiring)
    (rest : List (LinkUnit × Except Failure Wiring)) :
    failures ((unit, .ok wiring) :: rest) = failures rest :=
  rfl

theorem mem_failures {wirings : List (LinkUnit × Except Failure Wiring)} {record : Ref .record} :
    Fails (failures wirings) record ↔
      ∃ unit failure, (unit, .error failure) ∈ wirings ∧ unit.record = record := by
  unfold Fails failures
  simp only [List.mem_filterMap]
  constructor
  · rintro ⟨failure, ⟨unit, wiring⟩, hmem, heq⟩
    dsimp only at heq
    cases wiring with
    | error found =>
      cases heq
      exact ⟨unit, failure, hmem, rfl⟩
    | ok wiring => cases heq
  · rintro ⟨unit, failure, hmem, rfl⟩
    exact ⟨failure, _, hmem, rfl⟩

/-- The units that are committed: their wiring succeeded, and nothing they depend on failed. -/
structure Commits (batch : Batch) (unit : LinkUnit) (wiring : Wiring) : Prop where
  mem : unit ∈ batch.units
  wired : batch.wire unit = .ok wiring
  sound : ¬ Fails (batch.allFailures (batch.units.map fun unit => (unit, batch.wire unit)))
    unit.record

theorem mem_failures_wire {record : Ref .record} :
    Fails (failures (batch.units.map fun unit => (unit, batch.wire unit))) record ↔
      ∃ unit ∈ batch.units, unit.record = record ∧ ∃ failure, batch.wire unit = .error failure := by
  rw [mem_failures]
  constructor
  · rintro ⟨unit, failure, hmem, heq⟩
    obtain ⟨unit', hunit, hpair⟩ := List.mem_map.1 hmem
    obtain ⟨rfl, hwire⟩ := Prod.mk.inj hpair
    exact ⟨unit', hunit, heq, failure, hwire⟩
  · rintro ⟨unit, hunit, heq, failure, hwire⟩
    exact ⟨unit, failure, List.mem_map.2 ⟨unit, hunit, by rw [hwire]⟩, heq⟩

theorem fails_failures_iff (hproper : batch.Proper) {unit : LinkUnit} (hmem : unit ∈ batch.units) :
    Fails (failures (batch.units.map fun unit => (unit, batch.wire unit))) unit.record ↔
      ∃ failure, batch.wire unit = .error failure := by
  rw [mem_failures_wire]
  refine ⟨?_, fun hfailure => ⟨unit, hmem, rfl, hfailure⟩⟩
  rintro ⟨found, hfound, hrecord, hfailure⟩
  have hsame := hproper.unitOf found hfound
  rw [hrecord, hproper.unitOf unit hmem] at hsame
  cases hsame
  exact hfailure

/-- Each unit either has a failure of its own or is sound. -/
theorem length_failures_add_sound (hproper : batch.Proper) :
    let failed := failures (batch.units.map fun unit => (unit, batch.wire unit))
    failed.length + batch.sound failed = batch.units.length := by
  intro failed
  have hfails {unit : LinkUnit} (hmem : unit ∈ batch.units) :
      Fails failed unit.record ↔ ∃ failure, batch.wire unit = .error failure :=
    fails_failures_iff hproper hmem
  have hcount : ∀ units : List LinkUnit, (∀ unit ∈ units, unit ∈ batch.units) →
      (failures (units.map fun unit => (unit, batch.wire unit))).length +
        units.countP (fun unit => (failureAmong failed unit.record).isNone) = units.length := by
    intro units
    induction units with
    | nil => exact fun _ => rfl
    | cons first rest ih =>
      intro hunits
      have hrest := ih fun unit hmem => hunits unit (List.mem_cons_of_mem _ hmem)
      have hfirst := hfails (hunits first List.mem_cons_self)
      rw [List.map_cons, List.countP_cons, List.length_cons, ← hrest]
      cases hwire : batch.wire first with
      | error failure =>
        have hsome : (failureAmong failed first.record).isNone = false := by
          rw [← Option.not_isSome, failureAmong_isSome.2 (hfirst.2 ⟨failure, hwire⟩)]
          rfl
        rw [failures_error, hsome, List.length_cons]
        simp only [Bool.false_eq_true, if_false]
        omega
      | ok wiring =>
        have hnone : (failureAmong failed first.record).isNone = true := by
          rw [Option.isNone_iff_eq_none, failureAmong_eq_none, hfirst, hwire]
          rintro ⟨failure, heq⟩
          cases heq
        rw [failures_ok, hnone, if_pos rfl]
        omega
  exact hcount batch.units fun _ hmem => hmem

/-- The failures of a batch have spread, from the wirings that failed. -/
theorem allFailures_spread (hproper : batch.Proper) :
    let wirings := batch.units.map fun unit => (unit, batch.wire unit)
    batch.Spread [] (batch.allFailures wirings) ∧
      ∀ unit ∈ batch.units, ∀ failure, batch.wire unit = .error failure →
        Fails (batch.allFailures wirings) unit.record := by
  intro wirings
  have hstart : batch.Spread ((failures wirings).map Prod.fst) (failures wirings) := by
    rintro record dependent ⟨failure, hmem⟩ -
    exact .inl (List.mem_map_of_mem (f := Prod.fst) hmem)
  have hless : ((failures wirings).map Prod.fst).length + batch.sound (failures wirings) <
      batch.units.length + 1 := by
    rw [List.length_map]
    exact Nat.lt_succ_of_le (Nat.le_of_eq (length_failures_add_sound hproper))
  obtain ⟨hspread, hkept⟩ := spread_spreads (batch.units.length + 1) hstart hless
  exact ⟨hspread, fun unit hmem failure hfailure =>
    hkept unit.record ((fails_failures_iff hproper hmem).2 ⟨failure, hfailure⟩)⟩

/-- What a committed record depends on within the batch is committed as well. -/
theorem Commits.target (hproper : batch.Proper) {unit : LinkUnit} {wiring : Wiring}
    (h : batch.Commits unit wiring) {specifier : String} {target : Ref .record}
    (htarget : unit.target specifier = .ok target) {other : LinkUnit}
    (hother : batch.unitOf target = some other) : ∃ wiring, batch.Commits other wiring := by
  obtain ⟨hmem, hrecord⟩ := hproper.unit target other hother
  obtain ⟨hspread, hfailed⟩ := allFailures_spread hproper
  have hsound : ¬ Fails (batch.allFailures (batch.units.map fun unit => (unit, batch.wire unit)))
      other.record := by
    intro hfails
    have hdependent := mem_dependentsOf.2 ⟨unit, h.mem, rfl, request_of_target htarget⟩
    rcases hspread target unit.record (hrecord ▸ hfails) hdependent with hmem | hfails
    · cases hmem
    · exact h.sound hfails
  cases hwire : batch.wire other with
  | error failure => exact absurd (hfailed other hmem failure hwire) hsound
  | ok wiring => exact ⟨wiring, hmem, hwire, hsound⟩

end Batch

end ModuleLoader
