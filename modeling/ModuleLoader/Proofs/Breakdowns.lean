import ModuleLoader.Proofs.DeadEnds
/-!
Which records of a batch fail: those whose wiring fails, and those that depend on one that fails. The
failures that spread in a batch are exactly these.
-/

namespace ModuleLoader
set_option autoImplicit false

namespace Batch

/-- The record is bad, or depends on one that is affected. -/
inductive Affected (batch : Batch) (bad : Ref .record → Prop) : Ref .record → Prop where
  | here {record : Ref .record} : bad record → Affected batch bad record
  | needs {unit : LinkUnit} {request : Request} {target : Ref .record} : unit ∈ batch.units →
      request ∈ unit.requests → request.target = some target →
        Affected batch bad target → Affected batch bad unit.record

/-- The wiring of the record fails. -/
def Faulty (batch : Batch) (record : Ref .record) : Prop :=
  ∃ unit ∈ batch.units, unit.record = record ∧ ∃ failure, batch.wire unit = .error failure

/-- The record fails with its batch. -/
def Breaks (batch : Batch) : Ref .record → Prop :=
  batch.Affected batch.Faulty

variable {batch : Batch}

theorem Breaks.mem {record : Ref .record} (h : batch.Breaks record) :
    ∃ unit ∈ batch.units, unit.record = record := by
  cases h with
  | here h =>
    obtain ⟨unit, hmem, heq, -⟩ := h
    exact ⟨unit, hmem, heq⟩
  | needs hmem _ _ _ => exact ⟨_, hmem, rfl⟩

/-- A failure spreads only to records that depend on failed ones. -/
theorem spread_affects {bad : Ref .record → Prop} : ∀ (fuel : Nat) {todo : List (Ref .record)}
    {failed : List (Ref .record × Failure)},
      (∀ record, Fails failed record → batch.Affected bad record) →
        ∀ record, Fails (batch.spread fuel todo failed) record → batch.Affected bad record
  | 0, _, _, hfailed, record, h => hfailed record h
  | _ + 1, [], _, hfailed, record, h => hfailed record h
  | fuel + 1, first :: rest, failed, hfailed, record, h => by
    unfold spread at h
    cases hfirst : failureAmong failed first with
    | none =>
      rw [hfirst] at h
      exact spread_affects fuel hfailed record h
    | some failure =>
      rw [hfirst] at h
      have hbad : batch.Affected bad first := by
        refine hfailed first (failureAmong_isSome.1 ?_)
        rw [hfirst]
        rfl
      refine spread_affects fuel (fun other hother => ?_) record h
      rcases fails_append.1 hother with hfresh | hold
      · obtain ⟨hdependent, -⟩ := mem_freshOf.1 hfresh
        obtain ⟨unit, hunit, rfl, request, hrequest, htarget⟩ := mem_dependentsOf.1 hdependent
        exact .needs hunit hrequest htarget hbad
      · exact hfailed other hold

/-- The failures of a batch are those of the records that break. -/
theorem fails_iff (hproper : batch.Proper) {record : Ref .record} :
    Fails (batch.allFailures (batch.units.map fun unit => (unit, batch.wire unit))) record ↔
      batch.Breaks record := by
  obtain ⟨hspread, hown⟩ := allFailures_spread hproper
  constructor
  · intro h
    refine spread_affects _ (fun other hother => ?_) record h
    exact .here (mem_failures_wire.1 hother)
  · intro h
    induction h with
    | here h =>
      obtain ⟨unit, hunit, rfl, failure, hwire⟩ := h
      exact hown unit hunit failure hwire
    | needs hunit hrequest htarget _ ih =>
      have hdependent := mem_dependentsOf.2 ⟨_, hunit, rfl, _, hrequest, htarget⟩
      exact (hspread _ _ ih hdependent).resolve_left List.not_mem_nil

/-- A record of the batch is committed, or it breaks. -/
theorem commits_or_breaks (hproper : batch.Proper) {unit : LinkUnit} (hunit : unit ∈ batch.units) :
    (∃ wiring, batch.Commits unit wiring) ∨ batch.Breaks unit.record := by
  by_cases hbreaks : batch.Breaks unit.record
  · exact .inr hbreaks
  · cases hwire : batch.wire unit with
    | error failure => exact absurd (.here ⟨unit, hunit, rfl, failure, hwire⟩) hbreaks
    | ok wiring => exact .inl ⟨wiring, hunit, hwire, fun h => hbreaks ((fails_iff hproper).1 h)⟩

theorem Commits.not_breaks (hproper : batch.Proper) {unit : LinkUnit} {wiring : Wiring}
    (h : batch.Commits unit wiring) : ¬ batch.Breaks unit.record :=
  fun hbreaks => h.sound ((fails_iff hproper).2 hbreaks)

/-- The names that stars lead to cannot be collected from the record. -/
inductive StarFault (batch : Batch) : Ref .record → Prop where
  | outside {record : Ref .record} {failure : Failure} : batch.unitOf record = none →
      batch.outside record = .error failure → StarFault batch record
  | unresolved {record : Ref .record} {unit : LinkUnit} {failure : Failure} :
      batch.unitOf record = some unit → unit.starRecords = .error failure →
        StarFault batch record
  | star {record target : Ref .record} {unit : LinkUnit} {targets : List (Ref .record)} :
      batch.unitOf record = some unit → unit.starRecords = .ok targets → target ∈ targets →
        StarFault batch target → StarFault batch record

theorem starFault_of_starNames {reserved : String} : ∀ (fuel : Nat)
    {visited pending : List (Ref .record)} {names : List String} {failure : Failure},
      batch.starNames reserved fuel visited pending names = .error failure →
        ∃ record ∈ pending, batch.StarFault record
  | 0, _, _, _, _, h => nomatch h
  | _ + 1, _, [], _, _, h => nomatch h
  | fuel + 1, visited, record :: pending, names, failure, h => by
    unfold starNames at h
    cases hunit : batch.unitOf record with
    | none =>
      rw [hunit] at h
      dsimp only at h
      cases hexports : batch.outside record with
      | error _ => exact ⟨record, List.mem_cons_self, .outside hunit hexports⟩
      | ok exports =>
        rw [hexports] at h
        obtain ⟨other, hmem, hfault⟩ := starFault_of_starNames fuel h
        exact ⟨other, List.mem_cons_of_mem _ hmem, hfault⟩
    | some unit =>
      rw [hunit] at h
      dsimp only at h
      split at h
      · obtain ⟨other, hmem, hfault⟩ := starFault_of_starNames fuel h
        exact ⟨other, List.mem_cons_of_mem _ hmem, hfault⟩
      · cases htargets : unit.starRecords with
        | error _ => exact ⟨record, List.mem_cons_self, .unresolved hunit htargets⟩
        | ok targets =>
          rw [htargets] at h
          obtain ⟨other, hmem, hfault⟩ := starFault_of_starNames fuel h
          rcases List.mem_append.1 hmem with hmem | hmem
          · exact ⟨record, List.mem_cons_self, .star hunit htargets (List.mem_reverse.1 hmem) hfault⟩
          · exact ⟨other, List.mem_cons_of_mem _ hmem, hfault⟩

theorem StarFault.not_covered {reserved : String} {visited : List (Ref .record)}
    {names : List String} (hcovers : batch.Covers reserved visited [] names) {record : Ref .record}
    (h : batch.StarFault record) : ¬ (record ∈ visited ∨ batch.Taken reserved names record) := by
  induction h with
  | outside hunit hfailure =>
    rintro (hmem | ⟨-, exports, hexports, -⟩)
    · obtain ⟨unit, hsome, -⟩ := hcovers _ hmem
      rw [hunit] at hsome
      cases hsome
    · rw [hfailure] at hexports
      cases hexports
  | unresolved hunit hfailure =>
    rintro (hmem | ⟨hnone, -⟩)
    · obtain ⟨unit, hsome, -, targets, htargets, -⟩ := hcovers _ hmem
      rw [hunit] at hsome
      cases hsome
      rw [hfailure] at htargets
      cases htargets
    · rw [hunit] at hnone
      cases hnone
  | star hunit htargets htarget _ ih =>
    rintro (hmem | ⟨hnone, -⟩)
    · obtain ⟨unit, hsome, -, targets, htargets', hall⟩ := hcovers _ hmem
      rw [hunit] at hsome
      cases hsome
      rw [htargets] at htargets'
      cases htargets'
      rcases hall _ htarget with hvisited | hpending | htaken
      · exact ih (.inl hvisited)
      · cases hpending
      · exact ih (.inr htaken)
    · rw [hunit] at hnone
      cases hnone

/-- What a record may export is known, but for faults that its stars lead to. -/
theorem exportableNames_fails_iff (hproper : batch.Proper) {unit : LinkUnit}
    (hunit : unit ∈ batch.units) :
    (∃ failure, batch.exportableNames unit = .error failure) ↔ batch.StarFault unit.record := by
  have hself := hproper.unitOf unit hunit
  constructor
  · rintro ⟨failure, h⟩
    unfold exportableNames at h
    cases htargets : unit.starRecords with
    | error _ => exact .unresolved hself htargets
    | ok targets =>
      rw [htargets] at h
      obtain ⟨record, hmem, hfault⟩ := starFault_of_starNames _ h
      exact .star hself htargets (List.mem_reverse.1 hmem) hfault
  · intro hfault
    cases hnames : batch.exportableNames unit with
    | error failure => exact ⟨failure, rfl⟩
    | ok names =>
      obtain ⟨-, visited, hcovers, hmem⟩ := exportableNames_covers hproper hunit hnames
      exact absurd (.inl hmem) (hfault.not_covered hcovers)

end Batch

end ModuleLoader
