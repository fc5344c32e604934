import ModuleLoader.Proofs.Outcomes
/-!
What the phases of records say about what was reported of them. The records of a component share one
completion, but complete one after another. When it succeeds they are all ready; when it fails, those that
had completed before one of their bodies threw stay ready, and the others have failed with it. An import that
succeeds finds all that its record relies on ready, or was scheduled before some of it had been linked.
-/

namespace ModuleLoader
set_option autoImplicit false

namespace Host

variable {host : Host} {ref other : Ref .record} {ready : Ref .ready} {failure : Failure}
  {result : Except Failure Unit} {before : List Milestone} {node : Node} {space : Ref .exports}

/-- The body of a record threw when another record had completed. -/
def ThrewAfter (host : Host) (ref other : Ref .record) (failure : Failure) : Prop :=
  ∃ value before, failure = .initialization (host.record ref).key value ∧
    (host.record ref).error = some failure ∧ (.moved ref .executing :: before) <:+ host.chronicle ∧
      .moved other .ready ∈ before

namespace Coherent

variable (h : host.Coherent)
include h

/-- A record that failed never completed. -/
theorem not_ready_of_error (herror : (host.record ref).error = some failure) :
    .moved ref .ready ∉ host.chronicle := by
  intro hready
  rw [h.error_of_ready hready] at herror
  cases herror

/-- Whoever shares a completion with a record whose body threw fails with it, unless it had completed before. -/
theorem threwAfter {value : Value} (hother : (host.record other).ready = some ready)
    (href : (host.record ref).ready = some ready) (hthrew : host.Threw other value)
    (hready : .moved ref .ready ∈ host.chronicle) :
    host.ThrewAfter other ref (.initialization (host.record other).key value) := by
  obtain ⟨hexecuting, herror⟩ := hthrew
  obtain ⟨before, hbegins⟩ := exists_suffix_of_mem hexecuting
  refine ⟨value, before, rfl, herror, hbegins, ?_⟩
  obtain ⟨root, groups, done, rest, own, hscheduled, hmembers, hgrouped, hdone, -⟩ :=
    (h.told _ before hbegins).2.2 rfl
  obtain rfl : own = ready := Option.some.inj
    (((hgrouped other).1 (List.mem_append_right _ List.mem_cons_self)).symm.trans hother)
  rcases List.mem_append.1 ((hgrouped ref).2 href) with hmem | hmem
  · exact hdone ref hmem
  · exfalso
    rcases List.mem_cons.1 hmem with rfl | hmem
    · exact h.not_ready_of_error herror hready
    · -- A later record would have begun only after the one that threw had completed.
      obtain ⟨middle, last, rfl⟩ := List.append_of_mem hmem
      rw [← List.cons_append, ← List.append_assoc] at hmembers
      obtain ⟨earlier, hearlier⟩ := exists_suffix_of_mem (h.told.executing_of_ready hready)
      have hcompleted := h.told.begins_after (((List.suffix_cons _ _).trans hbegins).subset hscheduled)
        hmembers hearlier other (List.mem_append_right _ List.mem_cons_self)
      exact h.not_ready_of_error herror (((List.suffix_cons _ _).trans hearlier).subset hcompleted)

/-- A group falls with a record that is ready only when a body threw after that record had completed. -/
theorem falls_after (hfalls : host.Falls ready failure) (href : (host.record ref).ready = some ready)
    (hready : .moved ref .ready ∈ host.chronicle) :
    ∃ other, (host.record other).ready = some ready ∧ host.ThrewAfter other ref failure := by
  rcases hfalls.cause with ⟨other, value, hother, hthrew⟩ | ⟨hall, -⟩
  · refine ⟨other, hother, ?_⟩
    have hafter := h.threwAfter hother href hthrew hready
    rcases hfalls.ends other hother with hdone | herror
    · exact absurd hdone (h.not_ready_of_error hthrew.2)
    · rwa [Option.some.inj (herror.symm.trans hthrew.2)]
  · exact absurd hready (h.not_ready_of_error (hall ref href))

end Coherent

/-- In every session, a completion that succeeds finds its records ready. One that fails finds each of them
failed with its failure, or ready: then the body of another of them threw afterwards. -/
theorem resolved_phases (hrun : Run default host) (href : (host.record ref).ready = some ready)
    (hresolves : host.Resolves ready result) :
    (result = .ok () → (host.record ref).phase = .ready) ∧
      ∀ failure, result = .error failure →
        (host.record ref).phase = .failed ∧ (host.record ref).error = some failure ∨
          (host.record ref).phase = .ready ∧
            ∃ other, (host.record other).ready = some ready ∧ host.ThrewAfter other ref failure := by
  have h := fresh_coherent.run hrun
  have hcame := h.cameTo hresolves
  constructor
  · rintro rfl
    exact h.phase_of_ready (hcame ref href)
  · rintro failure rfl
    rcases Falls.ends hcame ref href with hready | herror
    · exact .inr ⟨h.phase_of_ready hready, h.falls_after hcame href hready⟩
    · exact .inl ⟨(h.recorded.failed ref).2 (herror ▸ rfl), herror⟩

/-- A record that shares its completion with no other one is ready exactly when that succeeds. -/
theorem resolved_alone (hrun : Run default host) (href : (host.record ref).ready = some ready)
    (halone : ∀ other, (host.record other).ready = some ready → other = ref)
    (hresolves : host.Resolves ready result) : (host.record ref).phase = .ready ↔ result = .ok () := by
  have h := fresh_coherent.run hrun
  obtain ⟨hsucceeds, hfails⟩ := resolved_phases hrun href hresolves
  refine ⟨fun hphase => ?_, hsucceeds⟩
  match result with
  | .ok () => rfl
  | .error failure =>
    rcases hfails failure rfl with ⟨hfailed, -⟩ | ⟨-, other, hother, value, before, -, herror, -⟩
    · cases hphase.symm.trans hfailed
    · obtain rfl := halone other hother
      cases hphase.symm.trans ((h.recorded.failed other).2 (herror ▸ rfl))

/-- The third module stays ready, though the second one, which it shares its completion with, throws. -/
example : (wovenRun.record ⟨2⟩).ready = (wovenRun.record ⟨1⟩).ready ∧ (wovenRun.record ⟨2⟩).phase = .ready ∧
    (wovenRun.record ⟨1⟩).phase = .failed := by
  decide +kernel

namespace Coherent

/-- What a record relies on is ready when it has settled, or a schedule missed some of it. -/
theorem reaches_ready (h : host.Coherent) (hbefore : before <:+ host.chronicle)
    (hgiven : host.GivenIn before ref) (hrelies : host.Relies ref other) :
    host.SettledIn before other ∨ ∃ missed, host.Relies ref missed ∧ host.MissedIn before missed := by
  induction hrelies with
  | refl => exact hgiven.imp_right fun hmissed => ⟨ref, .refl, hmissed⟩
  | @tail middle last hmiddle hneeded ih =>
    rcases ih with hsettled | hmissed
    · exact (h.given_dependency hbefore hsettled hneeded).imp_right fun hmissed =>
        ⟨last, hmiddle.tail hneeded, hmissed⟩
    · exact .inr hmissed

end Coherent

/-- In every session, an import that succeeds answers the namespace of the record of its key, and all that
this record relies on is ready, unless some of it had not been linked when a root that covers it was scheduled. -/
theorem imported_reaches (hrun : Run default host)
    (himported : (.imported node space :: before) <:+ host.chronicle) :
    ∃ ref, host.lookup? node = some ref ∧ (host.record ref).space = space ∧
      ((∀ other, host.Relies ref other → host.ReadyIn before other) ∨
        ∃ missed, host.Relies ref missed ∧ host.MissedIn before missed) := by
  have h := fresh_coherent.run hrun
  obtain ⟨ref, hlookup, hspace, hgiven⟩ := h.told _ before himported
  refine ⟨ref, hlookup, hspace, or_iff_not_imp_right.2 fun hnone other hrelies => ?_⟩
  exact ((h.reaches_ready ((List.suffix_cons _ _).trans himported) hgiven hrelies).resolve_right
    hnone).readyIn

/-- Where each schedule found all that its root covers past linking, an import succeeds only when its record
and all that it relies on are ready. -/
theorem imported_ready (hrun : Run default host) (hprepared : host.Prepared)
    (himported : (.imported node space :: before) <:+ host.chronicle) :
    ∃ ref, host.lookup? node = some ref ∧ (host.record ref).space = space ∧
      ∀ other, host.Relies ref other → host.ReadyIn before other := by
  obtain ⟨ref, hlookup, hspace, hready | ⟨missed, -, root, groups, earlier, hearlier, hcovers, hexist, hnot⟩⟩ :=
    imported_reaches hrun himported
  · exact ⟨ref, hlookup, hspace, hready⟩
  · exact absurd (hprepared root groups earlier (hearlier.trans ((List.suffix_cons _ _).trans himported))
      missed hcovers hexist) hnot

end Host

end ModuleLoader
