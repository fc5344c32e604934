import ModuleLoader.Proofs.Chronicles
/-!
What becomes of a group of records that run together: all of them complete, or one of them fails, by
what a body threw or because of a record that the group needs.
-/

namespace ModuleLoader
set_option autoImplicit false

namespace Host

/-- The record failed and was not linked before. -/
def DroppedIn (events : List Milestone) (ref : Ref .record) : Prop :=
  ∃ before, (.moved ref .failed :: before) <:+ events ∧ .moved ref .linked ∉ before

/-- The body of the record threw a value. -/
def Threw (host : Host) (ref : Ref .record) (value : Value) : Prop :=
  .moved ref .executing ∈ host.chronicle ∧
    (host.record ref).error = some (.initialization (host.record ref).key value)

/-- The failure is the record's own. -/
def FailsBy (host : Host) (ref : Ref .record) (failure : Failure) : Prop :=
  (host.record ref).error = some failure ∧
    (DroppedIn host.chronicle ref ∨ ∃ value, host.Threw ref value)

/-- The record, or one that shares its completion, has failed. -/
def Down (host : Host) (ref : Ref .record) : Prop :=
  ∃ other failure, (other = ref ∨ ∃ ready, (host.record ref).ready = some ready ∧
    (host.record other).ready = some ready) ∧ (host.record other).error = some failure

/-- Who needs the record fails with a failure that comes from a record that it covers. -/
structure Lost (host : Host) (ref : Ref .record) (failure : Failure) : Prop where
  down : host.Down ref
  origin : ∃ origin, host.Covers ref origin ∧ host.FailsBy origin failure

/-- The record has completed, or failed with this failure. -/
def EndsBy (host : Host) (failure : Failure) (ref : Ref .record) : Prop :=
  .moved ref .ready ∈ host.chronicle ∨ (host.record ref).error = some failure

/-- A group fails with a failure that comes from a record that it covers, because one of its bodies
threw or because of a record outside that it needs. Whichever of its records had not completed fails
with it. -/
structure Falls (host : Host) (ready : Ref .ready) (failure : Failure) : Prop where
  fallen : ∃ ref, (host.record ref).ready = some ready ∧ (host.record ref).error = some failure
  ends : ∀ ref, (host.record ref).ready = some ready → host.EndsBy failure ref
  origin : ∃ ref origin, (host.record ref).ready = some ready ∧ host.Covers ref origin ∧
    host.FailsBy origin failure
  cause : (∃ ref value, (host.record ref).ready = some ready ∧ host.Threw ref value) ∨
    (∀ ref, (host.record ref).ready = some ready → (host.record ref).error = some failure) ∧
      ∃ ref needed, (host.record ref).ready = some ready ∧
        needed ∈ host.dependencies (host.record ref) ∧ (host.record needed).ready ≠ some ready ∧
          host.Down needed

/-- What a completion comes to. -/
def CameTo (host : Host) (ready : Ref .ready) : Except Failure Unit → Prop
  | .ok () => host.GroupReady host.chronicle ready
  | .error failure => host.Falls ready failure

/-- A group that falls is lost to those that need one of its records. -/
theorem Falls.lost {host : Host} {ready : Ref .ready} {failure : Failure}
    (h : host.Falls ready failure) (hrecorded : host.Recorded) {ref : Ref .record}
    (href : (host.record ref).ready = some ready) : host.Lost ref failure := by
  obtain ⟨fallen, hfallen, hfound⟩ := h.fallen
  obtain ⟨member, origin, hmember, hcovers, hfails⟩ := h.origin
  exact ⟨⟨fallen, failure, .inr ⟨ready, href, hfallen⟩, hfound⟩, origin,
    (hrecorded.together ref member ready href hmember).trans hcovers, hfails⟩

end Host

namespace Carries

variable {host host' : Host}

theorem threw (h : Carries host host') {ref : Ref .record} {value : Value}
    (hthrew : host.Threw ref value) : host'.Threw ref value := by
  obtain ⟨hexecuting, herror⟩ := hthrew
  have href : (host.records.get? ref).isSome := by
    cases hrecord : host.records.get? ref with
    | some record => rfl
    | none =>
      unfold Host.record at herror
      rw [hrecord] at herror
      cases herror
  refine ⟨h.later.chronicle.subset hexecuting, ?_⟩
  rw [(h.later.record href).key]
  exact h.error ref _ herror

theorem failsBy (h : Carries host host') {ref : Ref .record} {failure : Failure}
    (hfails : host.FailsBy ref failure) : host'.FailsBy ref failure := by
  refine ⟨h.error ref failure hfails.1, ?_⟩
  rcases hfails.2 with ⟨before, hbefore, hnot⟩ | ⟨value, hthrew⟩
  · exact .inl ⟨before, hbefore.trans h.later.chronicle, hnot⟩
  · exact .inr ⟨value, h.threw hthrew⟩

theorem down (h : Carries host host') {ref : Ref .record} (hdown : host.Down ref) :
    host'.Down ref := by
  obtain ⟨other, failure, hother, herror⟩ := hdown
  refine ⟨other, failure, hother.imp_right ?_, h.error other failure herror⟩
  rintro ⟨ready, href, hready⟩
  exact ⟨ready, h.ready ref ready href, h.ready other ready hready⟩

theorem lost (h : Carries host host') {ref : Ref .record} {failure : Failure}
    (hlost : host.Lost ref failure) : host'.Lost ref failure := by
  obtain ⟨origin, hcovers, hfails⟩ := hlost.origin
  exact ⟨h.down hlost.down, origin, h.later.covers hcovers, h.failsBy hfails⟩

theorem endsBy (h : Carries host host') {failure : Failure} {ref : Ref .record}
    (hends : host.EndsBy failure ref) : host'.EndsBy failure ref :=
  hends.imp (fun hmoved => h.later.chronicle.subset hmoved) (h.error ref failure)

theorem falls (h : Carries host host') (hrecorded : host.Recorded) {ready : Ref .ready}
    {failure : Failure} (hfalls : host.Falls ready failure) : host'.Falls ready failure := by
  obtain ⟨fallen, hfallen, hfound⟩ := hfalls.fallen
  obtain ⟨member, origin, hmember, hcovers, hfails⟩ := hfalls.origin
  have hexist := (hrecorded.ready fallen ready hfallen).2
  refine ⟨⟨fallen, h.ready fallen ready hfallen, h.error fallen failure hfound⟩,
    fun ref href => h.endsBy (hfalls.ends ref (h.group ref ready hexist href)),
    ⟨member, origin, h.ready member ready hmember, h.later.covers hcovers, h.failsBy hfails⟩, ?_⟩
  rcases hfalls.cause with ⟨ref, value, href, hthrew⟩ | ⟨hall, ref, needed, href, hneeded, hout, hdown⟩
  · exact .inl ⟨ref, value, h.ready ref ready href, h.threw hthrew⟩
  · refine .inr ⟨fun ref href => h.error ref failure (hall ref (h.group ref ready hexist href)), ref, needed,
      h.ready ref ready href, h.later.mem_dependencies hneeded, fun hready => ?_,
      h.down hdown⟩
    exact hout (h.group needed ready (hrecorded.ready ref ready href).2 hready)

theorem cameTo (h : Carries host host') (hrecorded : host.Recorded) {ready : Ref .ready}
    (hexist : (host.readies.get? ready).isSome) {result : Except Failure Unit}
    (hcame : host.CameTo ready result) : host'.CameTo ready result := by
  match result, hcame with
  | .ok (), hready => exact h.groupReady h.later.chronicle hexist hready
  | .error _, hfalls => exact h.falls hrecorded hfalls

end Carries

end ModuleLoader
