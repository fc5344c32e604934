import ModuleLoader.Proofs.Drafts
import ModuleLoader.Proofs.Installations
/-!
Imports keep a host coherent: a closure is loaded, linked and scheduled, and the namespace of its root is
given only when the record has settled, or a schedule has missed it.
-/

namespace ModuleLoader
set_option autoImplicit false

variable {host : Host} {look : LookReady} {node : Node}

namespace Act

/-- Loading keeps a host coherent. -/
theorem Loads.coheres {α : Type} {act : Act α} {post : α → Host → Prop} (h : host.Coherent)
    (hact : act.Loads host post) : act.Coheres [] host fun result after =>
      Grows host after ∧ post result after := by
  refine After.mono hact fun result after ⟨hloads, hgrows, hpost⟩ => ?_
  exact ⟨h.grows hloads hgrows, h.follows hgrows.steady, hgrows, hpost⟩

/-- The namespace of a record is given when nobody waits for the record any more. -/
theorem concludeImport_coheres (h : host.Coherent) {ref : Ref .record} (hlookup : host.lookup? node = some ref)
    (hgiven : host.GivenIn host.chronicle ref) :
    (concludeImport node).Coheres [] host fun result _ => result = .ok (host.record ref).space := by
  obtain ⟨entry, hentry, rfl⟩ := Option.map_eq_some_iff.1 hlookup
  have hspace : host.exportsOf node = .ok (host.record entry.record).space := by
    unfold Host.exportsOf
    rw [Host.entryOf_eq_ok.2 hentry]
  unfold concludeImport
  refine .getBind ?_
  rw [hspace]
  have hfair : host.Fair host.chronicle (.imported node (host.record entry.record).space) :=
    ⟨entry.record, hlookup, rfl, hgiven⟩
  obtain ⟨hmarked, hsteady⟩ := h.marked
    (fun ref phase (heq : .imported node _ = Milestone.moved ref phase) => nomatch heq)
    (fun _ _ heq => nomatch heq) hfair
  exact ⟨hmarked, h.follows hsteady, rfl⟩

end Act

variable (hlook : look.Coheres)
include hlook

/-- A look at what stands for a record goes on standing for it, or tells what became of it. -/
theorem Completion.poll_coheres (h : host.Coherent) (completion : Completion) (waker : Waker) :
    (completion.poll look waker).Coheres [] host fun result after =>
      ∀ ref, completion.StandsFor after ref → match result with
        | .pending next => next.StandsFor after ref
        | .ready result => (Completion.known result).StandsFor after ref := by
  cases completion with
  | known result => exact .pure h fun _ hstands => hstands
  | shared watch =>
    refine (hlook host watch waker h).bind fun result after hafter _ hresult => ?_
    cases result with
    | pending next =>
      refine .pure hafter fun ref (hready : (after.record ref).ready = some watch.job) => ?_
      rw [← (show next.job = watch.job from hresult)] at hready
      exact hready
    | ready result =>
      refine .pure hafter fun ref (hready : (after.record ref).ready = some watch.job) => ?_
      match result, hresult with
      | .ok (), hsettled => exact .inl (.inr ⟨watch.job, hready, hsettled⟩)
      | .error failure, hfalls => exact Host.Falls.lost hfalls hafter.recorded hready

namespace ImportWork

theorem awaitRun_coheres (h : host.Coherent) (hbuilt : host.Built node.compartment) {completion : Completion}
    {ref : Ref .record} (hlookup : host.lookup? node = some ref)
    (hstands : completion.StandsFor host ref) (waker : Waker) :
    (awaitRun look node completion waker).Coheres [] host fun result after =>
      ∀ next, result = .pending next → next.Good after := by
  unfold awaitRun
  refine (completion.poll_coheres hlook h waker).bind fun result after hafter hfollows hresult => ?_
  have hlookup := hfollows.later.lookup? hlookup
  have hresult := hresult ref (hstands.carries h.recorded hfollows.toCarries)
  match result, hresult with
  | .pending next, hstands =>
    refine .pure hafter fun _ heq => ?_
    cases heq
    refine ⟨hfollows.later.keeps.built _ hbuilt, (fun _ heq => nomatch heq), fun completion heq => ?_⟩
    cases heq
    exact ⟨ref, hlookup, hstands⟩
  | .ready (.error failure), _ => exact .pure hafter fun _ heq => nomatch heq
  | .ready (.ok ()), hgiven =>
    exact (Act.concludeImport_coheres hafter hlookup hgiven).bind
      fun _ _ hlast _ _ => .pure hlast fun _ heq => nomatch heq

/-- An import that goes on stays good. -/
theorem poll_coheres (h : host.Coherent) {work : ImportWork} (hwork : work.Good host) (waker : Waker) :
    (work.poll look waker).Coheres [] host fun result after =>
      ∀ next, result = .pending next → next.Good after := by
  unfold poll
  split
  · rename_i completion hstage
    obtain ⟨ref, hlookup, hstands⟩ := hwork.running completion hstage
    exact awaitRun_coheres hlook h hwork.built hlookup hstands waker
  · rename_i stage hstage
    refine (Act.Loads.coheres h (stage.poll_loads h.loads (hwork.loading stage hstage) waker)).bind
      fun result after hafter hfollows hresult => ?_
    have hbuilt := hfollows.later.keeps.built _ hwork.built
    match result, hresult with
    | .pending next, ⟨_, hgood⟩ =>
      refine .pure hafter fun _ heq => ?_
      cases heq
      refine ⟨hbuilt, fun _ heq => ?_, fun _ heq => nomatch heq⟩
      cases heq
      exact hgood
    | .ready (.error failure), _ => exact .pure hafter fun _ heq => nomatch heq
    | .ready (.ok ()), _ =>
      refine (Act.linkAndSchedule_coheres hafter work.node).bind fun result last hlast hfollows' hresult => ?_
      cases result with
      | error failure => exact .pure hlast fun _ heq => nomatch heq
      | ok completion =>
        obtain ⟨ref, hlookup, hstands⟩ := hresult
        exact awaitRun_coheres hlook hlast (hfollows'.later.keeps.built _ hbuilt) hlookup hstands waker

end ImportWork

namespace Act

/-- A look at once fails when the record has to be waited for, or with what the record fails with. -/
theorem runNow_coheres (h : host.Coherent) {completion : Completion} {ref : Ref .record}
    (hlookup : host.lookup? node = some ref) (hstands : completion.StandsFor host ref) :
    (runNow look node completion).Coheres [] host fun result after => ∀ failure, result = .error failure →
      failure = .unavailable node.key .unsettled ∨ after.Lost ref failure := by
  unfold runNow
  refine (completion.poll_coheres hlook h .nobody).bind fun result after hafter hfollows hresult => ?_
  have hresult := hresult ref (hstands.carries h.recorded hfollows.toCarries)
  match result, hresult with
  | .ready (.error failure), hlost =>
    refine .pure hafter fun _ heq => ?_
    cases heq
    exact .inr hlost
  | .ready (.ok ()), hgiven =>
    refine (concludeImport_coheres hafter (hfollows.later.lookup? hlookup) hgiven).mono
      fun result last hspace failure heq => ?_
    cases hspace.symm.trans heq
  | .pending next, _ =>
    refine .afterAside next.forget_aside hafter fun _ _ hlast _ _ => .pure hlast fun _ heq => ?_
    cases heq
    exact .inl rfl

/-- A closure that was entered is linked and scheduled, and looked at once. -/
theorem runEntered_coheres (h : host.Coherent) : Coheres (do
    match ← linkAndSchedule node with
    | .error failure => return .error failure
    | .ok completion => runNow look node completion : Act (Except Failure (Ref .exports))) [] host
      fun result after => ∀ failure, result = .error failure → (host.entryAt? node).isSome →
        failure = .unavailable node.key .unsettled ∨
          ∃ ref, after.lookup? node = some ref ∧ after.Lost ref failure := by
  refine (linkAndSchedule_coheres h node).bind fun result last hlast _ hresult => ?_
  cases result with
  | error failure =>
    refine .pure hlast fun _ _ hentry => ?_
    rw [(show host.entryAt? node = none from hresult)] at hentry
    cases hentry
  | ok completion =>
    obtain ⟨ref, hlookup, hstands⟩ := hresult
    obtain ⟨hafter, hfollows, hrefused⟩ := runNow_coheres hlook hlast hlookup hstands
    exact ⟨hafter, hfollows, fun failure heq _ => (hrefused failure heq).imp_right fun hlost =>
      ⟨ref, hfollows.later.lookup? hlookup, hlost⟩⟩

/-- An import at once keeps a host coherent. -/
theorem importNow_coheres (h : host.Coherent) (hbuilt : host.Built node.compartment) :
    (importNow look node).Coheres [] host fun _ _ => True := by
  unfold importNow
  refine (Loads.coheres h (draft_loads h.loads hbuilt)).bind fun result after hafter _ hresult => ?_
  cases result with
  | error failure => exact .pure hafter trivial
  | ok drafted =>
    refine .getBind ?_
    split
    · exact .pure hafter trivial
    · exact (Loads.coheres hafter (enterDraft_loads hafter.loads (hresult.2 drafted rfl))).bind
        fun _ entered hentered _ _ => (runEntered_coheres hlook hentered).mono fun _ _ _ => trivial

end Act

end ModuleLoader
