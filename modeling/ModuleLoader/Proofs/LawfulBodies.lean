import ModuleLoader.Proofs.Laws
/-!
Bodies keep every law that loading, linking and moving records keep: one instruction does, whatever it
imports, so a body does as far as it goes, and so does the run of a component.
-/

namespace ModuleLoader
set_option autoImplicit false

variable {law : Law} (kept : law.Kept) {look : LookReady} (hlook : look.Obeys law) {host : Host}

/-- Bodies are carried out under the law. -/
def Law.regime (law : Law) : Regime where
  stands := law.Stands
  rel := law.rel
  scope host scope := host.Built scope.home
  work host work := work.Sane law host

theorem BodyWork.fits_iff {work : BodyWork} : work.Fits law.regime host ↔ work.Sane law host := by
  have hawaiting : work.awaiting.Fits law.regime host ↔ work.awaiting.Sane law host := by
    cases work.awaiting <;> exact Iff.rfl
  exact ⟨fun h => ⟨h.scope, hawaiting.1 h.awaiting⟩, fun h => ⟨h.built, hawaiting.2 h.awaiting⟩⟩

include kept hlook in
theorem Law.regime_kept : law.regime.Kept look where
  refl := kept.refl
  trans := kept.trans
  scopes hrel hscope := (kept.later hrel).keeps.built _ hscope
  works hrel hwork := ImportWork.Sane.lasts kept hrel hwork
  aside h haside := Stands.aside kept h haside
  assigns {_ scope} h _ name value :=
    (Act.Obeys.advance kept (Act.assignIn_advance scope.record name value) h).imp_right And.left
  starts h hscope key := ImportWork.start_sane kept h hscope
  polls h hwork waker := ImportWork.poll_obeys kept hlook hwork h waker
  imports {_ scope} h hscope key := by
    have hnode : Host.Built _ (Node.mk scope.home key).compartment := hscope
    exact (Act.importNow_obeys kept hlook hnode h).imp_right And.left

/-- What a body comes to, as far as it goes: if it is suspended, it is sane. -/
def Body.Sanely (law : Law) (result : Poll BodyWork (Except Value Unit)) (host : Host) : Prop :=
  ∀ next, result = .pending next → next.Sane law host

theorem Act.Respects.obeys {act : Act (Poll BodyWork (Except Value Unit))}
    (h : act.Respects law.regime host (Body.Polled law.regime)) :
    act.Obeys law host (Body.Sanely law) :=
  ⟨h.1, h.2.1, fun next heq => BodyWork.fits_iff.1 (h.2.2 next heq)⟩

namespace Act.Obeys

variable {α β : Type}
include kept

theorem afterAside {act : Act α} {next : α → Act β} {post : β → Host → Prop} (hact : act.IsAside)
    (h : law.Stands host)
    (hnext : ∀ result host', law.Stands host' → (next result).Obeys law host' post) :
    (act >>= next).Obeys law host post :=
  bind kept (aside kept hact h) fun result host' hafter _ _ => hnext result host' hafter

theorem afterStore {change : StateM Store α} {next : α → Act β} {post : β → Host → Prop}
    (h : law.Stands host)
    (hnext : ∀ result host', law.Stands host' → (next result).Obeys law host' post) :
    (Act.onStore change >>= next).Obeys law host post :=
  bind kept (onStore kept change h) fun result host' hafter _ _ => hnext result host' hafter

end Act.Obeys

open Act.Obeys

section
include kept

theorem Act.scopeOf_obeys {ref : Ref .record} {record : Record}
    (hrecord : host.records.get? ref = some record) (source : Source) (h : law.Stands host) :
    (scopeOf ref source).Obeys law host fun scope host' => host'.Built scope.home := by
  refine (scopeOf_scopes host ref source).mono fun scope after ⟨haside, _, hhome⟩ => ?_
  obtain ⟨hstands, hrel⟩ := h.aside kept haside
  refine ⟨hstands, hrel, (kept.later hrel).keeps.built _ ?_⟩
  rw [hhome, Host.record, hrecord]
  exact kept.homes h.inv ref record hrecord

theorem Act.conclude_obeys (ref : Ref .record) (result : Except Value Unit) (h : law.Stands host) :
    (conclude ref result).Obeys law host fun result _ =>
      ∀ failure, result = .error failure → law.fine failure := by
  cases result with
  | ok _ =>
    refine Obeys.bind kept (.advance kept (advance_advance ref (by decide)) h) fun _ _ h _ _ => ?_
    refine .pure kept h ?_
    rintro _ ⟨⟩
  | error thrown =>
    have hfine := kept.thrown (host.record ref).key thrown
    refine .getBind (Obeys.bind kept (.advance kept (fail_advance ref hfine) h) fun _ _ h _ _ => ?_)
    refine .pure kept h ?_
    rintro _ ⟨⟩
    exact hfine

end

namespace Act

include kept hlook

/-- What the start of a record comes to: a sane body, or a result that is fine. -/
def Started (law : Law) (result : Poll BodyWork (Except Failure Unit)) (host : Host) : Prop :=
  match result with
  | .pending body => body.Sane law host
  | .ready result => ∀ failure, result = .error failure → law.fine failure

omit hlook in
theorem concluded_obeys (ref : Ref .record) (result : Except Value Unit) (h : law.Stands host) :
    (do return .ready (← conclude ref result) : Act (Poll BodyWork (Except Failure Unit))).Obeys law
      host (Started law) :=
  Obeys.bind kept (conclude_obeys kept ref result h)
    fun _ _ hafter _ hresult => .pure kept hafter hresult

theorem startBody_obeys {ref : Ref .record} (h : law.Stands host) (waker : Waker) :
    (startBody look ref waker).Obeys law host (Started law) := by
  refine .getBind ?_
  split
  · exact concluded_obeys kept ref (.ok ()) h
  · rename_i source hsource
    cases hrecord : host.records.get? ref with
    | none =>
      unfold Host.record at hsource
      rw [hrecord] at hsource
      cases hsource
    | some record =>
      refine Obeys.bind kept (scopeOf_obeys kept hrecord source h) fun scope after hafter _ hscope => ?_
      split
      · exact concluded_obeys kept ref (.ok ()) hafter
      · rename_i body _
        exact Obeys.bind kept
          (Body.runSynchronously_respects (Law.regime_kept kept hlook) hscope body hafter)
          fun result _ hlast _ _ => concluded_obeys kept ref result hlast
      · rename_i body _
        refine Obeys.bind kept
          (startAsync_respects (Law.regime_kept kept hlook) hscope body hafter waker).obeys
            fun result last hlast _ hresult => ?_
        cases result with
        | pending work => exact .pure kept hlast (hresult work rfl)
        | ready result => exact concluded_obeys kept ref result hlast

theorem startRecord_obeys (ref : Ref .record) (h : law.Stands host) (waker : Waker) :
    (startRecord look ref waker).Obeys law host (Started law) := by
  refine .getBind ?_
  dsimp only
  split
  · exact Obeys.bind kept (.advance kept (advance_advance ref (by decide)) h)
      fun _ _ hafter _ _ => startBody_obeys kept hlook hafter waker
  · split
    · refine .pure kept h ?_
      rintro _ ⟨⟩
      exact kept.excused h.inv ref
    · refine .pure kept h ?_
      rintro _ ⟨⟩

end Act

namespace ComponentRun

include kept

/-- What a run comes to: it goes on sanely, or ends with a result that is fine. -/
def Polled (law : Law) (result : Poll ComponentRun (Except Failure Unit)) (host : Host) : Prop :=
  match result with
  | .pending run => run.Sane law host
  | .ready result => ∀ failure, result = .error failure → law.fine failure

/-- When a record of a component fails, all after it fail. -/
theorem failRest_obeys {failure : Failure} (hfailure : law.fine failure)
    (rest : List (Ref .record)) (h : law.Stands host) :
    (do
      Act.failAll failure rest
      return .ready (.error failure) : Act (Poll ComponentRun (Except Failure Unit))).Obeys law host
        (Polled law) := by
  refine Act.Obeys.bind kept (.advance kept (Act.failAll_advance hfailure rest) h)
    fun _ _ h _ _ => .pure kept h ?_
  rintro _ ⟨⟩
  exact hfailure

include hlook

theorem runRest_obeys (waker : Waker) : ∀ (rest : List (Ref .record)) {host : Host},
    law.Stands host → (runRest look waker rest).Obeys law host (Polled law) := by
  -- By induction on the members that are left.
  intro rest
  induction rest with
  | nil =>
    intro host h
    refine .pure kept h ?_
    rintro _ ⟨⟩
  | cons ref rest ih =>
    intro host h
    refine Act.Obeys.bind kept (Act.startRecord_obeys kept hlook ref h waker)
      fun result after hafter _ hresult => ?_
    cases result with
    | pending work =>
      refine .pure kept hafter ?_
      rintro _ _ ⟨⟩
      exact hresult
    | ready result =>
      cases result with
      | ok _ => exact ih hafter
      | error failure => exact failRest_obeys kept (hresult failure rfl) rest hafter

theorem poll_obeys {run : ComponentRun} (hrun : run.Sane law host) (h : law.Stands host)
    (waker : Waker) : (run.poll look waker).Obeys law host (Polled law) := by
  unfold poll
  split
  · exact runRest_obeys kept hlook waker run.rest h
  · rename_i ref work hcurrent
    refine Act.Obeys.bind kept ((BodyWork.resume_respects (Law.regime_kept kept hlook)
      (BodyWork.fits_iff.2 (hrun ref work hcurrent)) h waker).obeys)
      fun result after hafter _ hresult => ?_
    cases result with
    | pending next =>
      refine .pure kept hafter ?_
      rintro _ _ ⟨⟩
      exact hresult next rfl
    | ready result =>
      refine afterAside kept (Act.note_aside _) hafter fun _ noted hnoted => ?_
      refine Act.Obeys.bind kept (Act.conclude_obeys kept ref result hnoted)
        fun result last hlast _ hresult => ?_
      cases result with
      | ok _ => exact runRest_obeys kept hlook waker run.rest hlast
      | error failure => exact failRest_obeys kept (hresult failure rfl) run.rest hlast

end ComponentRun

end ModuleLoader
