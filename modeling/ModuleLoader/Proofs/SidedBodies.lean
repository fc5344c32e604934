import ModuleLoader.Proofs.SidedImports
/-!
Bodies keep sides apart: a body reads and assigns names of its own scope, and imports from its own
compartment.
-/

namespace ModuleLoader
set_option autoImplicit false

variable {sides : Sides} {host : Host}

/-- Bodies of the acting side are carried out. -/
def Sides.regime (sides : Sides) : Regime where
  stands host := host.Sided sides
  rel := (sides.law sides.active).Moves
  scope host scope := scope.OnSide host sides sides.active
  work host work := work.OnSide host sides sides.active

theorem BodyWork.fits_side {work : BodyWork} :
    work.Fits sides.regime host ↔ work.OnSide host sides sides.active := by
  have hawaiting : work.awaiting.Fits sides.regime host ↔
      work.awaiting.OnSide host sides sides.active := by
    cases work.awaiting <;> exact Iff.rfl
  exact ⟨fun h => ⟨h.scope, hawaiting.1 h.awaiting⟩, fun h => ⟨h.scope, hawaiting.2 h.awaiting⟩⟩

variable {look : LookReady} (hlook : look.Stays sides)
include hlook

theorem Sides.regime_kept : sides.regime.Kept look where
  refl := .refl sides.law_kept
  trans hab hbc := LoadLaw.Moves.trans sides.law_kept hab hbc
  scopes hmoves hscope := Scope.OnSide.carried hmoves.carries hscope
  works hmoves hwork := ImportWork.OnSide.carried hmoves.carries hwork
  aside h haside := Host.Sided.aside h haside
  assigns {host scope} h hscope name value := by
    have hassign := Act.Stays.fills h (Act.assignIn_fills (Host.Sided.apart h) hscope.record.2 name value)
    exact ⟨hassign.1, hassign.2.1⟩
  starts _ hscope key := ImportWork.start_onSide hscope.home
  polls h hwork waker := ImportWork.poll_stays hlook h hwork waker
  imports {host scope} h hscope key := by
    have hnode : sides.of (Node.mk scope.home key).compartment = sides.active := hscope.home
    have himport := Act.importNow_stays hlook h hnode
    exact ⟨himport.1, himport.2.1⟩

namespace Act

omit hlook in
/-- What is said of a body under the regime is said of the side. -/
theorem Respects.stays {act : Act (Poll BodyWork (Except Value Unit))}
    (h : act.Respects sides.regime host (Body.Polled sides.regime)) :
    act.Stays sides host fun result host' =>
      ∀ next, result = .pending next → next.OnSide host' sides sides.active :=
  ⟨h.1, h.2.1, fun next heq => BodyWork.fits_side.1 (h.2.2 next heq)⟩

omit hlook in
theorem concluded_stays (h : host.Sided sides) {ref : Ref .record}
    (href : sides.of ref = sides.active) (result : Except Value Unit) :
    (do return .ready (← conclude ref result) : Act (Poll BodyWork (Except Failure Unit))).Stays sides
      host fun result host' => ∀ next, result = .pending next → next.OnSide host' sides sides.active :=
  (Stays.fills h (conclude_fills h.apart href result)).bind fun _ _ hlast _ _ =>
    .pure hlast fun _ heq => nomatch heq

theorem startBody_stays (h : host.Sided sides) {ref : Ref .record}
    (href : host.OnSide sides sides.active ref) (waker : Waker) :
    (startBody look ref waker).Stays sides host fun result host' =>
      ∀ next, result = .pending next → next.OnSide host' sides sides.active := by
  refine .getBind ?_
  split
  · exact concluded_stays h href.2 (.ok ())
  · rename_i source _
    have hscope : (scopeOf ref source).Stays sides host fun scope host' =>
        scope.OnSide host' sides sides.active := by
      refine (scopeOf_scopes host ref source).mono fun scope viewed hviewed => ?_
      obtain ⟨haside, hrecord, hhome⟩ := hviewed
      obtain ⟨hsided, hmoves⟩ := h.aside haside
      refine ⟨hsided, hmoves, ?_, ?_⟩
      · rw [hhome]
        exact (h.apart.record href).2.home
      · rw [hrecord]
        exact href.mono (Remains.born hmoves.rel)
    refine hscope.bind fun scope viewed hviewed _ hscope => ?_
    split
    · exact concluded_stays hviewed href.2 (.ok ())
    · rename_i body _
      have hrun : (body.runSynchronously look scope).Stays sides viewed fun _ _ => True :=
        Body.runSynchronously_respects (Sides.regime_kept hlook) hscope body hviewed
      exact hrun.bind fun result _ hlast _ _ => concluded_stays hlast href.2 result
    · rename_i body _
      refine (startAsync_respects (Sides.regime_kept hlook) hscope body hviewed waker).stays.bind
        fun result last hlast _ hresult => ?_
      cases result with
      | pending work =>
        refine .pure hlast ?_
        rintro _ ⟨⟩
        exact hresult work rfl
      | ready result => exact concluded_stays hlast href.2 result

theorem startRecord_stays (h : host.Sided sides) {ref : Ref .record}
    (href : host.OnSide sides sides.active ref) (waker : Waker) :
    (startRecord look ref waker).Stays sides host fun result host' =>
      ∀ next, result = .pending next → next.OnSide host' sides sides.active := by
  refine .getBind ?_
  dsimp only
  split
  · exact (Stays.fills h (advance_fills h.apart href.2 .executing)).bind fun _ _ hbegun hmoves _ =>
      startBody_stays hlook hbegun (href.mono (Remains.born hmoves.rel)) waker
  · split <;> exact .pure h fun _ heq => nomatch heq

end Act

namespace ComponentRun

/-- What a run comes to: it goes on with records of its side. -/
def ComesTo (sides : Sides) (result : Poll ComponentRun (Except Failure Unit)) (host : Host) : Prop :=
  ∀ next, result = .pending next → next.OnSide host sides sides.active

omit hlook in
/-- When a record of a component fails, all after it fail. -/
theorem failRest_stays (h : host.Sided sides) (failure : Failure) {rest : List (Ref .record)}
    (hrest : ∀ ref ∈ rest, sides.of ref = sides.active) :
    (do
      Act.failAll failure rest
      return .ready (.error failure) : Act (Poll ComponentRun (Except Failure Unit))).Stays sides host
        (ComesTo sides) :=
  (Act.Stays.fills h (Act.failAll_fills failure rest h.apart hrest)).bind
    fun _ _ hlast _ _ => .pure hlast fun _ heq => nomatch heq

theorem runRest_stays (waker : Waker) : ∀ (rest : List (Ref .record)) {host : Host}, host.Sided sides →
    (∀ ref ∈ rest, host.OnSide sides sides.active ref) →
      (runRest look waker rest).Stays sides host (ComesTo sides) := by
  -- By induction on the members that are left.
  intro rest
  induction rest with
  | nil => exact fun h _ => .pure h fun _ heq => nomatch heq
  | cons ref rest ih =>
    intro host h hrest
    have href := hrest ref List.mem_cons_self
    refine (Act.startRecord_stays hlook h href waker).bind fun result started hstarted hmoves hresult => ?_
    have hrest : ∀ other ∈ rest, started.OnSide sides sides.active other := fun other hmem =>
      (hrest other (List.mem_cons_of_mem ref hmem)).mono (Remains.born hmoves.rel)
    cases result with
    | pending work =>
      refine .pure hstarted ?_
      rintro _ ⟨⟩
      refine ⟨?_, hrest⟩
      rintro _ _ ⟨⟩
      exact ⟨href.mono (Remains.born hmoves.rel), hresult work rfl⟩
    | ready result =>
      cases result with
      | ok _ => exact ih hstarted hrest
      | error failure => exact failRest_stays hstarted failure fun other hmem => (hrest other hmem).2

theorem poll_stays (h : host.Sided sides) {run : ComponentRun}
    (hrun : run.OnSide host sides sides.active) (waker : Waker) :
    (run.poll look waker).Stays sides host (ComesTo sides) := by
  unfold poll
  split
  · exact runRest_stays hlook waker run.rest h hrun.rest
  · rename_i ref work hcurrent
    obtain ⟨href, hwork⟩ := hrun.current ref work hcurrent
    refine (BodyWork.resume_respects (Sides.regime_kept hlook) (BodyWork.fits_side.2 hwork) h
      waker).stays.bind fun result resumed hresumed hmoves hresult => ?_
    cases result with
    | pending next =>
      refine .pure hresumed ?_
      rintro _ ⟨⟩
      refine ⟨?_, (hrun.carried hmoves.carries).rest⟩
      rintro _ _ ⟨⟩
      exact ⟨href.mono (Remains.born hmoves.rel), hresult next rfl⟩
    | ready result =>
      refine .afterAside (Act.note_aside _) hresumed fun _ noted hnoted hmoves' => ?_
      refine (Act.Stays.fills hnoted (Act.conclude_fills hnoted.apart href.2 result)).bind
        fun result concluded hconcluded hmoves'' _ => ?_
      have hsince := (hmoves.trans sides.law_kept hmoves').trans sides.law_kept hmoves''
      have hrest := (hrun.carried hsince.carries).rest
      cases result with
      | ok _ => exact runRest_stays hlook waker run.rest hconcluded hrest
      | error failure => exact failRest_stays hconcluded failure fun other hmem => (hrest other hmem).2

end ComponentRun

end ModuleLoader
