import ModuleLoader.Proofs.Inquiries
import ModuleLoader.Proofs.Instances
/-!
Whatever is loaded, imported, linked, run or dropped, load hooks are called with discipline.
-/

namespace ModuleLoader
set_option autoImplicit false

open Act (Consults)

namespace Host

variable {host : Host} {load : Ref .load} {work : LoadWork}

theorem callAt?_begun (node other : Node) (bell : Ref .bell) :
    (host.begun node bell).callAt? other = host.callAt? other := by
  unfold callAt? begun
  change (Host.compartment { host with compartments := _ } _).calls.get? _ = _
  rw [compartment_modify]
  split <;> rfl

/-- A load that is begun has not failed. -/
theorem HooksInOrder.begin (h : host.HooksInOrder none) {node : Node}
    (hnode : host.Built node.compartment) (bell : Ref .bell) :
    (host.begun node bell).HooksInOrder none := by
  refine ⟨h.parallel, fun other call hcall => ?_, fun other call hasks hopen => ?_, h.asked,
    fun other load bell' failure hload hfailed => ?_, fun load work hflight => ?_⟩
  · rw [callAt?_begun] at hcall
    exact h.kept other call hcall
  · rw [callAt?_begun]
    exact h.found other call hasks hopen
  · rw [get?_begun] at hfailed
    rw [loadAt?_begun hnode] at hload
    split at hfailed
    · cases hfailed
    · rename_i hold
      split at hload
      · cases hload
        exact hold rfl
      · exact h.loading other load bell' failure hload hfailed
  · rcases begun_inFlight hflight with hold | ⟨-, rfl⟩
    · exact h.flight load work hold
    · trivial

theorem asked_begun (host : Host) (node : Node) (bell : Ref .bell) :
    Asked host (host.begun node bell) := by
  have hknows (key : String) (ref : Ref .compartment) :
      (host.begun node bell).knows key ref = host.knows key ref := by
    unfold knows begun
    change ((Host.compartment { host with compartments := _ } _).memo.contains _ ||
      (Host.compartment { host with compartments := _ } _).table.contains _) = _
    rw [compartment_modify]
    split <;> rfl
  exact ⟨.refl _, fun other => .imp_left fun h => (hknows _ _).trans h, fun _ _ _ => id⟩

/-- A load in flight goes on with what waits for the right call, or ends; if it fails it is not kept
any more. -/
theorem HooksInOrder.putLoad (h : host.HooksInOrder none) (hflight : host.InFlight load work)
    {bell : Ref .bell} {progress : Progress LoadWork (Except Failure Delivery)}
    (hgoes : ∀ next, progress = .idle next ∨ progress = .driven next →
      next.stage.Inquires host next.node)
    (hfails : ∀ failure node, progress = .done (.error failure) → host.loadAt? node ≠ some load) :
    (Shelf.loads.put host load ⟨bell, progress⟩).HooksInOrder none := by
  refine ⟨h.parallel, h.kept, h.found, h.asked, fun node other bell' failure hload hfailed => ?_,
    fun other next hother => ?_⟩
  · rw [get?_put hflight] at hfailed
    split at hfailed
    · rename_i hsame
      subst hsame
      cases hfailed
      exact hfails failure node rfl hload
    · exact h.loading node other bell' failure hload hfailed
  · obtain ⟨bell', hother⟩ := hother
    rw [get?_put hflight] at hother
    by_cases hsame : load = other
    · rw [if_pos hsame] at hother
      refine hgoes next ?_
      rcases hother with hother | hother <;> cases hother
      · exact .inl rfl
      · exact .inr rfl
    · rw [if_neg hsame] at hother
      exact h.flight other next ⟨bell', hother⟩

theorem letGo_unasked (host : Host) (node : Node) : Unasked host (host.letGo node) := by
  refine ⟨rfl, rfl, rfl, fun other => ?_, fun other load hload => ?_, fun key ref hknows => ?_⟩
  · unfold callAt? letGo
    rw [compartment_modify]
    split <;> rfl
  · unfold loadAt? letGo at hload
    rw [compartment_modify] at hload
    split at hload
    · dsimp only at hload
      rw [Table.get?_erase] at hload
      split at hload
      · cases hload
      · exact hload
    · exact hload
  · unfold knows letGo at *
    rw [compartment_modify]
    split <;> exact hknows

theorem entered_unasked (host : Host) (node : Node) (entry : Entry) :
    Unasked host (host.entered node entry) := by
  refine ⟨rfl, rfl, rfl, fun other => ?_, fun other load hload => ?_, fun key ref hknows => ?_⟩
  · unfold callAt?
    rw [compartment_entered]
    split <;> rfl
  · unfold loadAt? at hload
    rw [compartment_entered] at hload
    split at hload
    · dsimp only at hload
      rw [Table.get?_erase] at hload
      split at hload
      · cases hload
      · exact hload
    · exact hload
  · unfold knows at *
    rw [compartment_entered]
    split
    · simp only [Table.contains, Bool.or_eq_true] at hknows ⊢
      refine hknows.imp_left fun hmemo => ?_
      rw [Table.get?_insertNew]
      split
      · rfl
      · exact hmemo
    · exact hknows

end Host

theorem Act.loadOf_consults {host : Host} (h : host.HooksInOrder none) {node : Node}
    (hnode : host.Built node.compartment) : (loadOf node).Consults host fun _ _ => True := by
  refine .getBind ?_
  split
  · exact .pure h trivial
  · split
    · exact .pure h trivial
    · have hbell : newBell.Consults host fun _ host' => Aside host host' :=
        .aside h newBell_aside (newBell_aside host)
      refine Consults.bind hbell fun bell belled hbelled _ haside => ?_
      exact ⟨hbelled.begin ((haside.quiet.built _).2 hnode) bell, Host.asked_begun _ node bell, trivial⟩

namespace LoadWork

/-- A look at a shallow load leaves the hooks in order. -/
def Look.Consults (look : Look) : Prop :=
  ∀ (host : Host) (node : Node) (watch : Watch .load) (waker : Waker), host.LoadsInOrder →
    host.Serves node watch.job → host.HooksInOrder none →
      (look watch waker).Consults host fun _ _ => True

/-- A load that goes on waits for the right call. -/
def Inquires (result : Poll LoadWork (Except Failure Delivery)) (host' : Host) : Prop :=
  ∀ next, result = .pending next → next.stage.Inquires host' next.node

/-- A load that ends waits for nothing. -/
theorem Inquires.ready {result : Except Failure Delivery} {host' : Host} :
    Inquires (.ready result) host' := by
  rintro _ ⟨⟩

theorem Inquires.pending {next : LoadWork} {host' : Host}
    (h : next.stage.Inquires host' next.node) : Inquires (.pending next) host' := by
  rintro _ ⟨⟩
  exact h

variable {look : Look} {host : Host} {work : LoadWork} {waker : Waker}

theorem adopt_consults (h : host.HooksInOrder none) (target : Node)
    (loaded : Except Failure Delivery) :
    (do return Poll.ready (← work.adopt target loaded) : Act _).Consults host Inquires := by
  cases loaded with
  | error failure => exact .pure h .ready
  | ok delivery => exact .unasked h ⟨rfl, rfl, rfl, fun _ => rfl, fun _ _ => id, fun _ _ => id⟩ .ready

theorem awaitLoad_consults (hasks : look.Consults) (h : host.LoadsInOrder)
    (hhooks : host.HooksInOrder none) {target : Node} {watch : Watch .load}
    (hserves : host.Serves target watch.job) :
    (work.awaitLoad look target watch waker).Consults host Inquires := by
  unfold awaitLoad
  refine Consults.bind (hasks host target watch waker h hserves hhooks)
    fun result looked hlooked _ _ => ?_
  cases result with
  | pending next =>
    exact .pure hlooked (.pending trivial)
  | ready loaded => exact adopt_consults hlooked target loaded

theorem borrow_consults (hasks : look.Consults) (h : host.LoadsInOrder)
    (hhooks : host.HooksInOrder none) {target : Node} (htarget : host.Built target.compartment) :
    (work.borrow look target waker).Consults host Inquires := by
  unfold borrow
  refine Consults.bind (.loads (Act.loadOf_loads h htarget) (Act.loadOf_consults hhooks htarget))
    fun result after hafter _ hpost => ?_
  obtain ⟨⟨horder, -, hpost⟩, -⟩ := hpost
  cases result with
  | already delivery => exact adopt_consults hafter target _
  | shared load => exact awaitLoad_consults hasks horder hafter hpost

/-- Both ways of going on along a chain of aliases, by induction on the patience left. -/
theorem follow_arrive_consults (hasks : look.Consults) : ∀ fuel : Nat,
    (∀ (host : Host) (visited : List Node) (node : Node), host.LoadsInOrder →
      host.HooksInOrder none → host.Built node.compartment →
        (work.follow look waker fuel visited node).Consults host Inquires) ∧
    (∀ (host : Host) (visited : List Node) (node : Node) (described : Except Failure Descriptor),
      host.LoadsInOrder → host.HooksInOrder none → host.Built node.compartment →
        (∀ descriptor, described = .ok descriptor → descriptor.Grounded host) →
          (work.arrive look waker fuel visited node described).Consults host Inquires) := by
  intro fuel
  induction fuel with
  | zero =>
    refine ⟨fun host visited node _ hhooks _ => ?_, fun host visited node described _ hhooks _ _ => ?_⟩
    · unfold follow
      exact .pure hhooks .ready
    · unfold arrive
      exact .pure hhooks .ready
  | succ fuel ih =>
    refine ⟨fun host visited node h hhooks hnode => ?_,
      fun host visited node described h hhooks hnode hd => ?_⟩
    · unfold follow
      split
      · exact .pure hhooks .ready
      · refine .getBind ?_
        split
        · exact borrow_consults hasks h hhooks hnode
        · rename_i hentry
          have hentry : host.entryAt? node = none := by simpa using hentry
          refine Consults.bind (.loads (obtained_loads h (Act.describe_obtained host node waker))
            (Act.describe_consults hhooks hnode hentry waker)) fun result after hafter _ hpost => ?_
          obtain ⟨⟨horder, -, hquiet, hgrounded⟩, hcall⟩ := hpost
          have hnode := (hquiet.built _).2 hnode
          cases result with
          | pending call =>
            exact .pure hafter (.pending (hcall call rfl))
          | ready described =>
            refine ih.2 after _ node described horder hafter hnode fun descriptor hdescriptor => ?_
            exact hgrounded descriptor (hdescriptor ▸ rfl)
    · unfold arrive
      cases described with
      | error failure => exact .pure hhooks .ready
      | ok descriptor =>
        dsimp only
        refine .getBind ?_
        split
        · exact .pure hhooks .ready
        · rename_i next hpoints
          exact ih.1 host visited next h hhooks
            (h.grounded.pointsTo_built hnode (hd descriptor rfl) hpoints)
        · exact borrow_consults hasks h hhooks hnode

theorem interpret_consults (hasks : look.Consults) (h : host.LoadsInOrder)
    (hhooks : host.HooksInOrder none) (hnode : host.Built work.node.compartment)
    {described : Except Failure Descriptor}
    (hd : ∀ descriptor, described = .ok descriptor → descriptor.Grounded host) :
    (work.interpret look waker described).Consults host Inquires := by
  unfold interpret
  cases described with
  | error failure => exact .pure hhooks .ready
  | ok descriptor =>
    have hinterpret : (Act.interpret work.node descriptor).Consults host fun _ _ => True := by
      refine .unasked hhooks ?_ trivial
      obtain ⟨store, records, heq⟩ := Act.interpret_adds host work.node descriptor
      rw [heq]
      exact ⟨rfl, rfl, rfl, fun _ => rfl, fun _ _ => id, fun _ _ => id⟩
    refine Consults.bind (.loads (Act.interpret_loads h hnode (hd descriptor rfl)) hinterpret)
      fun result after hafter _ hpost => ?_
    obtain ⟨⟨horder, hgrows, hpost⟩, -⟩ := hpost
    cases result with
    | error failure => exact .pure hafter .ready
    | ok interpreted =>
      cases interpreted with
      | entry entry => exact .getBind (.pure hafter .ready)
      | elsewhere target =>
        exact .getBind ((follow_arrive_consults hasks _).1 after _ target horder hafter hpost)

theorem proceed_consults (hasks : look.Consults) (h : host.LoadsInOrder)
    (hhooks : host.HooksInOrder none) (hnode : host.Built work.node.compartment)
    (hstage : work.stage.Valid host) (hcall : work.stage.Inquires host work.node) :
    (work.proceed look waker).Consults host Inquires := by
  unfold proceed
  split
  · refine .getBind ?_
    split
    · exact .pure hhooks .ready
    · rename_i hdelivered
      have hentry : host.entryAt? work.node = none := by
        simpa [Host.delivered?] using hdelivered
      refine Consults.bind (.loads (obtained_loads h (Act.describe_obtained host work.node waker))
        (Act.describe_consults hhooks hnode hentry waker)) fun result after hafter _ hpost => ?_
      obtain ⟨⟨horder, -, hquiet, hgrounded⟩, hcall⟩ := hpost
      cases result with
      | pending call =>
        exact .pure hafter (.pending (hcall call rfl))
      | ready described =>
        refine interpret_consults hasks horder hafter ((hquiet.built _).2 hnode)
          fun descriptor hd => ?_
        exact hgrounded descriptor (hd ▸ rfl)
  · rename_i call hwork
    rw [hwork] at hcall
    refine Consults.bind (.loads (obtained_loads h (Act.awaitCall_obtained host work.node call waker))
      (Act.awaitCall_consults hhooks hcall waker)) fun result after hafter _ hpost => ?_
    obtain ⟨⟨horder, -, hquiet, hgrounded⟩, hcall⟩ := hpost
    cases result with
    | pending call =>
      exact .pure hafter (.pending (hcall call rfl))
    | ready described =>
      refine interpret_consults hasks horder hafter ((hquiet.built _).2 hnode)
        fun descriptor hd => ?_
      exact hgrounded descriptor (hd ▸ rfl)
  · rename_i visited node call hwork
    rw [hwork] at hstage hcall
    refine Consults.bind (.loads (obtained_loads h (Act.awaitCall_obtained host node call waker))
      (Act.awaitCall_consults hhooks hcall waker)) fun result after hafter _ hpost => ?_
    obtain ⟨⟨horder, -, hquiet, hgrounded⟩, hcall⟩ := hpost
    have hnode' := (hquiet.built _).2 hstage
    cases result with
    | pending call =>
      exact .pure hafter (.pending (hcall call rfl))
    | ready described =>
      refine .getBind ?_
      refine (follow_arrive_consults hasks _).2 after _ node described horder hafter hnode' ?_
      exact fun descriptor hd => hgrounded descriptor (hd ▸ rfl)
  · rename_i target watch hwork
    rw [hwork] at hstage
    exact awaitLoad_consults hasks h hhooks hstage.2

/-- A step of driving, seen from before the load was taken up. -/
theorem drive_consults (hlook : look.Sound) (hasks : look.Consults) (h : host.LoadsInOrder)
    (hhooks : host.HooksInOrder none) {load : Ref .load} {bell : Ref .bell}
    (hidle : host.loads.get? load = some ⟨bell, .idle work⟩) :
    After (Shelf.loads.put host load ⟨bell, .driven work⟩) (drive look work (.bell bell))
      fun result after => Asked host after ∧ match result with
        | .pending next => (Shelf.loads.put after load ⟨bell, .idle next⟩).HooksInOrder none
        | .ready result => (Shelf.loads.put after load ⟨bell, .done result⟩).HooksInOrder none := by
  have hflight : host.InFlight load work := ⟨bell, .inl hidle⟩
  obtain ⟨hbuilt, -, hstage⟩ := h.flight load work hflight
  have hcall := hhooks.flight load work hflight
  have hhooks' : (Shelf.loads.put host load ⟨bell, .driven work⟩).HooksInOrder none := by
    refine hhooks.putLoad hflight (fun next hnext => ?_) fun _ _ heq => by cases heq
    rcases hnext with hnext | hnext <;> cases hnext
    exact hcall
  have hvalid : work.stage.Valid (Shelf.loads.put host load ⟨bell, .driven work⟩) :=
    Host.stage_valid_put h hflight (show host.MayBecome work (.driven work) from ⟨rfl, hstage⟩) hstage
  have hstepped : After (Shelf.loads.put host load ⟨bell, .driven work⟩)
      (work.proceed look (.bell bell)) (Stepped _ work) :=
    proceed_stepped hlook (h.taken hidle) hbuilt hvalid
  have hconsults : (work.proceed look (.bell bell)).Consults
      (Shelf.loads.put host load ⟨bell, .driven work⟩) Inquires :=
    proceed_consults hasks (h.taken hidle) hhooks' hbuilt hvalid hcall
  unfold drive
  rw [after_bind]
  refine (hstepped.and hconsults).mono fun result after hafter => ?_
  obtain ⟨hstepped, horder, hasked, hcall⟩ := hafter
  have hasked : Asked host after := ⟨hasked.inquiries, hasked.closed, hasked.calls⟩
  rcases result with next | failure | delivery
  · obtain ⟨-, hgrows, -⟩ := hstepped
    obtain ⟨-, hflight', -⟩ := h.still_taken hidle hgrows
    refine ⟨hasked, horder.putLoad hflight' (fun other hother => ?_) fun _ _ heq => by cases heq⟩
    rcases hother with hother | hother <;> cases hother
    exact hcall next rfl
  · obtain ⟨horder', hgrows⟩ := hstepped
    obtain ⟨-, hflight', -⟩ := h.still_taken hidle hgrows
    have hgone := Host.letGo_unasked after work.node
    have hgone' : (after.letGo work.node).InFlight load work := hflight'
    refine ⟨hasked.trans hgone.asked, (horder.unasked hgone).putLoad hgone' (fun _ heq => ?_)
      fun _ node heq hkept => ?_⟩
    · rcases heq with heq | heq <;> cases heq
    · rw [Host.loadAt?_letGo ((hgrows.built _).2 hbuilt)] at hkept
      split at hkept
      · cases hkept
      · rename_i hother
        exact hother ((horder'.kept node load hkept).2.node_eq hflight')
  · obtain ⟨before, marks, -, hgrows, -, rfl, -⟩ := hstepped
    obtain ⟨-, hflight', -⟩ := h.still_taken hidle hgrows
    exact ⟨hasked, horder.putLoad hflight' (fun _ heq => by rcases heq with heq | heq <;> cases heq)
      fun _ _ heq => by cases heq⟩

/-- Whatever looks at a shallow load leaves the hooks in order, by induction on how deep loads wait for
each other. -/
theorem look_consults : ∀ depth : Nat, (LoadWork.look depth).Consults := by
  intro depth
  induction depth with
  | zero => exact fun _ _ _ _ _ _ hhooks => .pure hhooks trivial
  | succ depth ih =>
    intro host node watch waker h hserves hhooks
    unfold LoadWork.look
    refine Shelf.after_poll ?_ ?_ ?_ ?_
    · exact fun _ => ⟨hhooks, .refl host, trivial⟩
    · exact fun _ _ _ => ⟨hhooks, .refl host, trivial⟩
    · exact fun _ _ _ host' _ haside =>
        ⟨hhooks.aside haside, (Unasked.of_aside haside).asked, trivial⟩
    · intro bell work seat told hidle htold
      have hidle' : told.loads.get? watch.job = some ⟨bell, .idle work⟩ := by
        rw [htold.quiet.loads]
        exact hidle
      have htold' := (Unasked.of_aside htold).asked
      refine (drive_consults (look_sound depth) ih (htold.quiet.loadsInOrder h) (hhooks.aside htold)
        hidle').mono fun result after hafter => ?_
      obtain ⟨hasked, horder⟩ := hafter
      cases result with
      | pending next =>
        have hput : Asked after (Shelf.loads.put after watch.job ⟨bell, .idle next⟩) :=
          ⟨.refl _, fun _ => id, fun _ _ _ => id⟩
        exact ⟨horder, (htold'.trans hasked).trans hput, trivial⟩
      | ready result =>
        intro last hlast
        have hlast' := (Unasked.of_aside hlast).asked
        have hput : Asked after (Shelf.loads.put after watch.job ⟨bell, .done result⟩) :=
          ⟨.refl _, fun _ => id, fun _ _ _ => id⟩
        exact ⟨horder.aside hlast, ((htold'.trans hasked).trans hput).trans hlast', trivial⟩

end LoadWork

theorem Act.awaitDelivery_consults {host : Host} (h : host.LoadsInOrder)
    (hhooks : host.HooksInOrder none) {node : Node} {watch : Watch .load}
    (hserves : host.Serves node watch.job) (waker : Waker) :
    (awaitDelivery watch waker).Consults host fun _ _ => True :=
  .getBind (LoadWork.look_consults _ host node watch waker h hserves hhooks)

theorem Act.enterAll_unasked : ∀ (entries : List (Node × Entry)) (host : Host),
    Unasked host (enterAll entries host).2
  | [], host => .refl host
  | (node, entry) :: rest, host =>
    (Host.entered_unasked host node entry).trans (enterAll_unasked rest _)

namespace KeyLoad

variable {host : Host} {member : KeyLoad}

theorem await_consults (h : host.LoadsInOrder) (hhooks : host.HooksInOrder none)
    {watch : Watch .load} (hserves : host.Serves member.node watch.job) (waker : Waker) :
    (member.await watch waker).Consults host fun _ _ => True := by
  refine Consults.bind (Act.awaitDelivery_consults h hhooks hserves waker)
    fun result looked hlooked _ _ => ?_
  cases result <;> exact .pure hlooked trivial

theorem poll_consults (h : host.LoadsInOrder) (hhooks : host.HooksInOrder none)
    (hgood : member.Good host) (waker : Waker) :
    (member.poll waker).Consults host fun _ _ => True := by
  unfold poll
  split
  · rename_i watch hwatch
    exact await_consults h hhooks (hgood.2 watch hwatch) waker
  · refine Consults.bind (.loads (Act.loadOf_loads h hgood.1) (Act.loadOf_consults hhooks hgood.1))
      fun loaded after hafter _ hpost => ?_
    obtain ⟨⟨horder, -, hpost⟩, -⟩ := hpost
    cases loaded with
    | already delivery => exact .pure hafter trivial
    | shared load => exact await_consults horder hafter hpost waker

end KeyLoad

namespace ClosureLoad

theorem take_consults {host : Host} (hhooks : host.HooksInOrder none) (load : ClosureLoad)
    (node : Node) (delivery : Delivery) :
    (load.take node delivery).Consults host fun _ _ => True :=
  .unasked hhooks (Act.enterAll_unasked _ host) trivial

/-- Whatever the members of a load come to, the hooks are in order. -/
theorem next_consults {host : Host} (h : host.LoadsInOrder) (hhooks : host.HooksInOrder none)
    {load : ClosureLoad} (hgood : load.Good host) (waker : Waker) :
    (Pool.next KeyLoad.poll load.pool waker load.members).Consults host fun _ _ => True := by
  let holds (members : List (Nat × KeyLoad)) (after : Host) : Prop :=
    after.LoadsInOrder ∧ after.HooksInOrder none ∧ Asked host after ∧
      ∀ member ∈ members, member.2.Good after
  have hothers {members : List (Nat × KeyLoad)} {index : Nat} {before after : Host}
      (hkeeps : Keeps before after) (hmembers : ∀ member ∈ members, member.2.Good before) :
      ∀ member ∈ members.filter (fun member => member.1 ≠ index), member.2.Good after :=
    fun member hmem => (hmembers member (List.mem_filter.1 hmem).1).keeps hkeeps
  have hstart : holds load.members host := ⟨h, hhooks, .refl host, hgood.members⟩
  refine Pool.after_next ?_ ?_ ?_ ?_ hstart
  · rintro members before after haside ⟨hbefore, hhooks, hasked, hmembers⟩
    exact ⟨haside.quiet.loadsInOrder hbefore, hhooks.aside haside,
      hasked.trans (Unasked.of_aside haside).asked,
      fun member hmem => (hmembers member hmem).keeps haside.quiet.grows.keeps⟩
  · rintro members index work before ⟨hbefore, hhooks, hasked, hmembers⟩ hmem
    refine (After.and (KeyLoad.poll_loads hbefore (hmembers _ hmem) (.member load.pool index))
      (KeyLoad.poll_consults hbefore hhooks (hmembers _ hmem) (.member load.pool index))).mono
        fun result after hafter => ?_
    obtain ⟨⟨horder, hgrows, hpost⟩, hhooks, hasked', -⟩ := hafter
    cases result with
    | pending next =>
      refine ⟨horder, hhooks, hasked.trans hasked', fun member hmem => ?_⟩
      rcases List.mem_cons.1 hmem with rfl | hmem
      · exact hpost
      · exact hothers hgrows.keeps hmembers member hmem
    | ready result =>
      exact fun last haside => ⟨hhooks.aside haside,
        (hasked.trans hasked').trans (Unasked.of_aside haside).asked, trivial⟩
  · exact fun members after hall => ⟨hall.2.1, hall.2.2.1, trivial⟩
  · exact fun after hall => ⟨hall.2.1, hall.2.2.1, trivial⟩

theorem proceed_consults (waker : Waker) : ∀ (fuel : Nat) {host : Host} {load : ClosureLoad},
    host.LoadsInOrder → host.HooksInOrder none → load.Good host →
      (load.proceed waker fuel).Consults host fun _ _ => True
  | 0, host, load, _, hhooks, _ => .pure hhooks trivial
  | fuel + 1, host, load, h, hhooks, hgood => by
    unfold proceed
    refine Consults.bind (.loads (fill_loads load.backlog h hgood hgood.backlog)
      (.aside hhooks (fill_aside load.backlog load) (show After host _ fun _ _ => True from trivial)))
      fun load filled hfilled _ hpost => ?_
    obtain ⟨⟨horder, -, hgood⟩, -⟩ := hpost
    refine Consults.bind (.loads (next_loads horder hgood waker)
      (next_consults horder hfilled hgood waker)) fun result after hafter _ hpost => ?_
    obtain ⟨⟨horder, hgrows, hpost⟩, -⟩ := hpost
    have hgood := hgood.keeps hgrows.keeps
    cases result with
    | pending members => exact .pure hafter trivial
    | exhausted => exact .aside hafter ((Pool.close_aside _).bind fun _ => .pure _) trivial
    | finished landed members =>
      obtain ⟨node, failure | delivery⟩ := landed
      · exact .unasked hafter ((Act.enterAll_unasked _ after).trans (.of_aside (forget_aside _ _)))
          trivial
      · obtain ⟨hmembers, hvalid, hfits⟩ := hpost
        have hgood : ClosureLoad.Good after { load with members } :=
          ⟨hgood.held, hmembers, hgood.backlog⟩
        refine Consults.bind (.loads (take_loads horder hgood hvalid hfits)
          (take_consults hafter _ node delivery)) fun load taken htaken _ hpost => ?_
        obtain ⟨⟨horder, -, hgood⟩, -⟩ := hpost
        exact proceed_consults waker fuel horder htaken hgood

end ClosureLoad

theorem ClosureStage.poll_consults {host : Host} (h : host.LoadsInOrder)
    (hhooks : host.HooksInOrder none) {stage : ClosureStage} (hgood : stage.Good host)
    (waker : Waker) : (stage.poll waker).Consults host fun _ _ => True := by
  unfold poll
  have hload : stage.load.Consults host fun load host' =>
      host'.LoadsInOrder ∧ load.Good host' := by
    cases stage with
    | fresh root =>
      refine Consults.mono (.loads (ClosureLoad.start_loads h hgood) (.aside hhooks
        (Act.newPool_aside.bind fun _ => .getBind fun _ => .pure _)
          (show After host (ClosureLoad.start root) fun _ _ => True from trivial)))
        fun load _ _ _ hpost => ?_
      exact ⟨hpost.1.1, hpost.1.2.2⟩
    | running load => exact .pure hhooks ⟨h, hgood⟩
  refine Consults.bind hload fun load begun hbegun _ hgood => .getBind ?_
  refine Consults.bind (ClosureLoad.proceed_consults waker _ hgood.1 hbegun hgood.2)
    fun result after hafter _ _ => ?_
  cases result <;> exact .pure hafter trivial

/-- An action that calls no hook and keeps no more loads, wherever it starts. -/
def Act.IsUnasked {α : Type} (act : Act α) : Prop :=
  ∀ host, Unasked host (act host).2

namespace Act.IsUnasked

variable {α β : Type}

theorem pure (result : α) : IsUnasked (Pure.pure result) := fun host => .refl host

theorem bind {act : Act α} {next : α → Act β} (h : IsUnasked act)
    (hnext : ∀ result, IsUnasked (next result)) : IsUnasked (act >>= next) :=
  fun host => (h host).trans (hnext (act host).1 (act host).2)

theorem getBind {next : Host → Act α} (h : ∀ host, IsUnasked (next host)) :
    IsUnasked (MonadState.get >>= next) :=
  bind (fun host => .refl host) h

theorem aside {act : Act α} (h : act.IsAside) : IsUnasked act :=
  fun host => .of_aside (h host)

theorem interpret (node : Node) (descriptor : Descriptor) :
    IsUnasked (Act.interpret node descriptor) := by
  intro host
  obtain ⟨store, records, heq⟩ := Act.interpret_adds host node descriptor
  rw [heq]
  exact ⟨rfl, rfl, rfl, fun _ => rfl, fun _ _ => id, fun _ _ => id⟩

theorem visit (drafting : Drafting) (node : Node) : IsUnasked (drafting.visit node) := by
  refine .getBind fun host => ?_
  split
  · exact .pure _
  · split
    · split <;> exact .pure _
    · refine IsUnasked.bind (.aside (describeAtOnce_aside node)) fun described => ?_
      split
      · exact .pure _
      · refine IsUnasked.bind (.interpret node _) fun interpreted => ?_
        split
        · exact .pure _
        · exact .getBind fun _ => .pure _
        · refine .getBind fun host => IsUnasked.bind (.aside (followAtOnce_aside _ _ _)) fun found => ?_
          split <;> exact .pure _

theorem collect : ∀ (fuel : Nat) (seen queue : List Node) (drafting : Drafting),
    IsUnasked (Drafting.collect fuel seen queue drafting)
  | 0, _, _, drafting => .pure _
  | _ + 1, _, [], drafting => .pure _
  | fuel + 1, seen, node :: queue, drafting => by
    refine (visit drafting node).bind fun visited => ?_
    split
    · exact .pure _
    · exact collect fuel _ _ _

theorem draft (root : Node) : IsUnasked (Act.draft root) := by
  refine .getBind fun host => (collect _ _ _ _).bind fun collected => ?_
  split
  · exact .pure _
  · refine .getBind fun host => ?_
    split <;> exact .pure _

theorem enterDraft (drafted : Drafted) : IsUnasked (Act.enterDraft drafted) :=
  bind (enterAll_unasked drafted.entries) fun _ _ => ⟨rfl, rfl, rfl, fun _ => rfl, fun _ _ => id, fun _ _ => id⟩

end Act.IsUnasked

namespace Unasked

variable {host host' : Host}

theorem of_advances {fine : Failure → Prop} (h : Advances fine host host') : Unasked host host' := by
  rw [h.rest]
  exact ⟨rfl, rfl, rfl, fun _ => rfl, fun _ _ => id, fun _ _ => id⟩

/-- A new compartment keeps no calls and no loads. -/
theorem of_builds {compartment : Compartment} (h : Builds host host' compartment) :
    Unasked host host' where
  calls := by rw [h.rest]
  inquiries := by rw [h.rest]
  loads := by rw [h.rest]
  callAt node := congrArg (Table.get? · node.key) (h.part Compartment.calls h.calls node.compartment)
  loadAt node load hload := (h.loadAt? node).symm.trans hload
  knows key ref hknows := by
    unfold Host.knows at *
    rw [h.compartment_eq]
    split
    · rename_i hnew
      rw [hnew, Builds.compartment_next] at hknows
      cases hknows
    · exact hknows

end Unasked

theorem Act.newCompartment_unasked {host : Host} (h : host.Grounded) (plan : CompartmentPlan) :
    Unasked host (newCompartment plan host).2 := by
  obtain ⟨middle, haside, hend⟩ := newCompartment_builds h plan
  rcases hend with heq | ⟨compartment, hbuilds⟩
  · rw [heq]
    exact .of_aside haside
  · exact (Unasked.of_aside haside).trans (.of_builds hbuilds)

theorem Act.linkClosure_unasked (host : Host) (root : Node) :
    Unasked host (linkClosure root host).2 := by
  have hmark : Unasked host (host.announced root) :=
    ⟨rfl, rfl, rfl, fun _ => rfl, fun _ _ => id, fun _ _ => id⟩
  have hlink : Advances (fun _ => True) (host.announced root)
      (link (host.unlinked root) (host.announced root)).2 :=
    link_advances (fun _ => Host.batched_announced) fun _ _ _ _ => trivial
  exact hmark.trans (.of_advances hlink)

/-- Hooks are called with discipline, on top of instances staying what they are. -/
def Law.hooks : Law where
  inv host := host.Orderly ∧ host.HooksInOrder none
  rel host host' := Later host host' ∧ Asked host host'
  stage host stage := stage.Good host
  whole _ _ := True
  drafted host _ drafted := drafted.Good host
  fine _ := True

/-- What keeps instances and calls no hook keeps the discipline. -/
theorem Unasked.hooks {host host' : Host} (h : Law.hooks.inv host) (horderly : host'.Orderly)
    (hlater : Later host host') (hsame : Unasked host host') :
    Law.hooks.inv host' ∧ Law.hooks.rel host host' :=
  ⟨⟨horderly, h.2.unasked hsame⟩, hlater, hsame.asked⟩

theorem Law.hooks_kept : Law.hooks.Kept where
  refl host := ⟨.refl host, .refl host⟩
  trans hab hbc := ⟨hab.1.trans hbc.1, hab.2.trans hbc.2⟩
  later h := h.1
  homes h := h.1.homes
  excused _ _ := trivial
  thrown _ _ := trivial
  lasts hrel hstage := hstage.keeps hrel.1.keeps
  fresh _ hroot := hroot
  aside h haside := Unasked.hooks h (h.1.quiet haside.quiet) haside.quiet.grows.later (.of_aside haside)
  advances h hadvances :=
    Unasked.hooks h (h.1.advances hadvances) hadvances.later (.of_advances hadvances)
  works h readies drivers verdicts tasks :=
    have ⟨horderly, hlater⟩ := h.1.works readies drivers verdicts tasks
    Unasked.hooks h horderly hlater ⟨rfl, rfl, rfl, fun _ => rfl, fun _ _ => id, fun _ _ => id⟩
  passes h hmark :=
    have ⟨horderly, hlater⟩ := h.1.passes hmark
    Unasked.hooks h horderly hlater ⟨rfl, rfl, rfl, fun _ => rfl, fun _ _ => id, fun _ _ => id⟩
  polls h hstage waker := by
    refine (After.and (instances_kept.polls h.1 hstage waker)
      (ClosureStage.poll_consults h.1.loads h.2 hstage waker)).mono fun result host' hpolled => ?_
    obtain ⟨⟨horderly, hlater, hsame, hresult⟩, hhooks, hasked, -⟩ := hpolled
    refine ⟨⟨horderly, hhooks⟩, ⟨hlater, hasked⟩, hsame, ?_⟩
    rcases result with next | failure | done
    · exact hresult
    · trivial
    · trivial
  drafts h hroot :=
    have ⟨horderly, hlater, hsame, hdrafted⟩ := instances_kept.drafts h.1 hroot
    have ⟨hinv, hrel⟩ := Unasked.hooks h horderly hlater (Act.IsUnasked.draft _ _)
    ⟨hinv, hrel, hsame, hdrafted⟩
  enters {_ root _} h hdrafted :=
    have ⟨horderly, hlater, hsame, hwhole⟩ := @Law.Kept.enters _ instances_kept _ root _ h.1 hdrafted
    have ⟨hinv, hrel⟩ := Unasked.hooks h horderly hlater (Act.IsUnasked.enterDraft _ _)
    ⟨hinv, hrel, hsame, hwhole⟩
  builds h plan :=
    have ⟨horderly, hlater, hsame⟩ := instances_kept.builds h.1 plan
    have ⟨hinv, hrel⟩ := Unasked.hooks h horderly hlater
      (Act.newCompartment_unasked h.1.loads.grounded plan)
    ⟨hinv, hrel, hsame⟩
  links h hwhole :=
    have ⟨horderly, hlater, hsame⟩ := instances_kept.links h.1 hwhole
    have ⟨hinv, hrel⟩ := Unasked.hooks h horderly hlater (Act.linkClosure_unasked _ _)
    ⟨hinv, hrel, hsame⟩

namespace Host

variable {host host' : Host}

theorem default_hooks : (default : Host).HooksInOrder none where
  parallel := rfl
  kept _ _ h := nomatch h
  found _ _ h := nomatch h
  asked _ _ h := nomatch h
  loading _ _ _ _ h := nomatch h
  flight _ _ h := by
    obtain ⟨_, h | h⟩ := h <;> cases h

theorem hooks_of_run (hrun : Run default host) : Law.hooks.Stands host :=
  (Law.Stands.run Law.hooks_kept ⟨⟨Orderly.default_orderly, default_hooks⟩, Law.default_hosted⟩ hrun).1

/-- A compartment whose load hook fails about a key, and then knows it. -/
def faltering : Host :=
  (Act.newCompartment { CompartmentPlan.simple "home" [] with
    loadHook := some (.ofList [("x", [⟨none, 1, .fail "busy"⟩,
      ⟨none, 1, .describe (ChainKind.moduleOf [] (some []))⟩])]) } default).2

/-- Two tasks load the key while the hook fails, and a third one loads it afterwards. -/
def falteringRun : Host :=
  let host := (Act.startLoad "first" ⟨⟨0⟩, "x"⟩ faltering).2
  let host := (Act.startLoad "second" ⟨⟨0⟩, "x"⟩ host).2
  let host := (Act.pollTask ⟨0⟩ host).2
  let host := (Act.pollTask ⟨1⟩ host).2
  let host := (Act.pollTask ⟨0⟩ host).2
  let host := (Act.startLoad "third" ⟨⟨0⟩, "x"⟩ host).2
  let host := (Act.pollTask ⟨2⟩ host).2
  let host := (Act.pollTask ⟨1⟩ host).2
  (Act.pollTask ⟨2⟩ host).2

theorem falteringRun_run : Run default falteringRun := by
  have hbuilt : Run default faltering := .single (.build _)
  have hfirst := hbuilt.tail (.startLoad "first" ⟨⟨0⟩, "x"⟩ (by decide +kernel))
  have hsecond := hfirst.tail (.startLoad "second" ⟨⟨0⟩, "x"⟩ (by decide +kernel))
  have hfailed := ((hsecond.tail (.turn ⟨0⟩)).tail (.turn ⟨1⟩)).tail (.turn ⟨0⟩)
  have hthird := hfailed.tail (.startLoad "third" ⟨⟨0⟩, "x"⟩ (by decide +kernel))
  exact ((hthird.tail (.turn ⟨2⟩)).tail (.turn ⟨1⟩)).tail (.turn ⟨2⟩)

end Host

end ModuleLoader
