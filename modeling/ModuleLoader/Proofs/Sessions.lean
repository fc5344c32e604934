import Mathlib.Logic.Relation
import ModuleLoader.Proofs.LawfulDrivers
import ModuleLoader.Session.Evaluation
import ModuleLoader.Session.Inspection
/-!
Sessions: runs of any number of steps in any order, in which compartments are built, loads and imports
start, tasks have their turns or are dropped, gates open, and keys are loaded or imported at once. A law
that single actions keep holds in every state of a session.
-/

namespace ModuleLoader
set_option autoImplicit false

/-- One step of a session. Tasks have their turns in any order, and whatever is aside may become
anything. -/
inductive Host.Step (host : Host) : Host → Prop where
  | build (plan : CompartmentPlan) : Step host (Act.newCompartment plan host).2
  | startLoad (name : String) (root : Node) : host.Built root.compartment →
      Step host (Act.startLoad name root host).2
  | startImport (name : String) (root : Node) : host.Built root.compartment →
      Step host (Act.startImport name root host).2
  | loadNow (root : Node) : host.Built root.compartment → Step host (Act.loadNow root host).2
  | importNow (root : Node) : host.Built root.compartment →
      Step host (Act.importNow Act.lookOutside root host).2
  | evaluate (compartment : Ref .compartment) (text : String) : host.Built compartment →
      Step host (Act.evaluateText compartment text host).2
  | turn (ref : Ref .task) : Step host (Act.pollTask ref host).2
  | drop (name : String) : Step host (Act.dropNamed name host).2
  | openGate (name : String) : Step host (Act.openGate name host).2
  | assign (ref : Ref .record) (name : String) (value : Value) :
      Step host (Act.assignIn ref name value host).2
  | setExport (node : Node) (name : String) (value : Value) :
      Step host (Act.setExport node name value host).2
  | elsewhere {host' : Host} : Aside host host' → Step host host'

/-- A session leads from one host to another. -/
abbrev Host.Run : Host → Host → Prop :=
  Relation.ReflTransGen Host.Step

variable {law : Law} (kept : law.Kept) {host host' : Host}

open Act.Obeys

/-- Opening a gate is a matter of gates and signals. -/
theorem Act.openGate_isAside (name : String) : (openGate name).IsAside := by
  refine .getBind fun host => IsAside.bind ?_ fun _ => tell_aside _
  exact fun host => ⟨_, _, _, _, _, _, rfl⟩

namespace Act

include kept

theorem lookOutside_obeys : LookReady.Obeys law lookOutside :=
  fun host watch waker h => .getBind (lookReady_obeys kept host.nesting host watch waker h)

/-- A task may change to work that is sane. -/
theorem changeTask_obeys (ref : Ref .task) {work : TaskWork} (hwork : work.Sane law host)
    (h : law.Stands host) : (changeTask ref work).Obeys law host fun _ _ => True := by
  obtain ⟨hstands, hrel⟩ := h.works kept host.readies host.drivers host.verdicts
    (host.tasks.modify ref fun task => { task with work }) fun hrel =>
      { readies := h.hosted.readies
        verdicts := h.hosted.verdicts
        drivers := fun driver bell work hwork =>
          (h.hosted.drivers driver bell work hwork).lasts kept hrel
        tasks := fun other task htask => by
          change (host.tasks.modify ref _).get? other = _ at htask
          rw [Arena.get?_modify] at htask
          split at htask
          · obtain ⟨_, _, rfl⟩ := Option.map_eq_some_iff.1 htask
            exact hwork.lasts kept hrel
          · exact (h.hosted.tasks other task htask).lasts kept hrel }
  exact ⟨hstands, hrel, trivial⟩

theorem startTask_obeys (name : String) {work : TaskWork} (hwork : work.Sane law host)
    (h : law.Stands host) : (startTask name work).Obeys law host fun _ _ => True := by
  have haside : Aside host { host with board := host.board.enqueue host.tasks.next } :=
    ⟨_, _, _, _, _, _, rfl⟩
  obtain ⟨hqueued, hqueue⟩ := h.aside kept haside
  obtain ⟨hstands, hrel⟩ := hqueued.works kept host.readies host.drivers host.verdicts
    (host.tasks.push ⟨name, work⟩) fun hrel =>
      { readies := h.hosted.readies
        verdicts := h.hosted.verdicts
        drivers := fun driver bell work hwork =>
          (hqueued.hosted.drivers driver bell work hwork).lasts kept hrel
        tasks := fun other task htask => by
          change (host.tasks.push _).get? other = _ at htask
          rw [Arena.get?_push] at htask
          split at htask
          · cases htask
            exact (hwork.lasts kept hqueue).lasts kept hrel
          · exact (hqueued.hosted.tasks other task htask).lasts kept hrel }
  exact ⟨hstands, kept.trans hqueue hrel, trivial⟩

theorem endTask_obeys (ref : Ref .task) (name : String) (result : Except Failure Value)
    (h : law.Stands host) : (endTask ref name result).Obeys law host fun _ _ => True :=
  Obeys.seq kept (changeTask_obeys kept ref trivial h)
    fun _ _ hafter _ => .getBind (.aside kept (note_aside _) hafter)

theorem pollTask_obeys (ref : Ref .task) (h : law.Stands host) :
    (pollTask ref).Obeys law host fun _ _ => True := by
  refine .getBind ?_
  split
  · exact .pure kept h trivial
  · rename_i task htask
    have hsane := h.hosted.tasks ref task htask
    split
    · exact .pure kept h trivial
    · exact .pure kept h trivial
    · rename_i stage hwork
      rw [hwork] at hsane
      refine Obeys.bind kept (.same kept h (kept.polls h.inv hsane (.task ref)))
        fun result after hafter _ hresult => ?_
      cases result with
      | pending next => exact changeTask_obeys kept ref hresult.1 hafter
      | ready result => cases result <;> exact endTask_obeys kept ref _ _ hafter
    · rename_i work hwork
      rw [hwork] at hsane
      refine Obeys.bind kept (ImportWork.poll_obeys kept (lookOutside_obeys kept) hsane h (.task ref))
        fun result after hafter _ hresult => ?_
      cases result with
      | pending next => exact changeTask_obeys kept ref (hresult next rfl) hafter
      | ready result => cases result <;> exact endTask_obeys kept ref _ _ hafter

omit kept in
theorem forgetWork_aside (work : TaskWork) : (forgetWork work).IsAside := by
  cases work with
  | loading stage => exact stage.forget_aside
  | importing work => exact work.forget_aside
  | finished => exact .pure _
  | dropped => exact .pure _

theorem dropTask_obeys (ref : Ref .task) (h : law.Stands host) :
    (dropTask ref).Obeys law host fun _ _ => True := by
  refine .getBind ?_
  split
  · exact .pure kept h trivial
  · split
    · exact afterAside kept (forgetWork_aside _) h fun _ _ h => changeTask_obeys kept ref trivial h
    · exact .pure kept h trivial

theorem dropAll_obeys : ∀ (refs : List (Ref .task)) {host : Host}, law.Stands host →
    (dropAll refs).Obeys law host fun _ _ => True := by
  intro refs
  induction refs with
  | nil => exact fun h => .pure kept h trivial
  | cons ref rest ih =>
    exact fun h => Obeys.seq kept (dropTask_obeys kept ref h) fun _ _ hafter _ => ih hafter

theorem loadNow_obeys {root : Node} (hroot : host.Built root.compartment) (h : law.Stands host) :
    (loadNow root).Obeys law host fun _ _ => True := by
  refine Obeys.bind kept (.same kept h (kept.drafts h.inv hroot)) fun result after hafter _ hresult => ?_
  cases result with
  | error failure => exact .pure kept hafter trivial
  | ok drafted =>
    exact Obeys.bind kept (.same kept hafter (kept.enters hafter.inv (hresult drafted rfl)))
      fun _ _ hlast _ _ => .pure kept hlast trivial

theorem command_obeys {compartment : Ref .compartment} : ∀ (text : List String) {host : Host},
    host.Built compartment → law.Stands host →
      (Evaluation.command compartment text).Obeys law host fun _ _ => True := by
  -- By induction on the words of a command.
  intro text
  induction text with
  | nil => exact fun _ h => .pure kept h trivial
  | cons word rest ih =>
    intro host hbuilt h
    have himport (key : String) : (importNow lookOutside ⟨compartment, key⟩).Obeys law host
        fun _ _ => True := importNow_obeys kept (lookOutside_obeys kept) hbuilt h
    unfold Evaluation.command
    split
    · refine Obeys.seq kept (himport _) fun result after hafter _ => ?_
      cases result with
      | error failure => exact .pure kept hafter trivial
      | ok space =>
        refine .getBind ?_
        split <;> exact .pure kept hafter trivial
    · refine Obeys.seq kept (himport _) fun result after hafter _ => ?_
      cases result <;> exact .pure kept hafter trivial
    · refine .getBind ?_
      split <;> exact .pure kept h trivial
    · rename_i heq
      obtain ⟨-, rfl⟩ := List.cons.inj heq
      exact ih hbuilt h
    · exact .pure kept h trivial
    · exact .getBind (.pure kept h trivial)
    · exact .pure kept h trivial

theorem evaluateText_obeys {compartment : Ref .compartment} (hbuilt : host.Built compartment)
    (text : String) (h : law.Stands host) :
    (evaluateText compartment text).Obeys law host fun _ _ => True := by
  refine .getBind ?_
  dsimp only
  split
  · refine Obeys.seq kept (command_obeys kept _ hbuilt h) fun result after hafter _ => ?_
    cases result <;> exact .pure kept hafter trivial
  · exact .pure kept h trivial

theorem setExport_obeys (node : Node) (name : String) (value : Value) (h : law.Stands host) :
    (setExport node name value).Obeys law host fun _ _ => True := by
  refine .getBind ?_
  split
  · exact .pure kept h trivial
  · exact afterStore kept h fun _ _ h => .pure kept h trivial

end Act

namespace Law.Stands

include kept

/-- Each step of a session keeps the law. -/
theorem step (h : law.Stands host) (hstep : host.Step host') :
    law.Stands host' ∧ law.rel host host' := by
  have hobeys {α : Type} {act : Act α} (hact : act.Obeys law host fun _ _ => True) :
      law.Stands (act host).2 ∧ law.rel host (act host).2 := ⟨hact.1, hact.2.1⟩
  cases hstep with
  | build plan =>
    obtain ⟨hinv, hrel, hsame⟩ := kept.builds h.inv plan
    exact ⟨h.same kept hinv hrel hsame, hrel⟩
  | startLoad name root hroot =>
    exact hobeys (Act.startTask_obeys kept name (kept.fresh h.inv hroot) h)
  | startImport name root hroot =>
    exact hobeys (Act.startTask_obeys kept name (ImportWork.start_sane kept h hroot) h)
  | loadNow root hroot => exact hobeys (Act.loadNow_obeys kept hroot h)
  | importNow root hroot =>
    exact hobeys (Act.importNow_obeys kept (Act.lookOutside_obeys kept) hroot h)
  | evaluate compartment text hbuilt => exact hobeys (Act.evaluateText_obeys kept hbuilt text h)
  | turn ref => exact hobeys (Act.pollTask_obeys kept ref h)
  | drop name => exact hobeys (.getBind (Act.dropAll_obeys kept _ h))
  | openGate name => exact h.aside kept (Act.openGate_isAside name host)
  | assign ref name value => exact hobeys (.advance kept (Act.assignIn_advance ref name value) h)
  | setExport node name value => exact hobeys (Act.setExport_obeys kept node name value h)
  | elsewhere haside => exact h.aside kept haside

theorem run (h : law.Stands host) (hrun : host.Run host') :
    law.Stands host' ∧ law.rel host host' := by
  induction hrun with
  | refl => exact ⟨h, kept.refl host⟩
  | tail _ hstep ih =>
    obtain ⟨hstands, hrel⟩ := ih
    obtain ⟨hstands', hrel'⟩ := hstands.step kept hstep
    exact ⟨hstands', kept.trans hrel hrel'⟩

end Law.Stands

/-- Where nothing was built yet there is no work. -/
theorem Law.default_hosted : law.Hosted default where
  readies _ _ _ h := nomatch h
  drivers _ _ _ h := nomatch h
  verdicts _ _ h := nomatch h
  tasks _ _ h := nomatch h

end ModuleLoader
