import ModuleLoader.Proofs.CoherentCompletions
import ModuleLoader.Proofs.Sessions
import ModuleLoader.Proofs.Setups
/-!
A session keeps its host coherent: whatever is built, loaded, imported, assigned or dropped in whatever
order, every record that moved could move then, and whoever waits is told the truth.
-/

namespace ModuleLoader
set_option autoImplicit false

variable {host host' : Host}

/-- Nothing changes where there is nothing to change. -/
theorem Arena.modify_eq_self {k : Noun} {α : Type} {arena : Arena k α} {ref : Ref k}
    (h : arena.get? ref = none) (f : α → α) : arena.modify ref f = arena := by
  refine congrArg Arena.mk (Array.ext_getElem? fun index => ?_)
  change (arena.modify ref f).get? ⟨index⟩ = arena.get? ⟨index⟩
  rw [Arena.get?_modify]
  split
  · rename_i hsame
    rw [← hsame, h]
    rfl
  · rfl

/-- Where nothing was passed, nothing moved, and all that was passed is fair. -/
theorem unmarked (h : host'.chronicle = host.chronicle) :
    ∃ marks, host'.chronicle = marks ++ host.chronicle ∧ (∀ ref phase, .moved ref phase ∉ marks) ∧
      ∀ mark before, (mark :: before) <:+ marks → host'.Fair (before ++ host.chronicle) mark :=
  ⟨[], h, (fun _ _ hmem => nomatch hmem), fun _ _ hbefore => nomatch List.suffix_nil.1 hbefore⟩

/-- Building a compartment moves nothing. -/
theorem Builds.steady {compartment : Compartment} (h : Builds host host' compartment) : Steady host host' where
  later := h.later
  tasks := by rw [h.rest]
  readies := by rw [h.rest]
  drivers := by rw [h.rest]
  verdicts := by rw [h.rest]
  records ref record hrecord := ⟨record, by rwa [h.rest], rfl, rfl, rfl⟩
  newborn ref record hnone hsome := by
    rw [h.rest] at hsome
    cases hnone.symm.trans hsome
  marks := unmarked (by rw [h.rest])

namespace Host.Coherent

theorem builds (h : host.Coherent) {compartment : Compartment} (hbuilds : Builds host host' compartment) :
    host'.Coherent := by
  refine h.steady hbuilds.steady (hbuilds.loadsInOrder h.loads) ?_ (hbuilds.undisturbed.tidy h.tidy)
  rw [hbuilds.rest]
  exact h.calm

/-- Tasks may change to work that is good. -/
theorem changeTasks (h : host.Coherent) {tasks : Arena .task Task}
    (htasks : ∀ ref task, tasks.get? ref = some task → task.work.Good host) :
    Host.Coherent { host with tasks } := by
  have hloads : LoadsAlike host { host with tasks } := ⟨rfl, rfl, rfl, rfl, fun _ => id, fun _ _ => id⟩
  have hmoves : Moves host { host with tasks } :=
    ⟨hloads, rfl, fun _ record hrecord => ⟨record, hrecord, .refl record, rfl⟩, fun _ => id, fun _ => id,
      List.suffix_refl _⟩
  have hrests : Rests host { host with tasks } :=
    { later := hmoves.later
      readies := rfl
      drivers := rfl
      verdicts := rfl
      records := fun _ record hrecord => ⟨record, hrecord, rfl, rfl, rfl⟩
      newborn := fun _ _ hnone hsome => nomatch hnone.symm.trans hsome
      marks := unmarked rfl }
  exact h.rests hrests (hloads.loadsInOrder h.loads) h.calm (hmoves.undisturbed.tidy h.tidy)
    fun ref task htask => .inl (htasks ref task htask)

/-- Slots may be filled or added. -/
theorem changeSlots (h : host.Coherent) {slots : Arena .slot (Option Value)}
    (hslots : ∀ slot, (host.store.slots.get? slot).isSome → (slots.get? slot).isSome) :
    Host.Coherent { host with store := { host.store with slots } } := by
  have hloads : LoadsAlike host { host with store := { host.store with slots } } :=
    ⟨rfl, rfl, rfl, rfl, fun _ => id, fun _ _ => id⟩
  have hlater : Later host { host with store := { host.store with slots } } :=
    { keeps := hloads.keeps
      records := fun _ record hrecord => ⟨record, hrecord, .refl record⟩
      settings := fun _ _ => rfl
      chronicle := List.suffix_refl _ }
  have hsteady : Steady host { host with store := { host.store with slots } } :=
    { later := hlater
      tasks := rfl
      readies := rfl
      drivers := rfl
      verdicts := rfl
      records := fun _ record hrecord => ⟨record, hrecord, rfl, rfl, rfl⟩
      newborn := fun _ _ hnone hsome => nomatch hnone.symm.trans hsome
      marks := unmarked rfl }
  refine h.steady hsteady (hloads.loadsInOrder h.loads) h.calm ⟨h.tidy.homes, h.tidy.exposed, h.tidy.linked,
    h.tidy.spaces, h.tidy.distinct, fun place slot hslot => hslots slot (h.tidy.slots place slot ?_)⟩
  cases place <;> exact hslot

end Host.Coherent

namespace Act

variable {work : TaskWork}

theorem lookOutside_coheres : LookReady.Coheres lookOutside :=
  fun host watch waker h => .getBind (lookReady_coheres host.nesting host watch waker h)

theorem changeTask_coherent (h : host.Coherent) (ref : Ref .task) (hwork : work.Good host) :
    After host (changeTask ref work) fun _ after => after.Coherent := by
  refine h.changeTasks fun other task htask => ?_
  rw [Arena.get?_modify] at htask
  split at htask
  · obtain ⟨_, _, rfl⟩ := Option.map_eq_some_iff.1 htask
    exact hwork
  · exact h.tasks other task htask

theorem startTask_coherent (h : host.Coherent) (name : String) (hwork : work.Good host) :
    After host (startTask name work) fun _ after => after.Coherent := by
  have haside : Aside host { host with board := host.board.enqueue host.tasks.next } :=
    ⟨_, _, _, _, _, _, rfl⟩
  refine Host.Coherent.changeTasks (h.quiet haside.quiet) fun other task htask => ?_
  rw [Arena.get?_push] at htask
  split at htask
  · cases htask
    exact hwork.carries h.recorded (Follows.quiet h haside.quiet).toCarries
  · exact (h.quiet haside.quiet).tasks other task htask

theorem endTask_coherent (h : host.Coherent) (ref : Ref .task) (name : String)
    (result : Except Failure Value) : After host (endTask ref name result) fun _ after => after.Coherent := by
  have hended : After host (changeTask ref .finished) fun _ after => after.Coherent :=
    changeTask_coherent h ref trivial
  refine (after_bind _ _).2 (hended.mono fun _ after hafter => ?_)
  exact hafter.quiet (note_aside _ after).quiet

/-- A task has its turn. -/
theorem pollTask_coherent (h : host.Coherent) (ref : Ref .task) :
    After host (pollTask ref) fun _ after => after.Coherent := by
  unfold pollTask
  rw [after_bind, after_get]
  split
  · exact h
  · rename_i task htask
    have hgood := h.tasks ref task htask
    split
    · exact h
    · exact h
    · rename_i stage hwork
      rw [hwork] at hgood
      refine (after_bind _ _).2 (After.mono (Loads.coheres h (stage.poll_loads h.loads hgood (.task ref)))
        fun result after hrun => ?_)
      obtain ⟨hafter, -, -, hresult⟩ := hrun
      match result, hresult with
      | .pending next, hnext => exact changeTask_coherent hafter ref hnext
      | .ready (.ok ()), _ => exact endTask_coherent hafter ref task.name _
      | .ready (.error failure), _ => exact endTask_coherent hafter ref task.name _
    · rename_i work hwork
      rw [hwork] at hgood
      refine (after_bind _ _).2 (After.mono (ImportWork.poll_coheres lookOutside_coheres h hgood (.task ref))
        fun result after hrun => ?_)
      obtain ⟨hafter, -, hresult⟩ := hrun
      match result, hresult with
      | .pending next, hnext => exact changeTask_coherent hafter ref (hnext next rfl)
      | .ready (.ok space), _ => exact endTask_coherent hafter ref task.name _
      | .ready (.error failure), _ => exact endTask_coherent hafter ref task.name _

/-- What a task was doing is given up when it is dropped. -/
theorem dropTask_coherent (h : host.Coherent) (ref : Ref .task) :
    After host (dropTask ref) fun _ after => after.Coherent := by
  unfold dropTask
  rw [after_bind, after_get]
  split
  · exact h
  · rename_i task _
    split
    · have hforgotten := h.quiet (forgetWork_aside task.work host).quiet
      have hdropped (forgotten : Host) (h : forgotten.Coherent) : After forgotten (changeTask ref .dropped)
          fun _ after => after.Coherent := changeTask_coherent h ref trivial
      exact hdropped _ hforgotten
    · exact h

/-- Tasks are dropped one after another. -/
theorem dropAll_coherent : ∀ (refs : List (Ref .task)) {host : Host}, host.Coherent →
    After host (dropAll refs) fun _ after => after.Coherent
  | [], _, h => h
  | ref :: rest, host, h => by
    have hdrop : After host (dropTask ref) fun _ after => after.Coherent := dropTask_coherent h ref
    exact (after_bind _ _).2 (hdrop.mono fun _ _ hafter => dropAll_coherent rest hafter)

theorem loadNow_coherent (h : host.Coherent) {root : Node} (hroot : host.Built root.compartment) :
    After host (loadNow root) fun _ after => after.Coherent :=
  (Loads.coheres h (loadNow_loads h.loads hroot)).1

theorem command_coherent (h : host.Coherent) {compartment : Ref .compartment}
    (hbuilt : host.Built compartment) : ∀ words : List String,
      After host (Evaluation.command compartment words) fun _ after => after.Coherent := by
  -- By induction on the words of a command.
  intro words
  induction words with
  | nil => exact h
  | cons word rest ih =>
    have himport (key : String) : After host (importNow lookOutside ⟨compartment, key⟩)
        fun _ after => after.Coherent := by
      have hbuilt : host.Built (Node.mk compartment key).compartment := hbuilt
      exact (importNow_coheres lookOutside_coheres h hbuilt).1
    unfold Evaluation.command
    split
    · refine (after_bind _ _).2 ((himport _).mono fun result after hafter => ?_)
      cases result with
      | error failure => exact hafter
      | ok space =>
        dsimp only
        rw [after_bind, after_get]
        split <;> exact hafter
    · refine (after_bind _ _).2 ((himport _).mono fun result after hafter => ?_)
      cases result <;> exact hafter
    · rw [after_bind, after_get]
      split <;> exact h
    · rename_i heq
      obtain ⟨-, rfl⟩ := List.cons.inj heq
      exact ih
    · exact h
    · exact h
    · exact h

theorem evaluateText_coherent (h : host.Coherent) {compartment : Ref .compartment}
    (hbuilt : host.Built compartment) (text : String) :
    After host (evaluateText compartment text) fun _ after => after.Coherent := by
  unfold evaluateText
  rw [after_bind, after_get]
  dsimp only
  split
  · refine (after_bind _ _).2 (After.mono (command_coherent h hbuilt (Evaluation.words text))
      fun result after hafter => ?_)
    cases result <;> exact hafter
  · exact h

theorem setExport_coherent (h : host.Coherent) (node : Node) (name : String) (value : Value) :
    After host (setExport node name value) fun _ after => after.Coherent := by
  unfold setExport
  rw [after_bind, after_get]
  split
  · exact h
  · refine h.changeSlots fun slot hslot => ?_
    rw [Arena.get?_modify]
    split
    · rwa [Option.isSome_map]
    · exact hslot

/-- A name of a record that is not there may be assigned to no effect. -/
theorem assignIn_coherent (h : host.Coherent) (ref : Ref .record) (name : String) (value : Value) :
    After host (assignIn ref name value) fun _ after => after.Coherent := by
  cases href : (host.records.get? ref).isSome with
  | true => exact (assignIn_coheres h href name value).1
  | false =>
    have hnone := Option.isNone_iff_eq_none.1 (Option.isSome_eq_false_iff.1 href)
    unfold assignIn
    rw [after_bind, after_get, after_bind, after_onStore]
    have hunbound : (host.record ref).environment.bounds.get? name = none := by
      unfold Host.record
      rw [hnone]
      rfl
    rw [Environment.assign_unbound hunbound]
    have hstored (environment : Environment) :
        After { host with store := { host.store with slots := host.store.slots.push (some value) } }
          (changeRecord ref fun record => { record with environment }) fun _ after => after.Coherent := by
      refine (after_changeRecord_same ?_).2 ?_
      · exact fun _ => rfl
      rw [Arena.modify_eq_self hnone]
      refine h.changeSlots fun slot hslot => ?_
      rw [Arena.get?_push]
      split
      · rfl
      · exact hslot
    exact hstored _

end Act

/-- In the host in which nothing was built yet, nothing has happened. -/
theorem Host.fresh_coherent : (default : Host).Coherent where
  loads := fresh_sound.loads
  calm _ _ _ h := nomatch h
  tidy := fresh_sound.live.toTidy
  recorded :=
    { moved := fun _ _ h => nomatch h
      phase := fun _ _ h => nomatch h
      bare := fun _ _ h => nomatch h
      ready := fun _ _ h => nomatch h
      scheduled := fun _ _ h => nomatch h
      waiting := fun _ h => nomatch h
      failed := fun _ => ⟨(fun h => nomatch h), fun h => nomatch h⟩
      fixed := fun _ h => nomatch h
      together := fun _ _ _ h => nomatch h }
  told _ _ h := nomatch List.suffix_nil.1 h
  announced :=
    { exist := fun _ _ h => nomatch h.isSome
      verdicts := fun _ _ _ h => nomatch h.isSome
      done := fun _ _ _ h => nomatch h }
  manned :=
    { proper := fun _ _ ⟨_, h⟩ => h.elim (fun h => nomatch h) fun h => nomatch h
      disjoint := fun _ _ _ _ ⟨_, h⟩ => h.elim (fun h => nomatch h) fun h => nomatch h
      idle := fun _ _ _ h => nomatch h
      served := fun _ _ h => nomatch h.isSome }
  tasks _ _ h := nomatch h

/-- Each step of a session keeps its host coherent. -/
theorem Host.Coherent.step (h : host.Coherent) (hstep : host.Step host') : host'.Coherent := by
  cases hstep with
  | build plan =>
    obtain ⟨middle, haside, rfl | ⟨compartment, hbuilds⟩⟩ := Act.newCompartment_builds h.loads.grounded plan
    · exact h.quiet haside.quiet
    · exact (h.quiet haside.quiet).builds hbuilds
  | startLoad name root hroot => exact Act.startTask_coherent h name hroot
  | startImport name root hroot =>
    refine Act.startTask_coherent h name ⟨hroot, fun stage heq => ?_, fun _ heq => nomatch heq⟩
    cases heq
    exact hroot
  | loadNow root hroot => exact Act.loadNow_coherent h hroot
  | importNow root hroot => exact (Act.importNow_coheres Act.lookOutside_coheres h hroot).1
  | evaluate compartment text hbuilt => exact Act.evaluateText_coherent h hbuilt text
  | turn ref => exact Act.pollTask_coherent h ref
  | drop name => exact Act.dropAll_coherent _ h
  | openGate name => exact h.quiet (Act.openGate_isAside name host).quiet
  | assign ref name value => exact Act.assignIn_coherent h ref name value
  | setExport node name value => exact Act.setExport_coherent h node name value
  | elsewhere haside => exact h.quiet haside.quiet

/-- A session keeps its host coherent. -/
theorem Host.Coherent.run (h : host.Coherent) (hrun : host.Run host') : host'.Coherent := by
  induction hrun with
  | refl => exact h
  | tail _ hstep ih => exact ih.step hstep

end ModuleLoader
