import ModuleLoader.Proofs.Closures
import ModuleLoader.Proofs.Sessions
import ModuleLoader.Proofs.SidedDrivers
/-!
Tasks and evaluations keep sides apart: a task that loads or imports a key of the acting side has its turn
there, and what the embedder assigns is on the side of the record or of the key.
-/

namespace ModuleLoader
set_option autoImplicit false

variable {sides : Sides} {side : Bool} {host host' : Host}

/-- What a task does is on the side of its key. -/
theorem TaskWork.OnSide.root {work : TaskWork} (h : work.OnSide host sides side) {root : Node}
    (hroot : work.root? = some root) : sides.of root.compartment = side := by
  cases work with
  | loading stage =>
    cases hroot
    exact h.1
  | importing work =>
    cases hroot
    exact ImportWork.OnSide.node h
  | finished => cases hroot
  | dropped => cases hroot

namespace Act

theorem lookOutside_stays : LookReady.Stays sides lookOutside :=
  fun host watch waker h hwatch => .getBind (lookReady_stays host.nesting host watch waker h hwatch)

/-- A task may change to work of either side. -/
theorem changeTask_stays (h : host.Sided sides) (ref : Ref .task) {work : TaskWork}
    (hwork : work.OnSide host sides side) : (changeTask ref work).Stays sides host fun _ _ => True := by
  obtain ⟨hsided, hmoves⟩ := h.putTasks (host.tasks.modify ref fun task => { task with work })
    fun hmoves other task htask => by
    rw [Arena.get?_modify] at htask
    split at htask
    · obtain ⟨_, _, rfl⟩ := Option.map_eq_some_iff.1 htask
      exact ⟨side, hwork.carried hmoves.carries⟩
    · exact (h.work.tasks other task htask).imp fun _ => TaskWork.OnSide.carried hmoves.carries
  exact ⟨hsided, hmoves, trivial⟩

theorem startTask_stays (h : host.Sided sides) (name : String) {work : TaskWork}
    (hwork : work.OnSide host sides side) : (startTask name work).Stays sides host fun _ _ => True := by
  have haside : Aside host { host with board := host.board.enqueue host.tasks.next } :=
    ⟨_, _, _, _, _, _, rfl⟩
  obtain ⟨hqueued, hqueue⟩ := h.aside haside
  obtain ⟨hsided, hmoves⟩ := hqueued.putTasks (host.tasks.push ⟨name, work⟩)
    fun hmoves other task htask => by
    rw [Arena.get?_push] at htask
    split at htask
    · cases htask
      exact ⟨side, (hwork.carried hqueue.carries).carried hmoves.carries⟩
    · exact (hqueued.work.tasks other task htask).imp fun _ => TaskWork.OnSide.carried hmoves.carries
  exact ⟨hsided, hqueue.trans sides.law_kept hmoves, trivial⟩

theorem endTask_stays (h : host.Sided sides) (ref : Ref .task) (name : String)
    (result : Except Failure Value) : (endTask ref name result).Stays sides host fun _ _ => True := by
  have hfinished : TaskWork.finished.OnSide host sides sides.active := trivial
  exact (changeTask_stays h ref hfinished).bind
    fun _ _ hafter _ _ => .getBind (.aside (note_aside _) hafter)

/-- A task has its turn on the side of its key. -/
theorem pollTask_stays (h : host.Sided sides) (ref : Ref .task)
    (hroot : ∀ task root, host.tasks.get? ref = some task → task.work.root? = some root →
      sides.of root.compartment = sides.active) :
    (pollTask ref).Stays sides host fun _ _ => True := by
  refine .getBind ?_
  split
  · exact .pure h trivial
  · rename_i task htask
    obtain ⟨side, hside⟩ := h.work.tasks ref task htask
    have hactive : ∀ root, task.work.root? = some root → task.work.OnSide host sides sides.active := by
      intro root hof
      have hsame := (hside.root hof).symm.trans (hroot task root htask hof)
      exact hsame ▸ hside
    split
    · exact .pure h trivial
    · exact .pure h trivial
    · rename_i stage hwork
      rw [hwork] at hactive
      obtain ⟨hnode, hheeds⟩ := hactive stage.root rfl
      have hpolled : (stage.poll (.task ref)).Stays sides host fun result host' =>
          ∀ next, result = .pending next → (TaskWork.loading next).OnSide host' sides sides.active := by
        have hpoll := stage.poll_heeds sides.law_kept h.loads hheeds (.task ref)
        obtain ⟨hafter, hmoves, hnext⟩ := Act.Stays.heeds h hpoll (stage.poll_sameWork h.loads hheeds _)
        refine ⟨hafter, hmoves, fun next heq => ⟨?_, hnext next heq⟩⟩
        rw [stage.poll_root (.task ref) host next heq]
        exact hnode
      refine hpolled.bind fun result after hafter _ hresult => ?_
      cases result with
      | pending next => exact changeTask_stays hafter ref (hresult next rfl)
      | ready result => cases result <;> exact endTask_stays hafter ref _ _
    · rename_i work hwork
      rw [hwork] at hactive
      refine (ImportWork.poll_stays lookOutside_stays h (hactive work.node rfl) (.task ref)).bind
        fun result after hafter _ hresult => ?_
      cases result with
      | pending next =>
        have hnext : (TaskWork.importing next).OnSide after sides sides.active := hresult next rfl
        exact changeTask_stays hafter ref hnext
      | ready result => cases result <;> exact endTask_stays hafter ref _ _

theorem dropTask_stays (h : host.Sided sides) (ref : Ref .task) :
    (dropTask ref).Stays sides host fun _ _ => True := by
  refine .getBind ?_
  split
  · exact .pure h trivial
  · split
    · refine .afterAside (forgetWork_aside _) h fun _ left hleft _ => ?_
      have hdropped : TaskWork.dropped.OnSide left sides sides.active := trivial
      exact changeTask_stays hleft ref hdropped
    · exact .pure h trivial

theorem dropAll_stays : ∀ (refs : List (Ref .task)) {host : Host}, host.Sided sides →
    (dropAll refs).Stays sides host fun _ _ => True := by
  intro refs
  induction refs with
  | nil => exact fun h => .pure h trivial
  | cons ref rest ih => exact fun h => (dropTask_stays h ref).bind fun _ _ hafter _ _ => ih hafter

theorem command_stays {compartment : Ref .compartment} (hside : sides.of compartment = sides.active) :
    ∀ (text : List String) {host : Host}, host.Sided sides →
      (Evaluation.command compartment text).Stays sides host fun _ _ => True := by
  -- By induction on the words of a command.
  intro text
  induction text with
  | nil => exact fun h => .pure h trivial
  | cons word rest ih =>
    intro host h
    have himport (key : String) : (importNow lookOutside ⟨compartment, key⟩).Stays sides host
        fun _ _ => True := importNow_stays lookOutside_stays h hside
    unfold Evaluation.command
    split
    · refine (himport _).bind fun result after hafter _ _ => ?_
      cases result with
      | error failure => exact .pure hafter trivial
      | ok space =>
        refine .getBind ?_
        split <;> exact .pure hafter trivial
    · refine (himport _).bind fun result after hafter _ _ => ?_
      cases result <;> exact .pure hafter trivial
    · refine .getBind ?_
      split <;> exact .pure h trivial
    · rename_i heq
      obtain ⟨-, rfl⟩ := List.cons.inj heq
      exact ih h
    · exact .pure h trivial
    · exact .getBind (.pure h trivial)
    · exact .pure h trivial

theorem evaluateText_stays (h : host.Sided sides) {compartment : Ref .compartment}
    (hside : sides.of compartment = sides.active) (text : String) :
    (evaluateText compartment text).Stays sides host fun _ _ => True := by
  refine .getBind ?_
  dsimp only
  split
  · refine (command_stays hside _ h).bind fun result after hafter _ _ => ?_
    cases result <;> exact .pure hafter trivial
  · exact .pure h trivial

theorem setExport_stays (h : host.Sided sides) {node : Node}
    (hnode : sides.of node.compartment = sides.active) (name : String) (value : Value) :
    (setExport node name value).Stays sides host fun _ _ => True := by
  refine .getBind ?_
  split
  · exact .pure h trivial
  · rename_i slot hslot
    have hside : sides.of slot = sides.active := by
      obtain ⟨ref, hexports, hslot⟩ := Option.bind_eq_some_iff.1 hslot
      obtain ⟨record, hrecord, rfl⟩ := Option.map_eq_some_iff.1 hexports
      obtain ⟨found, hlookup, rfl⟩ := Option.map_eq_some_iff.1 hrecord
      obtain ⟨entry, hentry, rfl⟩ := Option.map_eq_some_iff.1 hlookup
      have hspace := (h.apart.record (h.apart.memo node entry hentry).record).2.space
      exact (h.apart.space hspace name slot hslot).2.trans hnode
    exact (Stays.fills h (setSlot_fills h.apart hside value)).bind fun _ _ hlast _ _ => .pure hlast trivial

end Act

end ModuleLoader
