import ModuleLoader.Proofs.Completions
import ModuleLoader.Proofs.Setups
/-!
Runs of any number of loads, in any order of their turns and of the answers of hooks. A load that ends
in such a run ends well exactly if descriptors alone say that all it can come to is loadable.
-/

namespace ModuleLoader
set_option autoImplicit false

variable {start : Host} {region : Node → Prop} {host : Host}

/-- One step of a run of loads: a load starts, a task has its turn, the run queue becomes any other, a
gate opens, or the tasks of a name are dropped. -/
inductive Host.LoadStep (host : Host) : Host → Prop where
  | start (name : String) (root : Node) : LoadStep host (Act.startLoad name root host).2
  | poll (ref : Ref .task) : LoadStep host (Act.pollTask ref host).2
  | requeue (tasks : List (Ref .task)) : LoadStep host { host with board := { host.board with tasks } }
  | openGate (name : String) : LoadStep host (Act.openGate name host).2
  | drop (name : String) : LoadStep host (Act.dropNamed name host).2

/-- No task can still finish, and no load or call of a hook is under way. -/
structure Host.AtRest (host : Host) : Prop where
  tasks : ∀ ref task, host.tasks.get? ref = some task → task.isLive = false
  loads : ∀ load work, ¬ host.InFlight load work
  calls : ∀ call work, ¬ host.Asks call work

/-- No key of the compartment was asked for. -/
structure Compartment.Fresh (compartment : Compartment) : Prop where
  memo : compartment.memo = .empty
  loading : compartment.loading = .empty
  calls : compartment.calls = .empty

namespace Host

theorem AtRest.of_eq {host host' : Host} (h : host.AtRest) (tasks : host'.tasks = host.tasks)
    (loads : host'.loads = host.loads) (calls : host'.calls = host.calls) : host'.AtRest where
  tasks ref task htask := h.tasks ref task (tasks ▸ htask)
  loads load work hflight := by
    unfold InFlight at hflight
    rw [loads] at hflight
    exact h.loads load work hflight
  calls call work hasks := by
    unfold Asks at hasks
    rw [calls] at hasks
    exact h.calls call work hasks

/-- Nothing is under way where nothing was built. -/
theorem default_atRest : (default : Host).AtRest where
  tasks _ _ h := nomatch h
  loads _ _ := fun ⟨_, h⟩ => by rcases h with h | h <;> cases h
  calls _ _ := fun ⟨_, h⟩ => by rcases h with h | h <;> cases h

theorem fresh_push {host host' : Host} {compartment : Compartment}
    (hpush : host'.compartments = host.compartments.push compartment) (hnew : compartment.Fresh)
    (h : ∀ ref, (host.compartment ref).Fresh) (ref : Ref .compartment) :
    (host'.compartment ref).Fresh := by
  unfold Host.compartment
  rw [hpush, Arena.get?_push]
  split
  · exact hnew
  · exact h ref

end Host

namespace Act

/-- The turn of the first task of the run queue is a run of two steps. -/
theorem runNext_run (host : Host) : Relation.ReflTransGen Host.LoadStep host (runNext host).2 := by
  have hnext : After host runNext fun _ after => Relation.ReflTransGen Host.LoadStep host after := by
    unfold runNext
    rw [after_bind, after_get]
    cases host.board.tasks with
    | nil => exact .refl
    | cons ref rest => exact .tail (.single (.requeue rest)) (.poll ref)
  exact hnext

/-- Building a compartment begins nothing, and nobody asked it for a key. -/
theorem newCompartment_fresh {host : Host} (hrest : host.AtRest)
    (hfresh : ∀ ref, (host.compartment ref).Fresh) (plan : CompartmentPlan) :
    After host (newCompartment plan) fun _ after =>
      after.AtRest ∧ ∀ ref, (after.compartment ref).Fresh := by
  unfold newCompartment
  cases settingsOf plan with
  | error failure => exact ⟨hrest, hfresh⟩
  | ok settings =>
    dsimp only
    refine (buildAll_aside plan.label plan.modules).after_bind fun result middle hmiddle => ?_
    obtain ⟨_, _, _, _, _, _, rfl⟩ := hmiddle
    cases result with
    | error failure => exact ⟨hrest.of_eq rfl rfl rfl, hfresh⟩
    | ok descriptors =>
      exact ⟨hrest.of_eq rfl rfl rfl, Host.fresh_push rfl ⟨rfl, rfl, rfl⟩ hfresh⟩

end Act

/-- What a task does is loading, as was foretold. -/
def TaskWork.Fits (start : Host) (region : Node → Prop) (host : Host) : TaskWork → Prop
  | .loading stage => stage.Fits start region host
  | .importing _ => False
  | .finished => True
  | .dropped => True

theorem TaskWork.Fits.mono {host' : Host} (hrecords : host.records.Extends host'.records)
    (hloads : ∀ node load, region node → start.LoadFits host node load →
      start.LoadFits host' node load)
    {work : TaskWork} (h : work.Fits start region host) : work.Fits start region host' := by
  cases work with
  | loading stage => exact ClosureStage.Fits.mono hrecords hloads h
  | importing work => exact h
  | finished => trivial
  | dropped => trivial

/-- All tasks are loading, and whatever is known was foretold. -/
structure Host.OnlyLoads (start : Host) (region : Node → Prop) (host : Host) : Prop where
  foretold : Host.Foretold start region host
  tasks : ∀ ref task, host.tasks.get? ref = some task → task.work.Fits start region host

namespace Host

/-- At the beginning nothing is known of the region. -/
theorem AtRest.onlyLoads (h : start.AtRest)
    (hfresh : ∀ node, region node → (start.compartment node.compartment).Fresh) :
    OnlyLoads start region start where
  foretold := by
    refine ⟨fun _ => rfl, rfl, rfl, fun _ hknown => hknown, fun node entry hnode hentry => ?_,
      fun node load hnode hload => ?_, fun node call hnode hcall => ?_,
      fun call work hasks => (h.calls call work hasks).elim,
      fun load work hflight => (h.loads load work hflight).elim⟩
    · unfold entryAt? at hentry
      rw [(hfresh node hnode).memo] at hentry
      cases hentry
    · unfold loadAt? at hload
      rw [(hfresh node hnode).loading] at hload
      cases hload
    · unfold callAt? at hcall
      rw [(hfresh node hnode).calls] at hcall
      cases hcall
  tasks ref task htask := by
    have hlive := h.tasks ref task htask
    unfold Task.isLive at hlive
    obtain ⟨name, work⟩ := task
    cases work with
    | loading stage => cases hlive
    | importing work => cases hlive
    | finished => trivial
    | dropped => trivial

end Host

/-- The name of a task that loads, and the key whose closure it loads. -/
def Task.load? (task : Task) : Option (String × Node) :=
  match task.work with
  | .loading stage => some (task.name, stage.root)
  | _ => none

/-- What a task loads, and under which name. -/
def Host.loadOf? (host : Host) (ref : Ref .task) : Option (String × Node) :=
  (host.tasks.get? ref).bind Task.load?

theorem Host.loadOf?_eq_some {ref : Ref .task} {name : String} {root : Node} :
    host.loadOf? ref = some (name, root) ↔
      ∃ stage, host.tasks.get? ref = some ⟨name, .loading stage⟩ ∧ stage.root = root := by
  unfold loadOf?
  rw [Option.bind_eq_some_iff]
  constructor
  · rintro ⟨⟨_, loading | _ | _ | _⟩, htask, hload⟩ <;> cases hload
    exact ⟨_, htask, rfl⟩
  · rintro ⟨stage, htask, rfl⟩
    exact ⟨_, htask, rfl⟩

/-- The load of a task goes on, or has ended as was foretold of its root. -/
def Host.EndsWell (start : Host) (region : Node → Prop) (ref : Ref .task) (name : String)
    (root : Node) (after : Host) : Prop :=
  after.loadOf? ref = some (name, root) ∨
    ∃ result, after.tasks.get? ref = some ⟨name, .finished⟩ ∧
      after.journal.back? = some (.finished name result) ∧
        (region root → (result.isOk ↔ ∀ node, start.Reaches root node → start.Loadable node))

namespace Host

/-- A change of tasks and of what goes on aside keeps all tasks as they should be, if the new ones
are. -/
theorem OnlyLoads.change (h : OnlyLoads start region host) {middle after : Host}
    (hmiddle : Foretold start region middle) (hupholds : Upholds start region host middle)
    {tasks : Arena .task Task} (hafter : Aside { middle with tasks } after)
    (htasks : ∀ ref task, tasks.get? ref = some task →
      host.tasks.get? ref = some task ∨ task.work.Fits start region middle) :
    OnlyLoads start region after := by
  obtain ⟨_, _, _, _, _, _, rfl⟩ := hafter
  refine ⟨hmiddle.alike _ rfl rfl rfl rfl (.refl _), fun ref task htask => ?_⟩
  have hfits : task.work.Fits start region middle := by
    rcases htasks ref task htask with hold | hnew
    · exact (h.tasks ref task hold).mono hupholds.records hupholds.loadFits
    · exact hnew
  refine hfits.mono (by exact .refl _) fun node load _ hloads => ?_
  exact hloads.of_eq (by rfl) (by rfl)

theorem OnlyLoads.aside (h : OnlyLoads start region host) {after : Host}
    (hafter : Aside host after) : OnlyLoads start region after :=
  h.change h.foretold (.refl _) hafter fun _ _ => .inl

end Host

namespace Act

/-- After a load did something, its task does something else from now on. -/
theorem changeTask_fits (h : Host.OnlyLoads start region host) {after : Host}
    (hafter : Host.Foretold start region after) (hupholds : Host.Upholds start region host after)
    (ref : Ref .task) {work : TaskWork} (hwork : work.Fits start region after) :
    Host.OnlyLoads start region (changeTask ref work after).2 := by
  refine h.change hafter hupholds (.refl _) fun other task htask => ?_
  rw [Arena.get?_modify, hupholds.tasks] at htask
  split at htask
  · obtain ⟨old, -, rfl⟩ := Option.map_eq_some_iff.1 htask
    exact .inr hwork
  · exact .inl htask

theorem get?_changeTask {after : Host} {ref : Ref .task} {name : String} {old work : TaskWork}
    (h : after.tasks.get? ref = some ⟨name, old⟩) :
    (changeTask ref work after).2.tasks.get? ref = some ⟨name, work⟩ := by
  change (after.tasks.modify ref _).get? ref = _
  rw [Arena.get?_modify, if_pos rfl, h]
  rfl

/-- The turn of a task in a run of loads. -/
theorem pollTask_fits (hsettled : start.Settled region) (h : Host.OnlyLoads start region host)
    (ref : Ref .task) : After host (pollTask ref) fun _ after => Host.OnlyLoads start region after ∧
      ∀ name stage, host.tasks.get? ref = some ⟨name, .loading stage⟩ →
        Host.EndsWell start region ref name stage.root after := by
  unfold pollTask
  rw [after_bind, after_get]
  cases htask : host.tasks.get? ref with
  | none => exact ⟨h, fun _ _ hnone => nomatch hnone⟩
  | some task =>
    obtain ⟨name, work⟩ := task
    have hwork := h.tasks ref _ htask
    cases work with
    | finished => exact ⟨h, fun _ _ hsome => nomatch hsome⟩
    | dropped => exact ⟨h, fun _ _ hsome => nomatch hsome⟩
    | importing work => exact hwork.elim
    | loading stage =>
      dsimp only
      rw [after_bind]
      refine After.mono (ClosureStage.poll_abides h.foretold hsettled hwork (.task ref))
        fun result after ⟨hafter, hupholds, hresult⟩ => ?_
      have htask' : after.tasks.get? ref = some ⟨name, .loading stage⟩ := by
        rw [hupholds.tasks, htask]
      have hfinished : Host.OnlyLoads start region (changeTask ref .finished after).2 :=
        changeTask_fits h hafter hupholds ref trivial
      cases result with
      | pending next =>
        obtain ⟨hnext, hroot⟩ := hresult
        refine ⟨changeTask_fits h hafter hupholds ref hnext, ?_⟩
        rintro _ _ ⟨⟩
        exact .inl (Host.loadOf?_eq_some.2 ⟨next, get?_changeTask htask', hroot⟩)
      | ready result =>
        cases result with
        | ok done =>
          refine ⟨hfinished.aside (note_aside _ _), ?_⟩
          rintro _ _ ⟨⟩
          refine .inr ⟨_, get?_changeTask htask', Array.back?_push, fun hregion => ?_⟩
          exact ⟨fun _ => hresult hregion, fun _ => rfl⟩
        | error failure =>
          refine ⟨hfinished.aside (note_aside _ _), ?_⟩
          rintro _ _ ⟨⟩
          refine .inr ⟨_, get?_changeTask htask', Array.back?_push, fun hregion => ?_⟩
          refine ⟨fun hok => (Bool.false_ne_true hok).elim, fun hall => ?_⟩
          obtain ⟨node, hreaches, hnot⟩ := hresult hregion
          exact absurd (hall node hreaches) hnot

theorem startLoad_fits (h : Host.OnlyLoads start region host) (name : String) (root : Node) :
    After host (startLoad name root) fun _ => Host.OnlyLoads start region := by
  have haside : Aside { host with tasks := host.tasks.push ⟨name, .loading (.fresh root)⟩ }
      (startLoad name root host).2 :=
    ⟨_, _, _, _, _, _, rfl⟩
  refine h.change h.foretold (.refl _) haside fun ref task htask => ?_
  rw [Arena.get?_push] at htask
  split at htask
  · cases htask
    exact .inr trivial
  · exact .inl htask

theorem openGate_aside (name : String) : (openGate name).IsAside := by
  unfold openGate
  exact .getBind fun _ => .bind (fun _ => ⟨_, _, _, _, _, _, rfl⟩) fun _ => tell_aside _

theorem dropTask_fits (h : Host.OnlyLoads start region host) (ref : Ref .task) :
    After host (dropTask ref) fun _ => Host.OnlyLoads start region := by
  unfold dropTask
  rw [after_bind, after_get]
  cases htask : host.tasks.get? ref with
  | none => exact h
  | some task =>
    dsimp only
    split
    · have hforget : (forgetWork task.work).IsAside := by
        cases hwork : task.work with
        | loading stage => exact stage.forget_aside
        | importing work =>
          have hnone := h.tasks ref task htask
          rw [hwork] at hnone
          exact hnone.elim
        | finished => exact .pure _
        | dropped => exact .pure _
      refine hforget.after_bind fun _ after hafter => ?_
      obtain ⟨hforetold, hupholds⟩ := h.foretold.aside hafter
      exact changeTask_fits h hforetold hupholds ref trivial
    · exact h

theorem dropAll_fits : ∀ (refs : List (Ref .task)) {host : Host}, Host.OnlyLoads start region host →
    After host (dropAll refs) fun _ => Host.OnlyLoads start region
  | [], _, h => h
  | ref :: rest, _, h => by
    unfold dropAll
    rw [after_bind]
    exact (dropTask_fits h ref).mono fun _ _ hafter => dropAll_fits rest hafter

end Act

namespace Host

/-- What a step of a run of loads preserves. -/
theorem LoadStep.onlyLoads (hsettled : start.Settled region) {after : Host}
    (hstep : host.LoadStep after) (h : OnlyLoads start region host) :
    OnlyLoads start region after := by
  cases hstep with
  | start name root => exact Act.startLoad_fits h name root
  | poll ref => exact (Act.pollTask_fits hsettled h ref).1
  | requeue tasks => exact h.aside ⟨_, _, _, _, _, _, rfl⟩
  | openGate name => exact h.aside (Act.openGate_aside name host)
  | drop name => exact Act.dropAll_fits _ h

/-- What a whole run of loads preserves. -/
theorem onlyLoads_of_run (hsettled : start.Settled region) (hstart : OnlyLoads start region start)
    (hrun : Relation.ReflTransGen LoadStep start host) : OnlyLoads start region host := by
  induction hrun with
  | refl => exact hstart
  | tail _ hstep ih => exact hstep.onlyLoads hsettled ih

end Host

/-- In any run of loads from compartments just built, in any order of their turns and of the answers of
hooks, the load of a key that ends succeeds exactly if all that can be reached from the key is
loadable. -/
theorem Act.load_succeeds_iff {start host : Host} {root : Node} (hrest : start.AtRest)
    (hfresh : ∀ node, start.Reaches root node → (start.compartment node.compartment).Fresh)
    (hsettled : ∀ node, start.Reaches root node →
      start.prospect node ≠ .unsettled ∧ start.RepliesAlike node)
    (hrun : Relation.ReflTransGen Host.LoadStep start host) {ref : Ref .task} {name : String}
    (htask : host.loadOf? ref = some (name, root)) :
    After host (pollTask ref) fun _ after =>
      after.loadOf? ref = some (name, root) ∨
        ∃ result, after.tasks.get? ref = some ⟨name, .finished⟩ ∧
          after.journal.back? = some (.finished name result) ∧
            (result.isOk ↔ ∀ node, start.Reaches root node → start.Loadable node) := by
  have hregion : start.Settled (start.Reaches root) :=
    ⟨fun _ _ hreaches hnext => hreaches.tail hnext, fun node hreaches => (hsettled node hreaches).1,
      fun node hreaches => (hsettled node hreaches).2⟩
  have honly := Host.onlyLoads_of_run hregion (hrest.onlyLoads hfresh) hrun
  obtain ⟨stage, hstage, rfl⟩ := Host.loadOf?_eq_some.1 htask
  rcases (Act.pollTask_fits hregion honly ref).2 name stage hstage with hnext | ⟨result, hfinished, hback, hresult⟩
  · exact .inl hnext
  · exact .inr ⟨result, hfinished, hback, hresult .refl⟩

/-- A module behind a gate, and one that asks for it by an alias and by an alias of that, one shallow
load at a time. -/
def gatedGraph : Host :=
  let gated : Reply := .describe (ChainKind.moduleOf [.exportName "x"] none)
  let inner : CompartmentPlan :=
    { CompartmentPlan.simple "inner" [] with
      loadHook := some (.ofList [("x", [⟨some "gate", 1, gated⟩])]) }
  let outer : CompartmentPlan :=
    { CompartmentPlan.simple "outer"
        [("main", ChainKind.moduleOf [.importName "x" "y", .importName "x" "z"] none),
         ("y", .redirect "x" (some "inner")), ("z", .redirect "y" none)] with
      settings := some "[\"outer\", \"default\", 1]" }
  (Act.newCompartment outer (Act.newCompartment inner default).2).2

/-- Two loads begin, the later one first, and the gate opens. -/
def gatedRun : Host :=
  let host := (Act.startLoad "whole" ⟨⟨1⟩, "main"⟩ gatedGraph).2
  let host := (Act.startLoad "alias" ⟨⟨1⟩, "z"⟩ host).2
  let host := (Act.pollTask ⟨1⟩ host).2
  let host := (Act.pollTask ⟨0⟩ host).2
  let host := (Act.openGate "gate" host).2
  (Act.pollTask ⟨0⟩ host).2

theorem gatedGraph_fresh :
    gatedGraph.AtRest ∧ ∀ ref, (gatedGraph.compartment ref).Fresh := by
  obtain ⟨hinner, hfresh⟩ := Act.newCompartment_fresh Host.default_atRest (fun _ => ⟨rfl, rfl, rfl⟩) _
  exact Act.newCompartment_fresh hinner hfresh _

theorem gatedRun_run : Relation.ReflTransGen Host.LoadStep gatedGraph gatedRun := by
  have hstart : Relation.ReflTransGen Host.LoadStep gatedGraph _ :=
    .tail (.single (.start "whole" ⟨⟨1⟩, "main"⟩)) (.start "alias" ⟨⟨1⟩, "z"⟩)
  exact (((hstart.tail (.poll ⟨1⟩)).tail (.poll ⟨0⟩)).tail (.openGate "gate")).tail (.poll ⟨0⟩)

/-- The load of the module that asks for both aliases ends well in its third turn. -/
theorem Act.load_succeeds_gated :
    ((Act.pollTask ⟨0⟩ gatedRun).2.tasks.get? ⟨0⟩).map Task.isLive = some false ∧
      ∃ result, (Act.pollTask ⟨0⟩ gatedRun).2.journal.back? = some (.finished "whole" result) ∧
        (result.isOk ↔
          ∀ node, gatedGraph.Reaches ⟨⟨1⟩, "main"⟩ node → gatedGraph.Loadable node) := by
  have hdone : ((Act.pollTask ⟨0⟩ gatedRun).2.tasks.get? ⟨0⟩).map Task.isLive = some false := by
    decide +kernel
  have hclosed : ∀ node, gatedGraph.Reaches ⟨⟨1⟩, "main"⟩ node →
      node ∈ [⟨⟨1⟩, "main"⟩, ⟨⟨1⟩, "y"⟩, ⟨⟨1⟩, "z"⟩, ⟨⟨0⟩, "x"⟩] :=
    fun _ => Host.Reaches.mem_of_closed (by decide +kernel) List.mem_cons_self
  have hsettled : ∀ node ∈ [(⟨⟨1⟩, "main"⟩ : Node), ⟨⟨1⟩, "y"⟩, ⟨⟨1⟩, "z"⟩, ⟨⟨0⟩, "x"⟩],
      gatedGraph.prospect node ≠ .unsettled ∧
        ∀ answers ∈ (gatedGraph.compartment node.compartment).loadHook,
          ((answers.get? node.key).getD []).length ≤ 1 := by
    decide +kernel
  refine ⟨hdone, ?_⟩
  have htask : gatedRun.loadOf? ⟨0⟩ = some ("whole", ⟨⟨1⟩, "main"⟩) := by decide +kernel
  obtain hnext | ⟨result, -, hback, hresult⟩ :=
    load_succeeds_iff gatedGraph_fresh.1 (fun node _ => gatedGraph_fresh.2 node.compartment)
      (fun node hreaches => ⟨(hsettled node (hclosed node hreaches)).1,
        Host.repliesAlike_of_single (hsettled node (hclosed node hreaches)).2⟩)
      gatedRun_run htask
  · obtain ⟨stage, hstage, -⟩ := Host.loadOf?_eq_some.1 hnext
    rw [hstage] at hdone
    cases hdone
  · exact ⟨result, hback, hresult⟩

end ModuleLoader
