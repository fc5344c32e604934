import ModuleLoader.Proofs.SidedLinks
import ModuleLoader.Proofs.SidedLoads
import ModuleLoader.Proofs.WeakerLaws
/-!
The work in progress belongs to one side or the other: whatever an import, a suspended body, a driver or a
completion will touch is on the side of those who wait for it.
-/

namespace ModuleLoader
set_option autoImplicit false

/-- The completion that is waited for is on that side. -/
def Completion.OnSide (host : Host) (sides : Sides) (side : Bool) : Completion → Prop
  | .known _ => True
  | .shared watch => host.OnSide sides side watch.job

/-- The key of an import is on that side, and so is all that it waits for. -/
structure ImportWork.OnSide (host : Host) (sides : Sides) (side : Bool) (work : ImportWork) : Prop where
  node : sides.of work.node.compartment = side
  loading : ∀ stage, work.stage = .loading stage → stage.Heeds (sides.law side) host
  running : ∀ completion, work.stage = .running completion → completion.OnSide host sides side

/-- The import that a body waits for is on that side. -/
def Awaiting.OnSide (host : Host) (sides : Sides) (side : Bool) : Awaiting → Prop
  | .importing _ _ work => work.OnSide host sides side
  | _ => True

/-- A body is carried out for a record of that side. -/
structure Scope.OnSide (host : Host) (sides : Sides) (side : Bool) (scope : Scope) : Prop where
  home : sides.of scope.home = side
  record : host.OnSide sides side scope.record

/-- A suspended body belongs to that side. -/
structure BodyWork.OnSide (host : Host) (sides : Sides) (side : Bool) (work : BodyWork) : Prop where
  scope : work.scope.OnSide host sides side
  awaiting : work.awaiting.OnSide host sides side

/-- The records of a component that are still to be run are on that side. -/
structure ComponentRun.OnSide (host : Host) (sides : Sides) (side : Bool) (run : ComponentRun) :
    Prop where
  current : ∀ ref body, run.current = some (ref, body) →
    host.OnSide sides side ref ∧ body.OnSide host sides side
  rest : ∀ ref ∈ run.rest, host.OnSide sides side ref

/-- What a driver waits for is on that side. -/
def DriverWait.OnSide (host : Host) (sides : Sides) (side : Bool) : DriverWait → Prop
  | .outside _ completion => completion.OnSide host sides side
  | .run _ work => work.OnSide host sides side

/-- The records of a component are on that side, and so is what it waits for and what it announces. -/
structure Component.OnSide (host : Host) (sides : Sides) (side : Bool) (component : Component) :
    Prop where
  members : ∀ ref ∈ component.members, host.OnSide sides side ref
  outside : ∀ completion ∈ component.outside, completion.OnSide host sides side
  verdict : host.OnSide sides side component.verdict

/-- All that a driver runs and waits for is on that side. -/
structure DriverWork.OnSide (host : Host) (sides : Sides) (side : Bool) (driver : DriverWork) : Prop where
  components : ∀ component ∈ driver.components, component.OnSide host sides side
  members : ∀ member ∈ driver.members, member.2.OnSide host sides side

/-- The driver of a completion is on that side, and so is the verdict it listens for. -/
structure ReadyWork.OnSide (host : Host) (sides : Sides) (side : Bool) (work : ReadyWork) : Prop where
  driver : ∀ watch, work.driver = some watch → host.OnSide sides side watch.job
  verdict : host.OnSide sides side work.verdict

/-- The key that a task loads or imports, while it can finish. -/
def TaskWork.root? : TaskWork → Option Node
  | .loading stage => some stage.root
  | .importing work => some work.node
  | _ => none

/-- What a task does is done on that side. -/
def TaskWork.OnSide (host : Host) (sides : Sides) (side : Bool) : TaskWork → Prop
  | .loading stage => sides.of stage.root.compartment = side ∧ stage.Heeds (sides.law side) host
  | .importing work => work.OnSide host sides side
  | _ => True

/-- All work in progress is on one side. -/
structure Host.WorkSided (host : Host) (sides : Sides) : Prop where
  readies : ∀ ready bell work, host.readies.get? ready = some ⟨bell, .idle work⟩ →
    work.OnSide host sides (sides.of ready)
  drivers : ∀ driver bell work, Shelf.drivers.get? host driver = some ⟨bell, .idle work⟩ →
    work.OnSide host sides (sides.of driver)
  tasks : ∀ ref task, host.tasks.get? ref = some task → ∃ side, task.work.OnSide host sides side

/-- The sides of a host are apart, also in all work in progress. -/
structure Host.Sided (host : Host) (sides : Sides) : Prop where
  loads : (sides.law sides.active).Stands host
  work : host.WorkSided sides

/-- An action of the acting side leaves the sides apart. -/
def Act.Stays {α : Type} (act : Act α) (sides : Sides) (host : Host) (post : α → Host → Prop) : Prop :=
  After host act fun result host' =>
    host'.Sided sides ∧ (sides.law sides.active).Moves host host' ∧ post result host'

/-- What is on a side in one host is on the same side in another one, as other sides have it. -/
structure Sides.Carries (sides sides' : Sides) (host host' : Host) : Prop where
  born : ∀ {k : Noun} (ref : Ref k), host.Born ref → host'.Born ref ∧ sides'.of ref = sides.of ref
  stage : ∀ {side : Bool} {stage : ClosureStage}, stage.Heeds (sides.law side) host →
    stage.Heeds (sides'.law side) host'

variable {sides sides' : Sides} {side : Bool} {host host' : Host}

/-- What is said of loads is the same for both sides. -/
theorem Sides.implies (sides : Sides) (a b : Bool) (host : Host) :
    (sides.law a).Implies (sides.law b) host host :=
  .of_same id id id

/-- The load of a closure stays on its side, whichever side acts. -/
theorem ClosureStage.Heeds.moves {stage : ClosureStage} (h : stage.Heeds (sides.law side) host)
    (hmoves : (sides.law sides.active).Moves host host') : stage.Heeds (sides.law side) host' := by
  cases stage with
  | fresh root => exact h
  | running load =>
    have hfits {node : Node} {entry : Entry} (h : (sides.law side).fits host node entry) :
        (sides.law side).fits host' node entry :=
      Entry.OnSide.mono (Remains.born hmoves.rel) h
    exact
      { held := fun held hmem => (h.held held hmem).imp_right hfits
        members := fun member hmem =>
          { within := (h.members member hmem).within
            lends := fun watch hwatch => (sides.implies _ _ host').lends
              (hmoves.lends _ _ ((sides.implies _ _ host).lends
                ((h.members member hmem).lends watch hwatch))) }
        backlog := h.backlog }

theorem LoadLaw.Moves.carries (h : (sides.law sides.active).Moves host host') :
    sides.Carries sides host host' :=
  ⟨fun ref href => ⟨Remains.born h.rel ref href, rfl⟩, fun hstage => hstage.moves h⟩

section
variable (hcarries : sides.Carries sides' host host')
include hcarries

theorem Host.OnSide.carried {k : Noun} {ref : Ref k} (h : host.OnSide sides side ref) :
    host'.OnSide sides' side ref :=
  h.follows hcarries.born

theorem Completion.OnSide.carried {completion : Completion} (h : completion.OnSide host sides side) :
    completion.OnSide host' sides' side := by
  cases completion with
  | known result => trivial
  | shared watch => exact Host.OnSide.carried hcarries h

theorem ImportWork.OnSide.carried {work : ImportWork} (h : work.OnSide host sides side) :
    work.OnSide host' sides' side where
  node := (hcarries.born work.node.compartment trivial).2.trans h.node
  loading stage hstage := hcarries.stage (h.loading stage hstage)
  running completion hcompletion := (h.running completion hcompletion).carried hcarries

theorem Scope.OnSide.carried {scope : Scope} (h : scope.OnSide host sides side) :
    scope.OnSide host' sides' side :=
  ⟨(hcarries.born scope.home trivial).2.trans h.home, h.record.carried hcarries⟩

theorem BodyWork.OnSide.carried {work : BodyWork} (h : work.OnSide host sides side) :
    work.OnSide host' sides' side where
  scope := h.scope.carried hcarries
  awaiting := by
    have hawaiting := h.awaiting
    cases hcase : work.awaiting with
    | gate name => trivial
    | turns left => trivial
    | importing specifier target importWork =>
      rw [hcase] at hawaiting
      exact ImportWork.OnSide.carried hcarries hawaiting

theorem ComponentRun.OnSide.carried {run : ComponentRun} (h : run.OnSide host sides side) :
    run.OnSide host' sides' side where
  current ref body heq :=
    (h.current ref body heq).imp (Host.OnSide.carried hcarries) (BodyWork.OnSide.carried hcarries)
  rest ref hmem := (h.rest ref hmem).carried hcarries

theorem DriverWait.OnSide.carried {wait : DriverWait} (h : wait.OnSide host sides side) :
    wait.OnSide host' sides' side := by
  cases wait with
  | outside component completion => exact Completion.OnSide.carried hcarries h
  | run component run => exact ComponentRun.OnSide.carried hcarries h

theorem Component.OnSide.carried {component : Component} (h : component.OnSide host sides side) :
    component.OnSide host' sides' side where
  members ref hmem := (h.members ref hmem).carried hcarries
  outside completion hmem := (h.outside completion hmem).carried hcarries
  verdict := h.verdict.carried hcarries

theorem DriverWork.OnSide.carried {driver : DriverWork} (h : driver.OnSide host sides side) :
    driver.OnSide host' sides' side where
  components component hmem := (h.components component hmem).carried hcarries
  members member hmem := (h.members member hmem).carried hcarries

theorem ReadyWork.OnSide.carried {work : ReadyWork} (h : work.OnSide host sides side) :
    work.OnSide host' sides' side where
  driver watch hwatch := (h.driver watch hwatch).carried hcarries
  verdict := h.verdict.carried hcarries

theorem TaskWork.OnSide.carried {work : TaskWork} (h : work.OnSide host sides side) :
    work.OnSide host' sides' side := by
  cases work with
  | loading stage =>
    exact ⟨(hcarries.born stage.root.compartment trivial).2.trans h.1, hcarries.stage h.2⟩
  | importing work => exact ImportWork.OnSide.carried hcarries h
  | finished => trivial
  | dropped => trivial

/-- All work in progress is carried along. -/
theorem Host.WorkSided.carried (h : host.WorkSided sides) (hsame : SameWork host host') :
    host'.WorkSided sides' where
  readies ready bell work hwork := by
    have hcell := hsame.readies ▸ hwork
    have hready : host.Born ready := (Array.getElem?_eq_some_iff.1 hcell).1
    rw [(hcarries.born ready hready).2]
    exact (h.readies ready bell work hcell).carried hcarries
  drivers driver bell work hwork := by
    have hold : Shelf.drivers.get? host' driver = Shelf.drivers.get? host driver :=
      congrArg (fun drivers => (drivers.get? driver).map Driver.shared) hsame.drivers
    have hcell := hold.symm.trans hwork
    obtain ⟨found, hfound, -⟩ := Option.map_eq_some_iff.1 hcell
    have hdriver : host.Born driver := (Array.getElem?_eq_some_iff.1 hfound).1
    rw [(hcarries.born driver hdriver).2]
    exact (h.drivers driver bell work hcell).carried hcarries
  tasks ref task htask :=
    (h.tasks ref task (hsame.tasks ▸ htask)).imp fun _ => TaskWork.OnSide.carried hcarries

end

namespace Host.Sided

theorem apart (h : host.Sided sides) : sides.Apart host :=
  h.loads.inv

theorem same (h : host.Sided sides) (hloads : (sides.law sides.active).Stands host')
    (hmoves : (sides.law sides.active).Moves host host') (hsame : SameWork host host') :
    host'.Sided sides :=
  ⟨hloads, h.work.carried hmoves.carries hsame⟩

theorem aside (h : host.Sided sides) (haside : Aside host host') :
    host'.Sided sides ∧ (sides.law sides.active).Moves host host' := by
  obtain ⟨hstands, hmoves⟩ := h.loads.aside sides.law_kept haside
  exact ⟨h.same hstands hmoves (.of_aside haside), hmoves⟩

/-- The acting side changed records and the store. -/
theorem fills (h : host.Sided sides) (hfills : sides.Fills host host') :
    host'.Sided sides ∧ (sides.law sides.active).Moves host host' := by
  have hcompartment (ref : Ref .compartment) : host'.compartment ref = host.compartment ref := by
    rw [hfills.rest]
    rfl
  have hcallAt (node : Node) (call : Ref .call) (hcall : host'.callAt? node = some call) :
      host.callAt? node = some call := by
    unfold Host.callAt? at hcall ⊢
    rw [hcompartment] at hcall
    exact hcall
  have hloadAt (node : Node) (load : Ref .load) (hload : host'.loadAt? node = some load) :
      host.loadAt? node = some load := by
    unfold Host.loadAt? at hload ⊢
    rw [hcompartment] at hload
    exact hload
  have hsame : SameWork host host' := by
    rw [hfills.rest]
    exact ⟨rfl, rfl, rfl, rfl⟩
  obtain ⟨hstands, hmoves⟩ := h.loads.same sides.law_kept hfills.apart hfills.remains
    (by rw [hfills.rest]) (by rw [hfills.rest]) hcallAt hloadAt
  exact ⟨h.same hstands hmoves hsame, hmoves⟩

/-- The acting side changed its work. -/
theorem works (h : host.Sided sides) {readies : Arena .ready (Shared ReadyWork (Except Failure Unit))}
    {drivers : Arena .driver Driver} {verdicts : Arena .verdict Verdict} {tasks : Arena .task Task}
    (hreadies : sides.Alters (fun _ => True) host.readies readies)
    (hdrivers : sides.Alters (fun _ => True) host.drivers drivers)
    (hverdicts : sides.Alters (fun _ => True) host.verdicts verdicts)
    (hwork : (sides.law sides.active).Moves host { host with readies, drivers, verdicts, tasks } →
      Host.WorkSided { host with readies, drivers, verdicts, tasks } sides) :
    Host.Sided { host with readies, drivers, verdicts, tasks } sides ∧
      (sides.law sides.active).Moves host { host with readies, drivers, verdicts, tasks } := by
  have htouches : sides.Touches host { host with readies, drivers, verdicts, tasks } :=
    .of_cells rfl rfl (.refl _) (.refl _) (.refl _) hreadies hdrivers hverdicts
  obtain ⟨hstands, hmoves⟩ := h.loads.same sides.law_kept (h.apart.touch htouches) htouches.remains
    rfl rfl (fun _ _ => id) fun _ _ => id
  exact ⟨⟨hstands, hwork hmoves⟩, hmoves⟩

theorem putVerdicts (h : host.Sided sides) {verdicts : Arena .verdict Verdict}
    (halters : sides.Alters (fun _ => True) host.verdicts verdicts) :
    Host.Sided { host with verdicts } sides ∧
      (sides.law sides.active).Moves host { host with verdicts } :=
  h.works (.refl _) (.refl _) halters fun hmoves =>
    { readies := fun ready bell work hwork => (h.work.readies ready bell work hwork).carried hmoves.carries
      drivers := fun driver bell work hwork => (h.work.drivers driver bell work hwork).carried hmoves.carries
      tasks := fun ref task htask =>
        (h.work.tasks ref task htask).imp fun _ => TaskWork.OnSide.carried hmoves.carries }

theorem putDrivers (h : host.Sided sides) {drivers : Arena .driver Driver}
    (halters : sides.Alters (fun _ => True) host.drivers drivers)
    (hdrivers : (sides.law sides.active).Moves host { host with drivers } → ∀ driver bell work,
      (drivers.get? driver).map Driver.shared = some ⟨bell, .idle work⟩ →
        work.OnSide { host with drivers } sides (sides.of driver)) :
    Host.Sided { host with drivers } sides ∧
      (sides.law sides.active).Moves host { host with drivers } :=
  h.works (.refl _) halters (.refl _) fun hmoves =>
    { readies := fun ready bell work hwork => (h.work.readies ready bell work hwork).carried hmoves.carries
      drivers := hdrivers hmoves
      tasks := fun ref task htask =>
        (h.work.tasks ref task htask).imp fun _ => TaskWork.OnSide.carried hmoves.carries }

theorem putReadies (h : host.Sided sides)
    {readies : Arena .ready (Shared ReadyWork (Except Failure Unit))}
    (halters : sides.Alters (fun _ => True) host.readies readies)
    (hreadies : (sides.law sides.active).Moves host { host with readies } → ∀ ready bell work,
      readies.get? ready = some ⟨bell, .idle work⟩ →
        work.OnSide { host with readies } sides (sides.of ready)) :
    Host.Sided { host with readies } sides ∧
      (sides.law sides.active).Moves host { host with readies } :=
  h.works halters (.refl _) (.refl _) fun hmoves =>
    { readies := hreadies hmoves
      drivers := fun driver bell work hwork => (h.work.drivers driver bell work hwork).carried hmoves.carries
      tasks := fun ref task htask =>
        (h.work.tasks ref task htask).imp fun _ => TaskWork.OnSide.carried hmoves.carries }

theorem putTasks (h : host.Sided sides) (tasks : Arena .task Task)
    (htasks : (sides.law sides.active).Moves host { host with tasks } → ∀ ref task,
      tasks.get? ref = some task → ∃ side, task.work.OnSide { host with tasks } sides side) :
    Host.Sided { host with tasks } sides ∧
      (sides.law sides.active).Moves host { host with tasks } :=
  h.works (.refl _) (.refl _) (.refl _) fun hmoves =>
    { readies := fun ready bell work hwork => (h.work.readies ready bell work hwork).carried hmoves.carries
      drivers := fun driver bell work hwork => (h.work.drivers driver bell work hwork).carried hmoves.carries
      tasks := htasks hmoves }

/-- The completion of a record is on the side of the record. -/
theorem completion (h : host.Sided sides) {ref : Ref .record} (href : host.OnSide sides side ref) :
    (host.completion ref).OnSide host sides side := by
  unfold Host.completion
  dsimp only
  split
  · rename_i ready hready
    exact (h.apart.record href).2.ready ready hready
  · split <;> trivial

end Host.Sided

namespace Act.Stays

variable {α β : Type}

theorem mono {act : Act α} {post post' : α → Host → Prop} (h : act.Stays sides host post)
    (himp : ∀ result host', post result host' → post' result host') : act.Stays sides host post' :=
  ⟨h.1, h.2.1, himp _ _ h.2.2⟩

theorem pure {post : α → Host → Prop} {result : α} (h : host.Sided sides) (hpost : post result host) :
    (Pure.pure result : Act α).Stays sides host post :=
  ⟨h, .refl sides.law_kept host, hpost⟩

theorem bind {act : Act α} {next : α → Act β} {post : α → Host → Prop} {post' : β → Host → Prop}
    (h : act.Stays sides host post)
    (hnext : ∀ result host', host'.Sided sides → (sides.law sides.active).Moves host host' →
      post result host' → (next result).Stays sides host' post') :
    (act >>= next).Stays sides host post' := by
  obtain ⟨hsided, hmoves, hpost⟩ := h
  obtain ⟨hsided', hmoves', hpost'⟩ := hnext _ _ hsided hmoves hpost
  exact ⟨hsided', hmoves.trans sides.law_kept hmoves', hpost'⟩

theorem getBind {next : Host → Act β} {post : β → Host → Prop}
    (h : (next host).Stays sides host post) :
    (MonadState.get >>= next : Act β).Stays sides host post :=
  h

theorem aside {act : Act α} (hact : act.IsAside) (h : host.Sided sides) :
    act.Stays sides host fun _ _ => True := by
  obtain ⟨hsided, hmoves⟩ := h.aside (hact host)
  exact ⟨hsided, hmoves, trivial⟩

theorem afterAside {act : Act α} {next : α → Act β} {post : β → Host → Prop} (hact : act.IsAside)
    (h : host.Sided sides) (hnext : ∀ result host', host'.Sided sides →
      (sides.law sides.active).Moves host host' → (next result).Stays sides host' post) :
    (act >>= next).Stays sides host post :=
  bind (aside hact h) fun result host' hafter hmoves _ => hnext result host' hafter hmoves

theorem fills {act : Act α} {post : α → Host → Prop} (h : host.Sided sides)
    (hact : act.Fills sides host post) : act.Stays sides host post := by
  obtain ⟨hfills, hpost⟩ := hact
  obtain ⟨hsided, hmoves⟩ := h.fills hfills
  exact ⟨hsided, hmoves, hpost⟩

/-- What heeds the law of loading and leaves all other work alone. -/
theorem heeds {act : Act α} {post : α → Host → Prop} (h : host.Sided sides)
    (hact : act.Heeds (sides.law sides.active) host post)
    (hsame : After host act fun _ host' => SameWork host host') : act.Stays sides host post :=
  ⟨h.same hact.1 hact.2.1 hsame, hact.2.1, hact.2.2⟩

end Act.Stays

end ModuleLoader
