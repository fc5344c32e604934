import ModuleLoader.Proofs.HookDiscipline
import ModuleLoader.Proofs.Offers
/-!
Laws of loading. A law says what holds of a host while it loads, in which compartments one loads and which
of them may lead into each other, what descriptors say of a node, and which entries fit it. Whoever gives a
law shows that each single change keeps it; that calls of hooks, shallow loads and whole closures keep it
follows for all laws alike.
-/

namespace ModuleLoader
set_option autoImplicit false

/-- Whether a descriptor is an alias of another node. -/
def Descriptor.isAlias : Descriptor → Bool
  | .instanceAlias _ _ => true
  | .recordAlias _ => true
  | _ => false

/-- A law about loading. -/
structure LoadLaw where
  /-- What holds of a host. -/
  inv : Host → Prop
  /-- How a later host is related to an earlier one. -/
  rel : Host → Host → Prop
  /-- In which compartments one loads. -/
  within : Ref .compartment → Prop
  /-- Which compartments may lead into each other. -/
  near : Ref .compartment → Ref .compartment → Prop
  /-- What a descriptor obtained for a node may be. -/
  tells : Host → Node → Descriptor → Prop
  /-- Which entries a node may have. -/
  fits : Host → Node → Entry → Prop

/-- The load hook is asked about the node: there is one, and the node has no static descriptor. -/
structure Host.Hooked (host : Host) (node : Node) : Prop where
  hook : (host.compartment node.compartment).loadHook.isSome
  table : (host.compartment node.compartment).table.get? node.key = none

/-- At most signals, gates, objects, what is noted, and calls and loads changed. -/
structure Stirs (host host' : Host) : Prop where
  records : host'.records = host.records
  readies : host'.readies = host.readies
  drivers : host'.drivers = host.drivers
  verdicts : host'.verdicts = host.verdicts
  tasks : host'.tasks = host.tasks
  labels : host'.labels = host.labels
  slots : host'.store.slots = host.store.slots
  spaces : host'.store.spaces = host.store.spaces
  size : host'.compartments.size = host.compartments.size
  compartment : ∀ ref, { host'.compartment ref with calls := .empty, loading := .empty } =
    { host.compartment ref with calls := .empty, loading := .empty }

/-- Every single change keeps the law. -/
structure LoadLaw.Kept (law : LoadLaw) : Prop where
  refl : ∀ host, law.rel host host
  trans : ∀ {a b c}, law.rel a b → law.rel b c → law.rel a c
  near_refl : ∀ ref, law.near ref ref
  near_trans : ∀ {a b c}, law.near a b → law.near b c → law.near a c
  within_near : ∀ {a b}, law.within a → law.near a b → law.within b
  hooked : ∀ {host host' node}, law.rel host host' → host.Hooked node → host'.Hooked node
  offers : ∀ {host host' node blueprint}, law.rel host host' → host.Offers node blueprint →
    host'.Offers node blueprint
  tells_mono : ∀ {host host' node descriptor}, law.rel host host' → law.tells host node descriptor →
    law.tells host' node descriptor
  fits_mono : ∀ {host host' node entry}, law.rel host host' → law.fits host node entry →
    law.fits host' node entry
  stirs : ∀ {host host'}, law.inv host → Stirs host host' → law.inv host' ∧ law.rel host host'
  tables : ∀ {host node descriptor}, law.inv host →
    (host.compartment node.compartment).table.get? node.key = some descriptor →
      law.tells host node descriptor
  takes : ∀ {host node descriptor host'}, law.inv host → law.within node.compartment →
    (host.compartment node.compartment).table.get? node.key = none →
      host.TakesUp node descriptor host' → law.tells host' node descriptor
  points : ∀ {host node descriptor target}, law.inv host → law.tells host node descriptor →
    host.pointsTo node descriptor = .ok (some target) → law.near node.compartment target.compartment
  interprets : ∀ {host node descriptor}, law.inv host → law.within node.compartment →
    law.tells host node descriptor → After host (Act.interpret node descriptor) fun result host' =>
      law.inv host' ∧ law.rel host host' ∧
        ∀ entry, result = .ok (.entry entry) → law.fits host' node entry
  memo : ∀ {host node entry}, law.inv host → host.entryAt? node = some entry →
    law.fits host node entry
  lends : ∀ {host node target entry}, law.inv host → law.fits host target entry →
    law.near node.compartment target.compartment →
      law.fits host node (if target.compartment = node.compartment then entry
        else host.abroad target.compartment entry)
  continues : ∀ {host node entry}, law.inv host → law.fits host node entry →
    ∀ next ∈ host.continuations node.compartment entry, law.near node.compartment next.compartment
  enters : ∀ {host node entry}, law.inv host → law.within node.compartment →
    law.fits host node entry →
      law.inv (host.entered node entry) ∧ law.rel host (host.entered node entry)

namespace LoadLaw

variable (law : LoadLaw)

/-- A call that has come so far is about the node, and gives what descriptors of it may say. -/
def AnswersAs (host : Host) (node : Node) : Progress HookCall HookResult → Prop
  | .idle call => call.node = node ∧ call.stage.Offered host node
  | .driven call => call.node = node
  | .done (.ok (some descriptor)) => law.tells host node descriptor
  | .done _ => True

/-- The call is about the node, of which there is no static descriptor. -/
def Answers (host : Host) (node : Node) (call : Ref .call) : Prop :=
  host.Hooked node ∧ ∃ shared, host.calls.get? call = some shared ∧ law.AnswersAs host node shared.progress

/-- What a load delivers fits the node, and its closure continues nearby. -/
structure Delivers (host : Host) (node : Node) (delivery : Delivery) : Prop where
  entry : law.fits host node delivery.entry
  near : ∀ next ∈ delivery.continuations, law.near node.compartment next.compartment

/-- A load that has come so far is about the node, and delivers what fits it. -/
def LendsAs (host : Host) (node : Node) : Progress LoadWork (Except Failure Delivery) → Prop
  | .idle work => work.node = node
  | .driven work => work.node = node
  | .done (.ok delivery) => law.Delivers host node delivery
  | .done (.error _) => True

/-- The load is about the node. -/
def Lends (host : Host) (node : Node) (load : Ref .load) : Prop :=
  ∃ shared, host.loads.get? load = some shared ∧ law.LendsAs host node shared.progress

/-- A descriptor obtained for the node is an alias, or is none. -/
def Kind (host : Host) (node : Node) (isAlias : Bool) : Prop :=
  ∃ descriptor, law.tells host node descriptor ∧ descriptor.isAlias = isAlias

/-- What the load of a node waits for is about the right node. The load of an alias waits for the load of a
node that is no alias. -/
def Waits (host : Host) (node : Node) : LoadStage → Prop
  | .fresh => True
  | .describing watch => law.Answers host node watch.job
  | .following _ other watch => law.Answers host other watch.job ∧
      law.near node.compartment other.compartment ∧ law.Kind host node true
  | .borrowing target watch => law.Lends host target watch.job ∧
      law.near node.compartment target.compartment ∧ law.Kind host node true ∧
        law.Kind host target false

/-- All calls and loads of a host keep the law. -/
structure Stands (host : Host) : Prop where
  inv : law.inv host
  calls : ∀ node call, host.callAt? node = some call → law.Answers host node call
  loads : ∀ node load, host.loadAt? node = some load → law.Lends host node load
  flight : ∀ load work, host.InFlight load work → law.Waits host work.node work.stage

/-- How a later host is related to an earlier one: calls and loads go on about their nodes. -/
structure Goes (host host' : Host) : Prop where
  rel : law.rel host host'
  answers : ∀ node call, law.Answers host node call → law.Answers host' node call
  lends : ∀ node load, law.Lends host node load → law.Lends host' node load

/-- A load that somebody drives is left alone as well. -/
structure Moves (host host' : Host) : Prop extends law.Goes host host' where
  driven : ∀ load bell work, host.loads.get? load = some ⟨bell, .driven work⟩ →
    host'.loads.get? load = some ⟨bell, .driven work⟩

end LoadLaw

/-- After an action of loading the law stands, and `post` holds. -/
def Act.Heeds {α : Type} (act : Act α) (law : LoadLaw) (host : Host) (post : α → Host → Prop) : Prop :=
  After host act fun result host' => law.Stands host' ∧ law.Moves host host' ∧ post result host'

namespace Stirs

variable {a b c host host' : Host}

theorem refl (host : Host) : Stirs host host :=
  ⟨rfl, rfl, rfl, rfl, rfl, rfl, rfl, rfl, rfl, fun _ => rfl⟩

theorem trans (hab : Stirs a b) (hbc : Stirs b c) : Stirs a c where
  records := hbc.records.trans hab.records
  readies := hbc.readies.trans hab.readies
  drivers := hbc.drivers.trans hab.drivers
  verdicts := hbc.verdicts.trans hab.verdicts
  tasks := hbc.tasks.trans hab.tasks
  labels := hbc.labels.trans hab.labels
  slots := hbc.slots.trans hab.slots
  spaces := hbc.spaces.trans hab.spaces
  size := hbc.size.trans hab.size
  compartment ref := (hbc.compartment ref).trans (hab.compartment ref)

theorem of_aside (h : Aside host host') : Stirs host host' := by
  obtain ⟨_, _, _, _, _, _, rfl⟩ := h
  exact ⟨rfl, rfl, rfl, rfl, rfl, rfl, rfl, rfl, rfl, fun _ => rfl⟩

/-- Every part of a compartment but its calls and its loads is left alone. -/
theorem part {α : Type} (h : Stirs host host') (ref : Ref .compartment) (f : Compartment → α)
    (hf : ∀ compartment, f { compartment with calls := .empty, loading := .empty } = f compartment) :
    f (host'.compartment ref) = f (host.compartment ref) := by
  rw [← hf (host'.compartment ref), h.compartment ref, hf]

/-- A change of the calls and the loads of a compartment. -/
theorem modify (host : Host) (ref : Ref .compartment) {f : Compartment → Compartment}
    (hf : ∀ compartment, { f compartment with calls := .empty, loading := .empty } =
      { compartment with calls := .empty, loading := .empty }) :
    Stirs host { host with compartments := host.compartments.modify ref f } where
  records := rfl
  readies := rfl
  drivers := rfl
  verdicts := rfl
  tasks := rfl
  labels := rfl
  slots := rfl
  spaces := rfl
  size := Arena.size_modify _ _ _
  compartment other := by
    rw [Host.compartment_modify]
    split
    · exact hf _
    · rfl

end Stirs

namespace LoadLaw

variable {law : LoadLaw} {a b c host host' : Host}

section
variable (kept : law.Kept)
include kept

theorem AnswersAs.mono (hrel : law.rel host host') {node : Node}
    {progress : Progress HookCall HookResult} (h : law.AnswersAs host node progress) :
    law.AnswersAs host' node progress := by
  match progress, h with
  | .idle call, h => exact h.imp_right fun hstage => hstage.mono fun _ => kept.offers hrel
  | .driven call, h => exact h
  | .done (.ok (some descriptor)), h => exact kept.tells_mono hrel h
  | .done (.ok none), _ => trivial
  | .done (.error failure), _ => trivial

theorem Delivers.mono (hrel : law.rel host host') {node : Node} {delivery : Delivery}
    (h : law.Delivers host node delivery) : law.Delivers host' node delivery :=
  ⟨kept.fits_mono hrel h.entry, h.near⟩

theorem LendsAs.mono (hrel : law.rel host host') {node : Node}
    {progress : Progress LoadWork (Except Failure Delivery)} (h : law.LendsAs host node progress) :
    law.LendsAs host' node progress := by
  match progress, h with
  | .idle work, h => exact h
  | .driven work, h => exact h
  | .done (.ok delivery), h => exact Delivers.mono kept hrel h
  | .done (.error failure), _ => trivial

theorem Kind.mono (hrel : law.rel host host') {node : Node} {isAlias : Bool}
    (h : law.Kind host node isAlias) : law.Kind host' node isAlias :=
  h.imp fun _ => .imp_left (kept.tells_mono hrel)

theorem Waits.mono (hgoes : law.Goes host host') {node : Node} {stage : LoadStage}
    (h : law.Waits host node stage) : law.Waits host' node stage := by
  cases stage with
  | fresh => trivial
  | describing watch => exact hgoes.answers _ _ h
  | following visited other watch =>
    exact ⟨hgoes.answers _ _ h.1, h.2.1, h.2.2.mono kept hgoes.rel⟩
  | borrowing target watch =>
    exact ⟨hgoes.lends _ _ h.1, h.2.1, h.2.2.1.mono kept hgoes.rel, h.2.2.2.mono kept hgoes.rel⟩

theorem Goes.trans (hab : law.Goes a b) (hbc : law.Goes b c) : law.Goes a c where
  rel := kept.trans hab.rel hbc.rel
  answers node call h := hbc.answers node call (hab.answers node call h)
  lends node load h := hbc.lends node load (hab.lends node load h)

theorem Moves.refl (host : Host) : law.Moves host host :=
  ⟨⟨kept.refl host, fun _ _ => id, fun _ _ => id⟩, fun _ _ _ => id⟩

theorem Moves.trans (hab : law.Moves a b) (hbc : law.Moves b c) : law.Moves a c where
  toGoes := hab.toGoes.trans kept hbc.toGoes
  driven load bell work h := hbc.driven load bell work (hab.driven load bell work h)

/-- The law stands after what leaves loads alone, and keeps no more calls and loads. -/
theorem Stands.moved (h : law.Stands host) (hmoves : law.Moves host host') (hinv : law.inv host')
    (hloads : host'.loads = host.loads)
    (hcallAt : ∀ node call, host'.callAt? node = some call → host.callAt? node = some call)
    (hloadAt : ∀ node load, host'.loadAt? node = some load → host.loadAt? node = some load) :
    law.Stands host' := by
  refine ⟨hinv, fun node call hcall => ?_, fun node load hload => ?_, fun load work hflight => ?_⟩
  · exact hmoves.answers _ _ (h.calls node call (hcallAt node call hcall))
  · exact hmoves.lends _ _ (h.loads node load (hloadAt node load hload))
  · obtain ⟨bell, hflight⟩ := hflight
    rw [hloads] at hflight
    exact (h.flight load work ⟨bell, hflight⟩).mono kept hmoves.toGoes

theorem lends_same (hrel : law.rel host host') (hloads : host'.loads = host.loads) {node : Node}
    {load : Ref .load} (h : law.Lends host node load) : law.Lends host' node load := by
  obtain ⟨shared, hshared, hlends⟩ := h
  exact ⟨shared, hloads ▸ hshared, hlends.mono kept hrel⟩

theorem answers_same (hrel : law.rel host host') (hcalls : host'.calls = host.calls) {node : Node}
    {call : Ref .call} (h : law.Answers host node call) : law.Answers host' node call := by
  obtain ⟨hhooked, shared, hshared, hanswers⟩ := h
  exact ⟨kept.hooked hrel hhooked, shared, hcalls ▸ hshared, hanswers.mono kept hrel⟩

/-- What leaves calls and loads alone, and keeps no more of them. -/
theorem Stands.same (h : law.Stands host) (hinv : law.inv host') (hrel : law.rel host host')
    (hcalls : host'.calls = host.calls) (hloads : host'.loads = host.loads)
    (hcallAt : ∀ node call, host'.callAt? node = some call → host.callAt? node = some call)
    (hloadAt : ∀ node load, host'.loadAt? node = some load → host.loadAt? node = some load) :
    law.Stands host' ∧ law.Moves host host' := by
  have hmoves : law.Moves host host' :=
    ⟨⟨hrel, fun _ _ => answers_same kept hrel hcalls, fun _ _ => lends_same kept hrel hloads⟩,
      fun _ _ _ => hloads ▸ id⟩
  exact ⟨h.moved kept hmoves hinv hloads hcallAt hloadAt, hmoves⟩

theorem Stands.aside (h : law.Stands host) (haside : Aside host host') :
    law.Stands host' ∧ law.Moves host host' := by
  obtain ⟨hinv, hrel⟩ := kept.stirs h.inv (.of_aside haside)
  obtain ⟨_, _, _, _, _, _, rfl⟩ := haside
  exact h.same kept hinv hrel rfl rfl (fun _ _ => id) fun _ _ => id

end

end LoadLaw

namespace Act.Heeds

variable {law : LoadLaw} {α β : Type} {host : Host}

theorem mono {act : Act α} {post post' : α → Host → Prop} (h : act.Heeds law host post)
    (himp : ∀ result host', law.Stands host' → law.Moves host host' → post result host' →
      post' result host') : act.Heeds law host post' :=
  ⟨h.1, h.2.1, himp _ _ h.1 h.2.1 h.2.2⟩

theorem getBind {next : Host → Act β} {post : β → Host → Prop} (h : (next host).Heeds law host post) :
    (MonadState.get >>= next : Act β).Heeds law host post :=
  h

variable (kept : law.Kept)
include kept

theorem pure {post : α → Host → Prop} {result : α} (h : law.Stands host) (hpost : post result host) :
    (Pure.pure result : Act α).Heeds law host post :=
  ⟨h, .refl kept host, hpost⟩

theorem bind {act : Act α} {next : α → Act β} {post : α → Host → Prop} {post' : β → Host → Prop}
    (h : act.Heeds law host post)
    (hnext : ∀ result host', law.Stands host' → law.Moves host host' → post result host' →
      (next result).Heeds law host' post') : (act >>= next).Heeds law host post' := by
  obtain ⟨hstands, hmoves, hpost⟩ := h
  obtain ⟨hstands', hmoves', hpost'⟩ := hnext _ _ hstands hmoves hpost
  exact ⟨hstands', hmoves.trans kept hmoves', hpost'⟩

theorem aside {act : Act α} {post : α → Host → Prop} (h : law.Stands host) (hact : act.IsAside)
    (hpost : After host act post) : act.Heeds law host post := by
  obtain ⟨hstands, hmoves⟩ := h.aside kept (hact host)
  exact ⟨hstands, hmoves, hpost⟩

end Act.Heeds

section
variable {law : LoadLaw} (kept : law.Kept) {host : Host} {node : Node}
include kept

namespace LoadLaw

/-- A call that is about one node goes on, or ends. -/
theorem Stands.putCall (h : law.Stands host) {call : Ref .call} {bell : Ref .bell}
    {before progress : Progress HookCall HookResult}
    (hcall : host.calls.get? call = some ⟨bell, before⟩)
    (hlive : ∀ other, law.AnswersAs host other before → other = node)
    (hprogress : law.AnswersAs host node progress) :
    law.Stands (Shelf.calls.put host call ⟨bell, progress⟩) ∧
      law.Moves host (Shelf.calls.put host call ⟨bell, progress⟩) := by
  have hstirs : Stirs host (Shelf.calls.put host call ⟨bell, progress⟩) :=
    ⟨rfl, rfl, rfl, rfl, rfl, rfl, rfl, rfl, rfl, fun _ => rfl⟩
  obtain ⟨hinv, hrel⟩ := kept.stirs h.inv hstirs
  have hget (other : Ref .call) : (Shelf.calls.put host call ⟨bell, progress⟩).calls.get? other =
      if call = other then some ⟨bell, progress⟩ else host.calls.get? other := by
    change (host.calls.set call _).get? other = _
    rw [Arena.get?_set]
    split
    · rename_i hsame
      rw [← hsame, hcall]
      rfl
    · rfl
  have hmoves : law.Moves host (Shelf.calls.put host call ⟨bell, progress⟩) := by
    refine ⟨⟨hrel, fun other ref hanswers => ?_, fun _ _ => lends_same kept hrel rfl⟩, fun _ _ _ => id⟩
    obtain ⟨hhooked, shared, hshared, hanswers⟩ := hanswers
    refine ⟨kept.hooked hrel hhooked, ?_⟩
    by_cases hsame : call = ref
    · subst hsame
      rw [hcall] at hshared
      cases hshared
      obtain rfl := hlive other hanswers
      exact ⟨_, (hget call).trans (if_pos rfl), hprogress.mono kept hrel⟩
    · exact ⟨shared, (hget ref).trans ((if_neg hsame).trans hshared), hanswers.mono kept hrel⟩
  exact ⟨h.moved kept hmoves hinv rfl (fun _ _ => id) fun _ _ => id, hmoves⟩

/-- A call that is made about a node is about it. -/
theorem Stands.consult (h : law.Stands host) (hhooked : host.Hooked node) (bell : Ref .bell) :
    law.Stands (host.consulted node bell) ∧ law.Moves host (host.consulted node bell) ∧
      law.Answers (host.consulted node bell) node host.calls.next := by
  have hstirs : Stirs host (host.consulted node bell) := by
    have hmodify := Stirs.modify host node.compartment
      (f := fun compartment => { compartment with calls := compartment.calls.insert node.key host.calls.next })
      fun _ => rfl
    exact ⟨rfl, rfl, rfl, rfl, rfl, rfl, rfl, rfl, hmodify.size, hmodify.compartment⟩
  obtain ⟨hinv, hrel⟩ := kept.stirs h.inv hstirs
  have hget (call : Ref .call) : (host.consulted node bell).calls.get? call =
      if call = host.calls.next then some ⟨bell, .idle ⟨node.compartment, node.key, .fresh⟩⟩
      else host.calls.get? call :=
    Arena.get?_push _ _ _
  have hnew : law.Answers (host.consulted node bell) node host.calls.next :=
    ⟨kept.hooked hrel hhooked, _, (hget _).trans (if_pos rfl), rfl, trivial⟩
  have hmoves : law.Moves host (host.consulted node bell) := by
    refine ⟨⟨hrel, fun other call hanswers => ?_, fun _ _ => lends_same kept hrel rfl⟩, fun _ _ _ => id⟩
    obtain ⟨hhooked, shared, hshared, hanswers⟩ := hanswers
    refine ⟨kept.hooked hrel hhooked, shared, (hget call).trans ((if_neg ?_).trans hshared),
      hanswers.mono kept hrel⟩
    rintro rfl
    rw [Arena.get?_next] at hshared
    cases hshared
  refine ⟨⟨hinv, fun other call hcall => ?_, fun other load hload => ?_, fun load work hflight => ?_⟩,
    hmoves, hnew⟩
  · unfold Host.callAt? Host.consulted at hcall
    change (Host.compartment { host with compartments := _ } _).calls.get? _ = _ at hcall
    rw [Host.compartment_modify] at hcall
    split at hcall
    · rename_i hsame
      dsimp only at hcall
      rw [Table.get?_insert] at hcall
      split at hcall
      · rename_i hkey
        cases hcall
        obtain rfl : node = other := by
          obtain ⟨compartment, key⟩ := node
          obtain ⟨compartment', key'⟩ := other
          cases hsame.1
          cases hkey
          rfl
        exact hnew
      · exact hmoves.answers other call (h.calls other call hcall)
    · exact hmoves.answers other call (h.calls other call hcall)
  · rw [Host.loadAt?_consulted] at hload
    exact hmoves.lends other load (h.loads other load hload)
  · exact (h.flight load work hflight).mono kept hmoves.toGoes

/-- What a look at a call about a node comes to. -/
def Told (law : LoadLaw) (node : Node) (job : Ref .call) (result : Poll (Watch .call) HookResult)
    (host' : Host) : Prop :=
  match result with
  | .pending next => next.job = job
  | .ready (.ok (some descriptor)) => law.tells host' node descriptor
  | .ready _ => True

omit kept in
theorem AnswersAs.told {job : Ref .call} {result : HookResult}
    (h : law.AnswersAs host node (.done result)) : law.Told node job (.ready result) host := by
  match result, h with
  | .ok (some descriptor), h => exact h
  | .ok none, _ => trivial
  | .error failure, _ => trivial

/-- A call about a node that takes a step is still about it, or ended as the law allows. -/
theorem Stands.answersAs (h : law.Stands host) {work : HookCall} (hwithin : law.within work.node.compartment)
    (hhooked : host.Hooked work.node) {result : Poll HookCall HookResult} {after : Host}
    (hstep : HookCall.Step host work result after) (hrel : law.rel host after) :
    match result with
    | .pending next => law.AnswersAs after work.node (.idle next)
    | .ready result => law.AnswersAs after work.node (.done result) := by
  match result, hstep with
  | .pending next, hstep => exact ⟨hstep.1, hstep.2.mono fun _ => kept.offers hrel⟩
  | .ready (.ok (some descriptor)), hstep =>
    exact kept.takes h.inv hwithin hhooked.table (hstep descriptor rfl)
  | .ready (.ok none), _ => trivial
  | .ready (.error failure), _ => trivial

end LoadLaw

namespace HookCall

/-- A step of driving, seen from before the call was taken up. -/
theorem drive_heeds (h : law.Stands host) {work : HookCall} (hwithin : law.within work.node.compartment)
    (hhooked : host.Hooked work.node) (hoffered : work.stage.Offered host work.node) {call : Ref .call}
    {bell : Ref .bell} (hidle : host.calls.get? call = some ⟨bell, .idle work⟩) :
    After (Shelf.calls.put host call ⟨bell, .driven work⟩) (drive work (.bell bell))
      fun result after => match result with
        | .pending next =>
          let last := Shelf.calls.put after call ⟨bell, .idle next⟩
          law.Stands last ∧ law.Moves host last
        | .ready result =>
          let last := Shelf.calls.put after call ⟨bell, .done result⟩
          law.Stands last ∧ law.Moves host last ∧ law.AnswersAs last work.node (.done result) := by
  have htaken : law.AnswersAs host work.node (.driven work) := rfl
  obtain ⟨hdriven, hmoves⟩ := h.putCall kept hidle (fun _ h => h.1.symm) htaken
  have hput : (Shelf.calls.put host call ⟨bell, .driven work⟩).calls.get? call =
      some ⟨bell, .driven work⟩ := by
    change (host.calls.set call _).get? call = _
    rw [Arena.get?_set, if_pos rfl, hidle]
    rfl
  have hstep : After (Shelf.calls.put host call ⟨bell, .driven work⟩) (drive work (.bell bell))
      (Step (Shelf.calls.put host call ⟨bell, .driven work⟩) work) :=
    drive_step (hoffered.mono fun _ => kept.offers hmoves.rel) (.bell bell)
  refine (hstep.and (drive_fair _ work (.bell bell))).mono fun result after hafter => ?_
  obtain ⟨hstep, haside, -⟩ := hafter
  obtain ⟨hafter, hran⟩ := hdriven.aside kept haside
  have hcall : after.calls.get? call = some ⟨bell, .driven work⟩ := haside.calls ▸ hput
  have hanswers := hdriven.answersAs kept hwithin (kept.hooked hmoves.rel hhooked) hstep hran.rel
  cases result with
  | pending next =>
    obtain ⟨hlast, hstored⟩ := hafter.putCall kept hcall (fun _ => Eq.symm) hanswers
    exact ⟨hlast, (hmoves.trans kept hran).trans kept hstored⟩
  | ready result =>
    obtain ⟨hlast, hstored⟩ := hafter.putCall kept hcall (fun _ => Eq.symm) hanswers
    exact ⟨hlast, (hmoves.trans kept hran).trans kept hstored, hanswers.mono kept hstored.rel⟩

theorem poll_heeds (h : law.Stands host) (hwithin : law.within node.compartment) {watch : Watch .call}
    (hwatch : law.Answers host node watch.job) (waker : Waker) :
    (Shelf.calls.poll drive watch waker).Heeds law host (law.Told node watch.job) := by
  obtain ⟨hhooked, shared, hshared, hanswers⟩ := hwatch
  refine Shelf.after_poll ?_ ?_ ?_ ?_
  · intro hmissing
    cases hshared.symm.trans hmissing
  · intro bell result hdone
    have hdone : host.calls.get? watch.job = some ⟨bell, .done result⟩ := hdone
    rw [hshared] at hdone
    cases hdone
    exact ⟨h, .refl kept host, hanswers.told⟩
  · intro bell work seat host' _ haside
    obtain ⟨hstands, hmoves⟩ := h.aside kept haside
    exact ⟨hstands, hmoves, rfl⟩
  · intro bell work seat told hidle htold
    have hidle : host.calls.get? watch.job = some ⟨bell, .idle work⟩ := hidle
    rw [hshared] at hidle
    cases hidle
    obtain ⟨hstands, hmoves⟩ := h.aside kept htold
    have hcall : told.calls.get? watch.job = some ⟨bell, .idle work⟩ := htold.calls ▸ hshared
    obtain ⟨rfl, hoffered⟩ := hanswers.mono kept hmoves.rel
    refine (drive_heeds kept hstands hwithin (kept.hooked hmoves.rel hhooked) hoffered hcall).mono
      fun result after hafter => ?_
    cases result with
    | pending next =>
      obtain ⟨hlast, hsince⟩ := hafter
      exact ⟨hlast, hmoves.trans kept hsince, rfl⟩
    | ready result =>
      intro last haside
      obtain ⟨hdone, hsince, hends⟩ := hafter
      obtain ⟨hlast, hmoves'⟩ := hdone.aside kept haside
      exact ⟨hlast, (hmoves.trans kept hsince).trans kept hmoves', (hends.mono kept hmoves'.rel).told⟩

end HookCall

/-- What obtaining a descriptor of a node comes to. -/
def LoadLaw.Obtains (law : LoadLaw) (node : Node) (result : Poll (Watch .call) (Except Failure Descriptor))
    (host' : Host) : Prop :=
  match result with
  | .pending next => law.Answers host' node next.job
  | .ready (.ok descriptor) => law.tells host' node descriptor
  | .ready (.error _) => True

namespace Act

theorem describeNow_heeds (h : law.Stands host) (hwithin : law.within node.compartment)
    (htable : (host.compartment node.compartment).table.get? node.key = none) :
    (describeNow node).Heeds law host fun result host' =>
      ∀ descriptor, result = .ok descriptor → law.tells host' node descriptor :=
  .aside kept h (describeNow_aside node) ((describeNow_takesUp host node).mono
    fun _ _ htakes descriptor heq => kept.takes h.inv hwithin htable (htakes descriptor heq))

theorem forgetCall_heeds (h : law.Stands host) (node : Node) (call : Ref .call) :
    (forgetCall node call).Heeds law host fun _ _ => True := by
  obtain ⟨hinv, hrel⟩ := kept.stirs h.inv (Stirs.modify host node.compartment
    (f := fun compartment => if compartment.calls.get? node.key = some call then
      { compartment with calls := compartment.calls.erase node.key } else compartment)
    fun compartment => by dsimp only; split <;> rfl)
  have hcallAt (other : Node) (found : Ref .call)
      (hfound : (forgetCall node call host).2.callAt? other = some found) :
      host.callAt? other = some found := by
    rw [Host.callAt?_forget] at hfound
    split at hfound
    · cases hfound
    · exact hfound
  obtain ⟨hstands, hmoves⟩ := h.same kept hinv hrel rfl rfl hcallAt
    fun other load hload => (Host.loadAt?_forget other).symm.trans hload
  exact ⟨hstands, hmoves, trivial⟩

theorem awaitCall_heeds (h : law.Stands host) (hwithin : law.within node.compartment) {watch : Watch .call}
    (hwatch : law.Answers host node watch.job) (waker : Waker) :
    (awaitCall node watch waker).Heeds law host (law.Obtains node) := by
  refine Heeds.bind kept (HookCall.poll_heeds kept h hwithin hwatch waker)
    fun result polled hpolled hmoves htold => ?_
  rcases result with next | failure | _ | descriptor
  · have hjob : next.job = watch.job := htold
    refine .pure kept hpolled ?_
    change law.Answers polled node next.job
    rw [hjob]
    exact hmoves.answers node _ hwatch
  · exact Heeds.bind kept (forgetCall_heeds kept hpolled node watch.job) fun _ _ hforgot _ _ =>
      .pure kept hforgot trivial
  · refine Heeds.bind kept (forgetCall_heeds kept hpolled node watch.job) fun _ forgot hforgot hmoves' _ => ?_
    have hhooked := (hmoves'.answers node _ (hmoves.answers node _ hwatch)).1
    refine Heeds.bind kept (describeNow_heeds kept hforgot hwithin hhooked.table)
      fun result last hlast _ htells => ?_
    refine .pure kept hlast ?_
    cases result with
    | ok descriptor => exact htells descriptor rfl
    | error failure => trivial
  · exact .pure kept hpolled htold

/-- The call that is kept for a node is about it, and so is one that is made. -/
theorem callOf_heeds (h : law.Stands host) (hhooked : host.Hooked node) :
    (callOf node).Heeds law host fun call host' => law.Answers host' node call := by
  refine .getBind ?_
  split
  · rename_i call hcall
    exact .pure kept h (h.calls node call hcall)
  · have hbell : newBell.Heeds law host fun _ _ => True := .aside kept h newBell_aside trivial
    refine Heeds.bind kept hbell fun bell belled hbelled hmoves _ => ?_
    exact hbelled.consult kept (kept.hooked hmoves.rel hhooked) bell

theorem describe_heeds (h : law.Stands host) (hwithin : law.within node.compartment) (waker : Waker) :
    (describe node waker).Heeds law host (law.Obtains node) := by
  unfold describe
  refine .getBind ?_
  dsimp only
  split
  · rename_i descriptor htable
    exact .pure kept h (kept.tables h.inv htable)
  · rename_i htable
    split
    · rename_i hhook
      exact Heeds.bind kept (callOf_heeds kept h ⟨hhook, htable⟩) fun call called hcalled _ hanswers =>
        awaitCall_heeds kept hcalled hwithin hanswers waker
    · refine Heeds.bind kept (describeNow_heeds kept h hwithin htable) fun result last hlast _ htells => ?_
      refine .pure kept hlast ?_
      cases result with
      | ok descriptor => exact htells descriptor rfl
      | error failure => trivial

end Act

end

end ModuleLoader
