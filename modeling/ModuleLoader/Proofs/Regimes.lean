import ModuleLoader.Execution.Driving
import ModuleLoader.Proofs.Closures
import ModuleLoader.Proofs.Describing
/-!
What bodies do under any regime: a regime says what holds between any two actions, and how later hosts
are related to earlier ones. A body reads, assigns, and imports; whatever it does besides concerns only
signals, gates, objects and the journal. So a regime that assigning and importing keep is kept by every
body, as far as it goes.
-/

namespace ModuleLoader
set_option autoImplicit false

namespace Store

/-- The change concerns only objects. -/
def OnlyObjects {α : Type} (change : StateM Store α) : Prop :=
  ∀ store, (change store).2 = { store with objects := (change store).2.objects }

namespace OnlyObjects

variable {α β : Type}

theorem pure (result : α) : OnlyObjects (Pure.pure result) := fun _ => rfl

theorem bind {change : StateM Store α} {next : α → StateM Store β} (h : OnlyObjects change)
    (hnext : ∀ result, OnlyObjects (next result)) : OnlyObjects (change >>= next) := by
  intro store
  have hslots : (change store).2.slots = store.slots := by rw [h store]
  have hspaces : (change store).2.spaces = store.spaces := by rw [h store]
  change (next (change store).1 (change store).2).2 =
    { store with objects := (next (change store).1 (change store).2).2.objects }
  rw [← hslots, ← hspaces]
  exact hnext _ _

end OnlyObjects

theorem setProperty_onlyObjects (object : Ref .object) (name : String) (value : Value) :
    OnlyObjects (setProperty object name value) := by
  intro store
  unfold setProperty
  split <;> rfl

mutual

theorem ofJson_onlyObjects : ∀ content : Json, OnlyObjects (ofJson content)
  | .null | .boolean _ | .number _ | .string _ => by
    unfold ofJson
    exact .pure _
  | .array items => by
    unfold ofJson
    exact (ofItems_onlyObjects items).bind fun _ => .pure _
  | .object members => by
    unfold ofJson
    exact (ofMembers_onlyObjects members).bind fun _ => OnlyObjects.bind (fun _ => rfl) fun _ => .pure _

theorem ofItems_onlyObjects : ∀ items : List Json, OnlyObjects (ofItems items)
  | [] => by
    unfold ofItems
    exact .pure _
  | item :: rest => by
    unfold ofItems
    exact (ofJson_onlyObjects item).bind fun _ => (ofItems_onlyObjects rest).bind fun _ => .pure _

theorem ofMembers_onlyObjects : ∀ members : List (String × Json), OnlyObjects (ofMembers members)
  | [] => by
    unfold ofMembers
    exact .pure _
  | (_, item) :: rest => by
    unfold ofMembers
    exact (ofJson_onlyObjects item).bind fun _ => (ofMembers_onlyObjects rest).bind fun _ => .pure _

end

end Store

theorem Completion.forget_aside (completion : Completion) : completion.forget.IsAside := by
  cases completion with
  | known result => exact .pure _
  | shared watch => exact Shelf.forget_aside watch

theorem ImportWork.forget_aside (work : ImportWork) : work.forget.IsAside := by
  unfold forget
  split
  · exact ClosureStage.forget_aside _
  · exact Completion.forget_aside _

theorem BodyWork.forget_aside (work : BodyWork) : work.forget.IsAside := by
  unfold forget
  split
  · exact ImportWork.forget_aside _
  · exact .pure _

theorem Body.noteEnd_aside (scope : Scope) (body : Body) : (noteEnd scope body).IsAside := by
  unfold noteEnd
  split
  · exact Act.note_aside _
  · exact .pure _

namespace Act

theorem setProperties_onlyObjects (object : Ref .object) :
    ∀ properties : List (String × Value), Store.OnlyObjects (setProperties object properties)
  | [] => .pure _
  | (name, value) :: rest =>
    (Store.setProperty_onlyObjects object name value).bind fun _ => setProperties_onlyObjects object rest

/-- What the hook of a compartment does to the object that describes a module. -/
theorem decorate_aside (compartment : Compartment) (key : String) (object : Ref .object) :
    (decorate compartment key object).IsAside := by
  unfold decorate
  split
  · exact .pure _
  · refine .getBind fun _ => (note_aside _).bind fun _ => (evaluateMembers_aside _).bind fun _ => ?_
    refine IsAside.bind (onStore_aside (setProperties_onlyObjects object _)) fun _ => ?_
    split
    · exact onStore_aside fun _ => rfl
    · exact .pure _

/-- The scope of a record belongs to the record and to its home. -/
theorem scopeOf_scopes (host : Host) (ref : Ref .record) (source : Source) :
    After host (scopeOf ref source) fun scope host' =>
      Aside host host' ∧ scope.record = ref ∧ scope.home = (host.record ref).home := by
  unfold scopeOf
  rw [after_bind, after_get]
  dsimp only
  split
  · have haside : Act.IsAside (do
        let object ← onStore (Store.newObject source.metaProperties)
        decorate ((← get).compartment (host.record ref).home) (host.record ref).key object
        return some object : Act (Option (Ref .object))) :=
      IsAside.bind (newObject_aside _) fun object => .getBind fun _ =>
        (decorate_aside _ _ object).bind fun _ => .pure _
    have hafter := haside host
    exact ⟨hafter, rfl, rfl⟩
  · exact ⟨.refl host, rfl, rfl⟩

end Act

/-- A regime under which bodies are carried out. -/
structure Regime where
  /-- What holds between any two actions. -/
  stands : Host → Prop
  /-- How a later host is related to an earlier one. -/
  rel : Host → Host → Prop
  /-- What holds of the scope of a body. -/
  scope : Host → Scope → Prop
  /-- What holds of an import under way. -/
  work : Host → ImportWork → Prop

/-- Assigning and importing keep the regime, and so do changes of what is aside. -/
structure Regime.Kept (regime : Regime) (look : LookReady) : Prop where
  refl : ∀ host, regime.rel host host
  trans : ∀ {a b c}, regime.rel a b → regime.rel b c → regime.rel a c
  scopes : ∀ {host host' scope}, regime.rel host host' → regime.scope host scope →
    regime.scope host' scope
  works : ∀ {host host' work}, regime.rel host host' → regime.work host work →
    regime.work host' work
  aside : ∀ {host host'}, regime.stands host → Aside host host' →
    regime.stands host' ∧ regime.rel host host'
  assigns : ∀ {host scope}, regime.stands host → regime.scope host scope → ∀ name value,
    After host (scope.assign name value) fun _ host' => regime.stands host' ∧ regime.rel host host'
  starts : ∀ {host scope}, regime.stands host → regime.scope host scope → ∀ key,
    regime.work host (.start ⟨scope.home, key⟩)
  polls : ∀ {host work}, regime.stands host → regime.work host work → ∀ waker,
    After host (work.poll look waker) fun result host' => regime.stands host' ∧
      regime.rel host host' ∧ ∀ next, result = .pending next → regime.work host' next
  imports : ∀ {host scope}, regime.stands host → regime.scope host scope → ∀ key,
    After host (Act.importNow look ⟨scope.home, key⟩) fun _ host' => regime.stands host' ∧
      regime.rel host host'

/-- An action that starts where the regime stands keeps it. -/
def Act.Respects {α : Type} (act : Act α) (regime : Regime) (host : Host) (post : α → Host → Prop) :
    Prop :=
  After host act fun result host' => regime.stands host' ∧ regime.rel host host' ∧ post result host'

/-- The import that a body waits for fits the regime. -/
def Awaiting.Fits (regime : Regime) (host : Host) : Awaiting → Prop
  | .importing _ _ work => regime.work host work
  | _ => True

/-- A suspended body fits the regime. -/
structure BodyWork.Fits (regime : Regime) (host : Host) (work : BodyWork) : Prop where
  scope : regime.scope host work.scope
  awaiting : work.awaiting.Fits regime host

/-- What a body waits for after an instruction fits the regime. -/
def Effect.Fits (regime : Regime) (effect : Effect) (host : Host) : Prop :=
  match effect with
  | .wait awaiting => awaiting.Fits regime host
  | _ => True

variable {regime : Regime} {look : LookReady} (kept : regime.Kept look) {host : Host}

theorem Effect.ofResult_fits (result : Except Failure Unit) :
    (Effect.ofResult result).Fits regime host := by
  cases result <;> trivial

/-- A suspended body goes on fitting the regime while scopes and imports do. -/
theorem BodyWork.Fits.lasts {host' : Host}
    (hscopes : ∀ scope, regime.scope host scope → regime.scope host' scope)
    (hworks : ∀ work, regime.work host work → regime.work host' work) {work : BodyWork}
    (h : work.Fits regime host) : work.Fits regime host' where
  scope := hscopes _ h.scope
  awaiting := by
    have hawaiting := h.awaiting
    cases hcase : work.awaiting with
    | gate name => trivial
    | turns left => trivial
    | importing specifier target importWork =>
      rw [hcase] at hawaiting
      exact hworks _ hawaiting

namespace Act.Respects

variable {α β : Type}

theorem mono {act : Act α} {post post' : α → Host → Prop} (h : act.Respects regime host post)
    (himp : ∀ result host', post result host' → post' result host') :
    act.Respects regime host post' :=
  ⟨h.1, h.2.1, himp _ _ h.2.2⟩

theorem getBind {next : Host → Act β} {post : β → Host → Prop}
    (h : (next host).Respects regime host post) :
    (MonadState.get >>= next : Act β).Respects regime host post :=
  h

include kept

theorem pure {post : α → Host → Prop} {result : α} (h : regime.stands host)
    (hpost : post result host) : (Pure.pure result : Act α).Respects regime host post :=
  ⟨h, kept.refl host, hpost⟩

theorem bind {act : Act α} {next : α → Act β} {post : α → Host → Prop} {post' : β → Host → Prop}
    (h : act.Respects regime host post)
    (hnext : ∀ result host', regime.stands host' → regime.rel host host' → post result host' →
      (next result).Respects regime host' post') : (act >>= next).Respects regime host post' := by
  obtain ⟨hstands, hrel, hpost⟩ := h
  obtain ⟨hstands', hrel', hpost'⟩ := hnext _ _ hstands hrel hpost
  exact ⟨hstands', kept.trans hrel hrel', hpost'⟩

theorem aside {act : Act α} (hact : act.IsAside) (h : regime.stands host) :
    act.Respects regime host fun _ _ => True := by
  obtain ⟨hstands, hrel⟩ := kept.aside h (hact host)
  exact ⟨hstands, hrel, trivial⟩

theorem afterAside {act : Act α} {next : α → Act β} {post : β → Host → Prop} (hact : act.IsAside)
    (h : regime.stands host) (hnext : ∀ result host', regime.stands host' → regime.rel host host' →
      (next result).Respects regime host' post) : (act >>= next).Respects regime host post :=
  bind kept (aside kept hact h) fun result host' hafter hrel _ => hnext result host' hafter hrel

end Act.Respects

open Act.Respects

include kept in
theorem Scope.read_respects (scope : Scope) (name : String)
    (h : regime.stands host) :
    (scope.read name).Respects regime host fun _ after => after = host :=
  .getBind (.pure kept h rfl)

include kept

theorem Scope.assign_respects {scope : Scope} (hscope : regime.scope host scope) (name : String)
    (value : Value) (h : regime.stands host) :
    (scope.assign name value).Respects regime host fun _ _ => True :=
  (kept.assigns h hscope name value).mono fun _ _ hafter => ⟨hafter.1, hafter.2, trivial⟩

namespace Body

variable {scope : Scope} (hscope : regime.scope host scope)
include hscope

theorem assignTarget_respects (target : Option String) (value : Value) (h : regime.stands host) :
    (assignTarget scope target value).Respects regime host (Effect.Fits regime) := by
  unfold assignTarget
  split
  · exact .pure kept h trivial
  · exact Act.Respects.bind kept (Scope.assign_respects kept hscope _ value h)
      fun result _ h _ _ => .pure kept h (Effect.ofResult_fits result)

theorem takeImport_respects (specifier : String) (target : Option String)
    (result : Except Failure (Ref .exports)) (h : regime.stands host) :
    (takeImport scope specifier target result).Respects regime host (Effect.Fits regime) := by
  cases result with
  | error failure => exact .pure kept h trivial
  | ok space =>
    refine afterAside kept (Act.view_aside _) h fun _ _ h hrel => ?_
    refine afterAside kept (Act.note_aside _) h fun _ _ h hrel' => ?_
    exact assignTarget_respects kept (kept.scopes (kept.trans hrel hrel') hscope) target _ h

theorem takeImportNow_respects (specifier : String) (target : Option String)
    (result : Except Failure (Ref .exports)) (h : regime.stands host) :
    (takeImportNow scope specifier target result).Respects regime host (Effect.Fits regime) := by
  cases result with
  | error failure => exact .pure kept h trivial
  | ok space =>
    refine afterAside kept (Act.view_aside _) h fun _ _ h hrel => ?_
    refine afterAside kept (Act.note_aside _) h fun _ _ h hrel' => ?_
    exact assignTarget_respects kept (kept.scopes (kept.trans hrel hrel') hscope) target _ h

omit hscope in
theorem withValue_respects (scope : Scope) (name : String) {go : Value → Act Effect}
    (h : regime.stands host) (hgo : ∀ value, (go value).Respects regime host (Effect.Fits regime)) :
    (withValue scope name go).Respects regime host (Effect.Fits regime) := by
  refine Act.Respects.bind kept (scope.read_respects kept name h) fun result _ h _ hafter => ?_
  subst hafter
  cases result with
  | error failure => exact .pure kept h trivial
  | ok value => exact hgo value

omit hscope in
theorem withExports_respects (scope : Scope) (name : String) {go : Ref .exports → Act Effect}
    (h : regime.stands host) (hgo : ∀ space, (go space).Respects regime host (Effect.Fits regime)) :
    (withExports scope name go).Respects regime host (Effect.Fits regime) := by
  refine withValue_respects kept scope name h fun value => ?_
  split
  · exact hgo _
  · exact .pure kept h trivial

omit hscope in
theorem withObject_respects (scope : Scope) (name : String) {go : Ref .object → Act Effect}
    (h : regime.stands host) (hgo : ∀ object, (go object).Respects regime host (Effect.Fits regime)) :
    (withObject scope name go).Respects regime host (Effect.Fits regime) := by
  refine withValue_respects kept scope name h fun value => ?_
  split
  · exact hgo _
  · exact .pure kept h trivial

omit hscope in
theorem withMeta_respects (scope : Scope) {go : Ref .object → Act Effect} (h : regime.stands host)
    (hgo : ∀ object, (go object).Respects regime host (Effect.Fits regime)) :
    (withMeta scope go).Respects regime host (Effect.Fits regime) := by
  unfold withMeta
  split
  · exact hgo _
  · exact .pure kept h trivial

omit hscope in
theorem withImporter_respects (scope : Scope) {go : Act Effect} (h : regime.stands host)
    (hgo : go.Respects regime host (Effect.Fits regime)) :
    (withImporter scope go).Respects regime host (Effect.Fits regime) := by
  unfold withImporter
  split
  · exact hgo
  · exact .pure kept h trivial

omit kept hscope in
theorem resolve_respects (scope : Scope) (specifier : String)
    {next : Except Failure String → Act Effect}
    (hnext : ∀ key, (next key).Respects regime host (Effect.Fits regime)) :
    (scope.resolve specifier >>= next).Respects regime host (Effect.Fits regime) :=
  hnext _

omit hscope in
theorem note_respects (event : Event) (h : regime.stands host) :
    (do Act.note event; return Effect.next : Act Effect).Respects regime host (Effect.Fits regime) :=
  afterAside kept (Act.note_aside event) h fun _ _ h _ => .pure kept h trivial

omit hscope in
theorem noteView_respects (value : Value) (event : View → Event) (h : regime.stands host) :
    (do Act.note (event (← Act.view value)); return Effect.next : Act Effect).Respects regime host
      (Effect.Fits regime) :=
  afterAside kept (Act.view_aside value) h fun view _ h _ => note_respects kept (event view) h

/-- One instruction keeps the regime. -/
theorem perform_respects (h : regime.stands host) (waker : Waker) (instruction : Instruction) :
    (perform look scope waker instruction).Respects regime host (Effect.Fits regime) := by
  cases instruction with
  | log literal =>
    exact afterAside kept (Act.evaluate_aside literal) h fun value _ h _ =>
      noteView_respects kept value .logged h
  | assign name literal =>
    refine afterAside kept (Act.evaluate_aside literal) h fun value _ h hrel => ?_
    exact Act.Respects.bind kept (Scope.assign_respects kept (kept.scopes hrel hscope) name value h)
      fun result _ h _ _ => .pure kept h (Effect.ofResult_fits result)
  | read name =>
    exact withValue_respects kept scope name h fun value => noteView_respects kept value (.read name) h
  | copy source target =>
    refine withValue_respects kept scope source h fun value => ?_
    exact Act.Respects.bind kept (Scope.assign_respects kept hscope target value h)
      fun result _ h _ _ => .pure kept h (Effect.ofResult_fits result)
  | raise literal =>
    exact afterAside kept (Act.evaluate_aside literal) h fun value _ h _ => .pure kept h trivial
  | raiseName name => exact withValue_respects kept scope name h fun value => .pure kept h trivial
  | attempt => exact .pure kept h trivial
  | attemptEnd => exact .pure kept h trivial
  | gate name =>
    refine afterAside kept (Act.passGate_aside name waker) h fun isOpen _ h _ => ?_
    split <;> exact .pure kept h trivial
  | giveWay count =>
    cases count with
    | zero => exact .pure kept h trivial
    | succ count =>
      exact afterAside kept (Act.tell_aside _) h fun _ _ h _ => .pure kept h trivial
  | importLater specifier target =>
    refine withImporter_respects kept scope h (resolve_respects scope specifier fun key => ?_)
    cases key with
    | error failure => exact .pure kept h trivial
    | ok key =>
      refine Act.Respects.bind kept (kept.polls h (kept.starts h hscope key) waker)
        fun result _ h hrel hresult => ?_
      cases result with
      | pending work => exact .pure kept h (hresult work rfl)
      | ready result =>
        exact takeImport_respects kept (kept.scopes hrel hscope) specifier target result h
  | importNow specifier target =>
    refine withImporter_respects kept scope h (resolve_respects scope specifier fun key => ?_)
    cases key with
    | error failure => exact .pure kept h trivial
    | ok key =>
      have himport : (Act.importNow look ⟨scope.home, key⟩).Respects regime host fun _ _ => True :=
        (kept.imports h hscope key).mono fun _ _ hafter => ⟨hafter.1, hafter.2, trivial⟩
      exact Act.Respects.bind kept himport fun result _ h hrel _ =>
        takeImportNow_respects kept (kept.scopes hrel hscope) specifier target result h
  | resolve specifier =>
    refine withImporter_respects kept scope h (resolve_respects scope specifier fun key => ?_)
    cases key with
    | error failure => exact .pure kept h trivial
    | ok key => exact note_respects kept _ h
  | importer => exact withImporter_respects kept scope h (.getBind (note_respects kept _ h))
  | readExport name property =>
    refine withExports_respects kept scope name h fun space => .getBind ?_
    split
    · exact .pure kept h trivial
    · exact noteView_respects kept _ (.readExport name property) h
  | exportNames name =>
    exact withExports_respects kept scope name h fun space => .getBind (note_respects kept _ h)
  | setProperty name property literal =>
    refine withObject_respects kept scope name h fun object => ?_
    refine afterAside kept (Act.evaluate_aside literal) h fun value _ h _ => ?_
    exact afterAside kept (Act.onStore_aside (Store.setProperty_onlyObjects object property value)) h
      fun written _ h _ => note_respects kept _ h
  | freeze name =>
    refine withObject_respects kept scope name h fun object => ?_
    exact afterAside kept (Act.onStore_aside fun _ => rfl) h fun _ _ h _ => .pure kept h trivial
  | readMeta property =>
    exact withMeta_respects kept scope h fun object =>
      .getBind (noteView_respects kept _ (.readMeta property) h)
  | setMeta property literal =>
    refine withMeta_respects kept scope h fun object => ?_
    refine afterAside kept (Act.evaluate_aside literal) h fun value _ h _ => ?_
    exact afterAside kept (Act.onStore_aside (Store.setProperty_onlyObjects object property value)) h
      fun written _ h _ => note_respects kept _ h
  | metaNames => exact withMeta_respects kept scope h fun object => .getBind (note_respects kept _ h)
  | scopeNames => exact .getBind (note_respects kept _ h)
  | showScope => exact .getBind (note_respects kept _ h)
  | unknown => exact .pure kept h trivial

omit kept hscope in
/-- What a body comes to, as far as it goes: if it is suspended, it fits the regime. -/
def Polled (regime : Regime) (result : Poll BodyWork (Except Value Unit)) (host : Host) : Prop :=
  ∀ next, result = .pending next → next.Fits regime host

omit hscope in
theorem run_respects (scope : Scope) (home : String) (waker : Waker) :
    ∀ (instructions : List Instruction) (falling : Option (Nat × Value)) {host : Host},
      regime.scope host scope → regime.stands host →
        (run look scope home waker instructions falling).Respects regime host (Polled regime) := by
  -- By induction on the instructions that are left.
  intro instructions
  induction instructions with
  | nil =>
    intro falling host _ h
    rcases falling with _ | ⟨depth, value⟩ <;>
    · refine .pure kept h ?_
      rintro _ ⟨⟩
  | cons instruction rest ih =>
    intro falling host hscope h
    rcases falling with _ | ⟨depth, value⟩
    · cases instruction
      all_goals
        refine Act.Respects.bind kept (perform_respects kept hscope h waker _)
          fun effect after hafter hrel heffect => ?_
        have hscope := kept.scopes hrel hscope
        cases effect with
        | next => exact ih none hscope hafter
        | thrown value => exact ih (some (0, value)) hscope hafter
        | wait awaiting =>
          refine .pure kept hafter ?_
          rintro _ ⟨⟩
          exact ⟨hscope, heffect⟩
    · have hfall := ih (some (depth, value)) hscope h
      have hdeeper := ih (some (depth + 1, value)) hscope h
      cases instruction with
      | attempt => exact hdeeper
      | attemptEnd =>
        cases depth with
        | zero =>
          refine afterAside kept (Act.view_aside value) h fun view _ hseen hrel => ?_
          refine afterAside kept (Act.note_aside (.caught view)) hseen fun _ _ hnoted hrel' => ?_
          exact ih none (kept.scopes (kept.trans hrel hrel') hscope) hnoted
        | succ depth => exact ih (some (depth, value)) hscope h
      | _ => exact hfall

/-- What a body without instructions assigns, and nothing after it. -/
theorem assignStandard_respects (value : Value) (h : regime.stands host) :
    (do
      match ← scope.assign standardExport value with
      | .ok () => return .ready (.ok ())
      | .error failure => return .ready (.error failure.thrown) :
        Act (Poll BodyWork (Except Value Unit))).Respects regime host (Polled regime) := by
  refine Act.Respects.bind kept (Scope.assign_respects kept hscope standardExport value h)
    fun result after hafter _ _ => ?_
  cases result with
  | ok _ =>
    refine .pure kept hafter ?_
    rintro _ ⟨⟩
  | error failure =>
    refine .pure kept hafter ?_
    rintro _ ⟨⟩

theorem start_respects (body : Body) (h : regime.stands host) (waker : Waker) :
    (body.start look scope waker).Respects regime host (Polled regime) := by
  cases body with
  | script home instructions =>
    refine afterAside kept (Act.note_aside _) h fun _ _ hafter hrel => ?_
    exact run_respects kept scope home waker instructions none (kept.scopes hrel hscope) hafter
  | document content =>
    exact afterAside kept (Act.onStore_aside (Store.ofJson_onlyObjects content)) h
      fun value _ h hrel => assignStandard_respects kept (kept.scopes hrel hscope) value h
  | text content => exact assignStandard_respects kept hscope (.string content) h

theorem runSynchronously_respects (body : Body) (h : regime.stands host) :
    (body.runSynchronously look scope).Respects regime host fun _ _ => True := by
  refine Act.Respects.bind kept (body.start_respects kept hscope h .nobody)
    fun result after hafter _ _ => ?_
  cases result with
  | ready result => exact .pure kept hafter trivial
  | pending work =>
    exact afterAside kept work.forget_aside hafter fun _ _ h _ => .pure kept h trivial

end Body

namespace BodyWork

theorem goOn_respects {work : BodyWork} (hscope : regime.scope host work.scope)
    (h : regime.stands host) (waker : Waker) {effect : Effect} (heffect : effect.Fits regime host) :
    (work.goOn look waker effect).Respects regime host (Body.Polled regime) := by
  cases effect with
  | next => exact Body.run_respects kept work.scope work.home waker work.rest none hscope h
  | thrown value =>
    exact Body.run_respects kept work.scope work.home waker work.rest (some (0, value)) hscope h
  | wait awaiting =>
    refine .pure kept h ?_
    rintro _ ⟨⟩
    exact ⟨hscope, heffect⟩

theorem resume_respects {work : BodyWork} (hwork : work.Fits regime host) (h : regime.stands host)
    (waker : Waker) : (work.resume look waker).Respects regime host (Body.Polled regime) := by
  have hawaiting := hwork.awaiting
  unfold resume
  split
  · rename_i name _
    refine afterAside kept (Act.isOpen_aside name) h fun isOpen after hafter hrel => ?_
    have hlater := hwork.lasts (fun _ => kept.scopes hrel) fun _ => kept.works hrel
    split
    · exact goOn_respects kept hlater.scope hafter waker trivial
    · refine .pure kept hafter ?_
      rintro _ ⟨⟩
      exact hlater
  · exact goOn_respects kept hwork.scope h waker trivial
  · refine afterAside kept (Act.tell_aside _) h fun _ after hafter hrel => ?_
    refine .pure kept hafter ?_
    rintro _ ⟨⟩
    exact ⟨(hwork.lasts (fun _ => kept.scopes hrel) fun _ => kept.works hrel).scope, trivial⟩
  · rename_i specifier target importWork heq
    rw [heq] at hawaiting
    refine Act.Respects.bind kept (kept.polls h hawaiting waker) fun result after hafter hrel hresult => ?_
    have hscope := kept.scopes hrel hwork.scope
    cases result with
    | pending next =>
      refine .pure kept hafter ?_
      rintro _ ⟨⟩
      exact ⟨hscope, hresult next rfl⟩
    | ready result =>
      refine Act.Respects.bind kept (Body.takeImport_respects kept hscope specifier target result hafter)
        fun effect last hlast hrel' heffect => ?_
      exact goOn_respects kept (kept.scopes hrel' hscope) hlast waker heffect

end BodyWork

theorem Act.startAsync_respects {scope : Scope} (hscope : regime.scope host scope) (body : Body)
    (h : regime.stands host) (waker : Waker) :
    (startAsync look scope body waker).Respects regime host (Body.Polled regime) := by
  refine Respects.bind kept (body.start_respects kept hscope h waker)
    fun result after hafter _ hresult => ?_
  cases result with
  | pending work => exact .pure kept hafter hresult
  | ready result =>
    refine afterAside kept (Body.noteEnd_aside scope body) hafter fun _ _ h _ => .pure kept h ?_
    rintro _ ⟨⟩

end ModuleLoader
