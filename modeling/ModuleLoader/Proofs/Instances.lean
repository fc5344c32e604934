import ModuleLoader.Proofs.Sessions
import ModuleLoader.Proofs.Setups
/-!
One instance per key. In every state of a session a key that is memoized stays with its record, an alias
and the key it was followed to stand for one record, and so all imports of either give one namespace.
-/

namespace ModuleLoader
set_option autoImplicit false

/-- What holds of the instances of a host between any two actions. -/
structure Host.Orderly (host : Host) : Prop where
  loads : host.LoadsInOrder
  calm : ∀ load bell work, host.loads.get? load ≠ some ⟨bell, .driven work⟩
  homes : ∀ ref record, host.records.get? ref = some record → host.Built record.home
  imported : ∀ node space, .imported node space ∈ host.chronicle →
    ∃ ref, host.lookup? node = some ref ∧ (host.records.get? ref).isSome ∧
      (host.record ref).space = space

/-- The host once the linking of a closure is announced. -/
def Host.announced (host : Host) (root : Node) : Host :=
  { host with
    chronicle := .linking (host.unlinked root) (host.unmet (host.unlinked root)) :: host.chronicle }

theorem Host.batched_announced {host : Host} {root : Node} {ref : Ref .record}
    (href : ref ∈ host.unlinked root) : (host.announced root).Batched ref :=
  ⟨_, _, List.mem_cons_self, href⟩

namespace Host.Orderly

variable {host host' : Host}

/-- What was imported stays imported. -/
theorem imported_later (h : host.Orderly) (hlater : Later host host')
    (hmarks : ∀ node space, .imported node space ∈ host'.chronicle →
      .imported node space ∈ host.chronicle) :
    ∀ node space, .imported node space ∈ host'.chronicle →
      ∃ ref, host'.lookup? node = some ref ∧ (host'.records.get? ref).isSome ∧
        (host'.record ref).space = space := by
  intro node space hmem
  obtain ⟨ref, hlookup, href, hspace⟩ := h.imported node space (hmarks node space hmem)
  exact ⟨ref, hlater.lookup? hlookup, hlater.keeps.records ref href,
    ((hlater.record href).space).trans hspace⟩

theorem grows (h : host.Orderly) (hloads : host'.LoadsInOrder) (hgrows : Grows host host') :
    host'.Orderly where
  loads := hloads
  calm load bell work hload := h.calm load bell work (hgrows.calm load bell work hload)
  homes ref record' hrecord' := by
    cases hrecord : host.records.get? ref with
    | none => exact (hgrows.newborn ref record' hrecord hrecord').home
    | some record =>
      obtain rfl := Option.some.inj (hrecord'.symm.trans (hgrows.records ref record hrecord))
      exact (hgrows.built _).2 (h.homes ref record' hrecord)
  imported := h.imported_later hgrows.later fun _ _ hmem =>
    hgrows.mem_chronicle hmem fun _ _ heq => nomatch heq

theorem quiet (h : host.Orderly) (hquiet : Quiet host host') : host'.Orderly :=
  h.grows (hquiet.loadsInOrder h.loads) hquiet.grows

theorem advances {fine : Failure → Prop} (h : host.Orderly) (hadvances : Advances fine host host') :
    host'.Orderly where
  loads := hadvances.loads.loadsInOrder h.loads
  calm := by
    rw [hadvances.loads.loads]
    exact h.calm
  homes ref record' hrecord' := by
    obtain ⟨record, hrecord, honward, -⟩ := hadvances.record_back hrecord'
    rw [honward.home]
    exact (hadvances.loads.built _).2 (h.homes ref record hrecord)
  imported := h.imported_later hadvances.later fun _ _ hmem =>
    hadvances.mem_chronicle hmem fun _ _ heq => nomatch heq

theorem works (h : host.Orderly) (readies : Arena .ready (Shared ReadyWork (Except Failure Unit)))
    (drivers : Arena .driver Driver) (verdicts : Arena .verdict Verdict) (tasks : Arena .task Task) :
    Orderly { host with readies, drivers, verdicts, tasks } ∧
      Later host { host with readies, drivers, verdicts, tasks } := by
  have halike : LoadsAlike host { host with readies, drivers, verdicts, tasks } :=
    ⟨rfl, rfl, rfl, rfl, fun _ => id, fun _ _ => id⟩
  exact ⟨⟨halike.loadsInOrder h.loads, h.calm, h.homes, h.imported⟩,
    halike.later (fun _ record hrecord => ⟨record, hrecord, .refl record⟩) (List.suffix_refl _)⟩

/-- A milestone may be passed that says nothing of aliases, and nothing of imports but the truth. -/
theorem marked (h : host.Orderly) (mark : Milestone)
    (hstands : ∀ node target, mark ≠ .stands node target)
    (himported : ∀ node space, mark = .imported node space → host.exportsOf node = .ok space) :
    Orderly { host with chronicle := mark :: host.chronicle } ∧
      Later host { host with chronicle := mark :: host.chronicle } := by
  have halike : LoadsAlike host { host with chronicle := mark :: host.chronicle } :=
    ⟨rfl, rfl, rfl, rfl, fun _ => id, fun node target hmem =>
      (List.mem_cons.1 hmem).resolve_left fun heq => hstands node target heq.symm⟩
  refine ⟨⟨halike.loadsInOrder h.loads, h.calm, h.homes, fun node space hmem => ?_⟩,
    halike.later (fun _ record hrecord => ⟨record, hrecord, .refl record⟩) (List.suffix_cons _ _)⟩
  rcases List.mem_cons.1 hmem with heq | hmem
  · have hspace := himported node space heq.symm
    unfold exportsOf entryOf at hspace
    cases hentry : host.entryAt? node with
    | none =>
      rw [hentry] at hspace
      cases hspace
    | some entry =>
      rw [hentry] at hspace
      refine ⟨entry.record, ?_, ?_, Except.ok.inj hspace⟩
      · exact congrArg (Option.map Entry.record) hentry
      · have hvalid := h.loads.memo node entry hentry
        cases entry with
        | own record => exact hvalid
        | borrowed owner key record => exact hvalid.1
  · exact h.imported node space hmem

theorem passes (h : host.Orderly) {mark : Milestone} (hmark : host.Admits mark) :
    Orderly { host with chronicle := mark :: host.chronicle } ∧
      Later host { host with chronicle := mark :: host.chronicle } := by
  refine h.marked mark (fun node target heq => ?_) fun node space heq => ?_
  · rw [heq] at hmark
    exact hmark
  · rw [heq] at hmark
    exact hmark

theorem polls (h : host.Orderly) {stage : ClosureStage} (hstage : stage.Good host) (waker : Waker) :
    After host (stage.poll waker) fun result host' => host'.Orderly ∧ Grows host host' ∧
      match result with
        | .pending next => next.Good host' ∧ next.root = stage.root
        | .ready _ => True := by
  refine After.mono (.and (ClosureStage.poll_loads h.loads hstage waker) (stage.poll_root waker host))
    fun result host' hpoll => ?_
  obtain ⟨⟨hloads, hgrows, hresult⟩, hroot⟩ := hpoll
  refine ⟨h.grows hloads hgrows, hgrows, ?_⟩
  cases result with
  | pending next => exact ⟨hresult, hroot next rfl⟩
  | ready result => trivial

theorem drafts (h : host.Orderly) {root : Node} (hroot : host.Built root.compartment) :
    After host (Act.draft root) fun result host' => host'.Orderly ∧ Grows host host' ∧
      ∀ drafted, result = .ok drafted → drafted.Good host' :=
  After.mono (Act.draft_loads h.loads hroot) fun _ _ ⟨hloads, hgrows, hresult⟩ =>
    ⟨h.grows hloads hgrows, hgrows, hresult⟩

theorem enters (h : host.Orderly) {drafted : Drafted} (hdrafted : drafted.Good host) :
    After host (Act.enterDraft drafted) fun _ host' => host'.Orderly ∧ Grows host host' :=
  After.mono (Act.enterDraft_loads h.loads hdrafted) fun _ _ ⟨hloads, hgrows, _⟩ =>
    ⟨h.grows hloads hgrows, hgrows⟩

theorem builds (h : host.Orderly) (plan : CompartmentPlan) :
    After host (Act.newCompartment plan) fun _ host' =>
      host'.Orderly ∧ Later host host' ∧ SameWork host host' := by
  refine (Act.newCompartment_builds h.loads.grounded plan).mono fun _ host' hbuilds => ?_
  obtain ⟨middle, haside, hend⟩ := hbuilds
  have hquiet := haside.quiet
  have hmiddle := h.quiet hquiet
  have hsame := SameWork.of_grows hquiet.grows
  rcases hend with rfl | ⟨compartment, hbuilds⟩
  · exact ⟨hmiddle, hquiet.grows.later, hsame⟩
  · refine ⟨⟨hbuilds.loadsInOrder hmiddle.loads, ?_, fun ref record hrecord => ?_,
      hmiddle.imported_later hbuilds.later fun _ _ hmem => ?_⟩,
      hquiet.grows.later.trans hbuilds.later, hsame.trans ?_⟩
    · rw [hbuilds.rest]
      exact hmiddle.calm
    · rw [hbuilds.rest] at hrecord
      exact hbuilds.keeps.built _ (hmiddle.homes ref record hrecord)
    · rw [hbuilds.rest] at hmem
      exact hmem
    · rw [hbuilds.rest]
      exact ⟨rfl, rfl, rfl, rfl⟩

/-- Linking a closure is a milestone and a number of moves. -/
theorem links {fine : Failure → Prop} (h : host.Orderly) {root : Node}
    (hadvances : Advances fine (host.announced root)
      (Act.link (host.unlinked root) (host.announced root)).2) :
    After host (Act.linkClosure root) fun _ host' =>
      host'.Orderly ∧ Later host host' ∧ SameWork host host' := by
  obtain ⟨hmarked, hlater⟩ := h.marked
    (.linking (host.unlinked root) (host.unmet (host.unlinked root)))
    (fun _ _ heq => nomatch heq) fun _ _ heq => nomatch heq
  have hsame := SameWork.of_advances hadvances
  exact ⟨hmarked.advances hadvances, hlater.trans hadvances.later,
    ⟨hsame.readies, hsame.drivers, hsame.verdicts, hsame.tasks⟩⟩

theorem default_orderly : (default : Host).Orderly :=
  ⟨fresh_sound.loads, (fun _ _ _ h => nomatch h), (fun _ _ h => nomatch h), fun _ _ h => nomatch h⟩

end Host.Orderly

/-- Instances stay what they are: nothing else is asked of loads, and records may fail for any
reason. -/
def Law.instances : Law where
  inv := Host.Orderly
  rel := Later
  stage host stage := stage.Good host
  whole _ _ := True
  drafted host _ drafted := drafted.Good host
  fine _ := True

theorem Law.instances_kept : Law.instances.Kept where
  refl := Later.refl
  trans := Later.trans
  later h := h
  homes h := h.homes
  excused _ _ := trivial
  thrown _ _ := trivial
  lasts hrel hstage := hstage.keeps hrel.keeps
  fresh _ hroot := hroot
  aside h haside := ⟨h.quiet haside.quiet, haside.quiet.grows.later⟩
  advances h hadvances := ⟨h.advances hadvances, hadvances.later⟩
  works h := h.works
  passes h := h.passes
  polls h hstage waker := (h.polls hstage waker).mono fun result _ ⟨horder, hgrows, hresult⟩ => by
    refine ⟨horder, hgrows.later, .of_grows hgrows, ?_⟩
    cases result with
    | pending next => exact hresult
    | ready result => cases result <;> trivial
  drafts h hroot := (h.drafts hroot).mono fun _ _ ⟨horder, hgrows, hresult⟩ =>
    ⟨horder, hgrows.later, .of_grows hgrows, hresult⟩
  enters h hdrafted := (h.enters hdrafted).mono fun _ _ ⟨horder, hgrows⟩ =>
    ⟨horder, hgrows.later, .of_grows hgrows, trivial⟩
  builds h plan := h.builds plan
  links h _ := h.links (Act.link_advances (fun _ => Host.batched_announced) fun _ _ _ _ => trivial)

namespace Host

variable {host host' : Host}

/-- Every state of a session is orderly, and later than the states before. -/
theorem orderly_of_run (hrun : Run default host) : host.Orderly :=
  (Law.Stands.run Law.instances_kept ⟨Orderly.default_orderly, Law.default_hosted⟩ hrun).1.inv

theorem later_of_run (hrun : Run default host) (hon : Run host host') : Later host host' := by
  obtain ⟨hstands, -⟩ := Law.Stands.run Law.instances_kept
    ⟨Orderly.default_orderly, Law.default_hosted⟩ hrun
  exact (hstands.run Law.instances_kept hon).2

/-- An alias and the key it was followed to answer one record, once both are memoized. -/
theorem Orderly.record_unique (h : host.Orderly) {node target : Node}
    (hstands : .stands node target ∈ host.chronicle) {record other : Ref .record}
    (hnode : host.lookup? node = some record) (htarget : host.lookup? target = some other) :
    record = other := by
  obtain ⟨shared, hpromise, hown⟩ := h.loads.stands node target hstands
  have hown : host.promise? node = some shared := by
    refine hown.resolve_right ?_
    rintro ⟨load, bell, work, hdriven, -⟩
    exact h.calm load bell work hdriven
  have hof (key : Node) (found : Ref .record) (hlookup : host.lookup? key = some found) :
      host.promise? key = some found := by
    obtain ⟨entry, hentry, rfl⟩ := Option.map_eq_some_iff.1 hlookup
    exact promise?_of_entry hentry
  rw [hof node record hnode] at hown
  rw [hof target other htarget] at hpromise
  rw [Option.some.inj hown, Option.some.inj hpromise]

/-- A module that the load hook of a compartment knows, and an alias of an alias of it in another
compartment. -/
def aliased : Host :=
  let inner : CompartmentPlan :=
    { CompartmentPlan.simple "inner" [] with
      loadHook := some (.ofList [("x", [⟨none, 1, .describe (ChainKind.moduleOf [] (some []))⟩])]) }
  let outer : CompartmentPlan :=
    .simple "outer" [("y", .redirect "x" (some "inner")), ("z", .redirect "y" none)]
  (Act.newCompartment outer (Act.newCompartment inner default).2).2

/-- The alias is imported by a task that has to wait for the hook, and then the module at once. -/
def aliasedRun : Host :=
  let host := (Act.startImport "task" ⟨⟨1⟩, "z"⟩ aliased).2
  let host := (Act.pollTask ⟨0⟩ host).2
  let host := (Act.pollTask ⟨0⟩ host).2
  (Act.importNow Act.lookOutside ⟨⟨0⟩, "x"⟩ host).2

theorem aliasedRun_run : Run default aliasedRun := by
  have hbuilt : Run default aliased := .tail (.single (.build _)) (.build _)
  have hstart := hbuilt.tail (.startImport "task" ⟨⟨1⟩, "z"⟩ (by decide +kernel))
  exact ((hstart.tail (.turn ⟨0⟩)).tail (.turn ⟨0⟩)).tail (.importNow ⟨⟨0⟩, "x"⟩ (by decide +kernel))

end Host

end ModuleLoader
