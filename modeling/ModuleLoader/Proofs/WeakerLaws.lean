import ModuleLoader.Proofs.LoadWaits
/-!
From one law of loading to another. What stands under a law stands under any other that asks for less, also
in another host with the same calls and loads. The least law of all says that loading leaves the rest of the
work in progress alone.
-/

namespace ModuleLoader
set_option autoImplicit false

/-- What one law says of nodes in a host implies what the other says of them in a host with the same calls
and loads. -/
structure LoadLaw.Implies (law weaker : LoadLaw) (host host' : Host) : Prop where
  calls : host'.calls = host.calls
  loads : host'.loads = host.loads
  hooked : ∀ {node}, host.Hooked node → host'.Hooked node
  offers : ∀ {node blueprint}, host.Offers node blueprint → host'.Offers node blueprint
  tells : ∀ {node descriptor}, law.tells host node descriptor → weaker.tells host' node descriptor
  fits : ∀ {node entry}, law.fits host node entry → weaker.fits host' node entry
  near : ∀ {a b}, law.near a b → weaker.near a b

namespace LoadLaw.Implies

variable {law weaker : LoadLaw} {host host' : Host}

theorem of_same (htells : ∀ {node descriptor}, law.tells host node descriptor →
      weaker.tells host node descriptor)
    (hfits : ∀ {node entry}, law.fits host node entry → weaker.fits host node entry)
    (hnear : ∀ {a b}, law.near a b → weaker.near a b) : law.Implies weaker host host :=
  ⟨rfl, rfl, id, id, htells, hfits, hnear⟩

section
variable (himplies : law.Implies weaker host host')
include himplies

theorem answers {node : Node} {call : Ref .call} (h : law.Answers host node call) :
    weaker.Answers host' node call := by
  obtain ⟨hhooked, shared, hshared, hanswers⟩ := h
  refine ⟨himplies.hooked hhooked, shared, himplies.calls ▸ hshared, ?_⟩
  match shared.progress, hanswers with
  | .idle call, hanswers => exact hanswers.imp_right fun hstage => hstage.mono fun _ => himplies.offers
  | .driven call, hanswers => exact hanswers
  | .done (.ok (some descriptor)), hanswers => exact himplies.tells hanswers
  | .done (.ok none), _ => trivial
  | .done (.error failure), _ => trivial

theorem lends {node : Node} {load : Ref .load} (h : law.Lends host node load) :
    weaker.Lends host' node load := by
  obtain ⟨shared, hshared, hlends⟩ := h
  refine ⟨shared, himplies.loads ▸ hshared, ?_⟩
  match shared.progress, hlends with
  | .idle work, hlends => exact hlends
  | .driven work, hlends => exact hlends
  | .done (.ok delivery), hlends =>
    exact ⟨himplies.fits hlends.entry, fun next hnext => himplies.near (hlends.near next hnext)⟩
  | .done (.error failure), _ => trivial

theorem kind {node : Node} {isAlias : Bool} (h : law.Kind host node isAlias) :
    weaker.Kind host' node isAlias :=
  h.imp fun _ => .imp_left himplies.tells

theorem waits {node : Node} {stage : LoadStage} (h : law.Waits host node stage) :
    weaker.Waits host' node stage := by
  cases stage with
  | fresh => trivial
  | describing watch => exact himplies.answers h
  | following visited other watch =>
    exact ⟨himplies.answers h.1, himplies.near h.2.1, himplies.kind h.2.2⟩
  | borrowing target watch =>
    exact ⟨himplies.lends h.1, himplies.near h.2.1, himplies.kind h.2.2.1, himplies.kind h.2.2.2⟩

theorem stands (hinv : weaker.inv host')
    (hcallAt : ∀ node call, host'.callAt? node = some call → host.callAt? node = some call)
    (hloadAt : ∀ node load, host'.loadAt? node = some load → host.loadAt? node = some load)
    (h : law.Stands host) : weaker.Stands host' where
  inv := hinv
  calls node call hcall := himplies.answers (h.calls node call (hcallAt node call hcall))
  loads node load hload := himplies.lends (h.loads node load (hloadAt node load hload))
  flight load work hflight := by
    obtain ⟨bell, hflight⟩ := hflight
    rw [himplies.loads] at hflight
    exact himplies.waits (h.flight load work ⟨bell, hflight⟩)

/-- The load of a closure goes on under the weaker law. -/
theorem stage (hwithin : ∀ ref, law.within ref → weaker.within ref) {stage : ClosureStage}
    (h : stage.Heeds law host) : stage.Heeds weaker host' := by
  cases stage with
  | fresh root => exact hwithin _ h
  | running load =>
    exact
      { held := fun held hmem => (h.held held hmem).imp (hwithin _) himplies.fits
        members := fun member hmem =>
          { within := hwithin _ (h.members member hmem).within
            lends := fun watch hwatch => himplies.lends ((h.members member hmem).lends watch hwatch) }
        backlog := fun node hmem => hwithin _ (h.backlog node hmem) }

end

end LoadLaw.Implies

/-- Loading leaves all other work alone. Nothing else is asked of it. -/
def LoadLaw.still : LoadLaw where
  inv _ := True
  rel host host' := Host.Posted host host' ∧ SameWork host host'
  within _ := True
  near _ _ := True
  tells _ _ _ := True
  fits _ _ _ := True

theorem LoadLaw.still_kept : LoadLaw.still.Kept where
  refl host := ⟨.refl host, rfl, rfl, rfl, rfl⟩
  trans hab hbc := ⟨hab.1.trans hbc.1, hab.2.trans hbc.2⟩
  near_refl _ := trivial
  near_trans _ _ := trivial
  within_near _ _ := trivial
  hooked h hhooked := h.1.hooked hhooked
  offers h hoffers := h.1.offers hoffers
  tells_mono _ _ := trivial
  fits_mono _ _ := trivial
  stirs _ h := ⟨trivial, (LoadLaw.kinds_kept.stirs trivial h).2, h.readies, h.drivers, h.verdicts, h.tasks⟩
  tables _ _ := trivial
  takes _ _ _ _ := trivial
  points _ _ _ := trivial
  interprets _ _ _ := by
    refine (Act.interpret_adds _ _ _).mono fun result host' hadds => ?_
    obtain ⟨store, records, rfl⟩ := hadds
    exact ⟨trivial, ⟨.of_compartments rfl, rfl, rfl, rfl, rfl⟩, fun _ _ => trivial⟩
  memo _ _ := trivial
  lends _ _ _ := trivial
  continues _ _ _ _ := trivial
  enters _ _ _ := ⟨trivial, (LoadLaw.kinds_kept.enters trivial trivial trivial).2, rfl, rfl, rfl, rfl⟩

section
variable {law : LoadLaw} {host : Host}

theorem LoadLaw.Stands.still (h : law.Stands host) : LoadLaw.still.Stands host :=
  (LoadLaw.Implies.of_same (fun _ => trivial) (fun _ => trivial) fun _ => trivial).stands trivial
    (fun _ _ => id) (fun _ _ => id) h

/-- The load of a closure leaves all other work alone. -/
theorem ClosureStage.poll_sameWork (h : law.Stands host) {stage : ClosureStage}
    (hstage : stage.Heeds law host) (waker : Waker) :
    After host (stage.poll waker) fun _ host' => SameWork host host' := by
  have hstill : stage.Heeds LoadLaw.still host :=
    (LoadLaw.Implies.of_same (fun _ => trivial) (fun _ => trivial) fun _ => trivial).stage
      (fun _ _ => trivial) hstage
  exact (ClosureStage.poll_heeds LoadLaw.still_kept h.still hstill waker).2.1.rel.2

theorem Act.draft_sameWork (h : law.Stands host) (root : Node) :
    After host (draft root) fun _ host' => SameWork host host' :=
  (draft_heeds LoadLaw.still_kept h.still trivial).2.1.rel.2

theorem Act.enterDraft_sameWork (h : law.Stands host) (drafted : Drafted) :
    After host (enterDraft drafted) fun _ host' => SameWork host host' :=
  (enterDraft_heeds LoadLaw.still_kept h.still fun _ _ => ⟨trivial, trivial⟩).2.1.rel.2

end

end ModuleLoader
