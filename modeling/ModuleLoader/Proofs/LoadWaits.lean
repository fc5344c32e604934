import ModuleLoader.Proofs.AliasChains
import ModuleLoader.Proofs.LawfulClosures
/-!
Loads never wait for each other in a circle. Aliases are followed by descriptors alone, so the only load
that waits for another one is that of an alias, and the one it waits for is about a node that is no alias.
-/

namespace ModuleLoader
set_option autoImplicit false

/-- Whether a blueprint is that of an alias. -/
def Blueprint.isAlias : Blueprint → Bool
  | .redirect _ _ => true
  | .record _ => true
  | _ => false

/-- A descriptor is an alias if its blueprint is. -/
theorem Act.build_isAlias {host : Host} (home : String) (blueprint : Blueprint) :
    After host (build home blueprint) fun result _ =>
      ∀ descriptor, result = .ok descriptor → descriptor.isAlias = blueprint.isAlias := by
  unfold build
  cases blueprint with
  | module compiled bindings body async needsImport needsMeta metaProperties =>
    dsimp only
    split
    · exact nofun
    · rename_i bindings _
      rw [after_bind]
      have hany : After host (evaluateMembers metaProperties) fun _ _ => True := trivial
      refine hany.mono fun properties after _ => ?_
      rintro _ ⟨⟩
      cases compiled <;> rfl
  | document text =>
    dsimp only
    split
    · exact nofun
    · rintro _ ⟨⟩
      rfl
  | text content =>
    rintro _ ⟨⟩
    rfl
  | redirect key compartment =>
    rintro _ ⟨⟩
    rfl
  | record key =>
    rintro _ ⟨⟩
    rfl
  | «exports» value =>
    rintro _ ⟨⟩
    rfl

/-- The first step of a chain is taken where the alias itself is interpreted. An alias of itself is refused
there already. -/
theorem Act.interpret_isAlias (host : Host) (origin : Node) {descriptor : Descriptor}
    (h : descriptor.isAlias) :
    (∃ failure, host.pointsTo origin descriptor = .error failure ∧
      interpret origin descriptor host = (.error failure, host)) ∨
    ∃ target, host.pointsTo origin descriptor = .ok (some target) ∧
      (interpret origin descriptor host = (.ok (.elsewhere target), host) ∨
        target = origin ∧ interpret origin descriptor host = (.error (.aliasCycle origin.key), host)) := by
  cases descriptor with
  | compiled source => cases h
  | «virtual» source => cases h
  | exportsAlias value => cases h
  | recordAlias key =>
    have hinterpret : After host (interpret origin (.recordAlias key)) fun result host' =>
        (∃ failure, host.aliasOwner origin key = .error failure ∧ result = .error failure ∧ host' = host) ∨
          ∃ owner, host.aliasOwner origin key = .ok owner ∧ result = .ok (.elsewhere ⟨owner, key⟩) ∧
            host' = host := by
      unfold interpret
      rw [after_bind, after_get]
      split
      · rename_i owner howner
        exact .inr ⟨owner, howner, rfl, rfl⟩
      · rename_i failure howner
        exact .inl ⟨failure, howner, rfl, rfl⟩
    obtain ⟨failure, howner, hresult, hhost⟩ | ⟨owner, howner, hresult, hhost⟩ := hinterpret
    · refine .inl ⟨failure, ?_, Prod.ext hresult hhost⟩
      unfold Host.pointsTo
      dsimp only
      rw [howner]
    · refine .inr ⟨⟨owner, key⟩, ?_, .inl (Prod.ext hresult hhost)⟩
      unfold Host.pointsTo
      dsimp only
      rw [howner]
  | instanceAlias key compartment =>
    refine .inr ⟨⟨compartment.getD origin.compartment, key⟩, rfl, ?_⟩
    cases compartment with
    | some owner => exact .inl rfl
    | none =>
      by_cases hself : key = origin.key
      · subst hself
        exact .inr ⟨rfl, congrFun (if_pos rfl) host⟩
      · exact .inl (congrFun (if_neg hself) host)

namespace Host

/-- A descriptor of this kind is to be had for the node: its static descriptor is an alias or is none, or,
without a static one, a hook offers one that is. -/
def MayBe (host : Host) (node : Node) (isAlias : Bool) : Prop :=
  match (host.compartment node.compartment).table.get? node.key with
  | some descriptor => descriptor.isAlias = isAlias
  | none => ∃ blueprint, host.Offers node blueprint ∧ blueprint.isAlias = isAlias

/-- The descriptor of a node is fixed, as far as it goes: whichever is obtained, it is an alias or it is
none. -/
def Fixed (host : Host) : Prop :=
  ∀ node, ¬ (host.MayBe node true ∧ host.MayBe node false)

/-- What compartments were told stays. -/
structure Posted (host host' : Host) : Prop where
  built : ∀ ref, host.Built ref → host'.Built ref
  table : ∀ ref, host.Built ref → (host'.compartment ref).table = (host.compartment ref).table
  loadHook : ∀ ref, host.Built ref → (host'.compartment ref).loadHook = (host.compartment ref).loadHook
  nowHook : ∀ ref, host.Built ref → (host'.compartment ref).nowHook = (host.compartment ref).nowHook

variable {a b c host host' : Host} {node : Node}

/-- A compartment that was not built was told nothing. -/
theorem compartment_unbuilt {ref : Ref .compartment} (h : ¬ host.Built ref) :
    host.compartment ref = default := by
  have hnone : host.compartments.get? ref = none :=
    Array.getElem?_eq_none (Nat.le_of_not_lt h)
  unfold compartment
  rw [hnone]
  rfl

/-- Only a compartment that was built has descriptors. -/
theorem built_of_table {descriptor : Descriptor}
    (h : (host.compartment node.compartment).table.get? node.key = some descriptor) :
    host.Built node.compartment := by
  by_contra hbuilt
  rw [compartment_unbuilt hbuilt] at h
  cases h

theorem Offers.built {blueprint : Blueprint} (h : host.Offers node blueprint) :
    host.Built node.compartment := by
  by_contra hbuilt
  have hdefault := compartment_unbuilt hbuilt
  cases h with
  | onLoad hhook _ _ _ =>
    rw [hdefault] at hhook
    cases hhook
  | now hhook _ =>
    rw [hdefault] at hhook
    cases hhook

namespace Posted

theorem refl (host : Host) : Posted host host :=
  ⟨fun _ => id, fun _ _ => rfl, fun _ _ => rfl, fun _ _ => rfl⟩

theorem trans (hab : Posted a b) (hbc : Posted b c) : Posted a c where
  built ref h := hbc.built ref (hab.built ref h)
  table ref h := (hbc.table ref (hab.built ref h)).trans (hab.table ref h)
  loadHook ref h := (hbc.loadHook ref (hab.built ref h)).trans (hab.loadHook ref h)
  nowHook ref h := (hbc.nowHook ref (hab.built ref h)).trans (hab.nowHook ref h)

theorem of_compartments (h : host'.compartments = host.compartments) : Posted host host' := by
  have hsame (ref : Ref .compartment) : host'.compartment ref = host.compartment ref := by
    unfold compartment
    rw [h]
  refine ⟨fun ref href => ?_, fun ref _ => ?_, fun ref _ => ?_, fun ref _ => ?_⟩
  · unfold Built
    rw [h]
    exact href
  · rw [hsame]
  · rw [hsame]
  · rw [hsame]

theorem of_builds {compartment : Compartment} (h : ModuleLoader.Builds host host' compartment) :
    Posted host host' := by
  have hsame {ref : Ref .compartment} (href : host.Built ref) :
      host'.compartment ref = host.compartment ref := by
    rw [h.compartment_eq, if_neg]
    rintro rfl
    exact Nat.lt_irrefl _ href
  exact ⟨fun ref href => (h.built ref).2 (.inr href), fun _ href => by rw [hsame href],
    fun _ href => by rw [hsame href], fun _ href => by rw [hsame href]⟩

theorem hooked (h : Posted host host') (hhooked : host.Hooked node) : host'.Hooked node := by
  by_cases hbuilt : host.Built node.compartment
  · refine ⟨?_, ?_⟩
    · rw [h.loadHook _ hbuilt]
      exact hhooked.hook
    · rw [h.table _ hbuilt]
      exact hhooked.table
  · have hnone := hhooked.hook
    rw [compartment_unbuilt hbuilt] at hnone
    cases hnone

theorem offers (h : Posted host host') {blueprint : Blueprint} (hoffers : host.Offers node blueprint) :
    host'.Offers node blueprint :=
  hoffers.congr (h.loadHook _ hoffers.built) (h.nowHook _ hoffers.built)

theorem mayBe (h : Posted host host') {isAlias : Bool} (hmay : host.MayBe node isAlias) :
    host'.MayBe node isAlias := by
  have hbuilt : host.Built node.compartment := by
    by_contra hbuilt
    unfold MayBe at hmay
    rw [compartment_unbuilt hbuilt] at hmay
    obtain ⟨blueprint, hoffers, -⟩ := hmay
    exact hbuilt hoffers.built
  unfold MayBe at hmay ⊢
  rw [h.table _ hbuilt]
  split
  · rename_i descriptor htable
    rw [htable] at hmay
    exact hmay
  · rename_i htable
    rw [htable] at hmay
    exact hmay.imp fun _ => .imp_left h.offers

end Posted

end Host

/-- A reply that describes an alias. -/
def Reply.isAlias : Reply → Bool
  | .describe blueprint => blueprint.isAlias
  | _ => false

/-- The hooks of a compartment offer no aliases. -/
def Compartment.OffersNoAlias (compartment : Compartment) : Prop :=
  (∀ answers ∈ compartment.loadHook, ∀ pair ∈ answers.entries, ∀ answer ∈ pair.2,
    answer.reply.isAlias = false) ∧
  ∀ answers ∈ compartment.nowHook, ∀ pair ∈ answers.entries, pair.2.isAlias = false

instance (compartment : Compartment) : Decidable compartment.OffersNoAlias :=
  inferInstanceAs (Decidable (_ ∧ _))

/-- Where all aliases are static ones, descriptors are fixed. -/
theorem Host.fixed_of_offers {host : Host}
    (h : ∀ compartment ∈ host.compartments.cells, compartment.OffersNoAlias) : host.Fixed := by
  have hall (ref : Ref .compartment) : (host.compartment ref).OffersNoAlias := by
    by_cases hbuilt : host.Built ref
    · have hget : host.compartments.get? ref = some host.compartments.cells[ref.index] :=
        Array.getElem?_eq_getElem hbuilt
      unfold compartment
      rw [hget]
      exact h _ (Array.getElem_mem hbuilt)
    · rw [compartment_unbuilt hbuilt]
      refine ⟨fun _ hmem => ?_, fun _ hmem => ?_⟩ <;> cases hmem
  have hplain {node : Node} {blueprint : Blueprint} (hoffers : host.Offers node blueprint) :
      blueprint.isAlias = false := by
    cases hoffers with
    | onLoad hhook hget hmem hreply =>
      have hreplies := (hall node.compartment).1 _ hhook _ (Table.mem_of_find hget) _ hmem
      rwa [hreply] at hreplies
    | now hhook hget => exact (hall node.compartment).2 _ hhook _ (Table.mem_of_find hget)
  rintro node ⟨halias, hnone⟩
  unfold MayBe at halias hnone
  cases htable : (host.compartment node.compartment).table.get? node.key with
  | some descriptor =>
    rw [htable] at halias hnone
    cases halias.symm.trans hnone
  | none =>
    rw [htable] at halias
    obtain ⟨blueprint, hoffers, halias⟩ := halias
    cases halias.symm.trans (hplain hoffers)

/-- Descriptors are of the kind that was told, and nothing else is asked of loading. -/
def LoadLaw.kinds : LoadLaw where
  inv _ := True
  rel := Host.Posted
  within _ := True
  near _ _ := True
  tells host node descriptor := host.MayBe node descriptor.isAlias
  fits _ _ _ := True

theorem LoadLaw.kinds_kept : LoadLaw.kinds.Kept where
  refl := .refl
  trans := .trans
  near_refl _ := trivial
  near_trans _ _ := trivial
  within_near _ _ := trivial
  hooked := Host.Posted.hooked
  offers h hoffers := Host.Posted.offers h hoffers
  tells_mono h hmay := Host.Posted.mayBe h hmay
  fits_mono _ _ := trivial
  stirs _ h := by
    refine ⟨trivial, fun ref href => ?_, fun ref _ => ?_, fun ref _ => ?_, fun ref _ => ?_⟩
    · unfold Host.Built
      rw [h.size]
      exact href
    · exact h.part ref Compartment.table fun _ => rfl
    · exact h.part ref Compartment.loadHook fun _ => rfl
    · exact h.part ref Compartment.nowHook fun _ => rfl
  tables _ htable := by
    change Host.MayBe _ _ _
    unfold Host.MayBe
    rw [htable]
  takes {host node _ _} _ _ htable htakes := by
    refine Host.Posted.mayBe (.of_compartments htakes.aside.compartments) ?_
    obtain ⟨blueprint, before, hoffers, -, hbuild⟩ := htakes
    have hkind : After before (Act.build (host.compartment node.compartment).label blueprint)
        fun result _ => ∀ descriptor, result = .ok descriptor → descriptor.isAlias = blueprint.isAlias :=
      Act.build_isAlias _ blueprint
    unfold After at hkind
    rw [hbuild] at hkind
    change Host.MayBe _ _ _
    unfold Host.MayBe
    rw [htable]
    exact ⟨blueprint, hoffers, (hkind _ rfl).symm⟩
  points _ _ _ := trivial
  interprets _ _ _ := by
    refine (Act.interpret_adds _ _ _).mono fun result host' hadds => ?_
    obtain ⟨store, records, rfl⟩ := hadds
    exact ⟨trivial, .of_compartments rfl, fun _ _ => trivial⟩
  memo _ _ := trivial
  lends _ _ _ := trivial
  continues _ _ _ _ := trivial
  enters {host node entry} _ _ _ := by
    have hpart {α : Type} (ref : Ref .compartment) (f : Compartment → α)
        (hf : ∀ compartment memo loading, f { compartment with memo, loading } = f compartment) :
        f ((host.entered node entry).compartment ref) = f (host.compartment ref) := by
      rw [Host.compartment_entered]
      split
      · exact hf _ _ _
      · rfl
    refine ⟨trivial, fun ref href => ?_, fun ref _ => ?_, fun ref _ => ?_, fun ref _ => ?_⟩
    · exact Nat.lt_of_lt_of_eq href (Arena.size_modify _ _ _).symm
    · exact hpart ref Compartment.table fun _ _ _ => rfl
    · exact hpart ref Compartment.loadHook fun _ _ _ => rfl
    · exact hpart ref Compartment.nowHook fun _ _ _ => rfl

/-- Loads wait as the kinds of descriptors demand, on top of instances staying what they are. -/
def Law.kinds : Law where
  inv host := host.Orderly ∧ LoadLaw.kinds.Stands host
  rel host host' := Later host host' ∧ LoadLaw.kinds.Moves host host'
  stage host stage := stage.Good host ∧ stage.Heeds .kinds host
  whole _ _ := True
  drafted host _ drafted := drafted.Good host
  fine _ := True

/-- What keeps instances, and leaves calls and loads alone. -/
theorem Unasked.kinds {host host' : Host} (h : Law.kinds.inv host) (horderly : host'.Orderly)
    (hlater : Later host host') (hsame : Unasked host host') (hposted : Host.Posted host host') :
    Law.kinds.inv host' ∧ Law.kinds.rel host host' := by
  obtain ⟨hstands, hmoves⟩ := h.2.same LoadLaw.kinds_kept trivial hposted hsame.calls hsame.loads
    (fun node call hcall => (hsame.callAt node).symm.trans hcall) hsame.loadAt
  exact ⟨⟨horderly, hstands⟩, hlater, hmoves⟩

theorem Act.newCompartment_posted {host : Host} (h : host.Grounded) (plan : CompartmentPlan) :
    Host.Posted host (newCompartment plan host).2 := by
  obtain ⟨middle, haside, hend⟩ := newCompartment_builds h plan
  have hmiddle : Host.Posted host middle := .of_compartments haside.compartments
  rcases hend with heq | ⟨compartment, hbuilds⟩
  · rw [heq]
    exact hmiddle
  · exact hmiddle.trans (.of_builds hbuilds)

theorem Act.linkClosure_compartments (host : Host) (root : Node) :
    (linkClosure root host).2.compartments = host.compartments := by
  have hlink : Advances (fun _ => True) (host.announced root)
      (link (host.unlinked root) (host.announced root)).2 :=
    link_advances (fun _ => Host.batched_announced) fun _ _ _ _ => trivial
  change (link (host.unlinked root) (host.announced root)).2.compartments = _
  rw [hlink.rest]
  rfl

theorem Law.kinds_kept : Law.kinds.Kept where
  refl host := ⟨.refl host, .refl LoadLaw.kinds_kept host⟩
  trans hab hbc := ⟨hab.1.trans hbc.1, hab.2.trans LoadLaw.kinds_kept hbc.2⟩
  later h := h.1
  homes h := h.1.homes
  excused _ _ := trivial
  thrown _ _ := trivial
  lasts hrel hstage := ⟨hstage.1.keeps hrel.1.keeps, hstage.2.mono LoadLaw.kinds_kept hrel.2⟩
  fresh _ hroot := ⟨hroot, trivial⟩
  aside h haside := Unasked.kinds h (h.1.quiet haside.quiet) haside.quiet.grows.later (.of_aside haside)
    (.of_compartments haside.compartments)
  advances h hadvances := Unasked.kinds h (h.1.advances hadvances) hadvances.later (.of_advances hadvances)
    (.of_compartments (by rw [hadvances.rest]))
  works h readies drivers verdicts tasks :=
    have ⟨horderly, hlater⟩ := h.1.works readies drivers verdicts tasks
    Unasked.kinds h horderly hlater ⟨rfl, rfl, rfl, fun _ => rfl, fun _ _ => id, fun _ _ => id⟩
      (.of_compartments rfl)
  passes h hmark :=
    have ⟨horderly, hlater⟩ := h.1.passes hmark
    Unasked.kinds h horderly hlater ⟨rfl, rfl, rfl, fun _ => rfl, fun _ _ => id, fun _ _ => id⟩
      (.of_compartments rfl)
  polls h hstage waker := by
    refine (After.and (instances_kept.polls h.1 hstage.1 waker)
      (ClosureStage.poll_heeds LoadLaw.kinds_kept h.2 hstage.2 waker)).mono fun result host' hpolled => ?_
    obtain ⟨⟨horderly, hlater, hsame, hresult⟩, hstands, hmoves, hnext⟩ := hpolled
    refine ⟨⟨horderly, hstands⟩, ⟨hlater, hmoves⟩, hsame, ?_⟩
    rcases result with next | failure | done
    · exact ⟨⟨hresult.1, hnext next rfl⟩, hresult.2⟩
    · trivial
    · trivial
  drafts h hroot := by
    refine (After.and (instances_kept.drafts h.1 hroot)
      (Act.draft_heeds LoadLaw.kinds_kept h.2 trivial)).mono fun result host' hdrafted => ?_
    obtain ⟨⟨horderly, hlater, hsame, hdrafted⟩, hstands, hmoves, -⟩ := hdrafted
    exact ⟨⟨horderly, hstands⟩, ⟨hlater, hmoves⟩, hsame, hdrafted⟩
  enters {_ root _} h hdrafted := by
    refine (After.and (@Law.Kept.enters _ instances_kept _ root _ h.1 hdrafted)
      (Act.enterDraft_heeds LoadLaw.kinds_kept h.2 fun _ _ => ⟨trivial, trivial⟩)).mono
        fun result host' hentered => ?_
    obtain ⟨⟨horderly, hlater, hsame, -⟩, hstands, hmoves, -⟩ := hentered
    exact ⟨⟨horderly, hstands⟩, ⟨hlater, hmoves⟩, hsame, trivial⟩
  builds h plan :=
    have ⟨horderly, hlater, hsame⟩ := instances_kept.builds h.1 plan
    have hgrounded := h.1.loads.grounded
    have ⟨hinv, hrel⟩ := Unasked.kinds h horderly hlater (Act.newCompartment_unasked hgrounded plan)
      (Act.newCompartment_posted hgrounded plan)
    ⟨hinv, hrel, hsame⟩
  links {_ root} h hwhole :=
    have ⟨horderly, hlater, hsame⟩ := @Law.Kept.links _ instances_kept _ root h.1 hwhole
    have ⟨hinv, hrel⟩ := Unasked.kinds h horderly hlater (Act.linkClosure_unasked _ _)
      (.of_compartments (Act.linkClosure_compartments _ _))
    ⟨hinv, hrel, hsame⟩

/-- The load that a shallow load waits for, at its stage. -/
def LoadWork.awaits? (work : LoadWork) : Option (Ref .load) :=
  match work.stage with
  | .borrowing _ watch => some watch.job
  | _ => none

namespace Host

variable {host : Host}

theorem default_kinds : LoadLaw.kinds.Stands default where
  inv := trivial
  calls _ _ h := nomatch h
  loads _ _ h := nomatch h
  flight _ _ h := by
    obtain ⟨_, h | h⟩ := h <;> cases h

theorem kinds_of_run (hrun : Run default host) : Law.kinds.Stands host :=
  (Law.Stands.run Law.kinds_kept ⟨⟨Orderly.default_orderly, default_kinds⟩, Law.default_hosted⟩ hrun).1

/-- The load that a load waits for. -/
def awaited? (host : Host) (load : Ref .load) : Option (Ref .load) :=
  match (host.loads.get? load).map Shared.progress with
  | some (.idle work) => work.awaits?
  | some (.driven work) => work.awaits?
  | _ => none

/-- A load waits for another one. -/
def WaitsFor (host : Host) (load other : Ref .load) : Prop :=
  host.awaited? load = some other

instance (load other : Ref .load) : Decidable (host.WaitsFor load other) :=
  inferInstanceAs (Decidable (_ = _))

theorem WaitsFor.borrowing {load other : Ref .load} (h : host.WaitsFor load other) :
    ∃ work target watch, host.InFlight load work ∧ work.stage = .borrowing target watch ∧
      watch.job = other := by
  have hawaits {work : LoadWork} (hwork : work.awaits? = some other) :
      ∃ target watch, work.stage = .borrowing target watch ∧ watch.job = other := by
    unfold LoadWork.awaits? at hwork
    split at hwork
    · rename_i target watch hstage
      exact ⟨target, watch, hstage, Option.some.inj hwork⟩
    · cases hwork
  unfold WaitsFor awaited? at h
  cases hshared : host.loads.get? load with
  | none =>
    rw [hshared] at h
    cases h
  | some shared =>
    obtain ⟨bell, progress⟩ := shared
    rw [hshared] at h
    cases progress with
    | idle work =>
      obtain ⟨target, watch, hstage, hjob⟩ := hawaits h
      exact ⟨work, target, watch, ⟨bell, .inl hshared⟩, hstage, hjob⟩
    | driven work =>
      obtain ⟨target, watch, hstage, hjob⟩ := hawaits h
      exact ⟨work, target, watch, ⟨bell, .inr hshared⟩, hstage, hjob⟩
    | done result => cases h

/-- A load that waits for another one is that of an alias. The other one is about a node that is no alias,
and does not wait for a load itself. -/
theorem WaitsFor.settled (hrun : Run default host) (hfixed : host.Fixed) {load other : Ref .load}
    (h : host.WaitsFor load other) :
    (∃ target, host.Serves target other ∧ host.MayBe target false ∧ ¬ host.MayBe target true) ∧
      ∀ third, ¬ host.WaitsFor other third := by
  have hstands := (kinds_of_run hrun).inv
  have hwaits {load other : Ref .load} (h : host.WaitsFor load other) :
      ∃ work target, host.InFlight load work ∧ LoadLaw.kinds.Kind host work.node true ∧
        host.Serves target other ∧ LoadLaw.kinds.Lends host target other ∧
          LoadLaw.kinds.Kind host target false := by
    obtain ⟨work, target, watch, hflight, hstage, rfl⟩ := h.borrowing
    have hwaits := hstands.2.flight load work hflight
    obtain ⟨-, -, hvalid⟩ := hstands.1.loads.flight load work hflight
    rw [hstage] at hwaits hvalid
    exact ⟨work, target, hflight, hwaits.2.2.1, hvalid.2, hwaits.1, hwaits.2.2.2⟩
  have hkind {node : Node} {isAlias : Bool} (h : LoadLaw.kinds.Kind host node isAlias) :
      host.MayBe node isAlias := by
    obtain ⟨descriptor, htells, rfl⟩ := h
    exact htells
  obtain ⟨-, target, -, -, hserves, hlends, hplain⟩ := hwaits h
  refine ⟨⟨target, hserves, hkind hplain, fun halias => hfixed target ⟨halias, hkind hplain⟩⟩,
    fun third hthird => ?_⟩
  obtain ⟨work, -, hflight, halias, -⟩ := hwaits hthird
  have hnode : work.node = target := by
    obtain ⟨bell, hflight⟩ := hflight
    obtain ⟨shared, hshared, hlends⟩ := hlends
    rcases hflight with hflight | hflight <;>
      · cases hshared.symm.trans hflight
        exact hlends
  rw [hnode] at halias
  exact hfixed target ⟨hkind halias, hkind hplain⟩

/-- No chain of waiting loads is longer than one. -/
theorem not_waitsFor_self (hrun : Run default host) (hfixed : host.Fixed) (load : Ref .load) :
    ¬ Relation.TransGen host.WaitsFor load load := by
  intro hcircle
  obtain ⟨other, hfirst, hrest⟩ := Relation.TransGen.head'_iff.1 hcircle
  have hlast := (WaitsFor.settled hrun hfixed hfirst).2
  rcases Relation.ReflTransGen.cases_head hrest with rfl | ⟨third, hthird, -⟩
  · exact hlast _ hfirst
  · exact hlast third hthird

/-- Chains of aliases are followed to their ends. From the descriptor of an alias on, both loops answer with
the first node of the chain that is memoized or no alias, and refuse the chain if it comes back to a node
that it passed, unless a lookup on the way fails or a load hook keeps the load waiting. So a load only waits
for that of a node that is no alias, and no loads wait for each other in a circle. -/
theorem aliases_settle :
    (∀ (host : Host) (origin : Node) (descriptor : Descriptor), descriptor.isAlias →
      (∃ failure, host.pointsTo origin descriptor = .error failure ∧
        Act.interpret origin descriptor host = (.error failure, host)) ∨
      ∃ target, host.pointsTo origin descriptor = .ok (some target) ∧
        (Act.interpret origin descriptor host = (.ok (.elsewhere target), host) ∨
          target = origin ∧
            Act.interpret origin descriptor host = (.error (.aliasCycle origin.key), host)) ∧
        (∀ fuel, host.nodesAtHand.length + 2 ≤ fuel → ∃ answer host',
          Act.followAtOnce fuel [origin] target host = (answer, host') ∧
            ChainPoint.Comes .atOnce ⟨[origin], target, host⟩ answer host' ∧
              ChainPoint.Decides .atOnce ⟨[origin], target, host⟩ answer) ∧
        ∀ (look : LoadWork.Look) (work : LoadWork) (waker : Waker) (fuel : Nat),
          LoadWork.patience host ≤ fuel →
            ((∃ last call host', ChainPoint.Passes (.promptly waker) ⟨[origin], target, host⟩ last ∧
                Act.describe last.node waker last.host = (.pending call, host') ∧
                  work.follow look waker fuel [origin] target host =
                    (.pending { work with
                      stage := .following (last.node :: last.passed) last.node call }, host')) ∨
              ∃ answer middle, work.follow look waker fuel [origin] target host =
                  work.atEnd look waker answer middle ∧
                ChainPoint.Comes (.promptly waker) ⟨[origin], target, host⟩ answer middle ∧
                  ChainPoint.Decides (.promptly waker) ⟨[origin], target, host⟩ answer) ∧
            ∀ fuel', host.nodesAtHand.length + 2 ≤ fuel' →
              (∀ point, ChainPoint.Passes .atOnce ⟨[origin], target, host⟩ point →
                point.host.Unhooked point.node) →
                  work.follow look waker fuel [origin] target host =
                    (do work.atEnd look waker (← Act.followAtOnce fuel' [origin] target)) host) ∧
    ∀ host, Run default host → host.Fixed →
      (∀ load other, host.WaitsFor load other → ∃ target, host.Serves target other ∧
        host.MayBe target false ∧ ¬ host.MayBe target true) ∧
      ∀ load, ¬ Relation.TransGen host.WaitsFor load load := by
  refine ⟨fun host origin descriptor halias => ?_, fun host hrun hfixed =>
    ⟨fun load other hwaits => (WaitsFor.settled hrun hfixed hwaits).1, not_waitsFor_self hrun hfixed⟩⟩
  rcases Act.interpret_isAlias host origin halias with hlost | ⟨target, hpoints, hinterpret⟩
  · exact .inl hlost
  refine .inr ⟨target, hpoints, hinterpret, fun fuel hfuel => ?_, fun look work waker fuel hfuel => ⟨?_, ?_⟩⟩
  · have hcomes := Act.followAtOnce_decides host origin target hfuel
    exact ⟨_, _, rfl, hcomes, hcomes.decides Lookup.atOnce_functional⟩
  · have hfollows := LoadWork.follow_decides host origin target hfuel look work waker
    unfold After at hfollows
    generalize work.follow look waker fuel [origin] target host = outcome at hfollows
    obtain ⟨result, host'⟩ := outcome
    cases hfollows with
    | waits hpasses _ _ hcall => exact .inl ⟨_, _, _, hpasses, hcall, rfl⟩
    | comes hcomes hend =>
      exact .inr ⟨_, _, hend.symm, hcomes, hcomes.decides (Lookup.promptly_functional waker)⟩
  · exact fun fuel' hfuel' hunhooked => LoadWork.follow_atOnce hfuel hfuel' hunhooked look work waker

end Host

/-- A module that is had at once when its load hook is first asked, and that is behind a gate from then on,
an alias that leads to it past another one, and two aliases that lead to each other. -/
def aliasesAtHome : Host :=
  let plain := ChainKind.moduleOf [] none
  (Act.newCompartment
    { CompartmentPlan.simple "home" [("a", .redirect "b" none), ("b", .redirect "m" none),
        ("x", .redirect "y" none), ("y", .redirect "x" none)] with
      loadHook := some (.ofList [("m", [⟨none, 0, .absent⟩, ⟨some "gate", 0, .describe plain⟩])])
      nowHook := some (.ofList [("m", plain)]) } default).2

/-- The load of the first alias had its first turn. -/
def aliasWaiting : Host :=
  (Act.pollTask ⟨0⟩ (Act.startLoad "load" ⟨⟨0⟩, "a"⟩ aliasesAtHome).2).2

/-- The key at which a chain was refused. -/
def ChainPoint.refusedAt? : Except Failure Node → Option String
  | .error (.aliasCycle key) => some key
  | _ => none

namespace Host

theorem aliasWaiting_run : Run default aliasWaiting :=
  .tail (.tail (.single (.build _)) (.startLoad "load" ⟨⟨0⟩, "a"⟩ (by decide +kernel))) (.turn ⟨0⟩)

/-- The load of the alias waits for that of the module, and for no load that waits for it. The aliases that
lead to each other are refused. -/
theorem aliasWaiting_settles : aliasWaiting.Fixed ∧ aliasWaiting.WaitsFor ⟨0⟩ ⟨1⟩ ∧
    ¬ Relation.TransGen aliasWaiting.WaitsFor ⟨0⟩ ⟨0⟩ ∧
      (∃ target, aliasWaiting.Serves target ⟨1⟩ ∧ ¬ aliasWaiting.MayBe target true) ∧
        ChainPoint.Decides .atOnce ⟨[⟨⟨0⟩, "x"⟩], ⟨⟨0⟩, "y"⟩, aliasWaiting⟩
          (.error (.aliasCycle "x")) := by
  have hfixed : aliasWaiting.Fixed := fixed_of_offers (by decide +kernel)
  have hwaits : aliasWaiting.WaitsFor ⟨0⟩ ⟨1⟩ := by decide +kernel
  have hanswer : ChainPoint.refusedAt?
      (Act.followAtOnce 32 [⟨⟨0⟩, "x"⟩] ⟨⟨0⟩, "y"⟩ aliasWaiting).1 = some "x" := by decide +kernel
  have hfuel : aliasWaiting.nodesAtHand.length + 2 ≤ 32 := by decide +kernel
  have hrun := aliasWaiting_run
  generalize aliasWaiting = host at *
  obtain ⟨hchains, hloads⟩ := aliases_settle
  obtain ⟨hsettled, hcircle⟩ := hloads host hrun hfixed
  obtain ⟨target, hserves, -, hplain⟩ := hsettled ⟨0⟩ ⟨1⟩ hwaits
  refine ⟨hfixed, hwaits, hcircle ⟨0⟩, ⟨target, hserves, hplain⟩, ?_⟩
  obtain ⟨failure, hlost, -⟩ | ⟨target, hpoints, -, hatOnce, -⟩ :=
    hchains host ⟨⟨0⟩, "x"⟩ (.instanceAlias "y" none) rfl
  · cases hlost
  · cases hpoints
    obtain ⟨answer, host', hfollow, -, hdecides⟩ := hatOnce 32 hfuel
    change Act.followAtOnce 32 _ ⟨⟨0⟩, "y"⟩ host = _ at hfollow
    rw [hfollow] at hanswer
    obtain rfl : answer = .error (.aliasCycle "x") := by
      unfold ChainPoint.refusedAt? at hanswer
      split at hanswer
      · rename_i hrefused
        cases hanswer
        exact hrefused
      · cases hanswer
    exact hdecides

end Host

end ModuleLoader
