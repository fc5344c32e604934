import ModuleLoader.Proofs.Answers
import ModuleLoader.Proofs.Closures
/-!
Shallow loads end as was foretold: with an entry for the module that the aliases of the node lead to, or
with a failure if something that can be reached from the node is not loadable.
-/

namespace ModuleLoader
set_option autoImplicit false

variable {start : Host} {region : Node → Prop} {host : Host}

theorem Compartment.resolveAll_congr {compartment other : Compartment}
    (h : compartment.resolver = other.resolver) (referrer : String) :
    ∀ specifiers : List String,
      compartment.resolveAll referrer specifiers = other.resolveAll referrer specifiers
  | [] => rfl
  | specifier :: rest => by
    have hresolve : compartment.resolve specifier referrer = other.resolve specifier referrer := by
      unfold resolve
      rw [h]
    unfold resolveAll
    rw [hresolve, resolveAll_congr h referrer rest]

namespace Host

/-- The chain of aliases of a node with a fitting entry ends. -/
theorem EntryFits.not_circles {node : Node} {entry : Entry} (h : start.EntryFits host node entry) :
    ¬ start.Circles node := by
  obtain ⟨record, -, haliases, hmodule, -⟩ := h
  refine not_circles_of_aliases haliases fun target hpoints => ?_
  unfold Points at hpoints
  rw [hmodule] at hpoints
  cases hpoints

/-- The closure of a fitting entry continues where the closure of its node does. -/
theorem EntryFits.covers {node : Node} {entry : Entry} (h : start.EntryFits host node entry) :
    start.ContinuesAt node (host.continuations node.compartment entry) := by
  refine ⟨h.not_circles, ?_⟩
  obtain ⟨record, hrecord, haliases, hmodule, hentry⟩ := h
  refine ⟨⟨record.home, record.key⟩, ?_⟩
  cases entry with
  | own ref =>
    refine .inl ⟨haliases, ?_⟩
    have hfound : host.record ref = record := congrArg (Option.getD · default) hrecord
    have hhome : record.home = node.compartment := hentry
    unfold continuations
    dsimp only
    rw [hfound, ← hhome]
    exact hmodule
  | borrowed owner key ref =>
    obtain ⟨rfl, rfl, hpasses⟩ := hentry
    exact .inr ⟨hpasses, rfl⟩

/-- The entry that an alias takes from the node it leads to fits the alias. -/
theorem EntryFits.adopted {node target : Node} {entry : Entry}
    (h : start.EntryFits host target entry) (hpasses : start.Passes node target) :
    start.EntryFits host node (if target.compartment = node.compartment then entry
      else host.abroad target.compartment entry) := by
  obtain ⟨record, hrecord, haliases, hmodule, hentry⟩ := h
  have hpasses' : start.Passes node ⟨record.home, record.key⟩ :=
    Relation.TransGen.trans_left hpasses haliases
  cases entry with
  | own ref =>
    have hhome : record.home = target.compartment := hentry
    have hfound : host.record ref = record := congrArg (Option.getD · default) hrecord
    split
    · rename_i hsame
      exact ⟨record, hrecord, hpasses'.to_reflTransGen, hmodule, hhome.trans hsame⟩
    · refine ⟨record, hrecord, hpasses'.to_reflTransGen, hmodule, hhome.symm, ?_, hpasses'⟩
      rw [hfound]
  | borrowed owner key ref =>
    obtain ⟨howner, hkey, -⟩ := hentry
    have hfits : start.EntryFits host node (.borrowed owner key ref) :=
      ⟨record, hrecord, hpasses'.to_reflTransGen, hmodule, howner, hkey, hpasses'⟩
    split
    · exact hfits
    · exact hfits

theorem Foretold.delivered (h : Foretold start region host) {node : Node} (hnode : region node)
    {delivery : Delivery} (hdelivered : host.delivered? node = some delivery) :
    start.DeliveryFits host node delivery := by
  obtain ⟨entry, hentry, rfl⟩ := Option.map_eq_some_iff.1 hdelivered
  have hfits := h.memo node entry hnode hentry
  exact ⟨hfits, hfits.covers⟩

end Host

namespace Act

/-- What the interpretation of a descriptor of a node comes to. -/
def Interprets (start : Host) (region : Node → Prop) (node : Node)
    (result : Except Failure Interpreted) (host' : Host) : Prop :=
  match result with
  | .error _ => region node → start.Doomed node
  | .ok (.entry entry) => region node → start.EntryFits host' node entry
  | .ok (.elsewhere target) => region node → start.Points node target

/-- A record more for a node that was foretold to be a module. -/
theorem newRecord_abides (h : Host.Foretold start region host) (store : Store) {node : Node}
    {record : Record} (hhome : record.home = node.compartment) (hkey : record.key = node.key)
    (hmodule : region node →
      start.prospect node = .module (record.requestKeys.map (Node.mk node.compartment))) :
    After { host with store } (newRecord record) fun ref host' =>
      Host.Foretold start region host' ∧ Host.Upholds start region host host' ∧
        (region node → start.EntryFits host' node (.own ref)) := by
  refine ⟨h.alike _ rfl rfl rfl rfl (.push _ _), .alike _ rfl rfl rfl (.push _ _), fun hnode =>
    ⟨record, ?_, ?_, ?_, hhome⟩⟩
  · change (host.records.push record).get? _ = _
    rw [Arena.get?_push]
    exact if_pos rfl
  · rw [hhome, hkey]
    exact .refl
  · rw [hhome, hkey]
    exact hmodule hnode

theorem newModule_abides (h : Host.Foretold start region host) {node : Node} {source : Source}
    (hsource : region node → start.prospect node = start.prospectOfBindings node source.bindings) :
    (newModule node source).Abides start region host (Interprets start region node) := by
  have hresolver := h.part node.compartment Compartment.resolver fun _ => rfl
  unfold Host.prospectOfBindings at hsource
  unfold newModule
  refine .getBind ?_
  dsimp only
  rw [Compartment.resolveAll_congr hresolver]
  cases hall : (start.compartment node.compartment).resolveAll node.key
      (Binding.specifiers source.bindings) with
  | error failure =>
    rw [hall] at hsource
    exact .pure h fun hnode => .of_missing (hsource hnode)
  | ok requests =>
    rw [hall] at hsource
    dsimp only at hsource ⊢
    refine newRecord_abides h _ rfl rfl fun hnode => ?_
    rw [hsource hnode]
    unfold Record.requestKeys
    rw [List.map_map]
    rfl

theorem newExposure_abides (h : Host.Foretold start region host) (store : Store) {node : Node}
    (hmodule : region node → start.prospect node = .module [])
    (space : Ref .exports) :
    After { host with store } (newExposure node space) fun result host' =>
      Host.Foretold start region host' ∧ Host.Upholds start region host host' ∧
        Interprets start region node (.ok result) host' :=
  newRecord_abides h store rfl rfl hmodule

theorem interpret_abides (h : Host.Foretold start region host) (hsettled : start.Settled region)
    {node : Node} {descriptor : Descriptor}
    (hdescriptor : region node → start.prospectOf node descriptor = start.prospect node) :
    (interpret node descriptor).Abides start region host (Interprets start region node) := by
  unfold interpret
  split
  · exact newModule_abides h fun hnode => (hdescriptor hnode).symm
  · exact newModule_abides h fun hnode => (hdescriptor hnode).symm
  · exact newExposure_abides h host.store (fun hnode => (hdescriptor hnode).symm) _
  · exact newExposure_abides h _ (fun hnode => (hdescriptor hnode).symm) _
  · rename_i value hexports hobject
    refine .pure h fun hnode => .of_missing ?_
    rw [← hdescriptor hnode]
    cases value <;> first | rfl | exact absurd rfl (hexports _) | exact absurd rfl (hobject _)
  · exact .pure h fun hnode => (hdescriptor hnode).symm
  · rename_i key
    split
    · rename_i hkey
      subst hkey
      refine .pure h fun hnode => .of_circles (Host.Passes.circles (.single ?_))
      exact (hdescriptor hnode).symm
    · exact .pure h fun hnode => (hdescriptor hnode).symm
  · have hnot (hnode : region node) : False := hsettled.settled node hnode (hdescriptor hnode).symm
    refine .getBind ?_
    split
    · exact .pure h fun hnode => (hnot hnode).elim
    · exact .pure h fun hnode => (hnot hnode).elim

/-- What a party gets that asks for the shallow load of a node. -/
def Offers (start : Host) (region : Node → Prop) (node : Node) (result : Loaded) (host' : Host) :
    Prop :=
  match result with
  | .already delivery => region node → start.DeliveryFits host' node delivery
  | .shared load => region node → start.LoadFits host' node load

end Act

namespace Host

theorem Foretold.pushLoad (h : Foretold start region host) (node : Node) (bell : Ref .bell) :
    let host' := { host with loads := host.loads.push ⟨bell, .idle ⟨node, .fresh⟩⟩ }
    Foretold start region host' ∧ Upholds start region host host' ∧
      start.LoadFits host' node host.loads.next := by
  intro host'
  have hnext : host'.loads.get? host.loads.next = some ⟨bell, .idle ⟨node, .fresh⟩⟩ := by
    change (host.loads.push _).get? _ = _
    rw [Arena.get?_push, if_pos rfl]
  have hextends : host.loads.Extends host'.loads := .push _ _
  have hupholds : Upholds start region host host' :=
    ⟨rfl, .refl _, fun _ _ _ h => h, fun _ load _ h => h.mono (by exact .refl _) (hextends load),
      fun load _ _ => hextends load _⟩
  refine ⟨⟨h.same, h.size, h.labels, h.known, h.memo,
    fun node load hnode hkept => hupholds.loadFits node load hnode (h.kept node load hnode hkept),
    h.called, h.asks, fun load work hflight => ?_⟩, hupholds, ?_⟩
  · obtain ⟨bell', hflight⟩ := hflight
    by_cases hsame : load = host.loads.next
    · subst hsame
      rw [hnext] at hflight
      rcases hflight with hflight | hflight
      · cases hflight
        trivial
      · cases hflight
    · change (host.loads.push _).get? load = _ ∨ (host.loads.push _).get? load = _ at hflight
      rw [Arena.get?_push, if_neg hsame] at hflight
      exact hupholds.stageFits (h.flight load work ⟨bell', hflight⟩)
  · unfold LoadFits
    rw [hnext]
    rfl

end Host

namespace Act

theorem loadOf_abides (h : Host.Foretold start region host) (node : Node) :
    (loadOf node).Abides start region host (Offers start region node) := by
  unfold loadOf
  refine .getBind ?_
  split
  · rename_i delivery hdelivered
    exact .pure h fun hnode => h.delivered hnode hdelivered
  · split
    · rename_i load hload
      exact .pure h fun hnode => h.kept node load hnode hload
    · have hbell : newBell.Abides start region host fun _ _ => True := .aside h newBell_aside trivial
      refine Abides.bind hbell
        fun bell belled hbelled _ _ => .getBind ?_
      have hpush : (modify fun host => { host with
          loads := host.loads.push ⟨bell, .idle ⟨node, .fresh⟩⟩ } : Act Unit).Abides start region belled
            fun _ host' => start.LoadFits host' node belled.loads.next := hbelled.pushLoad node bell
      refine Abides.bind hpush fun _ pushed hpushed _ hloads => ?_
      have hkeep : (changeCompartment node.compartment fun compartment => { compartment with
          loading := compartment.loading.insert node.key belled.loads.next }).Abides start region pushed
            fun _ host' => region node → start.LoadFits host' node belled.loads.next := by
        obtain ⟨hfits, hupholds⟩ := hpushed.modifyLoads node.compartment
          (fun loading => loading.insert node.key belled.loads.next) fun key load hregion hload => by
            rw [Table.get?_insert] at hload
            split at hload
            · rename_i hkey
              cases hload
              exact hkey ▸ hloads
            · exact hpushed.kept ⟨node.compartment, key⟩ load hregion hload
        exact ⟨hfits, hupholds, fun hnode => hupholds.loadFits node _ hnode hloads⟩
      exact Abides.bind hkeep fun _ kept hkept _ hloads => .pure hkept hloads

end Act

namespace Host

/-- The aliases that were passed, each once, are among the nodes that compartments were told about. -/
theorem Trail.length_le {node next : Node} {passed : List Node}
    (h : start.Trail node passed next) : passed.length ≤ start.mentioned.length := by
  refine (List.subperm_of_subset h.nodup fun other hmem => ?_).length_le
  obtain ⟨target, hpoints, -⟩ := Relation.TransGen.head'_iff.1 (h.each other hmem).2
  exact hpoints.mentioned

theorem Trail.next {node other next : Node} {passed : List Node}
    (h : start.Trail node passed other) (hnew : other ∉ passed) (hpoints : start.Points other next) :
    start.Trail node (other :: passed) next where
  nodup := List.nodup_cons.2 ⟨hnew, h.nodup⟩
  first := List.mem_cons_of_mem _ h.first
  each found hmem := by
    rcases List.mem_cons.1 hmem with rfl | hmem
    · exact ⟨(h.each node h.first).2.to_reflTransGen, .single hpoints⟩
    · obtain ⟨haliases, hpasses⟩ := h.each found hmem
      exact ⟨haliases, hpasses.tail hpoints⟩

/-- The aliases from a node on, after the first one. -/
theorem Trail.of_points {node target : Node} (hpoints : start.Points node target) :
    start.Trail node [node] target where
  nodup := List.nodup_cons.2 ⟨List.not_mem_nil, List.nodup_nil⟩
  first := List.mem_cons_self
  each other hmem := by
    obtain rfl := List.mem_singleton.1 hmem
    exact ⟨.refl, .single hpoints⟩

theorem points_of_pointsTo {node target : Node} {descriptor : Descriptor}
    (hdescriptor : start.prospectOf node descriptor = start.prospect node)
    (hsettled : start.prospect node ≠ .unsettled)
    (h : host.pointsTo node descriptor = .ok (some target)) : start.Points node target := by
  unfold Points
  rw [← hdescriptor] at hsettled ⊢
  cases descriptor with
  | instanceAlias key owner =>
    cases h
    rfl
  | recordAlias key => exact absurd rfl hsettled
  | compiled source => cases h
  | «virtual» source => cases h
  | exportsAlias value => cases h

theorem prospectOf_of_pointsTo_error {node : Node} {descriptor : Descriptor} {failure : Failure}
    (h : host.pointsTo node descriptor = .error failure) :
    start.prospectOf node descriptor = .unsettled := by
  cases descriptor with
  | recordAlias key => rfl
  | instanceAlias key owner => cases h
  | compiled source => cases h
  | «virtual» source => cases h
  | exportsAlias value => cases h

/-- The patience of a load lasts along any chain of aliases. -/
theorem Foretold.length_mentioned (h : Foretold start region host) :
    start.mentioned.length ≤ host.knownKeys := by
  have hsame : host.mentioned = start.mentioned := by
    unfold mentioned
    refine congrArg _ (List.ext_getElem? fun index => ?_)
    have hmentions := h.part ⟨index⟩ Compartment.mentions fun _ => rfl
    rw [List.getElem?_map, List.getElem?_map, Array.getElem?_toList, Array.getElem?_toList]
    change (host.compartments.get? ⟨index⟩).map _ = (start.compartments.get? ⟨index⟩).map _
    have hsize : (host.compartments.get? ⟨index⟩).isSome = (start.compartments.get? ⟨index⟩).isSome := by
      have hbuilt (arena : Arena .compartment Compartment) :
          (arena.get? ⟨index⟩).isSome ↔ index < arena.size := by
        simp [Arena.get?, Arena.size]
      rw [Bool.eq_iff_iff, hbuilt, hbuilt, h.size]
    unfold compartment at hmentions
    cases hhost : host.compartments.get? ⟨index⟩ with
    | none =>
      cases hstart : start.compartments.get? ⟨index⟩ with
      | none => rfl
      | some other =>
        rw [hhost, hstart] at hsize
        cases hsize
    | some found =>
      cases hstart : start.compartments.get? ⟨index⟩ with
      | none =>
        rw [hhost, hstart] at hsize
        cases hsize
      | some other =>
        rw [hhost, hstart] at hmentions
        exact congrArg some hmentions
  rw [← hsame]
  exact Host.length_mentioned host

end Host

namespace LoadWork

/-- What a step of a shallow load comes to. -/
def StepFits (start : Host) (region : Node → Prop) (work : LoadWork)
    (result : Poll LoadWork (Except Failure Delivery)) (host' : Host) : Prop :=
  match result with
  | .pending next => next.node = work.node ∧ start.StageFits region host' work.node next.stage
  | .ready outcome => region work.node → start.OutcomeFits host' work.node outcome

/-- A look at a shallow load finds what was foretold of every node that the load is about. -/
def Look.Fits (start : Host) (region : Node → Prop) (look : Look) : Prop :=
  ∀ (host : Host) (watch : Watch .load) (waker : Waker), Host.Foretold start region host →
    (look watch waker).Abides start region host fun result host' => match result with
      | .pending next => next.job = watch.job
      | .ready outcome => ∀ node, region node → start.LoadFits host node watch.job →
          start.OutcomeFits host' node outcome

variable {look : Look} {work : LoadWork} {waker : Waker}

/-- An alias takes the entry of the node it leads to. -/
theorem adopt_abides (h : Host.Foretold start region host) (hsettled : start.Settled region)
    {target : Node} (htarget : region work.node → start.Passes work.node target)
    {loaded : Except Failure Delivery} (hloaded : region target → start.OutcomeFits host target loaded) :
    (do return Poll.ready (← work.adopt target loaded) : Act _).Abides start region host
      (StepFits start region work) := by
  cases loaded with
  | error failure =>
    refine Act.Abides.pure h fun hnode => ?_
    have hpasses := htarget hnode
    exact .of_aliases hpasses.to_reflTransGen (hloaded (hpasses.inside hsettled hnode))
  | ok delivery =>
    refine ⟨h.alike _ rfl rfl rfl rfl (.refl _), .alike _ rfl rfl rfl (.refl _), fun hnode => ?_⟩
    have hpasses := htarget hnode
    have hdelivery : start.DeliveryFits host target delivery :=
      hloaded (hpasses.inside hsettled hnode)
    have hfits := hdelivery.entry.adopted hpasses
    refine ⟨hfits.mono (.refl _), hfits.not_circles, target, .inr ⟨hpasses, rfl⟩⟩

theorem awaitLoad_abides (hlook : Look.Fits start region look) (h : Host.Foretold start region host)
    (hsettled : start.Settled region) {target : Node}
    (htarget : region work.node → start.Passes work.node target) {watch : Watch .load}
    (hwatch : region target → start.LoadFits host target watch.job) :
    (work.awaitLoad look target watch waker).Abides start region host (StepFits start region work) := by
  unfold awaitLoad
  refine Act.Abides.bind (hlook host watch waker h) fun result looked hlooked hupholds hresult => ?_
  cases result with
  | pending next =>
    have hnext : next.job = watch.job := hresult
    refine .pure hlooked ⟨rfl, fun hregion => ?_, htarget⟩
    rw [hnext]
    exact hupholds.loadFits target _ hregion (hwatch hregion)
  | ready loaded =>
    exact adopt_abides hlooked hsettled htarget fun hregion => hresult target hregion (hwatch hregion)

theorem borrow_abides (hlook : Look.Fits start region look) (h : Host.Foretold start region host)
    (hsettled : start.Settled region) {target : Node}
    (htarget : region work.node → start.Passes work.node target) :
    (work.borrow look target waker).Abides start region host (StepFits start region work) := by
  unfold borrow
  refine Act.Abides.bind (Act.loadOf_abides h target)
    fun result after hafter hupholds hoffers => ?_
  cases result with
  | already delivery => exact adopt_abides hafter hsettled htarget hoffers
  | shared load => exact awaitLoad_abides hlook hafter hsettled htarget hoffers

/-- Both ways of going on along a chain of aliases, by induction on the patience left. It lasts, for no
alias is passed twice and only nodes that compartments were told about are aliases. -/
theorem follow_arrive_abides (hlook : Look.Fits start region look) (hsettled : start.Settled region) :
    ∀ fuel : Nat,
      (∀ (host : Host) (passed : List Node) (node : Node), Host.Foretold start region host →
        (region work.node → start.Trail work.node passed node ∧
          2 * (start.mentioned.length + 1 - passed.length) + 2 ≤ fuel) →
          (work.follow look waker fuel passed node).Abides start region host
            (StepFits start region work)) ∧
      (∀ (host : Host) (visited : List Node) (node : Node) (described : Except Failure Descriptor),
        Host.Foretold start region host → (region node → start.DescriptorFits node described) →
          (region work.node → ∃ passed, visited = node :: passed ∧ node ∉ passed ∧
            start.Trail work.node passed node ∧
              2 * (start.mentioned.length - passed.length) + 3 ≤ fuel) →
            (work.arrive look waker fuel visited node described).Abides start region host
              (StepFits start region work)) := by
  intro fuel
  induction fuel with
  | zero =>
    refine ⟨fun host passed node h hpassed => ?_, fun host visited node described h _ hvisited => ?_⟩
    · unfold follow
      refine .pure h fun hnode => ?_
      have hfuel := (hpassed hnode).2
      omega
    · unfold arrive
      refine .pure h fun hnode => ?_
      obtain ⟨_, _, _, _, hfuel⟩ := hvisited hnode
      omega
  | succ fuel ih =>
    refine ⟨fun host passed node h hpassed => ?_,
      fun host visited node described h hdescribed hvisited => ?_⟩
    · have htarget (hnode : region work.node) : start.Passes work.node node := by
        obtain ⟨htrail, -⟩ := hpassed hnode
        exact (htrail.each work.node htrail.first).2
      unfold follow
      split
      · rename_i hcontains
        -- A node that was passed already closes a circle, and so the chain has no end.
        refine .pure h fun hnode => .of_aliases (htarget hnode).to_reflTransGen (.of_circles ?_)
        exact ((hpassed hnode).1.each node (List.contains_iff_mem.1 hcontains)).2.circles
      · rename_i hnew
        have hnew : node ∉ passed := fun hmem => hnew (List.contains_iff_mem.2 hmem)
        refine .getBind ?_
        split
        · exact borrow_abides hlook h hsettled htarget
        · refine Act.Abides.bind (Act.describe_abides h hsettled node waker)
            fun result after hafter _ hresult => ?_
          cases result with
          | pending call =>
            exact .pure hafter ⟨rfl, hresult, fun hnode => ⟨passed, rfl, hnew, (hpassed hnode).1⟩⟩
          | ready described =>
            refine ih.2 after (node :: passed) node described hafter hresult fun hnode => ?_
            obtain ⟨htrail, hfuel⟩ := hpassed hnode
            have hlength := htrail.length_le
            exact ⟨passed, rfl, hnew, htrail, by omega⟩
    · have htarget (hnode : region work.node) : start.Passes work.node node := by
        obtain ⟨_, _, _, htrail, _⟩ := hvisited hnode
        exact (htrail.each work.node htrail.first).2
      have hnode' (hnode : region work.node) : region node := (htarget hnode).inside hsettled hnode
      unfold arrive
      cases described with
      | error failure =>
        refine .pure h fun hnode => .of_aliases (htarget hnode).to_reflTransGen (.of_missing ?_)
        exact hdescribed (hnode' hnode)
      | ok descriptor =>
        have hsettled' (hnode : region work.node) : start.prospect node ≠ .unsettled :=
          hsettled.settled node (hnode' hnode)
        refine .getBind ?_
        split
        · rename_i failure hpoints
          refine .pure h fun hnode => (hsettled' hnode ?_).elim
          have hdescriptor : _ = start.prospect node := hdescribed (hnode' hnode)
          rw [← hdescriptor]
          exact Host.prospectOf_of_pointsTo_error hpoints
        · rename_i next hpoints
          refine ih.1 host visited next h fun hnode => ?_
          obtain ⟨passed, rfl, hnew, htrail, hfuel⟩ := hvisited hnode
          have hpoints := Host.points_of_pointsTo (hdescribed (hnode' hnode)) (hsettled' hnode) hpoints
          refine ⟨htrail.next hnew hpoints, ?_⟩
          rw [List.length_cons]
          omega
        · exact borrow_abides hlook h hsettled htarget

theorem interpret_abides (hlook : Look.Fits start region look) (h : Host.Foretold start region host)
    (hsettled : start.Settled region) {described : Except Failure Descriptor}
    (hdescribed : region work.node → start.DescriptorFits work.node described) :
    (work.interpret look waker described).Abides start region host (StepFits start region work) := by
  unfold interpret
  cases described with
  | error failure => exact .pure h fun hnode => .of_missing (hdescribed hnode)
  | ok descriptor =>
    refine Act.Abides.bind (Act.interpret_abides h hsettled hdescribed)
      fun result after hafter _ hresult => ?_
    match result, hresult with
    | .error failure, hdoomed => exact .pure hafter hdoomed
    | .ok (.entry entry), hentry =>
      refine .getBind (.pure hafter fun hnode => ?_)
      exact ⟨hentry hnode, (hentry hnode).covers⟩
    | .ok (.elsewhere target), hpoints =>
      refine .getBind ((follow_arrive_abides hlook hsettled _).1 after [work.node] target hafter
        fun hnode => ⟨.of_points (hpoints hnode), ?_⟩)
      have hlength := hafter.length_mentioned
      unfold patience
      simp only [List.length_cons, List.length_nil]
      omega

theorem proceed_abides (hlook : Look.Fits start region look) (h : Host.Foretold start region host)
    (hsettled : start.Settled region)
    (hstage : start.StageFits region host work.node work.stage) :
    (work.proceed look waker).Abides start region host (StepFits start region work) := by
  unfold proceed
  split
  · refine .getBind ?_
    split
    · rename_i delivery hdelivered
      exact .pure h fun hnode => h.delivered hnode hdelivered
    · refine Act.Abides.bind (Act.describe_abides h hsettled work.node waker)
        fun result after hafter _ hresult => ?_
      cases result with
      | pending call => exact .pure hafter ⟨rfl, hresult⟩
      | ready described => exact interpret_abides hlook hafter hsettled hresult
  · rename_i call hcase
    rw [hcase] at hstage
    refine Act.Abides.bind (Act.awaitCall_abides h hsettled hstage waker)
      fun result after hafter _ hresult => ?_
    cases result with
    | pending call => exact .pure hafter ⟨rfl, hresult⟩
    | ready described => exact interpret_abides hlook hafter hsettled hresult
  · rename_i visited node call hcase
    rw [hcase] at hstage
    obtain ⟨hcall, hvisited⟩ := hstage
    refine Act.Abides.bind (Act.awaitCall_abides h hsettled hcall waker)
      fun result after hafter _ hresult => ?_
    cases result with
    | pending call => exact .pure hafter ⟨rfl, hresult, hvisited⟩
    | ready described =>
      refine .getBind ((follow_arrive_abides hlook hsettled _).2 after visited node described hafter
        hresult fun hnode => ?_)
      obtain ⟨passed, hcons, hnew, htrail⟩ := hvisited hnode
      have hlength := hafter.length_mentioned
      refine ⟨passed, hcons, hnew, htrail, ?_⟩
      unfold patience
      omega
  · rename_i target watch hcase
    rw [hcase] at hstage
    exact awaitLoad_abides hlook h hsettled hstage.2 hstage.1

end LoadWork

namespace Host

variable {load : Ref .load} {work : LoadWork} {bell : Ref .bell}
  {progress : Progress LoadWork (Except Failure Delivery)}

/-- A load in flight is about one node. -/
theorem LoadFits.node_eq {node : Node} (h : start.LoadFits host node load)
    (hflight : host.InFlight load work) : work.node = node := by
  obtain ⟨bell, hflight⟩ := hflight
  unfold LoadFits at h
  rcases hflight with hflight | hflight <;>
    · rw [hflight] at h
      exact h

/-- What a load may become. -/
def MayLand (start : Host) (region : Node → Prop) (host : Host) (work : LoadWork) :
    Progress LoadWork (Except Failure Delivery) → Prop
  | .idle next => next.node = work.node ∧ start.StageFits region host work.node next.stage
  | .driven next => next.node = work.node ∧ start.StageFits region host work.node next.stage
  | .done outcome => region work.node → start.OutcomeFits host work.node outcome

theorem loadFits_put (hflight : host.InFlight load work)
    (hnext : start.MayLand region host work progress) {node : Node} {other : Ref .load}
    (hnode : region node) (h : start.LoadFits host node other) :
    start.LoadFits (Shelf.loads.put host load ⟨bell, progress⟩) node other := by
  by_cases hsame : load = other
  · subst hsame
    obtain rfl := h.node_eq hflight
    unfold LoadFits
    rw [get?_put hflight, if_pos rfl]
    cases progress with
    | idle next => exact hnext.1
    | driven next => exact hnext.1
    | done outcome => exact (hnext hnode).mono (by exact .refl _)
  · refine h.mono (by exact .refl _) fun shared hload => ?_
    rw [get?_put hflight, if_neg hsame]
    exact hload

theorem Foretold.putLoad (h : Foretold start region host) (hflight : host.InFlight load work)
    (hnext : start.MayLand region host work progress) :
    Foretold start region (Shelf.loads.put host load ⟨bell, progress⟩) := by
  have hstages {node : Node} {stage : LoadStage} (hstage : start.StageFits region host node stage) :
      start.StageFits region (Shelf.loads.put host load ⟨bell, progress⟩) node stage := by
    cases stage with
    | fresh => trivial
    | describing call => exact hstage
    | following visited other call => exact hstage
    | borrowing target watch =>
      exact ⟨fun htarget => loadFits_put hflight hnext htarget (hstage.1 htarget), hstage.2⟩
  refine ⟨h.same, h.size, h.labels, h.known, h.memo,
    fun node other hnode hkept => loadFits_put hflight hnext hnode (h.kept node other hnode hkept),
    h.called, h.asks, fun other work' hflight' => ?_⟩
  obtain ⟨bell', hflight'⟩ := hflight'
  rw [get?_put hflight] at hflight'
  by_cases hsame : load = other
  · rw [if_pos hsame] at hflight'
    rcases hflight' with hflight' | hflight'
    · cases hflight'
      obtain ⟨hnode, hstage⟩ := hnext
      exact hstages (hnode ▸ hstage)
    · cases hflight'
      obtain ⟨hnode, hstage⟩ := hnext
      exact hstages (hnode ▸ hstage)
  · rw [if_neg hsame] at hflight'
    exact hstages (h.flight other work' ⟨bell', hflight'⟩)

/-- What the driving of one load comes to for everybody else. -/
theorem Upholds.around {after : Host} (h : Foretold start region host)
    (hidle : host.loads.get? load = some ⟨bell, .idle work⟩)
    (hupholds : Upholds start region (Shelf.loads.put host load ⟨bell, .driven work⟩) after)
    (hnext : start.MayLand region after work progress) :
    Upholds start region host (Shelf.loads.put after load ⟨bell, progress⟩) := by
  have hflight : host.InFlight load work := ⟨bell, .inl hidle⟩
  have hdriven : after.loads.get? load = some ⟨bell, .driven work⟩ := by
    refine hupholds.driven load bell work ?_
    rw [get?_put hflight, if_pos rfl]
  have hflight' : after.InFlight load work := ⟨bell, .inr hdriven⟩
  have hmay : start.MayLand region host work (.driven work) := ⟨rfl, h.flight load work hflight⟩
  refine ⟨hupholds.tasks, hupholds.records, hupholds.answers, fun node other hnode hloads => ?_,
    fun other bell' work' hother => ?_⟩
  · exact loadFits_put hflight' hnext hnode
      (hupholds.loadFits node other hnode (loadFits_put hflight hmay hnode hloads))
  · have hne : load ≠ other := by
      rintro rfl
      rw [hidle] at hother
      cases hother
    rw [get?_put hflight', if_neg hne]
    refine hupholds.driven other bell' work' ?_
    rw [get?_put hflight, if_neg hne]
    exact hother

end Host

namespace LoadWork

variable {look : Look}

theorem drive_abides (hlook : Look.Fits start region look) (h : Host.Foretold start region host)
    (hsettled : start.Settled region) {work : LoadWork}
    (hstage : start.StageFits region host work.node work.stage) (waker : Waker) :
    (drive look work waker).Abides start region host (StepFits start region work) := by
  unfold drive
  refine Act.Abides.bind (proceed_abides hlook h hsettled hstage) fun result after hafter _ hresult => ?_
  match result, hresult with
  | .pending next, hnext => exact .pure hafter hnext
  | .ready (.ok delivery), hdelivery => exact .pure hafter hdelivery
  | .ready (.error failure), hdoomed =>
    have herase : (Act.changeCompartment work.node.compartment fun compartment =>
        { compartment with loading := compartment.loading.erase work.node.key }).Abides start region
          after fun _ _ => True := by
      obtain ⟨hfits, hupholds⟩ := hafter.modifyLoads work.node.compartment
        (fun loading => loading.erase work.node.key) fun key load hregion hload => by
          rw [Table.get?_erase] at hload
          split at hload
          · cases hload
          · exact hafter.kept ⟨work.node.compartment, key⟩ load hregion hload
      exact ⟨hfits, hupholds, trivial⟩
    exact Act.Abides.bind herase fun _ erased herased _ _ => .pure herased hdoomed

/-- Whatever looks at a shallow load finds what was foretold, by induction on how deep loads wait for
each other. -/
theorem look_fits (hsettled : start.Settled region) :
    ∀ depth : Nat, Look.Fits start region (LoadWork.look depth) := by
  intro depth
  induction depth with
  | zero => exact fun host watch waker h => .pure h rfl
  | succ depth ih =>
    intro host watch waker h
    unfold LoadWork.look
    refine Shelf.after_poll ?_ ?_ ?_ ?_
    · exact fun _ => ⟨h, .refl host, rfl⟩
    · intro bell outcome hdone
      refine ⟨h, .refl host, fun node _ hloads => ?_⟩
      unfold Host.LoadFits at hloads
      rw [show host.loads.get? watch.job = _ from hdone] at hloads
      exact hloads
    · intro bell work seat told _ htold
      obtain ⟨hfits, hupholds⟩ := h.aside htold
      exact ⟨hfits, hupholds, rfl⟩
    · intro bell work seat told hidle htold
      obtain ⟨hfits, hupholds⟩ := h.aside htold
      have hidle' : told.loads.get? watch.job = some ⟨bell, .idle work⟩ := by
        rw [htold.quiet.loads]
        exact hidle
      have hflight : told.InFlight watch.job work := ⟨bell, .inl hidle'⟩
      have hstage := hfits.flight watch.job work hflight
      have hmay : start.MayLand region told work (.driven work) := ⟨rfl, hstage⟩
      have htaken : Host.Foretold start region (Shelf.loads.put told watch.job ⟨bell, .driven work⟩) :=
        hfits.putLoad hflight hmay
      have hstage' := htaken.flight watch.job work
        ⟨bell, .inr (by rw [Host.get?_put hflight, if_pos rfl])⟩
      refine After.mono (drive_abides ih htaken hsettled hstage' (.bell bell))
        fun result after hdriven => ?_
      obtain ⟨hafter, hupholds', hresult⟩ := hdriven
      have hflight' : after.InFlight watch.job work := by
        refine ⟨bell, .inr (hupholds'.driven watch.job bell work ?_)⟩
        rw [Host.get?_put hflight, if_pos rfl]
      cases result with
      | pending next =>
        have hnext : start.MayLand region after work (.idle next) := hresult
        exact ⟨hafter.putLoad hflight' hnext, hupholds.trans (.around hfits hidle' hupholds' hnext), rfl⟩
      | ready outcome =>
        intro last hlast
        have hnext : start.MayLand region after work (.done outcome) := hresult
        have hlanded : Host.Foretold start region
            (Shelf.loads.put after watch.job ⟨bell, .done outcome⟩) := hafter.putLoad hflight' hnext
        obtain ⟨hfits', hupholds''⟩ := hlanded.aside hlast
        refine ⟨hfits', (hupholds.trans (.around hfits hidle' hupholds' hnext)).trans hupholds'',
          fun node hnode hloads => ?_⟩
        obtain rfl := hloads.node_eq ⟨bell, .inl hidle⟩
        exact (hresult hnode).mono (by exact hupholds''.records)

end LoadWork

theorem Act.awaitDelivery_abides (h : Host.Foretold start region host)
    (hsettled : start.Settled region) (watch : Watch .load) (waker : Waker) :
    (awaitDelivery watch waker).Abides start region host fun result host' => match result with
      | .pending next => next.job = watch.job
      | .ready outcome => ∀ node, region node → start.LoadFits host node watch.job →
          start.OutcomeFits host' node outcome :=
  .getBind (LoadWork.look_fits hsettled _ host watch waker h)

end ModuleLoader
