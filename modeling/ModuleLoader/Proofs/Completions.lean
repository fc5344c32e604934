import ModuleLoader.Proofs.Arrivals
/-!
The load of a closure ends well exactly if everything that can be reached from its root is loadable:
whoever was seen is waited for or delivered, and what was delivered leads to what was seen.
-/

namespace ModuleLoader
set_option autoImplicit false

variable {start : Host} {region : Node → Prop} {host : Host}

namespace Host

theorem ContinuesAt.reaches {node next : Node} {continuations : List Node}
    (h : start.ContinuesAt node continuations) (hnext : next ∈ continuations) : start.Reaches node next := by
  obtain ⟨-, last, ⟨haliases, hmodule⟩ | ⟨hpasses, rfl⟩⟩ := h
  · refine haliases.reaches.tail ?_
    unfold Continues
    rw [hmodule]
    exact hnext
  · obtain rfl := List.mem_singleton.1 hnext
    exact AliasesTo.reaches hpasses.to_reflTransGen

/-- The nodes are delivered, and their closures continue among them. -/
def Delivered (start : Host) (nodes : List Node) : Prop :=
  ∀ node ∈ nodes, ∃ continuations, start.ContinuesAt node continuations ∧
    ∀ next ∈ continuations, next ∈ nodes

/-- The node is one of those delivered, or an alias on the way from one of them to where its closure
continues. -/
def OnTheWay (start : Host) (nodes : List Node) (node : Node) : Prop :=
  ∃ first ∈ nodes, ¬ start.Circles first ∧ start.AliasesTo first node ∧ ∃ continuations,
    (∀ next ∈ continuations, next ∈ nodes) ∧ ∃ last,
      (start.AliasesTo node last ∧ start.prospect last = .module continuations) ∨
        (start.Passes node last ∧ continuations = [last])

theorem Delivered.onTheWay {nodes : List Node} (h : start.Delivered nodes) {node : Node}
    (hmem : node ∈ nodes) : start.OnTheWay nodes node := by
  obtain ⟨continuations, ⟨hnot, hlast⟩, hnext⟩ := h node hmem
  exact ⟨node, hmem, hnot, .refl, continuations, hnext, hlast⟩

theorem OnTheWay.loadable {nodes : List Node} {node : Node} (h : start.OnTheWay nodes node) :
    start.Loadable node := by
  obtain ⟨first, -, hnot, haliases, continuations, -, last, hlast⟩ := h
  refine ⟨fun hmissing => ?_, fun ⟨other, hother, hpasses⟩ =>
    hnot ⟨other, haliases.trans hother, hpasses⟩⟩
  have hnone (target : Node) : ¬ start.Points node target := by
    intro hpoints
    cases hmissing.symm.trans hpoints
  rcases hlast with ⟨hrest, hmodule⟩ | ⟨hrest, -⟩
  · rcases hrest.cases_head with rfl | ⟨next, hnext, -⟩
    · cases hmissing.symm.trans hmodule
    · exact hnone next hnext
  · obtain ⟨next, hnext, -⟩ := Relation.TransGen.head'_iff.1 hrest
    exact hnone next hnext

theorem OnTheWay.continues {nodes : List Node} (hnodes : start.Delivered nodes) {node next : Node}
    (h : start.OnTheWay nodes node) (hnext : start.Continues node next) :
    start.OnTheWay nodes next := by
  obtain ⟨first, hfirst, hnot, haliases, continuations, hall, last, hlast⟩ := h
  have hsame {other : Node} (hpoints : start.Points node other) : next = other := by
    unfold Continues at hnext
    rw [show start.prospect node = _ from hpoints] at hnext
    exact List.mem_singleton.1 hnext
  rcases hlast with ⟨hrest, hmodule⟩ | ⟨hrest, rfl⟩
  · rcases hrest.cases_head with rfl | ⟨other, hpoints, hrest⟩
    · unfold Continues at hnext
      rw [hmodule] at hnext
      exact hnodes.onTheWay (hall next hnext)
    · obtain rfl := hsame hpoints
      exact ⟨first, hfirst, hnot, haliases.tail hpoints, continuations, hall, last, .inl ⟨hrest, hmodule⟩⟩
  · obtain ⟨other, hpoints, hrest⟩ := Relation.TransGen.head'_iff.1 hrest
    obtain rfl := hsame hpoints
    rcases Relation.reflTransGen_iff_eq_or_transGen.1 hrest with rfl | hrest
    · exact hnodes.onTheWay (hall _ List.mem_cons_self)
    · exact ⟨first, hfirst, hnot, haliases.tail hpoints, _, hall, last, .inr ⟨hrest, rfl⟩⟩

/-- Whatever can be reached from nodes that are delivered is loadable. -/
theorem Delivered.loadable {nodes : List Node} (h : start.Delivered nodes) {root node : Node}
    (hroot : root ∈ nodes) (hreaches : start.Reaches root node) : start.Loadable node := by
  have hway : start.OnTheWay nodes node := by
    induction hreaches with
    | refl => exact h.onTheWay hroot
    | tail _ hnext ih => exact ih.continues h hnext
  exact hway.loadable

end Host

namespace ClosureLoad

/-- Whoever was seen can be reached from the root, and is still to be loaded, waited for or delivered.
The node apart is just being taken in. -/
structure Tracks (start : Host) (load : ClosureLoad) (ahead : List Node) (apart : Option Node) :
    Prop where
  root : load.root ∈ load.seen
  seen : ∀ node ∈ load.seen, start.Reaches load.root node
  queued : ∀ node ∈ ahead, node ∈ load.seen
  members : ∀ member ∈ load.members, member.2.node ∈ load.seen
  left : ∀ node ∈ load.seen, node ∈ ahead ∨ (∃ member ∈ load.members, member.2.node = node) ∨
    apart = some node ∨ ∃ continuations, start.ContinuesAt node continuations ∧
      ∀ next ∈ continuations, next ∈ load.seen
  distinct : (load.members.map Prod.fst).Nodup
  numbered : ∀ member ∈ load.members, member.1 < load.nextIndex

/-- What a load of a closure holds back or waits for was foretold. -/
structure Fits (start : Host) (region : Node → Prop) (host : Host) (load : ClosureLoad)
    (ahead : List Node) (apart : Option Node) : Prop where
  held : ∀ held ∈ load.holdback.held, region held.node → start.EntryFits host held.node held.entry
  members : ∀ member ∈ load.members, region member.2.node → ∀ watch, member.2.load = some watch →
    start.LoadFits host member.2.node watch.job
  tracks : region load.root → load.Tracks start ahead apart

theorem Fits.mono {host' : Host} (hrecords : host.records.Extends host'.records)
    (hloads : ∀ node load, region node → start.LoadFits host node load →
      start.LoadFits host' node load)
    {load : ClosureLoad} {ahead : List Node} {apart : Option Node}
    (h : load.Fits start region host ahead apart) : load.Fits start region host' ahead apart where
  held held hmem hnode := (h.held held hmem hnode).mono hrecords
  members member hmem hnode watch hwatch :=
    hloads _ _ hnode (h.members member hmem hnode watch hwatch)
  tracks := h.tracks

theorem Fits.upholds {host' : Host} (hupholds : Host.Upholds start region host host')
    {load : ClosureLoad} {ahead : List Node} {apart : Option Node}
    (h : load.Fits start region host ahead apart) : load.Fits start region host' ahead apart :=
  h.mono hupholds.records hupholds.loadFits

/-- The load ends as was foretold of its root. -/
def ResultFits (start : Host) (root : Node) : Except Failure Unit → Prop
  | .ok () => ∀ node, start.Reaches root node → start.Loadable node
  | .error _ => start.Doomed root

theorem Tracks.complete {load : ClosureLoad} (h : load.Tracks start [] none)
    (hmembers : load.members = []) : ResultFits start load.root (.ok ()) := by
  have hdelivered : start.Delivered load.seen := by
    intro node hmem
    rcases h.left node hmem with hnone | ⟨member, hmember, -⟩ | hnone | hcovers
    · cases hnone
    · rw [hmembers] at hmember
      cases hmember
    · cases hnone
    · exact hcovers
  exact fun node hreaches => hdelivered.loadable h.root hreaches

theorem Tracks.waiting {load : ClosureLoad} {ahead : List Node} {apart : Option Node}
    (h : load.Tracks start ahead apart) (backlog : List Node) :
    Tracks start { load with backlog } ahead apart :=
  ⟨h.root, h.seen, h.queued, h.members, h.left, h.distinct, h.numbered⟩

/-- The first of the queued nodes goes into flight. -/
theorem Tracks.launch {load : ClosureLoad} {node : Node} {rest : List Node}
    (h : load.Tracks start (node :: rest) none) :
    Tracks start { load with
      members := (load.nextIndex, ⟨node, none⟩) :: load.members
      nextIndex := load.nextIndex + 1 } rest none where
  root := h.root
  seen := h.seen
  queued other hmem := h.queued other (List.mem_cons_of_mem _ hmem)
  members member hmem := by
    rcases List.mem_cons.1 hmem with rfl | hmem
    · exact h.queued node List.mem_cons_self
    · exact h.members member hmem
  left other hmem := by
    rcases h.left other hmem with hqueued | ⟨member, hmember, hnode⟩ | hrest
    · rcases List.mem_cons.1 hqueued with rfl | hqueued
      · exact .inr (.inl ⟨_, List.mem_cons_self, rfl⟩)
      · exact .inl hqueued
    · exact .inr (.inl ⟨member, List.mem_cons_of_mem _ hmember, hnode⟩)
    · exact .inr (.inr hrest)
  distinct := by
    refine List.nodup_cons.2 ⟨fun hmem => ?_, h.distinct⟩
    obtain ⟨member, hmember, hindex⟩ := List.mem_map.1 hmem
    have hless := h.numbered member hmember
    omega
  numbered member hmem := by
    rcases List.mem_cons.1 hmem with rfl | hmem
    · exact Nat.lt_succ_self _
    · exact Nat.lt_succ_of_lt (h.numbered member hmem)

/-- One member leaves, and its node is set apart. -/
theorem Tracks.leave {load : ClosureLoad} {ahead : List Node} (h : load.Tracks start ahead none)
    {index : Nat} {work : KeyLoad} (hwork : (index, work) ∈ load.members) :
    Tracks start { load with members := load.members.filter fun member => member.1 ≠ index } ahead
      (some work.node) where
  root := h.root
  seen := h.seen
  queued := h.queued
  members member hmem := h.members member (List.mem_filter.1 hmem).1
  left node hmem := by
    rcases h.left node hmem with hqueued | ⟨⟨other, member⟩, hmember, rfl⟩ | hnone | hcovers
    · exact .inl hqueued
    · by_cases hindex : other = index
      · subst hindex
        rw [pair_unique h.distinct hwork hmember]
        exact .inr (.inr (.inl rfl))
      · exact .inr (.inl ⟨(other, member), List.mem_filter.2 ⟨hmember, by simpa using hindex⟩, rfl⟩)
    · cases hnone
    · exact .inr (.inr (.inr hcovers))
  distinct := h.distinct.sublist (List.filter_sublist.map _)
  numbered member hmem := h.numbered member (List.mem_filter.1 hmem).1

/-- One member goes on. -/
theorem Tracks.stay {load : ClosureLoad} {ahead : List Node} (h : load.Tracks start ahead none)
    {index : Nat} {work next : KeyLoad} (hwork : (index, work) ∈ load.members)
    (hnode : next.node = work.node) :
    Tracks start { load with
      members := (index, next) :: load.members.filter fun member => member.1 ≠ index } ahead none where
  root := h.root
  seen := h.seen
  queued := h.queued
  members member hmem := by
    rcases List.mem_cons.1 hmem with rfl | hmem
    · exact hnode ▸ h.members _ hwork
    · exact (h.leave hwork).members member hmem
  left node hmem := by
    rcases (h.leave hwork).left node hmem with hqueued | ⟨member, hmember, hother⟩ | hapart | hcovers
    · exact .inl hqueued
    · exact .inr (.inl ⟨member, List.mem_cons_of_mem _ hmember, hother⟩)
    · cases hapart
      exact .inr (.inl ⟨(index, next), List.mem_cons_self, hnode⟩)
    · exact .inr (.inr (.inr hcovers))
  distinct := by
    refine List.nodup_cons.2 ⟨fun hmem => ?_, (h.leave hwork).distinct⟩
    obtain ⟨member, hmember, hindex⟩ := List.mem_map.1 hmem
    have hne := (List.mem_filter.1 hmember).2
    simp [hindex] at hne
  numbered member hmem := by
    rcases List.mem_cons.1 hmem with rfl | hmem
    · exact h.numbered (index, work) hwork
    · exact (h.leave hwork).numbered member hmem

/-- The node set apart is delivered, and what its closure continues with is queued. -/
theorem Tracks.deliver {load : ClosureLoad} {ahead : List Node} {node : Node}
    (h : load.Tracks start ahead (some node)) (hnode : node ∈ load.seen) {continuations : List Node}
    (hcovers : start.ContinuesAt node continuations) (holdback : Holdback) (backlog : List Node) :
    Tracks start { load with
      seen := (unseen load.seen continuations).2
      backlog, holdback } (ahead ++ (unseen load.seen continuations).1) none where
  root := mem_seen_unseen.2 (.inl h.root)
  seen other hmem := by
    rcases mem_seen_unseen.1 hmem with hmem | hmem
    · exact h.seen other hmem
    · exact (h.seen node hnode).trans (hcovers.reaches (mem_of_mem_unseen hmem))
  queued other hmem := by
    rcases List.mem_append.1 hmem with hmem | hmem
    · exact mem_seen_unseen.2 (.inl (h.queued other hmem))
    · exact mem_seen_unseen.2 (.inr hmem)
  members member hmem := mem_seen_unseen.2 (.inl (h.members member hmem))
  left other hmem := by
    rcases mem_seen_unseen.1 hmem with hmem | hmem
    · rcases h.left other hmem with hqueued | hmember | hapart | ⟨nexts, hcovers', hnexts⟩
      · exact .inl (List.mem_append_left _ hqueued)
      · exact .inr (.inl hmember)
      · cases hapart
        exact .inr (.inr (.inr ⟨continuations, hcovers, fun next => mem_seen_of_mem⟩))
      · exact .inr (.inr (.inr ⟨nexts, hcovers', fun next hnext =>
          mem_seen_unseen.2 (.inl (hnexts next hnext))⟩))
    · exact .inl (List.mem_append_right _ hmem)
  distinct := h.distinct
  numbered := h.numbered

end ClosureLoad

namespace KeyLoad

/-- What a look at one key comes to. -/
def PollFits (start : Host) (region : Node → Prop) (member : KeyLoad)
    (result : Poll KeyLoad (Node × Except Failure Delivery)) (host' : Host) : Prop :=
  match result with
  | .pending next => next.node = member.node ∧ (region member.node → ∀ watch,
      next.load = some watch → start.LoadFits host' member.node watch.job)
  | .ready (node, outcome) => node = member.node ∧
      (region member.node → start.OutcomeFits host' member.node outcome)

theorem await_abides (h : Host.Foretold start region host) (hsettled : start.Settled region)
    {member : KeyLoad} {watch : Watch .load}
    (hwatch : region member.node → start.LoadFits host member.node watch.job) (waker : Waker) :
    (member.await watch waker).Abides start region host (PollFits start region member) := by
  unfold await
  refine Act.Abides.bind (Act.awaitDelivery_abides h hsettled watch waker)
    fun result looked hlooked hupholds hresult => ?_
  cases result with
  | pending next =>
    have hnext : next.job = watch.job := hresult
    refine .pure hlooked ⟨rfl, fun hnode => ?_⟩
    rintro _ ⟨⟩
    rw [hnext]
    exact hupholds.loadFits _ _ hnode (hwatch hnode)
  | ready outcome =>
    exact .pure hlooked ⟨rfl, fun hnode => hresult member.node hnode (hwatch hnode)⟩

theorem poll_abides (h : Host.Foretold start region host) (hsettled : start.Settled region)
    {member : KeyLoad} (hmember : region member.node → ∀ watch, member.load = some watch →
      start.LoadFits host member.node watch.job) (waker : Waker) :
    (member.poll waker).Abides start region host (PollFits start region member) := by
  unfold poll
  split
  · rename_i watch hwatch
    exact await_abides h hsettled (fun hnode => hmember hnode watch hwatch) waker
  · refine Act.Abides.bind (Act.loadOf_abides h member.node) fun loaded after hafter _ hoffers => ?_
    match loaded, hoffers with
    | .already delivery, hdelivery => exact .pure hafter ⟨rfl, hdelivery⟩
    | .shared load, hload =>
      refine await_abides hafter hsettled ?_ waker
      exact hload

end KeyLoad

/-- Entries that fit enter the memo. -/
theorem Act.enterAll_abides : ∀ (entries : List (Node × Entry)) {host : Host},
    Host.Foretold start region host →
      (∀ pair ∈ entries, region pair.1 → start.EntryFits host pair.1 pair.2) →
        (enterAll entries).Abides start region host fun _ _ => True
  | [], host, h, _ => .pure h trivial
  | (node, entry) :: rest, host, h, hentries => by
    have henter : (enter node entry).Abides start region host fun _ _ => True := by
      obtain ⟨hfits, hupholds⟩ := h.modify node.compartment
        (f := fun compartment => { compartment with
          memo := compartment.memo.insertNew node.key entry
          loading := compartment.loading.erase node.key }) (fun _ => rfl)
        (fun key hsome => by
          rw [Table.get?_insertNew]
          split
          · rfl
          · exact hsome)
        (fun key found hregion hfound => by
          rw [Table.get?_insertNew] at hfound
          split at hfound
          · rename_i hkey
            cases hfound
            obtain ⟨rfl, -⟩ := hkey
            exact hentries _ List.mem_cons_self hregion
          · exact h.memo ⟨node.compartment, key⟩ found hregion hfound)
        (fun key load hregion hload => by
          rw [Table.get?_erase] at hload
          split at hload
          · cases hload
          · exact h.kept ⟨node.compartment, key⟩ load hregion hload)
        fun key call hregion hcall => h.called ⟨node.compartment, key⟩ call hregion hcall
      exact ⟨hfits, hupholds, trivial⟩
    refine Abides.bind henter fun _ entered hentered hupholds _ => ?_
    exact enterAll_abides rest hentered fun pair hmem hregion =>
      (hentries pair (List.mem_cons_of_mem _ hmem) hregion).mono hupholds.records

namespace ClosureLoad

theorem fill_abides : ∀ (nodes : List Node) {host : Host} {load : ClosureLoad},
    Host.Foretold start region host → load.Fits start region host nodes none →
      (load.fill nodes).Abides start region host fun next host' =>
        next.Fits start region host' next.backlog none ∧ next.root = load.root ∧
          (next.members = [] → next.backlog = [])
  | [], host, load, h, hload =>
    .pure h ⟨⟨hload.held, hload.members, fun hroot => (hload.tracks hroot).waiting []⟩, rfl,
      fun _ => rfl⟩
  | node :: rest, host, load, h, hload => by
    unfold fill
    split
    · have hpool : (Act.changePool load.pool fun pool => pool.add load.nextIndex).Abides start region
          host fun _ _ => True := .aside h (Act.changePool_aside _ _) trivial
      refine Act.Abides.bind hpool fun _ after hafter hupholds _ => ?_
      have hload := hload.upholds hupholds
      refine fill_abides rest hafter ⟨hload.held, fun member hmem hnode watch hwatch => ?_,
        fun hroot => (hload.tracks hroot).launch⟩
      rcases List.mem_cons.1 hmem with rfl | hmem
      · cases hwatch
      · exact hload.members member hmem hnode watch hwatch
    · rename_i hfull
      refine .pure h ⟨⟨hload.held, hload.members, fun hroot =>
        (hload.tracks hroot).waiting (node :: rest)⟩, rfl, fun hnone => ?_⟩
      have hnone : load.members = [] := hnone
      simp only [hnone, List.length_nil, Bool.or_eq_true, decide_eq_true_eq] at hfull
      omega

/-- What the members of a load come to. -/
def NextFits (start : Host) (region : Node → Prop) (load : ClosureLoad)
    (result : Next KeyLoad (Node × Except Failure Delivery)) (host' : Host) : Prop :=
  match result with
  | .pending members => Fits start region host' { load with members } load.backlog none
  | .exhausted => region load.root → ResultFits start load.root (.ok ())
  | .finished (node, outcome) members =>
    Fits start region host' { load with members } load.backlog (some node) ∧
      (region node → start.OutcomeFits host' node outcome) ∧ (region load.root → node ∈ load.seen)

theorem next_abides (h : Host.Foretold start region host) (hsettled : start.Settled region)
    {load : ClosureLoad} (hload : load.Fits start region host load.backlog none)
    (hbacklog : load.members = [] → load.backlog = []) (waker : Waker) :
    (Pool.next KeyLoad.poll load.pool waker load.members).Abides start region host
      (NextFits start region load) := by
  let holds (members : List (Nat × KeyLoad)) (after : Host) : Prop :=
    Host.Foretold start region after ∧ Host.Upholds start region host after ∧
      Fits start region after { load with members } load.backlog none ∧
        (members = [] → load.backlog = [])
  have hstart : holds load.members host := ⟨h, .refl host, hload, hbacklog⟩
  refine Pool.after_next ?_ ?_ ?_ ?_ hstart
  · rintro members before after haside ⟨hbefore, hupholds, hfits, hnone⟩
    obtain ⟨hafter, hupholds'⟩ := hbefore.aside haside
    exact ⟨hafter, hupholds.trans hupholds', hfits.upholds hupholds', hnone⟩
  · rintro members index work before ⟨hbefore, hupholds, hfits, -⟩ hmem
    refine After.mono (KeyLoad.poll_abides hbefore hsettled (hfits.members _ hmem)
      (.member load.pool index)) fun result after ⟨hafter, hupholds', hresult⟩ => ?_
    have hfits' := hfits.upholds hupholds'
    cases result with
    | pending next =>
      obtain ⟨hnode, hwatch⟩ := hresult
      refine ⟨hafter, hupholds.trans hupholds', ⟨hfits'.held, fun member hmem' hregion => ?_,
        fun hroot => (hfits'.tracks hroot).stay hmem hnode⟩, fun hnone => nomatch hnone⟩
      rcases List.mem_cons.1 hmem' with rfl | hmem'
      · dsimp only at hregion ⊢
        rw [hnode] at hregion ⊢
        exact hwatch hregion
      · exact hfits'.members member (List.mem_filter.1 hmem').1 hregion
    | ready result =>
      intro last hlast
      obtain ⟨hlast, hupholds''⟩ := hafter.aside hlast
      have hfits'' := hfits'.upholds hupholds''
      obtain ⟨node, outcome⟩ := result
      obtain ⟨rfl, houtcome⟩ := hresult
      refine ⟨hlast, (hupholds.trans hupholds').trans hupholds'', ⟨hfits''.held,
        fun member hmem' => hfits''.members member (List.mem_filter.1 hmem').1,
        fun hroot => (hfits''.tracks hroot).leave hmem⟩,
        fun hregion => (houtcome hregion).mono hupholds''.records,
        fun hroot => (hfits''.tracks hroot).members _ hmem⟩
  · rintro members after ⟨hafter, hupholds, hfits, -⟩
    exact ⟨hafter, hupholds, hfits⟩
  · rintro after ⟨hafter, hupholds, hfits, hnone⟩
    refine ⟨hafter, hupholds, fun hroot => ?_⟩
    have htracks := hfits.tracks hroot
    rw [hnone rfl] at htracks
    exact htracks.complete rfl

theorem take_abides (h : Host.Foretold start region host) {load : ClosureLoad} {node : Node}
    (hload : load.Fits start region host load.backlog (some node)) {delivery : Delivery}
    (hdelivery : region node → start.DeliveryFits host node delivery)
    (hnode : region load.root → region node ∧ node ∈ load.seen) :
    (load.take node delivery).Abides start region host fun next host' =>
      next.Fits start region host' next.backlog none ∧ next.root = load.root := by
  obtain ⟨hheld, hentered⟩ := @Holdback.deliver_from
    (fun node entry => region node → start.EntryFits host node entry) load.holdback node delivery
    hload.held fun hregion => (hdelivery hregion).entry
  refine Act.Abides.bind (Act.enterAll_abides _ h hentered) fun _ after hafter hupholds _ => ?_
  refine .pure hafter ⟨⟨fun held hmem hregion => (hheld held hmem hregion).mono hupholds.records,
    (hload.upholds hupholds).members, fun hroot => ?_⟩, rfl⟩
  obtain ⟨hregion, hseen⟩ := hnode hroot
  exact (hload.tracks hroot).deliver hseen (hdelivery hregion).covers _ _

theorem proceed_abides (hsettled : start.Settled region) (waker : Waker) (fuel : Nat) :
    ∀ {host : Host} {load : ClosureLoad}, Host.Foretold start region host →
      load.Fits start region host load.backlog none →
        (load.proceed waker fuel).Abides start region host fun result host' => match result with
          | .pending next => next.Fits start region host' next.backlog none ∧ next.root = load.root
          | .ready result => region load.root → ResultFits start load.root result := by
  induction fuel with
  | zero => exact fun h hload => .pure h ⟨hload, rfl⟩
  | succ fuel ih =>
    intro host load h hload
    unfold proceed
    refine Act.Abides.bind (fill_abides load.backlog h hload) fun filled after hafter _ hfilled => ?_
    obtain ⟨hload, hroot, hnone⟩ := hfilled
    rw [← hroot]
    refine Act.Abides.bind (next_abides hafter hsettled hload hnone waker)
      fun result last hlast hupholds hresult => ?_
    cases result with
    | pending members =>
      refine .pure hlast ⟨⟨hresult.held, hresult.members, fun hregion => ?_⟩, rfl⟩
      exact hresult.tracks hregion
    | exhausted =>
      have hclose : (Pool.close filled.pool).Abides start region last fun _ _ => True :=
        .aside hlast (Pool.close_aside _) trivial
      exact Act.Abides.bind hclose fun _ _ hclosed _ _ => .pure hclosed hresult
    | finished landed members =>
      obtain ⟨node, outcome⟩ := landed
      cases outcome with
      | error failure =>
        obtain ⟨hfits, hdoomed, hseen⟩ := hresult
        have hgiven : ∀ pair ∈ filled.holdback.giveUp, region pair.1 →
            start.EntryFits last pair.1 pair.2 := by
          intro pair hmem
          obtain ⟨held, hheld, rfl⟩ := List.mem_map.1 hmem
          exact hfits.held held hheld
        refine Act.Abides.bind (Act.enterAll_abides _ hlast hgiven) fun _ entered hentered _ _ => ?_
        have hforget : (forget { filled with members }).Abides start region entered
            fun _ _ => True := .aside hentered (forget_aside _) trivial
        refine Act.Abides.bind hforget fun _ _ hforgot _ _ => .pure hforgot fun hregion => ?_
        have hreaches := (hfits.tracks hregion).seen node (hseen hregion)
        exact .of_reaches hreaches (hdoomed (hreaches.inside hsettled hregion))
      | ok delivery =>
        obtain ⟨hfits, hdelivery, hseen⟩ := hresult
        refine Act.Abides.bind (take_abides hlast hfits hdelivery fun hregion =>
          ⟨((hfits.tracks hregion).seen node (hseen hregion)).inside hsettled hregion, hseen hregion⟩)
          fun taken after' hafter' _ htaken => ?_
        obtain ⟨hload', hroot'⟩ := htaken
        have hroot' : taken.root = filled.root := hroot'
        rw [← hroot']
        exact ih hafter' hload'

end ClosureLoad

namespace ClosureStage

/-- What a load holds back or waits for was foretold, wherever it stands. -/
def Fits (start : Host) (region : Node → Prop) (host : Host) : ClosureStage → Prop
  | fresh _ => True
  | running load => load.Fits start region host load.backlog none

theorem Fits.mono {host' : Host} (hrecords : host.records.Extends host'.records)
    (hloads : ∀ node load, region node → start.LoadFits host node load →
      start.LoadFits host' node load) :
    ∀ {stage : ClosureStage}, stage.Fits start region host → stage.Fits start region host'
  | fresh _, _ => trivial
  | running _, h => ClosureLoad.Fits.mono hrecords hloads h

theorem load_abides (h : Host.Foretold start region host) {stage : ClosureStage}
    (hstage : stage.Fits start region host) :
    stage.load.Abides start region host fun load host' =>
      load.Fits start region host' load.backlog none ∧ load.root = stage.root := by
  cases stage with
  | running load => exact .pure h ⟨hstage, rfl⟩
  | fresh root =>
    unfold load ClosureLoad.start
    have hpool : Act.newPool.Abides start region host fun _ _ => True :=
      .aside h Act.newPool_aside trivial
    refine Act.Abides.bind hpool fun pool after hafter _ _ => .getBind (.pure hafter ⟨⟨?_, ?_, ?_⟩, rfl⟩)
    · exact fun _ hmem => nomatch hmem
    · exact fun _ hmem => nomatch hmem
    · refine fun _ => ⟨List.mem_cons_self, fun node hmem => ?_, fun _ hmem => hmem,
        (fun _ hmem => nomatch hmem), fun _ hmem => .inl hmem, List.nodup_nil,
        fun _ hmem => nomatch hmem⟩
      obtain rfl := List.mem_singleton.1 hmem
      exact .refl

theorem poll_abides (h : Host.Foretold start region host) (hsettled : start.Settled region)
    {stage : ClosureStage} (hstage : stage.Fits start region host) (waker : Waker) :
    (stage.poll waker).Abides start region host fun result host' => match result with
      | .pending next => next.Fits start region host' ∧ next.root = stage.root
      | .ready result => region stage.root → ClosureLoad.ResultFits start stage.root result := by
  unfold poll
  refine Act.Abides.bind (load_abides h hstage) fun load after hafter _ hload => .getBind ?_
  obtain ⟨hfits, hroot⟩ := hload
  rw [← hroot]
  refine Act.Abides.bind (ClosureLoad.proceed_abides hsettled waker _ hafter hfits)
    fun result last hlast _ hresult => ?_
  cases result with
  | pending next => exact .pure hlast hresult
  | ready result => exact .pure hlast hresult

end ClosureStage

end ModuleLoader
