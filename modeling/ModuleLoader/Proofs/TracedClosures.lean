import ModuleLoader.Proofs.Ledgers
import ModuleLoader.Proofs.TracedLoads
/-!
A closure that was loaded is whole: each node of it is memoized, and where the node leads on to belongs to
the closure as well.
-/

namespace ModuleLoader
set_option autoImplicit false

namespace Host

variable {host host' : Host}

/-- The node was loaded, and led on to some of these nodes. -/
def Expands (host : Host) (nodes : List Node) (node : Node) : Prop :=
  ∃ delivery, host.Delivers node delivery ∧ host.promise? node = some delivery.entry.record ∧
    ∀ next ∈ delivery.continuations, next ∈ nodes

theorem Expands.later (hlater : Later host host') {nodes nodes' : List Node}
    (hsub : ∀ node ∈ nodes, node ∈ nodes') {node : Node} (h : host.Expands nodes node) :
    host'.Expands nodes' node := by
  obtain ⟨delivery, hdelivers, hpromise, hnext⟩ := h
  exact ⟨delivery, hlater.delivers hdelivers, hlater.keeps.promise? _ _ hpromise,
    fun next hmem => hsub next (hnext next hmem)⟩

/-- All that can be reached from the root was loaded and is memoized. -/
def Covered (host : Host) (root : Node) : Prop :=
  ∃ nodes : List Node, root ∈ nodes ∧
    ∀ node ∈ nodes, (host.entryAt? node).isSome ∧ host.Expands nodes node

theorem isSome_later (hlater : Later host host') {node : Node} (h : (host.entryAt? node).isSome) :
    (host'.entryAt? node).isSome := by
  obtain ⟨entry, hentry⟩ := Option.isSome_iff_exists.1 h
  exact Option.isSome_iff_exists.2 ⟨entry, hlater.keeps.entryAt? node entry hentry⟩

/-- An entry that stems from its node may enter. -/
theorem Traced.entered (h : host.Traced) {node : Node} (hnode : host.Built node.compartment)
    {entry : Entry} (henter : host.Enterable node entry) (hlater : Later host (host.entered node entry))
    (hstems : host.Stems node entry) (hfresh : host.promise? node = none →
      host.ownNode entry.record = node → ∀ target, .stands node target ∉ host.chronicle) :
    (host.entered node entry).Traced ∧ Traces host (host.entered node entry) := by
  have htraces : Traces host (host.entered node entry) := .of_loads hlater rfl
  have hpromised := promise?_entered hnode henter
  refine ⟨h.onward hlater htraces (fun ref record hold hnew => ?_) (fun node target hmem => .inl hmem)
    (fun other ref hpromise => ?_) (fun other found hfound => ?_) (fun other load hkept => .inl ?_)
    (fun load work hflight => .inl hflight), htraces⟩
  · cases hold.symm.trans hnew
  · by_cases hother : node = other
    · subst hother
      obtain rfl := Option.some.inj (hpromised.symm.trans hpromise)
      refine henter.imp_right fun hnone => ?_
      have hown : (host.entered node entry).ownNode entry.record = host.ownNode entry.record := rfl
      rcases hstems.source with ⟨-, hsame⟩ | ⟨target, hstands, htarget⟩
      · refine ⟨?_, fun ⟨target, hstands⟩ => absurd hstands (hfresh hnone.1 hsame target)⟩
        have hcomes := @ComesTo.own (host.entered node entry) entry.record hstems.exist
          (by rw [hown, hsame]; exact hpromised)
        rw [hown, hsame] at hcomes
        exact hcomes
      · have hcomes := h.comesTo target _ htarget
        refine ⟨.along hstands (hlater.comesTo hcomes), fun _ ref href heq => ?_⟩
        obtain rfl := Option.some.inj (hpromised.symm.trans href)
        have hnode' := hcomes.own_promise.2
        rw [← hown, heq, hnone.1] at hnode'
        cases hnode'
    · rw [promise?_entered_of_ne hnode entry hother] at hpromise
      exact .inl hpromise
  · rw [entryAt?_entered hnode] at hfound
    split at hfound
    · rename_i hother
      obtain ⟨rfl, -⟩ := hother
      cases hfound
      exact .inr (hlater.stems hstems)
    · exact .inl hfound
  · rw [loadAt?_entered hnode] at hkept
    split at hkept
    · cases hkept
    · exact hkept

theorem isSome_entered {node : Node} (hnode : host.Built node.compartment) (entry : Entry) :
    ((host.entered node entry).entryAt? node).isSome := by
  rw [entryAt?_entered hnode]
  cases hentry : host.entryAt? node with
  | none => simp
  | some found => simp

end Host

/-- What is held back or let go stems from its node. -/
def Holdback.Stems (host : Host) (node : Node) (entry : Entry) : Prop :=
  Holdback.Fits host node entry ∧ host.Stems node entry

theorem Holdback.Stems.later {host host' : Host} (hlater : Later host host') {node : Node}
    {entry : Entry} (h : Holdback.Stems host node entry) : Holdback.Stems host' node entry :=
  ⟨h.1.keeps hlater.keeps, hlater.stems h.2⟩

/-- Entries that stem from their nodes enter, and their nodes are memoized then. -/
theorem Act.enterAll_tracks : ∀ (entries : List (Node × Entry)) {host : Host}, host.LoadsInOrder →
    host.Traced → (∀ pair ∈ entries, Holdback.Stems host pair.1 pair.2) →
      (enterAll entries).Tracks host fun _ host' => Grows host host' ∧
        ∀ node ∈ entries.map Prod.fst, (host'.entryAt? node).isSome
  | [], host, _, htraced, _ => .pure htraced ⟨.refl host, fun _ hmem => nomatch hmem⟩
  | (node, entry) :: rest, host, h, htraced, hentries => by
    obtain ⟨⟨hnode, hvalid, hpromise⟩, hstems⟩ := hentries (node, entry) List.mem_cons_self
    obtain ⟨horder, hgrows⟩ := Host.entered_loads h hnode hvalid (.inl hpromise)
    have hentered := htraced.entered hnode (.inl hpromise) hgrows.later hstems fun hnone => by
      cases hnone.symm.trans hpromise
    have hfirst : (enter node entry).Tracks host fun _ host' => host' = host.entered node entry :=
      ⟨hentered.1, hentered.2, rfl⟩
    refine Tracks.bind hfirst ?_
    rintro _ _ hafter - rfl
    refine (enterAll_tracks rest horder hafter fun pair hmem =>
      (hentries pair (List.mem_cons_of_mem _ hmem)).later hgrows.later).mono
        fun _ last _ _ ⟨hgrows', hrest⟩ => ⟨hgrows.trans hgrows', fun other hmem => ?_⟩
    rcases List.mem_cons.1 hmem with rfl | hmem
    · exact Host.isSome_later hgrows'.later (Host.isSome_entered hnode entry)
    · exact hrest other hmem

/-- The load that a member waits for is about its node. -/
def KeyLoad.Traced (host : Host) (member : KeyLoad) : Prop :=
  ∀ watch, member.load = some watch → host.Lends member.node watch.job

/-- Whatever the load of a closure waits for or holds back stems from its node, and each node that was
delivered is memoized or held back. -/
structure ClosureLoad.Traced (host : Host) (load : ClosureLoad) : Prop where
  members : ∀ member ∈ load.members, member.2.Traced host
  held : ∀ held ∈ load.holdback.held, host.Stems held.node held.entry
  expands : ∀ node ∈ load.holdback.delivered, host.Expands load.seen node
  memoized : ∀ node ∈ load.holdback.delivered,
    (host.entryAt? node).isSome ∨ node ∈ load.holdback.held.map Held.node

/-- The load of a closure can be traced wherever it stands, and its books are in order. -/
def ClosureStage.Traced (host : Host) : ClosureStage → Prop
  | .fresh _ => True
  | .running load => load.Tallied load.backlog ∧ load.Traced host

section
variable {host host' : Host} (hlater : Later host host') (htraces : Traces host host')
include hlater htraces

omit hlater in
theorem KeyLoad.Traced.lasts {member : KeyLoad} (h : member.Traced host) : member.Traced host' :=
  fun watch hwatch => htraces _ _ (h watch hwatch)

theorem ClosureLoad.Traced.lasts {load : ClosureLoad} (h : load.Traced host) : load.Traced host' where
  members member hmem := (h.members member hmem).lasts htraces
  held held hmem := hlater.stems (h.held held hmem)
  expands node hmem := (h.expands node hmem).later hlater fun _ hnode => hnode
  memoized node hmem := (h.memoized node hmem).imp_left (Host.isSome_later hlater)

theorem ClosureStage.Traced.lasts : ∀ {stage : ClosureStage}, stage.Traced host → stage.Traced host'
  | .fresh _, _ => trivial
  | .running _, ⟨htally, htraced⟩ => ⟨htally, htraced.lasts hlater htraces⟩

end

namespace KeyLoad

variable {host : Host} {member : KeyLoad}

/-- What a look at one key comes to. -/
def Told (member : KeyLoad) (result : Poll KeyLoad (Node × Except Failure Delivery))
    (host' : Host) : Prop :=
  match result with
  | .pending next => next.node = member.node ∧ next.Traced host'
  | .ready (node, outcome) => node = member.node ∧
      ∀ delivery, outcome = .ok delivery → host'.Delivers node delivery

theorem await_tracks (h : host.LoadsInOrder) (htraced : host.Traced) {watch : Watch .load}
    (hserves : host.Serves member.node watch.job) (hlends : host.Lends member.node watch.job)
    (waker : Waker) : (member.await watch waker).Tracks host member.Told := by
  refine Act.Tracks.bind (.loads (Act.awaitDelivery_loads h hserves waker)
    (Act.awaitDelivery_traces h htraced hserves hlends waker))
      fun result looked hlooked htraces hpost => ?_
  obtain ⟨⟨-, -, hjob⟩, hdelivers⟩ := hpost
  cases result with
  | pending next =>
    refine .pure hlooked ⟨rfl, ?_⟩
    rintro _ ⟨⟩
    have hjob : next.job = watch.job := hjob
    change looked.Lends member.node next.job
    rw [hjob]
    exact htraces _ _ hlends
  | ready outcome =>
    refine .pure hlooked ⟨rfl, ?_⟩
    rintro delivery rfl
    exact hdelivers delivery rfl

theorem poll_tracks (h : host.LoadsInOrder) (htraced : host.Traced) (hgood : member.Good host)
    (hmember : member.Traced host) (waker : Waker) : (member.poll waker).Tracks host member.Told := by
  unfold poll
  split
  · rename_i watch hwatch
    exact await_tracks h htraced (hgood.2 watch hwatch) (hmember watch hwatch) waker
  · refine Act.Tracks.bind (.loads (Act.loadOf_loads h hgood.1) (Act.loadOf_tracks h htraced hgood.1))
      fun loaded after hafter _ hpost => ?_
    obtain ⟨⟨horder, -, hserves⟩, hlends⟩ := hpost
    cases loaded with
    | already delivery =>
      refine .pure hafter ⟨rfl, ?_⟩
      rintro _ ⟨⟩
      exact hlends
    | shared load => exact await_tracks horder hafter hserves hlends waker

end KeyLoad

namespace ClosureLoad

variable {host : Host} {load : ClosureLoad}

/-- A delivery is taken in, and what nothing holds back any more is memoized. -/
theorem take_tracks (h : host.LoadsInOrder) (htraced : host.Traced) (hgood : load.Good host)
    (hload : load.Traced host) {node : Node} {delivery : Delivery}
    (hfits : Holdback.Fits host node delivery.entry) (hdelivers : host.Delivers node delivery)
    (htally : load.Tallied (node :: load.backlog)) :
    (load.take node delivery).Tracks host fun next host' =>
      next.Tallied next.backlog ∧ next.Traced host' ∧ next.root = load.root := by
  have hstems : ∀ held ∈ load.holdback.held, Holdback.Stems host held.node held.entry :=
    fun held hmem => ⟨hgood.held held hmem, hload.held held hmem⟩
  obtain ⟨hheld, hfound⟩ := Holdback.deliver_from hstems ⟨hfits, hdelivers.stems⟩
  have hbooks := Holdback.deliver_delivered delivery htally.balanced htally.in_hand
  refine Act.Tracks.bind (Act.enterAll_tracks _ h htraced hfound)
    fun _ after hafter htraces hpost => ?_
  obtain ⟨hgrows, hentered⟩ := hpost
  have hlater := hgrows.later
  refine .pure hafter ⟨htally.deliver, ⟨fun member hmem => ?_, fun held hmem => ?_,
    fun other hmem => ?_, fun other hmem => ?_⟩, rfl⟩
  · exact (hload.members member hmem).lasts htraces
  · exact hlater.stems (hheld held hmem).2
  · replace hmem : other ∈ (load.holdback.deliver node delivery).1.delivered := hmem
    rw [hbooks.delivered] at hmem
    rcases List.mem_cons.1 hmem with rfl | hmem
    · exact ⟨delivery, hlater.delivers hdelivers, hlater.keeps.promise? _ _ hfits.2.2,
        fun next hnext => mem_seen_of_mem hnext⟩
    · exact (hload.expands other hmem).later hlater fun _ hseen => mem_seen_unseen.2 (.inl hseen)
  · replace hmem : other ∈ (load.holdback.deliver node delivery).1.delivered := hmem
    rw [hbooks.delivered] at hmem
    rcases List.mem_cons.1 hmem with rfl | hmem
    · rcases hbooks.taken with hmemo | hkept | hgone
      · exact .inl (Host.isSome_later hlater (hdelivers.memoized hmemo))
      · exact .inr hkept
      · exact .inl (hentered other hgone)
    · rcases hload.memoized other hmem with hmemo | hkept
      · exact .inl (Host.isSome_later hlater hmemo)
      · obtain ⟨held, hheld, rfl⟩ := List.mem_map.1 hkept
        exact (hbooks.kept held hheld).symm.imp_left (hentered _)

/-- What a look for a member that finishes comes to. -/
def Found (load : ClosureLoad) (result : Next KeyLoad (Node × Except Failure Delivery))
    (host' : Host) : Prop :=
  match result with
  | .pending members => (∀ member ∈ members, member.2.Traced host') ∧
      (KeyLoad.places members).Perm (KeyLoad.places load.members)
  | .exhausted => load.members = []
  | .finished (node, outcome) members => (∀ member ∈ members, member.2.Traced host') ∧
      (∃ index, ((index, node) :: KeyLoad.places members).Perm (KeyLoad.places load.members)) ∧
        ∀ delivery, outcome = .ok delivery → host'.Delivers node delivery

theorem next_tracks (h : host.LoadsInOrder) (htraced : host.Traced) (hgood : load.Good host)
    (hload : load.Traced host) (hindices : ((KeyLoad.places load.members).map Prod.fst).Nodup)
    (waker : Waker) :
    (Pool.next KeyLoad.poll load.pool waker load.members).Tracks host load.Found := by
  let holds (members : List (Nat × KeyLoad)) (after : Host) : Prop :=
    after.LoadsInOrder ∧ after.Traced ∧ Traces host after ∧
      (∀ member ∈ members, member.2.Good after ∧ member.2.Traced after) ∧
        (KeyLoad.places members).Perm (KeyLoad.places load.members)
  have hstart : holds load.members host := ⟨h, htraced, .refl host, fun member hmem =>
    ⟨hgood.members member hmem, hload.members member hmem⟩, .refl _⟩
  refine Pool.after_next ?_ ?_ ?_ ?_ hstart
  · rintro members before after haside ⟨hbefore, htraced, htraces, hmembers, hperm⟩
    have hquiet := haside.quiet
    obtain ⟨htraced', htraces'⟩ := htraced.quiet hquiet
    exact ⟨hquiet.loadsInOrder hbefore, htraced', htraces.trans htraces', fun member hmem =>
      ⟨(hmembers member hmem).1.keeps hquiet.grows.keeps, (hmembers member hmem).2.lasts htraces'⟩,
      hperm⟩
  · rintro members index work before ⟨hbefore, htraced, htraces, hmembers, hperm⟩ hmem
    have hpluck := KeyLoad.places_pluck ((hperm.map Prod.fst).nodup_iff.2 hindices) hmem
    refine After.mono (Act.Tracks.loads (KeyLoad.poll_loads hbefore (hmembers _ hmem).1 _)
      (KeyLoad.poll_tracks hbefore htraced (hmembers _ hmem).1 (hmembers _ hmem).2
        (.member load.pool index))) fun result after hafter => ?_
    obtain ⟨htraced', htraces', ⟨horder, hgrows, hpost⟩, htold⟩ := hafter
    have hothers : ∀ member ∈ members.filter (fun member => member.1 ≠ index),
        member.2.Good after ∧ member.2.Traced after := fun member hother =>
      have hother := (List.mem_filter.1 hother).1
      ⟨(hmembers member hother).1.keeps hgrows.keeps, (hmembers member hother).2.lasts htraces'⟩
    cases result with
    | pending next =>
      obtain ⟨hnode, hnext⟩ := htold
      refine ⟨horder, htraced', htraces.trans htraces', fun member hother => ?_, ?_⟩
      · rcases List.mem_cons.1 hother with rfl | hother
        · exact ⟨hpost, hnext⟩
        · exact hothers member hother
      · rw [← hnode] at hpluck
        exact hpluck.trans hperm
    | ready result =>
      intro last haside
      obtain ⟨node, outcome⟩ := result
      obtain ⟨rfl, hdelivers⟩ := htold
      have hquiet := haside.quiet
      obtain ⟨htraced'', htraces''⟩ := htraced'.quiet hquiet
      refine ⟨htraced'', (htraces.trans htraces').trans htraces'', fun member hother => ?_,
        ⟨index, hpluck.trans hperm⟩, fun delivery hdelivery => ?_⟩
      · exact (hothers member hother).2.lasts htraces''
      · exact hquiet.grows.later.delivers (hdelivers delivery hdelivery)
  · rintro members after ⟨-, htraced, htraces, hmembers, hperm⟩
    exact ⟨htraced, htraces, fun member hmem => (hmembers member hmem).2, hperm⟩
  · rintro after ⟨-, htraced, htraces, -, hperm⟩
    exact ⟨htraced, htraces, List.map_eq_nil_iff.1 hperm.symm.eq_nil⟩

/-- What a step of the load of a closure comes to: it can go on, or everything was loaded. -/
def Ends (root : Node) (result : Poll ClosureLoad (Except Failure Unit)) (host' : Host) : Prop :=
  match result with
  | .pending next => next.Tallied next.backlog ∧ next.Traced host'
  | .ready (.ok ()) => host'.Covered root
  | .ready (.error _) => True

/-- When nothing waits and nothing is in flight, the closure is whole. -/
theorem Traced.covered (hload : load.Traced host) (htally : load.Tallied load.backlog)
    (hmembers : load.members = []) (hbacklog : load.backlog = []) : host.Covered load.root := by
  obtain ⟨hdelivered, hheld⟩ := htally.exhausted hbacklog (by rw [hmembers]; rfl)
  refine ⟨load.seen, htally.root, fun node hmem => ⟨?_, hload.expands node (hdelivered node hmem)⟩⟩
  refine (hload.memoized node (hdelivered node hmem)).resolve_right fun hkept => ?_
  rw [hheld] at hkept
  cases hkept

/-- More members that have not begun to load change nothing about what waits and what is held back. -/
theorem Traced.filled {filled : ClosureLoad} (hload : load.Traced host)
    (hholdback : filled.holdback = load.holdback) (hseen : filled.seen = load.seen)
    (hmembers : ∀ member ∈ filled.members, member ∈ load.members ∨ member.2.load = none) :
    filled.Traced host where
  members member hmem := by
    rcases hmembers member hmem with hmem | hnone
    · exact hload.members member hmem
    · intro watch hwatch
      cases hnone.symm.trans hwatch
  held := hholdback ▸ hload.held
  expands := hholdback ▸ hseen ▸ hload.expands
  memoized := hholdback ▸ hload.memoized

theorem proceed_tracks (waker : Waker) : ∀ (fuel : Nat) {host : Host} {load : ClosureLoad},
    host.LoadsInOrder → host.Traced → load.Good host → load.Traced host →
      load.Tallied load.backlog → (load.proceed waker fuel).Tracks host (Ends load.root)
  | 0, host, load, _, htraced, _, hload, htally => .pure htraced ⟨htally, hload⟩
  | fuel + 1, host, load, h, htraced, hgood, hload, htally => by
    unfold proceed
    have hfill := After.and (fill_tallied load.backlog load host htally)
      (fill_root load.backlog load host)
    refine Act.Tracks.bind (.loads (fill_loads load.backlog h hgood hgood.backlog)
      (.quiet htraced ((fill_aside load.backlog load).quiet host) hfill))
        fun filled host hfilled htraces hpost => ?_
    obtain ⟨⟨h, hgrows, hgood⟩, ⟨htally, hholdback, hseen, hmembers, hempty⟩, hroot⟩ := hpost
    rw [← hroot]
    have hload : filled.Traced host :=
      (hload.lasts hgrows.later htraces).filled hholdback hseen hmembers
    refine Act.Tracks.bind (.loads (next_loads h hgood waker)
      (next_tracks h hfilled hgood hload htally.indices waker)) fun result after hafter htraces hpost => ?_
    obtain ⟨⟨horder, hgrows, hsound⟩, hfound⟩ := hpost
    have hgood := hgood.keeps hgrows.keeps
    have hload := hload.lasts hgrows.later htraces
    rcases result with members | ⟨⟨node, failure | delivery⟩, members⟩ | _
    -- Every member waits.
    · obtain ⟨hmembers, hperm⟩ := hfound
      exact .pure hafter ⟨htally.perm hperm, ⟨hmembers, hload.held, hload.expands, hload.memoized⟩⟩
    -- A member failed: what was held back enters all the same, and the load ends.
    · have hgiven : ∀ pair ∈ filled.holdback.giveUp, Holdback.Stems after pair.1 pair.2 := by
        intro pair hmem
        obtain ⟨held, hheld, rfl⟩ := List.mem_map.1 hmem
        exact ⟨hgood.held held hheld, hload.held held hheld⟩
      refine Act.Tracks.bind (Act.enterAll_tracks _ horder hafter hgiven)
        fun _ entered hentered _ _ => ?_
      have hforget : ({ filled with members }.forget).Tracks entered fun _ _ => True :=
        .quiet hentered ((forget_aside _).quiet entered) trivial
      exact Act.Tracks.bind hforget fun _ _ hforgot _ _ => .pure hforgot trivial
    -- A member delivered, and the load goes on with it.
    · obtain ⟨hmembers, ⟨index, hperm⟩, hdelivers⟩ := hfound
      obtain ⟨hmembers', hvalid, hfits⟩ := hsound
      have hgood : ClosureLoad.Good after { filled with members } :=
        ⟨hgood.held, hmembers', hgood.backlog⟩
      have hload : ClosureLoad.Traced after { filled with members } :=
        ⟨hmembers, hload.held, hload.expands, hload.memoized⟩
      have htally : { filled with members }.Tallied (node :: filled.backlog) := htally.pluck hperm
      refine Act.Tracks.bind (.loads (take_loads horder hgood hvalid hfits)
        (take_tracks horder hafter hgood hload hfits (hdelivers delivery rfl) htally))
          fun taken last hlast _ hpost => ?_
      obtain ⟨⟨horder, -, hgood⟩, htally, hload, hroot⟩ := hpost
      have hrest := proceed_tracks waker fuel horder hlast hgood hload htally
      rw [hroot] at hrest
      exact hrest
    -- Nobody is left, so nothing waits any more.
    · have hclosed : (Pool.close filled.pool).Tracks after fun _ host' => Quiet after host' :=
        .quiet hafter ((Pool.close_aside _).quiet after) ((Pool.close_aside _).quiet after)
      refine Act.Tracks.bind hclosed fun _ closed hclosed htraces hquiet => ?_
      exact .pure hclosed
        ((hload.lasts hquiet.grows.later htraces).covered htally hfound (hempty hfound))

end ClosureLoad

/-- A load whose work has ended was the load of a closure that is whole. -/
theorem ClosureStage.poll_tracks {host : Host} (h : host.LoadsInOrder) (htraced : host.Traced)
    {stage : ClosureStage} (hgood : stage.Good host) (hstage : stage.Traced host) (waker : Waker) :
    (stage.poll waker).Tracks host fun result host' =>
      (∀ next, result = .pending next → next.Traced host') ∧
        (result = .ready (.ok ()) → host'.Covered stage.root) := by
  unfold poll
  have hload : stage.load.Loads host fun load host' => load.Good host' := by
    cases stage with
    | fresh root => exact ClosureLoad.start_loads h hgood
    | running load => exact .pure h hgood
  have hbooks : stage.load.Tracks host fun load host' =>
      load.Tallied load.backlog ∧ load.Traced host' ∧ load.root = stage.root := by
    cases stage with
    | fresh root =>
      have hstart : (ClosureLoad.start root).IsAside :=
        Act.newPool_aside.bind fun _ => .getBind fun _ => .pure _
      refine .quiet htraced (hstart.quiet host) ⟨ClosureLoad.start_tallied root host, ?_, rfl⟩
      have hnone {α : Type} (holds : α → Prop) (item : α) (hmem : item ∈ ([] : List α)) :
          holds item := absurd hmem List.not_mem_nil
      exact ⟨hnone _, hnone _, hnone _, hnone _⟩
    | running load => exact .pure htraced ⟨hstage.1, hstage.2, rfl⟩
  refine Act.Tracks.bind (.loads hload hbooks) fun load begun hbegun _ hpost => .getBind ?_
  obtain ⟨⟨horder, -, hgood⟩, htally, hload, hroot⟩ := hpost
  refine Act.Tracks.bind (ClosureLoad.proceed_tracks waker _ horder hbegun hgood hload htally)
    fun result after hafter _ hends => ?_
  rw [hroot] at hends
  rcases result with next | failure | _
  · refine .pure hafter ⟨?_, ?_⟩
    · rintro _ ⟨⟩
      exact hends
    · rintro ⟨⟩
  · refine .pure hafter ⟨?_, ?_⟩
    · rintro _ ⟨⟩
    · rintro ⟨⟩
  · refine .pure hafter ⟨?_, fun _ => hends⟩
    rintro _ ⟨⟩

namespace Host

variable {host : Host}

section
variable (h : host.LoadsInOrder) (htraced : host.Traced) {nodes : List Node}
  (hnodes : ∀ node ∈ nodes, host.Expands nodes node)
include htraced hnodes

/-- The node that a record was made for leads on to all that the record requests. -/
theorem requests_of_own {ref : Ref .record} (hpromise : host.promise? (host.ownNode ref) = some ref)
    (hmem : host.ownNode ref ∈ nodes) : ∀ node ∈ host.requestNodes ref, node ∈ nodes := by
  obtain ⟨delivery, hdelivers, hpromise', hnext⟩ := hnodes _ hmem
  have hrecord : delivery.entry.record = ref := Option.some.inj (hpromise'.symm.trans hpromise)
  -- It is no alias, so its entry is the record, and the closure goes on with the requests.
  have hnone (target : Node) (hstands : .stands (host.ownNode ref) target ∈ host.chronicle) : False :=
    htraced.away _ _ hstands ref hpromise rfl
  rcases hdelivers.stems.source with ⟨hown, -⟩ | ⟨target, hstands, -⟩
  · rcases hdelivers.on with hon | ⟨target, hstands, -⟩
    · rw [hown, hrecord] at hon
      rw [hon] at hnext
      exact hnext
    · exact (hnone target hstands).elim
  · exact (hnone target hstands).elim

include h

/-- A node of the closure leads on to all that its record requests, along the aliases. -/
theorem requests_of_comesTo {node : Node} {ref : Ref .record} (hcomes : host.ComesTo node ref) :
    host.promise? node = some ref → node ∈ nodes → ∀ next ∈ host.requestNodes ref, next ∈ nodes := by
  induction hcomes with
  | own _ hpromise => exact fun _ => requests_of_own htraced hnodes hpromise
  | along hstands hcomes ih =>
    rename_i node target ref
    intro hpromise hmem
    obtain ⟨delivery, hdelivers, hpromise', hnext⟩ := hnodes _ hmem
    have hrecord : delivery.entry.record = ref := Option.some.inj (hpromise'.symm.trans hpromise)
    have hsits := hdelivers.stems.sits
    rcases hdelivers.on with hon | ⟨other, hother, hon⟩
    · cases hentry : delivery.entry with
      | own record =>
        rw [hentry] at hsits hrecord hon
        obtain rfl : record = ref := hrecord
        have hsits : (host.record record).home = node.compartment := hsits
        rw [hon] at hnext
        unfold requestNodes
        rw [hsits]
        exact hnext
      | borrowed owner key record =>
        rw [hentry] at hsits hrecord hon
        obtain rfl : record = ref := hrecord
        have hsits : (⟨owner, key⟩ : Node) = host.ownNode record := hsits
        rw [hon] at hnext
        have hown := hnext ⟨owner, key⟩ List.mem_cons_self
        rw [hsits] at hown
        exact requests_of_own htraced hnodes hcomes.own_promise.2 hown
    · obtain rfl := htraced.unique _ _ _ hstands hother
      obtain ⟨record, htarget, hshared⟩ := h.stands node target hstands
      have hshared : host.promise? node = some record := by
        refine hshared.resolve_right ?_
        rintro ⟨load, bell, work, hdriven, rfl⟩
        cases (h.promise?_inFlight ⟨bell, .inr hdriven⟩).symm.trans hpromise
      obtain rfl := Option.some.inj (hshared.symm.trans hpromise)
      exact ih htarget (hnext target (hon ▸ List.mem_cons_self))

/-- Whatever is reached from nodes of the closure requests nothing but nodes of the closure. -/
theorem requests_of_closureFrom : ∀ (fuel : Nat) (seen : List Node) (queue : List (Node × Entry))
    (found : List (Ref .record)),
    (∀ pair ∈ queue, host.entryAt? pair.1 = some pair.2 ∧
      ∀ next ∈ host.requestNodes pair.2.record, next ∈ nodes) →
    (∀ ref ∈ found, ∀ next ∈ host.requestNodes ref, next ∈ nodes) →
      ∀ ref ∈ host.closureFrom [] fuel seen queue found, ∀ next ∈ host.requestNodes ref, next ∈ nodes
  | 0, _, _, _, _, hfound => fun ref hmem => hfound ref (List.mem_reverse.1 hmem)
  | _ + 1, _, [], _, _, hfound => fun ref hmem => hfound ref (List.mem_reverse.1 hmem)
  | fuel + 1, seen, (node, entry) :: queue, found, hqueue, hfound => by
    obtain ⟨hentry, hrequests⟩ := hqueue (node, entry) List.mem_cons_self
    have hstems := htraced.memo node entry hentry
    unfold closureFrom
    dsimp only
    refine requests_of_closureFrom fuel _ _ _ (fun pair hmem => ?_) fun ref hmem => ?_
    · rcases List.mem_append.1 hmem with hmem | hmem
      · exact hqueue pair (List.mem_cons_of_mem _ hmem)
      · obtain ⟨other, hfresh, hpair⟩ := List.mem_filterMap.1 hmem
        obtain ⟨next, hnext, rfl⟩ := Option.map_eq_some_iff.1 hpair
        have hnext : host.entryAt? other = some next := hnext
        have hpromise := promise?_of_entry hnext
        have hcontinues := ClosureLoad.mem_of_mem_unseen hfresh
        refine ⟨hnext, ?_⟩
        cases entry with
        | own record =>
          have hhome : (host.record record).home = node.compartment := hstems.sits
          have hmem : other ∈ host.requestNodes record := by
            unfold requestNodes
            rw [hhome]
            exact hcontinues
          exact requests_of_comesTo h htraced hnodes (htraced.comesTo other _ hpromise) hpromise
            (hrequests other hmem)
        | borrowed owner key record =>
          -- The node that the record was made for is memoized with the record itself.
          have hown : (⟨owner, key⟩ : Node) = host.ownNode record := hstems.sits
          have hother : other = host.ownNode record := (List.mem_singleton.1 hcontinues).trans hown
          have hcomes := htraced.comesTo node record (promise?_of_entry hentry)
          have hsame := hcomes.own_promise.2
          rw [← hother] at hsame
          obtain rfl : record = next.record := Option.some.inj (hsame.symm.trans hpromise)
          exact hrequests
    · cases entry with
      | own record =>
        dsimp only at hmem
        split at hmem
        · exact hfound ref hmem
        · rcases List.mem_cons.1 hmem with rfl | hmem
          · exact hrequests
          · exact hfound ref hmem
      | borrowed owner key record => exact hfound ref hmem

end

/-- Every record of a closure that is whole finds its requests memoized. -/
theorem Covered.requests (h : host.LoadsInOrder) (htraced : host.Traced) {root : Node}
    (hcovered : host.Covered root) : ∀ ref ∈ host.closure [] root, ∀ next ∈ host.requestNodes ref,
      (host.lookup? next).isSome := by
  obtain ⟨nodes, hroot, hall⟩ := hcovered
  have hnodes := fun node hmem => (hall node hmem).2
  intro ref hmem next hnext
  unfold lookup?
  rw [Option.isSome_map]
  refine (hall next (requests_of_closureFrom h htraced hnodes _ _ _ _ (fun pair hpair => ?_)
    (fun _ hnone => absurd hnone List.not_mem_nil) ref hmem next hnext)).1
  obtain ⟨other, hother, hpair⟩ := List.mem_filterMap.1 hpair
  obtain ⟨entry, hentry, rfl⟩ := Option.map_eq_some_iff.1 hpair
  obtain rfl := List.mem_singleton.1 hother
  have hpromise := promise?_of_entry (show host.entryAt? other = some entry from hentry)
  exact ⟨hentry, requests_of_comesTo h htraced hnodes (htraced.comesTo other _ hpromise) hpromise hroot⟩

end Host

end ModuleLoader
