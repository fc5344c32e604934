import ModuleLoader.Proofs.ShallowLoads
import ModuleLoader.Loading.Closure
/-!
Loading a closure keeps the promises of its shallow loads: whatever it enters into a memo is what the
node stood for already.
-/

namespace ModuleLoader
set_option autoImplicit false

/-- What is true of the loading of a host stays true in a later one. -/
structure Keeps (host host' : Host) : Prop where
  built : ∀ ref, host.Built ref → host'.Built ref
  records : ∀ ref, (host.records.get? ref).isSome → (host'.records.get? ref).isSome
  entryAt? : ∀ node entry, host.entryAt? node = some entry → host'.entryAt? node = some entry
  promise? : ∀ node record, host.promise? node = some record → host'.promise? node = some record
  serves : ∀ node load, host.Serves node load → host'.Serves node load

namespace Keeps

variable {a b c host host' : Host}

theorem refl (host : Host) : Keeps host host :=
  ⟨fun _ h => h, fun _ h => h, fun _ _ h => h, fun _ _ h => h, fun _ _ h => h⟩

theorem trans (hab : Keeps a b) (hbc : Keeps b c) : Keeps a c where
  built ref h := hbc.built ref (hab.built ref h)
  records ref h := hbc.records ref (hab.records ref h)
  entryAt? node entry h := hbc.entryAt? node entry (hab.entryAt? node entry h)
  promise? node record h := hbc.promise? node record (hab.promise? node record h)
  serves node load h := hbc.serves node load (hab.serves node load h)

theorem entry_valid (h : Keeps host host') {entry : Entry} (hentry : entry.Valid host) :
    entry.Valid host' := by
  cases entry with
  | own record => exact h.records record hentry
  | borrowed owner key record => exact ⟨h.records record hentry.1, h.built owner hentry.2⟩

end Keeps

theorem Grows.keeps {host host' : Host} (h : Grows host host') : Keeps host host' :=
  ⟨fun ref => (h.built ref).2, fun _ => h.records.isSome, h.entryAt?, h.promise?, h.serves⟩

theorem LoadsAlike.keeps {host host' : Host} (h : LoadsAlike host host') : Keeps host host' :=
  ⟨fun ref => (h.built ref).2, h.records, fun node _ => (h.entryAt? node).trans,
    fun node _ => (h.promise? node).trans, fun node load => (h.serves node load).2⟩

namespace Host

variable {host : Host}

/-- Entering the entry would make true what the node stands for, or nobody has begun to load it. -/
def Enterable (host : Host) (node : Node) (entry : Entry) : Prop :=
  host.promise? node = some entry.record ∨ host.promise? node = none ∧ host.loadAt? node = none

/-- The host after an entry went into the memo. -/
def entered (host : Host) (node : Node) (entry : Entry) : Host :=
  (Act.enter node entry host).2

theorem compartment_entered (node : Node) (entry : Entry) (ref : Ref .compartment) :
    (host.entered node entry).compartment ref =
      if node.compartment = ref ∧ host.Built node.compartment then
        { host.compartment ref with
          memo := (host.compartment ref).memo.insertNew node.key entry
          loading := (host.compartment ref).loading.erase node.key }
      else host.compartment ref :=
  compartment_modify _ _ _

theorem entryAt?_entered {node : Node} (hnode : host.Built node.compartment) (entry : Entry)
    (other : Node) : (host.entered node entry).entryAt? other =
      if node = other ∧ host.entryAt? node = none then some entry else host.entryAt? other := by
  unfold entryAt?
  rw [compartment_entered]
  obtain ⟨compartment, key⟩ := node
  obtain ⟨compartment', key'⟩ := other
  by_cases hsame : compartment = compartment'
  · subst hsame
    rw [if_pos ⟨rfl, hnode⟩]
    dsimp only
    rw [Table.get?_insertNew]
    by_cases hkey : key = key' <;> simp [hkey]
  · simp [hsame]

theorem loadAt?_entered {node : Node} (hnode : host.Built node.compartment) (entry : Entry)
    (other : Node) : (host.entered node entry).loadAt? other =
      if node = other then none else host.loadAt? other := by
  unfold loadAt?
  rw [compartment_entered]
  obtain ⟨compartment, key⟩ := node
  obtain ⟨compartment', key'⟩ := other
  by_cases hsame : compartment = compartment'
  · subst hsame
    rw [if_pos ⟨rfl, hnode⟩]
    dsimp only
    rw [Table.get?_erase]
    by_cases hkey : key = key' <;> simp [hkey]
  · simp [hsame]

theorem promise?_entered_of_ne {node : Node} (hnode : host.Built node.compartment) (entry : Entry)
    {other : Node} (hne : node ≠ other) :
    (host.entered node entry).promise? other = host.promise? other := by
  unfold promise?
  rw [entryAt?_entered hnode, loadAt?_entered hnode, if_neg fun h => hne h.1, if_neg hne]
  rfl

theorem promise?_entered {node : Node} (hnode : host.Built node.compartment) {entry : Entry}
    (henter : host.Enterable node entry) :
    (host.entered node entry).promise? node = some entry.record := by
  cases hentry : host.entryAt? node with
  | none =>
    refine promise?_of_entry ?_
    rw [entryAt?_entered hnode, if_pos ⟨rfl, hentry⟩]
  | some old =>
    have hold := promise?_of_entry hentry
    rcases henter with hpromise | ⟨hpromise, -⟩
    · rw [← hpromise, hold]
      refine promise?_of_entry ?_
      rw [entryAt?_entered hnode, if_neg, hentry]
      simp [hentry]
    · rw [hold] at hpromise
      cases hpromise

theorem not_inFlight_of_enterable (h : host.LoadsInOrder) {node : Node} {entry : Entry}
    (henter : host.Enterable node entry) (load : Ref .load) (work : LoadWork)
    (hflight : host.InFlight load work) : work.node ≠ node := by
  rintro rfl
  rcases henter with hpromise | ⟨-, hload⟩
  · rw [h.promise?_inFlight hflight] at hpromise
    cases hpromise
  · rw [(h.flight load work hflight).2.1] at hload
    cases hload

section Entered

variable {node : Node} {entry : Entry}

theorem entryAt?_entered_of_entry (hnode : host.Built node.compartment) {other : Node} {old : Entry}
    (hold : host.entryAt? other = some old) : (host.entered node entry).entryAt? other = some old := by
  rw [entryAt?_entered hnode, if_neg, hold]
  rintro ⟨rfl, hnone⟩
  rw [hold] at hnone
  cases hnone

theorem promise?_entered_of_promise (hnode : host.Built node.compartment)
    (henter : host.Enterable node entry) {other : Node} {record : Ref .record}
    (hrecord : host.promise? other = some record) :
    (host.entered node entry).promise? other = some record := by
  by_cases hother : node = other
  · subst hother
    rw [promise?_entered hnode henter]
    rcases henter with henter | ⟨henter, -⟩
    · rwa [henter] at hrecord
    · rw [henter] at hrecord
      cases hrecord
  · rw [promise?_entered_of_ne hnode entry hother, hrecord]

theorem LoadsInOrder.loadAt?_entered_of_flight (h : host.LoadsInOrder) (hnode : host.Built node.compartment)
    (henter : host.Enterable node entry) {load : Ref .load} {work : LoadWork}
    (hwork : host.InFlight load work) :
    (host.entered node entry).loadAt? work.node = host.loadAt? work.node := by
  rw [loadAt?_entered hnode, if_neg (Ne.symm (not_inFlight_of_enterable h henter load work hwork))]

theorem LoadsInOrder.grows_entered (h : host.LoadsInOrder) (hnode : host.Built node.compartment)
    (henter : host.Enterable node entry) : Grows host (host.entered node entry) :=
  .modify _ (fun _ => rfl) (fun _ _ => entryAt?_entered_of_entry hnode)
    (fun _ _ => promise?_entered_of_promise hnode henter)
    fun _ _ => h.loadAt?_entered_of_flight hnode henter

/-- An entry may enter the memo. -/
theorem LoadsInOrder.entered (h : host.LoadsInOrder) (hnode : host.Built node.compartment)
    (hvalid : entry.Valid host) (henter : host.Enterable node entry) :
    (host.entered node entry).LoadsInOrder := by
  have hgrows := h.grows_entered hnode henter
  refine ⟨?_, ?_, ?_, ?_, ?_, hgrows.stands h rfl⟩
  · exact h.grounded.modify node.compartment (fun _ => rfl) fun _ => rfl
  · intro other old hold
    rw [entryAt?_entered hnode] at hold
    split at hold
    · cases hold
      exact hgrows.entry_valid hvalid
    · exact hgrows.entry_valid (h.memo other old hold)
  · intro other load hkept
    rw [loadAt?_entered hnode] at hkept
    split at hkept
    · cases hkept
    · rename_i hother
      obtain ⟨hentry, hserves⟩ := h.kept other load hkept
      refine ⟨?_, hgrows.serves other load hserves⟩
      rw [entryAt?_entered hnode, if_neg fun h => hother h.1]
      exact hentry
  · intro load work hwork
    obtain ⟨hbuilt, hkept, hstage⟩ := h.flight load work hwork
    exact ⟨(hgrows.built _).2 hbuilt, (h.loadAt?_entered_of_flight hnode henter hwork).trans hkept,
      hgrows.stage_valid hstage⟩
  · intro load bell delivery hdone
    exact hgrows.delivery_valid (h.delivered load bell delivery hdone)

theorem entered_loads (h : host.LoadsInOrder) (hnode : host.Built node.compartment)
    (hvalid : entry.Valid host) (henter : host.Enterable node entry) :
    (host.entered node entry).LoadsInOrder ∧ Grows host (host.entered node entry) :=
  ⟨h.entered hnode hvalid henter, h.grows_entered hnode henter⟩

end Entered

/-- Entries that may enter together: each for its own node, or for one record. -/
structure Enterables (host : Host) (entries : List (Node × Entry)) : Prop where
  each : ∀ node entry, (node, entry) ∈ entries →
    host.Built node.compartment ∧ entry.Valid host ∧ host.Enterable node entry
  agree : ∀ node entry entry', (node, entry) ∈ entries → (node, entry') ∈ entries →
    entry.record = entry'.record

theorem Enterables.tail (h : host.LoadsInOrder) {node : Node} {entry : Entry}
    {rest : List (Node × Entry)} (hentries : host.Enterables ((node, entry) :: rest)) :
    (host.entered node entry).Enterables rest := by
  obtain ⟨hnode, hvalid, henter⟩ := hentries.each node entry List.mem_cons_self
  obtain ⟨-, hgrows⟩ := entered_loads h hnode hvalid henter
  refine ⟨fun other entry' hmem => ?_, fun other _ _ hmem hmem' =>
    hentries.agree other _ _ (List.mem_cons_of_mem _ hmem) (List.mem_cons_of_mem _ hmem')⟩
  obtain ⟨hbuilt, hvalid', henter'⟩ := hentries.each other entry' (List.mem_cons_of_mem _ hmem)
  refine ⟨(hgrows.built _).2 hbuilt, hgrows.entry_valid hvalid', ?_⟩
  rcases henter' with hpromise | ⟨hpromise, hload⟩
  · exact .inl (hgrows.promise? other _ hpromise)
  · by_cases hother : node = other
    · subst hother
      rw [Enterable, promise?_entered hnode henter,
        hentries.agree node entry entry' List.mem_cons_self (List.mem_cons_of_mem _ hmem)]
      exact .inl rfl
    · refine .inr ⟨?_, ?_⟩
      · rw [promise?_entered_of_ne hnode entry hother, hpromise]
      · rw [loadAt?_entered hnode, if_neg hother, hload]

end Host

/-- Entries that may enter do, and each node stands for what was entered. -/
theorem Act.enterAll_loads : ∀ (entries : List (Node × Entry)) {host : Host}, host.LoadsInOrder →
    host.Enterables entries → (enterAll entries).Loads host fun _ host' =>
      ∀ node entry, (node, entry) ∈ entries → host'.promise? node = some entry.record
  | [], host, h, _ => .pure h fun _ _ hmem => nomatch hmem
  | (node, entry) :: rest, host, h, hentries => by
    obtain ⟨hnode, hvalid, henter⟩ := hentries.each node entry List.mem_cons_self
    obtain ⟨horder, hgrows⟩ := Host.entered_loads h hnode hvalid henter
    have hfirst : (enter node entry).Loads host fun _ host' => host' = host.entered node entry :=
      ⟨horder, hgrows, rfl⟩
    refine Loads.bind hfirst ?_
    rintro _ _ _ - rfl
    refine (enterAll_loads rest horder (hentries.tail h)).mono fun _ after _ hafter hpost => ?_
    intro other entry' hmem
    rcases List.mem_cons.1 hmem with heq | hmem
    · cases heq
      exact hafter.promise? node _ (Host.promise?_entered hnode henter)
    · exact hpost other entry' hmem

namespace Holdback

/-- The node stands for the record of the entry that is held back for it. -/
def Fits (host : Host) (node : Node) (entry : Entry) : Prop :=
  host.Built node.compartment ∧ entry.Valid host ∧ host.promise? node = some entry.record

theorem Fits.keeps {host host' : Host} (hkeeps : Keeps host host') {node : Node} {entry : Entry}
    (h : Fits host node entry) : Fits host' node entry :=
  ⟨hkeeps.built _ h.1, hkeeps.entry_valid h.2.1, hkeeps.promise? _ _ h.2.2⟩

theorem enterables_of_fits {host : Host} {entries : List (Node × Entry)}
    (h : ∀ node entry, (node, entry) ∈ entries → Fits host node entry) :
    host.Enterables entries := by
  refine ⟨fun node entry hmem => ?_, fun node entry entry' hmem hmem' => ?_⟩
  · obtain ⟨hbuilt, hvalid, hpromise⟩ := h node entry hmem
    exact ⟨hbuilt, hvalid, .inl hpromise⟩
  · have hpromise := (h node entry hmem).2.2
    rw [(h node entry' hmem').2.2] at hpromise
    exact (Option.some.inj hpromise).symm

variable {holds : Node → Entry → Prop}

/-- What a countdown leaves and what it frees was held before. -/
theorem countDown_from : ∀ {held : List Held} (node : Node),
    (∀ first ∈ held, holds first.node first.entry) →
      (∀ first ∈ (countDown held node).1, holds first.node first.entry) ∧
        ∀ found ∈ (countDown held node).2, holds found.1 found.2
  | [], _, _ => by
    simp [countDown]
  | first :: rest, node, h => by
    have hfirst := h first List.mem_cons_self
    have hrest : ∀ other ∈ rest, holds other.node other.entry :=
      fun other hmem => h other (List.mem_cons_of_mem _ hmem)
    unfold countDown
    split
    · split
      · refine ⟨hrest, ?_⟩
        rintro found ⟨⟩
        exact hfirst
      · refine ⟨fun other hmem => ?_, fun found hfound => nomatch hfound⟩
        rcases List.mem_cons.1 hmem with rfl | hmem
        · exact hfirst
        · exact hrest other hmem
    · obtain ⟨hleft, hfound⟩ := countDown_from node hrest
      refine ⟨fun other hmem => ?_, hfound⟩
      rcases List.mem_cons.1 hmem with rfl | hmem
      · exact hfirst
      · exact hleft other hmem

theorem countDownAll_from : ∀ (nodes : List Node) {held : List Held},
    (∀ first ∈ held, holds first.node first.entry) →
      (∀ first ∈ (countDownAll held nodes).1, holds first.node first.entry) ∧
        ∀ found ∈ (countDownAll held nodes).2, holds found.1 found.2
  | [], _, h => ⟨h, fun _ hmem => nomatch hmem⟩
  | node :: nodes, held, h => by
    obtain ⟨hleft, hfound⟩ := countDown_from node h
    obtain ⟨hleft', hfound'⟩ := countDownAll_from nodes hleft
    refine ⟨hleft', fun found hmem => ?_⟩
    rcases List.mem_append.1 hmem with hmem | hmem
    · exact hfound found (Option.mem_toList.1 hmem)
    · exact hfound' found hmem

/-- What is held back after a delivery, and what is let go, was held back before or is delivered. -/
theorem deliver_from {holdback : Holdback} {node : Node} {delivery : Delivery}
    (h : ∀ held ∈ holdback.held, holds held.node held.entry) (hnode : holds node delivery.entry) :
    (∀ held ∈ (holdback.deliver node delivery).1.held, holds held.node held.entry) ∧
      ∀ found ∈ (holdback.deliver node delivery).2, holds found.1 found.2 := by
  have hfreed {held : List Held} {entered : List (Node × Entry)} (nodes : List Node)
      (hheld : ∀ first ∈ held, holds first.node first.entry)
      (hentered : ∀ found ∈ entered, holds found.1 found.2) :
      (∀ first ∈ (countDownAll held nodes).1, holds first.node first.entry) ∧
        ∀ found ∈ entered ++ (countDownAll held nodes).2, holds found.1 found.2 := by
    obtain ⟨hleft, hfound⟩ := countDownAll_from nodes hheld
    refine ⟨hleft, fun found hmem => ?_⟩
    rcases List.mem_append.1 hmem with hmem | hmem
    · exact hentered found hmem
    · exact hfound found hmem
  unfold deliver
  dsimp only
  split
  · exact hfreed _ h fun _ hmem => nomatch hmem
  · split
    · refine hfreed _ h fun found hmem => ?_
      obtain rfl := List.mem_singleton.1 hmem
      exact hnode
    · refine hfreed _ (fun first hmem => ?_) fun _ hmem => nomatch hmem
      rcases List.mem_append.1 hmem with hmem | hmem
      · exact h first hmem
      · obtain rfl := List.mem_singleton.1 hmem
        exact hnode

end Holdback

/-- The load of one key waits for a load that serves its node. -/
def KeyLoad.Good (host : Host) (member : KeyLoad) : Prop :=
  host.Built member.node.compartment ∧
    ∀ watch, member.load = some watch → host.Serves member.node watch.job

/-- Whatever the load of a closure holds back or waits for is sound. -/
structure ClosureLoad.Good (host : Host) (load : ClosureLoad) : Prop where
  held : ∀ held ∈ load.holdback.held, Holdback.Fits host held.node held.entry
  members : ∀ member ∈ load.members, member.2.Good host
  backlog : ∀ node ∈ load.backlog, host.Built node.compartment

/-- The load of a closure is sound wherever it stands. -/
def ClosureStage.Good (host : Host) : ClosureStage → Prop
  | .fresh root => host.Built root.compartment
  | .running load => load.Good host

theorem KeyLoad.Good.keeps {host host' : Host} (hkeeps : Keeps host host') {member : KeyLoad}
    (h : member.Good host) : member.Good host' :=
  ⟨hkeeps.built _ h.1, fun watch hwatch => hkeeps.serves _ _ (h.2 watch hwatch)⟩

theorem ClosureLoad.Good.keeps {host host' : Host} (hkeeps : Keeps host host')
    {load : ClosureLoad} (h : load.Good host) : load.Good host' where
  held held hmem := (h.held held hmem).keeps hkeeps
  members member hmem := (h.members member hmem).keeps hkeeps
  backlog node hmem := hkeeps.built _ (h.backlog node hmem)

theorem ClosureStage.Good.keeps {host host' : Host} (hkeeps : Keeps host host') :
    ∀ {stage : ClosureStage}, stage.Good host → stage.Good host'
  | .fresh _, h => hkeeps.built _ h
  | .running _, h => ClosureLoad.Good.keeps hkeeps h

namespace KeyLoad

/-- What a look at one key comes to. -/
def Polled (result : Poll KeyLoad (Node × Except Failure Delivery)) (host' : Host) : Prop :=
  match result with
  | .pending next => next.Good host'
  | .ready (_, .error _) => True
  | .ready (node, .ok delivery) => delivery.Valid host' ∧ Holdback.Fits host' node delivery.entry

theorem await_loads {host : Host} (h : host.LoadsInOrder) {member : KeyLoad}
    (hbuilt : host.Built member.node.compartment) {watch : Watch .load}
    (hserves : host.Serves member.node watch.job) (waker : Waker) :
    (member.await watch waker).Loads host Polled := by
  refine Act.Loads.bind (Act.awaitDelivery_loads h hserves waker)
    fun result looked hlooked hgrows hpost => ?_
  have hbuilt := (hgrows.built _).2 hbuilt
  match result, hpost with
  | .pending next, hnext =>
    have hnext : next.job = watch.job := hnext
    refine .pure hlooked ⟨hbuilt, ?_⟩
    rintro _ ⟨⟩
    exact hnext ▸ hgrows.serves _ _ hserves
  | .ready (.error failure), _ => exact .pure hlooked trivial
  | .ready (.ok delivery), ⟨hvalid, hpromise⟩ =>
    exact .pure hlooked ⟨hvalid, hbuilt, hvalid.entry, hpromise⟩

theorem poll_loads {host : Host} (h : host.LoadsInOrder) {member : KeyLoad}
    (hgood : member.Good host) (waker : Waker) : (member.poll waker).Loads host Polled := by
  unfold poll
  split
  · rename_i watch hwatch
    exact await_loads h hgood.1 (hgood.2 watch hwatch) waker
  · refine Act.Loads.bind (Act.loadOf_loads h hgood.1) fun loaded after hafter hgrows hpost => ?_
    have hbuilt := (hgrows.built _).2 hgood.1
    cases loaded with
    | already delivery => exact .pure hafter ⟨hpost.1, hbuilt, hpost.1.entry, hpost.2⟩
    | shared load => exact await_loads hafter hbuilt hpost waker

theorem forget_aside (member : KeyLoad) : member.forget.IsAside := by
  unfold forget
  split
  · exact Shelf.forget_aside _
  · exact .pure _

end KeyLoad

namespace ClosureLoad

theorem start_loads {host : Host} (h : host.LoadsInOrder) {root : Node}
    (hroot : host.Built root.compartment) :
    (start root).Loads host fun load host' => load.Good host' := by
  refine Act.Loads.bind (.quiet Act.newPool_aside.quiet h) fun pool after hafter _ hquiet => ?_
  refine .getBind (.pure hafter ⟨?_, ?_, ?_⟩)
  · exact fun _ hmem => nomatch hmem
  · exact fun _ hmem => nomatch hmem
  · intro node hmem
    obtain rfl := List.mem_singleton.1 hmem
    exact (hquiet.built _).2 hroot

theorem fill_loads : ∀ (nodes : List Node) {host : Host} {load : ClosureLoad}, host.LoadsInOrder →
    load.Good host → (∀ node ∈ nodes, host.Built node.compartment) →
      (load.fill nodes).Loads host fun load host' => load.Good host'
  | [], host, load, h, hgood, _ => .pure h ⟨hgood.held, hgood.members, fun _ hmem => nomatch hmem⟩
  | node :: rest, host, load, h, hgood, hnodes => by
    unfold fill
    split
    · refine Act.Loads.bind (.quiet (Act.changePool_aside _ _).quiet h)
        fun _ after hafter hgrows hquiet => ?_
      have hgood := hgood.keeps hgrows.keeps
      have hnodes : ∀ node' ∈ node :: rest, after.Built node'.compartment :=
        fun node' hmem => (hquiet.built _).2 (hnodes node' hmem)
      refine fill_loads rest hafter ⟨hgood.held, fun member hmem => ?_, hgood.backlog⟩
        fun node' hmem => hnodes node' (List.mem_cons_of_mem _ hmem)
      rcases List.mem_cons.1 hmem with rfl | hmem
      · exact ⟨hnodes node List.mem_cons_self, fun _ heq => nomatch heq⟩
      · exact hgood.members member hmem
    · exact .pure h ⟨hgood.held, hgood.members, hnodes⟩

theorem fill_aside : ∀ (nodes : List Node) (load : ClosureLoad), (load.fill nodes).IsAside
  | [], _ => .pure _
  | node :: rest, load => by
    unfold fill
    split
    · exact (Act.changePool_aside _ _).bind fun _ => fill_aside rest _
    · exact .pure _

theorem forgetAll_aside : ∀ members : List (Nat × KeyLoad), (forgetAll members).IsAside
  | [] => .pure _
  | (_, member) :: rest => member.forget_aside.bind fun _ => forgetAll_aside rest

theorem forget_aside (load : ClosureLoad) : load.forget.IsAside :=
  (Pool.close_aside _).bind fun _ => forgetAll_aside _

theorem mem_of_mem_unseen : ∀ {nodes seen : List Node} {node : Node},
    node ∈ (unseen seen nodes).1 → node ∈ nodes
  | [], _, _, hmem => nomatch hmem
  | first :: rest, seen, node, hmem => by
    unfold unseen at hmem
    split at hmem
    · exact List.mem_cons_of_mem _ (mem_of_mem_unseen hmem)
    · rcases List.mem_cons.1 hmem with rfl | hmem
      · exact List.mem_cons_self
      · exact List.mem_cons_of_mem _ (mem_of_mem_unseen hmem)

theorem not_mem_of_mem_unseen : ∀ {nodes seen : List Node} {node : Node},
    node ∈ (unseen seen nodes).1 → node ∉ seen
  | [], _, _, hmem => nomatch hmem
  | first :: rest, seen, node, hmem => by
    unfold unseen at hmem
    split at hmem
    · exact not_mem_of_mem_unseen hmem
    · rename_i hfirst
      rcases List.mem_cons.1 hmem with rfl | hmem
      · simpa using hfirst
      · exact fun hseen => not_mem_of_mem_unseen hmem (List.mem_cons_of_mem _ hseen)

theorem nodup_unseen : ∀ (nodes seen : List Node), (unseen seen nodes).1.Nodup
  | [], _ => List.nodup_nil
  | first :: rest, seen => by
    unfold unseen
    split
    · exact nodup_unseen rest seen
    · refine List.nodup_cons.2 ⟨fun hmem => ?_, nodup_unseen rest _⟩
      exact not_mem_of_mem_unseen hmem List.mem_cons_self

theorem mem_seen_unseen : ∀ {nodes seen : List Node} {node : Node},
    node ∈ (unseen seen nodes).2 ↔ node ∈ seen ∨ node ∈ (unseen seen nodes).1
  | [], _, _ => by
    simp [unseen]
  | first :: rest, seen, node => by
    unfold unseen
    split
    · exact mem_seen_unseen
    · have hrest : node ∈ (unseen (first :: seen) rest).2 ↔
          node ∈ first :: seen ∨ node ∈ (unseen (first :: seen) rest).1 := mem_seen_unseen
      rw [List.mem_cons] at hrest
      simp only [List.mem_cons, hrest]
      exact ⟨fun h => by rcases h with (h | h) | h <;> simp [h],
        fun h => by rcases h with h | h | h <;> simp [h]⟩

theorem mem_seen_of_mem : ∀ {nodes seen : List Node} {node : Node},
    node ∈ nodes → node ∈ (unseen seen nodes).2
  | first :: rest, seen, node, hmem => by
    unfold unseen
    split
    · rename_i hfirst
      rcases List.mem_cons.1 hmem with rfl | hmem
      · exact mem_seen_unseen.2 (.inl (List.contains_iff_mem.1 hfirst))
      · exact mem_seen_of_mem hmem
    · rcases List.mem_cons.1 hmem with rfl | hmem
      · exact mem_seen_unseen.2 (.inl List.mem_cons_self)
      · exact mem_seen_of_mem hmem

theorem take_loads {host : Host} (h : host.LoadsInOrder) {load : ClosureLoad}
    (hgood : load.Good host) {node : Node} {delivery : Delivery} (hvalid : delivery.Valid host)
    (hfits : Holdback.Fits host node delivery.entry) :
    (load.take node delivery).Loads host fun load host' => load.Good host' := by
  have hdelivered := Holdback.deliver_from hgood.held hfits
  obtain ⟨hheld, hfound⟩ := hdelivered
  refine Act.Loads.bind (Act.enterAll_loads _ h (Holdback.enterables_of_fits
    fun node entry hmem => hfound (node, entry) hmem)) fun _ after hafter hgrows _ => ?_
  refine .pure hafter ⟨fun held hmem => (hheld held hmem).keeps hgrows.keeps,
    fun member hmem => (hgood.members member hmem).keeps hgrows.keeps, fun other hmem => ?_⟩
  refine (hgrows.built _).2 ?_
  rcases List.mem_append.1 hmem with hmem | hmem
  · exact hgood.backlog other hmem
  · exact hvalid.built other (mem_of_mem_unseen hmem)

/-- Whatever the members of a load come to, the load stays sound. -/
theorem next_loads {host : Host} (h : host.LoadsInOrder) {load : ClosureLoad}
    (hgood : load.Good host) (waker : Waker) :
    (Pool.next KeyLoad.poll load.pool waker load.members).Loads host fun result host' =>
      match result with
      | .pending members => ∀ member ∈ members, member.2.Good host'
      | .exhausted => True
      | .finished (_, .error _) members => ∀ member ∈ members, member.2.Good host'
      | .finished (node, .ok delivery) members => (∀ member ∈ members, member.2.Good host') ∧
          delivery.Valid host' ∧ Holdback.Fits host' node delivery.entry := by
  have hothers {members : List (Nat × KeyLoad)} {index : Nat} {before after : Host}
      (hkeeps : Keeps before after) (hmembers : ∀ member ∈ members, member.2.Good before) :
      ∀ member ∈ members.filter (fun member => member.1 ≠ index), member.2.Good after :=
    fun member hmem => (hmembers member (List.mem_filter.1 hmem).1).keeps hkeeps
  let holds (members : List (Nat × KeyLoad)) (after : Host) : Prop :=
    after.LoadsInOrder ∧ Grows host after ∧ ∀ member ∈ members, member.2.Good after
  have hstart : holds load.members host := ⟨h, .refl host, hgood.members⟩
  refine Pool.after_next ?_ ?_ ?_ ?_ hstart
  · rintro members before after haside ⟨hbefore, hgrows, hmembers⟩
    have hquiet := haside.quiet
    exact ⟨hquiet.loadsInOrder hbefore, hgrows.trans hquiet.grows,
      fun member hmem => (hmembers member hmem).keeps hquiet.grows.keeps⟩
  · rintro members index work before ⟨hbefore, hgrows, hmembers⟩ hmem
    refine After.mono (KeyLoad.poll_loads hbefore (hmembers _ hmem) (.member load.pool index))
      fun result after hafter => ?_
    obtain ⟨hafter, hgrows', hpost⟩ := hafter
    cases result with
    | pending next =>
      refine ⟨hafter, hgrows.trans hgrows', fun member hmem => ?_⟩
      rcases List.mem_cons.1 hmem with rfl | hmem
      · exact hpost
      · exact hothers hgrows'.keeps hmembers member hmem
    | ready result =>
      intro last haside
      have hlast := haside.quiet
      have hlater := hgrows'.trans hlast.grows
      refine ⟨hlast.loadsInOrder hafter, hgrows.trans hlater, ?_⟩
      obtain ⟨node, outcome⟩ := result
      cases outcome with
      | error failure => exact hothers hlater.keeps hmembers
      | ok delivery =>
        exact ⟨hothers hlater.keeps hmembers, hlast.grows.delivery_valid hpost.1,
          hpost.2.keeps hlast.grows.keeps⟩
  · exact fun members after hall => hall
  · exact fun after hall => ⟨hall.1, hall.2.1, trivial⟩

theorem proceed_loads (waker : Waker) : ∀ (fuel : Nat) {host : Host} {load : ClosureLoad},
    host.LoadsInOrder → load.Good host →
      (load.proceed waker fuel).Loads host fun result host' => match result with
        | .pending load => load.Good host'
        | .ready _ => True
  | 0, host, load, h, hgood => .pure h hgood
  | fuel + 1, host, load, h, hgood => by
    unfold proceed
    refine Act.Loads.bind (fill_loads load.backlog h hgood hgood.backlog)
      fun load filled hfilled _ hgood => ?_
    refine Act.Loads.bind (next_loads hfilled hgood waker) fun result after hafter hgrows hpost => ?_
    have hgood := hgood.keeps hgrows.keeps
    match result, hpost with
    | .pending members, hmembers =>
      exact .pure hafter ⟨hgood.held, hmembers, hgood.backlog⟩
    | .exhausted, _ =>
      exact Act.Loads.bind (.quiet (Pool.close_aside _).quiet hafter)
        fun _ _ hclosed _ _ => .pure hclosed trivial
    | .finished (node, .error failure) members, _ =>
      have hgiven : ∀ node entry, (node, entry) ∈ load.holdback.giveUp →
          Holdback.Fits after node entry := by
        intro node entry hmem
        obtain ⟨held, hheld, heq⟩ := List.mem_map.1 hmem
        cases heq
        exact hgood.held held hheld
      refine Act.Loads.bind (Act.enterAll_loads _ hafter (Holdback.enterables_of_fits hgiven))
        fun _ entered hentered _ _ => ?_
      exact Act.Loads.bind (.quiet (forget_aside _).quiet hentered)
        fun _ _ hforgot _ _ => .pure hforgot trivial
    | .finished (node, .ok delivery) members, ⟨hmembers, hvalid, hfits⟩ =>
      have hgood : ClosureLoad.Good after { load with members } :=
        ⟨hgood.held, hmembers, hgood.backlog⟩
      refine Act.Loads.bind (take_loads hafter hgood hvalid hfits) fun load taken htaken _ hgood => ?_
      exact proceed_loads waker fuel htaken hgood

theorem fill_root : ∀ (nodes : List Node) (load : ClosureLoad) (host : Host),
    After host (load.fill nodes) fun next _ => next.root = load.root := by
  intro nodes
  induction nodes with
  | nil => exact fun _ _ => rfl
  | cons node rest ih =>
    intro load host
    unfold fill
    split
    · exact ih _ _
    · rfl

/-- A load is about its own key, however far it goes. -/
theorem proceed_root (waker : Waker) : ∀ (fuel : Nat) (load : ClosureLoad) (host : Host),
    After host (load.proceed waker fuel) fun result _ =>
      ∀ next, result = .pending next → next.root = load.root := by
  intro fuel
  induction fuel with
  | zero =>
    rintro load host _ ⟨⟩
    rfl
  | succ fuel ih =>
    intro load host
    unfold proceed
    rw [after_bind]
    refine (fill_root load.backlog load host).mono fun filled after hroot => ?_
    rw [after_bind, ← hroot]
    have hany : After after (Pool.next KeyLoad.poll filled.pool waker filled.members)
        fun _ _ => True := trivial
    refine hany.mono fun result last _ => ?_
    cases result with
    | pending members =>
      rintro _ ⟨⟩
      rfl
    | exhausted =>
      rintro _ ⟨⟩
    | finished landed members =>
      obtain ⟨node, outcome⟩ := landed
      cases outcome with
      | error failure =>
        rintro _ ⟨⟩
      | ok delivery =>
        rw [after_bind]
        have htaken : After last ({ filled with members }.take node delivery)
            fun taken _ => taken.root = filled.root := rfl
        refine htaken.mono fun taken entered hroot' => ?_
        rw [← hroot']
        exact ih taken entered

end ClosureLoad

namespace ClosureStage

theorem poll_root (stage : ClosureStage) (waker : Waker) (host : Host) :
    After host (stage.poll waker) fun result _ =>
      ∀ next, result = .pending next → next.root = stage.root := by
  have hload : After host stage.load fun load _ => load.root = stage.root := by
    cases stage <;> rfl
  unfold poll
  rw [after_bind]
  refine hload.mono fun load after hroot => ?_
  rw [after_bind, after_get, after_bind, ← hroot]
  refine (load.proceed_root waker _ after).mono fun result last hresult => ?_
  cases result with
  | pending next =>
    rintro _ ⟨⟩
    exact hresult next rfl
  | ready result =>
    rintro _ ⟨⟩

theorem poll_loads {host : Host} (h : host.LoadsInOrder) {stage : ClosureStage}
    (hgood : stage.Good host) (waker : Waker) :
    (stage.poll waker).Loads host fun result host' => match result with
      | .pending stage => stage.Good host'
      | .ready _ => True := by
  unfold poll
  have hload : stage.load.Loads host fun load host' => load.Good host' := by
    cases stage with
    | fresh root => exact ClosureLoad.start_loads h hgood
    | running load => exact .pure h hgood
  refine Act.Loads.bind hload fun load begun hbegun _ hgood => .getBind ?_
  refine Act.Loads.bind (ClosureLoad.proceed_loads waker _ hbegun hgood)
    fun result after hafter _ hpost => ?_
  cases result with
  | pending load => exact .pure hafter hpost
  | ready result => exact .pure hafter trivial

theorem forget_aside (stage : ClosureStage) : stage.forget.IsAside := by
  cases stage with
  | fresh root => exact .pure _
  | running load => exact load.forget_aside

end ClosureStage

end ModuleLoader
