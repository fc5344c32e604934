import Mathlib.Data.List.Perm.Subperm
import ModuleLoader.Proofs.TracedClosures
/-!
A closure that is drafted and then entered at once is whole as well. All its nodes are at hand, so the
drafting passes each node that it saw.
-/

namespace ModuleLoader
set_option autoImplicit false

namespace Host

variable {host host' : Host}

theorem nodesAtHand_congr (h : host'.compartments = host.compartments) :
    host'.nodesAtHand = host.nodesAtHand := by
  unfold nodesAtHand keysAtHand compartment
  rw [h]

theorem mem_nodesAtHand {node : Node} (h : node.key ∈ host.keysAtHand node.compartment) :
    node ∈ host.nodesAtHand := by
  refine List.mem_flatMap.2 ⟨node.compartment, ?_, List.mem_map.2 ⟨node.key, h, rfl⟩⟩
  refine List.mem_map.2 ⟨node.compartment.index, List.mem_range.2 ?_, rfl⟩
  cases hbuilt : host.compartments.get? node.compartment with
  | none =>
    unfold keysAtHand compartment at h
    rw [hbuilt] at h
    exact absurd h List.not_mem_nil
  | some found => exact (Array.getElem?_eq_some_iff.1 hbuilt).1

end Host

namespace Act

theorem askNow_atHand (host : Host) (node : Node) :
    After host (askNow node) fun result _ => result.isSome → node ∈ host.nodesAtHand := by
  unfold askNow
  rw [after_bind, after_get]
  dsimp only
  split
  · intro h
    cases h
  · rename_i answers hanswers
    have hnote : After host (note (.nowHookCalled (host.compartment node.compartment).label node.key))
        fun _ _ => True := trivial
    rw [after_bind]
    refine hnote.mono fun _ noted _ => ?_
    split
    · intro h
      cases h
    · rename_i blueprint hblueprint
      have hmem : node ∈ host.nodesAtHand := by
        refine Host.mem_nodesAtHand (List.mem_append_right _ ?_)
        rw [hanswers]
        exact Table.mem_names hblueprint
      have hbuild : After noted (build (host.compartment node.compartment).label blueprint)
          fun _ _ => True := trivial
      rw [after_bind]
      refine hbuild.mono fun result _ _ => ?_
      cases result <;> exact fun _ => hmem

/-- Only nodes at hand can be described without waiting. -/
theorem describeAtOnce_atHand (host : Host) (node : Node) :
    After host (describeAtOnce node) fun result _ =>
      ∀ descriptor, result = .ok descriptor → node ∈ host.nodesAtHand := by
  unfold describeAtOnce
  rw [after_bind, after_get]
  dsimp only
  split
  · rename_i descriptor hdescriptor
    refine fun _ _ => Host.mem_nodesAtHand ?_
    exact List.mem_append_left _ (List.mem_append_left _ (List.mem_append_right _
      (Table.mem_names hdescriptor)))
  · split
    · rename_i descriptor hdescriptor
      refine fun _ _ => Host.mem_nodesAtHand ?_
      unfold Host.describedByHook? at hdescriptor
      split at hdescriptor
      · cases hdescriptor
      · rename_i call hcall
        exact List.mem_append_left _ (List.mem_append_right _ (Table.mem_names hcall))
    · rw [after_bind]
      refine (askNow_atHand host node).mono fun result after hresult => ?_
      split
      · exact fun _ _ => hresult rfl
      · split
        · rintro descriptor ⟨⟩
        · rintro descriptor ⟨⟩

end Act

theorem Aside.compartments {host host' : Host} (h : Aside host host') :
    host'.compartments = host.compartments := by
  obtain ⟨_, _, _, _, _, _, rfl⟩ := h
  rfl

/-- A shallow load that succeeded and was not entered yet delivers what stems from its node. -/
theorem Host.Traced.landed {host : Host} (h : host.Traced) {node : Node} {load : Ref .load}
    (hkept : host.loadAt? node = some load) {delivery : Delivery}
    (hlanded : host.loadedInFlight? load = some delivery) : host.Delivers node delivery := by
  have hlends := h.kept node load hkept
  obtain ⟨bell, hdone⟩ := Host.loadedInFlight?_eq_some.1 hlanded
  unfold Host.Lends at hlends
  rwa [hdone] at hlends

namespace Drafting

variable {host host' : Host}

/-- A node that was passed is memoized and led on to nodes seen, or it was drafted. -/
inductive Passes (host : Host) (drafting : Drafting) (seen : List Node) (node : Node) : Prop where
  | memoized : (host.entryAt? node).isSome → host.Expands seen node → Passes host drafting seen node
  | entry {entry : Entry} {nodes : List Node} : (node, entry) ∈ drafting.draft →
      host.Stems node entry → host.LeadsOn node entry nodes → (∀ next ∈ nodes, next ∈ seen) →
        Passes host drafting seen node
  | along {target : Node} : (node, target) ∈ drafting.aliases → target ∈ seen →
      Passes host drafting seen node

/-- The drafted entries stem from their nodes, and each node that was passed leads on to nodes seen. -/
structure Traced (host : Host) (drafting : Drafting) (seen passed : List Node) : Prop where
  entries : ∀ pair ∈ drafting.draft, host.Stems pair.1 pair.2
  passes : ∀ node ∈ passed, drafting.Passes host seen node
  atHand : ∀ node ∈ passed, node ∈ host.nodesAtHand

/-- What was drafted stays, and more may be seen. -/
theorem Passes.later (hlater : Later host host') {drafting drafting' : Drafting}
    {seen seen' : List Node} (hdraft : ∀ pair ∈ drafting.draft, pair ∈ drafting'.draft)
    (haliases : ∀ pair ∈ drafting.aliases, pair ∈ drafting'.aliases)
    (hseen : ∀ node ∈ seen, node ∈ seen') {node : Node} (h : drafting.Passes host seen node) :
    drafting'.Passes host' seen' node := by
  cases h with
  | memoized hentry hexpands =>
    exact .memoized (Host.isSome_later hlater hentry) (hexpands.later hlater hseen)
  | entry hmem hstems hon hnext =>
    exact .entry (hdraft _ hmem) (hlater.stems hstems) (hlater.leadsOn hstems.exist hon)
      fun next hmem => hseen next (hnext next hmem)
  | along hmem htarget => exact .along (haliases _ hmem) (hseen _ htarget)

/-- What a visit of `node` comes to, if the nodes that it leads on to are seen. -/
def Toured (host : Host) (seen passed : List Node) (node : Node)
    (result : Except Failure (Drafting × List Node)) (host' : Host) : Prop :=
  host'.compartments = host.compartments ∧ ∀ drafting next, result = .ok (drafting, next) →
    ∀ seen' : List Node, (∀ other ∈ seen, other ∈ seen') → (∀ other ∈ next, other ∈ seen') →
      drafting.Traced host' seen' (node :: passed)

section
variable {drafting : Drafting} {seen passed : List Node} {node : Node}

theorem Toured.error {failure : Failure} (h : host'.compartments = host.compartments) :
    Toured host seen passed node (.error failure) host' := by
  refine ⟨h, ?_⟩
  rintro _ _ ⟨⟩

/-- One more node was passed. -/
theorem Traced.tour (h : drafting.Traced host seen passed) (hlater : Later host host')
    (hsame : host'.compartments = host.compartments) {drafting' : Drafting} {next : List Node}
    (hdraft : ∀ pair ∈ drafting.draft, pair ∈ drafting'.draft)
    (haliases : ∀ pair ∈ drafting.aliases, pair ∈ drafting'.aliases)
    (hentries : ∀ pair ∈ drafting'.draft, pair ∈ drafting.draft ∨ host'.Stems pair.1 pair.2)
    (hnode : node ∈ host.nodesAtHand) (hpasses : ∀ seen' : List Node,
      (∀ other ∈ next, other ∈ seen') → drafting'.Passes host' seen' node) :
    Toured host seen passed node (.ok (drafting', next)) host' := by
  refine ⟨hsame, ?_⟩
  rintro _ _ ⟨⟩ seen' hseen hnext
  refine ⟨fun pair hmem => ?_, fun other hmem => ?_, fun other hmem => ?_⟩
  · exact (hentries pair hmem).elim (fun hold => hlater.stems (h.entries pair hold)) id
  · rcases List.mem_cons.1 hmem with rfl | hmem
    · exact hpasses seen' hnext
    · exact (h.passes other hmem).later hlater hdraft haliases hseen
  · rw [Host.nodesAtHand_congr hsame]
    rcases List.mem_cons.1 hmem with rfl | hmem
    · exact hnode
    · exact h.atHand other hmem

/-- What the interpretation of a descriptor made was made for the node. -/
def Made (node : Node) (interpreted : Except Failure Interpreted) (host : Host) : Prop :=
  ∀ entry, interpreted = .ok (.entry entry) → entry = .own entry.record ∧
    (host.records.get? entry.record).isSome ∧ host.ownNode entry.record = node

theorem place_tracks (htraced : host'.Traced) (hdrafting : drafting.Traced host seen passed)
    (hlater : Later host host') (hsame : host'.compartments = host.compartments)
    (hatHand : node ∈ host.nodesAtHand) {interpreted : Except Failure Interpreted}
    (hmade : Made node interpreted host') :
    (drafting.place node interpreted).Tracks host' (Toured host seen passed node) := by
  rcases interpreted with failure | (entry | target)
  · exact .pure htraced (.error hsame)
  · obtain ⟨hown, hexist, hnode⟩ := hmade entry rfl
    have hstems : host'.Stems node entry := by
      refine ⟨hexist, ?_, .inl ⟨hown, hnode⟩⟩
      rw [hown]
      exact congrArg Node.compartment hnode
    refine .getBind (.pure htraced (hdrafting.tour hlater hsame (fun _ => List.mem_cons_of_mem _)
      (fun _ => id) (fun pair hmem => ?_) hatHand fun seen' hnext =>
        .entry List.mem_cons_self hstems (.inl rfl) hnext))
    rcases List.mem_cons.1 hmem with rfl | hmem
    · exact .inr hstems
    · exact .inl hmem
  · refine .getBind ?_
    have hfollow : (Act.followAtOnce (host'.nodesAtHand.length + 2) [node] target).Tracks host'
        fun _ last => Aside host' last :=
      .quiet htraced (Act.followAtOnce_aside _ _ _ host').quiet (Act.followAtOnce_aside _ _ _ host')
    refine Act.Tracks.bind hfollow fun followed last hlast _ haside => ?_
    have hsame := haside.compartments.trans hsame
    cases followed with
    | error failure => exact .pure hlast (.error hsame)
    | ok target =>
      exact .pure hlast (hdrafting.tour (hlater.trans haside.quiet.grows.later) hsame (fun _ => id)
        (fun _ => List.mem_cons_of_mem _) (fun _ => .inl) hatHand
        fun seen' hnext => .along List.mem_cons_self (hnext target List.mem_cons_self))

theorem describe_tracks (h : host.LoadsInOrder) (htraced : host.Traced)
    (hdrafting : drafting.Traced host seen passed) (hbuilt : host.Built node.compartment) :
    (drafting.describe node).Tracks host (Toured host seen passed node) := by
  have hdescribe : (Act.describeAtOnce node).Tracks host fun result host' =>
      (Aside host host' ∧ ∀ descriptor, result = .ok descriptor → node ∈ host.nodesAtHand) ∧
        ∀ descriptor, result = .ok descriptor → descriptor.Grounded host' := by
    have haside := Act.describeAtOnce_aside node host
    exact .quiet htraced haside.quiet ⟨⟨haside, Act.describeAtOnce_atHand host node⟩,
      Act.describeAtOnce_grounded h.grounded node⟩
  refine Act.Tracks.bind hdescribe fun described asked hasked _ hpost => ?_
  obtain ⟨⟨haside, hatHand⟩, hgrounded⟩ := hpost
  cases described with
  | error failure => exact .pure hasked (.error haside.compartments)
  | ok descriptor =>
    have hbuilt := (haside.quiet.built _).2 hbuilt
    have horder := haside.quiet.loadsInOrder h
    have hinterpret := Act.interpret_tracks horder hasked hbuilt (hgrounded descriptor rfl)
    have hadds : After asked (Act.interpret node descriptor) fun result host' =>
        host'.compartments = asked.compartments := by
      refine (Act.interpret_adds asked node descriptor).mono fun _ _ hadds => ?_
      obtain ⟨store, records, hadds⟩ := hadds
      rw [hadds]
    have hmakes : (Act.interpret node descriptor).Tracks asked fun result host' =>
        host'.compartments = asked.compartments ∧ Made node result host' :=
      ⟨hinterpret.1, hinterpret.2.1, hadds, hinterpret.2.2⟩
    refine Act.Tracks.bind (.loads (Act.interpret_loads horder hbuilt (hgrounded descriptor rfl))
      hmakes) fun result after hafter _ hpost => ?_
    obtain ⟨⟨-, hgrows, -⟩, hsame, hmade⟩ := hpost
    exact place_tracks hafter hdrafting (haside.quiet.grows.later.trans hgrows.later)
      (hsame.trans haside.compartments) (hatHand descriptor rfl) hmade

theorem visit_tracks (h : host.LoadsInOrder) (htraced : host.Traced)
    (hdrafting : drafting.Traced host seen passed) (hbuilt : host.Built node.compartment) :
    (drafting.visit node).Tracks host (Toured host seen passed node) := by
  rw [visit_eq]
  refine .getBind ?_
  split
  · rename_i delivery hdelivered
    obtain ⟨entry, hentry, -⟩ := Option.map_eq_some_iff.1 hdelivered
    refine .pure htraced (hdrafting.tour (.refl host) rfl (fun _ => id) (fun _ => id)
      (fun _ => .inl) ?_ fun seen' hnext => .memoized (hentry ▸ rfl)
        ⟨delivery, htraced.delivered hdelivered, (h.delivered?_valid hdelivered).2, hnext⟩)
    refine Host.mem_nodesAtHand ?_
    exact List.mem_append_left _ (List.mem_append_left _ (List.mem_append_left _
      (List.mem_append_left _ (Table.mem_names hentry))))
  · split
    · rename_i load hload
      split
      · rename_i delivery hlanded
        have hdelivers := htraced.landed hload hlanded
        refine .pure htraced (hdrafting.tour (.refl host) rfl
          (fun _ => List.mem_cons_of_mem _) (fun _ => id) (fun pair hmem => ?_) ?_
          fun seen' hnext => .entry List.mem_cons_self hdelivers.stems hdelivers.on hnext)
        · rcases List.mem_cons.1 hmem with rfl | hmem
          · exact .inr hdelivers.stems
          · exact .inl hmem
        · refine Host.mem_nodesAtHand ?_
          exact List.mem_append_left _ (List.mem_append_left _ (List.mem_append_left _
            (List.mem_append_right _ (Table.mem_names hload))))
      · exact .pure htraced (.error rfl)
    · exact describe_tracks h htraced hdrafting hbuilt

end

/-- What the collection of a closure comes to: all nodes seen were passed. -/
def Toured.All (root : Node) (result : Except Failure Drafting) (host' : Host) : Prop :=
  ∀ drafting, result = .ok drafting → ∃ passed, root ∈ passed ∧ drafting.Good host' passed ∧
    drafting.Traced host' passed passed

theorem collect_tracks (root : Node) : ∀ (fuel : Nat) {host : Host} {seen queue passed : List Node}
    {drafting : Drafting}, host.LoadsInOrder → host.Traced → drafting.Good host passed →
      Ahead host seen queue passed → drafting.Traced host seen passed → passed.Nodup →
        (∀ node ∈ seen, node ∈ passed ∨ node ∈ queue) → root ∈ seen →
          host.nodesAtHand.length < fuel + passed.length →
            (collect fuel seen queue drafting).Tracks host (Toured.All root)
  | 0, host, seen, queue, passed, drafting, _, htraced, hgood, _, hdrafting, hnodup, hseen, hroot,
      hfuel => by
    have hlength := (List.subperm_of_subset hnodup fun node => hdrafting.atHand node).length_le
    omega
  | fuel + 1, host, seen, [], passed, drafting, _, htraced, hgood, _, hdrafting, _, hseen, hroot,
      _ => by
    have hall (node : Node) (hmem : node ∈ seen) : node ∈ passed :=
      (hseen node hmem).resolve_right List.not_mem_nil
    refine .pure htraced ?_
    rintro _ ⟨⟩
    exact ⟨passed, hall root hroot, hgood, hdrafting.entries, fun node hmem =>
      (hdrafting.passes node hmem).later (.refl host) (fun _ => id) (fun _ => id) hall,
      hdrafting.atHand⟩
  | fuel + 1, host, seen, node :: queue, passed, drafting, h, htraced, hgood, hahead, hdrafting,
      hnodup, hseen, hroot, hfuel => by
    obtain ⟨hmem, hnew, hbuilt⟩ := hahead.queue node List.mem_cons_self
    refine Act.Tracks.bind (.loads (visit_loads h hgood hnew hbuilt)
      (visit_tracks h htraced hdrafting hbuilt)) fun result after hafter _ hpost => ?_
    obtain ⟨⟨horder, hgrows, hstill, hvisited⟩, hsame, htoured⟩ := hpost
    cases result with
    | error failure =>
      refine .pure hafter ?_
      rintro _ ⟨⟩
    | ok found =>
      obtain ⟨drafting, next⟩ := found
      obtain ⟨hgood, hnext⟩ := hvisited drafting next rfl
      have hdrafting := htoured drafting next rfl (ClosureLoad.unseen seen next).2
        (fun other hother => ClosureLoad.mem_seen_unseen.2 (.inl hother))
        fun other hother => ClosureLoad.mem_seen_of_mem hother
      refine collect_tracks root fuel horder hafter hgood (hahead.next hgrows hnext) hdrafting
        (List.nodup_cons.2 ⟨hnew, hnodup⟩) (fun other hother => ?_)
        (ClosureLoad.mem_seen_unseen.2 (.inl hroot)) ?_
      · rcases ClosureLoad.mem_seen_unseen.1 hother with hother | hfresh
        · rcases hseen other hother with hpassed | hqueue
          · exact .inl (List.mem_cons_of_mem _ hpassed)
          · rcases List.mem_cons.1 hqueue with rfl | hqueue
            · exact .inl List.mem_cons_self
            · exact .inr (List.mem_append_left _ hqueue)
        · exact .inr (List.mem_append_right _ hfresh)
      · rw [Host.nodesAtHand_congr hsame, List.length_cons]
        omega

end Drafting

namespace Host

variable {host host' : Host} {marks : List Milestone}

/-- The host with milestones that have just been passed. -/
def marked (host : Host) (marks : List Milestone) : Host :=
  { host with chronicle := marks ++ host.chronicle }

theorem later_marked (host : Host) (marks : List Milestone) : Later host (host.marked marks) where
  keeps := ⟨fun _ => id, fun _ => id, fun _ _ => id, fun _ _ => id, fun _ _ => id⟩
  records _ record hrecord := ⟨record, hrecord, .refl record⟩
  settings _ _ := rfl
  chronicle := List.suffix_append _ _

/-- Entering an entry writes no milestone. -/
theorem marked_entered (marks : List Milestone) {node : Node} {entry : Entry}
    (hlater : Later host (host.entered node entry)) :
    Later (host.marked marks) ((host.marked marks).entered node entry) where
  keeps := ⟨hlater.keeps.built, hlater.keeps.records, hlater.keeps.entryAt?, hlater.keeps.promise?,
    hlater.keeps.serves⟩
  records := hlater.records
  settings := hlater.settings
  chronicle := List.suffix_refl _

/-- Nobody has followed the aliases of a node that nobody has begun to load. -/
theorem LoadsInOrder.no_stands_of_idle (h : host.LoadsInOrder) {node : Node}
    (hpromise : host.promise? node = none) (hload : host.loadAt? node = none) (target : Node) :
    .stands node target ∉ host.chronicle := by
  intro hmem
  obtain ⟨record, -, hstands | ⟨load, bell, work, hdriven, rfl⟩⟩ := h.stands node target hmem
  · cases hpromise.symm.trans hstands
  · cases hload.symm.trans (h.flight load work ⟨bell, .inr hdriven⟩).2.1

/-- The aliases of nodes that stand for nothing yet may be written down, each once. -/
theorem Traced.markAll (h : host.Traced) : ∀ aliases : List (Node × Node),
    (aliases.map Prod.fst).Nodup → (∀ pair ∈ aliases, host.promise? pair.1 = none ∧
      ∀ target, .stands pair.1 target ∉ host.chronicle) →
        (host.marked (aliases.map fun pair => .stands pair.1 pair.2)).Traced ∧
          Traces host (host.marked (aliases.map fun pair => .stands pair.1 pair.2))
  | [], _, _ => ⟨h, .refl host⟩
  | (node, target) :: rest, hnodup, hfresh => by
    obtain ⟨hnode, hrest⟩ := List.nodup_cons.1 hnodup
    obtain ⟨hmarked, htraces⟩ := Traced.markAll h rest hrest fun pair hmem =>
      hfresh pair (List.mem_cons_of_mem _ hmem)
    obtain ⟨hnone, hold⟩ := hfresh (node, target) List.mem_cons_self
    obtain ⟨hmarked', htraces'⟩ := hmarked.mark node target
      (fun other hmem => by
        rcases List.mem_append.1 hmem with hmem | hmem
        · obtain ⟨pair, hpair, heq⟩ := List.mem_map.1 hmem
          refine hnode (List.mem_map.2 ⟨pair, hpair, ?_⟩)
          cases heq
          rfl
        · exact hold other hmem) hnone
    exact ⟨hmarked', htraces.trans htraces'⟩

/-- The entry may enter once the earlier ones have: its record was made for the node, or a target of the
node stands for its record by then. -/
structure Sources (host : Host) (earlier : Draft) (node : Node) (entry : Entry) : Prop where
  exist : (host.records.get? entry.record).isSome
  sits : host.Sits node entry
  source : (entry = .own entry.record ∧ host.ownNode entry.record = node ∧
      (host.promise? node = none → ∀ target, .stands node target ∉ host.chronicle)) ∨
    ∃ target, .stands node target ∈ host.chronicle ∧ (host.promise? target = some entry.record ∨
      ∃ other, (target, other) ∈ earlier ∧ other.record = entry.record)

/-- One of the earlier ones has entered. -/
theorem Sources.step (hlater : Later host host') (hchronicle : host'.chronicle = host.chronicle)
    {first : Node} {found : Entry} (hfirst : host'.promise? first = some found.record)
    {earlier : Draft} {node : Node} {entry : Entry}
    (h : host.Sources ((first, found) :: earlier) node entry) : host'.Sources earlier node entry where
  exist := hlater.keeps.records _ h.exist
  sits := hlater.sits h.exist h.sits
  source := by
    rw [hchronicle]
    rcases h.source with ⟨hown, hnode, hfresh⟩ | ⟨target, hstands, htarget⟩
    · refine .inl ⟨hown, (hlater.ownNode h.exist).trans hnode, fun hnone => hfresh ?_⟩
      cases hold : host.promise? node with
      | none => rfl
      | some ref => cases hnone.symm.trans (hlater.keeps.promise? node ref hold)
    · refine .inr ⟨target, hstands, ?_⟩
      rcases htarget with hpromise | ⟨other, hmem, hrecord⟩
      · exact .inl (hlater.keeps.promise? target _ hpromise)
      · rcases List.mem_cons.1 hmem with heq | hmem
        · cases heq
          exact .inl (hrecord ▸ hfirst)
        · exact .inr ⟨other, hmem, hrecord⟩

theorem Sources.mono {earlier earlier' : Draft} (hsub : ∀ pair ∈ earlier, pair ∈ earlier')
    {node : Node} {entry : Entry} (h : host.Sources earlier node entry) :
    host.Sources earlier' node entry where
  exist := h.exist
  sits := h.sits
  source := by
    refine h.source.imp_right ?_
    rintro ⟨target, hstands, htarget⟩
    refine ⟨target, hstands, htarget.imp_right ?_⟩
    rintro ⟨other, hmem, hrecord⟩
    exact ⟨other, hsub _ hmem, hrecord⟩

/-- An entry that no other has to enter before. -/
theorem Sources.stems {node : Node} {entry : Entry} (h : host.Sources [] node entry) :
    host.Stems node entry where
  exist := h.exist
  sits := h.sits
  source := by
    rcases h.source with ⟨hown, hnode, -⟩ | ⟨target, hstands, hpromise | ⟨other, hmem, -⟩⟩
    · exact .inl ⟨hown, hnode⟩
    · exact .inr ⟨target, hstands, hpromise⟩
    · cases hmem

theorem Traced.fresh (htraced : host.Traced) {node : Node} {entry : Entry}
    (h : host.Sources [] node entry) (hnone : host.promise? node = none)
    (hown : host.ownNode entry.record = node) (target : Node) :
    .stands node target ∉ host.chronicle := by
  rcases h.source with ⟨-, -, hfresh⟩ | ⟨other, -, hpromise | ⟨_, hmem, -⟩⟩
  · exact hfresh hnone target
  · have hcomes := (htraced.comesTo other _ hpromise).own_promise.2
    rw [hown, hnone] at hcomes
    cases hcomes
  · cases hmem

end Host

/-- Entries enter one after another while the aliases are already written down. -/
theorem Act.enterAll_marked {marks : List Milestone} : ∀ (entries : List (Node × Entry)) {host : Host},
    host.LoadsInOrder → host.Enterables entries → (host.marked marks).Traced →
      (∀ before node entry after, entries = before ++ (node, entry) :: after →
        (host.marked marks).Sources before node entry) →
        After host (enterAll entries) fun _ host' => (host'.marked marks).Traced ∧
          Traces (host.marked marks) (host'.marked marks) ∧
            ∀ node ∈ entries.map Prod.fst, (host'.entryAt? node).isSome
  | [], host, _, _, htraced, _ => ⟨htraced, .refl _, fun _ hmem => absurd hmem List.not_mem_nil⟩
  | (node, entry) :: rest, host, h, hentries, htraced, hsources => by
    obtain ⟨hnode, hvalid, henter⟩ := hentries.each node entry List.mem_cons_self
    obtain ⟨horder, hgrows⟩ := Host.entered_loads h hnode hvalid henter
    have hlater := Host.marked_entered marks hgrows.later
    have hfirst := hsources [] node entry rest rfl
    obtain ⟨htraced', htraces⟩ := htraced.entered hnode henter hlater hfirst.stems
      (htraced.fresh hfirst)
    have hentered : After host (enter node entry) fun _ host' => host' = host.entered node entry := rfl
    unfold enterAll
    rw [after_bind]
    refine hentered.mono ?_
    rintro _ _ rfl
    refine After.mono (.and (enterAll_loads rest horder (hentries.tail h))
      (enterAll_marked rest horder (hentries.tail h) htraced' fun before other found after heq => ?_))
        fun _ last hlast => ?_
    · refine (hsources ((node, entry) :: before) other found after ?_).step hlater rfl
        (Host.promise?_entered hnode henter)
      rw [heq]
      rfl
    · obtain ⟨⟨-, hgrows', -⟩, hlast, htraces', hall⟩ := hlast
      refine ⟨hlast, htraces.trans htraces', fun other hmem => ?_⟩
      rcases List.mem_cons.1 hmem with rfl | hmem
      · exact Host.isSome_later hgrows'.later (Host.isSome_entered hnode entry)
      · exact hall other hmem

/-- The milestones of the aliases of a draft. -/
def Drafted.marks (drafted : Drafted) : List Milestone :=
  drafted.aliases.map fun pair => .stands pair.1 pair.2

/-- The entries of a draft may enter in their order, and all that can be reached from the root is
memoized or drafted. -/
structure Drafted.Traced (host : Host) (root : Node) (drafted : Drafted) : Prop where
  sources : ∀ before node entry after, drafted.entries = before ++ (node, entry) :: after →
    (host.marked drafted.marks).Sources before node entry
  nodup : (drafted.aliases.map Prod.fst).Nodup
  fresh : ∀ pair ∈ drafted.aliases, host.promise? pair.1 = none ∧
    ∀ target, .stands pair.1 target ∉ host.chronicle
  whole : ∃ passed, root ∈ passed ∧
    ∀ node ∈ passed, Drafting.Passes host ⟨drafted.entries, drafted.aliases⟩ passed node

/-- A draft that enters makes its closure whole. -/
theorem Act.enterDraft_tracks {host : Host} (h : host.LoadsInOrder) (htraced : host.Traced)
    {root : Node} {drafted : Drafted} (hgood : drafted.Good host) (hdrafted : drafted.Traced host root) :
    (enterDraft drafted).Tracks host fun _ host' => host'.Covered root := by
  obtain ⟨hmarked, htraces⟩ := htraced.markAll drafted.aliases hdrafted.nodup hdrafted.fresh
  unfold enterDraft Tracks
  rw [after_bind]
  refine After.mono (.and (enterAll_loads drafted.entries h hgood.entries)
    (enterAll_marked drafted.entries h hgood.entries hmarked hdrafted.sources)) fun _ last hlast => ?_
  obtain ⟨⟨-, hgrows, hpromised⟩, hlast, htraces', hall⟩ := hlast
  have hlater : Later host (last.marked drafted.marks) :=
    hgrows.later.trans (Host.later_marked last drafted.marks)
  refine ⟨hlast, htraces.trans htraces', ?_⟩
  obtain ⟨passed, hroot, hpasses⟩ := hdrafted.whole
  refine ⟨passed, hroot, fun node hmem => ?_⟩
  cases hpasses node hmem with
  | memoized hentry hexpands =>
    exact ⟨Host.isSome_later hlater hentry, hexpands.later hlater fun _ => id⟩
  | @entry entry nodes hentry hstems hon hnext =>
    refine ⟨hall node (List.mem_map_of_mem hentry), ⟨entry, nodes, false⟩, ⟨hlater.stems hstems,
      hlater.leadsOn hstems.exist hon, fun hmemo => ?_⟩, hpromised node entry hentry, hnext⟩
    cases hmemo
  | along halias htarget =>
    rename_i target
    obtain ⟨-, entry, hentry, -⟩ := hgood.aliases node target halias
    have hsome := hall node (List.mem_map_of_mem hentry)
    obtain ⟨found, hfound⟩ := Option.isSome_iff_exists.1 hsome
    have hstands : .stands node target ∈ (last.marked drafted.marks).chronicle :=
      List.mem_append_left _ (List.mem_map.2 ⟨(node, target), halias, rfl⟩)
    refine ⟨hsome, ⟨found, [target], false⟩, ⟨hlast.memo node found hfound,
      .inr ⟨target, hstands, rfl⟩, fun hmemo => ?_⟩, Host.promise?_of_entry hfound, fun next hnext => ?_⟩
    · cases hmemo
    · obtain rfl := List.mem_singleton.1 hnext
      exact htarget

namespace Drafting

variable {host : Host} {marks : List Milestone}

/-- Each entry of a draft may enter once those that were drafted before it have. -/
def Ordered (host : Host) (draft : Draft) : Prop :=
  ∀ later node entry earlier, draft = later ++ (node, entry) :: earlier →
    host.Sources earlier node entry

theorem Ordered.cons {draft : Draft} (h : Ordered host draft) {node : Node} {entry : Entry}
    (hfirst : host.Sources draft node entry) : Ordered host ((node, entry) :: draft) := by
  intro later other found earlier heq
  cases later with
  | nil =>
    cases heq
    exact hfirst
  | cons first rest =>
    cases heq
    exact h rest other found earlier rfl

theorem Ordered.of_mem {draft : Draft} (h : Ordered host draft) {node : Node} {entry : Entry}
    (hmem : (node, entry) ∈ draft) : ∃ earlier, host.Sources earlier node entry := by
  obtain ⟨later, earlier, heq⟩ := List.append_of_mem hmem
  exact ⟨earlier, h later node entry earlier heq⟩

/-- An alias gets the entry of its target, which entered before or is memoized. -/
theorem resolveAliases_ordered (h : (host.marked marks).Traced) : ∀ (aliases : List (Node × Node))
    {draft draft' : Draft}, resolveAliases host draft aliases = .ok draft' →
      Ordered (host.marked marks) draft →
        (∀ node target, (node, target) ∈ aliases → .stands node target ∈ marks) →
          Ordered (host.marked marks) draft'
  | [], _, _, heq, hordered, _ => by
    cases heq
    exact hordered
  | (node, target) :: rest, draft, draft', heq, hordered, hmarks => by
    unfold resolveAliases at heq
    dsimp only at heq
    split at heq
    · cases heq
    · rename_i entry hfound
      have hentry : (host.records.get? entry.record).isSome ∧ host.Sits target entry ∧
          (host.promise? target = some entry.record ∨
            ∃ other, (target, other) ∈ draft ∧ other.record = entry.record) := by
        split at hfound
        · rename_i hget
          cases hfound
          have hmem := mem_of_get? hget
          obtain ⟨earlier, hsources⟩ := hordered.of_mem hmem
          exact ⟨hsources.exist, hsources.sits, .inr ⟨entry, hmem, rfl⟩⟩
        · unfold Host.entryOf at hfound
          split at hfound
          · rename_i hmemo
            cases hfound
            have hstems := h.memo target entry hmemo
            exact ⟨hstems.exist, hstems.sits, .inl (Host.promise?_of_entry hmemo)⟩
          · cases hfound
      obtain ⟨hexist, hsits, hsource⟩ := hentry
      refine resolveAliases_ordered h rest heq (hordered.cons ?_) fun node target hmem =>
        hmarks node target (List.mem_cons_of_mem _ hmem)
      have hmark : .stands node target ∈ (host.marked marks).chronicle :=
        List.mem_append_left _ (hmarks node target List.mem_cons_self)
      have hrecord : (host.seenFrom node target entry).record = entry.record :=
        Host.seenFrom_record node target entry
      have hplace : host.Sits node (host.seenFrom node target entry) := Host.sits_seenFrom hsits
      refine ⟨?_, hplace, .inr ⟨target, hmark, ?_⟩⟩
      · change (host.records.get? (host.seenFrom node target entry).record).isSome
        rw [hrecord]
        exact hexist
      · change host.promise? target = some (host.seenFrom node target entry).record ∨
          ∃ other, (target, other) ∈ draft ∧ other.record = (host.seenFrom node target entry).record
        rw [hrecord]
        exact hsource

/-- A drafting that passed all nodes seen becomes a draft that makes its closure whole. -/
theorem Traced.drafted (h : host.LoadsInOrder) (htraced : host.Traced) {drafting : Drafting}
    {root : Node} {passed : List Node} (hroot : root ∈ passed) (hgood : drafting.Good host passed)
    (hdrafting : drafting.Traced host passed passed) {draft : Draft}
    (hdraft : resolveAliases host drafting.draft drafting.aliases.reverse = .ok draft) :
    Drafted.Traced host root ⟨draft.reverse, drafting.aliases⟩ := by
  obtain ⟨-, haliases, happart⟩ := List.nodup_append.1 hgood.nodup
  have hfresh (pair : Node × Node) (hmem : pair ∈ drafting.aliases) :
      host.promise? pair.1 = none ∧ ∀ target, .stands pair.1 target ∉ host.chronicle := by
    obtain ⟨-, -, hpromise, hload⟩ := hgood.aliases pair.1 pair.2 hmem
    exact ⟨hpromise, h.no_stands_of_idle hpromise hload⟩
  have hmarked := (htraced.markAll drafting.aliases haliases hfresh).1
  -- Nothing that was drafted itself is an alias.
  have hordered : Ordered (host.marked (Drafted.marks ⟨draft.reverse, drafting.aliases⟩))
      drafting.draft := by
    intro later node entry earlier heq
    have hmem : (node, entry) ∈ drafting.draft :=
      heq ▸ List.mem_append_right _ List.mem_cons_self
    have hstems := hdrafting.entries _ hmem
    refine ⟨hstems.exist, hstems.sits, ?_⟩
    rcases hstems.source with ⟨hown, hnode⟩ | ⟨target, hstands, htarget⟩
    · refine .inl ⟨hown, hnode, fun hnone target hstands => ?_⟩
      rcases List.mem_append.1 hstands with hmark | hold
      · obtain ⟨pair, hpair, heq⟩ := List.mem_map.1 hmark
        refine happart node (List.mem_map_of_mem hmem) pair.1 (List.mem_map_of_mem hpair) ?_
        cases heq
        rfl
      · obtain ⟨-, -, henter⟩ := hgood.entries node entry hmem
        rcases henter with hsome | ⟨-, hload⟩
        · cases hsome.symm.trans hnone
        · exact h.no_stands_of_idle hnone hload target hold
    · exact .inr ⟨target, List.mem_append_right _ hstands, .inl htarget⟩
  have hall := resolveAliases_ordered hmarked drafting.aliases.reverse hdraft hordered
    fun node target hmem => List.mem_map.2 ⟨(node, target), List.mem_reverse.1 hmem, rfl⟩
  obtain ⟨hsub, -⟩ := resolveAliases_follows h _ hdraft
    (fun pair hmem => (hgood.entries pair.1 pair.2 hmem).2.1)
    fun node target hmem => (hgood.aliases node target (List.mem_reverse.1 hmem)).2.1
  refine ⟨fun before node entry after heq => ?_, haliases, hfresh, passed, hroot, fun node hmem => ?_⟩
  · have heq : draft = after.reverse ++ (node, entry) :: before.reverse := by
      have heq : draft.reverse = before ++ (node, entry) :: after := heq
      rw [← List.reverse_reverse draft, heq]
      simp
    exact (hall _ node entry _ heq).mono fun pair hmem => List.mem_reverse.1 hmem
  · refine Passes.later (.refl host) (fun pair hpair => ?_) (fun pair hpair => ?_) (fun _ => id)
      (hdrafting.passes node hmem)
    · exact List.mem_reverse.2 (hsub pair hpair)
    · exact hpair

end Drafting

/-- What is drafted makes the closure of the key whole as soon as it enters. -/
theorem Act.draft_tracks {host : Host} (h : host.LoadsInOrder) (htraced : host.Traced) {root : Node}
    (hroot : host.Built root.compartment) : (draft root).Tracks host fun result host' =>
      ∀ drafted, result = .ok drafted → drafted.Traced host' root := by
  refine .getBind ?_
  have hnone {α : Type} (holds : α → Prop) (item : α) (hmem : item ∈ ([] : List α)) : holds item :=
    absurd hmem List.not_mem_nil
  have hgood : Drafting.Good host ⟨[], []⟩ [] :=
    ⟨fun _ _ hmem => absurd hmem List.not_mem_nil, fun _ _ hmem => absurd hmem List.not_mem_nil,
      List.nodup_nil, hnone _⟩
  have hahead : Drafting.Ahead host [root] [root] [] := by
    refine ⟨List.pairwise_singleton _ _, fun node hmem => ?_, hnone _⟩
    obtain rfl := List.mem_singleton.1 hmem
    exact ⟨List.mem_singleton_self node, List.not_mem_nil, hroot⟩
  have hdrafting : Drafting.Traced host ⟨[], []⟩ [root] [] := ⟨hnone _, hnone _, hnone _⟩
  refine Tracks.bind (.loads (Drafting.collect_loads _ h hgood hahead)
    (Drafting.collect_tracks root _ h htraced hgood hahead hdrafting List.nodup_nil
      (fun _ hmem => .inr hmem) (List.mem_singleton_self root) (Nat.lt_succ_self _)))
        fun result after hafter _ hpost => ?_
  obtain ⟨⟨horder, -, -⟩, hall⟩ := hpost
  cases result with
  | error failure =>
    refine .pure hafter ?_
    rintro _ ⟨⟩
  | ok drafting =>
    obtain ⟨passed, hroot, hgood, hdrafting⟩ := hall drafting rfl
    refine .getBind ?_
    split
    · refine .pure hafter ?_
      rintro _ ⟨⟩
    · rename_i draft hdraft
      refine .pure hafter ?_
      rintro _ ⟨⟩
      exact hdrafting.drafted horder hafter hroot hgood hdraft

end ModuleLoader
