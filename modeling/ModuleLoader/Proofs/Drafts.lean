import ModuleLoader.Proofs.Closures
import ModuleLoader.Loading.Draft
/-!
A closure that is drafted and then entered at once keeps all promises as well, and its aliases stand
for the records of their targets.
-/

namespace ModuleLoader
set_option autoImplicit false

/-- The memos and the loads are the same. -/
structure Still (host host' : Host) : Prop where
  entryAt? : ∀ node, host'.entryAt? node = host.entryAt? node
  loadAt? : ∀ node, host'.loadAt? node = host.loadAt? node
  promise? : ∀ node, host'.promise? node = host.promise? node

namespace Still

variable {a b c host host' : Host}

theorem refl (host : Host) : Still host host := ⟨fun _ => rfl, fun _ => rfl, fun _ => rfl⟩

theorem trans (hab : Still a b) (hbc : Still b c) : Still a c :=
  ⟨fun node => (hbc.entryAt? node).trans (hab.entryAt? node),
    fun node => (hbc.loadAt? node).trans (hab.loadAt? node),
    fun node => (hbc.promise? node).trans (hab.promise? node)⟩

theorem of_quiet (h : Quiet host host') : Still host host' :=
  ⟨h.entryAt?, h.loadAt?, h.promise?⟩

theorem enterable (h : Still host host') {node : Node} {entry : Entry} :
    host'.Enterable node entry ↔ host.Enterable node entry := by
  unfold Host.Enterable
  rw [h.promise? node, h.loadAt? node]

end Still

namespace Act

/-- Interpreting a descriptor only makes records and namespaces. -/
theorem interpret_adds (host : Host) (node : Node) (descriptor : Descriptor) :
    After host (interpret node descriptor) fun _ host' =>
      ∃ store records, host' = { host with store, records } := by
  have hmodule (source : Source) : After host (newModule node source) fun _ host' =>
      ∃ store records, host' = { host with store, records } := by
    unfold newModule
    rw [after_bind, after_get]
    dsimp only
    split
    · exact ⟨_, _, rfl⟩
    · exact ⟨_, _, rfl⟩
  unfold interpret
  split
  · exact hmodule _
  · exact hmodule _
  · exact ⟨host.store, _, rfl⟩
  · exact ⟨_, _, rfl⟩
  · exact ⟨_, _, rfl⟩
  · exact ⟨_, _, rfl⟩
  · split <;> exact ⟨_, _, rfl⟩
  · rw [after_bind, after_get]
    split <;> exact ⟨_, _, rfl⟩

theorem interpret_still (host : Host) (node : Node) (descriptor : Descriptor) :
    After host (interpret node descriptor) fun _ host' => Still host host' := by
  refine (interpret_adds host node descriptor).mono fun _ host' hadds => ?_
  obtain ⟨store, records, rfl⟩ := hadds
  exact ⟨fun _ => rfl, fun _ => rfl, fun _ => rfl⟩

end Act

/-- The drafted entries may enter, and the aliases found so far are new. Only the nodes passed are
mentioned, each once. -/
structure Drafting.Good (host : Host) (drafting : Drafting) (passed : List Node) : Prop where
  entries : ∀ node entry, (node, entry) ∈ drafting.draft →
    host.Built node.compartment ∧ entry.Valid host ∧ host.Enterable node entry
  aliases : ∀ node target, (node, target) ∈ drafting.aliases →
    host.Built node.compartment ∧ host.Built target.compartment ∧
      host.promise? node = none ∧ host.loadAt? node = none
  nodup : (drafting.draft.map Prod.fst ++ drafting.aliases.map Prod.fst).Nodup
  passed : ∀ node ∈ drafting.draft.map Prod.fst ++ drafting.aliases.map Prod.fst, node ∈ passed

/-- A drafted closure may enter: an alias comes with an entry for the record of its target. -/
structure Drafted.Good (host : Host) (drafted : Drafted) : Prop where
  entries : host.Enterables drafted.entries
  aliases : ∀ node target, (node, target) ∈ drafted.aliases → ¬ host.Driven node ∧
    ∃ entry, (node, entry) ∈ drafted.entries ∧
      ((∃ other, (target, other) ∈ drafted.entries ∧ other.record = entry.record) ∨
        host.promise? target = some entry.record)

namespace Drafting

variable {host : Host}

theorem Good.later {host' : Host} (hgrows : Grows host host') (hstill : Still host host')
    {drafting : Drafting} {passed : List Node} (h : drafting.Good host passed) :
    drafting.Good host' passed := by
  refine ⟨fun node entry hmem => ?_, fun node target hmem => ?_, h.nodup, h.passed⟩
  · obtain ⟨hbuilt, hvalid, henter⟩ := h.entries node entry hmem
    exact ⟨(hgrows.built _).2 hbuilt, hgrows.entry_valid hvalid, hstill.enterable.2 henter⟩
  · obtain ⟨hbuilt, htarget, hpromise, hload⟩ := h.aliases node target hmem
    exact ⟨(hgrows.built _).2 hbuilt, (hgrows.built _).2 htarget,
      (hstill.promise? node).trans hpromise, (hstill.loadAt? node).trans hload⟩

theorem Good.pass {drafting : Drafting} {passed : List Node} (h : drafting.Good host passed)
    (node : Node) : drafting.Good host (node :: passed) :=
  ⟨h.entries, h.aliases, h.nodup, fun other hmem => List.mem_cons_of_mem _ (h.passed other hmem)⟩

theorem Good.addEntry {drafting : Drafting} {passed : List Node} (h : drafting.Good host passed)
    {node : Node} {entry : Entry} (hnew : node ∉ passed) (hbuilt : host.Built node.compartment)
    (hvalid : entry.Valid host) (henter : host.Enterable node entry) :
    Good host { drafting with draft := (node, entry) :: drafting.draft } (node :: passed) := by
  refine ⟨fun other entry' hmem => ?_, h.aliases, ?_, fun other hmem => ?_⟩
  · rcases List.mem_cons.1 hmem with heq | hmem
    · cases heq
      exact ⟨hbuilt, hvalid, henter⟩
    · exact h.entries other entry' hmem
  · exact List.nodup_cons.2 ⟨fun hmem => hnew (h.passed node hmem), h.nodup⟩
  · rcases List.mem_cons.1 hmem with rfl | hmem
    · exact List.mem_cons_self
    · exact List.mem_cons_of_mem _ (h.passed other hmem)

theorem Good.addAlias {drafting : Drafting} {passed : List Node} (h : drafting.Good host passed)
    {node target : Node} (hnew : node ∉ passed) (hbuilt : host.Built node.compartment)
    (htarget : host.Built target.compartment) (hpromise : host.promise? node = none)
    (hload : host.loadAt? node = none) :
    Good host { drafting with aliases := (node, target) :: drafting.aliases }
      (node :: passed) := by
  refine ⟨h.entries, fun other target' hmem => ?_, ?_, fun other hmem => ?_⟩
  · rcases List.mem_cons.1 hmem with heq | hmem
    · cases heq
      exact ⟨hbuilt, htarget, hpromise, hload⟩
    · exact h.aliases other target' hmem
  · refine List.perm_middle.nodup_iff.2 (List.nodup_cons.2 ⟨?_, h.nodup⟩)
    exact fun hmem => hnew (h.passed node hmem)
  · rcases List.mem_append.1 hmem with hmem | hmem
    · exact List.mem_cons_of_mem _ (h.passed other (List.mem_append_left _ hmem))
    · rcases List.mem_cons.1 hmem with rfl | hmem
      · exact List.mem_cons_self
      · exact List.mem_cons_of_mem _ (h.passed other (List.mem_append_right _ hmem))

/-- What a visit of `node` comes to. -/
def Visited (passed : List Node) (node : Node) (host : Host)
    (result : Except Failure (Drafting × List Node)) (host' : Host) : Prop :=
  Still host host' ∧ ∀ drafting next, result = .ok (drafting, next) →
    drafting.Good host' (node :: passed) ∧ ∀ other ∈ next, host'.Built other.compartment

/-- Drafts a node by what its descriptor comes to. -/
def place (drafting : Drafting) (node : Node) :
    Except Failure Interpreted → Act (Except Failure (Drafting × List Node))
  | .error failure => return .error failure
  | .ok (.entry entry) =>
    return .ok ({ drafting with draft := (node, entry) :: drafting.draft },
      (← get).continuations node.compartment entry)
  | .ok (.elsewhere target) => do
    match ← Act.followAtOnce ((← get).nodesAtHand.length + 2) [node] target with
    | .error failure => return .error failure
    | .ok target =>
      return .ok ({ drafting with aliases := (node, target) :: drafting.aliases }, [target])

/-- Drafts a node that nobody has begun to load. -/
def describe (drafting : Drafting) (node : Node) : Act (Except Failure (Drafting × List Node)) := do
  match ← Act.describeAtOnce node with
  | .error failure => return .error failure
  | .ok descriptor => drafting.place node (← Act.interpret node descriptor)

theorem visit_eq (drafting : Drafting) (node : Node) : drafting.visit node = (do
    let host ← get
    match host.delivered? node with
    | some delivery => return .ok (drafting, delivery.continuations)
    | none =>
      match host.loadAt? node with
      | some load =>
        match host.loadedInFlight? load with
        | some delivery =>
          return .ok ({ drafting with draft := (node, delivery.entry) :: drafting.draft },
            delivery.continuations)
        | none => return .error (.unavailable node.key .loading)
      | none => drafting.describe node) :=
  rfl

section
variable {drafting : Drafting} {passed : List Node} {node : Node}

theorem Visited.error {failure : Failure} {host' : Host} (h : Still host host') :
    Visited passed node host (.error failure) host' :=
  ⟨h, nofun⟩

theorem Visited.later {middle last : Host} {result : Except Failure (Drafting × List Node)}
    (hstill : Still host middle) (h : Visited passed node middle result last) :
    Visited passed node host result last :=
  ⟨hstill.trans h.1, h.2⟩

theorem place_loads (h : host.LoadsInOrder) (hgood : drafting.Good host passed) (hnew : node ∉ passed)
    (hbuilt : host.Built node.compartment) (hpromise : host.promise? node = none)
    (hload : host.loadAt? node = none) {interpreted : Except Failure Interpreted}
    (hunderstood : Act.Understood interpreted host) :
    (drafting.place node interpreted).Loads host (Visited passed node host) := by
  rcases interpreted with failure | (entry | target)
  · exact .pure h (.error (.refl host))
  · have hvalid : entry.Valid host := hunderstood
    refine .getBind (.pure h ⟨.refl host, ?_⟩)
    rintro _ _ ⟨⟩
    exact ⟨hgood.addEntry hnew hbuilt hvalid (.inr ⟨hpromise, hload⟩),
      Host.continuations_built hbuilt hvalid⟩
  · have htarget : host.Built target.compartment := hunderstood
    refine .getBind ?_
    refine Act.Loads.bind (.quietly (Act.followAtOnce_aside _ _ _).quiet h
      (Act.followAtOnce_built _ _ _ host h.grounded htarget)) ?_
    rintro followed last hlast hgrows ⟨hquiet, hfollowed⟩
    have hstill := Still.of_quiet hquiet
    cases followed with
    | error failure => exact .pure hlast (.error hstill)
    | ok target =>
      have htarget := hfollowed target rfl
      refine .pure hlast ⟨hstill, ?_⟩
      rintro _ _ ⟨⟩
      refine ⟨(hgood.later hgrows hstill).addAlias hnew ((hgrows.built _).2 hbuilt) htarget
        ((hstill.promise? node).trans hpromise) ((hstill.loadAt? node).trans hload), fun other hmem => ?_⟩
      obtain rfl := List.mem_singleton.1 hmem
      exact htarget

theorem describe_loads (h : host.LoadsInOrder) (hgood : drafting.Good host passed) (hnew : node ∉ passed)
    (hbuilt : host.Built node.compartment) (hpromise : host.promise? node = none)
    (hload : host.loadAt? node = none) :
    (drafting.describe node).Loads host (Visited passed node host) := by
  refine Act.Loads.bind (.quietly (Act.describeAtOnce_aside node).quiet h
    (Act.describeAtOnce_grounded h.grounded node)) ?_
  rintro described asked hasked hgrows ⟨hquiet, hdescribed⟩
  have hstill := Still.of_quiet hquiet
  cases described with
  | error failure => exact .pure hasked (.error hstill)
  | ok descriptor =>
    have hbuilt := (hgrows.built _).2 hbuilt
    have hinterpret : (Act.interpret node descriptor).Loads asked fun result host' =>
        Still asked host' ∧ Act.Understood result host' := by
      obtain ⟨horder, hgrows', hpost⟩ := Act.interpret_loads hasked hbuilt (hdescribed descriptor rfl)
      exact ⟨horder, hgrows', Act.interpret_still asked node descriptor, hpost⟩
    refine Act.Loads.bind hinterpret ?_
    rintro result after hafter hgrows' ⟨hstill', hpost⟩
    have hstill := hstill.trans hstill'
    refine (place_loads hafter (hgood.later (hgrows.trans hgrows') hstill) hnew
      ((hgrows'.built _).2 hbuilt) ((hstill.promise? node).trans hpromise)
        ((hstill.loadAt? node).trans hload) hpost).mono fun _ _ _ _ hvisited => ?_
    exact hvisited.later hstill

theorem visit_loads (h : host.LoadsInOrder) (hgood : drafting.Good host passed) (hnew : node ∉ passed)
    (hbuilt : host.Built node.compartment) :
    (drafting.visit node).Loads host (Visited passed node host) := by
  rw [visit_eq]
  refine .getBind ?_
  split
  · rename_i delivery hdelivered
    refine .pure h ⟨.refl host, ?_⟩
    rintro _ _ ⟨⟩
    exact ⟨hgood.pass node, (h.delivered?_valid hdelivered).1.built⟩
  · rename_i hdelivered
    have hentry : host.entryAt? node = none := by
      simpa [Host.delivered?] using hdelivered
    split
    · rename_i load hload
      split
      · rename_i delivery hlanded
        have hvalid : delivery.Valid host := h.landed_valid hlanded
        have hpromise : host.promise? node = some delivery.entry.record := by
          unfold Host.promise?
          rw [hentry, hload]
          simp [hlanded]
        refine .pure h ⟨.refl host, ?_⟩
        rintro _ _ ⟨⟩
        exact ⟨hgood.addEntry hnew hbuilt hvalid.entry (.inl hpromise), hvalid.built⟩
      · exact .pure h (.error (.refl host))
    · rename_i hload
      have hpromise : host.promise? node = none := by
        unfold Host.promise?
        rw [hentry, hload]
        rfl
      exact describe_loads h hgood hnew hbuilt hpromise hload

end

/-- The nodes of the queue were seen and not passed yet. -/
structure Ahead (host : Host) (seen queue passed : List Node) : Prop where
  nodup : queue.Nodup
  queue : ∀ node ∈ queue, node ∈ seen ∧ node ∉ passed ∧ host.Built node.compartment
  passed : ∀ node ∈ passed, node ∈ seen

theorem Ahead.next {seen queue passed next : List Node} {node : Node}
    (h : Ahead host seen (node :: queue) passed) {host' : Host} (hgrows : Grows host host')
    (hnext : ∀ other ∈ next, host'.Built other.compartment) :
    Ahead host' (ClosureLoad.unseen seen next).2 (queue ++ (ClosureLoad.unseen seen next).1)
      (node :: passed) := by
  have hnode := h.queue node List.mem_cons_self
  obtain ⟨hfresh, hqueue⟩ := List.nodup_cons.1 h.nodup
  have hold (other : Node) (hmem : other ∈ queue) := h.queue other (List.mem_cons_of_mem _ hmem)
  refine ⟨?_, fun other hmem => ?_, fun other hmem => ?_⟩
  · refine List.nodup_append.2 ⟨hqueue, ClosureLoad.nodup_unseen _ _, ?_⟩
    rintro other hmem _ hmem' rfl
    exact ClosureLoad.not_mem_of_mem_unseen hmem' (hold other hmem).1
  · rw [ClosureLoad.mem_seen_unseen]
    rcases List.mem_append.1 hmem with hmem | hmem
    · obtain ⟨hseen, hnew, hbuilt⟩ := hold other hmem
      refine ⟨.inl hseen, fun hpassed => ?_, (hgrows.built _).2 hbuilt⟩
      rcases List.mem_cons.1 hpassed with rfl | hpassed
      · exact hfresh hmem
      · exact hnew hpassed
    · have hseen := ClosureLoad.not_mem_of_mem_unseen hmem
      refine ⟨.inr hmem, fun hpassed => hseen ?_, hnext other (ClosureLoad.mem_of_mem_unseen hmem)⟩
      rcases List.mem_cons.1 hpassed with rfl | hpassed
      · exact hnode.1
      · exact h.passed other hpassed
  · rw [ClosureLoad.mem_seen_unseen]
    rcases List.mem_cons.1 hmem with rfl | hmem
    · exact .inl hnode.1
    · exact .inl (h.passed other hmem)

/-- What the collection of a closure comes to. -/
def Collected (host : Host) (result : Except Failure Drafting) (host' : Host) : Prop :=
  Still host host' ∧ ∀ drafting, result = .ok drafting → ∃ passed, drafting.Good host' passed

theorem collect_loads : ∀ (fuel : Nat) {host : Host} {seen queue passed : List Node}
    {drafting : Drafting}, host.LoadsInOrder → drafting.Good host passed →
      Ahead host seen queue passed →
        (collect fuel seen queue drafting).Loads host (Collected host)
  | 0, host, _, _, passed, drafting, h, hgood, _ => by
    refine .pure h ⟨.refl host, ?_⟩
    rintro _ ⟨⟩
    exact ⟨passed, hgood⟩
  | fuel + 1, host, _, [], passed, drafting, h, hgood, _ => by
    refine .pure h ⟨.refl host, ?_⟩
    rintro _ ⟨⟩
    exact ⟨passed, hgood⟩
  | fuel + 1, host, seen, node :: queue, passed, drafting, h, hgood, hahead => by
    obtain ⟨-, hnew, hbuilt⟩ := hahead.queue node List.mem_cons_self
    refine Act.Loads.bind (visit_loads h hgood hnew hbuilt) fun result after hafter hgrows hpost => ?_
    obtain ⟨hstill, hpost⟩ := hpost
    cases result with
    | error failure =>
      refine .pure hafter ⟨hstill, ?_⟩
      rintro _ ⟨⟩
    | ok found =>
      obtain ⟨drafting, next⟩ := found
      obtain ⟨hgood, hnext⟩ := hpost drafting next rfl
      refine (collect_loads fuel hafter hgood (hahead.next hgrows hnext)).mono ?_
      exact fun _ _ _ _ hpost => ⟨hstill.trans hpost.1, hpost.2⟩

/-- An alias has an entry for the record of its target, which is drafted or memoized. -/
def Follows (host : Host) (draft : Draft) (node target : Node) : Prop :=
  ∃ entry, (node, entry) ∈ draft ∧
    ((∃ other, (target, other) ∈ draft ∧ other.record = entry.record) ∨
      host.promise? target = some entry.record)

theorem Follows.mono {draft draft' : Draft} (hsub : ∀ pair ∈ draft, pair ∈ draft')
    {node target : Node} (h : Follows host draft node target) : Follows host draft' node target := by
  obtain ⟨entry, hmem, hentry⟩ := h
  refine ⟨entry, hsub _ hmem, hentry.imp_left ?_⟩
  rintro ⟨other, hother, hrecord⟩
  exact ⟨other, hsub _ hother, hrecord⟩

theorem mem_of_get? : ∀ {draft : Draft} {node : Node} {entry : Entry},
    draft.get? node = some entry → (node, entry) ∈ draft
  | [], _, _, h => nomatch h
  | (first, found) :: rest, node, entry, h => by
    unfold Draft.get? at h
    split at h
    · rename_i hfirst
      cases h
      exact hfirst ▸ List.mem_cons_self
    · exact List.mem_cons_of_mem _ (mem_of_get? h)

/-- The aliases get their entries one after another; what was drafted stays. -/
theorem resolveAliases_follows (hhost : host.LoadsInOrder) :
    ∀ (aliases : List (Node × Node)) {draft draft' : Draft},
      resolveAliases host draft aliases = .ok draft' →
        (∀ pair ∈ draft, pair.2.Valid host) →
          (∀ node target, (node, target) ∈ aliases → host.Built target.compartment) →
            (∀ pair ∈ draft, pair ∈ draft') ∧ (∀ pair ∈ draft', pair.2.Valid host) ∧
              draft'.map Prod.fst = (aliases.map Prod.fst).reverse ++ draft.map Prod.fst ∧
                ∀ node target, (node, target) ∈ aliases → Follows host draft' node target
  | [], draft, draft', h, hvalid, _ => by
    cases h
    exact ⟨fun _ hmem => hmem, hvalid, rfl, fun _ _ hmem => nomatch hmem⟩
  | (node, target) :: rest, draft, draft', h, hvalid, hbuilt => by
    unfold resolveAliases at h
    dsimp only at h
    split at h
    · cases h
    · rename_i entry hfound
      have htarget := hbuilt node target List.mem_cons_self
      have hentry : entry.Valid host ∧ ((∃ other, (target, other) ∈ draft ∧
          other.record = entry.record) ∨ host.promise? target = some entry.record) := by
        split at hfound
        · rename_i hget
          cases hfound
          have hmem := mem_of_get? hget
          exact ⟨hvalid _ hmem, .inl ⟨entry, hmem, rfl⟩⟩
        · unfold Host.entryOf at hfound
          split at hfound
          · rename_i hmemo
            cases hfound
            exact ⟨hhost.memo target entry hmemo, .inr (Host.promise?_of_entry hmemo)⟩
          · cases hfound
      have hseen : ∃ seen : Entry, (if target.compartment = node.compartment then entry
          else host.abroad target.compartment entry) = seen ∧ seen.Valid host ∧
            seen.record = entry.record := by
        split
        · exact ⟨entry, rfl, hentry.1, rfl⟩
        · exact ⟨_, rfl, Host.abroad_valid htarget hentry.1, Host.abroad_record _ _⟩
      obtain ⟨seen, heq, hseenvalid, hrecord⟩ := hseen
      rw [heq] at h
      obtain ⟨hsub, hvalid', hnodes, hfollows⟩ := resolveAliases_follows hhost rest h
        (fun pair hmem => by
          rcases List.mem_cons.1 hmem with rfl | hmem
          · exact hseenvalid
          · exact hvalid pair hmem)
        fun node target hmem => hbuilt node target (List.mem_cons_of_mem _ hmem)
      refine ⟨fun pair hmem => hsub pair (List.mem_cons_of_mem _ hmem), hvalid', ?_, ?_⟩
      · rw [hnodes]
        simp
      · intro node' target' hmem
        rcases List.mem_cons.1 hmem with heq | hmem
        · cases heq
          refine ⟨seen, hsub _ List.mem_cons_self, ?_⟩
          rw [hrecord]
          refine hentry.2.imp_left ?_
          rintro ⟨other, hother, hrecord'⟩
          exact ⟨other, hsub _ (List.mem_cons_of_mem _ hother), hrecord'⟩
        · exact hfollows node' target' hmem

/-- A drafting becomes a draft that may enter. -/
theorem Good.drafted (h : host.LoadsInOrder) {drafting : Drafting} {passed : List Node}
    (hgood : drafting.Good host passed) {draft : Draft}
    (hdraft : resolveAliases host drafting.draft drafting.aliases.reverse = .ok draft) :
    Drafted.Good host ⟨draft.reverse, drafting.aliases⟩ := by
  obtain ⟨hsub, hvalid, hnodes, hfollows⟩ := resolveAliases_follows h _ hdraft
    (fun pair hmem => (hgood.entries pair.1 pair.2 hmem).2.1)
    fun node target hmem => (hgood.aliases node target (List.mem_reverse.1 hmem)).2.1
  have hnodes : draft.map Prod.fst =
      drafting.aliases.map Prod.fst ++ drafting.draft.map Prod.fst := by
    rw [hnodes, List.map_reverse, List.reverse_reverse]
  have hnodup : (draft.map Prod.fst).Nodup := by
    rw [hnodes]
    exact List.perm_append_comm.nodup_iff.1 hgood.nodup
  have hone (node : Node) (entry entry' : Entry) (hmem : (node, entry) ∈ draft)
      (hmem' : (node, entry') ∈ draft) : entry = entry' := pair_unique hnodup hmem hmem'
  refine ⟨⟨fun node entry hmem => ?_, fun node entry entry' hmem hmem' => ?_⟩,
    fun node target hmem => ⟨?_, ?_⟩⟩
  · have hmem := List.mem_reverse.1 hmem
    have hnode : node ∈ drafting.aliases.map Prod.fst ++ drafting.draft.map Prod.fst :=
      hnodes ▸ List.mem_map_of_mem hmem
    rcases List.mem_append.1 hnode with hnode | hnode
    · obtain ⟨⟨_, target⟩, halias, rfl⟩ := List.mem_map.1 hnode
      obtain ⟨hbuilt, -, hpromise, hload⟩ := hgood.aliases _ target halias
      exact ⟨hbuilt, hvalid _ hmem, .inr ⟨hpromise, hload⟩⟩
    · obtain ⟨⟨_, entry'⟩, hentry, rfl⟩ := List.mem_map.1 hnode
      obtain rfl := hone _ entry entry' hmem (hsub _ hentry)
      exact hgood.entries _ entry hentry
  · rw [hone node entry entry' (List.mem_reverse.1 hmem) (List.mem_reverse.1 hmem')]
  · obtain ⟨-, -, -, hload⟩ := hgood.aliases node target hmem
    rintro ⟨load, bell, work, hdriven, rfl⟩
    rw [(h.flight load work ⟨bell, .inr hdriven⟩).2.1] at hload
    cases hload
  · exact (hfollows node target (List.mem_reverse.2 hmem)).mono
      fun pair hmem => List.mem_reverse.2 hmem

end Drafting

namespace Act

/-- Drafting leaves the memos as they are, and what it drafts may enter. -/
theorem draft_still {host : Host} (h : host.LoadsInOrder) {root : Node}
    (hroot : host.Built root.compartment) :
    (draft root).Loads host fun result host' => Still host host' ∧
      ∀ drafted, result = .ok drafted → drafted.Good host' := by
  refine .getBind ?_
  have hgood : Drafting.Good host ⟨[], []⟩ [] := by
    refine ⟨fun _ _ hmem => ?_, fun _ _ hmem => ?_, List.nodup_nil, fun _ hmem => ?_⟩ <;>
      cases hmem
  have hahead : Drafting.Ahead host [root] [root] [] := by
    refine ⟨List.pairwise_singleton _ _, fun node hmem => ?_, fun _ hmem => nomatch hmem⟩
    obtain rfl := List.mem_singleton.1 hmem
    exact ⟨List.mem_singleton_self node, List.not_mem_nil, hroot⟩
  refine Loads.bind (Drafting.collect_loads _ h hgood hahead) fun result after hafter _ hpost => ?_
  obtain ⟨hstill, hcollected⟩ := hpost
  cases result with
  | error failure => exact .pure hafter ⟨hstill, fun _ heq => nomatch heq⟩
  | ok drafting =>
    obtain ⟨passed, hgood⟩ := hcollected drafting rfl
    refine .getBind ?_
    split
    · exact .pure hafter ⟨hstill, fun _ heq => nomatch heq⟩
    · rename_i draft hdraft
      refine .pure hafter ⟨hstill, ?_⟩
      rintro _ ⟨⟩
      exact hgood.drafted hafter hdraft

theorem draft_loads {host : Host} (h : host.LoadsInOrder) {root : Node}
    (hroot : host.Built root.compartment) :
    (draft root).Loads host fun result host' =>
      ∀ drafted, result = .ok drafted → drafted.Good host' :=
  (draft_still h hroot).mono fun _ _ _ _ hpost => hpost.2

theorem mark_grows {host : Host} {marks : List Milestone}
    (hmarks : ∀ mark ∈ marks, ∃ node target, mark = .stands node target ∧ ¬ host.Driven node) :
    Grows host { host with chronicle := marks ++ host.chronicle } :=
  { Grows.refl host with
    newborn := fun _ _ hnone hsome => nomatch hnone.symm.trans hsome
    chronicle := ⟨marks, rfl, hmarks⟩ }

theorem enterDraft_loads {host : Host} (h : host.LoadsInOrder) {drafted : Drafted}
    (hgood : drafted.Good host) : (enterDraft drafted).Loads host fun _ _ => True := by
  refine Loads.bind (enterAll_loads _ h hgood.entries) fun _ after hafter hgrows hpost => ?_
  refine ⟨Host.marked_loadsInOrder hafter fun mark hmem => ?_, mark_grows fun mark hmem => ?_,
    trivial⟩
  · obtain ⟨⟨node, target⟩, hpair, rfl⟩ := List.mem_map.1 hmem
    obtain ⟨-, entry, hentry, htarget⟩ := hgood.aliases node target hpair
    refine ⟨node, target, entry.record, rfl, ?_, hpost node entry hentry⟩
    rcases htarget with ⟨other, hother, hrecord⟩ | htarget
    · rw [← hrecord]
      exact hpost target other hother
    · exact hgrows.promise? target _ htarget
  · obtain ⟨⟨node, target⟩, hpair, rfl⟩ := List.mem_map.1 hmem
    refine ⟨node, target, rfl, ?_⟩
    rintro ⟨load, bell, work, hdriven, hnode⟩
    exact (hgood.aliases node target hpair).1
      ⟨load, bell, work, hgrows.calm load bell work hdriven, hnode⟩

theorem loadNow_loads {host : Host} (h : host.LoadsInOrder) {root : Node}
    (hroot : host.Built root.compartment) : (loadNow root).Loads host fun _ _ => True := by
  refine Loads.bind (draft_loads h hroot) fun result after hafter _ hgood => ?_
  cases result with
  | error failure => exact .pure hafter trivial
  | ok drafted =>
    exact Loads.bind (enterDraft_loads hafter (hgood drafted rfl))
      fun _ _ hentered _ _ => .pure hentered trivial

end Act

end ModuleLoader
