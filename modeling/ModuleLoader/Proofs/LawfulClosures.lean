import ModuleLoader.Proofs.LawfulLoads
/-!
Whole closures keep every law of loading, whether they are loaded key by key or drafted and entered at once.
-/

namespace ModuleLoader
set_option autoImplicit false

open Act (Heeds)

/-- The entry fits the node, and its compartment is one that one loads in. -/
def LoadLaw.Suits (law : LoadLaw) (host : Host) (node : Node) (entry : Entry) : Prop :=
  law.within node.compartment ∧ law.fits host node entry

/-- The load of one key is about its node. -/
structure KeyLoad.Heeds (law : LoadLaw) (host : Host) (member : KeyLoad) : Prop where
  within : law.within member.node.compartment
  lends : ∀ watch, member.load = some watch → law.Lends host member.node watch.job

/-- Whatever the load of a closure holds back or waits for is about nodes that one loads. -/
structure ClosureLoad.Heeds (law : LoadLaw) (host : Host) (load : ClosureLoad) : Prop where
  held : ∀ held ∈ load.holdback.held, law.Suits host held.node held.entry
  members : ∀ member ∈ load.members, member.2.Heeds law host
  backlog : ∀ node ∈ load.backlog, law.within node.compartment

/-- The load of a closure heeds the law wherever it stands. -/
def ClosureStage.Heeds (law : LoadLaw) (host : Host) : ClosureStage → Prop
  | .fresh root => law.within root.compartment
  | .running load => load.Heeds law host

section
variable {law : LoadLaw} (kept : law.Kept) {host host' : Host}
include kept

theorem LoadLaw.Suits.mono (hrel : law.rel host host') {node : Node} {entry : Entry}
    (h : law.Suits host node entry) : law.Suits host' node entry :=
  h.imp_right (kept.fits_mono hrel)

omit kept in
theorem KeyLoad.Heeds.mono (hmoves : law.Moves host host') {member : KeyLoad}
    (h : member.Heeds law host) : member.Heeds law host' :=
  ⟨h.within, fun watch hwatch => hmoves.lends _ _ (h.lends watch hwatch)⟩

theorem ClosureLoad.Heeds.mono (hmoves : law.Moves host host') {load : ClosureLoad}
    (h : load.Heeds law host) : load.Heeds law host' where
  held held hmem := (h.held held hmem).mono kept hmoves.rel
  members member hmem := (h.members member hmem).mono hmoves
  backlog := h.backlog

theorem ClosureStage.Heeds.mono (hmoves : law.Moves host host') :
    ∀ {stage : ClosureStage}, stage.Heeds law host → stage.Heeds law host'
  | .fresh _, h => h
  | .running _, h => ClosureLoad.Heeds.mono kept hmoves h

theorem LoadLaw.Stands.enter (h : law.Stands host) {node : Node} {entry : Entry}
    (hsuits : law.Suits host node entry) :
    law.Stands (host.entered node entry) ∧ law.Moves host (host.entered node entry) := by
  obtain ⟨hinv, hrel⟩ := kept.enters h.inv hsuits.1 hsuits.2
  have hunasked := Host.entered_unasked host node entry
  exact h.same kept hinv hrel rfl rfl (fun other call hcall => (hunasked.callAt other).symm.trans hcall)
    hunasked.loadAt

theorem Act.enterAll_heeds : ∀ (entries : List (Node × Entry)) {host : Host}, law.Stands host →
    (∀ node entry, (node, entry) ∈ entries → law.Suits host node entry) →
      (enterAll entries).Heeds law host fun _ _ => True
  | [], host, h, _ => .pure kept h trivial
  | (node, entry) :: rest, host, h, hentries => by
    obtain ⟨hstands, hmoves⟩ := h.enter kept (hentries node entry List.mem_cons_self)
    have hfirst : (enter node entry).Heeds law host fun _ host' => host' = host.entered node entry :=
      ⟨hstands, hmoves, rfl⟩
    refine Heeds.bind kept hfirst ?_
    rintro _ _ - hmoves rfl
    exact enterAll_heeds rest hstands fun other entry' hmem =>
      (hentries other entry' (List.mem_cons_of_mem _ hmem)).mono kept hmoves.rel

namespace KeyLoad

/-- What a look at one key comes to. -/
def Yields (law : LoadLaw) (result : Poll KeyLoad (Node × Except Failure Delivery)) (host' : Host) : Prop :=
  match result with
  | .pending next => next.Heeds law host'
  | .ready (node, outcome) => law.within node.compartment ∧ law.LendsAs host' node (.done outcome)

theorem await_heeds (h : law.Stands host) {member : KeyLoad} (hwithin : law.within member.node.compartment)
    {watch : Watch .load} (hwatch : law.Lends host member.node watch.job) (waker : Waker) :
    (member.await watch waker).Heeds law host (Yields law) := by
  refine Heeds.bind kept (Act.awaitDelivery_heeds kept h hwithin hwatch waker)
    fun result looked hlooked hmoves hresult => ?_
  cases result with
  | pending next =>
    have hjob : next.job = watch.job := hresult
    refine .pure kept hlooked ⟨hwithin, ?_⟩
    rintro _ ⟨⟩
    rw [hjob]
    exact hmoves.lends _ _ hwatch
  | ready outcome => exact .pure kept hlooked ⟨hwithin, hresult⟩

theorem poll_heeds (h : law.Stands host) {member : KeyLoad} (hmember : member.Heeds law host)
    (waker : Waker) : (member.poll waker).Heeds law host (Yields law) := by
  unfold poll
  split
  · rename_i watch hwatch
    exact await_heeds kept h hmember.within (hmember.lends watch hwatch) waker
  · refine Heeds.bind kept (Act.loadOf_heeds kept h member.node) fun loaded after hafter _ hloaded => ?_
    cases loaded with
    | already delivery => exact .pure kept hafter ⟨hmember.within, hloaded⟩
    | shared load => exact await_heeds kept hafter hmember.within hloaded.1 waker

end KeyLoad

namespace ClosureLoad

theorem fill_heeds (nodes : List Node) {host : Host} {load : ClosureLoad} (h : law.Stands host)
    (hload : load.Heeds law host) (hnodes : ∀ node ∈ nodes, law.within node.compartment) :
    (load.fill nodes).Heeds law host fun load host' => load.Heeds law host' := by
  induction nodes generalizing host load with
  | nil => exact .pure kept h ⟨hload.held, hload.members, List.forall_mem_nil _⟩
  | cons node rest ih =>
    unfold fill
    split
    · have hpool : (Act.changePool load.pool fun pool => pool.add load.nextIndex).Heeds law host
          fun _ _ => True := .aside kept h (Act.changePool_aside _ _) trivial
      refine Heeds.bind kept hpool fun _ after hafter hmoves _ => ?_
      have hload := hload.mono kept hmoves
      refine ih hafter ⟨hload.held, fun member hmem => ?_, hload.backlog⟩
        fun other hmem => hnodes other (List.mem_cons_of_mem _ hmem)
      rcases List.mem_cons.1 hmem with rfl | hmem
      · refine ⟨hnodes node List.mem_cons_self, ?_⟩
        rintro _ ⟨⟩
      · exact hload.members member hmem
    · exact .pure kept h ⟨hload.held, hload.members, hnodes⟩

theorem take_heeds (h : law.Stands host) {load : ClosureLoad} (hload : load.Heeds law host) {node : Node}
    {delivery : Delivery} (hwithin : law.within node.compartment) (hdelivers : law.Delivers host node delivery) :
    (load.take node delivery).Heeds law host fun load host' => load.Heeds law host' := by
  have hsuits : law.Suits host node delivery.entry := ⟨hwithin, hdelivers.entry⟩
  obtain ⟨hheld, hfound⟩ := Holdback.deliver_from hload.held hsuits
  refine Heeds.bind kept (Act.enterAll_heeds kept _ h fun node entry hmem => hfound (node, entry) hmem)
    fun _ after hafter hmoves _ => ?_
  have hload := hload.mono kept hmoves
  refine .pure kept hafter ⟨fun held hmem => (hheld held hmem).mono kept hmoves.rel, hload.members,
    fun other hmem => ?_⟩
  rcases List.mem_append.1 hmem with hmem | hmem
  · exact hload.backlog other hmem
  · exact kept.within_near hwithin (hdelivers.near other (mem_of_mem_unseen hmem))

/-- Whatever the members of a load come to, the law is kept. -/
theorem next_heeds (h : law.Stands host) {load : ClosureLoad} (hload : load.Heeds law host) (waker : Waker) :
    (Pool.next KeyLoad.poll load.pool waker load.members).Heeds law host fun result host' =>
      match result with
      | .pending members => ∀ member ∈ members, member.2.Heeds law host'
      | .exhausted => True
      | .finished (node, outcome) members => (∀ member ∈ members, member.2.Heeds law host') ∧
          law.within node.compartment ∧ law.LendsAs host' node (.done outcome) := by
  have hothers {members : List (Nat × KeyLoad)} {index : Nat} {before after : Host}
      (hmoves : law.Moves before after) (hmembers : ∀ member ∈ members, member.2.Heeds law before) :
      ∀ member ∈ members.filter (fun member => member.1 ≠ index), member.2.Heeds law after :=
    fun member hmem => (hmembers member (List.mem_filter.1 hmem).1).mono hmoves
  let holds (members : List (Nat × KeyLoad)) (after : Host) : Prop :=
    law.Stands after ∧ law.Moves host after ∧ ∀ member ∈ members, member.2.Heeds law after
  have hstart : holds load.members host := ⟨h, .refl kept host, hload.members⟩
  refine Pool.after_next ?_ ?_ ?_ ?_ hstart
  · rintro members before after haside ⟨hbefore, hmoves, hmembers⟩
    obtain ⟨hafter, hmoves'⟩ := hbefore.aside kept haside
    exact ⟨hafter, hmoves.trans kept hmoves', fun member hmem => (hmembers member hmem).mono hmoves'⟩
  · rintro members index work before ⟨hbefore, hmoves, hmembers⟩ hmem
    have hpoll : After before (work.poll (.member load.pool index)) _ :=
      KeyLoad.poll_heeds kept hbefore (hmembers _ hmem) (.member load.pool index)
    refine hpoll.mono fun result after hresult => ?_
    obtain ⟨hafter, hmoves', hresult⟩ := hresult
    cases result with
    | pending next =>
      refine ⟨hafter, hmoves.trans kept hmoves', fun member hmem => ?_⟩
      rcases List.mem_cons.1 hmem with rfl | hmem
      · exact hresult
      · exact hothers hmoves' hmembers member hmem
    | ready result =>
      intro last haside
      obtain ⟨hlast, hmoves''⟩ := hafter.aside kept haside
      have hlater := hmoves'.trans kept hmoves''
      exact ⟨hlast, hmoves.trans kept hlater, hothers hlater hmembers, hresult.1,
        hresult.2.mono kept hmoves''.rel⟩
  · exact fun members after hall => hall
  · exact fun after hall => ⟨hall.1, hall.2.1, trivial⟩

theorem proceed_heeds (waker : Waker) (fuel : Nat) {host : Host} {load : ClosureLoad}
    (h : law.Stands host) (hload : load.Heeds law host) :
    (load.proceed waker fuel).Heeds law host fun result host' =>
      ∀ next, result = .pending next → next.Heeds law host' := by
  induction fuel generalizing host load with
  | zero =>
    refine .pure kept h ?_
    rintro _ ⟨⟩
    exact hload
  | succ fuel ih =>
    unfold proceed
    refine Heeds.bind kept (fill_heeds kept load.backlog h hload hload.backlog)
      fun load filled hfilled _ hload => ?_
    refine Heeds.bind kept (next_heeds kept hfilled hload waker) fun result after hafter hmoves hresult => ?_
    have hload := hload.mono kept hmoves
    cases result with
    | pending members =>
      refine .pure kept hafter ?_
      rintro _ ⟨⟩
      exact ⟨hload.held, hresult, hload.backlog⟩
    | exhausted =>
      refine .aside kept hafter ((Pool.close_aside _).bind fun _ => .pure _) ?_
      rintro _ ⟨⟩
    | finished output members =>
      obtain ⟨node, failure | delivery⟩ := output
      · have hgiven : ∀ node entry, (node, entry) ∈ load.holdback.giveUp →
            law.Suits after node entry := by
          intro node entry hmem
          obtain ⟨held, hheld, heq⟩ := List.mem_map.1 hmem
          cases heq
          exact hload.held held hheld
        refine Heeds.bind kept (Act.enterAll_heeds kept _ hafter hgiven) fun _ entered hentered _ _ => ?_
        refine .aside kept hentered ((forget_aside _).bind fun _ => .pure _) ?_
        rintro _ ⟨⟩
      · obtain ⟨hmembers, hwithin, hdelivers⟩ := hresult
        have hload : ClosureLoad.Heeds law after { load with members } :=
          ⟨hload.held, hmembers, hload.backlog⟩
        refine Heeds.bind kept (take_heeds kept hafter hload hwithin hdelivers)
          fun load taken htaken _ hload => ?_
        exact ih htaken hload

end ClosureLoad

theorem ClosureStage.poll_heeds (h : law.Stands host) {stage : ClosureStage} (hstage : stage.Heeds law host)
    (waker : Waker) : (stage.poll waker).Heeds law host fun result host' =>
      ∀ next, result = .pending next → next.Heeds law host' := by
  have hload : stage.load.Heeds law host fun load host' => load.Heeds law host' := by
    cases stage with
    | running load => exact .pure kept h hstage
    | fresh root =>
      have hpool : Act.newPool.Heeds law host fun _ _ => True := .aside kept h Act.newPool_aside trivial
      refine Heeds.bind kept hpool fun pool after hafter _ _ => .getBind (.pure kept hafter ?_)
      exact ⟨nofun, nofun, List.forall_mem_singleton.2 hstage⟩
  unfold poll
  refine Heeds.bind kept hload fun load begun hbegun _ hload => .getBind ?_
  refine Heeds.bind kept (ClosureLoad.proceed_heeds kept waker _ hbegun hload)
    fun result after hafter _ hresult => ?_
  cases result with
  | pending next =>
    refine .pure kept hafter ?_
    rintro _ ⟨⟩
    exact hresult next rfl
  | ready result => exact .pure kept hafter nofun

end

/-- What was drafted suits its nodes, and aliases lead nearby. -/
structure Drafting.Heeds (law : LoadLaw) (host : Host) (drafting : Drafting) : Prop where
  entries : ∀ pair ∈ drafting.draft, law.Suits host pair.1 pair.2
  aliases : ∀ pair ∈ drafting.aliases, law.within pair.1.compartment ∧
    law.near pair.1.compartment pair.2.compartment

section
variable {law : LoadLaw} (kept : law.Kept) {host host' : Host}
include kept

theorem Drafting.Heeds.mono (hrel : law.rel host host') {drafting : Drafting}
    (h : drafting.Heeds law host) : drafting.Heeds law host' :=
  ⟨fun pair hmem => (h.entries pair hmem).mono kept hrel, h.aliases⟩

namespace Act

theorem describeAtOnce_heeds (h : law.Stands host) {node : Node} (hwithin : law.within node.compartment) :
    (describeAtOnce node).Heeds law host fun result host' =>
      ∀ descriptor, result = .ok descriptor → law.tells host' node descriptor := by
  refine .getBind ?_
  dsimp only
  split
  · rename_i found htable
    refine .pure kept h ?_
    rintro _ ⟨⟩
    exact kept.tables h.inv htable
  · rename_i htable
    split
    · rename_i found hfound
      refine .pure kept h ?_
      rintro _ ⟨⟩
      unfold Host.describedByHook? at hfound
      split at hfound
      · cases hfound
      · rename_i call hcall
        obtain ⟨-, ⟨bell, progress⟩, hshared, hanswers⟩ := h.calls node call hcall
        rw [hshared] at hfound
        split at hfound
        · rename_i descriptor houtput
          cases hfound
          cases progress <;> cases houtput
          exact hanswers
        · cases hfound
    · have hask : (askNow node).Heeds law host fun result host' =>
          ∀ descriptor, result = some descriptor → law.tells host' node descriptor :=
        .aside kept h (askNow_aside node) ((askNow_takesUp host node).mono
          fun _ _ htakes descriptor heq => kept.takes h.inv hwithin htable (htakes descriptor heq))
      refine Heeds.bind kept hask fun result after hafter _ htells => ?_
      split
      · refine .pure kept hafter ?_
        rintro _ ⟨⟩
        exact htells _ rfl
      · split <;> exact .pure kept hafter nofun

/-- A chain of aliases that starts nearby ends nearby. -/
theorem followAtOnce_heeds {origin : Ref .compartment} (hwithin : law.within origin) :
    ∀ (fuel : Nat) (visited : List Node) (node : Node) {host : Host}, law.Stands host →
      law.near origin node.compartment →
      (followAtOnce fuel visited node).Heeds law host fun result _ =>
        ∀ target, result = .ok target → law.near origin target.compartment
  | 0, _, _, host, h, _ => .pure kept h nofun
  | fuel + 1, visited, node, host, h, hnear => by
    unfold followAtOnce
    split
    · exact .pure kept h nofun
    · refine .getBind ?_
      split
      · refine .pure kept h ?_
        rintro _ ⟨⟩
        exact hnear
      · refine Heeds.bind kept (describeAtOnce_heeds kept h (kept.within_near hwithin hnear))
          fun result after hafter _ htells => ?_
        split
        · exact .pure kept hafter nofun
        · refine .getBind ?_
          split
          · exact .pure kept hafter nofun
          · rename_i next hpoints
            exact followAtOnce_heeds hwithin fuel _ next hafter
              (kept.near_trans hnear (kept.points hafter.inv (htells _ rfl) hpoints))
          · refine .pure kept hafter ?_
            rintro _ ⟨⟩
            exact hnear

end Act

namespace Drafting

/-- What the visit of a node comes to. -/
def Finds (law : LoadLaw) (node : Node) (result : Except Failure (Drafting × List Node)) (host' : Host) :
    Prop :=
  ∀ drafting nodes, result = .ok (drafting, nodes) → drafting.Heeds law host' ∧
    ∀ next ∈ nodes, law.near node.compartment next.compartment

theorem visit_heeds (h : law.Stands host) {drafting : Drafting} (hdrafting : drafting.Heeds law host)
    {node : Node} (hwithin : law.within node.compartment) :
    (drafting.visit node).Heeds law host (Finds law node) := by
  have hdraft {host' : Host} {drafting : Drafting} (hdrafting : drafting.Heeds law host') {entry : Entry}
      (hfits : law.fits host' node entry) :
      Drafting.Heeds law host' { drafting with draft := (node, entry) :: drafting.draft } :=
    ⟨List.forall_mem_cons.2 ⟨⟨hwithin, hfits⟩, hdrafting.entries⟩, hdrafting.aliases⟩
  refine .getBind ?_
  split
  · rename_i delivery hdelivered
    refine .pure kept h ?_
    rintro _ _ ⟨⟩
    exact ⟨hdrafting, (h.delivered kept hdelivered).near⟩
  · split
    · rename_i load hload
      split
      · rename_i delivery hlanded
        have hdelivers : law.Delivers host node delivery := by
          obtain ⟨shared, hshared, hlends⟩ := h.loads node load hload
          obtain ⟨bell, hdone⟩ := Host.loadedInFlight?_eq_some.1 hlanded
          cases hshared.symm.trans hdone
          exact hlends
        refine .pure kept h ?_
        rintro _ _ ⟨⟩
        exact ⟨hdraft hdrafting hdelivers.entry, hdelivers.near⟩
      · exact .pure kept h nofun
    · refine Heeds.bind kept (Act.describeAtOnce_heeds kept h hwithin)
        fun described after hafter hmoves htells => ?_
      have hdrafting := hdrafting.mono kept hmoves.rel
      split
      · exact .pure kept hafter nofun
      · rename_i descriptor
        have htells := htells descriptor rfl
        refine Heeds.bind kept (Act.interpret_heeds kept hafter hwithin htells)
          fun result last hlast hmoves' hresult => ?_
        have hdrafting := hdrafting.mono kept hmoves'.rel
        match result, hresult with
        | .error failure, _ => exact .pure kept hlast nofun
        | .ok (.entry entry), hfits =>
          refine .getBind (.pure kept hlast ?_)
          rintro _ _ ⟨⟩
          exact ⟨hdraft hdrafting hfits, kept.continues hlast.inv hfits⟩
        | .ok (.elsewhere target), hpoints =>
          refine .getBind (Heeds.bind kept (Act.followAtOnce_heeds kept hwithin _ _ target hlast
            (kept.points hafter.inv htells hpoints)) fun found end' hend hmoves'' hnear => ?_)
          have hdrafting := hdrafting.mono kept hmoves''.rel
          split
          · exact .pure kept hend nofun
          · rename_i target
            refine .pure kept hend ?_
            rintro _ _ ⟨⟩
            have hnear := hnear target rfl
            exact ⟨⟨hdrafting.entries, List.forall_mem_cons.2 ⟨⟨hwithin, hnear⟩, hdrafting.aliases⟩⟩,
              List.forall_mem_singleton.2 hnear⟩

theorem collect_heeds : ∀ (fuel : Nat) (seen queue : List Node) {drafting : Drafting} {host : Host},
    law.Stands host → drafting.Heeds law host → (∀ node ∈ queue, law.within node.compartment) →
      (collect fuel seen queue drafting).Heeds law host fun result host' =>
        ∀ drafting, result = .ok drafting → drafting.Heeds law host'
  | 0, _, _, drafting, host, h, hdrafting, _ => .pure kept h (by rintro _ ⟨⟩; exact hdrafting)
  | _ + 1, _, [], drafting, host, h, hdrafting, _ => .pure kept h (by rintro _ ⟨⟩; exact hdrafting)
  | fuel + 1, seen, node :: queue, drafting, host, h, hdrafting, hqueue => by
    obtain ⟨hwithin, hqueue⟩ := List.forall_mem_cons.1 hqueue
    unfold collect
    refine Heeds.bind kept (visit_heeds kept h hdrafting hwithin) fun result after hafter _ hresult => ?_
    split
    · exact .pure kept hafter nofun
    · rename_i drafting nodes
      obtain ⟨hdrafting, hnear⟩ := hresult drafting nodes rfl
      refine collect_heeds fuel _ _ hafter hdrafting fun other hmem => ?_
      rcases List.mem_append.1 hmem with hmem | hmem
      · exact hqueue other hmem
      · exact kept.within_near hwithin (hnear other (ClosureLoad.mem_of_mem_unseen hmem))

/-- The aliases get entries that suit them. -/
theorem resolveAliases_suits (hinv : law.inv host) : ∀ (aliases : List (Node × Node)) {draft draft' : Draft},
    resolveAliases host draft aliases = .ok draft' → (∀ pair ∈ draft, law.Suits host pair.1 pair.2) →
      (∀ pair ∈ aliases, law.within pair.1.compartment ∧ law.near pair.1.compartment pair.2.compartment) →
        ∀ pair ∈ draft', law.Suits host pair.1 pair.2
  | [], draft, draft', h, hdraft, _ => by
    cases h
    exact hdraft
  | (node, target) :: rest, draft, draft', h, hdraft, haliases => by
    obtain ⟨⟨hwithin, hnear⟩, hrest⟩ := List.forall_mem_cons.1 haliases
    unfold resolveAliases at h
    dsimp only at h
    split at h
    · cases h
    · rename_i entry hfound
      have hfits : law.fits host target entry := by
        split at hfound
        · rename_i found hget
          cases hfound
          exact (hdraft _ (mem_of_get? hget)).2
        · unfold Host.entryOf at hfound
          split at hfound
          · rename_i found hentry
            cases hfound
            exact kept.memo hinv hentry
          · cases hfound
      exact resolveAliases_suits hinv rest h
        (List.forall_mem_cons.2 ⟨⟨hwithin, kept.lends hinv hfits hnear⟩, hdraft⟩) hrest

end Drafting

namespace Act

theorem draft_heeds (h : law.Stands host) {root : Node} (hroot : law.within root.compartment) :
    (draft root).Heeds law host fun result host' => ∀ drafted, result = .ok drafted →
      ∀ pair ∈ drafted.entries, law.Suits host' pair.1 pair.2 := by
  refine .getBind (Heeds.bind kept (Drafting.collect_heeds kept _ _ _ h ⟨nofun, nofun⟩
    (List.forall_mem_singleton.2 hroot)) fun result after hafter _ hresult => ?_)
  split
  · exact .pure kept hafter nofun
  · rename_i drafting
    have hdrafting := hresult drafting rfl
    refine .getBind ?_
    split
    · exact .pure kept hafter nofun
    · rename_i draft hdraft
      refine .pure kept hafter ?_
      rintro _ ⟨⟩ pair hmem
      exact Drafting.resolveAliases_suits kept hafter.inv _ hdraft hdrafting.entries
        (fun pair hmem => hdrafting.aliases pair (List.mem_reverse.1 hmem)) pair (List.mem_reverse.1 hmem)

theorem enterDraft_heeds (h : law.Stands host) {drafted : Drafted}
    (hdrafted : ∀ pair ∈ drafted.entries, law.Suits host pair.1 pair.2) :
    (enterDraft drafted).Heeds law host fun _ _ => True := by
  refine Heeds.bind kept (enterAll_heeds kept _ h fun node entry hmem => hdrafted (node, entry) hmem)
    fun _ after hafter _ _ => ?_
  have hstirs : Stirs after (mark (drafted.aliases.map fun pair => .stands pair.1 pair.2) after).2 :=
    ⟨rfl, rfl, rfl, rfl, rfl, rfl, rfl, rfl, rfl, fun _ => rfl⟩
  obtain ⟨hinv, hrel⟩ := kept.stirs hafter.inv hstirs
  obtain ⟨hstands, hmoves⟩ := hafter.same kept hinv hrel rfl rfl (fun _ _ => id) fun _ _ => id
  exact ⟨hstands, hmoves, trivial⟩

end Act

end

end ModuleLoader
