import ModuleLoader.Proofs.Offers
import ModuleLoader.Proofs.TracedDrafts
/-!
Where chains of aliases end. A chain passes from node to node as long as it meets neither a node that it
passed before nor one that is memoized, and the descriptor found there is an alias. There are two copies
of the loop that follows it, one that may wait for load hooks and one that must not; both are compared
with the chain itself, which knows no fuel.
-/

namespace ModuleLoader
set_option autoImplicit false

/-- What looking for the descriptor of a node comes to, and the host after it. -/
abbrev Lookup := Node → Host → Except Failure Descriptor → Host → Prop

namespace Lookup

/-- A look that does not wait. -/
def atOnce : Lookup := fun node host found host' => Act.describeAtOnce node host = (found, host')

/-- A look that may ask a load hook, and does not have to wait for it. -/
def promptly (waker : Waker) : Lookup := fun node host found host' =>
  Act.describe node waker host = (.ready found, host')

/-- What is found is determined. -/
def Functional (looks : Lookup) : Prop :=
  ∀ node host found found' host' host'', looks node host found host' →
    looks node host found' host'' → found = found' ∧ host' = host''

theorem atOnce_functional : atOnce.Functional := by
  intro node host found found' host' host'' h h'
  exact Prod.mk.inj (Eq.trans (Eq.symm h) h')

theorem promptly_functional (waker : Waker) : (promptly waker).Functional := by
  intro node host found found' host' host'' h h'
  obtain ⟨hfound, hhost⟩ := Prod.mk.inj (Eq.trans (Eq.symm h) h')
  exact ⟨Poll.ready.inj hfound, hhost⟩

end Lookup

/-- Where a chain of aliases stands: the nodes passed, the node it has come to, and the host by then. -/
structure ChainPoint where
  passed : List Node
  node : Node
  host : Host

namespace ChainPoint

/-- A node that was not passed before and is not memoized is looked up. What is found points somewhere, or
nowhere, or cannot be found. -/
def Finds (looks : Lookup) (point : ChainPoint) (way : Except Failure (Option Node)) (host' : Host) : Prop :=
  point.node ∉ point.passed ∧ point.host.entryAt? point.node = none ∧
    ∃ found, looks point.node point.host found host' ∧ found.bind (host'.pointsTo point.node) = way

/-- The chain goes on where an alias points. -/
inductive Next (looks : Lookup) (point : ChainPoint) : ChainPoint → Prop where
  | alias {target : Node} {host' : Host} : point.Finds looks (.ok (some target)) host' →
      Next looks point ⟨point.node :: point.passed, target, host'⟩

/-- The chain goes on, alias by alias. -/
def Passes (looks : Lookup) : ChainPoint → ChainPoint → Prop :=
  Relation.ReflTransGen (Next looks)

/-- What a chain ends with at a point. -/
inductive Ends (looks : Lookup) (point : ChainPoint) : Except Failure Node → Host → Prop where
  | circle : point.node ∈ point.passed →
      Ends looks point (.error (.aliasCycle point.node.key)) point.host
  | memoized : point.node ∉ point.passed → (point.host.entryAt? point.node).isSome →
      Ends looks point (.ok point.node) point.host
  | described {host' : Host} : point.Finds looks (.ok none) host' →
      Ends looks point (.ok point.node) host'
  | lost {failure : Failure} {host' : Host} : point.Finds looks (.error failure) host' →
      Ends looks point (.error failure) host'

/-- What a chain ends with. -/
def Comes (looks : Lookup) (start : ChainPoint) (answer : Except Failure Node) (host' : Host) : Prop :=
  ∃ last, start.Passes looks last ∧ last.Ends looks answer host'

/-- The chain returns to a node that it passed. -/
def Circles (looks : Lookup) (start : ChainPoint) : Prop :=
  ∃ last, start.Passes looks last ∧ last.node ∈ last.passed

/-- The chain leads to this node, the first that is memoized or no alias. -/
def LeadsTo (looks : Lookup) (start : ChainPoint) (node : Node) : Prop :=
  ∃ last, start.Passes looks last ∧ last.node = node ∧ last.node ∉ last.passed ∧
    ((last.host.entryAt? last.node).isSome ∨ ∃ host', last.Finds looks (.ok none) host')

/-- A lookup on the way fails. -/
def Fails (looks : Lookup) (start : ChainPoint) (failure : Failure) : Prop :=
  ∃ last host', start.Passes looks last ∧ last.Finds looks (.error failure) host'

variable {looks : Lookup} {point start : ChainPoint} {answer : Except Failure Node} {host' : Host}

theorem Finds.unique (functional : looks.Functional) {way way' : Except Failure (Option Node)}
    {host'' : Host} (h : point.Finds looks way host') (h' : point.Finds looks way' host'') :
    way = way' ∧ host' = host'' := by
  obtain ⟨-, -, found, hfound, hway⟩ := h
  obtain ⟨-, -, found', hfound', hway'⟩ := h'
  obtain ⟨rfl, rfl⟩ := functional _ _ _ _ _ _ hfound hfound'
  exact ⟨hway.symm.trans hway', rfl⟩

theorem Next.unique (functional : looks.Functional) {next other : ChainPoint}
    (h : point.Next looks next) (hother : point.Next looks other) : next = other := by
  obtain ⟨hfinds⟩ := h
  obtain ⟨hfinds'⟩ := hother
  obtain ⟨hway, rfl⟩ := hfinds.unique functional hfinds'
  cases hway
  rfl

/-- Of a point at which a chain ends, either nothing is looked up or what is found points nowhere. -/
theorem Ends.finds (functional : looks.Functional) (h : point.Ends looks answer host')
    {way : Except Failure (Option Node)} {host'' : Host} (hfinds : point.Finds looks way host'') :
    way = answer.map (fun _ => none) ∧ (∀ node, answer = .ok node → node = point.node) ∧ host' = host'' := by
  cases h with
  | circle hmem => exact absurd hmem hfinds.1
  | memoized _ hsome =>
    rw [hfinds.2.1] at hsome
    cases hsome
  | described hfinds' =>
    obtain ⟨rfl, rfl⟩ := hfinds.unique functional hfinds'
    exact ⟨rfl, fun _ heq => (Except.ok.inj heq).symm, rfl⟩
  | lost hfinds' =>
    obtain ⟨rfl, rfl⟩ := hfinds.unique functional hfinds'
    exact ⟨rfl, nofun, rfl⟩

theorem Ends.not_next (functional : looks.Functional) (h : point.Ends looks answer host')
    {next : ChainPoint} : ¬ point.Next looks next := by
  rintro ⟨hfinds⟩
  have hway := (h.finds functional hfinds).1
  cases answer <;> cases hway

theorem Ends.unique (functional : looks.Functional) {answer' : Except Failure Node} {host'' : Host}
    (h : point.Ends looks answer host') (h' : point.Ends looks answer' host'') :
    answer = answer' ∧ host' = host'' := by
  cases h' with
  | circle hmem =>
    cases h with
    | circle _ => exact ⟨rfl, rfl⟩
    | memoized hnew _ => exact absurd hmem hnew
    | described hfinds => exact absurd hmem hfinds.1
    | lost hfinds => exact absurd hmem hfinds.1
  | memoized hnew hsome =>
    cases h with
    | circle hmem => exact absurd hmem hnew
    | memoized _ _ => exact ⟨rfl, rfl⟩
    | described hfinds => simp [hfinds.2.1] at hsome
    | lost hfinds => simp [hfinds.2.1] at hsome
  | described hfinds =>
    obtain ⟨hway, hnode, rfl⟩ := h.finds functional hfinds
    cases answer with
    | error failure => cases hway
    | ok node => exact ⟨congrArg Except.ok (hnode node rfl), rfl⟩
  | lost hfinds =>
    obtain ⟨hway, -, rfl⟩ := h.finds functional hfinds
    cases answer with
    | error failure =>
      cases hway
      exact ⟨rfl, rfl⟩
    | ok node => cases hway

/-- Of two points that a chain passes, one comes before the other. -/
theorem Passes.comparable (functional : looks.Functional) {last other : ChainPoint}
    (h : start.Passes looks last) (hother : start.Passes looks other) :
    last.Passes looks other ∨ other.Passes looks last :=
  Relation.ReflTransGen.total_of_right_unique (fun _ _ _ => Next.unique functional) h hother

/-- A chain comes to one end. -/
theorem Ends.last_unique (functional : looks.Functional) {last other : ChainPoint}
    (hlast : start.Passes looks last) (h : last.Ends looks answer host')
    (hother : start.Passes looks other) {answer' : Except Failure Node} {host'' : Host}
    (h' : other.Ends looks answer' host'') : last = other := by
  have hstops {first second : ChainPoint} {answer : Except Failure Node} {host' : Host}
      (hends : first.Ends looks answer host') (hpasses : first.Passes looks second) : first = second := by
    rcases Relation.ReflTransGen.cases_head hpasses with heq | ⟨next, hnext, -⟩
    · exact heq
    · exact absurd hnext (hends.not_next functional)
  rcases hlast.comparable functional hother with hpasses | hpasses
  · exact hstops h hpasses
  · exact (hstops h' hpasses).symm

theorem Comes.unique (functional : looks.Functional) {answer' : Except Failure Node} {host'' : Host}
    (h : start.Comes looks answer host') (h' : start.Comes looks answer' host'') :
    answer = answer' ∧ host' = host'' := by
  obtain ⟨last, hlast, hends⟩ := h
  obtain ⟨other, hother, hends'⟩ := h'
  obtain rfl := hends.last_unique functional hlast hother hends'
  exact hends.unique functional hends'

/-- If a lookup fails, the chain comes to that failure. -/
theorem Comes.of_fails (functional : looks.Functional) (h : start.Comes looks answer host')
    {failure : Failure} (hfails : start.Fails looks failure) : answer = .error failure := by
  obtain ⟨last, _, hlast, hfinds⟩ := hfails
  exact (h.unique functional ⟨last, hlast, .lost hfinds⟩).1

theorem Comes.circles_iff (functional : looks.Functional) (h : start.Comes looks answer host')
    (hfails : ∀ failure, ¬ start.Fails looks failure) :
    (∃ key, answer = .error (.aliasCycle key)) ↔ start.Circles looks := by
  constructor
  · rintro ⟨key, rfl⟩
    obtain ⟨last, hlast, hends⟩ := h
    generalize hanswer : (Except.error (Failure.aliasCycle key) : Except Failure Node) = answer at hends
    cases hends with
    | circle hmem => exact ⟨last, hlast, hmem⟩
    | memoized _ _ => cases hanswer
    | described _ => cases hanswer
    | lost hfinds => exact absurd ⟨last, _, hlast, hfinds⟩ (hfails _)
  · rintro ⟨last, hlast, hmem⟩
    exact ⟨last.node.key, (h.unique functional ⟨last, hlast, .circle hmem⟩).1⟩

theorem Comes.leadsTo_iff (functional : looks.Functional) (h : start.Comes looks answer host')
    (node : Node) : answer = .ok node ↔ start.LeadsTo looks node := by
  constructor
  · rintro rfl
    obtain ⟨last, hlast, hends⟩ := h
    generalize hanswer : (Except.ok node : Except Failure Node) = answer at hends
    cases hends with
    | circle _ => cases hanswer
    | memoized hnew hsome => exact ⟨last, hlast, (Except.ok.inj hanswer).symm, hnew, .inl hsome⟩
    | described hfinds =>
      exact ⟨last, hlast, (Except.ok.inj hanswer).symm, hfinds.1, .inr ⟨_, hfinds⟩⟩
    | lost _ => cases hanswer
  · rintro ⟨last, hlast, rfl, hnew, hsome | ⟨_, hfinds⟩⟩
    · exact (h.unique functional ⟨last, hlast, .memoized hnew hsome⟩).1
    · exact (h.unique functional ⟨last, hlast, .described hfinds⟩).1

/-- An answer says what becomes of a chain, and each chain ends. -/
structure Decides (looks : Lookup) (start : ChainPoint) (answer : Except Failure Node) : Prop where
  ends : (∃ failure, start.Fails looks failure) ∨ start.Circles looks ∨ ∃ node, start.LeadsTo looks node
  fails : ∀ failure, start.Fails looks failure → answer = .error failure
  circles : (∀ failure, ¬ start.Fails looks failure) →
    ((∃ key, answer = .error (.aliasCycle key)) ↔ start.Circles looks)
  returns : ∀ last, start.Passes looks last → last.node ∈ last.passed →
    answer = .error (.aliasCycle last.node.key)
  leads : ∀ node, answer = .ok node ↔ start.LeadsTo looks node

theorem Comes.decides (functional : looks.Functional) (h : start.Comes looks answer host') :
    start.Decides looks answer where
  ends := by
    obtain ⟨last, hlast, hends⟩ := h
    cases hends with
    | circle hmem => exact .inr (.inl ⟨last, hlast, hmem⟩)
    | memoized hnew hsome => exact .inr (.inr ⟨last.node, last, hlast, rfl, hnew, .inl hsome⟩)
    | described hfinds => exact .inr (.inr ⟨last.node, last, hlast, rfl, hfinds.1, .inr ⟨_, hfinds⟩⟩)
    | lost hfinds => exact .inl ⟨_, last, _, hlast, hfinds⟩
  fails _ := h.of_fails functional
  circles := h.circles_iff functional
  returns last hlast hmem := (h.unique functional ⟨last, hlast, .circle hmem⟩).1
  leads := h.leadsTo_iff functional

/-- A chain that goes on once comes to what it comes to from there. -/
theorem Comes.of_next {next : ChainPoint} (hnext : start.Next looks next)
    (h : next.Comes looks answer host') : start.Comes looks answer host' := by
  obtain ⟨last, hlast, hends⟩ := h
  exact ⟨last, .head hnext hlast, hends⟩

end ChainPoint

namespace Act

open ChainPoint

/-- The chain is followed to its end without waiting, by induction on the fuel. It lasts, for the nodes
passed on the way are distinct and at hand. -/
theorem followAtOnce_comes (passed : List Node) : ∀ (fuel : Nat) (fresh : List Node) (node : Node)
    (host : Host), fresh.Nodup → (∀ other ∈ fresh, other ∈ host.nodesAtHand) →
      host.nodesAtHand.length < fuel + fresh.length →
        After host (followAtOnce fuel (fresh ++ passed) node)
          (ChainPoint.Comes .atOnce ⟨fresh ++ passed, node, host⟩) := by
  intro fuel
  induction fuel with
  | zero =>
    intro fresh node host hnodup hatHand hfuel
    have hlength := (hnodup.subperm hatHand).length_le
    omega
  | succ fuel ih =>
    intro fresh node host hnodup hatHand hfuel
    unfold followAtOnce
    split
    · rename_i hmem
      exact ⟨_, .refl, .circle (List.contains_iff_mem.1 hmem)⟩
    · rename_i hnew
      have hnew : node ∉ fresh ++ passed := fun hmem => hnew (List.contains_iff_mem.2 hmem)
      rw [after_bind, after_get]
      split
      · rename_i hsome
        exact ⟨_, .refl, .memoized hnew hsome⟩
      · rename_i hentry
        have hentry : host.entryAt? node = none := by simpa using hentry
        have hlook : After host (describeAtOnce node) fun found host' =>
            describeAtOnce node host = (found, host') ∧ Aside host host' :=
          ⟨rfl, describeAtOnce_aside node host⟩
        rw [after_bind]
        refine (hlook.and (describeAtOnce_atHand host node)).mono fun found host' h => ?_
        obtain ⟨⟨hfound, haside⟩, hdescribed⟩ := h
        have hfinds {way : Except Failure (Option Node)} (hway : found.bind (host'.pointsTo node) = way) :
            ChainPoint.Finds .atOnce ⟨fresh ++ passed, node, host⟩ way host' :=
          ⟨hnew, hentry, found, hfound, hway⟩
        cases found with
        | error failure => exact ⟨_, .refl, .lost (hfinds rfl)⟩
        | ok descriptor =>
          dsimp only
          rw [after_bind, after_get]
          cases hpoints : host'.pointsTo node descriptor with
          | error failure => exact ⟨_, .refl, .lost (hfinds hpoints)⟩
          | ok target =>
            cases target with
            | none => exact ⟨_, .refl, .described (hfinds hpoints)⟩
            | some next =>
              have hsame := Host.nodesAtHand_congr haside.compartments
              refine After.mono (ih (node :: fresh) next host' ?_ ?_ ?_) fun _ _ =>
                .of_next (.alias (hfinds hpoints))
              · exact List.nodup_cons.2 ⟨fun hmem => hnew (List.mem_append_left _ hmem), hnodup⟩
              · rw [hsame]
                exact List.forall_mem_cons.2 ⟨hdescribed descriptor rfl, hatHand⟩
              · rw [hsame, List.length_cons]
                omega

end Act

/-- The compartment of the node was told something about it: a descriptor, an answer of a hook, or a call of
the load hook that is kept. -/
def Host.InSight (host : Host) (node : Node) : Prop :=
  node.key ∈ (host.compartment node.compartment).mentions ∨ (host.callAt? node).isSome

/-- All that a host has in sight. -/
theorem Host.InSight.mem {host : Host} {node : Node} (h : host.InSight node) :
    node ∈ host.mentioned ++ host.nodesAtHand := by
  rcases h with hmentioned | hcall
  · exact List.mem_append_left _ (Host.mem_mentioned hmentioned)
  · obtain ⟨call, hcall⟩ := Option.isSome_iff_exists.1 hcall
    refine List.mem_append_right _ (Host.mem_nodesAtHand ?_)
    exact List.mem_append_left _ (List.mem_append_right _ (Table.mem_names hcall))

/-- At most the call that is kept for this node changed, of all that is in sight. -/
structure Host.AsksAbout (host : Host) (node : Node) (host' : Host) : Prop where
  mentions : ∀ ref, (host'.compartment ref).mentions = (host.compartment ref).mentions
  callAt : ∀ other, other ≠ node → host'.callAt? other = host.callAt? other

namespace Host.AsksAbout

variable {host middle host' : Host} {node : Node}

theorem trans (h : host.AsksAbout node middle) (h' : middle.AsksAbout node host') : host.AsksAbout node host' :=
  ⟨fun ref => (h'.mentions ref).trans (h.mentions ref),
    fun other hother => (h'.callAt other hother).trans (h.callAt other hother)⟩

theorem of_aside (h : Aside host host') : host.AsksAbout node host' := by
  obtain ⟨_, _, _, _, _, _, rfl⟩ := h
  exact ⟨fun _ => rfl, fun _ _ => rfl⟩

theorem inSight (h : host.AsksAbout node host') {other : Node} (hother : other ≠ node)
    (hsight : host'.InSight other) : host.InSight other := by
  unfold InSight at *
  rwa [h.mentions, h.callAt other hother] at hsight

theorem forgetCall (host : Host) (node : Node) (call : Ref .call) :
    host.AsksAbout node (Act.forgetCall node call host).2 where
  mentions ref := (Act.forgetCall_quiet node call host).part ref Compartment.mentions fun _ => rfl
  callAt other hother := by
    rw [callAt?_forget, if_neg fun h => hother h.1.symm]

theorem consulted (host : Host) (node : Node) (bell : Ref .bell) :
    host.AsksAbout node (host.consulted node bell) where
  mentions ref := by
    unfold Host.consulted
    change (Host.compartment { host with compartments := _ } ref).mentions = _
    rw [compartment_modify]
    split <;> rfl
  callAt other hother := by
    unfold callAt? Host.consulted
    change (Host.compartment { host with compartments := _ } other.compartment).calls.get? _ = _
    rw [compartment_modify]
    split
    · rename_i hsame
      refine (Table.get?_insert ..).trans (if_neg fun hkey => hother ?_)
      obtain ⟨compartment, key⟩ := node
      obtain ⟨compartment', key'⟩ := other
      obtain rfl : compartment = compartment' := hsame.1
      obtain rfl : key = key' := hkey
      rfl
    · rfl

end Host.AsksAbout

namespace Act

variable {host : Host} {node : Node}

/-- A call of the load hook that was just made only gives what the hook offers. -/
theorem poll_fresh {watch : Watch .call} {bell : Ref .bell}
    (hfresh : host.calls.get? watch.job = some ⟨bell, .idle ⟨node.compartment, node.key, .fresh⟩⟩)
    (waker : Waker) : After host (Shelf.calls.poll HookCall.drive watch waker) fun result _ =>
      ∀ descriptor, result = .ready (.ok (some descriptor)) →
        node.key ∈ (host.compartment node.compartment).mentions := by
  have hfresh : Shelf.calls.get? host watch.job = _ := hfresh
  refine Shelf.after_poll ?_ ?_ ?_ ?_
  · rintro hmissing
    rw [hfresh] at hmissing
    cases hmissing
  · rintro bell result hdone
    rw [hfresh] at hdone
    cases hdone
  · rintro bell work seat host' hdriven
    rw [hfresh] at hdriven
    cases hdriven
  · rintro bell work seat told hidle htold
    rw [hfresh] at hidle
    cases hidle
    have hoffered (host : Host) : CallStage.Offered host node .fresh := trivial
    refine (HookCall.drive_step (hoffered _) _).mono fun result after hstep => ?_
    cases result with
    | pending next => rintro descriptor ⟨⟩
    | ready result =>
      rintro last - descriptor heq
      obtain ⟨blueprint, _, hoffers, -⟩ := hstep descriptor (Poll.ready.inj heq)
      have hoffers : told.Offers node blueprint := hoffers.congr rfl rfl
      exact ((Host.offers_aside htold).1 hoffers).mentions

theorem poll_asksAbout (watch : Watch .call) (waker : Waker) :
    After host (Shelf.calls.poll HookCall.drive watch waker) fun _ host' => host.AsksAbout node host' := by
  refine Shelf.after_poll ?_ ?_ ?_ ?_
  · exact fun _ => .of_aside (.refl host)
  · exact fun _ _ _ => .of_aside (.refl host)
  · exact fun _ _ _ _ _ haside => .of_aside haside
  · intro bell work seat told _ htold
    have hput {before : Host} (progress : Progress HookCall HookResult) :
        before.AsksAbout node (Shelf.calls.put before watch.job ⟨bell, progress⟩) :=
      ⟨fun _ => rfl, fun _ _ => rfl⟩
    refine (HookCall.drive_fair (Shelf.calls.put told watch.job ⟨bell, .driven work⟩) work
      (.bell bell)).mono fun result after hafter => ?_
    have hasks : host.AsksAbout node after :=
      ((Host.AsksAbout.of_aside htold).trans (hput _)).trans (.of_aside hafter.1)
    cases result with
    | pending next => exact hasks.trans (hput _)
    | ready result => exact fun last hlast => (hasks.trans (hput _)).trans (.of_aside hlast)

/-- A look at a call keeps to its node. What it gives without the call giving it, the synchronous hook
offers. -/
theorem awaitCall_asksAbout (watch : Watch .call) (waker : Waker) {sees : Prop}
    (hpoll : After host (Shelf.calls.poll HookCall.drive watch waker) fun result _ =>
      ∀ descriptor, result = .ready (.ok (some descriptor)) → sees)
    (hsees : node.key ∈ (host.compartment node.compartment).mentions → sees) :
    After host (awaitCall node watch waker) fun result host' => host.AsksAbout node host' ∧
      ∀ descriptor, result = .ready (.ok descriptor) → sees := by
  have hasks : After host (Shelf.calls.poll HookCall.drive watch waker) fun _ host' =>
    host.AsksAbout node host' := poll_asksAbout watch waker
  unfold awaitCall
  rw [after_bind]
  refine (hasks.and hpoll).mono fun result polled h => ?_
  obtain ⟨hasks, hgives⟩ := h
  rcases result with next | failure | _ | descriptor
  · exact ⟨hasks, fun _ heq => nomatch heq⟩
  · exact ⟨hasks.trans (.forgetCall polled node watch.job), fun _ heq => nomatch heq⟩
  · have hforgot := hasks.trans (.forgetCall polled node watch.job)
    have haside := describeNow_aside node (forgetCall node watch.job polled).2
    refine ⟨hforgot.trans (.of_aside haside), fun descriptor heq => hsees ?_⟩
    obtain ⟨blueprint, _, hoffers, -⟩ :=
      describeNow_takesUp (forgetCall node watch.job polled).2 node descriptor (Poll.ready.inj heq)
    rw [← hforgot.mentions]
    exact hoffers.mentions
  · exact ⟨hasks, fun _ _ => hgives descriptor rfl⟩

/-- Only nodes in sight are described, and to ask about one brings no other in sight. -/
theorem describe_asksAbout (host : Host) (node : Node) (waker : Waker) :
    After host (describe node waker) fun result host' => host.AsksAbout node host' ∧
      ∀ descriptor, result = .ready (.ok descriptor) → host.InSight node := by
  unfold describe
  rw [after_bind, after_get]
  dsimp only
  split
  · rename_i found hfound
    refine ⟨.of_aside (.refl host), fun _ _ => .inl ?_⟩
    exact List.mem_append_left _ (Table.mem_names hfound)
  · split
    · rw [after_bind]
      unfold callOf
      rw [after_bind, after_get]
      split
      · rename_i call hcall
        exact awaitCall_asksAbout ⟨call, none⟩ waker (fun _ _ => .inr (Option.isSome_iff_exists.2 ⟨call, hcall⟩))
          .inl
      · have hbell : After host newBell fun _ belled => Aside host belled := newBell_aside host
        rw [after_bind]
        refine hbell.mono fun bell belled haside => ?_
        have hasks : host.AsksAbout node (belled.consulted node bell) :=
          (Host.AsksAbout.of_aside haside).trans (.consulted belled node bell)
        have hfresh : (belled.consulted node bell).calls.get? belled.calls.next =
            some ⟨bell, .idle ⟨node.compartment, node.key, .fresh⟩⟩ :=
          (Arena.get?_push _ _ _).trans (if_pos rfl)
        have hawait := awaitCall_asksAbout ⟨belled.calls.next, none⟩ waker (poll_fresh hfresh waker) id
        refine ⟨hasks.trans hawait.1, fun descriptor heq => .inl ?_⟩
        rw [← hasks.mentions]
        exact hawait.2 descriptor heq
    · refine ⟨.of_aside (describeNow_aside node host), fun descriptor heq => .inl ?_⟩
      obtain ⟨blueprint, _, hoffers, -⟩ := describeNow_takesUp host node descriptor (Poll.ready.inj heq)
      exact hoffers.mentions

end Act

namespace LoadWork

variable (look : Look) (work : LoadWork) (waker : Waker)

/-- What a load does at the end of its chain: it fails, or it goes on to the node there. -/
def atEnd : Except Failure Node → Act (Poll LoadWork (Except Failure Delivery))
  | .error failure => return .ready (.error failure)
  | .ok node => work.borrow look node waker

/-- What following a chain comes to: the load hook about a node of the chain keeps the load waiting, or
the chain comes to its end. -/
inductive Follows (start : ChainPoint) : Poll LoadWork (Except Failure Delivery) → Host → Prop where
  | waits {last : ChainPoint} {call : Watch .call} {host' : Host} :
      start.Passes (.promptly waker) last → last.node ∉ last.passed →
        last.host.entryAt? last.node = none →
          Act.describe last.node waker last.host = (.pending call, host') →
            Follows start
              (.pending { work with stage := .following (last.node :: last.passed) last.node call }) host'
  | comes {answer : Except Failure Node} {middle host' : Host}
      {result : Poll LoadWork (Except Failure Delivery)} : start.Comes (.promptly waker) answer middle →
        work.atEnd look waker answer middle = (result, host') → Follows start result host'

variable {look work waker}

theorem Follows.of_next {start next : ChainPoint} {result : Poll LoadWork (Except Failure Delivery)}
    {host' : Host} (hnext : start.Next (.promptly waker) next)
    (h : Follows look work waker next result host') : Follows look work waker start result host' := by
  cases h with
  | waits hpasses hnew hentry hcall => exact .waits (.head hnext hpasses) hnew hentry hcall
  | comes hcomes hend => exact .comes (hcomes.of_next hnext) hend

/-- The chain is followed to its end unless a hook keeps the load waiting, by induction on the nodes of the
pool that are left. All that is in sight is in the pool, and what comes in sight on the way was passed. -/
theorem follow_follows (passed pool : List Node) : ∀ (turns fuel : Nat) (fresh : List Node) (node : Node)
    (host : Host), fresh.Nodup → (∀ other ∈ fresh, other ∈ pool) →
      (∀ other, other ∉ fresh ++ passed → host.InSight other → other ∈ pool) →
        pool.length < turns + fresh.length → 2 * turns ≤ fuel →
          After host (work.follow look waker fuel (fresh ++ passed) node)
            (Follows look work waker ⟨fresh ++ passed, node, host⟩) := by
  intro turns
  induction turns with
  | zero =>
    intro fuel fresh node host hnodup hpool _ hasks _
    have hlength := (hnodup.subperm hpool).length_le
    omega
  | succ turns ih =>
    intro fuel fresh node host hnodup hpool hsight hasks hfuel
    obtain ⟨fuel, rfl⟩ := Nat.exists_eq_add_of_le' (Nat.le_trans (Nat.le_add_left 2 _) hfuel)
    unfold follow
    split
    · rename_i hmem
      exact .comes ⟨_, .refl, .circle (List.contains_iff_mem.1 hmem)⟩ rfl
    · rename_i hnew
      have hnew : node ∉ fresh ++ passed := fun hmem => hnew (List.contains_iff_mem.2 hmem)
      rw [after_bind, after_get]
      split
      · rename_i hsome
        exact .comes ⟨_, .refl, .memoized hnew hsome⟩ rfl
      · rename_i hentry
        have hentry : host.entryAt? node = none := by simpa using hentry
        have hlook : After host (Act.describe node waker) fun result host' =>
            Act.describe node waker host = (result, host') := rfl
        rw [after_bind]
        refine (hlook.and (Act.describe_asksAbout host node waker)).mono fun result host' h => ?_
        obtain ⟨hfound, hkeeps, hdescribed⟩ := h
        cases result with
        | pending call => exact .waits .refl hnew hentry hfound
        | ready found =>
          have hfinds {way : Except Failure (Option Node)} (hway : found.bind (host'.pointsTo node) = way) :
              ChainPoint.Finds (.promptly waker) ⟨fresh ++ passed, node, host⟩ way host' :=
            ⟨hnew, hentry, found, hfound, hway⟩
          dsimp only
          unfold arrive
          cases found with
          | error failure => exact .comes ⟨_, .refl, .lost (hfinds rfl)⟩ rfl
          | ok descriptor =>
            dsimp only
            rw [after_bind, after_get]
            cases hpoints : host'.pointsTo node descriptor with
            | error failure => exact .comes ⟨_, .refl, .lost (hfinds hpoints)⟩ rfl
            | ok target =>
              cases target with
              | none => exact .comes ⟨_, .refl, .described (hfinds hpoints)⟩ rfl
              | some next =>
                -- The node was in the pool, and is not looked for there any more.
                refine After.mono (ih fuel (node :: fresh) next host' ?_ ?_ ?_ ?_ ?_) fun _ _ =>
                  .of_next (.alias (hfinds hpoints))
                · exact List.nodup_cons.2 ⟨fun hmem => hnew (List.mem_append_left _ hmem), hnodup⟩
                · exact List.forall_mem_cons.2 ⟨hsight node hnew (hdescribed descriptor rfl), hpool⟩
                · intro other hother hseen
                  rw [List.cons_append, List.mem_cons, not_or] at hother
                  exact hsight other hother.2 (hkeeps.inSight hother.1 hseen)
                · rw [List.length_cons]
                  omega
                · omega

end LoadWork

/-- No load hook has a say about the node: it has a static descriptor, or there is no hook and no call of
one. -/
def Host.Unhooked (host : Host) (node : Node) : Prop :=
  ((host.compartment node.compartment).table.get? node.key).isSome ∨
    (host.compartment node.compartment).loadHook = none ∧ host.callAt? node = none

/-- Where no load hook has a say, both ways of looking for a descriptor are alike. -/
theorem Host.Unhooked.describe {host : Host} {node : Node} (h : host.Unhooked node) (waker : Waker) :
    After host (Act.describe node waker) fun result host' =>
      After host (Act.describeAtOnce node) fun found after => result = .ready found ∧ host' = after := by
  unfold Act.describe Act.describeAtOnce
  simp only [after_bind, after_get]
  cases htable : (host.compartment node.compartment).table.get? node.key with
  | some descriptor => exact ⟨rfl, rfl⟩
  | none =>
    obtain ⟨hhook, hcall⟩ := h.resolve_left (by simp [htable])
    have hnone : host.describedByHook? node = none := by
      unfold Host.describedByHook?
      change (host.compartment node.compartment).calls.get? node.key = none at hcall
      rw [hcall]
    rw [hnone, hhook]
    simp only [Option.isSome_none, Bool.false_eq_true, if_false]
    unfold Act.describeNow
    simp only [after_bind]
    have hask : After host (Act.askNow node) fun found after =>
        Act.askNow node host = (found, after) ∧ Aside host after := ⟨rfl, Act.askNow_aside node host⟩
    refine hask.mono fun found after hask => ?_
    obtain ⟨hask, haside⟩ := hask
    cases found with
    | some descriptor => 
      rw [after_pure, after_pure, After, hask]
      exact ⟨rfl, rfl⟩
    | none => 
      rw [after_bind, after_get, after_pure, after_pure, After, hask]
      refine ⟨?_, rfl⟩
      obtain ⟨_, _, _, _, _, _, rfl⟩ := haside
      rfl

namespace ChainPoint

variable {start : ChainPoint} {waker : Waker}

theorem finds_iff {point : ChainPoint} (h : point.host.Unhooked point.node)
    {way : Except Failure (Option Node)} {host' : Host} :
    point.Finds (.promptly waker) way host' ↔ point.Finds .atOnce way host' := by
  have hlooks (found : Except Failure Descriptor) : Lookup.promptly waker point.node point.host found host' ↔
      Lookup.atOnce point.node point.host found host' := by
    obtain ⟨hfound, hhost⟩ := h.describe waker
    have hdescribe : Act.describe point.node waker point.host = (.ready _, _) := Prod.ext hfound hhost
    unfold Lookup.promptly Lookup.atOnce
    rw [hdescribe, Prod.mk.injEq, Poll.ready.injEq, ← Prod.mk.injEq]
    exact Iff.rfl
  simp only [Finds, hlooks]

theorem passes_iff (h : ∀ point, start.Passes .atOnce point → point.host.Unhooked point.node)
    {point : ChainPoint} : start.Passes (.promptly waker) point ↔ start.Passes .atOnce point := by
  constructor
  · intro hpasses
    induction hpasses with
    | refl => exact .refl
    | tail _ hnext ih =>
      obtain ⟨hfinds⟩ := hnext
      exact ih.tail (.alias ((finds_iff (h _ ih)).1 hfinds))
  · intro hpasses
    induction hpasses with
    | refl => exact .refl
    | tail hmiddle hnext ih =>
      obtain ⟨hfinds⟩ := hnext
      exact ih.tail (.alias ((finds_iff (h _ hmiddle)).2 hfinds))

theorem comes_iff (h : ∀ point, start.Passes .atOnce point → point.host.Unhooked point.node)
    {answer : Except Failure Node} {host' : Host} :
    start.Comes (.promptly waker) answer host' ↔ start.Comes .atOnce answer host' := by
  unfold Comes
  refine exists_congr fun last => ?_
  rw [passes_iff h]
  refine and_congr_right fun hpasses => ?_
  have hfinds {way : Except Failure (Option Node)} {host' : Host} :
      last.Finds (.promptly waker) way host' ↔ last.Finds .atOnce way host' := finds_iff (h last hpasses)
  constructor
  · rintro (hmem | ⟨hnew, hsome⟩ | hfound | hfound)
    · exact .circle hmem
    · exact .memoized hnew hsome
    · exact .described (hfinds.1 hfound)
    · exact .lost (hfinds.1 hfound)
  · rintro (hmem | ⟨hnew, hsome⟩ | hfound | hfound)
    · exact .circle hmem
    · exact .memoized hnew hsome
    · exact .described (hfinds.2 hfound)
    · exact .lost (hfinds.2 hfound)

end ChainPoint

variable {host : Host} {origin target : Node}

/-- The chain of an alias is followed to its end by the loop that must not wait. -/
theorem Act.followAtOnce_decides (host : Host) (origin target : Node) {fuel : Nat}
    (hfuel : host.nodesAtHand.length + 2 ≤ fuel) :
    After host (Act.followAtOnce fuel [origin] target)
      (ChainPoint.Comes .atOnce ⟨[origin], target, host⟩) :=
  Act.followAtOnce_comes [origin] fuel [] target host List.nodup_nil nofun (by
    rw [List.length_nil]
    omega)

/-- So it is by the loop that may wait, unless a hook keeps it waiting. -/
theorem LoadWork.follow_decides (host : Host) (origin target : Node) {fuel : Nat}
    (hfuel : patience host ≤ fuel) (look : LoadWork.Look) (work : LoadWork) (waker : Waker) :
    After host (work.follow look waker fuel [origin] target)
      (Follows look work waker ⟨[origin], target, host⟩) := by
  have hlength := Host.length_mentioned host
  unfold patience at hfuel
  refine follow_follows [origin] (host.mentioned ++ host.nodesAtHand)
    ((host.mentioned ++ host.nodesAtHand).length + 1) fuel [] target host List.nodup_nil nofun
    (fun _ _ => Host.InSight.mem) (by simp) ?_
  rw [List.length_append]
  omega

/-- Where no load hook has a say, the loop that may wait does not wait, and comes to the same end. -/
theorem LoadWork.follow_atOnce {fuel fuel' : Nat} (hfuel : patience host ≤ fuel)
    (hfuel' : host.nodesAtHand.length + 2 ≤ fuel')
    (hunhooked : ∀ point, ChainPoint.Passes .atOnce ⟨[origin], target, host⟩ point →
      point.host.Unhooked point.node) (look : LoadWork.Look) (work : LoadWork) (waker : Waker) :
    work.follow look waker fuel [origin] target host =
      (do work.atEnd look waker (← Act.followAtOnce fuel' [origin] target)) host := by
  have hatOnce := Act.followAtOnce_decides host origin target hfuel'
  have hfollow := follow_decides host origin target hfuel look work waker
  unfold After at hfollow
  generalize work.follow look waker fuel [origin] target host = outcome at hfollow
  obtain ⟨result, host'⟩ := outcome
  cases hfollow with
  | waits hpasses _ _ hcall =>
    have hready := ((hunhooked _ ((ChainPoint.passes_iff hunhooked).1 hpasses)).describe waker).1
    rw [hcall] at hready
    cases hready
  | comes hcomes hend =>
    obtain ⟨hanswer, hmiddle⟩ := ((ChainPoint.comes_iff hunhooked).1 hcomes).unique
      Lookup.atOnce_functional hatOnce
    rw [hanswer, hmiddle] at hend
    exact hend.symm

end ModuleLoader
