import ModuleLoader.Proofs.Shelves
/-!
Obtaining descriptors is quiet: hooks are asked and objects are made, but no module comes into being.
What is obtained mentions only compartments that were built.
-/

namespace ModuleLoader
set_option autoImplicit false

namespace Act

open IsAside

theorem newObject_aside (properties : Table Value) :
    IsAside (onStore (Store.newObject properties)) :=
  onStore_aside fun _ => rfl

theorem namedObject_aside (name : String) : IsAside (namedObject name) := by
  refine .getBind fun host => ?_
  split
  · exact .pure _
  · exact (newObject_aside _).bind fun _ => .bind (fun _ => ⟨_, _, _, _, _, _, rfl⟩) fun _ => .pure _

theorem exportsNamed_aside (label key : String) : IsAside (exportsNamed label key) := by
  refine .getBind fun host => ?_
  split
  · exact .pure _
  · split <;> exact .pure _

mutual

theorem evaluate_aside : ∀ literal : Literal, IsAside (evaluate literal)
  | .undefined | .null | .boolean _ | .number _ | .string _ => by
    unfold evaluate
    exact .pure _
  | .array items => by
    unfold evaluate
    exact (evaluateItems_aside items).bind fun _ => .pure _
  | .object members => by
    unfold evaluate
    exact (evaluateMembers_aside members).bind fun _ => (newObject_aside _).bind fun _ => .pure _
  | .named name => by
    unfold evaluate
    exact (namedObject_aside name).bind fun _ => .pure _
  | .exportsOf compartment key => by
    unfold evaluate
    exact exportsNamed_aside compartment key

theorem evaluateItems_aside : ∀ items : List Literal, IsAside (evaluateItems items)
  | [] => by
    unfold evaluateItems
    exact .pure _
  | item :: rest => by
    unfold evaluateItems
    exact (evaluate_aside item).bind fun _ => (evaluateItems_aside rest).bind fun _ => .pure _

theorem evaluateMembers_aside :
    ∀ members : List (String × Literal), IsAside (evaluateMembers members)
  | [] => by
    unfold evaluateMembers
    exact .pure _
  | (name, item) :: rest => by
    unfold evaluateMembers
    exact (evaluate_aside item).bind fun _ => (evaluateMembers_aside rest).bind fun _ => .pure _

end

theorem build_aside (home : String) (blueprint : Blueprint) : IsAside (build home blueprint) := by
  unfold build
  split
  · split
    · exact .pure _
    · exact (evaluateMembers_aside _).bind fun _ => .pure _
  · split <;> exact .pure _
  · exact .pure _
  · exact .getBind fun _ => .pure _
  · exact .pure _
  · exact (evaluate_aside _).bind fun _ => .pure _

/-- Only a redirection mentions a compartment, and it finds it under a label. -/
theorem build_grounded {host : Host} (h : host.Grounded) (home : String) (blueprint : Blueprint) :
    After host (build home blueprint) fun result host' =>
      ∀ descriptor, result = .ok descriptor → descriptor.Grounded host' := by
  cases blueprint with
  | module compiled bindings body async needsImport needsMeta metaProperties =>
    dsimp only [build]
    split
    · rintro _ ⟨⟩
    · rintro _ ⟨⟩
      cases compiled <;> trivial
  | document text =>
    dsimp only [build]
    split
    · rintro _ ⟨⟩
    · rintro _ ⟨⟩
      trivial
  | text text =>
    rintro _ ⟨⟩
    trivial
  | redirect key compartment =>
    rintro _ ⟨⟩
    cases hlabel : compartment.bind host.labels.get? with
    | none => simp [Descriptor.Grounded]
    | some owner =>
      obtain ⟨label, -, howner⟩ := Option.bind_eq_some_iff.1 hlabel
      have hbuilt := h.labels label owner howner
      simp only [Descriptor.Grounded]
      exact hbuilt
  | record key =>
    rintro _ ⟨⟩
    trivial
  | exports value =>
    rintro _ ⟨⟩
    trivial

theorem askNow_aside (node : Node) : IsAside (askNow node) := by
  refine .getBind fun host => ?_
  dsimp only
  split
  · exact .pure _
  · refine (note_aside _).bind fun _ => ?_
    split
    · exact .pure _
    · refine (build_aside _ _).bind fun result => ?_
      cases result <;> exact .pure _

theorem askNow_grounded {host : Host} (h : host.Grounded) (node : Node) :
    After host (askNow node) fun result host' =>
      ∀ descriptor, result = some descriptor → descriptor.Grounded host' := by
  unfold askNow
  rw [after_bind, after_get]
  dsimp only
  split
  · rintro _ ⟨⟩
  · refine (note_aside _).after_bind fun _ noted hnoted => ?_
    split
    · rintro _ ⟨⟩
    · rw [after_bind]
      refine (build_grounded (hnoted.quiet.grounded h) _ _).mono fun result after hresult => ?_
      cases result with
      | error failure => rintro _ ⟨⟩
      | ok built =>
        rintro _ ⟨⟩
        exact hresult built rfl

theorem describeNow_aside (node : Node) : IsAside (describeNow node) := by
  refine (askNow_aside node).bind fun result => ?_
  cases result with
  | none => exact .getBind fun _ => .pure _
  | some descriptor => exact .pure _

theorem describeNow_grounded {host : Host} (h : host.Grounded) (node : Node) :
    After host (describeNow node) fun result host' =>
      ∀ descriptor, result = .ok descriptor → descriptor.Grounded host' := by
  unfold describeNow
  rw [after_bind]
  refine (askNow_grounded h node).mono fun result after hresult => ?_
  cases result with
  | none => rintro _ ⟨⟩
  | some descriptor =>
    rintro _ ⟨⟩
    exact hresult descriptor rfl

end Act

namespace HookCall

open Act.IsAside

theorem conclude_aside (call : HookCall) (reply : Reply) : (call.conclude reply).IsAside := by
  refine .getBind fun host => (Act.note_aside _).bind fun _ => ?_
  cases reply with
  | absent => exact .pure _
  | fail reason => exact .pure _
  | describe blueprint =>
    refine (Act.build_aside _ _).bind fun result => ?_
    cases result <;> exact .pure _

theorem conclude_grounded {host : Host} (h : host.Grounded) (call : HookCall) (reply : Reply) :
    After host (call.conclude reply) fun result host' =>
      ∀ descriptor, result = .ok (some descriptor) → descriptor.Grounded host' := by
  unfold conclude
  rw [after_bind, after_get]
  refine (Act.note_aside _).after_bind fun _ noted hnoted => ?_
  cases reply with
  | absent => rintro _ ⟨⟩
  | fail reason => rintro _ ⟨⟩
  | describe blueprint =>
    dsimp only
    rw [after_bind]
    refine (Act.build_grounded (hnoted.quiet.grounded h) _ _).mono fun result after hresult => ?_
    cases result with
    | error failure => rintro _ ⟨⟩
    | ok built =>
      rintro _ ⟨⟩
      exact hresult built rfl

/-- What one step of a call leaves behind. -/
def Fair (host : Host) (result : Poll HookCall HookResult) (host' : Host) : Prop :=
  Aside host host' ∧ (host.Grounded →
    ∀ descriptor, result = .ready (.ok (some descriptor)) → descriptor.Grounded host')

theorem giveWay_fair (host : Host) (call : HookCall) (left : Nat) (reply : Reply) (waker : Waker) :
    After host (call.giveWay left reply waker) (Fair host) := by
  unfold giveWay
  cases left with
  | zero =>
    refine ⟨conclude_aside call reply host, fun h descriptor hresult => ?_⟩
    refine conclude_grounded h call reply descriptor ?_
    injection hresult
  | succ left => exact ⟨Act.tell_aside _ host, fun _ _ hresult => nomatch hresult⟩

theorem Fair.after {host middle : Host} (h : Aside host middle)
    {act : Act (Poll HookCall HookResult)} (hact : After middle act (Fair middle)) :
    After host (fun _ => act middle) (Fair host) :=
  ⟨h.trans hact.1, fun hgrounded => hact.2 (h.quiet.grounded hgrounded)⟩

theorem drive_fair (host : Host) (call : HookCall) (waker : Waker) :
    After host (call.drive waker) (Fair host) := by
  unfold drive
  split
  · rw [after_bind, after_get]
    refine (Act.note_aside _).after_bind fun _ noted hnoted => ?_
    refine (Act.countCall_aside _ _).after_bind fun count counted hcounted => ?_
    have haside := hnoted.trans hcounted
    dsimp only
    split
    · exact Fair.after haside (giveWay_fair counted _ _ _ _)
    · rename_i gate _
      refine (Act.passGate_aside gate waker).after_bind fun isPassed passed hpassed => ?_
      cases isPassed
      · exact ⟨haside.trans hpassed, fun _ _ hresult => nomatch hresult⟩
      · exact Fair.after (haside.trans hpassed) (giveWay_fair passed _ _ _ _)
  · rename_i gate answer _
    refine (Act.isOpen_aside gate).after_bind fun isPassed passed hpassed => ?_
    cases isPassed
    · exact ⟨hpassed, fun _ _ hresult => nomatch hresult⟩
    · exact Fair.after hpassed (giveWay_fair passed _ _ _ _)
  · exact giveWay_fair host call _ _ _

/-- Storing how far a call has come is quiet, if what it gave is grounded. -/
theorem put_quiet {base host : Host} (hbase : Quiet base host) (ref : Ref .call)
    (shared : Shared HookCall HookResult)
    (h : base.Grounded → ∀ descriptor, shared.output? = some (.ok (some descriptor)) →
      descriptor.Grounded host) : Quiet base (Shelf.calls.put host ref shared) := by
  refine { hbase with grounded := fun hgrounded => ?_ }
  have hhost := hbase.grounded hgrounded
  refine ⟨hhost.labels, hhost.parents, hhost.tables, fun call other descriptor hget hother => ?_⟩
  change (host.calls.set ref shared).get? call = some other at hget
  rw [Arena.get?_set] at hget
  split at hget
  · obtain ⟨_, _, rfl⟩ := Option.map_eq_some_iff.1 hget
    exact h hgrounded descriptor hother
  · exact hhost.calls call other descriptor hget hother

/-- What a look at a call leaves behind. -/
theorem poll_fair (host : Host) (watch : Watch .call) (waker : Waker) :
    After host (Shelf.calls.poll drive watch waker) fun result host' =>
      Quiet host host' ∧ (host.Grounded → ∀ descriptor,
        result = .ready (.ok (some descriptor)) → descriptor.Grounded host') := by
  refine Shelf.after_poll ?_ ?_ ?_ ?_
  · exact fun _ => ⟨.refl host, fun _ _ hresult => nomatch hresult⟩
  · intro bell result hget
    refine ⟨.refl host, fun hhost descriptor hresult => ?_⟩
    cases hresult
    exact hhost.calls watch.job _ descriptor hget rfl
  · exact fun _ _ _ host' _ haside => ⟨haside.quiet, fun _ _ hresult => nomatch hresult⟩
  · intro bell work seat told _ htold
    have hput := put_quiet htold.quiet watch.job ⟨bell, .driven work⟩ fun _ _ houtput => nomatch houtput
    refine (drive_fair (Shelf.calls.put told watch.job ⟨bell, .driven work⟩) work
      (.bell bell)).mono fun result after hafter => ?_
    have hquiet := hput.trans hafter.1.quiet
    cases result with
    | pending work =>
      refine ⟨put_quiet hquiet _ _ fun _ _ houtput => ?_, fun _ _ hresult => ?_⟩
      · cases houtput
      · cases hresult
    | ready result =>
      intro last hlast
      have hgiven (hhost : host.Grounded) (descriptor : Descriptor)
          (hresult : result = .ok (some descriptor)) : descriptor.Grounded after :=
        hafter.2 (hput.grounded hhost) descriptor (hresult ▸ rfl)
      have hdone : Quiet host (Shelf.calls.put after watch.job ⟨bell, .done result⟩) :=
        put_quiet hquiet _ _ fun hhost descriptor houtput =>
          hgiven hhost descriptor (Option.some.inj houtput)
      refine ⟨hdone.trans hlast.quiet, fun hhost descriptor hresult => ?_⟩
      cases hresult
      exact (hlast.quiet.descriptor_grounded descriptor).2 (hgiven hhost descriptor rfl)

end HookCall

namespace Host

variable {host : Host}

theorem compartment_modify (ref other : Ref .compartment) (f : Compartment → Compartment) :
    ({ host with compartments := host.compartments.modify ref f } : Host).compartment other =
      if ref = other ∧ host.Built ref then f (host.compartment other)
      else host.compartment other := by
  have hbuilt : host.Built ref ↔ (host.compartments.get? ref).isSome := by
    simp [Built, Arena.get?, Arena.size]
  unfold compartment
  dsimp only
  rw [Arena.get?_modify]
  by_cases href : ref = other
  · subst href
    cases hget : host.compartments.get? ref <;> simp [hbuilt, hget]
  · simp [href]

/-- A change of a compartment that leaves its parent and its table alone. -/
theorem Grounded.modify (h : host.Grounded) (ref : Ref .compartment)
    {f : Compartment → Compartment}
    (hparent : ∀ compartment, (f compartment).parent = compartment.parent)
    (htable : ∀ compartment, (f compartment).table = compartment.table) :
    ({ host with compartments := host.compartments.modify ref f } : Host).Grounded := by
  have hsize : (host.compartments.modify ref f).size = host.compartments.size :=
    Arena.size_modify _ _ _
  have hbuilt (other : Ref .compartment) (h : host.Built other) :
      ({ host with compartments := host.compartments.modify ref f } : Host).Built other :=
    Nat.lt_of_lt_of_eq h hsize.symm
  have hdescriptor (descriptor : Descriptor) (h : descriptor.Grounded host) :
      descriptor.Grounded { host with compartments := host.compartments.modify ref f } := by
    unfold Descriptor.Grounded at h ⊢
    split
    · exact hbuilt _ h
    · trivial
  refine ⟨fun label owner hlabel => hbuilt owner (h.labels label owner hlabel), ?_, ?_, ?_⟩
  · intro other parent hother
    rw [compartment_modify] at hother
    split at hother
    · rw [hparent] at hother
      exact hbuilt parent (h.parents other parent hother)
    · exact hbuilt parent (h.parents other parent hother)
  · intro other key descriptor hother
    rw [compartment_modify] at hother
    split at hother
    · rw [htable] at hother
      exact hdescriptor descriptor (h.tables other key descriptor hother)
    · exact hdescriptor descriptor (h.tables other key descriptor hother)
  · intro call shared descriptor hcall houtput
    exact hdescriptor descriptor (h.calls call shared descriptor hcall houtput)

/-- A change of the calls of a compartment is quiet. -/
theorem quiet_changeCalls (ref : Ref .compartment) (f : Compartment → Compartment)
    (hf : ∀ compartment, { f compartment with calls := .empty } =
      { compartment with calls := .empty }) :
    Quiet host { host with compartments := host.compartments.modify ref f } := by
  have hparent (compartment : Compartment) : (f compartment).parent = compartment.parent := by
    have hsame := congrArg Compartment.parent (hf compartment)
    exact hsame
  have htable (compartment : Compartment) : (f compartment).table = compartment.table := by
    have hsame := congrArg Compartment.table (hf compartment)
    exact hsame
  refine ⟨rfl, rfl, rfl, rfl, rfl, rfl, rfl, rfl, rfl, rfl, Arena.size_modify _ _ _, ?_,
    fun h => h.modify ref hparent htable⟩
  intro other
  rw [compartment_modify]
  split
  · exact hf _
  · rfl

theorem Grounded.ancestorsUpTo_built (h : host.Grounded) :
    ∀ (count : Nat) (start : Option (Ref .compartment)),
      (∀ ref, start = some ref → host.Built ref) →
        ∀ ref ∈ host.ancestorsUpTo count start, host.Built ref := by
  intro count
  induction count with
  | zero => intro start _ ref hmem; cases hmem
  | succ count ih =>
    intro start hstart ref hmem
    cases start with
    | none => cases hmem
    | some first =>
      rcases List.mem_cons.1 hmem with rfl | hmem
      · exact hstart ref rfl
      · exact ih _ (h.parents first) ref hmem

theorem Grounded.aliasOwner_built (h : host.Grounded) {node : Node} {target : String}
    {owner : Ref .compartment} (howner : host.aliasOwner node target = .ok owner) :
    host.Built owner := by
  have hancestors := h.ancestorsUpTo_built host.compartments.size
    (host.compartment node.compartment).parent (h.parents node.compartment)
  unfold aliasOwner ancestorAnswering at howner
  dsimp only at howner
  refine hancestors owner ?_
  change owner ∈ host.ancestors node.compartment
  cases hknows : (host.ancestors node.compartment).find? (host.knows target) with
  | some ancestor =>
    simp only [hknows, Except.ok.injEq] at howner
    exact howner ▸ List.mem_of_find?_eq_some hknows
  | none =>
    cases hhook : (host.ancestors node.compartment).find? host.hasHook with
    | some ancestor =>
      simp only [hknows, hhook, Except.ok.injEq] at howner
      exact howner ▸ List.mem_of_find?_eq_some hhook
    | none =>
      cases hhead : (host.ancestors node.compartment).head? with
      | none => simp [hknows, hhook, hhead] at howner
      | some ancestor =>
        simp only [hknows, hhook, hhead, Except.ok.injEq] at howner
        exact howner ▸ List.mem_of_head? hhead

/-- An alias of a compartment that was built points into one that was built. -/
theorem Grounded.pointsTo_built (h : host.Grounded) {node target : Node} {descriptor : Descriptor}
    (hnode : host.Built node.compartment) (hdescriptor : descriptor.Grounded host)
    (hpoints : host.pointsTo node descriptor = .ok (some target)) :
    host.Built target.compartment := by
  cases descriptor with
  | instanceAlias key owner =>
    cases hpoints
    cases owner with
    | none => exact hnode
    | some owner => exact hdescriptor
  | recordAlias key =>
    unfold pointsTo at hpoints
    dsimp only at hpoints
    cases howner : host.aliasOwner node key with
    | error failure => simp [howner] at hpoints
    | ok owner =>
      rw [howner] at hpoints
      cases hpoints
      exact h.aliasOwner_built howner
  | compiled source => cases hpoints
  | «virtual» source => cases hpoints
  | exportsAlias value => cases hpoints

end Host

namespace Act

open IsQuiet

theorem callOf_quiet (node : Node) : IsQuiet (callOf node) := by
  refine .getBind fun host => ?_
  split
  · exact .pure _
  · refine newBell_aside.quiet.bind fun bell => .getBind fun host => ?_
    refine IsQuiet.bind (fun before => ?_) fun _ =>
      IsQuiet.bind (fun before => Host.quiet_changeCalls _ _ fun _ => rfl) fun _ => .pure _
    refine ⟨rfl, rfl, rfl, rfl, rfl, rfl, rfl, rfl, rfl, rfl, rfl, fun _ => rfl, fun h => ?_⟩
    refine ⟨h.labels, h.parents, h.tables, fun call shared descriptor hget houtput => ?_⟩
    change (before.calls.push _).get? call = some shared at hget
    rw [Arena.get?_push] at hget
    split at hget
    · cases hget
      cases houtput
    · exact h.calls call shared descriptor hget houtput

theorem forgetCall_quiet (node : Node) (call : Ref .call) : IsQuiet (forgetCall node call) := by
  refine fun host => Host.quiet_changeCalls _ _ fun compartment => ?_
  split <;> rfl

/-- What an attempt to obtain a descriptor leaves behind. -/
def Obtained {rest : Type} (host : Host) (result : Poll rest (Except Failure Descriptor))
    (host' : Host) : Prop :=
  Quiet host host' ∧ (host.Grounded →
    ∀ descriptor, result = .ready (.ok descriptor) → descriptor.Grounded host')

theorem Obtained.after {rest : Type} {host middle : Host} (h : Quiet host middle)
    {act : Act (Poll rest (Except Failure Descriptor))} (hact : After middle act (Obtained middle)) :
    After middle act (Obtained host) :=
  ⟨h.trans hact.1, fun hgrounded => hact.2 (h.grounded hgrounded)⟩

theorem describeNow_obtained {rest : Type} (host : Host) (node : Node) :
    After host (do return (.ready (← describeNow node) : Poll rest _)) (Obtained host) := by
  refine ⟨(describeNow_aside node host).quiet, fun h descriptor hresult => ?_⟩
  refine describeNow_grounded h node descriptor ?_
  injection hresult

theorem awaitCall_obtained (host : Host) (node : Node) (watch : Watch .call) (waker : Waker) :
    After host (awaitCall node watch waker) (Obtained host) := by
  unfold awaitCall
  rw [after_bind]
  refine (HookCall.poll_fair host watch waker).mono fun result polled hpolled => ?_
  rcases result with watch | failure | _ | descriptor
  · exact ⟨hpolled.1, fun _ _ hresult => nomatch hresult⟩
  · refine (forgetCall_quiet node watch.job).after_bind fun _ forgot hforgot => ?_
    exact ⟨hpolled.1.trans hforgot, fun _ _ hresult => nomatch hresult⟩
  · refine (forgetCall_quiet node watch.job).after_bind fun _ forgot hforgot => ?_
    exact Obtained.after (hpolled.1.trans hforgot) (describeNow_obtained forgot node)
  · refine ⟨hpolled.1, fun h _ hresult => ?_⟩
    cases hresult
    exact hpolled.2 h descriptor rfl

theorem describe_obtained (host : Host) (node : Node) (waker : Waker) :
    After host (describe node waker) (Obtained host) := by
  unfold describe
  rw [after_bind, after_get]
  dsimp only
  split
  · rename_i descriptor hget
    refine ⟨.refl host, fun h _ hresult => ?_⟩
    cases hresult
    exact h.tables _ _ descriptor hget
  · split
    · refine (callOf_quiet node).after_bind fun call called hcalled => ?_
      exact Obtained.after hcalled (awaitCall_obtained called node _ waker)
    · exact describeNow_obtained host node

theorem describeAtOnce_aside (node : Node) : IsAside (describeAtOnce node) := by
  refine .getBind fun host => ?_
  dsimp only
  split
  · exact .pure _
  · split
    · exact .pure _
    · refine (askNow_aside node).bind fun result => ?_
      split
      · exact .pure _
      · split <;> exact .pure _

theorem describeAtOnce_grounded {host : Host} (h : host.Grounded) (node : Node) :
    After host (describeAtOnce node) fun result host' =>
      ∀ descriptor, result = .ok descriptor → descriptor.Grounded host' := by
  unfold describeAtOnce
  rw [after_bind, after_get]
  dsimp only
  split
  · rename_i descriptor hget
    rintro _ ⟨⟩
    exact h.tables _ _ descriptor hget
  · split
    · rename_i descriptor hget
      rintro _ ⟨⟩
      unfold Host.describedByHook? at hget
      split at hget
      · cases hget
      · split at hget
        · rename_i call _ _ _ houtput
          cases hget
          obtain ⟨shared, hshared, houtput⟩ := Option.bind_eq_some_iff.1 houtput
          exact h.calls call shared descriptor hshared houtput
        · cases hget
    · rw [after_bind]
      refine (askNow_grounded h node).mono fun result asked hasked => ?_
      split
      · rintro _ ⟨⟩
        exact hasked _ rfl
      · split <;> rintro _ ⟨⟩

theorem followAtOnce_aside :
    ∀ (fuel : Nat) (visited : List Node) (node : Node), IsAside (followAtOnce fuel visited node) := by
  intro fuel
  induction fuel with
  | zero => exact fun _ _ => .pure _
  | succ fuel ih =>
    intro visited node
    unfold followAtOnce
    split
    · exact .pure _
    · refine .getBind fun host => ?_
      split
      · exact .pure _
      · refine (describeAtOnce_aside node).bind fun described => ?_
        split
        · exact .pure _
        · refine .getBind fun host => ?_
          split
          · exact .pure _
          · exact ih _ _
          · exact .pure _

/-- A chain of aliases that starts in a compartment that was built ends in one. -/
theorem followAtOnce_built :
    ∀ (fuel : Nat) (visited : List Node) (node : Node) (host : Host), host.Grounded →
      host.Built node.compartment →
        After host (followAtOnce fuel visited node) fun result host' =>
          ∀ target, result = .ok target → host'.Built target.compartment := by
  intro fuel
  induction fuel with
  | zero => rintro _ _ _ _ _ _ ⟨⟩
  | succ fuel ih =>
    intro visited node host h hnode
    unfold followAtOnce
    split
    · rintro _ ⟨⟩
    · rw [after_bind, after_get]
      split
      · rintro _ ⟨⟩
        exact hnode
      · rw [after_bind]
        refine ((describeAtOnce_grounded h node).and
          (show After host (describeAtOnce node) fun _ host' => Quiet host host' from
            (describeAtOnce_aside node host).quiet)).mono fun result described hdescribed => ?_
        obtain ⟨hgrounded, hquiet⟩ := hdescribed
        have hnode := (hquiet.built node.compartment).2 hnode
        split
        · rintro _ ⟨⟩
        · rename_i descriptor
          rw [after_bind, after_get]
          split
          · rintro _ ⟨⟩
          · rename_i next hpoints
            exact ih _ next described (hquiet.grounded h)
              ((hquiet.grounded h).pointsTo_built hnode (hgrounded descriptor rfl) hpoints)
          · rintro _ ⟨⟩
            exact hnode

end Act

end ModuleLoader
