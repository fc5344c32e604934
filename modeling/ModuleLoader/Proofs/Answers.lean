import ModuleLoader.Proofs.Foretellings
/-!
Hooks say what was foretold: whatever a descriptor of a node is built from, it has the prospect that the
node had from the start.
-/

namespace ModuleLoader
set_option autoImplicit false

variable {start : Host} {region : Node → Prop} {host : Host}

namespace Act

/-- After an action of loading: what is known was foretold, what was known stays so, and `post`
holds. -/
def Abides {α : Type} (start : Host) (region : Node → Prop) (act : Act α) (host : Host)
    (post : α → Host → Prop) : Prop :=
  After host act fun result host' =>
    Host.Foretold start region host' ∧ Host.Upholds start region host host' ∧ post result host'

namespace Abides

variable {α β : Type}

theorem pure {post : α → Host → Prop} {result : α} (h : Host.Foretold start region host)
    (hpost : post result host) : (Pure.pure result : Act α).Abides start region host post :=
  ⟨h, .refl host, hpost⟩

theorem mono {act : Act α} {post post' : α → Host → Prop} (h : act.Abides start region host post)
    (himp : ∀ result host', Host.Foretold start region host' →
      Host.Upholds start region host host' → post result host' → post' result host') :
    act.Abides start region host post' :=
  After.mono h fun result host' ⟨hfits, hupholds, hpost⟩ =>
    ⟨hfits, hupholds, himp result host' hfits hupholds hpost⟩

theorem bind {act : Act α} {next : α → Act β} {post : α → Host → Prop} {post' : β → Host → Prop}
    (h : act.Abides start region host post)
    (hnext : ∀ result host', Host.Foretold start region host' →
      Host.Upholds start region host host' → post result host' →
        (next result).Abides start region host' post') :
    (act >>= next).Abides start region host post' := by
  obtain ⟨hfits, hupholds, hpost⟩ := h
  obtain ⟨hfits', hupholds', hpost'⟩ := hnext _ _ hfits hupholds hpost
  exact ⟨hfits', hupholds.trans hupholds', hpost'⟩

theorem getBind {next : Host → Act β} {post : β → Host → Prop}
    (h : (next host).Abides start region host post) :
    (MonadState.get >>= next : Act β).Abides start region host post :=
  h

theorem aside {act : Act α} {post : α → Host → Prop}
    (h : Host.Foretold start region host) (hact : act.IsAside) (hpost : After host act post) :
    act.Abides start region host post := by
  obtain ⟨hfits, hupholds⟩ := h.aside (hact host)
  exact ⟨hfits, hupholds, hpost⟩

end Abides

/-- Every value that a literal is evaluated to exposes what was foretold. -/
theorem evaluate_fits (h : Host.Foretold start region host) (node : Node) (literal : Literal)
    (hliteral : start.prospectOfLiteral literal ≠ .unsettled) :
    After host (evaluate literal) fun value _ =>
      start.prospectOf node (.exportsAlias value) = start.prospectOfLiteral literal := by
  cases literal with
  | exportsOf label key =>
    unfold evaluate exportsNamed
    rw [after_bind, after_get, h.labels]
    unfold Host.prospectOfLiteral at hliteral ⊢
    dsimp only at hliteral ⊢
    cases hlabel : start.labels.get? label with
    | none => rfl
    | some compartment =>
      rw [hlabel] at hliteral
      dsimp only at hliteral ⊢
      by_cases hknown : (start.entryAt? ⟨compartment, key⟩).isSome
      · obtain ⟨entry, hentry⟩ := Option.isSome_iff_exists.1 (h.known _ hknown)
        rw [if_pos hknown]
        unfold Host.lookup?
        rw [hentry]
        rfl
      · rw [if_neg hknown] at hliteral
        exact absurd rfl hliteral
  | _ => rfl

/-- Every blueprint is built into a descriptor with the prospect that was foretold. -/
theorem build_fits (h : Host.Foretold start region host) (node : Node) (home : String)
    (blueprint : Blueprint) (hblueprint : start.prospectOfBlueprint node blueprint ≠ .unsettled) :
    After host (build home blueprint) fun result _ => match result with
      | .ok descriptor => start.prospectOf node descriptor = start.prospectOfBlueprint node blueprint
      | .error _ => start.prospectOfBlueprint node blueprint = .missing := by
  cases blueprint with
  | module compiled bindings body async needsImport needsMeta metaProperties =>
    unfold build Host.prospectOfBlueprint
    dsimp only
    cases bindings.mapM Binding.ofJson with
    | none => rfl
    | some bindings => cases compiled <;> rfl
  | document text =>
    unfold build Host.prospectOfBlueprint
    dsimp only
    cases Json.parse text <;> rfl
  | text text => rfl
  | redirect key compartment =>
    unfold build
    rw [after_bind, after_get, h.labels]
    rfl
  | record key => exact absurd rfl hblueprint
  | exports value => exact evaluate_fits h node value hblueprint

/-- What the synchronous hook says about a node that only it can know. -/
theorem askNow_fits (h : Host.Foretold start region host) {node : Node}
    (hnode : start.prospectNow node ≠ .unsettled) :
    After host (askNow node) fun result _ => match result with
      | some descriptor => start.prospectOf node descriptor = start.prospectNow node
      | none => start.prospectNow node = .missing := by
  have hhook := h.part node.compartment Compartment.nowHook fun _ => rfl
  unfold askNow
  rw [after_bind, after_get]
  unfold Host.prospectNow at hnode ⊢
  rw [← hhook] at hnode ⊢
  dsimp only
  cases hanswers : (host.compartment node.compartment).nowHook with
  | none => rfl
  | some answers =>
    rw [hanswers] at hnode
    dsimp only at hnode ⊢
    refine (note_aside _).after_bind fun _ noted hnoted => ?_
    cases hget : answers.get? node.key with
    | none => rfl
    | some blueprint =>
      rw [hget] at hnode
      dsimp only at hnode ⊢
      rw [after_bind]
      refine (build_fits (h.aside hnoted).1 node _ blueprint hnode).mono
        fun result after hresult => ?_
      cases result with
      | ok descriptor => exact hresult
      | error failure => exact hresult

theorem describeNow_fits (h : Host.Foretold start region host)
    {node : Node} (hnode : start.prospect node = start.prospectNow node)
    (hsome : start.prospect node ≠ .unsettled) :
    After host (describeNow node) fun result _ => start.DescriptorFits node result := by
  unfold describeNow
  rw [after_bind]
  refine (askNow_fits h (hnode ▸ hsome)).mono fun result asked hresult => ?_
  cases result with
  | none => exact hnode.trans hresult
  | some descriptor => exact (hresult : _ = _).trans hnode.symm

end Act

namespace HookCall

/-- The prospect of a node is what its load hook replies. -/
theorem prospect_of_fits {call : HookCall} {answers : Table (List HookAnswer)}
    (htable : (start.compartment call.home).table.get? call.key = none)
    (hhook : (start.compartment call.home).loadHook = some answers) :
    start.prospect ⟨call.home, call.key⟩ =
      start.prospectAfter ⟨call.home, call.key⟩ (answerTo answers call.key 0).reply := by
  unfold Host.prospect
  dsimp only
  rw [htable, hhook]

theorem conclude_fits (h : Host.Foretold start region host)
    {call : HookCall} {reply : Reply}
    (hreply : start.prospect ⟨call.home, call.key⟩ =
      start.prospectAfter ⟨call.home, call.key⟩ reply)
    (hsome : start.prospect ⟨call.home, call.key⟩ ≠ .unsettled) :
    After host (call.conclude reply) fun result _ =>
      start.AnswerFits ⟨call.home, call.key⟩ result := by
  unfold conclude
  rw [after_bind, after_get]
  refine (Act.note_aside _).after_bind fun _ noted hnoted => ?_
  cases reply with
  | absent => exact hreply
  | fail reason => exact hreply
  | describe blueprint =>
    dsimp only
    rw [after_bind]
    rw [hreply] at hsome
    refine (Act.build_fits (h.aside hnoted).1 ⟨call.home, call.key⟩ _ blueprint hsome).mono
      fun result after hresult => ?_
    cases result with
    | error failure => exact hreply.trans hresult
    | ok descriptor => exact (hresult : _ = _).trans hreply.symm

/-- What one step of a call about a node of the region comes to. -/
def Steps (start : Host) (call : HookCall) : Poll HookCall HookResult → Prop
  | .pending next => start.CallFits next
  | .ready result => start.AnswerFits ⟨call.home, call.key⟩ result

/-- A call stays about its node. -/
theorem drive_home (call : HookCall) (waker : Waker) :
    After host (call.drive waker) fun result _ => ∀ next, result = .pending next →
      next.home = call.home ∧ next.key = call.key := by
  have hgive (host : Host) (left : Nat) (reply : Reply) :
      After host (call.giveWay left reply waker) fun result _ => ∀ next, result = .pending next →
        next.home = call.home ∧ next.key = call.key := by
    unfold giveWay
    cases left <;> rintro _ ⟨⟩
    exact ⟨rfl, rfl⟩
  unfold drive
  split
  · rw [after_bind, after_get, after_bind, After, after_bind, After]
    dsimp only
    split
    · exact hgive _ _ _
    · rw [after_bind, After]
      split
      · exact hgive _ _ _
      · rintro _ ⟨⟩
        exact ⟨rfl, rfl⟩
  · rw [after_bind, After]
    split
    · exact hgive _ _ _
    · rintro _ ⟨⟩
      exact ⟨rfl, rfl⟩
  · exact hgive _ _ _

theorem giveWay_fits (h : Host.Foretold start region host)
    {call : HookCall} {answers : Table (List HookAnswer)}
    (htable : (start.compartment call.home).table.get? call.key = none)
    (hhook : (start.compartment call.home).loadHook = some answers)
    (hsome : start.prospect ⟨call.home, call.key⟩ ≠ .unsettled) {reply : Reply}
    (hreply : reply = (answerTo answers call.key 0).reply) (left : Nat) (waker : Waker) :
    After host (call.giveWay left reply waker) fun result _ => Steps start call result := by
  unfold giveWay
  cases left with
  | zero =>
    rw [after_bind]
    refine (conclude_fits h ?_ hsome).mono fun result _ hresult => hresult
    rw [hreply]
    exact prospect_of_fits htable hhook
  | succ left => exact ⟨answers, htable, hhook, hreply⟩

theorem drive_fits (h : Host.Foretold start region host) (hsettled : start.Settled region)
    {call : HookCall} (hnode : region ⟨call.home, call.key⟩) (hcall : start.CallFits call)
    (waker : Waker) : After host (call.drive waker) fun result _ => Steps start call result := by
  obtain ⟨answers, htable, hhook, hstage⟩ := hcall
  have hsome := hsettled.settled _ hnode
  have hreplies := hsettled.replies _ hnode answers hhook
  unfold drive
  cases hcase : call.stage with
  | fresh =>
    have hanswers : ((host.compartment call.home).loadHook.getD .empty) = answers := by
      rw [h.part call.home Compartment.loadHook fun _ => rfl, hhook]
      rfl
    rw [after_bind, after_get]
    refine (Act.note_aside _).after_bind fun _ noted hnoted => ?_
    refine (Act.countCall_aside _ _).after_bind fun count counted hcounted => ?_
    have h := (h.aside (hnoted.trans hcounted)).1
    rw [hanswers]
    dsimp only
    split
    · exact giveWay_fits h htable hhook hsome (hreplies count) _ _
    · rename_i gate _
      refine (Act.passGate_aside gate waker).after_bind fun isPassed passed hpassed => ?_
      cases isPassed
      · exact ⟨answers, htable, hhook, hreplies count⟩
      · exact giveWay_fits (h.aside hpassed).1 htable hhook hsome (hreplies count) _ _
  | atGate gate answer =>
    rw [hcase] at hstage
    refine (Act.isOpen_aside gate).after_bind fun isPassed passed hpassed => ?_
    cases isPassed
    · refine ⟨answers, htable, hhook, ?_⟩
      rw [hcase]
      exact hstage
    · exact giveWay_fits (h.aside hpassed).1 htable hhook hsome hstage _ _
  | yielding left reply =>
    rw [hcase] at hstage
    exact giveWay_fits h htable hhook hsome hstage _ _

end HookCall

namespace Host

/-- What a call of the load hook may become. -/
def MayAnswer (start : Host) (region : Node → Prop) (work : HookCall) :
    Progress HookCall HookResult → Prop
  | .idle next => next.home = work.home ∧ next.key = work.key ∧
      (region ⟨work.home, work.key⟩ → start.CallFits next)
  | .driven next => next.home = work.home ∧ next.key = work.key ∧
      (region ⟨work.home, work.key⟩ → start.CallFits next)
  | .done result => region ⟨work.home, work.key⟩ → start.AnswerFits ⟨work.home, work.key⟩ result

theorem get?_putCall {call : Ref .call} {work : HookCall} {bell : Ref .bell}
    {progress : Progress HookCall HookResult} (hasks : host.Asks call work) (other : Ref .call) :
    (Shelf.calls.put host call ⟨bell, progress⟩).calls.get? other =
      if call = other then some ⟨bell, progress⟩ else host.calls.get? other := by
  obtain ⟨bell', hasks⟩ := hasks
  change (host.calls.set call _).get? other = _
  rw [Arena.get?_set]
  by_cases hsame : call = other
  · subst hsame
    rcases hasks with hasks | hasks <;> simp [hasks]
  · simp [hsame]

/-- A call that is not answered yet is about one node. -/
theorem Answers.node_eq {node : Node} {call : Ref .call} {work : HookCall}
    (h : start.Answers host node call) (hasks : host.Asks call work) :
    node = ⟨work.home, work.key⟩ := by
  obtain ⟨bell, hasks⟩ := hasks
  unfold Answers at h
  obtain ⟨compartment, key⟩ := node
  rcases hasks with hasks | hasks <;>
    · rw [hasks] at h
      obtain ⟨rfl, rfl⟩ := h
      rfl

theorem Foretold.putCall (h : Foretold start region host) {call : Ref .call} {work : HookCall}
    (hasks : host.Asks call work) (bell : Ref .bell)
    {progress : Progress HookCall HookResult} (hnext : start.MayAnswer region work progress) :
    Foretold start region (Shelf.calls.put host call ⟨bell, progress⟩) ∧
      Upholds start region host (Shelf.calls.put host call ⟨bell, progress⟩) := by
  have hupholds : Upholds start region host (Shelf.calls.put host call ⟨bell, progress⟩) := by
    refine ⟨rfl, .refl _, fun node other hnode hanswers => ?_, fun _ _ _ h => h.of_eq (by rfl) (by rfl),
      fun _ _ _ hdriven => hdriven⟩
    · by_cases hsame : call = other
      · subst hsame
        obtain rfl := hanswers.node_eq hasks
        unfold Answers
        rw [get?_putCall hasks, if_pos rfl]
        cases progress with
        | idle next => exact ⟨hnext.1, hnext.2.1⟩
        | driven next => exact ⟨hnext.1, hnext.2.1⟩
        | done result => exact hnext hnode
      · refine hanswers.mono fun _ => ?_
        rw [get?_putCall hasks, if_neg hsame]
        exact id
  refine ⟨⟨h.same, h.size, h.labels, h.known, h.memo,
    fun node load hnode hkept => hupholds.loadFits node load hnode (h.kept node load hnode hkept),
    fun node call hnode hkept => hupholds.answers node call hnode (h.called node call hnode hkept),
    fun other next hother hregion => ?_,
    fun load work hflight =>
      hupholds.stageFits (h.flight load work hflight)⟩, hupholds⟩
  obtain ⟨bell', hother⟩ := hother
  rw [get?_putCall hasks] at hother
  by_cases hsame : call = other
  · rw [if_pos hsame] at hother
    have hbecomes {next : HookCall} (hnext : next.home = work.home ∧ next.key = work.key ∧
        (region ⟨work.home, work.key⟩ → start.CallFits next))
        (hregion : region ⟨next.home, next.key⟩) : start.CallFits next := by
      rw [hnext.1, hnext.2.1] at hregion
      exact hnext.2.2 hregion
    rcases hother with hother | hother
    · cases hother
      exact hbecomes hnext hregion
    · cases hother
      exact hbecomes hnext hregion
  · rw [if_neg hsame] at hother
    exact h.asks other next ⟨bell', hother⟩ hregion

end Host

namespace HookCall

/-- A look at a call finds what was foretold of every node that the call is about. -/
theorem poll_abides (h : Host.Foretold start region host) (hsettled : start.Settled region)
    (watch : Watch .call) (waker : Waker) :
    (Shelf.calls.poll drive watch waker).Abides start region host fun result _ => match result with
      | .pending next => next.job = watch.job
      | .ready result => ∀ node, region node → start.Answers host node watch.job →
          start.AnswerFits node result := by
  refine Shelf.after_poll ?_ ?_ ?_ ?_
  · exact fun _ => ⟨h, .refl host, rfl⟩
  · intro bell result hdone
    refine ⟨h, .refl host, fun node _ hanswers => ?_⟩
    unfold Host.Answers at hanswers
    rw [show host.calls.get? watch.job = _ from hdone] at hanswers
    exact hanswers
  · intro bell work seat told _ htold
    obtain ⟨hfits, hupholds⟩ := h.aside htold
    exact ⟨hfits, hupholds, rfl⟩
  · intro bell work seat told hidle htold
    obtain ⟨hfits, hupholds⟩ := h.aside htold
    have hasks : told.Asks watch.job work := ⟨bell, .inl (by rw [htold.calls]; exact hidle)⟩
    have hmay : start.MayAnswer region work (.driven work) :=
      ⟨rfl, rfl, hfits.asks watch.job work hasks⟩
    obtain ⟨hfits', hupholds'⟩ := hfits.putCall hasks bell hmay
    -- Only the result of the step depends on where the call is about.
    have hstep : After (Shelf.calls.put told watch.job ⟨bell, .driven work⟩)
        (drive work (.bell bell)) fun result after =>
          Aside (Shelf.calls.put told watch.job ⟨bell, .driven work⟩) after ∧
            (∀ next, result = .pending next → next.home = work.home ∧ next.key = work.key) ∧
            (region ⟨work.home, work.key⟩ → Steps start work result) := by
      refine ⟨(drive_fair _ work (.bell bell)).1, drive_home work (.bell bell), fun hregion => ?_⟩
      exact drive_fits hfits' hsettled hregion (hfits.asks watch.job work hasks hregion) _
    refine hstep.mono fun result after ⟨haside, hhome, hresult⟩ => ?_
    obtain ⟨hfits'', hupholds''⟩ := hfits'.aside haside
    have hasks' : after.Asks watch.job work := by
      refine ⟨bell, .inr ?_⟩
      rw [haside.calls, Host.get?_putCall hasks, if_pos rfl]
    have hupheld := (hupholds.trans hupholds').trans hupholds''
    cases result with
    | pending next =>
      obtain ⟨hhome, hkey⟩ := hhome next rfl
      obtain ⟨hlast, hupholds⟩ := hfits''.putCall hasks' bell
        (show start.MayAnswer region work (.idle next) from ⟨hhome, hkey, hresult⟩)
      exact ⟨hlast, hupheld.trans hupholds, rfl⟩
    | ready result =>
      intro last hlast
      obtain ⟨hdone, hupholds⟩ := hfits''.putCall hasks' bell
        (show start.MayAnswer region work (.done result) from hresult)
      obtain ⟨hlast, hupholds'⟩ := hdone.aside hlast
      have hall := (hupheld.trans hupholds).trans hupholds'
      refine ⟨hlast, hall, fun node hnode hanswers => ?_⟩
      obtain rfl := hanswers.node_eq ⟨bell, .inl hidle⟩
      exact hresult hnode

end HookCall

namespace Host

theorem Foretold.pushCall (h : Foretold start region host) {node : Node}
    {answers : Table (List HookAnswer)}
    (htable : (start.compartment node.compartment).table.get? node.key = none)
    (hhook : (start.compartment node.compartment).loadHook = some answers) (bell : Ref .bell) :
    let host' := { host with
      calls := host.calls.push ⟨bell, .idle ⟨node.compartment, node.key, .fresh⟩⟩
      inquiries := host.inquiries.push (host.inquiry node) }
    Foretold start region host' ∧ Upholds start region host host' ∧
      start.Answers host' node host.calls.next := by
  intro host'
  have hnext : host'.calls.get? host.calls.next =
      some ⟨bell, .idle ⟨node.compartment, node.key, .fresh⟩⟩ := by
    change (host.calls.push _).get? _ = _
    rw [Arena.get?_push, if_pos rfl]
  have hupholds : Upholds start region host host' := by
    exact ⟨rfl, .refl _, fun other call _ => .mono (Arena.Extends.push _ _ call),
      fun _ _ _ h => h.of_eq (by rfl) (by rfl), fun _ _ _ hdriven => hdriven⟩
  refine ⟨⟨h.same, h.size, h.labels, h.known, h.memo,
    fun node load hnode hkept => hupholds.loadFits node load hnode (h.kept node load hnode hkept),
    fun node call hnode hkept => hupholds.answers node call hnode (h.called node call hnode hkept),
    fun call work hasks hregion => ?_,
    fun load work hflight =>
      hupholds.stageFits (h.flight load work hflight)⟩, hupholds, ?_⟩
  · obtain ⟨bell', hasks⟩ := hasks
    by_cases hsame : call = host.calls.next
    · subst hsame
      rw [hnext] at hasks
      rcases hasks with hasks | hasks
      · cases hasks
        exact ⟨answers, htable, hhook, trivial⟩
      · cases hasks
    · change (host.calls.push _).get? call = _ ∨ (host.calls.push _).get? call = _ at hasks
      rw [Arena.get?_push, if_neg hsame] at hasks
      exact h.asks call work ⟨bell', hasks⟩ hregion
  · unfold Answers
    rw [hnext]
    exact ⟨rfl, rfl⟩

end Host

namespace Act

/-- What an attempt to obtain the descriptor of a node comes to. -/
def Described (start : Host) (region : Node → Prop) (node : Node)
    (result : Poll (Watch .call) (Except Failure Descriptor)) (host' : Host) : Prop :=
  match result with
  | .pending watch => region node → start.Answers host' node watch.job
  | .ready described => region node → start.DescriptorFits node described

/-- A new call about a node is kept. -/
theorem callOf_abides (h : Host.Foretold start region host) {node : Node}
    {answers : Table (List HookAnswer)}
    (htable : (start.compartment node.compartment).table.get? node.key = none)
    (hhook : (start.compartment node.compartment).loadHook = some answers) :
    (callOf node).Abides start region host fun call host' =>
      region node → start.Answers host' node call := by
  unfold callOf
  refine .getBind ?_
  split
  · rename_i call hcall
    exact .pure h fun hnode => h.called node call hnode hcall
  · have hbell : newBell.Abides start region host fun _ _ => True := .aside h newBell_aside trivial
    refine Abides.bind hbell
      fun bell belled hbelled _ _ => .getBind ?_
    have hpush : (modify fun host => { host with
        calls := host.calls.push ⟨bell, .idle ⟨node.compartment, node.key, .fresh⟩⟩
        inquiries := host.inquiries.push (host.inquiry node) } :
          Act Unit).Abides start region belled fun _ host' =>
            start.Answers host' node belled.calls.next := hbelled.pushCall htable hhook bell
    refine Abides.bind hpush fun _ pushed hpushed _ hanswers => ?_
    have hkeep : (changeCompartment node.compartment fun compartment =>
        { compartment with calls := compartment.calls.insert node.key belled.calls.next }).Abides
          start region pushed fun _ host' => start.Answers host' node belled.calls.next := by
      obtain ⟨hfits, hupholds⟩ := hpushed.modifyCalls node.compartment
        (f := fun compartment => { compartment with
          calls := compartment.calls.insert node.key belled.calls.next }) (fun _ => rfl)
        fun key call hregion hcall => by
          rw [Table.get?_insert] at hcall
          split at hcall
          · rename_i hkey
            cases hcall
            exact hkey ▸ hanswers
          · exact hpushed.called ⟨node.compartment, key⟩ call hregion hcall
      exact ⟨hfits, hupholds, hanswers⟩
    exact Abides.bind hkeep fun _ kept hkept _ hanswers => .pure hkept fun _ => hanswers

theorem forgetCall_abides (h : Host.Foretold start region host) (node : Node) (call : Ref .call) :
    (forgetCall node call).Abides start region host fun _ _ => True := by
  obtain ⟨hfits, hupholds⟩ := h.modifyCalls node.compartment
    (f := fun compartment => if compartment.calls.get? node.key = some call then
      { compartment with calls := compartment.calls.erase node.key } else compartment)
    (fun compartment => by split <;> rfl) fun key other hregion hother => by
      split at hother
      · rw [Table.get?_erase] at hother
        split at hother
        · cases hother
        · exact h.called ⟨node.compartment, key⟩ other hregion hother
      · exact h.called ⟨node.compartment, key⟩ other hregion hother
  exact ⟨hfits, hupholds, trivial⟩

theorem describeNow_abides (h : Host.Foretold start region host) (hsettled : start.Settled region)
    {node : Node} (hnode : region node → start.prospect node = start.prospectNow node) :
    (do return (.ready (← describeNow node) : Poll (Watch .call) _) : Act _).Abides start region host
      (Described start region node) := by
  refine .aside h ((describeNow_aside node).bind fun _ => .pure _) fun hregion => ?_
  exact describeNow_fits h (hnode hregion) (hsettled.settled node hregion)

theorem awaitCall_abides (h : Host.Foretold start region host) (hsettled : start.Settled region)
    {node : Node} {watch : Watch .call} (hwatch : region node → start.Answers host node watch.job)
    (waker : Waker) :
    (awaitCall node watch waker).Abides start region host (Described start region node) := by
  refine Abides.bind (HookCall.poll_abides h hsettled watch waker)
    fun result polled hpolled hupholds hresult => ?_
  rcases result with next | failure | _ | descriptor
  · refine .pure hpolled fun hregion => ?_
    have hjob : next.job = watch.job := hresult
    rw [hjob]
    exact hupholds.answers node _ hregion (hwatch hregion)
  · refine Abides.bind (forgetCall_abides hpolled node watch.job)
      fun _ forgot hforgot _ _ => .pure hforgot fun hregion => ?_
    exact hresult node hregion (hwatch hregion)
  · refine Abides.bind (forgetCall_abides hpolled node watch.job)
      fun _ forgot hforgot _ _ => describeNow_abides hforgot hsettled fun hregion => ?_
    exact hresult node hregion (hwatch hregion)
  · exact .pure hpolled fun hregion => hresult node hregion (hwatch hregion)

theorem describe_abides (h : Host.Foretold start region host) (hsettled : start.Settled region)
    (node : Node) (waker : Waker) :
    (describe node waker).Abides start region host (Described start region node) := by
  have htable := h.part node.compartment Compartment.table fun _ => rfl
  have hhook := h.part node.compartment Compartment.loadHook fun _ => rfl
  unfold describe
  refine .getBind ?_
  dsimp only
  rw [htable, hhook]
  split
  · rename_i descriptor hget
    refine .pure h fun _ => ?_
    unfold Host.DescriptorFits Host.prospect
    rw [hget]
  · rename_i hnone
    cases hanswers : (start.compartment node.compartment).loadHook with
    | none =>
      refine describeNow_abides h hsettled fun _ => ?_
      unfold Host.prospect
      rw [hnone, hanswers]
    | some answers =>
      exact Abides.bind (callOf_abides h hnone hanswers)
        fun call called hcalled _ hcall => awaitCall_abides hcalled hsettled hcall waker

end Act

end ModuleLoader
