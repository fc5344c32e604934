import ModuleLoader.Proofs.Drafts
/-!
The discipline of load hooks: a hook is only called about a key that has no static descriptor and is
not memoized, and only if every earlier call about it ended without a descriptor. Neither such a call
nor a load that failed is kept.

A call that failed is kept for a moment: until the one who looked at it forgets it.
-/

namespace ModuleLoader
set_option autoImplicit false

/-- The call that a load waits for is about the node it should be about. -/
def LoadStage.Inquires (host : Host) (node : Node) : LoadStage → Prop
  | .describing watch => host.asksAbout node watch.job
  | .following _ other watch => host.asksAbout other watch.job
  | _ => True

/-- Calls of load hooks are in order, but for one that may be about to be forgotten. -/
structure Host.HooksInOrder (host : Host) (loose : Option (Ref .call)) : Prop where
  parallel : host.inquiries.size = host.calls.size
  kept : ∀ node call, host.callAt? node = some call →
    host.asksAbout node call ∧ (host.isOpen call ∨ loose = some call)
  found : ∀ node call, host.asksAbout node call → host.isOpen call → host.callAt? node = some call
  asked : ∀ call inquiry, host.inquiries.get? call = some inquiry →
    inquiry.needless = false ∧ inquiry.unsettled = []
  /-- A load that failed is not kept. -/
  loading : ∀ node load bell failure, host.loadAt? node = some load →
    host.loads.get? load ≠ some ⟨bell, .done (.error failure)⟩
  flight : ∀ load work, host.InFlight load work → work.stage.Inquires host work.node

/-- Calls and loads are what they were, and no load is kept for more nodes. -/
structure Unasked (host host' : Host) : Prop where
  calls : host'.calls = host.calls
  inquiries : host'.inquiries = host.inquiries
  loads : host'.loads = host.loads
  callAt : ∀ node, host'.callAt? node = host.callAt? node
  loadAt : ∀ node load, host'.loadAt? node = some load → host.loadAt? node = some load
  knows : ∀ key ref, host.knows key ref → host'.knows key ref

/-- The node is known, or a call about it gave a descriptor: no hook needs to be called about it. -/
def Host.Closed (host : Host) (node : Node) : Prop :=
  host.knows node.key node.compartment ∨ ∃ call bell descriptor, host.asksAbout node call ∧
    host.calls.get? call = some ⟨bell, .done (.ok (some descriptor))⟩

/-- What a call is about stays so, what needs no call stays so, and no call was made about it. -/
structure Asked (host host' : Host) : Prop where
  inquiries : host.inquiries.Extends host'.inquiries
  closed : ∀ node, host.Closed node → host'.Closed node
  calls : ∀ node call, host.Closed node → host'.asksAbout node call → host.asksAbout node call

namespace Unasked

variable {a b c host host' : Host}

theorem refl (host : Host) : Unasked host host :=
  ⟨rfl, rfl, rfl, fun _ => rfl, fun _ _ => id, fun _ _ => id⟩

theorem trans (hab : Unasked a b) (hbc : Unasked b c) : Unasked a c where
  calls := hbc.calls.trans hab.calls
  inquiries := hbc.inquiries.trans hab.inquiries
  loads := hbc.loads.trans hab.loads
  callAt node := (hbc.callAt node).trans (hab.callAt node)
  loadAt node load h := hab.loadAt node load (hbc.loadAt node load h)
  knows key ref h := hbc.knows key ref (hab.knows key ref h)

theorem of_aside (h : Aside host host') : Unasked host host' := by
  obtain ⟨_, _, _, _, _, _, rfl⟩ := h
  exact ⟨rfl, rfl, rfl, fun _ => rfl, fun _ _ => id, fun _ _ => id⟩

theorem asks (h : Unasked host host') (node : Node) (call : Ref .call) :
    host'.asksAbout node call = host.asksAbout node call := by
  unfold Host.asksAbout
  rw [h.inquiries]

theorem asked (h : Unasked host host') : Asked host host' where
  inquiries := .of_eq h.inquiries
  closed node hclosed := by
    refine hclosed.imp (h.knows _ _) ?_
    rintro ⟨call, bell, descriptor, hasks, hcall⟩
    exact ⟨call, bell, descriptor, (h.asks node call).trans hasks, h.calls ▸ hcall⟩
  calls node call _ hasks := (h.asks node call).symm.trans hasks

end Unasked

namespace Asked

variable {a b c : Host}

theorem refl (host : Host) : Asked host host :=
  ⟨.refl _, fun _ => id, fun _ _ _ => id⟩

theorem trans (hab : Asked a b) (hbc : Asked b c) : Asked a c where
  inquiries := hab.inquiries.trans hbc.inquiries
  closed node h := hbc.closed node (hab.closed node h)
  calls node call h hasks := hab.calls node call h (hbc.calls node call (hab.closed node h) hasks)

end Asked

namespace Host

variable {host host' : Host} {loose : Option (Ref .call)} {node : Node} {call : Ref .call}

/-- What a call is about does not change. -/
theorem asksAbout_mono (hinquiries : host.inquiries.Extends host'.inquiries)
    (h : host.asksAbout node call) : host'.asksAbout node call := by
  unfold asksAbout at h ⊢
  rw [decide_eq_true_eq] at h ⊢
  obtain ⟨inquiry, hinquiry, hnode⟩ := Option.map_eq_some_iff.1 h
  rw [hinquiries call inquiry hinquiry]
  exact congrArg some hnode

/-- A call is about one node. -/
theorem asksAbout_unique {other : Node} (h : host.asksAbout node call)
    (hother : host.asksAbout other call) : node = other := by
  unfold asksAbout at h hother
  rw [decide_eq_true_eq] at h hother
  exact Option.some.inj (h.symm.trans hother)

theorem inquires_mono (hinquiries : host.inquiries.Extends host'.inquiries) {stage : LoadStage}
    (h : stage.Inquires host node) : stage.Inquires host' node := by
  cases stage with
  | fresh => trivial
  | describing watch => exact asksAbout_mono hinquiries h
  | following visited other watch => exact asksAbout_mono hinquiries h
  | borrowing target watch => trivial

namespace HooksInOrder

theorem unasked (h : host.HooksInOrder loose) (hsame : Unasked host host') :
    host'.HooksInOrder loose := by
  have hopen (call : Ref .call) : host'.isOpen call = host.isOpen call := by
    unfold isOpen
    rw [hsame.calls]
  have hasks := hsame.asks
  refine ⟨by rw [hsame.inquiries, hsame.calls, h.parallel], fun node call hcall => ?_,
    fun node call hcall => ?_, ?_, fun node load bell failure hload => ?_, fun load work hflight => ?_⟩
  · rw [hasks, hopen]
    exact h.kept node call ((hsame.callAt node).symm.trans hcall)
  · rw [hasks] at hcall
    rw [hopen, hsame.callAt]
    exact h.found node call hcall
  · rw [hsame.inquiries]
    exact h.asked
  · rw [hsame.loads]
    exact h.loading node load bell failure (hsame.loadAt node load hload)
  · unfold InFlight at hflight
    rw [hsame.loads] at hflight
    exact inquires_mono (.of_eq hsame.inquiries) (h.flight load work hflight)

theorem aside (h : host.HooksInOrder loose) (haside : Aside host host') :
    host'.HooksInOrder loose :=
  h.unasked (.of_aside haside)

/-- The call that was loose is not, after all. -/
theorem tight (h : host.HooksInOrder (some call)) (hopen : host.isOpen call) :
    host.HooksInOrder none := by
  refine ⟨h.parallel, fun node other hother => ?_, h.found, h.asked, h.loading, h.flight⟩
  obtain ⟨hasks, hother | hother⟩ := h.kept node other hother
  · exact ⟨hasks, .inl hother⟩
  · cases hother
    exact ⟨hasks, .inl hopen⟩

end HooksInOrder

section
variable {bell : Ref .bell} {progress : Progress HookCall HookResult}

theorem isOpen_put (hopen : host.isOpen call) (other : Ref .call) :
    (Shelf.calls.put host call ⟨bell, progress⟩).isOpen other =
      if call = other then HookCall.isOpen progress else host.isOpen other := by
  have hget : (Shelf.calls.put host call ⟨bell, progress⟩).calls.get? other =
      if call = other then (host.calls.get? other).map fun _ => ⟨bell, progress⟩
      else host.calls.get? other :=
    Arena.get?_set _ _ _ _
  unfold isOpen at hopen ⊢
  rw [hget]
  by_cases hsame : call = other
  · subst hsame
    cases hcall : host.calls.get? call with
    | none => simp [hcall] at hopen
    | some shared => simp
  · rw [if_neg hsame, if_neg hsame]

/-- A call that was open goes on, or ends. -/
theorem HooksInOrder.put (h : host.HooksInOrder none) (hopen : host.isOpen call) :
    (Shelf.calls.put host call ⟨bell, progress⟩).HooksInOrder (some call) := by
  have hsize : (host.calls.set call ⟨bell, progress⟩).size = host.calls.size := by
    simp [Arena.set, Arena.size]
  refine ⟨h.parallel.trans hsize.symm, fun node other hother => ?_, fun node other hasks hother => ?_,
    h.asked, h.loading, h.flight⟩
  · obtain ⟨hasks, hother⟩ := h.kept node other hother
    refine ⟨hasks, ?_⟩
    rw [isOpen_put hopen]
    by_cases hsame : call = other
    · exact .inr (congrArg some hsame)
    · rw [if_neg hsame]
      exact .inl (hother.resolve_right (by rintro ⟨⟩))
  · rw [isOpen_put hopen] at hother
    refine h.found node other hasks ?_
    by_cases hsame : call = other
    · exact hsame ▸ hopen
    · rwa [if_neg hsame] at hother

end

/-- A call that is not answered yet may be answered. -/
theorem asked_put {bell : Ref .bell} {progress : Progress HookCall HookResult}
    (hpending : ∀ bell result, host.calls.get? call ≠ some ⟨bell, .done result⟩) :
    Asked host (Shelf.calls.put host call ⟨bell, progress⟩) := by
  refine ⟨.refl _, fun node => .imp_right ?_, fun _ _ _ => id⟩
  rintro ⟨other, bell', descriptor, hasks, hother⟩
  refine ⟨other, bell', descriptor, hasks, ?_⟩
  change (host.calls.set call _).get? other = _
  rw [Arena.get?_set, if_neg]
  · exact hother
  · rintro rfl
    exact hpending _ _ hother

/-- A call that was looked at and is put back, as it went on or as it ended. -/
theorem HooksInOrder.putBack (h : host.HooksInOrder none) {bell : Ref .bell} {work : HookCall}
    (hwork : host.calls.get? call = some ⟨bell, .idle work⟩ ∨
      host.calls.get? call = some ⟨bell, .driven work⟩)
    (progress : Progress HookCall HookResult) :
    (Shelf.calls.put host call ⟨bell, progress⟩).HooksInOrder (some call) ∧
      Asked host (Shelf.calls.put host call ⟨bell, progress⟩) ∧
        (Shelf.calls.put host call ⟨bell, progress⟩).isOpen call = HookCall.isOpen progress := by
  have hopen : host.isOpen call := by
    rcases hwork with hwork | hwork <;> simp [isOpen, HookCall.isOpen, hwork]
  refine ⟨h.put hopen, asked_put fun bell result hdone => ?_, ?_⟩
  · rcases hwork with hwork | hwork <;> rw [hdone] at hwork <;> cases hwork
  · rw [isOpen_put hopen, if_pos rfl]

theorem HooksInOrder.loosen (h : host.HooksInOrder none) (call : Ref .call) :
    host.HooksInOrder (some call) where
  parallel := h.parallel
  kept node other hother :=
    (h.kept node other hother).imp_right fun hopen => .inl (hopen.resolve_right nofun)
  found := h.found
  asked := h.asked
  loading := h.loading
  flight := h.flight

/-- A call has ended, and if it gave no descriptor it is to be forgotten. -/
def CallEnded (host : Host) (call : Ref .call) : HookResult → Prop
  | .ok (some _) => host.HooksInOrder none
  | _ => host.HooksInOrder (some call) ∧ host.isOpen call = false

theorem HooksInOrder.ended (h : host.HooksInOrder (some call)) {result : HookResult}
    (hopen : host.isOpen call = HookCall.isOpen (.done result)) : host.CallEnded call result := by
  rcases result with failure | (_ | descriptor)
  · exact ⟨h, hopen⟩
  · exact ⟨h, hopen⟩
  · exact h.tight hopen

theorem callAt?_forget (other : Node) :
    (Act.forgetCall node call host).2.callAt? other =
      if node = other ∧ host.callAt? node = some call then none else host.callAt? other := by
  unfold callAt?
  change (Host.compartment { host with compartments := _ } _).calls.get? _ = _
  rw [compartment_modify]
  obtain ⟨compartment, key⟩ := node
  obtain ⟨compartment', key'⟩ := other
  by_cases hsame : compartment = compartment'
  · subst hsame
    by_cases hbuilt : host.Built compartment
    · rw [if_pos ⟨rfl, hbuilt⟩]
      dsimp only
      split
      · rw [Table.get?_erase]
        by_cases hkey : key = key' <;> simp_all
      · simp_all
    · have hnone : host.compartments.get? compartment = none := by
        simpa [Built, Arena.size, Arena.get?] using hbuilt
      have hempty : (host.compartment compartment).calls = .empty := by
        unfold Host.compartment
        rw [hnone]
        rfl
      simp [hbuilt, hempty, Table.empty, Table.get?, Table.find]
  · simp [hsame]

theorem loadAt?_forget (other : Node) :
    (Act.forgetCall node call host).2.loadAt? other = host.loadAt? other :=
  (Act.forgetCall_quiet node call host).loadAt? other

theorem asked_forget (node : Node) (call : Ref .call) :
    Asked host (Act.forgetCall node call host).2 := by
  have hknows (key : String) (ref : Ref .compartment) :
      (Act.forgetCall node call host).2.knows key ref = host.knows key ref := by
    have hquiet := Act.forgetCall_quiet node call host
    unfold knows
    rw [hquiet.part ref Compartment.memo fun _ => rfl, hquiet.part ref Compartment.table fun _ => rfl]
  exact ⟨.refl _, fun other => .imp_left fun h => (hknows _ _).trans h, fun _ _ _ => id⟩

/-- A call that gave no descriptor is forgotten. -/
theorem HooksInOrder.forget (h : host.HooksInOrder (some call)) (hasks : host.asksAbout node call)
    (hshut : host.isOpen call = false) : (Act.forgetCall node call host).2.HooksInOrder none := by
  refine ⟨h.parallel, fun other found hfound => ?_, fun other found hother hopen => ?_, h.asked,
    fun other load bell failure hload => ?_, h.flight⟩
  · rw [callAt?_forget] at hfound
    split at hfound
    · cases hfound
    · rename_i hnot
      obtain ⟨hother, hopen | hloose⟩ := h.kept other found hfound
      · exact ⟨hother, .inl hopen⟩
      · cases hloose
        obtain rfl := asksAbout_unique hasks hother
        exact absurd ⟨rfl, hfound⟩ hnot
  · have hopen : host.isOpen found := hopen
    have hfound := h.found other found hother hopen
    rw [callAt?_forget, if_neg]
    · exact hfound
    · rintro ⟨rfl, hcall⟩
      rw [hcall] at hfound
      cases hfound
      rw [hshut] at hopen
      cases hopen
  · rw [loadAt?_forget] at hload
    exact h.loading other load bell failure hload

end Host

namespace Act

/-- After an action of loading: calls of hooks are in order, what they are about stays the same, and
`post` holds. -/
def Consults {α : Type} (act : Act α) (host : Host) (post : α → Host → Prop) : Prop :=
  After host act fun result host' =>
    host'.HooksInOrder none ∧ Asked host host' ∧ post result host'

namespace Consults

variable {α β : Type} {host : Host}

theorem pure {post : α → Host → Prop} {result : α} (h : host.HooksInOrder none)
    (hpost : post result host) : (Pure.pure result : Act α).Consults host post :=
  ⟨h, .refl _, hpost⟩

theorem mono {act : Act α} {post post' : α → Host → Prop} (h : act.Consults host post)
    (himp : ∀ result host', host'.HooksInOrder none → Asked host host' →
      post result host' → post' result host') : act.Consults host post' :=
  ⟨h.1, h.2.1, himp _ _ h.1 h.2.1 h.2.2⟩

theorem bind {act : Act α} {next : α → Act β} {post : α → Host → Prop} {post' : β → Host → Prop}
    (h : act.Consults host post)
    (hnext : ∀ result host', host'.HooksInOrder none → Asked host host' →
      post result host' → (next result).Consults host' post') :
    (act >>= next).Consults host post' := by
  obtain ⟨horder, hasked, hpost⟩ := h
  obtain ⟨horder', hasked', hpost'⟩ := hnext _ _ horder hasked hpost
  exact ⟨horder', hasked.trans hasked', hpost'⟩

theorem getBind {next : Host → Act β} {post : β → Host → Prop}
    (h : (next host).Consults host post) : (MonadState.get >>= next : Act β).Consults host post :=
  h

theorem unasked {act : Act α} {post : α → Host → Prop} (h : host.HooksInOrder none)
    (hact : Unasked host (act host).2) (hpost : After host act post) : act.Consults host post :=
  ⟨h.unasked hact, hact.asked, hpost⟩

theorem aside {act : Act α} {post : α → Host → Prop} (h : host.HooksInOrder none)
    (hact : act.IsAside) (hpost : After host act post) : act.Consults host post :=
  unasked h (.of_aside (hact host)) hpost

theorem loads {act : Act α} {post post' : α → Host → Prop} (hloads : act.Loads host post)
    (h : act.Consults host post') :
    act.Consults host fun result host' =>
      (host'.LoadsInOrder ∧ Grows host host' ∧ post result host') ∧ post' result host' :=
  ⟨h.1, h.2.1, hloads, h.2.2⟩

end Consults

end Act

/-- What a look at a call leaves behind: a call that ended without a descriptor is to be forgotten. -/
theorem HookCall.poll_consults {host : Host} (h : host.HooksInOrder none) (watch : Watch .call)
    (waker : Waker) : After host (Shelf.calls.poll drive watch waker) fun result host' =>
      Asked host host' ∧ match result with
        | .pending next => host'.HooksInOrder none ∧ next.job = watch.job
        | .ready result => host'.CallEnded watch.job result := by
  have hisOpen {before after : Host} (haside : Aside before after) (call : Ref .call) :
      after.isOpen call = before.isOpen call := by
    unfold Host.isOpen
    rw [haside.calls]
  refine Shelf.after_poll ?_ ?_ ?_ ?_
  · exact fun _ => ⟨.refl host, h, rfl⟩
  · intro bell result hget
    have hget : host.calls.get? watch.job = some ⟨bell, .done result⟩ := hget
    exact ⟨.refl host, (h.loosen watch.job).ended (by simp [Host.isOpen, hget])⟩
  · exact fun _ _ _ host' _ haside => ⟨(Unasked.of_aside haside).asked, h.aside haside, rfl⟩
  · intro bell work seat told hidle htold
    have hidle : told.calls.get? watch.job = some ⟨bell, .idle work⟩ := htold.calls ▸ hidle
    -- While the call is driven it is open, so it is kept as before.
    obtain ⟨hput, hasked, hopen⟩ := (h.aside htold).putBack (.inl hidle) (.driven work)
    have hput := hput.tight (hopen.trans rfl)
    refine (drive_fair _ work (.bell bell)).mono fun result after hafter => ?_
    have hdriven : after.calls.get? watch.job = some ⟨bell, .driven work⟩ := by
      rw [hafter.1.calls]
      change (told.calls.set watch.job _).get? watch.job = _
      rw [Arena.get?_set, if_pos rfl, hidle]
      rfl
    have hbefore : Asked host after := ((Unasked.of_aside htold).asked.trans hasked).trans
      (Unasked.of_aside hafter.1).asked
    cases result with
    | pending next =>
      obtain ⟨horder, hasked', hopen'⟩ := (hput.aside hafter.1).putBack (.inr hdriven) (.idle next)
      exact ⟨hbefore.trans hasked', horder.tight (hopen'.trans rfl), rfl⟩
    | ready result =>
      intro last hlast
      obtain ⟨horder, hasked', hopen'⟩ := (hput.aside hafter.1).putBack (.inr hdriven) (.done result)
      exact ⟨(hbefore.trans hasked').trans (Unasked.of_aside hlast).asked,
        (horder.aside hlast).ended ((hisOpen hlast _).trans hopen')⟩

namespace Act

/-- A call that is looked at stays about its node, and if it ends without a descriptor it is
forgotten. -/
theorem awaitCall_consults {host : Host} (h : host.HooksInOrder none) {node : Node}
    {watch : Watch .call} (hwatch : host.asksAbout node watch.job) (waker : Waker) :
    (awaitCall node watch waker).Consults host fun result host' =>
      ∀ next, result = .pending next → host'.asksAbout node next.job := by
  unfold Consults awaitCall
  rw [after_bind]
  refine (HookCall.poll_consults h watch waker).mono fun result polled hpolled => ?_
  obtain ⟨hasked, hpolled⟩ := hpolled
  have hasks : polled.asksAbout node watch.job := Host.asksAbout_mono hasked.inquiries hwatch
  rcases result with next | failure | _ | descriptor
  · obtain ⟨horder, hjob⟩ := hpolled
    refine ⟨horder, hasked, ?_⟩
    rintro _ ⟨⟩
    rw [hjob]
    exact hasks
  · exact ⟨hpolled.1.forget hasks hpolled.2, hasked.trans (Host.asked_forget node watch.job),
      fun _ heq => nomatch heq⟩
  · have hforgot := hpolled.1.forget hasks hpolled.2
    obtain ⟨horder, hsame, -⟩ : (describeNow node).Consults _ fun _ _ => True :=
      .aside hforgot (describeNow_aside node) trivial
    exact ⟨horder, (hasked.trans (Host.asked_forget node watch.job)).trans hsame,
      fun _ heq => nomatch heq⟩
  · exact ⟨hpolled, hasked, fun _ heq => nomatch heq⟩

end Act

namespace Host

/-- The host after a call about a node was made. -/
def consulted (host : Host) (node : Node) (bell : Ref .bell) : Host :=
  { host with
    calls := host.calls.push ⟨bell, .idle ⟨node.compartment, node.key, .fresh⟩⟩
    inquiries := host.inquiries.push (host.inquiry node)
    compartments := host.compartments.modify node.compartment fun compartment =>
      { compartment with calls := compartment.calls.insert node.key host.calls.next } }

variable {host : Host} {node : Node}

theorem callAt?_consulted (hbuilt : host.Built node.compartment) (bell : Ref .bell) (other : Node) :
    (host.consulted node bell).callAt? other =
      if node = other then some host.calls.next else host.callAt? other := by
  unfold callAt? consulted
  change (Host.compartment { host with compartments := _ } _).calls.get? _ = _
  rw [compartment_modify]
  obtain ⟨compartment, key⟩ := node
  obtain ⟨compartment', key'⟩ := other
  by_cases hsame : compartment = compartment'
  · subst hsame
    rw [if_pos ⟨rfl, hbuilt⟩]
    dsimp only
    rw [Table.get?_insert]
    by_cases hkey : key = key' <;> simp [hkey]
  · simp [hsame]

theorem loadAt?_consulted (bell : Ref .bell) (other : Node) :
    (host.consulted node bell).loadAt? other = host.loadAt? other := by
  unfold loadAt? consulted
  change (Host.compartment { host with compartments := _ } _).loading.get? _ = _
  rw [compartment_modify]
  split <;> rfl

theorem calls_consulted (bell : Ref .bell) (call : Ref .call) :
    (host.consulted node bell).calls.get? call =
      if call = host.calls.next then some ⟨bell, .idle ⟨node.compartment, node.key, .fresh⟩⟩
      else host.calls.get? call :=
  Arena.get?_push _ _ _

theorem knows_consulted (bell : Ref .bell) (key : String) (ref : Ref .compartment) :
    (host.consulted node bell).knows key ref = host.knows key ref := by
  unfold knows consulted
  change ((Host.compartment { host with compartments := _ } _).memo.contains _ ||
    (Host.compartment { host with compartments := _ } _).table.contains _) = _
  rw [compartment_modify]
  split <;> rfl

theorem isOpen_consulted (bell : Ref .bell) {call : Ref .call} (hold : call ≠ host.calls.next) :
    (host.consulted node bell).isOpen call = host.isOpen call := by
  unfold isOpen
  rw [calls_consulted, if_neg hold]

section
variable (hsize : host.inquiries.size = host.calls.size)
include hsize

theorem inquiries_consulted (bell : Ref .bell) (call : Ref .call) :
    (host.consulted node bell).inquiries.get? call =
      if call = host.calls.next then some (host.inquiry node) else host.inquiries.get? call := by
  rw [← show host.inquiries.next = host.calls.next from congrArg Ref.mk hsize]
  exact Arena.get?_push _ _ _

theorem asksAbout_consulted (bell : Ref .bell) :
    (host.consulted node bell).asksAbout node host.calls.next := by
  simp [asksAbout, inquiries_consulted hsize, inquiry]

theorem asksAbout_of_consulted {bell : Ref .bell} {other : Node} {call : Ref .call}
    (hold : call ≠ host.calls.next) (hother : (host.consulted node bell).asksAbout other call) :
    host.asksAbout other call := by
  unfold asksAbout at hother ⊢
  rwa [inquiries_consulted hsize, if_neg hold] at hother

/-- A call that is made is a new one. -/
theorem ne_next_of_asksAbout {other : Node} {call : Ref .call} (hother : host.asksAbout other call) :
    call ≠ host.calls.next := by
  rintro rfl
  unfold asksAbout at hother
  rw [← show host.inquiries.next = host.calls.next from congrArg Ref.mk hsize,
    Arena.get?_next] at hother
  simp at hother

end

/-- A call that is open is kept for its node. -/
theorem HooksInOrder.not_open (h : host.HooksInOrder none) (hcall : host.callAt? node = none)
    {call : Ref .call} (hasks : host.asksAbout node call) : ¬ host.isOpen call := by
  intro hopen
  have hkept := h.found node call hasks hopen
  rw [hcall] at hkept
  cases hkept

/-- What is asked about a node without a descriptor, a record and a call is asked for good reason. -/
theorem HooksInOrder.consulted (h : host.HooksInOrder none) (hbuilt : host.Built node.compartment)
    (hunknown : host.knows node.key node.compartment = false) (hcall : host.callAt? node = none)
    (bell : Ref .bell) : (host.consulted node bell).HooksInOrder none where
  parallel := by
    change (host.inquiries.push _).size = (host.calls.push _).size
    rw [Arena.size_push, Arena.size_push, h.parallel]
  kept other call hother := by
    rw [callAt?_consulted hbuilt] at hother
    split at hother
    · rename_i hnode
      subst hnode
      cases hother
      refine ⟨asksAbout_consulted h.parallel bell, .inl ?_⟩
      simp [isOpen, HookCall.isOpen, calls_consulted]
    · obtain ⟨hold, hlive⟩ := h.kept other call hother
      rw [isOpen_consulted bell (ne_next_of_asksAbout h.parallel hold)]
      exact ⟨asksAbout_mono (.push _ _) hold, hlive⟩
  found other call hother hlive := by
    rw [callAt?_consulted hbuilt]
    by_cases hnew : call = host.calls.next
    · subst hnew
      rw [if_pos (asksAbout_unique (asksAbout_consulted h.parallel bell) hother)]
    · rw [isOpen_consulted bell hnew] at hlive
      have hold := asksAbout_of_consulted h.parallel hnew hother
      rw [if_neg]
      · exact h.found other call hold hlive
      · rintro rfl
        exact h.not_open hcall hold hlive
  asked call found hfound := by
    rw [inquiries_consulted h.parallel] at hfound
    split at hfound
    · cases hfound
      refine ⟨hunknown, List.filter_eq_nil_iff.2 fun call _ hboth => ?_⟩
      rw [Bool.and_eq_true] at hboth
      exact h.not_open hcall hboth.1 hboth.2
    · exact h.asked call found hfound
  loading other load bell' failure hload := by
    rw [loadAt?_consulted] at hload
    exact h.loading other load bell' failure hload
  flight load work hflight := inquires_mono (.push _ _) (h.flight load work hflight)

theorem HooksInOrder.asked_consulted (h : host.HooksInOrder none)
    (hunknown : host.knows node.key node.compartment = false) (hcall : host.callAt? node = none)
    (bell : Ref .bell) : Asked host (host.consulted node bell) where
  inquiries := .push _ _
  closed other := by
    refine .imp (fun hknown => (knows_consulted bell _ _).trans hknown) ?_
    rintro ⟨call, bell', descriptor, hother, hdone⟩
    refine ⟨call, bell', descriptor, asksAbout_mono (.push _ _) hother, ?_⟩
    rw [calls_consulted, if_neg (ne_next_of_asksAbout h.parallel hother)]
    exact hdone
  calls other call hclosed hother := by
    by_cases hnew : call = host.calls.next
    · -- The node of the new call needed one: nothing was known of it, and no call had answered.
      subst hnew
      obtain rfl := asksAbout_unique (asksAbout_consulted h.parallel bell) hother
      rcases hclosed with hknown | ⟨call, bell', descriptor, hother, hdone⟩
      · rw [hunknown] at hknown
        cases hknown
      · exact absurd (by simp [isOpen, HookCall.isOpen, hdone]) (h.not_open hcall hother)
    · exact asksAbout_of_consulted h.parallel hnew hother

/-- A call may be made about a node that has no descriptor, no record and no call. No earlier call about
it is open, for that one would be kept. -/
theorem HooksInOrder.consult (h : host.HooksInOrder none) (hbuilt : host.Built node.compartment)
    (htable : (host.compartment node.compartment).table.get? node.key = none)
    (hentry : host.entryAt? node = none) (hcall : host.callAt? node = none) (bell : Ref .bell) :
    (host.consulted node bell).HooksInOrder none ∧ Asked host (host.consulted node bell) ∧
      (host.consulted node bell).asksAbout node host.calls.next := by
  have hmemo : (host.compartment node.compartment).memo.get? node.key = none := hentry
  have hunknown : host.knows node.key node.compartment = false := by
    simp [knows, Table.contains, hmemo, htable]
  exact ⟨h.consulted hbuilt hunknown hcall bell, h.asked_consulted hunknown hcall bell,
    asksAbout_consulted h.parallel bell⟩

end Host

namespace Act

/-- The call that is kept for a node is about it, and so is one that is made. -/
theorem callOf_consults {host : Host} (h : host.HooksInOrder none) {node : Node}
    (hbuilt : host.Built node.compartment)
    (htable : (host.compartment node.compartment).table.get? node.key = none)
    (hentry : host.entryAt? node = none) :
    (callOf node).Consults host fun call host' => host'.asksAbout node call := by
  refine .getBind ?_
  split
  · rename_i call hcall
    exact .pure h (h.kept node call hcall).1
  · rename_i hcall
    have hcall : host.callAt? node = none := hcall
    have hbell : newBell.Consults host fun _ host' => Aside host host' :=
      .aside h newBell_aside (newBell_aside host)
    refine Consults.bind hbell fun bell belled hbelled _ haside => ?_
    obtain ⟨_, _, _, _, _, _, rfl⟩ := haside
    exact hbelled.consult hbuilt htable hentry hcall bell

/-- The hook is asked about a node that is not memoized only if it has no static descriptor. -/
theorem describe_consults {host : Host} (h : host.HooksInOrder none) {node : Node}
    (hbuilt : host.Built node.compartment) (hentry : host.entryAt? node = none) (waker : Waker) :
    (describe node waker).Consults host fun result host' =>
      ∀ next, result = .pending next → host'.asksAbout node next.job := by
  unfold describe
  refine .getBind ?_
  dsimp only
  split
  · exact .pure h fun _ heq => nomatch heq
  · rename_i htable
    split
    · refine Consults.bind (callOf_consults h hbuilt htable hentry)
        fun call called hcalled _ hasks => ?_
      exact awaitCall_consults hcalled hasks waker
    · obtain ⟨horder, hinquiries, -⟩ : (describeNow node).Consults host fun _ _ => True :=
        .aside h (describeNow_aside node) trivial
      exact ⟨horder, hinquiries, fun _ heq => nomatch heq⟩

end Act

end ModuleLoader
