import Mathlib.Data.List.Induction
import ModuleLoader.Proofs.Traces
/-!
Loading keeps everything traceable: a shallow load delivers a record made for its node, or follows the
aliases of its node and writes where they lead before it takes the entry from there.
-/

namespace ModuleLoader
set_option autoImplicit false

theorem Compartment.resolveAll_names {compartment : Compartment} {referrer : String} :
    ∀ {specifiers : List String} {requests : List (String × String)},
      compartment.resolveAll referrer specifiers = .ok requests →
        requests.map Prod.fst = specifiers
  | [], _, h => by
    cases h
    rfl
  | specifier :: rest, requests, h => by
    unfold resolveAll at h
    split at h
    · cases h
    · split at h
      · cases h
      · rename_i others hothers
        cases h
        exact congrArg (specifier :: ·) (resolveAll_names hothers)

/-- No specifier of the bindings is left out. -/
theorem Binding.mem_specifiers {bindings : List Binding} {binding : Binding} {specifier : String}
    (hmem : binding ∈ bindings) (h : binding.specifier? = some specifier) :
    specifier ∈ Binding.specifiers bindings := by
  induction bindings using List.reverseRecOn with
  | nil => cases hmem
  | append_singleton rest last ih =>
    unfold Binding.specifiers at ih ⊢
    rw [List.foldl_append, List.foldl_cons, List.foldl_nil]
    rcases List.mem_append.1 hmem with hmem | hmem
    · have hfound := ih hmem
      split
      · exact hfound
      · split
        · exact hfound
        · exact List.mem_append_left _ hfound
    · obtain rfl := List.mem_singleton.1 hmem
      rw [h]
      dsimp only
      split
      · rename_i hcontains
        exact List.contains_iff_mem.1 hcontains
      · exact List.mem_append_right _ List.mem_cons_self

namespace Act

/-- A descriptor is interpreted as a new record for the node, with all its specifiers resolved, or no
record is made. -/
def Makes (host : Host) (node : Node) (result : Except Failure Interpreted) (host' : Host) : Prop :=
  (host'.records = host.records ∧ ∀ entry, result ≠ .ok (.entry entry)) ∨
    ∃ record : Record, host'.records = host.records.push record ∧ record.home = node.compartment ∧
      record.key = node.key ∧ record.Resolved ∧ result = .ok (.entry (.own host.records.next))

theorem interpret_makes (host : Host) (node : Node) (descriptor : Descriptor) :
    After host (interpret node descriptor) (Makes host node) := by
  have hmodule (source : Source) : After host (newModule node source) (Makes host node) := by
    unfold newModule
    rw [after_bind, after_get]
    dsimp only
    split
    · refine .inl ⟨rfl, ?_⟩
      rintro entry ⟨⟩
    · rename_i requests hrequests
      refine .inr ⟨_, rfl, rfl, rfl, fun binding hmem specifier hspecifier => ?_, rfl⟩
      have hname : specifier ∈ Binding.specifiers source.bindings :=
        Binding.mem_specifiers hmem hspecifier
      rw [← Compartment.resolveAll_names hrequests] at hname
      obtain ⟨request, hrequest, hfirst⟩ := List.mem_map.1 hname
      unfold Record.keyOf?
      rw [Option.isSome_map, List.find?_isSome]
      exact ⟨request, hrequest, by simpa using hfirst⟩
  have hexposure (store : Store) (space : Ref .exports) :
      After { host with store } (do return .ok (← newExposure node space)) (Makes host node) := by
    refine .inr ⟨_, rfl, rfl, rfl, ?_, rfl⟩
    intro binding hmem
    cases hmem
  unfold interpret
  split
  · exact hmodule _
  · exact hmodule _
  · exact hexposure host.store _
  · exact hexposure _ _
  · refine .inl ⟨rfl, ?_⟩
    rintro entry ⟨⟩
  · refine .inl ⟨rfl, ?_⟩
    rintro entry ⟨⟩
  · split
    · refine .inl ⟨rfl, ?_⟩
      rintro entry ⟨⟩
    · refine .inl ⟨rfl, ?_⟩
      rintro entry ⟨⟩
  · rw [after_bind, after_get]
    split
    · refine .inl ⟨rfl, ?_⟩
      rintro entry ⟨⟩
    · refine .inl ⟨rfl, ?_⟩
      rintro entry ⟨⟩

/-- After an action of loading: everything can be traced, what loads are about stays so, and `post`
holds. -/
def Tracks {α : Type} (act : Act α) (host : Host) (post : α → Host → Prop) : Prop :=
  After host act fun result host' => host'.Traced ∧ Traces host host' ∧ post result host'

namespace Tracks

variable {α β : Type} {host : Host}

theorem pure {post : α → Host → Prop} {result : α} (h : host.Traced) (hpost : post result host) :
    (Pure.pure result : Act α).Tracks host post :=
  ⟨h, .refl host, hpost⟩

theorem mono {act : Act α} {post post' : α → Host → Prop} (h : act.Tracks host post)
    (himp : ∀ result host', host'.Traced → Traces host host' → post result host' →
      post' result host') : act.Tracks host post' :=
  ⟨h.1, h.2.1, himp _ _ h.1 h.2.1 h.2.2⟩

theorem bind {act : Act α} {next : α → Act β} {post : α → Host → Prop} {post' : β → Host → Prop}
    (h : act.Tracks host post)
    (hnext : ∀ result host', host'.Traced → Traces host host' → post result host' →
      (next result).Tracks host' post') : (act >>= next).Tracks host post' := by
  obtain ⟨htraced, htraces, hpost⟩ := h
  obtain ⟨htraced', htraces', hpost'⟩ := hnext _ _ htraced htraces hpost
  exact ⟨htraced', htraces.trans htraces', hpost'⟩

theorem getBind {next : Host → Act β} {post : β → Host → Prop}
    (h : (next host).Tracks host post) : (MonadState.get >>= next : Act β).Tracks host post :=
  h

theorem quiet {act : Act α} {post : α → Host → Prop} (h : host.Traced)
    (hact : Quiet host (act host).2) (hpost : After host act post) : act.Tracks host post := by
  obtain ⟨htraced, htraces⟩ := h.quiet hact
  exact ⟨htraced, htraces, hpost⟩

theorem loads {act : Act α} {post post' : α → Host → Prop} (hloads : act.Loads host post)
    (h : act.Tracks host post') :
    act.Tracks host fun result host' =>
      (host'.LoadsInOrder ∧ Grows host host' ∧ post result host') ∧ post' result host' :=
  ⟨h.1, h.2.1, hloads, h.2.2⟩

end Tracks

/-- The entry of a node is a record just made for it. -/
theorem interpret_tracks {host : Host} (h : host.LoadsInOrder) (htraced : host.Traced) {node : Node}
    (hnode : host.Built node.compartment) {descriptor : Descriptor}
    (hdescriptor : descriptor.Grounded host) :
    (interpret node descriptor).Tracks host fun result host' =>
      ∀ entry, result = .ok (.entry entry) → entry = .own entry.record ∧
        (host'.records.get? entry.record).isSome ∧ host'.ownNode entry.record = node := by
  have hboth := (After.and (interpret_loads h hnode hdescriptor)
    (After.and (interpret_makes host node descriptor) (interpret_adds host node descriptor)))
  refine After.mono hboth fun result host' hresult => ?_
  obtain ⟨⟨-, hgrows, -⟩, hmakes, store, records, hadds⟩ := hresult
  have hstill : Still host host' := by
    rw [hadds]
    exact ⟨fun _ => rfl, fun _ => rfl, fun _ => rfl⟩
  have hloads : host'.loads = host.loads := by rw [hadds]
  have hstands (node target : Node) (hmem : .stands node target ∈ host'.chronicle) :
      .stands node target ∈ host.chronicle := by rwa [hadds] at hmem
  rcases hmakes with ⟨hsame, hnone⟩ | ⟨record, hpush, hhome, hkey, hresolved, hresult⟩
  · obtain ⟨htraced', htraces⟩ := htraced.still hgrows.later hloads (fun ref record hold hnew => by
      rw [hsame, hold] at hnew
      cases hnew) hstands hstill
    exact ⟨htraced', htraces, fun entry heq => absurd heq (hnone entry)⟩
  · have hnext : host'.records.get? host.records.next = some record := by
      rw [hpush, Arena.get?_push, if_pos rfl]
    obtain ⟨htraced', htraces⟩ := htraced.still hgrows.later hloads (fun ref found hold hnew => by
      rw [hpush] at hnew
      obtain ⟨-, rfl⟩ := Arena.get?_push_new hold hnew
      exact hresolved) hstands hstill
    refine ⟨htraced', htraces, fun entry heq => ?_⟩
    rw [hresult] at heq
    cases heq
    have hrecord : host'.record host.records.next = record := congrArg (Option.getD · default) hnext
    refine ⟨rfl, ?_, ?_⟩
    · change (host'.records.get? host.records.next).isSome
      rw [hnext]
      rfl
    · change host'.ownNode host.records.next = node
      unfold Host.ownNode
      rw [hrecord, hhome, hkey]

end Act

namespace Host

variable {host : Host} {load : Ref .load} {work : LoadWork}

theorem Traced.begin (h : host.Traced) (hloads : host.LoadsInOrder) {node : Node}
    (hnode : host.Built node.compartment) (hload : host.loadAt? node = none) (bell : Ref .bell) :
    (host.begun node bell).Traced ∧ Traces host (host.begun node bell) ∧
      (host.begun node bell).Lends node host.loads.next := by
  have hgrows : Grows host (host.begun node bell) := hloads.grows_begun hnode hload
  have hlends : (host.begun node bell).Lends node host.loads.next := by
    unfold Lends
    rw [get?_begun, if_pos rfl]
    rfl
  have htraces : Traces host (host.begun node bell) := by
    intro other load hold
    refine hgrows.later.lends ?_ hold
    rw [get?_begun, if_neg]
    rintro rfl
    unfold Lends at hold
    rw [Arena.get?_next] at hold
    exact hold
  refine ⟨h.onward hgrows.later htraces (fun ref record hnone hsome => ?_)
    (fun node target hmem => .inl hmem)
    (fun other ref hpromise => .inl ((promise?_begun hnode hload other).symm.trans hpromise))
    (fun other entry hother => .inl ((entryAt?_begun node other bell).symm.trans hother))
    (fun other load hkept => ?_) (fun load work hflight => ?_), htraces, hlends⟩
  · cases hnone.symm.trans hsome
  · rw [loadAt?_begun hnode] at hkept
    split at hkept
    · rename_i hother
      cases hkept
      exact .inr (hother ▸ hlends)
    · exact .inl hkept
  · rcases begun_inFlight hflight with hold | ⟨-, rfl⟩
    · exact .inl hold
    · exact .inr trivial

theorem Traced.delivered (h : host.Traced) {node : Node} {delivery : Delivery}
    (hdelivered : host.delivered? node = some delivery) : host.Delivers node delivery := by
  obtain ⟨entry, hentry, rfl⟩ := Option.map_eq_some_iff.1 hdelivered
  exact ⟨h.memo node entry hentry, .inl rfl, fun _ => hentry ▸ rfl⟩

end Host

theorem Act.loadOf_tracks {host : Host} (h : host.LoadsInOrder) (htraced : host.Traced) {node : Node}
    (hnode : host.Built node.compartment) :
    (loadOf node).Tracks host fun result host' => match result with
      | .already delivery => host'.Delivers node delivery
      | .shared load => host'.Lends node load := by
  refine .getBind ?_
  split
  · rename_i delivery hdelivered
    exact .pure htraced (htraced.delivered hdelivered)
  · split
    · rename_i load hload
      exact .pure htraced (htraced.kept node load hload)
    · rename_i hload
      have hbell : newBell.Tracks host fun _ host' => Quiet host host' :=
        .quiet htraced (newBell_aside.quiet host) (newBell_aside.quiet host)
      refine Tracks.bind hbell fun bell belled hbelled _ hquiet => ?_
      exact hbelled.begin (hquiet.loadsInOrder h) ((hquiet.built _).2 hnode)
        ((hquiet.loadAt? node).trans hload) bell

namespace Host

variable {host : Host} {load : Ref .load} {work : LoadWork}

section
variable (bell : Ref .bell) {progress : Progress LoadWork (Except Failure Delivery)}

theorem put_later (h : host.LoadsInOrder) (hflight : host.InFlight load work)
    (hnext : host.MayBecome work progress) :
    Later host (Shelf.loads.put host load ⟨bell, progress⟩) where
  keeps :=
    { built := fun _ => id
      records := fun _ => id
      entryAt? := fun _ _ => id
      promise? := fun _ _ => promise?_put hflight
      serves := fun _ _ => serves_put h hflight hnext }
  records _ record hrecord := ⟨record, hrecord, .refl record⟩
  settings _ _ := rfl
  chronicle := List.suffix_refl _

/-- What a node stands for that did not before is what its load has just delivered. -/
theorem promise?_put_back (h : host.LoadsInOrder) (hflight : host.InFlight load work) {node : Node}
    {ref : Ref .record}
    (hpromise : (Shelf.loads.put host load ⟨bell, progress⟩).promise? node = some ref) :
    host.promise? node = some ref ∨ work.node = node ∧ ∃ delivery : Delivery,
      progress = .done (.ok delivery) ∧ delivery.entry.record = ref := by
  unfold promise? at hpromise ⊢
  rw [entryAt?_put, loadAt?_put] at hpromise
  cases hentry : host.entryAt? node with
  | some entry =>
    rw [hentry] at hpromise
    exact .inl hpromise
  | none =>
    rw [hentry] at hpromise
    dsimp only at hpromise ⊢
    obtain ⟨delivery, hdelivery, hrecord⟩ := Option.map_eq_some_iff.1 hpromise
    obtain ⟨other, hkept, hlanded⟩ := Option.bind_eq_some_iff.1 hdelivery
    unfold loadedInFlight? at hlanded
    rw [get?_put hflight] at hlanded
    by_cases hsame : load = other
    · subst hsame
      rw [if_pos rfl] at hlanded
      refine .inr ⟨(h.kept node load hkept).2.node_eq hflight, ?_⟩
      rcases progress with next | next | failure | found
      · cases hlanded
      · cases hlanded
      · cases hlanded
      · cases hlanded
        exact ⟨_, rfl, hrecord⟩
    · rw [if_neg hsame] at hlanded
      have hlanded' : host.loadedInFlight? other = some delivery := hlanded
      simp [hkept, hlanded', hrecord]

theorem InFlight.node_eq_of_lends (hflight : host.InFlight load work) {node : Node}
    (hlends : host.Lends node load) : work.node = node := by
  unfold Lends at hlends
  obtain ⟨bell, hidle | hdriven⟩ := hflight
  · rw [hidle] at hlends
    exact hlends
  · rw [hdriven] at hlends
    exact hlends

section
variable (h : host.LoadsInOrder) (hflight : host.InFlight load work)
  (hnext : host.MayBecome work progress)

include h hflight hnext

theorem traces_put (hends : ∀ delivery, progress = .done (.ok delivery) → host.Delivers work.node delivery) :
    Traces host (Shelf.loads.put host load ⟨bell, progress⟩) := by
  have hlater : Later host (Shelf.loads.put host load ⟨bell, progress⟩) :=
    put_later bell h hflight hnext
  intro node other hlends
  by_cases hsame : load = other
  · subst hsame
    obtain rfl := hflight.node_eq_of_lends hlends
    unfold Lends
    rw [get?_put hflight, if_pos rfl]
    rcases progress with next | next | failure | delivery
    · exact hnext.1
    · exact hnext.1
    · trivial
    · exact hlater.delivers (hends delivery rfl)
  · refine hlater.lends ?_ hlends
    rw [get?_put hflight, if_neg hsame]

/-- The aliases of a node whose load has just delivered lead to the record that it delivered. -/
theorem Traced.comesTo_put (htraced : host.Traced) {delivery : Delivery}
    (hdone : progress = .done (.ok delivery)) (hstems : host.Stems work.node delivery.entry)
    (hfresh : host.ownNode delivery.entry.record = work.node → ∀ target,
      .stands work.node target ∉ host.chronicle) :
    let last := Shelf.loads.put host load ⟨bell, progress⟩
    last.ComesTo work.node delivery.entry.record ∧
      ((∃ target, .stands work.node target ∈ last.chronicle) → last.Away work.node) := by
  have hlater : Later host (Shelf.loads.put host load ⟨bell, progress⟩) :=
    put_later bell h hflight hnext
  -- What the node stands for from now on.
  have hpromised : (Shelf.loads.put host load ⟨bell, progress⟩).promise? work.node =
      some delivery.entry.record := by
    have hserves := hlater.keeps.serves _ _ (h.kept _ _ (h.flight load work hflight).2.1).2
    exact hserves.delivered ((get?_put hflight load).trans (by rw [if_pos rfl, hdone]))
  have hown : (Shelf.loads.put host load ⟨bell, progress⟩).ownNode delivery.entry.record =
      host.ownNode delivery.entry.record := rfl
  rcases hstems.source with ⟨-, hnode⟩ | ⟨target, hstands, htarget⟩
  · refine ⟨?_, fun ⟨target, hstands⟩ => absurd hstands (hfresh hnode target)⟩
    have hcomes := @ComesTo.own (Shelf.loads.put host load ⟨bell, progress⟩)
      delivery.entry.record hstems.exist (by rw [hown, hnode]; exact hpromised)
    rw [hown, hnode] at hcomes
    exact hcomes
  · have hcomes := htraced.comesTo target _ htarget
    refine ⟨.along hstands (hlater.comesTo hcomes), fun _ ref href heq => ?_⟩
    -- The node would stand for the record already, but its load was in flight.
    rw [hpromised] at href
    cases href
    rw [hown] at heq
    have hpromise := hcomes.own_promise.2
    rw [heq, h.promise?_inFlight hflight] at hpromise
    cases hpromise

/-- A load in flight goes on, or delivers what stems from its node. -/
theorem Traced.put (htraced : host.Traced)
    (hgoes : ∀ next, progress = .idle next ∨ progress = .driven next → next.stage.Traced host)
    (hends : ∀ delivery, progress = .done (.ok delivery) → host.Delivers work.node delivery ∧
      (host.ownNode delivery.entry.record = work.node → ∀ target,
        .stands work.node target ∉ host.chronicle)) :
    (Shelf.loads.put host load ⟨bell, progress⟩).Traced ∧
      Traces host (Shelf.loads.put host load ⟨bell, progress⟩) := by
  have htraces : Traces host (Shelf.loads.put host load ⟨bell, progress⟩) :=
    traces_put bell h hflight hnext fun delivery hdone => (hends delivery hdone).1
  refine ⟨htraced.onward (put_later bell h hflight hnext) htraces (fun ref record hold hnew => ?_)
    (fun node target hmem => .inl hmem) (fun node ref hpromise => ?_)
    (fun node entry hentry => .inl hentry) (fun node other hkept => .inl hkept)
    (fun other next hother => ?_), htraces⟩
  · cases hold.symm.trans hnew
  · refine (promise?_put_back bell h hflight hpromise).imp_right ?_
    rintro ⟨rfl, delivery, hdone, rfl⟩
    obtain ⟨⟨hstems, -, -⟩, hfresh⟩ := hends delivery hdone
    exact htraced.comesTo_put bell h hflight hnext hdone hstems hfresh
  · obtain ⟨bell', hother⟩ := hother
    rw [get?_put hflight] at hother
    by_cases hsame : load = other
    · rw [if_pos hsame] at hother
      refine .inr (traced_later htraces (hgoes next ?_))
      rcases hother with hother | hother <;> cases hother
      · exact .inl rfl
      · exact .inr rfl
    · rw [if_neg hsame] at hother
      exact .inl ⟨bell', hother⟩

end

end

/-- The aliases of a node were followed while somebody drives its load. -/
theorem marked_driven (h : host.LoadsInOrder) {node target : Node} {ref : Ref .record}
    (hdriven : host.Driven node) (htarget : host.promise? target = some ref) :
    ({ host with chronicle := .stands node target :: host.chronicle } : Host).LoadsInOrder := by
  refine ⟨⟨h.grounded.labels, h.grounded.parents, h.grounded.tables, h.grounded.calls⟩,
    h.memo, h.kept, fun load work hflight => ?_, fun load bell delivery hdone => ?_,
    fun node' target' hmem => ?_⟩
  · obtain ⟨hbuilt, hkept, hstage⟩ := h.flight load work hflight
    refine ⟨hbuilt, hkept, ?_⟩
    cases hwork : work.stage <;> rw [hwork] at hstage <;> exact hstage
  · have hdelivery := h.delivered load bell delivery hdone
    exact ⟨hdelivery.entry, hdelivery.built⟩
  · rcases List.mem_cons.1 hmem with heq | hmem
    · cases heq
      exact ⟨ref, htarget, .inr hdriven⟩
    · exact h.stands node' target' hmem

theorem marked_later (host : Host) (mark : Milestone) :
    Later host { host with chronicle := mark :: host.chronicle } where
  keeps := ⟨fun _ => id, fun _ => id, fun _ _ => id, fun _ _ => id, fun _ _ => id⟩
  records _ record hrecord := ⟨record, hrecord, .refl record⟩
  settings _ _ := rfl
  chronicle := List.suffix_cons _ _

/-- The first alias of a node that stands for nothing yet may be written down. -/
theorem Traced.mark (h : host.Traced) (node target : Node)
    (hfresh : ∀ other, .stands node other ∉ host.chronicle) (hnone : host.promise? node = none) :
    ({ host with chronicle := .stands node target :: host.chronicle } : Host).Traced ∧
      Traces host { host with chronicle := .stands node target :: host.chronicle } := by
  have hlater := marked_later host (.stands node target)
  have htraces : Traces host { host with chronicle := .stands node target :: host.chronicle } :=
    .of_loads hlater rfl
  refine ⟨h.onward hlater htraces (fun ref record hold hnew => ?_) (fun node' target' hmem => ?_)
    (fun node ref hpromise => .inl hpromise) (fun node entry hentry => .inl hentry)
    (fun node load hkept => .inl hkept) (fun load work hflight => .inl hflight), htraces⟩
  · cases hold.symm.trans hnew
  · rcases List.mem_cons.1 hmem with heq | hmem
    · cases heq
      refine .inr ⟨fun other hother => ?_, fun ref hpromise => ?_⟩
      · rcases List.mem_cons.1 hother with heq | hother
        · cases heq
          rfl
        · exact absurd hother (hfresh other)
      · rw [show host.promise? node = some ref from hpromise] at hnone
        cases hnone
    · exact .inl hmem

end Host

namespace LoadWork

/-- A look at a shallow load keeps everything traceable, and finds what stems from its node. -/
def Look.Traces (look : Look) : Prop :=
  ∀ (host : Host) (node : Node) (watch : Watch .load) (waker : Waker), host.LoadsInOrder →
    host.Serves node watch.job → host.Traced → host.Lends node watch.job →
      (look watch waker).Tracks host fun result host' =>
        ∀ delivery, result = .ready (.ok delivery) → host'.Delivers node delivery

/-- What a step of a shallow load comes to that begins in `host`. The load ends with a record made for
its node, or writes where the aliases of its node lead. -/
def Tracked (host : Host) (work : LoadWork) (result : Poll LoadWork (Except Failure Delivery))
    (host' : Host) : Prop :=
  match result with
  | .pending next => host'.Traced ∧ Traces host host' ∧ next.stage.Traced host'
  | .ready (.error _) => host'.Traced ∧ Traces host host'
  | .ready (.ok delivery) => ∃ before, before.LoadsInOrder ∧ Grows host before ∧ before.Traced ∧
      Traces host before ∧ (before.records.get? delivery.entry.record).isSome ∧
        delivery.fromMemo = false ∧ ((host' = before ∧ delivery.entry = .own delivery.entry.record ∧
            before.ownNode delivery.entry.record = work.node ∧ delivery.Valid before ∧
              delivery.continuations =
                before.continuations work.node.compartment delivery.entry) ∨
          ∃ target, host' = { before with
              chronicle := .stands work.node target :: before.chronicle } ∧ delivery.Valid before ∧
            before.Sits work.node delivery.entry ∧
              before.promise? target = some delivery.entry.record ∧
                delivery.continuations = [target])

variable {look : Look} {host : Host} {work : LoadWork} {waker : Waker}

theorem Tracked.after {middle host' : Host} {result : Poll LoadWork (Except Failure Delivery)}
    (hgrows : Grows host middle) (htraces : ModuleLoader.Traces host middle)
    (h : Tracked middle work result host') : Tracked host work result host' := by
  rcases result with next | failure | delivery
  · exact ⟨h.1, htraces.trans h.2.1, h.2.2⟩
  · exact ⟨h.1, htraces.trans h.2⟩
  · obtain ⟨before, horder, hgrows', htraced, htraces', hrest⟩ := h
    exact ⟨before, horder, hgrows.trans hgrows', htraced, htraces.trans htraces', hrest⟩

/-- An action of loading, and then a step. -/
theorem tracked_bind {α : Type} {act : Act α}
    {next : α → Act (Poll LoadWork (Except Failure Delivery))} {post post' : α → Host → Prop}
    (hloads : act.Loads host post) (hact : act.Tracks host post')
    (hnext : ∀ result host', host'.LoadsInOrder → Grows host host' → post result host' →
      host'.Traced → ModuleLoader.Traces host host' → post' result host' →
        After host' (next result) (Tracked host' work)) :
    After host (act >>= next) (Tracked host work) := by
  obtain ⟨horder, hgrows, hpost⟩ := hloads
  obtain ⟨htraced, htraces, hpost'⟩ := hact
  exact Tracked.after hgrows htraces (hnext _ _ horder hgrows hpost htraced htraces hpost')

theorem adopt_tracked (h : host.LoadsInOrder) (htraced : host.Traced) {target : Node}
    (htarget : host.Built target.compartment) {loaded : Except Failure Delivery}
    (hloaded : ∀ delivery, loaded = .ok delivery → delivery.Valid host ∧
      host.promise? target = some delivery.entry.record ∧ host.Delivers target delivery) :
    After host (do return Poll.ready (← work.adopt target loaded)) (Tracked host work) := by
  cases loaded with
  | error failure => exact ⟨htraced, .refl host⟩
  | ok delivery =>
    obtain ⟨hvalid, hpromise, hdelivers⟩ := hloaded delivery rfl
    have hbuilt : ∀ node ∈ [target], host.Built node.compartment := by
      intro node hmem
      obtain rfl := List.mem_singleton.1 hmem
      exact htarget
    have hrecord : (host.seenFrom work.node target delivery.entry).record = delivery.entry.record :=
      Host.seenFrom_record work.node target delivery.entry
    refine ⟨host, h, .refl host, htraced, .refl host, ?_, rfl, .inr ⟨target, rfl,
      ⟨Host.seenFrom_valid htarget hvalid.entry, hbuilt⟩, Host.sits_seenFrom hdelivers.stems.sits, ?_,
      rfl⟩⟩
    · change (host.records.get? (host.seenFrom work.node target delivery.entry).record).isSome
      rw [hrecord]
      exact hdelivers.stems.exist
    · change host.promise? target = some (host.seenFrom work.node target delivery.entry).record
      rw [hrecord]
      exact hpromise

theorem awaitLoad_tracked (hsound : look.Sound) (hlook : look.Traces) (h : host.LoadsInOrder)
    (htraced : host.Traced) {target : Node} (htarget : host.Built target.compartment)
    {watch : Watch .load} (hserves : host.Serves target watch.job)
    (hlends : host.Lends target watch.job) :
    After host (work.awaitLoad look target watch waker) (Tracked host work) := by
  refine tracked_bind (hsound host target watch waker h hserves)
    (hlook host target watch waker h hserves htraced hlends)
    fun result looked hlooked hgrows hpost htraced htraces hdelivers => ?_
  cases result with
  | pending next =>
    have hnext : next.job = watch.job := hpost
    refine ⟨htraced, .refl looked, ?_⟩
    change looked.Lends target next.job
    rw [hnext]
    exact htraces _ _ hlends
  | ready loaded =>
    refine adopt_tracked hlooked htraced ((hgrows.built _).2 htarget) fun delivery hdelivery => ?_
    subst hdelivery
    exact ⟨hpost.1, hpost.2, hdelivers delivery rfl⟩

theorem borrow_tracked (hsound : look.Sound) (hlook : look.Traces) (h : host.LoadsInOrder)
    (htraced : host.Traced) {target : Node} (htarget : host.Built target.compartment) :
    After host (work.borrow look target waker) (Tracked host work) := by
  refine tracked_bind (Act.loadOf_loads h htarget) (Act.loadOf_tracks h htraced htarget)
    fun result after hafter hgrows hpost htraced _ hpost' => ?_
  have htarget := (hgrows.built _).2 htarget
  cases result with
  | already delivery =>
    refine adopt_tracked hafter htraced htarget fun other hother => ?_
    cases hother
    exact ⟨hpost.1, hpost.2, hpost'⟩
  | shared load => exact awaitLoad_tracked hsound hlook hafter htraced htarget hpost hpost'

/-- Both ways of going on along a chain of aliases, by induction on the patience left. -/
theorem follow_arrive_tracked (hsound : look.Sound) (hlook : look.Traces) : ∀ fuel : Nat,
    (∀ (host : Host) (visited : List Node) (node : Node), host.LoadsInOrder → host.Traced →
      host.Built node.compartment →
        After host (work.follow look waker fuel visited node) (Tracked host work)) ∧
    (∀ (host : Host) (visited : List Node) (node : Node) (described : Except Failure Descriptor),
      host.LoadsInOrder → host.Traced → host.Built node.compartment →
        (∀ descriptor, described = .ok descriptor → descriptor.Grounded host) →
          After host (work.arrive look waker fuel visited node described) (Tracked host work)) := by
  intro fuel
  induction fuel with
  | zero =>
    refine ⟨fun host visited node _ htraced _ => ?_, fun host visited node described _ htraced _ _ => ?_⟩
    · unfold follow
      exact ⟨htraced, .refl host⟩
    · unfold arrive
      exact ⟨htraced, .refl host⟩
  | succ fuel ih =>
    refine ⟨fun host visited node h htraced hnode => ?_,
      fun host visited node described h htraced hnode hd => ?_⟩
    · unfold follow
      split
      · exact ⟨htraced, .refl host⟩
      · rw [after_bind, after_get]
        split
        · exact borrow_tracked hsound hlook h htraced hnode
        · have hobtained := Act.describe_obtained host node waker
          refine tracked_bind (obtained_loads h hobtained) (.quiet htraced hobtained.1 hobtained)
            fun result after hafter _ hpost htraced _ _ => ?_
          have hnode := (hpost.1.built _).2 hnode
          cases result with
          | pending call => exact ⟨htraced, .refl after, trivial⟩
          | ready described =>
            refine ih.2 after _ node described hafter htraced hnode fun descriptor hdescriptor => ?_
            exact hpost.2 descriptor (hdescriptor ▸ rfl)
    · unfold arrive
      cases described with
      | error failure => exact ⟨htraced, .refl host⟩
      | ok descriptor =>
        dsimp only
        rw [after_bind, after_get]
        split
        · exact ⟨htraced, .refl host⟩
        · rename_i next hpoints
          exact ih.1 host visited next h htraced
            (h.grounded.pointsTo_built hnode (hd descriptor rfl) hpoints)
        · exact borrow_tracked hsound hlook h htraced hnode

theorem interpret_tracked (hsound : look.Sound) (hlook : look.Traces) (h : host.LoadsInOrder)
    (htraced : host.Traced) (hnode : host.Built work.node.compartment)
    {described : Except Failure Descriptor}
    (hd : ∀ descriptor, described = .ok descriptor → descriptor.Grounded host) :
    After host (work.interpret look waker described) (Tracked host work) := by
  unfold interpret
  cases described with
  | error failure => exact ⟨htraced, .refl host⟩
  | ok descriptor =>
    refine tracked_bind (Act.interpret_loads h hnode (hd descriptor rfl))
      (Act.interpret_tracks h htraced hnode (hd descriptor rfl))
      fun result after hafter hgrows hpost htraced _ hmade => ?_
    have hnode := (hgrows.built _).2 hnode
    cases result with
    | error failure => exact ⟨htraced, .refl after⟩
    | ok interpreted =>
      cases interpreted with
      | entry entry =>
        obtain ⟨hown, hexist, hsame⟩ := hmade entry rfl
        refine ⟨after, hafter, .refl after, htraced, .refl after, hexist, rfl,
          .inl ⟨rfl, hown, hsame, ⟨hpost, ?_⟩, rfl⟩⟩
        exact Host.continuations_built hnode hpost
      | elsewhere target =>
        exact (follow_arrive_tracked hsound hlook _).1 after _ target hafter htraced hpost

/-- A load that is driven finds its node not memoized. -/
theorem proceed_tracked (hsound : look.Sound) (hlook : look.Traces) (h : host.LoadsInOrder)
    (htraced : host.Traced) (hnode : host.Built work.node.compartment)
    (hentry : host.entryAt? work.node = none) (hstage : work.stage.Valid host)
    (hlends : work.stage.Traced host) :
    After host (work.proceed look waker) (Tracked host work) := by
  unfold proceed
  split
  · rw [after_bind, after_get]
    split
    · rename_i delivery hdelivered
      simp [Host.delivered?, hentry] at hdelivered
    · have hobtained := Act.describe_obtained host work.node waker
      refine tracked_bind (obtained_loads h hobtained) (.quiet htraced hobtained.1 hobtained)
        fun result after hafter _ hpost htraced _ _ => ?_
      cases result with
      | pending call => exact ⟨htraced, .refl after, trivial⟩
      | ready described =>
        refine interpret_tracked hsound hlook hafter htraced ((hpost.1.built _).2 hnode)
          fun descriptor hd => ?_
        exact hpost.2 descriptor (hd ▸ rfl)
  · rename_i call _
    have hobtained := Act.awaitCall_obtained host work.node call waker
    refine tracked_bind (obtained_loads h hobtained) (.quiet htraced hobtained.1 hobtained)
      fun result after hafter _ hpost htraced _ _ => ?_
    cases result with
    | pending call => exact ⟨htraced, .refl after, trivial⟩
    | ready described =>
      refine interpret_tracked hsound hlook hafter htraced ((hpost.1.built _).2 hnode)
        fun descriptor hd => ?_
      exact hpost.2 descriptor (hd ▸ rfl)
  · rename_i visited node call hwork
    rw [hwork] at hstage
    have hobtained := Act.awaitCall_obtained host node call waker
    refine tracked_bind (obtained_loads h hobtained) (.quiet htraced hobtained.1 hobtained)
      fun result after hafter _ hpost htraced _ _ => ?_
    have hnode' := (hpost.1.built _).2 hstage
    cases result with
    | pending call => exact ⟨htraced, .refl after, trivial⟩
    | ready described =>
      rw [after_bind, after_get]
      refine (follow_arrive_tracked hsound hlook _).2 after _ node described hafter htraced hnode' ?_
      exact fun descriptor hd => hpost.2 descriptor (hd ▸ rfl)
  · rename_i target watch hwork
    rw [hwork] at hstage hlends
    exact awaitLoad_tracked hsound hlook h htraced hstage.1 hstage.2 hlends

end LoadWork

namespace Host

variable {host : Host}

theorem promise?_letGo_back {node other : Node} (hnode : host.Built node.compartment)
    {ref : Ref .record} (hpromise : (host.letGo node).promise? other = some ref) :
    host.promise? other = some ref := by
  unfold promise? at hpromise ⊢
  rw [entryAt?_letGo, loadAt?_letGo hnode] at hpromise
  cases hentry : host.entryAt? other with
  | some entry => rwa [hentry] at hpromise
  | none =>
    rw [hentry] at hpromise
    dsimp only at hpromise ⊢
    by_cases hother : node = other
    · simp [hother] at hpromise
    · rwa [if_neg hother] at hpromise

/-- A load that failed may be let go. -/
theorem Traced.letGo (h : host.Traced) {node : Node} (hnode : host.Built node.compartment)
    (hgrows : Grows host (host.letGo node)) :
    (host.letGo node).Traced ∧ ModuleLoader.Traces host (host.letGo node) := by
  have htraces : ModuleLoader.Traces host (host.letGo node) := .of_loads hgrows.later rfl
  refine ⟨h.onward hgrows.later htraces (fun ref record hold hnew => ?_)
    (fun node target hmem => .inl hmem)
    (fun other ref hpromise => .inl (promise?_letGo_back hnode hpromise))
    (fun other entry hentry => .inl ((entryAt?_letGo node other).symm.trans hentry))
    (fun other load hkept => .inl ?_) (fun load work hflight => .inl hflight), htraces⟩
  · cases hold.symm.trans hnew
  · rw [loadAt?_letGo hnode] at hkept
    split at hkept
    · cases hkept
    · exact hkept

section
variable {load : Ref .load} {work : LoadWork} (bell : Ref .bell)

/-- A load that is taken up or goes on to wait is about the same node. -/
theorem Traced.goOn (htraced : host.Traced) (h : host.LoadsInOrder) (hflight : host.InFlight load work)
    {next : LoadWork} {progress : Progress LoadWork (Except Failure Delivery)}
    (hprogress : progress = .idle next ∨ progress = .driven next)
    (hnext : host.MayBecome work progress) (hstage : next.stage.Traced host) :
    (Shelf.loads.put host load ⟨bell, progress⟩).Traced ∧
      ModuleLoader.Traces host (Shelf.loads.put host load ⟨bell, progress⟩) := by
  refine htraced.put bell h hflight hnext (fun other heq => ?_) fun delivery heq => ?_
  · rcases hprogress with rfl | rfl
    · rcases heq with heq | heq <;> cases heq
      exact hstage
    · rcases heq with heq | heq <;> cases heq
      exact hstage
  · rcases hprogress with rfl | rfl <;> cases heq

/-- A load that ends with a new record delivers what stems from its node. -/
theorem Traced.deliverOwn (htraced : host.Traced) (h : host.LoadsInOrder)
    (hflight : host.InFlight load work) {delivery : Delivery} (hvalid : delivery.Valid host)
    (hnew : delivery.fromMemo = false) (hexist : (host.records.get? delivery.entry.record).isSome)
    (hown : delivery.entry = .own delivery.entry.record)
    (hnode : host.ownNode delivery.entry.record = work.node)
    (hcontinue : delivery.continuations = host.continuations work.node.compartment delivery.entry)
    (hstands : ∀ target, .stands work.node target ∉ host.chronicle) :
    (Shelf.loads.put host load ⟨bell, .done (.ok delivery)⟩).Traced ∧
      ModuleLoader.Traces host (Shelf.loads.put host load ⟨bell, .done (.ok delivery)⟩) := by
  refine htraced.put bell h hflight hvalid (fun other heq => ?_) ?_
  · rcases heq with heq | heq <;> cases heq
  · rintro _ ⟨⟩
    have hsits : host.Sits work.node delivery.entry := by
      rw [hown]
      exact congrArg Node.compartment hnode
    refine ⟨⟨⟨hexist, hsits, .inl ⟨hown, hnode⟩⟩, .inl hcontinue, fun hmemo => ?_⟩, fun _ => hstands⟩
    cases hnew.symm.trans hmemo

/-- A load that ends with the entry of a target writes down the alias, and delivers what stems from its
node. -/
theorem Traced.deliverAlias (htraced : host.Traced) (h : host.LoadsInOrder)
    (hflight : host.InFlight load work) (hdriven : host.Driven work.node) {target : Node}
    {delivery : Delivery} (hvalid : delivery.Valid host) (hnew : delivery.fromMemo = false)
    (hexist : (host.records.get? delivery.entry.record).isSome)
    (hsits : host.Sits work.node delivery.entry)
    (htarget : host.promise? target = some delivery.entry.record)
    (hcontinue : delivery.continuations = [target])
    (hstands : ∀ target, .stands work.node target ∉ host.chronicle) :
    let marked : Host := { host with chronicle := .stands work.node target :: host.chronicle }
    (Shelf.loads.put marked load ⟨bell, .done (.ok delivery)⟩).Traced ∧
      ModuleLoader.Traces host (Shelf.loads.put marked load ⟨bell, .done (.ok delivery)⟩) := by
  have hnone := h.promise?_inFlight hflight
  have hcomes := (htraced.comesTo target _ htarget).own_promise.2
  obtain ⟨hmarked, htraces⟩ := htraced.mark work.node target hstands hnone
  have hput := hmarked.put bell (marked_driven h hdriven htarget) hflight
    (show Host.MayBecome _ work (.done (.ok delivery)) from ⟨hvalid.entry, hvalid.built⟩)
    (fun other heq => by rcases heq with heq | heq <;> cases heq) (by
      rintro _ ⟨⟩
      refine ⟨⟨⟨hexist, (marked_later host _).sits hexist hsits, .inr ⟨target,
        List.mem_cons_self, htarget⟩⟩, .inr ⟨target, List.mem_cons_self, hcontinue⟩,
          fun hmemo => ?_⟩, fun hnode => ?_⟩
      · cases hnew.symm.trans hmemo
      · rw [show host.ownNode delivery.entry.record = work.node from hnode, hnone] at hcomes
        cases hcomes)
  exact ⟨hput.1, htraces.trans hput.2⟩

end

end Host

namespace LoadWork

/-- A step of driving, seen from before the load was taken up. -/
theorem drive_tracks {look : Look} (hsound : look.Sound) (hlook : look.Traces) {host : Host}
    (h : host.LoadsInOrder) (htraced : host.Traced) {load : Ref .load} {bell : Ref .bell}
    {work : LoadWork} (hidle : host.loads.get? load = some ⟨bell, .idle work⟩) :
    After (Shelf.loads.put host load ⟨bell, .driven work⟩) (drive look work (.bell bell))
      fun result after => match result with
        | .pending next =>
          let last := Shelf.loads.put after load ⟨bell, .idle next⟩
          last.Traced ∧ Traces host last
        | .ready result =>
          let last := Shelf.loads.put after load ⟨bell, .done result⟩
          last.Traced ∧ Traces host last ∧ last.loads.get? load = some ⟨bell, .done result⟩ := by
  have hflight : host.InFlight load work := ⟨bell, .inl hidle⟩
  obtain ⟨hbuilt, hkept, hstage⟩ := h.flight load work hflight
  have hmay : host.MayBecome work (.driven work) := ⟨rfl, hstage⟩
  obtain ⟨htraced', htraces⟩ := htraced.goOn bell h hflight (.inr rfl) hmay
    (htraced.flight load work hflight)
  have hentry : (Shelf.loads.put host load ⟨bell, .driven work⟩).entryAt? work.node = none :=
    (h.kept _ _ hkept).1
  have hvalid : work.stage.Valid (Shelf.loads.put host load ⟨bell, .driven work⟩) :=
    Host.stage_valid_put h hflight hmay hstage
  have hstep : After (Shelf.loads.put host load ⟨bell, .driven work⟩)
      (work.proceed look (.bell bell)) fun result after =>
        Stepped (Shelf.loads.put host load ⟨bell, .driven work⟩) work result after ∧
          Tracked (Shelf.loads.put host load ⟨bell, .driven work⟩) work result after :=
    After.and (proceed_stepped hsound (h.taken hidle) hbuilt hvalid)
      (proceed_tracked hsound hlook (h.taken hidle) htraced' hbuilt hentry hvalid
        (Host.traced_later htraces (htraced.flight load work hflight)))
  unfold drive
  rw [after_bind]
  refine hstep.mono fun result after hafter => ?_
  rcases result with next | failure | delivery
  · obtain ⟨⟨horder, hgrows, hnext⟩, hafter, htraces', hlends⟩ := hafter
    obtain ⟨-, hflight', -⟩ := h.still_taken hidle hgrows
    have hput := hafter.goOn bell horder hflight' (.inl rfl) hnext hlends
    exact ⟨hput.1, (htraces.trans htraces').trans hput.2⟩
  · obtain ⟨⟨horder, hgrows⟩, hafter, htraces'⟩ := hafter
    obtain ⟨-, hflight', -⟩ := h.still_taken hidle hgrows
    have hnext : after.MayBecome work (.done (.error failure)) := trivial
    have hput := hafter.put bell horder hflight' hnext (fun other heq => by
      rcases heq with heq | heq <;> cases heq) fun delivery heq => by cases heq
    obtain ⟨horder', -⟩ := h.putBack hidle hgrows horder hnext nofun
    obtain ⟨hgone, htraces''⟩ := hput.1.letGo ((hgrows.built _).2 hbuilt)
      (Host.failed_letGo horder hflight' horder').2
    refine ⟨hgone, ((htraces.trans htraces').trans hput.2).trans htraces'', ?_⟩
    exact (Host.get?_put hflight' load).trans (if_pos rfl)
  · obtain ⟨-, before, horder, hgrows, hbefore, htraces', hexist, hnew, hcase⟩ := hafter
    obtain ⟨hdriven', hflight', hstands'⟩ := h.still_taken hidle hgrows
    rcases hcase with ⟨rfl, hown, hnode, hdelivery, hcontinue⟩ |
      ⟨target, rfl, hdelivery, hsits, htarget, hcontinue⟩
    · have hput := hbefore.deliverOwn bell horder hflight' hdelivery hnew hexist hown hnode hcontinue
        hstands'
      refine ⟨hput.1, (htraces.trans htraces').trans hput.2, ?_⟩
      exact (Host.get?_put hflight' load).trans (if_pos rfl)
    · have hput := hbefore.deliverAlias bell horder hflight' hdriven' hdelivery hnew hexist hsits
        htarget hcontinue hstands'
      refine ⟨hput.1, (htraces.trans htraces').trans hput.2, ?_⟩
      exact (Host.get?_put hflight' load).trans (if_pos rfl)

/-- Whatever looks at a shallow load keeps everything traceable, by induction on how deep loads wait
for each other. -/
theorem look_traces : ∀ depth : Nat, (LoadWork.look depth).Traces := by
  intro depth
  induction depth with
  | zero =>
    intro host node watch waker _ _ htraced _
    refine .pure htraced ?_
    rintro delivery ⟨⟩
  | succ depth ih =>
    intro host node watch waker h hserves htraced hlends
    unfold look
    refine Shelf.after_poll ?_ ?_ ?_ ?_
    · intro _
      refine ⟨htraced, .refl host, ?_⟩
      rintro delivery ⟨⟩
    · intro bell result hdone
      refine ⟨htraced, .refl host, ?_⟩
      rintro delivery ⟨⟩
      unfold Host.Lends at hlends
      rw [show host.loads.get? watch.job = _ from hdone] at hlends
      exact hlends
    · intro bell work seat host' _ haside
      obtain ⟨htraced', htraces⟩ := htraced.quiet haside.quiet
      refine ⟨htraced', htraces, ?_⟩
      rintro delivery ⟨⟩
    · intro bell work seat told hidle htold
      have hidle' : told.loads.get? watch.job = some ⟨bell, .idle work⟩ := by
        rw [htold.quiet.loads]
        exact hidle
      obtain ⟨htraced', htraces⟩ := htraced.quiet htold.quiet
      refine (drive_tracks (look_sound depth) ih (htold.quiet.loadsInOrder h) htraced' hidle').mono
        fun result after hafter => ?_
      cases result with
      | pending next =>
        refine ⟨hafter.1, htraces.trans hafter.2, ?_⟩
        rintro delivery ⟨⟩
      | ready result =>
        intro last hlast
        obtain ⟨hafter, hcarried, hdone⟩ := hafter
        obtain ⟨hlast', htraces''⟩ := hafter.quiet hlast.quiet
        refine ⟨hlast', (htraces.trans hcarried).trans htraces'', ?_⟩
        rintro delivery ⟨⟩
        have hlent := hcarried node watch.job (htraces node watch.job hlends)
        unfold Host.Lends at hlent
        rw [hdone] at hlent
        exact hlast.quiet.grows.later.delivers hlent

end LoadWork

theorem Act.awaitDelivery_traces {host : Host} (h : host.LoadsInOrder) (htraced : host.Traced)
    {node : Node} {watch : Watch .load} (hserves : host.Serves node watch.job)
    (hlends : host.Lends node watch.job) (waker : Waker) :
    (awaitDelivery watch waker).Tracks host fun result host' =>
      ∀ delivery, result = .ready (.ok delivery) → host'.Delivers node delivery := by
  refine .getBind ?_
  exact LoadWork.look_traces _ host node watch waker h hserves htraced hlends

end ModuleLoader
