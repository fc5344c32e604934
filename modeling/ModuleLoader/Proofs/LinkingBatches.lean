import ModuleLoader.Loading.Draft
import ModuleLoader.Proofs.Linkings
/-!
Linking records that are loaded: they begin to be linked, slots are made for their local names, and
each one is committed or fails.
-/

namespace ModuleLoader
set_option autoImplicit false

/-- Records moved forward and got completions. Scopes, namespaces and loads are what they were, and no
record was linked. -/
structure Moves (host host' : Host) : Prop where
  loads : LoadsAlike host host'
  store : host'.store = host.store
  records : ∀ ref record, host.records.get? ref = some record → ∃ record',
    host'.records.get? ref = some record' ∧ record.Onward record' ∧
      record'.environment = record.environment
  none : ∀ ref, host.records.get? ref = none → host'.records.get? ref = none
  linked : ∀ ref, host'.Linked ref → host.Linked ref
  chronicle : host.chronicle <:+ host'.chronicle

namespace Moves

variable {a b c host host' : Host}

theorem later (h : Moves host host') : Later host host' :=
  h.loads.later (fun ref record hrecord =>
    let ⟨record', hrecord', honward, _⟩ := h.records ref record hrecord
    ⟨record', hrecord', honward⟩) h.chronicle

theorem environment (h : Moves host host') (ref : Ref .record) :
    (host'.record ref).environment = (host.record ref).environment := by
  unfold Host.record
  cases href : host.records.get? ref with
  | none => rw [h.none ref href]
  | some record =>
    obtain ⟨record', hrecord', -, hsame⟩ := h.records ref record href
    rw [hrecord']
    exact hsame

theorem undisturbed (h : Moves host host') : Undisturbed host host' where
  later := h.later
  scope := h.environment
  linked := h.linked
  slots := .of_eq (congrArg Store.slots h.store)
  spaces := .of_eq (congrArg Store.spaces h.store)
  placed ref space hnone hsome := by
    rw [h.store, hnone] at hsome
    cases hsome
  newborn ref record hnone hsome := nomatch (h.none ref hnone).symm.trans hsome
  distinct ref _ record _ hnone _ hsome := nomatch (h.none ref hnone).symm.trans hsome

end Moves

/-- Records that are loaded and not linked yet. -/
def Host.AllLoaded (host : Host) (refs : List (Ref .record)) : Prop :=
  ∀ ref ∈ refs, ∃ record, host.records.get? ref = some record ∧ record.phase = .loaded

/-- Records that were loaded began to be linked. -/
structure Begins (host host' : Host) (refs : List (Ref .record)) : Prop where
  rest : host' = { host with records := host'.records, chronicle := host'.chronicle }
  begun : ∀ ref ∈ refs, ∃ record, host.records.get? ref = some record ∧ record.phase = .loaded ∧
    host'.records.get? ref = some { record with phase := .linking }
  others : ∀ ref, ref ∉ refs → host'.records.get? ref = host.records.get? ref
  chronicle : host'.chronicle =
    (refs.map fun ref => .moved ref .linking).reverse ++ host.chronicle

namespace Begins

variable {host host' : Host} {refs : List (Ref .record)}

theorem loads (h : Begins host host' refs) : LoadsAlike host host' := by
  refine ⟨by rw [h.rest], by rw [h.rest], by rw [h.rest], by rw [h.rest], fun ref href => ?_, ?_⟩
  · by_cases hmem : ref ∈ refs
    · obtain ⟨record, -, -, hrecord⟩ := h.begun ref hmem
      rw [hrecord]
      rfl
    · rwa [h.others ref hmem]
  · intro node target hmem
    rw [h.chronicle] at hmem
    rcases List.mem_append.1 hmem with hmem | hmem
    · obtain ⟨ref, -, heq⟩ := List.mem_map.1 (List.mem_reverse.1 hmem)
      cases heq
    · exact hmem

theorem moves (h : Begins host host' refs) : Moves host host' := by
  refine ⟨h.loads, by rw [h.rest], fun ref record hrecord => ?_, fun ref hnone => ?_,
    fun ref hlinked => ?_, ?_⟩
  · by_cases hmem : ref ∈ refs
    · obtain ⟨record', hget, hphase, hget'⟩ := h.begun ref hmem
      obtain rfl : record = record' := Option.some.inj (hrecord.symm.trans hget)
      exact ⟨_, hget', ⟨rfl, .inr (by rw [hphase]; rfl)⟩, rfl⟩
    · exact ⟨record, (h.others ref hmem).trans hrecord, .refl record, rfl⟩
  · rw [h.others ref fun hmem => ?_, hnone]
    obtain ⟨record, hget, -⟩ := h.begun ref hmem
    rw [hnone] at hget
    cases hget
  · unfold Host.Linked at hlinked
    rw [h.chronicle] at hlinked
    rcases List.mem_append.1 hlinked with hmem | hmem
    · obtain ⟨other, -, heq⟩ := List.mem_map.1 (List.mem_reverse.1 hmem)
      cases heq
    · exact hmem
  · rw [h.chronicle]
    exact List.suffix_append _ _

end Begins

namespace Act

theorem forM_begins : ∀ (refs : List (Ref .record)) {host : Host}, refs.Nodup →
    host.AllLoaded refs →
      After host (refs.forM fun ref => changeRecord ref fun record => record.advance .linking)
        fun _ host' => Begins host host' refs
  | [], host, _, _ => ⟨rfl, (fun _ hmem => nomatch hmem), fun _ _ => rfl, rfl⟩
  | ref :: rest, host, hnodup, hloaded => by
    obtain ⟨hnew, hrest⟩ := List.nodup_cons.1 hnodup
    obtain ⟨record, hrecord, hphase⟩ := hloaded ref List.mem_cons_self
    have hadvance : record.advance .linking = { record with phase := .linking } :=
      Record.advance_of_allows (by rw [hphase]; rfl)
    change After host (changeRecord ref (Record.advance · .linking) >>= fun _ =>
      rest.forM fun ref => changeRecord ref (Record.advance · .linking)) _
    rw [after_bind]
    refine (changeRecord_moves (f := (Record.advance · .linking)) hrecord hadvance ?_).mono
      fun _ middle hmoves => ?_
    · change Phase.linking ≠ record.phase
      rw [hphase]
      decide
    refine (forM_begins rest hrest fun other hmem => ?_).mono fun _ last hlast => ?_
    · obtain ⟨record', hget, hloaded'⟩ := hloaded other (List.mem_cons_of_mem _ hmem)
      exact ⟨record', (hmoves.others other fun heq => hnew (heq ▸ hmem)).trans hget, hloaded'⟩
    refine ⟨?_, fun other hmem => ?_, fun other hnot => ?_, ?_⟩
    · rw [hlast.rest, hmoves.rest]
    · rcases List.mem_cons.1 hmem with rfl | hmem
      · exact ⟨record, hrecord, hphase, (hlast.others other hnew).trans hmoves.get⟩
      · obtain ⟨record', hget, hloaded', hget'⟩ := hlast.begun other hmem
        have hold := hmoves.others other fun heq => hnew (heq ▸ hmem)
        exact ⟨record', hold.symm.trans hget, hloaded', hget'⟩
    · rw [hlast.others other fun hmem => hnot (List.mem_cons_of_mem _ hmem)]
      exact hmoves.others other fun heq => hnot (heq ▸ List.mem_cons_self)
    · rw [hlast.chronicle, List.map_cons, List.reverse_cons, List.append_assoc, hmoves.rest]
      rfl

/-- A record that begins to be linked has nothing on its namespace. -/
theorem Begins.blank {host before : Host} {refs : List (Ref .record)} (h : Begins host before refs)
    (htidy : host.Tidy) {ref : Ref .record} (hmem : ref ∈ refs) :
    ∃ record, Blank before ref record ∧ record.source.isSome := by
  obtain ⟨record, hrecord, hphase, hget⟩ := h.begun ref hmem
  have hnot : ¬ host.Linked ref := by
    intro hlinked
    obtain ⟨record', hget', -, hrank⟩ := htidy.linked ref hlinked
    obtain rfl : record' = record := Option.some.inj (hget'.symm.trans hrecord)
    rw [hphase] at hrank
    exact absurd hrank (by decide)
  have hsource : record.source.isSome := by
    cases hsource : record.source with
    | some source => rfl
    | none =>
      have hready := htidy.exposed ref record hrecord hsource
      rw [hphase] at hready
      cases hready
  obtain ⟨space, hspace, hempty⟩ := htidy.spaces ref record hrecord hsource
  refine ⟨_, ⟨hget, rfl, space, ?_, hempty hnot⟩, hsource⟩
  rw [h.rest]
  exact hspace

/-- A wiring that succeeded is sound: its names are unique, and every local name has its slot. -/
theorem Slots.sound {batch : Batch} (hproper : batch.Proper)
    (hnodup : (batch.units.map LinkUnit.record).Nodup) {before start : Host}
    {slots : List (Ref .record × List (String × Ref .slot))}
    (h : Slots batch.units before start slots) {unit : LinkUnit} {wiring : Wiring}
    (hwire : batch.wire unit = .ok wiring) : wiring.Sound slots where
  imports _ _ _ hmem hmem' := (Batch.wired_of_wire hwire).import_unique hmem hmem'
  exports _ _ _ hmem hmem' := by
    have horigin := (Batch.wired_of_wire hwire).export_origin hmem
    rw [(Batch.wired_of_wire hwire).export_origin hmem'] at horigin
    exact (Option.some.inj (Except.ok.inj horigin)).symm
  made name record own hmem := by
    rcases (Batch.wired_of_wire hwire).origin_leads hmem with
      ⟨found, remote, hleads⟩ | ⟨found, horigin⟩
    · obtain ⟨owner, howner, rfl, hown⟩ := hleads.localNames hproper rfl
      exact h.isSome hnodup howner hown
    · cases horigin

/-- Once slots were made for them, the records of a batch are blank still, with a namespace each. -/
theorem Begins.unsettled {host before start : Host} {refs : List (Ref .record)}
    (h : Begins host before refs) (htidy : host.Tidy) (hnodup : refs.Nodup)
    {slots : List (Ref .record × List (String × Ref .slot))}
    (hmade : Slots (Batch.ofRecords before refs).units before start slots) : Unsettled start start refs := by
  have hstart (ref : Ref .record) : start.record ref = before.record ref := by
    rw [hmade.rest]
    rfl
  refine ⟨.refl _, fun _ => rfl, fun ref hmem => ?_, hnodup, fun ref hmem other hmem' hspace => ?_⟩
  · obtain ⟨record, ⟨hget, hphase, space, hspace, hempty⟩, -⟩ := Begins.blank h htidy hmem
    refine ⟨record, ?_, hphase, space, ?_, hempty⟩
    · rw [hmade.rest]
      exact hget
    · rw [hmade.rest]
      exact hspace
  · obtain ⟨record, hone, hsource⟩ := Begins.blank h htidy hmem
    obtain ⟨record', hother, hsource'⟩ := Begins.blank h htidy hmem'
    have hown : before.record ref = record := congrArg (Option.getD · default) hone.get
    have hown' : before.record other = record' := congrArg (Option.getD · default) hother.get
    rw [hstart, hstart, hown, hown'] at hspace
    exact (h.moves.undisturbed.tidy htidy).distinct ref other record record' hone.get hother.get
      hsource hsource' hspace

/-- Records that are loaded are linked, all together. -/
theorem link_links {host : Host} (hloads : host.LoadsInOrder) (htidy : host.Tidy)
    {refs : List (Ref .record)} (hnodup : refs.Nodup) (hloaded : host.AllLoaded refs) :
    After host (link refs) fun _ host' => ∃ before start slots,
      Begins host before refs ∧ Links before start host' refs slots := by
  have hbatch : After host (do
      refs.forM fun ref => changeRecord ref fun record => record.advance .linking
      let batch := Batch.ofRecords (← get) refs
      let slots ← localSlots batch.units
      let wirings := batch.units.map fun unit => (unit, batch.wire unit)
      commitAll slots (batch.allFailures wirings) wirings : Act Unit) fun _ host' =>
        ∃ before start slots, Begins host before refs ∧ Links before start host' refs slots := by
    rw [after_bind]
    refine (forM_begins refs hnodup hloaded).mono fun _ before hbegins => ?_
    have hblank (ref : Ref .record) (hmem : ref ∈ refs) : ∃ record, Blank before ref record :=
      (Begins.blank hbegins htidy hmem).imp fun _ => And.left
    have hproper : (Batch.ofRecords before refs).Proper := Batch.ofRecords_proper fun ref hmem => by
      obtain ⟨record, hblank⟩ := hblank ref hmem
      rw [hblank.get]
      rfl
    rw [after_bind, after_get, after_bind]
    have hslots : After before (localSlots (Batch.ofRecords before refs).units) fun slots start =>
        Slots (Batch.ofRecords before refs).units before start slots :=
      localSlots_slots _ _
    refine hslots.mono fun slots start hmade => ?_
    have hrefs : ((Batch.ofRecords before refs).units.map fun unit =>
        (unit, (Batch.ofRecords before refs).wire unit)).map (fun pair => pair.1.record) = refs := by
      rw [List.map_map]
      exact Batch.records_ofRecords before refs
    refine (commitAll_settles _ (hrefs ▸ Begins.unsettled hbegins htidy hnodup hmade)
      fun unit wiring hmem => ?_).mono fun _ last hlast => ?_
    · obtain ⟨unit', hunit, heq⟩ := List.mem_map.1 hmem
      obtain ⟨rfl, hwire⟩ := Prod.mk.inj heq
      exact hmade.sound hproper ((Batch.records_ofRecords before refs).symm ▸ hnodup) hwire
    · exact ⟨before, start, slots, hbegins, hbegins.moves.loads.loadsInOrder hloads,
        hbegins.moves.undisturbed.tidy htidy, hblank, hmade, hlast⟩
  unfold link
  cases refs with
  | nil => exact hbatch
  | cons first rest => exact hbatch

/-- Linking keeps bindings live. -/
theorem link_lives {host : Host} (hloads : host.LoadsInOrder) (hlive : host.BindingsLive)
    {refs : List (Ref .record)} (hnodup : refs.Nodup) (hloaded : host.AllLoaded refs) :
    After host (link refs) fun _ host' => ∃ before start slots,
      Begins host before refs ∧ LinksLive before start host' refs slots :=
  (link_links hloads hlive.toTidy hnodup hloaded).mono
    fun _ _ ⟨before, start, slots, hbegins, hlinks⟩ => ⟨before, start, slots, hbegins, hlinks,
      hbegins.moves.undisturbed.bindingsLive hloads hlive⟩

end Act

namespace Host

variable {host : Host}

theorem mem_entriesOf {draft : Draft} {nodes : List Node} {node : Node} {entry : Entry}
    (h : (node, entry) ∈ host.entriesOf draft nodes) : host.entryWith? draft node = some entry := by
  obtain ⟨other, -, heq⟩ := List.mem_filterMap.1 h
  obtain ⟨found, hfound, heq⟩ := Option.map_eq_some_iff.1 heq
  cases heq
  exact hfound

/-- A closure lists records that exist, each once. -/
theorem closureFrom_records (hloads : host.LoadsInOrder) : ∀ (fuel : Nat) {seen : List Node}
    {queue : List (Node × Entry)} {found : List (Ref .record)},
      (∀ pair ∈ queue, pair.2.Valid host) → found.Nodup →
        (∀ ref ∈ found, (host.records.get? ref).isSome) →
          (host.closureFrom [] fuel seen queue found).Nodup ∧
            ∀ ref ∈ host.closureFrom [] fuel seen queue found, (host.records.get? ref).isSome
  | 0, _, _, _, _, hnodup, hexist =>
    ⟨List.nodup_reverse.2 hnodup, fun ref hmem => hexist ref (List.mem_reverse.1 hmem)⟩
  | _ + 1, _, [], _, _, hnodup, hexist =>
    ⟨List.nodup_reverse.2 hnodup, fun ref hmem => hexist ref (List.mem_reverse.1 hmem)⟩
  | fuel + 1, seen, (node, entry) :: queue, found, hqueue, hnodup, hexist => by
    unfold closureFrom
    refine closureFrom_records hloads fuel (fun pair hmem => ?_) ?_ fun ref hmem => ?_
    · rcases List.mem_append.1 hmem with hmem | hmem
      · exact hqueue pair (List.mem_cons_of_mem _ hmem)
      · exact hloads.memo _ _ (mem_entriesOf hmem)
    · cases entry with
      | borrowed owner key record => exact hnodup
      | own record =>
        dsimp only
        split
        · exact hnodup
        · rename_i hnew
          exact List.nodup_cons.2 ⟨fun hmem => hnew (List.contains_iff_mem.2 hmem), hnodup⟩
    · cases entry with
      | borrowed owner key record => exact hexist ref hmem
      | own record =>
        dsimp only at hmem
        split at hmem
        · exact hexist ref hmem
        · rcases List.mem_cons.1 hmem with rfl | hmem
          · exact hqueue _ List.mem_cons_self
          · exact hexist ref hmem

/-- The records of a closure that are still to be linked. -/
def unlinked (host : Host) (root : Node) : List (Ref .record) :=
  (host.closure [] root).filter fun ref => (host.record ref).phase = .loaded

/-- The host in which that closure was linked. -/
def linkedFrom (host : Host) (root : Node) : Host :=
  (Act.link (host.unlinked root) host).2

/-- The records of a closure that are loaded can be linked together. -/
theorem unlinked_allLoaded (hloads : host.LoadsInOrder) (root : Node) :
    (host.unlinked root).Nodup ∧ host.AllLoaded (host.unlinked root) := by
  have hqueue : ∀ pair ∈ host.entriesOf [] [root], pair.2.Valid host :=
    fun pair hmem => hloads.memo _ _ (mem_entriesOf hmem)
  have hclosure : (host.closure [] root).Nodup ∧
      ∀ ref ∈ host.closure [] root, (host.records.get? ref).isSome :=
    closureFrom_records hloads _ hqueue List.nodup_nil fun _ hmem => nomatch hmem
  refine ⟨hclosure.1.filter _, fun ref hmem => ?_⟩
  obtain ⟨hmem, hphase⟩ := List.mem_filter.1 hmem
  obtain ⟨record, hrecord⟩ := Option.isSome_iff_exists.1 (hclosure.2 ref hmem)
  have hown : host.record ref = record := congrArg (Option.getD · default) hrecord
  rw [hown] at hphase
  exact ⟨record, hrecord, of_decide_eq_true hphase⟩

end Host

end ModuleLoader
