import ModuleLoader.Proofs.Agreements
import ModuleLoader.Proofs.LiveBindings
/-!
Linking a batch keeps bindings live: the slots of the records that it commits are where their wirings
say, and nothing that was bound before changes.
-/

namespace ModuleLoader
set_option autoImplicit false

namespace Batch

/-- All failures of a batch, from the wirings of its own. -/
def failed (batch : Batch) : List (Ref .record × Failure) :=
  batch.allFailures (batch.units.map fun unit => (unit, batch.wire unit))

/-- What becomes of a record of a batch. -/
def outcome (batch : Batch) (unit : LinkUnit) : Except Failure Wiring :=
  Act.outcomeOf batch.failed (unit, batch.wire unit)

theorem outcome_ok {batch : Batch} {unit : LinkUnit} (hunit : unit ∈ batch.units)
    {wiring : Wiring} : batch.outcome unit = .ok wiring ↔ batch.Commits unit wiring := by
  unfold outcome Act.outcomeOf
  dsimp only
  cases hfailed : failureAmong batch.failed unit.record with
  | some failure =>
    refine ⟨fun heq => ?_, fun h => absurd ?_ h.sound⟩
    · cases heq
    · exact failureAmong_isSome.1 (hfailed ▸ rfl)
  | none => exact ⟨fun h => ⟨hunit, h, failureAmong_eq_none.1 hfailed⟩, fun h => h.wired⟩

/-- The record is committed with the batch, or exports something already. -/
def Stands (batch : Batch) (record : Ref .record) : Prop :=
  (∃ unit wiring, batch.Commits unit wiring ∧ unit.record = record) ∨
    batch.unitOf record = none ∧ ∃ exports, batch.outside record = .ok exports

theorem Stands.answers {batch : Batch} (hproper : batch.Proper) {record : Ref .record}
    (h : batch.Stands record) : batch.Answers record := by
  unfold Batch.Answers
  rcases h with ⟨unit, wiring, hcommits, rfl⟩ | ⟨hunit, hexports⟩
  · rw [hproper.unitOf unit hcommits.mem]
    exact ⟨wiring, hcommits.wired⟩
  · rw [hunit]
    exact hexports

end Batch

namespace Act

/-- The records of a batch are linked: slots were made for their local names, and each was settled. -/
structure Links (before start host : Host) (refs : List (Ref .record))
    (slots : List (Ref .record × List (String × Ref .slot))) : Prop where
  loads : before.LoadsInOrder
  tidy : before.Tidy
  blank : ∀ ref ∈ refs, ∃ record, Blank before ref record
  made : Slots (Batch.ofRecords before refs).units before start slots
  settles : SettlesAll slots (Batch.ofRecords before refs).failed start start host
    ((Batch.ofRecords before refs).units.map fun unit =>
      (unit, (Batch.ofRecords before refs).wire unit))

namespace Links

variable {before start host : Host} {refs : List (Ref .record)}
  {slots : List (Ref .record × List (String × Ref .slot))}

theorem exist (h : Links before start host refs slots) (ref : Ref .record) (hmem : ref ∈ refs) :
    (before.records.get? ref).isSome := by
  obtain ⟨record, hblank⟩ := h.blank ref hmem
  rw [hblank.get]
  rfl

theorem proper (h : Links before start host refs slots) : (Batch.ofRecords before refs).Proper :=
  Batch.ofRecords_proper h.exist

theorem mem_refs {unit : LinkUnit} (hunit : unit ∈ (Batch.ofRecords before refs).units) :
    unit.record ∈ refs ∧ unit = Batch.describe before unit.record := by
  obtain ⟨ref, hmem, rfl⟩ := List.mem_map.1 hunit
  exact ⟨hmem, rfl⟩

theorem startRecord (h : Links before start host refs slots) (ref : Ref .record) :
    start.record ref = before.record ref := by
  rw [h.made.rest]
  rfl

theorem startSpaces (h : Links before start host refs slots) :
    start.store.spaces = before.store.spaces := by
  rw [h.made.rest]

theorem extends' (h : Links before start host refs slots) :
    before.store.slots.Extends host.store.slots :=
  h.made.made.extends'.trans h.settles.extends'

/-- What became of a record of the batch. -/
theorem settled (h : Links before start host refs slots) {ref : Ref .record} (hmem : ref ∈ refs) :
    (∃ unit wiring, (Batch.ofRecords before refs).Commits unit wiring ∧ unit.record = ref ∧
      Settled slots start host ref (before.record ref) (.ok wiring)) ∨
      (∀ unit wiring, (Batch.ofRecords before refs).Commits unit wiring → unit.record ≠ ref) ∧
        ∃ failure, Settled slots start host ref (before.record ref) (.error failure) := by
  have hunit : Batch.describe before ref ∈ (Batch.ofRecords before refs).units :=
    List.mem_map_of_mem hmem
  have hsettled : Settled slots start host ref (start.record ref)
      ((Batch.ofRecords before refs).outcome (Batch.describe before ref)) :=
    h.settles.settled _ (List.mem_map_of_mem hunit)
  rw [h.startRecord] at hsettled
  cases houtcome : (Batch.ofRecords before refs).outcome (Batch.describe before ref) with
  | ok wiring =>
    rw [houtcome] at hsettled
    exact .inl ⟨_, wiring, (Batch.outcome_ok hunit).1 houtcome, rfl, hsettled⟩
  | error failure =>
    rw [houtcome] at hsettled
    refine .inr ⟨fun unit wiring hcommits heq => ?_, failure, hsettled⟩
    have hunit' : unit = Batch.describe before ref := heq ▸ (mem_refs hcommits.mem).2
    rw [hunit', ← Batch.outcome_ok hunit, houtcome] at hcommits
    cases hcommits

theorem committed (h : Links before start host refs slots) {unit : LinkUnit} {wiring : Wiring}
    (hcommits : (Batch.ofRecords before refs).Commits unit wiring) :
    Settled slots start host unit.record (before.record unit.record) (.ok wiring) := by
  rcases h.settled (mem_refs hcommits.mem).1 with
    ⟨unit', wiring', hcommits', heq, hsettled⟩ | ⟨hnot, -⟩
  · have hsame : unit' = unit := by
      rw [(mem_refs hcommits.mem).2, (mem_refs hcommits'.mem).2, heq]
    have hwired := hcommits'.wired
    rw [hsame, hcommits.wired] at hwired
    cases hwired
    exact hsettled
  · exact absurd rfl (hnot unit wiring hcommits)

theorem records (h : Links before start host refs slots) {ref : Ref .record} (hmem : ref ∉ refs) :
    host.records.get? ref = before.records.get? ref := by
  rw [h.settles.others ref ?_, h.made.rest]
  intro hrecord
  obtain ⟨pair, hpair, rfl⟩ := List.mem_map.1 hrecord
  obtain ⟨unit, hunit, rfl⟩ := List.mem_map.1 hpair
  exact hmem (mem_refs hunit).1

/-- A record that was not committed has the scope that it had. -/
theorem environment (h : Links before start host refs slots) {ref : Ref .record}
    (hnot : ∀ unit wiring, (Batch.ofRecords before refs).Commits unit wiring → unit.record ≠ ref) :
    (host.record ref).environment = (before.record ref).environment := by
  by_cases hmem : ref ∈ refs
  · rcases h.settled hmem with ⟨unit, wiring, hcommits, heq, -⟩ | ⟨-, failure, -, hget⟩
    · exact absurd heq (hnot unit wiring hcommits)
    · exact congrArg (fun found => (found.getD default).environment) hget
  · exact congrArg (fun found => (found.getD default).environment) (h.records hmem)

theorem space (h : Links before start host refs slots) (ref : Ref .record) :
    (host.record ref).space = (before.record ref).space := by
  by_cases hmem : ref ∈ refs
  · rcases h.settled hmem with ⟨_, _, _, _, hsettled⟩ | ⟨_, _, hsettled⟩
    · exact hsettled.space
    · exact hsettled.space
  · exact congrArg (fun found => (found.getD default).space) (h.records hmem)

/-- A namespace that is not the one of a committed record exports what it did. -/
theorem exports (h : Links before start host refs slots) {space : Ref .exports}
    (hnot : ∀ unit wiring, (Batch.ofRecords before refs).Commits unit wiring →
      (before.record unit.record).space ≠ space) :
    (host.store.space space).exports = (before.store.space space).exports := by
  by_cases hmem : ∃ ref ∈ refs, (before.record ref).space = space
  · obtain ⟨ref, hmem, rfl⟩ := hmem
    rcases h.settled hmem with ⟨unit, wiring, hcommits, heq, -⟩ | ⟨-, failure, hempty, -⟩
    · exact absurd (heq ▸ rfl) (hnot unit wiring hcommits)
    · obtain ⟨record, hblank⟩ := h.blank ref hmem
      obtain ⟨found, hfound, hnone⟩ := hblank.space
      have heq : before.record ref = record := congrArg (Option.getD · default) hblank.get
      rw [hempty, heq]
      unfold Store.space
      rw [hfound]
      exact hnone.symm
  · have hsame := h.settles.spaces space fun pair hpair heq => by
      obtain ⟨unit, hunit, rfl⟩ := List.mem_map.1 hpair
      refine hmem ⟨unit.record, (mem_refs hunit).1, ?_⟩
      rw [heq, h.startRecord]
    unfold Store.space
    rw [hsame, h.startSpaces]

theorem chronicle (h : Links before start host refs slots) :
    host.chronicle = ((Batch.ofRecords before refs).units.map fun unit => .moved unit.record
      (settledPhase ((Batch.ofRecords before refs).outcome unit))).reverse ++ before.chronicle := by
  rw [h.settles.chronicle, List.map_map, h.made.rest]
  rfl

theorem linked (h : Links before start host refs slots) (ref : Ref .record) :
    host.Linked ref ↔ before.Linked ref ∨
      ∃ unit wiring, (Batch.ofRecords before refs).Commits unit wiring ∧ unit.record = ref := by
  unfold Host.Linked
  rw [h.chronicle, List.mem_append, List.mem_reverse, List.mem_map, or_comm]
  refine or_congr_right ⟨?_, ?_⟩
  · rintro ⟨unit, hunit, heq⟩
    obtain ⟨hrecord, hphase⟩ := Milestone.moved.inj heq
    cases houtcome : (Batch.ofRecords before refs).outcome unit with
    | error failure =>
      rw [houtcome] at hphase
      cases hphase
    | ok wiring => exact ⟨unit, wiring, (Batch.outcome_ok hunit).1 houtcome, hrecord⟩
  · rintro ⟨unit, wiring, hcommits, rfl⟩
    refine ⟨unit, hcommits.mem, ?_⟩
    rw [(Batch.outcome_ok hcommits.mem).2 hcommits]
    rfl

theorem loadsAlike (h : Links before start host refs slots) : LoadsAlike before host := by
  have hrest : host = { before with
      store := host.store
      records := host.records
      chronicle := host.chronicle } := by
    rw [h.settles.rest, h.made.rest]
  refine ⟨by rw [hrest], by rw [hrest], by rw [hrest], by rw [hrest], fun ref href => ?_, ?_⟩
  · by_cases hmem : ref ∈ refs
    · rcases h.settled hmem with ⟨-, -, -, -, -, environment, hget⟩ | ⟨-, failure, -, hget⟩
      · rw [hget]
        rfl
      · rw [hget]
        rfl
    · rwa [h.records hmem]
  · intro node target hmem
    rw [h.chronicle] at hmem
    rcases List.mem_append.1 hmem with hmem | hmem
    · obtain ⟨unit, -, heq⟩ := List.mem_map.1 (List.mem_reverse.1 hmem)
      cases heq
    · exact hmem

theorem later (h : Links before start host refs slots) : Later before host := by
  refine h.loadsAlike.later (fun ref record hrecord => ?_) ?_
  · have hown : before.record ref = record := congrArg (Option.getD · default) hrecord
    by_cases hmem : ref ∈ refs
    · obtain ⟨record', hblank⟩ := h.blank ref hmem
      obtain rfl : record = record' := Option.some.inj (hrecord.symm.trans hblank.get)
      have hsettled := h.settled hmem
      rw [hown] at hsettled
      rcases hsettled with ⟨-, -, -, -, -, environment, hget⟩ | ⟨-, failure, -, hget⟩
      · exact ⟨_, hget, rfl, .inr (by rw [hblank.phase]; rfl)⟩
      · exact ⟨_, hget, rfl, .inr (by rw [hblank.phase]; rfl)⟩
    · exact ⟨record, (h.records hmem).trans hrecord, .refl record⟩
  · rw [h.chronicle]
    exact List.suffix_append _ _

theorem target_iff {unit : LinkUnit} (hunit : unit ∈ (Batch.ofRecords before refs).units)
    {source : String} {target : Ref .record} :
    unit.target source = .ok target ↔ before.target? unit.record source = some target := by
  rw [(mem_refs hunit).2]
  exact Batch.target_describe

theorem bindings (h : Links before start host refs slots) {unit : LinkUnit}
    (hunit : unit ∈ (Batch.ofRecords before refs).units) :
    unit.bindings = (host.record unit.record).bindings := by
  obtain ⟨hmem, heq⟩ := mem_refs hunit
  rw [(h.later.record (h.exist _ hmem)).bindings, heq]
  rfl

/-- A committed record had nothing on its namespace. -/
theorem blank_exports (h : Links before start host refs slots) {unit : LinkUnit}
    (hunit : unit ∈ (Batch.ofRecords before refs).units) :
    (before.store.space (before.record unit.record).space).exports = .empty := by
  obtain ⟨record, hblank⟩ := h.blank _ (mem_refs hunit).1
  obtain ⟨space, hspace, hempty⟩ := hblank.space
  have heq : before.record unit.record = record := congrArg (Option.getD · default) hblank.get
  unfold Store.space
  rw [heq, hspace]
  exact hempty

/-- A namespace with a name on it is not one that gets its names by the batch. -/
theorem exports_of_some (h : Links before start host refs slots) {space : Ref .exports}
    {name : String} {slot : Ref .slot}
    (hslot : (before.store.space space).exports.get? name = some slot) :
    (host.store.space space).exports = (before.store.space space).exports := by
  refine h.exports fun unit wiring hcommits heq => ?_
  have hempty := h.blank_exports hcommits.mem
  rw [heq] at hempty
  rw [hempty] at hslot
  cases hslot

/-- What a committed record depends on is committed, or exports something already. -/
theorem answers (h : Links before start host refs slots) {unit : LinkUnit} {wiring : Wiring}
    (hcommits : (Batch.ofRecords before refs).Commits unit wiring) {source : String}
    {target : Ref .record} (htarget : unit.target source = .ok target) :
    (Batch.ofRecords before refs).Stands target := by
  cases hunit : (Batch.ofRecords before refs).unitOf target with
  | some other =>
    obtain ⟨wiring', hcommits'⟩ := hcommits.target h.proper htarget hunit
    exact .inl ⟨other, wiring', hcommits', (h.proper.unit target other hunit).2⟩
  | none =>
    obtain ⟨request, hrequest, hfound⟩ := Batch.request_of_target htarget
    obtain ⟨record, hrecord, hanswer⟩ := Batch.checkRequests_targets
      (Batch.wired_of_wire hcommits.wired).requests request hrequest
    rw [hfound] at hrecord
    cases hrecord
    rcases hanswer with hsome | hexports
    · rw [hunit] at hsome
      cases hsome
    · exact .inr ⟨hunit, hexports⟩

theorem answers' (h : Links before start host refs slots) {unit : LinkUnit} {wiring : Wiring}
    (hcommits : (Batch.ofRecords before refs).Commits unit wiring) (source : String)
    (target : Ref .record) (htarget : unit.target source = .ok target) :
    (Batch.ofRecords before refs).Answers target :=
  (h.answers hcommits htarget).answers h.proper

theorem outside_ok {target : Ref .record} {exports : Table (Ref .slot)}
    (h : (Batch.ofRecords before refs).outside target = .ok exports) :
    exports = (before.store.space (before.record target).space).exports := by
  change Batch.exported before target = .ok exports at h
  unfold Batch.exported at h
  dsimp only at h
  split at h
  · cases h
  · cases h
    rfl

/-- What a record is found to export has its slot on the namespace. -/
theorem export_realised (h : Links before start host refs slots) {target : Ref .record}
    (htarget : (Batch.ofRecords before refs).Stands target) {name : String}
    {origin : Origin} (horigin : (Batch.ofRecords before refs).originOf target name =
      .ok (some origin)) :
    ∃ slot, host.slotAt? (.exports (host.record target).space name) = some slot ∧
      Realises slots start host origin slot := by
  rcases htarget with ⟨other, wiring, hcommits, rfl⟩ | ⟨hunit, exports, hexports⟩
  · exact (h.committed hcommits).1.exports name origin
      ((Batch.wired_of_wire hcommits.wired).mem_exports h.proper hcommits.mem horigin)
  · unfold Batch.originOf at horigin
    rw [Batch.search_exported hunit hexports] at horigin
    obtain ⟨slot, hslot, rfl⟩ := Option.map_eq_some_iff.1 (Except.ok.inj horigin)
    rw [outside_ok hexports] at hslot
    refine ⟨slot, ?_, rfl⟩
    rw [Host.slotAt?_exports, h.space, h.exports_of_some hslot]
    exact hslot

/-- A slot that a search finds outside the batch was there before. -/
theorem slot_exists (h : Links before start host refs slots) {record : Ref .record} {name : String}
    {origin : Origin}
    (hleads : (Batch.ofRecords before refs).Leads record name origin) {slot : Ref .slot}
    (horigin : origin = .slot slot) : (before.store.slots.get? slot).isSome := by
  induction hleads with
  | @outside record name exports found hunit hexports hslot =>
    cases horigin
    rw [outside_ok hexports] at hslot
    exact h.tidy.slots (.exports (before.record record).space name) slot hslot
  | forward _ _ _ ih => exact ih horigin
  | require _ _ _ ih => exact ih horigin
  | star _ _ _ _ _ _ ih => exact ih horigin
  | found hunit hstep =>
    cases horigin
    cases LinkUnit.explicit_of_explicitStep hstep with
    | exportName _ hlocal => cases hlocal
    | exportAs _ hlocal => cases hlocal

/-- The origin is a local name of a record, or a slot that it may assign. -/
def Reaches (before : Host) (ref : Ref .record) (own : String) : Origin → Prop
  | .localName record name => record = ref ∧ name = own
  | .slot slot => before.Owns ref own slot
  | .exports _ => False

/-- What an export leads to leads on to a local name. -/
def StepReaches (before host : Host) (ref : Ref .record) (own : String) : ExportStep → Prop
  | .found origin => Reaches before ref own origin
  | .forward target remote => host.Leads ref own (.exports (host.record target).space remote)
  | .require target remote _ => host.Leads ref own (.exports (host.record target).space remote)

theorem target (h : Links before start host refs slots) {unit : LinkUnit}
    (hunit : unit ∈ (Batch.ofRecords before refs).units) {source : String} {target : Ref .record}
    (htarget : unit.target source = .ok target) : host.target? unit.record source = some target :=
  h.later.target? ((target_iff hunit).1 htarget)

theorem leads_of_local (h : Links before start host refs slots) {unit : LinkUnit}
    (hunit : unit ∈ (Batch.ofRecords before refs).units) {ref : Ref .record} {own name : String}
    {step : ExportStep} (hlocal : LinkUnit.Local unit unit.bindings name step)
    (hstep : StepReaches before host ref own step) :
    host.Leads ref own (.scope unit.record name) := by
  have hbindings := h.bindings hunit
  cases hlocal with
  | own =>
    obtain ⟨rfl, rfl⟩ := hstep
    exact .own
  | importName hmem htarget => exact .importName (hbindings ▸ hmem) (h.target hunit htarget) hstep
  | importAs hmem htarget => exact .importAs (hbindings ▸ hmem) (h.target hunit htarget) hstep
  | importAll => exact hstep.elim

theorem leads_of_explicit (h : Links before start host refs slots) {unit : LinkUnit}
    (hunit : unit ∈ (Batch.ofRecords before refs).units) {ref : Ref .record} {own name : String}
    {step : ExportStep} (hexplicit : LinkUnit.Explicit unit unit.bindings name step)
    (hstep : StepReaches before host ref own step) :
    host.Leads ref own (.exports (host.record unit.record).space name) := by
  have hbindings := h.bindings hunit
  cases hexplicit with
  | exportName hmem hlocal =>
    exact .exportName (hbindings ▸ hmem) (h.leads_of_local hunit hlocal hstep)
  | exportAs hmem hlocal => exact .exportAs (hbindings ▸ hmem) (h.leads_of_local hunit hlocal hstep)
  | exportFrom hmem htarget => exact .exportFrom (hbindings ▸ hmem) (h.target hunit htarget) hstep
  | exportAllAs => exact hstep.elim

/-- A record that was committed, or one that was not. -/
theorem committed_or (before : Host) (refs : List (Ref .record)) (ref : Ref .record) :
    (∃ unit wiring, (Batch.ofRecords before refs).Commits unit wiring ∧ unit.record = ref) ∨
      ∀ unit wiring, (Batch.ofRecords before refs).Commits unit wiring → unit.record ≠ ref := by
  by_cases h : ∃ unit wiring, (Batch.ofRecords before refs).Commits unit wiring ∧ unit.record = ref
  · exact .inl h
  · exact .inr fun unit wiring hcommits heq => h ⟨unit, wiring, hcommits, heq⟩

/-- A place is one of a committed record, or is what it was. -/
theorem slotAt?_cases (h : Links before start host refs slots) (place : Place) :
    (∃ unit wiring, (Batch.ofRecords before refs).Commits unit wiring ∧
      ∃ name, place = .scope unit.record name ∨
        place = .exports (host.record unit.record).space name) ∨
      host.slotAt? place = before.slotAt? place := by
  cases place with
  | scope ref name =>
    rcases committed_or before refs ref with ⟨unit, wiring, hcommits, rfl⟩ | hnot
    · exact .inl ⟨unit, wiring, hcommits, name, .inl rfl⟩
    · refine .inr ?_
      rw [Host.slotAt?_scope, Host.slotAt?_scope, h.environment hnot]
  | exports space name =>
    by_cases hcommits : ∃ unit wiring, (Batch.ofRecords before refs).Commits unit wiring ∧
        (before.record unit.record).space = space
    · obtain ⟨unit, wiring, hcommits, rfl⟩ := hcommits
      exact .inl ⟨unit, wiring, hcommits, name, .inr (by rw [h.space])⟩
    · refine .inr ?_
      rw [Host.slotAt?_exports, Host.slotAt?_exports, h.exports fun unit wiring hcommits' heq =>
        hcommits ⟨unit, wiring, hcommits', heq⟩]

/-- A record of the batch was not linked before. -/
theorem not_linked (h : Links before start host refs slots) {ref : Ref .record} (hmem : ref ∈ refs) :
    ¬ before.Linked ref := by
  intro hlinked
  obtain ⟨record, hblank⟩ := h.blank ref hmem
  obtain ⟨record', hget, -, hrank⟩ := h.tidy.linked ref hlinked
  obtain rfl : record' = record := Option.some.inj (hget.symm.trans hblank.get)
  rw [hblank.phase] at hrank
  exact absurd hrank (by decide)

/-- What a record may assign is a slot made for a name that was free, or one that it had. -/
theorem owns_cases (h : Links before start host refs slots) {ref : Ref .record} {name : String}
    {slot : Ref .slot} (howns : host.Owns ref name slot) :
    (slotOf slots ref name = some slot ∧ (before.record ref).environment.bounds.get? name = none) ∨
      before.Owns ref name slot := by
  by_cases hcommits : ∃ unit wiring, (Batch.ofRecords before refs).Commits unit wiring ∧
      unit.record = ref
  · obtain ⟨unit, wiring, hcommits, rfl⟩ := hcommits
    rcases (h.committed hcommits).1.bound name _ howns with ⟨hread, -⟩ | ⟨-, hold | ⟨hnone, -, hslot⟩⟩
    · cases hread
    · exact .inr hold
    · exact .inl ⟨hslot, hnone⟩
  · refine .inr ?_
    unfold Host.Owns at howns ⊢
    rwa [h.environment fun unit wiring hcommits' heq => hcommits ⟨unit, wiring, hcommits', heq⟩]
      at howns

/-- Whatever became of a record, it is the same module as before, in a later phase. -/
theorem before_of (h : Links before start host refs slots) {ref : Ref .record} {record : Record}
    (hrecord : host.records.get? ref = some record) :
    ∃ old, before.records.get? ref = some old ∧ old.Onward record := by
  cases hold : before.records.get? ref with
  | none =>
    have hmem : ref ∉ refs := fun hmem => by
      have hthere := h.exist ref hmem
      rw [hold] at hthere
      cases hthere
    rw [h.records hmem, hold] at hrecord
    cases hrecord
  | some old =>
    obtain ⟨record', hrecord', honward⟩ := h.later.records ref old hold
    obtain rfl : record = record' := Option.some.inj (hrecord.symm.trans hrecord')
    exact ⟨old, rfl, honward⟩

theorem linked_exists (h : Links before start host refs slots) {ref : Ref .record}
    (hlinked : host.Linked ref) : ∃ record, host.records.get? ref = some record ∧
      record.source.isSome ∧ Phase.linked.rank ≤ record.phase.rank := by
  rcases (h.linked ref).1 hlinked with hlinked | ⟨unit, wiring, hcommits, rfl⟩
  · obtain ⟨old, hold, hsource, hrank⟩ := h.tidy.linked ref hlinked
    obtain ⟨record, hrecord, honward⟩ := h.later.records ref old hold
    exact ⟨record, hrecord, honward.source ▸ hsource, Nat.le_trans hrank honward.rank⟩
  · obtain ⟨old, hblank⟩ := h.blank _ (mem_refs hcommits.mem).1
    have heq : before.record unit.record = old := congrArg (Option.getD · default) hblank.get
    obtain ⟨-, environment, hget⟩ := h.committed hcommits
    refine ⟨_, hget, ?_, Nat.le_refl _⟩
    change (before.record unit.record).source.isSome
    rw [heq]
    cases hsource : old.source with
    | some source => rfl
    | none =>
      have hready := h.tidy.exposed _ old hblank.get hsource
      rw [hblank.phase] at hready
      cases hready

theorem blank_space (h : Links before start host refs slots) {ref : Ref .record} {old : Record}
    (hold : before.records.get? ref = some old) (hsource : old.source.isSome)
    (hnot : ¬ host.Linked ref) : (host.store.space old.space).exports = .empty := by
  have hbefore : ¬ before.Linked ref := fun hlinked => hnot ((h.linked ref).2 (.inl hlinked))
  obtain ⟨space, hspace, hempty⟩ := h.tidy.spaces ref old hold hsource
  rw [h.exports fun unit wiring hcommits heq => ?_]
  · unfold Store.space
    rw [hspace]
    exact hempty hbefore
  · obtain ⟨record, hblank⟩ := h.blank _ (mem_refs hcommits.mem).1
    have hown : before.record unit.record = record := congrArg (Option.getD · default) hblank.get
    have hlinked : host.Linked unit.record := (h.linked _).2 (.inr ⟨unit, wiring, hcommits, rfl⟩)
    obtain ⟨record', hget', hsource', -⟩ := h.linked_exists hlinked
    obtain ⟨old', hold', honward⟩ := h.before_of hget'
    obtain rfl : old' = record := Option.some.inj (hold'.symm.trans hblank.get)
    rw [hown] at heq
    exact hnot (h.tidy.distinct _ ref old' old hold' hold (honward.source ▸ hsource') hsource heq ▸
      hlinked)

theorem space_exists (h : Links before start host refs slots) {space : Ref .exports}
    (hspace : (before.store.spaces.get? space).isSome) : (host.store.spaces.get? space).isSome :=
  h.settles.exist space (h.startSpaces ▸ hspace)

theorem slots_exist (h : Links before start host refs slots) {place : Place} {slot : Ref .slot}
    (hslot : host.slotAt? place = some slot) : (host.store.slots.get? slot).isSome := by
  have hrealised {unit : LinkUnit} {wiring : Wiring}
      (hcommits : (Batch.ofRecords before refs).Commits unit wiring) {name : String}
      {origin : Origin} (hmem : (name, origin) ∈ wiring.imports ++ wiring.exports)
      {slot : Ref .slot} (hrealises : Realises slots start host origin slot) :
      (host.store.slots.get? slot).isSome := by
    cases origin with
    | slot found =>
      obtain rfl : slot = found := hrealises
      rcases (Batch.wired_of_wire hcommits.wired).origin_leads hmem with
        ⟨record, remote, hleads⟩ | ⟨record, hexports⟩
      · exact h.extends'.isSome (h.slot_exists hleads rfl)
      · cases hexports
    | localName record own => exact h.settles.extends'.isSome ((h.made.new hrealises).2 ▸ rfl)
    | exports record => exact hrealises.2 ▸ rfl
  rcases h.slotAt?_cases place with
    ⟨unit, wiring, hcommits, name, rfl | rfl⟩ | hsame
  · rw [Host.slotAt?_scope] at hslot
    obtain ⟨bound, hget, rfl⟩ := Option.map_eq_some_iff.1 hslot
    rcases (h.committed hcommits).1.bound name bound hget with
      ⟨-, origin, hmem, hrealises⟩ | ⟨-, hold | ⟨-, -, hmade⟩⟩
    · exact hrealised hcommits (List.mem_append_left _ hmem) hrealises
    · refine h.extends'.isSome (h.tidy.slots (.scope unit.record name) bound.slot ?_)
      exact congrArg (Option.map Bound.slot) hold
    · exact h.settles.extends'.isSome ((h.made.new hmade).2 ▸ rfl)
  · obtain ⟨origin, hmem, hrealises⟩ := (h.committed hcommits).1.exported name slot hslot
    exact hrealised hcommits (List.mem_append_right _ hmem) hrealises
  · rw [hsame] at hslot
    exact h.extends'.isSome (h.tidy.slots place slot hslot)

/-- The records and namespaces of a host are tidy after a link as before. -/
theorem tidy_after (h : Links before start host refs slots) : host.Tidy := by
  refine ⟨fun ref record hrecord => ?_, fun ref record hrecord hsource => ?_,
    fun ref => h.linked_exists, fun ref record hrecord hsource => ?_, ?_,
    fun place slot => h.slots_exist⟩
  · obtain ⟨old, hold, honward⟩ := h.before_of hrecord
    rw [honward.home]
    exact h.later.keeps.built _ (h.tidy.homes ref old hold)
  · obtain ⟨old, hold, honward⟩ := h.before_of hrecord
    have hready := h.tidy.exposed ref old hold (honward.source ▸ hsource)
    rcases honward.phase with hphase | hphase
    · rw [hphase, hready]
    · rw [hready] at hphase
      cases hphase
  · obtain ⟨old, hold, honward⟩ := h.before_of hrecord
    obtain ⟨space, hspace, -⟩ := h.tidy.spaces ref old hold (honward.source ▸ hsource)
    obtain ⟨found, hfound⟩ := Option.isSome_iff_exists.1
      (h.space_exists (Option.isSome_iff_exists.2 ⟨space, hspace⟩))
    rw [honward.space]
    refine ⟨found, hfound, fun hnot => ?_⟩
    have hempty := h.blank_space hold (honward.source ▸ hsource) hnot
    unfold Store.space at hempty
    rwa [hfound] at hempty
  · intro ref other record record' hrecord hrecord' hsource hsource' hspace
    obtain ⟨old, hold, honward⟩ := h.before_of hrecord
    obtain ⟨old', hold', honward'⟩ := h.before_of hrecord'
    rw [honward.space, honward'.space] at hspace
    exact h.tidy.distinct ref other old old' hold hold' (honward.source ▸ hsource)
      (honward'.source ▸ hsource') hspace

end Links

/-- The records of a batch are linked in a host whose bindings are live. -/
structure LinksLive (before start host : Host) (refs : List (Ref .record))
    (slots : List (Ref .record × List (String × Ref .slot))) : Prop
    extends Links before start host refs slots where
  live : before.BindingsLive

namespace LinksLive

open Links

variable {before start host : Host} {refs : List (Ref .record)}
  {slots : List (Ref .record × List (String × Ref .slot))}

/-- Nothing was bound in the scope of a record before it was committed. -/
theorem afresh (h : LinksLive before start host refs slots) {unit : LinkUnit} {wiring : Wiring}
    (hcommits : (Batch.ofRecords before refs).Commits unit wiring) :
    Committed slots start host unit.record default wiring := by
  have hcommitted := (h.committed hcommits).1
  rwa [h.live.scope _ (h.not_linked (mem_refs hcommits.mem).1)] at hcommitted

/-- What a record may assign is a slot made for it, or one that it had. -/
theorem owns_cases (h : LinksLive before start host refs slots) {ref : Ref .record} {name : String}
    {slot : Ref .slot} (howns : host.Owns ref name slot) :
    slotOf slots ref name = some slot ∨ before.Owns ref name slot :=
  (h.toLinks.owns_cases howns).imp_left And.left

/-- A slot that was there is assigned only by whom it was. -/
theorem owns_before (h : LinksLive before start host refs slots) {ref : Ref .record} {name : String}
    {slot : Ref .slot} (hslot : (before.store.slots.get? slot).isSome)
    (howns : host.Owns ref name slot) : before.Owns ref name slot := by
  rcases h.owns_cases howns with hnew | howns
  · rw [(h.made.new hnew).1] at hslot
    cases hslot
  · exact howns

theorem owns_start (h : LinksLive before start host refs slots) {ref : Ref .record} {name : String}
    {slot : Ref .slot} (howns : host.Owns ref name slot) :
    (start.store.slots.get? slot).isSome := by
  rcases h.owns_cases howns with hslot | howns
  · rw [(h.made.new hslot).2]
    rfl
  · exact h.made.made.extends'.isSome (h.tidy.slots _ slot (Host.slotAt?_of_owns howns))

theorem shows (h : LinksLive before start host refs slots) {place : Place} {slot : Ref .slot}
    (hslot : host.slotAt? place = some slot) {target : Ref .record}
    (hrealises : Realises slots start host (.exports target) slot) :
    host.Shows place (host.record target).space := by
  refine ⟨slot, hslot, ?_, fun ref name howns => ?_⟩
  · rw [h.space, ← h.startRecord]
    exact hrealises.2
  · have hthere := h.owns_start howns
    rw [hrealises.1] at hthere
    cases hthere

/-- Two places with the same origin are alike. -/
theorem alike (h : LinksLive before start host refs slots) {place other : Place} {slot slot' : Ref .slot}
    {origin : Origin} (hslot : host.slotAt? place = some slot)
    (hrealises : Realises slots start host origin slot) (hslot' : host.slotAt? other = some slot')
    (hrealises' : Realises slots start host origin slot') : host.Alike place other := by
  cases origin with
  | slot found =>
    have heq : slot = found := hrealises
    have heq' : slot' = found := hrealises'
    exact .inl ⟨found, heq ▸ hslot, heq' ▸ hslot'⟩
  | localName record name =>
    have heq : slotOf slots record name = some slot := hrealises
    have heq' : slotOf slots record name = some slot' := hrealises'
    rw [heq] at heq'
    cases heq'
    exact .inl ⟨slot, hslot, hslot'⟩
  | exports record =>
    exact .inr ⟨_, h.shows hslot hrealises, h.shows hslot' hrealises'⟩

/-- Every binding of a committed record means what it says. -/
theorem means (h : LinksLive before start host refs slots) {unit : LinkUnit} {wiring : Wiring}
    (hcommits : (Batch.ofRecords before refs).Commits unit wiring) {binding : Binding}
    (hmem : binding ∈ unit.bindings) : host.Means unit.record binding := by
  have hwired := Batch.wired_of_wire hcommits.wired
  have hcommitted := h.afresh hcommits
  have htarget {source : String} {target : Ref .record} (h' : unit.target source = .ok target) :
      host.target? unit.record source = some target :=
    h.later.target? ((target_iff hcommits.mem).1 h')
  have hscope {name : String} {origin : Origin} (himport : (name, origin) ∈ wiring.imports) :
      ∃ slot, host.slotAt? (.scope unit.record name) = some slot ∧
        Realises slots start host origin slot := by
    obtain ⟨slot, hget, hrealises⟩ := hcommitted.imports name origin himport
    refine ⟨slot, ?_, hrealises⟩
    rw [Host.slotAt?_scope]
    unfold Environment.slot?
    rw [hget]
    rfl
  -- An imported name, and the name on the other namespace.
  have himport {name remote source : String} (h' : ∃ target origin,
      unit.target source = .ok target ∧ (name, origin) ∈ wiring.imports ∧
        (Batch.ofRecords before refs).originOf target remote = .ok (some origin)) :
      host.Towards unit.record source fun space =>
        host.Alike (.scope unit.record name) (.exports space remote) := by
    obtain ⟨target, origin, hsource, hmem, horigin⟩ := h'
    obtain ⟨slot, hslot, hrealises⟩ := hscope hmem
    obtain ⟨slot', hslot', hrealises'⟩ := h.export_realised (h.answers hcommits hsource) horigin
    exact ⟨target, htarget hsource, h.alike hslot hrealises hslot' hrealises'⟩
  -- An exported name, and the local name.
  have hexport {own name : String} (h' : ((name, .localName unit.record own) ∈ wiring.exports ∧
      own ∉ wiring.imports.map Prod.fst) ∨
        ∃ origin, (own, origin) ∈ wiring.imports ∧ (name, origin) ∈ wiring.exports) :
      host.Alike (.exports (host.record unit.record).space name) (.scope unit.record own) := by
    rcases h' with ⟨hmem, hnot⟩ | ⟨origin, hmem, hmem'⟩
    · obtain ⟨slot, hslot, hrealises⟩ := hcommitted.exports name _ hmem
      exact .inl ⟨slot, hslot, Host.slotAt?_of_owns (hcommitted.locals own slot hrealises rfl hnot)⟩
    · obtain ⟨slot, hslot, hrealises⟩ := hcommitted.exports name origin hmem'
      obtain ⟨slot', hslot', hrealises'⟩ := hscope hmem
      exact h.alike hslot hrealises hslot' hrealises'
  cases binding with
  | importName name source => exact himport (hwired.importName hmem)
  | importAs name newName source => exact himport (hwired.importAs hmem)
  | importAll newName source =>
    obtain ⟨target, hsource, hmem⟩ := hwired.importAll hmem
    obtain ⟨slot, hslot, hrealises⟩ := hscope hmem
    exact ⟨target, htarget hsource, h.shows hslot hrealises⟩
  | exportName name => exact hexport (hwired.exportName h.proper hcommits.mem (h.answers' hcommits) hmem)
  | exportAs own name => exact hexport (hwired.exportAs h.proper hcommits.mem (h.answers' hcommits) hmem)
  | exportFrom remote name source =>
    obtain ⟨target, origin, hsource, hmem, horigin⟩ :=
      hwired.exportFrom h.proper hcommits.mem (h.answers' hcommits) hmem
    obtain ⟨slot, hslot, hrealises⟩ := hcommitted.exports name origin hmem
    obtain ⟨slot', hslot', hrealises'⟩ := h.export_realised (h.answers hcommits hsource) horigin
    exact ⟨target, htarget hsource, h.alike hslot hrealises hslot' hrealises'⟩
  | exportAllAs name source =>
    obtain ⟨target, hsource, hmem⟩ := hwired.exportAllAs h.proper hcommits.mem hmem
    obtain ⟨slot, hslot, hrealises⟩ := hcommitted.exports name _ hmem
    have hslot : host.slotAt? (.exports (host.record unit.record).space name) = some slot := hslot
    exact ⟨target, htarget hsource, h.shows hslot hrealises⟩
  | exportAll source => trivial

theorem reaches (h : LinksLive before start host refs slots) {origin : Origin} {slot : Ref .slot}
    (hrealises : Realises slots start host origin slot)
    (hexists : ∀ found, origin = .slot found → (before.store.slots.get? found).isSome)
    {ref : Ref .record} {own : String} (howns : host.Owns ref own slot) :
    Reaches before ref own origin := by
  cases origin with
  | slot found =>
    obtain rfl : slot = found := hrealises
    exact h.owns_before (hexists slot rfl) howns
  | localName record name =>
    rcases h.owns_cases howns with hslot | howns
    · exact h.made.injective hrealises hslot
    · have hthere := h.tidy.slots _ slot (Host.slotAt?_of_owns howns)
      rw [(h.made.new hrealises).1] at hthere
      cases hthere
  | exports record =>
    have hthere := h.owns_start howns
    rw [hrealises.1] at hthere
    cases hthere

theorem leads_of_before (h : LinksLive before start host refs slots) {ref : Ref .record} {own : String}
    {slot : Ref .slot} {place : Place} (howns : before.Owns ref own slot)
    (hslot : before.slotAt? place = some slot) : host.Leads ref own place :=
  h.later.leads h.loads h.tidy.homes (h.live.leads ref own slot place howns hslot)

/-- A path that a search follows is one that the declared bindings make. -/
theorem leads_of_leads (h : LinksLive before start host refs slots) {record : Ref .record}
    {name : String} {origin : Origin}
    (hleads : (Batch.ofRecords before refs).Leads record name origin) {ref : Ref .record}
    {own : String} (hreaches : Reaches before ref own origin) :
    host.Leads ref own (.exports (host.record record).space name) := by
  induction hleads with
  | @outside record name exports slot hunit hexports hslot =>
    rw [h.space]
    rw [outside_ok hexports] at hslot
    exact h.leads_of_before hreaches hslot
  | @found record name unit origin hunit hstep =>
    obtain ⟨hmem, rfl⟩ := h.proper.unit record unit hunit
    exact h.leads_of_explicit hmem (LinkUnit.explicit_of_explicitStep hstep) hreaches
  | @forward record target name remote unit origin hunit hstep _ ih =>
    obtain ⟨hmem, rfl⟩ := h.proper.unit record unit hunit
    exact h.leads_of_explicit hmem (LinkUnit.explicit_of_explicitStep hstep) (ih hreaches)
  | @require record target name remote source unit origin hunit hstep _ ih =>
    obtain ⟨hmem, rfl⟩ := h.proper.unit record unit hunit
    exact h.leads_of_explicit hmem (LinkUnit.explicit_of_explicitStep hstep) (ih hreaches)
  | @star record target name unit targets origin hunit hstep hdefault htargets hmem _ ih =>
    obtain ⟨hunitmem, rfl⟩ := h.proper.unit record unit hunit
    obtain ⟨source, hsource, htarget⟩ := LinkUnit.mem_targets htargets target hmem
    obtain ⟨binding, hbinding, hstar⟩ := List.mem_filterMap.1 hsource
    have hstar : binding = .exportAll source := by
      cases binding <;> cases hstar
      rfl
    subst hstar
    have hbindings := h.bindings hunitmem
    refine .star (hbindings ▸ hbinding) (hbindings ▸ LinkUnit.exportedName_of_explicitStep hstep) ?_
      (h.target hunitmem htarget) (ih hreaches)
    obtain ⟨href, hunit⟩ := mem_refs hunitmem
    obtain ⟨record, hblank⟩ := h.blank _ href
    have heq : before.record unit.record = record := congrArg (Option.getD · default) hblank.get
    have hhome := h.tidy.homes _ _ hblank.get
    have hrecord := (h.later.record (h.exist _ href)).home
    rw [hrecord, h.later.settings _ (heq ▸ hhome)]
    rw [hunit] at hdefault
    exact hdefault

/-- An origin of a wiring that reaches a local name was found by a search. -/
theorem reaches_of_wiring (h : LinksLive before start host refs slots) {unit : LinkUnit}
    {wiring : Wiring} (hcommits : (Batch.ofRecords before refs).Commits unit wiring)
    {name : String} {origin : Origin} (hmem : (name, origin) ∈ wiring.imports ++ wiring.exports)
    {slot : Ref .slot} (hrealises : Realises slots start host origin slot) {ref : Ref .record}
    {own : String} (howns : host.Owns ref own slot) : Reaches before ref own origin := by
  refine h.reaches hrealises (fun found heq => ?_) howns
  rcases (Batch.wired_of_wire hcommits.wired).origin_leads hmem with
    ⟨record, remote, hleads⟩ | ⟨record, hexports⟩
  · exact h.slot_exists hleads heq
  · rw [heq] at hexports
    cases hexports

theorem leads_of_exported (h : LinksLive before start host refs slots) {unit : LinkUnit}
    {wiring : Wiring} (hcommits : (Batch.ofRecords before refs).Commits unit wiring)
    {name own : String} {slot : Ref .slot} {ref : Ref .record}
    (hslot : host.store.exportSlot? (host.record unit.record).space name = some slot)
    (howns : host.Owns ref own slot) :
    host.Leads ref own (.exports (host.record unit.record).space name) := by
  obtain ⟨origin, hmem, hrealises⟩ := (h.committed hcommits).1.exported name slot hslot
  have horigin := (Batch.wired_of_wire hcommits.wired).export_origin hmem
  exact h.leads_of_leads (Batch.leads_of_originOf horigin)
    (h.reaches_of_wiring hcommits (List.mem_append_right _ hmem) hrealises howns)

theorem leads_of_imported (h : LinksLive before start host refs slots) {unit : LinkUnit}
    {wiring : Wiring} (hcommits : (Batch.ofRecords before refs).Commits unit wiring)
    {name own : String} {slot : Ref .slot} {ref : Ref .record}
    (hslot : (host.record unit.record).environment.bounds.get? name = some ⟨slot, false⟩)
    (howns : host.Owns ref own slot) : host.Leads ref own (.scope unit.record name) := by
  obtain ⟨origin, hmem, hrealises⟩ := (h.afresh hcommits).imported hslot
  have hreaches := h.reaches_of_wiring hcommits (List.mem_append_left _ hmem)
    hrealises howns
  have hbindings := h.bindings hcommits.mem
  obtain ⟨binding, hbinding, himports⟩ :=
    (Batch.wired_of_wire hcommits.wired).imports_from hmem
  cases binding with
  | importName imported source =>
    obtain ⟨rfl, horigin⟩ := himports
    obtain ⟨target, htarget, horigin⟩ := Batch.Wired.importOrigin_ok horigin
    exact .importName (hbindings ▸ hbinding) (h.target hcommits.mem htarget)
      (h.leads_of_leads (Batch.leads_of_originOf horigin) hreaches)
  | importAs imported newName source =>
    obtain ⟨rfl, horigin⟩ := himports
    obtain ⟨target, htarget, horigin⟩ := Batch.Wired.importOrigin_ok horigin
    exact .importAs (hbindings ▸ hbinding) (h.target hcommits.mem htarget)
      (h.leads_of_leads (Batch.leads_of_originOf horigin) hreaches)
  | importAll newName source =>
    obtain ⟨-, target, -, rfl⟩ := himports
    exact hreaches.elim
  | exportName => exact himports.elim
  | exportAs => exact himports.elim
  | exportFrom => exact himports.elim
  | exportAll => exact himports.elim
  | exportAllAs => exact himports.elim

/-- The imported names of a committed record are those that its bindings import. -/
theorem imports_iff (h : LinksLive before start host refs slots) {unit : LinkUnit} {wiring : Wiring}
    (hcommits : (Batch.ofRecords before refs).Commits unit wiring) {name : String} :
    (host.record unit.record).environment.isImport name ↔
      name ∈ unit.bindings.filterMap Binding.importedName? := by
  have hcommitted := h.afresh hcommits
  obtain ⟨hnames, -⟩ := Batch.wireImports_imports (Batch.wired_of_wire hcommits.wired).imports
  rw [Environment.isImport_iff, ← hnames]
  constructor
  · rintro ⟨slot, hslot⟩
    obtain ⟨origin, hmem, -⟩ := hcommitted.imported hslot
    exact List.mem_map_of_mem (f := Prod.fst) hmem
  · intro hmem
    obtain ⟨⟨own, origin⟩, hpair, rfl⟩ := List.mem_map.1 hmem
    obtain ⟨slot, hslot, -⟩ := hcommitted.imports own origin hpair
    exact ⟨slot, hslot⟩

theorem owner (h : LinksLive before start host refs slots) {ref other : Ref .record}
    {name name' : String} {slot : Ref .slot} (howns : host.Owns ref name slot)
    (howns' : host.Owns other name' slot) : ref = other ∧ name = name' := by
  rcases h.owns_cases howns with hslot | hbefore
  · rcases h.owns_cases howns' with hslot' | hbefore'
    · exact h.made.injective hslot hslot'
    · have hthere := h.tidy.slots _ slot (Host.slotAt?_of_owns hbefore')
      rw [(h.made.new hslot).1] at hthere
      cases hthere
  · have hbefore' := h.owns_before (h.tidy.slots _ slot (Host.slotAt?_of_owns hbefore)) howns'
    exact h.live.owner ref other name name' slot hbefore hbefore'

theorem leads (h : LinksLive before start host refs slots) {ref : Ref .record} {own : String}
    {slot : Ref .slot} {place : Place} (howns : host.Owns ref own slot)
    (hslot : host.slotAt? place = some slot) : host.Leads ref own place := by
  rcases h.slotAt?_cases place with
    ⟨unit, wiring, hcommits, name, rfl | rfl⟩ | hsame
  · rw [Host.slotAt?_scope] at hslot
    obtain ⟨⟨slot', writable⟩, hget, rfl⟩ := Option.map_eq_some_iff.1 hslot
    cases writable with
    | true =>
      obtain ⟨rfl, rfl⟩ := h.owner howns hget
      exact .own
    | false => exact h.leads_of_imported hcommits hget howns
  · exact h.leads_of_exported hcommits hslot howns
  · rw [hsame] at hslot
    exact h.leads_of_before (h.owns_before (h.tidy.slots place slot hslot) howns) hslot

theorem holds_of_before (h : LinksLive before start host refs slots) {slot : Ref .slot}
    {space : Ref .exports} (hholds : before.Holds slot space) : host.Holds slot space :=
  ⟨h.extends' _ _ hholds.1, fun ref name howns =>
    hholds.2 ref name (h.owns_before (hholds.1 ▸ rfl) howns)⟩

theorem means_of_before (h : LinksLive before start host refs slots) {ref : Ref .record}
    (hlinked : before.Linked ref) {binding : Binding}
    (hmem : binding ∈ (before.record ref).bindings) : host.Means ref binding := by
  refine h.later.means h.loads hmem (fun name slot hslot => ?_) (fun space name slot hslot => ?_)
    (fun _ _ => h.holds_of_before) (h.live.means ref hlinked binding hmem)
  · rw [Host.slotAt?_scope] at hslot ⊢
    rwa [h.environment fun unit wiring hcommits heq =>
      h.not_linked (mem_refs hcommits.mem).1 (heq ▸ hlinked)]
  · rw [Host.slotAt?_exports] at hslot ⊢
    rwa [h.exports_of_some hslot]

theorem bindingsLive (h : LinksLive before start host refs slots) : host.BindingsLive := by
  refine ⟨h.tidy_after, fun ref hnot => ?_, fun ref other name name' slot => h.owner,
    fun ref name slot place => h.leads, fun ref hlinked binding hmem => ?_,
    fun ref hlinked name => ?_⟩
  · rw [h.environment fun unit wiring hcommits heq =>
      hnot ((h.linked ref).2 (.inr ⟨unit, wiring, hcommits, heq⟩))]
    exact h.live.scope ref fun hlinked => hnot ((h.linked ref).2 (.inl hlinked))
  · rcases (h.linked ref).1 hlinked with hbefore | ⟨unit, wiring, hcommits, rfl⟩
    · obtain ⟨old, hold, -⟩ := h.tidy.linked ref hbefore
      have hrecord := h.later.record (hold ▸ rfl : (before.records.get? ref).isSome)
      rw [hrecord.bindings] at hmem
      exact h.means_of_before hbefore hmem
    · rw [← h.bindings hcommits.mem] at hmem
      exact h.means hcommits hmem
  · rcases (h.linked ref).1 hlinked with hbefore | ⟨unit, wiring, hcommits, rfl⟩
    · obtain ⟨old, hold, -⟩ := h.tidy.linked ref hbefore
      have hrecord := h.later.record (hold ▸ rfl : (before.records.get? ref).isSome)
      rw [hrecord.bindings, h.environment fun unit wiring hcommits heq =>
        h.not_linked (mem_refs hcommits.mem).1 (heq ▸ hbefore)]
      exact h.live.imports ref hbefore name
    · rw [← h.bindings hcommits.mem]
      exact h.imports_iff hcommits

end LinksLive

end Act

end ModuleLoader
